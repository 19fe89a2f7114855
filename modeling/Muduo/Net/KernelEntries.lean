import Muduo.Net.ChannelTeardown

/-!
# KernelEntries — the pointers that the kernel keeps

`epoll_ctl` gives the kernel the pointer `data.ptr` to a channel, and `epoll_wait` gives it back
with the next event.  `Kernel` says that such a pointer is to a channel that exists and is
registered.  It holds in every build, whatever the `assert`s would say and whether `epoll_ctl`
succeeds or not: the `DEL` of a channel takes away whatever entry is at its fd.
-/

namespace Muduo
namespace Net

/-! ## The functions of the poller -/

namespace Build

variable {b : Build} {p p' : EPoller} {channel : Addr} {c : Channel}

theorem set_index_interest {idx : Index} (h : p.set_index channel idx = .ok p') :
    p'.interest = p.interest := by
  obtain ⟨_, _, h⟩ := exists_ok_of_bind h
  cases h
  rfl

theorem epoll_ctl_cases {interest interest' : InterestSet} {op : CtlOp} {fd : Int}
    {event : EpollEvent} (h : epoll_ctl interest op fd event = some interest') :
    interest' = Function.update interest fd
      (if op = .EPOLL_CTL_DEL then none else some event) := by
  cases op <;> cases hfd : interest fd <;> simp_all [epoll_ctl]

/-- `ADD` and `MOD` write the entry of the channel or nothing. -/
theorem update_interest {op : CtlOp} (hobj : p.objects channel = some c)
    (hop : op ≠ .EPOLL_CTL_DEL) (h : p.update op channel = .ok p') :
    p'.interest = p.interest ∨
      p'.interest = Function.update p.interest c.fd (some ⟨c.events, channel⟩) := by
  simp only [EPoller.update, EPoller.deref_eq hobj, ok_bind] at h
  split at h
  · rename_i interest hctl
    cases h
    refine Or.inr ?_
    simpa [hop] using epoll_ctl_cases hctl
  · cases h
    exact Or.inl rfl

/-- After a `DEL` there is no entry, since it fails only if there was none before. -/
theorem delete_interest (hobj : p.objects channel = some c)
    (h : p.update .EPOLL_CTL_DEL channel = .ok p') :
    p'.interest = Function.update p.interest c.fd none := by
  simp only [EPoller.update, EPoller.deref_eq hobj, ok_bind] at h
  split at h
  · rename_i interest hctl
    cases h
    simpa using epoll_ctl_cases hctl
  · rename_i hctl
    cases h
    have hnone : p.interest c.fd = none := by
      cases hfd : p.interest c.fd with
      | none => rfl
      | some event => simp [epoll_ctl, hfd] at hctl
    rw [← hnone, Function.update_eq_self]

theorem updataChannel_interest (hobj : p.objects channel = some c)
    (h : b.updataChannel p channel = .ok p') :
    if c.index = .kAdded ∧ c.isNoneEvent = true then
      p'.interest = Function.update p.interest c.fd none
    else
      p'.interest = p.interest ∨
        p'.interest = Function.update p.interest c.fd (some ⟨c.events, channel⟩) := by
  simp only [updataChannel, EPoller.deref_eq hobj, ok_bind] at h
  -- `ADD` comes after the index is stored.
  have hadd : ∀ {q q' : EPoller}, q.interest = p.interest → q.objects = p.objects →
      (q.set_index channel .kAdded >>= fun q => q.update .EPOLL_CTL_ADD channel) = .ok q' →
      q'.interest = p.interest ∨
        q'.interest = Function.update p.interest c.fd (some ⟨c.events, channel⟩) := by
    intro q q' hinterest hobjects hrest
    obtain ⟨q₁, hq₁, hrest⟩ := exists_ok_of_bind hrest
    have hobj₁ := (set_index_frame hq₁ (by rw [hobjects, hobj])).1
    have hcase := update_interest (by rw [hobj₁, Function.update_self]) (by decide) hrest
    rwa [set_index_interest hq₁, hinterest] at hcase
  cases hidx : c.index with
  | kNew =>
      simp only [hidx] at h
      obtain ⟨_, _, h⟩ := exists_ok_of_bind h
      rw [if_neg (by simp)]
      exact hadd
        (q := { p with channels := Function.update p.channels c.fd (some channel) }) rfl rfl h
  | kDeleted =>
      simp only [hidx] at h
      obtain ⟨_, _, h⟩ := exists_ok_of_bind h
      obtain ⟨_, _, h⟩ := exists_ok_of_bind h
      rw [if_neg (by simp)]
      exact hadd rfl rfl h
  | kAdded =>
      simp only [hidx] at h
      obtain ⟨_, _, h⟩ := exists_ok_of_bind h
      obtain ⟨_, _, h⟩ := exists_ok_of_bind h
      by_cases hnone : c.isNoneEvent = true
      · simp only [hnone, if_true] at h
        obtain ⟨p₁, hp₁, h⟩ := exists_ok_of_bind h
        rw [if_pos ⟨rfl, hnone⟩, set_index_interest h]
        exact delete_interest hobj hp₁
      · simp only [hnone, if_false, Bool.false_eq_true] at h
        rw [if_neg fun hboth => hnone hboth.2]
        exact update_interest hobj (by decide) h

theorem remove_interest (hobj : p.objects channel = some c) (h : b.remove p channel = .ok p') :
    p'.interest =
      if c.index = .kAdded then Function.update p.interest c.fd none else p.interest := by
  simp only [remove, EPoller.deref_eq hobj, ok_bind] at h
  obtain ⟨_, _, h⟩ := exists_ok_of_bind h
  have hstored : (p.store channel { c with addedToLoop := false }).objects channel =
      some { c with addedToLoop := false } := by
    simp [EPoller.store]
  simp only [removeChannel, EPoller.deref_eq hstored, ok_bind] at h
  obtain ⟨_, _, h⟩ := exists_ok_of_bind h
  obtain ⟨_, _, h⟩ := exists_ok_of_bind h
  obtain ⟨_, _, h⟩ := exists_ok_of_bind h
  obtain ⟨_, _, h⟩ := exists_ok_of_bind h
  obtain ⟨_, _, h⟩ := exists_ok_of_bind h
  by_cases hidx : c.index = .kAdded
  · simp only [hidx, if_true] at h ⊢
    obtain ⟨p₁, hp₁, h⟩ := exists_ok_of_bind h
    rw [set_index_interest h]
    refine (delete_interest (c := { c with addedToLoop := false }) ?_ hp₁).trans rfl
    simp [EPoller.store, hidx]
  · simp only [hidx, if_false, pure_eq_ok, ok_bind] at h ⊢
    rw [set_index_interest h]
    rfl

end Build

namespace ChannelOwners

/-- What each operation on a channel keeps is kept by several. -/
theorem Tracks.channelOps_keep {b : Build} {a : Addr} {I : EPoller → Prop} {ops : List ChannelOp}
    (hkeep : ∀ {p c op p'}, I p → p.objects a = some c →
      ChannelOwners.channelOp b a p op = .ok p' → I p') :
    ∀ {p p' : EPoller} {c : Channel}, Tracks p → I p → p.objects a = some c →
      ops.foldlM (ChannelOwners.channelOp b a) p = .ok p' → I p' := by
  induction ops with
  | nil =>
      intro p p' c _ h _ hops
      cases hops
      exact h
  | cons op ops ih =>
      intro p p' c htracks h hobj hops
      rw [List.foldlM_cons] at hops
      obtain ⟨p₁, hp₁, hrest⟩ := exists_ok_of_bind hops
      obtain ⟨htracks₁, hobjects₁⟩ := htracks.channelOp op hobj hp₁
      exact ih htracks₁ (hkeep h hobj hp₁) (by rw [hobjects₁, Function.update_self]) hrest

/-! ## Pointers in the kernel -/

structure Kernel (p : EPoller) : Prop where
  live : ∀ {fd ev}, p.interest fd = some ev →
    ∃ c, p.objects ev.ptr = some c ∧ c.fd = fd ∧ c.index = .kAdded
  /-- A channel outside the loop is new to the poller. -/
  out : ∀ {a c}, p.objects a = some c → c.addedToLoop = false → c.index = .kNew

namespace Kernel

variable {b : Build} {p p' : EPoller} {a : Addr} {c d : Channel}

/-- A channel is changed, and with it the entry of its fd: the other entries are old ones of
other channels. -/
theorem place (h : Kernel p) (hobjects : p'.objects = Function.update p.objects a (some d))
    (hout : d.addedToLoop = false → d.index = .kNew)
    (hinterest : ∀ fd ev, p'.interest fd = some ev →
      ev.ptr = a ∧ d.fd = fd ∧ d.index = .kAdded ∨ ev.ptr ≠ a ∧ p.interest fd = some ev) :
    Kernel p' := by
  refine ⟨fun {fd ev} hev => ?_, fun {a' c'} hc' hadded => ?_⟩
  · rw [hobjects]
    rcases hinterest fd ev hev with ⟨hptr, hfd, hindex⟩ | ⟨hptr, hold⟩
    · exact ⟨d, by rw [hptr, Function.update_self], hfd, hindex⟩
    · obtain ⟨c, hc, hrest⟩ := h.live hold
      exact ⟨c, by rw [Function.update_of_ne hptr, hc], hrest⟩
  · rw [hobjects] at hc'
    by_cases ha : a' = a
    · subst ha
      rw [Function.update_self] at hc'
      cases hc'
      exact hout hadded
    · rw [Function.update_of_ne ha] at hc'
      exact h.out hc' hadded

/-- An entry that is left when that of the fd is gone is one of another channel. -/
theorem other_of_delete (h : Kernel p) (hobj : p.objects a = some c) {fd : Int} {ev : EpollEvent}
    (hev : Function.update p.interest c.fd none fd = some ev) :
    ev.ptr ≠ a ∧ p.interest fd = some ev := by
  have hfd : fd ≠ c.fd := by
    rintro rfl
    rw [Function.update_self] at hev
    cases hev
  rw [Function.update_of_ne hfd] at hev
  refine ⟨?_, hev⟩
  rintro rfl
  obtain ⟨c', hc', hfd', _⟩ := h.live hev
  rw [hobj] at hc'
  cases hc'
  exact hfd hfd'.symm

theorem create (h : Kernel p) (hfree : p.objects a = none) (fd : Int) :
    Kernel (p.create a fd) := by
  refine h.place (d := Channel.new fd) rfl (fun _ => rfl) fun fd' ev hev => Or.inr ⟨?_, hev⟩
  rintro rfl
  obtain ⟨c, hc, _⟩ := h.live hev
  rw [hfree] at hc
  cases hc

theorem edit (h : Kernel p) {op : Interest} (hobj : p.objects a = some c)
    (hop : b.setInterest p a op = .ok p') : Kernel p' := by
  have hobjects := (Build.setInterest_frame hobj hop).1
  simp only [Build.setInterest, EPoller.deref_eq hobj, ok_bind] at hop
  have hstored : (p.store a { c with events := op.edit c.events, addedToLoop := true }).objects a =
      some { c with events := op.edit c.events, addedToLoop := true } := by
    simp [EPoller.store]
  have hinterest := Build.updataChannel_interest hstored hop
  refine h.place hobjects (by rintro ⟨⟩) fun fd ev hev => ?_
  split at hinterest
  case isTrue hnone =>
    rw [hinterest] at hev
    exact Or.inr (h.other_of_delete hobj hev)
  case isFalse hsome =>
    have hindex : (c.edit op).index = .kAdded := by
      simp only [Channel.edit]
      exact if_neg hsome
    -- An entry of the channel was there before, or is the new one; both are at its fd.
    have hold : p.interest fd = some ev →
        ev.ptr = a ∧ (c.edit op).fd = fd ∧ (c.edit op).index = .kAdded ∨
          ev.ptr ≠ a ∧ p.interest fd = some ev := by
      intro hev
      by_cases hptr : ev.ptr = a
      · obtain ⟨c', hc', hfd, _⟩ := h.live hev
        rw [hptr, hobj] at hc'
        cases hc'
        exact Or.inl ⟨hptr, hfd, hindex⟩
      · exact Or.inr ⟨hptr, hev⟩
    rcases hinterest with hsame | hset
    · rw [hsame] at hev
      exact hold hev
    · rw [hset] at hev
      by_cases hfd : fd = c.fd
      · subst hfd
        rw [Function.update_self, Option.some.injEq] at hev
        subst hev
        exact Or.inl ⟨rfl, rfl, hindex⟩
      · rw [Function.update_of_ne hfd] at hev
        exact hold hev

theorem remove (h : Kernel p) (hobj : p.objects a = some c) (hop : b.remove p a = .ok p') :
    Kernel p' := by
  have hinterest := Build.remove_interest hobj hop
  refine h.place (Build.remove_frame hobj hop).1 (fun _ => rfl) fun fd ev hev => Or.inr ?_
  split at hinterest
  case isTrue hindex =>
    rw [hinterest] at hev
    exact h.other_of_delete hobj hev
  case isFalse hindex =>
    rw [hinterest] at hev
    refine ⟨?_, hev⟩
    -- Without the index `kAdded` there is no entry of the channel.
    rintro rfl
    obtain ⟨c', hc', _, hadded⟩ := h.live hev
    rw [hobj] at hc'
    cases hc'
    exact hindex hadded

theorem channelOps {ops : List ChannelOp} (h : Kernel p) (htracks : Tracks p)
    (hobj : p.objects a = some c) (hops : ops.foldlM (channelOp b a) p = .ok p') : Kernel p' := by
  refine Tracks.channelOps_keep (fun {p c op p'} h hobj hop => ?_) htracks h hobj hops
  cases op with
  | edit op => exact h.edit hobj hop
  | remove => exact h.remove hobj hop

theorem destroy (h : Kernel p) (hobj : p.objects a = some c) (hadded : c.addedToLoop = false) :
    Kernel { p with objects := Function.update p.objects a none } := by
  have hindex := h.out hobj hadded
  refine ⟨fun {fd ev} hev => ?_, fun {a' c'} hc' => ?_⟩
  · obtain ⟨c', hc', hfd, hadded'⟩ := h.live hev
    have hptr : ev.ptr ≠ a := by
      intro hptr
      rw [hptr, hobj] at hc'
      cases hc'
      rw [hindex] at hadded'
      cases hadded'
    exact ⟨c', by simpa [hptr] using hc', hfd, hadded'⟩
  · by_cases ha : a' = a
    · simp [ha] at hc'
    · exact h.out (by simpa [ha] using hc')

end Kernel

end ChannelOwners

end Net
end Muduo
