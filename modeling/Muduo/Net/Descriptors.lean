import Mathlib.Data.Finset.Insert
import Mathlib.Data.Finset.Erase
import Muduo.Net.ChannelSteps

/-!
# Descriptors — numbers that come back

A descriptor that is closed is the next one that `accept` returns.  The poller and the kernel both
have maps by descriptor, so an entry left behind by a dead channel would be met by the next one.
`Table` keeps account of the descriptors of a loop and its owners: `socket_` is declared before
`channel_`, hence closed after the channel is gone, and `~EventLoop` closes `wakeupFd_` in its body.

`descriptors_reusable`: when a descriptor is closed neither map knows the number, every channel has
a descriptor of its own, and no `epoll_ctl` fails.
-/

namespace Muduo
namespace Net

/-! ## The operations of a registered poller -/

namespace Build

open EPoller (mapEntry kernelEntry)

variable {b : Build} {p p' : EPoller} {a : Addr} {c : Channel}

/-- Without the `assert`s the function does what it does when they hold. -/
theorem updataChannel_of_debug (h : p.updataChannel a = .ok p') : b.updataChannel p a = .ok p' := by
  cases b with
  | debug => exact h
  | release =>
      obtain ⟨c, hc, h⟩ := exists_ok_of_bind h
      rw [updataChannel, hc, ok_bind]
      cases hidx : c.index with
      | kNew =>
          simp only [hidx] at h ⊢
          obtain ⟨_, _, h⟩ := exists_ok_of_bind h
          exact h
      | kDeleted | kAdded =>
          simp only [hidx] at h ⊢
          obtain ⟨_, _, h⟩ := exists_ok_of_bind h
          obtain ⟨_, _, h⟩ := exists_ok_of_bind h
          exact h

theorem setInterest_put (h : p.Registered) (hc : p.objects a = some c) (op : Interest) :
    b.setInterest p a op = .ok (p.put a (c.edit op)) := by
  have hdebug := EPoller.setInterest_ok h hc op
  rw [EPoller.setInterest, EPoller.deref_eq hc, ok_bind] at hdebug
  rw [setInterest, EPoller.deref_eq hc, ok_bind]
  exact updataChannel_of_debug hdebug

/-- `Channel::remove` takes the channel out, also when it still has an interest. -/
theorem remove_put (h : p.Registered) (hc : p.objects a = some c) (hop : b.remove p a = .ok p') :
    p' = p.put a c.removed := by
  rcases h.placed hc with ⟨hmap, hkernel⟩
  simp only [remove, EPoller.deref_eq hc, ok_bind] at hop
  obtain ⟨_, _, hop⟩ := exists_ok_of_bind hop
  have hstored : (p.store a { c with addedToLoop := false }).objects a =
      some { c with addedToLoop := false } := by
    simp [EPoller.store]
  simp only [removeChannel, EPoller.deref_eq hstored, ok_bind] at hop
  obtain ⟨_, _, hop⟩ := exists_ok_of_bind hop
  obtain ⟨_, _, hop⟩ := exists_ok_of_bind hop
  obtain ⟨_, _, hop⟩ := exists_ok_of_bind hop
  obtain ⟨_, _, hop⟩ := exists_ok_of_bind hop
  obtain ⟨_, _, hop⟩ := exists_ok_of_bind hop
  cases hidx : c.index with
  | kAdded =>
      simp only [mapEntry, kernelEntry, hidx] at hmap hkernel
      simp [hidx, EPoller.update, EPoller.set_index, EPoller.store, EPoller.deref, hkernel,
        epoll_ctl] at hop
      subst hop
      simp [EPoller.put, mapEntry, kernelEntry, Channel.removed]
  | kNew | kDeleted =>
      -- The kernel has no entry that is to be deleted.
      simp only [mapEntry, kernelEntry, hidx] at hmap hkernel
      have hint : Function.update p.interest c.fd none = p.interest := by
        rw [← hkernel, Function.update_eq_self]
      simp [hidx, EPoller.set_index, EPoller.store, EPoller.deref] at hop
      subst hop
      simp [EPoller.put, mapEntry, kernelEntry, Channel.removed, hint]

end Build

namespace ChannelOwners

open TcpConnection ConnectionUse ConnectionOwnership

section Registered

variable {b : Build} {act : Act} {p p' : EPoller} {a : Addr} {c : Channel}

theorem registered_channelOp (h : p.Registered) (hc : p.objects a = some c) {op : ChannelOp}
    (hop : channelOp b a p op = .ok p') : p'.Registered := by
  cases op with
  | edit op =>
      rw [channelOp, Build.setInterest_put h hc op] at hop
      cases hop
      refine h.put_self hc rfl ?_
      simp only [Channel.edit, Bool.true_eq_false, false_iff]
      split <;> simp
  | remove =>
      rw [Build.remove_put h hc hop]
      exact h.put_self hc rfl (by simp [Channel.removed])

theorem registered_create (h : p.Registered) (hfree : p.objects a = none) {fd : Int}
    (hfd : ∀ a c, p.objects a = some c → c.fd ≠ fd) : (p.create a fd).Registered := by
  rw [EPoller.create_ok h hfd]
  refine h.put (by simp [Channel.new]) fun a' d hd => iff_of_false (hfd a' d hd) ?_
  rintro rfl
  rw [hfree] at hd
  cases hd

/-- A step keeps the poller registered, if the descriptor of a new channel is that of no other. -/
theorem Polled.registered (hstep : Polled b act a p p') (htracks : Tracks p) (h : p.Registered)
    (hfd : ∀ fd ∈ act.newFd, ∀ a c, p.objects a = some c → c.fd ≠ fd) : p'.Registered := by
  cases hstep with
  | same _ => exact h
  | created fd hnew hfree => exact registered_create h hfree (hfd fd hnew)
  | used c ops p' _ hc hops =>
      exact Tracks.channelOps_keep (fun h hc hop => registered_channelOp h hc hop) htracks h hc hops
  | gone c _ hc hadded => exact h.destroy hc hadded

end Registered

/-! ## The table of descriptors -/

structure Table where
  world : World
  /-- The open descriptors of the loop and its owners. -/
  fds : Finset Int
  /-- Those of sockets whose destructor comes next. -/
  closing : Finset Int

/-- The body of the destructor closes the descriptor; otherwise a `Socket` is destroyed after the
channel. -/
def Kind.closesInBody : Kind → Bool
  | .eventLoop => true
  | .timerQueue => true
  | .acceptor => false
  | .tcpConnection => false

namespace Table

/-- `::close`: with the descriptor its entry in the interest set goes. -/
def close (s : Table) (fd : Int) : Table where
  world := { s.world with
    poller := { s.world.poller with interest := Function.update s.world.poller.interest fd none } }
  fds := s.fds.erase fd
  closing := s.closing.erase fd

inductive Act
  | world (act : ChannelOwners.Act)
  /-- `~Socket`. -/
  | socketDtor (fd : Int)
  deriving DecidableEq, Repr

/-- The descriptor of the channel at an address. -/
def fdOf (s : World) (a : Addr) : Option Int :=
  (s.poller.objects a).map (·.fd)

/-- What a step of the world `s` does to its descriptors, besides what it does to the world. -/
def account (s : World) (t : Table) : ChannelOwners.Act → Table
  | .newAcceptor _ fd => { t with fds := insert fd t.fds }
  | .newConnection _ fd _ _ _ _ => { t with fds := insert fd t.fds }
  | .dtor a =>
      match s.owners a, fdOf s a with
      | some o, some fd => if o.owner.kind.closesInBody then t.close fd else t
      | _, _ => t
  | .channelDtor a =>
      match s.owners a, fdOf s a with
      | some o, some fd =>
          if o.owner.kind.closesInBody then t else { t with closing := insert fd t.closing }
      | _, _ => t
  | _ => t

def exec (b : Build) (s : Table) : Act → Except Fault Table
  | .world act => do
      let world ← ChannelOwners.exec b s.world act
      pure (account s.world { s with world := world } act)
  | .socketDtor fd => pure (s.close fd)

/-- The kernel gives out a descriptor that is not open. -/
def Enabled (s : Table) : Act → Prop
  | .world act => ChannelOwners.Enabled s.world act ∧ ∀ fd ∈ act.newFd, fd ∉ s.fds
  | .socketDtor fd => fd ∈ s.closing

instance (s : Table) : (a : Act) → Decidable (Enabled s a)
  | .world _ => inferInstanceAs (Decidable (_ ∧ _))
  | .socketDtor _ => inferInstanceAs (Decidable (_ ∈ _))

/-- The loop is new. -/
def Starts (b : Build) (s : Table) : Prop :=
  ∃ r : NewLoop, r.timerfdChannel ≠ r.wakeupChannel ∧ 0 ≤ r.wakeupFd ∧ r.timerfd ≠ r.wakeupFd ∧
    World.new b r = .ok s.world ∧ s.fds = {r.timerfd, r.wakeupFd} ∧ s.closing = ∅

def system (b : Build) : StepSystem Table Act :=
  StepSystem.ofExec (Starts b) Enabled (exec b)

/-- The timer queue is not destroyed: its channel would stay behind. -/
def Meets (s : Table) : Act → Prop
  | .world (.dtor a) =>
      ChannelOwners.Meets s.world (.dtor a) ∧
        ∀ o ∈ s.world.owners a, o.owner.kind ≠ .timerQueue
  | .world act => ChannelOwners.Meets s.world act
  | .socketDtor _ => True

theorem Meets.world {s : Table} {act : ChannelOwners.Act} (h : Meets s (.world act)) :
    ChannelOwners.Meets s.world act := by
  cases act with
  | dtor a => exact h.1
  | _ => exact h

/-- The owner has not closed the descriptor of its channel. -/
def Keeps (o : Owned) : Prop :=
  o.owner.kind.closesInBody = true → o.dtor = false

structure Inv (s : Table) : Prop where
  world : s.world.Inv
  registered : s.world.poller.Registered
  opened : ∀ {a o c}, s.world.owners a = some o → s.world.poller.objects a = some c → Keeps o →
    c.fd ∈ s.fds
  alive : s.world.phase = .running → ∀ {a o}, s.world.owners a = some o → Keeps o
  /-- A channel is gone before its descriptor. -/
  gone : ∀ fd ∈ s.closing, fd ∈ s.fds ∧ ∀ a c, s.world.poller.objects a = some c → c.fd ≠ fd

variable {b : Build} {s t : Table} {fd : Int} {w : World} {act : ChannelOwners.Act} {x : Addr}

/-! ## Closing -/

/-- Without an entry, a close leaves the poller as it is. -/
theorem close_world (h : s.world.poller.interest fd = none) : (s.close fd).world = s.world := by
  have hsame : Function.update s.world.poller.interest fd none = s.world.poller.interest := by
    rw [← h, Function.update_eq_self]
  rw [close, hsame]

/-- A descriptor may be closed when the channels with other ones are all that keep theirs. -/
theorem close_inv (h : s.Inv) (hnone : s.world.poller.interest fd = none)
    (hother : ∀ {a o c}, s.world.owners a = some o → s.world.poller.objects a = some c → Keeps o →
      c.fd ≠ fd) : (s.close fd).Inv := by
  have hworld := close_world hnone
  refine ⟨by rw [hworld]; exact h.world, by rw [hworld]; exact h.registered, ?_,
    by rw [hworld]; exact h.alive, ?_⟩
  · rw [hworld]
    intro a o c ho hc hkeeps
    exact Finset.mem_erase.mpr ⟨hother ho hc hkeeps, h.opened ho hc hkeeps⟩
  · rw [hworld]
    intro fd' hfd'
    obtain ⟨hne, hfd'⟩ := Finset.mem_erase.mp hfd'
    obtain ⟨hopen, hnone⟩ := h.gone fd' hfd'
    exact ⟨Finset.mem_erase.mpr ⟨hne, hopen⟩, hnone⟩

theorem socketDtor_inv (h : s.Inv) (hfd : fd ∈ s.closing) : (s.close fd).Inv := by
  have hgone := (h.gone fd hfd).2
  exact close_inv h (h.registered.absent hgone).2 fun _ hc _ => hgone _ _ hc

/-! ## Steps of the world -/

/-- A channel keeps its descriptor. -/
theorem fd_apply (ops : List ChannelOp) (c : Channel) :
    (ops.foldl ChannelOp.apply c).fd = c.fd := by
  induction ops generalizing c with
  | nil => rfl
  | cons op ops ih =>
      rw [List.foldl_cons, ih]
      cases op <;> rfl

/-- A channel after a step was there before with the same descriptor, or is new. -/
theorem fd_of_polled {p p' : EPoller} (h : Polled b act x p p') (htracks : Tracks p) {a : Addr}
    {c : Channel} (hc : p'.objects a = some c) :
    (∃ c₀, p.objects a = some c₀ ∧ c₀.fd = c.fd) ∨
      act.newFd = some c.fd ∧ p.objects a = none := by
  cases h with
  | same _ => exact Or.inl ⟨c, hc, rfl⟩
  | created fd hfd hfree =>
      by_cases ha : a = x
      · subst ha
        have hnew : c = Channel.new fd := by
          simpa [EPoller.create, EPoller.store, eq_comm] using hc
        exact Or.inr ⟨by rw [hnew]; exact hfd, hfree⟩
      · exact Or.inl ⟨c, by simpa [EPoller.create, EPoller.store, ha] using hc, rfl⟩
  | used c₀ ops p' _ hc₀ hops =>
      rw [(htracks.channelOps hc₀ hops).2] at hc
      by_cases ha : a = x
      · subst ha
        rw [Function.update_self, Option.some.injEq] at hc
        exact Or.inl ⟨c₀, hc₀, by rw [← hc, fd_apply]⟩
      · rw [Function.update_of_ne ha] at hc
        exact Or.inl ⟨c, hc, rfl⟩
  | gone c₀ _ _ _ =>
      by_cases ha : a = x
      · subst ha
        simp at hc
      · exact Or.inl ⟨c, by simpa [ha] using hc, rfl⟩

/-- An owner that keeps its descriptor kept it before the step. -/
theorem keeps_of_change (h : StepAt b s.world act x w) {a : Addr} {o o₀ : Owned}
    (ho : w.owners a = some o) (ho₀ : s.world.owners a = some o₀) (hkeeps : Keeps o) :
    Keeps o₀ := by
  obtain ⟨u, hchange, howners⟩ := h.owner
  rw [howners] at ho
  by_cases ha : a = x
  · subst ha
    rw [Function.update_self] at ho
    subst ho
    generalize w.phase = phase at hchange
    cases hchange with
    | created _ hfree =>
        rw [ho₀] at hfree
        cases hfree
    | used o' _ ho' hdtor _ hkind _ =>
        rw [ho₀] at ho'
        cases ho'
        exact fun _ => hdtor
    | dtor o' ho' _ _ =>
        rw [ho₀] at ho'
        cases ho'
        intro hbody
        cases hkeeps hbody
  · rw [Function.update_of_ne ha, ho₀] at ho
    cases ho
    exact hkeeps

theorem alive_of_step (h : s.Inv) (hstep : StepAt b s.world act x w)
    (hrunning : w.phase = .running) {a : Addr} {o : Owned} (ho : w.owners a = some o) :
    Keeps o := by
  obtain ⟨u, hchange, howners⟩ := hstep.owner
  have hwas := hchange.was_running hrunning
  rw [howners] at ho
  by_cases ha : a = x
  · subst ha
    rw [Function.update_self] at ho
    subst ho
    generalize hphase : w.phase = phase at hchange hrunning
    cases hchange with
    | created _ _ => exact fun _ => rfl
    | used _ _ _ _ hdtor _ _ => exact fun _ => hdtor
    | dtor o' _ _ hdie =>
        -- Those that close in the body die with the loop.
        intro hbody
        obtain ⟨owner, eventHandling, dtor⟩ := o'
        cases owner with
        | eventLoop => cases hrunning
        | timerQueue =>
            have hlate : s.world.phase = .unwoken := hdie
            rw [hwas] at hlate
            cases hlate
        | acceptor | tcpConnection _ => cases hbody
  · rw [Function.update_of_ne ha] at ho
    exact h.alive hwas ho

theorem exists_owner (h : s.Inv) {a : Addr} {c : Channel}
    (hc : s.world.poller.objects a = some c) : ∃ o, s.world.owners a = some o := by
  rcases h.world.placed a with ⟨_, hnone⟩ | ⟨o, _, ho, _⟩
  · rw [hc] at hnone
    cases hnone
  · exact ⟨o, ho⟩

/-- The kernel does not give out the descriptor of a channel. -/
theorem fresh_fd (h : s.Inv) (hen : Enabled s (.world act)) :
    ∀ fd ∈ act.newFd, ∀ a c, s.world.poller.objects a = some c → c.fd ≠ fd := by
  rintro fd hfd a c hc rfl
  have hrunning : s.world.phase = .running := by
    cases act with
    | newAcceptor _ _ => exact hen.1.1
    | newConnection _ _ _ _ _ _ => exact hen.1.1
    | _ => cases hfd
  obtain ⟨o, ho⟩ := exists_owner h hc
  exact hen.2 _ hfd (h.opened ho hc (h.alive hrunning ho))

/-- The descriptors after a step, before anything is closed. -/
def withNew (s : Table) (act : ChannelOwners.Act) (w : World) : Table where
  world := w
  fds := match act.newFd with
    | some fd => insert fd s.fds
    | none => s.fds
  closing := s.closing

theorem mem_withNew (h : fd ∈ s.fds ∨ act.newFd = some fd) : fd ∈ (s.withNew act w).fds := by
  rw [withNew]
  cases hnew : act.newFd with
  | none =>
      rw [hnew] at h
      exact h.resolve_right fun hno => by cases hno
  | some fd' =>
      rw [hnew, Option.some.injEq] at h
      exact Finset.mem_insert.mpr (h.symm.imp_left Eq.symm)

theorem withNew_inv (h : s.Inv) (hstep : StepAt b s.world act x w)
    (hw : w.Inv) (hen : Enabled s (.world act)) : (s.withNew act w).Inv := by
  have hfresh := fresh_fd h hen
  refine ⟨hw, hstep.polled.registered h.world.tracks h.registered hfresh, ?_,
    fun hrunning _ _ ho => alive_of_step h hstep hrunning ho, ?_⟩
  · intro a o c ho hc hkeeps
    refine mem_withNew ?_
    rcases fd_of_polled hstep.polled h.world.tracks hc with ⟨c₀, hc₀, hfd⟩ | ⟨hnew, _⟩
    · obtain ⟨o₀, ho₀⟩ := exists_owner h hc₀
      have hold := h.opened ho₀ hc₀ (keeps_of_change hstep ho ho₀ hkeeps)
      exact Or.inl (by rwa [hfd] at hold)
    · exact Or.inr hnew
  · intro fd hfd
    obtain ⟨hopen, hnone⟩ := h.gone fd hfd
    refine ⟨mem_withNew (Or.inl hopen), fun a c hc => ?_⟩
    rcases fd_of_polled hstep.polled h.world.tracks hc with ⟨c₀, hc₀, hsame⟩ | ⟨hnew, _⟩
    · rw [← hsame]
      exact hnone a c₀ hc₀
    · rintro rfl
      exact hen.2 _ hnew hopen

/-- A channel that is not in the loop has left no entry under its descriptor. -/
theorem absent_of_new {p : EPoller} {a : Addr} {c : Channel} (h : p.Registered)
    (hc : p.objects a = some c) (hnew : c.index = .kNew) :
    p.channels c.fd = none ∧ p.interest c.fd = none := by
  obtain ⟨hmap, hkernel⟩ := h.placed hc
  simp only [EPoller.mapEntry, EPoller.kernelEntry, hnew] at hmap hkernel
  exact ⟨hmap, hkernel⟩

/-- The body of `~EventLoop` takes its channel out of the poller before it closes `wakeupFd_`; no
other body closes a descriptor. -/
theorem dtor_spec {a : Addr} (h : s.Inv) (hmeets : Meets s (.world (.dtor a)))
    (hen : Enabled s (.world (.dtor a)))
    (hexec : ChannelOwners.exec b s.world (.dtor a) = .ok w) :
    ∃ o c, w.owners a = some o ∧ o.dtor = true ∧
      ((o.owner.kind.closesInBody = false ∧
          account s.world { s with world := w } (.dtor a) = { s with world := w }) ∨
        (o.owner.kind.closesInBody = true ∧ w.poller.objects a = some c ∧ c.index = .kNew ∧
          account s.world { s with world := w } (.dtor a) =
            Table.close { s with world := w } c.fd)) := by
  obtain ⟨o, c, ho, _, hc, _, hexec⟩ := owner_ok h.world hen.1 hexec
  obtain ⟨_, _, hexec⟩ := exists_ok_of_bind hexec
  obtain ⟨p, hops, hexec⟩ := exists_ok_of_bind hexec
  cases hexec
  have hobjects := (h.world.tracks.channelOps hc hops).2
  have htimer := hmeets.2 o ho
  refine ⟨{ o with dtor := true }, (c.edit .disableAll).removed, Function.update_self .., rfl, ?_⟩
  simp only [account, ho, fdOf, hc, Option.map_some]
  cases hkind : o.owner.kind with
  | acceptor | tcpConnection => exact Or.inl ⟨rfl, rfl⟩
  | timerQueue => exact absurd hkind htimer
  | eventLoop =>
      refine Or.inr ⟨rfl, ?_, rfl, rfl⟩
      rw [World.put, hobjects, hkind, Function.update_self]
      rfl

theorem dtor_inv {a : Addr} (h : s.Inv) (hmid : ({ s with world := w } : Table).Inv)
    (hmeets : Meets s (.world (.dtor a))) (hen : Enabled s (.world (.dtor a)))
    (hexec : ChannelOwners.exec b s.world (.dtor a) = .ok w) :
    (account s.world { s with world := w } (.dtor a)).Inv := by
  obtain ⟨o, c, ho, hdtor, hcase⟩ := dtor_spec h hmeets hen hexec
  rcases hcase with ⟨_, haccount⟩ | ⟨hbody, hc, hnew, haccount⟩
  · rw [haccount]
    exact hmid
  · rw [haccount]
    refine close_inv hmid (absent_of_new hmid.registered hc hnew).2 ?_
    intro a' o' c' ho' hc' hkeeps hfd
    have ha : a' = a := hmid.registered.distinct hc' hc hfd
    subst ha
    have hsame : o' = o := Option.some.inj (ho'.symm.trans ho)
    have halive : o.dtor = false := (hsame ▸ hkeeps) hbody
    rw [hdtor] at halive
    cases halive

/-- The channel of a socket is gone, and its descriptor is the next to be closed. -/
theorem channelDtor_inv {a : Addr} (h : s.Inv) (hmid : ({ s with world := w } : Table).Inv)
    (hen : Enabled s (.world (.channelDtor a)))
    (hexec : ChannelOwners.exec b s.world (.channelDtor a) = .ok w) :
    (account s.world { s with world := w } (.channelDtor a)).Inv := by
  obtain ⟨o, c, ho, _, hc, _, hexec⟩ := owner_ok h.world hen.1 hexec
  obtain ⟨p, hp, hexec⟩ := exists_ok_of_bind hexec
  cases hexec
  simp only [account, ho, fdOf, hc, Option.map_some]
  split
  case isTrue => exact hmid
  case isFalse hsocket =>
    refine ⟨hmid.world, hmid.registered, hmid.opened, hmid.alive, fun fd hfd => ?_⟩
    rcases Finset.mem_insert.mp hfd with rfl | hfd
    · refine ⟨h.opened ho hc fun hbody => absurd hbody hsocket, fun a' c' hc' hsame => ?_⟩
      simp only [Build.destroy, EPoller.deref_eq hc, ok_bind] at hp
      obtain ⟨_, _, hp⟩ := exists_ok_of_bind hp
      obtain ⟨_, _, hp⟩ := exists_ok_of_bind hp
      obtain ⟨_, _, hp⟩ := exists_ok_of_bind hp
      obtain ⟨_, _, hp⟩ := exists_ok_of_bind hp
      cases hp
      by_cases ha : a' = a
      · subst ha
        simp at hc'
      · have hold : s.world.poller.objects a' = some c' := by simpa [ha] using hc'
        exact ha (h.registered.distinct hold hc hsame)
    · exact hmid.gone fd hfd

theorem discard_inv (h : s.Inv) (hmeets : Meets s (.world .discard))
    (hen : Enabled s (.world .discard))
    (hexec : ChannelOwners.exec b s.world .discard = .ok w) :
    ({ s with world := w } : Table).Inv := by
  have hw := exec_inv h.world hmeets.world hen.1 hexec
  cases hexec
  refine ⟨hw, h.registered, fun ho hc hkeeps => ?_, fun hrunning => ?_, h.gone⟩
  · obtain ⟨o₀, hold, rfl⟩ := Option.map_eq_some_iff.mp ho
    refine h.opened hold hc ?_
    obtain ⟨owner, eventHandling, dtor⟩ := o₀
    cases owner <;> exact hkeeps
  · cases hrunning

theorem withNew_exec_inv (h : s.Inv) (hdiscard : act ≠ .discard) (hmeets : Meets s (.world act))
    (hen : Enabled s (.world act)) (hexec : ChannelOwners.exec b s.world act = .ok w) :
    (s.withNew act w).Inv := by
  obtain ⟨x, hstep⟩ := exec_at h.world hdiscard hmeets.world hen.1 hexec
  exact withNew_inv h hstep (exec_inv h.world hmeets.world hen.1 hexec) hen

theorem world_inv (h : s.Inv) (hmeets : Meets s (.world act)) (hen : Enabled s (.world act))
    (hexec : ChannelOwners.exec b s.world act = .ok w) :
    (account s.world { s with world := w } act).Inv := by
  by_cases hdiscard : act = .discard
  · subst hdiscard
    exact discard_inv h hmeets hen hexec
  have hmid := withNew_exec_inv h hdiscard hmeets hen hexec
  cases act with
  | dtor a => exact dtor_inv h hmid hmeets hen hexec
  | channelDtor a => exact channelDtor_inv h hmid hen hexec
  | _ => exact hmid

theorem step_inv {a : Act} (h : s.Inv) (hmeets : Meets s a) (hen : Enabled s a)
    (hexec : exec b s a = .ok t) : t.Inv := by
  cases a with
  | world act =>
      obtain ⟨w, hw, hexec⟩ := exists_ok_of_bind hexec
      cases hexec
      exact world_inv h hmeets hen hw
  | socketDtor fd =>
      cases hexec
      exact socketDtor_inv h hen

/-! ## What a close finds -/

/-- The world that a step has made when it comes to close a descriptor. -/
def beforeClose (b : Build) (s : Table) : Act → Except Fault World
  | .world act => ChannelOwners.exec b s.world act
  | .socketDtor _ => .ok s.world

/-- Of the steps of the world only the body of a destructor closes a descriptor. -/
theorem mem_account (hact : ∀ a, act ≠ .dtor a) (hopen : fd ∈ s.fds) :
    fd ∈ (account s.world { s with world := w } act).fds := by
  cases act with
  | dtor a => exact absurd rfl (hact a)
  | newAcceptor _ _ | newConnection _ _ _ _ _ _ => exact Finset.mem_insert_of_mem hopen
  | channelDtor a =>
      simp only [account]
      split
      · split <;> exact hopen
      · exact hopen
  | _ => exact hopen

/-- A descriptor that is closed is in neither of the two maps. -/
theorem absent_of_closed {a : Act} (h : s.Inv) (hmeets : Meets s a) (hen : Enabled s a)
    (hexec : exec b s a = .ok t) (hopen : fd ∈ s.fds) (hclosed : fd ∉ t.fds) :
    ∃ w, beforeClose b s a = .ok w ∧ w.poller.channels fd = none ∧ w.poller.interest fd = none := by
  have hself : ∀ {s : Table} {fd'}, fd ∈ s.fds → fd ∉ (s.close fd').fds → fd = fd' := by
    intro s fd' hopen hclosed
    by_contra hne
    exact hclosed (Finset.mem_erase.mpr ⟨hne, hopen⟩)
  cases a with
  | socketDtor fd' =>
      cases hexec
      obtain rfl := hself hopen hclosed
      exact ⟨s.world, rfl, h.registered.absent (h.gone fd hen).2⟩
  | world act =>
      obtain ⟨w, hw, hexec⟩ := exists_ok_of_bind hexec
      cases hexec
      refine ⟨w, hw, ?_⟩
      by_cases hdtor : ∃ a, act = .dtor a
      · obtain ⟨a, rfl⟩ := hdtor
        have hmid := withNew_exec_inv h (by simp) hmeets hen hw
        obtain ⟨_, c, _, _, hcase⟩ := dtor_spec h hmeets hen hw
        rcases hcase with ⟨_, haccount⟩ | ⟨_, hc, hnew, haccount⟩
        · rw [haccount] at hclosed
          exact absurd hopen hclosed
        · rw [haccount] at hclosed
          obtain rfl := hself (s := { s with world := w }) hopen hclosed
          exact absent_of_new hmid.registered hc hnew
      · exact absurd (mem_account (by simpa using hdtor) hopen) hclosed

/-! ## Loops from the start -/

/-- The channel of a new descriptor comes into the loop. -/
theorem enable_new {p p' : EPoller} {a : Addr} (h : p.Registered) (hfree : p.objects a = none)
    (hfd : ∀ a c, p.objects a = some c → c.fd ≠ fd)
    (hop : b.setInterest (p.create a fd) a .enableReading = .ok p') :
    p'.Registered ∧ p'.objects = Function.update p.objects a
      (some ((Channel.new fd).edit .enableReading)) := by
  have hnew := registered_create h hfree hfd
  have hobj : (p.create a fd).objects a = some (Channel.new fd) := Function.update_self ..
  have hedit : channelOp b a (p.create a fd) (.edit .enableReading) = .ok p' := hop
  refine ⟨registered_channelOp hnew hobj hedit, ?_⟩
  rw [(Build.setInterest_frame hobj hop).1, EPoller.create, EPoller.store, Function.update_idem]

theorem start_inv (h : Starts b s) : s.Inv := by
  obtain ⟨r, hne, hpos, hfds, hnew, hopen, hclosing⟩ := h
  have hw := starts_inv ⟨r, hne, hpos, hnew⟩
  obtain ⟨p₁, hp₁, hnew⟩ := exists_ok_of_bind hnew
  obtain ⟨p₂, hp₂, hnew⟩ := exists_ok_of_bind hnew
  have hworld := Except.ok.inj hnew
  obtain ⟨hreg₁, hobjects₁⟩ := enable_new EPoller.registered_new rfl (fun a c hc => by cases hc) hp₁
  -- The first channel is the only one when the second is created.
  have hfirst : ∀ a c, p₁.objects a = some c → a = r.timerfdChannel ∧ c.fd = r.timerfd := by
    intro a c hc
    rw [hobjects₁] at hc
    by_cases ha : a = r.timerfdChannel
    · subst ha
      rw [Function.update_self, Option.some.injEq] at hc
      exact ⟨rfl, by rw [← hc]; rfl⟩
    · rw [Function.update_of_ne ha] at hc
      cases hc
  have hfree : p₁.objects r.wakeupChannel = none := by
    rw [hobjects₁, Function.update_of_ne hne.symm]
    rfl
  obtain ⟨hreg₂, hobjects₂⟩ := enable_new hreg₁ hfree
    (fun a c hc heq => hfds ((hfirst a c hc).2.symm.trans heq)) hp₂
  have hsecond : ∀ a c, p₂.objects a = some c → c.fd ∈ s.fds := by
    intro a c hc
    rw [hopen, Finset.mem_insert, Finset.mem_singleton]
    rw [hobjects₂] at hc
    by_cases ha : a = r.wakeupChannel
    · subst ha
      rw [Function.update_self, Option.some.injEq] at hc
      exact Or.inr (by rw [← hc]; rfl)
    · rw [Function.update_of_ne ha] at hc
      exact Or.inl (hfirst a c hc).2
  refine ⟨hw, by rw [← hworld]; exact hreg₂, ?_, ?_, ?_⟩
  · intro a o c _ hc _
    rw [← hworld] at hc
    exact hsecond a c hc
  · intro _ a o ho _
    rw [← hworld] at ho
    by_cases ha : a = r.wakeupChannel
    · subst ha
      simp only [Function.update_self, Option.some.injEq] at ho
      subst ho
      rfl
    · simp only [Function.update_of_ne ha] at ho
      by_cases ht : a = r.timerfdChannel
      · subst ht
        rw [Function.update_self, Option.some.injEq] at ho
        subst ho
        rfl
      · rw [Function.update_of_ne ht] at ho
        cases ho
  · rw [hclosing]
    intro fd hfd
    cases hfd

/-- In every run in which the kernel gives out closed descriptors again: when a step closes a
descriptor neither the poller nor the kernel knows it any more, no two channels of the loop share
one, the three places of a registration agree, and no `epoll_ctl` has failed. -/
theorem descriptors_reusable (hs : ((system b).restrict Meets).Reachable s) :
    (∀ a t fd, Meets s a → (system b).step s a t → fd ∈ s.fds → fd ∉ t.fds →
        ∃ w, beforeClose b s a = .ok w ∧
          w.poller.channels fd = none ∧ w.poller.interest fd = none) ∧
      (∀ a a' c c', s.world.poller.objects a = some c → s.world.poller.objects a' = some c' →
        c.fd = c'.fd → a = a') ∧
      s.world.poller.ViewsAgree ∧ s.world.poller.ctlErrors = [] := by
  have h : s.Inv := by
    refine hs.invariant start_inv ?_
    rintro s a t h ⟨hmeets, hen, hexec⟩
    exact step_inv h hmeets hen hexec
  refine ⟨?_, ?_, h.registered.viewsAgree, h.registered.accepted⟩
  · rintro a t fd hmeets ⟨hen, hexec⟩ hopen hclosed
    exact absent_of_closed h hmeets hen hexec hopen hclosed
  · intro a a' c c' hc hc' hfd
    exact h.registered.distinct hc hc' hfd

/-- The peer of a connection closes it, and its descriptor is given to the next one. -/
def twoLives : List Act :=
  [.world (.newConnection 8 7 true 64 false false), .world (.run 8 (.accept 0)),
    .world (.handle 8 EPOLLIN), .world (.callback 8 (.bytes []) (.accept 0)), .world (.handled 8),
    .world (.run 8 (.accept 0)), .world (.dtor 8), .world (.channelDtor 8), .socketDtor 7,
    .world (.newConnection 9 7 true 64 false false), .world (.run 9 (.accept 0))]

def first (b : Build) : Table :=
  ⟨World.first b, {4, 5}, ∅⟩

def after (acts : List Act) : Table :=
  (StepSystem.execAll (exec .debug) (first .debug) acts).toOption.getD (first .debug)

theorem descriptors_reusable_twoLives :
    (∃ w, beforeClose .debug (after (twoLives.take 8)) (.socketDtor 7) = .ok w ∧
        w.poller.channels 7 = none ∧ w.poller.interest 7 = none) ∧
      (after twoLives).world.poller.channels 7 = some 9 ∧
      (after twoLives).world.poller.ViewsAgree ∧ (after twoLives).world.poller.ctlErrors = [] := by
  have hstart : Starts .debug (first .debug) :=
    ⟨firstLoop, by decide, by decide, by decide, rfl, rfl, rfl⟩
  have hfirst : ((system .debug).restrict Meets).Run (first .debug) (twoLives.take 8)
      (after (twoLives.take 8)) := by
    rw [system, StepSystem.restrict_ofExec]
    refine StepSystem.run_of_execAll ?_ rfl
    refine ⟨⟨trivial, by decide⟩, ⟨?_, by decide⟩, ⟨trivial, by decide⟩, ⟨trivial, by decide⟩,
      ⟨trivial, by decide⟩, ⟨?_, by decide⟩, ⟨⟨?_, by decide⟩, by decide⟩, ⟨?_, by decide⟩, trivial⟩
    all_goals
      try unfold Meets
      unfold ChannelOwners.Meets
      decide
  have hrest : ((system .debug).restrict Meets).Run (after (twoLives.take 8)) (twoLives.drop 8)
      (after twoLives) := by
    rw [system, StepSystem.restrict_ofExec]
    refine StepSystem.run_of_execAll ?_ rfl
    refine ⟨⟨trivial, by decide⟩, ⟨trivial, by decide⟩, ⟨?_, by decide⟩, trivial⟩
    unfold Meets ChannelOwners.Meets
    decide
  have hreached := hfirst.reachable (.init hstart)
  have hclosed := (descriptors_reusable hreached).1 (.socketDtor 7) _ 7 trivial
    ⟨by decide, rfl⟩ (by decide) (by decide)
  exact ⟨hclosed, by decide, (descriptors_reusable (hrest.reachable hreached)).2.2⟩

end Table

end ChannelOwners

end Net
end Muduo
