import Muduo.Net.ChannelCalls

/-!
# ChannelTeardown — channels are unregistered before they die

`Owned.Inv` says what the owner of a channel has to do with its registration.  `EventLoop` and
`Acceptor` take the channel out of the loop in their destructors.  A connection whose channel is
in the loop has its `connectDestroyed` ahead, and with it somebody who has a pointer, so its
destructor comes later.  The channel of a `TimerQueue` is in the loop from beginning to end.

`unregistered_iff_meets` is about every run of a loop with all its owners; the runs behind it show
what goes wrong without each of the conditions.
-/

namespace Muduo
namespace Net
namespace ChannelOwners

open TcpConnection ConnectionUse ConnectionOwnership

/-! ## A connection -/

namespace Conn

variable {b : Build} {m m' : Conn}

/-- `closeCallback_` has been called. -/
def Closed (m : Conn) : Prop :=
  m.tracked = false ∨ 0 < m.removals

/-- `connectEstablished` has not run, and nobody else knows the connection. -/
structure Fresh (m : Conn) : Prop where
  pending : m.pending = [.connectEstablished]
  tracked : m.tracked = true
  removals : m.removals = 0
  hands : m.hands = []
  dispatch : m.dispatch = []
  index : m.conn.channel.index = .kNew

structure Inv (m : Conn) : Prop where
  /-- A channel in the loop has its `connectDestroyed` ahead. -/
  due : m.conn.channel.addedToLoop = true → m.Due
  closed : m.Closed → Down m.conn
  fresh : .connectEstablished ∈ m.pending → m.Fresh

theorem due_of_not_closed (h : ¬ m.Closed) : m.Due := by
  refine Or.inl ?_
  by_contra htracked
  exact h (Or.inl (by simpa using htracked))

theorem Due.alive (h : m.Due) : m.Alive := by
  rcases h with h | h | h
  · exact Or.inl h
  · exact Or.inr (Or.inl h)
  · exact Or.inr (Or.inr (Or.inr (Or.inr ⟨_, h, rfl⟩)))

theorem Fresh.not_closed (h : m.Fresh) : ¬ m.Closed := by
  rintro (hclosed | hclosed)
  · rw [h.tracked] at hclosed
    cases hclosed
  · rw [h.removals] at hclosed
    cases hclosed

theorem new_inv (fd : Int) (onBase : Bool) (highWaterMark : Nat) (writeComplete highWater : Bool) :
    (new fd onBase highWaterMark writeComplete highWater).Inv where
  due hadded := by cases hadded
  closed hclosed := by
    rcases hclosed with h | h
    · cases h
    · cases h
  fresh _ := ⟨rfl, rfl, rfl, rfl, rfl, rfl⟩

theorem removeConnectionInLoop_ok (h : m.removeConnectionInLoop b = .ok m') :
    m' = { m with tracked := false, pending := m.pending ++ [.connectDestroyed] } := by
  obtain ⟨_, _, h⟩ := exists_ok_of_bind h
  cases h
  rfl

/-- What a function of the connection leaves of the rest. -/
structure Did (m : Conn) (r : Result) (m' : Conn) : Prop where
  conn : m'.conn = r.1
  due : m.Due → m'.Due
  removal : .closeCallback ∈ r.2 → m'.Due
  closed : m'.Closed → m.Closed ∨ .closeCallback ∈ r.2
  pending : .connectEstablished ∈ m'.pending → .connectEstablished ∈ m.pending

theorem did_ok {inLoop : Bool} {r : Result} (h : m.did b inLoop r = .ok m') : Did m r m' := by
  simp only [did] at h
  -- The functors that are queued are none of those that matter here.
  have hpending : ∀ t, t = .connectEstablished ∨ t = .connectDestroyed →
      (t ∈ (if inLoop = true then m.pending ++ (Effect.queued r.2).map .call else m.pending) ↔
        t ∈ m.pending) := by
    intro t ht
    split
    · rcases ht with rfl | rfl <;> simp
    · exact Iff.rfl
  have hstart := hpending _ (Or.inl rfl)
  have hdestroy := hpending _ (Or.inr rfl)
  generalize (if inLoop = true then m.pending ++ (Effect.queued r.2).map .call else m.pending) =
    pending at h hstart hdestroy
  have hdue : m.Due → m.tracked = true ∨ 0 < m.removals ∨ .connectDestroyed ∈ pending := by
    rintro (h | h | h)
    · exact Or.inl h
    · exact Or.inr (Or.inl h)
    · exact Or.inr (Or.inr (hdestroy.mpr h))
  split at h
  case isFalse hopen =>
    cases h
    exact ⟨rfl, hdue, fun hclose => absurd hclose hopen, Or.inl, hstart.mp⟩
  case isTrue hclose =>
    simp only [removeConnection] at h
    split at h
    · -- On the loop of the server the removal runs at once, else it is on its way.
      have hm' := removeConnectionInLoop_ok h
      subst hm'
      have hlast : Task.connectDestroyed ∈ pending ++ [.connectDestroyed] := by simp
      refine ⟨rfl, fun _ => Or.inr (Or.inr hlast), fun _ => Or.inr (Or.inr hlast),
        fun _ => Or.inr hclose, ?_⟩
      intro hmem
      refine hstart.mp ?_
      simpa using hmem
    · cases h
      have hmore : 0 < m.removals + 1 := Nat.succ_pos _
      exact ⟨rfl, fun _ => Or.inr (Or.inl hmore), fun _ => Or.inr (Or.inl hmore),
        fun _ => Or.inr hclose, hstart.mp⟩

/-- Every function keeps the invariant of an established connection; `connectDestroyed` may
have been the last that was due, and `startReadInLoop` must not come after it. -/
theorem inv_of_did {inLoop : Bool} {fn : Fn} (hdid : m.did b inLoop (fn.run m.conn) = .ok m')
    (hdue : fn ≠ .connectDestroyed → m.conn.channel.addedToLoop = true → m.Due)
    (hclosed : m.Closed → Down m.conn) (hfresh : .connectEstablished ∉ m.pending)
    (hread : fn.reads = true → m.Due) (hopen : fn = .connectEstablished → ¬ m.Closed) :
    m'.Inv := by
  have hspec := did_ok hdid
  refine ⟨?_, ?_, fun h => absurd (hspec.pending h) hfresh⟩
  · intro hadded
    rw [hspec.conn] at hadded
    rcases run_added hadded with ⟨hold, hfn⟩ | hup | hclose | hreads | hfn
    · exact hspec.due (hdue hfn hold)
    · exact hspec.due (due_of_not_closed fun h => hup (hclosed h))
    · exact hspec.removal hclose
    · exact hspec.due (hread hreads)
    · exact hspec.due (due_of_not_closed (hopen hfn))
  · intro h
    rw [hspec.conn]
    rcases hspec.closed h with hold | hclose
    · exact run_down (hclosed hold) fun hfn => hopen hfn hold
    · exact run_close hclose

end Conn

/-! ## The world -/

/-- What a channel `c` and the owner it is a member of have to do with each other. -/
structure Owned.Inv (c : Channel) (o : Owned) : Prop where
  dead : o.dtor = true → o.owner.kind ≠ .timerQueue →
    o.eventHandling = false ∧ c.addedToLoop = false
  wakeup : o.owner.kind = .eventLoop → o.eventHandling = false
  timerfd : o.owner.kind = .timerQueue → c.addedToLoop = true
  conn : ∀ {m}, o.owner = .tcpConnection m → m.conn.channel = c ∧ m.Inv

/-- There is no channel at the address, or one with an owner. -/
def Placed (s : World) (a : Addr) : Prop :=
  (s.owners a = none ∧ s.poller.objects a = none) ∨
    ∃ o c, s.owners a = some o ∧ s.poller.objects a = some c ∧ o.Inv c

structure World.Inv (s : World) : Prop where
  tracks : Tracks s.poller
  placed : ∀ a, Placed s a

variable {b : Build} {s s' : World} {a : Addr} {o : Owned} {p : EPoller}

namespace World.Inv

theorem owner (h : s.Inv) (ho : s.owners a = some o) :
    ∃ c, s.poller.objects a = some c ∧ o.Inv c := by
  rcases h.placed a with ⟨hnone, _⟩ | ⟨o', c, ho', hc, hinv⟩
  · rw [ho] at hnone
    cases hnone
  · rw [ho] at ho'
    cases ho'
    exact ⟨c, hc, hinv⟩

theorem free (h : s.Inv) (hfree : s.owners a = none) : s.poller.objects a = none := by
  rcases h.placed a with ⟨_, hnone⟩ | ⟨o, _, ho, _⟩
  · exact hnone
  · rw [hfree] at ho
    cases ho

theorem phase (h : s.Inv) (phase : Phase) : { s with phase := phase }.Inv :=
  ⟨h.tracks, h.placed⟩

/-- A step at one address leaves the others alone. -/
theorem put (h : s.Inv) (htracks : Tracks p) {c : Channel}
    (hobjects : p.objects = Function.update s.poller.objects a (some c)) (ho : o.Inv c) :
    (s.put a o p).Inv := by
  refine ⟨htracks, fun a' => ?_⟩
  by_cases ha : a' = a
  · subst ha
    exact Or.inr ⟨o, c, Function.update_self .., by
      rw [World.put, hobjects, Function.update_self], ho⟩
  · have hplaced := h.placed a'
    simpa only [Placed, World.put, hobjects, Function.update_of_ne ha] using hplaced

theorem put_same (h : s.Inv) {c : Channel} (hc : s.poller.objects a = some c) (ho : o.Inv c) :
    (s.put a o s.poller).Inv :=
  h.put h.tracks (by rw [← hc, Function.update_eq_self]) ho

end World.Inv

namespace Owned.Inv

variable {c c' : Channel} {m : Conn}

/-- An owner other than a connection, after its constructor. -/
theorem of_new {owner : Owner} (hkind : owner.kind ≠ .tcpConnection)
    (htimerfd : owner.kind = .timerQueue → c.addedToLoop = true) :
    Owned.Inv c (Owned.new owner) where
  dead hdead := by cases hdead
  wakeup _ := rfl
  timerfd := htimerfd
  conn howner := by
    rw [show owner = _ from howner] at hkind
    exact absurd rfl hkind

/-- A connection before its destructor. -/
theorem of_conn (hm : m.Inv) (hc : m.conn.channel = c) (hdtor : o.dtor = false) :
    Owned.Inv c { o with owner := .tcpConnection m } where
  dead hdead := by
    rw [show o.dtor = true from hdead] at hdtor
    cases hdtor
  wakeup hkind := by cases hkind
  timerfd hkind := by cases hkind
  conn howner := by
    cases howner
    exact ⟨hc, hm⟩

/-- A change of `eventHandling_` alone. -/
theorem handling (h : Owned.Inv c o) (hdtor : o.dtor = false) {flag : Bool}
    (hwakeup : o.owner.kind = .eventLoop → flag = false) :
    Owned.Inv c { o with eventHandling := flag } where
  dead hdead := by
    rw [show o.dtor = true from hdead] at hdtor
    cases hdtor
  wakeup := hwakeup
  timerfd := h.timerfd
  conn := h.conn

end Owned.Inv

/-! ## Steps -/

theorem owned_ok {f : Owned → Except Fault World} (h : (s.owned a >>= f) = .ok s') :
    ∃ o, s.owners a = some o ∧ f o = .ok s' := by
  obtain ⟨o, ho, hf⟩ := exists_ok_of_bind h
  unfold World.owned at ho
  split at ho <;> cases ho
  exact ⟨_, ‹_›, hf⟩

/-- A step on an owner, and the invariant before it. -/
theorem owner_ok (h : s.Inv) {P : Owned → Prop} (hen : ∃ o ∈ s.owners a, P o)
    {f : Owned → Except Fault World} (hf : (s.owned a >>= f) = .ok s') :
    ∃ o c, s.owners a = some o ∧ P o ∧ s.poller.objects a = some c ∧ o.Inv c ∧ f o = .ok s' := by
  obtain ⟨o, ho, hP⟩ := hen
  obtain ⟨o', ho', hf⟩ := owned_ok hf
  rw [Option.mem_def, ho'] at ho
  cases ho
  obtain ⟨c, hc, hinv⟩ := h.owner ho'
  exact ⟨o, c, ho', hP, hc, hinv, hf⟩

theorem eq_of_conn? {owner : Owner} {m : Conn} (h : m ∈ owner.conn?) :
    owner = .tcpConnection m := by
  cases owner <;> cases h
  rfl

/-- A step on a connection, and the invariant before it. -/
theorem onConn_ok (h : s.Inv) {P : Owned → Conn → Prop} (hen : OnConn s a P)
    {f : Owned → Conn → Except Fault World} (hf : onConn s a f = .ok s') :
    ∃ o m, s.owners a = some o ∧ o.dtor = false ∧ o.owner = .tcpConnection m ∧ P o m ∧
      s.poller.objects a = some m.conn.channel ∧ m.Inv ∧ f o m = .ok s' := by
  obtain ⟨o, c, ho, ⟨hdtor, m, hm, hP⟩, hc, hinv, hf⟩ := owner_ok h hen hf
  have howner := eq_of_conn? hm
  obtain ⟨hchannel, hm⟩ := hinv.conn howner
  subst hchannel
  rw [howner] at hf
  exact ⟨o, m, ho, hdtor, howner, hP, hc, hm, hf⟩

/-- A function of a connection. -/
theorem call_inv (h : s.Inv) {m : Conn} {inLoop : Bool} {fn : Fn}
    (hc : s.poller.objects a = some m.conn.channel) (hdtor : o.dtor = false)
    (hcall : s.call b a o m inLoop fn = .ok s')
    (hdue : fn ≠ .connectDestroyed → m.conn.channel.addedToLoop = true → m.Due)
    (hclosed : m.Closed → Down m.conn) (hfresh : .connectEstablished ∉ m.pending)
    (hread : fn.reads = true → m.Due) (hopen : fn = .connectEstablished → ¬ m.Closed) :
    s'.Inv := by
  obtain ⟨_, _, hcall⟩ := exists_ok_of_bind hcall
  obtain ⟨p, hops, hcall⟩ := exists_ok_of_bind hcall
  obtain ⟨m', hdid, hcall⟩ := exists_ok_of_bind hcall
  cases hcall
  obtain ⟨htracks, hobjects⟩ := h.tracks.channelOps hc hops
  have hm' := Conn.inv_of_did hdid hdue hclosed hfresh hread hopen
  refine h.put htracks hobjects (Owned.Inv.of_conn hm' ?_ hdtor)
  rw [(Conn.did_ok hdid).conn, channel_run]

theorem run_inv (h : s.Inv) {w : WriteResult} {o : Owned} {m : Conn} {t : Task} {rest : List Task}
    (hm : m.Inv) (hpending : m.pending = t :: rest)
    (hc : s.poller.objects a = some m.conn.channel) (hdtor : o.dtor = false)
    (hread : (t.fn w).reads = true → m.Due)
    (hcall : s.call b a o { m with pending := rest } true (t.fn w) = .ok s') : s'.Inv := by
  -- What was due is still due, unless it is what runs.
  have hkeep : t.fn w ≠ .connectDestroyed → m.Due →
      Conn.Due { m with pending := rest } := by
    rintro hfn (hdue | hdue | hdue)
    · exact Or.inl hdue
    · exact Or.inr (Or.inl hdue)
    · rw [hpending, List.mem_cons] at hdue
      rcases hdue with rfl | hdue
      · exact absurd rfl hfn
      · exact Or.inr (Or.inr hdue)
  refine call_inv (m := { m with pending := rest }) h hc hdtor hcall ?_ hm.closed ?_ ?_ ?_
  · exact fun hfn hadded => hkeep hfn (hm.due hadded)
  · -- `connectEstablished` is alone in the queue, so it is not behind another functor.
    intro hmem
    have hfresh := (hm.fresh (by rw [hpending]; exact List.mem_cons_of_mem _ hmem)).pending
    rw [hpending, List.cons_eq_cons] at hfresh
    have hrest : Task.connectEstablished ∈ rest := hmem
    rw [hfresh.2] at hrest
    cases hrest
  · intro hreads
    refine hkeep ?_ (hread hreads)
    intro hfn
    rw [hfn] at hreads
    cases hreads
  · intro hfn
    have ht : t = .connectEstablished := by
      cases t <;> first | rfl | cases hfn
    exact (hm.fresh (by rw [hpending, ht]; exact List.mem_cons_self)).not_closed

theorem removal_inv {m m' : Conn} (hm : m.Inv) (hremovals : 0 < m.removals)
    (h : { m with removals := m.removals - 1 }.removeConnectionInLoop b = .ok m') :
    m'.Inv ∧ m'.conn = m.conn := by
  have hm' := Conn.removeConnectionInLoop_ok h
  subst hm'
  refine ⟨⟨?_, ?_, ?_⟩, rfl⟩
  · exact fun _ => Or.inr (Or.inr (by simp))
  · exact fun _ => hm.closed (Or.inr hremovals)
  · intro hmem
    have hold : Task.connectEstablished ∈ m.pending := by simpa using hmem
    exact absurd (Or.inr hremovals) (hm.fresh hold).not_closed

theorem Conn.Inv.pointers {m : Conn} (hm : m.Inv) (n : Nat) : Conn.Inv { m with pointers := n } := by
  refine ⟨hm.due, hm.closed, fun hmem => ?_⟩
  have hfresh := hm.fresh hmem
  exact ⟨hfresh.pending, hfresh.tracked, hfresh.removals, hfresh.hands, hfresh.dispatch,
    hfresh.index⟩

theorem push_inv {m : Conn} (hm : m.Inv) {i : Nat} (hi : i < m.hands.length) (cb : LoopFunctor) :
    Conn.Inv { m with hands := m.hands.eraseIdx i, pending := m.pending ++ [.call cb] } := by
  refine ⟨fun hadded => ?_, hm.closed, fun hmem => ?_⟩
  · rcases hm.due hadded with hdue | hdue | hdue
    · exact Or.inl hdue
    · exact Or.inr (Or.inl hdue)
    · exact Or.inr (Or.inr (List.mem_append_left _ hdue))
  · have hold : Task.connectEstablished ∈ m.pending := by simpa using hmem
    rw [(hm.fresh hold).hands] at hi
    cases hi

theorem discard_inv {c : Channel} (h : Owned.Inv c o)
    (hmeets : ∀ m ∈ o.owner.conn?, m.conn.channel.addedToLoop = true →
      .connectDestroyed ∉ m.pending) : Owned.Inv c o.discard := by
  obtain ⟨owner, eventHandling, dtor⟩ := o
  cases owner with
  | tcpConnection m =>
      obtain ⟨hchannel, hm⟩ := h.conn rfl
      refine ⟨h.dead, h.wakeup, h.timerfd, ?_⟩
      intro m' howner
      cases howner
      refine ⟨hchannel, ?_, hm.closed, ?_⟩
      · intro hadded
        rcases hm.due hadded with hdue | hdue | hdue
        · exact Or.inl hdue
        · exact Or.inr (Or.inl hdue)
        · exact absurd hdue (hmeets m rfl hadded)
      · intro hmem
        cases hmem
  | eventLoop => exact ⟨h.dead, h.wakeup, h.timerfd, h.conn⟩
  | timerQueue => exact ⟨h.dead, h.wakeup, h.timerfd, h.conn⟩
  | acceptor => exact ⟨h.dead, h.wakeup, h.timerfd, h.conn⟩

theorem handle_inv {c : Channel} (h : Owned.Inv c o) (hdtor : o.dtor = false)
    (hkind : o.owner.kind ≠ .eventLoop) (hindex : c.index = .kAdded) (revents : Mask) :
    Owned.Inv c (o.handle revents) := by
  obtain ⟨owner, eventHandling, dtor⟩ := o
  have hdtor : dtor = false := hdtor
  subst hdtor
  cases owner with
  | tcpConnection m =>
      obtain ⟨hchannel, hm⟩ := h.conn rfl
      refine Owned.Inv.of_conn (o := ⟨.tcpConnection m, true, false⟩) ⟨hm.due, hm.closed, ?_⟩
        hchannel rfl
      intro hmem
      have hnew := (hm.fresh hmem).index
      rw [hchannel, hindex] at hnew
      cases hnew
  | eventLoop => exact absurd rfl hkind
  | timerQueue => exact h.handling rfl fun hkind => by cases hkind
  | acceptor => exact h.handling rfl fun hkind => by cases hkind

/-- The destructor of an owner begins: its body takes the channel out of the loop, or it is not
there any more. -/
theorem dtor_inv {c : Channel} (h : Owned.Inv c o) (hdie : MayDie s o)
    (hacceptor : o.owner.kind = .acceptor → o.eventHandling = false) :
    Owned.Inv (o.owner.kind.dtorOps.foldl ChannelOp.apply c) { o with dtor := true } := by
  obtain ⟨owner, eventHandling, dtor⟩ := o
  cases owner with
  | eventLoop =>
      refine ⟨fun _ _ => ⟨h.wakeup rfl, rfl⟩, h.wakeup, ?_, ?_⟩
      · intro hkind
        cases hkind
      · intro _ howner
        cases howner
  | timerQueue => exact ⟨fun _ hkind => absurd rfl hkind, h.wakeup, h.timerfd, h.conn⟩
  | acceptor =>
      refine ⟨fun _ _ => ⟨hacceptor rfl, rfl⟩, h.wakeup, ?_, ?_⟩
      · intro hkind
        cases hkind
      · intro _ howner
        cases howner
  | tcpConnection m =>
      have hdead : ¬ Owned.Held ⟨.tcpConnection m, eventHandling, dtor⟩ m := hdie.2
      obtain ⟨hchannel, hm⟩ := h.conn rfl
      have hquiet : eventHandling = false := by
        by_contra hbusy
        exact hdead (Or.inl (by simpa using hbusy))
      refine ⟨fun _ _ => ⟨hquiet, ?_⟩, h.wakeup, h.timerfd, h.conn⟩
      -- Nobody has a pointer, so `connectDestroyed` is not due.
      have hnot : m.conn.channel.addedToLoop = false := by
        by_contra hadded
        exact hdead (Or.inr (hm.due (by simpa using hadded)).alive)
      rw [← hchannel]
      exact hnot

theorem channelDtor_inv (h : s.Inv) {c : Channel} (hc : s.poller.objects a = some c)
    (hadded : c.addedToLoop = false) {flag : Bool} (hp : b.destroy s.poller a flag = .ok p)
    (phase : Phase) :
    World.Inv ⟨p, Function.update s.owners a none, phase⟩ := by
  simp only [Build.destroy, EPoller.deref_eq hc, ok_bind] at hp
  obtain ⟨_, _, hp⟩ := exists_ok_of_bind hp
  obtain ⟨_, _, hp⟩ := exists_ok_of_bind hp
  obtain ⟨_, _, hp⟩ := exists_ok_of_bind hp
  obtain ⟨_, _, hp⟩ := exists_ok_of_bind hp
  cases hp
  refine ⟨h.tracks.destroy hc hadded, fun a' => ?_⟩
  by_cases ha : a' = a
  · subst ha
    exact Or.inl ⟨Function.update_self .., Function.update_self ..⟩
  · have hplaced := h.placed a'
    simpa only [Placed, Function.update_of_ne ha] using hplaced

theorem create_inv (h : s.Inv) (hfree : s.owners a = none) {fd : Int} {owner : Owner}
    (ho : Owned.Inv (Channel.new fd) (Owned.new owner)) :
    (s.put a (Owned.new owner) (s.poller.create a fd)).Inv :=
  h.put (h.tracks.create (h.free hfree) fd) rfl ho

/-! ## Runs -/

/-- No `startReadInLoop` is executed when `connectDestroyed` is not ahead of it; `~EventLoop`
discards no `connectDestroyed` of a connection whose channel is in the loop; an acceptor is not
destroyed inside a callback of its own channel; and the channel is not that of a timer queue. -/
def Meets (s : World) : Act → Prop
  | .run a w => ∀ o ∈ s.owners a, ∀ m ∈ o.owner.conn?, ∀ t ∈ m.pending.head?,
      (t.fn w).reads = true → m.Due
  | .user a inLoop call => ∀ o ∈ s.owners a, ∀ m ∈ o.owner.conn?,
      (Fn.user inLoop call).reads = true → m.Due
  | .discard => ∀ a, ∀ o ∈ s.owners a, ∀ m ∈ o.owner.conn?,
      m.conn.channel.addedToLoop = true → .connectDestroyed ∉ m.pending
  | .dtor a => ∀ o ∈ s.owners a, o.owner.kind = .acceptor → o.eventHandling = false
  | .channelDtor a => ∀ o ∈ s.owners a, o.owner.kind ≠ .timerQueue
  | _ => True

theorem exec_inv (h : s.Inv) {act : Act} (hmeets : Meets s act) (hen : Enabled s act)
    (hexec : exec b s act = .ok s') : s'.Inv := by
  cases act with
  | newAcceptor a fd =>
      cases hexec
      exact create_inv h hen.2 (Owned.Inv.of_new (by decide) fun hkind => by cases hkind)
  | newConnection a fd onBase highWaterMark writeComplete highWater =>
      cases hexec
      exact create_inv h hen.2 (Owned.Inv.of_conn (o := Owned.new .acceptor)
        (Conn.new_inv fd onBase highWaterMark writeComplete highWater) rfl rfl)
  | listen a =>
      obtain ⟨o, c, _, ⟨hdtor, hkind⟩, hc, hinv, hexec⟩ := owner_ok h hen.2 hexec
      obtain ⟨p, hop, hexec⟩ := exists_ok_of_bind hexec
      cases hexec
      obtain ⟨htracks, hobjects⟩ := h.tracks.channelOp _ hc hop
      refine h.put htracks hobjects ⟨?_, hinv.wakeup, ?_, ?_⟩
      · intro hdead
        rw [hdtor] at hdead
        cases hdead
      · intro hother
        rw [hkind] at hother
        cases hother
      · intro m howner
        rw [howner] at hkind
        cases hkind
  | handle a revents =>
      -- The kernel reports events of registered channels only.
      obtain ⟨o, c, _, ⟨hdtor, _, hkind, ⟨d, hd, hindex⟩, _⟩, hc, hinv, hexec⟩ :=
        owner_ok h hen.2 hexec
      rw [Option.mem_def, hc] at hd
      cases hd
      cases hexec
      exact h.put_same hc (handle_inv hinv hdtor hkind hindex revents)
  | handled a =>
      obtain ⟨o, c, _, ⟨hdtor, _⟩, hc, hinv, hexec⟩ := owner_ok h hen hexec
      cases hexec
      exact h.put_same hc (hinv.handling hdtor fun _ => rfl)
  | callback a r w =>
      obtain ⟨o, m, _, hdtor, _, hdispatch, hc, hm, hexec⟩ := onConn_ok h hen.2 hexec
      cases hlist : m.dispatch with
      | nil => exact absurd hlist hdispatch
      | cons cb rest =>
          rw [hlist] at hexec
          exact call_inv (m := { m with dispatch := rest }) h hc hdtor hexec (fun _ => hm.due)
            hm.closed (fun hmem => hdispatch (hm.fresh hmem).dispatch) (fun hreads => by cases hreads)
            (fun hfn => by cases hfn)
  | hold a =>
      obtain ⟨o, m, _, hdtor, _, _, hc, hm, hexec⟩ := onConn_ok h hen.2 hexec
      cases hexec
      exact h.put_same hc (Owned.Inv.of_conn (hm.pointers _) rfl hdtor)
  | drop a =>
      obtain ⟨o, m, _, hdtor, _, _, hc, hm, hexec⟩ := onConn_ok h hen hexec
      cases hexec
      exact h.put_same hc (Owned.Inv.of_conn (hm.pointers _) rfl hdtor)
  | user a inLoop call =>
      obtain ⟨o, m, ho, hdtor, howner, ⟨hnew, _⟩, hc, hm, hexec⟩ := onConn_ok h hen.2 hexec
      refine call_inv h hc hdtor hexec (fun _ => hm.due) hm.closed hnew ?_ (fun hfn => by cases hfn)
      exact hmeets o ho m (by rw [howner]; rfl)
  | push a i =>
      obtain ⟨o, m, _, hdtor, _, hi, hc, hm, hexec⟩ := onConn_ok h hen.2 hexec
      rw [List.getElem?_eq_getElem hi] at hexec
      cases hexec
      exact h.put_same hc (Owned.Inv.of_conn (push_inv hm hi _) rfl hdtor)
  | run a w =>
      obtain ⟨o, m, ho, hdtor, howner, ⟨_, hpending⟩, hc, hm, hexec⟩ := onConn_ok h hen.2 hexec
      cases hlist : m.pending with
      | nil => exact absurd hlist hpending
      | cons t rest =>
          rw [hlist] at hexec
          refine run_inv h hm hlist hc hdtor ?_ hexec
          exact hmeets o ho m (by rw [howner]; rfl) t (by rw [hlist]; rfl)
  | removeConnectionInLoop a =>
      obtain ⟨o, m, _, hdtor, _, hremovals, hc, hm, hexec⟩ := onConn_ok h hen.2 hexec
      obtain ⟨m', hm', hexec⟩ := exists_ok_of_bind hexec
      cases hexec
      obtain ⟨hinv, hconn⟩ := removal_inv hm hremovals hm'
      exact h.put_same hc (Owned.Inv.of_conn hinv (by rw [hconn]) hdtor)
  | discard =>
      -- The one step that is about all addresses.
      cases hexec
      refine ⟨h.tracks, fun a => ?_⟩
      rcases h.placed a with ⟨hnone, hobj⟩ | ⟨o, c, ho, hc, hinv⟩
      · exact Or.inl ⟨by simp [hnone], hobj⟩
      · exact Or.inr ⟨o.discard, c, by simp [ho], hc, discard_inv hinv (hmeets a o ho)⟩
  | dtor a =>
      obtain ⟨o, c, ho, ⟨_, hdie⟩, hc, hinv, hexec⟩ := owner_ok h hen hexec
      obtain ⟨_, _, hexec⟩ := exists_ok_of_bind hexec
      obtain ⟨p, hops, hexec⟩ := exists_ok_of_bind hexec
      cases hexec
      obtain ⟨htracks, hobjects⟩ := h.tracks.channelOps hc hops
      exact (h.put htracks hobjects (dtor_inv hinv hdie (hmeets o ho))).phase _
  | channelDtor a =>
      obtain ⟨o, c, ho, ⟨hdtor, _⟩, hc, hinv, hexec⟩ := owner_ok h hen hexec
      obtain ⟨p, hp, hexec⟩ := exists_ok_of_bind hexec
      cases hexec
      exact channelDtor_inv h hc (hinv.dead hdtor (hmeets o ho)).2 hp _

/-- The constructor of the loop registers both channels. -/
theorem starts_inv (h : Starts b s) : s.Inv := by
  obtain ⟨r, hne, _, hnew⟩ := h
  obtain ⟨p₁, hp₁, hnew⟩ := exists_ok_of_bind hnew
  obtain ⟨p₂, hp₂, hnew⟩ := exists_ok_of_bind hnew
  cases hnew
  have hempty : Tracks EPoller.new := by
    intro fd a hentry
    cases hentry
  obtain ⟨htracks₁, hobjects₁⟩ :=
    (hempty.create rfl r.timerfd).channelOp (.edit .enableReading)
      (Function.update_self ..) hp₁
  have hfree : p₁.objects r.wakeupChannel = none := by
    rw [hobjects₁, Function.update_of_ne hne.symm]
    exact Function.update_of_ne hne.symm _ _
  obtain ⟨htracks₂, hobjects₂⟩ :=
    (htracks₁.create hfree r.wakeupFd).channelOp (.edit .enableReading)
      (Function.update_self ..) hp₂
  have htimer : Owned.Inv ((Channel.new r.timerfd).edit .enableReading) (Owned.new .timerQueue) :=
    Owned.Inv.of_new (by decide) fun _ => rfl
  have hwakeup : Owned.Inv ((Channel.new r.wakeupFd).edit .enableReading) (Owned.new .eventLoop) :=
    Owned.Inv.of_new (by decide) fun hkind => by cases hkind
  refine ⟨htracks₂, fun a => ?_⟩
  simp only [Placed, hobjects₂]
  by_cases hw : a = r.wakeupChannel
  · subst hw
    exact Or.inr ⟨_, _, Function.update_self .., Function.update_self .., hwakeup⟩
  · simp only [Function.update_of_ne hw, EPoller.create, EPoller.store, hobjects₁]
    by_cases ht : a = r.timerfdChannel
    · subst ht
      exact Or.inr ⟨_, _, Function.update_self .., Function.update_self .., htimer⟩
    · simp only [Function.update_of_ne ht]
      exact Or.inl ⟨trivial, rfl⟩

/-! ## The destructor of a channel -/

/-- `~Channel` is next at the address. -/
def AtChannelDtor (s : World) (a : Addr) : Prop :=
  Enabled s (.channelDtor a)

/-- What the `assert`s of `~Channel` say. -/
def Unregistered (s : World) (a : Addr) : Prop :=
  ∃ o ∈ s.owners a, ∃ c ∈ s.poller.objects a, c.addedToLoop = false ∧ o.eventHandling = false ∧
    s.poller.hasChannel a = .ok false

/-- `channels_` has no pointer to a destroyed channel. -/
def NoDangling (s : World) : Prop :=
  ∀ fd a, s.poller.channels fd = some a → ∃ c, s.poller.objects a = some c

theorem World.Inv.noDangling (h : s.Inv) : NoDangling s := by
  intro fd a hentry
  obtain ⟨c, hc, _⟩ := h.tracks fd a hentry
  exact ⟨c, hc⟩

theorem World.Inv.unregistered_iff (h : s.Inv) (hdtor : AtChannelDtor s a) :
    Unregistered s a ↔ Meets s (.channelDtor a) := by
  obtain ⟨o, ho, hdead, _⟩ := hdtor
  rw [Option.mem_def] at ho
  obtain ⟨c, hc, hinv⟩ := h.owner ho
  constructor
  · -- The channel of a timer queue never leaves the loop.
    rintro ⟨o', ho', c', hc', hout, _⟩ o'' ho'' hkind
    rw [Option.mem_def, ho] at ho''
    cases ho''
    rw [Option.mem_def, hc] at hc'
    cases hc'
    rw [hinv.timerfd hkind] at hout
    cases hout
  · -- A channel that is not in the loop has no entry, so `hasChannel` does not find it.
    intro hmeets
    obtain ⟨hquiet, hout⟩ := hinv.dead hdead (hmeets o ho)
    refine ⟨o, ho, c, hc, hout, hquiet, ?_⟩
    simp [EPoller.hasChannel, hc, h.tracks.no_entry hc hout c.fd]

theorem reachable_inv (h : ((system b).restrict Meets).Reachable s) : s.Inv := by
  refine h.invariant starts_inv ?_
  rintro s act t hs ⟨hmeets, hen, hexec⟩
  exact exec_inv hs hmeets hen hexec

/-- In every run, whoever the channels belong to and in whatever order they are destroyed, no
entry of `channels_` dangles, and `~Channel` finds the channel unregistered, except that of a timer
queue. -/
theorem unregistered_iff_meets (hs : ((system b).restrict Meets).Reachable s) :
    NoDangling s ∧ ∀ a, AtChannelDtor s a → (Unregistered s a ↔ Meets s (.channelDtor a)) :=
  ⟨(reachable_inv hs).noDangling, fun _ => (reachable_inv hs).unregistered_iff⟩

/-- Two channels at the addresses 1 and 2, with the fds 4 and 5. -/
def firstLoop : NewLoop where
  address := 100
  timerfdChannel := 1
  timerfd := 4
  wakeupChannel := 2
  wakeupFd := 5

/-- The world that the constructor leaves in a build. -/
def World.first (b : Build) : World :=
  (World.new b firstLoop).toOption.getD ⟨EPoller.new, fun _ => none, .over⟩

/-- An acceptor that never listens, and a connection whose peer closes it. -/
def peerClose : List Act :=
  [.newAcceptor 3 6, .newConnection 8 7 true 64 false false, .run 8 (.accept 0), .handle 8 EPOLLIN,
    .callback 8 (.bytes []) (.accept 0), .handled 8, .run 8 (.accept 0), .dtor 8, .dtor 3]

def World.afterPeerClose : World :=
  (StepSystem.execAll (exec .debug) (World.first .debug) peerClose).toOption.getD
    (World.first .debug)

theorem unregistered_iff_meets_peerClose :
    ((system .debug).restrict Meets).Reachable World.afterPeerClose ∧
      (NoDangling World.afterPeerClose ∧ ∀ a, AtChannelDtor World.afterPeerClose a →
        (Unregistered World.afterPeerClose a ↔ Meets World.afterPeerClose (.channelDtor a))) := by
  have hstart : Starts .debug (World.first .debug) := ⟨firstLoop, by decide, by decide, rfl⟩
  have henabled : StepSystem.EnabledAlong (fun s a => Meets s a ∧ Enabled s a) (exec .debug)
      (World.first .debug) peerClose := by
    refine ⟨⟨trivial, by decide⟩, ⟨trivial, by decide⟩, ⟨?_, by decide⟩, ⟨trivial, by decide⟩,
      ⟨trivial, by decide⟩, ⟨trivial, by decide⟩, ⟨?_, by decide⟩, ⟨?_, by decide⟩,
      ⟨?_, by decide⟩, trivial⟩
    all_goals unfold Meets; decide
  have hrun : ((system .debug).restrict Meets).Run (World.first .debug) peerClose
      World.afterPeerClose := by
    rw [system, StepSystem.restrict_ofExec]
    exact StepSystem.run_of_execAll henabled rfl
  have hs := hrun.reachable (StepSystem.Reachable.init hstart)
  exact ⟨hs, unregistered_iff_meets hs⟩

/-- The world after a run of a release build. -/
def World.after (acts : List Act) : World :=
  (StepSystem.execAll (exec .release) (World.first .release) acts).toOption.getD
    (World.first .release)

/-- The run comes to a `~Channel` that finds the channel registered, or in the middle of an event. -/
def Fails (acts : List Act) (a : Addr) : Prop :=
  ∃ s₀, Starts .release s₀ ∧ (system .release).Run s₀ acts (World.after acts) ∧
    AtChannelDtor (World.after acts) a ∧ ¬ Unregistered (World.after acts) a

theorem fails_of_execAll {acts : List Act}
    (henabled : StepSystem.EnabledAlong Enabled (exec .release) (World.first .release) acts)
    (hexec : StepSystem.execAll (exec .release) (World.first .release) acts =
      .ok (World.after acts))
    (hdtor : AtChannelDtor (World.after acts) a)
    (hfails : ¬ ∃ o ∈ (World.after acts).owners a, ∃ c ∈ (World.after acts).poller.objects a,
      c.addedToLoop = false ∧ o.eventHandling = false) : Fails acts a := by
  refine ⟨World.first .release, ⟨firstLoop, by decide, by decide, rfl⟩,
    StepSystem.run_of_execAll henabled hexec, hdtor, ?_⟩
  rintro ⟨o, ho, c, hc, hadded, hquiet, _⟩
  exact hfails ⟨o, ho, c, hc, hadded, hquiet⟩

/-- `~EventLoop` alone. -/
theorem timerfdChannel_dies_registered :
    Fails [.dtor 2, .discard, .channelDtor 2, .dtor 1] 1 :=
  fails_of_execAll (by decide) rfl (by unfold AtChannelDtor; decide) (by decide)

/-- A connection whose peer closed it, up to `connectDestroyed`. -/
def closing : List Act :=
  [.newConnection 8 7 true 64 false false, .run 8 (.accept 0), .handle 8 EPOLLIN,
    .callback 8 (.bytes []) (.accept 0), .handled 8]

/-- The user keeps the connection, and calls `startRead` after `connectDestroyed`. -/
theorem startRead_after_connectDestroyed :
    Fails (closing ++ [.hold 8, .run 8 (.accept 0), .user 8 true .startRead, .drop 8, .dtor 8]) 8 :=
  fails_of_execAll (by decide) rfl (by unfold AtChannelDtor; decide) (by decide)

/-- The loop ends before it runs `connectDestroyed`. -/
theorem connectDestroyed_discarded : Fails (closing ++ [.dtor 2, .discard, .dtor 8]) 8 :=
  fails_of_execAll (by decide) rfl (by unfold AtChannelDtor; decide) (by decide)

/-- The acceptor is destroyed in its own callback. -/
theorem acceptor_dies_in_callback :
    Fails [.newAcceptor 3 6, .listen 3, .handle 3 EPOLLIN, .dtor 3] 3 :=
  fails_of_execAll (by decide) rfl (by unfold AtChannelDtor; decide) (by decide)

end ChannelOwners

end Net
end Muduo
