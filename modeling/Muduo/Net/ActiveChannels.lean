import Muduo.Net.ChannelSteps

/-!
# ActiveChannels — one round of `EventLoop::loop`

`EPoller::epoll` stores the pointers that `epoll_wait` returns in `activeChannels_`, and the loop
then calls `handleEvent` on one channel after the other.  The callbacks of the first channels run
before the last pointers are used, and they may destroy objects.  A `LoopWorld` is a `World` with
a loop that goes through its rounds; whatever else happens in the world happens between two steps
of the loop.

The pointers are good, because a channel that was reported has an owner that cannot die before
`doPendingFunctors` is called.  An acceptor is the exception.
-/

namespace Muduo
namespace Net
namespace ChannelOwners

open TcpConnection ConnectionUse ConnectionOwnership

variable {b : Build} {s s' : World} {a : Addr} {act : Act}

/-! ## Channels that wait for their callbacks -/

/-- What may be about the owner of a channel outside its callbacks and outside
`doPendingFunctors`. -/
def Act.isAside : Act → Bool
  | .listen _ => true
  | .hold _ => true
  | .drop _ => true
  | .user _ _ _ => true
  | .push _ _ => true
  | .removeConnectionInLoop _ => true
  | _ => false

theorem index_enableReading (c : Channel) : (c.edit .enableReading).index = .kAdded := by
  have hsome : (Interest.enableReading.edit c.events).isNoneEvent = false := by
    have hbits : kReadEvent.has EPOLLIN = true := by decide
    have hread : (Interest.enableReading.edit c.events).has EPOLLIN = true := by
      simp [Interest.edit, Mask.has_enable, hbits]
    exact Mask.isNoneEvent_of_has hread
  simp [Channel.edit, hsome]

theorem index_enableWriting (c : Channel) : (c.edit .enableWriting).index = .kAdded := by
  have hsome : (Interest.enableWriting.edit c.events).isNoneEvent = false := by
    have hbits : kWriteEvent.has EPOLLOUT = true := by decide
    have hwrite : (Interest.enableWriting.edit c.events).has EPOLLOUT = true := by
      simp [Interest.edit, Mask.has_enable, hbits]
    exact Mask.isNoneEvent_of_has hwrite
  simp [Channel.edit, hsome]

/-- The calls of a user take no interest away. -/
theorem index_userOps {c : TcpConnection} (hadded : c.channel.index = .kAdded) (inLoop : Bool)
    (call : UserCall) :
    ((Fn.ops c (.user inLoop call)).foldl ChannelOp.apply c.channel).index = .kAdded := by
  have hread : ((Fn.startReadInLoopOps c).foldl ChannelOp.apply c.channel).index = .kAdded := by
    unfold Fn.startReadInLoopOps
    split
    · exact index_enableReading c.channel
    · exact hadded
  cases inLoop with
  | false => exact hadded
  | true =>
      cases call with
      | send message w =>
          simp only [Fn.ops, Fn.userOps, Fn.sendInLoopOps]
          split
          · split
            · exact index_enableWriting c.channel
            · exact hadded
          · exact hadded
      | shutdown | forceClose | forceCloseWithDelay => exact hadded
      | startRead => exact hread
      | stopRead => exact hread

theorem stays_added (h : s.Inv) (hen : Enabled s act) (hexec : exec b s act = .ok s')
    (hsubject : act.subject = some a) (haside : act.isAside = true) {c : Channel}
    (hc : s.poller.objects a = some c) (hadded : c.index = .kAdded) :
    ∃ d, s'.poller.objects a = some d ∧ d.index = .kAdded := by
  cases act with
  | listen a' =>
      cases hsubject
      obtain ⟨o, c', _, _, hc', _, hexec⟩ := owner_ok h hen.2 hexec
      obtain ⟨p, hop, hexec⟩ := exists_ok_of_bind hexec
      cases hexec
      exact ⟨_, by rw [World.put, (Build.setInterest_frame hc hop).1, Function.update_self],
        index_enableReading c⟩
  | user a' inLoop call =>
      cases hsubject
      obtain ⟨o, m, _, _, _, _, hc', _, hexec⟩ := onConn_ok h hen.2 hexec
      rw [hc] at hc'
      cases hc'
      obtain ⟨_, _, hexec⟩ := exists_ok_of_bind hexec
      obtain ⟨p, hops, hexec⟩ := exists_ok_of_bind hexec
      obtain ⟨m', _, hexec⟩ := exists_ok_of_bind hexec
      cases hexec
      have hobjects := (h.tracks.channelOps hc hops).2
      refine ⟨_, ?_, index_userOps hadded inLoop call⟩
      simp only [World.putConn, World.put, hobjects, Function.update_self]
  | hold a' =>
      obtain ⟨o, m, _, _, _, _, _, _, hexec⟩ := onConn_ok h hen.2 hexec
      cases hexec
      exact ⟨c, hc, hadded⟩
  | drop a' =>
      obtain ⟨o, m, _, _, _, _, _, _, hexec⟩ := onConn_ok h hen hexec
      cases hexec
      exact ⟨c, hc, hadded⟩
  | push a' i =>
      obtain ⟨o, m, _, _, _, hi, _, _, hexec⟩ := onConn_ok h hen.2 hexec
      rw [List.getElem?_eq_getElem hi] at hexec
      cases hexec
      exact ⟨c, hc, hadded⟩
  | removeConnectionInLoop a' =>
      obtain ⟨o, m, _, _, _, _, _, _, hexec⟩ := onConn_ok h hen.2 hexec
      obtain ⟨m', _, hexec⟩ := exists_ok_of_bind hexec
      cases hexec
      exact ⟨c, hc, hadded⟩
  | newAcceptor _ _ | newConnection _ _ _ _ _ _ | handle _ _ | callback _ _ _ | handled _
  | run _ _ | discard | dtor _ | channelDtor _ => cases haside

/-! ## The loop -/

/-- Where the thread of the loop is. -/
inductive Stage
  /-- Not in `loop()`. -/
  | outside
  /-- Before `epoll_wait`. -/
  | polling
  /-- In the loop over `activeChannels_`; `eventHandling_` is set. -/
  | handling
  /-- In `doPendingFunctors`. -/
  | functors
  deriving DecidableEq, Repr

structure LoopWorld where
  world : World
  stage : Stage
  /-- The pointers, each with the `revents_` of its channel. -/
  activeChannels : List (Addr × Mask)
  /-- What is left of the loop over `activeChannels_`. -/
  rest : List (Addr × Mask)
  currentActiveChannel : Option Addr
  /-- `events_.size()` of the poller. -/
  events : Nat

namespace LoopWorld

def kInitEventListSize : Nat := 16

def new (w : World) : LoopWorld where
  world := w
  stage := .outside
  activeChannels := []
  rest := []
  currentActiveChannel := none
  events := kInitEventListSize

/-- What `epoll_wait` stores when the fds in `ready` have events. -/
def epoll_wait (interest : InterestSet) (ready : List (Int × Mask)) : List EpollEvent :=
  ready.filterMap fun e => (interest e.1).map fun event => ⟨e.2, event.ptr⟩

/-- `set_revents` goes through each pointer. -/
def fillActiveChannels (p : EPoller) (events : List EpollEvent) :
    Except Fault (List (Addr × Mask)) :=
  events.mapM fun event => do
    let _ ← p.deref event.ptr
    pure (event.ptr, event.events)

/-- `Channel::handleEvent`, as far as to the callbacks.  The wakeup channel reads the eventfd, and
a connection that nobody has a pointer to is passed over. -/
def handleEvent (b : Build) (w : World) (channel : Addr) (revents : Mask) : Except Fault World := do
  let o ← w.owned channel
  if o.owner.kind = .eventLoop ∨ ∃ m ∈ o.owner.conn?, ¬ m.Alive then
    pure w
  else
    ChannelOwners.exec b w (.handle channel revents)

/-- The `assert` of `EventLoop::removeChannel`, for the destructors that call it. -/
def checkRemove (b : Build) (s : LoopWorld) : Act → Except Fault Unit
  | .dtor a => do
      let o ← s.world.owned a
      if .remove ∈ o.owner.kind.dtorOps ∧ s.stage = .handling then
        b.check (s.currentActiveChannel = some a ∨ a ∉ s.activeChannels.map Prod.fst)
      else
        pure ()
  | _ => pure ()

inductive Act
  | world (act : ChannelOwners.Act)
  | loop
  | poll (ready : List (Int × Mask))
  /-- The next round of the loop over `activeChannels_` begins. -/
  | dispatch
  /-- The loop over `activeChannels_` is over. -/
  | dispatched
  /-- `doPendingFunctors` returns; `quit_` is tested. -/
  | again (quit : Bool)

def exec (b : Build) (s : LoopWorld) : Act → Except Fault LoopWorld
  | .world act => do
      s.checkRemove b act
      let w ← ChannelOwners.exec b s.world act
      pure { s with world := w }
  | .loop => do
      b.check (s.stage = .outside)
      pure { s with stage := .polling }
  | .poll ready => do
      let events := epoll_wait s.world.poller.interest ready
      let channels ← fillActiveChannels s.world.poller events
      pure { s with
        stage := .handling
        activeChannels := channels
        rest := channels
        events := if events.length = s.events then s.events * 2 else s.events }
  | .dispatch =>
      match s.rest with
      | (a, revents) :: rest => do
          let w ← handleEvent b s.world a revents
          pure { s with world := w, rest := rest, currentActiveChannel := some a }
      | [] => pure s
  | .dispatched => pure { s with stage := .functors, currentActiveChannel := none }
  | .again quit => pure { s with stage := if quit then .outside else .polling }

/-- No channel is in the middle of its callbacks. -/
def Returned (s : LoopWorld) : Prop :=
  ∀ a ∈ s.currentActiveChannel, ∀ o ∈ s.world.owners a, o.eventHandling = false

/-- Callbacks are made for the current channel only, functors run in `doPendingFunctors`, and a
loop is not destroyed while it is looping. -/
def Allows (s : LoopWorld) : ChannelOwners.Act → Prop
  | .handle _ _ => False
  | .callback a _ _ => s.stage = .handling ∧ s.currentActiveChannel = some a
  | .handled a => s.stage = .handling ∧ s.currentActiveChannel = some a
  | .run _ _ => s.stage = .functors
  | .dtor a => ∀ o ∈ s.world.owners a, o.owner.kind = .eventLoop → s.stage = .outside
  | _ => True

/-- `epoll_wait` returns at most as many events as there is room for, and one for an fd. -/
def Enabled (s : LoopWorld) : Act → Prop
  | .world act => ChannelOwners.Enabled s.world act ∧ s.Allows act
  | .loop => s.stage = .outside ∧ s.world.phase = .running
  | .poll ready =>
      s.stage = .polling ∧ ready.length ≤ s.events ∧ (ready.map Prod.fst).Nodup ∧
        ∀ e ∈ ready, ∃ event ∈ s.world.poller.interest e.1, Reportable event.events e.2
  | .dispatch => s.stage = .handling ∧ s.rest ≠ [] ∧ s.Returned
  | .dispatched => s.stage = .handling ∧ s.rest = [] ∧ s.Returned
  | .again _ => s.stage = .functors

instance (s : LoopWorld) : Decidable s.Returned :=
  inferInstanceAs (Decidable (∀ a ∈ s.currentActiveChannel, ∀ o ∈ s.world.owners a, _ = _))

instance (s : LoopWorld) : (act : ChannelOwners.Act) → Decidable (s.Allows act)
  | .handle _ _ => isFalse id
  | .callback _ _ _ | .handled _ => inferInstanceAs (Decidable (_ ∧ _))
  | .run _ _ => inferInstanceAs (Decidable (_ = _))
  | .dtor _ => inferInstanceAs (Decidable (∀ o ∈ s.world.owners _, _ → _))
  | .newAcceptor _ _ | .listen _ | .newConnection _ _ _ _ _ _ | .hold _ | .drop _ | .user _ _ _
  | .push _ _ | .removeConnectionInLoop _ | .discard | .channelDtor _ => isTrue trivial

instance (s : LoopWorld) : (act : Act) → Decidable (s.Enabled act)
  | .world _ => inferInstanceAs (Decidable (_ ∧ _))
  | .loop => inferInstanceAs (Decidable (_ ∧ _))
  | .poll ready => inferInstanceAs (Decidable (_ ∧ _ ∧ _ ∧
      ∀ e ∈ ready, ∃ event ∈ s.world.poller.interest e.1, Reportable event.events e.2))
  | .dispatch => inferInstanceAs (Decidable (_ ∧ _ ∧ _))
  | .dispatched => inferInstanceAs (Decidable (_ ∧ _ ∧ _))
  | .again _ => inferInstanceAs (Decidable (_ = _))

def system (b : Build) : StepSystem LoopWorld Act :=
  StepSystem.ofExec (fun s => ∃ w, Starts b w ∧ s = new w) Enabled (exec b)

/-- An acceptor is not destroyed while a pointer to its channel waits in `activeChannels_`. -/
def Meets (s : LoopWorld) : Act → Prop
  | .world act =>
      ChannelOwners.Meets s.world act ∧
        ∀ a, act = .dtor a → ∀ o ∈ s.world.owners a, o.owner.kind = .acceptor →
          a ∉ s.rest.map Prod.fst
  | _ => True

/-! ## The pointers are good -/

/-- The channel at an address is registered, and its owner has not begun to die. -/
def Live (w : World) (a : Addr) : Prop :=
  ∃ o c, w.owners a = some o ∧ w.poller.objects a = some c ∧ o.dtor = false ∧ c.index = .kAdded

structure Inv (s : LoopWorld) : Prop where
  world : s.world.Inv
  kernel : Kernel s.world.poller
  running : s.stage ≠ .outside → s.world.phase = .running
  timer : s.world.phase = .running → ∀ a o, s.world.owners a = some o →
    o.owner.kind = .timerQueue → o.dtor = false
  /-- Only the current channel is in the middle of its callbacks. -/
  quiet : ∀ a o, s.world.owners a = some o → o.eventHandling = true →
    s.currentActiveChannel = some a
  nodup : (s.rest.map Prod.fst).Nodup
  current : ∀ a ∈ s.currentActiveChannel, a ∉ s.rest.map Prod.fst
  live : ∀ a ∈ s.rest.map Prod.fst, Live s.world a
  idle : s.stage ≠ .handling → s.rest = [] ∧ s.currentActiveChannel = none
  size : ∃ k, s.events = kInitEventListSize * 2 ^ k

variable {b : Build} {s t : LoopWorld} {w w' : World} {a : Addr}

/-- A registered channel has an owner that is alive. -/
theorem Inv.live_of_added (h : s.Inv) (hrunning : s.world.phase = .running) {c : Channel}
    (hc : s.world.poller.objects a = some c) (hadded : c.index = .kAdded) : Live s.world a := by
  rcases h.world.placed a with ⟨_, hnone⟩ | ⟨o, c', ho, hc', hinv⟩
  · rw [hc] at hnone
    cases hnone
  · rw [hc] at hc'
    cases hc'
    refine ⟨o, c, ho, hc, ?_, hadded⟩
    by_contra hdead
    have hdtor : o.dtor = true := by simpa using hdead
    by_cases hkind : o.owner.kind = .timerQueue
    · exact hdead (h.timer hrunning a o ho hkind)
    · rw [h.kernel.out hc (hinv.dead hdtor hkind).2] at hadded
      cases hadded

/-- A registered connection has its `connectDestroyed` ahead. -/
theorem alive_of_live (hw : w.Inv) (hkernel : Kernel w.poller) {o : Owned} {c : Channel}
    (ho : w.owners a = some o) (hc : w.poller.objects a = some c) (hadded : c.index = .kAdded) :
    ∀ m ∈ o.owner.conn?, m.Alive := by
  intro m hm
  obtain ⟨c', hc', hinv⟩ := hw.owner ho
  rw [hc] at hc'
  cases hc'
  obtain ⟨hchannel, hm⟩ := hinv.conn (eq_of_conn? hm)
  refine (hm.due ?_).alive
  rw [hchannel]
  by_contra hout
  rw [hkernel.out hc (by simpa using hout)] at hadded
  cases hadded

/-! ### `epoll` -/

theorem fillActiveChannels_ok {p : EPoller} {events : List EpollEvent}
    (h : ∀ event ∈ events, ∃ c, p.objects event.ptr = some c) :
    fillActiveChannels p events = .ok (events.map fun event => (event.ptr, event.events)) := by
  induction events with
  | nil => rfl
  | cons event events ih =>
      obtain ⟨c, hc⟩ := h event List.mem_cons_self
      have hrest := ih fun e he => h e (List.mem_cons_of_mem _ he)
      rw [fillActiveChannels] at hrest ⊢
      rw [List.mapM_cons, hrest, EPoller.deref_eq hc]
      rfl

theorem mem_epoll_wait {interest : InterestSet} {ready : List (Int × Mask)} {event : EpollEvent}
    (h : event ∈ epoll_wait interest ready) :
    ∃ e ∈ ready, ∃ entry, interest e.1 = some entry ∧ entry.ptr = event.ptr := by
  obtain ⟨e, he, hevent⟩ := List.mem_filterMap.1 h
  obtain ⟨entry, hentry, heq⟩ := Option.map_eq_some_iff.1 hevent
  exact ⟨e, he, entry, hentry, by rw [← heq]⟩

/-- Different fds have different channels. -/
theorem nodup_epoll_wait {p : EPoller} (h : Kernel p) {ready : List (Int × Mask)}
    (hready : (ready.map Prod.fst).Nodup) :
    ((epoll_wait p.interest ready).map EpollEvent.ptr).Nodup := by
  induction ready with
  | nil => exact List.nodup_nil
  | cons e ready ih =>
      rw [List.map_cons, List.nodup_cons] at hready
      have hrest := ih hready.2
      cases hentry : p.interest e.1 with
      | none => simpa [epoll_wait, hentry] using hrest
      | some entry =>
          have hcons : epoll_wait p.interest (e :: ready) =
              ⟨e.2, entry.ptr⟩ :: epoll_wait p.interest ready := by
            simp [epoll_wait, hentry]
          rw [hcons, List.map_cons, List.nodup_cons]
          refine ⟨fun hmem => ?_, hrest⟩
          obtain ⟨event, hevent, hptr⟩ := List.mem_map.1 hmem
          obtain ⟨e', he', entry', hentry', hptr'⟩ := mem_epoll_wait hevent
          obtain ⟨c, hc, hfd, _⟩ := h.live hentry
          obtain ⟨c', hc', hfd', _⟩ := h.live hentry'
          rw [hptr', hptr, hc] at hc'
          cases hc'
          refine hready.1 (List.mem_map.2 ⟨e', he', ?_⟩)
          exact hfd'.symm.trans hfd

theorem poll_ok (h : s.Inv) {ready : List (Int × Mask)} (hen : Enabled s (.poll ready)) :
    ∃ t, exec b s (.poll ready) = .ok t ∧ Inv t ∧ t.world = s.world := by
  obtain ⟨hstage, _, hready, _⟩ := hen
  have hrunning := h.running (by rw [hstage]; decide)
  have hcurrent := (h.idle (by rw [hstage]; decide)).2
  have hlive : ∀ event ∈ epoll_wait s.world.poller.interest ready, Live s.world event.ptr := by
    intro event hevent
    obtain ⟨_, _, entry, hentry, hptr⟩ := mem_epoll_wait hevent
    obtain ⟨c, hc, _, hadded⟩ := h.kernel.live hentry
    rw [hptr] at hc
    exact h.live_of_added hrunning hc hadded
  have hfill := fillActiveChannels_ok (p := s.world.poller) fun event hevent => by
    obtain ⟨_, c, _, hc, _⟩ := hlive event hevent
    exact ⟨c, hc⟩
  generalize hevents : epoll_wait s.world.poller.interest ready = events at hlive hfill
  refine ⟨{ s with
      stage := .handling
      activeChannels := events.map fun event => (event.ptr, event.events)
      rest := events.map fun event => (event.ptr, event.events)
      events := if events.length = s.events then s.events * 2 else s.events }, ?_, ?_, rfl⟩
  · rw [exec, hevents, hfill]
    rfl
  have hptrs : (events.map fun event => (event.ptr, event.events)).map Prod.fst =
      events.map EpollEvent.ptr := by
    rw [List.map_map]
    rfl
  exact {
    world := h.world
    kernel := h.kernel
    running := fun _ => hrunning
    timer := h.timer
    quiet := h.quiet
    nodup := by
      rw [hptrs, ← hevents]
      exact nodup_epoll_wait h.kernel hready
    current := fun a ha => by
      rw [Option.mem_def, hcurrent] at ha
      cases ha
    live := fun a ha => by
      rw [hptrs] at ha
      obtain ⟨event, hevent, rfl⟩ := List.mem_map.1 ha
      exact hlive event hevent
    idle := fun hno => absurd rfl hno
    size := by
      obtain ⟨k, hk⟩ := h.size
      dsimp only
      split
      · exact ⟨k + 1, by rw [hk, Nat.pow_succ, Nat.mul_assoc]⟩
      · exact ⟨k, hk⟩ }

/-! ### Dispatch -/

/-- `handleEvent` on a live channel is a step of the world, or does nothing that matters to it. -/
theorem handleEvent_ok (hw : w.Inv) (hkernel : Kernel w.poller) (hrunning : w.phase = .running)
    (hlive : Live w a) (hquiet : ∀ o ∈ w.owners a, o.eventHandling = false) (revents : Mask) :
    ∃ w', handleEvent b w a revents = .ok w' ∧
      (w' = w ∨ ChannelOwners.Enabled w (.handle a revents) ∧
        ChannelOwners.exec b w (.handle a revents) = .ok w') := by
  obtain ⟨o, c, ho, hc, hdtor, hadded⟩ := hlive
  have howned : w.owned a = .ok o := by simp [World.owned, ho]
  have halive := alive_of_live hw hkernel ho hc hadded
  by_cases hkind : o.owner.kind = .eventLoop
  · refine ⟨w, ?_, Or.inl rfl⟩
    simp [handleEvent, howned, hkind, pure_eq_ok]
  · have hstep : ChannelOwners.exec b w (.handle a revents) =
        .ok (w.put a (o.handle revents) w.poller) := by
      simp [ChannelOwners.exec, howned, pure_eq_ok]
    refine ⟨_, ?_, Or.inr ⟨⟨hrunning, o, ho, hdtor, hquiet o ho, hkind, ⟨c, hc, hadded⟩, halive⟩,
      hstep⟩⟩
    have hgo : ¬ (o.owner.kind = .eventLoop ∨ ∃ m ∈ o.owner.conn?, ¬ m.Alive) := by
      rintro (hloop | ⟨m, hm, hdead⟩)
      · exact hkind hloop
      · exact hdead (halive m hm)
    simp only [handleEvent, howned, ok_bind, if_neg hgo]
    exact hstep

/-! ### Steps of the world -/

section World

variable {act : ChannelOwners.Act} {x : Addr}

theorem live_of_ne (h : StepAt b w act x w') (htracks : Tracks w.poller) (ha : a ≠ x)
    (hlive : Live w a) : Live w' a := by
  obtain ⟨o, c, ho, hc, hrest⟩ := hlive
  obtain ⟨_, _, howners⟩ := h.owner
  obtain ⟨_, hobjects⟩ := h.polled.objects htracks
  exact ⟨o, c, by rw [howners, Function.update_of_ne ha, ho],
    by rw [hobjects, Function.update_of_ne ha, hc], hrest⟩

/-- `eventHandling_` goes up in `handleEvent` only. -/
theorem handling_of_step (h : StepAt b w act x w') {o' : Owned} (ho' : w'.owners a = some o')
    (hbusy : o'.eventHandling = true) :
    (∃ o, w.owners a = some o ∧ o.eventHandling = true) ∨ ∃ revents, act = .handle a revents := by
  obtain ⟨u, hchange, howners⟩ := h.owner
  rw [howners] at ho'
  by_cases ha : a = x
  · subst ha
    rw [Function.update_self] at ho'
    subst ho'
    generalize w'.phase = phase at hchange
    cases hchange with
    | created _ _ => cases hbusy
    | used o _ ho _ _ _ hback =>
        rcases hback hbusy with hold | hhandle
        · exact Or.inl ⟨o, ho, hold⟩
        · exact Or.inr hhandle
    | dtor o ho _ _ => exact Or.inl ⟨o, ho, hbusy⟩
  · rw [Function.update_of_ne ha] at ho'
    exact Or.inl ⟨o', ho', hbusy⟩

theorem timer_of_step (h : StepAt b w act x w')
    (htimer : w.phase = .running → ∀ a o, w.owners a = some o →
      o.owner.kind = .timerQueue → o.dtor = false)
    (hrunning : w'.phase = .running) {o' : Owned} (ho' : w'.owners a = some o')
    (hkind : o'.owner.kind = .timerQueue) : o'.dtor = false := by
  obtain ⟨u, hchange, howners⟩ := h.owner
  have hwas := hchange.was_running hrunning
  rw [howners] at ho'
  by_cases ha : a = x
  · subst ha
    rw [Function.update_self] at ho'
    subst ho'
    generalize w'.phase = phase at hchange
    cases hchange with
    | created _ _ => rfl
    | used _ _ _ _ hdtor _ _ => exact hdtor
    | dtor o _ _ hdie =>
        -- A timer queue dies when the loop is far beyond this phase.
        obtain ⟨owner, eventHandling, dtor⟩ := o
        cases owner with
        | timerQueue =>
            have hlate : w.phase = .unwoken := hdie
            rw [hwas] at hlate
            cases hlate
        | eventLoop | acceptor | tcpConnection _ => cases hkind
  · rw [Function.update_of_ne ha] at ho'
    exact htimer hwas a o' ho' hkind

/-- The owner of a channel that waits in `activeChannels_` may be used, but it does not die. -/
theorem live_of_step (h : s.Inv) (hstep : StepAt b s.world act x w')
    (hmeets : Meets s (.world act)) (hen : Enabled s (.world act))
    (hexec : ChannelOwners.exec b s.world act = .ok w') (hx : x ∈ s.rest.map Prod.fst) :
    Live w' x := by
  obtain ⟨o, c, ho, hc, hdtor, hadded⟩ := h.live x hx
  have hstage : s.stage = .handling := by
    by_contra hno
    rw [(h.idle hno).1] at hx
    cases hx
  have hrunning := h.running (by rw [hstage]; decide)
  obtain ⟨u, hchange, howners⟩ := hstep.owner
  have hsubject := hstep.subject
  generalize w'.phase = phase at hchange
  cases hchange with
  | created _ hfree =>
      rw [ho] at hfree
      cases hfree
  | gone o' ho' hdead _ _ =>
      rw [ho] at ho'
      cases ho'
      rw [hdtor] at hdead
      cases hdead
  | dtor o' ho' hact hdie =>
      rw [ho] at ho'
      cases ho'
      subst hact
      have hwhere := hen.2 o ho
      have haccept := hmeets.2 x rfl o ho
      have halive := alive_of_live h.world h.kernel ho hc hadded
      obtain ⟨owner, eventHandling, dtor⟩ := o
      cases owner with
      | eventLoop =>
          rw [hstage] at hwhere
          cases hwhere rfl
      | timerQueue =>
          have hlate : s.world.phase = .unwoken := hdie
          rw [hrunning] at hlate
          cases hlate
      | acceptor => exact absurd hx (haccept rfl)
      | tcpConnection m => exact absurd (Or.inr (halive m rfl)) hdie.2
  | used o' o'' ho' _ hdtor'' _ _ =>
      -- It is neither the current channel nor the time for functors.
      have hnot : s.currentActiveChannel ≠ some x := fun hcurrent => h.current x hcurrent hx
      have haside : act.isAside = true := by
        cases act with
        | listen _ | hold _ | drop _ | user _ _ _ | push _ _ | removeConnectionInLoop _ => rfl
        | newAcceptor _ _ | newConnection _ _ _ _ _ _ =>
            cases hsubject
            have hfree := hen.1.2
            rw [ho] at hfree
            cases hfree
        | handle _ _ => exact hen.2.elim
        | callback _ _ _ =>
            cases hsubject
            exact absurd hen.2.2 hnot
        | handled _ =>
            cases hsubject
            exact absurd hen.2.2 hnot
        | run _ _ =>
            have hlate : s.stage = .functors := hen.2
            rw [hstage] at hlate
            cases hlate
        | discard => cases hsubject
        | dtor _ =>
            cases hsubject
            obtain ⟨o₁, _, _, _, _, _, hexec⟩ := owner_ok h.world hen.1 hexec
            obtain ⟨_, _, hexec⟩ := exists_ok_of_bind hexec
            obtain ⟨_, _, hexec⟩ := exists_ok_of_bind hexec
            cases hexec
            have hhere := congrFun howners x
            simp only [World.put, Function.update_self, Option.some.injEq] at hhere
            rw [← hhere] at hdtor''
            cases hdtor''
        | channelDtor _ =>
            cases hsubject
            obtain ⟨o₁, ho₁, hdead, _⟩ := hen.1
            rw [Option.mem_def, ho] at ho₁
            cases ho₁
            rw [hdtor] at hdead
            cases hdead
      obtain ⟨d, hd, hdadded⟩ := stays_added h.world hen.1 hexec hsubject haside hc hadded
      exact ⟨o'', d, by rw [howners, Function.update_self], hd, hdtor'', hdadded⟩

end World

/-! ## Rounds -/

/-- `~EventLoop` destroys `pendingFunctors_` when the loop is over. -/
theorem discard_inv (h : s.Inv) (hw : w'.Inv) (hen : Enabled s (.world .discard))
    (hexec : ChannelOwners.exec b s.world .discard = .ok w') : Inv { s with world := w' } := by
  cases hexec
  have hleaving : s.world.phase = .leaving := hen.1
  have hstage : s.stage = .outside := by
    by_contra hno
    rw [h.running hno] at hleaving
    cases hleaving
  obtain ⟨hrest, hcurrent⟩ := h.idle (by rw [hstage]; decide)
  refine {
    world := hw
    kernel := h.kernel
    running := fun hno => absurd hstage hno
    timer := by rintro ⟨⟩
    quiet := fun a o' ho' hbusy => ?_
    nodup := h.nodup
    current := h.current
    live := fun a ha => ?_
    idle := h.idle
    size := h.size }
  · obtain ⟨o, ho, rfl⟩ := Option.map_eq_some_iff.1 ho'
    exact h.quiet a o ho hbusy
  · rw [hrest] at ha
    cases ha

theorem world_inv {act : ChannelOwners.Act} (h : s.Inv) (hmeets : Meets s (.world act))
    (hen : Enabled s (.world act)) (hexec : ChannelOwners.exec b s.world act = .ok w') :
    Inv { s with world := w' } := by
  have hw' : w'.Inv := exec_inv h.world hmeets.1 hen.1 hexec
  by_cases hdiscard : act = .discard
  · subst hdiscard
    exact discard_inv h hw' hen hexec
  obtain ⟨x, hstep⟩ := exec_at h.world hdiscard hmeets.1 hen.1 hexec
  exact {
    world := hw'
    kernel := hstep.polled.kernel h.world.tracks h.kernel
    running := fun hno => by
      obtain ⟨_, hchange, _⟩ := hstep.owner
      refine hchange.running (fun o ho hact hkind => ?_) (h.running hno)
      subst hact
      exact hno (hen.2 o ho hkind)
    timer := fun hrunning a o' ho' hkind => timer_of_step hstep h.timer hrunning ho' hkind
    quiet := fun a o' ho' hbusy => by
      rcases handling_of_step hstep ho' hbusy with ⟨o, ho, hold⟩ | ⟨revents, hact⟩
      · exact h.quiet a o ho hold
      · subst hact
        exact hen.2.elim
    nodup := h.nodup
    current := h.current
    live := fun a ha => by
      by_cases hx : a = x
      · subst hx
        exact live_of_step h hstep hmeets hen hexec ha
      · exact live_of_ne hstep h.world.tracks hx (h.live a ha)
    idle := h.idle
    size := h.size }

/-- What `handleEvent` on a live channel keeps. -/
structure Handled (b : Build) (w : World) (a : Addr) (w' : World) : Prop where
  run : ∃ acts, ((ChannelOwners.system b).restrict ChannelOwners.Meets).Run w acts w'
  world : w'.Inv
  kernel : Kernel w'.poller
  running : w'.phase = .running
  timer : ∀ x o, w'.owners x = some o → o.owner.kind = .timerQueue → o.dtor = false
  quiet : ∀ x o, w'.owners x = some o → o.eventHandling = true → x = a
  live : ∀ x, x ≠ a → Live w x → Live w' x

theorem handled_of_handleEvent (h : s.Inv) (hrunning : s.world.phase = .running)
    (hlive : Live s.world a)
    (hquiet : ∀ x o, s.world.owners x = some o → o.eventHandling = false) (revents : Mask) :
    ∃ w', handleEvent b s.world a revents = .ok w' ∧ Handled b s.world a w' := by
  obtain ⟨w', hhandle, rfl | ⟨hen, hexec⟩⟩ :=
    handleEvent_ok (b := b) h.world h.kernel hrunning hlive (fun o ho => hquiet a o ho) revents
  · refine ⟨s.world, hhandle, ⟨[], .nil _⟩, h.world, h.kernel, hrunning, h.timer hrunning,
      fun x o ho hbusy => ?_, fun _ _ hx => hx⟩
    rw [hquiet x o ho] at hbusy
    cases hbusy
  · have hmeets : ChannelOwners.Meets s.world (.handle a revents) := trivial
    obtain ⟨x, hstep⟩ := exec_at h.world (by rintro ⟨⟩) hmeets hen hexec
    have hx : a = x := Option.some.inj hstep.subject
    subst hx
    obtain ⟨_, hchange, _⟩ := hstep.owner
    have hphase : w'.phase = .running := hchange.running (fun _ _ hact => by cases hact) hrunning
    refine ⟨w', hhandle, ⟨[_], .cons ⟨hmeets, hen, hexec⟩ (.nil _)⟩,
      exec_inv h.world hmeets hen hexec,
      hstep.polled.kernel h.world.tracks h.kernel, hphase,
      fun x o' ho' hkind => timer_of_step hstep h.timer hphase ho' hkind,
      fun x o' ho' hbusy => ?_, fun x hx => live_of_ne hstep h.world.tracks hx⟩
    rcases handling_of_step hstep ho' hbusy with ⟨o, ho, hold⟩ | ⟨_, hact⟩
    · rw [hquiet x o ho] at hold
      cases hold
    · cases hact
      rfl

theorem dispatch_ok (h : s.Inv) (hen : Enabled s .dispatch) :
    ∃ t, exec b s .dispatch = .ok t ∧ Inv t ∧
      ∃ acts, ((ChannelOwners.system b).restrict ChannelOwners.Meets).Run s.world acts t.world := by
  obtain ⟨hstage, hsome, hreturned⟩ := hen
  cases hrest : s.rest with
  | nil => exact absurd hrest hsome
  | cons e rest =>
      obtain ⟨a, revents⟩ := e
      have hnodup := h.nodup
      rw [hrest, List.map_cons, List.nodup_cons] at hnodup
      have hquiet : ∀ x o, s.world.owners x = some o → o.eventHandling = false := by
        intro x o ho
        by_contra hbusy
        have hflag : o.eventHandling = true := by simpa using hbusy
        exact hbusy (hreturned x (h.quiet x o ho hflag) o ho)
      obtain ⟨w', hhandle, hw'⟩ := handled_of_handleEvent (b := b) h
        (h.running (by rw [hstage]; decide)) (h.live a (by simp [hrest])) hquiet revents
      refine ⟨{ s with world := w', rest := rest, currentActiveChannel := some a }, ?_, ?_, hw'.run⟩
      · simp [exec, hrest, hhandle, pure_eq_ok]
      · exact {
          world := hw'.world
          kernel := hw'.kernel
          running := fun _ => hw'.running
          timer := fun _ => hw'.timer
          quiet := fun x o ho hbusy => by rw [hw'.quiet x o ho hbusy]
          nodup := hnodup.2
          current := by
            rintro x ⟨⟩
            exact hnodup.1
          live := fun x hx => by
            refine hw'.live x ?_ (h.live x (by rw [hrest]; exact List.mem_cons_of_mem _ hx))
            rintro rfl
            exact hnodup.1 hx
          idle := fun hno => absurd hstage hno
          size := h.size }

theorem step_inv {act : Act} (h : s.Inv) (hstep : ((system b).restrict Meets).step s act t) :
    Inv t ∧
      ∃ acts, ((ChannelOwners.system b).restrict ChannelOwners.Meets).Run s.world acts t.world := by
  obtain ⟨hmeets, hen, hexec⟩ := hstep
  cases act with
  | world act =>
      obtain ⟨_, _, hexec⟩ := exists_ok_of_bind hexec
      obtain ⟨w', hw', hexec⟩ := exists_ok_of_bind hexec
      cases hexec
      exact ⟨world_inv h hmeets hen hw', [act], .cons ⟨hmeets.1, hen.1, hw'⟩ (.nil _)⟩
  | loop =>
      obtain ⟨_, _, hexec⟩ := exists_ok_of_bind hexec
      cases hexec
      obtain ⟨hstage, hrunning⟩ := hen
      exact ⟨{ h with
        running := fun _ => hrunning
        idle := fun _ => h.idle (by rw [hstage]; decide) }, [], .nil _⟩
  | poll ready =>
      obtain ⟨t', ht', hinv, hworld⟩ := poll_ok (b := b) h hen
      have hsame : exec b s (.poll ready) = .ok t := hexec
      rw [ht'] at hsame
      cases hsame
      exact ⟨hinv, [], by rw [hworld]; exact .nil _⟩
  | dispatch =>
      obtain ⟨t', ht', hinv, hrun⟩ := dispatch_ok (b := b) h hen
      have hsame : exec b s .dispatch = .ok t := hexec
      rw [ht'] at hsame
      cases hsame
      exact ⟨hinv, hrun⟩
  | dispatched =>
      cases hexec
      obtain ⟨hstage, hrest, hreturned⟩ := hen
      refine ⟨{ h with
        running := fun _ => h.running (by rw [hstage]; decide)
        quiet := fun a o ho hbusy => ?_
        current := by rintro a ⟨⟩
        idle := fun _ => ⟨hrest, rfl⟩ }, [], .nil _⟩
      rw [hreturned a (h.quiet a o ho hbusy) o ho] at hbusy
      cases hbusy
  | again quit =>
      cases hexec
      have hstage : s.stage = .functors := hen
      exact ⟨{ h with
        running := fun _ => h.running (by rw [hstage]; decide)
        idle := fun _ => h.idle (by rw [hstage]; decide) }, [], .nil _⟩

/-- The constructor of the loop tells the kernel of both channels. -/
theorem new_inv (h : Starts b w) : Inv (new w) := by
  have hw := starts_inv h
  obtain ⟨r, hne, _, hnew⟩ := h
  obtain ⟨p₁, hp₁, hnew⟩ := exists_ok_of_bind hnew
  obtain ⟨p₂, hp₂, hnew⟩ := exists_ok_of_bind hnew
  cases hnew
  have hempty : Kernel EPoller.new := by
    refine ⟨fun {fd ev} hev => ?_, fun {a c} hc => ?_⟩
    · cases hev
    · cases hc
  have hkernel₁ := (hempty.create rfl r.timerfd).edit (Function.update_self ..) hp₁
  have hobjects₁ := (Build.setInterest_frame (Function.update_self ..) hp₁).1
  have hfree : p₁.objects r.wakeupChannel = none := by
    rw [hobjects₁, Function.update_of_ne hne.symm]
    exact Function.update_of_ne hne.symm _ _
  have hkernel₂ := (hkernel₁.create hfree r.wakeupFd).edit (Function.update_self ..) hp₂
  -- Both owners are as their constructors left them.
  have howners : ∀ a o, Function.update
      (Function.update (fun _ => none) r.timerfdChannel (some (Owned.new .timerQueue)))
      r.wakeupChannel (some (Owned.new .eventLoop)) a = some o →
        o.dtor = false ∧ o.eventHandling = false := by
    intro a o ho
    by_cases hwakeup : a = r.wakeupChannel
    · rw [hwakeup, Function.update_self, Option.some.injEq] at ho
      subst ho
      exact ⟨rfl, rfl⟩
    · rw [Function.update_of_ne hwakeup] at ho
      by_cases htimer : a = r.timerfdChannel
      · rw [htimer, Function.update_self, Option.some.injEq] at ho
        subst ho
        exact ⟨rfl, rfl⟩
      · rw [Function.update_of_ne htimer] at ho
        cases ho
  exact {
    world := hw
    kernel := hkernel₂
    running := fun _ => rfl
    timer := fun _ a o ho _ => (howners a o ho).1
    quiet := fun a o ho hbusy => by
      rw [(howners a o ho).2] at hbusy
      cases hbusy
    nodup := List.nodup_nil
    current := by rintro a ⟨⟩
    live := fun a ha => by cases ha
    idle := fun _ => ⟨rfl, rfl⟩
    size := ⟨0, rfl⟩ }

theorem reachable_inv (h : ((system b).restrict Meets).Reachable s) : s.Inv := by
  refine h.invariant ?_ fun hs hstep => (step_inv hs hstep).1
  rintro s ⟨w, hw, rfl⟩
  exact new_inv hw

/-- In every run, whatever the callbacks destroy: the pointers that `epoll_wait` returns and those
that still wait in `activeChannels_` are to channels that exist and are registered, each of them
once, with owners that are alive; `epoll` and `handleEvent` use them without a fault; and
`epoll_wait` is always called with room for some events. -/
theorem activeChannels_live (hs : ((system b).restrict Meets).Reachable s) :
    (s.rest.map Prod.fst).Nodup ∧
      (∀ a ∈ s.rest.map Prod.fst, Live s.world a ∧ ∀ o ∈ s.world.owners a, ∀ m ∈ o.owner.conn?,
        m.Alive) ∧
      (∀ ready, Enabled s (.poll ready) → 0 < s.events ∧ ∃ t, exec b s (.poll ready) = .ok t) ∧
      (Enabled s .dispatch → ∃ t, exec b s .dispatch = .ok t) := by
  have h := reachable_inv hs
  refine ⟨h.nodup, fun a ha => ⟨h.live a ha, fun o ho => ?_⟩, fun ready hen => ⟨?_, ?_⟩,
    fun hen => ?_⟩
  · obtain ⟨o', c, ho', hc, _, hadded⟩ := h.live a ha
    rw [Option.mem_def, ho'] at ho
    cases ho
    exact alive_of_live h.world h.kernel ho' hc hadded
  · obtain ⟨k, hk⟩ := h.size
    rw [hk]
    exact Nat.mul_pos (by decide) (Nat.pow_pos (by decide))
  · obtain ⟨t, ht, _⟩ := poll_ok (b := b) h hen
    exact ⟨t, ht⟩
  · obtain ⟨t, ht, _⟩ := dispatch_ok (b := b) h hen
    exact ⟨t, ht⟩

/-- A loop that collects the pointers first and uses them later does to the world what one would
do that asked the kernel before every single event. -/
theorem loop_refines (hs : ((system b).restrict Meets).Reachable s) {acts : List Act}
    (hrun : ((system b).restrict Meets).Run s acts t) :
    ∃ acts', ((ChannelOwners.system b).restrict ChannelOwners.Meets).Run s.world acts' t.world :=
  (hrun.simulates (N := (ChannelOwners.system b).restrict ChannelOwners.Meets)
    (f := LoopWorld.world) (fun hs hstep => step_inv hs hstep) (reachable_inv hs)).2

/-- The peer of a connection closes it, and there is an event for an acceptor behind that. -/
def twoEvents : List Act :=
  [.world (.newAcceptor 3 6), .world (.listen 3), .world (.newConnection 8 7 true 64 false false),
    .loop, .poll [], .dispatched, .world (.run 8 (.accept 0)), .again false,
    .poll [(7, EPOLLIN), (6, EPOLLIN)], .dispatch,
    .world (.callback 8 (.bytes []) (.accept 0))]

def first (b : Build) : LoopWorld :=
  new (World.first b)

def after (b : Build) (acts : List Act) : LoopWorld :=
  (StepSystem.execAll (exec b) (first b) acts).toOption.getD (first b)

theorem twoEvents_run :
    ((system .debug).restrict Meets).Reachable (first .debug) ∧
      ((system .debug).restrict Meets).Run (first .debug) twoEvents (after .debug twoEvents) := by
  have hstart : Starts .debug (World.first .debug) := ⟨firstLoop, by decide, by decide, rfl⟩
  refine ⟨.init ⟨_, hstart, rfl⟩, ?_⟩
  rw [system, StepSystem.restrict_ofExec]
  refine StepSystem.run_of_execAll ?_ rfl
  refine ⟨⟨⟨trivial, by rintro _ ⟨⟩⟩, by decide⟩, ⟨⟨trivial, by rintro _ ⟨⟩⟩, by decide⟩,
    ⟨⟨trivial, by rintro _ ⟨⟩⟩, by decide⟩, ⟨trivial, by decide⟩, ⟨trivial, by decide⟩,
    ⟨trivial, by decide⟩, ⟨⟨?_, by rintro _ ⟨⟩⟩, by decide⟩, ⟨trivial, by decide⟩,
    ⟨trivial, by decide⟩, ⟨trivial, by decide⟩, ⟨⟨trivial, by rintro _ ⟨⟩⟩, by decide⟩, trivial⟩
  unfold ChannelOwners.Meets
  decide

theorem activeChannels_live_twoEvents :
    (after .debug twoEvents).rest = [(3, EPOLLIN)] ∧ Live (after .debug twoEvents).world 3 := by
  obtain ⟨hinit, hrun⟩ := twoEvents_run
  exact ⟨by decide,
    ((activeChannels_live (hrun.reachable hinit)).2.1 3 (by decide)).1⟩

theorem loop_refines_twoEvents :
    ∃ acts, ((ChannelOwners.system .debug).restrict ChannelOwners.Meets).Run
      (World.first .debug) acts (after .debug twoEvents).world :=
  loop_refines twoEvents_run.1 twoEvents_run.2

/-- The callback of the connection destroys the acceptor, and the loop comes to its channel. -/
theorem acceptor_dies_in_activeChannels :
    let acts := twoEvents ++
      [.world (.dtor 3), .world (.channelDtor 3), .world (.handled 8)]
    (system .release).Run (first .release) acts (after .release acts) ∧
      Enabled (after .release acts) .dispatch ∧
      exec .release (after .release acts) .dispatch = .error .useAfterFree :=
  ⟨StepSystem.run_of_execAll (by decide) rfl, by decide, rfl⟩

end LoopWorld

end ChannelOwners

end Net
end Muduo
