import Muduo.Net.TcpServerTracking

/-!
# TcpServerTeardown — `~TcpServer` and the loops that outlive it

The destructor runs on the base loop.  It takes every entry of `connections_` and runs
`connectDestroyed` on the loop of the connection; then its members go, and with `threadPool_` the
threads of the pool, each of which is told to quit and joined.  Meanwhile the I/O loops go on with
their events and functors, and after it the base loop with what is left in its queue.

A loop tests `quit_` between its batches only, and what was pushed after its last swap is lost.
Nothing takes back the `removeConnection` that the connections were given as their
`closeCallback_`, nor a `removeConnectionInLoop` on its way to the base loop.
-/

namespace Muduo
namespace Net

/-! ## Threads -/

/-- Where an I/O loop is. -/
inductive IoPc
  /-- Before the `quit_ = false` of `loop()`. -/
  | entering
  /-- At the test of `while (!quit_)`. -/
  | testing
  /-- In `epoll_wait`. -/
  | polling
  /-- Dispatching events, until the swap of `doPendingFunctors`. -/
  | handling
  /-- Calling the functors of the batch. -/
  | running
  /-- `loop()` has returned. -/
  | exited
  deriving DecidableEq, Repr

/-- The loop swaps once more before it tests `quit_`, or is yet to clear it. -/
def IoPc.swapsAgain : IoPc → Bool
  | .entering => true
  | .polling => true
  | .handling => true
  | _ => false

structure IoLoop where
  pc : IoPc
  quit : Bool
  /-- How many functors of the queue, from its head on, are in the current batch. -/
  batch : Nat
  deriving DecidableEq, Repr

/-- Where the destructor is. -/
inductive Dtor
  /-- Not called yet. -/
  | alive
  /-- In the loop over `connections_`. -/
  | walking
  /-- In `~EventLoopThread` of thread `i`, before `quit()`. -/
  | quitting (i : Nat)
  /-- In its `thread_.join()`. -/
  | joining (i : Nat)
  | returned
  deriving DecidableEq, Repr

/-- The thread of the base loop is outside the destructor. -/
def Dtor.outside : Dtor → Bool
  | .alive => true
  | .returned => true
  | _ => false

/-- The loop over `connections_` has ended. -/
def Dtor.walked : Dtor → Bool
  | .alive => false
  | .walking => false
  | _ => true

/-- The threads of the pool are destroyed in turn. -/
def Dtor.thread (loops i : Nat) : Dtor :=
  if i < loops then .quitting i else .returned

/-- The threads whose `join` has returned. -/
def Dtor.HasJoined (loops : Nat) : Dtor → Nat → Prop
  | .quitting i, j => j < i
  | .joining i, j => j < i
  | .returned, j => j < loops
  | _, _ => False

theorem Dtor.thread_cases (loops i : Nat) :
    (Dtor.thread loops i = .quitting i) ∨ (Dtor.thread loops i = .returned ∧ loops ≤ i) := by
  rw [Dtor.thread]
  split
  · exact Or.inl rfl
  · exact Or.inr ⟨rfl, by omega⟩

/-- Calls through the server's `this` after the destructor was entered. -/
inductive LateCall
  | removeConnection (conn : Nat)
  | removeConnectionInLoop (conn : Nat)
  deriving DecidableEq, Repr

structure Teardown where
  server : TcpServer
  dtor : Dtor
  /-- The loops of the pool. -/
  io : Nat → IoLoop
  late : List LateCall

namespace Teardown

open TcpServer

def new (name : List Char) (listenAddr : IPv4Address) (loops : Nat) : Teardown where
  server := TcpServer.new name listenAddr loops
  dtor := .alive
  io := fun _ => ⟨.entering, false, 0⟩
  late := []

/-! ## Steps -/

/-- One turn of the loop over `connections_`: `item.second.reset()`, and `runInLoop` of
`connectDestroyed`. -/
def destroyItem (s : TcpServer) (k : Nat) (c : ServerConn) : TcpServer :=
  let s := { s with connections := Function.update s.connections c.name none }
  if c.loop = .base then s.connectDestroyed .base k c
  else s.queueInLoop c.loop (.connectDestroyed k)

def setIo (s : Teardown) (i : Nat) (l : IoLoop) : Teardown :=
  { s with io := Function.update s.io i l }

inductive Act
  | newConnection (sockfd : Int)
  | peerClose (conn : Nat)
  /-- The base loop calls the functor in front of its queue. -/
  | baseFunctor
  /-- `~TcpServer` is entered. -/
  | destroy
  | destroyItem (conn : Nat)
  /-- The loop over `connections_` ends. -/
  | walked
  /-- `loop_->quit()` in `~EventLoopThread` of thread `i`. -/
  | quit (i : Nat)
  /-- Its `join` returns. -/
  | joined (i : Nat)
  /-- `quit_ = false`. -/
  | enter (i : Nat)
  | test (i : Nat)
  | epoll (i : Nat)
  | swap (i : Nat)
  | functor (i : Nat)
  /-- `doPendingFunctors` returns. -/
  | finish (i : Nat)
  deriving DecidableEq, Repr

def next (s : Teardown) : Act → Teardown
  | .newConnection sockfd => { s with server := s.server.newConnection sockfd }
  | .peerClose k =>
      match s.server.conns[k]? with
      | some c =>
          { s with
            server := s.server.peerClose k c
            late := if s.dtor = .alive then s.late else s.late ++ [.removeConnection k] }
      | none => s
  | .baseFunctor =>
      match s.server.queues .base, s.dtor with
      -- The server is gone, and what its function does is undefined.
      | .removeConnectionInLoop k :: rest, .returned =>
          { s with
            server := s.server.popped .base rest
            late := s.late ++ [.removeConnectionInLoop k] }
      | cb :: rest, _ => { s with server := (s.server.popped .base rest).call .base cb }
      | [], _ => s
  | .destroy => { s with dtor := .walking }
  | .destroyItem k =>
      match s.server.conns[k]? with
      | some c => { s with server := destroyItem s.server k c }
      | none => s
  | .walked => { s with dtor := .thread s.server.loops 0 }
  | .quit i => { s.setIo i { s.io i with quit := true } with dtor := .joining i }
  | .joined i => { s with dtor := .thread s.server.loops (i + 1) }
  | .enter i => s.setIo i ⟨.testing, false, 0⟩
  | .test i => s.setIo i { s.io i with pc := if (s.io i).quit then .exited else .polling }
  | .epoll i => s.setIo i { s.io i with pc := .handling }
  | .swap i => s.setIo i { s.io i with pc := .running, batch := (s.server.queues (.io i)).length }
  | .functor i =>
      match s.server.queues (.io i) with
      | cb :: rest =>
          { s.setIo i { s.io i with batch := (s.io i).batch - 1 } with
            server := (s.server.popped (.io i) rest).call (.io i) cb }
      | [] => s
  | .finish i => s.setIo i { s.io i with pc := .testing }

/-- The thread of a loop can dispatch an event. -/
def Dispatches (s : Teardown) : LoopId → Prop
  | .base => s.dtor.outside = true
  | .io i => (s.io i).pc = .handling

instance (s : Teardown) (loop : LoopId) : Decidable (Dispatches s loop) :=
  match loop with
  | .base => inferInstanceAs (Decidable (_ = _))
  | .io _ => inferInstanceAs (Decidable (_ = _))

/-- The destructor takes the entries in the order of their names; any order is allowed here. -/
def Enabled (s : Teardown) : Act → Prop
  | .newConnection sockfd => s.dtor = .alive ∧ TcpServer.Enabled s.server (.newConnection sockfd)
  | .peerClose k => ∃ c ∈ s.server.conns[k]?, c.conn.channel.index = .kAdded ∧ Dispatches s c.loop
  | .baseFunctor => s.dtor.outside = true ∧ s.server.queues .base ≠ []
  | .destroy => s.dtor = .alive
  | .destroyItem k =>
      s.dtor = .walking ∧ ∃ c ∈ s.server.conns[k]?, s.server.connections c.name = some k
  | .walked => s.dtor = .walking ∧ ∀ c ∈ s.server.conns, s.server.connections c.name = none
  | .quit i => s.dtor = .quitting i
  | .joined i => s.dtor = .joining i ∧ (s.io i).pc = .exited
  | .enter i => i < s.server.loops ∧ (s.io i).pc = .entering
  | .test i => (s.io i).pc = .testing
  | .epoll i => (s.io i).pc = .polling
  | .swap i => (s.io i).pc = .handling
  | .functor i => (s.io i).pc = .running ∧ 0 < (s.io i).batch ∧ s.server.queues (.io i) ≠ []
  | .finish i => (s.io i).pc = .running ∧ (s.io i).batch = 0

instance (s : Teardown) (a : Act) : Decidable (Enabled s a) :=
  match a with
  | .newConnection _ => inferInstanceAs (Decidable (_ ∧ _))
  | .peerClose k =>
      inferInstanceAs (Decidable (∃ c ∈ s.server.conns[k]?,
        c.conn.channel.index = .kAdded ∧ Dispatches s c.loop))
  | .baseFunctor => inferInstanceAs (Decidable (_ ∧ _))
  | .destroy => inferInstanceAs (Decidable (_ = _))
  | .destroyItem k =>
      inferInstanceAs (Decidable (_ ∧
        ∃ c ∈ s.server.conns[k]?, s.server.connections c.name = some k))
  | .walked => inferInstanceAs (Decidable (_ ∧ ∀ c ∈ s.server.conns, _))
  | .quit _ => inferInstanceAs (Decidable (_ = _))
  | .joined _ => inferInstanceAs (Decidable (_ ∧ _))
  | .enter _ => inferInstanceAs (Decidable (_ ∧ _))
  | .test _ => inferInstanceAs (Decidable (_ = _))
  | .epoll _ => inferInstanceAs (Decidable (_ = _))
  | .swap _ => inferInstanceAs (Decidable (_ = _))
  | .functor _ => inferInstanceAs (Decidable (_ ∧ _ ∧ _))
  | .finish _ => inferInstanceAs (Decidable (_ ∧ _))

def Starts (s : Teardown) : Prop :=
  ∃ name listenAddr loops, s = Teardown.new name listenAddr loops

def system : StepSystem Teardown Act :=
  StepSystem.ofNext Starts Enabled next

/-! ## Exactly once -/

/-- The event that running a functor is. -/
def doneBy : ServerFunctor → ServerEvent → Bool
  | .connectEstablished k, .established j _ => k == j
  | .removeConnectionInLoop k, .removed j _ => k == j
  | .connectDestroyed k, .destroyed j _ => k == j
  | _, _ => false

/-- How often a function was run for its connection, on any thread. -/
def runs (s : TcpServer) (cb : ServerFunctor) : Nat :=
  s.log.countP (doneBy cb)

/-- `loop()` has not returned. -/
def GoesOn (s : Teardown) : LoopId → Prop
  | .base => True
  | .io i => (s.io i).pc ≠ .exited

structure TornDown (s : Teardown) : Prop where
  once : ∀ k, runs s.server (.connectDestroyed k) ≤ 1
  /-- When the destructor has seen all connections, every established one is destroyed, or
  `connectDestroyed` waits in the queue of a loop that goes on. -/
  kept : s.dtor.walked = true → ∀ {k : Nat} {c : ServerConn}, s.server.conns[k]? = some c →
    0 < runs s.server (.connectEstablished k) →
      runs s.server (.connectDestroyed k) = 1 ∨
        (.connectDestroyed k ∈ s.server.queues c.loop ∧ GoesOn s c.loop)
  /-- After the destructor, and when the base loop has emptied its queue, every established
  connection is destroyed. -/
  complete : s.dtor = .returned → s.server.queues .base = [] →
    ∀ k, 0 < runs s.server (.connectEstablished k) → runs s.server (.connectDestroyed k) = 1
  late : s.late = []

def isRemoval : ServerFunctor → Bool
  | .removeConnectionInLoop _ => true
  | _ => false

/-- No `connectDestroyed` is among the functors, except behind the `connectEstablished` of the
same connection. -/
def Lossless (l : List ServerFunctor) : Prop :=
  ∀ cb ∈ l, cb = .connectDestroyed cb.conn → .connectEstablished cb.conn ∈ l

instance (l : List ServerFunctor) : Decidable (Lossless l) :=
  inferInstanceAs (Decidable (∀ cb ∈ l, _))

/-- The destructor finds no removal on its way, no peer closes after that, and a loop told to quit
has a swap before it, or nothing to lose. -/
def Meets (s : Teardown) : Act → Prop
  | .destroy => ∀ cb ∈ s.server.queues .base, isRemoval cb = false
  | .peerClose _ => s.dtor = .alive
  | .quit i =>
      (s.io i).pc.swapsAgain = true ∨
        Lossless ((s.server.queues (.io i)).drop (s.io i).batch)
  | _ => True

instance (s : Teardown) (a : Act) : Decidable (Meets s a) :=
  match a with
  | .newConnection _ => isTrue trivial
  | .peerClose _ => inferInstanceAs (Decidable (_ = _))
  | .baseFunctor => isTrue trivial
  | .destroy => inferInstanceAs (Decidable (∀ cb ∈ s.server.queues .base, _))
  | .destroyItem _ => isTrue trivial
  | .walked => isTrue trivial
  | .quit _ => inferInstanceAs (Decidable (_ ∨ _))
  | .joined _ => isTrue trivial
  | .enter _ => isTrue trivial
  | .test _ => isTrue trivial
  | .epoll _ => isTrue trivial
  | .swap _ => isTrue trivial
  | .functor _ => isTrue trivial
  | .finish _ => isTrue trivial

/-! ## Counting functors and runs -/

variable {s : TcpServer} {k : Nat} {c : ServerConn}

/-- What `connectEstablished` and `connectDestroyed` do to the server: they edit the object of the
connection and leave one event. -/
theorem call_eq {cb : ServerFunctor} (hcb : isRemoval cb = false)
    (hc : s.conns[cb.conn]? = some c) (on : LoopId) :
    ∃ conn e, s.call on cb = { s with conns := s.conns.set cb.conn { c with conn := conn }
                                      log := s.log ++ [e] } ∧
      e.conn = cb.conn ∧ ∀ x, doneBy x e = decide (x = cb) := by
  rw [call, hc]
  cases cb with
  | connectEstablished k =>
      refine ⟨_, .established k on, rfl, rfl, ?_⟩
      intro x
      cases x <;> simp [doneBy, Bool.beq_eq_decide_eq]
  | removeConnectionInLoop k => cases hcb
  | connectDestroyed k =>
      refine ⟨_, .destroyed k on, rfl, rfl, ?_⟩
      intro x
      cases x <;> simp [doneBy, Bool.beq_eq_decide_eq]

theorem conn_of_doneBy {cb : ServerFunctor} {e : ServerEvent} (h : doneBy cb e = true) :
    e.conn = cb.conn := by
  cases cb <;> cases e <;> simp_all [doneBy, ServerFunctor.conn, ServerEvent.conn]

theorem runs_of_filter (s : TcpServer) (cb : ServerFunctor) :
    runs s cb = (s.log.filter (fun e => e.conn == cb.conn)).countP (doneBy cb) := by
  rw [List.countP_filter]
  refine List.countP_congr ?_
  intro e _
  have hconn : doneBy cb e = true → e.conn = cb.conn := conn_of_doneBy
  simp only [Bool.and_eq_true, beq_iff_eq]
  tauto

/-! ## Connections without a server -/

/-- From the entry of the destructor on: every functor is on the loop of its connection, and each
connection is established and destroyed once, counting what is still to come. -/
structure Orphaned (s : TcpServer) : Prop where
  placed : ∀ {loop cb}, cb ∈ s.queues loop →
    isRemoval cb = false ∧ ∃ c, s.conns[cb.conn]? = some c ∧ c.loop = loop
  established : ∀ {k : Nat} {c : ServerConn}, s.conns[k]? = some c →
    runs s (.connectEstablished k) + (s.queues c.loop).count (.connectEstablished k) ≤ 1
  destroyed : ∀ {k : Nat} {c : ServerConn}, s.conns[k]? = some c →
    runs s (.connectDestroyed k) + (s.queues c.loop).count (.connectDestroyed k) +
      (if s.connections c.name = some k then 1 else 0) = 1
  logged : ∀ {e}, e ∈ s.log → e.conn < s.conns.length

theorem runs_eq_zero (hlogged : ∀ {e}, e ∈ s.log → e.conn < s.conns.length) {cb : ServerFunctor}
    (h : s.conns.length ≤ cb.conn) : runs s cb = 0 := by
  rw [runs, List.countP_eq_zero]
  intro e he hdone
  have hlt := hlogged he
  have hconn := conn_of_doneBy hdone
  omega

theorem Orphaned.once (h : Orphaned s) (k : Nat) : runs s (.connectDestroyed k) ≤ 1 := by
  by_cases hk : k < s.conns.length
  · have hsum := h.destroyed (List.getElem?_eq_getElem hk)
    omega
  · rw [runs_eq_zero h.logged (by simpa [ServerFunctor.conn] using hk)]
    omega

/-- A stage of `TcpServerTracking` fixes how often the functions of a connection were run. -/
theorem runs_of_at {stage : Stage} (hat : At s k c stage) :
    runs s (.connectEstablished k) = (stage.events k c).countP (doneBy (.connectEstablished k)) ∧
      runs s (.connectDestroyed k) = (stage.events k c).countP (doneBy (.connectDestroyed k)) := by
  rw [runs_of_filter, runs_of_filter, ← hat.events]
  exact ⟨rfl, rfl⟩

theorem once_of_inv (h : TcpServer.Inv s) (k : Nat) : runs s (.connectDestroyed k) ≤ 1 := by
  by_cases hk : k < s.conns.length
  · rcases h.stages (List.getElem?_eq_getElem hk) with ⟨stage, hat⟩
    rw [(runs_of_at hat).2]
    cases stage <;> simp [Stage.events, doneBy]
  · rw [runs_eq_zero h.logged (by simpa [ServerFunctor.conn] using hk)]
    omega

/-- The destructor is entered with no removal on its way. -/
theorem orphaned_of_inv (h : TcpServer.Inv s)
    (hremoval : ∀ cb ∈ s.queues .base, isRemoval cb = false) : Orphaned s := by
  -- A functor in a queue is the one that the stage of its connection expects.
  have hexpects : ∀ {loop cb k c stage}, cb ∈ s.queues loop → cb.conn = k → At s k c stage →
      stage.expects k c = some (loop, cb) := by
    intro loop cb k c stage hin hk hat
    have hcount := hat.queue loop cb hk
    by_contra hne
    rw [if_neg hne, List.count_eq_zero] at hcount
    exact hcount hin
  have hclosing : ∀ {k c}, ¬ At s k c .closing := by
    intro k c hat
    have hcount := hat.queue .base (.removeConnectionInLoop k) rfl
    have hin : .removeConnectionInLoop k ∈ s.queues .base := by
      rw [← List.count_pos_iff, hcount]
      simp [Stage.expects]
    cases hremoval _ hin
  refine ⟨?_, ?_, ?_, h.logged⟩
  · intro loop cb hin
    have hlt := h.functors hin
    have hc : s.conns[cb.conn]? = some s.conns[cb.conn] := List.getElem?_eq_getElem hlt
    generalize s.conns[cb.conn] = c at hc
    rcases h.stages hc with ⟨stage, hat⟩
    have hstage := hexpects hin rfl hat
    generalize cb.conn = k at hc hat hstage ⊢
    cases stage with
    | accepted =>
        cases hstage
        exact ⟨rfl, c, hc, rfl⟩
    | closing => exact absurd hat hclosing
    | removed =>
        cases hstage
        exact ⟨rfl, c, hc, rfl⟩
    | _ => cases hstage
  · intro k c hc
    rcases h.stages hc with ⟨stage, hat⟩
    rw [(runs_of_at hat).1, hat.queue _ _ rfl]
    cases stage <;> simp [Stage.events, Stage.expects, doneBy]
  · intro k c hc
    rcases h.stages hc with ⟨stage, hat⟩
    rw [(runs_of_at hat).2, hat.queue _ _ rfl, hat.entry]
    cases stage with
    | closing => exact absurd hat hclosing
    | _ => simp [Stage.events, Stage.expects, Stage.tracked, doneBy]

theorem queues_popped (s : TcpServer) (loop loop' : LoopId) (rest : List ServerFunctor) :
    (s.popped loop rest).queues loop' = if loop' = loop then rest else s.queues loop' := by
  simp [popped, Function.update_apply]

theorem count_popped {loop : LoopId} {cb : ServerFunctor} {rest : List ServerFunctor}
    (hqueue : s.queues loop = cb :: rest) (loop' : LoopId) (x : ServerFunctor) :
    (s.queues loop').count x =
      ((s.popped loop rest).queues loop').count x + if x = cb ∧ loop' = loop then 1 else 0 := by
  rw [queues_popped]
  by_cases hloop : loop' = loop
  · subst hloop
    simp only [hqueue, List.count_cons, beq_iff_eq, if_true, and_true]
    simp [eq_comm]
  · simp [hloop]

/-- Running a functor moves it from what is to come to what was done. -/
theorem runs_call {loop : LoopId} {cb : ServerFunctor} {rest : List ServerFunctor}
    (hqueue : s.queues loop = cb :: rest) (hcb : isRemoval cb = false)
    (hc : s.conns[cb.conn]? = some c) {loop' : LoopId} {x : ServerFunctor}
    (hx : x = cb → loop' = loop) :
    runs ((s.popped loop rest).call loop cb) x +
        (((s.popped loop rest).call loop cb).queues loop').count x =
      runs s x + (s.queues loop').count x := by
  rcases call_eq (s := s.popped loop rest) hcb hc loop with ⟨conn, e, heq, _, hdone⟩
  have hruns : runs ((s.popped loop rest).call loop cb) x =
      runs s x + if x = cb then 1 else 0 := by
    rw [heq]
    simp [runs, popped, hdone]
  have hcount := count_popped hqueue loop' x
  have hiff : (x = cb ∧ loop' = loop) ↔ x = cb := ⟨fun h => h.1, fun h => ⟨h, hx h⟩⟩
  rw [if_congr hiff rfl rfl] at hcount
  have hqueues : ((s.popped loop rest).call loop cb).queues = (s.popped loop rest).queues := by
    rw [heq]
  rw [hruns, hqueues]
  omega

/-- The pool is the same, and the connections have kept their names and loops. -/
structure SamePool (s s' : TcpServer) : Prop where
  conns : ∀ k : Nat, (s'.conns[k]?).map (fun c => (c.name, c.loop)) =
    (s.conns[k]?).map (fun c => (c.name, c.loop))
  loops : s'.loops = s.loops
  next : s'.next = s.next

theorem SamePool.symm {s' : TcpServer} (h : SamePool s s') : SamePool s' s :=
  ⟨fun k => (h.conns k).symm, h.loops.symm, h.next.symm⟩

theorem SamePool.back {s' : TcpServer} (h : SamePool s s') {d : ServerConn}
    (hd : s'.conns[k]? = some d) :
    ∃ c, s.conns[k]? = some c ∧ c.name = d.name ∧ c.loop = d.loop := by
  have hconns := h.conns k
  rw [hd] at hconns
  rcases Option.map_eq_some_iff.mp hconns.symm with ⟨c, hc, heq⟩
  exact ⟨c, hc, congrArg Prod.fst heq, congrArg Prod.snd heq⟩

theorem samePool_set {s' : TcpServer} {c' : ServerConn} (hc : s.conns[k]? = some c)
    (hconns : s'.conns = s.conns.set k c') (hname : c'.name = c.name) (hloop : c'.loop = c.loop)
    (hloops : s'.loops = s.loops) (hnext : s'.next = s.next) : SamePool s s' := by
  refine ⟨?_, hloops, hnext⟩
  intro j
  rw [hconns]
  by_cases hj : k = j
  · subst hj
    rw [List.getElem?_set_self (List.getElem?_eq_some_iff.mp hc).1, hc]
    simp [hname, hloop]
  · rw [List.getElem?_set_ne hj]

theorem samePool_call (s : TcpServer) (on : LoopId) (cb : ServerFunctor) :
    SamePool s (s.call on cb) := by
  cases hc : s.conns[cb.conn]? with
  | none =>
      rw [call, hc]
      exact ⟨fun _ => rfl, rfl, rfl⟩
  | some c =>
      rw [call, hc]
      cases cb with
      | connectEstablished k => exact samePool_set hc rfl rfl rfl rfl rfl
      | removeConnectionInLoop k => exact ⟨fun _ => rfl, rfl, rfl⟩
      | connectDestroyed k => exact samePool_set hc rfl rfl rfl rfl rfl

theorem samePool_run (s : TcpServer) (loop : LoopId) (rest : List ServerFunctor)
    (cb : ServerFunctor) : SamePool s ((s.popped loop rest).call loop cb) := by
  have hcall := samePool_call (s.popped loop rest) loop cb
  exact ⟨hcall.conns, hcall.loops, hcall.next⟩

theorem samePool_peerClose (hc : s.conns[k]? = some c) : SamePool s (s.peerClose k c) := by
  rw [peerClose_eq, removeConnection]
  split
  · exact samePool_set hc rfl rfl rfl rfl rfl
  · exact samePool_set hc rfl rfl rfl rfl rfl

theorem samePool_destroyItem (hc : s.conns[k]? = some c) : SamePool s (destroyItem s k c) := by
  simp only [destroyItem]
  split
  · exact samePool_set hc rfl rfl rfl rfl rfl
  · exact ⟨fun _ => rfl, rfl, rfl⟩

/-- The loop of a functor and the loop of its connection are one. -/
theorem Orphaned.loop_eq (h : Orphaned s) {loop : LoopId} {cb : ServerFunctor}
    (hin : cb ∈ s.queues loop) (hc : s.conns[cb.conn]? = some c) : c.loop = loop := by
  rcases (h.placed hin).2 with ⟨c', hc', hloop⟩
  rw [hc] at hc'
  cases hc'
  exact hloop

theorem Orphaned.runFunctor (h : Orphaned s) {loop : LoopId} {cb : ServerFunctor}
    {rest : List ServerFunctor} (hqueue : s.queues loop = cb :: rest) :
    Orphaned ((s.popped loop rest).call loop cb) ∧
      ((s.popped loop rest).call loop cb).queues = (s.popped loop rest).queues ∧
      ((s.popped loop rest).call loop cb).connections = s.connections := by
  have hin : cb ∈ s.queues loop := by
    rw [hqueue]
    exact List.mem_cons_self
  rcases h.placed hin with ⟨hcb, c, hc, _⟩
  have hsame := samePool_run s loop rest cb
  rcases call_eq (s := s.popped loop rest) hcb hc loop with ⟨conn, e, heq, hconn, _⟩
  have hqueues : ((s.popped loop rest).call loop cb).queues = (s.popped loop rest).queues := by
    rw [heq]
  have hconnections : ((s.popped loop rest).call loop cb).connections = s.connections := by
    rw [heq]
    rfl
  -- The count of a functor, done and to come, stays on the loop of its connection.
  have hkept : ∀ {x : ServerFunctor} {d : ServerConn}, s.conns[x.conn]? = some d →
      runs ((s.popped loop rest).call loop cb) x +
          (((s.popped loop rest).call loop cb).queues d.loop).count x =
        runs s x + (s.queues d.loop).count x := by
    intro x d hd
    refine runs_call hqueue hcb hc ?_
    rintro rfl
    exact h.loop_eq hin hd
  refine ⟨⟨?_, ?_, ?_, ?_⟩, hqueues, hconnections⟩
  · intro loop' cb' hin'
    have hold : cb' ∈ s.queues loop' := by
      rw [hqueues, queues_popped] at hin'
      split at hin'
      case isTrue heq' =>
        rw [heq', hqueue]
        exact List.mem_cons_of_mem _ hin'
      case isFalse _ => exact hin'
    rcases h.placed hold with ⟨hcb', c', hc', hloop⟩
    rcases hsame.symm.back hc' with ⟨d, hd, _, hdloop⟩
    exact ⟨hcb', d, hd, hdloop.trans hloop⟩
  · intro k d hd
    rcases hsame.back hd with ⟨c', hc', _, hloop⟩
    have hsum := hkept (x := .connectEstablished k) hc'
    have hold := h.established hc'
    rw [← hloop]
    omega
  · intro k d hd
    rcases hsame.back hd with ⟨c', hc', hname, hloop⟩
    have hsum := hkept (x := .connectDestroyed k) hc'
    have hold := h.destroyed hc'
    rw [hconnections, ← hloop, ← hname]
    omega
  · intro e' he'
    rw [heq] at he' ⊢
    simp only [popped, List.length_set]
    rcases List.mem_append.mp he' with he' | he'
    · exact h.logged he'
    · rw [List.mem_singleton.mp he', hconn]
      exact (List.getElem?_eq_some_iff.mp hc).1

/-- The destructor runs `connectDestroyed`, or queues it on the loop of the connection. -/
theorem runs_destroyItem (s : TcpServer) (k : Nat) (c : ServerConn) {x : ServerFunctor}
    {loop : LoopId} (hx : x = .connectDestroyed k → loop = c.loop) :
    runs (destroyItem s k c) x + ((destroyItem s k c).queues loop).count x =
      runs s x + (s.queues loop).count x + if x = .connectDestroyed k then 1 else 0 := by
  have hdone : doneBy x (.destroyed k .base) = decide (x = .connectDestroyed k) := by
    cases x <;> simp [doneBy, Bool.beq_eq_decide_eq]
  simp only [destroyItem]
  split
  · simp only [connectDestroyed, runs, List.countP_append, List.countP_singleton, hdone,
      decide_eq_true_eq]
    omega
  · simp only [queueInLoop, runs, Function.update_apply]
    by_cases hloop : loop = c.loop
    · subst hloop
      simp only [if_true, List.count_append, List.count_singleton, beq_iff_eq]
      simp only [eq_comm]
      omega
    · rw [if_neg hloop, if_neg fun heq => hloop (hx heq)]
      omega

/-- `item.second.reset()` is about one connection. -/
theorem tracked_reset (hc : s.conns[k]? = some c) (hentry : s.connections c.name = some k)
    {j : Nat} {d : ServerConn} (hd : s.conns[j]? = some d) :
    ((if Function.update s.connections c.name none d.name = some j then 1 else 0) +
        if j = k then 1 else 0) =
      if s.connections d.name = some j then 1 else 0 := by
  by_cases hj : j = k
  · subst hj
    rw [hc] at hd
    cases hd
    simp [hentry]
  · by_cases hname : d.name = c.name
    · -- The entry under this name is that of `k`.
      have hother : ¬ k = j := fun heq => hj heq.symm
      simp [hname, hentry, hj, hother]
    · simp [Function.update_of_ne hname, hj]

theorem Orphaned.destroyItem (h : Orphaned s) (hc : s.conns[k]? = some c)
    (hentry : s.connections c.name = some k) : Orphaned (destroyItem s k c) := by
  have hsame := samePool_destroyItem hc
  have hconnections : (Teardown.destroyItem s k c).connections =
      Function.update s.connections c.name none := by
    simp only [Teardown.destroyItem]
    split <;> rfl
  refine ⟨?_, ?_, ?_, ?_⟩
  · intro loop cb hin
    have hplaced : isRemoval cb = false ∧ ∃ c', s.conns[cb.conn]? = some c' ∧ c'.loop = loop := by
      simp only [Teardown.destroyItem] at hin
      split at hin
      · exact h.placed hin
      · simp only [queueInLoop, Function.update_apply] at hin
        split at hin
        case isTrue hloop =>
          rcases List.mem_append.mp hin with hin | hin
          · exact hloop ▸ h.placed hin
          · rw [List.mem_singleton.mp hin]
            exact ⟨rfl, c, hc, hloop.symm⟩
        case isFalse _ => exact h.placed hin
    rcases hplaced with ⟨hcb, c', hc', hloop⟩
    rcases hsame.symm.back hc' with ⟨d, hd, _, hdloop⟩
    exact ⟨hcb, d, hd, hdloop.trans hloop⟩
  · intro j d hd
    rcases hsame.back hd with ⟨d', hd', _, hloop⟩
    have hx : ServerFunctor.connectEstablished j = .connectDestroyed k → d.loop = c.loop := by
      simp
    have hsum := runs_destroyItem s k c hx
    have hold := h.established hd'
    rw [hloop] at hold
    simp only [reduceCtorEq, if_false] at hsum
    omega
  · intro j d hd
    rcases hsame.back hd with ⟨d', hd', hname, hloop⟩
    have hx : ServerFunctor.connectDestroyed j = .connectDestroyed k → d.loop = c.loop := by
      intro heq
      cases heq
      rw [hc] at hd'
      cases hd'
      exact hloop.symm
    have hsum := runs_destroyItem s k c hx
    have hold := h.destroyed hd'
    have htracked := tracked_reset hc hentry hd'
    rw [hloop] at hold
    rw [hname] at htracked hold
    simp only [ServerFunctor.connectDestroyed.injEq] at hsum
    rw [hconnections]
    omega
  · intro e he
    have hlength : (Teardown.destroyItem s k c).conns.length = s.conns.length := by
      simp only [Teardown.destroyItem]
      split <;> simp [connectDestroyed, queueInLoop]
    rw [hlength]
    simp only [Teardown.destroyItem] at he
    split at he
    · rcases List.mem_append.mp he with he | he
      · exact h.logged he
      · rw [List.mem_singleton.mp he]
        exact (List.getElem?_eq_some_iff.mp hc).1
    · exact h.logged he

/-! ## Loops of the pool -/

/-- The connections live on the base loop or on loops of the pool. -/
structure InPool (s : TcpServer) : Prop where
  conns : ∀ {k : Nat} {c : ServerConn} {i : Nat}, s.conns[k]? = some c → c.loop = .io i →
    i < s.loops
  next : s.loops ≠ 0 → s.next < s.loops

theorem InPool.same {s' : TcpServer} (h : InPool s) (hsame : SamePool s s') : InPool s' := by
  refine ⟨?_, ?_⟩
  · intro k d i hd hi
    rcases hsame.back hd with ⟨c, hc, _, hloop⟩
    rw [hsame.loops]
    exact h.conns hc (hloop.trans hi)
  · rw [hsame.loops, hsame.next]
    exact h.next

theorem InPool.admitted (h : InPool s) (sockfd : Int) : InPool (s.admitted sockfd) := by
  refine ⟨?_, ?_⟩
  · intro k c i hc hi
    rcases admitted_cases hc with hc | ⟨_, rfl⟩
    · exact h.conns hc hi
    · -- `getNextLoop` chooses `loops_[next_]`.
      have hchosen : s.getNextLoop.1 = .io i := hi
      rw [getNextLoop] at hchosen
      split at hchosen
      case isTrue _ => cases hchosen
      case isFalse hpool =>
        cases hchosen
        exact h.next hpool
  · intro hpool
    have hnext := h.next hpool
    simp only [TcpServer.admitted, getNextLoop]
    split
    · exact hnext
    · split <;> omega

theorem InPool.newConnection (h : InPool s) (sockfd : Int) : InPool (s.newConnection sockfd) := by
  have hc := getElem?_admitted_self (s := s) sockfd
  by_cases hbase : (s.nextConn sockfd).loop = .base
  · rw [newConnection_base hbase]
    exact (h.admitted sockfd).same (samePool_set hc rfl rfl rfl rfl rfl)
  · rw [newConnection_io hbase]
    exact (h.admitted sockfd).same ⟨fun _ => rfl, rfl, rfl⟩

/-- A loop that has seen the request to quit, or will see it before the next swap, has nothing to
lose behind its batch. -/
structure IoSafe (q : List ServerFunctor) (l : IoLoop) : Prop where
  testing : l.pc = .testing → l.batch = 0
  exited : l.pc = .exited → l.quit = true ∧ l.batch = 0
  lossless : l.quit = true → l.pc.swapsAgain = false → Lossless (q.drop l.batch)

theorem IoSafe.of_not_quit {q q' : List ServerFunctor} {l : IoLoop} (h : IoSafe q l)
    (hquit : ¬ l.quit = true) : IoSafe q' l :=
  ⟨h.testing, h.exited, fun hq => absurd hq hquit⟩

theorem ioSafe_of_swapsAgain {q : List ServerFunctor} {l : IoLoop} (h : l.pc.swapsAgain = true) :
    IoSafe q l := by
  refine ⟨?_, ?_, ?_⟩
  · intro hpc
    rw [hpc] at h
    cases h
  · intro hpc
    rw [hpc] at h
    cases h
  · intro _ hpc
    rw [hpc] at h
    cases h

theorem ioSafe_enter (q : List ServerFunctor) : IoSafe q ⟨.testing, false, 0⟩ :=
  ⟨fun _ => rfl, nofun, nofun⟩

/-- A loop at its test leaves when it was told to, and has nothing left to lose then. -/
theorem IoSafe.test {q : List ServerFunctor} {l : IoLoop} (h : IoSafe q l)
    (hpc : l.pc = .testing) : IoSafe q { l with pc := if l.quit then .exited else .polling } := by
  have hbatch := h.testing hpc
  cases hquit : l.quit with
  | false => exact ioSafe_of_swapsAgain rfl
  | true =>
      refine ⟨fun _ => hbatch, fun _ => ⟨rfl, hbatch⟩, ?_⟩
      intro _ _
      exact h.lossless hquit (by rw [hpc]; rfl)

theorem IoSafe.finish {q : List ServerFunctor} {l : IoLoop} (h : IoSafe q l)
    (hpc : l.pc = .running) (hbatch : l.batch = 0) : IoSafe q { l with pc := .testing } := by
  refine ⟨fun _ => hbatch, ?_, ?_⟩
  · intro hexited
    cases hexited
  · intro hquit _
    exact h.lossless hquit (by rw [hpc]; rfl)

/-- After the swap the whole queue is in the batch. -/
theorem ioSafe_swap (q : List ServerFunctor) (l : IoLoop) :
    IoSafe q { l with pc := .running, batch := q.length } := by
  refine ⟨?_, ?_, ?_⟩
  · intro htesting
    cases htesting
  · intro hexited
    cases hexited
  · intro _ _
    rw [List.drop_length]
    intro cb hin
    cases hin

/-! ## The invariant -/

variable {t : Teardown}

structure Inv (t : Teardown) : Prop where
  alive : t.dtor = .alive → TcpServer.Inv t.server
  orphaned : t.dtor ≠ .alive → Orphaned t.server
  walked : t.dtor.walked = true → ∀ {k : Nat} {c : ServerConn}, t.server.conns[k]? = some c →
    t.server.connections c.name ≠ some k
  io : ∀ i, IoSafe (t.server.queues (.io i)) (t.io i)
  quits : ∀ i, (t.io i).quit = true → t.dtor.walked = true
  ended : ∀ {i}, t.dtor.HasJoined t.server.loops i → (t.io i).pc = .exited
  pool : InPool t.server
  late : t.late = []

theorem ne_alive_of_walked {d : Dtor} (h : d.walked = true) : d ≠ .alive := by
  rintro rfl
  cases h

/-- After the walk a connection is destroyed, or its `connectDestroyed` is in a queue. -/
theorem Inv.destroyed_or_queued (h : Inv t) (hwalked : t.dtor.walked = true)
    (hc : t.server.conns[k]? = some c) :
    runs t.server (.connectDestroyed k) +
      (t.server.queues c.loop).count (.connectDestroyed k) = 1 := by
  have hsum := (h.orphaned (ne_alive_of_walked hwalked)).destroyed hc
  rw [if_neg (h.walked hwalked hc)] at hsum
  exact hsum

theorem Inv.kept (h : Inv t) (hwalked : t.dtor.walked = true) (hc : t.server.conns[k]? = some c)
    (hest : 0 < runs t.server (.connectEstablished k)) :
    runs t.server (.connectDestroyed k) = 1 ∨
      (.connectDestroyed k ∈ t.server.queues c.loop ∧ GoesOn t c.loop) := by
  have hsum := h.destroyed_or_queued hwalked hc
  by_cases hin : .connectDestroyed k ∈ t.server.queues c.loop
  · refine Or.inr ⟨hin, ?_⟩
    cases hloop : c.loop with
    | base => trivial
    | io i =>
        -- A loop that has returned would have left `connectEstablished` in its queue as well.
        intro hexited
        rcases (h.io i).exited hexited with ⟨hquit, hbatch⟩
        have hlossless := (h.io i).lossless hquit (by rw [hexited]; rfl)
        rw [hbatch, List.drop_zero, ← hloop] at hlossless
        have hboth := List.count_pos_iff.mpr (hlossless _ hin rfl)
        have honce := (h.orphaned (ne_alive_of_walked hwalked)).established hc
        simp only [ServerFunctor.conn] at hboth
        omega
  · rw [List.count_eq_zero.mpr hin] at hsum
    exact Or.inl hsum

theorem Inv.tornDown (h : Inv t) : TornDown t := by
  refine ⟨?_, fun hwalked => h.kept hwalked, ?_, h.late⟩
  · intro k
    by_cases halive : t.dtor = .alive
    · exact once_of_inv (h.alive halive) k
    · exact (h.orphaned halive).once k
  · intro hreturned hbase k hest
    have hwalked : t.dtor.walked = true := by
      rw [hreturned]
      rfl
    have hk : k < t.server.conns.length := by
      by_contra hno
      have horphaned := h.orphaned (ne_alive_of_walked hwalked)
      rw [runs_eq_zero horphaned.logged (by simpa [ServerFunctor.conn] using hno)] at hest
      cases hest
    have hc := List.getElem?_eq_getElem hk
    rcases h.kept hwalked hc hest with hdone | ⟨hin, hgoes⟩
    · exact hdone
    · -- All loops of the pool have returned, and the queue of the base loop is empty.
      exfalso
      cases hloop : t.server.conns[k].loop with
      | base =>
          rw [hloop, hbase] at hin
          cases hin
      | io i =>
          rw [hloop] at hgoes
          have hjoined : t.dtor.HasJoined t.server.loops i := by
            rw [hreturned]
            exact h.pool.conns hc hloop
          exact hgoes (h.ended hjoined)

/-! ## Steps of the threads -/

theorem setIo_io (t : Teardown) (i j : Nat) (l : IoLoop) :
    (t.setIo i l).io j = if j = i then l else t.io j := by
  simp [setIo, Function.update_apply]

/-- A step of one loop of the pool. -/
theorem Inv.setIo (h : Inv t) {i : Nat} {l : IoLoop}
    (hsafe : IoSafe (t.server.queues (.io i)) l)
    (hquit : l.quit = true → t.dtor.walked = true)
    (hexited : (t.io i).pc = .exited → l.pc = .exited) : Inv (t.setIo i l) := by
  refine ⟨h.alive, h.orphaned, h.walked, ?_, ?_, ?_, h.pool, h.late⟩
  · intro j
    rw [setIo_io]
    split
    case isTrue hj =>
      subst hj
      exact hsafe
    case isFalse _ => exact h.io j
  · intro j hj
    rw [setIo_io] at hj
    split at hj
    · exact hquit hj
    · exact h.quits j hj
  · intro j hjoined
    have hold := h.ended hjoined
    rw [setIo_io]
    split
    case isTrue hj =>
      subst hj
      exact hexited hold
    case isFalse _ => exact hold

/-- Before the end of the walk no loop was told to quit, and the server's functions may push. -/
theorem Inv.not_quit (h : Inv t) (hdtor : t.dtor.walked = false) (i : Nat) :
    ¬ (t.io i).quit = true := by
  intro hquit
  rw [h.quits i hquit] at hdtor
  cases hdtor

theorem Inv.serve (h : Inv t) (halive : t.dtor = .alive) {s' : TcpServer}
    (hinv : TcpServer.Inv s') (hpool : InPool s') : Inv { t with server := s' } := by
  have hquit := h.not_quit (by rw [halive]; rfl)
  refine ⟨fun _ => hinv, fun hno => absurd halive hno, ?_, ?_, h.quits, ?_, hpool, h.late⟩
  · intro hwalked
    rw [halive] at hwalked
    cases hwalked
  · intro i
    exact (h.io i).of_not_quit (hquit i)
  · intro i hjoined
    rw [halive] at hjoined
    cases hjoined

/-- A functor of a connection runs after the entry of the destructor. -/
theorem Inv.orphanRuns (h : Inv t) (hdtor : t.dtor ≠ .alive) {loop : LoopId} {cb : ServerFunctor}
    {rest : List ServerFunctor} (hqueue : t.server.queues loop = cb :: rest) {io : Nat → IoLoop}
    (hio : ∀ i, IoSafe ((t.server.popped loop rest).queues (.io i)) (io i))
    (hquit : ∀ i, (io i).quit = (t.io i).quit) (hpc : ∀ i, (io i).pc = (t.io i).pc) :
    Inv { t with server := (t.server.popped loop rest).call loop cb, io := io } := by
  rcases (h.orphaned hdtor).runFunctor hqueue with ⟨horphaned, hqueues, hconnections⟩
  have hsame := samePool_run t.server loop rest cb
  refine ⟨fun halive => absurd halive hdtor, fun _ => horphaned, ?_, ?_, ?_, ?_,
    h.pool.same hsame, h.late⟩
  · intro hwalked k d hd
    rcases hsame.back hd with ⟨c, hc, hname, _⟩
    rw [hconnections, ← hname]
    exact h.walked hwalked hc
  · intro i
    rw [hqueues]
    exact hio i
  · intro i hi
    exact h.quits i ((hquit i).symm.trans hi)
  · intro i hjoined
    rw [hsame.loops] at hjoined
    exact (hpc i).trans (h.ended hjoined)

theorem Inv.baseFunctor (h : Inv t) (hen : Enabled t .baseFunctor) : Inv (next t .baseFunctor) := by
  cases hqueue : t.server.queues .base with
  | nil => exact absurd hqueue hen.2
  | cons cb rest =>
      have hrun : Inv { t with server := (t.server.popped .base rest).call .base cb } := by
        by_cases halive : t.dtor = .alive
        · have hinv := h.alive halive
          exact h.serve halive (hinv.runFunctor hqueue)
            (h.pool.same (samePool_run t.server .base rest cb))
        · refine h.orphanRuns halive hqueue ?_ (fun _ => rfl) (fun _ => rfl)
          intro i
          rw [queues_popped, if_neg (by simp)]
          exact h.io i
      simp only [next, hqueue]
      split
      case h_1 k rest' heq hreturned =>
        -- No removal is left in the queue of the base loop.
        have hdtor : t.dtor ≠ .alive := by simp [hreturned]
        have hin : .removeConnectionInLoop k ∈ t.server.queues .base := by simp [hqueue, heq]
        cases ((h.orphaned hdtor).placed hin).1
      case h_2 cb' rest' heq _ =>
        cases heq
        exact hrun
      case h_3 heq => cases heq

theorem Inv.functor (h : Inv t) {i : Nat} (hen : Enabled t (.functor i)) :
    Inv (next t (.functor i)) := by
  rcases hen with ⟨hrunning, hbatch, hne⟩
  cases hqueue : t.server.queues (.io i) with
  | nil => exact absurd hqueue hne
  | cons cb rest =>
      have hsafe : IoSafe rest { t.io i with batch := (t.io i).batch - 1 } := by
        refine ⟨?_, ?_, ?_⟩
        · intro htesting
          rw [show (t.io i).pc = .testing from htesting] at hrunning
          cases hrunning
        · intro hexited
          rw [show (t.io i).pc = .exited from hexited] at hrunning
          cases hrunning
        · -- What is behind the batch stays behind the batch.
          intro hquit hpc
          have hold := (h.io i).lossless hquit hpc
          rw [hqueue, show (t.io i).batch = (t.io i).batch - 1 + 1 by omega,
            List.drop_succ_cons] at hold
          exact hold
      simp only [next, hqueue]
      by_cases halive : t.dtor = .alive
      · have hquit := h.not_quit (by rw [halive]; rfl) i
        have hcalled := h.setIo (hsafe.of_not_quit hquit) (fun hq => absurd hq hquit) id
        exact hcalled.serve halive ((h.alive halive).runFunctor hqueue)
          (h.pool.same (samePool_run t.server (.io i) rest cb))
      · have hsame : ∀ j, (t.io j).quit = ((t.setIo i
            { t.io i with batch := (t.io i).batch - 1 }).io j).quit ∧
            (t.io j).pc = ((t.setIo i { t.io i with batch := (t.io i).batch - 1 }).io j).pc := by
          intro j
          rw [setIo_io]
          split
          case isTrue hj => exact ⟨hj ▸ rfl, hj ▸ rfl⟩
          case isFalse _ => exact ⟨rfl, rfl⟩
        refine h.orphanRuns halive hqueue ?_ (fun j => (hsame j).1.symm) fun j => (hsame j).2.symm
        intro j
        rw [queues_popped, setIo_io]
        by_cases hj : j = i
        · subst hj
          rw [if_pos rfl, if_pos rfl]
          exact hsafe
        · rw [if_neg (by simpa using hj), if_neg hj]
          exact h.io j

theorem Inv.destroyItem (h : Inv t) {k : Nat} (hen : Enabled t (.destroyItem k)) :
    Inv (next t (.destroyItem k)) := by
  rcases hen with ⟨hwalking, c, hc, hentry⟩
  have hc : t.server.conns[k]? = some c := hc
  have hdtor : t.dtor ≠ .alive := by simp [hwalking]
  have hquit := h.not_quit (by rw [hwalking]; rfl)
  simp only [next, hc]
  refine ⟨fun halive => absurd halive hdtor,
    fun _ => (h.orphaned hdtor).destroyItem hc hentry, ?_, ?_, h.quits, ?_,
    h.pool.same (samePool_destroyItem hc), h.late⟩
  · intro hwalked
    rw [hwalking] at hwalked
    cases hwalked
  · intro i
    exact (h.io i).of_not_quit (hquit i)
  · intro i hjoined
    rw [hwalking] at hjoined
    cases hjoined

/-- The destructor goes on to the thread `i` of the pool, when the ones before have ended. -/
theorem Inv.thread (h : Inv t) (hdtor : t.dtor ≠ .alive)
    (hwalked : ∀ {k : Nat} {c : ServerConn}, t.server.conns[k]? = some c →
      t.server.connections c.name ≠ some k) (i : Nat) (hended : ∀ j < i, (t.io j).pc = .exited) :
    Inv { t with dtor := .thread t.server.loops i } := by
  have hcases := Dtor.thread_cases t.server.loops i
  refine ⟨?_, fun _ => h.orphaned hdtor, fun _ => hwalked, h.io, ?_, ?_, h.pool, h.late⟩
  · intro halive
    rcases hcases with heq | ⟨heq, _⟩ <;> simp [heq] at halive
  · intro j _
    rcases hcases with heq | ⟨heq, _⟩ <;> simp only [heq] <;> rfl
  · intro j hjoined
    refine hended j ?_
    rcases hcases with heq | ⟨heq, hle⟩
    · simp only [heq] at hjoined
      exact hjoined
    · simp only [heq] at hjoined
      exact Nat.lt_of_lt_of_le hjoined hle

theorem Inv.quit (h : Inv t) {i : Nat} (hmeets : Meets t (.quit i)) (hen : Enabled t (.quit i)) :
    Inv (next t (.quit i)) := by
  have hdtor : t.dtor = .quitting i := hen
  have hwalked : t.dtor.walked = true := by
    rw [hdtor]
    rfl
  have hasked : Inv (t.setIo i { t.io i with quit := true }) := by
    refine h.setIo ⟨(h.io i).testing, ?_, ?_⟩ (fun _ => hwalked) id
    · intro hexited
      exact ⟨rfl, ((h.io i).exited hexited).2⟩
    · intro _ hpc
      rcases hmeets with hswaps | hlossless
      · rw [show (t.io i).pc.swapsAgain = false from hpc] at hswaps
        cases hswaps
      · exact hlossless
  refine ⟨fun halive => ?_, fun _ => h.orphaned (ne_alive_of_walked hwalked),
    fun _ => h.walked hwalked, hasked.io, fun _ _ => rfl, ?_, h.pool, h.late⟩
  · cases halive
  · intro j hjoined
    refine hasked.ended ?_
    rw [show (t.setIo i { t.io i with quit := true }).dtor = .quitting i from hdtor]
    exact hjoined

theorem step_inv (h : Inv t) {a : Act} (hmeets : Meets t a) (hen : Enabled t a) :
    Inv (next t a) := by
  cases a with
  | newConnection sockfd =>
      exact h.serve hen.1 ((h.alive hen.1).newConnection hen.2 sockfd) (h.pool.newConnection sockfd)
  | peerClose k =>
      have halive : t.dtor = .alive := hmeets
      rcases hen with ⟨c, hc, hadded, _⟩
      have hc : t.server.conns[k]? = some c := hc
      have hclosed := h.serve halive ((h.alive halive).peerClose hc hadded)
        (h.pool.same (samePool_peerClose hc))
      simpa only [next, hc, halive, if_true] using hclosed
  | baseFunctor => exact h.baseFunctor hen
  | destroy =>
      have halive : t.dtor = .alive := hen
      refine ⟨fun hno => ?_, fun _ => orphaned_of_inv (h.alive halive) hmeets, fun hwalked => ?_,
        h.io, fun i hquit => ?_, fun hjoined => ?_, h.pool, h.late⟩
      · cases hno
      · cases hwalked
      · exact absurd hquit (h.not_quit (by rw [halive]; rfl) i)
      · cases hjoined
  | destroyItem k => exact h.destroyItem hen
  | walked =>
      rcases hen with ⟨hwalking, hall⟩
      refine h.thread (by simp [hwalking]) ?_ 0 (fun j hj => absurd hj (by omega))
      intro k c hc hentry
      rw [hall c (List.mem_of_getElem? hc)] at hentry
      cases hentry
  | quit i => exact h.quit hmeets hen
  | joined i =>
      rcases hen with ⟨hjoining, hexited⟩
      refine h.thread (by simp [hjoining]) (h.walked (by rw [hjoining]; rfl)) (i + 1) ?_
      intro j hj
      by_cases heq : j = i
      · rw [heq]
        exact hexited
      · refine h.ended ?_
        rw [hjoining]
        exact (by omega : j < i)
  | enter i =>
      have hpc : (t.io i).pc = .entering := hen.2
      exact h.setIo (ioSafe_enter _) nofun (by simp [hpc])
  | test i =>
      have hpc : (t.io i).pc = .testing := hen
      exact h.setIo ((h.io i).test hpc) (h.quits i) (by simp [hpc])
  | epoll i =>
      have hpc : (t.io i).pc = .polling := hen
      exact h.setIo (ioSafe_of_swapsAgain rfl) (h.quits i) (by simp [hpc])
  | swap i =>
      have hpc : (t.io i).pc = .handling := hen
      exact h.setIo (ioSafe_swap _ _) (h.quits i) (by simp [hpc])
  | functor i => exact h.functor hen
  | finish i =>
      rcases hen with ⟨hpc, hbatch⟩
      exact h.setIo ((h.io i).finish hpc hbatch) (h.quits i) (by simp [hpc])

theorem start_inv (hs : Starts t) : Inv t := by
  rcases hs with ⟨name, listenAddr, loops, rfl⟩
  refine ⟨fun _ => TcpServer.start_inv ⟨name, listenAddr, loops, rfl⟩, fun hno => ?_,
    fun hwalked => ?_, fun i => ⟨fun hpc => ?_, fun hpc => ?_, fun hquit => ?_⟩,
    fun i hquit => ?_, fun hjoined => ?_, ⟨fun hc => ?_, fun hloops => ?_⟩, rfl⟩
  · exact absurd rfl hno
  · cases hwalked
  · cases hpc
  · cases hpc
  · cases hquit
  · cases hquit
  · cases hjoined
  · cases hc
  · exact Nat.pos_of_ne_zero hloops

/-- While the destructor finds no removal on its way, no peer closes after it was entered, and no
loop is told to quit between its last swap and its test with a `connectDestroyed` to lose, every
connection is torn down exactly once and the server is not called again. -/
theorem torn_down_of_meets (ht : (system.restrict Meets).Reachable t) : TornDown t := by
  have hinv : Inv t := by
    refine ht.invariant start_inv ?_
    rintro t a t' h ⟨hmeets, hen, rfl⟩
    exact step_inv h hmeets hen
  exact hinv.tornDown

def startState (loops : Nat) : Teardown :=
  Teardown.new ['s'] ⟨(127, 0, 0, 1), 80⟩ loops

/-- Three connections on two I/O loops; one is removed before the destructor is entered, and both
loops still have a swap to make when they are told to quit. -/
def orderlyRun : List Act :=
  [.enter 0, .test 0, .enter 1, .test 1, .newConnection 10, .newConnection 11, .newConnection 12,
    .epoll 0, .swap 0, .functor 0, .functor 0, .finish 0, .test 0,
    .epoll 1, .swap 1, .functor 1, .finish 1, .test 1, .epoll 1, .peerClose 1, .baseFunctor,
    .destroy, .destroyItem 0, .destroyItem 2, .walked,
    .quit 0, .epoll 0, .swap 0, .functor 0, .functor 0, .finish 0, .test 0, .joined 0,
    .quit 1, .swap 1, .functor 1, .finish 1, .test 1, .joined 1]

theorem torn_down_of_meets_orderly :
    (orderlyRun.foldl next (startState 2)).dtor = .returned ∧
      TornDown (orderlyRun.foldl next (startState 2)) := by
  have hrun : (system.restrict Meets).Run (startState 2) orderlyRun
      (orderlyRun.foldl next (startState 2)) := by
    rw [system, StepSystem.restrict_ofNext]
    exact StepSystem.run_foldl (by decide +kernel)
  have ht : (system.restrict Meets).Reachable (orderlyRun.foldl next (startState 2)) :=
    hrun.reachable (StepSystem.Reachable.init ⟨_, _, _, rfl⟩)
  exact ⟨by decide +kernel, torn_down_of_meets ht⟩

/-- The peer closes, and the destructor is entered before the removal has run. -/
def removalInFlightRun : List Act :=
  [.enter 0, .test 0, .newConnection 10, .epoll 0, .swap 0, .functor 0, .finish 0, .test 0,
    .epoll 0, .peerClose 0, .destroy, .destroyItem 0, .walked, .quit 0, .swap 0, .functor 0,
    .finish 0, .test 0, .joined 0, .baseFunctor]

/-- The destructor queues `connectDestroyed` while the loop is in the batch that established the
connection, and tells it to quit before it has left that batch. -/
def lostRun : List Act :=
  [.enter 0, .test 0, .newConnection 10, .epoll 0, .swap 0, .functor 0, .destroy, .destroyItem 0,
    .walked, .quit 0, .finish 0, .test 0, .joined 0]

/-- In the first run the base loop calls `removeConnectionInLoop` of a server that is gone; in the
second an established connection is never destroyed. -/
theorem torn_down_fails :
    (system.Run (startState 1) removalInFlightRun
        (removalInFlightRun.foldl next (startState 1)) ∧
      (removalInFlightRun.foldl next (startState 1)).late = [.removeConnectionInLoop 0] ∧
      ¬ TornDown (removalInFlightRun.foldl next (startState 1))) ∧
    system.Run (startState 1) lostRun (lostRun.foldl next (startState 1)) ∧
      runs (lostRun.foldl next (startState 1)).server (.connectEstablished 0) = 1 ∧
      runs (lostRun.foldl next (startState 1)).server (.connectDestroyed 0) = 0 ∧
      ¬ TornDown (lostRun.foldl next (startState 1)) := by
  have hlate : (removalInFlightRun.foldl next (startState 1)).late =
      [.removeConnectionInLoop 0] := by decide +kernel
  have hest : runs (lostRun.foldl next (startState 1)).server (.connectEstablished 0) = 1 := by
    decide +kernel
  have hlost : runs (lostRun.foldl next (startState 1)).server (.connectDestroyed 0) = 0 := by
    decide +kernel
  refine ⟨⟨StepSystem.run_foldl (by decide +kernel), hlate, ?_⟩,
    StepSystem.run_foldl (by decide +kernel), hest, hlost, ?_⟩
  · intro h
    rw [h.late] at hlate
    cases hlate
  · intro h
    have hone := h.complete (by decide +kernel) (by decide +kernel) 0 (by rw [hest]; decide)
    rw [hlost] at hone
    cases hone

end Teardown
end Net
end Muduo
