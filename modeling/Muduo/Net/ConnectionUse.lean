import Muduo.Foundation.StepSystem
import Muduo.Net.OutputStream

/-!
# ConnectionUse — a connection under calls from any thread

After `connectEstablished`, the loop thread dispatches events to the channel and runs the functors
that were queued; any thread may call the functions of `TcpConnection.h`.  A call from a foreign
thread has two steps, its body and the `push_back` of the functor it binds (`hands` between the
two), in any order with the calls of other threads.  `connectDestroyed` is cut before
`channel_->remove()`, because the `connectionCallback_` before it is user code.

All that a step can do to the connection is one of five `Moves`; the results about closing, tear
down and reading are proved from these.

Other files follow a connection with less around it, or with more; `ConnectionViews` and
`ChannelViews` show that each of their runs is one of these.
-/

namespace Muduo
namespace Net
namespace ConnectionUse

open Effect TcpConnection

/-! ## Calls -/

inductive UserCall
  | send (message : List UInt8) (w : WriteResult)
  | shutdown
  | forceClose
  | forceCloseWithDelay
  | startRead
  | stopRead
  deriving DecidableEq, Repr

/-- What happened to the interest of the channel and to the state, as far as `connectDestroyed`
depends on it. -/
inductive Moment
  /-- `shutdown`, `forceClose` or `forceCloseWithDelay` was called. -/
  | asked
  /-- `handleClose` ran. -/
  | closed
  /-- `startReadInLoop` ran. -/
  | read
  /-- `connectDestroyed` was entered. -/
  | destroying
  deriving DecidableEq, Repr

/-- The function of the connection that a call runs, on the loop thread or on another. -/
def UserCall.run (call : UserCall) (c : TcpConnection) (inLoop : Bool) : Result :=
  match call with
  | .send message w => c.send inLoop message w
  | .shutdown => c.shutdown inLoop
  | .forceClose => c.forceClose
  | .forceCloseWithDelay => c.forceCloseWithDelay
  | .startRead => c.startRead inLoop
  | .stopRead => c.stopRead inLoop

def UserCall.moments (call : UserCall) (inLoop : Bool) : List Moment :=
  match call with
  | .send _ _ => []
  | .shutdown => [.asked]
  | .forceClose => [.asked]
  | .forceCloseWithDelay => [.asked]
  | .startRead => if inLoop then [.read] else []
  | .stopRead => if inLoop then [.read] else []

/-- `startRead` and `stopRead`, which are to switch reading on and off. -/
def UserCall.isReadCall : UserCall → Bool
  | .startRead => true
  | .stopRead => true
  | _ => false

/-- A functor on its way to the loop, with the call that bound it. -/
structure Job where
  functor : LoopFunctor
  origin : Option UserCall
  deriving DecidableEq, Repr

/-! ## States and steps -/

structure Use where
  conn : TcpConnection
  /-- The callbacks of the current dispatch that are still to be made. -/
  dispatch : List Callback
  /-- What foreign threads have bound and not yet pushed. -/
  hands : List Job
  /-- `pendingFunctors_`. -/
  pending : List Job
  /-- The timers of `forceCloseWithDelay` that have not expired. -/
  delayed : Nat
  /-- Inside `connectDestroyed`, before `channel_->remove()`. -/
  destroying : Bool
  log : List Effect
  /-- The newest moment first. -/
  trace : List Moment
  /-- The last of the calls of `startRead` and `stopRead` to be executed on the loop. -/
  lastRead : Option UserCall

/-- The state after `connectEstablished`. -/
def Use.start (sockfd : Int) (highWaterMark : Nat) (writeComplete highWater : Bool) : Use where
  conn := established sockfd highWaterMark writeComplete highWater
  dispatch := []
  hands := []
  pending := []
  delayed := 0
  destroying := false
  log := [.connectionCallback true]
  trace := []
  lastRead := none

/-- The part of `connectDestroyed` before `channel_->remove()`. -/
def destroyBegin (c : TcpConnection) : Result :=
  if c.state = .kConnected then
    let c := (c.setState .kDisconnected).setInterest .disableAll
    (c, [.connectionCallback c.connected])
  else
    (c, [])

/-- `channel_->remove()`. -/
def removeChannel (c : TcpConnection) : TcpConnection :=
  { c with channel := c.channel.removed }

theorem connectDestroyed_eq (c : TcpConnection) :
    c.connectDestroyed = (removeChannel (destroyBegin c).1, (destroyBegin c).2) := by
  unfold connectDestroyed destroyBegin
  split <;> rfl

namespace Use

/-- A function of the connection has run, and its functors go to the loop's queue. -/
def did (s : Use) (r : Result) (origin : Option UserCall) : Use :=
  { s with
    conn := r.1
    pending := s.pending ++ (queued r.2).map (Job.mk · origin)
    delayed := s.delayed + r.2.count .runAfterForceClose
    log := s.log ++ r.2 }

/-- The body of a call has run on a foreign thread. -/
def foreignDid (s : Use) (r : Result) (origin : Option UserCall) : Use :=
  { s with
    conn := r.1
    hands := s.hands ++ (queued r.2).map (Job.mk · origin)
    delayed := s.delayed + r.2.count .runAfterForceClose
    log := s.log ++ r.2 }

def mark (s : Use) (moments : List Moment) : Use :=
  { s with trace := moments ++ s.trace }

/-- The loop has executed what a call of `startRead` or `stopRead` asks for. -/
def executed (s : Use) (call : UserCall) : Use :=
  if call.isReadCall then { s with lastRead := some call } else s

end Use

/-- `handleClose` runs in this callback. -/
def closes (cb : Callback) (r : ReadResult) : Bool :=
  match cb, r with
  | .close, _ => true
  | .read, .bytes [] => true
  | _, _ => false

/-- The moment that running a functor is. -/
def functorMoments (c : TcpConnection) : LoopFunctor → List Moment
  | .startReadInLoop => [.read]
  | .forceCloseInLoop => if c.state = .kConnected ∨ c.state = .kDisconnected then [.closed] else []
  | _ => []

inductive Act
  | call (inLoop : Bool) (call : UserCall)
  /-- A foreign thread pushes what it has bound. -/
  | push (i : Nat)
  /-- A timer of `forceCloseWithDelay` expires and calls `forceClose`. -/
  | delayElapsed
  | dispatch (revents : Mask)
  | callback (r : ReadResult) (w : WriteResult)
  | runFunctor (w : WriteResult)
  | destroyBegin
  | destroyEnd
  deriving DecidableEq, Repr

def next (s : Use) : Act → Use
  | .call true call =>
      ((s.did (call.run s.conn true) (some call)).mark (call.moments true)).executed call
  | .call false call =>
      (s.foreignDid (call.run s.conn false) (some call)).mark (call.moments false)
  | .push i =>
      match s.hands[i]? with
      | some job => { s with hands := s.hands.eraseIdx i, pending := s.pending ++ [job] }
      | none => s
  | .delayElapsed =>
      ({ s with delayed := s.delayed - 1 }.did s.conn.forceClose (some .forceClose)).mark [.asked]
  | .dispatch revents => { s with dispatch := handleEventWithGuard revents }
  | .callback r w =>
      match s.dispatch with
      | cb :: rest =>
          ({ s with dispatch := rest }.did (s.conn.onEvent cb r w) none).mark
            (if closes cb r then [.closed] else [])
      | [] => s
  | .runFunctor w =>
      match s.pending with
      | job :: rest =>
          let s' := ({ s with pending := rest }.did (s.conn.runFunctor job.functor w) none).mark
            (functorMoments s.conn job.functor)
          match job.origin with
          | some call => s'.executed call
          | none => s'
      | [] => s
  | .destroyBegin =>
      ({ s with destroying := true }.did (ConnectionUse.destroyBegin s.conn) none).mark
        [.destroying]
  | .destroyEnd => { s with conn := removeChannel s.conn, destroying := false }

/-- The kernel reports events only while the fd is in its interest set; one dispatch or functor
runs at a time, and none while the loop thread is in `connectDestroyed`. -/
def Enabled (s : Use) : Act → Prop
  | .call _ _ => True
  | .push i => i < s.hands.length
  | .delayElapsed => 0 < s.delayed ∧ s.destroying = false
  | .dispatch _ => s.dispatch = [] ∧ s.destroying = false ∧ s.conn.channel.index = .kAdded
  | .callback _ _ => s.dispatch ≠ [] ∧ s.destroying = false
  | .runFunctor _ => s.dispatch = [] ∧ s.destroying = false ∧ s.pending ≠ []
  | .destroyBegin => s.destroying = false
  | .destroyEnd => s.destroying = true

instance (s : Use) (a : Act) : Decidable (Enabled s a) :=
  match a with
  | .call _ _ => isTrue trivial
  | .push _ => inferInstanceAs (Decidable (_ < _))
  | .delayElapsed => inferInstanceAs (Decidable (_ ∧ _))
  | .dispatch _ => inferInstanceAs (Decidable (_ ∧ _ ∧ _))
  | .callback _ _ => inferInstanceAs (Decidable (_ ∧ _))
  | .runFunctor _ => inferInstanceAs (Decidable (_ ∧ _ ∧ _))
  | .destroyBegin => inferInstanceAs (Decidable (_ = _))
  | .destroyEnd => inferInstanceAs (Decidable (_ = _))

def Starts (s : Use) : Prop :=
  ∃ sockfd highWaterMark writeComplete highWater,
    s = Use.start sockfd highWaterMark writeComplete highWater

def system : StepSystem Use Act :=
  StepSystem.ofNext Starts Enabled next

/-! ## What a step can do to the connection -/

/-- The state and the interest in reading stay, and a channel without interest that belongs to a
disconnected connection stays without. -/
structure Keeps (c c' : TcpConnection) : Prop where
  state : c'.state = c.state
  reading : c'.reading = c.reading
  isReading : c'.channel.events.isReading = c.channel.events.isReading
  none : c.state = .kDisconnected → c.channel.isNoneEvent = true → c'.channel.isNoneEvent = true

/-- Only the state changes: a connected connection leaves `kConnected`. -/
structure Asks (c c' : TcpConnection) : Prop where
  connected : c.state = .kConnected → c'.state ≠ .kConnected
  other : c.state ≠ .kConnected → c'.state = c.state
  reading : c'.reading = c.reading
  channel : c'.channel = c.channel

inductive Moves (c : TcpConnection) : Result → List Moment → Prop where
  | keep {r : Result} : Keeps c r.1 → Moves c r []
  | ask {r : Result} : Asks c r.1 → Moves c r [.asked]
  | close : Moves c c.handleClose [.closed]
  | read : Moves c (c.startReadInLoop, []) [.read]
  | destroy : Moves c (destroyBegin c) [.destroying]

variable {c c' : TcpConnection} {s : Use}

theorem Keeps.refl (c : TcpConnection) : Keeps c c :=
  ⟨rfl, rfl, rfl, fun _ h => h⟩

/-- Editing the interest in writing; a disconnected connection does so only when it waits for
writability. -/
theorem Keeps.setInterest {op : Interest} (hop : op = .enableWriting ∨ op = .disableWriting)
    (hstate : c'.state = c.state) (hreading : c'.reading = c.reading)
    (hchannel : c'.channel = c.channel)
    (hnone : c.state = .kDisconnected → c.channel.isNoneEvent = false) :
    Keeps c (c'.setInterest op) := by
  refine ⟨hstate, hreading, ?_, ?_⟩
  · have hevents : (c'.setInterest op).channel.events = op.edit c.channel.events := by
      rw [← hchannel]
      rfl
    rw [hevents, isReading_edit]
    rcases hop with rfl | rfl <;> rfl
  · intro hdown hidle
    rw [hnone hdown] at hidle
    cases hidle

theorem sendInLoop_keeps (c : TcpConnection) (data : List UInt8) (w : WriteResult) :
    Keeps c (c.sendInLoop data w).1 := by
  simp only [TcpConnection.sendInLoop]
  split
  case isTrue _ => exact Keeps.refl c
  case isFalse hstate =>
    split
    case isFalse _ => exact Keeps.refl c
    case isTrue _ =>
      -- The rest is buffered; the interest in writing is switched on for it.
      simp only [appendOutput]
      split
      case isTrue _ => exact ⟨rfl, rfl, rfl, fun hdown _ => absurd hdown hstate⟩
      case isFalse _ =>
        exact Keeps.setInterest (Or.inl rfl) rfl rfl rfl fun hdown => absurd hdown hstate

theorem handleWrite_keeps (c : TcpConnection) (w : WriteResult) : Keeps c (c.handleWrite w).1 := by
  cases hwriting : c.isWriting with
  | false =>
      simp only [TcpConnection.handleWrite, hwriting, Bool.false_eq_true, if_false]
      exact Keeps.refl c
  | true =>
      have hsome : c.channel.isNoneEvent = false := Mask.isNoneEvent_of_has hwriting
      have hspec := handleWrite_drain c w
      generalize c.handleWrite w = r at hspec
      cases hspec with
      | idle _ => exact Keeps.refl c
      | part _ _ _ => exact ⟨rfl, rfl, rfl, fun _ h => h⟩
      | all _ _ => exact Keeps.setInterest (Or.inr rfl) rfl rfl rfl fun _ => hsome

theorem send_keeps (c : TcpConnection) (inLoop : Bool) (message : List UInt8) (w : WriteResult) :
    Keeps c (c.send inLoop message w).1 := by
  rw [TcpConnection.send]
  split
  · split
    · exact sendInLoop_keeps c message w
    · exact Keeps.refl c
  · exact Keeps.refl c

theorem shutdown_asks (c : TcpConnection) (inLoop : Bool) : Asks c (c.shutdown inLoop).1 := by
  rw [TcpConnection.shutdown]
  split
  case isTrue hstate =>
    have hconn : ∀ c' : TcpConnection, c'.shutdownInLoop.1 = c' := by
      intro c'
      rw [TcpConnection.shutdownInLoop]
      split <;> rfl
    dsimp only
    split
    · rw [hconn]
      exact ⟨fun _ => by simp [setState], fun hno => absurd hstate hno, rfl, rfl⟩
    · exact ⟨fun _ => by simp [setState], fun hno => absurd hstate hno, rfl, rfl⟩
  case isFalse hstate => exact ⟨fun hyes => absurd hyes hstate, fun _ => rfl, rfl, rfl⟩

theorem asks_of_disconnecting (h : c.state = .kConnected ∨ c.state = .kDisconnecting) :
    Asks c (c.setState .kDisconnecting) := by
  refine ⟨fun _ => by simp [setState], ?_, rfl, rfl⟩
  intro hno
  exact (h.resolve_left hno).symm

theorem forceClose_asks (c : TcpConnection) : Asks c c.forceClose.1 := by
  rw [TcpConnection.forceClose]
  split
  case isTrue hstate => exact asks_of_disconnecting hstate
  case isFalse hstate => exact ⟨fun hyes => absurd (Or.inl hyes) hstate, fun _ => rfl, rfl, rfl⟩

theorem forceCloseWithDelay_asks (c : TcpConnection) : Asks c c.forceCloseWithDelay.1 := by
  rw [TcpConnection.forceCloseWithDelay]
  split
  case isTrue hstate => exact asks_of_disconnecting hstate
  case isFalse hstate => exact ⟨fun hyes => absurd (Or.inl hyes) hstate, fun _ => rfl, rfl, rfl⟩

theorem call_moves (c : TcpConnection) (call : UserCall) (inLoop : Bool) :
    Moves c (call.run c inLoop) (call.moments inLoop) := by
  cases call with
  | send message w => exact Moves.keep (send_keeps c inLoop message w)
  | shutdown => exact Moves.ask (shutdown_asks c inLoop)
  | forceClose => exact Moves.ask (forceClose_asks c)
  | forceCloseWithDelay => exact Moves.ask (forceCloseWithDelay_asks c)
  | startRead =>
      cases inLoop with
      | true => exact Moves.read
      | false => exact Moves.keep (Keeps.refl c)
  -- `stopRead` runs the function of `startRead`.
  | stopRead =>
      cases inLoop with
      | true => exact Moves.read
      | false => exact Moves.keep (Keeps.refl c)

theorem callback_moves (c : TcpConnection) (cb : Callback) (r : ReadResult) (w : WriteResult) :
    Moves c (c.onEvent cb r w) (if closes cb r then [.closed] else []) := by
  cases cb with
  | close => exact Moves.close
  | error => exact Moves.keep (Keeps.refl c)
  | write => exact Moves.keep (handleWrite_keeps c w)
  | read =>
      cases r with
      | fail => exact Moves.keep (Keeps.refl c)
      | bytes data =>
          cases data with
          | nil => exact Moves.close
          | cons b data => exact Moves.keep (Keeps.refl c)

theorem runFunctor_moves (c : TcpConnection) (cb : LoopFunctor) (w : WriteResult) :
    Moves c (c.runFunctor cb w) (functorMoments c cb) := by
  cases cb with
  | sendInLoop message => exact Moves.keep (sendInLoop_keeps c message w)
  | shutdownInLoop =>
      refine Moves.keep ?_
      rw [TcpConnection.runFunctor, TcpConnection.shutdownInLoop]
      split <;> exact Keeps.refl c
  | forceCloseInLoop =>
      rw [TcpConnection.runFunctor, TcpConnection.forceCloseInLoop, functorMoments]
      split
      · exact Moves.close
      · exact Moves.keep (Keeps.refl c)
  | startReadInLoop => exact Moves.read
  | writeCompleteCallback => exact Moves.keep (Keeps.refl c)
  | highWaterMarkCallback len => exact Moves.keep (Keeps.refl c)

@[simp] theorem executed_conn (s : Use) (call : UserCall) : (s.executed call).conn = s.conn := by
  unfold Use.executed
  split <;> rfl

@[simp] theorem executed_log (s : Use) (call : UserCall) : (s.executed call).log = s.log := by
  unfold Use.executed
  split <;> rfl

@[simp] theorem executed_trace (s : Use) (call : UserCall) : (s.executed call).trace = s.trace := by
  unfold Use.executed
  split <;> rfl

/-- Every step moves the connection, and records the effects and the moment. -/
theorem next_moves (s : Use) (a : Act) :
    ∃ r moments, Moves s.conn r moments ∧ (next s a).conn = r.1 ∧
      (next s a).log = s.log ++ r.2 ∧ (next s a).trace = moments ++ s.trace := by
  have hidle : Moves s.conn (s.conn, []) [] := Moves.keep (Keeps.refl _)
  cases a with
  | call inLoop call =>
      refine ⟨_, _, call_moves s.conn call inLoop, ?_⟩
      cases inLoop with
      | true => simp [next, Use.did, Use.mark]
      | false => exact ⟨rfl, rfl, rfl⟩
  | push i =>
      refine ⟨_, _, hidle, ?_⟩
      simp only [next]
      split <;> simp
  | delayElapsed => exact ⟨_, _, Moves.ask (forceClose_asks s.conn), rfl, rfl, rfl⟩
  | dispatch revents => exact ⟨_, _, hidle, by simp [next]⟩
  | callback r w =>
      cases hdispatch : s.dispatch with
      | nil => exact ⟨_, _, hidle, by simp [next, hdispatch]⟩
      | cons cb rest =>
          refine ⟨_, _, callback_moves s.conn cb r w, ?_⟩
          simp [next, hdispatch, Use.did, Use.mark]
  | runFunctor w =>
      cases hpending : s.pending with
      | nil => exact ⟨_, _, hidle, by simp [next, hpending]⟩
      | cons job rest =>
          refine ⟨_, _, runFunctor_moves s.conn job.functor w, ?_⟩
          simp only [next, hpending]
          split <;> simp [Use.did, Use.mark]
  | destroyBegin => exact ⟨_, _, Moves.destroy, rfl, rfl, rfl⟩
  | destroyEnd =>
      -- `remove` touches neither `events_` nor the state.
      exact ⟨(removeChannel s.conn, []), _, Moves.keep ⟨rfl, rfl, rfl, fun _ h => h⟩, by simp [next]⟩

end ConnectionUse
end Net
end Muduo
