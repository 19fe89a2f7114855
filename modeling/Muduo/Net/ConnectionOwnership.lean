import Mathlib.Logic.Function.Basic
import Muduo.Base.Fault
import Muduo.Net.ConnectionUse
import Muduo.Net.TcpServer

/-!
# ConnectionOwnership — who keeps a connection alive

A connection exists while something holds its `TcpConnectionPtr`: the entry in `connections_`, a
foreign call in progress, the guard of `Channel::handleEvent`, or a functor that was bound to
`shared_from_this()` or to the pointer.  The functors of `send`, `shutdown`, `startRead` and
`stopRead` are bound to the raw `this` and hold nothing.

A functor of `doPendingFunctors` is destroyed with its batch, not when it returns, so a raw functor
is safe in the batch that runs `connectDestroyed` and in every earlier one.  In a later one it is
not (`run_after_destruction`).
-/

namespace Muduo
namespace Net
namespace ConnectionOwnership

open Effect TcpConnection ConnectionUse

/-! ## Holders -/

/-- Whether the functor is bound to a `TcpConnectionPtr`. -/
def functorHolds : LoopFunctor → Bool
  | .sendInLoop _ => false
  | .shutdownInLoop => false
  | .startReadInLoop => false
  | .forceCloseInLoop => true
  | .writeCompleteCallback => true
  | .highWaterMarkCallback _ => true

/-- What the connection and its server queue on loops. -/
inductive Bound
  | call (cb : LoopFunctor)
  | removeConnectionInLoop
  | connectDestroyed
  deriving DecidableEq, Repr

def Bound.holds : Bound → Bool
  | .call cb => functorHolds cb
  | .removeConnectionInLoop => true
  | .connectDestroyed => true

/-- The functors of one loop that are about this connection. -/
structure LoopQueue where
  /-- `pendingFunctors_`. -/
  pending : List Bound
  /-- The local `functors` of `doPendingFunctors`, from the next one to be called. -/
  batch : List Bound
  /-- The functors of the batch that were called, and are destroyed with it. -/
  done : List Bound
  deriving DecidableEq, Repr

namespace LoopQueue

def empty : LoopQueue := ⟨[], [], []⟩

def pushBack (q : LoopQueue) (b : Bound) : LoopQueue :=
  { q with pending := q.pending ++ [b] }

def todo (q : LoopQueue) : List Bound :=
  q.batch ++ q.pending

def all (q : LoopQueue) : List Bound :=
  q.done ++ q.todo

/-- Outside `doPendingFunctors`. -/
def Idle (q : LoopQueue) : Prop :=
  q.batch = [] ∧ q.done = []

instance (q : LoopQueue) : Decidable q.Idle :=
  inferInstanceAs (Decidable (_ ∧ _))

end LoopQueue

structure Ownership where
  conn : TcpConnection
  /-- The loop of the connection. -/
  loop : LoopId
  /-- The entry in `connections_`. -/
  tracked : Bool
  /-- The foreign calls in progress, each with what it has bound and not yet pushed. -/
  callers : List (List LoopFunctor)
  /-- The callbacks of the current dispatch that are still to be made. -/
  dispatch : List Callback
  queues : LoopId → LoopQueue

namespace Ownership

/-- After `connectEstablished`. -/
def start (loop : LoopId) (sockfd : Int) (highWaterMark : Nat) (writeComplete highWater : Bool) :
    Ownership where
  conn := established sockfd highWaterMark writeComplete highWater
  loop := loop
  tracked := true
  callers := []
  dispatch := []
  queues := fun _ => LoopQueue.empty

/-- Some holder is left. -/
def Alive (s : Ownership) : Prop :=
  s.tracked = true ∨ s.callers ≠ [] ∨ s.dispatch ≠ [] ∨
    ∃ b ∈ (s.queues .base).all ++ (s.queues s.loop).all, b.holds = true

instance (s : Ownership) : Decidable s.Alive :=
  inferInstanceAs (Decidable (_ ∨ _ ∨ _ ∨ _))

/-! ## Steps -/

def setQueue (s : Ownership) (loop : LoopId) (q : LoopQueue) : Ownership :=
  { s with queues := Function.update s.queues loop q }

def queueInLoop (s : Ownership) (loop : LoopId) (b : Bound) : Ownership :=
  s.setQueue loop ((s.queues loop).pushBack b)

def removeConnectionInLoop (s : Ownership) : Ownership :=
  { s with tracked := false }.queueInLoop s.loop .connectDestroyed

/-- `removeConnection`, on the thread of the connection's loop. -/
def removeConnection (s : Ownership) : Ownership :=
  if s.loop = .base then s.removeConnectionInLoop
  else s.queueInLoop .base .removeConnectionInLoop

/-- A function of the connection has run on the loop thread: its functors go to the queue, and
`closeCallback_` is `removeConnection`. -/
def did (s : Ownership) (r : Result) : Ownership :=
  let s := (queued r.2).foldl (fun s cb => s.queueInLoop s.loop (.call cb)) { s with conn := r.1 }
  if .closeCallback ∈ r.2 then s.removeConnection else s

/-- Call a functor; a raw `this` is dereferenced. -/
def call (s : Ownership) (b : Bound) (w : WriteResult) : Except Fault Ownership :=
  match b with
  | .call cb => if s.Alive then .ok (s.did (s.conn.runFunctor cb w)) else .error .useAfterFree
  | .removeConnectionInLoop => .ok s.removeConnectionInLoop
  | .connectDestroyed => .ok (s.did s.conn.connectDestroyed)

end Ownership

inductive Act
  /-- A foreign thread takes a `TcpConnectionPtr` and runs the body of a call. -/
  | beginCall (call : UserCall)
  /-- It pushes what it has bound. -/
  | push (i : Nat)
  /-- It returns and drops the pointer. -/
  | endCall (i : Nat)
  | dispatch (revents : Mask)
  | callback (r : ReadResult) (w : WriteResult)
  | swap (loop : LoopId)
  | call (loop : LoopId) (w : WriteResult)
  /-- `doPendingFunctors` returns. -/
  | destroyBatch (loop : LoopId)
  deriving DecidableEq, Repr

/-- The calls that bind the raw `this`. -/
def bindsThis : UserCall → Bool
  | .send _ _ => true
  | .shutdown => true
  | .startRead => true
  | .stopRead => true
  | .forceClose => false
  | .forceCloseWithDelay => false

def exec (s : Ownership) : Act → Except Fault Ownership
  | .beginCall call =>
      let r := call.run s.conn false
      .ok { s with conn := r.1, callers := s.callers ++ [queued r.2] }
  | .push i =>
      match s.callers[i]? with
      | some (cb :: cbs) =>
          .ok ({ s with callers := s.callers.set i cbs }.queueInLoop s.loop (.call cb))
      | _ => .ok s
  | .endCall i => .ok { s with callers := s.callers.eraseIdx i }
  | .dispatch revents => .ok { s with dispatch := handleEventWithGuard revents }
  | .callback r w =>
      match s.dispatch with
      | cb :: rest => .ok ({ s with dispatch := rest }.did (s.conn.onEvent cb r w))
      | [] => .ok s
  | .swap loop => .ok (s.setQueue loop ⟨[], (s.queues loop).pending, []⟩)
  | .call loop w =>
      match (s.queues loop).batch with
      | b :: rest =>
          (s.setQueue loop ⟨(s.queues loop).pending, rest, (s.queues loop).done ++ [b]⟩).call b w
      | [] => .ok s
  | .destroyBatch loop => .ok (s.setQueue loop { s.queues loop with done := [] })

/-- A call needs a pointer to copy; the loop of the connection dispatches events outside
`doPendingFunctors`, and only while the fd is in the interest set. -/
def Enabled (s : Ownership) : Act → Prop
  | .beginCall call => bindsThis call = true ∧ s.Alive
  | .push i => ∃ cbs ∈ s.callers[i]?, cbs ≠ []
  | .endCall i => s.callers[i]? = some []
  | .dispatch _ =>
      s.dispatch = [] ∧ (s.queues s.loop).Idle ∧ s.conn.channel.index = .kAdded ∧ s.Alive
  | .callback _ _ => s.dispatch ≠ []
  | .swap loop => (s.queues loop).Idle ∧ (loop = s.loop → s.dispatch = [])
  | .call loop _ => (s.queues loop).batch ≠ []
  | .destroyBatch loop => (s.queues loop).batch = []

instance (s : Ownership) (a : Act) : Decidable (Enabled s a) :=
  match a with
  | .beginCall _ => inferInstanceAs (Decidable (_ ∧ _))
  | .push i => inferInstanceAs (Decidable (∃ cbs ∈ s.callers[i]?, cbs ≠ []))
  | .endCall _ => inferInstanceAs (Decidable (_ = _))
  | .dispatch _ => inferInstanceAs (Decidable (_ ∧ _ ∧ _ ∧ _))
  | .callback _ _ => inferInstanceAs (Decidable (_ ≠ _))
  | .swap _ => inferInstanceAs (Decidable (_ ∧ (_ → _)))
  | .call _ _ => inferInstanceAs (Decidable (_ ≠ _))
  | .destroyBatch _ => inferInstanceAs (Decidable (_ = _))

def Starts (s : Ownership) : Prop :=
  ∃ loop sockfd highWaterMark writeComplete highWater,
    s = Ownership.start loop sockfd highWaterMark writeComplete highWater

def system : StepSystem Ownership Act :=
  StepSystem.ofExec Starts Enabled exec

/-! ## When a functor runs -/

/-- A functor that a call has queued finds the connection alive when its turn comes. -/
def RunsWhileAlive (s : Ownership) : Prop :=
  ∀ loop cb rest, (s.queues loop).batch = .call cb :: rest → s.Alive

/-- `connectDestroyed` is not yet in a batch: the connection is still in `connections_`, or its
removal is still to run, or `connectDestroyed` waits in `pendingFunctors_`. -/
def Unswapped (s : Ownership) : Prop :=
  s.tracked = true ∨ .removeConnectionInLoop ∈ (s.queues .base).todo ∨
    .connectDestroyed ∈ (s.queues s.loop).pending

instance (s : Ownership) : Decidable (Unswapped s) :=
  inferInstanceAs (Decidable (_ ∨ _ ∨ _))

/-- No foreign thread pushes after the loop has taken `connectDestroyed`. -/
def Meets (s : Ownership) : Act → Prop
  | .push _ => Unswapped s
  | _ => True

instance (s : Ownership) (a : Act) : Decidable (Meets s a) :=
  match a with
  | .push _ => inferInstanceAs (Decidable (Unswapped s))
  | .beginCall _ => isTrue trivial
  | .endCall _ => isTrue trivial
  | .dispatch _ => isTrue trivial
  | .callback _ _ => isTrue trivial
  | .swap _ => isTrue trivial
  | .call _ _ => isTrue trivial
  | .destroyBatch _ => isTrue trivial

structure Inv (s : Ownership) : Prop where
  /-- A raw functor is in front of `connectDestroyed`, -/
  pending : ∀ {cb}, .call cb ∈ (s.queues s.loop).pending → functorHolds cb = false → Unswapped s
  /-- or at least in the same batch. -/
  batch : ∀ {cb}, .call cb ∈ (s.queues s.loop).batch → functorHolds cb = false →
    Unswapped s ∨ .connectDestroyed ∈ (s.queues s.loop).done ++ (s.queues s.loop).batch
  /-- The connection queues its functors on its own loop. -/
  elsewhere : ∀ {loop cb}, loop ≠ s.loop → .call cb ∉ (s.queues loop).todo

variable {s : Ownership}

theorem mem_all_of_batch {q : LoopQueue} {b : Bound} (h : b ∈ q.batch) : b ∈ q.all := by
  simp [LoopQueue.all, LoopQueue.todo, h]

theorem alive_of_held {b : Bound} (hholds : b.holds = true)
    (h : b ∈ (s.queues .base).all ∨ b ∈ (s.queues s.loop).all) : s.Alive :=
  Or.inr (Or.inr (Or.inr ⟨b, List.mem_append.mpr h, hholds⟩))

/-- `connectDestroyed` and the removal hold the pointer themselves. -/
theorem Unswapped.alive (h : Unswapped s) : s.Alive := by
  rcases h with htracked | hremoval | hpending
  · exact Or.inl htracked
  · exact alive_of_held (b := .removeConnectionInLoop) rfl
      (Or.inl (List.mem_append_right _ hremoval))
  · refine alive_of_held (b := .connectDestroyed) rfl (Or.inr ?_)
    simp [LoopQueue.all, LoopQueue.todo, hpending]

theorem call_destroyed (h : ¬ s.Alive) (cb : LoopFunctor) (w : WriteResult) :
    s.call (.call cb) w = .error .useAfterFree := by
  rw [Ownership.call, if_neg h]

theorem Inv.runsWhileAlive (h : Inv s) : RunsWhileAlive s := by
  intro loop cb rest hbatch
  have hmem : .call cb ∈ (s.queues loop).batch := by
    simp [hbatch]
  have hloop : loop = s.loop := by
    by_contra hne
    exact h.elsewhere hne (List.mem_append_left _ hmem)
  subst hloop
  cases hholds : functorHolds cb with
  | true => exact alive_of_held (b := .call cb) hholds (Or.inr (mem_all_of_batch hmem))
  | false =>
      rcases h.batch hmem hholds with hunswapped | hbatched
      · exact hunswapped.alive
      · -- The batch that runs `connectDestroyed` holds the connection until it is destroyed.
        refine alive_of_held (b := .connectDestroyed) rfl (Or.inr ?_)
        rcases List.mem_append.mp hbatched with hdone | hbatch
        · exact List.mem_append_left _ hdone
        · exact mem_all_of_batch hbatch

/-! ## What a step preserves -/

theorem mem_todo_pushBack {q : LoopQueue} {b b' : Bound} :
    b' ∈ (q.pushBack b).todo ↔ b' ∈ q.todo ∨ b' = b := by
  simp [LoopQueue.pushBack, LoopQueue.todo, or_assoc]

theorem mem_pending_pushBack {q : LoopQueue} {b b' : Bound} :
    b' ∈ (q.pushBack b).pending ↔ b' ∈ q.pending ∨ b' = b := by
  simp [LoopQueue.pushBack]

@[simp] theorem setQueue_loop (s : Ownership) (loop : LoopId) (q : LoopQueue) :
    (s.setQueue loop q).loop = s.loop := rfl

@[simp] theorem queueInLoop_loop (s : Ownership) (loop : LoopId) (b : Bound) :
    (s.queueInLoop loop b).loop = s.loop := rfl

theorem setQueue_queues (s : Ownership) (loop loop' : LoopId) (q : LoopQueue) :
    (s.setQueue loop q).queues loop' = if loop' = loop then q else s.queues loop' := by
  simp [Ownership.setQueue, Function.update_apply]

theorem queueInLoop_queues (s : Ownership) (loop loop' : LoopId) (b : Bound) :
    (s.queueInLoop loop b).queues loop' =
      if loop' = loop then (s.queues loop).pushBack b else s.queues loop' :=
  setQueue_queues s loop loop' _

theorem Unswapped.queueInLoop (h : Unswapped s) (loop : LoopId) (b : Bound) :
    Unswapped (s.queueInLoop loop b) := by
  rcases h with htracked | hremoval | hpending
  · exact Or.inl htracked
  · refine Or.inr (Or.inl ?_)
    rw [queueInLoop_queues]
    split
    case isTrue hloop => exact mem_todo_pushBack.mpr (Or.inl (hloop ▸ hremoval))
    case isFalse _ => exact hremoval
  · refine Or.inr (Or.inr ?_)
    rw [queueInLoop_queues]
    split
    case isTrue hloop => exact mem_pending_pushBack.mpr (Or.inl (hloop ▸ hpending))
    case isFalse _ => exact hpending

/-- Pushing a functor: those of the connection go to its loop, and a raw one goes there before
`connectDestroyed` is taken. -/
theorem Inv.queueInLoop (h : Inv s) {loop : LoopId} {b : Bound}
    (hb : ∀ cb, b = .call cb → loop = s.loop ∧ (functorHolds cb = false → Unswapped s)) :
    Inv (s.queueInLoop loop b) := by
  refine ⟨?_, ?_, ?_⟩
  · intro cb hcb hraw
    refine Unswapped.queueInLoop ?_ loop b
    rw [queueInLoop_loop, queueInLoop_queues] at hcb
    split at hcb
    case isTrue hloop =>
      rcases mem_pending_pushBack.mp hcb with hold | hnew
      · exact h.pending (hloop ▸ hold) hraw
      · exact (hb cb hnew.symm).2 hraw
    case isFalse _ => exact h.pending hcb hraw
  · intro cb hcb hraw
    -- `push_back` leaves the batch.
    have hbatch : ((s.queueInLoop loop b).queues s.loop).batch = (s.queues s.loop).batch ∧
        ((s.queueInLoop loop b).queues s.loop).done = (s.queues s.loop).done := by
      rw [queueInLoop_queues]
      split
      case isTrue hloop => exact ⟨hloop ▸ rfl, hloop ▸ rfl⟩
      case isFalse _ => exact ⟨rfl, rfl⟩
    rw [queueInLoop_loop, hbatch.1] at hcb
    rw [queueInLoop_loop, hbatch.1, hbatch.2]
    exact (h.batch hcb hraw).imp_left fun hun => hun.queueInLoop loop b
  · intro loop' cb hne hcb
    rw [queueInLoop_queues] at hcb
    split at hcb
    case isTrue hloop =>
      rcases mem_todo_pushBack.mp hcb with hold | hnew
      · exact h.elsewhere (hloop ▸ hne) hold
      · exact hne (hloop.trans (hb cb hnew.symm).1)
    case isFalse _ => exact h.elsewhere hne hcb

/-- The removal queues `connectDestroyed` behind every raw functor. -/
theorem Inv.removeConnectionInLoop
    (elsewhere : ∀ {loop cb}, loop ≠ s.loop → .call cb ∉ (s.queues loop).todo) :
    Inv s.removeConnectionInLoop := by
  have hun : Unswapped s.removeConnectionInLoop := by
    refine Or.inr (Or.inr ?_)
    simp [Ownership.removeConnectionInLoop, queueInLoop_queues, mem_pending_pushBack]
  refine ⟨fun _ _ => hun, fun _ _ => Or.inl hun, ?_⟩
  intro loop cb hne hcb
  have hloop : loop ≠ s.loop := hne
  simp only [Ownership.removeConnectionInLoop, queueInLoop_queues, if_neg hloop] at hcb
  exact elsewhere hloop hcb

theorem Inv.removeConnection (h : Inv s) : Inv s.removeConnection := by
  rw [Ownership.removeConnection]
  split
  · exact Inv.removeConnectionInLoop h.elsewhere
  · exact h.queueInLoop (by simp)

/-- On the loop thread the connection binds functors to `shared_from_this()` only. -/
theorem Inv.did (h : Inv s) {r : Result} (hr : ∀ cb ∈ queued r.2, functorHolds cb = true) :
    Inv (s.did r) := by
  have hfold : ∀ (cbs : List LoopFunctor), (∀ cb ∈ cbs, functorHolds cb = true) →
      ∀ {t : Ownership}, Inv t →
        Inv (cbs.foldl (fun s cb => s.queueInLoop s.loop (.call cb)) t) := by
    intro cbs
    induction cbs with
    | nil =>
        intro _ t ht
        exact ht
    | cons cb cbs ih =>
        intro hcbs t ht
        refine ih (fun cb hcb => hcbs cb (List.mem_cons_of_mem _ hcb)) (ht.queueInLoop ?_)
        intro cb' heq
        cases heq
        refine ⟨rfl, ?_⟩
        intro hraw
        rw [hcbs cb List.mem_cons_self] at hraw
        cases hraw
  have hqueued := hfold (queued r.2) hr (t := { s with conn := r.1 })
    ⟨h.pending, h.batch, h.elsewhere⟩
  rw [Ownership.did]
  split
  · exact hqueued.removeConnection
  · exact hqueued

/-! ## What runs on the loop thread -/

theorem output_holds {effects : List Effect} (h : ∀ e ∈ effects, e.isOutput = true) :
    ∀ cb ∈ queued effects, functorHolds cb = true := by
  intro cb hcb
  have hout := h _ (mem_queued.mp hcb)
  cases cb <;> simp_all [isOutput, functorHolds]

theorem onEvent_holds (c : TcpConnection) (cb : Callback) (r : ReadResult) (w : WriteResult) :
    ∀ f ∈ queued (c.onEvent cb r w).2, functorHolds f = true := by
  cases cb with
  | close => simp [onEvent, TcpConnection.handleClose, queued]
  | error => simp [onEvent, handleError, queued]
  | read =>
      simp only [onEvent, handleRead]
      split
      · split <;> simp [TcpConnection.handleClose, queued]
      · simp [queued]
  | write =>
      have hspec := handleWrite_drain c w
      simp only [onEvent]
      generalize c.handleWrite w = result at hspec
      cases hspec with
      | idle heffects => rcases heffects with rfl | rfl <;> simp [queued]
      | part _ _ _ => simp [queued]
      | all _ _ => split <;> split <;> simp [queued, functorHolds]

theorem runFunctor_holds (c : TcpConnection) (cb : LoopFunctor) (w : WriteResult) :
    ∀ f ∈ queued (c.runFunctor cb w).2, functorHolds f = true := by
  cases cb with
  | sendInLoop message => exact output_holds (sendInLoop_isOutput c message w)
  | shutdownInLoop =>
      simp only [runFunctor, shutdownInLoop]
      split <;> simp [queued]
  | forceCloseInLoop =>
      simp only [runFunctor, forceCloseInLoop]
      split <;> simp [TcpConnection.handleClose, queued]
  | startReadInLoop => simp [runFunctor, queued]
  | writeCompleteCallback => simp [runFunctor, queued]
  | highWaterMarkCallback len => simp [runFunctor, queued]

theorem connectDestroyed_holds (c : TcpConnection) :
    ∀ f ∈ queued c.connectDestroyed.2, functorHolds f = true := by
  simp only [connectDestroyed]
  split <;> simp [queued]

/-! ## Batches -/

theorem Unswapped.setQueue (h : Unswapped s) {loop : LoopId} {q : LoopQueue}
    (hremoval : .removeConnectionInLoop ∈ (s.queues loop).todo → .removeConnectionInLoop ∈ q.todo)
    (hpending : loop = s.loop → .connectDestroyed ∈ (s.queues loop).pending →
      .connectDestroyed ∈ q.pending) :
    Unswapped (s.setQueue loop q) := by
  refine h.imp_right (Or.imp ?_ ?_)
  · intro hold
    rw [setQueue_queues]
    split
    case isTrue heq => exact hremoval (heq ▸ hold)
    case isFalse _ => exact hold
  · intro hold
    rw [setQueue_queues, setQueue_loop]
    split
    case isTrue heq => exact hpending heq.symm (heq ▸ hold)
    case isFalse _ => exact hold

/-- `doPendingFunctors` moves the functors of one queue; on the queue of the connection the raw
ones must stay in front of `connectDestroyed`. -/
theorem Inv.setQueue (h : Inv s) {loop : LoopId} {q : LoopQueue}
    (hcalls : ∀ {cb}, .call cb ∈ q.todo → .call cb ∈ (s.queues loop).todo)
    (hremoval : .removeConnectionInLoop ∈ (s.queues loop).todo → .removeConnectionInLoop ∈ q.todo)
    (hpending : loop = s.loop → ∀ {cb}, .call cb ∈ q.pending → functorHolds cb = false →
      Unswapped (s.setQueue loop q))
    (hbatch : loop = s.loop → ∀ {cb}, .call cb ∈ q.batch → functorHolds cb = false →
      Unswapped (s.setQueue loop q) ∨ .connectDestroyed ∈ q.done ++ q.batch) :
    Inv (s.setQueue loop q) := by
  have helsewhere : ∀ {loop' cb}, loop' ≠ s.loop →
      .call cb ∉ ((s.setQueue loop q).queues loop').todo := by
    intro loop' cb hne hcb
    rw [setQueue_queues] at hcb
    split at hcb
    case isTrue heq =>
      subst heq
      exact h.elsewhere hne (hcalls hcb)
    case isFalse _ => exact h.elsewhere hne hcb
  by_cases hloop : loop = s.loop
  · have hself : (s.setQueue loop q).queues (s.setQueue loop q).loop = q := by
      rw [setQueue_queues, setQueue_loop, if_pos hloop.symm]
    refine ⟨?_, ?_, helsewhere⟩
    · rw [hself]
      exact hpending hloop
    · rw [hself]
      exact hbatch hloop
  · -- The queue of another loop: the functors of the connection do not move.
    have hsame : (s.setQueue loop q).queues (s.setQueue loop q).loop = s.queues s.loop := by
      rw [setQueue_queues, setQueue_loop, if_neg (Ne.symm hloop)]
    have hun : Unswapped s → Unswapped (s.setQueue loop q) := by
      intro hun
      exact hun.setQueue hremoval fun heq => absurd heq hloop
    refine ⟨?_, ?_, helsewhere⟩
    · intro cb hcb hraw
      rw [hsame] at hcb
      exact hun (h.pending hcb hraw)
    · intro cb hcb hraw
      rw [hsame] at hcb ⊢
      exact (h.batch hcb hraw).imp_left hun

theorem Inv.swap (h : Inv s) {loop : LoopId} (hidle : (s.queues loop).Idle) :
    Inv (s.setQueue loop ⟨[], (s.queues loop).pending, []⟩) := by
  have htodo : (LoopQueue.mk [] (s.queues loop).pending []).todo = (s.queues loop).todo := by
    simp [LoopQueue.todo, hidle.1]
  refine h.setQueue ?_ ?_ ?_ ?_
  · intro cb hcb
    rwa [htodo] at hcb
  · rw [htodo]
    exact id
  · intro _ cb hcb
    cases hcb
  · intro hloop cb hcb hraw
    subst hloop
    -- What the raw functor was in front of is now in its batch.
    rcases h.pending hcb hraw with htracked | hremoval | hpending
    · exact Or.inl (Or.inl htracked)
    · refine Or.inl (Or.inr (Or.inl ?_))
      rw [setQueue_queues]
      split
      case isTrue heq =>
        rw [htodo, ← heq]
        exact hremoval
      case isFalse _ => exact hremoval
    · exact Or.inr hpending

/-- The functor in front goes to the called ones; `hremoval` is about the removal itself. -/
theorem Inv.pop (h : Inv s) {loop : LoopId} {b : Bound} {rest : List Bound}
    (hbatch : (s.queues loop).batch = b :: rest) (hremoval : b ≠ .removeConnectionInLoop) :
    Inv (s.setQueue loop ⟨(s.queues loop).pending, rest, (s.queues loop).done ++ [b]⟩) := by
  have hkept : .removeConnectionInLoop ∈ (s.queues loop).todo →
      .removeConnectionInLoop ∈
        (LoopQueue.mk (s.queues loop).pending rest ((s.queues loop).done ++ [b])).todo := by
    intro hin
    simpa [LoopQueue.todo, hbatch, hremoval.symm] using hin
  have hun : Unswapped s → Unswapped
      (s.setQueue loop ⟨(s.queues loop).pending, rest, (s.queues loop).done ++ [b]⟩) := by
    intro hun
    exact hun.setQueue hkept fun _ hin => hin
  refine h.setQueue ?_ hkept ?_ ?_
  · intro cb hcb
    simp only [LoopQueue.todo, hbatch, List.cons_append]
    exact List.mem_cons_of_mem _ hcb
  · intro hloop cb hcb hraw
    subst hloop
    exact hun (h.pending hcb hraw)
  · intro hloop cb hcb hraw
    subst hloop
    have hin : .call cb ∈ (s.queues s.loop).batch := by
      rw [hbatch]
      exact List.mem_cons_of_mem _ hcb
    refine (h.batch hin hraw).imp hun ?_
    intro hmem
    simpa [hbatch] using hmem

theorem Inv.destroyBatch (h : Inv s) {loop : LoopId} (hbatch : (s.queues loop).batch = []) :
    Inv (s.setQueue loop { s.queues loop with done := [] }) := by
  refine h.setQueue (fun hcb => hcb) id ?_ ?_
  · intro hloop cb hcb hraw
    subst hloop
    exact (h.pending hcb hraw).setQueue id fun _ hin => hin
  · intro _ cb hcb
    simp [hbatch] at hcb

/-- The functor in front of a batch is called. -/
theorem Inv.call (h : Inv s) {loop : LoopId} {b : Bound} {rest : List Bound} (w : WriteResult)
    (hbatch : (s.queues loop).batch = b :: rest) :
    ∃ t, (s.setQueue loop
      ⟨(s.queues loop).pending, rest, (s.queues loop).done ++ [b]⟩).call b w = .ok t ∧ Inv t := by
  cases b with
  | call cb =>
      have hinv := h.pop hbatch (by simp)
      -- The call itself does not change who holds the connection.
      have halive : (s.setQueue loop ⟨(s.queues loop).pending, rest,
          (s.queues loop).done ++ [.call cb]⟩).Alive := by
        refine (h.runsWhileAlive loop cb rest hbatch).imp_right (Or.imp_right (Or.imp_right ?_))
        rintro ⟨b, hb, hholds⟩
        refine ⟨b, ?_, hholds⟩
        have hall : ∀ loop', b ∈ (s.queues loop').all →
            b ∈ ((s.setQueue loop ⟨(s.queues loop).pending, rest,
              (s.queues loop).done ++ [.call cb]⟩).queues loop').all := by
          intro loop' hin
          rw [setQueue_queues]
          split
          case isTrue heq =>
            subst heq
            simpa [LoopQueue.all, LoopQueue.todo, hbatch] using hin
          case isFalse _ => exact hin
        exact List.mem_append.mpr ((List.mem_append.mp hb).imp (hall _) (hall _))
      refine ⟨_, if_pos halive, hinv.did ?_⟩
      exact runFunctor_holds _ cb w
  | removeConnectionInLoop =>
      refine ⟨_, rfl, Inv.removeConnectionInLoop ?_⟩
      intro loop' cb hne hcb
      rw [setQueue_queues] at hcb
      split at hcb
      case isTrue heq =>
        subst heq
        have hin : .call cb ∈ (s.queues loop').todo := by
          simp only [LoopQueue.todo, hbatch, List.cons_append]
          exact List.mem_cons_of_mem _ hcb
        exact h.elsewhere hne hin
      case isFalse _ => exact h.elsewhere hne hcb
  | connectDestroyed =>
      have hinv := h.pop hbatch (by simp)
      exact ⟨_, rfl, hinv.did (connectDestroyed_holds _)⟩

/-! ## Runs -/

theorem exec_inv (h : Inv s) {a : Act} (hmeets : Meets s a) (hen : Enabled s a) :
    ∃ t, exec s a = .ok t ∧ Inv t := by
  cases a with
  | beginCall call => exact ⟨_, rfl, h.pending, h.batch, h.elsewhere⟩
  | push i =>
      rcases hen with ⟨cbs, hcaller, hne⟩
      cases cbs with
      | nil => exact absurd rfl hne
      | cons cb cbs =>
          have hexec : exec s (.push i) =
              .ok ({ s with callers := s.callers.set i cbs }.queueInLoop s.loop (.call cb)) := by
            rw [exec, show s.callers[i]? = some (cb :: cbs) from hcaller]
          have hcalled : Inv { s with callers := s.callers.set i cbs } :=
            ⟨h.pending, h.batch, h.elsewhere⟩
          refine ⟨_, hexec, hcalled.queueInLoop ?_⟩
          intro cb' heq
          exact ⟨rfl, fun _ => hmeets⟩
  | endCall i => exact ⟨_, rfl, h.pending, h.batch, h.elsewhere⟩
  | dispatch revents => exact ⟨_, rfl, h.pending, h.batch, h.elsewhere⟩
  | callback r w =>
      cases hdispatch : s.dispatch with
      | nil => exact absurd hdispatch hen
      | cons cb rest =>
          have hdone : Inv { s with dispatch := rest } := ⟨h.pending, h.batch, h.elsewhere⟩
          exact ⟨_, by rw [exec, hdispatch], hdone.did (onEvent_holds s.conn cb r w)⟩
  | swap loop => exact ⟨_, rfl, h.swap hen.1⟩
  | call loop w =>
      cases hbatch : (s.queues loop).batch with
      | nil => exact absurd hbatch hen
      | cons b rest =>
          rcases h.call w hbatch with ⟨t, hcall, ht⟩
          exact ⟨t, by rw [exec, hbatch]; exact hcall, ht⟩
  | destroyBatch loop => exact ⟨_, rfl, h.destroyBatch hen⟩

/-- While no foreign thread pushes after the loop has taken `connectDestroyed`, every functor that
a call has queued runs while the connection exists. -/
theorem runs_while_alive_of_meets (hs : (system.restrict Meets).Reachable s) :
    RunsWhileAlive s := by
  have hinv : Inv s := by
    rw [system, StepSystem.restrict_ofExec] at hs
    refine (StepSystem.ofExec_safe ?_ ?_ hs).1
    · rintro s ⟨loop, sockfd, highWaterMark, writeComplete, highWater, rfl⟩
      refine ⟨fun hcb => ?_, fun hcb => ?_, fun _ hcb => ?_⟩ <;> cases hcb
    · rintro s a h ⟨hmeets, hen⟩
      exact exec_inv h hmeets hen
  exact hinv.runsWhileAlive

def startState : Ownership :=
  Ownership.start (.io 0) 7 1024 false false

/-- A foreign `startRead` is followed by the close and the removal, and all reach one batch. -/
def sameBatchRun : List Act :=
  [.beginCall .startRead, .push 0, .endCall 0, .dispatch EPOLLIN,
    .callback (.bytes []) (.accept 0), .swap .base, .call .base (.accept 0), .destroyBatch .base,
    .swap (.io 0)]

/-- What a run of the start state makes of it, unless it faults. -/
def after (as : List Act) : Ownership :=
  (StepSystem.execAll exec startState as).toOption.getD startState

theorem runs_while_alive_of_meets_sameBatch :
    ((after sameBatchRun).queues (.io 0)).batch = [.call .startReadInLoop, .connectDestroyed] ∧
      (after sameBatchRun).tracked = false ∧ RunsWhileAlive (after sameBatchRun) := by
  have hrun : (system.restrict Meets).Run startState sameBatchRun (after sameBatchRun) := by
    rw [system, StepSystem.restrict_ofExec]
    exact StepSystem.run_of_execAll (by decide +kernel) rfl
  have hs : (system.restrict Meets).Reachable (after sameBatchRun) :=
    hrun.reachable (StepSystem.Reachable.init ⟨.io 0, 7, 1024, false, false, rfl⟩)
  exact ⟨by decide +kernel, by decide +kernel, runs_while_alive_of_meets hs⟩

/-- A foreign `send` is overtaken by the close, the removal and the batch of `connectDestroyed`. -/
def overtakenRun : List Act :=
  [.beginCall (.send [1, 2] (.accept 0)), .dispatch EPOLLIN, .callback (.bytes []) (.accept 0),
    .swap .base, .call .base (.accept 0), .destroyBatch .base, .swap (.io 0), .push 0, .endCall 0,
    .call (.io 0) (.accept 0), .destroyBatch (.io 0), .swap (.io 0)]

/-- Its functor is called after the connection was destroyed. -/
theorem run_after_destruction :
    system.Run startState overtakenRun (after overtakenRun) ∧
      Enabled (after overtakenRun) (.call (.io 0) (.accept 0)) ∧
      exec (after overtakenRun) (.call (.io 0) (.accept 0)) = .error .useAfterFree ∧
      ¬ RunsWhileAlive (after overtakenRun) := by
  have hdead : ¬ (after overtakenRun).Alive := by decide +kernel
  have hbatch : ((after overtakenRun).queues (.io 0)).batch = [.call (.sendInLoop [1, 2])] := by
    decide +kernel
  refine ⟨StepSystem.run_of_execAll (by decide +kernel) rfl, ?_, ?_, ?_⟩
  · rw [Enabled, hbatch]
    simp
  · -- The functor leaves the batch and dereferences `this`.
    have hpopped : ¬ ((after overtakenRun).setQueue (.io 0)
        ⟨((after overtakenRun).queues (.io 0)).pending, [],
          ((after overtakenRun).queues (.io 0)).done ++ [.call (.sendInLoop [1, 2])]⟩).Alive := by
      decide +kernel
    rw [exec, hbatch]
    exact call_destroyed hpopped _ _
  · intro h
    exact hdead (h _ _ _ hbatch)

end ConnectionOwnership
end Net
end Muduo
