import Mathlib.Data.List.Nodup
import Mathlib.Data.List.Range
import Muduo.Foundation.StepSystem

/-!
# EventLoop — the functor queue of `muduo/net/EventLoop.cc`

The loop thread is a program counter through `loop()` and `doPendingFunctors()`; every other
thread is between the `push_back` and the `wakeup()` of a `queueInLoop` call, or outside.
`wakeupFd_` is the eventfd's counter.  Functors are of any type; a `Ticket` adds the
position of its `push_back` and the number of swaps before it.

`runInLoop` on another thread is `queueInLoop`; on the loop thread it calls the functor at once
and does not touch this state.

`functors_in_order` says that the functors run exactly once, in the order of their `push_back`,
each in the first batch whose swap follows it.  `queue_next` is the same fact as a refinement:
whatever the threads do, the loop is a FIFO queue.

The loops of `TcpServerTeardown` and `ActiveChannels` are views of this one (`LoopViews`).
-/

namespace Muduo
namespace Net

/-- Where the loop thread is. -/
inductive Pc
  /-- Not inside `loop()`. -/
  | outside
  /-- At the test of `while (!quit_)`. -/
  | testing
  /-- About to block in `epoll_wait`. -/
  | polling
  /-- Dispatching the active channels; `woken` while the wakeup channel is still among them. -/
  | handling (woken : Bool)
  /-- In `doPendingFunctors`, before the swap. -/
  | swapping
  /-- In `doPendingFunctors`, calling the functors of the batch. -/
  | running
  /-- Destroying the batch, at the end of `doPendingFunctors`. -/
  | destroying
  deriving DecidableEq, Repr

/-- Code of the user runs on the loop thread: before and after `loop()`, in the callbacks of
channels, in functors, and in their destructors. -/
def Pc.userCode : Pc → Bool
  | .outside => true
  | .handling _ => true
  | .running => true
  | .destroying => true
  | _ => false

/-- A functor as it was pushed. -/
structure Ticket (F : Type) where
  id : Nat
  functor : F
  /-- How many swaps of `doPendingFunctors` came before the `push_back`. -/
  swaps : Nat
  deriving DecidableEq, Repr

structure EventLoop (F : Type) where
  pc : Pc
  quit : Bool
  callingPendingFunctors : Bool
  pendingFunctors : List (Ticket F)
  /-- The local batch of `doPendingFunctors`, without what was called already. -/
  functors : List (Ticket F)
  /-- The counter behind `wakeupFd_`. -/
  eventfd : Nat
  /-- The foreign threads that have pushed and not yet executed their `wakeup()`. -/
  waking : List Nat
  /-- Everything that was pushed, in the order of the `push_back` calls. -/
  pushed : List (Ticket F)
  /-- Everything that `doPendingFunctors` called, each with the number of its batch. -/
  executed : List (Ticket F × Nat)
  /-- The number of swaps so far. -/
  swaps : Nat
  deriving DecidableEq, Repr

namespace EventLoop

variable {F : Type}

def new : EventLoop F where
  pc := .outside
  quit := false
  callingPendingFunctors := false
  pendingFunctors := []
  functors := []
  eventfd := 0
  waking := []
  pushed := []
  executed := []
  swaps := 0

/-- The critical section of `queueInLoop`. -/
def pushBack (s : EventLoop F) (cb : F) : EventLoop F :=
  let ticket : Ticket F := ⟨s.pushed.length, cb, s.swaps⟩
  { s with
    pendingFunctors := s.pendingFunctors ++ [ticket]
    pushed := s.pushed ++ [ticket] }

def writeEventfd (s : EventLoop F) : EventLoop F :=
  { s with eventfd := s.eventfd + 1 }

/-! ## Steps -/

inductive Act (F : Type)
  /-- `queueInLoop(cb)`, or `runInLoop(cb)`, on a foreign thread, up to the end of the critical
  section. -/
  | push (thread : Nat) (cb : F)
  /-- The `wakeup()` of that call. -/
  | wakeup (thread : Nat)
  /-- `queueInLoop(cb)` on the loop thread. -/
  | queueInLoop (cb : F)
  /-- The assignment `quit_ = true` of `quit()`. -/
  | quit
  /-- A `wakeup()` outside `queueInLoop`, such as the one of `quit()` on a foreign thread. -/
  | notify
  /-- `loop()` is entered. -/
  | loop
  | test
  /-- `epoll_wait` returns; `woken` says whether it reports the wakeup channel. -/
  | epoll (woken : Bool)
  | handleRead
  /-- `doPendingFunctors()` is entered. -/
  | doPendingFunctors
  | swap
  /-- The next functor of the batch is called. -/
  | call
  /-- The loop over the batch ends. -/
  | finish
  /-- `doPendingFunctors()` returns. -/
  | destroy
  deriving DecidableEq, Repr

def next (s : EventLoop F) : Act F → EventLoop F
  | .push thread cb => { s.pushBack cb with waking := thread :: s.waking }
  | .wakeup thread => { s.writeEventfd with waking := s.waking.erase thread }
  | .queueInLoop cb =>
      -- `!isInLoopThread()` is false here, so the flag alone decides about the `wakeup()`.
      if s.callingPendingFunctors then (s.pushBack cb).writeEventfd else s.pushBack cb
  | .quit => { s with quit := true }
  | .notify => s.writeEventfd
  | .loop => { s with pc := .testing, quit := false }
  | .test => { s with pc := if s.quit then .outside else .polling }
  | .epoll woken => { s with pc := .handling woken }
  | .handleRead => { s with pc := .handling false, eventfd := 0 }
  | .doPendingFunctors => { s with pc := .swapping, callingPendingFunctors := true }
  | .swap =>
      { s with
        pc := .running
        functors := s.pendingFunctors
        pendingFunctors := []
        swaps := s.swaps + 1 }
  | .call =>
      match s.functors with
      | ticket :: rest =>
          { s with functors := rest, executed := s.executed ++ [(ticket, s.swaps)] }
      | [] => s
  | .finish => { s with pc := .destroying, callingPendingFunctors := false }
  | .destroy => { s with pc := .testing }

def Enabled (s : EventLoop F) : Act F → Prop
  | .push thread _ => thread ∉ s.waking
  | .wakeup thread => thread ∈ s.waking
  | .queueInLoop _ => s.pc.userCode = true
  | .quit => True
  | .notify => True
  | .loop => s.pc = .outside
  | .test => s.pc = .testing
  | .epoll woken => s.pc = .polling ∧ (woken = true → 0 < s.eventfd)
  | .handleRead => s.pc = .handling true
  | .doPendingFunctors => s.pc = .handling false
  | .swap => s.pc = .swapping
  | .call => s.pc = .running ∧ s.functors.isEmpty = false
  | .finish => s.pc = .running ∧ s.functors.isEmpty = true
  | .destroy => s.pc = .destroying

instance (s : EventLoop F) (a : Act F) : Decidable (Enabled s a) :=
  match a with
  | .push _ _ => inferInstanceAs (Decidable (_ ∉ _))
  | .wakeup _ => inferInstanceAs (Decidable (_ ∈ _))
  | .queueInLoop _ => inferInstanceAs (Decidable (_ = _))
  | .quit => isTrue trivial
  | .notify => isTrue trivial
  | .loop => inferInstanceAs (Decidable (_ = _))
  | .test => inferInstanceAs (Decidable (_ = _))
  | .epoll _ => inferInstanceAs (Decidable (_ ∧ (_ → _)))
  | .handleRead => inferInstanceAs (Decidable (_ = _))
  | .doPendingFunctors => inferInstanceAs (Decidable (_ = _))
  | .swap => inferInstanceAs (Decidable (_ = _))
  | .call => inferInstanceAs (Decidable (_ ∧ _))
  | .finish => inferInstanceAs (Decidable (_ ∧ _))
  | .destroy => inferInstanceAs (Decidable (_ = _))

def system (F : Type) : StepSystem (EventLoop F) (Act F) :=
  StepSystem.ofNext (· = EventLoop.new) Enabled next

/-! ## Order -/

/-- The functors run exactly once and in order. -/
structure RunsInOrder (s : EventLoop F) : Prop where
  inOrder : s.executed.map Prod.fst <+: s.pushed
  once : (s.executed.map fun e => e.1.id).Nodup
  /-- A call of `doPendingFunctors` has executed everything that was pushed before its swap. -/
  complete : s.pc ≠ .running → ∀ ticket ∈ s.pushed, ticket.swaps < s.swaps →
    ticket ∈ s.executed.map Prod.fst
  /-- The batch that executes a functor is the first one whose swap follows the `push_back`. -/
  batch : ∀ e ∈ s.executed, e.2 = e.1.swaps + 1

/-- The pushed functors are those executed, those left in the batch and those pending, in this
order, and each knows how many swaps came before it. -/
structure Ordered (s : EventLoop F) : Prop where
  split : s.executed.map Prod.fst ++ s.functors ++ s.pendingFunctors = s.pushed
  ids : s.pushed.map Ticket.id = List.range s.pushed.length
  executed : ∀ e ∈ s.executed, e.2 = e.1.swaps + 1
  batch : ∀ ticket ∈ s.functors, ticket.swaps + 1 = s.swaps
  pending : ∀ ticket ∈ s.pendingFunctors, ticket.swaps = s.swaps
  between : s.pc ≠ .running → s.functors = []

variable {s : EventLoop F}

theorem Ordered.runsInOrder (h : Ordered s) : RunsInOrder s := by
  have hsplit := h.split
  refine ⟨⟨s.functors ++ s.pendingFunctors, by simpa using hsplit⟩, ?_, ?_, h.executed⟩
  · -- The ids are the positions of the pushes, so no two executed functors share one.
    have hids : (s.executed.map fun e => e.1.id) <+: s.pushed.map Ticket.id := by
      refine ⟨(s.functors ++ s.pendingFunctors).map Ticket.id, ?_⟩
      rw [← hsplit]
      simp
    have hnodup : (s.pushed.map Ticket.id).Nodup := by
      rw [h.ids]
      exact List.nodup_range
    exact hids.sublist.nodup hnodup
  · -- A functor pushed before the last swap is no longer pending, and the batch is over.
    intro hpc ticket hin hlt
    rw [← hsplit, h.between hpc] at hin
    simp only [List.append_nil, List.mem_append] at hin
    rcases hin with hin | hin
    · exact hin
    · have := h.pending ticket hin
      omega

theorem new_ordered : Ordered (EventLoop.new : EventLoop F) := by
  constructor <;> simp [EventLoop.new]

theorem Ordered.pushBack (h : Ordered s) (cb : F) : Ordered (s.pushBack cb) := by
  refine ⟨?_, ?_, h.executed, h.batch, ?_, h.between⟩
  · simp [EventLoop.pushBack, ← h.split]
  · simp [EventLoop.pushBack, h.ids, List.range_succ]
  · intro ticket hin
    simp only [EventLoop.pushBack, List.mem_append, List.mem_singleton] at hin
    rcases hin with hin | rfl
    · exact h.pending ticket hin
    · rfl

/-- The steps that only move the program counter, the flags or the eventfd. -/
theorem Ordered.congr (h : Ordered s) {t : EventLoop F}
    (hbetween : t.pc ≠ .running → s.functors = []) (hpushed : t.pushed = s.pushed := by rfl)
    (hexecuted : t.executed = s.executed := by rfl)
    (hfunctors : t.functors = s.functors := by rfl)
    (hpending : t.pendingFunctors = s.pendingFunctors := by rfl)
    (hswaps : t.swaps = s.swaps := by rfl) : Ordered t := by
  refine ⟨?_, ?_, ?_, ?_, ?_, ?_⟩
  · rw [hexecuted, hfunctors, hpending, hpushed]
    exact h.split
  · rw [hpushed]
    exact h.ids
  · rw [hexecuted]
    exact h.executed
  · rw [hfunctors, hswaps]
    exact h.batch
  · rw [hpending, hswaps]
    exact h.pending
  · rw [hfunctors]
    exact hbetween

theorem Ordered.swap (h : Ordered s) (hpc : s.pc = .swapping) : Ordered (s.next .swap) := by
  -- The last batch is done, so the new one is all that is between executed and pending.
  have hempty : s.functors = [] := h.between (by simp [hpc])
  refine ⟨?_, h.ids, h.executed, ?_, by simp [next], by simp [next]⟩
  · simpa [next, hempty] using h.split
  · intro ticket hin
    exact congrArg (· + 1) (h.pending ticket hin)

theorem Ordered.call (h : Ordered s) (hpc : s.pc = .running) : Ordered (s.next .call) := by
  cases hfunctors : s.functors with
  | nil => simpa [next, hfunctors] using h
  | cons ticket rest =>
      -- `ticket` moves from the front of the batch to the end of the executed functors.
      have hbatch := h.batch
      rw [hfunctors] at hbatch
      simp only [next, hfunctors]
      refine ⟨?_, h.ids, ?_, ?_, h.pending, by simp [hpc]⟩
      · simpa [hfunctors] using h.split
      · intro e he
        simp only [List.mem_append, List.mem_singleton] at he
        rcases he with he | rfl
        · exact h.executed e he
        · exact (hbatch ticket List.mem_cons_self).symm
      · intro t ht
        exact hbatch t (List.mem_cons_of_mem _ ht)

theorem step_ordered (h : Ordered s) {a : Act F} (hen : Enabled s a) : Ordered (s.next a) := by
  cases a with
  | push thread cb => exact (h.pushBack cb).congr h.between
  | wakeup thread => exact h.congr h.between
  | queueInLoop cb =>
      rw [next]
      split
      · exact (h.pushBack cb).congr h.between
      · exact h.pushBack cb
  | quit => exact h.congr h.between
  | notify => exact h.congr h.between
  | loop => exact h.congr fun _ => h.between (by simp [show s.pc = _ from hen])
  | test => exact h.congr fun _ => h.between (by simp [show s.pc = _ from hen])
  | epoll woken => exact h.congr fun _ => h.between (by simp [hen.1])
  | handleRead =>
      exact h.congr fun _ => h.between (by simp [show s.pc = _ from hen])
  | doPendingFunctors =>
      exact h.congr fun _ => h.between (by simp [show s.pc = _ from hen])
  | swap => exact h.swap hen
  | call => exact h.call hen.1
  | finish =>
      exact h.congr fun _ => List.isEmpty_iff.mp hen.2
  | destroy =>
      exact h.congr fun _ => h.between (by simp [show s.pc = _ from hen])

theorem reachable_ordered (hs : (system F).Reachable s) : Ordered s := by
  refine hs.invariant ?_ ?_
  · rintro s rfl
    exact new_ordered
  · rintro s a t h ⟨hen, rfl⟩
    exact step_ordered h hen

/-- For any number of threads and any interleaving, the queued functors run exactly once, in the
order of their `push_back`, each in the first batch whose swap follows it. -/
theorem functors_in_order (hs : (system F).Reachable s) : RunsInOrder s :=
  (reachable_ordered hs).runsInOrder

/-- Two threads queue around a swap, and a functor queues while its batch runs. -/
def reentrantRun : List (Act Nat) :=
  [.push 1 10, .loop, .test, .wakeup 1, .epoll true, .push 2 20, .handleRead, .doPendingFunctors,
    .swap, .push 1 30, .call, .queueInLoop 40, .wakeup 2, .call, .finish, .destroy, .test,
    .epoll true, .handleRead, .doPendingFunctors, .swap, .call]

def reentrantState : EventLoop Nat :=
  reentrantRun.foldl next EventLoop.new

theorem functors_in_order_reentrant :
    (system Nat).Reachable reentrantState ∧ RunsInOrder reentrantState := by
  have hrun : (system Nat).Run EventLoop.new reentrantRun reentrantState :=
    StepSystem.run_foldl (by decide)
  have hs : (system Nat).Reachable reentrantState :=
    hrun.reachable (StepSystem.Reachable.init rfl)
  exact ⟨hs, functors_in_order hs⟩

/-! ## The loop as a queue -/

/-- The functors that are still to run, in the order in which they will. -/
def queue (s : EventLoop F) : List (Ticket F) :=
  s.functors ++ s.pendingFunctors

theorem queueInLoop_queue (s : EventLoop F) (cb : F) :
    (s.next (.queueInLoop cb)).queue = s.queue ++ [⟨s.pushed.length, cb, s.swaps⟩] := by
  rw [next]
  split <;> simp [queue, EventLoop.pushBack, writeEventfd]

@[simp] theorem queueInLoop_pc (s : EventLoop F) (cb : F) :
    (s.next (.queueInLoop cb)).pc = s.pc := by
  rw [next]
  split <;> rfl

/-- The steps of a FIFO queue that processes `ran`. -/
inductive FifoStep {α : Type} : List α → List α → List α → Prop
  | push (q : List α) (x : α) : FifoStep q [] (q ++ [x])
  | pop (x : α) (q : List α) : FifoStep (x :: q) [x] q
  | skip (q : List α) : FifoStep q [] q

/-- Batches and swaps do not show from outside: every step of the loop is a step of one FIFO
queue, whose processed elements are the functors that `doPendingFunctors` calls. -/
theorem queue_next (h : Ordered s) {a : Act F} (hen : Enabled s a) :
    ∃ ran, FifoStep s.queue ran (s.next a).queue ∧
      (s.next a).executed.map Prod.fst = s.executed.map Prod.fst ++ ran := by
  cases a with
  | push thread cb =>
      refine ⟨[], ?_, by simp [next, EventLoop.pushBack]⟩
      simpa [queue, next, EventLoop.pushBack] using
        FifoStep.push s.queue (⟨s.pushed.length, cb, s.swaps⟩ : Ticket F)
  | queueInLoop cb =>
      refine ⟨[], ?_, ?_⟩
      · rw [queueInLoop_queue]
        exact FifoStep.push s.queue _
      · rw [next]
        split <;> simp [EventLoop.pushBack, writeEventfd]
  | quit => exact ⟨[], FifoStep.skip _, by simp [next]⟩
  | notify => exact ⟨[], FifoStep.skip _, by simp [next, writeEventfd]⟩
  | swap =>
      have hempty : s.functors = [] := h.between (by simp [show s.pc = _ from hen])
      refine ⟨[], ?_, by simp [next]⟩
      simpa [queue, next, hempty] using FifoStep.skip s.pendingFunctors
  | call =>
      cases hfunctors : s.functors with
      | nil =>
          refine ⟨[], ?_, by simp [next, hfunctors]⟩
          simpa [next, hfunctors] using FifoStep.skip _
      | cons ticket rest =>
          refine ⟨[ticket], ?_, by simp [next, hfunctors]⟩
          simpa [queue, next, hfunctors] using FifoStep.pop ticket (rest ++ s.pendingFunctors)
  | wakeup thread => exact ⟨[], FifoStep.skip _, by simp [next, writeEventfd]⟩
  | loop => exact ⟨[], FifoStep.skip _, by simp [next]⟩
  | test => exact ⟨[], FifoStep.skip _, by simp [next]⟩
  | epoll woken => exact ⟨[], FifoStep.skip _, by simp [next]⟩
  | handleRead => exact ⟨[], FifoStep.skip _, by simp [next]⟩
  | doPendingFunctors => exact ⟨[], FifoStep.skip _, by simp [next]⟩
  | finish => exact ⟨[], FifoStep.skip _, by simp [next]⟩
  | destroy => exact ⟨[], FifoStep.skip _, by simp [next]⟩

end EventLoop
end Net
end Muduo
