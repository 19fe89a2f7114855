import Muduo.Base.Fault
import Muduo.Foundation.StepSystem
import Muduo.Foundation.WaitSet

/-!
# ThreadPool — the thread pool of `muduo/base/ThreadPool.cc`

The pool has been started: its workers run `runInThread`, and any number of producers call `run`,
over and over.  Every critical section under `mutex_` is one step.  A thread that waits on a
condition is in its wait set until a `notify`, a `notifyAll` or a spurious wake-up takes it out;
it then enters the mutex again and tests its condition again.

`accepted` and `handed` record, in order, the tasks that `run` has pushed and the tasks that
`take` has given to which worker.  A task is anything that can be moved into the queue.
-/

namespace Muduo

/-- Where a worker is in `runInThread`. -/
inductive Worker (α : Type)
  /-- At the test of `while (running_)`. -/
  | testing
  /-- In `take`, before the mutex. -/
  | entering
  /-- In the wait set of `notEmpty_`. -/
  | waiting
  /-- Taken out of the wait set, before the mutex. -/
  | woken
  /-- Back from `take` with a task or with an empty `Task`. -/
  | working (task : Option α)
  | exited
  deriving DecidableEq, Repr

/-- Where a producer is in `run`. -/
inductive Producer (α : Type)
  | idle
  | entering (task : α)
  /-- In the wait set of `notFull_`. -/
  | waiting (task : α)
  | woken (task : α)
  deriving DecidableEq, Repr

namespace Worker

variable {α : Type}

def isWaiting : Worker α → Bool
  | .waiting => true
  | _ => false

def isWoken : Worker α → Bool
  | .woken => true
  | _ => false

/-- The worker's next step is the critical section of `take`. -/
def isReady : Worker α → Bool
  | .entering => true
  | .woken => true
  | _ => false

def isTesting : Worker α → Bool
  | .testing => true
  | _ => false

def isWorking : Worker α → Bool
  | .working _ => true
  | _ => false

def wake : Worker α → Worker α
  | .waiting => .woken
  | w => w

end Worker

namespace Producer

variable {α : Type}

def isIdle : Producer α → Bool
  | .idle => true
  | _ => false

def isWaiting : Producer α → Bool
  | .waiting _ => true
  | _ => false

def isWoken : Producer α → Bool
  | .woken _ => true
  | _ => false

/-- The task of a producer whose next step is the critical section of `run`. -/
def ready? : Producer α → Option α
  | .entering task => some task
  | .woken task => some task
  | _ => none

def wake : Producer α → Producer α
  | .waiting task => .woken task
  | x => x

end Producer

structure ThreadPool (α : Type) where
  maxQueueSize : Nat
  running : Bool
  queue : List α
  workers : List (Worker α)
  producers : List (Producer α)
  accepted : List α
  handed : List (Nat × α)
  deriving DecidableEq, Repr

namespace ThreadPool

open WaitSet

variable {α : Type}

/-- The pool after `start(numThreads)`. -/
def started (maxQueueSize numThreads numProducers : Nat) : ThreadPool α where
  maxQueueSize := maxQueueSize
  running := true
  queue := []
  workers := List.replicate numThreads .testing
  producers := List.replicate numProducers .idle
  accepted := []
  handed := []

/-! ## The functions of the class -/

def isFull (p : ThreadPool α) : Bool :=
  decide (0 < p.maxQueueSize) && decide (p.maxQueueSize ≤ p.queue.length)

/-- The critical section of `run` for producer `i`; `notified` is the worker that
`notEmpty_.notify()` takes out of the wait set. -/
def run (p : ThreadPool α) (i : Nat) (task : α) (notified : Option Nat) :
    Except Fault (ThreadPool α) :=
  if p.workers.isEmpty then
    -- Without threads the caller executes the task itself.
    .ok { p with producers := p.producers.set i .idle }
  else if p.isFull && p.running then
    .ok { p with producers := p.producers.set i (.waiting task) }
  else if !p.running then
    .ok { p with producers := p.producers.set i .idle }
  else do
    assert (p.isFull = false)
    pure { p with
      queue := p.queue ++ [task]
      accepted := p.accepted ++ [task]
      workers := notify Worker.wake p.workers notified
      producers := p.producers.set i .idle }

/-- The critical section of `take` for worker `j`; `notified` is the producer that
`notFull_.notify()` takes out of the wait set. -/
def take (p : ThreadPool α) (j : Nat) (notified : Option Nat) : ThreadPool α :=
  if p.queue.isEmpty && p.running then
    { p with workers := p.workers.set j .waiting }
  else
    match p.queue with
    | [] => { p with workers := p.workers.set j (.working none) }
    | task :: queue =>
        { p with
          queue := queue
          handed := p.handed ++ [(j, task)]
          workers := p.workers.set j (.working (some task))
          producers :=
            if 0 < p.maxQueueSize then notify Producer.wake p.producers notified
            else p.producers }

/-- The critical section of `stop`. -/
def stop (p : ThreadPool α) : ThreadPool α :=
  { p with
    running := false
    workers := notifyAll Worker.isWaiting Worker.wake p.workers
    producers := notifyAll Producer.isWaiting Producer.wake p.producers }

/-! ## Interleavings -/

inductive Act (α : Type)
  /-- Producer `i` calls `run(task)`. -/
  | call (i : Nat) (task : α)
  | run (i : Nat) (notified : Option Nat)
  /-- Worker `j` tests `running_`. -/
  | test (j : Nat)
  | take (j : Nat) (notified : Option Nat)
  /-- The task of worker `j` returns. -/
  | finish (j : Nat)
  | spuriousWorker (j : Nat)
  | spuriousProducer (i : Nat)
  | stop
  deriving DecidableEq, Repr

def exec (p : ThreadPool α) : Act α → Except Fault (ThreadPool α)
  | .call i task => .ok { p with producers := p.producers.set i (.entering task) }
  | .run i notified =>
      match p.producers[i]?.bind Producer.ready? with
      | some task => p.run i task notified
      | none => .ok p
  | .test j =>
      .ok { p with workers := p.workers.set j (if p.running then .entering else .exited) }
  | .take j notified => .ok (p.take j notified)
  | .finish j => .ok { p with workers := p.workers.set j .testing }
  | .spuriousWorker j => .ok { p with workers := wakeAt Worker.wake p.workers j }
  | .spuriousProducer i => .ok { p with producers := wakeAt Producer.wake p.producers i }
  | .stop => .ok p.stop

/-- The thread is where the action takes place; and a critical section that reaches its `notify`
takes a thread out of the wait set if there is one. -/
def Enabled (p : ThreadPool α) : Act α → Prop
  | .call i _ => At p.producers i Producer.isIdle
  | .run i notified =>
      (p.producers[i]?.bind Producer.ready?).isSome = true ∧
        (p.isFull = false → Picks Worker.isWaiting p.workers notified)
  | .test j => At p.workers j Worker.isTesting
  | .take j notified =>
      At p.workers j Worker.isReady ∧
        (p.queue.isEmpty = false → Picks Producer.isWaiting p.producers notified)
  | .finish j => At p.workers j Worker.isWorking
  | .spuriousWorker j => At p.workers j Worker.isWaiting
  | .spuriousProducer i => At p.producers i Producer.isWaiting
  | .stop => True

instance (p : ThreadPool α) (a : Act α) : Decidable (Enabled p a) :=
  match a with
  | .call _ _ => inferInstanceAs (Decidable (At _ _ _))
  | .run _ _ => inferInstanceAs (Decidable (_ ∧ _))
  | .test _ => inferInstanceAs (Decidable (At _ _ _))
  | .take _ _ => inferInstanceAs (Decidable (_ ∧ _))
  | .finish _ => inferInstanceAs (Decidable (At _ _ _))
  | .spuriousWorker _ => inferInstanceAs (Decidable (At _ _ _))
  | .spuriousProducer _ => inferInstanceAs (Decidable (At _ _ _))
  | .stop => isTrue trivial

/-- A pool started with at least one thread. -/
def Init (p : ThreadPool α) : Prop :=
  ∃ maxQueueSize numThreads numProducers, 0 < numThreads ∧
    p = started maxQueueSize numThreads numProducers

def system (α : Type) : StepSystem (ThreadPool α) (Act α) :=
  .ofExec Init Enabled exec

/-! ## One step, section by section -/

/-- What `run` does in a pool that has threads. -/
inductive RunSpec (p : ThreadPool α) (i : Nat) (task : α) (notified : Option Nat) :
    ThreadPool α → Prop where
  | waits : p.isFull = true → p.running = true →
      RunSpec p i task notified { p with producers := p.producers.set i (.waiting task) }
  | refused : p.running = false →
      RunSpec p i task notified { p with producers := p.producers.set i .idle }
  | pushed : p.isFull = false → p.running = true →
      RunSpec p i task notified
        { p with
          queue := p.queue ++ [task]
          accepted := p.accepted ++ [task]
          workers := notify Worker.wake p.workers notified
          producers := p.producers.set i .idle }

/-- The loop of `run` leaves the queue not full, so its `assert` holds. -/
theorem run_ok {p : ThreadPool α} (hthreads : p.workers ≠ []) (i : Nat) (task : α)
    (notified : Option Nat) :
    ∃ t, p.run i task notified = .ok t ∧ RunSpec p i task notified t := by
  have hsome : p.workers.isEmpty = false := by
    simpa using hthreads
  by_cases hrunning : p.running = true
  · by_cases hfull : p.isFull = true
    · exact ⟨_, by simp [run, hsome, hrunning, hfull], RunSpec.waits hfull hrunning⟩
    · have hroom : p.isFull = false := by
        simpa using hfull
      exact ⟨_, by simp [run, hsome, hrunning, hroom], RunSpec.pushed hroom hrunning⟩
  · have hstopped : p.running = false := by
      simpa using hrunning
    exact ⟨_, by simp [run, hsome, hstopped], RunSpec.refused hstopped⟩

inductive TakeSpec (p : ThreadPool α) (j : Nat) (notified : Option Nat) : ThreadPool α → Prop where
  | waits : p.queue = [] → p.running = true →
      TakeSpec p j notified { p with workers := p.workers.set j .waiting }
  | emptyHanded : p.queue = [] → p.running = false →
      TakeSpec p j notified { p with workers := p.workers.set j (.working none) }
  | took (task : α) (queue : List α) : p.queue = task :: queue →
      TakeSpec p j notified
        { p with
          queue := queue
          handed := p.handed ++ [(j, task)]
          workers := p.workers.set j (.working (some task))
          producers :=
            if 0 < p.maxQueueSize then notify Producer.wake p.producers notified
            else p.producers }

theorem take_spec (p : ThreadPool α) (j : Nat) (notified : Option Nat) :
    TakeSpec p j notified (p.take j notified) := by
  have htake : ∀ {t}, p.take j notified = t → TakeSpec p j notified t →
      TakeSpec p j notified (p.take j notified) := by
    intro t heq ht
    rwa [heq]
  cases hqueue : p.queue with
  | nil =>
      by_cases hrunning : p.running = true
      · exact htake (by simp [take, hqueue, hrunning]) (TakeSpec.waits hqueue hrunning)
      · have hstopped : p.running = false := by
          simpa using hrunning
        exact htake (by simp [take, hqueue, hstopped]) (TakeSpec.emptyHanded hqueue hstopped)
  | cons task queue =>
      exact htake (by simp [take, hqueue]) (TakeSpec.took task queue hqueue)

/-- Everything that a step can do. -/
inductive StepSpec (p : ThreadPool α) : Act α → ThreadPool α → Prop where
  | call (i : Nat) (task : α) : At p.producers i Producer.isIdle →
      StepSpec p (.call i task) { p with producers := p.producers.set i (.entering task) }
  | run (i : Nat) (x : Producer α) (task : α) (notified : Option Nat) {t : ThreadPool α} :
      p.producers[i]? = some x → x.ready? = some task →
      (p.isFull = false → Picks Worker.isWaiting p.workers notified) →
      RunSpec p i task notified t → StepSpec p (.run i notified) t
  | test (j : Nat) : At p.workers j Worker.isTesting →
      StepSpec p (.test j)
        { p with workers := p.workers.set j (if p.running then .entering else .exited) }
  | take (j : Nat) (notified : Option Nat) {t : ThreadPool α} : At p.workers j Worker.isReady →
      (p.queue.isEmpty = false → Picks Producer.isWaiting p.producers notified) →
      TakeSpec p j notified t → StepSpec p (.take j notified) t
  | finish (j : Nat) : At p.workers j Worker.isWorking →
      StepSpec p (.finish j) { p with workers := p.workers.set j .testing }
  | spuriousWorker (j : Nat) : At p.workers j Worker.isWaiting →
      StepSpec p (.spuriousWorker j) { p with workers := wakeAt Worker.wake p.workers j }
  | spuriousProducer (i : Nat) : At p.producers i Producer.isWaiting →
      StepSpec p (.spuriousProducer i) { p with producers := wakeAt Producer.wake p.producers i }
  | stop : StepSpec p .stop p.stop

theorem exec_ok {p : ThreadPool α} (hthreads : p.workers ≠ []) {a : Act α} (ha : Enabled p a) :
    ∃ t, exec p a = .ok t ∧ StepSpec p a t := by
  cases a with
  | call i task => exact ⟨_, rfl, StepSpec.call i task ha⟩
  | run i notified =>
      obtain ⟨hready, hpicks⟩ := ha
      obtain ⟨task, htask⟩ := Option.isSome_iff_exists.1 hready
      obtain ⟨x, hx, hxtask⟩ := Option.bind_eq_some_iff.1 htask
      obtain ⟨t, ht, hspec⟩ := run_ok hthreads i task notified
      refine ⟨t, ?_, StepSpec.run i x task notified hx hxtask hpicks hspec⟩
      simp only [exec, htask, ht]
  | test j => exact ⟨_, rfl, StepSpec.test j ha⟩
  | take j notified =>
      exact ⟨_, rfl, StepSpec.take j notified ha.1 ha.2 (take_spec p j notified)⟩
  | finish j => exact ⟨_, rfl, StepSpec.finish j ha⟩
  | spuriousWorker j => exact ⟨_, rfl, StepSpec.spuriousWorker j ha⟩
  | spuriousProducer i => exact ⟨_, rfl, StepSpec.spuriousProducer i ha⟩
  | stop => exact ⟨_, rfl, StepSpec.stop⟩

/-! ## A bounded queue without loss or duplication -/

structure Inv (p : ThreadPool α) : Prop where
  threads : p.workers ≠ []
  bounded : 0 < p.maxQueueSize → p.queue.length ≤ p.maxQueueSize
  /-- What was handed out and what is queued is what was accepted, in order. -/
  fifo : p.handed.map Prod.snd ++ p.queue = p.accepted
  emptyHanded : .working none ∈ p.workers → p.running = false

theorem ne_nil_of_length_eq {σ : Type} {l l' : List σ} (h : l ≠ []) (hlen : l'.length = l.length) :
    l' ≠ [] := by
  rintro rfl
  exact h (List.length_eq_zero_iff.1 hlen.symm)

/-- A worker that is given another state than `.working none` does not come back empty-handed. -/
theorem mem_of_mem_set {p : ThreadPool α} {j : Nat} {w : Worker α} (hw : w ≠ .working none)
    (h : .working none ∈ p.workers.set j w) : .working none ∈ p.workers := by
  rcases List.mem_or_eq_of_mem_set h with hmem | heq
  · exact hmem
  · exact absurd heq.symm hw

theorem wake_eq_working {w : Worker α} {task : Option α} (h : .working task = w.wake) :
    w = .working task := by
  cases w with
  | waiting => cases h
  | testing | entering | woken | exited => cases h
  | working _ => exact h.symm

theorem Inv.setWorker {p : ThreadPool α} (h : Inv p) {j : Nat} {w : Worker α}
    (hw : w ≠ .working none) : Inv { p with workers := p.workers.set j w } := by
  refine ⟨ne_nil_of_length_eq h.threads List.length_set, h.bounded, h.fifo, ?_⟩
  intro hmem
  exact h.emptyHanded (mem_of_mem_set hw hmem)

theorem Inv.step {p t : ThreadPool α} {a : Act α} (h : Inv p) (hstep : StepSpec p a t) :
    Inv t := by
  cases hstep with
  | call i task hidle => exact ⟨h.threads, h.bounded, h.fifo, h.emptyHanded⟩
  | run i x task notified hx htask hpicks hspec =>
      cases hspec with
      | waits _ _ => exact ⟨h.threads, h.bounded, h.fifo, h.emptyHanded⟩
      | refused _ => exact ⟨h.threads, h.bounded, h.fifo, h.emptyHanded⟩
      | pushed hfull hrunning =>
          refine ⟨?_, ?_, ?_, ?_⟩
          · exact ne_nil_of_length_eq h.threads (length_notify _ _)
          · intro hmax
            have hroom : p.queue.length < p.maxQueueSize := by
              simpa [isFull, hmax] using hfull
            rw [List.length_append, List.length_singleton]
            exact hroom
          · rw [← h.fifo]
            simp
          · intro hmem
            rcases mem_notify hmem with hold | ⟨w, hw, heq⟩
            · exact h.emptyHanded hold
            · rw [wake_eq_working heq] at hw
              exact h.emptyHanded hw
  | test j htest =>
      refine h.setWorker ?_
      split <;> simp
  | take j notified hready hpicks hspec =>
      cases hspec with
      | waits _ _ => exact h.setWorker (by simp)
      | emptyHanded _ hstopped =>
          exact ⟨ne_nil_of_length_eq h.threads List.length_set, h.bounded, h.fifo, fun _ => hstopped⟩
      | took task queue hqueue =>
          refine ⟨ne_nil_of_length_eq h.threads List.length_set, ?_, ?_, ?_⟩
          · intro hmax
            have hlen := h.bounded hmax
            rw [hqueue, List.length_cons] at hlen
            exact Nat.le_of_succ_le hlen
          · rw [← h.fifo, hqueue]
            simp
          · intro hmem
            exact h.emptyHanded (mem_of_mem_set (by simp) hmem)
  | finish j hworking => exact h.setWorker (by simp)
  | spuriousWorker j hwaiting =>
      refine ⟨?_, h.bounded, h.fifo, ?_⟩
      · exact ne_nil_of_length_eq h.threads (length_wakeAt _ _)
      · intro hmem
        rcases mem_wakeAt hmem with hold | ⟨w, hw, heq⟩
        · exact h.emptyHanded hold
        · rw [wake_eq_working heq] at hw
          exact h.emptyHanded hw
  | spuriousProducer i _ => exact ⟨h.threads, h.bounded, h.fifo, h.emptyHanded⟩
  | stop =>
      exact ⟨ne_nil_of_length_eq h.threads (length_notifyAll _), h.bounded, h.fifo, fun _ => rfl⟩

theorem init_inv {p : ThreadPool α} (h : Init p) : Inv p := by
  obtain ⟨maxQueueSize, numThreads, numProducers, hpos, rfl⟩ := h
  refine ⟨?_, fun _ => Nat.zero_le _, rfl, ?_⟩
  · exact List.ne_nil_of_length_pos (by simpa [started] using hpos)
  · intro hmem
    have := List.eq_of_mem_replicate hmem
    cases this

theorem exec_inv {p : ThreadPool α} {a : Act α} (h : Inv p) (ha : Enabled p a) :
    ∃ t, exec p a = .ok t ∧ Inv t := by
  obtain ⟨t, ht, hspec⟩ := exec_ok h.threads ha
  exact ⟨t, ht, h.step hspec⟩

/-- In every interleaving the queue keeps its bound, the `assert` of `run` holds, tasks are handed
out in the order in which they were accepted and each of them once, and `take` comes back without
a task only when `running_` is false. -/
theorem bounded_fifo {p : ThreadPool α} (hp : (system α).Reachable p) :
    (0 < p.maxQueueSize → p.queue.length ≤ p.maxQueueSize) ∧
    (∀ a, Enabled p a → ∃ t, exec p a = .ok t) ∧
    (p.handed.map Prod.snd <+: p.accepted ∧ p.handed.map Prod.snd ++ p.queue = p.accepted) ∧
    (.working none ∈ p.workers → p.running = false) := by
  obtain ⟨hinv, hsafe⟩ := StepSystem.ofExec_safe init_inv exec_inv hp
  exact ⟨hinv.bounded, hsafe, ⟨⟨p.queue, hinv.fifo⟩, hinv.fifo⟩, hinv.emptyHanded⟩

/-- Two producers and a worker in a pool of size one: the second producer has to wait. -/
def crowdedRun : List (Act Nat) :=
  [.test 0, .call 0 10, .call 1 20, .run 0 none, .run 1 none, .take 0 (some 1), .finish 0,
    .run 1 none, .test 0, .take 0 none, .stop]

def poolAfter (as : List (Act Nat)) : ThreadPool Nat :=
  (StepSystem.execAll exec (started 1 1 2) as).toOption.getD (started 1 1 2)

theorem bounded_fifo_crowded :
    (poolAfter crowdedRun).handed = [(0, 10), (0, 20)] ∧
      (poolAfter crowdedRun).handed.map Prod.snd <+: (poolAfter crowdedRun).accepted := by
  have hrun : (system Nat).Run (started 1 1 2) crowdedRun (poolAfter crowdedRun) :=
    StepSystem.run_of_execAll (by decide) rfl
  have hinit : Init (started 1 1 2 : ThreadPool Nat) := ⟨1, 1, 2, by decide, rfl⟩
  exact ⟨by decide, (bounded_fifo (hrun.reachable (StepSystem.Reachable.init hinit))).2.2.1.1⟩

end ThreadPool

end Muduo
