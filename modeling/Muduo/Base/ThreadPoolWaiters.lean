import Muduo.Base.ThreadPool

/-!
# ThreadPoolWaiters — no thread of the pool waits in vain

`Awake` counts: waiting workers against all workers, and free slots of the queue against the
producers that have been woken.  Every push notifies one worker and every take one producer; a
newcomer may be faster than the notified thread, but then it uses up the task or the slot that the
notification was about.
-/

namespace Muduo
namespace ThreadPool

open WaitSet

variable {α : Type} {p t : ThreadPool α} {a : Act α}

/-! ## Counting threads -/

theorem Worker.not_isWaiting_wake (w : Worker α) (_ : w.isWaiting = true) :
    w.wake.isWaiting = false := by
  cases w <;> rfl

theorem Worker.isWoken_wake (w : Worker α) (h : w.isWaiting = true) :
    w.isWoken = false ∧ w.wake.isWoken = true := by
  cases w with
  | waiting => exact ⟨rfl, rfl⟩
  | testing | entering | woken | working _ | exited => cases h

theorem Producer.not_isWaiting_wake (x : Producer α) (_ : x.isWaiting = true) :
    x.wake.isWaiting = false := by
  cases x <;> rfl

theorem Producer.isWoken_wake (x : Producer α) (h : x.isWaiting = true) :
    x.isWoken = false ∧ x.wake.isWoken = true := by
  cases x with
  | waiting _ => exact ⟨rfl, rfl⟩
  | idle | entering _ | woken _ => cases h

/-- A worker at a step of its own is not in the wait set. -/
theorem Worker.isWaiting_of_active {w : Worker α}
    (h : w.isReady = true ∨ w.isTesting = true ∨ w.isWorking = true) : w.isWaiting = false := by
  cases w with
  | waiting => simp [Worker.isReady, Worker.isTesting, Worker.isWorking] at h
  | testing | entering | woken | working _ | exited => rfl

theorem Producer.isWaiting_of_ready {x : Producer α} {task : α} (h : x.ready? = some task) :
    x.isWaiting = false := by
  cases x with
  | waiting _ => cases h
  | idle | entering _ | woken _ => rfl

theorem Producer.of_isIdle {x : Producer α} (h : x.isIdle = true) :
    x.isWaiting = false ∧ x.isWoken = false := by
  cases x with
  | idle => exact ⟨rfl, rfl⟩
  | entering _ | waiting _ | woken _ => cases h

/-! ## The counting invariant -/

structure Awake (p : ThreadPool α) : Prop where
  threads : 0 < p.workers.length
  /-- With a task in the queue, not all workers wait. -/
  alert : p.running = true → p.queue ≠ [] →
    p.workers.countP Worker.isWaiting < p.workers.length
  /-- While a producer waits, every free slot is promised to one that has been woken. -/
  slots : p.running = true → 0 < p.producers.countP Producer.isWaiting →
    p.maxQueueSize - p.queue.length ≤ p.producers.countP Producer.isWoken
  quiet : p.running = false →
    p.workers.countP Worker.isWaiting = 0 ∧ p.producers.countP Producer.isWaiting = 0

/-- A worker that moves from one place outside the wait set to another one. -/
theorem Awake.setWorker (h : Awake p) {j : Nat} {w w' : Worker α} (hw : p.workers[j]? = some w)
    (hout : w.isWaiting = false) (hout' : w'.isWaiting = false) :
    Awake { p with workers := p.workers.set j w' } := by
  have hcount := countP_set_of_false hw hout hout'
  refine ⟨?_, ?_, h.slots, ?_⟩
  · simpa using h.threads
  · intro hrunning hqueue
    simpa [hcount] using h.alert hrunning hqueue
  · intro hstopped
    simpa [hcount] using h.quiet hstopped

/-- A producer that goes from one place outside both sets to another one. -/
theorem Awake.call (h : Awake p) {i : Nat} {x : Producer α} {task : α}
    (hx : p.producers[i]? = some x) (hidle : x.isIdle = true) :
    Awake { p with producers := p.producers.set i (.entering task) } := by
  obtain ⟨hout, hnot⟩ := Producer.of_isIdle hidle
  have hwaiting := countP_set_of_false (y := .entering task) hx hout rfl
  have hwoken := countP_set_of_false (y := .entering task) hx hnot rfl
  refine ⟨h.threads, h.alert, ?_, ?_⟩
  · intro hrunning hpos
    simp only [hwaiting, hwoken] at hpos ⊢
    exact h.slots hrunning hpos
  · intro hstopped
    simpa [hwaiting] using h.quiet hstopped

theorem Awake.run (h : Awake p) {i : Nat} {x : Producer α} {task : α} {notified : Option Nat}
    (hx : p.producers[i]? = some x) (hready : x.ready? = some task)
    (hpicks : p.isFull = false → Picks Worker.isWaiting p.workers notified)
    (hspec : RunSpec p i task notified t) : Awake t := by
  have hout := Producer.isWaiting_of_ready hready
  cases hspec with
  | waits hfull hrunning =>
      refine ⟨h.threads, h.alert, ?_, ?_⟩
      · -- A full queue has no free slot.
        intro _ _
        have hlen : p.maxQueueSize ≤ p.queue.length := by
          simp only [isFull, Bool.and_eq_true, decide_eq_true_eq] at hfull
          exact hfull.2
        simp only
        omega
      · intro hstopped
        simp only [hrunning] at hstopped
        cases hstopped
  | refused hstopped =>
      have hwaiting := countP_set_of_false (y := Producer.idle) hx hout rfl
      refine ⟨h.threads, h.alert, ?_, ?_⟩
      · intro hrunning
        simp only [hstopped] at hrunning
        cases hrunning
      · intro _
        simpa [hwaiting] using h.quiet hstopped
  | pushed hfull hrunning =>
      have hwaiting := countP_set_of_false (y := Producer.idle) hx hout rfl
      have hwoken := countP_set (y := Producer.idle) Producer.isWoken hx
      have hnotify := countP_notify Worker.isWoken Worker.not_isWaiting_wake
        Worker.isWoken_wake (hpicks hfull)
      refine ⟨?_, ?_, ?_, ?_⟩
      · simpa using h.threads
      · -- The notified worker is out of the wait set, or nobody was in it.
        intro _ _
        have hle : p.workers.countP Worker.isWaiting ≤ p.workers.length := List.countP_le_length
        have hpos := h.threads
        simp only [length_notify, hnotify.1]
        omega
      · -- The slot that is used up was free for at most one woken producer.
        intro _ hpos
        simp only [hwaiting] at hpos
        have hslots := h.slots hrunning hpos
        simp only [List.length_append, List.length_singleton]
        have hidle : Producer.isWoken (Producer.idle : Producer α) = false := rfl
        simp only [hidle, Bool.false_eq_true, if_false] at hwoken
        split at hwoken
        · omega
        · omega
      · intro hstopped
        simp only [hrunning] at hstopped
        cases hstopped

theorem Awake.take (h : Awake p) {j : Nat} {w : Worker α} {notified : Option Nat}
    (hw : p.workers[j]? = some w) (hready : w.isReady = true)
    (hpicks : p.queue.isEmpty = false → Picks Producer.isWaiting p.producers notified)
    (hspec : TakeSpec p j notified t) : Awake t := by
  have hout := Worker.isWaiting_of_active (Or.inl hready)
  cases hspec with
  | waits hqueue hrunning =>
      refine ⟨?_, ?_, h.slots, ?_⟩
      · simpa using h.threads
      · intro _ hne
        exact absurd hqueue hne
      · intro hstopped
        simp only [hrunning] at hstopped
        cases hstopped
  | emptyHanded hqueue hstopped => exact h.setWorker hw hout rfl
  | took task queue hqueue =>
      have hcount := countP_set_of_false (y := Worker.working (some task)) hw hout rfl
      have hlt := countP_lt_length hw hout
      have hlen : p.queue.length = queue.length + 1 := by rw [hqueue, List.length_cons]
      have hnotify := countP_notify Producer.isWoken Producer.not_isWaiting_wake
        Producer.isWoken_wake (hpicks (by rw [hqueue]; rfl))
      refine ⟨?_, ?_, ?_, ?_⟩
      · simpa using h.threads
      · intro _ _
        simpa [hcount] using hlt
      · -- The slot that becomes free is promised to the notified producer.
        intro hrunning hpos
        simp only at hpos ⊢
        by_cases hmax : 0 < p.maxQueueSize
        · simp only [hmax, if_true, hnotify.1, hnotify.2] at hpos ⊢
          have hslots := h.slots hrunning (by omega)
          omega
        · omega
      · intro hstopped
        obtain ⟨hworkers, hproducers⟩ := h.quiet hstopped
        simp only [hcount]
        refine ⟨hworkers, ?_⟩
        split
        · omega
        · exact hproducers

theorem Awake.step (h : Awake p) (hstep : StepSpec p a t) : Awake t := by
  cases hstep with
  | call i task hidle =>
      obtain ⟨x, hx, hidle⟩ := at_iff.1 hidle
      exact h.call hx hidle
  | run i x task notified hx hready hpicks hspec => exact h.run hx hready hpicks hspec
  | test j htest =>
      obtain ⟨w, hw, htest⟩ := at_iff.1 htest
      refine h.setWorker hw (Worker.isWaiting_of_active (Or.inr (Or.inl htest))) ?_
      split <;> rfl
  | take j notified hready hpicks hspec =>
      obtain ⟨w, hw, hready⟩ := at_iff.1 hready
      exact h.take hw hready hpicks hspec
  | finish j hworking =>
      obtain ⟨w, hw, hworking⟩ := at_iff.1 hworking
      exact h.setWorker hw (Worker.isWaiting_of_active (Or.inr (Or.inr hworking))) rfl
  | spuriousWorker j hwaiting =>
      have hcount := countP_wakeAt Worker.isWoken Worker.not_isWaiting_wake
        Worker.isWoken_wake hwaiting
      have hle : p.workers.countP Worker.isWaiting ≤ p.workers.length := List.countP_le_length
      refine ⟨?_, ?_, h.slots, ?_⟩
      · simpa using h.threads
      · intro _ _
        simp only [length_wakeAt]
        omega
      · intro hstopped
        have hquiet := h.quiet hstopped
        exact ⟨by simp only; omega, hquiet.2⟩
  | spuriousProducer i hwaiting =>
      have hcount := countP_wakeAt Producer.isWoken Producer.not_isWaiting_wake
        Producer.isWoken_wake hwaiting
      refine ⟨h.threads, h.alert, ?_, ?_⟩
      · intro hrunning _
        have hslots := h.slots hrunning (by omega)
        simp only
        omega
      · intro hstopped
        have hquiet := h.quiet hstopped
        exact ⟨hquiet.1, by simp only; omega⟩
  | stop =>
      refine ⟨?_, ?_, ?_, ?_⟩
      · simpa [stop] using h.threads
      · intro hrunning
        cases hrunning
      · intro hrunning
        cases hrunning
      · intro _
        exact ⟨countP_notifyAll Worker.not_isWaiting_wake,
          countP_notifyAll Producer.not_isWaiting_wake⟩

theorem init_awake (h : Init p) : Awake p := by
  obtain ⟨maxQueueSize, numThreads, numProducers, hpos, rfl⟩ := h
  refine ⟨?_, ?_, ?_, ?_⟩
  · simpa [started] using hpos
  · intro _ hne
    exact absurd rfl hne
  · intro _ hwaiting
    simp [started, List.countP_replicate, Producer.isWaiting] at hwaiting
  · intro hstopped
    cases hstopped

theorem exec_awake (h : Awake p) (ha : Enabled p a) : ∃ t, exec p a = .ok t ∧ Awake t := by
  obtain ⟨t, ht, hspec⟩ := exec_ok (List.length_pos_iff.1 h.threads) ha
  exact ⟨t, ht, h.step hspec⟩

theorem step_awake (h : Awake p) (hstep : (system α).step p a t) : Awake t := by
  obtain ⟨t', ht', hawake⟩ := exec_awake h hstep.1
  have hexec : exec p a = .ok t := hstep.2
  rw [ht'] at hexec
  cases hexec
  exact hawake

/-! ## After `stop` -/

/-- `running_` is never set again. -/
theorem step_stopped (hthreads : p.workers ≠ []) (hstopped : p.running = false)
    (hstep : (system α).step p a t) : t.running = false := by
  obtain ⟨t', ht', hspec⟩ := exec_ok hthreads hstep.1
  have hexec : exec p a = .ok t := hstep.2
  rw [ht'] at hexec
  cases hexec
  cases hspec with
  | call _ _ _ | test _ _ | finish _ _ | spuriousWorker _ _ | spuriousProducer _ _ => exact hstopped
  | run _ _ _ _ _ _ _ hrun => cases hrun <;> exact hstopped
  | take _ _ _ _ htake => cases htake <;> exact hstopped
  | stop => rfl

theorem run_stopped {as : List (Act α)} (hrun : (system α).Run p as t) (h : Awake p)
    (hstopped : p.running = false) : Awake t ∧ t.running = false := by
  refine hrun.preserves (P := fun p => Awake p ∧ p.running = false) ?_ ⟨h, hstopped⟩
  rintro p a t ⟨hp, hoff⟩ hstep
  exact ⟨step_awake hp hstep, step_stopped (List.length_pos_iff.1 hp.threads) hoff hstep⟩

theorem forall_of_countP {σ : Type} {l : List σ} {q : σ → Bool} (h : l.countP q = 0) :
    ∀ x ∈ l, q x = false := by
  intro x hx
  simpa using List.countP_eq_zero.1 h x hx

/-- No thread is stranded: with work queued some worker is awake, the free slots are promised to
woken producers as long as others wait for one, and after `stop` nobody waits any more. -/
theorem never_stranded (hp : (system α).Reachable p) :
    (p.running = true → p.queue ≠ [] → ∃ w ∈ p.workers, w.isWaiting = false) ∧
    (p.running = true → (∃ x ∈ p.producers, x.isWaiting = true) →
      p.maxQueueSize - p.queue.length ≤ p.producers.countP Producer.isWoken) ∧
    (∀ p₁ as p₂, (system α).step p .stop p₁ → (system α).Run p₁ as p₂ →
      (∀ w ∈ p₂.workers, w.isWaiting = false) ∧ ∀ x ∈ p₂.producers, x.isWaiting = false) := by
  have h : Awake p := (StepSystem.ofExec_safe init_awake exec_awake hp).1
  refine ⟨?_, ?_, ?_⟩
  · intro hrunning hqueue
    by_contra hnone
    have hall : p.workers.countP Worker.isWaiting = p.workers.length := by
      refine List.countP_eq_length.2 ?_
      intro w hw
      by_contra hout
      exact hnone ⟨w, hw, by simpa using hout⟩
    have hlt := h.alert hrunning hqueue
    omega
  · intro hrunning hwaiting
    exact h.slots hrunning (List.countP_pos_iff.2 hwaiting)
  · intro p₁ as p₂ hstop hrun
    have hoff : p₁.running = false := by
      have hexec : exec p .stop = .ok p₁ := hstop.2
      cases hexec
      rfl
    obtain ⟨h₂, hoff₂⟩ := run_stopped hrun (step_awake h hstop) hoff
    obtain ⟨hworkers, hproducers⟩ := h₂.quiet hoff₂
    exact ⟨forall_of_countP hworkers, forall_of_countP hproducers⟩

/-- A pool of size one and three producers: two of them wait when the worker takes the task of the
first, and one of these is woken for the slot. -/
def contendedRun : List (Act Nat) :=
  [.test 0, .call 0 10, .call 1 20, .call 2 30, .run 0 none, .run 1 none, .run 2 none,
    .take 0 (some 1)]

def contended : ThreadPool Nat where
  maxQueueSize := 1
  running := true
  queue := []
  workers := [.working (some 10)]
  producers := [.idle, .woken 20, .waiting 30]
  accepted := [10]
  handed := [(0, 10)]

theorem never_stranded_contended :
    (∃ x ∈ contended.producers, x.isWaiting = true) ∧
      contended.maxQueueSize - contended.queue.length = 1 ∧
      contended.maxQueueSize - contended.queue.length ≤
        contended.producers.countP Producer.isWoken := by
  have hrun : (system Nat).Run (started 1 1 3) contendedRun contended :=
    StepSystem.run_of_execAll (by decide) rfl
  have hinit : Init (started 1 1 3 : ThreadPool Nat) := ⟨1, 1, 3, by decide, rfl⟩
  have hwaiting : ∃ x ∈ contended.producers, x.isWaiting = true := by decide
  exact ⟨hwaiting, rfl,
    (never_stranded (hrun.reachable (StepSystem.Reachable.init hinit))).2.1 rfl hwaiting⟩

end ThreadPool

end Muduo
