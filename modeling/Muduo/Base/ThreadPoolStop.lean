import Muduo.Base.ThreadPoolWaiters

/-!
# ThreadPoolStop — after `stop` every worker leaves

`stop` clears `running_`, wakes everybody up and then joins the workers.  None of them can get
back into a wait set, so the joins return when the tasks do.  The queue is not worked off: each
worker takes one more task from its front at most.
-/

namespace Muduo

namespace Worker

variable {α : Type}

/-- The number of steps that a worker has left when `running_` is false. -/
def rank : Worker α → Nat
  | .testing => 1
  | .entering => 3
  | .waiting => 4
  | .woken => 3
  | .working _ => 2
  | .exited => 0

theorem rank_of_isReady {w : Worker α} (h : w.isReady = true) : w.rank = 3 := by
  cases w with
  | entering | woken => rfl
  | testing | waiting | working _ | exited => cases h

end Worker

namespace ThreadPool

open WaitSet

variable {α : Type} {p t : ThreadPool α} {a : Act α}

/-- The worker that makes the step. -/
def Act.worker : Act α → Option Nat
  | .test j => some j
  | .take j _ => some j
  | .finish j => some j
  | _ => none

/-- The number of steps that worker `j` has left when `running_` is false. -/
def rankOf (j : Nat) (p : ThreadPool α) : Nat :=
  (p.workers[j]?.map Worker.rank).getD 0

/-- What worker `j` has been handed. -/
def handedTo (p : ThreadPool α) (j : Nat) : List α :=
  (p.handed.filter fun e => e.1 == j).map Prod.snd

/-- What a step can do when `running_` is false. -/
inductive StoppedSpec (p : ThreadPool α) (a : Act α) (t : ThreadPool α) : Prop where
  | other : a.worker = none → t.workers = p.workers → t.handed = p.handed →
      t.accepted = p.accepted → StoppedSpec p a t
  | moved (j : Nat) (w w' : Worker α) : a.worker = some j → p.workers[j]? = some w →
      t.workers = p.workers.set j w' → w.rank = w'.rank + 1 → w'.isReady = false →
      t.handed = p.handed → t.accepted = p.accepted → StoppedSpec p a t
  | took (j : Nat) (w : Worker α) (task : α) : a.worker = some j → p.workers[j]? = some w →
      w.isReady = true → t.workers = p.workers.set j (.working (some task)) →
      t.handed = p.handed ++ [(j, task)] → t.accepted = p.accepted → StoppedSpec p a t

theorem stopped_spec (h : Awake p) (hstopped : p.running = false) (hstep : StepSpec p a t) :
    StoppedSpec p a t := by
  obtain ⟨hworkers, _⟩ := h.quiet hstopped
  cases hstep with
  | call i task _ => exact .other rfl rfl rfl rfl
  | run i x task notified _ _ _ hrun =>
      cases hrun with
      | waits _ hrunning => exact absurd hrunning (by rw [hstopped]; decide)
      | refused _ => exact .other rfl rfl rfl rfl
      | pushed _ hrunning => exact absurd hrunning (by rw [hstopped]; decide)
  | test j htest =>
      obtain ⟨w, hw, htest⟩ := at_iff.1 htest
      have hrank : w.rank = 1 := by
        cases w with
        | testing => rfl
        | entering | waiting | woken | working _ | exited => cases htest
      exact .moved j w .exited rfl hw (by simp [hstopped]) hrank rfl rfl rfl
  | take j notified hready _ htake =>
      obtain ⟨w, hw, hready⟩ := at_iff.1 hready
      cases htake with
      | waits _ hrunning => exact absurd hrunning (by rw [hstopped]; decide)
      | emptyHanded _ _ =>
          exact .moved j w (.working none) rfl hw rfl (Worker.rank_of_isReady hready) rfl rfl rfl
      | took task queue _ => exact .took j w task rfl hw hready rfl rfl rfl
  | finish j hworking =>
      obtain ⟨w, hw, hworking⟩ := at_iff.1 hworking
      have hrank : w.rank = 2 := by
        cases w with
        | working _ => rfl
        | testing | entering | waiting | woken | exited => cases hworking
      exact .moved j w .testing rfl hw rfl hrank rfl rfl rfl
  | spuriousWorker j hwaiting =>
      obtain ⟨w, hw, hwaiting⟩ := at_iff.1 hwaiting
      rw [forall_of_countP hworkers w (List.mem_of_getElem? hw)] at hwaiting
      cases hwaiting
  | spuriousProducer i _ => exact .other rfl rfl rfl rfl
  | stop => exact .other rfl (notifyAll_of_countP_eq_zero hworkers) rfl rfl

theorem rankOf_set {j : Nat} {w w' : Worker α} (hw : p.workers[j]? = some w)
    (hworkers : t.workers = p.workers.set j w') (i : Nat) :
    t.rankOf i = if i = j then w'.rank else p.rankOf i := by
  obtain ⟨hlt, _⟩ := List.getElem?_eq_some_iff.1 hw
  by_cases hi : i = j
  · subst hi
    simp [rankOf, hworkers, hlt]
  · have hne : j ≠ i := fun heq => hi heq.symm
    simp [rankOf, hworkers, List.getElem?_set_ne hne, hi]

/-- A step of a worker is one of those it had left, and nobody else's. -/
theorem StoppedSpec.rankOf (h : StoppedSpec p a t) (i : Nat) :
    t.rankOf i + (if a.worker == some i then 1 else 0) ≤ p.rankOf i := by
  cases h with
  | other ha hworkers _ _ =>
      rw [ThreadPool.rankOf, hworkers, ha]
      exact Nat.le_refl _
  | moved j w w' ha hw hworkers hrank _ _ _ =>
      rw [rankOf_set hw hworkers, ha]
      by_cases hi : i = j
      · subst hi
        simp [ThreadPool.rankOf, hw, hrank]
      · simp [hi, Ne.symm hi]
  | took j w task ha hw hready hworkers _ _ =>
      have hrank := Worker.rank_of_isReady hready
      rw [rankOf_set hw hworkers, ha]
      by_cases hi : i = j
      · subst hi
        have htook : (Worker.working (some task)).rank = 2 := rfl
        simp [ThreadPool.rankOf, hw, hrank, htook]
      · simp [hi, Ne.symm hi]

theorem StoppedSpec.accepted (h : StoppedSpec p a t) : t.accepted = p.accepted := by
  cases h <;> assumption

theorem StoppedSpec.handed (h : StoppedSpec p a t) : p.handed <+: t.handed := by
  cases h with
  | other _ _ hhanded _ => exact hhanded ▸ List.prefix_refl _
  | moved _ _ _ _ _ _ _ _ hhanded _ => exact hhanded ▸ List.prefix_refl _
  | took j _ task _ _ _ _ hhanded _ => exact hhanded ▸ List.prefix_append _ [(j, task)]

/-- Worker `j` gets no task, or it was ready for one and is not any more. -/
theorem StoppedSpec.handedTo (h : StoppedSpec p a t) (j : Nat) :
    (t.handedTo j = p.handedTo j ∧
        (At t.workers j Worker.isReady → At p.workers j Worker.isReady)) ∨
      (∃ task, t.handedTo j = p.handedTo j ++ [task]) ∧
        At p.workers j Worker.isReady ∧ ¬ At t.workers j Worker.isReady := by
  cases h with
  | other _ hworkers hhanded _ =>
      rw [ThreadPool.handedTo, hhanded, hworkers]
      exact Or.inl ⟨rfl, id⟩
  | moved k w w' _ hw hworkers _ hready hhanded _ =>
      rw [ThreadPool.handedTo, hhanded, hworkers, at_set hw]
      refine Or.inl ⟨rfl, fun hj => ?_⟩
      split at hj
      · rw [hready] at hj
        cases hj
      · exact hj
  | took k w task _ hw hready hworkers hhanded _ =>
      rw [ThreadPool.handedTo, hhanded, hworkers, at_set hw]
      by_cases hj : j = k
      · subst hj
        refine Or.inr ⟨⟨task, ?_⟩, at_iff.2 ⟨w, hw, hready⟩, ?_⟩
        · simp [ThreadPool.handedTo]
        · simp [Worker.isReady]
      · have hother : ¬ k = j := fun heq => hj heq.symm
        refine Or.inl ⟨?_, ?_⟩
        · simp [ThreadPool.handedTo, hother]
        · simp [hj]

/-! ## Runs after `stop` -/

theorem stopped_step (h : Awake p ∧ p.running = false) (hstep : (system α).step p a t) :
    (Awake t ∧ t.running = false) ∧ StoppedSpec p a t := by
  obtain ⟨hawake, hstopped⟩ := h
  have hthreads := List.length_pos_iff.1 hawake.threads
  obtain ⟨t', ht', hspec⟩ := exec_ok hthreads hstep.1
  have hexec : exec p a = .ok t := hstep.2
  rw [ht'] at hexec
  cases hexec
  exact ⟨⟨step_awake hawake hstep, step_stopped hthreads hstopped hstep⟩,
    stopped_spec hawake hstopped hspec⟩

theorem run_rankOf {as : List (Act α)} (hrun : (system α).Run p as t)
    (h : Awake p ∧ p.running = false) (i : Nat) :
    t.rankOf i + as.countP (fun a => a.worker == some i) ≤ p.rankOf i := by
  refine (hrun.ranking (I := fun p => Awake p ∧ p.running = false) ?_ h).2
  intro s a t hs hstep
  obtain ⟨ht, hspec⟩ := stopped_step hs hstep
  exact ⟨ht, hspec.rankOf i⟩

theorem run_accepted {as : List (Act α)} (hrun : (system α).Run p as t) :
    Awake p ∧ p.running = false → t.accepted = p.accepted ∧ p.handed <+: t.handed := by
  induction hrun with
  | nil p => exact fun _ => ⟨rfl, List.prefix_refl _⟩
  | cons hstep _ ih =>
      intro h
      obtain ⟨hu, hspec⟩ := stopped_step h hstep
      obtain ⟨haccepted, hhanded⟩ := ih hu
      exact ⟨haccepted.trans hspec.accepted, hspec.handed.trans hhanded⟩

theorem run_handedTo {as : List (Act α)} (hrun : (system α).Run p as t) (j : Nat) :
    Awake p ∧ p.running = false →
      (t.handedTo j = p.handedTo j ∧
          (At t.workers j Worker.isReady → At p.workers j Worker.isReady)) ∨
        (∃ task, t.handedTo j = p.handedTo j ++ [task]) ∧
          At p.workers j Worker.isReady ∧ ¬ At t.workers j Worker.isReady := by
  induction hrun with
  | nil p => exact fun _ => Or.inl ⟨rfl, id⟩
  | cons hstep _ ih =>
      intro h
      obtain ⟨hu, hspec⟩ := stopped_step h hstep
      rcases hspec.handedTo j with ⟨hfirst, hback⟩ | ⟨hfirst, hready, hnot⟩
      · rcases ih hu with ⟨hrest, hback'⟩ | ⟨hrest, hready', hnot'⟩
        · exact Or.inl ⟨hrest.trans hfirst, fun ht => hback (hback' ht)⟩
        · exact Or.inr ⟨by rwa [hfirst] at hrest, hback hready', hnot'⟩
      · -- The worker is not ready any more, so that was its last task.
        rcases ih hu with ⟨hrest, hback'⟩ | ⟨_, hready', _⟩
        · exact Or.inr ⟨by rwa [hrest], hready, fun ht => hnot (hback' ht)⟩
        · exact absurd hready' hnot

theorem rankOf_le (h : ∀ w ∈ p.workers, w.isWaiting = false) (j : Nat) : p.rankOf j ≤ 3 := by
  cases hw : p.workers[j]? with
  | none => simp [rankOf, hw]
  | some w =>
      have hout := h w (List.mem_of_getElem? hw)
      cases w with
      | waiting => cases hout
      | testing | entering | woken | working _ | exited => simp [rankOf, hw, Worker.rank]

/-- A worker that has not left has a step to make. -/
theorem enabled_of_not_exited (h : Awake p) (hstopped : p.running = false) {j : Nat}
    {w : Worker α} (hw : p.workers[j]? = some w) (hstays : w ≠ .exited) :
    ∃ a : Act α, a.worker = some j ∧ Enabled p a := by
  obtain ⟨hworkers, hproducers⟩ := h.quiet hstopped
  have hout := forall_of_countP hworkers w (List.mem_of_getElem? hw)
  cases w with
  | testing => exact ⟨.test j, rfl, at_iff.2 ⟨_, hw, rfl⟩⟩
  | entering | woken =>
      exact ⟨.take j none, rfl, at_iff.2 ⟨_, hw, rfl⟩, fun _ => hproducers⟩
  | working _ => exact ⟨.finish j, rfl, at_iff.2 ⟨_, hw, rfl⟩⟩
  | waiting => cases hout
  | exited => exact absurd rfl hstays

/-- If worker `j` is handed at most one task, one entry at most of what is handed out is its. -/
theorem countP_took_le {took : List (Nat × α)} {j : Nat} (hhanded : t.handed = p.handed ++ took)
    (h : t.handedTo j = p.handedTo j ∨ ∃ task, t.handedTo j = p.handedTo j ++ [task]) :
    took.countP (fun e => e.1 == j) ≤ 1 := by
  have happend : t.handedTo j = p.handedTo j ++ (took.filter fun e => e.1 == j).map Prod.snd := by
    simp [handedTo, hhanded]
  rw [List.countP_eq_length_filter, ← List.length_map (f := Prod.snd)]
  rcases h with hsame | ⟨task, hone⟩
  · have hnil : (took.filter fun e => e.1 == j).map Prod.snd = [] := by
      rw [hsame] at happend
      exact List.self_eq_append_right.1 happend
    simp [hnil]
  · rw [hone] at happend
    rw [← List.append_cancel_left happend]
    exact Nat.le_refl 1

/-- From `stop` on, in every interleaving with any number of producers: each worker has at most
three steps left, and as long as it has not left the pool it can make one; no task is accepted;
and what is handed out is a front of the queue, at most one task to each worker. -/
theorem stop_terminates {p₁ p₂ : ThreadPool α} {as : List (Act α)}
    (hp : (system α).Reachable p) (hstop : (system α).step p .stop p₁)
    (hrun : (system α).Run p₁ as p₂) :
    (∀ j, as.countP (fun a => a.worker == some j) ≤ 3) ∧
      (∀ {j : Nat} {w : Worker α}, p₂.workers[j]? = some w → w ≠ .exited →
        ∃ a : Act α, a.worker = some j ∧ Enabled p₂ a) ∧
      p₂.accepted = p.accepted ∧
      ∃ took, p₂.handed = p.handed ++ took ∧ took.map Prod.snd ++ p₂.queue = p.queue ∧
        ∀ j, took.countP (fun e => e.1 == j) ≤ 1 := by
  have h : Awake p := (StepSystem.ofExec_safe init_awake exec_awake hp).1
  have hinv : Inv p := (StepSystem.ofExec_safe init_inv exec_inv hp).1
  have hinv₂ : Inv p₂ :=
    (StepSystem.ofExec_safe init_inv exec_inv (hrun.reachable (hp.step hstop))).1
  have hexec : p₁ = p.stop := by
    have hok : exec p .stop = .ok p₁ := hstop.2
    cases hok
    rfl
  subst hexec
  have h₁ : Awake p.stop ∧ p.stop.running = false := ⟨step_awake h hstop, rfl⟩
  obtain ⟨h₂, hstopped₂⟩ := run_stopped hrun h₁.1 h₁.2
  obtain ⟨haccepted, took, hhanded⟩ := run_accepted hrun h₁
  have htook : p₂.handed = p.handed ++ took := hhanded.symm
  refine ⟨fun j => ?_, enabled_of_not_exited h₂ hstopped₂, haccepted, took, htook, ?_, fun j => ?_⟩
  · have hle := rankOf_le (forall_of_countP (h₁.1.quiet rfl).1) j
    have hbound := run_rankOf hrun h₁ j
    omega
  · -- Nothing is accepted, so what was handed out and what is queued is what was queued.
    have hfifo : p₂.handed.map Prod.snd ++ p₂.queue = p.handed.map Prod.snd ++ p.queue := by
      rw [hinv₂.fifo, hinv.fifo]
      exact haccepted
    rw [htook, List.map_append, List.append_assoc] at hfifo
    exact List.append_cancel_left hfifo
  · refine countP_took_le (p := p.stop) hhanded.symm ?_
    rcases run_handedTo hrun j h₁ with ⟨hsame, _⟩ | ⟨hone, _⟩
    · exact Or.inl hsame
    · exact Or.inr hone

/-- Three tasks are queued when the pool stops, and its worker takes one of them. -/
def busyRun : List (Act Nat) :=
  [.test 0, .call 0 10, .run 0 none, .call 0 20, .run 0 none, .call 0 30, .run 0 none]

def lastRun : List (Act Nat) :=
  [.take 0 none, .call 0 40, .finish 0, .run 0 none, .test 0]

theorem stop_terminates_busy :
    let p := (StepSystem.execAll exec (started 0 1 1) busyRun).toOption.getD (started 0 1 1)
    let p₂ := (StepSystem.execAll exec p.stop lastRun).toOption.getD p
    p₂.queue = [20, 30] ∧ lastRun.countP (fun a => a.worker == some 0) = 3 ∧
      ∀ j, lastRun.countP (fun a => a.worker == some j) ≤ 3 := by
  intro p p₂
  have hinit : Init (started 0 1 1 : ThreadPool Nat) := ⟨0, 1, 1, by decide, rfl⟩
  have hbefore : (system Nat).Run (started 0 1 1) busyRun p :=
    StepSystem.run_of_execAll (by decide) rfl
  have hstop : (system Nat).step p .stop p.stop := ⟨trivial, rfl⟩
  have hrun : (system Nat).Run p.stop lastRun p₂ := StepSystem.run_of_execAll (by decide) rfl
  exact ⟨by decide, by decide,
    (stop_terminates (hbefore.reachable (StepSystem.Reachable.init hinit)) hstop hrun).1⟩

end ThreadPool
end Muduo
