import Muduo.Net.TimerLifetime

/-!
# TimerCancellation — a cancelled timer does not come back

A `cancelInLoop` that does not find its timer in `activeTimers_` finds it in the batch of the
running `handleRead` or not at all, and what it writes into `cancelingTimers_` is enough for
`reset` to delete the timer (`Doomed`).

`cancel_final` follows a timer through a run: from its `addTimerInLoop` to the cancellation and
from there to any later `handleRead`.
-/

namespace Muduo
namespace Net
namespace TimerQueue

variable {q q' : TimerQueue} {batch : List Addr} {p : Addr} {t : Timer} {timerId : TimerId}

/-! ## The timer of an executed `addTimerInLoop` -/

/-- The timer of `timerId` has been added: it waits for no `addTimerInLoop`, and it is the only
timer with its number, if it is still alive. -/
def Added (q : TimerQueue) (timerId : TimerId) : Prop :=
  timerId.sequence ≤ q.numCreated ∧
    ∀ r u, q.heap r = some u → u.sequence = timerId.sequence →
      r = timerId.timer ∧ r ∉ q.created

/-- A live timer comes under the created ones only by its own `newTimer`. -/
theorem exec_not_created (h : Inv q) {a : Act} (hen : Enabled q a) (hexec : exec q a = .ok q')
    (hlive : q.heap p = some t) (hp : p ∉ q.created) : p ∉ q'.created := by
  rw [exec_created h hen hexec]
  cases a with
  | newTimer r when_ interval repeat_ =>
      have hr : p ≠ r := by
        rintro rfl
        rw [hen.1] at hlive
        cases hlive
      intro hmem
      exact (List.mem_cons.1 hmem).elim hr hp
  | addTimerInLoop r =>
      intro hmem
      exact hp (List.mem_of_mem_erase hmem)
  | _ => exact hp

theorem Added.of_exec (h : Inv q) (hadded : Added q timerId) {a : Act} (hen : Enabled q a)
    (hexec : exec q a = .ok q') (hev : Evolves q q') : Added q' timerId := by
  refine ⟨le_trans hadded.1 hev.1, ?_⟩
  intro r u hu hseq
  rcases hev.2 r u hu with hlt | ⟨u₀, hu₀, hseq₀⟩
  · have := hadded.1
    omega
  · rcases hadded.2 r u₀ hu₀ (hseq₀.trans hseq) with ⟨hr, hnot⟩
    exact ⟨hr, exec_not_created h hen hexec hu₀ hnot⟩

/-- What `addTimerInLoop` establishes for the timer it was called with. -/
theorem added_of_addTimerInLoop (h : Inv q) (ht : q.heap p = some t)
    (hstep : system.step q (.addTimerInLoop p) q') : Added q' ⟨p, t.sequence⟩ := by
  rcases hstep with ⟨hen, hexec⟩
  have hadd : q.addTimerInLoop p = .ok q' := hexec
  rw [(addTimerInLoop_ok h.consistent hen ht).1] at hadd
  cases hadd
  refine ⟨?_, ?_⟩
  · simpa using h.consistent.sequence_le p t ht
  · intro r u hu hseq
    rw [added_heap] at hu
    have hr : r = p := h.consistent.sequence_inj r p u t hu ht hseq
    subst hr
    refine ⟨rfl, ?_⟩
    rw [added_created]
    -- A created timer is listed once.
    exact (List.nodup_append.1 h.consistent.held_nodup).1.not_mem_erase

/-! ## The timer of an executed `cancelInLoop` -/

/-- If the timer with number `sequence` is alive, it belongs to the batch and `reset` will
delete it. -/
def Doomed (q : TimerQueue) (batch : List Addr) (sequence : Nat) : Prop :=
  ∀ r u, q.heap r = some u → u.sequence = sequence →
    r ∈ batch ∧ (u.repeat_ = false ∨ ActiveTimer.mk r u.sequence ∈ q.cancelingTimers)

theorem Added.cancel (h : Inv q) (hacc : Accounted q (batchOf q)) (hadded : Added q timerId)
    (hspec : CancelSpec q timerId q') : Doomed q' (batchOf q') timerId.sequence := by
  -- A live timer with this number that is not active is in the batch.
  have hheld : ActiveTimer.mk timerId.timer timerId.sequence ∉ q.activeTimers →
      ∀ r u, q.heap r = some u → u.sequence = timerId.sequence →
        r = timerId.timer ∧ r ∈ batchOf q := by
    intro hnot r u hu hseq
    rcases hadded.2 r u hu hseq with ⟨hr, hcreated⟩
    refine ⟨hr, ?_⟩
    rcases hacc r u hu with hin | hin | hin
    · exact absurd hin hcreated
    · exact hin
    · rw [hr, hseq] at hin
      exact absurd hin hnot
  cases hspec with
  | found t ht _ _ =>
      intro r u hu hseq
      have hr : r ≠ timerId.timer := by
        rintro rfl
        simp [cancelled] at hu
      have hold : q.heap r = some u := by
        simpa [cancelled, hr] using hu
      exact absurd (hadded.2 r u hold hseq).1 hr
  | recorded hnot _ =>
      intro r u hu hseq
      rcases hheld hnot r u hu hseq with ⟨rfl, hbatch⟩
      refine ⟨hbatch, Or.inr (OrdSet.mem_insert.2 (Or.inl ?_))⟩
      rw [hseq]
  | ignored hnot hcalling =>
      intro r u hu hseq
      -- Outside `handleRead` there is no batch.
      have hframe : q.frame = none := by
        have := h.calling
        rw [hcalling] at this
        simpa using this.symm
      have hin := (hheld hnot r u hu hseq).2
      simp [batchOf, hframe] at hin

theorem Added.doomed (hadded : Added q timerId) (h : Inv q) (hacc : Accounted q (batchOf q))
    (hstep : system.step q (.cancelInLoop timerId) q') :
    Doomed q' (batchOf q') timerId.sequence := by
  rcases cancelInLoop_ok h.consistent timerId with ⟨q₁, hq₁, hspec, _⟩
  have hexec : q.cancelInLoop timerId = .ok q' := hstep.2
  rw [hq₁] at hexec
  cases hexec
  exact hadded.cancel h hacc hspec

/-- One iteration of `reset` deletes the timer if it is the head of the batch. -/
theorem Doomed.resetStep {now : Int} {it : Entry} {expired : List Entry} {n : Nat} (next : Int)
    (h : Doomed q (it.timer :: expired.map Entry.timer) n) (hspec : ResetSpec q now it q') :
    Doomed (q'.rearmed next) (expired.map Entry.timer) n := by
  intro r u hu hseq
  rw [rearmed_heap] at hu
  rw [rearmed_cancelingTimers]
  cases hspec with
  | restarted t ht hrep hcan =>
      have hu' : Function.update q.heap it.timer (some (t.restart now)) r = some u := hu
      by_cases hr : r = it.timer
      · subst hr
        simp only [Function.update_self, Option.some.injEq] at hu'
        subst hu'
        -- `reset` would have had to find it repeating and not cancelled.
        rcases (h _ t ht (by simpa using hseq)).2 with hone | hin
        · rw [hrep] at hone
          cases hone
        · exact absurd hin hcan
      · have hold : q.heap r = some u := by
          simpa [hr] using hu'
        rcases h r u hold hseq with ⟨hbatch, hstop⟩
        exact ⟨(List.mem_cons.1 hbatch).resolve_left hr, hstop⟩
  | deleted t _ _ =>
      have hr : r ≠ it.timer := by
        rintro rfl
        simp at hu
      have hold : q.heap r = some u := by
        simpa [hr] using hu
      rcases h r u hold hseq with ⟨hbatch, hstop⟩
      exact ⟨(List.mem_cons.1 hbatch).resolve_left hr, hstop⟩

theorem exec_doomed {n : Nat} (h : Inv q) (hissued : n ≤ q.numCreated)
    (hdoomed : Doomed q (batchOf q) n) {a : Act} (hen : Enabled q a)
    (hexec : exec q a = .ok q') : Doomed q' (batchOf q') n := by
  cases step_cases h hen hexec with
  | newTimer p when_ interval repeat_ _ =>
      intro r u hu hseq
      by_cases hr : r = p
      · -- The new timer has a new number.
        subst hr
        simp only [newTimer, Function.update_self, Option.some.injEq] at hu
        subst hu
        simp only at hseq
        omega
      · exact hdoomed r u (by simpa [newTimer, hr] using hu) hseq
  | addTimerInLoop p t _ _ =>
      intro r u hu hseq
      rw [added_heap] at hu
      simpa [batchOf] using hdoomed r u hu hseq
  | cancelInLoop timerId hspec =>
      cases hspec with
      | found t _ _ _ =>
          intro r u hu hseq
          have hr : r ≠ timerId.timer := by
            rintro rfl
            simp [cancelled] at hu
          exact hdoomed r u (by simpa [cancelled, hr] using hu) hseq
      | recorded _ _ =>
          intro r u hu hseq
          rcases hdoomed r u hu hseq with ⟨hbatch, hstop⟩
          exact ⟨hbatch, hstop.imp_right fun hin => OrdSet.mem_insert.2 (Or.inr hin)⟩
      | ignored _ _ => exact hdoomed
  | fire =>
      obtain ⟨timerfd, hfire⟩ := fire_eq q
      rw [hfire]
      exact hdoomed
  | handleReadBegin now active hframe _ =>
      intro r u hu hseq
      -- Before the batch is taken no timer is held.
      have hin := (hdoomed r u hu hseq).1
      simp [batchOf, hframe] at hin
  | handleReadRun hframe =>
      simp only [batchOf, hframe] at hdoomed
      exact hdoomed
  | handleReadEnd f hframe hloop =>
      simp only [batchOf, hframe] at hdoomed
      have hdone := resetLoop_post h hframe hloop
        (fun expired q₁ => Doomed q₁ (expired.map Entry.timer) n)
        (fun hP _ hspec => hP.resetStep _ hspec) hdoomed
      -- With the whole batch reset, no timer with this number is left.
      intro r u hu hseq
      exact absurd (hdone r u hu hseq).1 List.not_mem_nil

/-! ## The cancelled timer after its cancellation -/

/-- No entry of `timers_` or `activeTimers_` belongs to the timer with number `sequence`. -/
def Unscheduled (q : TimerQueue) (sequence : Nat) : Prop :=
  (∀ a ∈ q.activeTimers, a.sequence ≠ sequence) ∧
    ∀ e ∈ q.timers, ∀ t, q.heap e.timer = some t → t.sequence ≠ sequence

/-- The next callback that the running `handleRead` runs is that of the timer with number
`sequence`. -/
def RunsNext (q : TimerQueue) (sequence : Nat) : Prop :=
  ∃ f, q.frame = some f ∧ ∃ it, f.rest.head? = some it ∧
    ∃ t, q.heap it.timer = some t ∧ t.sequence = sequence

theorem Doomed.unscheduled {n : Nat} (h : Inv q) (hdoomed : Doomed q (batchOf q) n) :
    Unscheduled q n := by
  refine ⟨?_, ?_⟩
  · intro a ha hseq
    rcases h.consistent.active_live a ha with ⟨t, ht, hseq', htim⟩
    have hin := (hdoomed _ t ht (hseq'.trans hseq)).1
    exact h.consistent.held_idle _ htim (List.mem_append_right _ hin)
  · intro e he t ht hseq
    have hin := (hdoomed _ t ht hseq).1
    exact h.consistent.held_idle e he (List.mem_append_right _ hin)

theorem Doomed.stale {n : Nat} (hissued : n ≤ q.numCreated) (hframe : q.frame = none)
    (hdoomed : Doomed q (batchOf q) n) (p : Addr) : Stale q ⟨p, n⟩ := by
  refine ⟨hissued, ?_⟩
  intro r u hu hseq
  have hin := (hdoomed r u hu hseq).1
  simp [batchOf, hframe] at hin

theorem Stale.not_runsNext (h : Stale q timerId) : ¬ RunsNext q timerId.sequence := by
  rintro ⟨_, _, _, _, t, ht, hseq⟩
  exact h.2 _ t ht hseq

theorem Doomed.of_run {n : Nat} {as : List Act} (hrun : system.Run q as q') :
    Inv q → n ≤ q.numCreated → Doomed q (batchOf q) n →
      Inv q' ∧ n ≤ q'.numCreated ∧ Doomed q' (batchOf q') n := by
  intro h hissued hdoomed
  refine hrun.preserves (P := fun q => Inv q ∧ n ≤ q.numCreated ∧ Doomed q (batchOf q) n) ?_
    ⟨h, hissued, hdoomed⟩
  rintro s a s' ⟨hs, hle, hd⟩ hstep
  rcases step_inv hs hstep with ⟨hs', hev⟩
  exact ⟨hs', le_trans hle hev.1, exec_doomed hs hle hd hstep.1 hstep.2⟩

theorem Stale.of_run {as : List Act} (hrun : system.Run q as q') :
    Inv q → Stale q timerId → Inv q' ∧ Stale q' timerId := by
  intro h hstale
  refine hrun.preserves (P := fun q => Inv q ∧ Stale q timerId) ?_ ⟨h, hstale⟩
  rintro s a s' ⟨hs, hst⟩ hstep
  rcases step_inv hs hstep with ⟨hs', hev⟩
  exact ⟨hs', hst.of_evolves hev⟩

/-- A `handleRead` that begins finds no doomed timer alive. -/
theorem Doomed.stale_of_begin {n : Nat} {now : Int} (h : Inv q) (hissued : n ≤ q.numCreated)
    (hdoomed : Doomed q (batchOf q) n) (hbegin : system.step q (.handleReadBegin now) q')
    (p : Addr) : Inv q' ∧ Stale q' ⟨p, n⟩ := by
  rcases step_inv h hbegin with ⟨h', hev⟩
  exact ⟨h', (hdoomed.stale hissued hbegin.1 p).of_evolves hev⟩

/-- Cancellation is final: after a timer has been added and its `TimerId` cancelled, at whatever
point of whatever batch, it is in neither index and no later `handleRead` runs its callback. -/
theorem cancel_final {q₀ q₁ q₂ : TimerQueue} {as bs : List Act} (hq₀ : system.Reachable q₀)
    (ht : q₀.heap p = some t) (hadd : system.step q₀ (.addTimerInLoop p) q₁)
    (hrun : system.Run q₁ as q) (hcancel : system.step q (.cancelInLoop ⟨p, t.sequence⟩) q')
    (hlater : system.Run q' bs q₂) :
    Unscheduled q₂ t.sequence ∧
      ∀ now q₃ cs q₄, system.step q₂ (.handleReadBegin now) q₃ → system.Run q₃ cs q₄ →
        ¬ RunsNext q₄ t.sequence := by
  -- From the addition to the cancellation.
  have hq₁ : Inv q₁ ∧ Accounted q₁ (batchOf q₁) :=
    reachable_accounted (StepSystem.Reachable.step hq₀ hadd)
  have hadded : Added q₁ ⟨p, t.sequence⟩ := added_of_addTimerInLoop (reachable_inv hq₀) ht hadd
  have hbefore : (Inv q ∧ Accounted q (batchOf q)) ∧ Added q ⟨p, t.sequence⟩ := by
    refine hrun.preserves (P := fun q => (Inv q ∧ Accounted q (batchOf q)) ∧
      Added q ⟨p, t.sequence⟩) ?_ ⟨hq₁, hadded⟩
    rintro s a s' ⟨⟨hs, hacc⟩, had⟩ hstep
    rcases step_inv hs hstep with ⟨hs', hev⟩
    exact ⟨⟨hs', exec_accounted hs hacc hstep.1 hstep.2⟩, had.of_exec hs hstep.1 hstep.2 hev⟩
  rcases hbefore with ⟨⟨hq, hacc⟩, hadded⟩
  -- The cancellation dooms the timer, which then stays doomed.
  have hdoomed : Doomed q' (batchOf q') t.sequence := hadded.doomed hq hacc hcancel
  rcases step_inv hq hcancel with ⟨hq', hev⟩
  rcases hdoomed.of_run hlater hq' (le_trans hadded.1 hev.1) with ⟨hq₂, hissued, hdoomed⟩
  refine ⟨hdoomed.unscheduled hq₂, ?_⟩
  intro now q₃ cs q₄ hbegin hcs
  rcases hdoomed.stale_of_begin hq₂ hissued hbegin p with ⟨hq₃, hstale⟩
  exact (Stale.of_run hcs hq₃ hstale).2.not_runsNext

/-- The state after the actions `as`. -/
def after (as : List Act) : TimerQueue :=
  (StepSystem.execAll exec TimerQueue.new as).toOption.getD TimerQueue.new

/-- A repeating timer whose callback cancels it, while the other timer of its batch waits. -/
def selfCancelRun : List Act :=
  [.newTimer 16 10 5 true, .newTimer 32 10 5 true, .addTimerInLoop 32, .addTimerInLoop 16, .fire,
    .handleReadBegin 10, .handleReadRun, .cancelInLoop ⟨16, 1⟩, .handleReadRun, .handleReadEnd,
    .fire]

theorem cancel_final_self :
    Unscheduled (after selfCancelRun) 1 ∧
      ∀ now q₃ cs q₄, system.step (after selfCancelRun) (.handleReadBegin now) q₃ →
        system.Run q₃ cs q₄ → ¬ RunsNext q₄ 1 := by
  have hcreated : system.Run TimerQueue.new (selfCancelRun.take 3) (after (selfCancelRun.take 3)) :=
    StepSystem.run_of_execAll (by decide) rfl
  have hadd : system.step (after (selfCancelRun.take 3)) (.addTimerInLoop 16)
      (after (selfCancelRun.take 4)) := ⟨by decide, rfl⟩
  have hrun : system.Run (after (selfCancelRun.take 4)) [.fire, .handleReadBegin 10, .handleReadRun]
      (after (selfCancelRun.take 7)) := StepSystem.run_of_execAll (by decide) rfl
  have hcancel : system.step (after (selfCancelRun.take 7)) (.cancelInLoop ⟨16, 1⟩)
      (after (selfCancelRun.take 8)) := ⟨by decide, rfl⟩
  have hlater : system.Run (after (selfCancelRun.take 8)) [.handleReadRun, .handleReadEnd, .fire]
      (after selfCancelRun) := StepSystem.run_of_execAll (by decide) rfl
  exact cancel_final (hcreated.reachable (StepSystem.Reachable.init rfl))
    (t := ⟨10, 5, true, 1⟩) (by rfl) hadd hrun hcancel hlater

end TimerQueue

end Net
end Muduo
