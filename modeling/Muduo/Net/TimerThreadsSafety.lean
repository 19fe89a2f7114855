import Muduo.Net.TimerThreads

/-!
# TimerThreadsSafety — what threads may rely on when they add and cancel timers

* `cancelled_stays_of_meets`: a timer that was added and cancelled stays out of the queue, in
  every run in which no `cancel` on the loop thread overtakes the queued `addTimerInLoop` of its
  timer.  A `cancel` that does (`cancel_overtakes`) has no effect, and the timer runs.
* `reads_own_of_meets`: `addTimer` reads the sequence number of its own live timer, in every run
  in which no timer is deleted before that.  A one-shot timer that expires at once is
  (`read_after_delete`).
-/

namespace Muduo
namespace Net
namespace TimerThreads

variable {s s' : TimerThreads} {q q' : TimerQueue} {call : Nat} {timer : Addr}

/-! ## Cancelling -/

/-- A timer whose `addTimerInLoop` and `cancelInLoop` have both run is in neither index, and no
`handleRead` that starts later runs its callback. -/
def CancelledStays (s : TimerThreads) : Prop :=
  ∀ n ∈ s.cancelled, (∀ f ∈ s.pending, f.adds ≠ some n) →
    s.queue.Unscheduled n ∧
      ∀ as s₁ now s₂ bs s₃, system.Run s as s₁ →
        system.step s₁ (.timer (.handleReadBegin now)) s₂ → system.Run s₂ bs s₃ →
        ¬ s₃.queue.RunsNext n

/-- On the loop thread, a timer is cancelled only after its `addTimerInLoop` has run. -/
def CancelMeets (s : TimerThreads) : Act → Prop
  | .cancel call _ => ∀ n ∈ call, ∀ f ∈ s.pending, f.adds ≠ some n
  | _ => True

instance (s : TimerThreads) (a : Act) : Decidable (CancelMeets s a) :=
  match a with
  | .cancel call _ => inferInstanceAs (Decidable (∀ n ∈ call, ∀ f ∈ s.pending, f.adds ≠ some n))
  | .new _ _ _ _ => isTrue trivial
  | .queueAdd _ => isTrue trivial
  | .readSequence _ => isTrue trivial
  | .addTimer _ _ _ _ => isTrue trivial
  | .queueCancel _ _ => isTrue trivial
  | .runFunctor => isTrue trivial
  | .timer _ => isTrue trivial

theorem run_queue {as : List Act} (hrun : system.Run s as s') (h : Good s) :
    Good s' ∧ ∃ bs, TimerQueue.system.Run s.queue bs s'.queue :=
  hrun.simulates (f := queue) (fun h hstep => step_good h hstep) h

/-- The timers of the cancelled calls are as `TimerCancellation` leaves them. -/
def AllDoomed (s : TimerThreads) : Prop :=
  ∀ n ∈ s.cancelled, n ≤ s.queue.numCreated ∧ s.queue.Doomed s.queue.batchOf n

theorem AllDoomed.cancelledStays (hdoomed : AllDoomed s) (h : Good s) : CancelledStays s := by
  intro n hn _
  rcases hdoomed n hn with ⟨hissued, hd⟩
  refine ⟨hd.unscheduled h.queue, ?_⟩
  intro as s₁ now s₂ bs s₃ hrun hbegin hlater
  rcases run_queue hrun h with ⟨h₁, _, hq₁⟩
  rcases hd.of_run hq₁ h.queue hissued with ⟨hinv₁, hissued₁, hd₁⟩
  -- The step of the program is the step of the timer queue.
  have hqueue : TimerQueue.system.step s₁.queue (.handleReadBegin now) s₂.queue := by
    rcases hbegin with ⟨hen, hexec⟩
    rcases exists_ok_of_bind hexec with ⟨q', hq', hs₂⟩
    cases hs₂
    exact ⟨hen.2, hq'⟩
  rcases hd₁.stale_of_begin hinv₁ hissued₁ hqueue 0 with ⟨hinv₂, hstale⟩
  have h₂ : Good s₂ := (step_good h₁ hbegin).1
  rcases run_queue hlater h₂ with ⟨_, _, hq₃⟩
  exact (TimerQueue.Stale.of_run hq₃ hinv₂ hstale).2.not_runsNext

/-- A `cancelInLoop` that comes after the `addTimerInLoop` of its call dooms the timer. -/
theorem Inv.doomed {calls : Nat → Option AddCall} {pending : List Functor} {timerId : TimerId}
    (h : Inv q calls pending) (hc : calls call = some (.returned timerId))
    (hadded : ∀ f ∈ pending, f.adds ≠ some call)
    (hstep : TimerQueue.system.step q (.cancelInLoop timerId) q') :
    q'.Doomed q'.batchOf call := by
  rcases TimerQueue.step_inv h.queue hstep with ⟨hinv, hev⟩
  have hissued : call ≤ q.numCreated := h.issued _ _ hc
  by_cases hlive : ∃ r u, q.heap r = some u ∧ u.sequence = call
  · rcases hlive with ⟨r, u, hu, hseq⟩
    have hid : timerId = ⟨r, call⟩ := h.knows _ _ hc r u hu hseq
    subst hid
    -- The timer is alive and no longer on its way.
    have hcreated : r ∉ q.created := by
      intro hin
      rcases h.covered r hin u hu with hbad | hbad
      · rw [hseq, hc] at hbad
        cases hbad
      · exact hadded _ hbad (by rw [← hseq]; rfl)
    have hthis : q.Added ⟨r, call⟩ := by
      refine ⟨hissued, ?_⟩
      intro r' u' hu' hseq'
      have hr : r' = r := h.queue.consistent.sequence_inj r' r u' u hu' hu (hseq'.trans hseq.symm)
      exact ⟨hr, hr ▸ hcreated⟩
    exact hthis.doomed h.queue h.accounted hstep
  · -- The timer is already gone.
    intro r u hu hseq
    rcases old_of_step h.queue hstep hissued hu hseq with ⟨u₀, hu₀, hseq₀⟩
    exact absurd ⟨r, u₀, hu₀, hseq₀⟩ hlive

theorem AllDoomed.step (hdoomed : AllDoomed s) (h : Good s) {a : Act} (hmeets : CancelMeets s a)
    (hstep : system.step s a s') : AllDoomed s' := by
  rcases step_good h hstep with ⟨_, bs, hqueue⟩
  -- The timers cancelled before stay doomed.
  have hold : ∀ n ∈ s.cancelled, n ≤ s'.queue.numCreated ∧ s'.queue.Doomed s'.queue.batchOf n := by
    intro n hn
    rcases hdoomed n hn with ⟨hissued, hd⟩
    exact (hd.of_run hqueue h.queue hissued).2
  cases step_cases hstep with
  | new timer when_ interval repeat_ _ => exact hold
  | queueAdd call timer _ => exact hold
  | readSequence call timer t _ _ => exact hold
  | addTimer timer when_ interval repeat_ q' t _ _ _ => exact hold
  | queueCancel call timerId _ => exact hold
  | cancel call timerId q' hcalls hcancel =>
      intro n hn
      rcases List.mem_append.1 hn with hnew | hn
      · have hcall : n ∈ call := Option.mem_toList.1 hnew
        exact ⟨le_trans (h.issued n _ (hcalls n hcall)) (TimerQueue.step_inv h.queue hcancel).2.1,
          Inv.doomed h (hcalls n hcall) (hmeets n hcall) hcancel⟩
      · exact hold n hn
  | runFunctor f rest q' hpending hq' =>
      have hall : Inv s.queue s.calls (f :: rest) := hpending ▸ h
      intro n hn
      rcases List.mem_append.1 hn with hnew | hn
      · cases f with
        | addTimerInLoop call timer => cases hnew
        | cancelInLoop call timerId =>
            have hcall : n ∈ call := Option.mem_toList.1 hnew
            have hcancel : TimerQueue.system.step s.queue (.cancelInLoop timerId) q' :=
              ⟨trivial, hq'⟩
            have hc : s.calls n = some (.returned timerId) :=
              hall.fits _ List.mem_cons_self n hcall
            -- The queue is in order: no `addTimerInLoop` of this call comes later.
            have hadded : ∀ f ∈ .cancelInLoop call timerId :: rest, f.adds ≠ some n := by
              intro f hin hf
              cases f with
              | cancelInLoop _ _ => cases hf
              | addTimerInLoop m p =>
                  cases hf
                  rcases List.mem_cons.1 hin with heq | hin
                  · cases heq
                  · exact (List.pairwise_cons.1 hall.ordered).1 _ hin n p rfl hcall
            exact ⟨le_trans (hall.issued n _ hc) (TimerQueue.step_inv h.queue hcancel).2.1,
              hall.doomed hc hadded hcancel⟩
      · exact hold n hn
  | timer a q' _ _ => exact hold

/-- In every run in which the loop thread cancels no timer before it is added, a timer that was
added and cancelled stays out. -/
theorem cancelled_stays_of_meets (hs : (system.restrict CancelMeets).Reachable s) :
    CancelledStays s := by
  have hinv : Good s ∧ AllDoomed s := by
    refine hs.invariant (I := fun s => Good s ∧ AllDoomed s) ?_ ?_
    · rintro s rfl
      refine ⟨new_good, ?_⟩
      intro n hn
      cases hn
    · rintro s a s' ⟨h, hd⟩ ⟨hmeets, hstep⟩
      exact ⟨(step_good h hstep).1, hd.step h hmeets hstep⟩
  exact hinv.2.cancelledStays hinv.1

/-- The state after the actions `as`. -/
def after (as : List Act) : TimerThreads :=
  (StepSystem.execAll exec TimerThreads.new as).toOption.getD TimerThreads.new

/-- A foreign thread adds and cancels a timer while the callback of another one cancels itself. -/
def cancelRun : List Act :=
  [.new 16 10 5 true, .addTimer 32 10 5 true, .queueAdd 1, .readSequence 1,
    .queueCancel (some 1) ⟨16, 1⟩, .timer .fire, .timer (.handleReadBegin 10),
    .timer .handleReadRun, .cancel (some 2) ⟨32, 2⟩, .timer .handleReadEnd, .runFunctor,
    .runFunctor]

theorem cancelled_stays_of_meets_twice :
    ((system.restrict CancelMeets).Reachable (after cancelRun) ∧
      (after cancelRun).cancelled = [1, 2]) ∧ CancelledStays (after cancelRun) := by
  have hs : (system.restrict CancelMeets).Reachable (after cancelRun) := by
    have hrun : (system.restrict CancelMeets).Run TimerThreads.new cancelRun (after cancelRun) := by
      rw [system, StepSystem.restrict_ofExec]
      exact StepSystem.run_of_execAll (by decide) rfl
    exact hrun.reachable (StepSystem.Reachable.init rfl)
  exact ⟨⟨hs, by decide⟩, cancelled_stays_of_meets hs⟩

/-- A foreign thread adds a timer, and the loop thread cancels it before the functor has run. -/
def overtakingRun : List Act :=
  [.new 16 10 5 true, .queueAdd 1, .readSequence 1, .cancel (some 1) ⟨16, 1⟩, .runFunctor]

/-- The cancelled timer is in both indexes, and the next `handleRead` runs its callback. -/
theorem cancel_overtakes :
    system.Reachable (after overtakingRun) ∧ ¬ CancelledStays (after overtakingRun) ∧
      system.step (after overtakingRun) (.timer (.handleReadBegin 10))
        (after (overtakingRun ++ [.timer (.handleReadBegin 10)])) ∧
      (after (overtakingRun ++ [.timer (.handleReadBegin 10)])).queue.RunsNext 1 := by
  have hrun : system.Run TimerThreads.new overtakingRun (after overtakingRun) :=
    StepSystem.run_of_execAll (by decide) rfl
  refine ⟨hrun.reachable (StepSystem.Reachable.init rfl), ?_, ⟨by decide, rfl⟩,
    ⟨_, rfl, _, rfl, _, rfl, rfl⟩⟩
  intro hstays
  have hout := (hstays 1 (by decide) (by decide)).1.1
  exact hout ⟨16, 1⟩ (by decide) rfl

/-! ## Reading the sequence number -/

/-- A call of `addTimer` that has queued its functor can read the sequence number of its own live
timer, which is then the one it returns. -/
def ReadsOwn (s : TimerThreads) : Prop :=
  ∀ n p, s.calls n = some (.queued p) →
    (∃ t, s.queue.heap p = some t ∧ t.sequence = n) ∧
      ∃ s', exec s (.readSequence n) = .ok s' ∧ s'.calls n = some (.returned ⟨p, n⟩)

/-- A step of the timer queue deletes this timer. -/
def Deletes (q : TimerQueue) (timer : Addr) (sequence : Nat) : TimerQueue.Act → Prop
  | .cancelInLoop timerId =>
      timerId = ⟨timer, sequence⟩ ∧ ActiveTimer.mk timer sequence ∈ q.activeTimers
  | .handleReadEnd =>
      ∃ f, q.frame = some f ∧ timer ∈ f.expired.map Entry.timer ∧
        ∃ t, q.heap timer = some t ∧
          (t.repeat_ = false ∨ ActiveTimer.mk timer sequence ∈ q.cancelingTimers)
  | _ => False

/-- No timer is deleted whose sequence number is still to be read. -/
def ReadMeets (s : TimerThreads) (a : Act) : Prop :=
  ∀ n p, s.calls n = some (.queued p) →
    match a with
    | .cancel _ timerId => ¬ Deletes s.queue p n (.cancelInLoop timerId)
    | .runFunctor => ∀ f ∈ s.pending.head?, ¬ Deletes s.queue p n f.act
    | .timer a => ¬ Deletes s.queue p n a
    | _ => True

/-- The timers whose sequence numbers are still to be read are alive. -/
def Unread (s : TimerThreads) : Prop :=
  ∀ n p, s.calls n = some (.queued p) → ∃ t, s.queue.heap p = some t ∧ t.sequence = n

theorem Unread.readsOwn (h : Unread s) : ReadsOwn s := by
  intro n p hc
  rcases h n p hc with ⟨t, ht, hseq⟩
  refine ⟨⟨t, ht, hseq⟩, s.setCall n (.returned ⟨p, n⟩), ?_, by simp [setCall]⟩
  simp [exec, hc, readSequence, TimerQueue.deref, ht, hseq]

/-- What is not deleted stays alive. -/
theorem alive_of_spared {n : Nat} {p : Addr} (hq : TimerQueue.Inv q) {a : TimerQueue.Act}
    (hstep : TimerQueue.system.step q a q') (hlive : ∃ t, q.heap p = some t ∧ t.sequence = n)
    (hspared : ¬ Deletes q p n a) : ∃ t, q'.heap p = some t ∧ t.sequence = n := by
  rcases hlive with ⟨t, ht, rfl⟩
  cases TimerQueue.exec_fate hq hstep.1 hstep.2 ht with
  | kept t' ht' hseq => exact ⟨t', ht', hseq⟩
  | cancelled ha hact =>
      subst ha
      exact absurd ⟨rfl, hact⟩ hspared
  | reset f ha hframe hin hstop =>
      subst ha
      exact absurd ⟨f, hframe, hin, t, ht, hstop⟩ hspared

/-- A call that is queued after another call has moved on was queued before. -/
theorem queued_of_setCall {calls : Nat → Option AddCall} {n : Nat} {p : Addr} {c : AddCall}
    (hc : ∀ p, c ≠ .queued p)
    (h : Function.update calls call (some c) n = some (.queued p)) : calls n = some (.queued p) := by
  by_cases hn : n = call
  · subst hn
    simp only [Function.update_self, Option.some.injEq] at h
    exact absurd h (hc p)
  · simpa [hn] using h

theorem Unread.step (hunread : Unread s) (h : Good s) {a : Act} (hmeets : ReadMeets s a)
    (hstep : system.step s a s') : Unread s' := by
  cases step_cases hstep with
  | new timer when_ interval repeat_ hnew =>
      intro n p hc
      exact alive_of_spared h.queue hnew (hunread n p (queued_of_setCall (by simp) hc)) id
  | queueAdd call timer hc =>
      intro n p hn
      by_cases hne : n = call
      · -- The timer of the call waits for the functor that was queued just now.
        subst hne
        simp only [setCall, Function.update_self, Option.some.injEq, AddCall.queued.injEq] at hn
        subst hn
        exact (h.knows n _ hc).2
      · exact hunread n p (by simpa [setCall, hne] using hn)
  | readSequence call timer t _ _ =>
      intro n p hn
      exact hunread n p (queued_of_setCall (by simp) hn)
  | addTimer timer when_ interval repeat_ q₁ t hnew hq₁ _ =>
      have hqueued := (h.newTimer hnew).queueAdd_front (Function.update_self _ _ _)
      have hadd := (show TimerQueue.system.step _ _ q₁ from ⟨hqueued.enabled, hq₁⟩)
      intro n p hn
      have hlive := hunread n p (queued_of_setCall (by simp) hn)
      exact alive_of_spared hqueued.queue hadd (alive_of_spared h.queue hnew hlive id) id
  | queueCancel call timerId _ => exact hunread
  | cancel call timerId q' _ hcancel =>
      intro n p hc
      exact alive_of_spared h.queue hcancel (hunread n p hc) (hmeets n p hc)
  | runFunctor f rest q' hpending hq' =>
      have hall : Inv s.queue s.calls (f :: rest) := hpending ▸ h
      have hrun : TimerQueue.system.step s.queue f.act q' := ⟨hall.enabled, hq'⟩
      intro n p hc
      refine alive_of_spared h.queue hrun (hunread n p hc) (hmeets n p hc f ?_)
      simp [hpending]
  | timer a q' _ htimer =>
      intro n p hc
      exact alive_of_spared h.queue htimer (hunread n p hc) (hmeets n p hc)

/-- In every run in which no timer is deleted before its number is read, `addTimer` reads the
number of its own live timer. -/
theorem reads_own_of_meets (hs : (system.restrict ReadMeets).Reachable s) : ReadsOwn s := by
  have hinv : Good s ∧ Unread s := by
    refine hs.invariant (I := fun s => Good s ∧ Unread s) ?_ ?_
    · rintro s rfl
      refine ⟨new_good, ?_⟩
      intro n p hc
      cases hc
    · rintro s a s' ⟨h, hu⟩ ⟨hmeets, hstep⟩
      exact ⟨(step_good h hstep).1, hu.step h hmeets hstep⟩
  exact hinv.2.readsOwn

/-- A repeating timer expires before its call has read the sequence number. -/
def expiringRun : List Act :=
  [.new 16 10 5 true, .queueAdd 1, .runFunctor, .timer (.handleReadBegin 10),
    .timer .handleReadRun, .timer .handleReadEnd]

theorem reads_own_of_meets_repeat :
    (system.restrict ReadMeets).Reachable (after expiringRun) ∧ ReadsOwn (after expiringRun) := by
  have hspared : ReadMeets (after (expiringRun.take 5)) (.timer .handleReadEnd) := by
    rintro n p hc ⟨f, _, _, t, ht, hstop⟩
    have hn : n = 1 := by
      by_contra hn
      have hnone : (after (expiringRun.take 5)).calls n = none := by
        show Function.update (Function.update (fun _ => none) 1 _) 1 _ n = none
        simp [hn]
      rw [hnone] at hc
      cases hc
    subst hn
    cases hc
    cases ht
    -- It repeats, and nothing was cancelled.
    rcases hstop with hone | hin
    · cases hone
    · exact absurd hin (by decide)
  have halong : StepSystem.EnabledAlong (fun s a => ReadMeets s a ∧ Enabled s a) exec
      TimerThreads.new expiringRun := by
    refine And.intro ⟨fun _ _ _ => trivial, by decide⟩ (And.intro ⟨fun _ _ _ => trivial, ?_⟩
      (And.intro ⟨?_, ?_⟩ (And.intro ⟨fun _ _ _ => id, ?_⟩ (And.intro ⟨fun _ _ _ => id, ?_⟩
      (And.intro ⟨hspared, ?_⟩ trivial)))))
    · exact ⟨16, rfl⟩
    · intro n p _ f hf
      cases hf
      exact id
    · exact ⟨by decide, rfl⟩
    · exact ⟨rfl, rfl⟩
    · exact ⟨rfl, by decide⟩
    · exact ⟨rfl, by decide⟩
  have hs : (system.restrict ReadMeets).Reachable (after expiringRun) := by
    rw [system, StepSystem.restrict_ofExec]
    exact (StepSystem.run_of_execAll halong rfl).reachable (StepSystem.Reachable.init rfl)
  exact ⟨hs, reads_own_of_meets hs⟩

/-- A one-shot timer runs and is deleted before its call has read the sequence number. -/
def deletedRun : List Act :=
  [.new 16 10 0 false, .queueAdd 1, .runFunctor, .timer (.handleReadBegin 10),
    .timer .handleReadRun, .timer .handleReadEnd]

/-- The call reads a deleted timer; if the address has been taken over by then, it returns the
`TimerId` of another timer. -/
theorem read_after_delete :
    (system.Reachable (after deletedRun) ∧ ¬ ReadsOwn (after deletedRun)) ∧
      Enabled (after deletedRun) (.readSequence 1) ∧
      exec (after deletedRun) (.readSequence 1) = .error .useAfterFree ∧
      (after (deletedRun ++ [.new 16 20 0 false, .readSequence 1])).calls 1 =
        some (.returned ⟨16, 2⟩) := by
  have hrun : system.Run TimerThreads.new deletedRun (after deletedRun) :=
    StepSystem.run_of_execAll (by decide) rfl
  refine ⟨⟨hrun.reachable (StepSystem.Reachable.init rfl), ?_⟩, ⟨16, rfl⟩, rfl, rfl⟩
  intro h
  rcases (h 1 16 rfl).1 with ⟨t, ht, _⟩
  cases ht

end TimerThreads

end Net
end Muduo
