import Muduo.Net.TimerQueueInvariant

/-!
# TimerAlarm — when a pending timer has an alarm

`Alarmed q` says that the timerfd will wake the loop no later than the earliest pending timer.
`insert` and `cancelInLoop` keep it, but `reset` sets the timerfd inside its loop over the
batch: a `handleRead` that finds no expired timer has read the timerfd and does not set it
again, and neither does one whose earliest remaining expiration is not after the epoch.
`lost_alarm` is a run into the first case.  `alarmed_of_meets` shows that these are the only
ways to lose the alarm: every run whose `handleRead` calls meet `Meets` keeps it.
-/

namespace Muduo
namespace Net
namespace TimerQueue

variable {q q' : TimerQueue} {p : Addr} {t : Timer} {e e' : Entry}

/-! ## Alarms -/

/-- The timerfd wakes the loop no later than the expiration of `e`. -/
def Covers (q : TimerQueue) (e : Entry) : Prop :=
  q.timerfd = .readable ∨ ∃ expiration, q.timerfd = .armed expiration ∧ expiration ≤ e.expiration

/-- The alarm for the earliest pending timer is set. -/
def Alarmed (q : TimerQueue) : Prop :=
  ∀ e ∈ q.timers.first?, Covers q e

/-- The same, only if that timer expires at `limit` or before. -/
def AlarmedUpTo (limit : Int) (q : TimerQueue) : Prop :=
  ∀ e ∈ q.timers.first?, e.expiration ≤ limit → Covers q e

theorem Alarmed.upTo (h : Alarmed q) (limit : Int) : AlarmedUpTo limit q :=
  fun e he _ => h e he

theorem Covers.mono (h : Covers q e) (hle : e.expiration ≤ e'.expiration) : Covers q e' := by
  rcases h with h | ⟨expiration, h, hexp⟩
  · exact Or.inl h
  · exact Or.inr ⟨expiration, h, le_trans hexp hle⟩

theorem Covers.congr (h : Covers q e) (hfd : q'.timerfd = q.timerfd) : Covers q' e := by
  simpa [Covers, hfd] using h

/-- The queue is `Alarmed` exactly when it is alarmed up to every limit. -/
theorem alarmed_iff : Alarmed q ↔ ∀ limit, AlarmedUpTo limit q := by
  constructor
  · intro h limit
    exact h.upTo limit
  · intro h e he
    exact h e.expiration e he (le_refl _)

/-! ## The operations outside `handleRead` -/

/-- Removing timers moves the earliest expiration to a later time. -/
theorem AlarmedUpTo.subset {limit : Int} (h : AlarmedUpTo limit q)
    (hfd : q'.timerfd = q.timerfd) (hsub : ∀ e ∈ q'.timers, e ∈ q.timers) :
    AlarmedUpTo limit q' := by
  intro e he hlimit
  have hmem := hsub e (OrdSet.first?_eq_some_iff.1 he).1
  rcases OrdSet.first?_isSome_of_mem hmem with ⟨first, hfirst⟩
  have hle := Entry.expiration_le_of_le ((OrdSet.first?_eq_some_iff.1 hfirst).2 e hmem)
  exact ((h first hfirst (le_trans hle hlimit)).mono hle).congr hfd

theorem AlarmedUpTo.added {limit : Int} (h : AlarmedUpTo limit q) :
    AlarmedUpTo limit (q.added p t) := by
  unfold TimerQueue.added
  cases hearliest : q.earliestChanged t.expiration with
  | true =>
      -- The new timer is earlier than every old one, and the timerfd is set for it.
      intro e he _
      refine Or.inr ⟨t.expiration, rfl, ?_⟩
      rcases OrdSet.mem_insert.1 (OrdSet.first?_eq_some_iff.1 he).1 with rfl | hold
      · exact le_refl _
      · rcases OrdSet.first?_isSome_of_mem hold with ⟨first, hfirst⟩
        have hle := Entry.expiration_le_of_le ((OrdSet.first?_eq_some_iff.1 hfirst).2 e hold)
        simp only [earliestChanged, hfirst, decide_eq_true_eq] at hearliest
        omega
  | false =>
      -- The earliest old timer is still earliest, or as early as the new one.
      intro e he hlimit
      cases hfirst : q.timers.first? with
      | none => simp [earliestChanged, hfirst] at hearliest
      | some first =>
          simp only [earliestChanged, hfirst, decide_eq_false_iff_not, not_lt] at hearliest
          have hle : first.expiration ≤ e.expiration := by
            rcases OrdSet.mem_insert.1 (OrdSet.first?_eq_some_iff.1 he).1 with rfl | hold
            · exact hearliest
            · exact Entry.expiration_le_of_le ((OrdSet.first?_eq_some_iff.1 hfirst).2 e hold)
          exact ((h first hfirst (le_trans hle hlimit)).mono hle).congr rfl

theorem AlarmedUpTo.cancel {limit : Int} {timerId : TimerId} (h : AlarmedUpTo limit q)
    (hspec : CancelSpec q timerId q') : AlarmedUpTo limit q' := by
  cases hspec with
  -- `cancelInLoop` does not set the timerfd; it may now expire too early, never too late.
  | found t _ _ _ => exact h.subset rfl fun e he => (OrdSet.mem_erase.1 he).1
  | recorded _ _ => exact h.subset rfl fun e he => he
  | ignored _ _ => exact h

theorem AlarmedUpTo.fire {limit : Int} (h : AlarmedUpTo limit q) : AlarmedUpTo limit q.fire := by
  unfold TimerQueue.fire
  split
  · intro e _ _
    exact Or.inl rfl
  · exact h

/-! ## The invariant of a run -/

/-- The side condition on `handleRead` at the time `now`: if timers are pending, one of them
has expired; and no expiration that `reset` may find earliest lies at the epoch or before. -/
def Meets (q : TimerQueue) : Act → Prop
  | .handleReadBegin now =>
      (∀ e ∈ q.timers.first?, e.expiration ≤ now) ∧
      (∀ e ∈ q.timers, now < e.expiration → invalidTime < e.expiration) ∧
      (∀ e ∈ q.timers, e.expiration ≤ now → ∀ t ∈ q.heap e.timer,
        t.repeat_ = true → invalidTime < now + t.interval)
  | _ => True

instance (q : TimerQueue) (a : Act) : Decidable (Meets q a) :=
  match a with
  | .newTimer _ _ _ _ => isTrue trivial
  | .addTimerInLoop _ => isTrue trivial
  | .cancelInLoop _ => isTrue trivial
  | .fire => isTrue trivial
  | .handleReadBegin _ => inferInstanceAs (Decidable (_ ∧ _ ∧ _))
  | .handleReadRun => isTrue trivial
  | .handleReadEnd => isTrue trivial

/-- Every timer of the batch that repeats is started again after the epoch. -/
def LateRestarts (q : TimerQueue) (now : Int) (expired : List Entry) : Prop :=
  ∀ it ∈ expired, ∀ t, q.heap it.timer = some t → t.repeat_ = true → invalidTime < now + t.interval

/-- What holds between two steps: outside `handleRead` the alarm is set; inside, it is set
unless `reset` is going to set it. -/
def AlarmInv (q : TimerQueue) : Prop :=
  match q.frame with
  | none => Alarmed q
  | some f =>
      (f.expired = [] → Alarmed q) ∧ AlarmedUpTo invalidTime q ∧ LateRestarts q f.now f.expired

/-- The steps that leave the frame and the batch alone keep `AlarmInv` if they keep the
alarm up to every limit. -/
theorem AlarmInv.step (h : AlarmInv q) (hframe : q'.frame = q.frame)
    (halarm : ∀ limit, AlarmedUpTo limit q → AlarmedUpTo limit q')
    (hheap : ∀ f ∈ q.frame, ∀ it ∈ f.expired, ∀ t, q'.heap it.timer = some t →
      q.heap it.timer = some t) : AlarmInv q' := by
  have hall : Alarmed q → Alarmed q' := by
    intro ha
    exact alarmed_iff.2 fun limit => halarm limit (ha.upTo limit)
  unfold AlarmInv at h ⊢
  rw [hframe]
  cases hf : q.frame with
  | none =>
      rw [hf] at h
      exact hall h
  | some f =>
      rw [hf] at h
      refine ⟨fun hnil => hall (h.1 hnil), halarm _ h.2.1, ?_⟩
      intro it hit t ht hrep
      exact h.2.2 it hit t (hheap f hf it hit t ht) hrep

theorem handleReadBegin_alarm (h : Inv q) {now : Int} (hmeets : Meets q (.handleReadBegin now))
    (active : OrdSet ActiveTimer) : AlarmInv (q.begun now active) := by
  rcases hmeets with ⟨hdue, hepoch, hrestart⟩
  have hcons := h.consistent
  refine ⟨?_, ?_, ?_⟩
  · -- Nothing has expired, so nothing is pending.
    intro hnil e he
    have hmem := (hcons.mem_from_sentry.1 (OrdSet.first?_eq_some_iff.1 he).1).1
    rcases OrdSet.first?_isSome_of_mem hmem with ⟨first, hfirst⟩
    have hexpired : first ∈ q.expiredAt now :=
      hcons.mem_expiredAt.2 ⟨(OrdSet.first?_eq_some_iff.1 hfirst).1, hdue first hfirst⟩
    rw [show q.expiredAt now = [] from hnil] at hexpired
    cases hexpired
  · -- What remains lies after the epoch, so nothing is to be covered up to the epoch.
    intro e he hlimit
    rcases hcons.mem_from_sentry.1 (OrdSet.first?_eq_some_iff.1 he).1 with ⟨hmem, hlate⟩
    exact absurd (hepoch e hmem hlate) (not_lt_of_ge hlimit)
  · intro it hit t ht hrep
    rcases hcons.mem_expiredAt.1 hit with ⟨hmem, hexp⟩
    exact hrestart it hmem hexp t ht hrep

/-- One iteration of `reset` sets the alarm. -/
theorem ResetSpec.alarmed {now : Int} {it : Entry} {expired : List Entry} (before : Int)
    (hspec : ResetSpec q now it q') (hearly : AlarmedUpTo invalidTime q)
    (hlate : LateRestarts q now (it :: expired)) :
    Alarmed (q'.rearmed (q'.nextExpire before)) := by
  intro e he
  have hfirst : q'.timers.first? = some e := by
    simpa using he
  have hnext : q'.nextExpire before = e.expiration := by simp [nextExpire, hfirst]
  rw [hnext]
  by_cases hpos : invalidTime < e.expiration
  · -- The guard `nextExpire > invalid` holds and the timerfd is set for `e`.
    refine Or.inr ⟨e.expiration, ?_, le_refl _⟩
    simp [TimerQueue.rearmed, hpos, resetTimerfd]
  · -- The earliest entry is not after the epoch, so it is not a restart of this batch.
    have hle : e.expiration ≤ invalidTime := not_lt.1 hpos
    have hold : e ∈ q.timers ∧ q'.timerfd = q.timerfd := by
      have hmem := (OrdSet.first?_eq_some_iff.1 hfirst).1
      cases hspec with
      | restarted t ht hrep _ =>
          refine ⟨?_, rfl⟩
          rcases OrdSet.mem_insert.1 hmem with rfl | hmem
          · have hnew := hlate it List.mem_cons_self t ht hrep
            simp only [Timer.restart, hrep, if_true] at hle
            exact absurd hnew (not_lt_of_ge hle)
          · exact hmem
      | deleted t _ _ => exact ⟨hmem, rfl⟩
    have hcover : Covers q e := by
      rcases OrdSet.first?_isSome_of_mem hold.1 with ⟨first, hfirst₀⟩
      have hfle := Entry.expiration_le_of_le
        ((OrdSet.first?_eq_some_iff.1 hfirst₀).2 e hold.1)
      exact (hearly first hfirst₀ (le_trans hfle hle)).mono hfle
    have hsame : q'.rearmed e.expiration = q' := by simp [TimerQueue.rearmed, hpos]
    rw [hsame]
    exact hcover.congr hold.2

theorem ResetSpec.lateRestarts {now : Int} {it : Entry} {expired : List Entry} (next : Int)
    (hspec : ResetSpec q now it q') (h : Consistent q (it.timer :: expired.map Entry.timer))
    (hlate : LateRestarts q now (it :: expired)) :
    LateRestarts (q'.rearmed next) now expired := by
  intro it' hit' t ht
  rw [rearmed_heap, hspec.heap_of_ne (h.timer_ne_head it' hit')] at ht
  exact hlate it' (List.mem_cons_of_mem _ hit') t ht

theorem handleReadEnd_alarm (h : Inv q) (ha : AlarmInv q) {f : Frame}
    (hframe : q.frame = some f) (hend : q.handleReadEnd = .ok q') : Alarmed q' := by
  simp only [AlarmInv, hframe] at ha
  rcases ha with ⟨hempty, hearly, hlate⟩
  rw [handleReadEnd_eq hframe] at hend
  by_cases hnil : f.expired = []
  · rw [hnil] at hend
    cases hend
    exact hempty hnil
  · -- The batch is not empty, so the last iteration of `reset` sets the alarm.
    rcases resetLoop_rule f.now
      (fun expired q₁ => LateRestarts q₁ f.now expired ∧ AlarmedUpTo invalidTime q₁ ∧
        (expired = [] → Alarmed q₁))
      (by
        intro it expired q₁ q₂ before hP hcons hspec
        have halarm := hspec.alarmed before hP.2.1 hP.1
        exact ⟨hspec.lateRestarts _ hcons hP.1, halarm.upTo _, fun _ => halarm⟩)
      invalidTime (ended_consistent h hframe) ⟨hlate, hearly, fun hn => absurd hn hnil⟩ with
      ⟨q₂, hloop, _, _, _, halarm⟩
    rw [hloop] at hend
    cases hend
    exact halarm rfl

theorem exec_alarm (h : Inv q) (ha : AlarmInv q) {a : Act} (hen : Enabled q a)
    (hmeets : Meets q a) (hexec : exec q a = .ok q') : AlarmInv q' := by
  cases step_cases h hen hexec with
  | newTimer p when_ interval repeat_ hnone =>
      refine ha.step rfl (fun limit hl => hl.subset rfl fun e he => he) ?_
      intro f hf it hit t ht
      -- The timers of the batch are alive, so the new one has another address.
      have hne : it.timer ≠ p := by
        rintro rfl
        have hcons := h.consistent
        simp only [batchOf, show q.frame = some f from hf] at hcons
        rcases hcons.held_live it.timer
          (List.mem_append_right _ (List.mem_map_of_mem hit)) with ⟨t', ht'⟩
        rw [hnone] at ht'
        cases ht'
      simpa [TimerQueue.newTimer, hne] using ht
  | addTimerInLoop p t _ _ =>
      refine ha.step (added_frame q p t) (fun limit hl => hl.added) ?_
      intro f _ it _ t' ht'
      rwa [added_heap] at ht'
  | cancelInLoop timerId hspec =>
      refine ha.step ?_ (fun limit hl => hl.cancel hspec) ?_
      · cases hspec <;> rfl
      · intro f hf it hit t ht
        cases hspec with
        | found t' _ _ _ =>
            by_cases hp : it.timer = timerId.timer
            · simp [cancelled, hp] at ht
            · simpa [cancelled, hp] using ht
        | recorded _ _ => exact ht
        | ignored _ _ => exact ht
  | fire =>
      refine ha.step (fire_frame q) (fun limit hl => hl.fire) ?_
      intro f _ it _ t ht
      rwa [fire_heap] at ht
  | handleReadBegin now active _ _ => exact handleReadBegin_alarm h hmeets active
  | handleReadRun hframe =>
      simp only [AlarmInv, hframe] at ha
      exact ha
  | handleReadEnd f hframe _ =>
      have hend : q.handleReadEnd = .ok q' := hexec
      rcases handleReadEnd_ok h hframe with ⟨q₁, hq₁, hnone, _⟩
      rw [hq₁] at hend
      cases hend
      simpa only [AlarmInv, hnone] using handleReadEnd_alarm h ha hframe hq₁

/-! ## Runs -/

/-- In every run whose `handleRead` calls meet `Meets`, the alarm for the earliest pending
timer is set in every state outside `handleRead`. -/
theorem alarmed_of_meets (hq : (system.restrict Meets).Reachable q) (hframe : q.frame = none) :
    Alarmed q := by
  have hinv : Inv q ∧ AlarmInv q := by
    refine hq.invariant (I := fun q => Inv q ∧ AlarmInv q) ?_ ?_
    · rintro s rfl
      refine ⟨new_inv, ?_⟩
      intro e he
      cases he
    · rintro s a s' ⟨hs, hsa⟩ ⟨hmeets, hen, hexec⟩
      rcases exec_ok hs hen with ⟨s₁, hs₁, hinv₁, _⟩
      have halarm := exec_alarm hs hsa hen hmeets hexec
      rw [hexec] at hs₁
      cases hs₁
      exact ⟨hinv₁, halarm⟩
  have halarm := hinv.2
  simpa only [AlarmInv, hframe] using halarm

/-- A timer expires at 10 and is started again for 15, while another one waits until 20. -/
def repeatRun : List Act :=
  [.newTimer 16 10 5 true, .addTimerInLoop 16, .newTimer 32 20 0 false, .addTimerInLoop 32, .fire,
    .handleReadBegin 10, .handleReadRun, .handleReadEnd]

def repeatState : TimerQueue :=
  (StepSystem.execAll exec TimerQueue.new repeatRun).toOption.getD TimerQueue.new

theorem alarmed_of_meets_repeat :
    (system.restrict Meets).Reachable repeatState ∧ repeatState.frame = none ∧
      Alarmed repeatState := by
  have hrun : (system.restrict Meets).Run TimerQueue.new repeatRun repeatState := by
    rw [system, StepSystem.restrict_ofExec]
    exact StepSystem.run_of_execAll (by decide) rfl
  have hreach := hrun.reachable (StepSystem.Reachable.init rfl)
  exact ⟨hreach, rfl, alarmed_of_meets hreach rfl⟩

/-- Two timers; the earlier one is cancelled, but the timerfd still expires for it. -/
def lostRun : List Act :=
  [.newTimer 16 10 0 false, .addTimerInLoop 16, .newTimer 32 20 0 false, .addTimerInLoop 32,
    .cancelInLoop ⟨16, 1⟩, .fire, .handleReadBegin 10, .handleReadEnd]

def lostState : TimerQueue :=
  (StepSystem.execAll exec TimerQueue.new lostRun).toOption.getD TimerQueue.new

/-- The timer due at 20 is left pending with the timerfd not set. -/
theorem lost_alarm :
    ¬ ∀ q, system.Reachable q → q.frame = none → Alarmed q := by
  intro h
  have hrun : system.Run TimerQueue.new lostRun lostState :=
    StepSystem.run_of_execAll (by decide) rfl
  have hreach : system.Reachable lostState := hrun.reachable (StepSystem.Reachable.init rfl)
  have hcover : Covers lostState ⟨20, 32⟩ := h lostState hreach rfl ⟨20, 32⟩ rfl
  rcases hcover with hreadable | ⟨_, harmed, _⟩
  · cases hreadable
  · cases harmed

end TimerQueue

end Net
end Muduo
