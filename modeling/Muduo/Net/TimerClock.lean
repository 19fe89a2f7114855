import Muduo.Net.TimerAlarm

/-!
# TimerClock — how late a timer can be

`TimerAlarm` says for which expiration the timerfd is set.  Here the clock runs as well:
`howMuchTimeFromNow` turns an expiration into the `timespec` that is handed to the kernel, which
makes the timerfd readable when that time is over, or up to `slack` later.  All times are in
nanoseconds, and `system_clock` and the clock of the timerfd go alike.

The `timespec` is cut to microseconds and never below a hundred of them.  So a timer is overdue
by that much at most when the timerfd becomes readable (`overdue_readable`).  But the timerfd may
also be a little early, and a `handleRead` within the same microsecond finds nothing to run and
does not set it again (`lost_by_truncation`).
-/

namespace Muduo
namespace Net

/-- `struct timespec`. -/
structure Timespec where
  tv_sec : Int
  tv_nsec : Int
  deriving DecidableEq, Repr

namespace Timespec

def nanoseconds (ts : Timespec) : Int :=
  ts.tv_sec * 1000000000 + ts.tv_nsec

end Timespec

/-- The relative time for an expiration `when_`, at the time `now`. -/
def howMuchTimeFromNow (when_ now : Int) : Timespec :=
  -- `duration_cast<microseconds>`
  let us := (when_ - now).tdiv 1000
  let us := if us < 100 then 100 else us
  ⟨us.tdiv 1000000, us.tmod 1000000 * 1000⟩

section HowMuch

variable (when_ now : Int)

/-- The microseconds that `howMuchTimeFromNow` splits. -/
theorem howMuchTimeFromNow_split :
    ∃ us : Int, 100 ≤ us ∧ us * 1000 ≤ max (when_ - now) 100000 ∧ when_ - now < us * 1000 + 1000 ∧
      howMuchTimeFromNow when_ now = ⟨us / 1000000, us % 1000000 * 1000⟩ := by
  by_cases hsoon : (when_ - now).tdiv 1000 < 100
  · refine ⟨100, by omega, by omega, ?_, ?_⟩
    · by_contra hlate
      have hcut : (when_ - now).tdiv 1000 = (when_ - now) / 1000 :=
        Int.tdiv_eq_ediv_of_nonneg (by omega)
      omega
    · simp [howMuchTimeFromNow, hsoon]
  · have hpos : 0 ≤ when_ - now := by
      by_contra hneg
      have hcut : (when_ - now).tdiv 1000 = -(now - when_).tdiv 1000 := by
        rw [← Int.neg_tdiv, Int.neg_sub]
      have hnonneg : 0 ≤ (now - when_).tdiv 1000 := Int.tdiv_nonneg (by omega) (by omega)
      omega
    have hcut : (when_ - now).tdiv 1000 = (when_ - now) / 1000 := Int.tdiv_eq_ediv_of_nonneg hpos
    refine ⟨(when_ - now) / 1000, by omega, by omega, by omega, ?_⟩
    simp only [howMuchTimeFromNow, if_neg hsoon]
    rw [hcut, Int.tdiv_eq_ediv_of_nonneg (by omega), Int.tmod_eq_emod_of_nonneg (by omega)]

/-- It expires a microsecond too early at most, and too late only for what is due within the next
hundred of them. -/
theorem howMuchTimeFromNow_bounds :
    100000 ≤ (howMuchTimeFromNow when_ now).nanoseconds ∧
      (howMuchTimeFromNow when_ now).nanoseconds ≤ max (when_ - now) 100000 ∧
      when_ - now < (howMuchTimeFromNow when_ now).nanoseconds + 1000 := by
  obtain ⟨us, hmin, hmax, hcut, heq⟩ := howMuchTimeFromNow_split when_ now
  have hns : (howMuchTimeFromNow when_ now).nanoseconds = us * 1000 := by
    rw [heq]
    show us / 1000000 * 1000000000 + us % 1000000 * 1000 = us * 1000
    omega
  rw [hns]
  omega

end HowMuch

def Timerfd.isArmed : Timerfd → Bool
  | .armed _ => true
  | _ => false

namespace TimerQueue

variable {q q' : TimerQueue} {a : Act}

/-! ## The last `resetTimerfd` of a step -/

def withTimerfd (q : TimerQueue) (timerfd : Timerfd) : TimerQueue :=
  { q with timerfd := timerfd }

/-- The expiration of the last `resetTimerfd` of a step, if it calls it: started with the timerfd
not set, the step leaves it set for that expiration. -/
def lastReset (q : TimerQueue) (a : Act) : Option Int :=
  match exec (q.withTimerfd .disarmed) a with
  | .ok { timerfd := .armed expiration, .. } => some expiration
  | _ => none

/-- The timerfd after a step that has called `resetTimerfd` last for `set?`. -/
def setFrom (timerfd : Timerfd) (set? : Option Int) : Timerfd :=
  set?.elim timerfd .armed

theorem Consistent.withTimerfd {batch : List Addr} (h : Consistent q batch) (timerfd : Timerfd) :
    Consistent (q.withTimerfd timerfd) batch :=
  h.congr rfl rfl rfl rfl rfl

theorem Inv.withTimerfd (h : Inv q) (timerfd : Timerfd) : Inv (q.withTimerfd timerfd) :=
  ⟨h.consistent.congr rfl rfl rfl rfl rfl, h.calling, h.rest⟩

theorem Consistent.active_of_mem {batch : List Addr} {p : Addr} {t : Timer}
    (h : Consistent q batch) (ht : q.heap p = some t) (hmem : Entry.mk t.expiration p ∈ q.timers) :
    ActiveTimer.mk p t.sequence ∈ q.activeTimers := by
  obtain ⟨t', ht', _, hact⟩ := h.timers_live _ hmem
  cases ht.symm.trans ht'
  exact hact

/-- `cancelInLoop` neither reads nor sets the timerfd. -/
theorem CancelSpec.withTimerfd {batch : List Addr} {timerId : TimerId} {timerfd : Timerfd}
    {q₁ q₂ : TimerQueue} (h₁ : CancelSpec q timerId q₁) (h : Consistent q batch)
    (h₂ : CancelSpec (q.withTimerfd timerfd) timerId q₂) : q₂ = q₁.withTimerfd timerfd := by
  cases h₁ with
  | found t ht hseq hmem =>
      have hact := h.active_of_mem ht hmem
      rw [hseq] at hact
      cases h₂ with
      | found t' ht' _ _ =>
          cases ht.symm.trans ht'
          rfl
      | recorded hnot _ => exact absurd hact hnot
      | ignored hnot _ => exact absurd hact hnot
  | recorded hnot hcalling =>
      cases h₂ with
      | found t' ht' hseq hmem =>
          have hact := h.active_of_mem ht' hmem
          rw [hseq] at hact
          exact absurd hact hnot
      | recorded _ _ => rfl
      | ignored _ hnone => cases hcalling.symm.trans hnone
  | ignored hnot hnone =>
      cases h₂ with
      | found t' ht' hseq hmem =>
          have hact := h.active_of_mem ht' hmem
          rw [hseq] at hact
          exact absurd hact hnot
      | recorded _ hcalling => cases hcalling.symm.trans hnone
      | ignored _ _ => rfl

/-- One iteration of `reset` neither reads nor sets the timerfd. -/
theorem ResetSpec.withTimerfd {now : Int} {it : Entry} {timerfd : Timerfd} {q₁ q₂ : TimerQueue}
    (h₁ : ResetSpec q now it q₁) (h₂ : ResetSpec (q.withTimerfd timerfd) now it q₂) :
    q₂ = q₁.withTimerfd timerfd := by
  cases h₁ with
  | restarted t ht hrep hcan =>
      cases h₂ with
      | restarted t' ht' _ _ =>
          cases ht.symm.trans ht'
          rfl
      | deleted t' ht' hstop =>
          cases ht.symm.trans ht'
          rcases hstop with hstop | hstop
          · rw [hstop] at hrep
            cases hrep
          · exact absurd hstop hcan
  | deleted t ht hstop =>
      cases h₂ with
      | restarted t' ht' hrep hcan =>
          cases ht.symm.trans ht'
          rcases hstop with hstop | hstop
          · rw [hstop] at hrep
            cases hrep
          · exact absurd hstop hcan
      | deleted t' ht' _ => rfl

theorem rearmed_withTimerfd (q : TimerQueue) (timerfd : Timerfd) (next : Int) :
    (q.withTimerfd timerfd).rearmed next =
      q.withTimerfd (setFrom timerfd (if invalidTime < next then some next else none)) := by
  unfold rearmed
  split <;> rfl

/-- Whatever the timerfd was before, `reset` sets it last for the same expiration, or leaves it. -/
theorem resetLoop_withTimerfd (now : Int) {expired : List Entry} :
    ∀ {q : TimerQueue} (before : Int), Consistent q (expired.map Entry.timer) →
      ∃ (q' : TimerQueue) (set? : Option Int), ∀ timerfd,
        resetLoop now expired before (q.withTimerfd timerfd) =
          .ok (q'.withTimerfd (setFrom timerfd set?)) := by
  induction expired with
  | nil =>
      intro q before _
      exact ⟨q, none, fun timerfd => rfl⟩
  | cons it expired ih =>
      intro q before h
      obtain ⟨q₁, _, hspec, hcons⟩ := resetTimer_ok h now
      obtain ⟨q', set?, hloop⟩ := ih (q₁.nextExpire before) hcons
      refine ⟨q', set?.or (if invalidTime < q₁.nextExpire before then some (q₁.nextExpire before)
        else none), fun timerfd => ?_⟩
      obtain ⟨q₂, hreset, hspec₂, hcons₂⟩ := resetTimer_ok (h.withTimerfd timerfd) now
      cases hspec.withTimerfd hspec₂
      rw [resetLoop_cons hreset hcons₂, rearmed_withTimerfd]
      refine (hloop _).trans ?_
      cases set? <;> rfl

/-- The steps that may call `resetTimerfd`, and those that have nothing to do with the timerfd. -/
theorem exec_withTimerfd (h : Inv q) (hen : Enabled q a) (hfire : a ≠ .fire)
    (hbegin : ∀ now, a ≠ .handleReadBegin now) :
    ∃ q' : TimerQueue, ∀ timerfd, exec (q.withTimerfd timerfd) a =
      .ok (q'.withTimerfd (setFrom timerfd (q.lastReset a))) := by
  have key : ∃ (q' : TimerQueue) (set? : Option Int), ∀ timerfd,
      exec (q.withTimerfd timerfd) a = .ok (q'.withTimerfd (setFrom timerfd set?)) := by
    cases a with
    | newTimer p when_ interval repeat_ =>
        exact ⟨q.newTimer p when_ interval repeat_, none, fun timerfd => rfl⟩
    | addTimerInLoop p =>
        obtain ⟨t, ht⟩ := h.consistent.held_live p (List.mem_append_left _ hen)
        refine ⟨q.added p t, if q.earliestChanged t.expiration then some t.expiration else none,
          fun timerfd => ?_⟩
        refine (addTimerInLoop_ok (h.withTimerfd timerfd).consistent hen ht).1.trans ?_
        have hsame : (q.withTimerfd timerfd).earliestChanged t.expiration =
            q.earliestChanged t.expiration := rfl
        unfold added
        rw [hsame]
        split <;> rfl
    | cancelInLoop timerId =>
        obtain ⟨q₁, _, hspec, _⟩ := cancelInLoop_ok h.consistent timerId
        refine ⟨q₁, none, fun timerfd => ?_⟩
        obtain ⟨q₂, hq₂, hspec₂, _⟩ := cancelInLoop_ok (h.withTimerfd timerfd).consistent timerId
        cases hspec.withTimerfd h.consistent hspec₂
        exact hq₂
    | fire => exact absurd rfl hfire
    | handleReadBegin now => exact absurd rfl (hbegin now)
    | handleReadRun =>
        obtain ⟨⟨now, expired, rest⟩, hframe, hrest⟩ := hen
        cases rest with
        | nil => exact absurd rfl hrest
        | cons it rest =>
            exact ⟨{ q with frame := some ⟨now, expired, rest⟩ }, none, fun timerfd =>
              (handleReadRun_ok (h.withTimerfd timerfd) hframe).1⟩
    | handleReadEnd =>
        obtain ⟨f, hframe, _⟩ := hen
        obtain ⟨q', set?, hloop⟩ :=
          resetLoop_withTimerfd f.now invalidTime (ended_consistent h hframe)
        refine ⟨q', set?, fun timerfd => ?_⟩
        refine (handleReadEnd_eq (q := q.withTimerfd timerfd) hframe).trans ?_
        exact hloop timerfd
  obtain ⟨q', set?, hexec⟩ := key
  have hlast : q.lastReset a = set? := by
    rw [lastReset, hexec]
    cases set? <;> rfl
  refine ⟨q', fun timerfd => ?_⟩
  rw [hlast, hexec]

theorem lastReset_none (hexec : exec (q.withTimerfd .disarmed) a = .ok q')
    (hfd : q'.timerfd = .disarmed) : q.lastReset a = none := by
  rw [lastReset, hexec]
  split
  · rename_i heq
    cases heq
    cases hfd
  · rfl

theorem lastReset_cancelInLoop (h : Inv q) (timerId : TimerId) :
    q.lastReset (.cancelInLoop timerId) = none := by
  obtain ⟨q₁, hq₁, hspec, _⟩ := cancelInLoop_ok (h.withTimerfd .disarmed).consistent timerId
  refine lastReset_none hq₁ ?_
  cases hspec <;> rfl

theorem lastReset_handleReadBegin (h : Inv q) (hframe : q.frame = none) (now : Int) :
    q.lastReset (.handleReadBegin now) = none := by
  obtain ⟨active, hbegin, _⟩ := handleReadBegin_ok (h.withTimerfd .disarmed) hframe now
  exact lastReset_none hbegin rfl

theorem lastReset_handleReadRun (h : Inv q) {now : Int} {expired rest : List Entry} {it : Entry}
    (hframe : q.frame = some ⟨now, expired, it :: rest⟩) : q.lastReset .handleReadRun = none :=
  lastReset_none (handleReadRun_ok (h.withTimerfd .disarmed) hframe).1 rfl

theorem lastReset_addTimerInLoop {p : Addr} {t : Timer} (h : Inv q) (hp : p ∈ q.created)
    (ht : q.heap p = some t) :
    q.lastReset (.addTimerInLoop p) =
      if q.earliestChanged t.expiration then some t.expiration else none := by
  have hadd : exec (q.withTimerfd .disarmed) (.addTimerInLoop p) =
      .ok ((q.withTimerfd .disarmed).added p t) :=
    (addTimerInLoop_ok (h.withTimerfd .disarmed).consistent hp ht).1
  have hsame : (q.withTimerfd .disarmed).earliestChanged t.expiration =
      q.earliestChanged t.expiration := rfl
  rw [lastReset, hadd]
  unfold added
  rw [hsame]
  cases q.earliestChanged t.expiration <;> rfl

/-! ## Expirations after the epoch -/

/-- Every timer expires after the epoch, and is started again for no earlier time. -/
def AfterEpoch (q : TimerQueue) : Prop :=
  ∀ p t, q.heap p = some t →
    invalidTime < t.expiration ∧ (t.repeat_ = true → 0 ≤ t.interval)

theorem AfterEpoch.entries (h : AfterEpoch q) (hinv : Inv q) :
    ∀ e ∈ q.timers, invalidTime < e.expiration := by
  intro e he
  obtain ⟨t, ht, hexp, _⟩ := hinv.consistent.timers_live e he
  rw [← hexp]
  exact (h _ t ht).1

theorem AfterEpoch.delete {p : Addr} (h : AfterEpoch q)
    (hheap : q'.heap = Function.update q.heap p none) : AfterEpoch q' := by
  intro r t ht
  rw [hheap] at ht
  by_cases hr : r = p
  · simp [hr] at ht
  · rw [Function.update_of_ne hr] at ht
    exact h r t ht

theorem ResetSpec.afterEpoch {now : Int} {it : Entry} (hspec : ResetSpec q now it q')
    (h : AfterEpoch q) (hnow : invalidTime < now)
    (hentries : ∀ e ∈ q.timers, invalidTime < e.expiration) :
    AfterEpoch q' ∧ ∀ e ∈ q'.timers, invalidTime < e.expiration := by
  cases hspec with
  | restarted t ht hrep _ =>
      have hinterval := (h _ t ht).2 hrep
      have hlater : invalidTime < (t.restart now).expiration := by
        simp only [Timer.restart, hrep, if_true]
        omega
      refine ⟨fun r u hu => ?_, fun e he => ?_⟩
      · have hheap : Function.update q.heap it.timer (some (t.restart now)) r = some u := hu
        by_cases hr : r = it.timer
        · rw [hr, Function.update_self, Option.some.injEq] at hheap
          subst hheap
          refine ⟨hlater, fun _ => ?_⟩
          simpa only [Timer.restart, hrep, if_true] using hinterval
        · rw [Function.update_of_ne hr] at hheap
          exact h r u hheap
      · rcases OrdSet.mem_insert.1 he with rfl | he
        · exact hlater
        · exact hentries e he
  | deleted t _ _ => exact ⟨h.delete rfl, hentries⟩

/-- What the end of a `handleRead` leaves the timerfd set for. -/
theorem handleReadEnd_sets (h : Inv q) (hepoch : AfterEpoch q) {f : Frame}
    (hframe : q.frame = some f) (hnow : invalidTime < f.now) (hend : q.handleReadEnd = .ok q') :
    AfterEpoch q' ∧ (f.expired ≠ [] → ∀ first ∈ q'.timers.first?,
      q'.timerfd = .armed first.expiration) := by
  rw [handleReadEnd_eq hframe] at hend
  have hpost := resetLoop_post h hframe hend
    (fun rest q₁ => (AfterEpoch q₁ ∧ ∀ e ∈ q₁.timers, invalidTime < e.expiration) ∧
      (rest ≠ f.expired → ∀ first ∈ q₁.timers.first?, q₁.timerfd = .armed first.expiration))
    (by
      intro it expired q₁ q₂ before hP _ hspec
      obtain ⟨hepoch₂, hentries⟩ := hspec.afterEpoch hP.1.1 hnow hP.1.2
      refine ⟨⟨fun p t ht => ?_, fun e he => ?_⟩, fun _ first hfirst => ?_⟩
      · rw [rearmed_heap] at ht
        exact hepoch₂ p t ht
      · rw [rearmed_timers] at he
        exact hentries e he
      · -- The guard of `resetTimerfd` holds for every expiration after the epoch.
        rw [rearmed_timers] at hfirst
        have hnext : q₂.nextExpire before = first.expiration := by
          simp [nextExpire, Option.mem_def.1 hfirst]
        have hpos := hentries first (OrdSet.first?_eq_some_iff.1 hfirst).1
        rw [hnext, TimerQueue.rearmed, if_pos hpos]
        rfl)
    ⟨⟨hepoch, hepoch.entries h⟩, fun hne => absurd rfl hne⟩
  exact ⟨hpost.1.1, fun hne => hpost.2 (Ne.symm hne)⟩

theorem lastReset_handleReadEnd (h : Inv q) (hepoch : AfterEpoch q) {f : Frame}
    (hframe : q.frame = some f) (hrest : f.rest = []) (hnow : invalidTime < f.now)
    (hend : q.handleReadEnd = .ok q') (hne : f.expired ≠ []) {first : Entry}
    (hfirst : q'.timers.first? = some first) :
    q.lastReset .handleReadEnd = some first.expiration := by
  obtain ⟨q₁, hexec⟩ := exec_withTimerfd (a := .handleReadEnd) h ⟨f, hframe, hrest⟩ (by simp)
    (by simp)
  -- The run with the timerfd not set, and the one with the timerfd as it is.
  have hdisarmed := hexec .disarmed
  have hsame : q.handleReadEnd = .ok (q₁.withTimerfd (setFrom q.timerfd _)) := hexec q.timerfd
  rw [hend, Except.ok.injEq] at hsame
  have hfirst₁ : q₁.timers.first? = some first := by
    rw [hsame] at hfirst
    exact hfirst
  have hset := (handleReadEnd_sets (h.withTimerfd .disarmed) hepoch hframe hnow hdisarmed).2 hne
    first hfirst₁
  cases hlast : q.lastReset .handleReadEnd with
  | none =>
      rw [hlast] at hset
      cases hset
  | some expiration =>
      rw [hlast] at hset
      cases hset
      rfl

theorem StepSpec.afterEpoch (hspec : StepSpec q a q') (h : Inv q) (hepoch : AfterEpoch q)
    (hnew : ∀ p when_ interval repeat_, a = .newTimer p when_ interval repeat_ →
      invalidTime < when_ ∧ (repeat_ = true → 0 ≤ interval))
    (hnow : ∀ f ∈ q.frame, invalidTime < f.now) : AfterEpoch q' := by
  cases hspec with
  | newTimer p when_ interval repeat_ _ =>
      intro r t ht
      have hheap : Function.update q.heap p _ r = some t := ht
      by_cases hr : r = p
      · rw [hr, Function.update_self, Option.some.injEq] at hheap
        subst hheap
        exact hnew p when_ interval repeat_ rfl
      · rw [Function.update_of_ne hr] at hheap
        exact hepoch r t hheap
  | addTimerInLoop p t _ _ =>
      intro r u hu
      rw [added_heap] at hu
      exact hepoch r u hu
  | cancelInLoop timerId hcancel =>
      cases hcancel with
      | found t _ _ _ => exact hepoch.delete rfl
      | recorded _ _ => exact hepoch
      | ignored _ _ => exact hepoch
  | fire =>
      intro r u hu
      rw [fire_heap] at hu
      exact hepoch r u hu
  | handleReadBegin now active _ _ => exact hepoch
  | handleReadRun _ => exact hepoch
  | handleReadEnd f hframe hloop =>
      rw [← handleReadEnd_eq hframe] at hloop
      exact (handleReadEnd_sets h hepoch hframe (hnow f hframe) hloop).1

/-- Every `handleRead` has begun after the epoch. -/
theorem StepSpec.frame_after (hspec : StepSpec q a q') (h : Inv q)
    (hframe : ∀ f ∈ q.frame, invalidTime < f.now)
    (hnow : ∀ now, a = .handleReadBegin now → invalidTime < now) :
    ∀ f ∈ q'.frame, invalidTime < f.now := by
  cases hspec with
  | newTimer p when_ interval repeat_ _ => exact hframe
  | addTimerInLoop p t _ _ =>
      rw [added_frame]
      exact hframe
  | cancelInLoop timerId hcancel => cases hcancel <;> exact hframe
  | fire =>
      rw [fire_frame]
      exact hframe
  | handleReadBegin now active _ _ =>
      rintro f ⟨⟩
      exact hnow now rfl
  | handleReadRun hold =>
      have hnow := hframe _ hold
      rintro f ⟨⟩
      exact hnow
  | handleReadEnd f hold hloop =>
      obtain ⟨q₁, hend, hnone, _⟩ := handleReadEnd_ok h hold
      rw [handleReadEnd_eq hold, hloop] at hend
      cases hend
      rw [hnone]
      rintro f ⟨⟩

/-! ## The timerfd is set for the earliest timer -/

/-- Outside a batch, what the timerfd is set for, or has expired for, is no earlier timer than
the earliest pending one: that expires before `limit`. -/
def AimedBefore (limit : Int) (q : TimerQueue) : Prop :=
  batchOf q = [] → q.timerfd ≠ .disarmed → ∀ first ∈ q.timers.first?, first.expiration < limit

theorem first_le {q : TimerQueue} {first e : Entry} (hfirst : q.timers.first? = some first)
    (he : e ∈ q.timers) : first.expiration ≤ e.expiration :=
  Entry.expiration_le_of_le ((OrdSet.first?_eq_some_iff.1 hfirst).2 e he)

/-- The earliest timer does not get later as long as it stays. -/
theorem AimedBefore.keep {limit : Int} (h : AimedBefore limit q)
    (hbatch : batchOf q' = [] → batchOf q = [])
    (hfd : q'.timerfd ≠ .disarmed → q.timerfd ≠ .disarmed)
    (hkeep : batchOf q' = [] → ∀ e ∈ q'.timers, ∃ first ∈ q.timers.first?, first ∈ q'.timers) :
    AimedBefore limit q' := by
  intro hnil hset first' hfirst'
  obtain ⟨first, hfirst, hmem⟩ := hkeep hnil first' (OrdSet.first?_eq_some_iff.1 hfirst').1
  exact lt_of_le_of_lt (first_le hfirst' hmem) (h (hbatch hnil) (hfd hset) first hfirst)

theorem AimedBefore.same {limit : Int} (h : AimedBefore limit q)
    (hbatch : batchOf q' = batchOf q := by rfl) (hfd : q'.timerfd = q.timerfd := by rfl)
    (htimers : q'.timers = q.timers := by rfl) : AimedBefore limit q' := by
  refine h.keep (fun hnil => hbatch ▸ hnil) (fun hset => hfd ▸ hset) fun _ e he => ?_
  rw [htimers] at he ⊢
  obtain ⟨first, hfirst⟩ := OrdSet.first?_isSome_of_mem he
  exact ⟨first, hfirst, (OrdSet.first?_eq_some_iff.1 hfirst).1⟩

theorem AimedBefore.added {limit : Int} (h : AimedBefore limit q) {p : Addr} {t : Timer}
    (hlater : q.earliestChanged t.expiration = false) : AimedBefore limit (q.added p t) := by
  have hadded : q.added p t = inserted { q with created := q.created.erase p } p t := by
    simp [TimerQueue.added, hlater]
  rw [hadded]
  refine h.keep id id fun _ e _ => ?_
  cases hfirst : q.timers.first? with
  | none => simp [earliestChanged, hfirst] at hlater
  | some first =>
      have hmem := (OrdSet.first?_eq_some_iff.1 hfirst).1
      exact ⟨first, rfl, OrdSet.mem_insert.2 (Or.inr hmem)⟩

/-- The earliest pending timer is cancelled as the last one only, or during a batch. -/
def CancelsLater (q : TimerQueue) (timerId : TimerId) : Prop :=
  batchOf q = [] → ActiveTimer.mk timerId.timer timerId.sequence ∈ q.activeTimers →
    ∀ first ∈ q.timers.first?, first.timer = timerId.timer → ∀ e ∈ q.timers, e = first

instance (q : TimerQueue) (timerId : TimerId) : Decidable (CancelsLater q timerId) :=
  inferInstanceAs (Decidable (_ → _ → ∀ first ∈ q.timers.first?, _ → ∀ e ∈ q.timers, e = first))

theorem AimedBefore.cancel {limit : Int} {timerId : TimerId} (h : AimedBefore limit q)
    (hinv : Inv q) (hlater : CancelsLater q timerId) (hspec : CancelSpec q timerId q') :
    AimedBefore limit q' := by
  cases hspec with
  | found t ht hseq hmem =>
      refine h.keep id id fun hnil e he => ?_
      obtain ⟨he, hne⟩ := OrdSet.mem_erase.1 he
      obtain ⟨first, hfirst⟩ := OrdSet.first?_isSome_of_mem he
      refine ⟨first, hfirst, OrdSet.mem_erase.2 ⟨(OrdSet.first?_eq_some_iff.1 hfirst).1, ?_⟩⟩
      rintro rfl
      have hact := hinv.consistent.active_of_mem ht hmem
      rw [hseq] at hact
      exact hne (hlater hnil hact _ hfirst rfl e he)
  | recorded _ _ => exact h.same
  | ignored _ _ => exact h

/-- A `handleRead` that finds nothing leaves all timers. -/
theorem AimedBefore.begun {limit : Int} {now : Int} {active : OrdSet ActiveTimer}
    {timerfd : Timerfd} (h : AimedBefore limit q) (hinv : Inv q) (hframe : q.frame = none)
    (hfd : timerfd ≠ .disarmed → q.timerfd ≠ .disarmed) :
    AimedBefore limit ((q.begun now active).withTimerfd timerfd) := by
  have hcons : Consistent q [] := by
    have hcons := hinv.consistent
    rwa [batchOf, hframe] at hcons
  refine h.keep (fun _ => by rw [batchOf, hframe]) hfd fun hnil e he => ?_
  have hnone : q.expiredAt now = [] := List.map_eq_nil_iff.1 hnil
  obtain ⟨hmem, _⟩ := hcons.mem_from_sentry.1 he
  obtain ⟨first, hfirst⟩ := OrdSet.first?_isSome_of_mem hmem
  have hold := (OrdSet.first?_eq_some_iff.1 hfirst).1
  refine ⟨first, hfirst, hcons.mem_from_sentry.2 ⟨hold, ?_⟩⟩
  by_contra hdue
  have hexpired := hcons.mem_expiredAt.2 ⟨hold, not_lt.1 hdue⟩
  rw [hnone] at hexpired
  cases hexpired

theorem AimedBefore.fire {limit : Int} (h : AimedBefore limit q) : AimedBefore limit q.fire := by
  unfold TimerQueue.fire
  split
  · rename_i expiration harmed
    refine h.keep id (fun _ => by rw [harmed]; simp) fun _ e he => ?_
    obtain ⟨first, hfirst⟩ := OrdSet.first?_isSome_of_mem he
    exact ⟨first, hfirst, (OrdSet.first?_eq_some_iff.1 hfirst).1⟩
  · exact h

/-! ## Reading the timerfd -/

/-- The `read` of `handleRead` fails with `EAGAIN` when the timerfd was set again after `epoll_wait`
had reported it, and leaves it set. -/
def keepArmed (q : TimerQueue) (a : Act) (q' : TimerQueue) : TimerQueue :=
  match a, q.timerfd with
  | .handleReadBegin _, .armed expiration => q'.withTimerfd (.armed expiration)
  | _, _ => q'

theorem keepArmed_begun (q : TimerQueue) (now : Int) (active : OrdSet ActiveTimer) :
    ∃ timerfd, keepArmed q (.handleReadBegin now) (q.begun now active) =
        (q.begun now active).withTimerfd timerfd ∧
      ((q.timerfd = timerfd ∧ ∃ expiration, timerfd = .armed expiration) ∨
        (timerfd = .disarmed ∧ ∀ expiration, q.timerfd ≠ .armed expiration)) := by
  cases hfd : q.timerfd with
  | disarmed => exact ⟨.disarmed, by simp only [keepArmed, hfd]; rfl, Or.inr ⟨rfl, by simp⟩⟩
  | armed expiration =>
      exact ⟨.armed expiration, by simp only [keepArmed, hfd], Or.inl ⟨rfl, expiration, rfl⟩⟩
  | readable => exact ⟨.disarmed, by simp only [keepArmed, hfd]; rfl, Or.inr ⟨rfl, by simp⟩⟩

theorem keepArmed_withTimerfd (q : TimerQueue) (a : Act) (q' : TimerQueue) :
    ∃ timerfd, keepArmed q a q' = q'.withTimerfd timerfd := by
  unfold keepArmed
  split
  · rename_i expiration _
    exact ⟨.armed expiration, rfl⟩
  · exact ⟨q'.timerfd, rfl⟩

theorem keepArmed_eq (hbegin : ∀ now, a ≠ .handleReadBegin now) : keepArmed q a q' = q' := by
  cases a with
  | handleReadBegin now => exact absurd rfl (hbegin now)
  | _ => rfl

/-- After a step the timerfd is set for what the step has set it for, or for what it was set for
before. -/
theorem armed_cases (h : Inv q) (hen : Enabled q a) (hexec : exec q a = .ok q') {expiration : Int}
    (harmed : (keepArmed q a q').timerfd = .armed expiration) :
    q.lastReset a = some expiration ∨
      (q.lastReset a = none ∧ q.timerfd = .armed expiration) := by
  by_cases hfire : a = .fire
  · subst hfire
    cases hexec
    have hfd : q.fire.timerfd = .armed expiration := harmed
    unfold fire at hfd
    split at hfd
    · cases hfd
    · rename_i hother
      exact absurd hfd (hother expiration)
  by_cases hbegin : ∃ now, a = .handleReadBegin now
  · obtain ⟨now, rfl⟩ := hbegin
    obtain ⟨active, hok, _⟩ := handleReadBegin_ok h hen now
    have hlast := lastReset_handleReadBegin h hen now
    cases hok.symm.trans hexec
    obtain ⟨timerfd, heq, hsame | ⟨hnot, _⟩⟩ := keepArmed_begun q now active
    · rw [heq] at harmed
      exact Or.inr ⟨hlast, hsame.1.trans harmed⟩
    · rw [heq, hnot] at harmed
      cases harmed
  · have hother : ∀ now, a ≠ .handleReadBegin now := fun now hnow => hbegin ⟨now, hnow⟩
    obtain ⟨q₁, hboth⟩ := exec_withTimerfd h hen hfire hother
    have hsame : exec q a = .ok (q₁.withTimerfd (setFrom q.timerfd (q.lastReset a))) :=
      hboth q.timerfd
    rw [hexec, Except.ok.injEq] at hsame
    rw [keepArmed_eq hother, hsame] at harmed
    cases hlast : q.lastReset a with
    | none =>
        rw [hlast] at harmed
        exact Or.inr ⟨rfl, harmed⟩
    | some e =>
        rw [hlast] at harmed
        cases harmed
        exact Or.inl rfl

/-- The begin of a `handleRead` keeps the alarm if the timerfd has expired for the earliest timer,
or has not expired at all. -/
theorem handleReadBegin_keeps (h : Inv q) (ha : Alarmed q) (hepoch : AfterEpoch q) {now : Int}
    (hnow : invalidTime < now)
    (hdue : q.timerfd = .readable → ∀ first ∈ q.timers.first?, first.expiration ≤ now)
    (active : OrdSet ActiveTimer) :
    AlarmInv (keepArmed q (.handleReadBegin now) (q.begun now active)) := by
  have hlate : ∀ e ∈ q.timers, e.expiration ≤ now → ∀ t ∈ q.heap e.timer, t.repeat_ = true →
      invalidTime < now + t.interval := by
    intro e _ _ t ht hrep
    have hinterval := (hepoch e.timer t ht).2 hrep
    omega
  obtain ⟨timerfd, heq, hcase⟩ := keepArmed_begun q now active
  rcases hcase with ⟨hsame, _⟩ | ⟨rfl, hnot⟩
  · have hkept : ∀ limit, AlarmedUpTo limit ((q.begun now active).withTimerfd timerfd) :=
      fun limit => (ha.upTo limit).subset hsame.symm
        fun e he => (OrdSet.mem_from.1 he).1
    rw [heq]
    refine ⟨fun _ => alarmed_iff.2 hkept, hkept _, fun it hit t ht hrep => ?_⟩
    obtain ⟨hmem, hexp⟩ := h.consistent.mem_expiredAt.1 hit
    exact hlate it hmem hexp t ht hrep
  · rw [heq]
    refine handleReadBegin_alarm h ⟨fun first hfirst => ?_, fun e he _ => hepoch.entries h e he,
      hlate⟩ active
    rcases ha first hfirst with hreadable | ⟨expiration, harmed, _⟩
    · exact hdue hreadable first hfirst
    · exact absurd harmed (hnot expiration)

end TimerQueue

/-! ## The clock -/

structure TimerClock where
  queue : TimerQueue
  clock : Int
  /-- When the timerfd expires, as it was set last. -/
  deadline : Int
  /-- When it was set last. -/
  setAt : Int

namespace TimerClock

def new (now : Int) : TimerClock where
  queue := TimerQueue.new
  clock := now
  deadline := now
  setAt := now

/-- `timerfd_settime` in `resetTimerfd`. -/
def settime (s : TimerClock) (expiration : Int) : TimerClock :=
  { s with
    deadline := s.clock + (howMuchTimeFromNow expiration s.clock).nanoseconds
    setAt := s.clock }

inductive Act
  | queue (a : TimerQueue.Act)
  | tick (ns : Nat)
  deriving DecidableEq, Repr

def exec (s : TimerClock) : Act → Except Fault TimerClock
  | .queue a => do
      let queue ← s.queue.exec a
      let set := (s.queue.lastReset a).elim s s.settime
      pure { set with queue := s.queue.keepArmed a queue }
  | .tick ns => .ok { s with clock := s.clock + ns }

/-- The kernel makes the timerfd readable at the deadline, or up to `slack` later. -/
def Enabled (slack : Nat) (s : TimerClock) : Act → Prop
  | .queue .fire => s.deadline ≤ s.clock
  | .queue (.handleReadBegin now) =>
      TimerQueue.Enabled s.queue (.handleReadBegin now) ∧ now = s.clock
  | .queue a => TimerQueue.Enabled s.queue a
  | .tick ns => s.queue.timerfd.isArmed = true → s.clock + ns ≤ s.deadline + slack

instance (slack : Nat) (s : TimerClock) (a : Act) : Decidable (Enabled slack s a) :=
  match a with
  | .queue .fire => inferInstanceAs (Decidable (_ ≤ _))
  | .queue (.handleReadBegin _) => inferInstanceAs (Decidable (_ ∧ _))
  | .queue (.newTimer p when_ interval repeat_) =>
      inferInstanceAs (Decidable (s.queue.Enabled (.newTimer p when_ interval repeat_)))
  | .queue (.addTimerInLoop p) =>
      inferInstanceAs (Decidable (s.queue.Enabled (.addTimerInLoop p)))
  | .queue (.cancelInLoop timerId) =>
      inferInstanceAs (Decidable (s.queue.Enabled (.cancelInLoop timerId)))
  | .queue .handleReadRun => inferInstanceAs (Decidable (s.queue.Enabled .handleReadRun))
  | .queue .handleReadEnd => inferInstanceAs (Decidable (s.queue.Enabled .handleReadEnd))
  | .tick _ => inferInstanceAs (Decidable (_ → _))

def Starts (s : TimerClock) : Prop :=
  ∃ now, invalidTime < now ∧ s = new now

def system (slack : Nat) : StepSystem TimerClock Act :=
  StepSystem.ofExec Starts (Enabled slack) exec

/-- Timers are for times after the epoch and intervals are not negative; the earliest timer is
cancelled as the last one only, or during a batch; and a `handleRead` comes a microsecond after
the deadline, or without the timerfd. -/
def Meets (s : TimerClock) : Act → Prop
  | .queue (.newTimer _ when_ interval repeat_) =>
      invalidTime < when_ ∧ (repeat_ = true → 0 ≤ interval)
  | .queue (.cancelInLoop timerId) => s.queue.CancelsLater timerId
  | .queue (.handleReadBegin _) => s.queue.timerfd = .readable → s.deadline + 999 ≤ s.clock
  | _ => True

instance (s : TimerClock) (a : Act) : Decidable (Meets s a) :=
  match a with
  | .queue (.newTimer _ _ _ _) => inferInstanceAs (Decidable (_ ∧ (_ → _)))
  | .queue (.cancelInLoop timerId) => inferInstanceAs (Decidable (s.queue.CancelsLater timerId))
  | .queue (.handleReadBegin _) => inferInstanceAs (Decidable (_ → _))
  | .queue (.addTimerInLoop _) => isTrue trivial
  | .queue .fire => isTrue trivial
  | .queue .handleReadRun => isTrue trivial
  | .queue .handleReadEnd => isTrue trivial
  | .tick _ => isTrue trivial

variable {slack : Nat} {s t : TimerClock}

/-- The deadline belongs to the expiration, and is not over by more than `slack`. -/
structure Ahead (slack : Nat) (s : TimerClock) (expiration : Int) : Prop where
  early : expiration < s.deadline + 1000
  late : s.deadline ≤ max expiration (s.setAt + 100000)
  kernel : s.clock ≤ s.deadline + slack

structure Inv (slack : Nat) (s : TimerClock) : Prop where
  queue : s.queue.Inv
  alarm : s.queue.AlarmInv
  epoch : s.queue.AfterEpoch
  frame : ∀ f ∈ s.queue.frame, invalidTime < f.now
  clock : invalidTime < s.clock
  setAt : s.setAt ≤ s.clock
  armed : ∀ expiration, s.queue.timerfd = .armed expiration → Ahead slack s expiration
  aim : s.queue.AimedBefore (s.deadline + 1000)

theorem settime_ahead (s : TimerClock) (expiration : Int) :
    Ahead slack (s.settime expiration) expiration := by
  obtain ⟨hmin, hmax, hcut⟩ := howMuchTimeFromNow_bounds expiration s.clock
  refine ⟨?_, ?_, ?_⟩ <;> simp only [settime] <;> omega

theorem new_inv {now : Int} (h : invalidTime < now) : Inv slack (new now) := by
  refine ⟨TimerQueue.new_inv, ?_, ?_, ?_, h, le_refl _, ?_, ?_⟩
  · intro e he
    cases he
  · intro p t ht
    cases ht
  · intro f hf
    cases hf
  · intro expiration harmed
    cases harmed
  · intro _ hset
    exact absurd rfl hset

theorem tick_inv (h : Inv slack s) {ns : Nat}
    (hen : s.queue.timerfd.isArmed = true → s.clock + ns ≤ s.deadline + slack) :
    Inv slack { s with clock := s.clock + ns } := by
  have hclock := h.clock
  have hset := h.setAt
  refine ⟨h.queue, h.alarm, h.epoch, h.frame, ?_, ?_, fun expiration harmed => ?_, h.aim⟩
  · show invalidTime < s.clock + ns
    omega
  · show s.setAt ≤ s.clock + ns
    omega
  · obtain ⟨hearly, hlate, _⟩ := h.armed expiration harmed
    exact ⟨hearly, hlate, hen (by rw [harmed]; rfl)⟩

/-- The state after a step of the queue that ends with `q'`. -/
def after (s : TimerClock) (a : TimerQueue.Act) (q' : TimerQueue) : TimerClock :=
  { (s.queue.lastReset a).elim s s.settime with queue := s.queue.keepArmed a q' }

theorem after_clock (s : TimerClock) (a : TimerQueue.Act) (q' : TimerQueue) :
    (s.after a q').clock = s.clock ∧ ((s.after a q').setAt = s.setAt ∨
      (s.after a q').setAt = s.clock) := by
  unfold after
  cases s.queue.lastReset a with
  | none => exact ⟨rfl, Or.inl rfl⟩
  | some expiration => exact ⟨rfl, Or.inr rfl⟩

theorem queue_enabled {a : TimerQueue.Act} (hen : Enabled slack s (.queue a)) :
    s.queue.Enabled a := by
  cases a with
  | fire => trivial
  | handleReadBegin now => exact hen.1
  | newTimer p when_ interval repeat_ => exact hen
  | addTimerInLoop p => exact hen
  | cancelInLoop timerId => exact hen
  | handleReadRun => exact hen
  | handleReadEnd => exact hen

/-- The timerfd is set for the earliest timer after a step that has set it, and else as before. -/
theorem after_armed (h : Inv slack s) {a : TimerQueue.Act} (hen : s.queue.Enabled a)
    {q' : TimerQueue} (hexec : s.queue.exec a = .ok q') {expiration : Int}
    (harmed : (s.after a q').queue.timerfd = .armed expiration) :
    Ahead slack (s.after a q') expiration := by
  rcases TimerQueue.armed_cases h.queue hen hexec harmed with hlast | ⟨hlast, hold⟩
  · have hahead : Ahead slack (s.settime expiration) expiration := settime_ahead s expiration
    obtain ⟨hearly, hlate, hkernel⟩ := hahead
    refine ⟨?_, ?_, ?_⟩ <;> simpa only [after, hlast, Option.elim]
  · obtain ⟨hearly, hlate, hkernel⟩ := h.armed expiration hold
    refine ⟨?_, ?_, ?_⟩ <;> simpa only [after, hlast, Option.elim]

theorem after_of_none {a : TimerQueue.Act} {q' : TimerQueue} (hlast : s.queue.lastReset a = none) :
    s.after a q' = { s with queue := s.queue.keepArmed a q' } := by
  rw [after, hlast]
  rfl

theorem after_of_some {a : TimerQueue.Act} {q' : TimerQueue} {expiration : Int}
    (hlast : s.queue.lastReset a = some expiration) :
    s.after a q' = { s.settime expiration with queue := s.queue.keepArmed a q' } := by
  rw [after, hlast]
  rfl

theorem after_aim (h : Inv slack s) {a : TimerQueue.Act} (hen : s.queue.Enabled a)
    (hmeets : Meets s (.queue a)) {q' : TimerQueue} (hspec : TimerQueue.StepSpec s.queue a q') :
    (s.after a q').queue.AimedBefore ((s.after a q').deadline + 1000) := by
  cases hspec with
  | newTimer p when_ interval repeat_ _ => exact h.aim.same
  | addTimerInLoop p t hp ht =>
      have hlast := TimerQueue.lastReset_addTimerInLoop h.queue hp ht
      cases hearly : s.queue.earliestChanged t.expiration with
      | false =>
          rw [hearly, if_neg Bool.false_ne_true] at hlast
          rw [after_of_none hlast]
          exact h.aim.added hearly
      | true =>
          rw [hearly, if_pos rfl] at hlast
          rw [after_of_some hlast]
          intro _ _ first hfirst
          have hmem : Entry.mk t.expiration p ∈ (s.queue.added p t).timers := by
            rw [TimerQueue.added, hearly, if_pos rfl]
            exact OrdSet.mem_insert.2 (Or.inl rfl)
          have hle : first.expiration ≤ t.expiration := TimerQueue.first_le hfirst hmem
          have hset : Ahead slack (s.settime t.expiration) t.expiration :=
            settime_ahead s t.expiration
          exact lt_of_le_of_lt hle hset.early
  | cancelInLoop timerId hcancel =>
      rw [after_of_none (TimerQueue.lastReset_cancelInLoop h.queue timerId)]
      exact h.aim.cancel h.queue hmeets hcancel
  | fire => exact h.aim.fire
  | handleReadBegin now active hframe _ =>
      rw [after_of_none (TimerQueue.lastReset_handleReadBegin h.queue hframe now)]
      obtain ⟨timerfd, heq, hcase⟩ := TimerQueue.keepArmed_begun s.queue now active
      show (s.queue.keepArmed _ _).AimedBefore (s.deadline + 1000)
      rw [heq]
      refine h.aim.begun h.queue hframe fun hset => ?_
      rcases hcase with ⟨hsame, _⟩ | ⟨hnot, _⟩
      · rw [hsame]
        exact hset
      · exact absurd hnot hset
  | handleReadRun hframe =>
      rw [after_of_none (TimerQueue.lastReset_handleReadRun h.queue hframe)]
      refine h.aim.same ?_
      rw [TimerQueue.batchOf, TimerQueue.batchOf, hframe]
      rfl
  | handleReadEnd f hframe hloop =>
      have hend := (TimerQueue.handleReadEnd_eq hframe).trans hloop
      obtain ⟨f', hframe', hrest⟩ := hen
      cases hframe.symm.trans hframe'
      by_cases hnil : f.expired = []
      · -- `reset` has nothing to do and does not touch the timerfd.
        have hlast : s.queue.lastReset .handleReadEnd = none := by
          have hexec : TimerQueue.exec (s.queue.withTimerfd .disarmed) .handleReadEnd =
              .ok (s.queue.withTimerfd .disarmed).ended := by
            have hframe' : (s.queue.withTimerfd .disarmed).frame = some f := hframe
            refine (TimerQueue.handleReadEnd_eq hframe').trans ?_
            rw [hnil, TimerQueue.resetLoop]
          exact TimerQueue.lastReset_none hexec rfl
        rw [hnil, TimerQueue.resetLoop] at hloop
        cases hloop
        rw [after_of_none hlast]
        refine h.aim.same ?_
        rw [TimerQueue.batchOf, TimerQueue.batchOf, hframe]
        simp [TimerQueue.keepArmed, TimerQueue.ended, hnil]
      · intro _ _ first hfirst
        have hlast := TimerQueue.lastReset_handleReadEnd h.queue h.epoch hframe hrest
          (h.frame f hframe) hend hnil hfirst
        rw [after_of_some hlast]
        have hset : Ahead slack (s.settime first.expiration) first.expiration :=
          settime_ahead s first.expiration
        exact hset.early

/-- The timerfd has expired for the earliest timer, a microsecond too early at most. -/
theorem readable_due (h : Inv slack s) (hframe : s.queue.frame = none) {now : Int}
    (hmeets : Meets s (.queue (.handleReadBegin now))) (hreadable : s.queue.timerfd = .readable)
    {first : Entry} (hfirst : s.queue.timers.first? = some first) :
    first.expiration ≤ s.clock := by
  have hbatch : s.queue.batchOf = [] := by rw [TimerQueue.batchOf, hframe]
  have haim := h.aim hbatch (by rw [hreadable]; simp) first hfirst
  have hlate := hmeets hreadable
  omega

theorem after_alarm (h : Inv slack s) {a : TimerQueue.Act} (hen : Enabled slack s (.queue a))
    (hmeets : Meets s (.queue a)) {q' : TimerQueue} (hexec : s.queue.exec a = .ok q') :
    (s.queue.keepArmed a q').AlarmInv := by
  by_cases hbegin : ∃ now, a = .handleReadBegin now
  · obtain ⟨now, rfl⟩ := hbegin
    obtain ⟨hframe, rfl⟩ := hen
    have halarm : s.queue.Alarmed := by
      have halarm := h.alarm
      rwa [TimerQueue.AlarmInv, show s.queue.frame = none from hframe] at halarm
    obtain ⟨active, hok, _⟩ := TimerQueue.handleReadBegin_ok h.queue hframe s.clock
    cases hok.symm.trans hexec
    refine TimerQueue.handleReadBegin_keeps h.queue halarm h.epoch h.clock
      (fun hreadable first hfirst => ?_) active
    exact readable_due h hframe hmeets hreadable hfirst
  · have hother : ∀ now, a ≠ .handleReadBegin now := fun now hnow => hbegin ⟨now, hnow⟩
    rw [TimerQueue.keepArmed_eq hother]
    refine TimerQueue.exec_alarm h.queue h.alarm (queue_enabled hen) ?_ hexec
    cases a with
    | handleReadBegin now => exact absurd rfl (hother now)
    | _ => trivial

theorem queue_inv (h : Inv slack s) {a : TimerQueue.Act} (hen : Enabled slack s (.queue a))
    (hmeets : Meets s (.queue a)) : ∃ t, exec s (.queue a) = .ok t ∧ Inv slack t := by
  have hqueue := queue_enabled hen
  obtain ⟨q', hexec, hinv, _⟩ := TimerQueue.exec_ok h.queue hqueue
  have hspec := TimerQueue.step_cases h.queue hqueue hexec
  refine ⟨s.after a q', by rw [exec, hexec]; rfl, ?_⟩
  obtain ⟨hclock, hset⟩ := after_clock s a q'
  obtain ⟨timerfd, hkeep⟩ := TimerQueue.keepArmed_withTimerfd s.queue a q'
  have hclockpos := h.clock
  have hsetle := h.setAt
  refine ⟨?_, after_alarm h hen hmeets hexec, ?_, ?_, ?_, ?_, ?_, after_aim h hqueue hmeets hspec⟩
  · show (s.queue.keepArmed a q').Inv
    rw [hkeep]
    exact hinv.withTimerfd timerfd
  · show (s.queue.keepArmed a q').AfterEpoch
    rw [hkeep]
    refine hspec.afterEpoch h.queue h.epoch ?_ h.frame
    rintro p when_ interval repeat_ rfl
    exact hmeets
  · show ∀ f ∈ (s.queue.keepArmed a q').frame, invalidTime < f.now
    rw [hkeep]
    refine hspec.frame_after h.queue h.frame ?_
    rintro now rfl
    rw [hen.2]
    exact h.clock
  · rw [hclock]
    exact h.clock
  · rw [hclock]
    omega
  · intro expiration harmed
    exact after_armed h hqueue hexec harmed

theorem step_inv (h : Inv slack s) {a : Act} (hen : Enabled slack s a) (hmeets : Meets s a) :
    ∃ t, exec s a = .ok t ∧ Inv slack t := by
  cases a with
  | queue a => exact queue_inv h hen hmeets
  | tick ns => exact ⟨_, rfl, tick_inv h hen⟩

/-! ## Runs -/

/-- In every run that meets `Meets`, with any callbacks and any `slack` of the kernel: no call
faults; outside `handleRead` no pending timer is later than a hundred microseconds and `slack`,
counted from its expiration or from the last time the timerfd was set, unless the timerfd is
readable; and no `handleRead` for which it is readable finds timers but none expired. -/
theorem overdue_readable (hs : ((system slack).restrict Meets).Reachable s) :
    (∀ a, Meets s a → Enabled slack s a → ∃ t, exec s a = .ok t) ∧
      (s.queue.frame = none → ∀ e ∈ s.queue.timers,
        max e.expiration s.setAt + 100000 + slack < s.clock → s.queue.timerfd = .readable) ∧
      (∀ now, Enabled slack s (.queue (.handleReadBegin now)) →
        Meets s (.queue (.handleReadBegin now)) → s.queue.timerfd = .readable →
        ∀ first ∈ s.queue.timers.first?, first.expiration ≤ now) := by
  have h0 : ∀ {s}, Starts s → Inv slack s := by
    rintro s ⟨now, hnow, rfl⟩
    exact new_inv hnow
  have hs' : (StepSystem.ofExec Starts (fun s a => Meets s a ∧ Enabled slack s a) exec).Reachable
      s := by
    rwa [system, StepSystem.restrict_ofExec] at hs
  obtain ⟨h, hsafe⟩ := StepSystem.ofExec_safe h0 (fun hs ha => step_inv hs ha.2 ha.1) hs'
  refine ⟨fun a hmeets hen => hsafe a ⟨hmeets, hen⟩, fun hframe e he hlate => ?_,
    fun now hen hmeets hreadable first hfirst => ?_⟩
  · have halarm : s.queue.Alarmed := by
      have halarm := h.alarm
      rwa [TimerQueue.AlarmInv, hframe] at halarm
    obtain ⟨first, hfirst⟩ := OrdSet.first?_isSome_of_mem he
    have hle := TimerQueue.first_le hfirst he
    rcases halarm first hfirst with hreadable | ⟨expiration, harmed, hexp⟩
    · exact hreadable
    · have hahead := h.armed expiration harmed
      have hdeadline := hahead.late
      have hkernel := hahead.kernel
      omega
  · obtain ⟨hframe, rfl⟩ := hen
    exact readable_due h hframe hmeets hreadable hfirst

/-- A timer for a time that is no whole number of microseconds; the kernel is on time, and the
loop busy. -/
def busyRun : List Act :=
  [.queue (.newTimer 32 1500999 0 false), .queue (.addTimerInLoop 32), .tick 500000, .queue .fire,
    .tick 200000]

def stateAfter (as : List Act) : TimerClock :=
  (StepSystem.execAll exec (new 1000000) as).toOption.getD (new 1000000)

theorem overdue_readable_busy :
    ((system 0).restrict Meets).Reachable (stateAfter busyRun) ∧
      (stateAfter busyRun).deadline = 1500000 ∧
      (stateAfter busyRun).queue.timerfd = .readable := by
  have hrun : ((system 0).restrict Meets).Run (new 1000000) busyRun (stateAfter busyRun) := by
    rw [system, StepSystem.restrict_ofExec]
    exact StepSystem.run_of_execAll (by decide) rfl
  have hreach := hrun.reachable (StepSystem.Reachable.init ⟨1000000, by decide, rfl⟩)
  exact ⟨hreach, rfl, (overdue_readable hreach).2.1 rfl ⟨1500999, 32⟩ (by decide) (by decide)⟩

/-- The same timer, with a `handleRead` in the nanosecond of the deadline. -/
def promptRun : List Act :=
  [.queue (.newTimer 32 1500999 0 false), .queue (.addTimerInLoop 32), .tick 500000, .queue .fire,
    .queue (.handleReadBegin 1500000), .queue .handleReadEnd]

/-- A loop that is too fast finds the timer not expired and leaves it without an alarm. -/
theorem lost_by_truncation :
    ¬ ∀ s, (system 0).Reachable s → s.queue.frame = none → s.queue.Alarmed := by
  intro h
  have hrun : (system 0).Run (new 1000000) promptRun (stateAfter promptRun) :=
    StepSystem.run_of_execAll (by decide) rfl
  have hreach := hrun.reachable (StepSystem.Reachable.init ⟨1000000, by decide, rfl⟩)
  have hcover : TimerQueue.Covers (stateAfter promptRun).queue ⟨1500999, 32⟩ :=
    h (stateAfter promptRun) hreach rfl ⟨1500999, 32⟩ rfl
  rcases hcover with hreadable | ⟨_, harmed, _⟩
  · cases hreadable
  · cases harmed

end TimerClock

end Net
end Muduo
