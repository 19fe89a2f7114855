import Muduo.Net.TimerCancellation

/-!
# TimerBatch — what one `handleRead` does

A batch is a `handleReadBegin`, the steps of its callbacks and a `handleReadEnd`.  `Progress`
compares the state at the start of a stretch of callbacks with the state at its end: which
callbacks ran, which entries `timers_` holds, and which timers of the batch were marked for
cancellation.  `batch_exact` joins it with what `getExpired` takes out and `reset` puts back.
The last section is about a cancellation inside the batch.
-/

namespace Muduo
namespace Net
namespace TimerQueue

variable {q q' s s' : TimerQueue} {a : Act} {as : List Act} {f : Frame} {e : Entry} {p : Addr}
  {t : Timer}

/-! ## The callbacks of a run -/

/-- The entry whose callback the step runs. -/
def callbackOf (q : TimerQueue) : Act → Option Entry
  | .handleReadRun => q.frame.bind fun f => f.rest.head?
  | _ => none

/-- The entries whose callbacks the actions run, in order. -/
def callbacks (q : TimerQueue) : List Act → List Entry
  | [] => []
  | a :: as =>
      match exec q a with
      | .ok q' => (callbackOf q a).toList ++ callbacks q' as
      | .error _ => []

theorem callbacks_cons (h : exec q a = .ok q') :
    callbacks q (a :: as) = (callbackOf q a).toList ++ callbacks q' as := by
  simp [callbacks, h]

/-! ## One step inside a batch -/

/-- The frame only loses the entry whose callback is run. -/
theorem step_frame (h : Inv s) (hstep : system.step s a s') (hframe : s.frame = some f)
    (ha : a ≠ .handleReadEnd) :
    ∃ rest, s'.frame = some ⟨f.now, f.expired, rest⟩ ∧
      f.rest = (callbackOf s a).toList ++ rest := by
  cases step_cases h hstep.1 hstep.2 with
  | newTimer _ _ _ _ _ => exact ⟨f.rest, hframe, rfl⟩
  | addTimerInLoop r u _ _ => exact ⟨f.rest, by rw [added_frame, hframe], rfl⟩
  | cancelInLoop timerId hspec =>
      refine ⟨f.rest, ?_, rfl⟩
      cases hspec with
      | found _ _ _ _ => exact hframe
      | recorded _ _ => exact hframe
      | ignored _ _ => exact hframe
  | fire => exact ⟨f.rest, by rw [fire_frame, hframe], rfl⟩
  | handleReadBegin now active hnone _ =>
      rw [hframe] at hnone
      cases hnone
  | handleReadRun hrun =>
      rw [hframe] at hrun
      cases hrun
      exact ⟨_, rfl, by simp [callbackOf, hframe]⟩
  | handleReadEnd _ _ _ => exact absurd rfl ha

/-- A live timer keeps its contents unless it is active and the step cancels it. -/
theorem step_heap (h : Inv s) (hstep : system.step s a s') (hframe : s.frame = some f)
    (ha : a ≠ .handleReadEnd) (ht : s.heap p = some t) :
    s'.heap p = some t ∨
      (a = .cancelInLoop ⟨p, t.sequence⟩ ∧ ActiveTimer.mk p t.sequence ∈ s.activeTimers) := by
  cases step_cases h hstep.1 hstep.2 with
  | newTimer r when_ interval repeat_ hnone =>
      have hr : p ≠ r := by
        rintro rfl
        rw [hnone] at ht
        cases ht
      exact Or.inl (by simpa [newTimer, hr] using ht)
  | addTimerInLoop r u _ _ => exact Or.inl (by rwa [added_heap])
  | cancelInLoop timerId hspec =>
      cases hspec with
      | found u hu hseq htim =>
          by_cases hp : p = timerId.timer
          · subst hp
            rw [ht] at hu
            cases hu
            rcases h.consistent.timers_live _ htim with ⟨v, hv, _, hact⟩
            rw [show s.heap timerId.timer = some v from hv] at ht
            cases ht
            exact Or.inr ⟨by rw [hseq], hact⟩
          · exact Or.inl (by simpa [TimerQueue.cancelled, hp] using ht)
      | recorded _ _ => exact Or.inl ht
      | ignored _ _ => exact Or.inl ht
  | fire => exact Or.inl (by rwa [fire_heap])
  | handleReadBegin now active hnone _ =>
      rw [hframe] at hnone
      cases hnone
  | handleReadRun _ => exact Or.inl ht
  | handleReadEnd _ _ _ => exact absurd rfl ha

theorem timers_added (q : TimerQueue) (p : Addr) (t : Timer) :
    (q.added p t).timers = q.timers.insert ⟨t.expiration, p⟩ := by
  unfold added
  dsimp only
  split <;> rfl

theorem fire_timers (q : TimerQueue) : q.fire.timers = q.timers := by
  obtain ⟨timerfd, h⟩ := fire_eq q
  rw [h]

/-- An entry leaves `timers_` by the cancellation of its timer, and enters it by
`addTimerInLoop`. -/
theorem step_timers (h : Inv s) (hstep : system.step s a s') (hframe : s.frame = some f)
    (ha : a ≠ .handleReadEnd) :
    e ∈ s'.timers ↔
      (e ∈ s.timers ∧ ∀ t, s.heap e.timer = some t → a ≠ .cancelInLoop ⟨e.timer, t.sequence⟩) ∨
      ∃ p t, a = .addTimerInLoop p ∧ s.heap p = some t ∧ e = ⟨t.expiration, p⟩ := by
  cases step_cases h hstep.1 hstep.2 with
  | newTimer _ _ _ _ _ => simp [newTimer]
  | addTimerInLoop r u _ hu =>
      rw [timers_added, OrdSet.mem_insert]
      constructor
      · rintro (rfl | he)
        · exact Or.inr ⟨r, u, rfl, hu, rfl⟩
        · exact Or.inl ⟨he, by simp⟩
      · rintro (⟨he, _⟩ | ⟨r', u', hr, hu', rfl⟩)
        · exact Or.inr he
        · cases hr
          rw [hu] at hu'
          cases hu'
          exact Or.inl rfl
  | cancelInLoop timerId hspec =>
      have hadd : ∀ r, Act.cancelInLoop timerId ≠ .addTimerInLoop r := by simp
      simp only [hadd, false_and, exists_false, or_false]
      cases hspec with
      | found u hu hseq htim =>
          show e ∈ s.timers.erase ⟨u.expiration, timerId.timer⟩ ↔ _
          rw [OrdSet.mem_erase]
          refine and_congr_right ?_
          intro he
          rcases h.consistent.timers_live e he with ⟨v, hv, hexp, _⟩
          constructor
          · -- The one entry of the cancelled timer is the erased one.
            rintro hne w hw hcancel
            cases hcancel
            rw [hu] at hv
            cases hv
            exact hne (by rw [hexp])
          · rintro hkeep rfl
            rw [hu] at hv
            cases hv
            exact hkeep u hu (by rw [hseq])
      | recorded hnot _ | ignored hnot _ =>
          constructor
          · intro he
            refine ⟨he, ?_⟩
            rintro v hv hcancel
            cases hcancel
            rcases h.consistent.timers_live e he with ⟨w, hw, _, hact⟩
            rw [hv] at hw
            cases hw
            exact hnot hact
          · exact And.left
  | fire => simp [fire_timers]
  | handleReadBegin now active hnone _ =>
      rw [hframe] at hnone
      cases hnone
  | handleReadRun _ => simp
  | handleReadEnd _ _ _ => exact absurd rfl ha

/-- A timer of the batch is marked exactly by its own cancellation. -/
theorem step_canceling (h : Inv s) (hstep : system.step s a s') (hframe : s.frame = some f)
    (ha : a ≠ .handleReadEnd) (hp : p ∈ f.expired.map Entry.timer) (ht : s.heap p = some t) :
    ActiveTimer.mk p t.sequence ∈ s'.cancelingTimers ↔
      ActiveTimer.mk p t.sequence ∈ s.cancelingTimers ∨ a = .cancelInLoop ⟨p, t.sequence⟩ := by
  have hheld : p ∈ s.created ++ batchOf s := by
    simp only [batchOf, hframe]
    exact List.mem_append_right _ hp
  cases step_cases h hstep.1 hstep.2 with
  | newTimer _ _ _ _ _ => simp [newTimer]
  | addTimerInLoop r u _ _ => simp
  | cancelInLoop timerId hspec =>
      cases hspec with
      | found u hu hseq htim =>
          -- A timer that is found is active, so it is not in the batch.
          have hne : timerId ≠ ⟨p, t.sequence⟩ := by
            rintro rfl
            exact h.consistent.held_idle _ htim hheld
          simp [TimerQueue.cancelled, hne]
      | recorded _ _ =>
          rw [OrdSet.mem_insert, or_comm]
          refine or_congr_right ?_
          constructor
          · intro heq
            cases timerId
            cases heq
            rfl
          · intro heq
            cases heq
            rfl
      | ignored _ hcalling =>
          have := h.calling
          rw [hcalling, hframe] at this
          cases this
  | fire =>
      obtain ⟨timerfd, hfire⟩ := fire_eq s
      simp [hfire]
  | handleReadBegin now active hnone _ =>
      rw [hframe] at hnone
      cases hnone
  | handleReadRun _ => simp
  | handleReadEnd _ _ _ => exact absurd rfl ha

/-! ## A stretch of callbacks -/

/-- The entry was there and its timer is not cancelled. -/
def Keeps (s : TimerQueue) (as : List Act) (e : Entry) : Prop :=
  e ∈ s.timers ∧ ∀ t, s.heap e.timer = some t → .cancelInLoop ⟨e.timer, t.sequence⟩ ∉ as

/-- The entry belongs to a timer that is added and not cancelled afterwards. -/
def Adds (s : TimerQueue) (as : List Act) (e : Entry) : Prop :=
  ∃ as₁ p as₂ s₁ t, as = as₁ ++ .addTimerInLoop p :: as₂ ∧ system.Run s as₁ s₁ ∧
    s₁.heap p = some t ∧ .cancelInLoop ⟨p, t.sequence⟩ ∉ as₂ ∧ e = ⟨t.expiration, p⟩

/-- What happened to a queue inside a batch while it went from `s` to `s'`. -/
structure Progress (f : Frame) (s : TimerQueue) (as : List Act) (s' : TimerQueue) : Prop where
  inv : Inv s'
  frame : ∃ rest, s'.frame = some ⟨f.now, f.expired, rest⟩ ∧ f.rest = callbacks s as ++ rest
  timers : ∀ e, e ∈ s'.timers ↔ Keeps s as e ∨ Adds s as e
  held : ∀ p ∈ f.expired.map Entry.timer, ∀ t, s.heap p = some t → s'.heap p = some t ∧
    (ActiveTimer.mk p t.sequence ∈ s'.cancelingTimers ↔
      ActiveTimer.mk p t.sequence ∈ s.cancelingTimers ∨ .cancelInLoop ⟨p, t.sequence⟩ ∈ as)
  added : ∀ p, .addTimerInLoop p ∈ as → p ∉ f.expired.map Entry.timer

theorem Progress.refl (h : Inv s) (hframe : s.frame = some f) : Progress f s [] s where
  inv := h
  frame := ⟨f.rest, hframe, rfl⟩
  timers := by
    intro e
    constructor
    · intro he
      exact Or.inl ⟨he, by simp⟩
    · rintro (⟨he, _⟩ | ⟨as₁, p, as₂, _, _, happ, _⟩)
      · exact he
      · simp at happ
  held := by simp
  added := by simp

/-- An addition after a first step is the first step itself or comes later. -/
theorem adds_cons (hstep : system.step s a q) :
    Adds s (a :: as) e ↔
      (∃ p t, a = .addTimerInLoop p ∧ s.heap p = some t ∧ .cancelInLoop ⟨p, t.sequence⟩ ∉ as ∧
        e = ⟨t.expiration, p⟩) ∨ Adds q as e := by
  constructor
  · rintro ⟨as₁, p, as₂, s₁, t, happ, hrun, ht, hnot, he⟩
    cases hrun with
    | nil =>
        cases happ
        exact Or.inl ⟨p, t, rfl, ht, hnot, he⟩
    | cons hfirst hrest =>
        cases happ
        -- The step function has one result.
        have hsame := hfirst.2
        rw [hstep.2] at hsame
        cases hsame
        exact Or.inr ⟨_, p, as₂, s₁, t, rfl, hrest, ht, hnot, he⟩
  · rintro (⟨p, t, rfl, ht, hnot, he⟩ | ⟨as₁, p, as₂, s₁, t, rfl, hrun, ht, hnot, he⟩)
    · exact ⟨[], p, as, s, t, rfl, .nil s, ht, hnot, he⟩
    · exact ⟨a :: as₁, p, as₂, s₁, t, rfl, .cons hstep hrun, ht, hnot, he⟩

theorem keeps_cons (h : Inv s) (hstep : system.step s a q) (hframe : s.frame = some f)
    (ha : a ≠ .handleReadEnd) :
    Keeps q as e ↔ Keeps s (a :: as) e ∨
      ∃ p t, a = .addTimerInLoop p ∧ s.heap p = some t ∧ .cancelInLoop ⟨p, t.sequence⟩ ∉ as ∧
        e = ⟨t.expiration, p⟩ := by
  -- The contents of a timer that the step does not cancel stay.
  have hheap : ∀ {r u}, s.heap r = some u → a ≠ .cancelInLoop ⟨r, u.sequence⟩ →
      q.heap r = some u := by
    intro r u hu hne
    exact (step_heap h hstep hframe ha hu).resolve_right fun hcancel => hne hcancel.1
  have hadd : ∀ {r u}, a = .addTimerInLoop r → s.heap r = some u → q.heap r = some u := by
    rintro r u rfl hu
    exact hheap hu (by simp)
  unfold Keeps
  rw [step_timers h hstep hframe ha]
  constructor
  · rintro ⟨⟨he, hne⟩ | ⟨r, u, hr, hu, rfl⟩, hnot⟩
    · refine Or.inl ⟨he, ?_⟩
      intro u hu hmem
      rcases List.mem_cons.1 hmem with heq | hmem
      · exact hne u hu heq.symm
      · exact hnot u (hheap hu (hne u hu)) hmem
    · exact Or.inr ⟨r, u, hr, hu, hnot u (hadd hr hu), rfl⟩
  · rintro (⟨he, hnot⟩ | ⟨r, u, hr, hu, hnot, rfl⟩)
    · rcases h.consistent.timers_live e he with ⟨u, hu, _, _⟩
      have hne : a ≠ .cancelInLoop ⟨e.timer, u.sequence⟩ := by
        rintro rfl
        exact hnot u hu List.mem_cons_self
      refine ⟨Or.inl ⟨he, ?_⟩, ?_⟩
      · intro v hv
        rw [hu] at hv
        cases hv
        exact hne
      · intro v hv hmem
        rw [hheap hu hne] at hv
        cases hv
        exact hnot u hu (List.mem_cons_of_mem _ hmem)
    · refine ⟨Or.inr ⟨r, u, hr, hu, rfl⟩, ?_⟩
      intro v hv
      rw [hadd hr hu] at hv
      cases hv
      exact hnot

/-- Run induction: every stretch of callbacks makes progress. -/
theorem run_progress (hrun : system.Run s as s') :
    ∀ {f : Frame}, Inv s → s.frame = some f → .handleReadEnd ∉ as → Progress f s as s' := by
  induction hrun with
  | nil s =>
      intro f h hframe _
      exact Progress.refl h hframe
  | @cons s s₁ s' a as hstep hrest ih =>
      intro f h hframe hno
      have ha : a ≠ .handleReadEnd := by
        rintro rfl
        exact hno List.mem_cons_self
      obtain ⟨rest, hframe₁, hrest₁⟩ := step_frame h hstep hframe ha
      have hinv₁ := (step_inv h hstep).1
      have hprog := ih hinv₁ hframe₁ fun hmem => hno (List.mem_cons_of_mem _ hmem)
      refine ⟨hprog.inv, ?_, ?_, ?_, ?_⟩
      · obtain ⟨rest', hframe', hrest'⟩ := hprog.frame
        refine ⟨rest', hframe', ?_⟩
        rw [callbacks_cons hstep.2, hrest₁, List.append_assoc]
        exact congrArg _ hrest'
      · intro e
        rw [hprog.timers, keeps_cons h hstep hframe ha, adds_cons hstep, or_assoc]
      · intro p hp t ht
        -- A timer of the batch is not active, so no step deletes it.
        have hkept : s₁.heap p = some t := by
          rcases step_heap h hstep hframe ha ht with hkept | ⟨_, hact⟩
          · exact hkept
          · have hheld : p ∈ s.created ++ batchOf s := by
              simp only [batchOf, hframe]
              exact List.mem_append_right _ hp
            exact absurd hact (h.consistent.not_mem_active hheld t.sequence)
        obtain ⟨hheap, hcan⟩ := hprog.held p hp t hkept
        refine ⟨hheap, ?_⟩
        rw [hcan, step_canceling h hstep hframe ha hp ht, List.mem_cons, or_assoc, eq_comm]
      · intro p hmem
        rcases List.mem_cons.1 hmem with rfl | hmem
        · -- A timer that waits for its `addTimerInLoop` is not in the batch.
          have hcreated : p ∈ s.created := hstep.1
          have hnodup := h.consistent.held_nodup
          simp only [batchOf, hframe] at hnodup
          exact fun hin => (List.nodup_append.1 hnodup).2.2 p hcreated p hin rfl
        · exact hprog.added p hmem

/-! ## The whole batch -/

/-- Every timer has one entry. -/
theorem Consistent.entry_inj {batch : List Addr} (h : Consistent q batch) {e e' : Entry}
    (he : e ∈ q.timers) (he' : e' ∈ q.timers) (heq : e.timer = e'.timer) : e = e' := by
  rcases h.timers_live e he with ⟨t, ht, hexp, _⟩
  rcases h.timers_live e' he' with ⟨t', ht', hexp', _⟩
  rw [heq, ht'] at ht
  cases ht
  cases e
  cases e'
  simp_all

theorem Consistent.timers_nodup {batch : List Addr} (h : Consistent q batch) :
    (q.timers.elems.map Entry.timer).Nodup :=
  List.Nodup.map_on (fun _ he _ he' heq => h.entry_inj he he' heq) q.timers.nodup

/-- A repeating timer that was due and is not cancelled in the batch, with its next entry. -/
def RestartsDue (q : TimerQueue) (now : Int) (as : List Act) (e : Entry) : Prop :=
  ∃ it ∈ q.timers, it.expiration ≤ now ∧ ∃ t, q.heap it.timer = some t ∧ t.repeat_ = true ∧
    .cancelInLoop ⟨it.timer, t.sequence⟩ ∉ as ∧ e = ⟨now + t.interval, it.timer⟩

/-- The work of a batch that began in `q` at `now`, ran its callbacks from `q₁` on with the
actions `as`, and left `q₃`. -/
structure BatchWork (q : TimerQueue) (now : Int) (q₁ : TimerQueue) (as : List Act)
    (q₃ : TimerQueue) : Prop where
  /-- The callbacks are those of the timers that were due. -/
  due : ∀ e, e ∈ callbacks q₁ as ↔ e ∈ q.timers ∧ e.expiration ≤ now
  once : ((callbacks q₁ as).map Entry.timer).Nodup
  ordered : (callbacks q₁ as).Pairwise fun e e' => e.expiration ≤ e'.expiration
  /-- A timer added during the batch is not run in it. -/
  notAdded : ∀ p, .addTimerInLoop p ∈ as → p ∉ (callbacks q₁ as).map Entry.timer
  timers : ∀ e, e ∈ q₃.timers ↔
    (now < e.expiration ∧ Keeps q as e) ∨ Adds q₁ as e ∨ RestartsDue q now as e
  distinct : (q₃.timers.elems.map Entry.timer).Nodup

/-- What `reset` has to start again at the end, seen from the beginning of the batch. -/
theorem Progress.restarts {now : Int} {active : OrdSet ActiveTimer} (h : Inv q)
    (hprog : Progress ⟨now, q.expiredAt now, q.expiredAt now⟩ (q.begun now active) as q') :
    Restarts q' now (q.expiredAt now) e ↔ RestartsDue q now as e := by
  have hheld : ∀ it ∈ q.expiredAt now, ∀ t, q.heap it.timer = some t → q'.heap it.timer = some t ∧
      (ActiveTimer.mk it.timer t.sequence ∈ q'.cancelingTimers ↔
        .cancelInLoop ⟨it.timer, t.sequence⟩ ∈ as) := by
    intro it hit t ht
    have hrel := hprog.held it.timer (List.mem_map_of_mem hit) t ht
    simpa [begun] using hrel
  constructor
  · rintro ⟨it, hit, t, ht, hrep, hcan, rfl⟩
    rcases h.consistent.mem_expiredAt.1 hit with ⟨hmem, hexp⟩
    rcases h.consistent.timers_live it hmem with ⟨u, hu, _, _⟩
    rcases hheld it hit u hu with ⟨hu', hiff⟩
    rw [hu'] at ht
    cases ht
    exact ⟨it, hmem, hexp, t, hu, hrep, fun hin => hcan (hiff.2 hin), rfl⟩
  · rintro ⟨it, hmem, hexp, t, ht, hrep, hnot, rfl⟩
    have hit := h.consistent.mem_expiredAt.2 ⟨hmem, hexp⟩
    rcases hheld it hit t ht with ⟨ht', hiff⟩
    exact ⟨it, hit, t, ht', hrep, fun hin => hnot (hiff.1 hin), rfl⟩

/-- What was undue when the batch began, and is not cancelled in it. -/
theorem keeps_begun {now : Int} {active : OrdSet ActiveTimer} (h : Inv q) :
    Keeps (q.begun now active) as e ↔ now < e.expiration ∧ Keeps q as e := by
  have hmem : e ∈ (q.begun now active).timers ↔ e ∈ q.timers ∧ now < e.expiration :=
    h.consistent.mem_from_sentry
  unfold Keeps
  rw [hmem]
  constructor
  · rintro ⟨⟨he, hlt⟩, hnot⟩
    exact ⟨hlt, he, hnot⟩
  · rintro ⟨hlt, he, hnot⟩
    exact ⟨⟨he, hlt⟩, hnot⟩

/-- One timer batch does exactly its work, from every reachable state, for every clock reading,
and whatever its callbacks add and cancel. -/
theorem batch_exact {q₁ q₂ q₃ : TimerQueue} {now : Int} (hq : system.Reachable q)
    (hbegin : system.step q (.handleReadBegin now) q₁) (hrun : system.Run q₁ as q₂)
    (hno : .handleReadEnd ∉ as) (hend : system.step q₂ .handleReadEnd q₃) :
    BatchWork q now q₁ as q₃ := by
  have h := reachable_inv hq
  cases step_cases h hbegin.1 hbegin.2 with
  | handleReadBegin _ active _ hinv =>
      have hprog := run_progress hrun hinv rfl hno
      obtain ⟨rest, hframe, hrest⟩ := hprog.frame
      -- The end of the batch finds no callback left.
      have hall : callbacks (q.begun now active) as = q.expiredAt now := by
        obtain ⟨f, hf, hnil⟩ := hend.1
        rw [hframe] at hf
        cases hf
        have hnil' : rest = [] := hnil
        rw [hnil', List.append_nil] at hrest
        exact hrest.symm
      refine ⟨?_, ?_, ?_, ?_, ?_, ?_⟩
      · intro e
        rw [hall]
        exact h.consistent.mem_expiredAt
      · rw [hall]
        exact h.consistent.expired_nodup now
      · rw [hall]
        exact (q.timers.below (sentry now)).increasing.imp fun hlt =>
          Entry.expiration_le_of_le (le_of_lt hlt)
      · intro p hp
        rw [hall]
        exact hprog.added p hp
      · intro e
        rw [mem_timers_handleReadEnd hprog.inv hframe hend.2 e, hprog.timers, keeps_begun h,
          hprog.restarts h, or_assoc]
      · exact (step_inv hprog.inv hend).1.consistent.timers_nodup

/-- Timers 16 and 32 are due at 10 and 48 is not; the callback of 16 adds 64, which is already
due, and cancels 48. -/
def mixedRun : List Act :=
  [.newTimer 16 10 0 false, .addTimerInLoop 16, .newTimer 32 10 5 true, .addTimerInLoop 32,
    .newTimer 48 100 0 false, .addTimerInLoop 48, .fire, .handleReadBegin 10, .handleReadRun,
    .newTimer 64 3 0 false, .addTimerInLoop 64, .cancelInLoop ⟨48, 3⟩, .handleReadRun,
    .handleReadEnd]

theorem batch_exact_mixed :
    BatchWork (after (mixedRun.take 7)) 10 (after (mixedRun.take 8))
        ((mixedRun.drop 8).take 5) (after mixedRun) ∧
      (after mixedRun).timers.elems = [⟨3, 64⟩, ⟨15, 32⟩] := by
  have hpre : system.Run TimerQueue.new (mixedRun.take 7) (after (mixedRun.take 7)) :=
    StepSystem.run_of_execAll (by decide) rfl
  have hbegin : system.step (after (mixedRun.take 7)) (.handleReadBegin 10)
      (after (mixedRun.take 8)) := ⟨by decide, rfl⟩
  have hrun : system.Run (after (mixedRun.take 8)) ((mixedRun.drop 8).take 5)
      (after (mixedRun.take 13)) := StepSystem.run_of_execAll (by decide) rfl
  have hend : system.step (after (mixedRun.take 13)) .handleReadEnd (after mixedRun) :=
    ⟨by decide, rfl⟩
  exact ⟨batch_exact (hpre.reachable (StepSystem.Reachable.init rfl)) hbegin hrun (by decide) hend,
    by decide⟩

/-! ## Cancelling a timer of the same batch -/

/-- The callback of one timer of a batch cancels another one, `it`, whose callback has not run
yet: the batch begins in `q`, runs `as` up to the cancellation in `q₂`, and `bs` after it. -/
structure CancelInBatch (now : Int) (q q₁ q₂ q₃ q₄ q₅ : TimerQueue) (as bs : List Act) (it : Entry)
    (t : Timer) : Prop where
  reachable : system.Reachable q
  begins : system.step q (.handleReadBegin now) q₁
  before : system.Run q₁ as q₂
  /-- A callback has been started; it is the one that cancels. -/
  running : callbacks q₁ as ≠ []
  waiting : ∃ f, q₂.frame = some f ∧ it ∈ f.rest
  timer : q₂.heap it.timer = some t
  cancels : system.step q₂ (.cancelInLoop ⟨it.timer, t.sequence⟩) q₃
  after : system.Run q₃ bs q₄
  inside : .handleReadEnd ∉ as ++ bs
  ends : system.step q₄ .handleReadEnd q₅

/-- The loop of `handleRead` does not look at `cancelingTimers_`: the cancelled callback is run
in the same batch all the same. -/
theorem cancelled_callback_runs {now : Int} {q₁ q₂ q₃ q₄ q₅ : TimerQueue} {bs : List Act}
    {it : Entry} (h : CancelInBatch now q q₁ q₂ q₃ q₄ q₅ as bs it t) : it ∈ callbacks q₃ bs := by
  have hinside := h.inside
  rw [List.mem_append, not_or] at hinside
  have hinv₁ := (step_inv (reachable_inv h.reachable) h.begins).1
  have hinv₂ : Inv q₂ :=
    h.before.preserves (P := Inv) (fun hs hstep => (step_inv hs hstep).1) hinv₁
  obtain ⟨f, hframe, hit⟩ := h.waiting
  -- The cancellation leaves the entries that are still to run as they are.
  obtain ⟨rest, hframe₃, hrest⟩ := step_frame hinv₂ h.cancels hframe (by simp)
  have hprog := run_progress h.after (step_inv hinv₂ h.cancels).1 hframe₃ hinside.2
  obtain ⟨rest', hframe₄, hrest'⟩ := hprog.frame
  obtain ⟨f₄, hf₄, hnil⟩ := h.ends.1
  rw [hframe₄] at hf₄
  cases hf₄
  have hnil' : rest' = [] := hnil
  rw [hrest] at hit
  have hit' : it ∈ rest := hit
  rw [hnil', List.append_nil] at hrest'
  exact hrest' ▸ hit'

/-- Two one-shot timers that are due together; the callback of the first cancels the second. -/
def pairRun : List Act :=
  [.newTimer 16 10 0 false, .addTimerInLoop 16, .newTimer 32 10 0 false, .addTimerInLoop 32, .fire,
    .handleReadBegin 10, .handleReadRun, .cancelInLoop ⟨32, 2⟩, .handleReadRun, .handleReadEnd]

theorem pairRun_cancelInBatch :
    CancelInBatch 10 (after (pairRun.take 5)) (after (pairRun.take 6)) (after (pairRun.take 7))
      (after (pairRun.take 8)) (after (pairRun.take 9)) (after pairRun) [.handleReadRun]
      [.handleReadRun] ⟨10, 32⟩ ⟨10, 0, false, 2⟩ := by
  have hpre : system.Run TimerQueue.new (pairRun.take 5) (after (pairRun.take 5)) :=
    StepSystem.run_of_execAll (by decide) rfl
  exact
    { reachable := hpre.reachable (StepSystem.Reachable.init rfl)
      begins := ⟨by decide, rfl⟩
      before := StepSystem.run_of_execAll (by decide) rfl
      running := by decide
      waiting := ⟨⟨10, [⟨10, 16⟩, ⟨10, 32⟩], [⟨10, 32⟩]⟩, rfl, by decide⟩
      timer := rfl
      cancels := ⟨by decide, rfl⟩
      after := StepSystem.run_of_execAll (by decide) rfl
      inside := by decide
      ends := ⟨by decide, rfl⟩ }

theorem cancelled_callback_runs_pair :
    Entry.mk 10 32 ∈ callbacks (after (pairRun.take 8)) [.handleReadRun] :=
  cancelled_callback_runs pairRun_cancelInBatch

/-- Cancelling does not take effect at once inside a batch. -/
theorem cancel_in_batch_too_late :
    ¬ ∀ (now : Int) (q q₁ q₂ q₃ q₄ q₅ : TimerQueue) (as bs : List Act) (it : Entry) (t : Timer),
      CancelInBatch now q q₁ q₂ q₃ q₄ q₅ as bs it t → it ∉ callbacks q₃ bs := by
  intro hclaim
  refine hclaim _ _ _ _ _ _ _ _ _ _ _ pairRun_cancelInBatch ?_
  decide

end TimerQueue

end Net
end Muduo
