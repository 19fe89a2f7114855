import Muduo.Net.TimerQueue

/-!
# TimerQueueInvariant — the two indexes and the timer heap stay consistent

`Consistent q batch` relates the two indexes to the heap while the timers of `batch` are held
by a running `handleRead`: they are alive and in neither index.  Each operation has one
specification lemma that gives its exact result on a consistent queue, so that no `assert`
fails and no deleted timer is read or deleted; the invariant of every run follows from them.
-/

namespace Muduo
namespace Net
namespace TimerQueue

variable {q q' : TimerQueue} {batch : List Addr} {p : Addr} {t : Timer}

/-! ## The invariant -/

structure Consistent (q : TimerQueue) (batch : List Addr) : Prop where
  timers_live : ∀ e ∈ q.timers, ∃ t, q.heap e.timer = some t ∧ t.expiration = e.expiration ∧
    ActiveTimer.mk e.timer t.sequence ∈ q.activeTimers
  active_live : ∀ a ∈ q.activeTimers, ∃ t, q.heap a.timer = some t ∧ t.sequence = a.sequence ∧
    Entry.mk t.expiration a.timer ∈ q.timers
  held_nodup : (q.created ++ batch).Nodup
  held_live : ∀ p ∈ q.created ++ batch, ∃ t, q.heap p = some t
  held_idle : ∀ e ∈ q.timers, e.timer ∉ q.created ++ batch
  addr_lt : ∀ p t, q.heap p = some t → p < UINTPTR_MAX
  sequence_pos : ∀ p t, q.heap p = some t → 0 < t.sequence
  sequence_le : ∀ p t, q.heap p = some t → t.sequence ≤ q.numCreated
  sequence_inj : ∀ p p' t t', q.heap p = some t → q.heap p' = some t' →
    t.sequence = t'.sequence → p = p'

/-- The timers that a running `handleRead` holds. -/
def batchOf (q : TimerQueue) : List Addr :=
  match q.frame with
  | some f => f.expired.map Entry.timer
  | none => []

/-- The invariant of a state between two steps. -/
structure Inv (q : TimerQueue) : Prop where
  consistent : Consistent q (batchOf q)
  calling : q.callingExpiredTimers = q.frame.isSome
  rest : ∀ f ∈ q.frame, f.rest <:+ f.expired

/-- Only the heap, the created timers and the two indexes matter for consistency. -/
theorem Consistent.congr (h : Consistent q batch) (hheap : q'.heap = q.heap)
    (hcreated : q'.created = q.created)
    (hnum : q'.numCreated = q.numCreated) (htimers : q'.timers = q.timers)
    (hactive : q'.activeTimers = q.activeTimers) : Consistent q' batch := by
  rcases q with ⟨heap, created, num, _, timers, active, _, _, _⟩
  rcases q' with ⟨heap', created', num', _, timers', active', _, _, _⟩
  simp only at hheap hcreated hnum htimers hactive
  subst hheap hcreated hnum htimers hactive
  exact ⟨h.timers_live, h.active_live, h.held_nodup, h.held_live, h.held_idle, h.addr_lt,
    h.sequence_pos, h.sequence_le, h.sequence_inj⟩

theorem Consistent.size_eq (h : Consistent q batch) : q.timers.size = q.activeTimers.size := by
  -- `(expiration, t) ↦ (t, sequence)` is a bijection, its inverse reads the expiration.
  refine OrdSet.size_eq_of_bijection
    (fun e => ⟨e.timer, ((q.heap e.timer).map Timer.sequence).getD 0⟩)
    (fun a => ⟨((q.heap a.timer).map Timer.expiration).getD 0, a.timer⟩) ?_ ?_
  · intro e he
    rcases h.timers_live e he with ⟨t, ht, hexp, hact⟩
    simp [ht, hexp, hact]
  · intro a ha
    rcases h.active_live a ha with ⟨t, ht, hseq, htim⟩
    simp [ht, hseq, htim]

/-- A heap whose timers all have the address and the sequence number of an old one keeps the
facts about addresses and sequence numbers. -/
theorem Consistent.heap_of_old (h : Consistent q batch) {heap : Addr → Option Timer}
    (hold : ∀ r u, heap r = some u → ∃ u₀, q.heap r = some u₀ ∧ u₀.sequence = u.sequence) :
    (∀ r u, heap r = some u → r < UINTPTR_MAX) ∧
      (∀ r u, heap r = some u → 0 < u.sequence) ∧
      (∀ r u, heap r = some u → u.sequence ≤ q.numCreated) ∧
      (∀ r r' u u', heap r = some u → heap r' = some u' → u.sequence = u'.sequence → r = r') := by
  refine ⟨?_, ?_, ?_, ?_⟩
  · intro r u hu
    rcases hold r u hu with ⟨u₀, hu₀, _⟩
    exact h.addr_lt r u₀ hu₀
  · intro r u hu
    rcases hold r u hu with ⟨u₀, hu₀, hs⟩
    exact hs ▸ h.sequence_pos r u₀ hu₀
  · intro r u hu
    rcases hold r u hu with ⟨u₀, hu₀, hs⟩
    exact hs ▸ h.sequence_le r u₀ hu₀
  · intro r r' u u' hu hu' hs
    rcases hold r u hu with ⟨u₀, hu₀, hs₀⟩
    rcases hold r' u' hu' with ⟨u₁, hu₁, hs₁⟩
    exact h.sequence_inj r r' u₀ u₁ hu₀ hu₁ (by rw [hs₀, hs₁, hs])

/-- A deletion brings no timer to life. -/
theorem old_of_update_none (heap : Addr → Option Timer) (p r : Addr) (u : Timer)
    (hu : Function.update heap p none r = some u) :
    ∃ u₀, heap r = some u₀ ∧ u₀.sequence = u.sequence := by
  by_cases hr : r = p
  · subst hr
    simp at hu
  · exact ⟨u, by simpa [hr] using hu, rfl⟩

theorem deref_eq (h : q.heap p = some t) : q.deref p = .ok t := by
  simp [deref, h]

theorem delete_eq (h : q.heap p = some t) :
    q.delete p = .ok { q with heap := Function.update q.heap p none } := by
  simp [delete, h]

/-! ## `insert` and `addTimerInLoop` -/

/-- A held timer is in neither index. -/
theorem Consistent.not_mem_active (h : Consistent q batch) (hp : p ∈ q.created ++ batch)
    (n : Nat) : ActiveTimer.mk p n ∉ q.activeTimers := by
  intro hmem
  rcases h.active_live _ hmem with ⟨t, _, _, htim⟩
  exact h.held_idle _ htim hp

/-- The queue after `insert` of a timer with contents `t`. -/
def inserted (q : TimerQueue) (p : Addr) (t : Timer) : TimerQueue :=
  { q with timers := q.timers.insert ⟨t.expiration, p⟩
           activeTimers := q.activeTimers.insert ⟨p, t.sequence⟩ }

theorem Consistent.inserted (h : Consistent q (p :: batch)) (ht : q.heap p = some t) :
    Consistent (q.inserted p t) batch := by
  have hheld : q.created ++ batch ⊆ q.created ++ p :: batch :=
    ((List.sublist_cons_self p batch).append_left q.created).subset
  have hsplit := List.nodup_middle.1 h.held_nodup
  refine ⟨?_, ?_, ?_, ?_, ?_, h.addr_lt, h.sequence_pos, h.sequence_le, h.sequence_inj⟩
  · intro e he
    rcases OrdSet.mem_insert.1 he with rfl | he
    · exact ⟨t, ht, rfl, OrdSet.mem_insert.2 (Or.inl rfl)⟩
    · rcases h.timers_live e he with ⟨t', ht', hexp, hact⟩
      exact ⟨t', ht', hexp, OrdSet.mem_insert.2 (Or.inr hact)⟩
  · intro a ha
    rcases OrdSet.mem_insert.1 ha with rfl | ha
    · exact ⟨t, ht, rfl, OrdSet.mem_insert.2 (Or.inl rfl)⟩
    · rcases h.active_live a ha with ⟨t', ht', hseq, htim⟩
      exact ⟨t', ht', hseq, OrdSet.mem_insert.2 (Or.inr htim)⟩
  · exact (List.nodup_cons.1 hsplit).2
  · intro r hr
    exact h.held_live r (hheld hr)
  · intro e he hr
    rcases OrdSet.mem_insert.1 he with rfl | he
    · -- `p` was held once, so it is not held any more.
      exact (List.nodup_cons.1 hsplit).1 hr
    · exact h.held_idle e he (hheld hr)

theorem insert_ok (h : Consistent q (p :: batch)) (ht : q.heap p = some t) :
    q.insert p = .ok (q.inserted p t, q.earliestChanged t.expiration) := by
  -- Each `assert` of `insert` is one of these facts.
  have hp : p ∈ q.created ++ p :: batch := List.mem_append_right _ List.mem_cons_self
  have htim : Entry.mk t.expiration p ∉ q.timers := fun hmem => h.held_idle _ hmem hp
  have hact : ActiveTimer.mk p t.sequence ∉ q.activeTimers := h.not_mem_active hp _
  have hsize : (q.timers.insert ⟨t.expiration, p⟩).size =
      (q.activeTimers.insert ⟨p, t.sequence⟩).size := (h.inserted ht).size_eq
  simp only [insert, assert_pos h.size_eq, deref_eq ht, assert_pos htim, assert_pos hact,
    assert_pos hsize, ok_bind, pure_eq_ok]
  rfl

/-- Taking a timer out of `created_` hands it to the caller. -/
theorem Consistent.take_created (h : Consistent q batch) (hp : p ∈ q.created) :
    Consistent { q with created := q.created.erase p } (p :: batch) := by
  have hperm : (q.created.erase p ++ p :: batch).Perm (q.created ++ batch) :=
    List.perm_middle.trans ((List.perm_cons_erase hp).symm.append_right batch)
  refine ⟨h.timers_live, h.active_live, hperm.nodup_iff.2 h.held_nodup, ?_, ?_, h.addr_lt,
    h.sequence_pos, h.sequence_le, h.sequence_inj⟩
  · intro r hr
    exact h.held_live r (hperm.mem_iff.1 hr)
  · intro e he hr
    exact h.held_idle e he (hperm.mem_iff.1 hr)

/-- The queue after `addTimerInLoop` of a timer with contents `t`. -/
def added (q : TimerQueue) (p : Addr) (t : Timer) : TimerQueue :=
  let q' := inserted { q with created := q.created.erase p } p t
  if q.earliestChanged t.expiration then q'.resetTimerfd t.expiration else q'

@[simp] theorem added_heap (q : TimerQueue) (p : Addr) (t : Timer) :
    (q.added p t).heap = q.heap := by
  unfold added
  dsimp only
  split <;> rfl

@[simp] theorem added_numCreated (q : TimerQueue) (p : Addr) (t : Timer) :
    (q.added p t).numCreated = q.numCreated := by
  unfold added
  dsimp only
  split <;> rfl

@[simp] theorem added_calling (q : TimerQueue) (p : Addr) (t : Timer) :
    (q.added p t).callingExpiredTimers = q.callingExpiredTimers := by
  unfold added
  dsimp only
  split <;> rfl

@[simp] theorem added_canceling (q : TimerQueue) (p : Addr) (t : Timer) :
    (q.added p t).cancelingTimers = q.cancelingTimers := by
  unfold added
  dsimp only
  split <;> rfl

@[simp] theorem added_frame (q : TimerQueue) (p : Addr) (t : Timer) :
    (q.added p t).frame = q.frame := by
  unfold added
  dsimp only
  split <;> rfl

theorem addTimerInLoop_ok (h : Consistent q batch) (hp : p ∈ q.created) (ht : q.heap p = some t) :
    q.addTimerInLoop p = .ok (q.added p t) ∧ Consistent (q.added p t) batch := by
  have hheld := h.take_created hp
  have hins := insert_ok hheld ht
  have hcons := hheld.inserted ht
  have hderef : (inserted { q with created := q.created.erase p } p t).deref p = .ok t :=
    deref_eq ht
  have hsame : earliestChanged { q with created := q.created.erase p } t.expiration =
      q.earliestChanged t.expiration := rfl
  unfold added
  cases hearliest : q.earliestChanged t.expiration with
  | true =>
      refine ⟨?_, hcons.congr rfl rfl rfl rfl rfl⟩
      simp [addTimerInLoop, hins, hsame, hearliest, hderef]
  | false =>
      refine ⟨?_, hcons⟩
      simp [addTimerInLoop, hins, hsame, hearliest]

theorem Consistent.newTimer (h : Consistent q batch) (hp : q.heap p = none)
    (hlt : p < UINTPTR_MAX) (when_ : Int) (interval : Int) (repeat_ : Bool) :
    Consistent (q.newTimer p when_ interval repeat_) batch := by
  -- A fresh address differs from every address in use, so old lookups are unchanged.
  have hne : ∀ r t, q.heap r = some t → r ≠ p := by
    rintro r t hr rfl
    rw [hp] at hr
    cases hr
  have hold : ∀ r t, q.heap r = some t →
      (q.newTimer p when_ interval repeat_).heap r = some t := by
    intro r t hr
    simpa [TimerQueue.newTimer, hne r t hr] using hr
  have hnew : ∀ r t, (q.newTimer p when_ interval repeat_).heap r = some t →
      r = p ∧ t.sequence = q.numCreated + 1 ∨ r ≠ p ∧ q.heap r = some t := by
    intro r t hr
    by_cases hrp : r = p
    · subst hrp
      simp only [TimerQueue.newTimer, Function.update_self, Option.some.injEq] at hr
      subst hr
      exact Or.inl ⟨rfl, rfl⟩
    · exact Or.inr ⟨hrp, by simpa [TimerQueue.newTimer, hrp] using hr⟩
  have hfresh : p ∉ q.created ++ batch := by
    intro hmem
    rcases h.held_live p hmem with ⟨t, ht⟩
    exact hne p t ht rfl
  refine ⟨?_, ?_, ?_, ?_, ?_, ?_, ?_, ?_, ?_⟩
  -- The indexes do not change, and their timers are still there.
  · intro e he
    rcases h.timers_live e he with ⟨t, ht, hexp, hact⟩
    exact ⟨t, hold _ _ ht, hexp, hact⟩
  · intro a ha
    rcases h.active_live a ha with ⟨t, ht, hseq, htim⟩
    exact ⟨t, hold _ _ ht, hseq, htim⟩
  -- The new timer is held until its `addTimerInLoop`.
  · exact List.nodup_cons.2 ⟨hfresh, h.held_nodup⟩
  · intro r hr
    rcases List.mem_cons.1 (show r ∈ p :: (q.created ++ batch) from hr) with rfl | hr
    · exact ⟨_, by simp [TimerQueue.newTimer]; rfl⟩
    · rcases h.held_live r hr with ⟨t, ht⟩
      exact ⟨t, hold _ _ ht⟩
  · intro e he hr
    rcases List.mem_cons.1 (show e.timer ∈ p :: (q.created ++ batch) from hr) with hep | hr
    · rcases h.timers_live e he with ⟨t, ht, _, _⟩
      exact hne _ _ ht hep
    · exact h.held_idle e he hr
  · intro r t hr
    rcases hnew r t hr with ⟨rfl, _⟩ | ⟨_, hr⟩
    · exact hlt
    · exact h.addr_lt r t hr
  -- Its sequence number is above every number in use.
  · intro r t hr
    rcases hnew r t hr with ⟨_, hseq⟩ | ⟨_, hr⟩
    · omega
    · exact h.sequence_pos r t hr
  · intro r t hr
    have hnum : (q.newTimer p when_ interval repeat_).numCreated = q.numCreated + 1 := rfl
    rcases hnew r t hr with ⟨_, hseq⟩ | ⟨_, hr⟩
    · omega
    · have := h.sequence_le r t hr
      omega
  · intro r r' t t' hr hr' hseq
    rcases hnew r t hr with ⟨hrp, hs⟩ | ⟨_, hold₁⟩
    · rcases hnew r' t' hr' with ⟨hrp', _⟩ | ⟨_, hold₂⟩
      · exact hrp.trans hrp'.symm
      · have := h.sequence_le r' t' hold₂
        omega
    · rcases hnew r' t' hr' with ⟨_, hs'⟩ | ⟨_, hold₂⟩
      · have := h.sequence_le r t hold₁
        omega
      · exact h.sequence_inj r r' t t' hold₁ hold₂ hseq

/-! ## `cancelInLoop` -/

/-- The queue after `cancelInLoop` found the timer, whose contents are `t`. -/
def cancelled (q : TimerQueue) (p : Addr) (t : Timer) : TimerQueue :=
  { q with heap := Function.update q.heap p none
           timers := q.timers.erase ⟨t.expiration, p⟩
           activeTimers := q.activeTimers.erase ⟨p, t.sequence⟩ }

theorem Consistent.cancelled (h : Consistent q batch) (ht : q.heap p = some t)
    (hact : ActiveTimer.mk p t.sequence ∈ q.activeTimers) :
    Consistent (q.cancelled p t) batch := by
  have hidle : p ∉ q.created ++ batch := by
    intro hmem
    exact h.not_mem_active hmem _ hact
  rcases h.heap_of_old (old_of_update_none q.heap p) with ⟨haddr, hpos, hle, hinj⟩
  refine ⟨?_, ?_, h.held_nodup, ?_, ?_, haddr, hpos, hle, hinj⟩
  · intro e he
    rcases OrdSet.mem_erase.1 he with ⟨he, hne⟩
    rcases h.timers_live e he with ⟨t', ht', hexp, hact'⟩
    -- An entry of the deleted timer would be the erased one.
    have hep : e.timer ≠ p := by
      intro hep
      apply hne
      rw [hep, ht] at ht'
      cases ht'
      cases e
      simp_all
    refine ⟨t', by simpa [TimerQueue.cancelled, hep] using ht', hexp, ?_⟩
    refine OrdSet.mem_erase.2 ⟨hact', ?_⟩
    intro heq
    exact hep (congrArg ActiveTimer.timer heq)
  · intro a ha
    rcases OrdSet.mem_erase.1 ha with ⟨ha, hne⟩
    rcases h.active_live a ha with ⟨t', ht', hseq, htim⟩
    have hap : a.timer ≠ p := by
      intro hap
      apply hne
      rw [hap, ht] at ht'
      cases ht'
      cases a
      simp_all
    refine ⟨t', by simpa [TimerQueue.cancelled, hap] using ht', hseq, ?_⟩
    refine OrdSet.mem_erase.2 ⟨htim, ?_⟩
    intro heq
    exact hap (congrArg Entry.timer heq)
  · intro r hr
    rcases h.held_live r hr with ⟨t', ht'⟩
    have hrp : r ≠ p := fun hrp => hidle (hrp ▸ hr)
    exact ⟨t', by simpa [TimerQueue.cancelled, hrp] using ht'⟩
  · intro e he
    exact h.held_idle e (OrdSet.mem_erase.1 he).1

/-- The three outcomes of `cancelInLoop`. -/
inductive CancelSpec (q : TimerQueue) (timerId : TimerId) : TimerQueue → Prop where
  | found (t : Timer) :
      q.heap timerId.timer = some t → t.sequence = timerId.sequence →
      Entry.mk t.expiration timerId.timer ∈ q.timers →
      CancelSpec q timerId (q.cancelled timerId.timer t)
  | recorded :
      ActiveTimer.mk timerId.timer timerId.sequence ∉ q.activeTimers →
      q.callingExpiredTimers = true →
      CancelSpec q timerId
        { q with cancelingTimers := q.cancelingTimers.insert ⟨timerId.timer, timerId.sequence⟩ }
  | ignored :
      ActiveTimer.mk timerId.timer timerId.sequence ∉ q.activeTimers →
      q.callingExpiredTimers = false → CancelSpec q timerId q

theorem cancelInLoop_ok (h : Consistent q batch) (timerId : TimerId) :
    ∃ q', q.cancelInLoop timerId = .ok q' ∧ CancelSpec q timerId q' ∧ Consistent q' batch := by
  by_cases hact : ActiveTimer.mk timerId.timer timerId.sequence ∈ q.activeTimers
  · rcases h.active_live _ hact with ⟨t, ht, hseq, htim⟩
    simp only at ht hseq htim
    have hact' : ActiveTimer.mk timerId.timer t.sequence ∈ q.activeTimers := by rwa [hseq]
    have hcons := h.cancelled ht hact'
    refine ⟨q.cancelled timerId.timer t, ?_, CancelSpec.found t ht hseq htim, hcons⟩
    have hsize : (q.timers.erase ⟨t.expiration, timerId.timer⟩).size =
        (q.activeTimers.erase ⟨timerId.timer, timerId.sequence⟩).size := by
      simpa [TimerQueue.cancelled, hseq] using hcons.size_eq
    have hdelete : delete { q with timers := q.timers.erase ⟨t.expiration, timerId.timer⟩ }
        timerId.timer = .ok { q with timers := q.timers.erase ⟨t.expiration, timerId.timer⟩
                                     heap := Function.update q.heap timerId.timer none } :=
      delete_eq ht
    simp only [cancelInLoop, assert_pos h.size_eq, if_pos hact, deref_eq ht, assert_pos htim,
      hdelete, ok_bind, pure_eq_ok, assert_pos hsize, TimerQueue.cancelled, hseq]
  · cases hcalling : q.callingExpiredTimers with
    | true =>
        refine ⟨_, ?_, CancelSpec.recorded hact hcalling, h.congr rfl rfl rfl rfl rfl⟩
        simp [cancelInLoop, assert_pos h.size_eq, hact, hcalling]
    | false =>
        refine ⟨q, ?_, CancelSpec.ignored hact hcalling, h⟩
        simp [cancelInLoop, assert_pos h.size_eq, hact, hcalling]

/-! ## `getExpired` -/

def sentry (now : Int) : Entry :=
  ⟨now, UINTPTR_MAX⟩

/-- The expired entries, in the order of `timers_`. -/
def expiredAt (q : TimerQueue) (now : Int) : List Entry :=
  (q.timers.below (sentry now)).elems

/-- No timer lives at the last address, so the sentry cuts `timers_` exactly by time. -/
theorem Consistent.lt_sentry_iff (h : Consistent q batch) {e : Entry} (he : e ∈ q.timers)
    (now : Int) : e < sentry now ↔ e.expiration ≤ now := by
  rcases h.timers_live e he with ⟨t, ht, _, _⟩
  have hlt := h.addr_lt _ _ ht
  rw [Entry.lt_iff]
  constructor
  · rintro (hexp | ⟨hexp, _⟩)
    · exact le_of_lt hexp
    · exact le_of_eq hexp
  · intro hexp
    rcases lt_or_eq_of_le hexp with hexp | hexp
    · exact Or.inl hexp
    · exact Or.inr ⟨hexp, hlt⟩

theorem Consistent.mem_expiredAt (h : Consistent q batch) {e : Entry} {now : Int} :
    e ∈ q.expiredAt now ↔ e ∈ q.timers ∧ e.expiration ≤ now := by
  constructor
  · intro he
    rcases OrdSet.mem_below.1 he with ⟨he, hlt⟩
    exact ⟨he, (h.lt_sentry_iff he now).1 hlt⟩
  · rintro ⟨he, hexp⟩
    exact OrdSet.mem_below.2 ⟨he, (h.lt_sentry_iff he now).2 hexp⟩

theorem Consistent.mem_from_sentry (h : Consistent q batch) {e : Entry} {now : Int} :
    e ∈ q.timers.from (sentry now) ↔ e ∈ q.timers ∧ now < e.expiration := by
  rw [OrdSet.mem_from]
  constructor
  · rintro ⟨he, hle⟩
    refine ⟨he, lt_of_not_ge ?_⟩
    intro hexp
    exact absurd ((h.lt_sentry_iff he now).2 hexp) (not_lt_of_ge hle)
  · rintro ⟨he, hexp⟩
    refine ⟨he, le_of_not_gt ?_⟩
    intro hlt
    exact absurd ((h.lt_sentry_iff he now).1 hlt) (not_le_of_gt hexp)

theorem Consistent.expired_nodup (h : Consistent q batch) (now : Int) :
    ((q.expiredAt now).map Entry.timer).Nodup := by
  -- Two entries with one timer have the expiration that this timer holds.
  refine List.Nodup.map_on ?_ (q.timers.below (sentry now)).nodup
  intro e he e' he' heq
  rcases h.timers_live e (OrdSet.mem_below.1 he).1 with ⟨t, ht, hexp, _⟩
  rcases h.timers_live e' (OrdSet.mem_below.1 he').1 with ⟨t', ht', hexp', _⟩
  rw [heq, ht'] at ht
  cases ht
  cases e
  cases e'
  simp_all

theorem eraseActive_ok {expired : List Entry} :
    ∀ {q : TimerQueue},
      (∀ it ∈ expired, ∃ t, q.heap it.timer = some t ∧
        ActiveTimer.mk it.timer t.sequence ∈ q.activeTimers) →
      (∀ a ∈ q.activeTimers, ∃ t, q.heap a.timer = some t ∧ t.sequence = a.sequence) →
      (expired.map Entry.timer).Nodup →
      ∃ active : OrdSet ActiveTimer, q.eraseActive expired = .ok { q with activeTimers := active } ∧
        ∀ a, a ∈ active ↔ a ∈ q.activeTimers ∧ a.timer ∉ expired.map Entry.timer := by
  induction expired with
  | nil =>
      intro q _ _ _
      exact ⟨q.activeTimers, rfl, by simp⟩
  | cons it expired ih =>
      intro q hlive hactive hnodup
      rcases hlive it List.mem_cons_self with ⟨t, ht, hmem⟩
      rcases List.nodup_cons.1 hnodup with ⟨hit, hrest⟩
      have hlive' : ∀ it' ∈ expired, ∃ t', q.heap it'.timer = some t' ∧
          ActiveTimer.mk it'.timer t'.sequence ∈
            q.activeTimers.erase ⟨it.timer, t.sequence⟩ := by
        intro it' hit'
        rcases hlive it' (List.mem_cons_of_mem _ hit') with ⟨t', ht', hmem'⟩
        refine ⟨t', ht', OrdSet.mem_erase.2 ⟨hmem', ?_⟩⟩
        intro heq
        apply hit
        have htimer : it'.timer = it.timer := congrArg ActiveTimer.timer heq
        exact htimer ▸ List.mem_map_of_mem hit'
      -- The induction hypothesis at the queue without the first timer.
      rcases ih (q := { q with activeTimers := q.activeTimers.erase ⟨it.timer, t.sequence⟩ })
        hlive' (fun a ha => hactive a (OrdSet.mem_erase.1 ha).1) hrest with
        ⟨active, herase, hspec⟩
      refine ⟨active, ?_, ?_⟩
      · simp [eraseActive, deref_eq ht, assert_pos hmem, herase]
      · intro a
        rw [hspec a, OrdSet.mem_erase, List.map_cons, List.mem_cons]
        constructor
        · rintro ⟨⟨ha, hne⟩, hnot⟩
          refine ⟨ha, ?_⟩
          rintro (heq | hin)
          · -- A live timer has one sequence number, so `a` would be the erased pair.
            rcases hactive a ha with ⟨t', ht', hseq⟩
            rw [heq, ht] at ht'
            cases ht'
            apply hne
            cases a
            simp_all
          · exact hnot hin
        · rintro ⟨ha, hnot⟩
          refine ⟨⟨ha, ?_⟩, fun hin => hnot (Or.inr hin)⟩
          rintro rfl
          exact hnot (Or.inl rfl)

/-- The batch leaves both indexes and is held from then on. -/
theorem Consistent.expired (h : Consistent q []) (now : Int) {active : OrdSet ActiveTimer}
    (hspec : ∀ a, a ∈ active ↔
      a ∈ q.activeTimers ∧ a.timer ∉ (q.expiredAt now).map Entry.timer) :
    Consistent { q with timers := q.timers.from (sentry now), activeTimers := active }
      ((q.expiredAt now).map Entry.timer) := by
  -- A timer cannot be expired and late at once.
  have hlate : ∀ e ∈ q.timers, now < e.expiration →
      e.timer ∉ (q.expiredAt now).map Entry.timer := by
    intro e he hlt hin
    rcases List.mem_map.1 hin with ⟨it, hit, htimer⟩
    rcases h.mem_expiredAt.1 hit with ⟨hit, hdue⟩
    rcases h.timers_live e he with ⟨t, ht, hexp, _⟩
    rcases h.timers_live it hit with ⟨t', ht', hexp', _⟩
    rw [htimer, ht] at ht'
    cases ht'
    omega
  refine ⟨?_, ?_, ?_, ?_, ?_, h.addr_lt, h.sequence_pos, h.sequence_le, h.sequence_inj⟩
  · intro e he
    rcases h.mem_from_sentry.1 he with ⟨he, hlt⟩
    rcases h.timers_live e he with ⟨t, ht, hexp, hact⟩
    exact ⟨t, ht, hexp, (hspec _).2 ⟨hact, hlate e he hlt⟩⟩
  · intro a ha
    rcases (hspec a).1 ha with ⟨ha, hnot⟩
    rcases h.active_live a ha with ⟨t, ht, hseq, htim⟩
    refine ⟨t, ht, hseq, h.mem_from_sentry.2 ⟨htim, lt_of_not_ge ?_⟩⟩
    intro hdue
    exact hnot (List.mem_map.2 ⟨_, h.mem_expiredAt.2 ⟨htim, hdue⟩, rfl⟩)
  · refine List.nodup_append.2 ⟨by simpa using h.held_nodup, h.expired_nodup now, ?_⟩
    rintro r hr r' hr' rfl
    rcases List.mem_map.1 hr' with ⟨it, hit, rfl⟩
    exact h.held_idle it (h.mem_expiredAt.1 hit).1 (List.mem_append_left _ hr)
  · intro r hr
    rcases List.mem_append.1 hr with hr | hr
    · exact h.held_live r (List.mem_append_left _ hr)
    · rcases List.mem_map.1 hr with ⟨it, hit, rfl⟩
      rcases h.timers_live it (h.mem_expiredAt.1 hit).1 with ⟨t, ht, _, _⟩
      exact ⟨t, ht⟩
  · intro e he hr
    rcases h.mem_from_sentry.1 he with ⟨he, hlt⟩
    rcases List.mem_append.1 hr with hr | hr
    · exact h.held_idle e he (List.mem_append_left _ hr)
    · exact hlate e he hlt hr

theorem getExpired_ok (h : Consistent q []) (now : Int) :
    ∃ active : OrdSet ActiveTimer,
      q.getExpired now =
        .ok ({ q with timers := q.timers.from (sentry now), activeTimers := active },
          q.expiredAt now) ∧
      Consistent { q with timers := q.timers.from (sentry now), activeTimers := active }
        ((q.expiredAt now).map Entry.timer) := by
  have hlive : ∀ it ∈ q.expiredAt now, ∃ t, q.heap it.timer = some t ∧
      ActiveTimer.mk it.timer t.sequence ∈ q.activeTimers := by
    intro it hit
    rcases h.timers_live it (h.mem_expiredAt.1 hit).1 with ⟨t, ht, _, hact⟩
    exact ⟨t, ht, hact⟩
  have hactive : ∀ a ∈ q.activeTimers, ∃ t, q.heap a.timer = some t ∧ t.sequence = a.sequence := by
    intro a ha
    rcases h.active_live a ha with ⟨t, ht, hseq, _⟩
    exact ⟨t, ht, hseq⟩
  rcases eraseActive_ok (q := { q with timers := q.timers.from (sentry now) }) hlive hactive
    (h.expired_nodup now) with ⟨active, herase, hspec⟩
  have hcons := h.expired now hspec
  refine ⟨active, ?_, hcons⟩
  -- `assert(end == timers_.end() || now < end->first)`
  have hend : ∀ end_ ∈ (q.timers.from (sentry now)).first?, now < end_.expiration := by
    intro end_ hend
    have hmem := (OrdSet.first?_eq_some_iff.1 hend).1
    exact (h.mem_from_sentry.1 hmem).2
  have hsize := hcons.size_eq
  simp only [sentry] at hend hsize
  simp only [sentry, expiredAt] at herase
  simp only [getExpired, assert_pos h.size_eq, assert_pos hend, herase, assert_pos hsize,
    ok_bind, pure_eq_ok, sentry, expiredAt]

/-! ## `reset` -/

/-- A held timer may change its contents, as long as its sequence number stays. -/
theorem Consistent.update_held (h : Consistent q (p :: batch)) (ht : q.heap p = some t)
    {t' : Timer} (hseq : t'.sequence = t.sequence) :
    Consistent { q with heap := Function.update q.heap p (some t') } (p :: batch) := by
  have hheld : p ∈ q.created ++ p :: batch := List.mem_append_right _ List.mem_cons_self
  have hother : ∀ {r u}, r ≠ p → q.heap r = some u →
      Function.update q.heap p (some t') r = some u := by
    intro r u hr hu
    simpa [hr] using hu
  -- Every timer of the new heap has the sequence number of one of the old heap.
  have hold : ∀ r u, Function.update q.heap p (some t') r = some u →
      ∃ u₀, q.heap r = some u₀ ∧ u₀.sequence = u.sequence := by
    intro r u hu
    by_cases hr : r = p
    · subst hr
      simp only [Function.update_self, Option.some.injEq] at hu
      subst hu
      exact ⟨t, ht, hseq.symm⟩
    · exact ⟨u, by simpa [hr] using hu, rfl⟩
  rcases h.heap_of_old hold with ⟨haddr, hpos, hle, hinj⟩
  refine ⟨?_, ?_, h.held_nodup, ?_, h.held_idle, haddr, hpos, hle, hinj⟩
  · intro e he
    rcases h.timers_live e he with ⟨u, hu, hexp, hact⟩
    have hep : e.timer ≠ p := fun hep => h.held_idle e he (hep ▸ hheld)
    exact ⟨u, hother hep hu, hexp, hact⟩
  · intro a ha
    rcases h.active_live a ha with ⟨u, hu, hs, htim⟩
    have hap : a.timer ≠ p := fun hap => h.held_idle _ htim (hap ▸ hheld)
    exact ⟨u, hother hap hu, hs, htim⟩
  · intro r hr
    by_cases hrp : r = p
    · subst hrp
      exact ⟨t', by simp⟩
    · rcases h.held_live r hr with ⟨u, hu⟩
      exact ⟨u, hother hrp hu⟩

/-- A held timer may be deleted. -/
theorem Consistent.delete_held (h : Consistent q (p :: batch)) :
    Consistent { q with heap := Function.update q.heap p none } batch := by
  have hheld : p ∈ q.created ++ p :: batch := List.mem_append_right _ List.mem_cons_self
  rcases List.nodup_cons.1 (List.nodup_middle.1 h.held_nodup) with ⟨hnot, hnodup⟩
  have hother : ∀ {r u}, r ≠ p → q.heap r = some u →
      Function.update q.heap p none r = some u := by
    intro r u hr hu
    simpa [hr] using hu
  have hmono : q.created ++ batch ⊆ q.created ++ p :: batch :=
    ((List.sublist_cons_self p batch).append_left q.created).subset
  rcases h.heap_of_old (old_of_update_none q.heap p) with ⟨haddr, hpos, hle, hinj⟩
  refine ⟨?_, ?_, hnodup, ?_, ?_, haddr, hpos, hle, hinj⟩
  · intro e he
    rcases h.timers_live e he with ⟨u, hu, hexp, hact⟩
    have hep : e.timer ≠ p := fun hep => h.held_idle e he (hep ▸ hheld)
    exact ⟨u, hother hep hu, hexp, hact⟩
  · intro a ha
    rcases h.active_live a ha with ⟨u, hu, hs, htim⟩
    have hap : a.timer ≠ p := fun hap => h.held_idle _ htim (hap ▸ hheld)
    exact ⟨u, hother hap hu, hs, htim⟩
  · intro r hr
    rcases h.held_live r (hmono hr) with ⟨u, hu⟩
    have hrp : r ≠ p := fun hrp => hnot (hrp ▸ hr)
    exact ⟨u, hother hrp hu⟩
  · intro e he hr
    exact h.held_idle e he (hmono hr)

/-- The queue after `restart` and `insert` of a timer with contents `t`. -/
def restarted (q : TimerQueue) (now : Int) (p : Addr) (t : Timer) : TimerQueue :=
  inserted { q with heap := Function.update q.heap p (some (t.restart now)) } p (t.restart now)

/-- The two outcomes of one iteration of `reset`. -/
inductive ResetSpec (q : TimerQueue) (now : Int) (it : Entry) : TimerQueue → Prop where
  | restarted (t : Timer) :
      q.heap it.timer = some t → t.repeat_ = true →
      ActiveTimer.mk it.timer t.sequence ∉ q.cancelingTimers →
      ResetSpec q now it (q.restarted now it.timer t)
  | deleted (t : Timer) :
      q.heap it.timer = some t →
      (t.repeat_ = false ∨ ActiveTimer.mk it.timer t.sequence ∈ q.cancelingTimers) →
      ResetSpec q now it { q with heap := Function.update q.heap it.timer none }

theorem resetTimer_ok {it : Entry} (h : Consistent q (it.timer :: batch)) (now : Int) :
    ∃ q', q.resetTimer now it = .ok q' ∧ ResetSpec q now it q' ∧ Consistent q' batch := by
  rcases h.held_live it.timer (List.mem_append_right _ List.mem_cons_self) with ⟨t, ht⟩
  by_cases hrestart : t.repeat_ = true ∧ ActiveTimer.mk it.timer t.sequence ∉ q.cancelingTimers
  · -- `restart` writes the key of the timer while it is in no index, then it is inserted.
    have hheld := h.update_held ht (t.restart_sequence now)
    have hnew : Function.update q.heap it.timer (some (t.restart now)) it.timer =
        some (t.restart now) := by simp
    refine ⟨q.restarted now it.timer t, ?_,
      ResetSpec.restarted t ht hrestart.1 hrestart.2, hheld.inserted hnew⟩
    simp [resetTimer, deref_eq ht, hrestart, insert_ok hheld hnew, restarted]
  · -- It is deleted; no later iteration reads it, since the batch has no duplicates.
    have hstop : t.repeat_ = false ∨
        ActiveTimer.mk it.timer t.sequence ∈ q.cancelingTimers := by
      by_cases hrep : t.repeat_ = true
      · exact Or.inr (by_contra fun hnot => hrestart ⟨hrep, hnot⟩)
      · exact Or.inl (by simpa using hrep)
    refine ⟨_, ?_, ResetSpec.deleted t ht hstop, h.delete_held⟩
    have hcond : (t.repeat_ && !decide (ActiveTimer.mk it.timer t.sequence ∈ q.cancelingTimers)) =
        false := by
      rcases hstop with hstop | hstop <;> simp [hstop]
    simp only [resetTimer, deref_eq ht, ok_bind, hcond, Bool.false_eq_true, if_false,
      delete_eq ht]

/-- The expiration that one iteration of `reset` carries over to the next. -/
def nextExpire (q : TimerQueue) (before : Int) : Int :=
  (q.timers.first?.map Entry.expiration).getD before

/-- The conditional `resetTimerfd` at the end of an iteration of `reset`. -/
def rearmed (q : TimerQueue) (next : Int) : TimerQueue :=
  if invalidTime < next then q.resetTimerfd next else q

@[simp] theorem rearmed_heap (q : TimerQueue) (next : Int) : (q.rearmed next).heap = q.heap := by
  unfold rearmed
  split <;> rfl

@[simp] theorem rearmed_timers (q : TimerQueue) (next : Int) :
    (q.rearmed next).timers = q.timers := by
  unfold rearmed
  split <;> rfl

@[simp] theorem rearmed_cancelingTimers (q : TimerQueue) (next : Int) :
    (q.rearmed next).cancelingTimers = q.cancelingTimers := by
  unfold rearmed
  split <;> rfl

@[simp] theorem rearmed_frame (q : TimerQueue) (next : Int) :
    (q.rearmed next).frame = q.frame := by
  unfold rearmed
  split <;> rfl

@[simp] theorem rearmed_calling (q : TimerQueue) (next : Int) :
    (q.rearmed next).callingExpiredTimers = q.callingExpiredTimers := by
  unfold rearmed
  split <;> rfl

theorem Consistent.rearmed (h : Consistent q batch) (next : Int) :
    Consistent (q.rearmed next) batch := by
  unfold TimerQueue.rearmed
  split
  · exact h.congr rfl rfl rfl rfl rfl
  · exact h

theorem resetLoop_cons {it : Entry} {expired : List Entry} {now before : Int}
    (hreset : q.resetTimer now it = .ok q') (h : Consistent q' batch) :
    resetLoop now (it :: expired) before q =
      resetLoop now expired (q'.nextExpire before) (q'.rearmed (q'.nextExpire before)) := by
  cases hfirst : q'.timers.first? with
  | none =>
      simp [resetLoop, hreset, hfirst, nextExpire, TimerQueue.rearmed]
  | some first =>
      -- `timers_.begin()->second->expiration()` is the key of that entry.
      rcases h.timers_live first (OrdSet.first?_eq_some_iff.1 hfirst).1 with ⟨t, ht, hexp, _⟩
      simp [resetLoop, hreset, hfirst, deref_eq ht, hexp, nextExpire, TimerQueue.rearmed]

/-- A timer occurs only once in a batch. -/
theorem Consistent.timer_ne_head {it : Entry} {expired : List Entry}
    (h : Consistent q (it.timer :: expired.map Entry.timer)) :
    ∀ it' ∈ expired, it'.timer ≠ it.timer := by
  intro it' hit' heq
  have hnodup := (List.nodup_append.1 h.held_nodup).2.1
  exact (List.nodup_cons.1 hnodup).1 (heq ▸ List.mem_map_of_mem hit')

/-- Induction rule for the loop of `reset`: a property of the remaining entries and the queue
that every iteration keeps holds of the result, and the loop does not fault. -/
theorem resetLoop_rule (now : Int) (P : List Entry → TimerQueue → Prop)
    (hP : ∀ {it expired q q' before}, P (it :: expired) q →
      Consistent q (it.timer :: expired.map Entry.timer) → ResetSpec q now it q' →
      P expired (q'.rearmed (q'.nextExpire before)))
    {expired : List Entry} :
    ∀ {q : TimerQueue} (before : Int), Consistent q (expired.map Entry.timer) → P expired q →
      ∃ q', resetLoop now expired before q = .ok q' ∧ Consistent q' [] ∧ P [] q' := by
  induction expired with
  | nil =>
      intro q before h hq
      exact ⟨q, rfl, h, hq⟩
  | cons it expired ih =>
      intro q before h hq
      rcases resetTimer_ok h now with ⟨q₁, hreset, hspec, hcons⟩
      rcases ih (q₁.nextExpire before) (hcons.rearmed _) (hP hq h hspec) with ⟨q₂, hloop, hrest⟩
      exact ⟨q₂, by rw [resetLoop_cons hreset hcons, hloop], hrest⟩

/-! ## Every step keeps the invariant -/

/-- Timers only come to life with new sequence numbers. -/
def Evolves (q q' : TimerQueue) : Prop :=
  q.numCreated ≤ q'.numCreated ∧
    ∀ p t', q'.heap p = some t' →
      q.numCreated < t'.sequence ∨ ∃ t, q.heap p = some t ∧ t.sequence = t'.sequence

theorem Evolves.of_eq (hheap : q'.heap = q.heap)
    (hnum : q'.numCreated = q.numCreated) : Evolves q q' := by
  refine ⟨le_of_eq hnum.symm, ?_⟩
  intro p t' ht'
  exact Or.inr ⟨t', by rwa [← hheap], rfl⟩

theorem Evolves.trans {q'' : TimerQueue} (h : Evolves q q') (h' : Evolves q' q'') :
    Evolves q q'' := by
  refine ⟨le_trans h.1 h'.1, ?_⟩
  intro p t'' ht''
  rcases h'.2 p t'' ht'' with hlt | ⟨t', ht', hseq'⟩
  · exact Or.inl (lt_of_le_of_lt h.1 hlt)
  · rcases h.2 p t' ht' with hlt | ⟨t, ht, hseq⟩
    · exact Or.inl (by rwa [← hseq'])
    · exact Or.inr ⟨t, ht, hseq.trans hseq'⟩

/-- Deleting a timer brings none to life. -/
theorem Evolves.delete (hheap : q'.heap = Function.update q.heap p none)
    (hnum : q'.numCreated = q.numCreated) : Evolves q q' := by
  refine ⟨le_of_eq hnum.symm, ?_⟩
  intro r t' ht'
  rw [hheap] at ht'
  exact Or.inr (old_of_update_none q.heap p r t' ht')

theorem Evolves.newTimer (q : TimerQueue) (p : Addr) (when_ interval : Int) (repeat_ : Bool) :
    Evolves q (q.newTimer p when_ interval repeat_) := by
  refine ⟨Nat.le_succ _, ?_⟩
  intro r t' ht'
  by_cases hr : r = p
  · subst hr
    simp only [TimerQueue.newTimer, Function.update_self, Option.some.injEq] at ht'
    subst ht'
    exact Or.inl (Nat.lt_succ_self _)
  · exact Or.inr ⟨t', by simpa [TimerQueue.newTimer, hr] using ht', rfl⟩

theorem ResetSpec.evolves {now : Int} {it : Entry} (h : ResetSpec q now it q') :
    Evolves q q' := by
  cases h with
  | restarted t ht _ _ =>
      -- `restart` keeps the sequence number.
      refine ⟨le_refl _, ?_⟩
      intro r t' ht'
      have ht'' : Function.update q.heap it.timer (some (t.restart now)) r = some t' := ht'
      by_cases hr : r = it.timer
      · subst hr
        simp only [Function.update_self, Option.some.injEq] at ht''
        subst ht''
        exact Or.inr ⟨t, ht, (t.restart_sequence now).symm⟩
      · exact Or.inr ⟨t', by simpa [hr] using ht'', rfl⟩
  | deleted t _ _ => exact Evolves.delete rfl rfl

theorem Evolves.rearmed (h : Evolves q q') (next : Int) : Evolves q (q'.rearmed next) := by
  unfold TimerQueue.rearmed
  split
  · exact h.trans (Evolves.of_eq rfl rfl)
  · exact h

theorem ResetSpec.frame {now : Int} {it : Entry} (h : ResetSpec q now it q') :
    q'.frame = q.frame ∧ q'.callingExpiredTimers = q.callingExpiredTimers := by
  cases h with
  | restarted t _ _ _ => exact ⟨rfl, rfl⟩
  | deleted t _ _ => exact ⟨rfl, rfl⟩

/-- One iteration of `reset` touches its own timer only. -/
theorem ResetSpec.heap_of_ne {now : Int} {it : Entry} {p : Addr} (h : ResetSpec q now it q')
    (hp : p ≠ it.timer) : q'.heap p = q.heap p := by
  cases h with
  | restarted t _ _ _ => simp [TimerQueue.restarted, TimerQueue.inserted, hp]
  | deleted t _ _ => exact Function.update_of_ne hp _ _

theorem new_inv : Inv TimerQueue.new := by
  refine ⟨⟨?_, ?_, ?_, ?_, ?_, ?_, ?_, ?_, ?_⟩, rfl, ?_⟩ <;>
    simp [TimerQueue.new, batchOf]

theorem added_inv (h : Inv q) (hp : p ∈ q.created) (ht : q.heap p = some t) :
    Inv (q.added p t) ∧ Evolves q (q.added p t) := by
  have hcons := (addTimerInLoop_ok h.consistent hp ht).2
  refine ⟨⟨?_, ?_, ?_⟩, Evolves.of_eq (added_heap q p t) (added_numCreated q p t)⟩
  · simpa [batchOf] using hcons
  · rw [added_calling, added_frame]
    exact h.calling
  · rw [added_frame]
    exact h.rest

theorem CancelSpec.inv {timerId : TimerId} (h : Inv q) (hspec : CancelSpec q timerId q')
    (hcons : Consistent q' (batchOf q)) : Inv q' ∧ Evolves q q' := by
  cases hspec with
  | found t _ _ _ => exact ⟨⟨hcons, h.calling, h.rest⟩, Evolves.delete rfl rfl⟩
  | recorded _ _ => exact ⟨⟨hcons, h.calling, h.rest⟩, Evolves.of_eq rfl rfl⟩
  | ignored _ _ => exact ⟨h, Evolves.of_eq rfl rfl⟩

/-- The timerfd alone changes. -/
theorem fire_eq (q : TimerQueue) : ∃ timerfd, q.fire = { q with timerfd := timerfd } := by
  unfold fire
  split
  · exact ⟨.readable, rfl⟩
  · exact ⟨q.timerfd, rfl⟩

@[simp] theorem fire_heap (q : TimerQueue) : q.fire.heap = q.heap := by
  obtain ⟨timerfd, h⟩ := fire_eq q
  rw [h]

@[simp] theorem fire_frame (q : TimerQueue) : q.fire.frame = q.frame := by
  obtain ⟨timerfd, h⟩ := fire_eq q
  rw [h]

theorem fire_inv (h : Inv q) : Inv q.fire ∧ Evolves q q.fire := by
  obtain ⟨timerfd, hfire⟩ := fire_eq q
  rw [hfire]
  exact ⟨⟨h.consistent.congr rfl rfl rfl rfl rfl, h.calling, h.rest⟩, Evolves.of_eq rfl rfl⟩

/-- The queue when the callbacks of a batch begin; `active` are the timers left in
`activeTimers_`. -/
def begun (q : TimerQueue) (now : Int) (active : OrdSet ActiveTimer) : TimerQueue :=
  { q with
    timerfd := .disarmed
    timers := q.timers.from (sentry now)
    activeTimers := active
    callingExpiredTimers := true
    cancelingTimers := OrdSet.empty
    frame := some { now := now, expired := q.expiredAt now, rest := q.expiredAt now } }

theorem handleReadBegin_ok (h : Inv q) (hframe : q.frame = none) (now : Int) :
    ∃ active, q.handleReadBegin now = .ok (q.begun now active) ∧ Inv (q.begun now active) := by
  have hcons : Consistent q.readTimerfd [] := by
    have := h.consistent
    simp only [batchOf, hframe] at this
    exact this.congr rfl rfl rfl rfl rfl
  rcases getExpired_ok hcons now with ⟨active, hget, hcons'⟩
  refine ⟨active, ?_, ?_, rfl, ?_⟩
  · simp only [handleReadBegin, hget, ok_bind]
    rfl
  · exact hcons'.congr rfl rfl rfl rfl rfl
  · intro f hf
    simp only [begun, Option.mem_def, Option.some.injEq] at hf
    subst hf
    exact List.suffix_refl _

theorem handleReadRun_ok (h : Inv q) {now : Int} {expired rest : List Entry} {it : Entry}
    (hframe : q.frame = some { now := now, expired := expired, rest := it :: rest }) :
    q.handleReadRun =
        .ok { q with frame := some { now := now, expired := expired, rest := rest } } ∧
      Inv { q with frame := some { now := now, expired := expired, rest := rest } } := by
  -- The callback's timer belongs to the batch, so it is still alive.
  have hsuffix : it :: rest <:+ expired := h.rest _ hframe
  have hmem : it ∈ expired := hsuffix.mem List.mem_cons_self
  have hcons := h.consistent
  simp only [batchOf, hframe] at hcons
  rcases hcons.held_live it.timer
    (List.mem_append_right _ (List.mem_map_of_mem hmem)) with ⟨t, ht⟩
  refine ⟨?_, ?_, ?_, ?_⟩
  · simp [handleReadRun, hframe, deref_eq ht]
  · exact hcons.congr rfl rfl rfl rfl rfl
  · rw [h.calling, hframe]
    rfl
  · intro f hf
    simp only [Option.mem_def, Option.some.injEq] at hf
    subst hf
    exact (List.suffix_cons it rest).trans hsuffix

/-- The queue when `reset` is called. -/
def ended (q : TimerQueue) : TimerQueue :=
  { q with callingExpiredTimers := false, frame := none }

theorem handleReadEnd_eq {f : Frame} (hframe : q.frame = some f) :
    q.handleReadEnd = resetLoop f.now f.expired invalidTime q.ended := by
  simp [handleReadEnd, hframe, reset, ended]

theorem ended_consistent (h : Inv q) {f : Frame} (hframe : q.frame = some f) :
    Consistent q.ended (f.expired.map Entry.timer) := by
  have hcons := h.consistent
  simp only [batchOf, hframe] at hcons
  exact hcons.congr rfl rfl rfl rfl rfl

theorem handleReadEnd_ok (h : Inv q) {f : Frame} (hframe : q.frame = some f) :
    ∃ q', q.handleReadEnd = .ok q' ∧ q'.frame = none ∧ Inv q' ∧ Evolves q q' := by
  rcases resetLoop_rule f.now
    (fun _ q₁ => q₁.frame = none ∧ q₁.callingExpiredTimers = false ∧ Evolves q q₁)
    (by
      intro it expired q₁ q₂ before hP _ hspec
      refine ⟨?_, ?_, (hP.2.2.trans hspec.evolves).rearmed _⟩
      · rw [rearmed_frame, hspec.frame.1, hP.1]
      · rw [rearmed_calling, hspec.frame.2, hP.2.1])
    invalidTime (ended_consistent h hframe) ⟨rfl, rfl, Evolves.of_eq rfl rfl⟩ with
    ⟨q', hloop, hcons, hfr, hcalling, hevolves⟩
  refine ⟨q', by rw [handleReadEnd_eq hframe, hloop], hfr, ⟨?_, ?_, ?_⟩, hevolves⟩
  · simpa [batchOf, hfr] using hcons
  · simp [hcalling, hfr]
  · simp [hfr]

theorem exec_ok (h : Inv q) {a : Act} (hen : Enabled q a) :
    ∃ q', exec q a = .ok q' ∧ Inv q' ∧ Evolves q q' := by
  cases a with
  | newTimer p when_ interval repeat_ =>
      rcases hen with ⟨hnone, _, hlt⟩
      exact ⟨_, rfl, ⟨h.consistent.newTimer hnone hlt when_ interval repeat_, h.calling, h.rest⟩,
        Evolves.newTimer q p when_ interval repeat_⟩
  | addTimerInLoop p =>
      rcases h.consistent.held_live p (List.mem_append_left _ hen) with ⟨t, ht⟩
      exact ⟨q.added p t, (addTimerInLoop_ok h.consistent hen ht).1, added_inv h hen ht⟩
  | cancelInLoop timerId =>
      rcases cancelInLoop_ok h.consistent timerId with ⟨q', hq', hspec, hcons⟩
      exact ⟨q', hq', hspec.inv h hcons⟩
  | fire => exact ⟨q.fire, rfl, fire_inv h⟩
  | handleReadBegin now =>
      rcases handleReadBegin_ok h hen now with ⟨active, hq', hinv⟩
      exact ⟨_, hq', hinv, Evolves.of_eq rfl rfl⟩
  | handleReadRun =>
      rcases hen with ⟨⟨now, expired, rest⟩, hframe, hrest⟩
      cases rest with
      | nil => exact absurd rfl hrest
      | cons it rest =>
          rcases handleReadRun_ok h hframe with ⟨hq', hinv⟩
          exact ⟨_, hq', hinv, Evolves.of_eq rfl rfl⟩
  | handleReadEnd =>
      rcases hen with ⟨f, hframe, _⟩
      rcases handleReadEnd_ok h hframe with ⟨q', hq', _, hinv⟩
      exact ⟨q', hq', hinv⟩

theorem reachable_inv (hq : system.Reachable q) : Inv q := by
  refine (StepSystem.ofExec_safe (I := Inv) ?_ ?_ hq).1
  · rintro s rfl
    exact new_inv
  · intro s a hs hen
    rcases exec_ok hs hen with ⟨s', hs', hinv, _⟩
    exact ⟨s', hs', hinv⟩

/-! ## What a step can do -/

/-- The state after each action, in the words of the lemmas above. -/
inductive StepSpec (q : TimerQueue) : Act → TimerQueue → Prop where
  | newTimer (p : Addr) (when_ interval : Int) (repeat_ : Bool) : q.heap p = none →
      StepSpec q (.newTimer p when_ interval repeat_) (q.newTimer p when_ interval repeat_)
  | addTimerInLoop (p : Addr) (t : Timer) : p ∈ q.created → q.heap p = some t →
      StepSpec q (.addTimerInLoop p) (q.added p t)
  | cancelInLoop (timerId : TimerId) {q' : TimerQueue} : CancelSpec q timerId q' →
      StepSpec q (.cancelInLoop timerId) q'
  | fire : StepSpec q .fire q.fire
  | handleReadBegin (now : Int) (active : OrdSet ActiveTimer) : q.frame = none →
      Inv (q.begun now active) → StepSpec q (.handleReadBegin now) (q.begun now active)
  | handleReadRun {now : Int} {expired rest : List Entry} {it : Entry} :
      q.frame = some ⟨now, expired, it :: rest⟩ →
      StepSpec q .handleReadRun { q with frame := some ⟨now, expired, rest⟩ }
  | handleReadEnd (f : Frame) {q' : TimerQueue} : q.frame = some f →
      resetLoop f.now f.expired invalidTime q.ended = .ok q' → StepSpec q .handleReadEnd q'

theorem step_cases (h : Inv q) {a : Act} (hen : Enabled q a) (hexec : exec q a = .ok q') :
    StepSpec q a q' := by
  cases a with
  | newTimer p when_ interval repeat_ =>
      cases hexec
      exact StepSpec.newTimer p when_ interval repeat_ hen.1
  | addTimerInLoop p =>
      have hadd : q.addTimerInLoop p = .ok q' := hexec
      rcases h.consistent.held_live p (List.mem_append_left _ hen) with ⟨t, ht⟩
      rw [(addTimerInLoop_ok h.consistent hen ht).1] at hadd
      cases hadd
      exact StepSpec.addTimerInLoop p t hen ht
  | cancelInLoop timerId =>
      have hcancel : q.cancelInLoop timerId = .ok q' := hexec
      rcases cancelInLoop_ok h.consistent timerId with ⟨q₁, hq₁, hspec, _⟩
      rw [hq₁] at hcancel
      cases hcancel
      exact StepSpec.cancelInLoop timerId hspec
  | fire =>
      cases hexec
      exact StepSpec.fire
  | handleReadBegin now =>
      have hbegin : q.handleReadBegin now = .ok q' := hexec
      rcases handleReadBegin_ok h hen now with ⟨active, hq₁, hinv⟩
      rw [hq₁] at hbegin
      cases hbegin
      exact StepSpec.handleReadBegin now active hen hinv
  | handleReadRun =>
      have hrun : q.handleReadRun = .ok q' := hexec
      rcases hen with ⟨⟨now, expired, rest⟩, hframe, hrest⟩
      cases rest with
      | nil => exact absurd rfl hrest
      | cons it rest =>
          rw [(handleReadRun_ok h hframe).1] at hrun
          cases hrun
          exact StepSpec.handleReadRun hframe
  | handleReadEnd =>
      have hend : q.handleReadEnd = .ok q' := hexec
      rcases hen with ⟨f, hframe, _⟩
      rw [handleReadEnd_eq hframe] at hend
      exact StepSpec.handleReadEnd f hframe hend

/-- `resetLoop_rule` for the loop of a `handleRead` that has returned. -/
theorem resetLoop_post (h : Inv q) {f : Frame} (hframe : q.frame = some f)
    (hloop : resetLoop f.now f.expired invalidTime q.ended = .ok q')
    (P : List Entry → TimerQueue → Prop)
    (hP : ∀ {it expired q q' before}, P (it :: expired) q →
      Consistent q (it.timer :: expired.map Entry.timer) → ResetSpec q f.now it q' →
      P expired (q'.rearmed (q'.nextExpire before))) (h0 : P f.expired q.ended) : P [] q' := by
  rcases resetLoop_rule f.now P hP invalidTime (ended_consistent h hframe) h0 with
    ⟨q₂, hq₂, _, hdone⟩
  rw [hloop] at hq₂
  cases hq₂
  exact hdone

/-! ## Which timers `reset` starts again -/

/-- `reset` has still to insert the entry `e` for one of the timers `expired`. -/
def Restarts (q : TimerQueue) (now : Int) (expired : List Entry) (e : Entry) : Prop :=
  ∃ it ∈ expired, ∃ t, q.heap it.timer = some t ∧ t.repeat_ = true ∧
    ActiveTimer.mk it.timer t.sequence ∉ q.cancelingTimers ∧
    e = ⟨now + t.interval, it.timer⟩

/-- One iteration moves the restart of its own timer into `timers_` and no other. -/
theorem ResetSpec.restarts {now : Int} {it : Entry} {expired : List Entry} (before : Int)
    (h : Consistent q (it.timer :: expired.map Entry.timer)) (hspec : ResetSpec q now it q')
    (e : Entry) :
    (e ∈ (q'.rearmed before).timers ∨ Restarts (q'.rearmed before) now expired e) ↔
      (e ∈ q.timers ∨ Restarts q now (it :: expired) e) := by
  have hnot := h.timer_ne_head
  -- The other timers of the batch keep their contents, and so their restarts.
  have hrest : Restarts (q'.rearmed before) now expired e ↔ Restarts q now expired e := by
    have hheap : ∀ it' ∈ expired, (q'.rearmed before).heap it'.timer = q.heap it'.timer := by
      intro it' hit'
      rw [rearmed_heap, hspec.heap_of_ne (hnot it' hit')]
    have hcanceling : (q'.rearmed before).cancelingTimers = q.cancelingTimers := by
      rw [rearmed_cancelingTimers]
      cases hspec <;> rfl
    constructor
    · rintro ⟨it', hit', t, ht, hrep, hcan, rfl⟩
      exact ⟨it', hit', t, by rw [← hheap it' hit', ht], hrep, by rwa [← hcanceling], rfl⟩
    · rintro ⟨it', hit', t, ht, hrep, hcan, rfl⟩
      exact ⟨it', hit', t, by rw [hheap it' hit', ht], hrep, by rwa [hcanceling], rfl⟩
  rw [rearmed_timers, hrest]
  cases hspec with
  | restarted t ht hrep hcan =>
      have hexp : (t.restart now).expiration = now + t.interval := by simp [Timer.restart, hrep]
      have hmem : e ∈ (q.restarted now it.timer t).timers ↔
          e = ⟨now + t.interval, it.timer⟩ ∨ e ∈ q.timers := by
        rw [← hexp]
        exact OrdSet.mem_insert
      rw [hmem]
      constructor
      · rintro ((rfl | he) | ⟨it', hit', hr⟩)
        · exact Or.inr ⟨it, List.mem_cons_self, t, ht, hrep, hcan, rfl⟩
        · exact Or.inl he
        · exact Or.inr ⟨it', List.mem_cons_of_mem _ hit', hr⟩
      · rintro (he | ⟨it', hit', t', ht', hr⟩)
        · exact Or.inl (Or.inr he)
        · rcases List.mem_cons.1 hit' with rfl | hit'
          · rw [ht] at ht'
            cases ht'
            exact Or.inl (Or.inl hr.2.2)
          · exact Or.inr ⟨it', hit', t', ht', hr⟩
  | deleted t ht hstop =>
      constructor
      · rintro (he | ⟨it', hit', hr⟩)
        · exact Or.inl he
        · exact Or.inr ⟨it', List.mem_cons_of_mem _ hit', hr⟩
      · rintro (he | ⟨it', hit', t', ht', hrep, hcan, heq⟩)
        · exact Or.inl he
        · rcases List.mem_cons.1 hit' with rfl | hit'
          · -- The deleted timer was one-shot or cancelled, so it has no restart.
            rw [ht] at ht'
            cases ht'
            rcases hstop with hstop | hstop
            · rw [hstop] at hrep
              cases hrep
            · exact absurd hstop hcan
          · exact Or.inr ⟨it', hit', t', ht', hrep, hcan, heq⟩

/-- After `handleRead`, `timers_` holds what it held when `reset` was called and the restarts
of the batch. -/
theorem mem_timers_handleReadEnd (h : Inv q) {f : Frame} (hframe : q.frame = some f)
    (hend : q.handleReadEnd = .ok q') (e : Entry) :
    e ∈ q'.timers ↔ e ∈ q.timers ∨ Restarts q f.now f.expired e := by
  rcases resetLoop_rule f.now
    (fun expired q₁ => ∀ e, (e ∈ q₁.timers ∨ Restarts q₁ f.now expired e) ↔
      (e ∈ q.timers ∨ Restarts q f.now f.expired e))
    (by
      intro it expired q₁ q₂ before hP hcons hspec e
      exact (hspec.restarts _ hcons e).trans (hP e))
    invalidTime (ended_consistent h hframe) (fun e => Iff.rfl) with ⟨q₂, hloop, _, hmem⟩
  rw [handleReadEnd_eq hframe, hloop] at hend
  cases hend
  -- At the end of the loop no restart is left.
  rw [← hmem e]
  constructor
  · exact Or.inl
  · rintro (he | ⟨it, hit, _⟩)
    · exact he
    · cases hit

end TimerQueue

end Net
end Muduo
