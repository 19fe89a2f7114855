import Muduo.Net.TimerQueueInvariant

/-!
# TimerQueueSafety — what holds of the timer queue in every run

`indexes_consistent` collects, for every state that any interleaving of timer creation,
`addTimerInLoop`, `cancelInLoop`, timerfd expirations and the parts of `handleRead` reaches:

* the two indexes range over the same live timers (`IndexesAgree`);
* no `assert` fails, no timer is deleted twice and none is read after its deletion (`NoFault`);
* a `TimerId` only ever removes or suppresses the timer with its own sequence number
  (`CancelsOnlyItsOwn`), and one whose timer is gone stays without effect for the rest of the
  run, wherever new timers are allocated (`StaleHarmless`).
-/

namespace Muduo
namespace Net
namespace TimerQueue

variable {q q' : TimerQueue}

/-! ## The properties -/

/-- `timers_ = {(t->expiration(), t)}` and `activeTimers_ = {(t, t->sequence())}` over one set
`live` of live timers. -/
def IndexesAgree (q : TimerQueue) : Prop :=
  ∃ live : Set Addr, (∀ p ∈ live, ∃ t, q.heap p = some t) ∧
    (∀ e, e ∈ q.timers ↔
      e.timer ∈ live ∧ ∃ t, q.heap e.timer = some t ∧ t.expiration = e.expiration) ∧
    (∀ a, a ∈ q.activeTimers ↔
      a.timer ∈ live ∧ ∃ t, q.heap a.timer = some t ∧ t.sequence = a.sequence)

def NoFault (q : TimerQueue) : Prop :=
  ∀ a, Enabled q a → ∃ q', exec q a = .ok q'

/-- Cancelling `timerId` leaves every other live timer where it was, and does not mark it for
cancellation; and at the end of a batch a repeating timer is started again unless its own
sequence number is marked. -/
def CancelsOnlyItsOwn (q : TimerQueue) : Prop :=
  (∀ timerId q', q.cancelInLoop timerId = .ok q' →
    ∀ p t, q.heap p = some t → ¬ (p = timerId.timer ∧ t.sequence = timerId.sequence) →
      q'.heap p = some t ∧
      (∀ when_, Entry.mk when_ p ∈ q'.timers ↔ Entry.mk when_ p ∈ q.timers) ∧
      (ActiveTimer.mk p t.sequence ∈ q'.activeTimers ↔
        ActiveTimer.mk p t.sequence ∈ q.activeTimers) ∧
      (ActiveTimer.mk p t.sequence ∈ q'.cancelingTimers ↔
        ActiveTimer.mk p t.sequence ∈ q.cancelingTimers)) ∧
  (∀ f, q.frame = some f → ∀ q', q.handleReadEnd = .ok q' →
    ∀ it ∈ f.expired, ∀ t, q.heap it.timer = some t → t.repeat_ = true →
      ActiveTimer.mk it.timer t.sequence ∉ q.cancelingTimers →
      Entry.mk (f.now + t.interval) it.timer ∈ q'.timers)

/-- The timer that `timerId` was issued for is gone (or it is the default `TimerId`). -/
def Stale (q : TimerQueue) (timerId : TimerId) : Prop :=
  timerId.sequence ≤ q.numCreated ∧
    ∀ p t, q.heap p = some t → t.sequence ≠ timerId.sequence

/-- A stale `TimerId` matches no live timer for the rest of the run, so that cancelling it
changes neither the heap nor the indexes and suppresses no timer. -/
def StaleHarmless (q : TimerQueue) : Prop :=
  ∀ timerId, Stale q timerId → ∀ as q', system.Run q as q' →
    Stale q' timerId ∧
    ∀ q'', q'.cancelInLoop timerId = .ok q'' →
      q''.heap = q'.heap ∧ q''.timers = q'.timers ∧ q''.activeTimers = q'.activeTimers ∧
      ∀ p t, q'.heap p = some t →
        (ActiveTimer.mk p t.sequence ∈ q''.cancelingTimers ↔
          ActiveTimer.mk p t.sequence ∈ q'.cancelingTimers)

/-! ## Proofs from the invariant -/

theorem Inv.indexesAgree (h : Inv q) : IndexesAgree q := by
  have hcons := h.consistent
  -- The live set is read off `timers_`.
  refine ⟨{p | ∃ e ∈ q.timers, e.timer = p}, ?_, ?_, ?_⟩
  · rintro p ⟨e, he, rfl⟩
    rcases hcons.timers_live e he with ⟨t, ht, _, _⟩
    exact ⟨t, ht⟩
  · intro e
    constructor
    · intro he
      rcases hcons.timers_live e he with ⟨t, ht, hexp, _⟩
      exact ⟨⟨e, he, rfl⟩, t, ht, hexp⟩
    · rintro ⟨⟨e', he', htimer⟩, t, ht, hexp⟩
      rcases hcons.timers_live e' he' with ⟨t', ht', hexp', _⟩
      rw [htimer, ht] at ht'
      cases ht'
      have heq : e' = e := by
        cases e
        cases e'
        simp_all
      exact heq ▸ he'
  · intro a
    constructor
    · intro ha
      rcases hcons.active_live a ha with ⟨t, ht, hseq, htim⟩
      exact ⟨⟨_, htim, rfl⟩, t, ht, hseq⟩
    · rintro ⟨⟨e', he', htimer⟩, t, ht, hseq⟩
      rcases hcons.timers_live e' he' with ⟨t', ht', _, hact⟩
      rw [htimer, ht] at ht'
      cases ht'
      rw [htimer, hseq] at hact
      exact hact

theorem Inv.noFault (h : Inv q) : NoFault q := by
  intro a hen
  rcases exec_ok h hen with ⟨q', hq', _⟩
  exact ⟨q', hq'⟩

theorem CancelSpec.others {timerId : TimerId} (h : CancelSpec q timerId q') {p : Addr} {t : Timer}
    (ht : q.heap p = some t) (hother : ¬ (p = timerId.timer ∧ t.sequence = timerId.sequence)) :
    q'.heap p = some t ∧
      (∀ when_, Entry.mk when_ p ∈ q'.timers ↔ Entry.mk when_ p ∈ q.timers) ∧
      (ActiveTimer.mk p t.sequence ∈ q'.activeTimers ↔
        ActiveTimer.mk p t.sequence ∈ q.activeTimers) ∧
      (ActiveTimer.mk p t.sequence ∈ q'.cancelingTimers ↔
        ActiveTimer.mk p t.sequence ∈ q.cancelingTimers) := by
  cases h with
  | found t' ht' hseq' htim =>
      -- The address of the cancelled timer holds the cancelled timer.
      have hp : p ≠ timerId.timer := by
        rintro rfl
        rw [ht] at ht'
        cases ht'
        exact hother ⟨rfl, hseq'⟩
      refine ⟨?_, ?_, ?_, Iff.rfl⟩
      · simpa [cancelled, hp] using ht
      · intro when_
        simp [cancelled, hp]
      · simp [cancelled, hp]
  | recorded _ _ =>
      refine ⟨ht, fun _ => Iff.rfl, Iff.rfl, ?_⟩
      have hne : ActiveTimer.mk p t.sequence ≠ ⟨timerId.timer, timerId.sequence⟩ := by
        intro heq
        exact hother ⟨congrArg ActiveTimer.timer heq, congrArg ActiveTimer.sequence heq⟩
      simp only [OrdSet.mem_insert, hne, false_or]
  | ignored _ _ => exact ⟨ht, fun _ => Iff.rfl, Iff.rfl, Iff.rfl⟩

theorem Inv.cancelsOnlyItsOwn (h : Inv q) : CancelsOnlyItsOwn q := by
  refine ⟨?_, ?_⟩
  · intro timerId q' hq' p t ht hother
    rcases cancelInLoop_ok h.consistent timerId with ⟨q₁, hq₁, hspec, _⟩
    rw [hq'] at hq₁
    cases hq₁
    exact hspec.others ht hother
  · intro f hframe q' hend it hit t ht hrep hcan
    refine (mem_timers_handleReadEnd h hframe hend _).2 (Or.inr ?_)
    exact ⟨it, hit, t, ht, hrep, hcan, rfl⟩

theorem Stale.of_evolves {timerId : TimerId} (h : Stale q timerId) (hev : Evolves q q') :
    Stale q' timerId := by
  refine ⟨le_trans h.1 hev.1, ?_⟩
  intro p t' ht' heq
  rcases hev.2 p t' ht' with hlt | ⟨t, ht, hseq⟩
  · -- A timer created since then has a number above every number issued before.
    have := h.1
    omega
  · exact h.2 p t ht (hseq.trans heq)

theorem Inv.staleHarmless (h : Inv q) : StaleHarmless q := by
  intro timerId hstale as q' hrun
  -- Along the run, the invariant and the staleness are kept together.
  have hkept : Inv q' ∧ Stale q' timerId := by
    refine hrun.preserves (P := fun q => Inv q ∧ Stale q timerId) ?_ ⟨h, hstale⟩
    rintro s a s' ⟨hs, hst⟩ ⟨hen, hexec⟩
    rcases exec_ok hs hen with ⟨s₁, hs₁, hinv, hev⟩
    rw [hexec] at hs₁
    cases hs₁
    exact ⟨hinv, hst.of_evolves hev⟩
  rcases hkept with ⟨hinv, hst⟩
  refine ⟨hst, ?_⟩
  intro q'' hq''
  rcases cancelInLoop_ok hinv.consistent timerId with ⟨q₁, hq₁, hspec, _⟩
  rw [hq''] at hq₁
  cases hq₁
  have hothers : ∀ p t, q'.heap p = some t →
      (ActiveTimer.mk p t.sequence ∈ q''.cancelingTimers ↔
        ActiveTimer.mk p t.sequence ∈ q'.cancelingTimers) := by
    intro p t ht
    exact (hspec.others ht fun hown => hst.2 p t ht hown.2).2.2.2
  cases hspec with
  | found t ht hseq _ => exact absurd hseq (hst.2 _ t ht)
  | recorded _ _ => exact ⟨rfl, rfl, rfl, hothers⟩
  | ignored _ _ => exact ⟨rfl, rfl, rfl, hothers⟩

/-- In every reachable state of the timer queue the indexes agree with the heap, no step
faults, and a `TimerId` acts on no timer but its own. -/
theorem indexes_consistent (hq : system.Reachable q) :
    IndexesAgree q ∧ NoFault q ∧ CancelsOnlyItsOwn q ∧ StaleHarmless q := by
  have h := reachable_inv hq
  exact ⟨h.indexesAgree, h.noFault, h.cancelsOnlyItsOwn, h.staleHarmless⟩

/-- A one-shot and a repeating timer expire together; the callbacks cancel the one-shot timer,
whose address a new timer then takes over, and cancel it once more through the stale id. -/
def reuseRun : List Act :=
  [.newTimer 16 10 0 false, .addTimerInLoop 16, .newTimer 32 10 5 true, .addTimerInLoop 32, .fire,
    .handleReadBegin 10, .handleReadRun, .cancelInLoop ⟨16, 1⟩, .handleReadRun, .handleReadEnd,
    .newTimer 16 20 0 false, .addTimerInLoop 16, .cancelInLoop ⟨16, 1⟩]

/-- The state that `reuseRun` ends in. -/
def reuseState : TimerQueue :=
  (StepSystem.execAll exec TimerQueue.new reuseRun).toOption.getD TimerQueue.new

theorem indexes_consistent_reuse :
    system.Reachable reuseState ∧
      (IndexesAgree reuseState ∧ NoFault reuseState ∧ CancelsOnlyItsOwn reuseState ∧
        StaleHarmless reuseState) := by
  have hrun : system.Run TimerQueue.new reuseRun reuseState :=
    StepSystem.run_of_execAll (by decide) rfl
  have hq : system.Reachable reuseState := hrun.reachable (StepSystem.Reachable.init rfl)
  exact ⟨hq, indexes_consistent hq⟩

end TimerQueue

end Net
end Muduo
