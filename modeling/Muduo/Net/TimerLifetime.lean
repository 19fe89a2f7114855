import Muduo.Net.TimerQueueSafety

/-!
# TimerLifetime — where a live timer is, and how it comes to be deleted

The timers of the heap are those that wait for their `addTimerInLoop`, those in
`activeTimers_`, and those of the batch that a running `handleRead` holds (`Accounted`).  A timer
leaves the heap in two ways only: `cancelInLoop` finds it in `activeTimers_`, or it belongs to a
batch whose `reset` does not start it again (`Fate`).
-/

namespace Muduo
namespace Net
namespace TimerQueue

variable {q q' : TimerQueue} {batch : List Addr} {p : Addr} {t : Timer} {timerId : TimerId}

/-- What `exec_ok` gives for a step of the system. -/
theorem step_inv (h : Inv q) {a : Act} (hstep : system.step q a q') : Inv q' ∧ Evolves q q' := by
  rcases hstep with ⟨hen, hexec⟩
  rcases exec_ok h hen with ⟨q₁, hq₁, hinv, hev⟩
  rw [hexec] at hq₁
  cases hq₁
  exact ⟨hinv, hev⟩

/-! ## Every live timer is accounted for -/

/-- A live timer waits for its `addTimerInLoop`, belongs to the batch, or is active. -/
def Accounted (q : TimerQueue) (batch : List Addr) : Prop :=
  ∀ p t, q.heap p = some t →
    p ∈ q.created ∨ p ∈ batch ∨ ActiveTimer.mk p t.sequence ∈ q.activeTimers

theorem Accounted.newTimer (h : Accounted q batch) (when_ interval : Int) (repeat_ : Bool) :
    Accounted (q.newTimer p when_ interval repeat_) batch := by
  intro r u hu
  by_cases hr : r = p
  · exact Or.inl (hr ▸ List.mem_cons_self)
  · have hold : q.heap r = some u := by
      simpa [TimerQueue.newTimer, hr] using hu
    rcases h r u hold with hcreated | hrest
    · exact Or.inl (List.mem_cons_of_mem _ hcreated)
    · exact Or.inr hrest

theorem added_created (q : TimerQueue) (p : Addr) (t : Timer) :
    (q.added p t).created = q.created.erase p := by
  unfold added
  dsimp only
  split <;> rfl

theorem mem_active_added (q : TimerQueue) (p : Addr) (t : Timer) (a : ActiveTimer) :
    a ∈ (q.added p t).activeTimers ↔ a = ⟨p, t.sequence⟩ ∨ a ∈ q.activeTimers := by
  have hactive : (q.added p t).activeTimers = q.activeTimers.insert ⟨p, t.sequence⟩ := by
    unfold added
    dsimp only
    split <;> rfl
  rw [hactive]
  exact OrdSet.mem_insert

theorem Accounted.added (h : Accounted q batch) (ht : q.heap p = some t) :
    Accounted (q.added p t) batch := by
  intro r u hu
  rw [added_heap] at hu
  rw [added_created, mem_active_added]
  by_cases hr : r = p
  · -- The timer moves from the created ones into `activeTimers_`.
    subst hr
    rw [ht] at hu
    cases hu
    exact Or.inr (Or.inr (Or.inl rfl))
  · rcases h r u hu with hcreated | hbatch | hactive
    · exact Or.inl ((List.mem_erase_of_ne hr).2 hcreated)
    · exact Or.inr (Or.inl hbatch)
    · exact Or.inr (Or.inr (Or.inr hactive))

theorem Accounted.cancel (h : Accounted q batch) (hspec : CancelSpec q timerId q') :
    Accounted q' batch := by
  cases hspec with
  | found t ht hseq _ =>
      intro r u hu
      have hr : r ≠ timerId.timer := by
        rintro rfl
        simp [cancelled] at hu
      have hold : q.heap r = some u := by
        simpa [cancelled, hr] using hu
      rcases h r u hold with hcreated | hbatch | hactive
      · exact Or.inl hcreated
      · exact Or.inr (Or.inl hbatch)
      · refine Or.inr (Or.inr (OrdSet.mem_erase.2 ⟨hactive, ?_⟩))
        intro heq
        exact hr (congrArg ActiveTimer.timer heq)
  | recorded _ _ => exact h
  | ignored _ _ => exact h

/-- A timer that was active is in the batch or still active when the callbacks begin. -/
theorem Accounted.begun (h : Accounted q []) (hcons : Consistent q []) {now : Int}
    {active : OrdSet ActiveTimer} (hbegun : Inv (q.begun now active)) :
    Accounted (q.begun now active) ((q.expiredAt now).map Entry.timer) := by
  intro r u hu
  rcases h r u hu with hcreated | hnone | hactive
  · exact Or.inl hcreated
  · cases hnone
  · rcases hcons.active_live _ hactive with ⟨u', hu', _, htim⟩
    rw [show q.heap r = some u from hu] at hu'
    cases hu'
    by_cases hexp : u.expiration ≤ now
    · have hexpired : Entry.mk u.expiration r ∈ q.expiredAt now :=
        hcons.mem_expiredAt.2 ⟨htim, hexp⟩
      exact Or.inr (Or.inl (List.mem_map_of_mem hexpired))
    · have hlate : Entry.mk u.expiration r ∈ (q.begun now active).timers :=
        hcons.mem_from_sentry.2 ⟨htim, lt_of_not_ge hexp⟩
      rcases hbegun.consistent.timers_live _ hlate with ⟨u'', hu'', _, hact⟩
      rw [show (q.begun now active).heap r = some u from hu] at hu''
      cases hu''
      exact Or.inr (Or.inr hact)

/-- One iteration of `reset` makes the head of the batch active again or deletes it. -/
theorem Accounted.resetStep {now : Int} {it : Entry} {expired : List Entry} (next : Int)
    (h : Accounted q (it.timer :: expired.map Entry.timer)) (hspec : ResetSpec q now it q') :
    Accounted (q'.rearmed next) (expired.map Entry.timer) := by
  have hmoved : Accounted q' (expired.map Entry.timer) := by
    intro r u hu
    cases hspec with
    | restarted t ht _ _ =>
        have hu' : Function.update q.heap it.timer (some (t.restart now)) r = some u := hu
        by_cases hr : r = it.timer
        · subst hr
          simp only [Function.update_self, Option.some.injEq] at hu'
          subst hu'
          exact Or.inr (Or.inr (OrdSet.mem_insert.2 (Or.inl rfl)))
        · have hold : q.heap r = some u := by
            simpa [hr] using hu'
          rcases h r u hold with hcreated | hbatch | hactive
          · exact Or.inl hcreated
          · exact Or.inr (Or.inl ((List.mem_cons.1 hbatch).resolve_left hr))
          · exact Or.inr (Or.inr (OrdSet.mem_insert.2 (Or.inr hactive)))
    | deleted t _ _ =>
        have hr : r ≠ it.timer := by
          rintro rfl
          simp at hu
        have hold : q.heap r = some u := by
          simpa [hr] using hu
        rcases h r u hold with hcreated | hbatch | hactive
        · exact Or.inl hcreated
        · exact Or.inr (Or.inl ((List.mem_cons.1 hbatch).resolve_left hr))
        · exact Or.inr (Or.inr hactive)
  unfold rearmed
  split
  · exact hmoved
  · exact hmoved

theorem exec_accounted (h : Inv q) (hacc : Accounted q (batchOf q)) {a : Act} (hen : Enabled q a)
    (hexec : exec q a = .ok q') : Accounted q' (batchOf q') := by
  cases step_cases h hen hexec with
  | newTimer p when_ interval repeat_ _ => exact hacc.newTimer when_ interval repeat_
  | addTimerInLoop p t _ ht => simpa [batchOf] using hacc.added ht
  | cancelInLoop timerId hspec =>
      have hbatch : batchOf q' = batchOf q := by
        cases hspec <;> rfl
      rw [hbatch]
      exact hacc.cancel hspec
  | fire =>
      have hsame : Accounted q.fire (batchOf q) := by
        obtain ⟨timerfd, hfire⟩ := fire_eq q
        rw [hfire]
        exact hacc
      simpa [batchOf] using hsame
  | handleReadBegin now active hframe hinv =>
      have hcons := h.consistent
      simp only [batchOf, hframe] at hcons hacc
      exact hacc.begun hcons hinv
  | handleReadRun hframe =>
      simp only [batchOf, hframe] at hacc
      exact hacc
  | handleReadEnd f hframe hloop =>
      simp only [batchOf, hframe] at hacc
      have hdone := resetLoop_post h hframe hloop (fun expired q₁ => q₁.frame = none ∧
        Accounted q₁ (expired.map Entry.timer)) ?_ ⟨rfl, hacc⟩
      · simp only [batchOf, hdone.1]
        exact hdone.2
      · intro it expired q₁ q₂ before hP _ hspec
        refine ⟨?_, hP.2.resetStep _ hspec⟩
        rw [rearmed_frame, hspec.frame.1, hP.1]

theorem reachable_accounted (hq : system.Reachable q) : Inv q ∧ Accounted q (batchOf q) := by
  refine hq.invariant (I := fun q => Inv q ∧ Accounted q (batchOf q)) ?_ ?_
  · rintro s rfl
    refine ⟨new_inv, ?_⟩
    intro p t ht
    cases ht
  · rintro s a s' ⟨hs, hacc⟩ ⟨hen, hexec⟩
    rcases exec_ok hs hen with ⟨s₁, hs₁, hinv, _⟩
    have hacc' := exec_accounted hs hacc hen hexec
    rw [hexec] at hs₁
    cases hs₁
    exact ⟨hinv, hacc'⟩

/-! ## The created timers -/

def createdAfter (created : List Addr) : Act → List Addr
  | .newTimer p _ _ _ => p :: created
  | .addTimerInLoop p => created.erase p
  | _ => created

theorem exec_created (h : Inv q) {a : Act} (hen : Enabled q a) (hexec : exec q a = .ok q') :
    q'.created = createdAfter q.created a := by
  cases step_cases h hen hexec with
  | newTimer _ _ _ _ _ => rfl
  | addTimerInLoop p t _ _ => exact added_created q p t
  | cancelInLoop timerId hspec => cases hspec <;> rfl
  | fire =>
      obtain ⟨timerfd, hfire⟩ := fire_eq q
      rw [hfire]
      rfl
  | handleReadBegin _ _ _ _ => rfl
  | handleReadRun _ => rfl
  | handleReadEnd f hframe hloop =>
      refine resetLoop_post h hframe hloop (fun _ q₁ => q₁.created = q.created) ?_ rfl
      intro it expired q₁ q₂ before hP _ hspec
      have hsame : q₂.created = q₁.created := by
        cases hspec <;> rfl
      unfold rearmed
      split
      · exact hsame.trans hP
      · exact hsame.trans hP

/-! ## What a step can do to a live timer -/

/-- A live timer keeps its number, or one of the two deletions of the source is its own. -/
inductive Fate (q : TimerQueue) (a : Act) (q' : TimerQueue) (p : Addr) (t : Timer) : Prop where
  | kept (t' : Timer) : q'.heap p = some t' → t'.sequence = t.sequence → Fate q a q' p t
  | cancelled :
      a = .cancelInLoop ⟨p, t.sequence⟩ → ActiveTimer.mk p t.sequence ∈ q.activeTimers →
      Fate q a q' p t
  | reset (f : Frame) :
      a = .handleReadEnd → q.frame = some f → p ∈ f.expired.map Entry.timer →
      (t.repeat_ = false ∨ ActiveTimer.mk p t.sequence ∈ q.cancelingTimers) → Fate q a q' p t

/-- One iteration of `reset` keeps a timer that it may not delete. -/
theorem ResetSpec.keeps {now : Int} {it : Entry} (hspec : ResetSpec q now it q')
    (ht : q.heap p = some t)
    (hkeep : it.timer = p →
      t.repeat_ = true ∧ ActiveTimer.mk p t.sequence ∉ q.cancelingTimers) :
    ∃ t', q'.heap p = some t' ∧ t'.sequence = t.sequence ∧ t'.repeat_ = t.repeat_ := by
  by_cases hp : it.timer = p
  · subst hp
    rcases hkeep rfl with ⟨hrep, hnot⟩
    cases hspec with
    | restarted u hu _ _ =>
        rw [ht] at hu
        cases hu
        refine ⟨t.restart now, by simp [TimerQueue.restarted, TimerQueue.inserted],
          t.restart_sequence now, ?_⟩
        simp [Timer.restart, hrep]
    | deleted u hu hstop =>
        rw [ht] at hu
        cases hu
        rcases hstop with hone | hin
        · rw [hrep] at hone
          cases hone
        · exact absurd hin hnot
  · exact ⟨t, by rw [hspec.heap_of_ne (Ne.symm hp), ht], rfl, rfl⟩

/-- `reset` keeps a timer that it is not to delete. -/
theorem resetLoop_keeps (h : Inv q) {f : Frame} (hframe : q.frame = some f)
    (hloop : resetLoop f.now f.expired invalidTime q.ended = .ok q') (ht : q.heap p = some t)
    (hkept : p ∈ f.expired.map Entry.timer →
      t.repeat_ = true ∧ ActiveTimer.mk p t.sequence ∉ q.cancelingTimers) :
    ∃ t', q'.heap p = some t' ∧ t'.sequence = t.sequence := by
  have hdone := resetLoop_post h hframe hloop
    (fun expired q₁ => expired ⊆ f.expired ∧ q₁.cancelingTimers = q.cancelingTimers ∧
      ∃ t', q₁.heap p = some t' ∧ t'.sequence = t.sequence ∧ t'.repeat_ = t.repeat_) ?_
    ⟨fun _ hx => hx, rfl, t, ht, rfl, rfl⟩
  · rcases hdone with ⟨_, _, t', ht', hseq, _⟩
    exact ⟨t', ht', hseq⟩
  · rintro it expired q₁ q₂ before ⟨hsub, hcan, t', ht', hseq, hrep⟩ _ hspec
    have hkeep : it.timer = p →
        t'.repeat_ = true ∧ ActiveTimer.mk p t'.sequence ∉ q₁.cancelingTimers := by
      rintro rfl
      rw [hseq, hrep, hcan]
      exact hkept (List.mem_map_of_mem (hsub List.mem_cons_self))
    rcases hspec.keeps ht' hkeep with ⟨t'', ht'', hseq'', hrep''⟩
    refine ⟨fun x hx => hsub (List.mem_cons_of_mem _ hx), ?_, t'', ?_, hseq''.trans hseq,
      hrep''.trans hrep⟩
    · rw [rearmed_cancelingTimers, ← hcan]
      cases hspec <;> rfl
    · rw [rearmed_heap]
      exact ht''

theorem exec_fate (h : Inv q) {a : Act} (hen : Enabled q a) (hexec : exec q a = .ok q')
    (ht : q.heap p = some t) : Fate q a q' p t := by
  cases step_cases h hen hexec with
  | newTimer r when_ interval repeat_ hnone =>
      have hr : p ≠ r := by
        rintro rfl
        rw [hnone] at ht
        cases ht
      exact Fate.kept t (by simpa [newTimer, hr] using ht) rfl
  | addTimerInLoop _ _ _ _ => exact Fate.kept t (by simpa using ht) rfl
  | cancelInLoop timerId hspec =>
      cases hspec with
      | found u hu hseq htim =>
          by_cases hp : p = timerId.timer
          · -- The timer found at this address is this one.
            subst hp
            rw [ht] at hu
            cases hu
            rcases h.consistent.timers_live _ htim with ⟨u, hu, _, hact⟩
            rw [show q.heap timerId.timer = some u from hu] at ht
            cases ht
            exact Fate.cancelled (by rw [hseq]) hact
          · exact Fate.kept t (by simpa [TimerQueue.cancelled, hp] using ht) rfl
      | recorded _ _ => exact Fate.kept t ht rfl
      | ignored _ _ => exact Fate.kept t ht rfl
  | fire => exact Fate.kept t (by rwa [fire_heap]) rfl
  | handleReadBegin _ _ _ _ => exact Fate.kept t ht rfl
  | handleReadRun _ => exact Fate.kept t ht rfl
  | handleReadEnd f hframe hloop =>
      by_cases hdel : p ∈ f.expired.map Entry.timer ∧
          (t.repeat_ = false ∨ ActiveTimer.mk p t.sequence ∈ q.cancelingTimers)
      · exact Fate.reset f rfl hframe hdel.1 hdel.2
      · have hkept : p ∈ f.expired.map Entry.timer →
            t.repeat_ = true ∧ ActiveTimer.mk p t.sequence ∉ q.cancelingTimers := by
          intro hin
          refine ⟨?_, fun hmem => hdel ⟨hin, Or.inr hmem⟩⟩
          by_contra hone
          exact hdel ⟨hin, Or.inl (by simpa using hone)⟩
        rcases resetLoop_keeps h hframe hloop ht hkept with ⟨t', ht', hseq⟩
        exact Fate.kept t' ht' hseq

end TimerQueue

end Net
end Muduo
