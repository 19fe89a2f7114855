import Muduo.Net.TimerCancellation

/-!
# TimerThreads — `addTimer` and `cancel` from any thread

`TimerQueue::addTimer` creates the timer, hands `addTimerInLoop` to `runInLoop`, and then reads the
sequence number of the timer for the `TimerId` that it returns; on a foreign thread these are three
steps.  `runInLoop` calls a functor at once on the loop thread and queues it on every other thread,
so a functor that is called at once overtakes the queued ones.

A call of `addTimer` is named by the number of its timer, which no other timer has.
-/

namespace Muduo
namespace Net

/-- How far a call of `addTimer` has come. -/
inductive AddCall
  /-- The timer is created. -/
  | created (timer : Addr)
  /-- `addTimerInLoop` is queued, the sequence number not yet read. -/
  | queued (timer : Addr)
  | returned (timerId : TimerId)
  deriving DecidableEq, Repr

/-- The functors that `addTimer` and `cancel` queue, with the call of `addTimer` they go back to.
A `TimerId` that no call has returned is nobody's. -/
inductive Functor
  | addTimerInLoop (call : Nat) (timer : Addr)
  | cancelInLoop (call : Option Nat) (timerId : TimerId)
  deriving DecidableEq, Repr

namespace Functor

def call : Functor → Option Nat
  | .addTimerInLoop call _ => some call
  | .cancelInLoop call _ => call

/-- What the functor does to the timer queue. -/
def act : Functor → TimerQueue.Act
  | .addTimerInLoop _ timer => .addTimerInLoop timer
  | .cancelInLoop _ timerId => .cancelInLoop timerId

/-- The call whose timer the functor adds. -/
def adds : Functor → Option Nat
  | .addTimerInLoop call _ => some call
  | .cancelInLoop _ _ => none

/-- The calls whose timer the functor cancels. -/
def cancels : Functor → List Nat
  | .addTimerInLoop _ _ => []
  | .cancelInLoop call _ => call.toList

end Functor

structure TimerThreads where
  queue : TimerQueue
  calls : Nat → Option AddCall
  /-- `pendingFunctors_`, as far as it is about timers. -/
  pending : List Functor
  /-- The calls of `addTimer` whose `TimerId` has been cancelled by a `cancelInLoop`. -/
  cancelled : List Nat

namespace TimerThreads

def new : TimerThreads where
  queue := TimerQueue.new
  calls := fun _ => none
  pending := []
  cancelled := []

/-! ## Steps -/

inductive Act
  /-- `addTimer` on a foreign thread: `new Timer`. -/
  | new (timer : Addr) (when_ : Int) (interval : Int) (repeat_ : Bool)
  /-- Its `runInLoop`. -/
  | queueAdd (call : Nat)
  /-- Its `timer->sequence()`, and the return. -/
  | readSequence (call : Nat)
  /-- `addTimer` on the loop thread. -/
  | addTimer (timer : Addr) (when_ : Int) (interval : Int) (repeat_ : Bool)
  /-- `cancel` on a foreign thread. -/
  | queueCancel (call : Option Nat) (timerId : TimerId)
  /-- `cancel` on the loop thread. -/
  | cancel (call : Option Nat) (timerId : TimerId)
  /-- The loop runs the first of the pending functors. -/
  | runFunctor
  /-- The timerfd, and the parts of `handleRead`. -/
  | timer (a : TimerQueue.Act)
  deriving DecidableEq, Repr

def setCall (s : TimerThreads) (call : Nat) (c : AddCall) : TimerThreads :=
  { s with calls := Function.update s.calls call (some c) }

/-- A functor of `addTimer` or `cancel` is called. -/
def run (s : TimerThreads) (functor : Functor) : Except Fault TimerThreads := do
  let queue ← TimerQueue.exec s.queue functor.act
  pure { s with queue := queue, cancelled := functor.cancels ++ s.cancelled }

/-- `TimerId(timer, timer->sequence())`. -/
def readSequence (s : TimerThreads) (call : Nat) (timer : Addr) : Except Fault TimerThreads := do
  let t ← s.queue.deref timer
  pure (s.setCall call (.returned ⟨timer, t.sequence⟩))

def newTimer (s : TimerThreads) (timer : Addr) (when_ interval : Int) (repeat_ : Bool) :
    TimerThreads :=
  { s with queue := s.queue.newTimer timer when_ interval repeat_ }

def exec (s : TimerThreads) : Act → Except Fault TimerThreads
  | .new timer when_ interval repeat_ =>
      .ok ((s.newTimer timer when_ interval repeat_).setCall (s.queue.numCreated + 1)
        (.created timer))
  | .queueAdd call =>
      match s.calls call with
      | some (.created timer) =>
          let s := s.setCall call (.queued timer)
          .ok { s with pending := s.pending ++ [.addTimerInLoop call timer] }
      | _ => .ok s
  | .readSequence call =>
      match s.calls call with
      | some (.queued timer) => s.readSequence call timer
      | _ => .ok s
  | .addTimer timer when_ interval repeat_ => do
      let call := s.queue.numCreated + 1
      let s := s.newTimer timer when_ interval repeat_
      let s ← s.run (.addTimerInLoop call timer)
      s.readSequence call timer
  | .queueCancel call timerId =>
      .ok { s with pending := s.pending ++ [.cancelInLoop call timerId] }
  | .cancel call timerId => s.run (.cancelInLoop call timerId)
  | .runFunctor =>
      match s.pending with
      | functor :: rest => { s with pending := rest }.run functor
      | [] => .ok s
  | .timer a => do
      let queue ← TimerQueue.exec s.queue a
      pure { s with queue := queue }

/-- The steps that are neither part of `addTimer` nor of `cancel`. -/
def onTimerfd : TimerQueue.Act → Bool
  | .fire => true
  | .handleReadBegin _ => true
  | .handleReadRun => true
  | .handleReadEnd => true
  | _ => false

/-- The `TimerId` of a `cancel` that goes back to a call of `addTimer` is the one that this call
has returned; pending functors run outside `handleRead`. -/
def Enabled (s : TimerThreads) : Act → Prop
  | .new timer when_ interval repeat_ =>
      TimerQueue.Enabled s.queue (.newTimer timer when_ interval repeat_)
  | .queueAdd call => ∃ timer, s.calls call = some (.created timer)
  | .readSequence call => ∃ timer, s.calls call = some (.queued timer)
  | .addTimer timer when_ interval repeat_ =>
      TimerQueue.Enabled s.queue (.newTimer timer when_ interval repeat_)
  | .queueCancel call timerId => ∀ n ∈ call, s.calls n = some (.returned timerId)
  | .cancel call timerId => ∀ n ∈ call, s.calls n = some (.returned timerId)
  | .runFunctor => s.pending ≠ [] ∧ s.queue.frame = none
  | .timer a => onTimerfd a = true ∧ TimerQueue.Enabled s.queue a

instance (s : TimerThreads) (a : Act) : Decidable (Enabled s a) :=
  match a with
  | .new timer when_ interval repeat_ =>
      inferInstanceAs (Decidable (s.queue.Enabled (.newTimer timer when_ interval repeat_)))
  | .queueAdd call =>
      match h : s.calls call with
      | some (.created timer) => isTrue ⟨timer, h⟩
      | some (.queued _) => isFalse (by simp [Enabled, h])
      | some (.returned _) => isFalse (by simp [Enabled, h])
      | none => isFalse (by simp [Enabled, h])
  | .readSequence call =>
      match h : s.calls call with
      | some (.queued timer) => isTrue ⟨timer, h⟩
      | some (.created _) => isFalse (by simp [Enabled, h])
      | some (.returned _) => isFalse (by simp [Enabled, h])
      | none => isFalse (by simp [Enabled, h])
  | .addTimer timer when_ interval repeat_ =>
      inferInstanceAs (Decidable (s.queue.Enabled (.newTimer timer when_ interval repeat_)))
  | .queueCancel call timerId =>
      inferInstanceAs (Decidable (∀ n ∈ call, s.calls n = some (.returned timerId)))
  | .cancel call timerId =>
      inferInstanceAs (Decidable (∀ n ∈ call, s.calls n = some (.returned timerId)))
  | .runFunctor =>
      decidable_of_iff (s.pending ≠ [] ∧ s.queue.frame.isNone = true)
        (and_congr_right fun _ => Option.isNone_iff_eq_none)
  | .timer a => inferInstanceAs (Decidable (_ ∧ s.queue.Enabled a))

def system : StepSystem TimerThreads Act :=
  StepSystem.ofExec (· = TimerThreads.new) Enabled exec

/-! ## The invariant -/

/-- The timer of a call waits for its `addTimerInLoop`. -/
def Waits (q : TimerQueue) (call : Nat) (timer : Addr) : Prop :=
  timer ∈ q.created ∧ ∃ t, q.heap timer = some t ∧ t.sequence = call

/-- The timer of a call is at this address, if it is still alive. -/
def OnlyAt (q : TimerQueue) (call : Nat) (timer : Addr) : Prop :=
  ∀ r u, q.heap r = some u → u.sequence = call → r = timer

/-- What a call that has come so far knows of its timer.  It may have read the sequence number of
another timer, if its own was deleted before. -/
def Knows (q : TimerQueue) (call : Nat) : AddCall → Prop
  | .created timer => Waits q call timer
  | .queued timer => OnlyAt q call timer
  | .returned timerId =>
      ∀ r u, q.heap r = some u → u.sequence = call → timerId = ⟨r, call⟩

/-- What holds of a functor while it is queued. -/
def Fits (q : TimerQueue) (calls : Nat → Option AddCall) : Functor → Prop
  | .addTimerInLoop call timer =>
      Waits q call timer ∧ ∃ c, calls call = some c ∧ c ≠ .created timer
  | .cancelInLoop call timerId => ∀ n ∈ call, calls n = some (.returned timerId)

/-- `f` may be queued before `g`: the `addTimerInLoop` of a call comes first. -/
def MayPrecede (f g : Functor) : Prop :=
  ∀ call timer, g = .addTimerInLoop call timer → call ∉ f.call

structure Inv (q : TimerQueue) (calls : Nat → Option AddCall) (pending : List Functor) : Prop where
  queue : TimerQueue.Inv q
  accounted : q.Accounted q.batchOf
  issued : ∀ n c, calls n = some c → n ≤ q.numCreated
  knows : ∀ n c, calls n = some c → Knows q n c
  fits : ∀ f ∈ pending, Fits q calls f
  ordered : pending.Pairwise MayPrecede
  /-- Every created timer is on its way to its `addTimerInLoop`. -/
  covered : ∀ p ∈ q.created, ∀ t, q.heap p = some t →
    calls t.sequence = some (.created p) ∨ .addTimerInLoop t.sequence p ∈ pending

variable {q q' : TimerQueue} {calls : Nat → Option AddCall} {pending : List Functor}
  {call : Nat} {timer : Addr} {timerId : TimerId}

/-! ## Steps of the timer queue -/

theorem Waits.step (h : Waits q call timer) (hq : TimerQueue.Inv q) {a : TimerQueue.Act}
    (hstep : TimerQueue.system.step q a q') (ha : a ≠ .addTimerInLoop timer) :
    Waits q' call timer := by
  rcases h with ⟨hcreated, t, ht, hseq⟩
  have hheld : timer ∈ q.created ++ q.batchOf := List.mem_append_left _ hcreated
  refine ⟨?_, ?_⟩
  · rw [TimerQueue.exec_created hq hstep.1 hstep.2]
    cases a with
    | newTimer p when_ interval repeat_ => exact List.mem_cons_of_mem _ hcreated
    | addTimerInLoop p =>
        have hne : timer ≠ p := by
          rintro rfl
          exact ha rfl
        exact (List.mem_erase_of_ne hne).2 hcreated
    | _ => exact hcreated
  · -- A created timer is in no index and in no batch.
    cases TimerQueue.exec_fate hq hstep.1 hstep.2 ht with
    | kept t' ht' hseq' => exact ⟨t', ht', hseq'.trans hseq⟩
    | cancelled _ hact => exact absurd hact (hq.consistent.not_mem_active hheld _)
    | reset f _ hframe hin _ =>
        have hbatch : timer ∈ q.batchOf := by
          simpa only [TimerQueue.batchOf, hframe] using hin
        exact absurd rfl
          ((List.nodup_append.1 hq.consistent.held_nodup).2.2 timer hcreated timer hbatch)

/-- A timer with an old number has had it before the step. -/
theorem old_of_step (hq : TimerQueue.Inv q) {a : TimerQueue.Act}
    (hstep : TimerQueue.system.step q a q') (hissued : call ≤ q.numCreated) {r : Addr} {u : Timer}
    (hu : q'.heap r = some u) (hseq : u.sequence = call) :
    ∃ u₀, q.heap r = some u₀ ∧ u₀.sequence = call := by
  rcases (TimerQueue.step_inv hq hstep).2.2 r u hu with hlt | ⟨u₀, hu₀, hseq₀⟩
  · omega
  · exact ⟨u₀, hu₀, hseq₀.trans hseq⟩

theorem Knows.step {c : AddCall} (h : Knows q call c) (hq : TimerQueue.Inv q)
    {a : TimerQueue.Act} (hstep : TimerQueue.system.step q a q') (hissued : call ≤ q.numCreated)
    (ha : ∀ timer, c = .created timer → a ≠ .addTimerInLoop timer) : Knows q' call c := by
  cases c with
  | created timer => exact Waits.step h hq hstep (ha timer rfl)
  | queued timer =>
      intro r u hu hseq
      rcases old_of_step hq hstep hissued hu hseq with ⟨u₀, hu₀, hseq₀⟩
      exact h r u₀ hu₀ hseq₀
  | returned timerId =>
      intro r u hu hseq
      rcases old_of_step hq hstep hissued hu hseq with ⟨u₀, hu₀, hseq₀⟩
      exact h r u₀ hu₀ hseq₀

theorem Fits.step {f : Functor} (h : Fits q calls f) (hq : TimerQueue.Inv q)
    {a : TimerQueue.Act} (hstep : TimerQueue.system.step q a q')
    (ha : ∀ call timer, f = .addTimerInLoop call timer → a ≠ .addTimerInLoop timer) :
    Fits q' calls f := by
  cases f with
  | addTimerInLoop call timer => exact ⟨h.1.step hq hstep (ha call timer rfl), h.2⟩
  | cancelInLoop call timerId => exact h

/-- The acts of the timer queue that neither create a timer nor add one. -/
def keepsCreated : TimerQueue.Act → Bool
  | .newTimer _ _ _ _ => false
  | .addTimerInLoop _ => false
  | _ => true

theorem Inv.queueStep (h : Inv q calls pending) {a : TimerQueue.Act}
    (hstep : TimerQueue.system.step q a q') (ha : keepsCreated a = true) :
    Inv q' calls pending := by
  rcases TimerQueue.step_inv h.queue hstep with ⟨hinv, hev⟩
  have hne : ∀ timer, a ≠ .addTimerInLoop timer := by
    rintro timer rfl
    cases ha
  refine ⟨hinv, TimerQueue.exec_accounted h.queue h.accounted hstep.1 hstep.2, ?_, ?_, ?_,
    h.ordered, ?_⟩
  · intro n c hc
    exact le_trans (h.issued n c hc) hev.1
  · intro n c hc
    exact (h.knows n c hc).step h.queue hstep (h.issued n c hc) fun timer _ => hne timer
  · intro f hf
    exact (h.fits f hf).step h.queue hstep fun _ timer _ => hne timer
  · intro p hp t ht
    -- The created timers are the same, with the same numbers.
    have hsame : q'.created = q.created := by
      rw [TimerQueue.exec_created h.queue hstep.1 hstep.2]
      cases a with
      | newTimer p when_ interval repeat_ => cases ha
      | addTimerInLoop p => cases ha
      | _ => rfl
    rw [hsame] at hp
    rcases h.queue.consistent.held_live p (List.mem_append_left _ hp) with ⟨t₀, ht₀⟩
    rcases Waits.step ⟨hp, t₀, ht₀, rfl⟩ h.queue hstep (hne p) with ⟨_, t', ht', hseq⟩
    rw [ht] at ht'
    cases ht'
    rw [hseq]
    exact h.covered p hp t₀ ht₀

/-! ## Steps of the calls -/

/-- Two waiting calls with one timer are one call. -/
theorem Waits.call_eq {n : Nat} (h : Waits q call timer) (h' : Waits q n timer) : call = n := by
  rcases h with ⟨_, t, ht, rfl⟩
  rcases h' with ⟨_, u, hu, rfl⟩
  rw [ht] at hu
  cases hu
  rfl

theorem Waits.onlyAt (h : Waits q call timer) (hq : TimerQueue.Inv q) : OnlyAt q call timer := by
  rcases h with ⟨_, t, ht, hseq⟩
  intro r u hu hseq'
  exact hq.consistent.sequence_inj r timer u t hu ht (hseq'.trans hseq.symm)

/-- Before its `addTimerInLoop` is queued, no queued functor goes back to a call. -/
theorem Fits.not_mem_call {f : Functor} (h : Fits q calls f) (hq : TimerQueue.Inv q)
    (hc : calls call = some (.created timer)) (hwaits : Waits q call timer) : call ∉ f.call := by
  cases f with
  | addTimerInLoop n p =>
      rintro hn
      cases hn
      rcases h with ⟨⟨_, t, ht, hseq⟩, c, hc', hne⟩
      rw [hc] at hc'
      cases hc'
      rw [hwaits.onlyAt hq p t ht hseq] at hne
      exact hne rfl
  | cancelInLoop n timerId =>
      intro hn
      have hreturned := h call hn
      rw [hc] at hreturned
      cases hreturned

/-- A functor keeps fitting when a call moves on that no `cancelInLoop` goes back to. -/
theorem Fits.setCall {f : Functor} {c : AddCall} (h : Fits q calls f)
    (hc : ∀ p, c ≠ .created p) (hcancel : ∀ timerId, calls call ≠ some (.returned timerId)) :
    Fits q (Function.update calls call (some c)) f := by
  cases f with
  | addTimerInLoop n p =>
      rcases h with ⟨hwaits, c', hc', hne⟩
      by_cases hn : n = call
      · subst hn
        exact ⟨hwaits, c, by simp, hc p⟩
      · exact ⟨hwaits, c', by simpa [hn] using hc', hne⟩
  | cancelInLoop n timerId =>
      intro m hm
      have hreturned := h m hm
      have hne : m ≠ call := by
        rintro rfl
        exact hcancel timerId hreturned
      simpa [hne] using hreturned

theorem Inv.newTimer (h : Inv q calls pending) {when_ interval : Int} {repeat_ : Bool}
    (hstep : TimerQueue.system.step q (.newTimer timer when_ interval repeat_) q') :
    Inv q' (Function.update calls (q.numCreated + 1) (some (.created timer))) pending := by
  rcases TimerQueue.step_inv h.queue hstep with ⟨hinv, hev⟩
  have hq' : q' = q.newTimer timer when_ interval repeat_ := by
    have hexec := hstep.2
    cases hexec
    rfl
  have hnum : q'.numCreated = q.numCreated + 1 := by
    rw [hq']
    rfl
  -- No call has the new number yet.
  have hfresh : ∀ n c, calls n = some c → n ≠ q.numCreated + 1 := by
    rintro n c hc rfl
    have := h.issued _ c hc
    omega
  refine ⟨hinv, TimerQueue.exec_accounted h.queue h.accounted hstep.1 hstep.2, ?_, ?_, ?_,
    h.ordered, ?_⟩
  · intro n c hc
    by_cases hn : n = q.numCreated + 1
    · omega
    · have := h.issued n c (by simpa [hn] using hc)
      omega
  · intro n c hc
    by_cases hn : n = q.numCreated + 1
    · subst hn
      simp only [Function.update_self, Option.some.injEq] at hc
      subst hc
      subst hq'
      exact ⟨List.mem_cons_self, _, by simp [TimerQueue.newTimer]; rfl, rfl⟩
    · have hold : calls n = some c := by
        simpa [hn] using hc
      refine (h.knows n c hold).step h.queue hstep (h.issued n c hold) ?_
      intro _ _ heq
      cases heq
  · intro f hf
    have hstill := (h.fits f hf).step h.queue hstep (by
      intro _ _ _ heq
      cases heq)
    cases f with
    | addTimerInLoop n p =>
        rcases hstill with ⟨hwaits, c, hc, hne⟩
        exact ⟨hwaits, c, by simpa [hfresh n c hc] using hc, hne⟩
    | cancelInLoop n timerId =>
        intro m hm
        simpa [hfresh m _ (hstill m hm)] using hstill m hm
  · intro p hp t ht
    subst hq'
    by_cases hpt : p = timer
    · subst hpt
      simp only [TimerQueue.newTimer, Function.update_self, Option.some.injEq] at ht
      subst ht
      exact Or.inl (by simp)
    · have hcreated : p ∈ q.created := (List.mem_cons.1 hp).resolve_left hpt
      have hold : q.heap p = some t := by
        simpa [TimerQueue.newTimer, hpt] using ht
      have hle := h.queue.consistent.sequence_le p t hold
      have hne : t.sequence ≠ q.numCreated + 1 := by omega
      simpa [hne] using h.covered p hcreated t hold

/-- The functor of `addTimer` is queued, behind or before the others. -/
theorem Inv.queueAdd (h : Inv q calls pending) (hc : calls call = some (.created timer))
    {pending' : List Functor} (hmem : ∀ f, f ∈ pending' ↔ f = .addTimerInLoop call timer ∨ f ∈ pending)
    (hordered : pending'.Pairwise MayPrecede) :
    Inv q (Function.update calls call (some (.queued timer))) pending' := by
  have hwaits : Waits q call timer := h.knows call _ hc
  refine ⟨h.queue, h.accounted, ?_, ?_, ?_, hordered, ?_⟩
  · intro n c hn
    by_cases hne : n = call
    · subst hne
      exact h.issued n _ hc
    · exact h.issued n c (by simpa [hne] using hn)
  · intro n c hn
    by_cases hne : n = call
    · subst hne
      simp only [Function.update_self, Option.some.injEq] at hn
      subst hn
      exact hwaits.onlyAt h.queue
    · exact h.knows n c (by simpa [hne] using hn)
  · intro f hf
    rcases (hmem f).1 hf with rfl | hf
    · exact ⟨hwaits, .queued timer, by simp, by simp⟩
    · exact (h.fits f hf).setCall (by simp) (by simp [hc])
  · intro p hp t ht
    by_cases hseq : t.sequence = call
    · have htimer : p = timer := hwaits.onlyAt h.queue p t ht hseq
      rw [hseq, htimer]
      exact Or.inr ((hmem _).2 (Or.inl rfl))
    · rcases h.covered p hp t ht with hcreated | hpending
      · exact Or.inl (by simpa [hseq] using hcreated)
      · exact Or.inr ((hmem _).2 (Or.inr hpending))

theorem Inv.queueAdd_back (h : Inv q calls pending) (hc : calls call = some (.created timer)) :
    Inv q (Function.update calls call (some (.queued timer)))
      (pending ++ [.addTimerInLoop call timer]) := by
  refine h.queueAdd hc (by simp [or_comm]) ?_
  refine List.pairwise_append.2 ⟨h.ordered, List.pairwise_singleton _ _, ?_⟩
  intro f hf g hg n p hgn
  rw [List.mem_singleton.1 hg] at hgn
  cases hgn
  exact (h.fits f hf).not_mem_call h.queue hc (h.knows call _ hc)

theorem Inv.queueAdd_front (h : Inv q calls pending) (hc : calls call = some (.created timer)) :
    Inv q (Function.update calls call (some (.queued timer)))
      (.addTimerInLoop call timer :: pending) := by
  refine h.queueAdd hc (by simp) (List.pairwise_cons.2 ⟨?_, h.ordered⟩)
  rintro g hg n p rfl hn
  cases hn
  exact (h.fits _ hg).not_mem_call h.queue hc (h.knows call _ hc) rfl

theorem Inv.readSequence {t : Timer} (h : Inv q calls pending)
    (hc : calls call = some (.queued timer)) (ht : q.heap timer = some t) :
    Inv q (Function.update calls call (some (.returned ⟨timer, t.sequence⟩))) pending := by
  refine ⟨h.queue, h.accounted, ?_, ?_, ?_, h.ordered, ?_⟩
  · intro n c hn
    by_cases hne : n = call
    · subst hne
      exact h.issued n _ hc
    · exact h.issued n c (by simpa [hne] using hn)
  · intro n c hn
    by_cases hne : n = call
    · subst hne
      simp only [Function.update_self, Option.some.injEq] at hn
      subst hn
      intro r u hu hseq
      -- The timer of the call can only be at the address that was read.
      have hr : r = timer := h.knows n _ hc r u hu hseq
      subst hr
      rw [ht] at hu
      cases hu
      rw [hseq]
    · exact h.knows n c (by simpa [hne] using hn)
  · intro f hf
    exact (h.fits f hf).setCall (by simp) (by simp [hc])
  · intro p hp u hu
    refine (h.covered p hp u hu).imp_left ?_
    intro hcreated
    have hne : u.sequence ≠ call := by
      rintro rfl
      rw [hc] at hcreated
      cases hcreated
    simpa [hne] using hcreated

theorem Inv.queueCancel {n : Option Nat} (h : Inv q calls pending)
    (hreturned : ∀ m ∈ n, calls m = some (.returned timerId)) :
    Inv q calls (pending ++ [.cancelInLoop n timerId]) := by
  refine ⟨h.queue, h.accounted, h.issued, h.knows, ?_, ?_, ?_⟩
  · intro f hf
    rcases List.mem_append.1 hf with hf | hf
    · exact h.fits f hf
    · rw [List.mem_singleton.1 hf]
      exact hreturned
  · refine List.pairwise_append.2 ⟨h.ordered, List.pairwise_singleton _ _, ?_⟩
    intro f _ g hg m p hgm
    rw [List.mem_singleton.1 hg] at hgm
    cases hgm
  · intro p hp t ht
    exact (h.covered p hp t ht).imp_right fun hin => List.mem_append_left _ hin

theorem Inv.enabled {f : Functor} (h : Inv q calls (f :: pending)) :
    TimerQueue.Enabled q f.act := by
  have hfits := h.fits f List.mem_cons_self
  cases f with
  | addTimerInLoop call timer => exact hfits.1.1
  | cancelInLoop call timerId => exact trivial

/-- The first of the pending functors runs. -/
theorem Inv.run {f : Functor} (h : Inv q calls (f :: pending))
    (hstep : TimerQueue.system.step q f.act q') : Inv q' calls pending := by
  rcases List.pairwise_cons.1 h.ordered with ⟨hfirst, hordered⟩
  cases f with
  | cancelInLoop call timerId =>
      have hmoved := h.queueStep hstep rfl
      refine ⟨hmoved.queue, hmoved.accounted, hmoved.issued, hmoved.knows, ?_, hordered, ?_⟩
      · intro g hg
        exact hmoved.fits g (List.mem_cons_of_mem _ hg)
      · intro p hp t ht
        exact (hmoved.covered p hp t ht).imp_right fun hin =>
          (List.mem_cons.1 hin).resolve_left (by simp)
  | addTimerInLoop call timer =>
      rcases TimerQueue.step_inv h.queue hstep with ⟨hinv, hev⟩
      rcases h.fits _ List.mem_cons_self with ⟨hwaits, c, hc, hne⟩
      -- No other call waits with this timer.
      have hother : ∀ n p, Waits q n p → n ≠ call →
          Functor.act (.addTimerInLoop call timer) ≠ .addTimerInLoop p := by
        intro n p hn hncall heq
        cases heq
        exact hncall (hn.call_eq hwaits)
      refine ⟨hinv, TimerQueue.exec_accounted h.queue h.accounted hstep.1 hstep.2, ?_, ?_, ?_,
        hordered, ?_⟩
      · intro n c hn
        exact le_trans (h.issued n c hn) hev.1
      · intro n c' hn
        refine (h.knows n c' hn).step h.queue hstep (h.issued n c' hn) ?_
        rintro p rfl
        have hwait : Waits q n p := h.knows n _ hn
        refine fun heq => ?_
        have hncall : n = call := by
          by_contra hncall
          exact hother n p hwait hncall heq
        subst hncall
        rw [hc] at hn
        cases hn
        cases heq
        exact hne rfl
      · intro g hg
        refine (h.fits g (List.mem_cons_of_mem _ hg)).step h.queue hstep ?_
        rintro n p rfl
        refine hother n p (h.fits _ (List.mem_cons_of_mem _ hg)).1 ?_
        rintro rfl
        exact hfirst _ hg n p rfl rfl
      · intro p hp t ht
        have hcreated : p ∈ q.created.erase timer := by
          rw [TimerQueue.exec_created h.queue hstep.1 hstep.2] at hp
          exact hp
        have hptimer : p ≠ timer := by
          rintro rfl
          exact (List.nodup_append.1 h.queue.consistent.held_nodup).1.not_mem_erase hcreated
        have hpcreated : p ∈ q.created := List.mem_of_mem_erase hcreated
        rcases h.queue.consistent.held_live p (List.mem_append_left _ hpcreated) with ⟨t₀, ht₀⟩
        have hact : Functor.act (.addTimerInLoop call timer) ≠ .addTimerInLoop p := by
          intro heq
          cases heq
          exact hptimer rfl
        rcases Waits.step ⟨hpcreated, t₀, ht₀, rfl⟩ h.queue hstep hact with ⟨_, t', ht', hseq⟩
        rw [ht] at ht'
        cases ht'
        rw [hseq]
        refine (h.covered p hpcreated t₀ ht₀).imp_right fun hin =>
          (List.mem_cons.1 hin).resolve_left ?_
        intro heq
        cases heq
        exact hptimer rfl

/-! ## Every step keeps the invariant -/

variable {s s' : TimerThreads}

theorem run_eq {f : Functor} (h : s.run f = .ok s') :
    ∃ q', TimerQueue.exec s.queue f.act = .ok q' ∧
      s' = { s with queue := q', cancelled := f.cancels ++ s.cancelled } := by
  rcases exists_ok_of_bind h with ⟨q', hq', hs'⟩
  cases hs'
  exact ⟨q', hq', rfl⟩

theorem readSequence_eq (h : s.readSequence call timer = .ok s') :
    ∃ t, s.queue.heap timer = some t ∧ s' = s.setCall call (.returned ⟨timer, t.sequence⟩) := by
  rcases exists_ok_of_bind h with ⟨t, ht, hs'⟩
  cases hs'
  refine ⟨t, ?_, rfl⟩
  unfold TimerQueue.deref at ht
  split at ht
  · cases ht
    assumption
  · cases ht

/-- What each step does to the timer queue, to the calls and to the pending functors. -/
inductive StepSpec (s : TimerThreads) : Act → TimerThreads → Prop where
  | new (timer : Addr) (when_ interval : Int) (repeat_ : Bool) :
      TimerQueue.system.step s.queue (.newTimer timer when_ interval repeat_)
        (s.queue.newTimer timer when_ interval repeat_) →
      StepSpec s (.new timer when_ interval repeat_)
        ((s.newTimer timer when_ interval repeat_).setCall (s.queue.numCreated + 1)
          (.created timer))
  | queueAdd (call : Nat) (timer : Addr) : s.calls call = some (.created timer) →
      StepSpec s (.queueAdd call)
        { s.setCall call (.queued timer) with
          pending := s.pending ++ [.addTimerInLoop call timer] }
  | readSequence (call : Nat) (timer : Addr) (t : Timer) : s.calls call = some (.queued timer) →
      s.queue.heap timer = some t →
      StepSpec s (.readSequence call) (s.setCall call (.returned ⟨timer, t.sequence⟩))
  | addTimer (timer : Addr) (when_ interval : Int) (repeat_ : Bool) (q : TimerQueue) (t : Timer) :
      TimerQueue.system.step s.queue (.newTimer timer when_ interval repeat_)
        (s.queue.newTimer timer when_ interval repeat_) →
      TimerQueue.exec (s.queue.newTimer timer when_ interval repeat_) (.addTimerInLoop timer) =
        .ok q →
      q.heap timer = some t →
      StepSpec s (.addTimer timer when_ interval repeat_)
        ({ s with queue := q }.setCall (s.queue.numCreated + 1) (.returned ⟨timer, t.sequence⟩))
  | queueCancel (call : Option Nat) (timerId : TimerId) :
      (∀ n ∈ call, s.calls n = some (.returned timerId)) →
      StepSpec s (.queueCancel call timerId)
        { s with pending := s.pending ++ [.cancelInLoop call timerId] }
  | cancel (call : Option Nat) (timerId : TimerId) (q : TimerQueue) :
      (∀ n ∈ call, s.calls n = some (.returned timerId)) →
      TimerQueue.system.step s.queue (.cancelInLoop timerId) q →
      StepSpec s (.cancel call timerId)
        { s with queue := q, cancelled := call.toList ++ s.cancelled }
  | runFunctor (f : Functor) (rest : List Functor) (q : TimerQueue) : s.pending = f :: rest →
      TimerQueue.exec s.queue f.act = .ok q →
      StepSpec s .runFunctor
        { s with queue := q, pending := rest, cancelled := f.cancels ++ s.cancelled }
  | timer (a : TimerQueue.Act) (q : TimerQueue) : onTimerfd a = true →
      TimerQueue.system.step s.queue a q → StepSpec s (.timer a) { s with queue := q }

theorem step_cases {a : Act} (hstep : system.step s a s') : StepSpec s a s' := by
  rcases hstep with ⟨hen, hexec⟩
  cases a with
  | new timer when_ interval repeat_ =>
      cases hexec
      exact StepSpec.new timer when_ interval repeat_ ⟨hen, rfl⟩
  | queueAdd call =>
      rcases hen with ⟨timer, hc⟩
      simp only [exec, hc] at hexec
      cases hexec
      exact StepSpec.queueAdd call timer hc
  | readSequence call =>
      rcases hen with ⟨timer, hc⟩
      simp only [exec, hc] at hexec
      rcases readSequence_eq hexec with ⟨t, ht, rfl⟩
      exact StepSpec.readSequence call timer t hc ht
  | addTimer timer when_ interval repeat_ =>
      rcases exists_ok_of_bind hexec with ⟨s₁, hrun, hread⟩
      rcases run_eq hrun with ⟨q, hq, rfl⟩
      rcases readSequence_eq hread with ⟨t, ht, rfl⟩
      exact StepSpec.addTimer timer when_ interval repeat_ q t ⟨hen, rfl⟩ hq ht
  | queueCancel call timerId =>
      cases hexec
      exact StepSpec.queueCancel call timerId hen
  | cancel call timerId =>
      rcases run_eq hexec with ⟨q, hq, rfl⟩
      exact StepSpec.cancel call timerId q hen ⟨trivial, hq⟩
  | runFunctor =>
      cases hpending : s.pending with
      | nil => exact absurd hpending hen.1
      | cons f rest =>
          simp only [exec, hpending] at hexec
          rcases run_eq hexec with ⟨q, hq, rfl⟩
          exact StepSpec.runFunctor f rest q hpending hq
  | timer a =>
      rcases exists_ok_of_bind hexec with ⟨q, hq, hs'⟩
      cases hs'
      exact StepSpec.timer a q hen.1 ⟨hen.2, hq⟩

/-- The state that every step of the program keeps. -/
def Good (s : TimerThreads) : Prop :=
  Inv s.queue s.calls s.pending

/-- What a step does to the timer queue is a run of the timer queue. -/
theorem step_good (h : Good s) {a : Act} (hstep : system.step s a s') :
    Good s' ∧ ∃ as, TimerQueue.system.Run s.queue as s'.queue := by
  cases step_cases hstep with
  | new timer when_ interval repeat_ hnew => exact ⟨h.newTimer hnew, _, .cons hnew (.nil _)⟩
  | queueAdd call timer hc => exact ⟨h.queueAdd_back hc, [], .nil _⟩
  | readSequence call timer t hc ht => exact ⟨h.readSequence hc ht, [], .nil _⟩
  | addTimer timer when_ interval repeat_ q₁ t hnew hq₁ ht =>
      -- As if the functor had been queued before the others and run at once.
      have hqueued := (h.newTimer hnew).queueAdd_front (Function.update_self _ _ _)
      have hadd := (show TimerQueue.system.step _ _ q₁ from ⟨hqueued.enabled, hq₁⟩)
      have hread := (hqueued.run hadd).readSequence (Function.update_self _ _ _) ht
      simp only [Function.update_idem] at hread
      exact ⟨hread, _, .cons hnew (.cons hadd (.nil _))⟩
  | queueCancel call timerId hcalls => exact ⟨h.queueCancel hcalls, [], .nil _⟩
  | cancel call timerId q' _ hcancel =>
      exact ⟨h.queueStep hcancel rfl, _, .cons hcancel (.nil _)⟩
  | runFunctor f rest q' hpending hq' =>
      have hall : Inv s.queue s.calls (f :: rest) := hpending ▸ h
      have hrun : TimerQueue.system.step s.queue f.act q' := ⟨hall.enabled, hq'⟩
      exact ⟨hall.run hrun, _, .cons hrun (.nil _)⟩
  | timer a q' hon htimer =>
      have hkeeps : keepsCreated a = true := by
        cases a with
        | newTimer p when_ interval repeat_ => exact absurd hon (by simp [onTimerfd])
        | addTimerInLoop p => exact absurd hon (by simp [onTimerfd])
        | _ => rfl
      exact ⟨h.queueStep htimer hkeeps, _, .cons htimer (.nil _)⟩

theorem new_good : Good TimerThreads.new := by
  refine ⟨TimerQueue.new_inv, ?_, ?_, ?_, ?_, List.Pairwise.nil, ?_⟩
  · intro p t ht
    cases ht
  · intro n c hc
    cases hc
  · intro n c hc
    cases hc
  · intro f hf
    cases hf
  · intro p hp
    cases hp

end TimerThreads

end Net
end Muduo
