import Muduo.Base.CountDownLatch
import Muduo.Base.Fault

/-!
# Thread — `Thread::start` and the thread that it starts

`start()` of `muduo/base/Thread.cc` creates a thread and waits until that thread has written its
tid into the `Thread` object.  The new thread has a `ThreadData` with pointers into the object, to
`tid_` and `latch_`, and it goes on running when `start()` has returned, and even when the object
is gone (the destructor detaches it).  So all that it does to the object must come before the
return of `start()`.

The two threads interleave at every access to the object.
-/

namespace Muduo

/-- Where the thread that uses the `Thread` object is. -/
inductive Starter
  | idle
  /-- In `start()`, before `pthread_create`. -/
  | creating
  /-- In `latch_.wait()`. -/
  | waiting
  /-- Before `assert(tid_ > 0)`. -/
  | checking
  /-- In `pthread_join`. -/
  | joining
  /-- The object is destroyed. -/
  | destroyed
  deriving DecidableEq, Repr

/-- Where the new thread is in `startThread`, with its tid. -/
inductive NewThread
  | none
  | born (tid : Nat)
  /-- `*tid_` is written. -/
  | identified (tid : Nat)
  /-- `latch_->countDown()` is done; `func_` is running. -/
  | running (tid : Nat)
  | finished
  deriving DecidableEq, Repr

namespace NewThread

@[simp] def isBorn : NewThread → Bool
  | .born _ => true
  | _ => false

@[simp] def isIdentified : NewThread → Bool
  | .identified _ => true
  | _ => false

@[simp] def isRunning : NewThread → Bool
  | .running _ => true
  | _ => false

end NewThread

/-- Whether the two pointers of a `ThreadData` are set. -/
structure ThreadData where
  tid : Bool
  latch : Bool
  deriving DecidableEq, Repr

structure Thread where
  started : Bool
  joined : Bool
  tid : Nat
  latch : CountDownLatch
  /-- The `ThreadData` object on the heap. -/
  data : Option ThreadData
  starter : Starter
  child : NewThread
  deriving DecidableEq, Repr

namespace Thread

open WaitSet

/-- The constructor; one thread will wait on the latch. -/
def new : Thread where
  started := false
  joined := false
  tid := 0
  latch := CountDownLatch.new 1 1
  data := none
  starter := .idle
  child := .none

/-! ## Steps -/

inductive Act
  /-- `start()`, up to `pthread_create`. -/
  | start
  /-- `pthread_create` returns; it gives the new thread a tid unless it fails. -/
  | create (tid : Option Nat)
  /-- A critical section of `latch_.wait()`. -/
  | wait
  | spurious
  /-- `start()` returns. -/
  | check
  | join
  | joined
  | destroy
  /-- `*tid_ = CurrentThread::tid()`. -/
  | identify
  | countDown
  /-- `func_` has returned; `startThread` deletes its data. -/
  | finish
  deriving DecidableEq, Repr

/-- The new thread goes through one of its pointers into the object. -/
def access (t : Thread) (pointer : ThreadData → Bool) : Except Fault ThreadData :=
  match t.data with
  | some data => if pointer data ∧ t.starter ≠ .destroyed then .ok data else .error .useAfterFree
  | none => .error .useAfterFree

def exec (t : Thread) : Act → Except Fault Thread
  | .start => do
      assert (t.started = false)
      pure { t with started := true, data := some ⟨true, true⟩, starter := .creating }
  | .create (some tid) =>
      pure { t with latch := t.latch.call 0, starter := .waiting, child := .born tid }
  | .create none => pure { t with started := false, data := none, starter := .idle }
  | .wait =>
      let latch := t.latch.wait 0
      pure { t with
        latch := latch
        starter := if At latch.threads 0 LatchUse.isPassed then .checking else .waiting }
  | .spurious => pure { t with latch := t.latch.spurious 0 }
  | .check => do
      assert (0 < t.tid)
      pure { t with starter := .idle }
  | .join => do
      assert (t.started = true)
      assert (t.joined = false)
      pure { t with joined := true, starter := .joining }
  | .joined => pure { t with starter := .idle }
  | .destroy => pure { t with starter := .destroyed }
  | .identify =>
      match t.child with
      | .born tid => do
          let data ← t.access ThreadData.tid
          pure { t with
            tid := tid
            data := some { data with tid := false }
            child := .identified tid }
      | _ => pure t
  | .countDown =>
      match t.child with
      | .identified tid => do
          let data ← t.access ThreadData.latch
          pure { t with
            latch := t.latch.countDown
            data := some { data with latch := false }
            child := .running tid }
      | _ => pure t
  | .finish =>
      match t.data with
      | some _ => pure { t with data := none, child := .finished }
      | none => .error .doubleFree

/-- The users of the class start a thread once, join it at most once and after the start, and
destroy the object at any time between two calls.  A tid is positive. -/
def Enabled (t : Thread) : Act → Prop
  | .start => t.starter = .idle ∧ t.started = false
  | .create tid => t.starter = .creating ∧ ∀ n ∈ tid, 0 < n
  | .wait => t.starter = .waiting ∧ At t.latch.threads 0 LatchUse.isReady
  | .spurious => t.starter = .waiting ∧ At t.latch.threads 0 LatchUse.isWaiting
  | .check => t.starter = .checking
  | .join => t.starter = .idle ∧ t.started = true ∧ t.joined = false
  | .joined => t.starter = .joining ∧ t.child = .finished
  | .destroy => t.starter = .idle
  | .identify => t.child.isBorn = true
  | .countDown => t.child.isIdentified = true
  | .finish => t.child.isRunning = true

instance (t : Thread) (a : Act) : Decidable (Enabled t a) :=
  match a with
  | .start => inferInstanceAs (Decidable (_ ∧ _))
  | .create tid => inferInstanceAs (Decidable (_ ∧ ∀ n ∈ tid, 0 < n))
  | .wait => inferInstanceAs (Decidable (_ ∧ _))
  | .spurious => inferInstanceAs (Decidable (_ ∧ _))
  | .check => inferInstanceAs (Decidable (_ = _))
  | .join => inferInstanceAs (Decidable (_ ∧ _ ∧ _))
  | .joined => inferInstanceAs (Decidable (_ ∧ _))
  | .destroy => inferInstanceAs (Decidable (_ = _))
  | .identify => inferInstanceAs (Decidable (_ = _))
  | .countDown => inferInstanceAs (Decidable (_ = _))
  | .finish => inferInstanceAs (Decidable (_ = _))

def system : StepSystem Thread Act :=
  StepSystem.ofExec (· = Thread.new) Enabled exec

/-! ## The handshake -/

/-- The stages of the handshake, with all that the two threads share. -/
inductive Stage : Thread → Prop where
  | notStarted (starter : Starter) :
      starter = .idle ∨ starter = .destroyed →
      Stage ⟨false, false, 0, ⟨1, [.outside]⟩, none, starter, .none⟩
  | creating : Stage ⟨true, false, 0, ⟨1, [.outside]⟩, some ⟨true, true⟩, .creating, .none⟩
  | born (tid : Nat) (u : LatchUse) :
      0 < tid → u.isReady = true ∨ u.isWaiting = true →
      Stage ⟨true, false, 0, ⟨1, [u]⟩, some ⟨true, true⟩, .waiting, .born tid⟩
  | identified (tid : Nat) (u : LatchUse) :
      0 < tid → u.isReady = true ∨ u.isWaiting = true →
      Stage ⟨true, false, tid, ⟨1, [u]⟩, some ⟨false, true⟩, .waiting, .identified tid⟩
  /-- The latch is open, and the starter is not in its wait set. -/
  | counted (tid : Nat) (u : LatchUse) :
      0 < tid → u.isReady = true →
      Stage ⟨true, false, tid, ⟨0, [u]⟩, some ⟨false, false⟩, .waiting, .running tid⟩
  | countedFinished (tid : Nat) (u : LatchUse) :
      0 < tid → u.isReady = true →
      Stage ⟨true, false, tid, ⟨0, [u]⟩, none, .waiting, .finished⟩
  | up (tid : Nat) (joined : Bool) (starter : Starter) :
      0 < tid → starter ≠ .creating → starter ≠ .waiting →
      Stage ⟨true, joined, tid, ⟨0, [.passed]⟩, some ⟨false, false⟩, starter, .running tid⟩
  | upFinished (tid : Nat) (joined : Bool) (starter : Starter) :
      0 < tid → starter ≠ .creating → starter ≠ .waiting →
      Stage ⟨true, joined, tid, ⟨0, [.passed]⟩, none, starter, .finished⟩

variable {t : Thread}

/-- In a closed latch the one thread goes on waiting, woken or not. -/
theorem closed_latch {u : LatchUse} (hu : u.isReady = true ∨ u.isWaiting = true) :
    (CountDownLatch.mk 1 [u]).wait 0 = ⟨1, [.waiting]⟩ ∧
      ∃ v, (CountDownLatch.mk 1 [u]).spurious 0 = ⟨1, [v]⟩ ∧
        (v.isReady = true ∨ v.isWaiting = true) := by
  refine ⟨rfl, u.wake, rfl, ?_⟩
  cases u <;> simp_all [LatchUse.wake, LatchUse.isReady, LatchUse.isWaiting]

/-- The last `countDown` takes the thread out of the wait set. -/
theorem last_countDown {u : LatchUse} (hu : u.isReady = true ∨ u.isWaiting = true) :
    ∃ v, (CountDownLatch.mk 1 [u]).countDown = ⟨0, [v]⟩ ∧ v.isReady = true := by
  cases u with
  | outside | passed => rcases hu with hu | hu <;> cases hu
  | entering => exact ⟨.entering, rfl, rfl⟩
  | waiting => exact ⟨.woken, rfl, rfl⟩
  | woken => exact ⟨.woken, rfl, rfl⟩

theorem not_waiting_of_ready {u : LatchUse} (hu : u.isReady = true) : u.isWaiting = false := by
  cases u <;> first | rfl | cases hu

/-- A step of the new thread, which does not depend on where the starter is. -/
theorem exec_finish {started joined : Bool} {tid n : Nat} {latch : CountDownLatch}
    {data : ThreadData} {starter : Starter} :
    exec ⟨started, joined, tid, latch, some data, starter, .running n⟩ .finish =
      .ok ⟨started, joined, tid, latch, none, starter, .finished⟩ := rfl

/-- After the handshake the starter joins, leaves and destroys as it likes. -/
theorem exec_up {joined : Bool} {tid : Nat} {data : Option ThreadData} {starter : Starter}
    {child : NewThread} {a : Act} (htid : 0 < tid) (hcreating : starter ≠ .creating)
    (hwaiting : starter ≠ .waiting)
    (hchild : child = .running tid ∨ child = .finished) (ha : a ≠ .finish)
    (hen : Enabled ⟨true, joined, tid, ⟨0, [.passed]⟩, data, starter, child⟩ a) :
    ∃ joined' starter', starter' ≠ .creating ∧ starter' ≠ .waiting ∧
      exec ⟨true, joined, tid, ⟨0, [.passed]⟩, data, starter, child⟩ a =
        .ok ⟨true, joined', tid, ⟨0, [.passed]⟩, data, starter', child⟩ := by
  cases a with
  | check => exact ⟨joined, .idle, by decide, by decide, by simp [exec, assert_pos htid]⟩
  | join =>
      have hjoined : joined = false := hen.2.2
      subst hjoined
      exact ⟨true, .joining, by decide, by decide, rfl⟩
  | joined => exact ⟨joined, .idle, by decide, by decide, rfl⟩
  | destroy => exact ⟨joined, .destroyed, by decide, by decide, rfl⟩
  | start => exact absurd hen.2 (by simp)
  | create _ => exact absurd hen.1 hcreating
  | wait => exact absurd hen.1 hwaiting
  | spurious => exact absurd hen.1 hwaiting
  | identify => rcases hchild with rfl | rfl <;> cases hen
  | countDown => rcases hchild with rfl | rfl <;> cases hen
  | finish => exact absurd rfl ha

theorem exec_stage {a : Act} (h : Stage t) (ha : Enabled t a) :
    ∃ t', exec t a = .ok t' ∧ Stage t' := by
  cases h with
  | notStarted starter hstarter =>
      cases a with
      | start => exact ⟨_, rfl, Stage.creating⟩
      | destroy => exact ⟨_, rfl, Stage.notStarted _ (Or.inr rfl)⟩
      | _ => rcases hstarter with rfl | rfl <;> simp [Enabled] at ha
  | creating =>
      cases a with
      | create result =>
          cases result with
          | none => exact ⟨_, rfl, Stage.notStarted _ (Or.inl rfl)⟩
          | some tid => exact ⟨_, rfl, Stage.born tid .entering (ha.2 tid rfl) (Or.inl rfl)⟩
      | _ => simp [Enabled] at ha
  | born tid u htid hu =>
      obtain ⟨hwait, v, hspurious, hv⟩ := closed_latch hu
      cases a with
      | wait =>
          refine ⟨_, ?_, Stage.born tid .waiting htid (Or.inr rfl)⟩
          simp only [exec, hwait]
          rfl
      | spurious =>
          refine ⟨_, ?_, Stage.born tid v htid hv⟩
          simp only [exec, hspurious]
          rfl
      | identify => exact ⟨_, rfl, Stage.identified tid u htid hu⟩
      | _ => simp [Enabled] at ha
  | identified tid u htid hu =>
      obtain ⟨hwait, v, hspurious, hv⟩ := closed_latch hu
      cases a with
      | wait =>
          refine ⟨_, ?_, Stage.identified tid .waiting htid (Or.inr rfl)⟩
          simp only [exec, hwait]
          rfl
      | spurious =>
          refine ⟨_, ?_, Stage.identified tid v htid hv⟩
          simp only [exec, hspurious]
          rfl
      | countDown =>
          obtain ⟨v, hcount, hv⟩ := last_countDown hu
          refine ⟨_, ?_, Stage.counted tid v htid hv⟩
          simp only [exec, hcount]
          rfl
      | _ => simp [Enabled] at ha
  | counted tid u htid hu =>
      cases a with
      | wait => exact ⟨_, rfl, Stage.up tid false .checking htid (by decide) (by decide)⟩
      | spurious => exact absurd (not_waiting_of_ready hu) (by simpa [Enabled, At] using ha)
      | finish => exact ⟨_, exec_finish, Stage.countedFinished tid u htid hu⟩
      | _ => simp [Enabled] at ha
  | countedFinished tid u htid hu =>
      cases a with
      | wait => exact ⟨_, rfl, Stage.upFinished tid false .checking htid (by decide) (by decide)⟩
      | spurious => exact absurd (not_waiting_of_ready hu) (by simpa [Enabled, At] using ha)
      | _ => simp [Enabled] at ha
  | up tid joined starter htid hcreating hwaiting =>
      by_cases hfinish : a = .finish
      · subst hfinish
        exact ⟨_, exec_finish, Stage.upFinished tid joined starter htid hcreating hwaiting⟩
      · obtain ⟨joined', starter', hc, hw, hexec⟩ :=
          exec_up htid hcreating hwaiting (Or.inl rfl) hfinish ha
        exact ⟨_, hexec, Stage.up tid joined' starter' htid hc hw⟩
  | upFinished tid joined starter htid hcreating hwaiting =>
      have hfinish : a ≠ .finish := by
        rintro rfl
        cases ha
      obtain ⟨joined', starter', hc, hw, hexec⟩ :=
        exec_up htid hcreating hwaiting (Or.inr rfl) hfinish ha
      exact ⟨_, hexec, Stage.upFinished tid joined' starter' htid hc hw⟩

/-- In every interleaving, spurious wake-ups and failures of `pthread_create` included: the
`assert`s hold, and the new thread never reaches into an object that is destroyed; when `start()`
is over, `tid_` is the positive tid of a thread that has counted down; and while the starter is in
the wait set, the new thread has its `countDown` ahead. -/
theorem start_handshake (ht : system.Reachable t) :
    (∀ a, Enabled t a → ∃ t', exec t a = .ok t') ∧
      (t.started = true → t.starter ≠ .creating → t.starter ≠ .waiting →
        0 < t.tid ∧ (t.child = .running t.tid ∨ t.child = .finished)) ∧
      (t.starter = .waiting → At t.latch.threads 0 LatchUse.isWaiting →
        ∃ tid, t.child = .born tid ∨ t.child = .identified tid) := by
  have h0 : ∀ {s : Thread}, s = Thread.new → Stage s := by
    rintro s rfl
    exact Stage.notStarted .idle (Or.inl rfl)
  obtain ⟨hstage, hsafe⟩ := StepSystem.ofExec_safe h0 exec_stage ht
  refine ⟨hsafe, fun hstarted hcreating hwaiting => ?_, fun hwaiting hasleep => ?_⟩
  · cases hstage with
    | notStarted starter _ => cases hstarted
    | creating => exact absurd rfl hcreating
    | born tid u _ _ => exact absurd rfl hwaiting
    | identified tid u _ _ => exact absurd rfl hwaiting
    | counted tid u _ _ => exact absurd rfl hwaiting
    | countedFinished tid u _ _ => exact absurd rfl hwaiting
    | up tid joined starter htid _ _ => exact ⟨htid, Or.inl rfl⟩
    | upFinished tid joined starter htid _ _ => exact ⟨htid, Or.inr rfl⟩
  · cases hstage with
    | notStarted starter hstarter =>
        rcases hstarter with rfl | rfl <;> cases hwaiting
    | creating => cases hwaiting
    | born tid u _ _ => exact ⟨tid, Or.inl rfl⟩
    | identified tid u _ _ => exact ⟨tid, Or.inr rfl⟩
    | counted tid u _ hu | countedFinished tid u _ hu =>
        exact absurd (not_waiting_of_ready hu) (by simpa [At] using hasleep)
    | up tid joined starter _ _ hno => exact absurd hwaiting hno
    | upFinished tid joined starter _ _ hno => exact absurd hwaiting hno

/-- `pthread_create` fails once; then the starter is woken for nothing, and destroys the object
while the new thread is running. -/
def detached : List Act :=
  [.start, .create none, .start, .create (some 7), .wait, .identify, .spurious, .wait, .countDown,
    .wait, .check, .destroy, .finish]

def afterDetached : Thread :=
  (StepSystem.execAll exec Thread.new detached).toOption.getD Thread.new

theorem start_handshake_detached :
    afterDetached.starter = .destroyed ∧ 0 < afterDetached.tid := by
  have hrun : system.Run Thread.new detached afterDetached :=
    StepSystem.run_of_execAll (by decide) rfl
  have ht := hrun.reachable (StepSystem.Reachable.init rfl)
  exact ⟨by decide, ((start_handshake ht).2.1 (by decide) (by decide) (by decide)).1⟩

end Thread

end Muduo
