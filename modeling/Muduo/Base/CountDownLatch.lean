import Muduo.Foundation.StepSystem
import Muduo.Foundation.WaitSet

/-!
# CountDownLatch — `muduo/base/CountDownLatch.cc`

Threads that call `wait()` are let through when `countDown()` has been called as often as the
latch was told to count.  The critical sections of `wait` and `countDown` are steps.  `countDown`
notifies only when it brings the counter to zero, and later calls count on below zero, so a thread
that came late must not have to be notified.
-/

namespace Muduo

/-- Where a thread is in `wait()`. -/
inductive LatchUse
  | outside
  /-- In `wait()`, before the mutex. -/
  | entering
  /-- In the wait set of `condition_`. -/
  | waiting
  /-- Taken out of the wait set, before the mutex. -/
  | woken
  /-- Back from `wait()`. -/
  | passed
  deriving DecidableEq, Repr

namespace LatchUse

def isOutside : LatchUse → Bool
  | .outside => true
  | .passed => true
  | _ => false

def isReady : LatchUse → Bool
  | .entering => true
  | .woken => true
  | _ => false

def isWaiting : LatchUse → Bool
  | .waiting => true
  | _ => false

def isPassed : LatchUse → Bool
  | .passed => true
  | _ => false

def wake : LatchUse → LatchUse
  | .waiting => .woken
  | u => u

@[simp] theorem isPassed_wake (u : LatchUse) : u.wake.isPassed = u.isPassed := by
  cases u <;> rfl

@[simp] theorem isWaiting_wake (u : LatchUse) : u.wake.isWaiting = false := by
  cases u <;> rfl

end LatchUse

structure CountDownLatch where
  /-- An `int` in the source: the runs are those with fewer calls than take it below its range. -/
  count : Int
  threads : List LatchUse
  deriving DecidableEq, Repr

namespace CountDownLatch

open WaitSet

def new (count : Int) (numThreads : Nat) : CountDownLatch where
  count := count
  threads := List.replicate numThreads .outside

/-! ## The functions of the class -/

/-- Thread `k` calls `wait()`. -/
def call (l : CountDownLatch) (k : Nat) : CountDownLatch :=
  { l with threads := l.threads.set k .entering }

/-- The critical section of `wait` up to its return or to `condition_.wait()`. -/
def wait (l : CountDownLatch) (k : Nat) : CountDownLatch :=
  { l with threads := l.threads.set k (if 0 < l.count then .waiting else .passed) }

def countDown (l : CountDownLatch) : CountDownLatch where
  count := l.count - 1
  threads :=
    if l.count - 1 = 0 then notifyAll LatchUse.isWaiting LatchUse.wake l.threads else l.threads

def getCount (l : CountDownLatch) : Int :=
  l.count

def spurious (l : CountDownLatch) (k : Nat) : CountDownLatch :=
  { l with threads := wakeAt LatchUse.wake l.threads k }

/-! ## Interleavings -/

inductive Act
  | call (k : Nat)
  | wait (k : Nat)
  | countDown
  | spurious (k : Nat)
  deriving DecidableEq, Repr

def next (l : CountDownLatch) : Act → CountDownLatch
  | .call k => l.call k
  | .wait k => l.wait k
  | .countDown => l.countDown
  | .spurious k => l.spurious k

def Enabled (l : CountDownLatch) : Act → Prop
  | .call k => At l.threads k LatchUse.isOutside
  | .wait k => At l.threads k LatchUse.isReady
  | .countDown => True
  | .spurious k => At l.threads k LatchUse.isWaiting

instance (l : CountDownLatch) (a : Act) : Decidable (Enabled l a) :=
  match a with
  | .call _ => inferInstanceAs (Decidable (At _ _ _))
  | .wait _ => inferInstanceAs (Decidable (At _ _ _))
  | .countDown => isTrue trivial
  | .spurious _ => inferInstanceAs (Decidable (At _ _ _))

def system (count : Int) : StepSystem CountDownLatch Act :=
  StepSystem.ofNext (fun l => ∃ numThreads, l = new count numThreads) Enabled next

/-! ## The latch opens once and for all -/

/-- Nobody is through while the latch is closed, and nobody waits when it is open. -/
structure Inv (l : CountDownLatch) : Prop where
  passed : ∀ k, At l.threads k LatchUse.isPassed → l.count ≤ 0
  waiting : ∀ k, At l.threads k LatchUse.isWaiting → 0 < l.count

variable {l : CountDownLatch}

/-- A thread goes to a place that the counter allows. -/
theorem Inv.set (h : Inv l) {k : Nat} {u v : LatchUse} (hu : l.threads[k]? = some u)
    (hpassed : v.isPassed = true → l.count ≤ 0) (hwaiting : v.isWaiting = true → 0 < l.count) :
    Inv { l with threads := l.threads.set k v } := by
  refine ⟨fun j hj => ?_, fun j hj => ?_⟩
  · rw [at_set hu] at hj
    split at hj
    · exact hpassed hj
    · exact h.passed j hj
  · rw [at_set hu] at hj
    split at hj
    · exact hwaiting hj
    · exact h.waiting j hj

theorem Inv.call (h : Inv l) {k : Nat} (ha : At l.threads k LatchUse.isOutside) :
    Inv (l.call k) := by
  obtain ⟨u, hu, _⟩ := at_iff.1 ha
  exact h.set hu (fun hp => by cases hp) (fun hw => by cases hw)

theorem Inv.wait (h : Inv l) {k : Nat} (ha : At l.threads k LatchUse.isReady) :
    Inv (l.wait k) := by
  obtain ⟨u, hu, _⟩ := at_iff.1 ha
  by_cases hclosed : 0 < l.count
  · have hset := h.set hu (v := .waiting) (fun hp => by cases hp) fun _ => hclosed
    simpa only [CountDownLatch.wait, if_pos hclosed] using hset
  · have hset := h.set hu (v := .passed) (fun _ => Int.not_lt.1 hclosed) fun hw => by cases hw
    simpa only [CountDownLatch.wait, if_neg hclosed] using hset

theorem Inv.spurious (h : Inv l) {k : Nat} (ha : At l.threads k LatchUse.isWaiting) :
    Inv (l.spurious k) := by
  obtain ⟨u, hu, hw⟩ := at_iff.1 ha
  rw [CountDownLatch.spurious, wakeAt_eq hu]
  refine h.set hu (fun hp => ?_) fun hw' => ?_
  · rw [LatchUse.isPassed_wake] at hp
    exact h.passed k (at_iff.2 ⟨u, hu, hp⟩)
  · rw [LatchUse.isWaiting_wake] at hw'
    cases hw'

/-- When the counter reaches zero everybody is notified; below zero nobody is left to notify. -/
theorem Inv.countDown (h : Inv l) : Inv l.countDown := by
  by_cases hzero : l.count - 1 = 0
  · simp only [CountDownLatch.countDown, if_pos hzero]
    refine ⟨fun _ _ => Int.le_of_eq hzero, fun k hk => ?_⟩
    obtain ⟨u, hu, hw⟩ := at_iff.1 hk
    have hcount : (notifyAll LatchUse.isWaiting LatchUse.wake l.threads).countP
        LatchUse.isWaiting = 0 := countP_notifyAll fun u _ => u.isWaiting_wake
    exact absurd hw (List.countP_eq_zero.1 hcount u (List.mem_of_getElem? hu))
  · simp only [CountDownLatch.countDown, if_neg hzero]
    refine ⟨fun k hk => ?_, fun k hk => ?_⟩
    · have hopen := h.passed k hk
      show l.count - 1 ≤ 0
      omega
    · have hclosed := h.waiting k hk
      show 0 < l.count - 1
      omega

theorem new_inv (count : Int) (numThreads : Nat) : Inv (new count numThreads) := by
  have hplace : ∀ {k : Nat} {u : LatchUse}, (new count numThreads).threads[k]? = some u →
      u = .outside := fun hu => List.eq_of_mem_replicate (List.mem_of_getElem? hu)
  refine ⟨fun k hk => ?_, fun k hk => ?_⟩
  all_goals
    obtain ⟨u, hu, hp⟩ := at_iff.1 hk
    rw [hplace hu] at hp
    cases hp

theorem next_inv {a : Act} (h : Inv l) (ha : Enabled l a) : Inv (l.next a) := by
  cases a with
  | call k => exact h.call ha
  | wait k => exact h.wait ha
  | countDown => exact h.countDown
  | spurious k => exact h.spurious ha

theorem count_next (l : CountDownLatch) (a : Act) :
    (l.next a).count = l.count - (if a == .countDown then 1 else 0) := by
  cases a <;> simp [next, call, wait, countDown, spurious]

theorem run_count {count : Int} {t : CountDownLatch} {as : List Act}
    (hrun : (system count).Run l as t) : t.count = l.count - as.count .countDown := by
  induction hrun with
  | nil l => simp
  | @cons l u t a as hstep _ ih =>
      obtain ⟨_, rfl⟩ := hstep
      rw [ih, count_next, List.count_cons]
      split <;> omega

/-- In every run from a latch that is to count `count` calls, with any number of threads: the
counter says how many calls are missing, no thread is through before there were that many, and no
thread is in the wait set from then on, so that each is through after its next critical
section. -/
theorem opens_after_count {count : Int} {numThreads : Nat} {as : List Act}
    (hrun : (system count).Run (new count numThreads) as l) :
    l.getCount = count - as.count .countDown ∧
      (∀ k, At l.threads k LatchUse.isPassed → count ≤ as.count .countDown) ∧
      (count ≤ as.count .countDown → ∀ k, ¬ At l.threads k LatchUse.isWaiting ∧
        (At l.threads k LatchUse.isReady → At (l.wait k).threads k LatchUse.isPassed)) := by
  have hinv : Inv l := by
    refine hrun.preserves ?_ (new_inv count numThreads)
    rintro s a t hs ⟨ha, rfl⟩
    exact next_inv hs ha
  have hcount := run_count hrun
  have hnew : (new count numThreads).count = count := rfl
  rw [hnew] at hcount
  refine ⟨hcount, fun k hk => ?_, fun hopen k => ⟨fun hk => ?_, fun hk => ?_⟩⟩
  · have := hinv.passed k hk
    omega
  · have := hinv.waiting k hk
    omega
  · obtain ⟨u, hu, _⟩ := at_iff.1 hk
    have hclosed : ¬ 0 < l.count := by omega
    rw [wait, if_neg hclosed, at_set hu, if_pos rfl]
    rfl

/-- Thread 0 waits and is woken for nothing, thread 1 comes after the second call. -/
def twoCalls : List Act :=
  [.call 0, .wait 0, .countDown, .spurious 0, .wait 0, .call 1, .countDown, .wait 1, .wait 0]

theorem opens_after_count_twoCalls :
    (twoCalls.foldl next (new 2 2)).threads = [.passed, .passed] ∧
      (2 : Int) ≤ twoCalls.count .countDown := by
  have hrun : (system 2).Run (new 2 2) twoCalls (twoCalls.foldl next (new 2 2)) :=
    StepSystem.run_foldl (by decide)
  exact ⟨by decide, (opens_after_count hrun).2.1 0 (by decide)⟩

end CountDownLatch

end Muduo
