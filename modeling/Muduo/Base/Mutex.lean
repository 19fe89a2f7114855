import Mathlib.Logic.Function.Basic
import Muduo.Base.Fault
import Muduo.Foundation.StepSystem
import Muduo.Foundation.WaitSet

/-!
# Mutex — `MutexLock` and `Condition` of `muduo/base/Mutex.h` and `Condition.h`

`holder_` is to say which thread is inside the critical section.  It is written by the thread that
has the `pthread_mutex_t`, always a step later or a step earlier than the mutex itself changes
hands, and `Condition::wait` gives it up and takes it again around `pthread_cond_wait`.  Other
threads read it at any time, without the mutex.

Every write of `holder_` and every pthread call is a step.  A thread uses the mutex as
`MutexLockGuard` does, so it does not lock a mutex that it has.
-/

namespace Muduo

/-- What `CurrentThread::tid()` returns on the different threads. -/
structure ThreadIds where
  tid : Nat → Nat
  pos : ∀ k, 0 < tid k
  injective : Function.Injective tid

/-- Where a thread is in its use of a mutex. -/
inductive LockUse
  | outside
  /-- In `pthread_mutex_lock`. -/
  | locking
  /-- In `lock()`, before `assignHolder()`. -/
  | locked
  /-- In the critical section. -/
  | inside
  /-- In `unlock()`, after `unassignHolder()`. -/
  | unlocking
  /-- In `Condition::wait`, after the constructor of the `UnassignGuard`. -/
  | suspending
  /-- In the wait set of the condition. -/
  | waiting
  /-- Taken out of the wait set, before `pthread_cond_wait` has the mutex again. -/
  | woken
  /-- Before the destructor of the `UnassignGuard`. -/
  | resumed
  deriving DecidableEq, Repr

namespace LockUse

/-- The thread has the `pthread_mutex_t`. -/
def owns : LockUse → Bool
  | .locked => true
  | .inside => true
  | .unlocking => true
  | .suspending => true
  | .resumed => true
  | _ => false

def isInside : LockUse → Bool
  | .inside => true
  | _ => false

def isWaiting : LockUse → Bool
  | .waiting => true
  | _ => false

def wake : LockUse → LockUse
  | .waiting => .woken
  | u => u

@[simp] theorem owns_wake (u : LockUse) : u.wake.owns = u.owns := by
  cases u <;> rfl

@[simp] theorem isInside_wake (u : LockUse) : u.wake.isInside = u.isInside := by
  cases u <;> rfl

theorem owns_of_isInside {u : LockUse} (h : u.isInside = true) : u.owns = true := by
  cases u <;> first | rfl | cases h

end LockUse

structure MutexLock where
  /-- `mutex_`: the thread that has locked it. -/
  mutex : Option Nat
  /-- `holder_`. -/
  holder : Nat
  threads : List LockUse
  deriving DecidableEq, Repr

namespace MutexLock

open WaitSet

/-- The mutex after its constructor, and any number of threads. -/
def new (numThreads : Nat) : MutexLock where
  mutex := none
  holder := 0
  threads := List.replicate numThreads .outside

/-! ## The functions of the class -/

section Functions

variable (ids : ThreadIds) (m : MutexLock) (k : Nat)

def isLockedByThisThread : Bool :=
  m.holder == ids.tid k

def assignHolder : MutexLock :=
  { m with holder := ids.tid k }

def unassignHolder : MutexLock :=
  { m with holder := 0 }

/-- `pthread_mutex_lock` returns. -/
def pthreadLock : MutexLock :=
  { m with mutex := some k }

/-- `pthread_mutex_unlock`, which only the owner may call. -/
def pthreadUnlock : Except Fault MutexLock := do
  assert (m.mutex = some k)
  pure { m with mutex := none }

/-- The thread goes on to the next place. -/
def goTo (u : LockUse) : MutexLock :=
  { m with threads := m.threads.set k u }

end Functions

/-! ## Interleavings -/

inductive Act
  /-- `lock()` is called. -/
  | call (k : Nat)
  /-- `pthread_mutex_lock` returns, or `pthread_cond_wait` does. -/
  | acquire (k : Nat)
  | assignHolder (k : Nat)
  /-- `unlock()` is called. -/
  | unassignHolder (k : Nat)
  | unlock (k : Nat)
  /-- `Condition::wait` is called. -/
  | suspend (k : Nat)
  /-- `pthread_cond_wait` releases the mutex and waits. -/
  | wait (k : Nat)
  | spurious (k : Nat)
  | notify (k : Option Nat)
  | notifyAll
  deriving DecidableEq, Repr

def exec (ids : ThreadIds) (m : MutexLock) : Act → Except Fault MutexLock
  | .call k => .ok (m.goTo k .locking)
  | .acquire k =>
      match m.threads[k]? with
      | some .woken => .ok ((m.pthreadLock k).goTo k .resumed)
      | _ => .ok ((m.pthreadLock k).goTo k .locked)
  | .assignHolder k => .ok ((m.assignHolder ids k).goTo k .inside)
  | .unassignHolder k => .ok (m.unassignHolder.goTo k .unlocking)
  | .unlock k => do
      let m ← m.pthreadUnlock k
      pure (m.goTo k .outside)
  | .suspend k => .ok (m.unassignHolder.goTo k .suspending)
  | .wait k => do
      let m ← m.pthreadUnlock k
      pure (m.goTo k .waiting)
  | .spurious k => .ok { m with threads := wakeAt LockUse.wake m.threads k }
  | .notify k => .ok { m with threads := WaitSet.notify LockUse.wake m.threads k }
  | .notifyAll =>
      .ok { m with threads := WaitSet.notifyAll LockUse.isWaiting LockUse.wake m.threads }

/-- The thread is where the action takes place, and the pthread mutex is given to one thread at a
time. -/
def Enabled (m : MutexLock) : Act → Prop
  | .call k => m.threads[k]? = some .outside
  | .acquire k =>
      m.mutex = none ∧ (m.threads[k]? = some .locking ∨ m.threads[k]? = some .woken)
  | .assignHolder k => m.threads[k]? = some .locked ∨ m.threads[k]? = some .resumed
  | .unassignHolder k => m.threads[k]? = some .inside
  | .unlock k => m.threads[k]? = some .unlocking
  | .suspend k => m.threads[k]? = some .inside
  | .wait k => m.threads[k]? = some .suspending
  | .spurious k => m.threads[k]? = some .waiting
  | .notify k => Picks LockUse.isWaiting m.threads k
  | .notifyAll => True

instance (m : MutexLock) (a : Act) : Decidable (Enabled m a) :=
  match a with
  | .call _ => inferInstanceAs (Decidable (_ = _))
  | .acquire _ => inferInstanceAs (Decidable (_ ∧ (_ ∨ _)))
  | .assignHolder _ => inferInstanceAs (Decidable (_ ∨ _))
  | .unassignHolder _ => inferInstanceAs (Decidable (_ = _))
  | .unlock _ => inferInstanceAs (Decidable (_ = _))
  | .suspend _ => inferInstanceAs (Decidable (_ = _))
  | .wait _ => inferInstanceAs (Decidable (_ = _))
  | .spurious _ => inferInstanceAs (Decidable (_ = _))
  | .notify _ => inferInstanceAs (Decidable (Picks _ _ _))
  | .notifyAll => isTrue trivial

def system (ids : ThreadIds) : StepSystem MutexLock Act :=
  StepSystem.ofExec (fun m => ∃ numThreads, m = new numThreads) Enabled (exec ids)

/-! ## What `holder_` says -/

/-- The mutex belongs to the one thread that has it, and `holder_` names the thread inside. -/
structure Inv (ids : ThreadIds) (m : MutexLock) : Prop where
  mutex : ∀ k, m.mutex = some k ↔ At m.threads k LockUse.owns
  holder : ∀ k, m.holder = ids.tid k ↔ At m.threads k LockUse.isInside
  nobody : m.holder = 0 ∨ ∃ k, m.holder = ids.tid k

section Invariant

variable {ids : ThreadIds} {m : MutexLock} {k : Nat} {u v : LockUse}

theorem at_owns_iff (hu : m.threads[k]? = some u) :
    At m.threads k LockUse.owns ↔ u.owns = true := by
  simp [At, hu]

/-- A step of a thread that has the mutex afterwards, or had it before: nobody else has it, so
`mutex` and `holder` are as the new place of the thread says. -/
theorem Inv.of_alone (hu : m.threads[k]? = some u)
    (hothers : ∀ j, At m.threads j LockUse.owns → j = k) {mutex : Option Nat} {holder : Nat}
    (hmutex : mutex = if v.owns then some k else none)
    (hholder : holder = if v.isInside then ids.tid k else 0) :
    Inv ids { mutex := mutex, holder := holder, threads := m.threads.set k v } := by
  have hzero : ∀ j, (0 : Nat) ≠ ids.tid j := fun j => Nat.ne_of_lt (ids.pos j)
  subst hmutex hholder
  refine ⟨fun j => ?_, fun j => ?_, ?_⟩
  · rw [at_set hu]
    by_cases hj : j = k
    · subst hj
      cases v.owns <;> simp
    · have hno : ¬ At m.threads j LockUse.owns := fun hown => hj (hothers j hown)
      have hne : ¬ k = j := fun heq => hj heq.symm
      cases v.owns <;> simp [hj, hno, hne]
  · rw [at_set hu]
    by_cases hj : j = k
    · subst hj
      cases v.isInside <;> simp [hzero]
    · have hno : ¬ At m.threads j LockUse.isInside := by
        intro hin
        obtain ⟨x, hx, hxin⟩ := at_iff.1 hin
        exact hj (hothers j (at_iff.2 ⟨x, hx, LockUse.owns_of_isInside hxin⟩))
      have hne : ids.tid k ≠ ids.tid j := fun heq => hj (ids.injective heq).symm
      cases v.isInside <;> simp [hj, hno, hne, hzero]
  · cases v.isInside
    · exact Or.inl rfl
    · exact Or.inr ⟨k, rfl⟩

/-- A step of a thread that has not got the mutex, neither before nor afterwards. -/
theorem Inv.stays (h : Inv ids m) {threads : List LockUse}
    (howns : ∀ j, At threads j LockUse.owns ↔ At m.threads j LockUse.owns)
    (hinside : ∀ j, At threads j LockUse.isInside ↔ At m.threads j LockUse.isInside) :
    Inv ids { m with threads := threads } :=
  ⟨fun j => (h.mutex j).trans (howns j).symm, fun j => (h.holder j).trans (hinside j).symm,
    h.nobody⟩

/-- The owner is the only one that has the mutex. -/
theorem Inv.unique (h : Inv ids m) (hu : m.threads[k]? = some u) (howns : u.owns = true) (j : Nat)
    (hj : At m.threads j LockUse.owns) : j = k := by
  have hmine := (h.mutex k).2 ((at_owns_iff hu).2 howns)
  rw [(h.mutex j).2 hj, Option.some.injEq] at hmine
  exact hmine

theorem Inv.free (h : Inv ids m) (hfree : m.mutex = none) (j : Nat) :
    ¬ At m.threads j LockUse.owns := by
  intro hown
  rw [(h.mutex j).2 hown] at hfree
  cases hfree

/-- `holder_` is 0 as long as nobody is inside. -/
theorem Inv.holder_eq_zero (h : Inv ids m) (hno : ∀ j, ¬ At m.threads j LockUse.isInside) :
    m.holder = 0 := by
  rcases h.nobody with hzero | ⟨k, hk⟩
  · exact hzero
  · exact absurd ((h.holder k).1 hk) (hno k)

/-- A thread that has the mutex and is not inside sees `holder_` at 0. -/
theorem Inv.holder_of_owner (h : Inv ids m) (hu : m.threads[k]? = some u) (howns : u.owns = true)
    (hout : u.isInside = false) : m.holder = 0 := by
  refine h.holder_eq_zero fun j hj => ?_
  obtain ⟨x, hx, hxin⟩ := at_iff.1 hj
  have hjk := h.unique hu howns j (at_iff.2 ⟨x, hx, LockUse.owns_of_isInside hxin⟩)
  rw [hjk, hu] at hx
  cases hx
  rw [hout] at hxin
  cases hxin

theorem pthreadUnlock_ok (h : Inv ids m) (hu : m.threads[k]? = some u) (howns : u.owns = true) :
    m.pthreadUnlock k = .ok { m with mutex := none } := by
  have hmine := (h.mutex k).2 ((at_owns_iff hu).2 howns)
  simp [pthreadUnlock, assert_pos hmine]

theorem exec_inv {a : Act} (h : Inv ids m) (ha : Enabled m a) :
    ∃ t, exec ids m a = .ok t ∧ Inv ids t := by
  cases a with
  | call k =>
      have hu : m.threads[k]? = some .outside := ha
      refine ⟨_, rfl, h.stays ?_ ?_⟩
      all_goals
        intro j
        rw [at_set hu]
        split
        · subst j
          simp [At, hu, LockUse.owns, LockUse.isInside]
        · exact Iff.rfl
  | acquire k =>
      obtain ⟨hfree, hu⟩ := ha
      have hothers : ∀ j, At m.threads j LockUse.owns → j = k :=
        fun j hj => absurd hj (h.free hfree j)
      have hzero : m.holder = 0 := by
        refine h.holder_eq_zero fun j hj => ?_
        obtain ⟨x, hx, hxin⟩ := at_iff.1 hj
        exact h.free hfree j (at_iff.2 ⟨x, hx, LockUse.owns_of_isInside hxin⟩)
      rcases hu with hu | hu
      · exact ⟨(m.pthreadLock k).goTo k .locked, by simp [exec, hu],
          Inv.of_alone (v := .locked) hu hothers rfl hzero⟩
      · exact ⟨(m.pthreadLock k).goTo k .resumed, by simp [exec, hu],
          Inv.of_alone (v := .resumed) hu hothers rfl hzero⟩
  | assignHolder k =>
      rcases ha with hu | hu
      all_goals
        have hmine := (h.mutex k).2 ((at_owns_iff hu).2 rfl)
        exact ⟨_, rfl, Inv.of_alone hu (h.unique hu rfl) hmine rfl⟩
  | unassignHolder k =>
      have hu : m.threads[k]? = some .inside := ha
      have hmine := (h.mutex k).2 ((at_owns_iff hu).2 rfl)
      exact ⟨_, rfl, Inv.of_alone hu (h.unique hu rfl) hmine rfl⟩
  | unlock k =>
      have hu : m.threads[k]? = some .unlocking := ha
      refine ⟨{ m with mutex := none }.goTo k .outside,
        by simp only [exec, pthreadUnlock_ok h hu rfl, ok_bind, pure_eq_ok], ?_⟩
      exact Inv.of_alone hu (h.unique hu rfl) rfl (h.holder_of_owner hu rfl rfl)
  | suspend k =>
      have hu : m.threads[k]? = some .inside := ha
      have hmine := (h.mutex k).2 ((at_owns_iff hu).2 rfl)
      exact ⟨_, rfl, Inv.of_alone hu (h.unique hu rfl) hmine rfl⟩
  | wait k =>
      have hu : m.threads[k]? = some .suspending := ha
      refine ⟨{ m with mutex := none }.goTo k .waiting,
        by simp only [exec, pthreadUnlock_ok h hu rfl, ok_bind, pure_eq_ok], ?_⟩
      exact Inv.of_alone hu (h.unique hu rfl) rfl (h.holder_of_owner hu rfl rfl)
  | spurious k =>
      refine ⟨_, rfl, h.stays (fun j => ?_) fun j => ?_⟩
      · exact at_notify (k := some k) LockUse.owns_wake
      · exact at_notify (k := some k) LockUse.isInside_wake
  | notify k =>
      exact ⟨_, rfl, h.stays (fun _ => at_notify LockUse.owns_wake) fun _ =>
        at_notify LockUse.isInside_wake⟩
  | notifyAll =>
      exact ⟨_, rfl, h.stays (fun _ => at_notifyAll LockUse.owns_wake) fun _ =>
        at_notifyAll LockUse.isInside_wake⟩

theorem init_inv {numThreads : Nat} : Inv ids (new numThreads) := by
  have hno : ∀ {p : LockUse → Bool}, p .outside = false →
      ∀ j, ¬ At (new numThreads).threads j p := by
    intro p hp j hj
    obtain ⟨x, hx, hpx⟩ := at_iff.1 hj
    rw [List.eq_of_mem_replicate (List.mem_of_getElem? hx), hp] at hpx
    cases hpx
  refine ⟨fun j => ?_, fun j => ?_, Or.inl rfl⟩
  · exact iff_of_false (by simp [new]) (hno rfl j)
  · exact iff_of_false (Nat.ne_of_lt (ids.pos j)) (hno rfl j)

/-- In every interleaving at most one thread has the mutex, and none that has not unlocks it;
`isLockedByThisThread()` is true on the thread inside and on no other, whoever asks and whenever;
and when no thread has the mutex it is free, and the destructor finds `holder_` at 0. -/
theorem holder_exact (hm : (system ids).Reachable m) :
    (∀ j k, At m.threads j LockUse.owns → At m.threads k LockUse.owns → j = k) ∧
      (∀ k, m.isLockedByThisThread ids k = true ↔ At m.threads k LockUse.isInside) ∧
      (∀ a, Enabled m a → ∃ t, exec ids m a = .ok t) ∧
      ((∀ k, ¬ At m.threads k LockUse.owns) → m.mutex = none ∧ m.holder = 0) := by
  have h0 : ∀ {s}, (∃ numThreads, s = new numThreads) → Inv ids s := by
    rintro s ⟨numThreads, rfl⟩
    exact init_inv
  obtain ⟨hinv, hsafe⟩ := StepSystem.ofExec_safe h0 exec_inv hm
  refine ⟨fun j k hj hk => ?_, fun k => ?_, hsafe, fun hno => ⟨?_, ?_⟩⟩
  · obtain ⟨u, hu, howns⟩ := at_iff.1 hk
    exact hinv.unique hu howns j hj
  · rw [isLockedByThisThread, beq_iff_eq]
    exact hinv.holder k
  · cases hmutex : m.mutex with
    | none => rfl
    | some k => exact absurd ((hinv.mutex k).1 hmutex) (hno k)
  · refine hinv.holder_eq_zero fun j hj => ?_
    obtain ⟨x, hx, hxin⟩ := at_iff.1 hj
    exact hno j (at_iff.2 ⟨x, hx, LockUse.owns_of_isInside hxin⟩)

end Invariant

/-- Two threads with the tids 1 and 2. -/
def someIds : ThreadIds where
  tid := fun k => k + 1
  pos := Nat.succ_pos
  injective := fun _ _ h => Nat.succ.inj h

/-- Thread 0 waits on the condition, thread 1 enters, notifies and leaves, and thread 0 is back. -/
def handOver : List Act :=
  [.call 0, .call 1, .acquire 0, .assignHolder 0, .suspend 0, .wait 0, .acquire 1, .assignHolder 1,
    .notify (some 0), .unassignHolder 1, .unlock 1, .acquire 0, .assignHolder 0]

def afterHandOver : MutexLock :=
  (StepSystem.execAll (exec someIds) (new 2) handOver).toOption.getD (new 2)

theorem holder_exact_handOver :
    afterHandOver.threads = [.inside, .outside] ∧
      (∀ k, afterHandOver.isLockedByThisThread someIds k = true ↔
        At afterHandOver.threads k LockUse.isInside) := by
  have hrun : (system someIds).Run (new 2) handOver afterHandOver :=
    StepSystem.run_of_execAll (by decide) rfl
  exact ⟨by decide, (holder_exact (hrun.reachable (StepSystem.Reachable.init ⟨2, rfl⟩))).2.1⟩

end MutexLock

end Muduo
