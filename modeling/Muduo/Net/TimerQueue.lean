import Mathlib.Algebra.Group.Nat.Defs
import Mathlib.Data.Prod.Lex
import Mathlib.Logic.Function.Basic
import Muduo.Base.Fault
import Muduo.Foundation.OrdSet
import Muduo.Foundation.StepSystem

/-!
# TimerQueue — the timer queue of `muduo/net/TimerQueue.cc`

`TimerQueue` holds the two indexes `timers_` and `activeTimers_`, the timers to be cancelled,
the state of the timerfd, the live `Timer` objects (`heap`) and, while `handleRead` is running,
its local variables (`frame`).  Dereferencing or deleting a `Timer *` goes through the heap, so
a read after deletion and a second deletion are faults, as is an `assert` that fails.

A timer callback is user code: it may add and cancel timers in any order and at any time while
it runs.  So `handleRead` is cut at its callbacks into a beginning, one step per callback and
an end, and `addTimerInLoop` and `cancelInLoop` may run between any two of these steps.

Times are nanoseconds since the epoch of `system_clock`; a default-constructed `time_point` is
the epoch itself.  Of the `double` interval of a timer the code uses `interval > 0.0` and
`duration_cast<nanoseconds>(interval_)`, which are the fields `repeat_` and `interval`.
-/

namespace Muduo
namespace Net

/-! ## Timers and the entries of the two indexes -/

def UINTPTR_MAX : Addr := 2 ^ 64 - 1

/-- A default-constructed `time_point`, the source's `invalid`. -/
def invalidTime : Int := 0

structure Timer where
  expiration : Int
  interval : Int
  repeat_ : Bool
  sequence : Nat
  deriving DecidableEq, Repr

namespace Timer

/-- `Timer::restart`. -/
def restart (t : Timer) (now : Int) : Timer :=
  if t.repeat_ then
    { t with expiration := now + t.interval }
  else
    { t with expiration := invalidTime }

@[simp] theorem restart_sequence (t : Timer) (now : Int) :
    (t.restart now).sequence = t.sequence := by
  unfold restart
  split <;> rfl

end Timer

/-- `std::pair<time_point, Timer *>`, ordered by time and then by address. -/
structure Entry where
  expiration : Int
  timer : Addr
  deriving DecidableEq, Repr

namespace Entry

def key (e : Entry) : Int ×ₗ Addr :=
  toLex (e.expiration, e.timer)

theorem key_injective : Function.Injective key := by
  intro a b h
  have hpair : (a.expiration, a.timer) = (b.expiration, b.timer) := toLex.injective h
  cases a
  cases b
  simpa using hpair

instance : LinearOrder Entry :=
  LinearOrder.lift' key key_injective

theorem lt_iff {a b : Entry} :
    a < b ↔ a.expiration < b.expiration ∨ a.expiration = b.expiration ∧ a.timer < b.timer :=
  Prod.Lex.toLex_lt_toLex

theorem expiration_le_of_le {a b : Entry} (h : a ≤ b) : a.expiration ≤ b.expiration := by
  rcases lt_or_eq_of_le h with hlt | rfl
  · rcases lt_iff.1 hlt with hexp | ⟨hexp, _⟩
    · exact le_of_lt hexp
    · exact le_of_eq hexp
  · exact le_refl _

end Entry

/-- `std::pair<Timer *, int64_t>`: a timer and its sequence number. -/
structure ActiveTimer where
  timer : Addr
  sequence : Nat
  deriving DecidableEq, Repr

namespace ActiveTimer

def key (a : ActiveTimer) : Addr ×ₗ Nat :=
  toLex (a.timer, a.sequence)

theorem key_injective : Function.Injective key := by
  intro a b h
  have hpair : (a.timer, a.sequence) = (b.timer, b.sequence) := toLex.injective h
  cases a
  cases b
  simpa using hpair

instance : LinearOrder ActiveTimer :=
  LinearOrder.lift' key key_injective

end ActiveTimer

structure TimerId where
  timer : Addr
  sequence : Nat
  deriving DecidableEq, Repr

/-- The timerfd: not set, set and not yet expired, or expired and not yet read. -/
inductive Timerfd
  | disarmed
  | armed (expiration : Int)
  | readable
  deriving DecidableEq, Repr

/-- The local variables of a running `handleRead`; `rest` are the entries of `expired` whose
callback has not run yet. -/
structure Frame where
  now : Int
  expired : List Entry
  rest : List Entry

structure TimerQueue where
  heap : Addr → Option Timer
  /-- Timers that `addTimer` has created and whose `addTimerInLoop` has not run yet. -/
  created : List Addr
  /-- `Timer::s_numCreated_`. -/
  numCreated : Nat
  timerfd : Timerfd
  timers : OrdSet Entry
  activeTimers : OrdSet ActiveTimer
  callingExpiredTimers : Bool
  cancelingTimers : OrdSet ActiveTimer
  frame : Option Frame

namespace TimerQueue

def new : TimerQueue where
  heap := fun _ => none
  created := []
  numCreated := 0
  timerfd := .disarmed
  timers := OrdSet.empty
  activeTimers := OrdSet.empty
  callingExpiredTimers := false
  cancelingTimers := OrdSet.empty
  frame := none

/-! ## The heap and the timerfd -/

/-- Read through a `Timer *`. -/
def deref (q : TimerQueue) (timer : Addr) : Except Fault Timer :=
  match q.heap timer with
  | some t => .ok t
  | none => .error .useAfterFree

/-- `delete timer`. -/
def delete (q : TimerQueue) (timer : Addr) : Except Fault TimerQueue :=
  match q.heap timer with
  | some _ => .ok { q with heap := Function.update q.heap timer none }
  | none => .error .doubleFree

/-- `new Timer(cb, when, interval)` in `addTimer`, at the address `timer`. -/
def newTimer (q : TimerQueue) (timer : Addr) (when_ : Int) (interval : Int) (repeat_ : Bool) :
    TimerQueue :=
  { q with
    heap := Function.update q.heap timer
      (some { expiration := when_, interval := interval, repeat_ := repeat_,
              sequence := q.numCreated + 1 })
    numCreated := q.numCreated + 1
    created := timer :: q.created }

def readTimerfd (q : TimerQueue) : TimerQueue :=
  { q with timerfd := .disarmed }

def resetTimerfd (q : TimerQueue) (expiration : Int) : TimerQueue :=
  { q with timerfd := .armed expiration }

/-- The kernel's side: an armed timerfd expires. -/
def fire (q : TimerQueue) : TimerQueue :=
  match q.timerfd with
  | .armed _ => { q with timerfd := .readable }
  | _ => q

/-! ## Adding and cancelling -/

/-- The test of `insert` that decides whether the timerfd must be set again. -/
def earliestChanged (q : TimerQueue) (when_ : Int) : Bool :=
  match q.timers.first? with
  | none => true
  | some it => decide (when_ < it.expiration)

def insert (q : TimerQueue) (timer : Addr) : Except Fault (TimerQueue × Bool) := do
  assert (q.timers.size = q.activeTimers.size)
  let t ← q.deref timer
  let when_ := t.expiration
  let earliestChanged := q.earliestChanged when_
  -- `assert(result.second)`: the set did not hold the entry before
  assert (Entry.mk when_ timer ∉ q.timers)
  let q := { q with timers := q.timers.insert ⟨when_, timer⟩ }
  assert (ActiveTimer.mk timer t.sequence ∉ q.activeTimers)
  let q := { q with activeTimers := q.activeTimers.insert ⟨timer, t.sequence⟩ }
  assert (q.timers.size = q.activeTimers.size)
  pure (q, earliestChanged)

def addTimerInLoop (q : TimerQueue) (timer : Addr) : Except Fault TimerQueue := do
  let q := { q with created := q.created.erase timer }
  let (q, earliestChanged) ← q.insert timer
  if earliestChanged then
    let t ← q.deref timer
    pure (q.resetTimerfd t.expiration)
  else
    pure q

def cancelInLoop (q : TimerQueue) (timerId : TimerId) : Except Fault TimerQueue := do
  assert (q.timers.size = q.activeTimers.size)
  let timer : ActiveTimer := ⟨timerId.timer, timerId.sequence⟩
  let q ←
    if timer ∈ q.activeTimers then do
      let t ← q.deref timer.timer
      -- `assert(n == 1)` on the number of erased entries
      assert (Entry.mk t.expiration timer.timer ∈ q.timers)
      let q := { q with timers := q.timers.erase ⟨t.expiration, timer.timer⟩ }
      let q ← q.delete timer.timer
      pure { q with activeTimers := q.activeTimers.erase timer }
    -- The timer may belong to the batch whose callbacks are running.
    else if q.callingExpiredTimers then
      pure { q with cancelingTimers := q.cancelingTimers.insert timer }
    else
      pure q
  assert (q.timers.size = q.activeTimers.size)
  pure q

/-! ## Expired timers -/

/-- The loop of `getExpired` that takes the expired timers out of `activeTimers_`. -/
def eraseActive (q : TimerQueue) : List Entry → Except Fault TimerQueue
  | [] => .ok q
  | it :: expired => do
      let t ← q.deref it.timer
      let timer : ActiveTimer := ⟨it.timer, t.sequence⟩
      assert (timer ∈ q.activeTimers)
      eraseActive { q with activeTimers := q.activeTimers.erase timer } expired

def getExpired (q : TimerQueue) (now : Int) : Except Fault (TimerQueue × List Entry) := do
  assert (q.timers.size = q.activeTimers.size)
  -- `lower_bound` of an entry behind all timers that expire at `now`
  let sentry : Entry := ⟨now, UINTPTR_MAX⟩
  let expired := (q.timers.below sentry).elems
  let rest := q.timers.from sentry
  assert (∀ end_ ∈ rest.first?, now < end_.expiration)
  let q := { q with timers := rest }
  let q ← q.eraseActive expired
  assert (q.timers.size = q.activeTimers.size)
  pure (q, expired)

/-- What `reset` does with one expired timer: start it again or delete it. -/
def resetTimer (q : TimerQueue) (now : Int) (it : Entry) : Except Fault TimerQueue := do
  let t ← q.deref it.timer
  let timer : ActiveTimer := ⟨it.timer, t.sequence⟩
  if t.repeat_ && !decide (timer ∈ q.cancelingTimers) then
    let q := { q with heap := Function.update q.heap it.timer (some (t.restart now)) }
    let (q, _) ← q.insert it.timer
    pure q
  else
    q.delete it.timer

/-- The loop of `reset`: the timerfd is set inside the loop, from the expiration `nextExpire`
that is carried from one iteration to the next. -/
def resetLoop (now : Int) : List Entry → Int → TimerQueue → Except Fault TimerQueue
  | [], _, q => .ok q
  | it :: expired, nextExpire, q => do
      let q ← q.resetTimer now it
      -- With `timers_` empty, `nextExpire` keeps the value of the iteration before.
      let nextExpire ←
        match q.timers.first? with
        | none => pure nextExpire
        | some first => do
            let t ← q.deref first.timer
            pure t.expiration
      let q := if invalidTime < nextExpire then q.resetTimerfd nextExpire else q
      resetLoop now expired nextExpire q

def reset (q : TimerQueue) (expired : List Entry) (now : Int) : Except Fault TimerQueue :=
  resetLoop now expired invalidTime q

/-- `handleRead` up to its loop over the callbacks. -/
def handleReadBegin (q : TimerQueue) (now : Int) : Except Fault TimerQueue := do
  let q := q.readTimerfd
  let (q, expired) ← q.getExpired now
  pure { q with callingExpiredTimers := true, cancelingTimers := OrdSet.empty,
                frame := some { now := now, expired := expired, rest := expired } }

/-- `it.second->run()` for the next entry of the batch. -/
def handleReadRun (q : TimerQueue) : Except Fault TimerQueue :=
  match q.frame with
  | some { now, expired, rest := it :: rest } => do
      let _ ← q.deref it.timer
      pure { q with frame := some { now := now, expired := expired, rest := rest } }
  | _ => .ok q

/-- `handleRead` after its loop over the callbacks. -/
def handleReadEnd (q : TimerQueue) : Except Fault TimerQueue :=
  match q.frame with
  | some frame => do
      let q := { q with callingExpiredTimers := false, frame := none }
      q.reset frame.expired frame.now
  | none => .ok q

/-- The loop of `~TimerQueue` over `timers_`. -/
def deleteTimers : List Entry → TimerQueue → Except Fault TimerQueue
  | [], q => .ok q
  | timer :: timers, q => do
      let q ← q.delete timer.timer
      deleteTimers timers q

/-- `~TimerQueue`, but for the timerfd. -/
def destroy (q : TimerQueue) : Except Fault TimerQueue :=
  deleteTimers q.timers.elems q

/-! ## Runs -/

inductive Act
  | newTimer (timer : Addr) (when_ : Int) (interval : Int) (repeat_ : Bool)
  | addTimerInLoop (timer : Addr)
  | cancelInLoop (timerId : TimerId)
  | fire
  | handleReadBegin (now : Int)
  | handleReadRun
  | handleReadEnd
  deriving DecidableEq, Repr

def exec (q : TimerQueue) : Act → Except Fault TimerQueue
  | .newTimer timer when_ interval repeat_ => .ok (q.newTimer timer when_ interval repeat_)
  | .addTimerInLoop timer => q.addTimerInLoop timer
  | .cancelInLoop timerId => q.cancelInLoop timerId
  | .fire => .ok q.fire
  | .handleReadBegin now => q.handleReadBegin now
  | .handleReadRun => q.handleReadRun
  | .handleReadEnd => q.handleReadEnd

/-- Which actions the rest of the program and the kernel may choose: the allocator returns the
address of no live timer and never null nor the last address, `addTimerInLoop` runs once for
every created timer, and the parts of `handleRead` come in order. -/
def Enabled (q : TimerQueue) : Act → Prop
  | .newTimer timer _ _ _ => q.heap timer = none ∧ 0 < timer ∧ timer < UINTPTR_MAX
  | .addTimerInLoop timer => timer ∈ q.created
  | .cancelInLoop _ => True
  | .fire => True
  | .handleReadBegin _ => q.frame = none
  | .handleReadRun => ∃ f ∈ q.frame, f.rest ≠ []
  | .handleReadEnd => ∃ f ∈ q.frame, f.rest = []

instance (q : TimerQueue) (a : Act) : Decidable (Enabled q a) :=
  match a with
  | .newTimer _ _ _ _ => inferInstanceAs (Decidable (_ ∧ _ ∧ _))
  | .addTimerInLoop _ => inferInstanceAs (Decidable (_ ∈ _))
  | .cancelInLoop _ => isTrue trivial
  | .fire => isTrue trivial
  | .handleReadBegin _ => decidable_of_iff (q.frame.isNone = true) Option.isNone_iff_eq_none
  | .handleReadRun => inferInstanceAs (Decidable (∃ f ∈ q.frame, f.rest ≠ []))
  | .handleReadEnd => inferInstanceAs (Decidable (∃ f ∈ q.frame, f.rest = []))

def system : StepSystem TimerQueue Act :=
  StepSystem.ofExec (· = TimerQueue.new) Enabled exec

end TimerQueue

end Net
end Muduo
