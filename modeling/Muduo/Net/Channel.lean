import Mathlib.Data.BitVec

/-!
# Channel — event masks and `muduo/net/Channel.h`

`events_` and `revents_` are the `int` masks of epoll, and `index_` is what the poller remembers
of a channel.  The lemmas say how the interest in reading and the interest in writing change
under the functions that edit `events_`, and which callbacks `handleEventWithGuard` makes.
-/

namespace Muduo
namespace Net

/-! ## Masks -/

abbrev Mask := BitVec 32

def EPOLLIN : Mask := 0x001
def EPOLLPRI : Mask := 0x002
def EPOLLOUT : Mask := 0x004
def EPOLLERR : Mask := 0x008
def EPOLLHUP : Mask := 0x010

def kNoneEvent : Mask := 0
def kReadEvent : Mask := EPOLLIN ||| EPOLLPRI
def kWriteEvent : Mask := EPOLLOUT

namespace Mask

/-- `mask & bits`, as a condition. -/
def has (mask bits : Mask) : Bool :=
  mask &&& bits != 0

/-- `mask | bits`. -/
def enable (mask bits : Mask) : Mask :=
  mask ||| bits

/-- `mask & ~bits`. -/
def disable (mask bits : Mask) : Mask :=
  mask &&& ~~~bits

theorem has_enable (mask bits b : Mask) :
    (mask.enable bits).has b = (mask.has b || bits.has b) := by
  rw [Bool.eq_iff_iff]
  simp [has, enable, BitVec.and_or_distrib_right]
  tauto

theorem has_disable_self (mask bits : Mask) : (mask.disable bits).has bits = false := by
  simp [has, disable, BitVec.and_assoc]

/-- Clearing bits leaves the disjoint ones. -/
theorem has_disable_of_disjoint {bits b : Mask} (h : ~~~bits &&& b = b) (mask : Mask) :
    (mask.disable bits).has b = mask.has b := by
  simp [has, disable, BitVec.and_assoc, h]

def isNoneEvent (events : Mask) : Bool :=
  events == kNoneEvent

/-- A mask with some bit is not empty. -/
theorem isNoneEvent_of_has {mask bits : Mask} (h : mask.has bits = true) :
    mask.isNoneEvent = false := by
  by_contra hnone
  have hzero : mask = kNoneEvent := by
    simpa [isNoneEvent] using hnone
  rw [hzero] at h
  simp [has, kNoneEvent] at h

def isWriting (events : Mask) : Bool :=
  events.has kWriteEvent

def isReading (events : Mask) : Bool :=
  events.has kReadEvent

end Mask

/-! ## Editing the interest -/

/-- The five functions of a channel that edit `events_` and then call `update`. -/
inductive Interest
  | enableReading
  | disableReading
  | enableWriting
  | disableWriting
  | disableAll
  deriving DecidableEq, Repr

def Interest.edit : Interest → Mask → Mask
  | .enableReading, events => events.enable kReadEvent
  | .disableReading, events => events.disable kReadEvent
  | .enableWriting, events => events.enable kWriteEvent
  | .disableWriting, events => events.disable kWriteEvent
  | .disableAll, _ => kNoneEvent

/-- Only the writing functions and `disableAll` change the interest in writing. -/
theorem isWriting_edit (op : Interest) (events : Mask) :
    (op.edit events).isWriting =
      match op with
      | .enableWriting => true
      | .disableWriting => false
      | .disableAll => false
      | _ => events.isWriting := by
  cases op with
  | enableReading =>
      have hbits : kReadEvent.has kWriteEvent = false := by decide
      simp [Interest.edit, Mask.isWriting, Mask.has_enable, hbits]
  -- `kReadEvent` and `kWriteEvent` have no bit in common.
  | disableReading => exact Mask.has_disable_of_disjoint (by decide) events
  | enableWriting =>
      have hbits : kWriteEvent.has kWriteEvent = true := by decide
      simp [Interest.edit, Mask.isWriting, Mask.has_enable, hbits]
  | disableWriting => exact Mask.has_disable_self events kWriteEvent
  | disableAll => simp [Interest.edit, Mask.isWriting, Mask.has, kNoneEvent]

/-- Only the reading functions and `disableAll` change the interest in reading. -/
theorem isReading_edit (op : Interest) (events : Mask) :
    (op.edit events).isReading =
      match op with
      | .enableReading => true
      | .disableReading => false
      | .disableAll => false
      | _ => events.isReading := by
  cases op with
  | enableReading =>
      have hbits : kReadEvent.has kReadEvent = true := by decide
      simp [Interest.edit, Mask.isReading, Mask.has_enable, hbits]
  | disableReading => exact Mask.has_disable_self events kReadEvent
  | enableWriting =>
      have hbits : kWriteEvent.has kReadEvent = false := by decide
      simp [Interest.edit, Mask.isReading, Mask.has_enable, hbits]
  | disableWriting => exact Mask.has_disable_of_disjoint (by decide) events
  | disableAll => simp [Interest.edit, Mask.isReading, Mask.has, kNoneEvent]

/-! ## Channels -/

/-- `kNew = -1`, `kAdded = 1` and `kDeleted = 2` of `EPoller.cc`. -/
inductive Index
  | kNew
  | kAdded
  | kDeleted
  deriving DecidableEq, Repr

structure Channel where
  fd : Int
  events : Mask
  index : Index
  addedToLoop : Bool
  deriving DecidableEq, Repr

namespace Channel

/-- The constructor `Channel(loop, fd)`. -/
def new (fd : Int) : Channel where
  fd := fd
  events := kNoneEvent
  index := .kNew
  addedToLoop := false

def isNoneEvent (channel : Channel) : Bool :=
  channel.events.isNoneEvent

/-- What an edit of the interest leaves in the channel: the new `events_`, and the index that
`updataChannel` chooses from the old index and the new mask. -/
def edit (channel : Channel) (op : Interest) : Channel where
  fd := channel.fd
  events := op.edit channel.events
  -- A channel without interest that is not in the epoll set is added all the same.
  index :=
    if channel.index = .kAdded ∧ (op.edit channel.events).isNoneEvent = true then .kDeleted
    else .kAdded
  addedToLoop := true

/-- What `remove` leaves in the channel. -/
def removed (channel : Channel) : Channel :=
  { channel with index := .kNew, addedToLoop := false }

end Channel

/-! ## Dispatch -/

/-- `epoll_wait` may report `revents` for an fd registered with the mask `events`: some of what
the mask asks for, or `EPOLLERR` or `EPOLLHUP`, which need not be asked for. -/
def Reportable (events revents : Mask) : Prop :=
  revents ≠ 0 ∧ revents &&& ~~~(events ||| EPOLLERR ||| EPOLLHUP) = 0

instance (events revents : Mask) : Decidable (Reportable events revents) :=
  inferInstanceAs (Decidable (_ ∧ _))

inductive Callback
  | close
  | error
  | read
  | write
  deriving DecidableEq, Repr

/-- `handleEventWithGuard`: the callbacks made for `revents_`, in order, when all four are set.
`revents_` is only written by the poller, so the four tests see one value. -/
def handleEventWithGuard (revents : Mask) : List Callback :=
  (if revents.has EPOLLHUP && !revents.has EPOLLIN then [.close] else []) ++
    (if revents.has EPOLLERR then [.error] else []) ++
    (if revents.has (EPOLLIN ||| EPOLLPRI ||| EPOLLHUP) then [.read] else []) ++
    (if revents.has EPOLLOUT then [.write] else [])

/-- The order in which `handleEventWithGuard` makes the callbacks. -/
def Callback.rank : Callback → Nat
  | .close => 0
  | .error => 1
  | .read => 2
  | .write => 3

theorem handleEventWithGuard_ordered (revents : Mask) :
    (handleEventWithGuard revents).Pairwise (fun a b => a.rank < b.rank) := by
  simp only [handleEventWithGuard]
  split_ifs <;> simp [Callback.rank]

end Net
end Muduo
