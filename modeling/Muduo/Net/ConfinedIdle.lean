import Muduo.Net.ConfinedCalls

/-!
# ConfinedIdle — when a confined function changes nothing

`SameFields` compares the members of the classes, together with the channels, timers and kernel
objects that they lead to.  `Op.Idle` is, function by function, the condition on the state before
the call under which the code behind the thread check leaves all of them as they are; the lemmas
say so for the poller, the timer queue and the connection.
-/

namespace Muduo
namespace Net

/-! ## Members -/

/-- The members of an `EventLoop` that its functions write. -/
structure EventLoop.SameFields {F : Type} (e e' : EventLoop F) : Prop where
  pendingFunctors : e'.pendingFunctors = e.pendingFunctors
  quit : e'.quit = e.quit
  callingPendingFunctors : e'.callingPendingFunctors = e.callingPendingFunctors

/-- The members of an `EPoller`, with the channels and the interest set they lead to. -/
structure EPoller.SameFields (p p' : EPoller) : Prop where
  objects : p'.objects = p.objects
  channels : p'.channels = p.channels
  interest : p'.interest = p.interest

/-- The members of a `TimerQueue`, with the timers and the timerfd they lead to. -/
structure TimerQueue.SameFields (q q' : TimerQueue) : Prop where
  heap : q'.heap = q.heap
  timerfd : q'.timerfd = q.timerfd
  timers : q'.timers = q.timers
  activeTimers : q'.activeTimers = q.activeTimers
  callingExpiredTimers : q'.callingExpiredTimers = q.callingExpiredTimers
  cancelingTimers : q'.cancelingTimers = q.cancelingTimers

structure Loop.SameFields (l l' : Loop) : Prop where
  threadId : l'.threadId = l.threadId
  eventLoop : l.eventLoop.SameFields l'.eventLoop
  epoller : l.epoller.SameFields l'.epoller
  timerQueue : l.timerQueue.SameFields l'.timerQueue

/-- Every member of every loop, poller and timer queue, of the server and of its connections. -/
structure Process.SameFields (w w' : Process) : Prop where
  loops : ∀ i, (w.loops i).SameFields (w'.loops i)
  server : w'.server = w.server
  acceptor : w'.acceptor = w.acceptor
  inputBuffer : w'.inputBuffer = w.inputBuffer

theorem Loop.SameFields.refl (l : Loop) : l.SameFields l :=
  ⟨rfl, ⟨rfl, rfl, rfl⟩, ⟨rfl, rfl, rfl⟩, ⟨rfl, rfl, rfl, rfl, rfl, rfl⟩⟩

theorem Process.SameFields.refl (w : Process) : w.SameFields w :=
  ⟨fun i => Loop.SameFields.refl (w.loops i), rfl, rfl, rfl⟩

/-! ## Functions that would change nothing -/

/-- The channel is in the interest set with reading enabled, and all who keep track of it know. -/
def Channel.Polled (c : Channel) : Prop :=
  c.events.enable kReadEvent = c.events ∧ c.index = .kAdded ∧ c.addedToLoop = true

namespace EPoller

/-- The kernel has no entry for the fd of the channel, or the one it would be given. -/
def InKernel (p : EPoller) (channel : Addr) (c : Channel) : Prop :=
  ∀ e ∈ p.interest c.fd, e = ⟨c.events, channel⟩

/-- A registered channel whose interest the kernel knows already. -/
def Settled (p : EPoller) (channel : Addr) : Prop :=
  ∃ c ∈ p.objects channel, c.index = .kAdded ∧ c.isNoneEvent = false ∧ p.InKernel channel c

def Unregistered (p : EPoller) (channel : Addr) : Prop :=
  ∃ c ∈ p.objects channel, c.index = .kNew ∧ p.channels c.fd = none

def Listens (p : EPoller) (channel : Addr) : Prop :=
  ∃ c ∈ p.objects channel, c.Polled ∧ p.InKernel channel c

end EPoller

namespace TimerQueue

/-- The timer has been added before. -/
def Holds (q : TimerQueue) (timer : Addr) : Prop :=
  ∃ t ∈ q.heap timer,
    Entry.mk t.expiration timer ∈ q.timers ∧ ActiveTimer.mk timer t.sequence ∈ q.activeTimers

/-- Nothing is to be cancelled, or it is recorded already. -/
def CancelledBefore (q : TimerQueue) (timerId : TimerId) : Prop :=
  ActiveTimer.mk timerId.timer timerId.sequence ∉ q.activeTimers ∧
    (q.callingExpiredTimers = true →
      ActiveTimer.mk timerId.timer timerId.sequence ∈ q.cancelingTimers)

end TimerQueue

namespace TcpConnection

/-- Of `data` nothing is buffered, and nobody is told about it. -/
def KeepsNothing (c : TcpConnection) (data : List UInt8) (w : WriteResult) : Prop :=
  c.state = .kDisconnected ∨
    if c.writesDirectly then
      match w with
      | .accept n => data.length ≤ n ∧ c.writeCompleteCallback = false
      | .fail errno => errno.isFault = true ∨ data = []
    else
      data = []

/-- `handleWrite` finds nothing to write, or the kernel takes nothing. -/
def WritesNothing (c : TcpConnection) (w : WriteResult) : Prop :=
  c.isWriting = false ∨ ∀ room, w = .accept room → room = 0 ∨ c.outputBuffer.readableBytes = 0

end TcpConnection

/-- The state before the call in which the function has nothing to do. -/
def Op.Idle (w : Process) : Op → Prop
  | .updateChannel i channel => (w.loops i).epoller.Settled channel
  | .removeChannel i channel => (w.loops i).epoller.Unregistered channel
  | .addTimerInLoop i timer => (w.loops i).timerQueue.Holds timer
  | .cancelInLoop i timerId => (w.loops i).timerQueue.CancelledBefore timerId
  -- `callingExpiredTimers_` goes up and down.
  | .timerHandleRead _ _ _ => False
  | .sendInLoop k data wr => ∃ c ∈ w.server.conns[k]?, c.conn.KeepsNothing data wr
  | .shutdownInLoop _ => True
  | .forceCloseInLoop k => ∃ c ∈ w.server.conns[k]?,
      c.conn.state = .kConnecting ∨ c.conn.state = .kDisconnecting
  | .connectEstablished k => ∃ c ∈ w.server.conns[k]?,
      c.conn.state = .kConnected ∧ c.conn.channel.Polled
  | .connectDestroyed k => ∃ c ∈ w.server.conns[k]?,
      c.conn.state ≠ .kConnected ∧ c.conn.channel.index = .kNew ∧
        c.conn.channel.addedToLoop = false
  | .handleRead _ r => ∃ errno, r = .failed errno
  | .handleWrite k wr => ∃ c ∈ w.server.conns[k]?, c.conn.WritesNothing wr
  -- The server is told to remove the connection.
  | .handleClose _ => False
  | .listen => w.acceptor.listening = true ∧
      (w.loops .base).epoller.Listens w.acceptor.acceptChannel
  | .acceptorHandleRead connfd => connfd = none
  | .removeConnectionInLoop _ => False

/-- A mask that enabling the reading does not change has the bits for reading. -/
theorem isNoneEvent_of_enable_eq {events : Mask} (h : events.enable kReadEvent = events) :
    events.isNoneEvent = false := by
  have hreads : events.has kReadEvent = true := by
    rw [← h, Mask.has_enable]
    simp [show kReadEvent.has kReadEvent = true by decide]
  exact Mask.isNoneEvent_of_has hreads

/-! ## The poller -/

namespace Build

variable {b : Build} {p p' : EPoller} {channel : Addr} {c : Channel}

theorem exists_object {f : Channel → Except Fault EPoller} (h : (p.deref channel >>= f) = .ok p') :
    ∃ c, p.objects channel = some c ∧ f c = .ok p' := by
  obtain ⟨c, hc, hf⟩ := exists_ok_of_bind h
  refine ⟨c, ?_, hf⟩
  unfold EPoller.deref at hc
  split at hc <;> cases hc
  assumption

/-- `update` tells the kernel and changes nothing else. -/
theorem update_ok {op : CtlOp} (h : p.update op channel = .ok p') :
    p'.objects = p.objects ∧ p'.channels = p.channels := by
  obtain ⟨c, _, hc⟩ := exists_object h
  split at hc <;> cases hc <;> exact ⟨rfl, rfl⟩

theorem update_mod_ok (hobj : p.objects channel = some c)
    (h : p.update .EPOLL_CTL_MOD channel = .ok p') :
    p'.interest = p.interest ↔ p.InKernel channel c := by
  simp only [EPoller.update, EPoller.deref_eq hobj, ok_bind, epoll_ctl] at h
  cases hkernel : p.interest c.fd with
  | none =>
      simp only [hkernel, pure_eq_ok, Except.ok.injEq] at h
      subst h
      simp [EPoller.InKernel, hkernel]
  | some e =>
      simp only [hkernel, pure_eq_ok, Except.ok.injEq] at h
      subst h
      simp [EPoller.InKernel, hkernel, eq_comm]

theorem objects_set_index {idx : Index} (h : p.set_index channel idx = .ok p')
    (hobj : p.objects channel = some c) :
    p'.objects channel = some { c with index := idx } ∧ p'.channels = p.channels ∧
      p'.interest = p.interest := by
  simp only [EPoller.set_index, EPoller.deref_eq hobj, ok_bind, pure_eq_ok, Except.ok.injEq] at h
  subst h
  simp [EPoller.store]

/-- A channel that is not in the epoll set goes into it, one without interest goes out, and for
the others the kernel is told the mask. -/
theorem updataChannel_ok (hobj : p.objects channel = some c)
    (h : b.updataChannel p channel = .ok p') :
    p'.objects channel = some { c with
        index := if c.index = .kAdded ∧ c.isNoneEvent = true then .kDeleted else .kAdded } ∧
      (c.index = .kAdded → c.isNoneEvent = false → p'.objects = p.objects ∧
        p'.channels = p.channels ∧ (p'.interest = p.interest ↔ p.InKernel channel c)) := by
  simp only [updataChannel, EPoller.deref_eq hobj, ok_bind] at h
  cases hidx : c.index with
  | kNew =>
      simp only [hidx] at h
      obtain ⟨_, _, h⟩ := exists_ok_of_bind h
      obtain ⟨p₁, hp₁, h⟩ := exists_ok_of_bind h
      have hobj₁ := objects_set_index hp₁ hobj
      refine ⟨?_, by simp⟩
      rw [(update_ok h).1, hobj₁.1]
      simp
  | kDeleted =>
      simp only [hidx] at h
      obtain ⟨_, _, h⟩ := exists_ok_of_bind h
      obtain ⟨_, _, h⟩ := exists_ok_of_bind h
      obtain ⟨p₁, hp₁, h⟩ := exists_ok_of_bind h
      have hobj₁ := objects_set_index hp₁ hobj
      refine ⟨?_, by simp⟩
      rw [(update_ok h).1, hobj₁.1]
      simp
  | kAdded =>
      simp only [hidx] at h
      obtain ⟨_, _, h⟩ := exists_ok_of_bind h
      obtain ⟨_, _, h⟩ := exists_ok_of_bind h
      by_cases hnone : c.isNoneEvent = true
      · simp only [hnone, if_true] at h
        obtain ⟨p₁, hp₁, h⟩ := exists_ok_of_bind h
        have hobj₁ : p₁.objects channel = some c := by rw [(update_ok hp₁).1, hobj]
        refine ⟨?_, by simp [hnone]⟩
        rw [(objects_set_index h hobj₁).1]
        simp [hnone]
      · simp only [hnone, if_false, Bool.false_eq_true] at h
        refine ⟨?_, fun _ _ => ⟨(update_ok h).1, (update_ok h).2, update_mod_ok hobj h⟩⟩
        rw [(update_ok h).1, hobj]
        simp [hnone, ← hidx]

theorem updataChannel_same_iff (h : b.updataChannel p channel = .ok p') :
    p.SameFields p' ↔ p.Settled channel := by
  obtain ⟨c, hobj, _⟩ := exists_object h
  obtain ⟨hobj', hmod⟩ := updataChannel_ok hobj h
  constructor
  · intro hsame
    -- The channel keeps its index only if it stays in the epoll set.
    rw [hsame.objects, hobj, Option.some.injEq] at hobj'
    have hidx := congrArg Channel.index hobj'
    have hadded : c.index = .kAdded ∧ c.isNoneEvent = false := by
      by_cases hgoes : c.index = .kAdded ∧ c.isNoneEvent = true
      · simp only [if_pos hgoes] at hidx
        rw [hgoes.1] at hidx
        cases hidx
      · simp only [if_neg hgoes] at hidx
        exact ⟨hidx, by simpa [hidx] using hgoes⟩
    exact ⟨c, hobj, hadded.1, hadded.2, (hmod hadded.1 hadded.2).2.2.mp hsame.interest⟩
  · rintro ⟨d, hd, hidx, hnone, hkernel⟩
    rw [Option.mem_def, hobj] at hd
    cases hd
    obtain ⟨hobjects, hchannels, hinterest⟩ := hmod hidx hnone
    exact ⟨hobjects, hchannels, hinterest.mpr hkernel⟩

theorem removeChannel_same_iff (h : b.removeChannel p channel = .ok p') :
    p.SameFields p' ↔ p.Unregistered channel := by
  obtain ⟨c, hobj, h⟩ := exists_object h
  obtain ⟨_, _, h⟩ := exists_ok_of_bind h
  obtain ⟨_, _, h⟩ := exists_ok_of_bind h
  obtain ⟨_, _, h⟩ := exists_ok_of_bind h
  obtain ⟨_, _, h⟩ := exists_ok_of_bind h
  obtain ⟨_, _, h⟩ := exists_ok_of_bind h
  -- `DEL` or not, the objects stay and the map has lost the fd.
  obtain ⟨p₁, hobjects, hchannels, hinterest, h⟩ : ∃ p₁ : EPoller, p₁.objects = p.objects ∧
      p₁.channels = Function.update p.channels c.fd none ∧
      (c.index = .kNew → p₁.interest = p.interest) ∧ p₁.set_index channel .kNew = .ok p' := by
    by_cases hidx : c.index = .kAdded
    · simp only [hidx, if_true] at h
      obtain ⟨p₁, hp₁, h⟩ := exists_ok_of_bind h
      exact ⟨p₁, (update_ok hp₁).1, (update_ok hp₁).2, fun hnew => by simp [hnew] at hidx, h⟩
    · simp only [hidx, if_false, pure_eq_ok, ok_bind] at h
      exact ⟨{ p with channels := Function.update p.channels c.fd none }, rfl, rfl,
        fun _ => rfl, h⟩
  have hset := objects_set_index h (by rw [hobjects, hobj])
  constructor
  · intro hsame
    refine ⟨c, hobj, ?_, ?_⟩
    · have hobj' := hset.1
      rw [hsame.objects, hobj, Option.some.injEq] at hobj'
      exact congrArg Channel.index hobj'
    · rw [← hsame.channels, hset.2.1, hchannels, Function.update_self]
  · rintro ⟨d, hd, hidx, hmap⟩
    rw [Option.mem_def, hobj] at hd
    cases hd
    have hnew : ({ c with index := .kNew } : Channel) = c := by rw [← hidx]
    have hobj₁ : p₁.objects channel = some c := by rw [hobjects, hobj]
    refine ⟨?_, ?_, ?_⟩
    · simp only [EPoller.set_index, EPoller.deref_eq hobj₁, ok_bind, pure_eq_ok,
        Except.ok.injEq] at h
      subst h
      simp only [EPoller.store, hnew, hobjects]
      rw [← hobj, Function.update_eq_self]
    · rw [hset.2.1, hchannels, ← hmap, Function.update_eq_self]
    · rw [hset.2.2, hinterest hidx]

theorem enableReading_same_iff (h : b.setInterest p channel .enableReading = .ok p') :
    p.SameFields p' ↔ p.Listens channel := by
  obtain ⟨c, hobj, h⟩ := exists_object h
  have hstored : (p.store channel
      { c with events := Interest.enableReading.edit c.events, addedToLoop := true }).objects
        channel = some { c with
          events := Interest.enableReading.edit c.events, addedToLoop := true } := by
    simp [EPoller.store]
  -- When the edit is none, `updataChannel` is called on the state before.
  have hedit : c.events.enable kReadEvent = c.events → c.addedToLoop = true →
      p.store channel
        { c with events := Interest.enableReading.edit c.events, addedToLoop := true } = p := by
    intro hevents hadded
    simp only [Interest.edit, hevents, ← hadded, EPoller.store]
    rw [← hobj, Function.update_eq_self]
  constructor
  · intro hsame
    have hobj' := (updataChannel_ok hstored h).1
    rw [hsame.objects, hobj, Option.some.injEq] at hobj'
    have hevents : c.events.enable kReadEvent = c.events := (congrArg Channel.events hobj').symm
    have hadded : c.addedToLoop = true := congrArg Channel.addedToLoop hobj'
    rw [hedit hevents hadded] at h
    obtain ⟨d, hd, hidx, _, hkernel⟩ := (updataChannel_same_iff h).mp hsame
    rw [Option.mem_def, hobj] at hd
    cases hd
    exact ⟨c, hobj, ⟨hevents, hidx, hadded⟩, hkernel⟩
  · rintro ⟨d, hd, ⟨hevents, hidx, hadded⟩, hkernel⟩
    rw [Option.mem_def, hobj] at hd
    cases hd
    rw [hedit hevents hadded] at h
    exact (updataChannel_same_iff h).mpr
      ⟨c, hobj, hidx, isNoneEvent_of_enable_eq hevents, hkernel⟩

end Build

/-! ## The timer queue -/

namespace TimerQueue

/-- A timer that expires with one of the queue is not an earlier one. -/
theorem earliestChanged_of_mem {q : TimerQueue} {e : Entry} (h : e ∈ q.timers) :
    q.earliestChanged e.expiration = false := by
  obtain ⟨first, hfirst⟩ := OrdSet.first?_isSome_of_mem h
  have hle := Entry.expiration_le_of_le ((OrdSet.first?_eq_some_iff.mp hfirst).2 e h)
  simp [earliestChanged, hfirst, hle]

end TimerQueue

namespace Build

variable {b : Build} {q q' : TimerQueue}

theorem insert_ok {timer : Addr} {changed : Bool} (h : b.insert q timer = .ok (q', changed)) :
    ∃ t, q.heap timer = some t ∧ changed = q.earliestChanged t.expiration ∧
      q' = { q with
        timers := q.timers.insert ⟨t.expiration, timer⟩
        activeTimers := q.activeTimers.insert ⟨timer, t.sequence⟩ } := by
  obtain ⟨_, _, h⟩ := exists_ok_of_bind h
  obtain ⟨t, ht, h⟩ := exists_ok_of_bind h
  obtain ⟨_, _, h⟩ := exists_ok_of_bind h
  obtain ⟨_, _, h⟩ := exists_ok_of_bind h
  obtain ⟨_, _, h⟩ := exists_ok_of_bind h
  cases h
  refine ⟨t, ?_, rfl, rfl⟩
  unfold TimerQueue.deref at ht
  split at ht <;> cases ht
  assumption

theorem addTimerInLoop_same_iff {timer : Addr} (h : b.addTimerInLoop q timer = .ok q') :
    q.SameFields q' ↔ q.Holds timer := by
  obtain ⟨⟨q₁, changed⟩, hq₁, h⟩ := exists_ok_of_bind h
  obtain ⟨t, ht, hchanged, rfl⟩ := insert_ok hq₁
  have ht' : q.heap timer = some t := ht
  simp only at h
  constructor
  · intro hsame
    have hsets : q'.timers = q.timers.insert ⟨t.expiration, timer⟩ ∧
        q'.activeTimers = q.activeTimers.insert ⟨timer, t.sequence⟩ := by
      split at h
      · obtain ⟨t₁, _, h⟩ := exists_ok_of_bind h
        cases h
        exact ⟨rfl, rfl⟩
      · cases h
        exact ⟨rfl, rfl⟩
    refine ⟨t, ht', ?_, ?_⟩
    · exact OrdSet.insert_eq_self_iff.mp (hsets.1.symm.trans hsame.timers)
    · exact OrdSet.insert_eq_self_iff.mp (hsets.2.symm.trans hsame.activeTimers)
  · rintro ⟨t₁, ht₁, htimers, hactive⟩
    rw [Option.mem_def, ht'] at ht₁
    cases ht₁
    -- The timerfd is left alone, since the earliest timer is what it was.
    have hearliest := TimerQueue.earliestChanged_of_mem htimers
    have hfalse : changed = false := hchanged.trans hearliest
    simp only [hfalse, Bool.false_eq_true, if_false, pure_eq_ok, Except.ok.injEq] at h
    subst h
    exact ⟨rfl, rfl, OrdSet.insert_eq_self_iff.mpr htimers,
      OrdSet.insert_eq_self_iff.mpr hactive, rfl, rfl⟩

theorem cancelInLoop_same_iff {timerId : TimerId} (h : b.cancelInLoop q timerId = .ok q') :
    q.SameFields q' ↔ q.CancelledBefore timerId := by
  obtain ⟨_, _, h⟩ := exists_ok_of_bind h
  by_cases hactive : ActiveTimer.mk timerId.timer timerId.sequence ∈ q.activeTimers
  · -- The timer leaves `activeTimers_`.
    simp only [if_pos hactive] at h
    obtain ⟨t, _, h⟩ := exists_ok_of_bind h
    obtain ⟨_, _, h⟩ := exists_ok_of_bind h
    obtain ⟨q₁, _, h⟩ := exists_ok_of_bind h
    simp only [pure_eq_ok, ok_bind] at h
    obtain ⟨_, _, h⟩ := exists_ok_of_bind h
    cases h
    refine iff_of_false ?_ fun hbefore => hbefore.1 hactive
    intro hsame
    have hmem := hactive
    rw [← hsame.activeTimers, OrdSet.mem_erase] at hmem
    exact hmem.2 rfl
  · by_cases hcalling : q.callingExpiredTimers = true
    · simp only [if_neg hactive, hcalling, if_true, pure_eq_ok, ok_bind] at h
      obtain ⟨_, _, h⟩ := exists_ok_of_bind h
      cases h
      constructor
      · intro hsame
        exact ⟨hactive, fun _ => OrdSet.insert_eq_self_iff.mp hsame.cancelingTimers⟩
      · intro hbefore
        exact ⟨rfl, rfl, rfl, rfl, hcalling.symm,
          OrdSet.insert_eq_self_iff.mpr (hbefore.2 hcalling)⟩
    · simp only [if_neg hactive, if_neg hcalling, pure_eq_ok, ok_bind] at h
      obtain ⟨_, _, h⟩ := exists_ok_of_bind h
      cases h
      exact iff_of_true ⟨rfl, rfl, rfl, rfl, rfl, rfl⟩
        ⟨hactive, fun hcalls => absurd hcalls hcalling⟩

/-- `callingExpiredTimers_` has both values in one call. -/
theorem timerHandleRead_changes {now : Int} {run : Addr → TimerQueue → TimerQueue}
    {qs : List TimerQueue} (h : b.timerHandleRead q now run = .ok qs) :
    ¬ ∀ q' ∈ qs, q.SameFields q' := by
  obtain ⟨⟨q₁, expired⟩, _, h⟩ := exists_ok_of_bind h
  obtain ⟨q₂, _, h⟩ := exists_ok_of_bind h
  obtain ⟨q₃, _, h⟩ := exists_ok_of_bind h
  cases h
  intro hsame
  have hup := (hsame _ List.mem_cons_self).callingExpiredTimers
  have hdown :=
    (hsame _ (List.mem_cons_of_mem _ List.mem_cons_self)).callingExpiredTimers
  have hboth : true = false := hup.trans hdown.symm
  cases hboth

end Build

/-! ## The connection -/

/-- Effects that reach no member of the process: they go to the kernel or to the user. -/
def Effect.isQuiet : Effect → Bool
  | .queueInLoop _ => false
  | .closeCallback => false
  | _ => true

namespace TcpConnection

/-- A result that leaves the connection and the rest of the process alone. -/
def Result.Quiet (r : Result) (c : TcpConnection) : Prop :=
  r.1 = c ∧ r.2.all Effect.isQuiet = true

variable {c : TcpConnection}

theorem outputBuffer_appendOutput (c : TcpConnection) (data : List UInt8) :
    (c.appendOutput data).outputBuffer = c.outputBuffer.append data := by
  simp only [appendOutput]
  split <;> rfl

theorem appendOutput_ne {data : List UInt8} (hdata : data ≠ []) : c.appendOutput data ≠ c := by
  intro heq
  have hcontent := congrArg (fun c => c.outputBuffer.content) heq
  simp only [outputBuffer_appendOutput, WFBuffer.content_append] at hcontent
  exact hdata (by simpa using hcontent)

theorem sendInLoop_quiet_iff {data : List UInt8} {w : WriteResult} :
    (c.sendInLoop data w).Quiet c ↔ c.KeepsNothing data w := by
  unfold sendInLoop KeepsNothing
  by_cases hdown : c.state = .kDisconnected
  · simp [hdown, Result.Quiet]
  · simp only [hdown, if_false, false_or]
    -- Whatever is left over is appended to the output buffer.
    have hrest : ∀ n, n < data.length → c.appendOutput (data.drop n) ≠ c := by
      intro n hn
      refine appendOutput_ne ?_
      intro hnil
      have := List.drop_eq_nil_iff.mp hnil
      omega
    unfold directWrite
    by_cases hdirect : c.writesDirectly = true
    · cases w with
      | accept n =>
          simp only [hdirect, if_true]
          by_cases hall : data.length ≤ n
          · cases hcb : c.writeCompleteCallback <;>
              simp [hall, Result.Quiet, Effect.isQuiet]
          · have hmin : min n data.length = n := by omega
            have hpos : 0 < data.length - n := by omega
            simp [hmin, hall, hpos, Result.Quiet, hrest n (by omega)]
      | fail errno =>
          simp only [hdirect, if_true, Nat.sub_zero, List.drop_zero]
          cases hfault : errno.isFault with
          | true => simp [Result.Quiet]
          | false =>
              by_cases hnil : data = []
              · simp [hnil, Result.Quiet]
              · simp [hnil, List.length_pos_iff.mpr hnil, Result.Quiet, appendOutput_ne hnil]
    · simp only [hdirect]
      by_cases hnil : data = []
      · simp [hnil, Result.Quiet]
      · have hpos := List.length_pos_iff.mpr hnil
        simp [hnil, hpos, Result.Quiet, appendOutput_ne hnil]

theorem shutdownInLoop_quiet (c : TcpConnection) : c.shutdownInLoop.Quiet c := by
  unfold shutdownInLoop
  split <;> simp [Result.Quiet, Effect.isQuiet]

/-- `closeCallback_` is called. -/
theorem handleClose_not_quiet (c d : TcpConnection) : ¬ c.handleClose.Quiet d := by
  simp [handleClose, Result.Quiet, Effect.isQuiet]

theorem forceCloseInLoop_quiet_iff :
    c.forceCloseInLoop.Quiet c ↔ c.state = .kConnecting ∨ c.state = .kDisconnecting := by
  unfold forceCloseInLoop
  cases hstate : c.state <;> simp [handleClose_not_quiet] <;> simp [Result.Quiet]

theorem edit_enableReading {ch : Channel} (h : ch.events.enable kReadEvent = ch.events) :
    ch.edit .enableReading = { ch with index := .kAdded, addedToLoop := true } := by
  simp [Channel.edit, Interest.edit, h, isNoneEvent_of_enable_eq h]

theorem edit_enableReading_eq_iff {ch : Channel} : ch.edit .enableReading = ch ↔ ch.Polled := by
  constructor
  · intro heq
    have hevents : ch.events.enable kReadEvent = ch.events := congrArg Channel.events heq
    rw [edit_enableReading hevents] at heq
    exact ⟨hevents, (congrArg Channel.index heq).symm, (congrArg Channel.addedToLoop heq).symm⟩
  · rintro ⟨hevents, hidx, hadded⟩
    rw [edit_enableReading hevents, ← hidx, ← hadded]

theorem connectEstablished_quiet_iff :
    c.connectEstablished.Quiet c ↔ c.state = .kConnected ∧ c.channel.Polled := by
  rw [← edit_enableReading_eq_iff]
  constructor
  · rintro ⟨heq, _⟩
    exact ⟨(congrArg TcpConnection.state heq).symm, congrArg TcpConnection.channel heq⟩
  · rintro ⟨hstate, hchannel⟩
    refine ⟨?_, by simp [connectEstablished, Effect.isQuiet]⟩
    simp only [connectEstablished, setState, setInterest]
    rw [hchannel, ← hstate]

theorem connectDestroyed_quiet_iff :
    c.connectDestroyed.Quiet c ↔
      c.state ≠ .kConnected ∧ c.channel.index = .kNew ∧ c.channel.addedToLoop = false := by
  unfold connectDestroyed
  by_cases hup : c.state = .kConnected
  · simp only [hup, if_true, ne_eq, not_true, false_and, iff_false]
    rintro ⟨heq, _⟩
    have hstate := congrArg TcpConnection.state heq
    rw [hup] at hstate
    cases hstate
  · simp only [hup, if_false, ne_eq, not_false_eq_true, true_and]
    constructor
    · rintro ⟨heq, _⟩
      have hchannel := congrArg TcpConnection.channel heq
      exact ⟨(congrArg Channel.index hchannel).symm,
        (congrArg Channel.addedToLoop hchannel).symm⟩
    · rintro ⟨hidx, hadded⟩
      refine ⟨?_, rfl⟩
      simp only [Channel.removed]
      rw [← hidx, ← hadded]

theorem retrieve_ne {b : WFBuffer} {n : Nat} (hpos : 0 < n) (hle : n ≤ b.readableBytes) :
    b.retrieve n ≠ b := by
  intro heq
  have hlen := congrArg (fun b => b.content.length) heq
  simp only [WFBuffer.content_retrieve b hle, List.length_drop, WFBuffer.length_content] at hlen
  omega

theorem handleWrite_quiet_iff {w : WriteResult} :
    (c.handleWrite w).Quiet c ↔ c.WritesNothing w := by
  unfold handleWrite WritesNothing
  by_cases hwriting : c.isWriting = true
  · cases w with
    | fail errno => simp [hwriting, Result.Quiet]
    | accept room =>
        by_cases hzero : min room c.outputBuffer.readableBytes = 0
        · have hor : room = 0 ∨ c.outputBuffer.readableBytes = 0 := by omega
          simp [hwriting, hzero, hor, Result.Quiet, Effect.isQuiet]
        · have hpos : 0 < min room c.outputBuffer.readableBytes := by omega
          have hnor : ¬ (room = 0 ∨ c.outputBuffer.readableBytes = 0) := by omega
          have hne := retrieve_ne hpos (Nat.min_le_right room c.outputBuffer.readableBytes)
          simp only [hwriting, if_true, hpos, Bool.true_eq_false, false_or,
            WriteResult.accept.injEq, forall_eq', hnor, iff_false]
          -- On every path the written bytes leave the output buffer.
          rintro ⟨heq, _⟩
          refine hne ?_
          have hbuf := congrArg TcpConnection.outputBuffer heq
          split at hbuf
          · split at hbuf
            · unfold shutdownInLoop at hbuf
              split at hbuf <;> exact hbuf
            · exact hbuf
          · exact hbuf
  · simp [hwriting, Result.Quiet]

end TcpConnection

end Net
end Muduo
