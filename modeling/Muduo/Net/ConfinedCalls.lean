import Muduo.Base.Logging
import Muduo.Net.BufferReadFd
import Muduo.Net.EPoller
import Muduo.Net.EventLoop
import Muduo.Net.TcpServer
import Muduo.Net.TimerQueue

/-!
# ConfinedCalls — the functions that begin with `assertInLoopThread`

A `Process` has several loops, each with its poller and its timer queue, and a server whose
connections live on them.  `Op` lists the functions that belong to the thread of one loop, and
`Process.exec` is the call of one of them by any thread: the check, and what comes after it.

Whether an `assert` is compiled is the `Build`.  The functions of the poller and of the timer
queue are written once more with the build as a parameter; with `debug` they are the functions
of `EPoller` and `TimerQueue`.

A call yields the states it goes through, one where each other function could look at the
members and one at the end.  The callbacks of timers are parameters, the callback of a closed
connection is the one that the server sets, and the user's callbacks do nothing.
-/

namespace Muduo
namespace Net

/-! ## Builds -/

inductive Build
  | debug
  /-- With `NDEBUG`: no `assert` is executed. -/
  | release
  deriving DecidableEq, Repr

namespace Build

variable (b : Build)

def check (p : Prop) [Decidable p] : Except Fault Unit :=
  match b with
  | .debug => assert p
  | .release => .ok ()

/-! ### The poller -/

def updataChannel (p : EPoller) (channel : Addr) : Except Fault EPoller := do
  let c ← p.deref channel
  match c.index with
  | .kNew => do
      b.check (p.channels c.fd = none)
      let p := { p with channels := Function.update p.channels c.fd (some channel) }
      let p ← p.set_index channel .kAdded
      p.update .EPOLL_CTL_ADD channel
  | .kDeleted => do
      b.check (p.channels c.fd ≠ none)
      b.check (p.channels c.fd = some channel)
      let p ← p.set_index channel .kAdded
      p.update .EPOLL_CTL_ADD channel
  | .kAdded => do
      b.check (p.channels c.fd ≠ none)
      b.check (p.channels c.fd = some channel)
      if c.isNoneEvent then
        let p ← p.update .EPOLL_CTL_DEL channel
        p.set_index channel .kDeleted
      else
        p.update .EPOLL_CTL_MOD channel

def removeChannel (p : EPoller) (channel : Addr) : Except Fault EPoller := do
  let c ← p.deref channel
  b.check (p.channels c.fd ≠ none)
  b.check (p.channels c.fd = some channel)
  b.check (c.isNoneEvent = true)
  b.check (c.index = .kAdded ∨ c.index = .kDeleted)
  b.check (p.channels c.fd ≠ none)
  let p := { p with channels := Function.update p.channels c.fd none }
  let p ← if c.index = .kAdded then p.update .EPOLL_CTL_DEL channel else pure p
  p.set_index channel .kNew

def setInterest (p : EPoller) (channel : Addr) (op : Interest) : Except Fault EPoller := do
  let c ← p.deref channel
  let p := p.store channel { c with events := op.edit c.events, addedToLoop := true }
  b.updataChannel p channel

/-! ### The timer queue -/

def insert (q : TimerQueue) (timer : Addr) : Except Fault (TimerQueue × Bool) := do
  b.check (q.timers.size = q.activeTimers.size)
  let t ← q.deref timer
  let when_ := t.expiration
  let earliestChanged := q.earliestChanged when_
  b.check (Entry.mk when_ timer ∉ q.timers)
  let q := { q with timers := q.timers.insert ⟨when_, timer⟩ }
  b.check (ActiveTimer.mk timer t.sequence ∉ q.activeTimers)
  let q := { q with activeTimers := q.activeTimers.insert ⟨timer, t.sequence⟩ }
  b.check (q.timers.size = q.activeTimers.size)
  pure (q, earliestChanged)

def addTimerInLoop (q : TimerQueue) (timer : Addr) : Except Fault TimerQueue := do
  let q := { q with created := q.created.erase timer }
  let (q, earliestChanged) ← b.insert q timer
  if earliestChanged then
    let t ← q.deref timer
    pure (q.resetTimerfd t.expiration)
  else
    pure q

def cancelInLoop (q : TimerQueue) (timerId : TimerId) : Except Fault TimerQueue := do
  b.check (q.timers.size = q.activeTimers.size)
  let timer : ActiveTimer := ⟨timerId.timer, timerId.sequence⟩
  let q ←
    if timer ∈ q.activeTimers then do
      let t ← q.deref timer.timer
      b.check (Entry.mk t.expiration timer.timer ∈ q.timers)
      let q := { q with timers := q.timers.erase ⟨t.expiration, timer.timer⟩ }
      let q ← q.delete timer.timer
      pure { q with activeTimers := q.activeTimers.erase timer }
    else if q.callingExpiredTimers then
      pure { q with cancelingTimers := q.cancelingTimers.insert timer }
    else
      pure q
  b.check (q.timers.size = q.activeTimers.size)
  pure q

def eraseActive (q : TimerQueue) : List Entry → Except Fault TimerQueue
  | [] => .ok q
  | it :: expired => do
      let t ← q.deref it.timer
      let timer : ActiveTimer := ⟨it.timer, t.sequence⟩
      b.check (timer ∈ q.activeTimers)
      eraseActive { q with activeTimers := q.activeTimers.erase timer } expired

def getExpired (q : TimerQueue) (now : Int) : Except Fault (TimerQueue × List Entry) := do
  b.check (q.timers.size = q.activeTimers.size)
  let sentry : Entry := ⟨now, UINTPTR_MAX⟩
  let expired := (q.timers.below sentry).elems
  let rest := q.timers.from sentry
  b.check (∀ end_ ∈ rest.first?, now < end_.expiration)
  let q := { q with timers := rest }
  let q ← b.eraseActive q expired
  b.check (q.timers.size = q.activeTimers.size)
  pure (q, expired)

def resetTimer (q : TimerQueue) (now : Int) (it : Entry) : Except Fault TimerQueue := do
  let t ← q.deref it.timer
  let timer : ActiveTimer := ⟨it.timer, t.sequence⟩
  if t.repeat_ && !decide (timer ∈ q.cancelingTimers) then
    let q := { q with heap := Function.update q.heap it.timer (some (t.restart now)) }
    let (q, _) ← b.insert q it.timer
    pure q
  else
    q.delete it.timer

def resetLoop (now : Int) : List Entry → Int → TimerQueue → Except Fault TimerQueue
  | [], _, q => .ok q
  | it :: expired, nextExpire, q => do
      let q ← b.resetTimer q now it
      let nextExpire ←
        match q.timers.first? with
        | none => pure nextExpire
        | some first => do
            let t ← q.deref first.timer
            pure t.expiration
      let q := if invalidTime < nextExpire then q.resetTimerfd nextExpire else q
      resetLoop now expired nextExpire q

/-- The loop of `handleRead` over the callbacks; `run` is what the callback of a timer does to
the queue. -/
def runExpired (run : Addr → TimerQueue → TimerQueue) :
    List Entry → TimerQueue → Except Fault TimerQueue
  | [], q => .ok q
  | it :: expired, q => do
      let _ ← q.deref it.timer
      runExpired run expired (run it.timer q)

/-- `TimerQueue::handleRead`: the states after `callingExpiredTimers_` goes up, after it goes
down, and at the end. -/
def timerHandleRead (q : TimerQueue) (now : Int) (run : Addr → TimerQueue → TimerQueue) :
    Except Fault (List TimerQueue) := do
  let (q, expired) ← b.getExpired q.readTimerfd now
  let up := { q with callingExpiredTimers := true, cancelingTimers := OrdSet.empty }
  let q ← runExpired run expired up
  let down := { q with callingExpiredTimers := false }
  let q ← b.resetLoop now expired invalidTime down
  pure [up, down, q]

/-! ### A debug build -/

theorem debug_poller :
    debug.updataChannel = EPoller.updataChannel ∧ debug.removeChannel = EPoller.removeChannel ∧
      debug.setInterest = EPoller.setInterest :=
  ⟨rfl, rfl, rfl⟩

theorem debug_timerQueue :
    debug.insert = TimerQueue.insert ∧ debug.addTimerInLoop = TimerQueue.addTimerInLoop ∧
      debug.cancelInLoop = TimerQueue.cancelInLoop ∧ debug.resetTimer = TimerQueue.resetTimer :=
  ⟨rfl, rfl, rfl, rfl⟩

theorem debug_eraseActive (q : TimerQueue) (expired : List Entry) :
    debug.eraseActive q expired = q.eraseActive expired := by
  induction expired generalizing q with
  | nil => rfl
  | cons it expired ih => simp only [eraseActive, TimerQueue.eraseActive, check, ih]

theorem debug_getExpired (q : TimerQueue) (now : Int) :
    debug.getExpired q now = q.getExpired now := by
  simp only [getExpired, TimerQueue.getExpired, check, debug_eraseActive]

theorem debug_resetLoop (now : Int) (expired : List Entry) (nextExpire : Int) (q : TimerQueue) :
    debug.resetLoop now expired nextExpire q = TimerQueue.resetLoop now expired nextExpire q := by
  induction expired generalizing nextExpire q with
  | nil => rfl
  | cons it expired ih =>
      unfold resetLoop TimerQueue.resetLoop
      rw [debug_timerQueue.2.2.2]
      cases q.resetTimer now it with
      | error e => rfl
      | ok q₁ =>
          simp only [ok_bind]
          cases q₁.timers.first? with
          | none => exact ih nextExpire _
          | some first =>
              simp only
              cases q₁.deref first.timer with
              | error e => rfl
              | ok t => exact ih t.expiration _

end Build

/-! ## Reading into the input buffer -/

namespace Readv

def data : Readv → List UInt8
  | .failed _ => []
  | .delivered data => data

def result : Readv → ReadResult
  | .failed _ => .fail
  | .delivered data => .bytes data

end Readv

namespace WFBuffer

theorem readFd_ok {b : WFBuffer} {r : Readv} {b' : Buffer} {errno n : Int}
    (h : b.buf.readFd 0 r = .ok (b', errno, n)) :
    b'.WF ∧ b'.content = b.content ++ r.data := by
  cases r with
  | failed e =>
      cases h
      exact ⟨b.wf, by simp [Readv.data, content]⟩
  | delivered data =>
      by_cases hfits : b.buf.Fits (.delivered data)
      · obtain ⟨b₁, hb₁, hwf, hcontent⟩ := Buffer.readFd_delivered b.wf 0 hfits
        rw [h] at hb₁
        cases hb₁
        exact ⟨hwf, hcontent⟩
      · -- `readv` cannot deliver more than it was given room for.
        have hmore : ¬ data.length ≤ b.buf.iovLens.sum := hfits
        simp [Buffer.readFd, Buffer.scatter, hmore] at h

/-- `readFd` on the input buffer of a connection. -/
def readFd (b : WFBuffer) (r : Readv) : Except Fault WFBuffer :=
  match h : b.buf.readFd 0 r with
  | .ok (buf, _, _) => .ok ⟨buf, (readFd_ok h).1⟩
  | .error e => .error e

theorem content_readFd {b b' : WFBuffer} {r : Readv} (h : b.readFd r = .ok b') :
    b'.content = b.content ++ r.data := by
  unfold readFd at h
  split at h
  · rename_i buf errno n hread
    cases h
    exact (readFd_ok hread).2
  · cases h

theorem readFd_failed (b : WFBuffer) (errno : Int) : b.readFd (.failed errno) = .ok b := rfl

end WFBuffer

/-! ## Processes -/

/-- An `EventLoop` with what it owns. -/
structure Loop where
  address : Addr
  threadId : Int
  eventLoop : EventLoop LoopFunctor
  epoller : EPoller
  timerQueue : TimerQueue

structure Acceptor where
  listening : Bool
  acceptChannel : Addr

structure Process where
  loops : LoopId → Loop
  server : TcpServer
  acceptor : Acceptor
  /-- `inputBuffer_` of the connections. -/
  inputBuffer : Nat → WFBuffer
  /-- `t_loopInThisThread` of the threads. -/
  loopInThisThread : Int → Option Addr

/-! ## The check -/

/-- The text of a pointer. -/
def pointerText (p : Addr) : String :=
  "0x" ++ String.ofList ((Nat.toDigits 16 p).map Char.toUpper)

namespace Loop

def abortNotInLoopThread (l : Loop) (tid : Int) : String × Ending :=
  (((((((Logger.new "EventLoop.cc" 231 .FATAL).insert
    "EventLoop::abortNotInLoopThread - EventLoop ").insert (pointerText l.address)).insert
    " was created in threadId_ = ").insert (toString l.threadId)).insert
    ", current thread id = ").insert (toString tid)).destroy

/-- `assertInLoopThread`, called by the thread `tid`. -/
def assertInLoopThread (l : Loop) (tid : Int) : Ending :=
  if l.threadId = tid then .goesOn else (l.abortNotInLoopThread tid).2

end Loop

/-! ## The functions -/

inductive Op
  | updateChannel (loop : LoopId) (channel : Addr)
  | removeChannel (loop : LoopId) (channel : Addr)
  | addTimerInLoop (loop : LoopId) (timer : Addr)
  | cancelInLoop (loop : LoopId) (timerId : TimerId)
  /-- `TimerQueue::handleRead`; `run` is what the callback of a timer does to the queue. -/
  | timerHandleRead (loop : LoopId) (now : Int) (run : Addr → TimerQueue → TimerQueue)
  | sendInLoop (conn : Nat) (data : List UInt8) (w : WriteResult)
  | shutdownInLoop (conn : Nat)
  | forceCloseInLoop (conn : Nat)
  | connectEstablished (conn : Nat)
  | connectDestroyed (conn : Nat)
  | handleRead (conn : Nat) (r : Readv)
  | handleWrite (conn : Nat) (w : WriteResult)
  | handleClose (conn : Nat)
  /-- `Acceptor::listen`. -/
  | listen
  /-- `Acceptor::handleRead`, with the descriptor that `accept` returns. -/
  | acceptorHandleRead (connfd : Option Int)
  | removeConnectionInLoop (conn : Nat)

namespace Process

/-- The loop that a connection lives on. -/
def loopOf (w : Process) (k : Nat) : LoopId :=
  match w.server.conns[k]? with
  | some c => c.loop
  | none => .base

end Process

/-- The loop to whose thread a call belongs. -/
def Op.owner (w : Process) : Op → LoopId
  | .updateChannel i _ => i
  | .removeChannel i _ => i
  | .addTimerInLoop i _ => i
  | .cancelInLoop i _ => i
  | .timerHandleRead i _ _ => i
  | .sendInLoop k _ _ => w.loopOf k
  | .shutdownInLoop k => w.loopOf k
  | .forceCloseInLoop k => w.loopOf k
  | .connectEstablished k => w.loopOf k
  | .connectDestroyed k => w.loopOf k
  | .handleRead k _ => w.loopOf k
  | .handleWrite k _ => w.loopOf k
  | .handleClose k => w.loopOf k
  | .listen => .base
  | .acceptorHandleRead _ => .base
  | .removeConnectionInLoop _ => .base

/-- The `assert` at the beginning of `handleClose`, read off the effects. -/
def Effect.mayClose : Effect → Bool
  | .handleClose state => state == .kConnected || state == .kDisconnecting
  | _ => true

namespace Process

variable (b : Build) (w : Process) (tid : Int)

def setLoop (i : LoopId) (l : Loop) : Process :=
  { w with loops := Function.update w.loops i l }

def setEPoller (i : LoopId) (p : EPoller) : Process :=
  w.setLoop i { w.loops i with epoller := p }

def setTimerQueue (i : LoopId) (q : TimerQueue) : Process :=
  w.setLoop i { w.loops i with timerQueue := q }

/-- `queueInLoop` on the thread `tid`. -/
def queueInLoop (i : LoopId) (cb : LoopFunctor) : Process :=
  let l := w.loops i
  let e := l.eventLoop.pushBack cb
  w.setLoop i { l with
    eventLoop := if l.threadId ≠ tid ∨ e.callingPendingFunctors = true then e.writeEventfd else e }

/-- `TcpServer::removeConnectionInLoop`. -/
def removeConnectionInLoop (k : Nat) (c : ServerConn) : Except Fault Process := do
  b.check ((w.server.connections c.name).isSome = true)
  pure { w with server := w.server.removeConnectionInLoop k c }

/-- `TcpServer::removeConnection` on the thread `tid`. -/
def removeConnection (k : Nat) (c : ServerConn) : Except Fault Process :=
  if (w.loops .base).threadId = tid then w.removeConnectionInLoop b k c
  else pure { w with server := w.server.queueInLoop .base (.removeConnectionInLoop k) }

/-- What an effect of a function of the connection does to the members of the process. -/
def deliver (k : Nat) (c : ServerConn) (w : Process) : Effect → Except Fault Process
  | .queueInLoop cb => pure (w.queueInLoop tid c.loop cb)
  | .closeCallback => w.removeConnection b tid k c
  -- the kernel and the callbacks of the user
  | _ => pure w

/-- Store the members of a connection. -/
def storeConn (k : Nat) (c : ServerConn) (conn : TcpConnection) : Process :=
  { w with server := { w.server with conns := w.server.conns.set k { c with conn := conn } } }

/-- A function of the `k`-th connection. -/
def onConn (k : Nat) (f : TcpConnection → Except Fault TcpConnection.Result) :
    Except Fault (List Process) :=
  match w.server.conns[k]? with
  | none => .error .useAfterFree
  | some c => do
      let (conn, effects) ← f c.conn
      b.check (effects.all Effect.mayClose = true)
      let w ← effects.foldlM (deliver b tid k c) (w.storeConn k c conn)
      pure [w]

/-- `TcpServer::newConnection` on the thread `tid`. -/
def newConnection (sockfd : Int) : Process :=
  let s := w.server
  let (ioLoop, next) := s.getNextLoop
  let k := s.conns.length
  let c : ServerConn := ⟨s.nextName, ioLoop, TcpConnection.new sockfd⟩
  let s := { s with
    next := next
    nextConnId := TcpServer.incConnId s.nextConnId
    conns := s.conns ++ [c]
    connections := Function.update s.connections c.name (some k) }
  if (w.loops ioLoop).threadId = tid then { w with server := s.connectEstablished ioLoop k c }
  else { w with server := s.queueInLoop ioLoop (.connectEstablished k) }

/-- What follows the check: the states of the process that the call goes through, and none if it
ends the process. -/
def body : Op → Except Fault (List Process)
  | .updateChannel i channel => do
      let p ← b.updataChannel (w.loops i).epoller channel
      pure [w.setEPoller i p]
  | .removeChannel i channel => do
      let p ← b.removeChannel (w.loops i).epoller channel
      pure [w.setEPoller i p]
  | .addTimerInLoop i timer => do
      let q ← b.addTimerInLoop (w.loops i).timerQueue timer
      pure [w.setTimerQueue i q]
  | .cancelInLoop i timerId => do
      let q ← b.cancelInLoop (w.loops i).timerQueue timerId
      pure [w.setTimerQueue i q]
  | .timerHandleRead i now run => do
      let qs ← b.timerHandleRead (w.loops i).timerQueue now run
      pure (qs.map (w.setTimerQueue i))
  | .sendInLoop k data wr => w.onConn b tid k fun c => pure (c.sendInLoop data wr)
  | .shutdownInLoop k => w.onConn b tid k fun c => pure c.shutdownInLoop
  | .forceCloseInLoop k => w.onConn b tid k fun c => pure c.forceCloseInLoop
  | .connectEstablished k => w.onConn b tid k fun c => do
      b.check (c.state = .kConnecting)
      pure c.connectEstablished
  | .connectDestroyed k => w.onConn b tid k fun c => do
      -- the `assert`s of `Channel::remove` and `removeChannel`; `disableAll` sees to them
      b.check (c.state = .kConnected ∨
        (c.channel.isNoneEvent = true ∧ c.channel.index ≠ .kNew))
      pure c.connectDestroyed
  | .handleRead k r => do
      let buf ← (w.inputBuffer k).readFd r
      let w := { w with inputBuffer := Function.update w.inputBuffer k buf }
      w.onConn b tid k fun c => pure (c.handleRead r.result)
  | .handleWrite k wr => w.onConn b tid k fun c => pure (c.handleWrite wr)
  | .handleClose k => w.onConn b tid k fun c => pure c.handleClose
  | .listen => do
      let w := { w with acceptor := { w.acceptor with listening := true } }
      let p ← b.setInterest (w.loops .base).epoller w.acceptor.acceptChannel .enableReading
      pure [w.setEPoller .base p]
  | .acceptorHandleRead (some connfd) => pure [w.newConnection tid connfd]
  -- `Socket::accept` calls `exit(1)`, so the call does not return.
  | .acceptorHandleRead none => pure []
  | .removeConnectionInLoop k =>
      match w.server.conns[k]? with
      | none => .error .useAfterFree
      | some c => do
          let w ← w.removeConnectionInLoop b k c
          pure [w]

/-- The call of a function by the thread `tid`.  The functions it calls make the same check
again. -/
def exec (op : Op) : Except Fault (List Process) :=
  match (w.loops (op.owner w)).assertInLoopThread tid with
  | .stops => .ok []
  | .goesOn => w.body b tid op

end Process

/-! ## The constructor of a loop -/

/-- What the constructor of an `EventLoop` gets from the allocator and the kernel. -/
structure NewLoop where
  address : Addr
  timerfdChannel : Addr
  timerfd : Int
  wakeupChannel : Addr
  wakeupFd : Int

/-- The record for a second loop in a thread. -/
def anotherEventLoop (other : Addr) (tid : Int) : String × Ending :=
  (((((Logger.new "EventLoop.cc" 57 .FATAL).insert "Another EventLoop ").insert
    (pointerText other)).insert " exists in this thread ").insert (toString tid)).destroy

/-- `EventLoop::EventLoop` on the thread `tid`: the process afterwards, and whether the
constructor returns. -/
def Process.construct (b : Build) (w : Process) (tid : Int) (this : LoopId) (r : NewLoop) :
    Except Fault (Process × Ending) := do
  -- the constructor of the timer queue
  let p := EPoller.new.create r.timerfdChannel r.timerfd
  let p ← b.setInterest p r.timerfdChannel .enableReading
  -- `createEventfd` ends with `abort()` when it has no descriptor.
  if r.wakeupFd < 0 then
    pure (w, .stops)
  else do
    let p := p.create r.wakeupChannel r.wakeupFd
    let (tls, ending) :=
      match w.loopInThisThread tid with
      | some other => (w.loopInThisThread, (anotherEventLoop other tid).2)
      | none => (Function.update w.loopInThisThread tid (some r.address), .goesOn)
    let w := { w with loopInThisThread := tls }
    match ending with
    | .stops => pure (w, .stops)
    | .goesOn => do
        let p ← b.setInterest p r.wakeupChannel .enableReading
        pure (w.setLoop this ⟨r.address, tid, EventLoop.new, p, TimerQueue.new⟩, .goesOn)

end Net
end Muduo
