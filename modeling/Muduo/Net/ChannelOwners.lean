import Muduo.Net.ConfinedIdle
import Muduo.Net.ConnectionOwnership

/-!
# ChannelOwners — a loop, its poller and the objects that have a channel

Four classes have a `Channel` as a member: `EventLoop`, `TimerQueue`, `Acceptor` and
`TcpConnection`.  A `World` is one loop from the constructor on, with the poller, and with every
channel that exists on the loop and the object it is a member of.  Acceptors and connections come
and go while the loop is `running`; `~EventLoop` then destroys `pendingFunctors_`,
`wakeupChannel_`, `timerQueue_` and `epoller_`, in this order.

A destructor has two steps: its body (`dtor`), and the destructor of the channel
(`channelDtor`), which the four classes leave to the compiler.  The server of the connections is
alive, so that a connection is torn down when it is closed, and it exists as long as something
holds its `TcpConnectionPtr`.
-/

namespace Muduo
namespace Net

/-! ## The channel -/

namespace Build

variable (b : Build)

/-- `Channel::remove`. -/
def remove (p : EPoller) (channel : Addr) : Except Fault EPoller := do
  let c ← p.deref channel
  b.check (c.isNoneEvent = true)
  let p := p.store channel { c with addedToLoop := false }
  b.removeChannel p channel

/-- `~Channel`. -/
def destroy (p : EPoller) (channel : Addr) (eventHandling : Bool) : Except Fault EPoller := do
  let c ← p.deref channel
  b.check (eventHandling = false)
  b.check (c.addedToLoop = false)
  let known ← p.hasChannel channel
  b.check (known = false)
  pure { p with objects := Function.update p.objects channel none }

theorem debug_remove : debug.remove = EPoller.remove := rfl

end Build

namespace ChannelOwners

open TcpConnection ConnectionUse ConnectionOwnership

/-- What an owner does to its channel. -/
inductive ChannelOp
  | edit (op : Interest)
  | remove
  deriving DecidableEq, Repr

def ChannelOp.apply (c : Channel) : ChannelOp → Channel
  | .edit op => c.edit op
  | .remove => c.removed

def channelOp (b : Build) (channel : Addr) (p : EPoller) : ChannelOp → Except Fault EPoller
  | .edit op => b.setInterest p channel op
  | .remove => b.remove p channel

/-! ## Connections -/

/-- The functions of a connection that run on the loop, and the calls of a user. -/
inductive Fn
  | connectEstablished
  | connectDestroyed
  | event (cb : Callback) (r : ReadResult) (w : WriteResult)
  | functor (cb : LoopFunctor) (w : WriteResult)
  | user (inLoop : Bool) (call : UserCall)
  deriving DecidableEq, Repr

namespace Fn

def run (c : TcpConnection) : Fn → Result
  | .connectEstablished => c.connectEstablished
  | .connectDestroyed => c.connectDestroyed
  | .event cb r w => c.onEvent cb r w
  | .functor cb w => c.runFunctor cb w
  | .user inLoop call => call.run c inLoop

/-- The `assert`s at the beginning of `connectEstablished` and `handleClose`. -/
def Asserted (c : TcpConnection) (fn : Fn) : Prop :=
  (fn = .connectEstablished → c.state = .kConnecting) ∧
    (fn.run c).2.all Effect.mayClose = true

instance (c : TcpConnection) (fn : Fn) : Decidable (fn.Asserted c) :=
  inferInstanceAs (Decidable ((_ → _) ∧ _))

/-! ### The calls on `channel_` -/

def sendInLoopOps (c : TcpConnection) (data : List UInt8) (w : WriteResult) : List ChannelOp :=
  let d := c.directWrite data w
  if c.state ≠ .kDisconnected ∧ d.faultError = false ∧ 0 < data.length - d.nwrote ∧
      c.isWriting = false then
    [.edit .enableWriting]
  else
    []

def handleWriteOps (c : TcpConnection) : WriteResult → List ChannelOp
  | .accept room =>
      let n := min room c.outputBuffer.readableBytes
      if c.isWriting = true ∧ 0 < n ∧ (c.outputBuffer.retrieve n).readableBytes = 0 then
        [.edit .disableWriting]
      else
        []
  | .fail _ => []

def startReadInLoopOps (c : TcpConnection) : List ChannelOp :=
  if !c.reading || !c.channel.events.isReading then [.edit .enableReading] else []

def eventOps (c : TcpConnection) (r : ReadResult) (w : WriteResult) : Callback → List ChannelOp
  | .close => [.edit .disableAll]
  | .error => []
  | .read => if r = .bytes [] then [.edit .disableAll] else []
  | .write => handleWriteOps c w

def functorOps (c : TcpConnection) (w : WriteResult) : LoopFunctor → List ChannelOp
  | .sendInLoop message => sendInLoopOps c message w
  | .forceCloseInLoop =>
      if c.state = .kConnected ∨ c.state = .kDisconnected then [.edit .disableAll] else []
  | .startReadInLoop => startReadInLoopOps c
  | _ => []

def userOps (c : TcpConnection) : UserCall → List ChannelOp
  | .send message w => if c.state = .kConnected then sendInLoopOps c message w else []
  | .startRead => startReadInLoopOps c
  | .stopRead => startReadInLoopOps c
  | _ => []

def ops (c : TcpConnection) : Fn → List ChannelOp
  | .connectEstablished => [.edit .enableReading]
  | .connectDestroyed =>
      if c.state = .kConnected then [.edit .disableAll, .remove] else [.remove]
  | .event cb r w => eventOps c r w cb
  | .functor cb w => functorOps c w cb
  | .user true call => userOps c call
  | .user false _ => []

end Fn

/-- What is queued about a connection on its loop. -/
inductive Task
  | connectEstablished
  | call (cb : LoopFunctor)
  | connectDestroyed
  deriving DecidableEq, Repr

/-- Whether the functor is bound to a `TcpConnectionPtr`. -/
def Task.holds : Task → Bool
  | .call cb => functorHolds cb
  | _ => true

def Task.fn (w : WriteResult) : Task → Fn
  | .connectEstablished => .connectEstablished
  | .call cb => .functor cb w
  | .connectDestroyed => .connectDestroyed

structure Conn where
  conn : TcpConnection
  /-- The loop of the connection is the one of the server. -/
  onBase : Bool
  /-- The entry in `connections_`. -/
  tracked : Bool
  /-- The functors `removeConnectionInLoop` on their way on the loop of the server. -/
  removals : Nat
  /-- The copies of the pointer that the user has, those in timers included. -/
  pointers : Nat
  /-- What calls on foreign threads have bound and not yet pushed. -/
  hands : List LoopFunctor
  /-- What `pendingFunctors_` has about the connection. -/
  pending : List Task
  /-- The callbacks of the current dispatch that are still to be made. -/
  dispatch : List Callback

namespace Conn

/-- `newConnection` hands the connection over to its loop. -/
def new (fd : Int) (onBase : Bool) (highWaterMark : Nat) (writeComplete highWater : Bool) :
    Conn where
  conn := { TcpConnection.new fd with
    highWaterMark := highWaterMark
    writeCompleteCallback := writeComplete
    highWaterMarkCallback := highWater }
  onBase := onBase
  tracked := true
  removals := 0
  pointers := 0
  hands := []
  pending := [.connectEstablished]
  dispatch := []

/-- Somebody has a pointer; a call in progress has the one of its caller. -/
def Alive (m : Conn) : Prop :=
  m.tracked = true ∨ 0 < m.removals ∨ 0 < m.pointers ∨ m.hands ≠ [] ∨
    ∃ t ∈ m.pending, t.holds = true

instance (m : Conn) : Decidable m.Alive :=
  inferInstanceAs (Decidable (_ ∨ _ ∨ _ ∨ _ ∨ _))

/-- `connectDestroyed` is still to run. -/
def Due (m : Conn) : Prop :=
  m.tracked = true ∨ 0 < m.removals ∨ .connectDestroyed ∈ m.pending

instance (m : Conn) : Decidable m.Due :=
  inferInstanceAs (Decidable (_ ∨ _ ∨ _))

variable (b : Build) (m : Conn)

def removeConnectionInLoop : Except Fault Conn := do
  b.check (m.tracked = true)
  pure { m with tracked := false, pending := m.pending ++ [.connectDestroyed] }

/-- `removeConnection`, on the thread of the connection. -/
def removeConnection : Except Fault Conn :=
  if m.onBase then m.removeConnectionInLoop b else pure { m with removals := m.removals + 1 }

/-- A function of the connection has run; `closeCallback_` is `removeConnection`. -/
def did (inLoop : Bool) (r : Result) : Except Fault Conn :=
  let m := { m with
    conn := r.1
    pointers := m.pointers + r.2.count .runAfterForceClose
    hands := if inLoop then m.hands else m.hands ++ Effect.queued r.2
    pending := if inLoop then m.pending ++ (Effect.queued r.2).map .call else m.pending }
  if .closeCallback ∈ r.2 then m.removeConnection b else pure m

end Conn

/-! ## Owners -/

inductive Kind
  | eventLoop
  | timerQueue
  | acceptor
  | tcpConnection
  deriving DecidableEq, Repr

/-- The object that a channel is a member of. -/
inductive Owner
  | eventLoop
  | timerQueue
  | acceptor
  | tcpConnection (m : Conn)

namespace Owner

def kind : Owner → Kind
  | .eventLoop => .eventLoop
  | .timerQueue => .timerQueue
  | .acceptor => .acceptor
  | .tcpConnection _ => .tcpConnection

def conn? : Owner → Option Conn
  | .tcpConnection m => some m
  | _ => none

end Owner

/-- What the body of the destructor does to the channel; in `~TimerQueue` it is commented out. -/
def Kind.dtorOps : Kind → List ChannelOp
  | .eventLoop => [.edit .disableAll, .remove]
  | .timerQueue => []
  | .acceptor => [.edit .disableAll, .remove]
  | .tcpConnection => []

structure Owned where
  owner : Owner
  /-- `eventHandling_` of the channel. -/
  eventHandling : Bool
  /-- The body of the owner's destructor has run. -/
  dtor : Bool

namespace Owned

def new (owner : Owner) : Owned := ⟨owner, false, false⟩

/-- There is a pointer to the connection `m`, the guard of `handleEvent` included. -/
def Held (o : Owned) (m : Conn) : Prop :=
  o.eventHandling = true ∨ m.Alive

instance (o : Owned) (m : Conn) : Decidable (o.Held m) :=
  inferInstanceAs (Decidable (_ ∨ _))

/-- `handleEvent` begins. -/
def handle (o : Owned) (revents : Mask) : Owned :=
  { o with
    eventHandling := true
    owner := match o.owner with
      | .tcpConnection m => .tcpConnection { m with dispatch := handleEventWithGuard revents }
      | owner => owner }

/-- The functors about the owner are destroyed without being called. -/
def discard (o : Owned) : Owned :=
  { o with
    owner := match o.owner with
      | .tcpConnection m => .tcpConnection { m with pending := [] }
      | owner => owner }

end Owned

/-! ## Worlds -/

/-- How far `~EventLoop` has come. -/
inductive Phase
  | running
  /-- The body has run. -/
  | leaving
  /-- `pendingFunctors_` is destroyed, -/
  | emptied
  /-- and `wakeupChannel_`, -/
  | unwoken
  /-- and `timerQueue_`. -/
  | over
  deriving DecidableEq, Repr

structure World where
  poller : EPoller
  owners : Addr → Option Owned
  phase : Phase

namespace World

def put (s : World) (a : Addr) (o : Owned) (p : EPoller) : World :=
  { s with poller := p, owners := Function.update s.owners a (some o) }

def owned (s : World) (a : Addr) : Except Fault Owned :=
  match s.owners a with
  | some o => .ok o
  | none => .error .useAfterFree

/-- Store the members of a connection. -/
def putConn (s : World) (a : Addr) (o : Owned) (m : Conn) (p : EPoller) : World :=
  s.put a { o with owner := .tcpConnection m } p

/-- Call a function of the connection `m`. -/
def call (b : Build) (s : World) (a : Addr) (o : Owned) (m : Conn) (inLoop : Bool) (fn : Fn) :
    Except Fault World := do
  b.check (fn.Asserted m.conn)
  let p ← (fn.ops m.conn).foldlM (channelOp b a) s.poller
  let m ← m.did b inLoop (fn.run m.conn)
  pure (s.putConn a o m p)

/-- What the constructor of an `EventLoop` that returns leaves. -/
def new (b : Build) (r : NewLoop) : Except Fault World := do
  let p := EPoller.new.create r.timerfdChannel r.timerfd
  let p ← b.setInterest p r.timerfdChannel .enableReading
  let p := p.create r.wakeupChannel r.wakeupFd
  let p ← b.setInterest p r.wakeupChannel .enableReading
  pure
    { poller := p
      owners := Function.update
        (Function.update (fun _ => none) r.timerfdChannel (some (Owned.new .timerQueue)))
        r.wakeupChannel (some (Owned.new .eventLoop))
      phase := .running }

end World

inductive Act
  | newAcceptor (a : Addr) (fd : Int)
  | listen (a : Addr)
  | newConnection (a : Addr) (fd : Int) (onBase : Bool) (highWaterMark : Nat)
      (writeComplete highWater : Bool)
  /-- `handleEvent` raises `eventHandling_`; what the callbacks do are steps of their own. -/
  | handle (a : Addr) (revents : Mask)
  /-- The next callback of a connection. -/
  | callback (a : Addr) (r : ReadResult) (w : WriteResult)
  /-- `handleEvent` returns. -/
  | handled (a : Addr)
  /-- The user takes a copy of the pointer to a connection. -/
  | hold (a : Addr)
  | drop (a : Addr)
  | user (a : Addr) (inLoop : Bool) (call : UserCall)
  /-- A foreign thread pushes what it has bound. -/
  | push (a : Addr) (i : Nat)
  /-- The next functor about a connection. -/
  | run (a : Addr) (w : WriteResult)
  | removeConnectionInLoop (a : Addr)
  /-- `~EventLoop` destroys `pendingFunctors_`. -/
  | discard
  /-- The body of the destructor of an owner. -/
  | dtor (a : Addr)
  | channelDtor (a : Addr)
  deriving DecidableEq, Repr

/-- The phase after the body of a destructor. -/
def Phase.afterDtor (phase : Phase) : Kind → Phase
  | .eventLoop => .leaving
  | _ => phase

/-- The phase after the destructor of a channel. -/
def Phase.afterChannelDtor (phase : Phase) : Kind → Phase
  | .eventLoop => .unwoken
  | .timerQueue => .over
  | _ => phase

/-- A step on the connection at an address. -/
def onConn (s : World) (a : Addr) (f : Owned → Conn → Except Fault World) : Except Fault World := do
  let o ← s.owned a
  match o.owner with
  | .tcpConnection m => f o m
  | _ => .error .useAfterFree

def exec (b : Build) (s : World) : Act → Except Fault World
  | .newAcceptor a fd => pure (s.put a (Owned.new .acceptor) (s.poller.create a fd))
  | .listen a => do
      let o ← s.owned a
      let p ← channelOp b a s.poller (.edit .enableReading)
      pure (s.put a o p)
  | .newConnection a fd onBase highWaterMark writeComplete highWater =>
      let m := Conn.new fd onBase highWaterMark writeComplete highWater
      pure (s.put a (Owned.new (.tcpConnection m)) (s.poller.create a fd))
  | .handle a revents => do
      let o ← s.owned a
      pure (s.put a (o.handle revents) s.poller)
  | .callback a r w => onConn s a fun o m =>
      match m.dispatch with
      | cb :: rest => s.call b a o { m with dispatch := rest } true (.event cb r w)
      | [] => pure s
  | .handled a => do
      let o ← s.owned a
      pure (s.put a { o with eventHandling := false } s.poller)
  | .hold a => onConn s a fun o m =>
      pure (s.putConn a o { m with pointers := m.pointers + 1 } s.poller)
  | .drop a => onConn s a fun o m =>
      pure (s.putConn a o { m with pointers := m.pointers - 1 } s.poller)
  | .user a inLoop call => onConn s a fun o m => s.call b a o m inLoop (.user inLoop call)
  | .push a i => onConn s a fun o m =>
      match m.hands[i]? with
      | some cb =>
          pure (s.putConn a o
            { m with hands := m.hands.eraseIdx i, pending := m.pending ++ [.call cb] } s.poller)
      | none => pure s
  | .run a w => onConn s a fun o m =>
      match m.pending with
      | t :: rest => s.call b a o { m with pending := rest } true (t.fn w)
      | [] => pure s
  | .removeConnectionInLoop a => onConn s a fun o m => do
      let m ← { m with removals := m.removals - 1 }.removeConnectionInLoop b
      pure (s.putConn a o m s.poller)
  | .discard =>
      pure { s with owners := fun a => (s.owners a).map Owned.discard, phase := .emptied }
  | .dtor a => do
      let o ← s.owned a
      b.check (∀ m ∈ o.owner.conn?, m.conn.state = .kDisconnected)
      let p ← o.owner.kind.dtorOps.foldlM (channelOp b a) s.poller
      pure { s.put a { o with dtor := true } p with phase := s.phase.afterDtor o.owner.kind }
  | .channelDtor a => do
      let o ← s.owned a
      let p ← b.destroy s.poller a o.eventHandling
      pure
        { poller := p
          owners := Function.update s.owners a none
          phase := s.phase.afterChannelDtor o.owner.kind }

/-- A connection whose destructor has not begun. -/
def OnConn (s : World) (a : Addr) (P : Owned → Conn → Prop) : Prop :=
  ∃ o ∈ s.owners a, o.dtor = false ∧ ∃ m ∈ o.owner.conn?, P o m

/-- The owner may be destroyed: the timer queue by `~EventLoop`, and a connection when nobody has
a pointer to it. -/
def MayDie (s : World) (o : Owned) : Prop :=
  match o.owner with
  | .eventLoop => s.phase = .running
  | .timerQueue => s.phase = .unwoken
  | .acceptor => s.phase = .running
  | .tcpConnection m => s.phase ≠ .over ∧ ¬ o.Held m

/-- The kernel reports events for the fds in its interest set, and `handleEvent` makes the
callbacks of a connection only if there is one.  The callback of the wakeup channel reads the
eventfd and nothing else, so it is over before the next step.  The user sees a connection
in `connectionCallback_` first. -/
def Enabled (s : World) : Act → Prop
  | .newAcceptor a _ => s.phase = .running ∧ s.owners a = none
  | .listen a => s.phase = .running ∧ ∃ o ∈ s.owners a, o.dtor = false ∧ o.owner.kind = .acceptor
  | .newConnection a _ _ _ _ _ => s.phase = .running ∧ s.owners a = none
  | .handle a _ =>
      s.phase = .running ∧ ∃ o ∈ s.owners a, o.dtor = false ∧ o.eventHandling = false ∧
        o.owner.kind ≠ .eventLoop ∧ (∃ c ∈ s.poller.objects a, c.index = .kAdded) ∧
        ∀ m ∈ o.owner.conn?, m.Alive
  | .callback a _ _ => s.phase = .running ∧ OnConn s a fun _ m => m.dispatch ≠ []
  | .handled a =>
      ∃ o ∈ s.owners a, o.dtor = false ∧ o.eventHandling = true ∧
        ∀ m ∈ o.owner.conn?, m.dispatch = []
  | .hold a =>
      s.phase = .running ∧ OnConn s a fun o m => .connectEstablished ∉ m.pending ∧ o.Held m
  | .drop a => OnConn s a fun _ m => 0 < m.pointers
  | .user a _ _ =>
      s.phase = .running ∧ OnConn s a fun o m => .connectEstablished ∉ m.pending ∧ o.Held m
  | .push a i => s.phase = .running ∧ OnConn s a fun _ m => i < m.hands.length
  | .run a _ =>
      s.phase = .running ∧ OnConn s a fun o m => o.eventHandling = false ∧ m.pending ≠ []
  | .removeConnectionInLoop a => s.phase = .running ∧ OnConn s a fun _ m => 0 < m.removals
  | .discard => s.phase = .leaving
  | .dtor a => ∃ o ∈ s.owners a, o.dtor = false ∧ MayDie s o
  | .channelDtor a =>
      ∃ o ∈ s.owners a, o.dtor = true ∧ (o.owner.kind = .eventLoop → s.phase = .emptied)

instance (s : World) (a : Addr) (P : Owned → Conn → Prop) [∀ o m, Decidable (P o m)] :
    Decidable (OnConn s a P) :=
  inferInstanceAs (Decidable (∃ o ∈ s.owners a, o.dtor = false ∧ ∃ m ∈ o.owner.conn?, P o m))

instance (s : World) : (o : Owned) → Decidable (MayDie s o)
  | ⟨.eventLoop, _, _⟩ => inferInstanceAs (Decidable (_ = _))
  | ⟨.timerQueue, _, _⟩ => inferInstanceAs (Decidable (_ = _))
  | ⟨.acceptor, _, _⟩ => inferInstanceAs (Decidable (_ = _))
  | ⟨.tcpConnection _, _, _⟩ => inferInstanceAs (Decidable (_ ∧ ¬ Owned.Held _ _))

instance (s : World) : (a : Act) → Decidable (Enabled s a)
  | .newAcceptor _ _ => inferInstanceAs (Decidable (_ ∧ s.owners _ = none))
  | .listen _ => inferInstanceAs (Decidable (_ ∧ ∃ o ∈ s.owners _, _ ∧ _))
  | .newConnection _ _ _ _ _ _ => inferInstanceAs (Decidable (_ ∧ s.owners _ = none))
  | .handle _ _ => inferInstanceAs (Decidable (_ ∧ ∃ o ∈ s.owners _, _ ∧ _))
  | .callback _ _ _ => inferInstanceAs (Decidable (_ ∧ OnConn s _ _))
  | .handled _ => inferInstanceAs (Decidable (∃ o ∈ s.owners _, _ ∧ _))
  | .hold _ => inferInstanceAs (Decidable (_ ∧ OnConn s _ _))
  | .drop _ => inferInstanceAs (Decidable (OnConn s _ _))
  | .user _ _ _ => inferInstanceAs (Decidable (_ ∧ OnConn s _ _))
  | .push _ _ => inferInstanceAs (Decidable (_ ∧ OnConn s _ _))
  | .run _ _ => inferInstanceAs (Decidable (_ ∧ OnConn s _ _))
  | .removeConnectionInLoop _ => inferInstanceAs (Decidable (_ ∧ OnConn s _ _))
  | .discard => inferInstanceAs (Decidable (_ = _))
  | .dtor _ => inferInstanceAs (Decidable (∃ o ∈ s.owners _, _ ∧ MayDie s o))
  | .channelDtor _ => inferInstanceAs (Decidable (∃ o ∈ s.owners _, _ ∧ _))

def Starts (b : Build) (s : World) : Prop :=
  ∃ r : NewLoop, r.timerfdChannel ≠ r.wakeupChannel ∧ 0 ≤ r.wakeupFd ∧ World.new b r = .ok s

def system (b : Build) : StepSystem World Act :=
  StepSystem.ofExec (Starts b) Enabled (exec b)

end ChannelOwners

end Net
end Muduo
