import Muduo.Net.Buffer
import Muduo.Net.Channel

/-!
# TcpConnection — the functions of `muduo/net/TcpConnection.cc`

A connection is the record of the members its functions read and write; the functions return
the new record and the list of what they did to the outside (`Effect`): bytes handed to the
kernel, functors queued on the loop, user callbacks.  The result of each `::write` and each read
is a parameter, so every function is total.  `handleClose` records the state it is entered
with, which its `assert` is about; a build without `assert` goes on, as this model does.

`runInLoop` is written with the flag `inLoop`: on the loop thread the functor runs at once, on
another thread it is queued.
-/

namespace Muduo
namespace Net

inductive StateE
  | kDisconnected
  | kConnecting
  | kConnected
  | kDisconnecting
  deriving DecidableEq, Repr

inductive Errno
  | EWOULDBLOCK
  | EPIPE
  | ECONNRESET
  | other
  deriving DecidableEq, Repr

/-- The test of `sendInLoop` for an error that makes it give the message up. -/
def Errno.isFault : Errno → Bool
  | .EPIPE => true
  | .ECONNRESET => true
  | _ => false

/-- The result of a `::write`: the kernel takes up to `n` bytes, or the call fails. -/
inductive WriteResult
  | accept (n : Nat)
  | fail (errno : Errno)
  deriving DecidableEq, Repr

/-- The result of `inputBuffer_.readFd`: the bytes read, or a failure. -/
inductive ReadResult
  | bytes (data : List UInt8)
  | fail
  deriving DecidableEq, Repr

/-- The functors that a connection binds to itself and queues on its loop. -/
inductive LoopFunctor
  | sendInLoop (message : List UInt8)
  | shutdownInLoop
  | forceCloseInLoop
  | startReadInLoop
  | writeCompleteCallback
  | highWaterMarkCallback (len : Nat)
  deriving DecidableEq, Repr

inductive Effect
  | wrote (data : List UInt8)
  | queueInLoop (cb : LoopFunctor)
  /-- `loop_->runAfter(seconds, forceClose)`. -/
  | runAfterForceClose
  | shutdownWrite
  | handleClose (state : StateE)
  /-- A call of `connectionCallback_`, with what `connected()` returns to it. -/
  | connectionCallback (connected : Bool)
  | messageCallback (data : List UInt8)
  | closeCallback
  deriving DecidableEq, Repr

structure TcpConnection where
  state : StateE
  reading : Bool
  channel : Channel
  outputBuffer : WFBuffer
  highWaterMark : Nat
  /-- Whether `writeCompleteCallback_` is set. -/
  writeCompleteCallback : Bool
  /-- Whether `highWaterMarkCallback_` is set. -/
  highWaterMarkCallback : Bool

namespace TcpConnection

/-- A function of the connection: the new members and the effects, in order. -/
abbrev Result := TcpConnection × List Effect

def new (sockfd : Int) : TcpConnection where
  state := .kConnecting
  reading := true
  channel := Channel.new sockfd
  outputBuffer := WFBuffer.new
  highWaterMark := 64 * 1024 * 1024
  writeCompleteCallback := false
  highWaterMarkCallback := false

def connected (c : TcpConnection) : Bool :=
  c.state == .kConnected

def setState (c : TcpConnection) (s : StateE) : TcpConnection :=
  { c with state := s }

def isWriting (c : TcpConnection) : Bool :=
  c.channel.events.isWriting

/-- `channel_->enableReading()` and its siblings. -/
def setInterest (c : TcpConnection) (op : Interest) : TcpConnection :=
  { c with channel := c.channel.edit op }

/-! ## Sending -/

/-- What the direct write of `sendInLoop` computes. -/
structure DirectWrite where
  nwrote : Nat
  faultError : Bool
  effects : List Effect

/-- `sendInLoop` writes directly when nothing waits in the output buffer. -/
def writesDirectly (c : TcpConnection) : Bool :=
  !c.isWriting && c.outputBuffer.readableBytes == 0

def directWrite (c : TcpConnection) (data : List UInt8) (w : WriteResult) : DirectWrite :=
  if c.writesDirectly then
    match w with
    | .accept n =>
        let nwrote := min n data.length
        let remaining := data.length - nwrote
        { nwrote := nwrote
          faultError := false
          effects := .wrote (data.take nwrote) ::
            (if remaining = 0 ∧ c.writeCompleteCallback = true then
              [.queueInLoop .writeCompleteCallback]
            else []) }
    | .fail errno => { nwrote := 0, faultError := errno.isFault, effects := [] }
  else
    { nwrote := 0, faultError := false, effects := [] }

/-- The notification that the pending output reaches the high-water mark. -/
def highWater (c : TcpConnection) (remaining : Nat) : List Effect :=
  let oldLen := c.outputBuffer.readableBytes
  if c.highWaterMark ≤ oldLen + remaining ∧ oldLen < c.highWaterMark ∧
      c.highWaterMarkCallback = true then
    [.queueInLoop (.highWaterMarkCallback (oldLen + remaining))]
  else
    []

/-- The part of `sendInLoop` that buffers what was not written. -/
def appendOutput (c : TcpConnection) (data : List UInt8) : TcpConnection :=
  let c := { c with outputBuffer := c.outputBuffer.append data }
  if c.isWriting then c else c.setInterest .enableWriting

def sendInLoop (c : TcpConnection) (data : List UInt8) (w : WriteResult) : Result :=
  if c.state = .kDisconnected then
    (c, [])
  else
    let d := c.directWrite data w
    let remaining := data.length - d.nwrote
    if d.faultError = false ∧ 0 < remaining then
      (c.appendOutput (data.drop d.nwrote), d.effects ++ c.highWater remaining)
    else
      (c, d.effects)

def send (c : TcpConnection) (inLoop : Bool) (message : List UInt8) (w : WriteResult) : Result :=
  if c.state = .kConnected then
    if inLoop then c.sendInLoop message w else (c, [.queueInLoop (.sendInLoop message)])
  else
    (c, [])

/-- `send(Buffer *)`, with the buffer that it leaves.  The buffer is the user's. -/
def sendBuffer (c : TcpConnection) (inLoop : Bool) (buf : Buffer) (w : WriteResult) :
    Except Fault (Result × Buffer) :=
  if c.state = .kConnected then
    if inLoop then do
      let data ← buf.load buf.peek buf.readableBytes
      pure (c.sendInLoop data w, buf.retrieveAll)
    else do
      let (buf, message) ← buf.retrieveAllAsString
      pure ((c, [.queueInLoop (.sendInLoop message)]), buf)
  else
    pure ((c, []), buf)

/-! ## Shutting down -/

def shutdownInLoop (c : TcpConnection) : Result :=
  if c.isWriting then (c, []) else (c, [.shutdownWrite])

/-- `shutdown()`: the state it sets is `kDisconnected`. -/
def shutdown (c : TcpConnection) (inLoop : Bool) : Result :=
  if c.state = .kConnected then
    let c := c.setState .kDisconnected
    if inLoop then c.shutdownInLoop else (c, [.queueInLoop .shutdownInLoop])
  else
    (c, [])

def forceClose (c : TcpConnection) : Result :=
  if c.state = .kConnected ∨ c.state = .kDisconnecting then
    (c.setState .kDisconnecting, [.queueInLoop .forceCloseInLoop])
  else
    (c, [])

def forceCloseWithDelay (c : TcpConnection) : Result :=
  if c.state = .kConnected ∨ c.state = .kDisconnecting then
    (c.setState .kDisconnecting, [.runAfterForceClose])
  else
    (c, [])

/-! ## Events -/

def handleClose (c : TcpConnection) : Result :=
  let c' := (c.setState .kDisconnected).setInterest .disableAll
  (c', [.handleClose c.state, .connectionCallback c'.connected, .closeCallback])

/-- `forceCloseInLoop()`: the state it tests for is `kDisconnected`, not `kDisconnecting`. -/
def forceCloseInLoop (c : TcpConnection) : Result :=
  if c.state = .kConnected ∨ c.state = .kDisconnected then c.handleClose else (c, [])

def handleRead (c : TcpConnection) (r : ReadResult) : Result :=
  match r with
  | .bytes data => if 0 < data.length then (c, [.messageCallback data]) else c.handleClose
  -- `handleError` only logs
  | .fail => (c, [])

def handleWrite (c : TcpConnection) (w : WriteResult) : Result :=
  if c.isWriting then
    match w with
    | .accept room =>
        let n := min room c.outputBuffer.readableBytes
        let wrote : Effect := .wrote (c.outputBuffer.content.take n)
        if 0 < n then
          let c := { c with outputBuffer := c.outputBuffer.retrieve n }
          if c.outputBuffer.readableBytes = 0 then
            let c := c.setInterest .disableWriting
            let complete : List Effect :=
              if c.writeCompleteCallback then [.queueInLoop .writeCompleteCallback] else []
            if c.state = .kDisconnecting then
              let (c, effects) := c.shutdownInLoop
              (c, wrote :: complete ++ effects)
            else
              (c, wrote :: complete)
          else
            (c, [wrote])
        else
          (c, [wrote])
    | .fail _ => (c, [])
  else
    (c, [])

def handleError (c : TcpConnection) : Result :=
  (c, [])

/-! ## Reading on and off -/

def startReadInLoop (c : TcpConnection) : TcpConnection :=
  if !c.reading || !c.channel.events.isReading then
    { c.setInterest .enableReading with reading := true }
  else
    c

def stopReadInLoop (c : TcpConnection) : TcpConnection :=
  if c.reading || c.channel.events.isReading then
    { c.setInterest .disableReading with reading := false }
  else
    c

def startRead (c : TcpConnection) (inLoop : Bool) : Result :=
  if inLoop then (c.startReadInLoop, []) else (c, [.queueInLoop .startReadInLoop])

/-- `stopRead()`: the function it binds is `startReadInLoop`. -/
def stopRead (c : TcpConnection) (inLoop : Bool) : Result :=
  if inLoop then (c.startReadInLoop, []) else (c, [.queueInLoop .startReadInLoop])

/-! ## Set-up and tear-down -/

def connectEstablished (c : TcpConnection) : Result :=
  let c := (c.setState .kConnected).setInterest .enableReading
  (c, [.connectionCallback c.connected])

def connectDestroyed (c : TcpConnection) : Result :=
  if c.state = .kConnected then
    let c := (c.setState .kDisconnected).setInterest .disableAll
    ({ c with channel := c.channel.removed }, [.connectionCallback c.connected])
  else
    ({ c with channel := c.channel.removed }, [])

/-- A connection that the server has set up, with the callbacks the user chose. -/
def established (sockfd : Int) (highWaterMark : Nat) (writeComplete highWater : Bool) :
    TcpConnection :=
  connectEstablished
    { TcpConnection.new sockfd with
      highWaterMark := highWaterMark
      writeCompleteCallback := writeComplete
      highWaterMarkCallback := highWater } |>.1

/-! ## Channel callbacks and the functors of the loop -/

/-- The callback that the constructor sets on `channel_` for each kind of event. -/
def onEvent (c : TcpConnection) (cb : Callback) (r : ReadResult) (w : WriteResult) : Result :=
  match cb with
  | .close => c.handleClose
  | .error => c.handleError
  | .read => c.handleRead r
  | .write => c.handleWrite w

/-- Run a functor that the connection queued; the user's callbacks do nothing to the
connection by themselves. -/
def runFunctor (c : TcpConnection) (cb : LoopFunctor) (w : WriteResult) : Result :=
  match cb with
  | .sendInLoop message => c.sendInLoop message w
  | .shutdownInLoop => c.shutdownInLoop
  | .forceCloseInLoop => c.forceCloseInLoop
  | .startReadInLoop => (c.startReadInLoop, [])
  | .writeCompleteCallback => (c, [])
  | .highWaterMarkCallback _ => (c, [])

end TcpConnection

/-! ## Reading the effects -/

namespace Effect

/-- The bytes that the kernel accepted. -/
def written : List Effect → List UInt8
  | [] => []
  | .wrote data :: effects => data ++ written effects
  | _ :: effects => written effects

/-- The functors that were queued on the loop. -/
def queued : List Effect → List LoopFunctor
  | [] => []
  | .queueInLoop cb :: effects => cb :: queued effects
  | _ :: effects => queued effects

/-- The bytes of the messages whose `sendInLoop` is among the functors. -/
def sendBytes : List LoopFunctor → List UInt8
  | [] => []
  | .sendInLoop message :: cbs => message ++ sendBytes cbs
  | _ :: cbs => sendBytes cbs

theorem written_append (l₁ l₂ : List Effect) : written (l₁ ++ l₂) = written l₁ ++ written l₂ := by
  induction l₁ with
  | nil => rfl
  | cons e l₁ ih => cases e <;> simp [written, ih]

theorem sendBytes_append (l₁ l₂ : List LoopFunctor) :
    sendBytes (l₁ ++ l₂) = sendBytes l₁ ++ sendBytes l₂ := by
  induction l₁ with
  | nil => rfl
  | cons cb l₁ ih => cases cb <;> simp [sendBytes, ih]

theorem mem_queued {cb : LoopFunctor} {l : List Effect} :
    cb ∈ queued l ↔ .queueInLoop cb ∈ l := by
  induction l with
  | nil => simp [queued]
  | cons e l ih => cases e <;> simp [queued, ih]

/-- Effects of the output path alone: bytes written, and notifications of the user queued. -/
def isOutput : Effect → Bool
  | .wrote _ => true
  | .queueInLoop .writeCompleteCallback => true
  | .queueInLoop (.highWaterMarkCallback _) => true
  | _ => false

/-- Effects that belong to the life of the connection: the close handler and the callbacks that
say up and down. -/
def isLifecycle : Effect → Bool
  | .handleClose _ => true
  | .connectionCallback _ => true
  | .closeCallback => true
  | _ => false

theorem not_isLifecycle_of_isOutput {e : Effect} (h : e.isOutput = true) :
    e.isLifecycle = false := by
  cases e <;> simp_all [isOutput, isLifecycle]

theorem sendBytes_queued {effects : List Effect} (h : ∀ e ∈ effects, e.isOutput = true) :
    sendBytes (queued effects) = [] := by
  induction effects with
  | nil => rfl
  | cons e effects ih =>
      have hrest := ih fun e he => h e (List.mem_cons_of_mem _ he)
      have he := h e List.mem_cons_self
      cases e with
      | queueInLoop cb => cases cb <;> simp_all [isOutput, queued, sendBytes]
      | _ => simpa [queued] using hrest

end Effect

end Net
end Muduo
