import Mathlib.Logic.Function.Basic
import Muduo.Foundation.StepSystem
import Muduo.Net.TcpConnection

/-!
# TcpServer — `muduo/net/TcpServer.cc` on its base loop and I/O loops

A connection lives on one loop of the pool, and the server keeps it in `connections_` from
`newConnection` to `removeConnectionInLoop`, both on the base loop.  The loops talk through their
functor queues, which are FIFO (`EventLoop.queue_next`); `runInLoop` calls the function at
once when the target is the loop of the calling thread, which is the case for every call when
there are no I/O threads.

The `k`-th accepted connection stands for its `TcpConnectionPtr`.  Names are computed as the
source does, with `snprintf` into a buffer of 64 characters.
-/

namespace Muduo
namespace Net

/-! ## Names -/

/-- The characters of a `%d` or `%u` conversion. -/
def decimal (n : Int) : List Char :=
  if n < 0 then '-' :: Nat.toDigits 10 n.natAbs else Nat.toDigits 10 n.natAbs

/-- `snprintf` into a buffer of `size` characters, the last of which is the terminator. -/
def snprintf (size : Nat) (text : List Char) : List Char :=
  text.take (size - 1)

/-- The address and the port of a `sockaddr_in`. -/
structure IPv4Address where
  ip : UInt8 × UInt8 × UInt8 × UInt8
  port : UInt16
  deriving DecidableEq, Repr

namespace IPv4Address

/-- `inet_ntop`: dotted decimal. -/
def toIp (addr : IPv4Address) : List Char :=
  decimal addr.ip.1.toNat ++ '.' :: decimal addr.ip.2.1.toNat ++
    '.' :: decimal addr.ip.2.2.1.toNat ++ '.' :: decimal addr.ip.2.2.2.toNat

def toIpPort (addr : IPv4Address) : List Char :=
  addr.toIp ++ snprintf (64 - addr.toIp.length) (':' :: decimal addr.port.toNat)

end IPv4Address

def connName (name ipPort : List Char) (nextConnId : Int) : List Char :=
  name ++ snprintf 64 ('-' :: ipPort ++ '#' :: decimal nextConnId)

theorem length_decimal_le {n k : Nat} (hk : 0 < k) (h : n < 10 ^ k) :
    (decimal n).length ≤ k := by
  have hneg : ¬ ((n : Int) < 0) := by omega
  rw [decimal, if_neg hneg]
  exact (Nat.length_toDigits_le_iff (by decide) hk).mpr (by simpa using h)

theorem decimal_injective {m n : Nat} (h : decimal m = decimal n) : m = n := by
  have hm : ¬ ((m : Int) < 0) := by omega
  have hn : ¬ ((n : Int) < 0) := by omega
  rw [decimal, decimal, if_neg hm, if_neg hn] at h
  have hvalue := congrArg (fun l => Nat.ofDigitChars 10 l 0) h
  simpa [Nat.ofDigitChars_ten_toDigits] using hvalue

theorem IPv4Address.length_toIpPort_le (addr : IPv4Address) : addr.toIpPort.length ≤ 21 := by
  have hbyte : ∀ b : UInt8, (decimal b.toNat).length ≤ 3 := by
    intro b
    have hlt := b.toNat_lt
    exact length_decimal_le (by decide) (by omega)
  have hport : (decimal addr.port.toNat).length ≤ 5 := by
    have hlt := addr.port.toNat_lt
    exact length_decimal_le (by decide) (by omega)
  have h1 := hbyte addr.ip.1
  have h2 := hbyte addr.ip.2.1
  have h3 := hbyte addr.ip.2.2.1
  have h4 := hbyte addr.ip.2.2.2
  simp only [toIpPort, toIp, snprintf, List.length_append, List.length_cons, List.length_take]
  omega

/-- The buffer is long enough for every id that an `int` can count up to, so that the names of
one server differ. -/
theorem connName_injective (name : List Char) (addr : IPv4Address) {i j : Nat} (hi : i < 2 ^ 31)
    (hj : j < 2 ^ 31) (h : connName name addr.toIpPort i = connName name addr.toIpPort j) :
    i = j := by
  have hfits : ∀ {n : Nat}, n < 2 ^ 31 →
      snprintf 64 ('-' :: addr.toIpPort ++ '#' :: decimal n) =
        '-' :: addr.toIpPort ++ '#' :: decimal n := by
    intro n hn
    have haddr := addr.length_toIpPort_le
    have hdigits : (decimal n).length ≤ 10 := length_decimal_le (by decide) (by omega)
    refine List.take_of_length_le ?_
    simp only [List.cons_append, List.length_cons, List.length_append]
    omega
  have hsuffix := List.append_cancel_left h
  rw [hfits hi, hfits hj] at hsuffix
  have htail := List.append_cancel_left hsuffix
  exact decimal_injective (List.cons.inj htail).2

/-! ## The server and its loops -/

inductive LoopId
  /-- `loop_`, the loop of the acceptor. -/
  | base
  /-- A loop of the thread pool. -/
  | io (i : Nat)
  deriving DecidableEq, Repr

/-- The functors that the server queues on loops. -/
inductive ServerFunctor
  | connectEstablished (conn : Nat)
  | removeConnectionInLoop (conn : Nat)
  | connectDestroyed (conn : Nat)
  deriving DecidableEq, Repr

def ServerFunctor.conn : ServerFunctor → Nat
  | .connectEstablished conn => conn
  | .removeConnectionInLoop conn => conn
  | .connectDestroyed conn => conn

/-- What has happened to a connection, with the loop on whose thread it happened; a removal
records the number of erased entries. -/
inductive ServerEvent
  | established (conn : Nat) (on : LoopId)
  | removed (conn : Nat) (erased : Nat)
  | destroyed (conn : Nat) (on : LoopId)
  deriving DecidableEq, Repr

def ServerEvent.conn : ServerEvent → Nat
  | .established conn _ => conn
  | .removed conn _ => conn
  | .destroyed conn _ => conn

structure ServerConn where
  name : List Char
  loop : LoopId
  conn : TcpConnection

structure TcpServer where
  name : List Char
  listenAddr : IPv4Address
  /-- `loops_.size()` and `next_` of the thread pool. -/
  loops : Nat
  next : Nat
  nextConnId : Int
  /-- The accepted connections. -/
  conns : List ServerConn
  /-- `connections_`. -/
  connections : List Char → Option Nat
  queues : LoopId → List ServerFunctor
  log : List ServerEvent

namespace TcpServer

def new (name : List Char) (listenAddr : IPv4Address) (loops : Nat) : TcpServer where
  name := name
  listenAddr := listenAddr
  loops := loops
  next := 0
  nextConnId := 1
  conns := []
  connections := fun _ => none
  queues := fun _ => []
  log := []

/-- The name that `newConnection` computes next. -/
def nextName (s : TcpServer) : List Char :=
  connName s.name s.listenAddr.toIpPort s.nextConnId

/-- `++nextConnId_` on a 32-bit `int`. -/
def incConnId (n : Int) : Int :=
  if n = 2 ^ 31 - 1 then -2 ^ 31 else n + 1

/-- `EventLoopThreadPool::getNextLoop`: round robin, or the base loop when there is no pool. -/
def getNextLoop (s : TcpServer) : LoopId × Nat :=
  if s.loops = 0 then (.base, s.next)
  else (.io s.next, if s.loops ≤ s.next + 1 then 0 else s.next + 1)

def queueInLoop (s : TcpServer) (loop : LoopId) (cb : ServerFunctor) : TcpServer :=
  { s with queues := Function.update s.queues loop (s.queues loop ++ [cb]) }

/-! ## Functions -/

/-- `TcpConnection::connectEstablished`, on the thread of `on`. -/
def connectEstablished (s : TcpServer) (on : LoopId) (k : Nat) (c : ServerConn) : TcpServer :=
  { s with
    conns := s.conns.set k { c with conn := c.conn.connectEstablished.1 }
    log := s.log ++ [.established k on] }

/-- `TcpConnection::connectDestroyed`, on the thread of `on`. -/
def connectDestroyed (s : TcpServer) (on : LoopId) (k : Nat) (c : ServerConn) : TcpServer :=
  { s with
    conns := s.conns.set k { c with conn := c.conn.connectDestroyed.1 }
    log := s.log ++ [.destroyed k on] }

def removeConnectionInLoop (s : TcpServer) (k : Nat) (c : ServerConn) : TcpServer :=
  let n := if (s.connections c.name).isSome then 1 else 0
  queueInLoop
    { s with
      connections := Function.update s.connections c.name none
      log := s.log ++ [.removed k n] } c.loop (.connectDestroyed k)

/-- `removeConnection`, on the thread of the connection's loop. -/
def removeConnection (s : TcpServer) (k : Nat) (c : ServerConn) : TcpServer :=
  if c.loop = .base then s.removeConnectionInLoop k c
  else s.queueInLoop .base (.removeConnectionInLoop k)

def newConnection (s : TcpServer) (sockfd : Int) : TcpServer :=
  let (ioLoop, next) := s.getNextLoop
  let k := s.conns.length
  let c : ServerConn := ⟨s.nextName, ioLoop, TcpConnection.new sockfd⟩
  let s := { s with
    next := next
    nextConnId := incConnId s.nextConnId
    conns := s.conns ++ [c]
    connections := Function.update s.connections c.name (some k) }
  if ioLoop = .base then s.connectEstablished .base k c
  else s.queueInLoop ioLoop (.connectEstablished k)

/-- An `EPOLLIN` dispatch on the connection's loop whose read returns 0. -/
def peerClose (s : TcpServer) (k : Nat) (c : ServerConn) : TcpServer :=
  let r := c.conn.handleRead (.bytes [])
  let c := { c with conn := r.1 }
  let s := { s with conns := s.conns.set k c }
  if .closeCallback ∈ r.2 then s.removeConnection k c else s

/-- Run a functor on the thread of a loop. -/
def call (s : TcpServer) (on : LoopId) (cb : ServerFunctor) : TcpServer :=
  match s.conns[cb.conn]? with
  | none => s
  | some c =>
      match cb with
      | .connectEstablished k => s.connectEstablished on k c
      | .removeConnectionInLoop k => s.removeConnectionInLoop k c
      | .connectDestroyed k => s.connectDestroyed on k c

/-! ## Runs -/

inductive Act
  | newConnection (sockfd : Int)
  | peerClose (conn : Nat)
  | runFunctor (loop : LoopId)
  deriving DecidableEq, Repr

def step (s : TcpServer) : Act → TcpServer
  | .newConnection sockfd => s.newConnection sockfd
  | .peerClose k =>
      match s.conns[k]? with
      | some c => s.peerClose k c
      | none => s
  | .runFunctor loop =>
      match s.queues loop with
      | cb :: rest => { s with queues := Function.update s.queues loop rest }.call loop cb
      | [] => s

/-- The kernel reports events for a connection while its channel is in the interest set, and
fewer than `2 ^ 31` connections are accepted. -/
def Enabled (s : TcpServer) : Act → Prop
  | .newConnection _ => s.conns.length + 1 < 2 ^ 31
  | .peerClose k => ∃ c ∈ s.conns[k]?, c.conn.channel.index = .kAdded
  | .runFunctor loop => s.queues loop ≠ []

instance (s : TcpServer) (a : Act) : Decidable (Enabled s a) :=
  match a with
  | .newConnection _ => inferInstanceAs (Decidable (_ < _))
  | .peerClose k => inferInstanceAs (Decidable (∃ c ∈ s.conns[k]?, c.conn.channel.index = .kAdded))
  | .runFunctor _ => inferInstanceAs (Decidable (_ ≠ _))

def Starts (s : TcpServer) : Prop :=
  ∃ name listenAddr loops, s = TcpServer.new name listenAddr loops

def system : StepSystem TcpServer Act :=
  StepSystem.ofNext Starts Enabled step

end TcpServer
end Net
end Muduo
