import Mathlib.Data.List.TakeWhile
import Muduo.Foundation.ByteOrder
import Muduo.Foundation.DottedDecimal
import Muduo.Net.TcpServerTracking

/-!
# Address — `muduo/net/Address.cc`, and the peer address of `Socket::accept`

An address of the source is a `sockaddr_in`, whose port and address are kept in network byte order;
`value` is the `IPv4Address` that the server model uses for it.  `inet_pton` is that of glibc, which
reads a dotted quad without leading zeros.

The names of the connections of a server contain the text of its address, and this text belongs to
one address only (`toIpPort_injective`).
-/

namespace Muduo
namespace Net

open ByteOrder (Endian htobe betoh)

/-- The members of a `sockaddr_in`, as words of the host. -/
structure SockaddrIn where
  sin_family : BitVec (8 * 2)
  sin_port : BitVec (8 * 2)
  s_addr : BitVec (8 * 4)
  deriving DecidableEq, Repr

def AF_INET : BitVec (8 * 2) := 2

def kInaddrAny : BitVec (8 * 4) := 0

def kInaddrLoopback : BitVec (8 * 4) := 0x7f000001

def inet_pton (src : List Char) : Option (List UInt8) :=
  DottedDecimal.parse 4 src

def inet_ntop (bytes : List UInt8) : List Char :=
  DottedDecimal.text bytes

/-- `c_str()`, as the C functions see it: up to the first NUL. -/
def cStr (text : List Char) : List Char :=
  text.takeWhile (fun c => c.toNat != 0)

namespace SockaddrIn

/-- `IPv4Address(port, loopbackOnly)`. -/
def new (e : Endian) (portArg : BitVec (8 * 2)) (loopbackOnly : Bool) : SockaddrIn where
  sin_family := AF_INET
  sin_port := htobe e portArg
  s_addr := htobe e (if loopbackOnly then kInaddrLoopback else kInaddrAny)

/-- `IPv4Address(ip, port)`; when the text is refused, it only logs an error. -/
def ofIp (e : Endian) (ip : List Char) (portArg : BitVec (8 * 2)) : SockaddrIn :=
  let addr : SockaddrIn := ⟨AF_INET, htobe e portArg, 0⟩
  match inet_pton (cStr ip) with
  | some bytes => { addr with s_addr := ByteOrder.ofImage e 4 bytes }
  | none => addr

def toIp (e : Endian) (a : SockaddrIn) : List Char :=
  inet_ntop (ByteOrder.image e a.s_addr)

def port (e : Endian) (a : SockaddrIn) : BitVec (8 * 2) :=
  betoh e a.sin_port

def toIpPort (e : Endian) (a : SockaddrIn) : List Char :=
  let buf := a.toIp e
  buf ++ snprintf (64 - buf.length) (':' :: decimal (a.port e).toNat)

/-- The octets and the port. -/
def value (e : Endian) (a : SockaddrIn) : IPv4Address :=
  let octet (i : Nat) : UInt8 := (ByteOrder.image e a.s_addr).getD i 0
  ⟨(octet 0, octet 1, octet 2, octet 3), ⟨a.port e⟩⟩

/-- The 16 bytes of the structure; `sin_zero` is cleared. -/
def bytes (e : Endian) (a : SockaddrIn) : List UInt8 :=
  ByteOrder.image e a.sin_family ++ ByteOrder.image e a.sin_port ++ ByteOrder.image e a.s_addr ++
    List.replicate 8 0

def ofBytes (e : Endian) (bytes : List UInt8) : SockaddrIn where
  sin_family := ByteOrder.ofImage e 2 (bytes.take 2)
  sin_port := ByteOrder.ofImage e 2 ((bytes.drop 2).take 2)
  s_addr := ByteOrder.ofImage e 4 ((bytes.drop 4).take 4)

/-- What `accept` and `getsockname` leave in a cleared `sockaddr_in` when they are told that it has
`addrlen` bytes. -/
def filled (e : Endian) (addrlen : Nat) (peer : SockaddrIn) : SockaddrIn :=
  ofBytes e ((peer.bytes e).take addrlen ++ List.replicate (16 - addrlen) 0)

/-- `Socket::accept` passes `sizeof(&addr)`, the size of a pointer. -/
def acceptPeer (e : Endian) (pointerSize : Nat) (peer : SockaddrIn) : SockaddrIn :=
  filled e pointerSize peer

/-! ## Texts -/

variable {e : Endian} {a b : SockaddrIn}

/-- The text is a dotted quad. -/
def IsDottedQuad (text : List Char) : Prop :=
  ∃ bytes : List UInt8, bytes.length = 4 ∧ DottedDecimal.text bytes = text

theorem inet_pton_eq_some {src : List Char} {bytes : List UInt8} :
    inet_pton src = some bytes ↔ bytes.length = 4 ∧ inet_ntop bytes = src :=
  DottedDecimal.parse_eq_some_iff (by decide)

theorem cStr_inet_ntop (bytes : List UInt8) : cStr (inet_ntop bytes) = inet_ntop bytes := by
  rw [cStr, List.takeWhile_eq_self_iff]
  intro c hc
  have hnul : c.toNat ≠ 0 := by
    rcases DottedDecimal.mem_text hc with hdigit | rfl
    · have hrange := Char.isDigit_iff_toNat.mp hdigit
      have hzero : '0'.toNat = 48 := rfl
      omega
    · decide
  simpa using hnul

theorem port_ofIp (e : Endian) (ip : List Char) (portArg : BitVec (8 * 2)) :
    (ofIp e ip portArg).port e = portArg := by
  rw [ofIp]
  split <;> exact ByteOrder.betoh_htobe e portArg

theorem ofIp_of_some {ip : List Char} {bytes : List UInt8} (h : inet_pton (cStr ip) = some bytes)
    (portArg : BitVec (8 * 2)) :
    ofIp e ip portArg = ⟨AF_INET, htobe e portArg, ByteOrder.ofImage e 4 bytes⟩ := by
  rw [ofIp, h]

/-- A text that is no dotted quad gives the wildcard address. -/
theorem ofIp_of_none {ip : List Char} (h : inet_pton (cStr ip) = none)
    (portArg : BitVec (8 * 2)) : ofIp e ip portArg = new e portArg false := by
  rw [ofIp, h]
  cases e <;> rfl

/-- Reading a printed address gives it back. -/
theorem ofIp_toIp (hfamily : a.sin_family = AF_INET) : ofIp e (a.toIp e) (a.port e) = a := by
  have hread : inet_pton (cStr (a.toIp e)) = some (ByteOrder.image e a.s_addr) := by
    rw [toIp, cStr_inet_ntop, inet_pton_eq_some]
    exact ⟨ByteOrder.length_image e a.s_addr, rfl⟩
  have hport : htobe e (a.port e) = a.sin_port := ByteOrder.htobe_betoh e a.sin_port
  rw [ofIp_of_some hread, hport, ByteOrder.ofImage_image, ← hfamily]

end SockaddrIn

/-! ## The addresses of the server model -/

theorem decimal_natCast (n : Nat) : decimal n = Nat.toDigits 10 n := by
  rw [decimal, if_neg (by omega)]
  rfl

theorem not_mem_decimal {c : Char} (hc : c.isDigit = false) (n : Nat) : c ∉ decimal n := by
  intro hin
  rw [decimal_natCast] at hin
  have hdigit := Nat.isDigit_of_mem_toDigits (by decide) (by decide) hin
  rw [hc] at hdigit
  cases hdigit

namespace IPv4Address

variable {a b : IPv4Address}

def octets (addr : IPv4Address) : List UInt8 :=
  [addr.ip.1, addr.ip.2.1, addr.ip.2.2.1, addr.ip.2.2.2]

theorem octets_injective (h : a.octets = b.octets) : a.ip = b.ip := by
  simpa [octets, Prod.ext_iff] using h

theorem toIp_eq (addr : IPv4Address) : addr.toIp = inet_ntop addr.octets := by
  simp [toIp, octets, inet_ntop, DottedDecimal.text, decimal_natCast]

/-- The buffer of 64 characters is long enough. -/
theorem toIpPort_eq (addr : IPv4Address) :
    addr.toIpPort = addr.toIp ++ ':' :: decimal addr.port.toNat := by
  have hlength := addr.length_toIpPort_le
  rw [toIpPort, List.length_append, snprintf, List.length_take] at hlength
  rw [toIpPort, snprintf, List.take_of_length_le]
  have hport : (decimal addr.port.toNat).length ≤ 5 := by
    have hlt := addr.port.toNat_lt
    exact length_decimal_le (by decide) (by omega)
  simp only [List.length_cons] at hlength ⊢
  omega

theorem not_mem_toIp {c : Char} (hc : c.isDigit = false ∧ c ≠ '.') (a : IPv4Address) :
    c ∉ a.toIp := by
  intro hin
  rw [toIp_eq] at hin
  rcases DottedDecimal.mem_text hin with hdigit | hdot
  · rw [hc.1] at hdigit
    cases hdigit
  · exact hc.2 hdot

theorem toIpPort_injective (h : a.toIpPort = b.toIpPort) : a = b := by
  rw [toIpPort_eq, toIpPort_eq] at h
  rcases (List.append_cons_inj_of_notMem (not_mem_toIp (by decide) a)
    (not_mem_decimal (by decide) a.port.toNat)).mp h with ⟨hip, _, hport⟩
  rw [toIp_eq, toIp_eq] at hip
  have hoctets := DottedDecimal.text_injective (by simp [octets]) (by simp [octets]) hip
  have hp := UInt16.toNat_inj.mp (decimal_injective hport)
  cases a
  cases b
  simp only [mk.injEq]
  exact ⟨octets_injective hoctets, hp⟩

theorem not_mem_toIpPort {c : Char} (hc : c.isDigit = false ∧ c ≠ '.' ∧ c ≠ ':')
    (a : IPv4Address) : c ∉ a.toIpPort := by
  rcases hc with ⟨hdigit, hdot, hcolon⟩
  rw [toIpPort_eq, List.mem_append, List.mem_cons]
  rintro (h | h | h)
  · exact not_mem_toIp ⟨hdigit, hdot⟩ a h
  · exact hcolon h
  · exact not_mem_decimal hdigit _ h

end IPv4Address

namespace SockaddrIn

variable {e : Endian} {a b : SockaddrIn}

theorem octets_value (e : Endian) (a : SockaddrIn) :
    (a.value e).octets = ByteOrder.image e a.s_addr := by
  have hlength := ByteOrder.length_image e a.s_addr
  rw [IPv4Address.octets, value]
  generalize ByteOrder.image e a.s_addr = bytes at hlength
  match bytes, hlength with
  | [_, _, _, _], _ => rfl

theorem toIp_value (e : Endian) (a : SockaddrIn) : (a.value e).toIp = a.toIp e := by
  rw [IPv4Address.toIp_eq, octets_value, toIp]

theorem toIpPort_value (e : Endian) (a : SockaddrIn) : (a.value e).toIpPort = a.toIpPort e := by
  rw [IPv4Address.toIpPort, toIp_value]
  rfl

theorem value_injective (h : a.value e = b.value e) :
    a.s_addr = b.s_addr ∧ a.sin_port = b.sin_port := by
  have haddr : ByteOrder.image e a.s_addr = ByteOrder.image e b.s_addr := by
    rw [← octets_value, ← octets_value, h]
  have hport : a.port e = b.port e := congrArg (fun v => v.port.toBitVec) h
  refine ⟨?_, ?_⟩
  · rw [← ByteOrder.ofImage_image e a.s_addr, haddr, ByteOrder.ofImage_image]
  · rw [← ByteOrder.htobe_betoh e a.sin_port, ← ByteOrder.htobe_betoh e b.sin_port]
    exact congrArg (htobe e) hport

/-- Constructor and text are inverse to each other: an address is read from what it prints and no
other address prints the same; a dotted quad is printed as it was read, and any other text gives
the wildcard address, with the port in either case. -/
theorem text_round_trip (e : Endian) :
    (∀ a : SockaddrIn, a.sin_family = AF_INET → ofIp e (a.toIp e) (a.port e) = a) ∧
      (∀ a b : SockaddrIn, a.toIpPort e = b.toIpPort e →
        a.s_addr = b.s_addr ∧ a.sin_port = b.sin_port) ∧
      ∀ (ip : List Char) (portArg : BitVec (8 * 2)),
        (ofIp e ip portArg).port e = portArg ∧
          (IsDottedQuad (cStr ip) → (ofIp e ip portArg).toIp e = cStr ip) ∧
          (¬ IsDottedQuad (cStr ip) → ofIp e ip portArg = new e portArg false) := by
  refine ⟨fun a ha => ofIp_toIp ha, fun a b h => ?_,
    fun ip portArg => ⟨port_ofIp e ip portArg, ?_, ?_⟩⟩
  · rw [← toIpPort_value, ← toIpPort_value] at h
    exact value_injective (IPv4Address.toIpPort_injective h)
  · rintro ⟨bytes, hlength, htext⟩
    have hread := inet_pton_eq_some.mpr ⟨hlength, htext⟩
    rw [ofIp_of_some hread, toIp, ByteOrder.image_ofImage e hlength]
    exact htext
  · intro hno
    refine ofIp_of_none ?_ portArg
    rw [Option.eq_none_iff_forall_ne_some]
    intro bytes hread
    exact hno ⟨bytes, inet_pton_eq_some.mp hread⟩

/-! ## The peer address -/

theorem length_bytes (e : Endian) (a : SockaddrIn) : (a.bytes e).length = 16 := by
  simp [bytes]

/-- Only the first 8 bytes count. -/
theorem ofBytes_eq_iff {bytes : List UInt8} (h : 8 ≤ bytes.length) :
    ofBytes e bytes = a ↔ bytes.take 8 = (a.bytes e).take 8 := by
  have hfamily := ByteOrder.length_image e a.sin_family
  have hport := ByteOrder.length_image e a.sin_port
  have haddr := ByteOrder.length_image e a.s_addr
  have hhead : (a.bytes e).take 8 = ByteOrder.image e a.sin_family ++
      (ByteOrder.image e a.sin_port ++ ByteOrder.image e a.s_addr) := by
    rw [SockaddrIn.bytes, List.take_append_of_le_length (by simp), List.append_assoc,
      List.take_of_length_le (by simp)]
  have hsplit : bytes.take 8 =
      bytes.take 2 ++ ((bytes.drop 2).take 2 ++ (bytes.drop 4).take 4) := by
    rw [show 8 = 2 + (2 + 4) from rfl, List.take_add, List.take_add, List.drop_drop]
  have hfirst : (bytes.take 2).length = 2 := by
    rw [List.length_take]
    omega
  have hsecond : ((bytes.drop 2).take 2).length = 2 := by
    rw [List.length_take, List.length_drop]
    omega
  have hthird : ((bytes.drop 4).take 4).length = 4 := by
    rw [List.length_take, List.length_drop]
    omega
  rw [hhead, hsplit]
  constructor
  · rintro rfl
    rw [ofBytes, ByteOrder.image_ofImage e hfirst, ByteOrder.image_ofImage e hsecond,
      ByteOrder.image_ofImage e hthird]
  · intro heq
    rcases List.append_inj heq (hfirst.trans hfamily.symm) with ⟨hone, hrest⟩
    rcases List.append_inj hrest (hsecond.trans hport.symm) with ⟨htwo, hthree⟩
    rw [ofBytes, hone, htwo, hthree, ByteOrder.ofImage_image, ByteOrder.ofImage_image,
      ByteOrder.ofImage_image]

/-- The bytes that are not copied must be zero. -/
theorem filled_eq_iff (e : Endian) (addrlen : Nat) (peer : SockaddrIn) :
    filled e addrlen peer = peer ↔ ∀ b ∈ ((peer.bytes e).take 8).drop addrlen, b = 0 := by
  have hlength := peer.length_bytes e
  rw [filled, ofBytes_eq_iff (by simp; omega)]
  generalize peer.bytes e = l at hlength
  by_cases hle : 8 ≤ addrlen
  · have hcopied : (l.take addrlen ++ List.replicate (16 - addrlen) 0).take 8 = l.take 8 := by
      rw [List.take_append_of_le_length (by simp; omega), List.take_take, Nat.min_eq_left hle]
    simp [hcopied, List.drop_eq_nil_of_le, hle]
  · have hzeros : (l.take addrlen ++ List.replicate (16 - addrlen) 0).take 8 =
        l.take addrlen ++ List.replicate (8 - addrlen) 0 := by
      rw [List.take_append, List.take_take, Nat.min_eq_right (by omega), List.length_take,
        Nat.min_eq_left (by omega), List.take_replicate, Nat.min_eq_left (by omega)]
    have hsplit : l.take 8 = l.take addrlen ++ (l.take 8).drop addrlen := by
      conv => lhs; rw [← List.take_append_drop addrlen (l.take 8)]
      rw [List.take_take, Nat.min_eq_left (by omega)]
    have hrest : ((l.take 8).drop addrlen).length = 8 - addrlen := by
      rw [List.length_drop, List.length_take, hlength]
      omega
    rw [hzeros, hsplit, List.append_cancel_left_eq, ← hsplit, eq_comm, List.eq_replicate_iff, hrest]
    simp

/-- The size of a pointer instead of that of the structure: the peer address is right for every
peer exactly where pointers have 8 bytes at least. -/
theorem accept_peer_iff (e : Endian) (pointerSize : Nat) :
    (∀ peer : SockaddrIn, peer.sin_family = AF_INET → acceptPeer e pointerSize peer = peer) ↔
      8 ≤ pointerSize := by
  constructor
  · intro h
    by_contra hlt
    -- A peer whose address ends in 255.
    have hall := (filled_eq_iff e pointerSize ⟨AF_INET, 0, 0xffffffff⟩).mp (h _ rfl)
    have hlast : (((bytes e ⟨AF_INET, 0, 0xffffffff⟩).take 8).drop pointerSize)[7 - pointerSize]?
        = some 255 := by
      rw [List.getElem?_drop, show pointerSize + (7 - pointerSize) = 7 by omega]
      cases e <;> decide
    have hzero := hall 255 (List.mem_of_getElem? hlast)
    cases hzero
  · intro hle peer _
    rw [acceptPeer, filled_eq_iff, List.drop_eq_nil_of_le (by simp; omega)]
    intro b hb
    cases hb

end SockaddrIn

/-! ## Names -/

theorem connName_fits (addr : IPv4Address) {n : Nat} (hn : n < 2 ^ 31) :
    snprintf 64 ('-' :: addr.toIpPort ++ '#' :: decimal n) =
      '-' :: addr.toIpPort ++ '#' :: decimal n := by
  have haddr := addr.length_toIpPort_le
  have hdigits : (decimal n).length ≤ 10 := length_decimal_le (by decide) (by omega)
  refine List.take_of_length_le ?_
  simp only [List.cons_append, List.length_cons, List.length_append]
  omega

theorem connName_eq_iff (name : List Char) (a b : IPv4Address) {i j : Nat} (hi : i < 2 ^ 31)
    (hj : j < 2 ^ 31) :
    connName name a.toIpPort i = connName name b.toIpPort j ↔ a = b ∧ i = j := by
  constructor
  · intro h
    have hsuffix := List.append_cancel_left h
    rw [connName_fits a hi, connName_fits b hj] at hsuffix
    have hhash : '#' ∉ '-' :: a.toIpPort := by
      rw [List.mem_cons]
      rintro (h | h)
      · cases h
      · exact IPv4Address.not_mem_toIpPort (by decide) a h
    rcases (List.append_cons_inj_of_notMem hhash (not_mem_decimal (by decide) i)).mp hsuffix with
      ⟨haddr, _, hid⟩
    exact ⟨IPv4Address.toIpPort_injective (List.cons.inj haddr).2, decimal_injective hid⟩
  · rintro ⟨rfl, rfl⟩
    rfl

namespace TcpServer

/-- Two servers of one name, in any state they reach: their connections share a name only when the
servers have the same address, and then the connections have the same number. -/
theorem names_shared_iff {s t : TcpServer} (hs : system.Reachable s) (ht : system.Reachable t)
    (hname : s.name = t.name) {i j : Nat} {ci cj : ServerConn} (hi : s.conns[i]? = some ci)
    (hj : t.conns[j]? = some cj) : ci.name = cj.name ↔ s.listenAddr = t.listenAddr ∧ i = j := by
  have hinv : ∀ {u : TcpServer}, system.Reachable u → Inv u := by
    intro u hu
    refine hu.invariant start_inv ?_
    rintro s a t h ⟨hen, rfl⟩
    exact step_inv h hen
  have hinvs := hinv hs
  have hinvt := hinv ht
  have hilt := (List.getElem?_eq_some_iff.mp hi).1
  have hjlt := (List.getElem?_eq_some_iff.mp hj).1
  have hfews := hinvs.few
  have hfewt := hinvt.few
  rw [hinvs.names hi, hinvt.names hj, hname, connName_eq_iff _ _ _ (by omega) (by omega)]
  simp

/-- A server of the name `s` on a port of the loopback address, with two connections. -/
def twoConnections (port : UInt16) : TcpServer :=
  [Act.newConnection 10, .newConnection 11].foldl step
    (TcpServer.new ['s'] ⟨(127, 0, 0, 1), port⟩ 0)

theorem names_shared_iff_twoServers :
    ∃ ci cj, (twoConnections 80).conns[1]? = some ci ∧ (twoConnections 8080).conns[1]? = some cj ∧
      (ci.name = cj.name ↔
        (twoConnections 80).listenAddr = (twoConnections 8080).listenAddr ∧ 1 = 1) := by
  have hreach : ∀ port, system.Reachable (twoConnections port) := by
    intro port
    have hrun : system.Run (TcpServer.new ['s'] ⟨(127, 0, 0, 1), port⟩ 0)
        [.newConnection 10, .newConnection 11] (twoConnections port) :=
      StepSystem.run_foldl ⟨show 0 + 1 < 2 ^ 31 by decide, show 1 + 1 < 2 ^ 31 by decide, trivial⟩
    exact hrun.reachable (StepSystem.Reachable.init ⟨_, _, _, rfl⟩)
  exact ⟨_, _, rfl, rfl, names_shared_iff (hreach 80) (hreach 8080) rfl rfl rfl⟩

end TcpServer

end Net
end Muduo
