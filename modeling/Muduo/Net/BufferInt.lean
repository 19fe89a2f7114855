import Muduo.Foundation.ByteOrder
import Muduo.Net.BufferReadFd

/-!
# BufferInt — integers in network byte order

The `appendIntN`, `peekIntN`, `readIntN`, `retrieveIntN` and `prependIntN` functions of
`muduo/net/Buffer.h`, for a host of either byte order.  An `intN_t` is the bit vector of its
bytes, so a conversion to `uintN_t` and back is the identity on it.

`encode` is the wire format of one integer.  The `system` at the end lets the encodings of a
sequence of integers arrive through `append` and `readFd` in arbitrary pieces while the consumer
peeks and reads; `step_inv` says that the bytes in the buffer and on the wire are always the
encodings of the integers not read yet.
-/

namespace Muduo
namespace Net

open ByteOrder

/-- The integer types `int8_t`, `int16_t`, `int32_t`, `int64_t`. -/
inductive Width
  | int8
  | int16
  | int32
  | int64
  deriving DecidableEq, Repr

/-- `sizeof`. -/
def Width.size : Width → Nat
  | .int8 => 1
  | .int16 => 2
  | .int32 => 4
  | .int64 => 8

structure WireInt where
  width : Width
  value : BitVec (8 * width.size)
  deriving DecidableEq, Repr

/-- The big-endian two's-complement encoding. -/
def encode (v : WireInt) : List UInt8 :=
  networkOrder v.width.size v.value.toInt

def encodeAll (vs : List WireInt) : List UInt8 :=
  vs.flatMap encode

@[simp] theorem length_encode (v : WireInt) : (encode v).length = v.width.size :=
  length_networkOrder _ _

@[simp] theorem encodeAll_nil : encodeAll [] = [] := rfl

@[simp] theorem encodeAll_cons (v : WireInt) (vs : List WireInt) :
    encodeAll (v :: vs) = encode v ++ encodeAll vs := rfl

namespace Buffer

/-! ## Appending -/

def appendInt (e : Endian) (b : Buffer) {n : Nat} (x : BitVec (8 * n)) : Except Fault Buffer :=
  let be := htobe e x
  b.append (image e be)

def appendInt64 (e : Endian) (b : Buffer) (x : BitVec 64) : Except Fault Buffer :=
  b.appendInt e (n := 8) x

def appendInt32 (e : Endian) (b : Buffer) (x : BitVec 32) : Except Fault Buffer :=
  b.appendInt e (n := 4) x

def appendInt16 (e : Endian) (b : Buffer) (x : BitVec 16) : Except Fault Buffer :=
  b.appendInt e (n := 2) x

/-- One byte is appended as it is. -/
def appendInt8 (e : Endian) (b : Buffer) (x : BitVec 8) : Except Fault Buffer :=
  b.append (image e (n := 1) x)

/-! ## Peeking, retrieving and reading -/

def peekInt (e : Endian) (b : Buffer) (n : Nat) : Except Fault (BitVec (8 * n)) := do
  assert (n ≤ b.readableBytes)
  let be ← b.load b.peek n
  pure (betoh e (ofImage e n be))

def peekInt64 (e : Endian) (b : Buffer) : Except Fault (BitVec 64) :=
  b.peekInt e 8

def peekInt32 (e : Endian) (b : Buffer) : Except Fault (BitVec 32) :=
  b.peekInt e 4

def peekInt16 (e : Endian) (b : Buffer) : Except Fault (BitVec 16) :=
  b.peekInt e 2

/-- The byte at `peek()`, not converted. -/
def peekInt8 (e : Endian) (b : Buffer) : Except Fault (BitVec 8) := do
  assert (1 ≤ b.readableBytes)
  let x ← b.load b.peek 1
  pure (ofImage e 1 x)

def retrieveInt64 (b : Buffer) : Except Fault Buffer :=
  b.retrieve 8

def retrieveInt32 (b : Buffer) : Except Fault Buffer :=
  b.retrieve 4

def retrieveInt16 (b : Buffer) : Except Fault Buffer :=
  b.retrieve 2

def retrieveInt8 (b : Buffer) : Except Fault Buffer :=
  b.retrieve 1

/-- `result = peekIntN(); retrieveIntN(); return result`. -/
def readInt {m : Nat} (peekInt : Buffer → Except Fault (BitVec m))
    (retrieveInt : Buffer → Except Fault Buffer) (b : Buffer) :
    Except Fault (Buffer × BitVec m) := do
  let result ← peekInt b
  let b ← retrieveInt b
  pure (b, result)

def readInt64 (e : Endian) (b : Buffer) : Except Fault (Buffer × BitVec 64) :=
  readInt (peekInt64 e) retrieveInt64 b

def readInt32 (e : Endian) (b : Buffer) : Except Fault (Buffer × BitVec 32) :=
  readInt (peekInt32 e) retrieveInt32 b

def readInt16 (e : Endian) (b : Buffer) : Except Fault (Buffer × BitVec 16) :=
  readInt (peekInt16 e) retrieveInt16 b

def readInt8 (e : Endian) (b : Buffer) : Except Fault (Buffer × BitVec 8) :=
  readInt (peekInt8 e) retrieveInt8 b

/-! ## Prepending -/

def prependInt (e : Endian) (b : Buffer) {n : Nat} (x : BitVec (8 * n)) : Except Fault Buffer :=
  let be := htobe e x
  b.prepend (image e be)

def prependInt64 (e : Endian) (b : Buffer) (x : BitVec 64) : Except Fault Buffer :=
  b.prependInt e (n := 8) x

def prependInt32 (e : Endian) (b : Buffer) (x : BitVec 32) : Except Fault Buffer :=
  b.prependInt e (n := 4) x

def prependInt16 (e : Endian) (b : Buffer) (x : BitVec 16) : Except Fault Buffer :=
  b.prependInt e (n := 2) x

/-- One byte is prepended as it is. -/
def prependInt8 (e : Endian) (b : Buffer) (x : BitVec 8) : Except Fault Buffer :=
  b.prepend (image e (n := 1) x)

/-! ## The function of each width -/

def appendIntN (e : Endian) (b : Buffer) : WireInt → Except Fault Buffer
  | ⟨.int8, x⟩ => b.appendInt8 e x
  | ⟨.int16, x⟩ => b.appendInt16 e x
  | ⟨.int32, x⟩ => b.appendInt32 e x
  | ⟨.int64, x⟩ => b.appendInt64 e x

def peekIntN (e : Endian) (b : Buffer) : (w : Width) → Except Fault (BitVec (8 * w.size))
  | .int8 => b.peekInt8 e
  | .int16 => b.peekInt16 e
  | .int32 => b.peekInt32 e
  | .int64 => b.peekInt64 e

def readIntN (e : Endian) (b : Buffer) : (w : Width) → Except Fault (Buffer × BitVec (8 * w.size))
  | .int8 => b.readInt8 e
  | .int16 => b.readInt16 e
  | .int32 => b.readInt32 e
  | .int64 => b.readInt64 e

def prependIntN (e : Endian) (b : Buffer) : WireInt → Except Fault Buffer
  | ⟨.int8, x⟩ => b.prependInt8 e x
  | ⟨.int16, x⟩ => b.prependInt16 e x
  | ⟨.int32, x⟩ => b.prependInt32 e x
  | ⟨.int64, x⟩ => b.prependInt64 e x

def appendAll (e : Endian) (b : Buffer) : List WireInt → Except Fault Buffer
  | [] => .ok b
  | v :: vs => do
      let b ← b.appendIntN e v
      b.appendAll e vs

/-! ## Specification of the four operations -/

theorem appendIntN_eq (e : Endian) (b : Buffer) (v : WireInt) :
    b.appendIntN e v = b.append (encode v) := by
  rcases v with ⟨w, x⟩
  cases w with
  | int8 => exact congrArg b.append (image_byte e x)
  | int16 => exact congrArg b.append (image_htobe e (n := 2) x)
  | int32 => exact congrArg b.append (image_htobe e (n := 4) x)
  | int64 => exact congrArg b.append (image_htobe e (n := 8) x)

theorem prependIntN_eq (e : Endian) (b : Buffer) (v : WireInt) :
    b.prependIntN e v = b.prepend (encode v) := by
  rcases v with ⟨w, x⟩
  cases w with
  | int8 => exact congrArg b.prepend (image_byte e x)
  | int16 => exact congrArg b.prepend (image_htobe e (n := 2) x)
  | int32 => exact congrArg b.prepend (image_htobe e (n := 4) x)
  | int64 => exact congrArg b.prepend (image_htobe e (n := 8) x)

/-- `peekInt8` reads what the conversion of a single byte would give. -/
theorem peekInt8_eq (e : Endian) (b : Buffer) : b.peekInt8 e = b.peekInt e 1 := by
  simp only [peekInt8, peekInt, betoh_byte]

theorem peekIntN_eq (e : Endian) (b : Buffer) (w : Width) :
    b.peekIntN e w = b.peekInt e w.size := by
  cases w with
  | int8 => exact peekInt8_eq e b
  | int16 => rfl
  | int32 => rfl
  | int64 => rfl

theorem readIntN_eq (e : Endian) (b : Buffer) (w : Width) :
    b.readIntN e w = readInt (fun b => b.peekIntN e w) (fun b => b.retrieve w.size) b := by
  cases w <;> rfl

theorem peekIntN_ok (e : Endian) {b : Buffer} (h : b.WF) {v : WireInt} {rest : List UInt8}
    (hcontent : b.content = encode v ++ rest) : b.peekIntN e v.width = .ok v.value := by
  have hlen : v.width.size ≤ b.readableBytes := by
    rw [← h.length_content, hcontent]
    simp
  have htake : b.content.take v.width.size = encode v := by
    rw [hcontent]
    exact List.take_left' (length_encode v)
  rw [peekIntN_eq]
  simp only [peekInt, assert_pos hlen, ok_bind, load_peek_ok h hlen, htake, pure_eq_ok]
  exact congrArg Except.ok (betoh_ofImage e v.value)

theorem readIntN_ok (e : Endian) {b : Buffer} (h : b.WF) {v : WireInt} {rest : List UInt8}
    (hcontent : b.content = encode v ++ rest) :
    ∃ b', b.readIntN e v.width = .ok (b', v.value) ∧ b'.WF ∧ b'.content = rest := by
  have hlen : v.width.size ≤ b.readableBytes := by
    rw [← h.length_content, hcontent]
    simp
  obtain ⟨b', hb', hwf, hdrop⟩ := retrieve_ok h hlen
  refine ⟨b', ?_, hwf, ?_⟩
  · rw [readIntN_eq]
    simp [readInt, peekIntN_ok e h hcontent, hb']
  · rw [hdrop, hcontent]
    exact List.drop_left' (length_encode v)

theorem appendAll_ok (e : Endian) (vs : List WireInt) :
    ∀ {b : Buffer}, b.WF →
      ∃ b', b.appendAll e vs = .ok b' ∧ b'.WF ∧ b'.content = b.content ++ encodeAll vs := by
  induction vs with
  | nil =>
      intro b h
      exact ⟨b, rfl, h, by simp⟩
  | cons v vs ih =>
      intro b h
      obtain ⟨b₁, hb₁, hwf₁, hcontent₁⟩ := append_ok h (encode v)
      obtain ⟨b₂, hb₂, hwf₂, hcontent₂⟩ := ih hwf₁
      refine ⟨b₂, ?_, hwf₂, ?_⟩
      · simp [appendAll, appendIntN_eq, hb₁, hb₂]
      · rw [hcontent₂, hcontent₁, encodeAll_cons, List.append_assoc]

theorem prependIntN_readIntN (e : Endian) {b : Buffer} (h : b.WF) {v : WireInt}
    (hroom : v.width.size ≤ b.prependableBytes) :
    ∃ b₁ b₂, b.prependIntN e v = .ok b₁ ∧ b₁.content = encode v ++ b.content ∧
      b₁.readIntN e v.width = .ok (b₂, v.value) ∧ b₂.WF ∧ b₂.content = b.content := by
  have hlen : (encode v).length ≤ b.prependableBytes := by
    rw [length_encode]
    exact hroom
  obtain ⟨b₁, hb₁, hwf₁, hcontent₁⟩ := prepend_ok h hlen
  obtain ⟨b₂, hb₂, hwf₂, hcontent₂⟩ := readIntN_ok e hwf₁ hcontent₁
  exact ⟨b₁, b₂, by rw [prependIntN_eq, hb₁], hcontent₁, hb₂, hwf₂, hcontent₂⟩

end Buffer

/-! ## Integers arriving in pieces -/

namespace IntStream

/-- A buffer that receives `wire` piece by piece, and the widths its owner still expects;
`values` records what `readIntN` returned so far. -/
structure State where
  buf : Buffer
  savedErrno : Int
  wire : List UInt8
  expected : List Width
  values : List WireInt
  deriving DecidableEq, Repr

inductive Action
  | append (len : Nat)
  | readFd (len : Nat)
  | readFdFailed (errno : Int)
  | peekInt
  | readInt
  deriving DecidableEq, Repr

/-- All bytes of the next integer are among the readable ones. -/
def Ready (readable : Nat) : List Width → Prop
  | [] => False
  | w :: _ => w.size ≤ readable

instance (readable : Nat) (ws : List Width) : Decidable (Ready readable ws) :=
  match ws with
  | [] => isFalse id
  | _ :: _ => inferInstanceAs (Decidable (_ ≤ _))

/-- The condition under which `peekIntN` and `readIntN` are called. -/
def Complete (s : State) : Prop :=
  Ready s.buf.readableBytes s.expected

instance (s : State) : Decidable (Complete s) :=
  inferInstanceAs (Decidable (Ready _ _))

def Enabled (s : State) : Action → Prop
  | .append len => len ≤ s.wire.length
  | .readFd len => len ≤ s.wire.length ∧ s.buf.Fits (.delivered (s.wire.take len))
  | .readFdFailed _ => True
  | .peekInt => Complete s
  | .readInt => Complete s

instance (s : State) (a : Action) : Decidable (Enabled s a) :=
  match a with
  | .append _ => inferInstanceAs (Decidable (_ ≤ _))
  | .readFd _ => inferInstanceAs (Decidable (_ ∧ _))
  | .readFdFailed _ => isTrue trivial
  | .peekInt => inferInstanceAs (Decidable (Complete s))
  | .readInt => inferInstanceAs (Decidable (Complete s))

def exec (e : Endian) (s : State) : Action → Except Fault State
  | .append len => do
      let buf ← s.buf.append (s.wire.take len)
      pure { s with buf := buf, wire := s.wire.drop len }
  | .readFd len => do
      let (buf, savedErrno, _) ← s.buf.readFd s.savedErrno (.delivered (s.wire.take len))
      pure { s with buf := buf, savedErrno := savedErrno, wire := s.wire.drop len }
  | .readFdFailed errno => do
      let (buf, savedErrno, _) ← s.buf.readFd s.savedErrno (.failed errno)
      pure { s with buf := buf, savedErrno := savedErrno }
  | .peekInt =>
      match s.expected with
      | [] => .ok s
      | w :: _ => do
          -- `peekIntN` is a `const` function.
          let _ ← s.buf.peekIntN e w
          pure s
  | .readInt =>
      match s.expected with
      | [] => .ok s
      | w :: ws => do
          let (buf, x) ← s.buf.readIntN e w
          pure { s with buf := buf, expected := ws, values := s.values ++ [⟨w, x⟩] }

/-- The encodings of `vs` on their way to an empty buffer. -/
def Init (vs : List WireInt) (s : State) : Prop :=
  s.buf.WF ∧ s.buf.content = [] ∧ s.wire = encodeAll vs ∧ s.expected = vs.map WireInt.width ∧
    s.values = []

def system (e : Endian) (vs : List WireInt) : StepSystem State Action :=
  .ofExec (Init vs) Enabled (exec e)

/-- `rest` is what is still to be read: the buffer and the wire hold its encodings. -/
structure Pending (vs rest : List WireInt) (s : State) : Prop where
  wf : s.buf.WF
  split : vs = s.values ++ rest
  expected : s.expected = rest.map WireInt.width
  bytes : s.buf.content ++ s.wire = encodeAll rest

def Inv (vs : List WireInt) (s : State) : Prop :=
  ∃ rest, Pending vs rest s

/-- A complete next integer lies at the front of the content. -/
theorem Pending.front {vs rest : List WireInt} {s : State} (h : Pending vs rest s)
    (hcomplete : Complete s) :
    ∃ v vs' tail, rest = v :: vs' ∧ s.buf.content = encode v ++ tail ∧
      tail ++ s.wire = encodeAll vs' := by
  cases rest with
  | nil =>
      simp [Complete, Ready, h.expected] at hcomplete
  | cons v vs' =>
      have hlen : (encode v).length ≤ s.buf.content.length := by
        rw [length_encode, h.wf.length_content]
        simpa [Complete, Ready, h.expected] using hcomplete
      have hbytes := h.bytes
      rw [encodeAll_cons] at hbytes
      obtain ⟨tail, htail⟩ : encode v <+: s.buf.content :=
        List.prefix_of_prefix_length_le ⟨_, hbytes.symm⟩ (List.prefix_append _ _) hlen
      refine ⟨v, vs', tail, rfl, htail.symm, ?_⟩
      rw [← htail, List.append_assoc] at hbytes
      exact List.append_cancel_left hbytes

theorem Pending.delivered {vs rest : List WireInt} {s : State} (h : Pending vs rest s) {len : Nat}
    {b' : Buffer} (hwf : b'.WF) (hcontent : b'.content = s.buf.content ++ s.wire.take len)
    (savedErrno : Int) :
    Pending vs rest { s with buf := b', savedErrno := savedErrno, wire := s.wire.drop len } where
  wf := hwf
  split := h.split
  expected := h.expected
  bytes := by
    simp only [hcontent]
    rw [List.append_assoc, List.take_append_drop, h.bytes]

theorem step_inv (e : Endian) {vs : List WireInt} {s : State} {a : Action} (h : Inv vs s)
    (ha : Enabled s a) : ∃ t, exec e s a = .ok t ∧ Inv vs t := by
  obtain ⟨rest, hs⟩ := h
  cases a with
  | append len =>
      obtain ⟨b', hb', hwf, hcontent⟩ := Buffer.append_ok hs.wf (s.wire.take len)
      exact ⟨_, by simp only [exec, hb', ok_bind, pure_eq_ok],
        rest, hs.delivered hwf hcontent s.savedErrno⟩
  | readFd len =>
      obtain ⟨b', hb', hwf, hcontent⟩ := Buffer.readFd_delivered hs.wf s.savedErrno ha.2
      exact ⟨_, by simp only [exec, hb', ok_bind, pure_eq_ok],
        rest, hs.delivered hwf hcontent s.savedErrno⟩
  | readFdFailed errno =>
      exact ⟨{ s with savedErrno := errno }, by simp [exec, Buffer.readFd_failed],
        rest, hs.wf, hs.split, hs.expected, hs.bytes⟩
  | peekInt =>
      obtain ⟨v, vs', tail, rfl, hcontent, _⟩ := hs.front ha
      have hw : s.expected = v.width :: vs'.map WireInt.width := hs.expected
      exact ⟨s, by simp [exec, hw, Buffer.peekIntN_ok e hs.wf hcontent], v :: vs', hs⟩
  | readInt =>
      obtain ⟨v, vs', tail, rfl, hcontent, htail⟩ := hs.front ha
      have hw : s.expected = v.width :: vs'.map WireInt.width := hs.expected
      obtain ⟨b', hb', hwf, hrest⟩ := Buffer.readIntN_ok e hs.wf hcontent
      refine ⟨{ s with buf := b', expected := vs'.map WireInt.width, values := s.values ++ [v] },
        by simp [exec, hw, hb'], vs', hwf, ?_, rfl, ?_⟩
      · rw [hs.split]
        simp
      · simp only [hrest]
        exact htail

theorem init_inv {vs : List WireInt} {s : State} (h : Init vs s) : Inv vs s := by
  obtain ⟨hwf, hcontent, hwire, hexpected, hvalues⟩ := h
  exact ⟨vs, hwf, by rw [hvalues, List.nil_append], hexpected, by rw [hcontent, hwire]; rfl⟩

/-- Whatever the fragmentation, the values read so far are a prefix of the original sequence,
a complete next integer is peeked as the next original value, and nothing faults; once the wire
is empty the next integer is complete, and once everything is read the buffer is empty. -/
theorem reachable_round_trip (e : Endian) {vs : List WireInt} {s : State}
    (hs : (system e vs).Reachable s) :
    (∃ rest, vs = s.values ++ rest ∧ s.expected = rest.map WireInt.width ∧
      (Complete s → ∃ v, rest.head? = some v ∧ s.buf.peekIntN e v.width = .ok v.value ∧
        exec e s .peekInt = .ok s)) ∧
    (∀ a, Enabled s a → ∃ t, exec e s a = .ok t) ∧
    (s.wire = [] → s.expected ≠ [] → Complete s) ∧
    (s.wire = [] → s.expected = [] → s.values = vs ∧ s.buf.content = []) := by
  obtain ⟨⟨rest, h⟩, hsafe⟩ := StepSystem.ofExec_safe init_inv (step_inv e) hs
  refine ⟨⟨rest, h.split, h.expected, ?_⟩, hsafe, ?_, ?_⟩
  · intro hcomplete
    obtain ⟨v, vs', tail, rfl, hcontent, _⟩ := h.front hcomplete
    have hpeek := Buffer.peekIntN_ok e h.wf hcontent
    have hw : s.expected = v.width :: vs'.map WireInt.width := h.expected
    exact ⟨v, rfl, hpeek, by simp [exec, hw, hpeek]⟩
  · intro hwire hne
    have hbytes := h.bytes
    rw [hwire, List.append_nil] at hbytes
    cases rest with
    | nil => exact absurd h.expected hne
    | cons v vs' =>
        have hlen : v.width.size ≤ s.buf.readableBytes := by
          rw [← h.wf.length_content, hbytes]
          simp
        simpa [Complete, Ready, h.expected] using hlen
  · intro hwire hnil
    have hrest : rest = [] := by
      have hmap := h.expected
      rw [hnil] at hmap
      exact List.map_eq_nil_iff.1 hmap.symm
    subst hrest
    have hbytes := h.bytes
    rw [hwire, List.append_nil] at hbytes
    exact ⟨by simpa using h.split.symm, hbytes⟩

/-- The integer codec round-trips: appending, arrival in pieces, and prepending. -/
theorem integer_codec_round_trip :
    (∀ (e : Endian) (b : Buffer) (vs : List WireInt), b.WF →
      ∃ b', b.appendAll e vs = .ok b' ∧ b'.WF ∧ b'.content = b.content ++ encodeAll vs) ∧
    (∀ (e : Endian) (vs : List WireInt) (s : State), (system e vs).Reachable s →
      (∃ rest, vs = s.values ++ rest ∧ s.expected = rest.map WireInt.width ∧
        (Complete s → ∃ v, rest.head? = some v ∧ s.buf.peekIntN e v.width = .ok v.value ∧
          exec e s .peekInt = .ok s)) ∧
      (∀ a, Enabled s a → ∃ t, exec e s a = .ok t) ∧
      (s.wire = [] → s.expected ≠ [] → Complete s) ∧
      (s.wire = [] → s.expected = [] → s.values = vs ∧ s.buf.content = [])) ∧
    (∀ (e : Endian) (b : Buffer) (v : WireInt), b.WF → v.width.size ≤ b.prependableBytes →
      ∃ b₁ b₂, b.prependIntN e v = .ok b₁ ∧ b₁.content = encode v ++ b.content ∧
        b₁.readIntN e v.width = .ok (b₂, v.value) ∧ b₂.WF ∧ b₂.content = b.content) := by
  refine ⟨?_, ?_, ?_⟩
  · intro e b vs hwf
    exact Buffer.appendAll_ok e vs hwf
  · intro e vs s hs
    exact reachable_round_trip e hs
  · intro e b v hwf hroom
    exact Buffer.prependIntN_readIntN e hwf hroom

-- A 16-bit and a 32-bit integer through a buffer with room for three bytes, cut inside the second.
theorem integer_codec_round_trip_fragmented :
    (Buffer.new 3).WF ∧
    (∃ b', (Buffer.new 3).appendAll .little [⟨.int16, -2⟩, ⟨.int32, 258⟩] = .ok b' ∧
      b'.content = [255, 254, 0, 0, 1, 2]) ∧
    (∃ s, (system .little [⟨.int16, -2⟩, ⟨.int32, 258⟩]).Reachable s ∧
      s.values = [⟨.int16, -2⟩, ⟨.int32, 258⟩] ∧ s.buf.content = []) ∧
    ∃ b₁ b₂, (Buffer.new 3).prependIntN .big ⟨.int64, -5⟩ = .ok b₁ ∧
      b₁.readIntN .big .int64 = .ok (b₂, -5) ∧ b₂.content = [] := by
  refine ⟨Buffer.new_wf 3, ?_, ?_, ?_⟩
  · obtain ⟨b', hb', _, hcontent⟩ := integer_codec_round_trip.1 .little (Buffer.new 3)
      [⟨.int16, -2⟩, ⟨.int32, 258⟩] (Buffer.new_wf 3)
    exact ⟨b', hb', hcontent.trans (by decide)⟩
  · let vs : List WireInt := [⟨.int16, -2⟩, ⟨.int32, 258⟩]
    let s₀ : State := ⟨Buffer.new 3, 0, encodeAll vs, [.int16, .int32], []⟩
    let as : List Action :=
      [.append 1, .readFd 3, .peekInt, .readInt, .readFdFailed 11, .readFd 2, .readInt]
    let b₁ : Buffer := ⟨[0, 0, 0, 0, 0, 0, 0, 0, 0, 0, 1, 2], 8, 8⟩
    have hrun : (system .little vs).Run s₀ as ⟨b₁, 11, [], [], vs⟩ :=
      StepSystem.run_of_execAll (by decide +kernel) (by decide +kernel)
    have hinit : Init vs s₀ := ⟨Buffer.new_wf 3, Buffer.content_new 3, rfl, rfl, rfl⟩
    have hreach := hrun.reachable (.init hinit)
    exact ⟨_, hreach, (integer_codec_round_trip.2.1 .little vs _ hreach).2.2.2 rfl rfl⟩
  · obtain ⟨b₁, b₂, hb₁, _, hb₂, _, hcontent⟩ := integer_codec_round_trip.2.2 .big (Buffer.new 3)
      ⟨.int64, -5⟩ (Buffer.new_wf 3) (by decide)
    exact ⟨b₁, b₂, hb₁, hb₂, hcontent.trans (Buffer.content_new 3)⟩

end IntStream

end Net
end Muduo
