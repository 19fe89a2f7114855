import Mathlib.Algebra.Order.Ring.Int
import Muduo.Base.Fault
import Muduo.Foundation.Window

/-!
# LogStream — formatting into a fixed buffer

`FixedBuffer` and the insertion operators of `muduo/base/LogStream.h` and `LogStream.cc`.  A
pointer into `data_` is an index, and a write that leaves `data_` is a fault.  `avail()` is an
`int` that `append` casts to `size_t`, so a negative one would become a large number.

The characters of a number are written where they will stay, from the last digit to the first,
and then reversed.
-/

namespace Muduo

open Window

def kSmallBuffer : Nat := 4000

/-- `FixedBuffer<SIZE>`; `SIZE` is the length of `data_` and `cur` is `cur_ - data_`. -/
structure FixedBuffer where
  data : List UInt8
  cur : Nat
  deriving DecidableEq, Repr

namespace FixedBuffer

def new (size : Nat) : FixedBuffer where
  data := List.replicate size 0
  cur := 0

def length (b : FixedBuffer) : Int :=
  b.cur

/-- `end() - cur_`. -/
def avail (b : FixedBuffer) : Int :=
  b.data.length - b.cur

/-- Write `bytes` from `data_ + pos` on. -/
def store (b : FixedBuffer) (pos : Nat) (bytes : List UInt8) : Except Fault FixedBuffer :=
  if pos + bytes.length ≤ b.data.length then
    .ok { b with data := overwrite b.data pos bytes }
  else
    .error .outOfBounds

def current (b : FixedBuffer) : Nat :=
  b.cur

def add (b : FixedBuffer) (len : Nat) : FixedBuffer :=
  { b with cur := b.cur + len }

/-- `append(buf, len)`; the text is dropped unless there is more room than it needs. -/
def append (b : FixedBuffer) (buf : List UInt8) : Except Fault FixedBuffer :=
  if (buf.length : Int) < b.avail % 2 ^ 64 then do
    let b ← b.store b.cur buf
    pure (b.add buf.length)
  else
    pure b

def reset (b : FixedBuffer) : FixedBuffer :=
  { b with cur := 0 }

def toString (b : FixedBuffer) : List UInt8 :=
  window b.data 0 b.cur

end FixedBuffer

/-! ## Conversion of numbers -/

/-- The bytes of a literal. -/
def ascii (s : String) : List UInt8 :=
  s.toList.map fun c => UInt8.ofNat c.toNat

namespace detail

def digits : List UInt8 :=
  ascii "9876543210123456789"

/-- `zero[lsd]`, where `zero` points to the `0` in the middle of `digits`. -/
def zero (lsd : Int) : UInt8 :=
  digits.getD (9 + lsd).toNat 0

def digitsHex : List UInt8 :=
  ascii "0123456789ABCDEF"

/-- The digits that the loop of `convert` writes, the last one first.  Division and remainder
round towards zero; `i` gets smaller in every iteration, so `|i|` is enough fuel. -/
def convertLoop : Nat → Int → List UInt8
  | 0, i => [zero (i.tmod 10)]
  | fuel + 1, i =>
      let lsd := i.tmod 10
      let i := i.tdiv 10
      zero lsd :: if i ≠ 0 then convertLoop fuel i else []

/-- The characters that `convert` writes before it reverses them. -/
def convertRaw (value : Int) : List UInt8 :=
  convertLoop value.natAbs value ++ if value < 0 then ascii "-" else []

/-- `convert(buf, value)` with `buf = data_ + pos`: the characters and a NUL are written in this
order, then the characters are reversed; the number of characters is returned. -/
def convert (b : FixedBuffer) (pos : Nat) (value : Int) : Except Fault (FixedBuffer × Nat) := do
  let raw := convertRaw value
  let b ← b.store pos (raw ++ [0])
  let b ← b.store pos raw.reverse
  pure (b, raw.length)

def converHexLoop : Nat → Nat → List UInt8
  | 0, i => [digitsHex.getD (i % 16) 0]
  | fuel + 1, i =>
      let lsd := i % 16
      let i := i / 16
      digitsHex.getD lsd 0 :: if i ≠ 0 then converHexLoop fuel i else []

def converHex (b : FixedBuffer) (pos : Nat) (value : BitVec 64) :
    Except Fault (FixedBuffer × Nat) := do
  let raw := converHexLoop value.toNat value.toNat
  let b ← b.store pos (raw ++ [0])
  let b ← b.store pos raw.reverse
  pure (b, raw.length)

end detail

/-! ## Insertion -/

structure LogStream where
  buffer : FixedBuffer
  deriving DecidableEq, Repr

/-- The arguments of `operator<<`, but for floating-point numbers. -/
inductive Insertion
  | bool (v : Bool)
  | short (v : BitVec 16)
  | unsignedShort (v : BitVec 16)
  | int (v : BitVec 32)
  | unsignedInt (v : BitVec 32)
  | long (v : BitVec 64)
  | unsignedLong (v : BitVec 64)
  | longLong (v : BitVec 64)
  | unsignedLongLong (v : BitVec 64)
  | pointer (p : BitVec 64)
  | char (v : UInt8)
  | cString (str : Option (List UInt8))
  | unsignedCString (str : Option (List UInt8))
  | string (v : List UInt8)
  | buffer (v : FixedBuffer)
  deriving DecidableEq, Repr

namespace LogStream

def kMaxNumericSize : Int := 48

def new : LogStream where
  buffer := FixedBuffer.new kSmallBuffer

def append (s : LogStream) (buf : List UInt8) : Except Fault LogStream := do
  let buffer ← s.buffer.append buf
  pure { s with buffer := buffer }

def resetBuffer (s : LogStream) : LogStream :=
  { s with buffer := s.buffer.reset }

def formatInteger (s : LogStream) (v : Int) : Except Fault LogStream := do
  let (buffer, len) ← detail.convert s.buffer s.buffer.current v
  pure { s with buffer := buffer.add len }

def insertPointer (s : LogStream) (v : BitVec 64) : Except Fault LogStream :=
  if kMaxNumericSize ≤ s.buffer.avail then do
    let buf := s.buffer.current
    let buffer ← s.buffer.store buf (ascii "0x")
    let (buffer, len) ← detail.converHex buffer (buf + 2) v
    pure { s with buffer := buffer.add (len + 2) }
  else
    pure s

/-- The bytes of a C string up to its NUL. -/
def strBytes (str : List UInt8) : List UInt8 :=
  str.takeWhile (· ≠ 0)

def insertCString (s : LogStream) : Option (List UInt8) → Except Fault LogStream
  | some str => s.append (strBytes str)
  | none => s.append (ascii "(null)")

/-- `operator<<`. -/
def insert (s : LogStream) : Insertion → Except Fault LogStream
  | .bool v => s.append (if v then ascii "1" else ascii "0")
  -- The two short types are converted to `int` and `unsigned int` first.
  | .short v => s.formatInteger (v.signExtend 32).toInt
  | .unsignedShort v => s.formatInteger (v.setWidth 32).toNat
  | .int v => s.formatInteger v.toInt
  | .unsignedInt v => s.formatInteger v.toNat
  | .long v => s.formatInteger v.toInt
  | .unsignedLong v => s.formatInteger v.toNat
  | .longLong v => s.formatInteger v.toInt
  | .unsignedLongLong v => s.formatInteger v.toNat
  | .pointer p => s.insertPointer p
  | .char v => s.append [v]
  | .cString str => s.insertCString str
  | .unsignedCString str => s.insertCString str
  | .string v => s.append v
  | .buffer v => s.append v.toString

end LogStream

end Muduo
