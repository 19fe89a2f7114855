import Muduo.Base.LogStreamSafety
import Muduo.Foundation.Numeral

/-!
# LogStreamNumbers — `convert` and `converHex` write canonical numerals

`convert` divides towards zero, so the remainders of a negative value are negative and index
`digits` on the other side of its `0`.  `zero_tmod` says that both sides agree, and
`convertLoop_eq` that the loop therefore writes the digits of `|value|`.  Nothing is negated on
the way, and `machineLoop_eq` shows that the loop computes the same in the arithmetic of every
integer type, the smallest value included.
-/

namespace Muduo

open Numeral Window

/-! ## Reading numerals -/

/-- The digit that a decimal character stands for. -/
def decimalDigit? (c : UInt8) : Option Nat :=
  if 48 ≤ c ∧ c ≤ 57 then some (c.toNat - 48) else none

/-- The digit that a hexadecimal character stands for, in upper case. -/
def hexDigit? (c : UInt8) : Option Nat :=
  if 48 ≤ c ∧ c ≤ 57 then some (c.toNat - 48)
  else if 65 ≤ c ∧ c ≤ 70 then some (c.toNat - 55)
  else none

/-- Read a decimal numeral with an optional `-`. -/
def parseInt : List UInt8 → Option Int
  | 45 :: text => (parse 10 decimalDigit? text).map fun n : Nat => -(n : Int)
  | text => (parse 10 decimalDigit? text).map fun n : Nat => (n : Int)

/-- The canonical decimal numeral of an integer. -/
structure CanonicalDecimal (text : List UInt8) (value : Int) : Prop where
  parses : parseInt text = some value
  sign : text.head? = some 45 ↔ value < 0
  leadingZero : ∀ rest, text = 48 :: rest ∨ text = 45 :: 48 :: rest → value = 0 ∧ text = [48]

/-! ## The loops -/

namespace detail

/-- The index into `digits` stays inside the table. -/
theorem zero_index (i : Int) :
    0 ≤ 9 + i.tmod 10 ∧ (9 + i.tmod 10).toNat < digits.length := by
  have hlen : digits.length = 19 := by decide
  have hlow := Int.lt_tmod_of_pos i (show (0 : Int) < 10 by decide)
  have hhigh := Int.tmod_lt_of_pos i (show (0 : Int) < 10 by decide)
  omega

theorem hex_index (i : Nat) : i % 16 < digitsHex.length := by
  have hlen : digitsHex.length = 16 := by decide
  omega

def decimalChar (d : Nat) : UInt8 :=
  UInt8.ofNat (48 + d)

/-- A digit has the same character on both sides of the `0`. -/
theorem zero_mirrored : ∀ d : Nat, d < 10 →
    zero d = decimalChar d ∧ zero (-(d : Int)) = decimalChar d := by
  decide

theorem zero_tmod (i : Int) : zero (i.tmod 10) = decimalChar (i.natAbs % 10) := by
  have hlt : i.natAbs % 10 < 10 := Nat.mod_lt _ (by decide)
  have habs : (i.tmod 10).natAbs = i.natAbs % 10 := Int.natAbs_tmod i 10
  rcases Int.natAbs_eq (i.tmod 10) with hpos | hneg
  · rw [hpos, habs]
    exact (zero_mirrored _ hlt).1
  · rw [hneg, habs]
    exact (zero_mirrored _ hlt).2

theorem convertLoop_eq {fuel : Nat} :
    ∀ {i : Int}, i.natAbs ≤ fuel →
      convertLoop fuel i = (Numeral.digits 10 i.natAbs).map decimalChar := by
  induction fuel with
  | zero =>
      intro i hi
      have hzero : i = 0 := Int.natAbs_eq_zero.mp (Nat.le_zero.mp hi)
      subst hzero
      rfl
  | succ fuel ih =>
      intro i hi
      have habs : (i.tdiv 10).natAbs = i.natAbs / 10 := Int.natAbs_tdiv i 10
      have hrest := ih (i := i.tdiv 10) (by omega)
      rw [digits_rec (by decide), List.map_cons, convertLoop]
      simp only [zero_tmod, ne_eq, ← Int.natAbs_eq_zero, habs]
      split
      · rw [hrest, habs]
      · rfl

def hexChar (d : Nat) : UInt8 :=
  digitsHex.getD d 0

theorem converHexLoop_eq {fuel : Nat} :
    ∀ {i : Nat}, i ≤ fuel → converHexLoop fuel i = (Numeral.digits 16 i).map hexChar := by
  induction fuel with
  | zero =>
      intro i hi
      have hzero : i = 0 := Nat.le_zero.mp hi
      subst hzero
      rfl
  | succ fuel ih =>
      intro i hi
      have hrest := ih (i := i / 16) (by omega)
      rw [digits_rec (by decide), List.map_cons, converHexLoop]
      simp only [hexChar]
      split
      · rw [hrest]
      · rfl

/-! ## The arithmetic of the integer types -/

/-- The value of a variable of an integer type. -/
def valueOf {w : Nat} (signed : Bool) (i : BitVec w) : Int :=
  if signed then i.toInt else i.toNat

/-- `i % 10` and `i /= 10` in the type of `i`. -/
def machineDivMod {w : Nat} (signed : Bool) (i : BitVec w) : BitVec w × BitVec w :=
  if signed then (i.sdiv 10, i.srem 10) else (i.udiv 10, i.umod 10)

/-- The loop of `convert`, in the type of `i`. -/
def machineLoop {w : Nat} (signed : Bool) : Nat → BitVec w → List UInt8
  | 0, i => [zero (valueOf signed (machineDivMod signed i).2)]
  | fuel + 1, i =>
      let lsd := valueOf signed (machineDivMod signed i).2
      let i := (machineDivMod signed i).1
      zero lsd :: if i ≠ 0 then machineLoop signed fuel i else []

theorem toNat_ten {w : Nat} (hw : 5 ≤ w) : (10 : BitVec w).toNat = 10 := by
  have hpow : 2 ^ 5 ≤ 2 ^ w := Nat.pow_le_pow_right (by decide) hw
  have hlt : 10 < 2 ^ w := by omega
  exact Nat.mod_eq_of_lt hlt

theorem toInt_ten {w : Nat} (hw : 5 ≤ w) : (10 : BitVec w).toInt = 10 := by
  have hpow : 2 ^ 5 ≤ 2 ^ w := Nat.pow_le_pow_right (by decide) hw
  rw [BitVec.toInt_eq_toNat_of_lt (by rw [toNat_ten hw]; omega), toNat_ten hw]
  rfl

theorem machineDivMod_value {w : Nat} (hw : 5 ≤ w) (signed : Bool) (i : BitVec w) :
    valueOf signed (machineDivMod signed i).1 = (valueOf signed i).tdiv 10 ∧
      valueOf signed (machineDivMod signed i).2 = (valueOf signed i).tmod 10 := by
  cases signed with
  | true =>
      -- The divisor is not -1, so the division of the smallest value does not overflow.
      have hten : (10 : BitVec w) ≠ -1#w := by
        intro heq
        have hint := congrArg BitVec.toInt heq
        rw [toInt_ten hw] at hint
        have hneg : (-1#w).toInt = -1 := by
          rw [BitVec.neg_one_eq_allOnes, BitVec.toInt_allOnes, if_pos (by omega)]
        omega
      constructor
      · simp only [valueOf, machineDivMod, if_true]
        rw [BitVec.toInt_sdiv_of_ne_or_ne _ _ (Or.inr hten), toInt_ten hw]
      · simp only [valueOf, machineDivMod, if_true]
        rw [BitVec.toInt_srem, toInt_ten hw]
  | false =>
      constructor
      · show ((i.toNat / (10 : BitVec w).toNat : Nat) : Int) = (i.toNat : Int).tdiv 10
        rw [toNat_ten hw]
        rfl
      · show ((i.toNat % (10 : BitVec w).toNat : Nat) : Int) = (i.toNat : Int).tmod 10
        rw [toNat_ten hw]
        rfl

theorem valueOf_eq_zero {w : Nat} (signed : Bool) (i : BitVec w) :
    valueOf signed i = 0 ↔ i = 0 := by
  cases signed with
  | true =>
      rw [← BitVec.toInt_inj, BitVec.ofNat_eq_ofNat, BitVec.toInt_zero]
      rfl
  | false =>
      rw [← BitVec.toNat_inj, BitVec.ofNat_eq_ofNat, BitVec.toNat_ofNat, Nat.zero_mod]
      exact Int.natCast_eq_zero

theorem machineLoop_eq {w : Nat} (hw : 5 ≤ w) (signed : Bool) {fuel : Nat} :
    ∀ i : BitVec w, machineLoop signed fuel i = convertLoop fuel (valueOf signed i) := by
  induction fuel with
  | zero =>
      intro i
      rw [machineLoop, convertLoop, (machineDivMod_value hw signed i).2]
  | succ fuel ih =>
      intro i
      rcases machineDivMod_value hw signed i with ⟨hdiv, hmod⟩
      rw [machineLoop, convertLoop]
      simp only [hmod, ih, hdiv, ne_eq, ← valueOf_eq_zero signed (machineDivMod signed i).1]

end detail

/-! ## The texts -/

theorem decimalDigit?_char : ∀ d < 10, decimalDigit? (detail.decimalChar d) = some d := by
  decide

theorem hexDigit?_char : ∀ d < 16, hexDigit? (detail.hexChar d) = some d := by
  decide

theorem decimal_eq (value : Int) :
    decimal value = (if value < 0 then [45] else []) ++
      (digits 10 value.natAbs).reverse.map detail.decimalChar := by
  rw [decimal, detail.convertRaw, detail.convertLoop_eq (Nat.le_refl _), List.reverse_append,
    ← List.map_reverse]
  split <;> rfl

theorem decimal_nat (n : Nat) :
    decimal n = (digits 10 n).reverse.map detail.decimalChar := by
  have hsign : ¬ (n : Int) < 0 := by omega
  rw [decimal_eq, if_neg hsign, List.nil_append, Int.natAbs_natCast]

theorem hexadecimal_eq (value : Nat) :
    hexadecimal value = (digits 16 value).reverse.map detail.hexChar := by
  rw [hexadecimal, detail.converHexLoop_eq (Nat.le_refl _), ← List.map_reverse]

theorem parseInt_of_unsigned {text : List UInt8} (h : ∀ rest, text ≠ 45 :: rest) :
    parseInt text = (parse 10 decimalDigit? text).map fun n : Nat => (n : Int) := by
  unfold parseInt
  split
  case h_1 rest => exact absurd rfl (h rest)
  case h_2 => rfl

theorem decimal_canonical (value : Int) : CanonicalDecimal (decimal value) value := by
  have hcanonical := canonical_map (by decide) decimalDigit?_char value.natAbs
  rw [decimal_eq]
  generalize (digits 10 value.natAbs).reverse.map detail.decimalChar = text at hcanonical
  -- No digit is read as a sign.
  have hfirst : ∀ rest, text ≠ 45 :: rest := by
    rintro rest rfl
    exact absurd hcanonical.parses (by simp [parse, decimalDigit?])
  have hzero : decimalDigit? 48 = some 0 := by decide
  by_cases hneg : value < 0
  · have habs : -(value.natAbs : Int) = value := by omega
    rw [if_pos hneg, List.singleton_append]
    constructor
    · rw [parseInt, hcanonical.parses, Option.map_some, habs]
    · exact iff_of_true rfl hneg
    · rintro rest (heq | heq)
      · exact absurd (List.cons.inj heq).1 (by decide)
      · have hnone := (hcanonical.leadingZero 48 rest (List.cons.inj heq).2 hzero).1
        omega
  · have habs : (value.natAbs : Int) = value := by omega
    rw [if_neg hneg, List.nil_append]
    constructor
    · rw [parseInt_of_unsigned hfirst, hcanonical.parses, Option.map_some, habs]
    · refine iff_of_false ?_ hneg
      intro hhead
      obtain ⟨rest, hrest⟩ := List.head?_eq_some_iff.mp hhead
      exact hfirst rest hrest
    · rintro rest (heq | heq)
      · obtain ⟨hnone, hrest⟩ := hcanonical.leadingZero 48 rest heq hzero
        exact ⟨Int.natAbs_eq_zero.mp hnone, by rw [heq, hrest]⟩
      · exact absurd heq (hfirst _)

theorem hexadecimal_canonical (value : Nat) :
    Canonical 16 hexDigit? (hexadecimal value) value := by
  rw [hexadecimal_eq]
  exact canonical_map (by decide) hexDigit?_char value

theorem length_decimal_le {value : Int} (h : value.natAbs < 2 ^ 64) :
    (decimal value).length ≤ 21 := by
  have hdigits : (digits 10 value.natAbs).length ≤ 20 :=
    length_digits_le (by decide) (by decide) (Nat.lt_trans h (by decide))
  rw [decimal_eq, List.length_append, List.length_map, List.length_reverse]
  split
  · rw [List.length_singleton]
    omega
  · rw [List.length_nil]
    omega

theorem length_hexadecimal_le (p : BitVec 64) : (hexadecimal p.toNat).length ≤ 16 := by
  rw [hexadecimal, List.length_reverse]
  exact LogStream.length_converHexLoop (k := 15) p.isLt

/-- Every integer that is inserted has at most 64 bits. -/
theorem Insertion.natAbs_lt {ins : Insertion} {value : Int} (h : ins.integer? = some value) :
    value.natAbs < 2 ^ 64 := by
  have hsigned : ∀ {w : Nat} (v : BitVec w), w ≤ 64 → v.toInt.natAbs < 2 ^ 64 := by
    intro w v hw
    have hpow : 2 ^ w ≤ 2 ^ 64 := Nat.pow_le_pow_right (by decide) hw
    have hlow := BitVec.le_two_mul_toInt (x := v)
    have hhigh := BitVec.two_mul_toInt_lt (x := v)
    have hcast : ((2 ^ w : Nat) : Int) = 2 ^ w := by norm_cast
    omega
  have hunsigned : ∀ {w : Nat} (v : BitVec w), w ≤ 64 → (v.toNat : Int).natAbs < 2 ^ 64 := by
    intro w v hw
    exact Nat.lt_of_lt_of_le v.isLt (Nat.pow_le_pow_right (by decide) hw)
  cases ins with
  | short v | int v | long v | longLong v =>
      cases h
      exact hsigned v (by decide)
  | unsignedShort v | unsignedInt v | unsignedLong v | unsignedLongLong v =>
      cases h
      exact hunsigned v (by decide)
  | bool v | pointer p | char v | cString str | unsignedCString str | string v | buffer v =>
      cases h

/-! ## What the functions write -/

/-- `f` writes `text` and a NUL from `pos` on, if there is room, and returns the length of the
text. -/
def Writes (f : FixedBuffer → Nat → Except Fault (FixedBuffer × Nat)) (text : List UInt8) : Prop :=
  ∀ b pos, pos + text.length < b.data.length →
    ∃ b', f b pos = .ok (b', text.length) ∧ b'.cur = b.cur ∧
      window b'.data pos (pos + text.length) = text ∧ b'.data[pos + text.length]? = some 0

/-- The NUL behind the characters survives their reversal. -/
theorem writes_reverse (raw : List UInt8) :
    Writes (fun b pos => do
      let b ← b.store pos (raw ++ [0])
      let b ← b.store pos raw.reverse
      pure (b, raw.length)) raw.reverse := by
  intro b pos hroom
  rw [List.length_reverse] at hroom
  have hfirst : pos + (raw ++ [0]).length ≤ b.data.length := by
    simp only [List.length_append, List.length_singleton]
    omega
  have hlen := length_overwrite hfirst
  have hsecond : pos + raw.reverse.length ≤ (overwrite b.data pos (raw ++ [0])).length := by
    rw [hlen, List.length_reverse]
    omega
  refine ⟨{ b with data := overwrite (overwrite b.data pos (raw ++ [0])) pos raw.reverse },
    ?_, rfl, window_overwrite_same hsecond, ?_⟩
  · dsimp only
    rw [FixedBuffer.store_ok hfirst, ok_bind, FixedBuffer.store_ok hsecond, ok_bind,
      List.length_reverse]
    rfl
  · rw [getElem?_overwrite_behind hsecond (Nat.le_refl _), List.length_reverse]
    exact getElem?_overwrite_last (by omega)

theorem convert_writes (value : Int) :
    Writes (fun b pos => detail.convert b pos value) (decimal value) :=
  writes_reverse (detail.convertRaw value)

theorem converHex_writes (p : BitVec 64) :
    Writes (fun b pos => detail.converHex b pos p) (hexadecimal p.toNat) :=
  writes_reverse (detail.converHexLoop p.toNat p.toNat)

/-- Every integer that is inserted goes through `convert`, which writes the canonical decimal
numeral of its value, as every address goes through `converHex` and becomes the canonical
hexadecimal numeral in upper case.  The returned length is that of the text; text, NUL and
`0x` fit into `kMaxNumericSize` bytes; the indices stay inside the tables; and the loop computes
the same in the arithmetic of each integer type. -/
theorem numerals_exact :
    (∀ ins value, ins.integer? = some value →
      (∀ s : LogStream, s.insert ins = s.formatInteger value) ∧
        CanonicalDecimal (decimal value) value ∧
        Writes (fun b pos => detail.convert b pos value) (decimal value) ∧
        ((decimal value).length + 1 : Int) ≤ LogStream.kMaxNumericSize) ∧
      (∀ p : BitVec 64,
        Canonical 16 hexDigit? (hexadecimal p.toNat) p.toNat ∧
          Writes (fun b pos => detail.converHex b pos p) (hexadecimal p.toNat) ∧
          ((ascii "0x").length + (hexadecimal p.toNat).length + 1 : Int) ≤
            LogStream.kMaxNumericSize) ∧
      (∀ i : Int, 0 ≤ 9 + i.tmod 10 ∧ (9 + i.tmod 10).toNat < detail.digits.length) ∧
      (∀ i : Nat, i % 16 < detail.digitsHex.length) ∧
      ∀ (w : Nat) (signed : Bool) (fuel : Nat) (v : BitVec w), 5 ≤ w →
        detail.machineLoop signed fuel v =
          detail.convertLoop fuel (detail.valueOf signed v) := by
  refine ⟨?_, ?_, detail.zero_index, detail.hex_index, ?_⟩
  · intro ins value hins
    have hlen := length_decimal_le (Insertion.natAbs_lt hins)
    refine ⟨fun s => LogStream.insert_integer hins, decimal_canonical value,
      convert_writes value, ?_⟩
    rw [LogStream.kMaxNumericSize]
    omega
  · intro p
    have hlen := length_hexadecimal_le p
    have hx : (ascii "0x").length = 2 := rfl
    refine ⟨hexadecimal_canonical p.toNat, converHex_writes p, ?_⟩
    rw [LogStream.kMaxNumericSize, hx]
    omega
  · intro w signed fuel v hw
    exact detail.machineLoop_eq hw signed v

example : decimal (-9223372036854775808) = ascii "-9223372036854775808" := by
  rw [decimal_eq]
  decide +kernel

end Muduo
