import Mathlib.Data.List.Basic

/-!
# DottedDecimal — numbers up to 255, separated by dots

`text` prints a list of bytes in decimal with dots between them, and `parse n` reads such a text
from left to right, for exactly `n` bytes: no leading zero, nothing above 255, no sign and no
blank.  `parse_eq_some_iff` says that it reads exactly what `text` prints.
-/

namespace DottedDecimal

open Nat (toDigits digitChar)

def text : List UInt8 → List Char
  | [] => []
  | [b] => toDigits 10 b.toNat
  | b :: bs => toDigits 10 b.toNat ++ '.' :: text bs

def digit (c : Char) : Nat :=
  c.toNat - '0'.toNat

structure Scan where
  /-- The bytes whose dot has been read. -/
  done : List UInt8
  /-- The value of the digits since the last dot. -/
  cur : Option UInt8
  deriving DecidableEq, Repr

def step (n : Nat) (st : Scan) (c : Char) : Option Scan :=
  if c.isDigit then
    match st.cur with
    | none => if st.done.length < n then some ⟨st.done, some (UInt8.ofNat (digit c))⟩ else none
    | some b =>
        if b = 0 ∨ 255 < 10 * b.toNat + digit c then none
        else some ⟨st.done, some (UInt8.ofNat (10 * b.toNat + digit c))⟩
  else if c = '.' then
    match st.cur with
    | some b => if st.done.length + 1 = n then none else some ⟨st.done ++ [b], none⟩
    | none => none
  else none

def finish (n : Nat) (st : Scan) : Option (List UInt8) :=
  match st.cur with
  | some b => if st.done.length + 1 = n then some (st.done ++ [b]) else none
  | none => none

def parse (n : Nat) (src : List Char) : Option (List UInt8) :=
  (src.foldlM (step n) ⟨[], none⟩).bind (finish n)

variable {n : Nat} {done bs : List UInt8} {st st' : Scan} {cs : List Char}

/-! ## Digits -/

theorem digit_lt {c : Char} (h : c.isDigit = true) : digit c < 10 := by
  have hrange := Char.isDigit_iff_toNat.mp h
  simp only [digit] at *
  have hnine : '9'.toNat = 57 := rfl
  have hzero : '0'.toNat = 48 := rfl
  omega

theorem digitChar_digit {c : Char} (h : c.isDigit = true) : digitChar (digit c) = c := by
  have hrange := Char.isDigit_iff_toNat.mp h
  have hzero : '0'.toNat = 48 := rfl
  have hchar := Nat.toNat_digitChar_of_lt_ten (digit_lt h)
  refine Char.toNat_inj.mp ?_
  rw [hchar, digit]
  omega

theorem toNat_digit {v : Nat} (h : v ≤ 255) : (UInt8.ofNat v).toNat = v := by
  rw [UInt8.toNat_ofNat']
  omega

/-! ## What is read was printed -/

/-- The characters that have led to a state. -/
def Scan.consumed (st : Scan) : List Char :=
  st.done.flatMap (fun b => toDigits 10 b.toNat ++ ['.']) ++
    st.cur.elim [] (fun b => toDigits 10 b.toNat)

theorem text_append_singleton (done : List UInt8) (b : UInt8) :
    text (done ++ [b]) = Scan.consumed ⟨done, some b⟩ := by
  induction done with
  | nil => rfl
  | cons a done ih =>
      cases hrest : done ++ [b] with
      | nil => simp at hrest
      | cons x xs =>
          rw [List.cons_append, hrest, text, ← hrest, ih]
          · simp [Scan.consumed]
          · simp

theorem consumed_first {c : Char} (h : c.isDigit = true) (done : List UInt8) :
    Scan.consumed ⟨done, some (UInt8.ofNat (digit c))⟩ = Scan.consumed ⟨done, none⟩ ++ [c] := by
  have hlt := digit_lt h
  have hdigits : toDigits 10 (digit c) = [c] := by
    rw [Nat.toDigits_of_lt_base hlt, digitChar_digit h]
  simp only [Scan.consumed, Option.elim]
  rw [toNat_digit (by omega), hdigits, List.append_nil]

theorem consumed_next {c : Char} (h : c.isDigit = true) (done : List UInt8) {b : UInt8}
    (hb : b ≠ 0) (hle : 10 * b.toNat + digit c ≤ 255) :
    Scan.consumed ⟨done, some (UInt8.ofNat (10 * b.toNat + digit c))⟩ =
      Scan.consumed ⟨done, some b⟩ ++ [c] := by
  have hlt := digit_lt h
  have hpos : 0 < b.toNat := by
    rw [Nat.pos_iff_ne_zero]
    intro hzero
    exact hb (UInt8.toNat_inj.mp hzero)
  have hdigits := Nat.toDigits_append_toDigits (b := 10) (by decide) hpos hlt
  rw [Nat.toDigits_of_lt_base hlt, digitChar_digit h] at hdigits
  simp only [Scan.consumed, Option.elim]
  rw [toNat_digit hle, ← hdigits, List.append_assoc]

theorem step_consumed {c : Char} (h : step n st c = some st') :
    st'.consumed = st.consumed ++ [c] := by
  rcases st with ⟨done, cur⟩
  rw [step] at h
  split at h
  case isTrue hdigit =>
    cases cur with
    | none =>
        rcases Option.ite_none_right_eq_some.mp h with ⟨_, heq⟩
        cases heq
        exact consumed_first hdigit done
    | some b =>
        rcases Option.ite_none_left_eq_some.mp h with ⟨hno, heq⟩
        rcases not_or.mp hno with ⟨hb, hle⟩
        cases heq
        exact consumed_next hdigit done hb (by omega)
  case isFalse _ =>
    rcases Option.ite_none_right_eq_some.mp h with ⟨hdot, heq⟩
    subst hdot
    cases cur with
    | none => cases heq
    | some b =>
        rcases Option.ite_none_left_eq_some.mp heq with ⟨_, heq'⟩
        cases heq'
        simp [Scan.consumed]

theorem foldlM_consumed (h : cs.foldlM (step n) st = some st') :
    st'.consumed = st.consumed ++ cs := by
  induction cs generalizing st with
  | nil =>
      cases h
      simp
  | cons c cs ih =>
      rw [List.foldlM_cons] at h
      rcases Option.bind_eq_some_iff.mp h with ⟨mid, hstep, hrest⟩
      rw [ih hrest, step_consumed hstep, List.append_assoc, List.singleton_append]

theorem finish_consumed (h : finish n st = some bs) : bs.length = n ∧ text bs = st.consumed := by
  rcases st with ⟨done, cur⟩
  cases cur with
  | none => cases h
  | some b =>
      rcases Option.ite_none_right_eq_some.mp h with ⟨hn, heq⟩
      cases heq
      exact ⟨by simpa using hn, text_append_singleton done b⟩

/-! ## What is printed is read -/

theorem step_digit {d : Nat} (hd : d < 10) (st : Scan) :
    step n st (digitChar d) =
      match st.cur with
      | none => if st.done.length < n then some ⟨st.done, some (UInt8.ofNat d)⟩ else none
      | some b =>
          if b = 0 ∨ 255 < 10 * b.toNat + d then none
          else some ⟨st.done, some (UInt8.ofNat (10 * b.toNat + d))⟩ := by
  have hchar : (digitChar d).isDigit = true := by simpa using hd
  have hvalue : digit (digitChar d) = d := Nat.toNat_digitChar_sub_48_of_lt_ten hd
  rw [step, if_pos hchar, hvalue]

/-- The digits of a number are read to its value. -/
theorem foldlM_toDigits (hroom : done.length < n) {v : Nat} (hv : v ≤ 255) :
    (toDigits 10 v).foldlM (step n) ⟨done, none⟩ = some ⟨done, some (UInt8.ofNat v)⟩ := by
  induction v using Nat.strongRecOn with
  | ind v ih =>
      by_cases hlt : v < 10
      · rw [Nat.toDigits_of_lt_base hlt, List.foldlM_cons, step_digit hlt]
        simp [hroom]
      · have hbyte : (UInt8.ofNat (v / 10)).toNat = v / 10 := toNat_digit (by omega)
        have hne : UInt8.ofNat (v / 10) ≠ 0 := by
          intro hzero
          rw [hzero, UInt8.toNat_zero] at hbyte
          omega
        have hsum : 10 * (v / 10) + v % 10 = v := by omega
        have hlast : step n ⟨done, some (UInt8.ofNat (v / 10))⟩ (digitChar (v % 10)) =
            some ⟨done, some (UInt8.ofNat v)⟩ := by
          rw [step_digit (by omega)]
          simp only
          rw [hbyte, hsum, if_neg (not_or.mpr ⟨hne, by omega⟩)]
        rw [Nat.toDigits_of_base_le (by decide) (by omega), List.foldlM_append,
          ih (v / 10) (by omega) (by omega)]
        simp [hlast]

theorem foldlM_text (hne : bs ≠ []) (hlength : done.length + bs.length = n) :
    ((text bs).foldlM (step n) ⟨done, none⟩).bind (finish n) = some (done ++ bs) := by
  induction bs generalizing done with
  | nil => exact absurd rfl hne
  | cons b bs ih =>
      have hb : b.toNat ≤ 255 := by
        have hlt := b.toNat_lt
        omega
      have hbyte : UInt8.ofNat b.toNat = b := UInt8.ofNat_toNat
      rw [List.length_cons] at hlength
      have hread : (toDigits 10 b.toNat).foldlM (step n) ⟨done, none⟩ =
          some ⟨done, some (UInt8.ofNat b.toNat)⟩ := foldlM_toDigits (by omega) hb
      cases bs with
      | nil =>
          have hn : done.length + 1 = n := hlength
          rw [text, hread, hbyte]
          simp [finish, hn]
      | cons x xs =>
          have hn : ¬ done.length + 1 = n := by
            simp only [List.length_cons] at hlength
            omega
          have hdot : step n ⟨done, some b⟩ '.' = some ⟨done ++ [b], none⟩ := by
            simp [step, hn]
          have hroom : (done ++ [b]).length + (x :: xs).length = n := by
            simp only [List.length_append, List.length_cons, List.length_nil] at hlength ⊢
            omega
          have hrest := ih (by simp) hroom
          rw [text, List.foldlM_append, hread, hbyte, Option.bind_eq_bind, Option.bind_some,
            List.foldlM_cons, hdot, Option.bind_eq_bind, Option.bind_some, hrest]
          · simp
          · simp

theorem parse_eq_some_iff (hn : 0 < n) {src : List Char} :
    parse n src = some bs ↔ bs.length = n ∧ text bs = src := by
  constructor
  · intro h
    rcases Option.bind_eq_some_iff.mp h with ⟨st, hscan, hfinish⟩
    rcases finish_consumed hfinish with ⟨hlength, htext⟩
    refine ⟨hlength, ?_⟩
    rw [htext, foldlM_consumed hscan]
    rfl
  · rintro ⟨hlength, rfl⟩
    have hne : bs ≠ [] := List.ne_nil_of_length_pos (by omega)
    exact foldlM_text hne (by simpa using hlength)

theorem mem_text {c : Char} (h : c ∈ text bs) : c.isDigit = true ∨ c = '.' := by
  induction bs with
  | nil => cases h
  | cons b bs ih =>
      have hdigit : ∀ {x}, x ∈ toDigits 10 b.toNat → x.isDigit = true :=
        fun hx => Nat.isDigit_of_mem_toDigits (by decide) (by decide) hx
      cases bs with
      | nil => exact Or.inl (hdigit h)
      | cons x xs =>
          rw [text] at h
          · rcases List.mem_append.mp h with h | h
            · exact Or.inl (hdigit h)
            · rcases List.mem_cons.mp h with h | h
              · exact Or.inr h
              · exact ih h
          · simp

/-- Lists of one length with one text are equal. -/
theorem text_injective {bs' : List UInt8} (hpos : 0 < bs.length) (hlength : bs'.length = bs.length)
    (h : text bs' = text bs) : bs' = bs := by
  have hread := (parse_eq_some_iff hpos).mpr ⟨rfl, rfl⟩
  have hread' := (parse_eq_some_iff hpos).mpr ⟨hlength, h⟩
  rw [hread] at hread'
  exact (Option.some.inj hread').symm

end DottedDecimal
