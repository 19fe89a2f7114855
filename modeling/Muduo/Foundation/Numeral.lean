import Mathlib.Data.Nat.Digits.Lemmas

/-!
# Numeral — canonical numerals in a base

`digits b n` lists the digits of `n`, the last one first, as a loop of divisions finds them; it
differs from `Nat.digits` in the digit that zero has.  A text is read first digit first by
`parse`, for any alphabet whose characters stand for digits, and `Canonical` texts have no
leading zero.  `canonical_map` is the rule for a printer: writing the digits in reverse, with a
character for each, gives the canonical numeral.
-/

universe u

namespace Numeral

variable {b n : Nat}

/-! ## Digits -/

def digits (b n : Nat) : List Nat :=
  if n = 0 then [0] else Nat.digits b n

theorem digits_rec (hb : 1 < b) (n : Nat) :
    digits b n = n % b :: if n / b ≠ 0 then digits b (n / b) else [] := by
  by_cases hn : n = 0
  · subst hn
    simp [digits]
  · rw [digits, if_neg hn, Nat.digits_def' hb (Nat.pos_of_ne_zero hn)]
    by_cases hrest : n / b = 0
    · simp [hrest]
    · rw [if_pos hrest, digits, if_neg hrest]

theorem digits_lt (hb : 1 < b) : ∀ d ∈ digits b n, d < b := by
  intro d hd
  rw [digits] at hd
  split at hd
  · rw [List.mem_singleton.mp hd]
    exact Nat.lt_trans Nat.zero_lt_one hb
  · exact Nat.digits_lt_base hb hd

theorem ofDigits_digits (b n : Nat) : Nat.ofDigits b (digits b n) = n := by
  rw [digits]
  split
  case isTrue hn => simp [hn]
  case isFalse => exact Nat.ofDigits_digits b n

theorem digits_ne_nil (b n : Nat) : digits b n ≠ [] := by
  rw [digits]
  split
  case isTrue => exact List.cons_ne_nil _ _
  case isFalse hn => exact Nat.digits_ne_nil_iff_ne_zero.mpr hn

/-- The first digit is zero for zero alone. -/
theorem getLast_digits (h : (digits b n).getLast (digits_ne_nil b n) = 0) :
    n = 0 ∧ digits b n = [0] := by
  by_cases hn : n = 0
  · exact ⟨hn, by rw [digits, if_pos hn]⟩
  · have heq : digits b n = Nat.digits b n := by rw [digits, if_neg hn]
    simp only [heq] at h
    exact absurd h (Nat.getLast_digit_ne_zero b hn)

theorem length_digits_le {k : Nat} (hb : 1 < b) (hk : 0 < k) (h : n < b ^ k) :
    (digits b n).length ≤ k := by
  rw [digits]
  split
  case isTrue => exact hk
  case isFalse => exact (Nat.digits_length_le_iff hb n).mpr h

/-! ## Texts -/

variable {α : Type u} {value? : α → Option Nat}

/-- Read a numeral; `value?` says which digit a character stands for. -/
def parse (b : Nat) (value? : α → Option Nat) : List α → Option Nat
  | [] => none
  | text => text.foldlM (fun n c => (value? c).map (b * n + ·)) 0

structure Canonical (b : Nat) (value? : α → Option Nat) (text : List α) (n : Nat) : Prop where
  parses : parse b value? text = some n
  leadingZero : ∀ c rest, text = c :: rest → value? c = some 0 → n = 0 ∧ rest = []

theorem foldlM_digits {char : Nat → α} (hchar : ∀ d < b, value? (char d) = some d) :
    ∀ ds : List Nat, (∀ d ∈ ds, d < b) →
      (ds.reverse.map char).foldlM (fun n c => (value? c).map (b * n + ·)) 0 =
        some (Nat.ofDigits b ds) := by
  intro ds
  induction ds with
  | nil =>
      intro _
      rfl
  | cons d ds ih =>
      intro hds
      have hrest := ih fun d' hd' => hds d' (List.mem_cons_of_mem _ hd')
      have hd := hchar d (hds d List.mem_cons_self)
      rw [List.reverse_cons, List.map_append, List.foldlM_append, hrest]
      simp [hd, Nat.ofDigits_cons, Nat.add_comm]

theorem canonical_map {char : Nat → α} (hb : 1 < b)
    (hchar : ∀ d < b, value? (char d) = some d) (n : Nat) :
    Canonical b value? ((digits b n).reverse.map char) n := by
  have hne : (digits b n).reverse ≠ [] := by simpa using digits_ne_nil b n
  obtain ⟨first, rest, hfirst⟩ := List.exists_cons_of_ne_nil hne
  have hmem : first ∈ digits b n := by
    rw [← List.mem_reverse, hfirst]
    exact List.mem_cons_self
  constructor
  · have hfold := foldlM_digits hchar (digits b n) (digits_lt hb)
    rw [ofDigits_digits, hfirst, List.map_cons] at hfold
    rw [hfirst, List.map_cons]
    exact hfold
  · intro c rest' htext hzero
    rw [hfirst, List.map_cons] at htext
    obtain ⟨rfl, rfl⟩ := List.cons.inj htext
    rw [hchar first (digits_lt hb first hmem)] at hzero
    -- The first character of the text is the last digit of the list.
    have hlast : (digits b n).getLast (digits_ne_nil b n) = first := by
      rw [← List.head_reverse hne]
      simp only [hfirst, List.head_cons]
    obtain ⟨hn, hdigits⟩ := getLast_digits (hlast.trans (Option.some.inj hzero))
    rw [hdigits] at hfirst
    have hrest : rest = [] := (List.cons.inj hfirst).2.symm
    exact ⟨hn, by rw [hrest, List.map_nil]⟩

end Numeral
