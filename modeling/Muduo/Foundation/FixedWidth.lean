import Mathlib.Data.List.Basic
import Muduo.Foundation.Numeral

/-!
# FixedWidth — numerals with leading zeros

`digits b w n` are the last `w` digits of `n`, the first one first.  Numerals of one width sort as
texts the way their numbers do (`digits_lt`), and two of them side by side are the numeral of a
number again (`digits_append`), so a text of several fields can be read as one number.
-/

universe u

namespace FixedWidth

variable {b w n m : Nat}

/-! ## Texts in order -/

section Texts

variable {α : Type u} [LT α]

/-- The first difference decides, whatever comes after it. -/
theorem append_lt_append {l₁ l₂ : List α} (h : l₁ < l₂) (hlength : l₁.length = l₂.length)
    (back₁ back₂ : List α) : l₁ ++ back₁ < l₂ ++ back₂ := by
  induction h with
  | nil => cases hlength
  | rel hlt => exact List.Lex.rel hlt
  | cons _ ih => exact List.Lex.cons (ih (Nat.succ.inj hlength))

theorem map_lt_map {β : Type u} [LT β] {f : β → α} {l₁ l₂ : List β} (h : l₁ < l₂)
    (hf : ∀ x ∈ l₁, ∀ y ∈ l₂, x < y → f x < f y) : l₁.map f < l₂.map f := by
  induction h with
  | nil => exact List.Lex.nil
  | rel hlt => exact List.Lex.rel (hf _ List.mem_cons_self _ List.mem_cons_self hlt)
  | cons _ ih =>
      refine List.Lex.cons (ih fun x hx y hy => ?_)
      exact hf x (List.mem_cons_of_mem _ hx) y (List.mem_cons_of_mem _ hy)

end Texts

/-! ## Digits -/

def digits (b : Nat) : Nat → Nat → List Nat
  | 0, _ => []
  | w + 1, n => digits b w (n / b) ++ [n % b]

@[simp] theorem length_digits (b w n : Nat) : (digits b w n).length = w := by
  induction w generalizing n with
  | zero => rfl
  | succ w ih => simp [digits, ih]

theorem mem_digits_lt (hb : 0 < b) : ∀ d ∈ digits b w n, d < b := by
  induction w generalizing n with
  | zero =>
      intro d hd
      cases hd
  | succ w ih =>
      intro d hd
      rcases List.mem_append.mp hd with hd | hd
      · exact ih d hd
      · rw [List.mem_singleton.mp hd]
        exact Nat.mod_lt n hb

/-- Two numerals side by side. -/
theorem digits_append (hb : 0 < b) (a c x : Nat) {y : Nat} (hy : y < b ^ c) :
    digits b (a + c) (x * b ^ c + y) = digits b a x ++ digits b c y := by
  induction c generalizing y with
  | zero =>
      have hzero : y = 0 := by
        rw [Nat.pow_zero] at hy
        omega
      simp [digits, hzero]
  | succ c ih =>
      have hpow : x * b ^ (c + 1) = b * (x * b ^ c) := by
        rw [Nat.pow_succ, ← Nat.mul_assoc, Nat.mul_comm]
      have hdiv : (x * b ^ (c + 1) + y) / b = x * b ^ c + y / b := by
        rw [hpow, Nat.mul_add_div hb]
      have hmod : (x * b ^ (c + 1) + y) % b = y % b := by
        rw [hpow, Nat.mul_add_mod]
      have hlt : y / b < b ^ c := by
        rw [Nat.div_lt_iff_lt_mul hb, ← Nat.pow_succ]
        exact hy
      rw [← Nat.add_assoc, digits, hdiv, hmod, ih hlt, digits, List.append_assoc]

/-- Numerals of one width sort like their numbers. -/
theorem digits_lt (hb : 0 < b) (h : n < m) (hm : m < b ^ w) : digits b w n < digits b w m := by
  induction w generalizing n m with
  | zero =>
      rw [Nat.pow_zero] at hm
      omega
  | succ w ih =>
      rw [Nat.pow_succ] at hm
      have hquot : m / b < b ^ w := (Nat.div_lt_iff_lt_mul hb).mpr hm
      rcases Nat.lt_or_eq_of_le (Nat.div_le_div_right (c := b) (Nat.le_of_lt h)) with hlt | heq
      · exact append_lt_append (ih hlt hquot) (by simp) _ _
      · -- Equal up to the last digit.
        have hn := Nat.div_add_mod n b
        have hm := Nat.div_add_mod m b
        rw [heq] at hn
        rw [digits, digits, heq]
        refine List.append_left_lt (List.Lex.rel ?_)
        omega

theorem digits_zero (b w : Nat) : digits b w 0 = List.replicate w 0 := by
  induction w with
  | zero => rfl
  | succ w ih => rw [digits, Nat.zero_div, Nat.zero_mod, ih, List.replicate_succ']

/-- The canonical numeral with zeros in front. -/
theorem replicate_append_digits (hb : 1 < b) (hw : 0 < w) (hn : n < b ^ w) :
    List.replicate (w - (Numeral.digits b n).length) 0 ++ (Numeral.digits b n).reverse =
      digits b w n := by
  induction w generalizing n with
  | zero => cases hw
  | succ w ih =>
      rw [Nat.pow_succ] at hn
      have hquot : n / b < b ^ w := (Nat.div_lt_iff_lt_mul (by omega)).mpr hn
      rw [Numeral.digits_rec hb, digits]
      by_cases hrest : n / b = 0
      · rw [if_neg (not_not.mpr hrest), hrest, digits_zero]
        simp
      · have hpos : 0 < w := by
          rcases Nat.eq_zero_or_pos w with rfl | hpos
          · exact absurd (Nat.lt_one_iff.mp hquot) hrest
          · exact hpos
        rw [if_pos hrest, List.reverse_cons, List.length_cons, Nat.add_sub_add_right,
          ← List.append_assoc, ih hpos hquot]

end FixedWidth
