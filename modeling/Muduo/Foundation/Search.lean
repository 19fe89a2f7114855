import Mathlib.Data.List.Infix

/-!
# Search — the first occurrence of a pattern in a list

`First pat text k r` says that `r` is the first position from `k` on at which `pat` occurs in
`text`, or `none` when there is no such position.  Two searches meet it: `search`, which
returns the end of the text when it finds nothing, and the search for a single element by
`List.findIdx?`.  `First.resume` is the rule for a text that grows at its end: what was searched
without success need not be searched again, but for the last elements, with which an
occurrence may begin.
-/

universe u

namespace Search

variable {α : Type u} {pat text : List α} {k : Nat}

def First (pat text : List α) (k : Nat) : Option Nat → Prop
  | some i => k ≤ i ∧ pat <+: text.drop i ∧ ∀ j, k ≤ j → j < i → ¬ pat <+: text.drop j
  | none => ∀ j, k ≤ j → ¬ pat <+: text.drop j

theorem First.unique {r r' : Option Nat} (h : First pat text k r) (h' : First pat text k r') :
    r = r' := by
  cases r with
  | none =>
      cases r' with
      | none => rfl
      | some i' => exact absurd h'.2.1 (h i' h'.1)
  | some i =>
      cases r' with
      | none => exact absurd h.2.1 (h' i h.1)
      | some i' =>
          rcases Nat.lt_trichotomy i i' with hlt | heq | hlt
          · exact absurd h.2.1 (h'.2.2 i h.1 hlt)
          · rw [heq]
          · exact absurd h'.2.1 (h.2.2 i' h'.1 hlt)

/-- A search in the tail of a text is a search from its beginning. -/
theorem First.of_drop {r : Option Nat} (h : First pat (text.drop k) 0 r) :
    First pat text k (r.map (k + ·)) := by
  have hshift : ∀ j, k ≤ j → text.drop j = (text.drop k).drop (j - k) := by
    intro j hj
    rw [List.drop_drop, Nat.add_sub_cancel' hj]
  cases r with
  | none =>
      intro j hj
      rw [hshift j hj]
      exact h (j - k) (Nat.zero_le _)
  | some i =>
      refine ⟨Nat.le_add_right k i, ?_, ?_⟩
      · rw [← List.drop_drop]
        exact h.2.1
      · intro j hj hlt
        rw [hshift j hj]
        exact h.2.2 (j - k) (Nat.zero_le _) (Nat.sub_lt_left_of_lt_add hj hlt)

/-! ## By recursion on the text -/

theorem First.here (h : pat <+: text) : First pat text 0 (some 0) := by
  refine ⟨Nat.le_refl 0, h, ?_⟩
  intro j _ hj
  exact absurd hj (Nat.not_lt_zero j)

theorem First.later {a : α} {r : Option Nat} (hnot : ¬ pat <+: a :: text)
    (h : First pat text 0 r) : First pat (a :: text) 0 (r.map (· + 1)) := by
  cases r with
  | none =>
      intro j _
      cases j with
      | zero => exact hnot
      | succ j => exact h j (Nat.zero_le j)
  | some i =>
      refine ⟨Nat.zero_le _, h.2.1, ?_⟩
      intro j _ hj
      cases j with
      | zero => exact hnot
      | succ j => exact h.2.2 j (Nat.zero_le j) (Nat.lt_of_succ_lt_succ hj)

/-! ## Texts that grow at the end -/

/-- An occurrence that ends within `text` does not see what was appended. -/
theorem prefix_drop_append {d : List α} {j : Nat} (hj : j + pat.length ≤ text.length) :
    pat <+: (text ++ d).drop j ↔ pat <+: text.drop j := by
  have hle : j ≤ text.length := Nat.le_trans (Nat.le_add_right _ _) hj
  rw [List.drop_append_of_le_length hle]
  constructor
  · intro hpat
    refine List.prefix_of_prefix_length_le hpat (List.prefix_append _ _) ?_
    rw [List.length_drop]
    omega
  · intro hpat
    exact hpat.trans (List.prefix_append _ _)

/-- Resuming: if `pat` does not occur in `text`, an occurrence in `text ++ d` begins in the last
`pat.length - 1` elements of `text` or later. -/
theorem First.resume {d : List α} {r : Option Nat} (hnone : First pat text 0 none)
    (hk : k ≤ text.length + 1 - pat.length) (h : First pat (text ++ d) k r) :
    First pat (text ++ d) 0 r := by
  have hbefore : ∀ j < k, ¬ pat <+: (text ++ d).drop j := by
    intro j hj
    rw [prefix_drop_append (by omega)]
    exact hnone j (Nat.zero_le j)
  cases r with
  | none =>
      intro j _
      by_cases hj : j < k
      · exact hbefore j hj
      · exact h j (Nat.not_lt.mp hj)
  | some i =>
      refine ⟨Nat.zero_le i, h.2.1, ?_⟩
      intro j _ hlt
      by_cases hj : j < k
      · exact hbefore j hj
      · exact h.2.2 j (Nat.not_lt.mp hj) hlt

/-! ## Two searches -/

variable [DecidableEq α]

/-- The position of the first occurrence of `pat`, or the length of the text. -/
def search (pat : List α) : List α → Nat
  | [] => 0
  | a :: text => if pat.isPrefixOf (a :: text) then 0 else search pat text + 1

theorem search_first (hpat : pat ≠ []) (text : List α) :
    First pat text 0 (if search pat text = text.length then none else some (search pat text)) := by
  induction text with
  | nil =>
      intro j _ hprefix
      exact hpat (List.prefix_nil.mp (by simpa using hprefix))
  | cons a text ih =>
      by_cases hhere : pat.isPrefixOf (a :: text) = true
      · have hzero : search pat (a :: text) = 0 := by simp [search, hhere]
        rw [hzero, if_neg (by simp)]
        exact First.here (List.isPrefixOf_iff_prefix.mp hhere)
      · have hnext : search pat (a :: text) = search pat text + 1 := by simp [search, hhere]
        have hlater := First.later (fun hprefix => hhere (List.isPrefixOf_iff_prefix.mpr hprefix)) ih
        rw [hnext, List.length_cons]
        by_cases hend : search pat text = text.length
        · simpa [hend] using hlater
        · simpa [hend] using hlater

theorem findIdx?_first (a : α) (text : List α) :
    First [a] text 0 (text.findIdx? (· == a)) := by
  induction text with
  | nil =>
      intro j _ hprefix
      simp at hprefix
  | cons b text ih =>
      by_cases hhere : b = a
      · subst hhere
        rw [List.findIdx?_cons, if_pos (beq_self_eq_true b)]
        exact First.here (by simp)
      · rw [List.findIdx?_cons, if_neg (by simpa using hhere)]
        refine First.later ?_ ih
        intro hprefix
        exact hhere (List.cons_prefix_cons.mp hprefix).1.symm

end Search
