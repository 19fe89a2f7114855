import Mathlib.Logic.Basic

/-!
# Lines — pieces of text that a separator ends

`join` puts the separator behind every piece, and `split` cuts a text behind every separator.
Pieces without a separator in them come back, also when the text goes on with others.
-/

namespace Lines

variable {α : Type*} {sep : α} {ls : List (List α)}

def join (sep : α) (ls : List (List α)) : List α :=
  (ls.map (· ++ [sep])).flatten

/-- What stands behind the last separator is not a piece. -/
def split [BEq α] (sep : α) (text : List α) : List (List α) :=
  (text.splitOn sep).dropLast

theorem splitOn_join [BEq α] [LawfulBEq α] (h : ∀ l ∈ ls, sep ∉ l) :
    (join sep ls).splitOn sep = ls ++ [[]] := by
  induction ls with
  | nil => rfl
  | cons l ls ih =>
      have hrest := ih fun l' hl' => h l' (List.mem_cons_of_mem _ hl')
      have hjoin : join sep (l :: ls) = l ++ sep :: join sep ls := by
        simp [join]
      rw [hjoin, List.splitOn_append_cons_self_of_not_mem (h l List.mem_cons_self), hrest]
      rfl

theorem split_join [BEq α] [LawfulBEq α] (h : ∀ l ∈ ls, sep ∉ l) :
    split sep (join sep ls) = ls := by
  rw [split, splitOn_join h, List.dropLast_concat]

/-- A text of pieces that have their separator already. -/
theorem split_flatten [BEq α] [LawfulBEq α] {ps : List (List α)}
    (h : ∀ p ∈ ps, ∃ l, sep ∉ l ∧ p = l ++ [sep]) :
    split sep ps.flatten = ps.map List.dropLast ∧
      join sep (split sep ps.flatten) = ps.flatten := by
  have hmap : (ps.map List.dropLast).map (· ++ [sep]) = ps := by
    have hid : ∀ p ∈ ps, ((· ++ [sep]) ∘ List.dropLast) p = id p := by
      intro p hp
      obtain ⟨l, _, rfl⟩ := h p hp
      simp
    rw [List.map_map, List.map_congr_left hid, List.map_id]
  have hjoin : join sep (ps.map List.dropLast) = ps.flatten := by
    rw [join, hmap]
  have hsplit : split sep ps.flatten = ps.map List.dropLast := by
    rw [← hjoin]
    refine split_join fun l hl => ?_
    obtain ⟨p, hp, rfl⟩ := List.mem_map.mp hl
    obtain ⟨l, hl, rfl⟩ := h p hp
    rwa [List.dropLast_concat]
  exact ⟨hsplit, by rw [hsplit, hjoin]⟩

end Lines
