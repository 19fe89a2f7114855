import Mathlib.Data.List.TakeDrop

/-!
# Window — reading and overwriting a stretch of a list

`window l i j` is the stretch `[i, j)` of `l`, and `overwrite l i d` is `l` with the elements
from index `i` on replaced by `d`.  The lemmas say how a window moves when one of its ends
moves and how it sees an overwrite just behind it, just before it, or on top of it.
-/

universe u

namespace Window

variable {α : Type u}

def window (l : List α) (i j : Nat) : List α :=
  (l.drop i).take (j - i)

def overwrite (l : List α) (i : Nat) (d : List α) : List α :=
  l.take i ++ d ++ l.drop (i + d.length)

@[simp] theorem window_self (l : List α) (i : Nat) : window l i i = [] := by
  simp [window]

theorem length_window {l : List α} {i j : Nat} (h : j ≤ l.length) :
    (window l i j).length = j - i := by
  simp only [window, List.length_take, List.length_drop]
  omega

theorem length_overwrite {l d : List α} {i : Nat} (h : i + d.length ≤ l.length) :
    (overwrite l i d).length = l.length := by
  simp only [overwrite, List.length_append, List.length_take, List.length_drop]
  omega

/-! ## Moving the ends of a window -/

theorem window_add_left (l : List α) (i n j : Nat) :
    window l (i + n) j = (window l i j).drop n := by
  have hsub : j - (i + n) = j - i - n := by omega
  simp [window, List.drop_take, hsub]

theorem window_sub_right {l : List α} {i n j : Nat} (hj : j ≤ l.length) :
    window l i (j - n) = (window l i j).take ((window l i j).length - n) := by
  rw [length_window hj]
  have hmin : min (j - i - n) (j - i) = j - n - i := by omega
  simp only [window, List.take_take, hmin]

theorem window_append {l z : List α} {i j : Nat} (h : j ≤ l.length) :
    window (l ++ z) i j = window l i j := by
  by_cases hi : i ≤ l.length
  · have hlen : j - i ≤ (l.drop i).length := by
      simp only [List.length_drop]
      omega
    simp [window, List.drop_append_of_le_length hi, List.take_append_of_le_length hlen]
  · -- The window starts behind the end of `l`, so it is empty.
    have hji : j - i = 0 := by omega
    simp [window, hji]

/-! ## Windows of an overwritten list -/

theorem window_overwrite_same {l d : List α} {i : Nat} (h : i + d.length ≤ l.length) :
    window (overwrite l i d) i (i + d.length) = d := by
  have hlen : (l.take i).length = i := by
    simp only [List.length_take]
    omega
  have hdrop : (overwrite l i d).drop i = d ++ l.drop (i + d.length) := by
    rw [overwrite, List.append_assoc]
    nth_rewrite 1 [← hlen]
    exact List.drop_left
  have hn : i + d.length - i = d.length := by omega
  simp [window, hdrop, hn]

theorem getElem?_overwrite_behind {l d : List α} {i k : Nat} (h : i + d.length ≤ l.length)
    (hk : i + d.length ≤ k) : (overwrite l i d)[k]? = l[k]? := by
  have hlen : (l.take i ++ d).length = i + d.length := by
    simp only [List.length_append, List.length_take]
    omega
  rw [overwrite, List.getElem?_append_right (by omega), hlen, List.getElem?_drop,
    Nat.add_sub_cancel' hk]

theorem getElem?_overwrite_last {l d : List α} {i : Nat} {x : α} (h : i ≤ l.length) :
    (overwrite l i (d ++ [x]))[i + d.length]? = some x := by
  have hlen : (l.take i).length = i := by
    simp only [List.length_take]
    omega
  rw [overwrite, List.append_assoc, List.append_assoc,
    List.getElem?_append_right (by rw [hlen]; exact Nat.le_add_right _ _), hlen,
    Nat.add_sub_cancel_left, List.getElem?_append_right (Nat.le_refl _), Nat.sub_self]
  rfl

/-- An overwrite from the end of the window on does not change it. -/
theorem window_overwrite_frame {l d : List α} {i j k : Nat} (hjk : j ≤ k) (hk : k ≤ l.length) :
    window (overwrite l k d) i j = window l i j := by
  have hlen : (l.take k).length = k := by
    simp only [List.length_take]
    omega
  have htake : (overwrite l k d).take j = l.take j := by
    rw [overwrite, List.append_assoc, List.take_append_of_le_length (by omega), List.take_take,
      Nat.min_eq_left hjk]
  rw [window, window, ← List.drop_take, ← List.drop_take, htake]

/-- An overwrite just behind the window extends it by the written data. -/
theorem window_overwrite_behind {l d : List α} {i j : Nat} (hij : i ≤ j)
    (h : j + d.length ≤ l.length) :
    window (overwrite l j d) i (j + d.length) = window l i j ++ d := by
  have hlen : (l.take j).length = j := by
    simp only [List.length_take]
    omega
  have hdrop : (overwrite l j d).drop i = window l i j ++ (d ++ l.drop (j + d.length)) := by
    rw [overwrite, List.append_assoc, List.drop_append_of_le_length (by omega)]
    simp [window, List.drop_take]
  -- The new window ends where the written data ends.
  have hw : (window l i j ++ d).length = j + d.length - i := by
    simp only [List.length_append, length_window (show j ≤ l.length by omega)]
    omega
  rw [window, hdrop, ← List.append_assoc, ← hw]
  exact List.take_left

/-- An overwrite just before the window extends it to the front. -/
theorem window_overwrite_before {l d : List α} {i j : Nat} (hd : d.length ≤ i) (hij : i ≤ j)
    (h : j ≤ l.length) :
    window (overwrite l (i - d.length) d) (i - d.length) j = d ++ window l i j := by
  have hlen : (l.take (i - d.length)).length = i - d.length := by
    simp only [List.length_take]
    omega
  have hi : i - d.length + d.length = i := by omega
  have hdrop : (overwrite l (i - d.length) d).drop (i - d.length) = d ++ l.drop i := by
    rw [overwrite, List.append_assoc, hi]
    nth_rewrite 1 [← hlen]
    exact List.drop_left
  have hj : j - (i - d.length) = d.length + (j - i) := by omega
  rw [window, hdrop, hj, List.take_length_add_append]
  rfl

end Window
