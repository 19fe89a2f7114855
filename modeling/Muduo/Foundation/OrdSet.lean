import Mathlib.Data.List.Nodup
import Mathlib.Data.List.Perm.Basic
import Mathlib.Data.List.Sort
import Mathlib.Order.Lattice

/-!
# OrdSet — finite sets kept in increasing order

An `OrdSet` is a strictly increasing list: the view of `std::set` in which iteration order
matters.  `first?` is the element at `begin()`, and `below x` / `from x` are the two ranges
that `lower_bound(x)` separates.  Every operation has a membership lemma; `first?_eq_some_iff`
characterises the first element, and `size_eq_of_bijection` compares two sets by a bijection.
-/

universe u v

structure OrdSet (α : Type u) [LinearOrder α] where
  elems : List α
  increasing : elems.Pairwise (· < ·)

namespace OrdSet

variable {α : Type u} [LinearOrder α] {β : Type v} [LinearOrder β]

instance : Membership α (OrdSet α) where
  mem s x := x ∈ s.elems

theorem mem_def {s : OrdSet α} {x : α} : x ∈ s ↔ x ∈ s.elems := Iff.rfl

instance (s : OrdSet α) (x : α) : Decidable (x ∈ s) :=
  inferInstanceAs (Decidable (x ∈ s.elems))

instance (s : OrdSet α) (p : α → Prop) [DecidablePred p] : Decidable (∀ x ∈ s, p x) :=
  inferInstanceAs (Decidable (∀ x ∈ s.elems, p x))

/-! ## Operations -/

def empty : OrdSet α where
  elems := []
  increasing := List.Pairwise.nil

def size (s : OrdSet α) : Nat :=
  s.elems.length

def first? (s : OrdSet α) : Option α :=
  s.elems.head?

/-- The elements before `lower_bound(x)`. -/
def below (s : OrdSet α) (x : α) : OrdSet α where
  elems := s.elems.filter (· < x)
  increasing := s.increasing.filter _

/-- The elements from `lower_bound(x)` on. -/
def «from» (s : OrdSet α) (x : α) : OrdSet α where
  elems := s.elems.filter (x ≤ ·)
  increasing := s.increasing.filter _

def erase (s : OrdSet α) (x : α) : OrdSet α where
  elems := s.elems.filter (· ≠ x)
  increasing := s.increasing.filter _

def insert (s : OrdSet α) (x : α) : OrdSet α where
  -- An element that is already there is replaced by itself.
  elems := s.elems.filter (· < x) ++ x :: s.elems.filter (x < ·)
  increasing := by
    refine List.pairwise_append.2 ⟨s.increasing.filter _, ?_, ?_⟩
    · refine List.pairwise_cons.2 ⟨?_, s.increasing.filter _⟩
      intro y hy
      simpa using (List.mem_filter.1 hy).2
    · intro y hy z hz
      have hyx : y < x := by simpa using (List.mem_filter.1 hy).2
      rcases List.mem_cons.1 hz with rfl | hz
      · exact hyx
      · have hxz : x < z := by simpa using (List.mem_filter.1 hz).2
        exact lt_trans hyx hxz

/-! ## Membership -/

@[simp] theorem not_mem_empty (x : α) : x ∉ (empty : OrdSet α) := by
  simp [mem_def, empty]

@[simp] theorem mem_below {s : OrdSet α} {x y : α} : y ∈ s.below x ↔ y ∈ s ∧ y < x := by
  simp [mem_def, below]

@[simp] theorem mem_from {s : OrdSet α} {x y : α} : y ∈ s.from x ↔ y ∈ s ∧ x ≤ y := by
  simp [mem_def, «from»]

@[simp] theorem mem_erase {s : OrdSet α} {x y : α} : y ∈ s.erase x ↔ y ∈ s ∧ y ≠ x := by
  simp [mem_def, erase]

@[simp] theorem mem_insert {s : OrdSet α} {x y : α} : y ∈ s.insert x ↔ y = x ∨ y ∈ s := by
  constructor
  · intro hy
    rcases List.mem_append.1 hy with hy | hy
    · exact Or.inr (List.mem_filter.1 hy).1
    · rcases List.mem_cons.1 hy with rfl | hy
      · exact Or.inl rfl
      · exact Or.inr (List.mem_filter.1 hy).1
  · rintro (rfl | hy)
    · exact List.mem_append_right _ List.mem_cons_self
    · -- An old element lies before `x`, at `x`, or behind it.
      have hy' : y ∈ s.elems := hy
      rcases lt_trichotomy y x with hlt | rfl | hgt
      · exact List.mem_append_left _ (List.mem_filter.2 ⟨hy', by simpa using hlt⟩)
      · exact List.mem_append_right _ List.mem_cons_self
      · exact List.mem_append_right _
          (List.mem_cons_of_mem _ (List.mem_filter.2 ⟨hy', by simpa using hgt⟩))

theorem nodup (s : OrdSet α) : s.elems.Nodup :=
  s.increasing.imp fun h => ne_of_lt h

/-- A set is determined by its members. -/
theorem eq_of_mem_iff {s t : OrdSet α} (h : ∀ x, x ∈ s ↔ x ∈ t) : s = t := by
  have helems : s.elems = t.elems := s.increasing.eq_of_mem_iff t.increasing h
  cases s
  cases t
  cases helems
  rfl

theorem insert_eq_self_iff {s : OrdSet α} {x : α} : s.insert x = s ↔ x ∈ s := by
  constructor
  · intro h
    rw [← h]
    exact mem_insert.mpr (Or.inl rfl)
  · intro hx
    refine eq_of_mem_iff fun y => ?_
    rw [mem_insert]
    constructor
    · rintro (rfl | hy)
      · exact hx
      · exact hy
    · exact Or.inr

/-! ## The first element -/

theorem first?_eq_none_iff {s : OrdSet α} : s.first? = none ↔ ∀ x, x ∉ s := by
  simp [first?, mem_def, List.head?_eq_none_iff, List.eq_nil_iff_forall_not_mem]

theorem first?_eq_some_iff {s : OrdSet α} {x : α} :
    s.first? = some x ↔ x ∈ s ∧ ∀ y ∈ s, x ≤ y := by
  rcases s with ⟨l, hl⟩
  cases l with
  | nil =>
      simp [first?, mem_def]
  | cons a l =>
      -- The head is below the whole tail.
      have hmin := (List.pairwise_cons.1 hl).1
      simp only [first?, List.head?_cons, Option.some.injEq, mem_def]
      constructor
      · rintro rfl
        refine ⟨List.mem_cons_self, ?_⟩
        intro y hy
        rcases List.mem_cons.1 hy with rfl | hy
        · exact le_refl _
        · exact le_of_lt (hmin y hy)
      · rintro ⟨hx, hle⟩
        rcases List.mem_cons.1 hx with rfl | hx
        · rfl
        · exact absurd (hmin x hx) (not_lt_of_ge (hle a List.mem_cons_self))

theorem first?_isSome_of_mem {s : OrdSet α} {x : α} (hx : x ∈ s) : ∃ y, s.first? = some y := by
  cases h : s.first? with
  | none => exact absurd hx (first?_eq_none_iff.1 h x)
  | some y => exact ⟨y, rfl⟩

/-! ## Sizes -/

/-- Two sets in bijection have the same size. -/
theorem size_eq_of_bijection {s : OrdSet α} {t : OrdSet β} (f : α → β) (g : β → α)
    (hf : ∀ x ∈ s, f x ∈ t ∧ g (f x) = x) (hg : ∀ y ∈ t, g y ∈ s ∧ f (g y) = y) :
    s.size = t.size := by
  have hinj : ∀ x ∈ s.elems, ∀ y ∈ s.elems, f x = f y → x = y := by
    intro x hx y hy hxy
    calc
      x = g (f x) := (hf x hx).2.symm
      _ = g (f y) := by rw [hxy]
      _ = y := (hf y hy).2
  have hnodup : (s.elems.map f).Nodup := s.nodup.map_on hinj
  -- Both sides are lists without duplicates and with the same members.
  have hperm : (s.elems.map f).Perm t.elems := by
    refine (List.perm_ext_iff_of_nodup hnodup t.nodup).2 ?_
    intro y
    constructor
    · intro hy
      rcases List.mem_map.1 hy with ⟨x, hx, rfl⟩
      exact (hf x hx).1
    · intro hy
      exact List.mem_map.2 ⟨g y, (hg y hy).1, (hg y hy).2⟩
  simpa [size] using hperm.length_eq

end OrdSet
