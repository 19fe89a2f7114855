import Mathlib.Data.Option.Basic
import Mathlib.Data.Set.Insert
import Mathlib.Logic.Function.Basic

/-!
# HeapView — the records of a heap, by key

Records live in a heap at addresses, and each has a key of its own.  `Views heap S f` says that
`f` has, by key, what is to be seen of the records at the addresses in `S`.  The addresses are gone
from `f`, so that a heap that uses one address again looks like one that does not.
-/

universe u v w x

variable {P : Type u} {V : Type v} {K : Type w} {A : Type x}

/-- Different addresses have different keys. -/
def Keyed (key : V → K) (heap : P → Option V) : Prop :=
  ∀ {p p' v v'}, heap p = some v → heap p' = some v' → key v = key v' → p = p'

def Views (key : V → K) (view : V → A) (heap : P → Option V) (S : Set P) (f : K → Option A) :
    Prop :=
  ∀ k a, f k = some a ↔ ∃ p ∈ S, ∃ v, heap p = some v ∧ key v = k ∧ view v = a

namespace Views

variable {key : V → K} {view : V → A} {heap heap' : P → Option V} {S S' : Set P}
  {f : K → Option A} {p : P} {v : V}

theorem get (h : Views key view heap S f) (hp : p ∈ S) (hv : heap p = some v) :
    f (key v) = some (view v) :=
  (h _ _).2 ⟨p, hp, v, hv, rfl, rfl⟩

/-- Only the records at the addresses matter. -/
theorem congr (h : Views key view heap S f) (hS : ∀ p, p ∈ S' ↔ p ∈ S)
    (hheap : ∀ p ∈ S, heap' p = heap p) : Views key view heap' S' f := by
  intro k a
  rw [h k a]
  constructor
  · rintro ⟨p, hp, v, hv, hkey⟩
    exact ⟨p, (hS p).2 hp, v, by rw [hheap p hp, hv], hkey⟩
  · rintro ⟨p, hp, v, hv, hkey⟩
    have hmem := (hS p).1 hp
    exact ⟨p, hmem, v, by rw [← hheap p hmem, hv], hkey⟩

/-- Those of the addresses whose records have a property. -/
theorem filter (h : Views key view heap S f) (q : A → Bool)
    (hS : ∀ {p v}, heap p = some v → (p ∈ S' ↔ p ∈ S ∧ q (view v) = true)) :
    Views key view heap S' fun k => (f k).filter q := by
  intro k a
  rw [Option.filter_eq_some_iff, h k a]
  constructor
  · rintro ⟨⟨p, hp, v, hv, hkey, rfl⟩, hq⟩
    exact ⟨p, (hS hv).2 ⟨hp, hq⟩, v, hv, hkey, rfl⟩
  · rintro ⟨p, hp, v, hv, hkey, rfl⟩
    obtain ⟨hmem, hq⟩ := (hS hv).1 hp
    exact ⟨⟨p, hmem, v, hv, hkey, rfl⟩, hq⟩

variable [DecidableEq K]

theorem insert (h : Views key view heap S f) (hkeyed : Keyed key heap) (hv : heap p = some v)
    (hS : ∀ p', p' ∈ S' ↔ p' = p ∨ p' ∈ S) :
    Views key view heap S' (Function.update f (key v) (some (view v))) := by
  intro k a
  by_cases hk : k = key v
  · subst hk
    rw [Function.update_self, Option.some.injEq]
    constructor
    · rintro rfl
      exact ⟨p, (hS p).2 (Or.inl rfl), v, hv, rfl, rfl⟩
    · rintro ⟨p', _, v', hv', hkey, rfl⟩
      obtain rfl := hkeyed hv' hv hkey
      rw [hv] at hv'
      cases hv'
      rfl
  · rw [Function.update_of_ne hk, h k a]
    constructor
    · rintro ⟨p', hp', hrest⟩
      exact ⟨p', (hS p').2 (Or.inr hp'), hrest⟩
    · rintro ⟨p', hp', v', hv', hkey, ha⟩
      rcases (hS p').1 hp' with rfl | hmem
      · rw [hv] at hv'
        cases hv'
        exact absurd hkey.symm hk
      · exact ⟨p', hmem, v', hv', hkey, ha⟩

theorem erase (h : Views key view heap S f) (hkeyed : Keyed key heap) (hv : heap p = some v)
    (hS : ∀ p', p' ∈ S' ↔ p' ∈ S ∧ p' ≠ p) :
    Views key view heap S' (Function.update f (key v) none) := by
  intro k a
  by_cases hk : k = key v
  · subst hk
    rw [Function.update_self]
    constructor
    · rintro ⟨⟩
    · rintro ⟨p', hp', v', hv', hkey, _⟩
      exact absurd (hkeyed hv' hv hkey) ((hS p').1 hp').2
  · rw [Function.update_of_ne hk, h k a]
    constructor
    · rintro ⟨p', hp', v', hv', hkey, ha⟩
      refine ⟨p', (hS p').2 ⟨hp', ?_⟩, v', hv', hkey, ha⟩
      rintro rfl
      rw [hv] at hv'
      cases hv'
      exact hk hkey.symm
    · rintro ⟨p', hp', hrest⟩
      exact ⟨p', ((hS p').1 hp').1, hrest⟩

end Views
