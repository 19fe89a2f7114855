import Mathlib.Data.List.Basic

/-!
# WaitSet — condition variables as wait sets

A list holds the local state of every thread.  `waiting` tells which threads are in the wait set
of a condition variable, and `wake` takes a thread out of it.  `notify` takes out one member if
there is one, `notifyAll` all of them; a spurious wake-up is `wakeAt`.  The lemmas count: how many
threads satisfy a predicate before and after each operation.
-/

universe u

namespace WaitSet

variable {σ : Type u} (waiting : σ → Bool) (wake : σ → σ)

/-- Thread `k` is in a state that satisfies `p`. -/
def At (l : List σ) (k : Nat) (p : σ → Bool) : Prop :=
  l[k]?.any p = true

instance (l : List σ) (k : Nat) (p : σ → Bool) : Decidable (At l k p) :=
  inferInstanceAs (Decidable (_ = _))

/-- The choice of a `notify`: a member of the wait set, and none only if there is none. -/
def Picks (l : List σ) : Option Nat → Prop
  | some k => At l k waiting
  | none => l.countP waiting = 0

instance (l : List σ) (k : Option Nat) : Decidable (Picks waiting l k) :=
  match k with
  | some _ => inferInstanceAs (Decidable (At _ _ _))
  | none => inferInstanceAs (Decidable (_ = _))

def wakeAt (l : List σ) (k : Nat) : List σ :=
  match l[k]? with
  | some x => l.set k (wake x)
  | none => l

def notify (l : List σ) : Option Nat → List σ
  | some k => wakeAt wake l k
  | none => l

def notifyAll (l : List σ) : List σ :=
  l.map fun x => if waiting x then wake x else x

variable {waiting wake} {l : List σ} {k : Nat} {x y : σ}

theorem at_iff {p : σ → Bool} : At l k p ↔ ∃ x, l[k]? = some x ∧ p x = true := by
  simp [At, Option.any_eq_true]

/-! ## Changing the state of one thread -/

/-- `p` of the other threads does not change with the state of one of them. -/
theorem at_set {j : Nat} {p : σ → Bool} (h : l[k]? = some x) :
    At (l.set k y) j p ↔ if j = k then p y = true else At l j p := by
  obtain ⟨hk, _⟩ := List.getElem?_eq_some_iff.1 h
  by_cases hj : j = k
  · subst hj
    simp [At, hk]
  · have hne : k ≠ j := fun heq => hj heq.symm
    simp [At, List.getElem?_set_ne hne, hj]

/-- What a wake-up does not touch is not touched by `notify` and `notifyAll` either. -/
theorem at_notify {j : Nat} {k : Option Nat} {p : σ → Bool} (hp : ∀ x, p (wake x) = p x) :
    At (notify wake l k) j p ↔ At l j p := by
  cases k with
  | none => exact Iff.rfl
  | some k =>
      simp only [notify, wakeAt]
      split
      · rename_i x hx
        rw [at_set hx]
        by_cases hj : j = k
        · subst hj
          simp [At, hx, hp]
        · simp [hj]
      · exact Iff.rfl

theorem at_notifyAll {j : Nat} {p : σ → Bool} (hp : ∀ x, p (wake x) = p x) :
    At (notifyAll waiting wake l) j p ↔ At l j p := by
  have hone : ∀ x, p (if waiting x then wake x else x) = p x := by
    intro x
    split
    · exact hp x
    · rfl
  simp [At, notifyAll, Option.any_map, hone]

theorem countP_set (p : σ → Bool) (h : l[k]? = some x) :
    (l.set k y).countP p + (if p x then 1 else 0) = l.countP p + (if p y then 1 else 0) := by
  obtain ⟨hk, hx⟩ := List.getElem?_eq_some_iff.1 h
  have hset := List.countP_set (p := p) (a := y) hk
  rw [hx] at hset
  -- A thread that satisfies `p` is one of those counted.
  have hpos : p x = true → 0 < l.countP p := by
    intro hp
    exact List.countP_pos_iff.2 ⟨x, List.mem_of_getElem? h, hp⟩
  by_cases hp : p x = true
  · have := hpos hp
    simp only [hp, if_true] at hset ⊢
    omega
  · simp only [hp, Bool.false_eq_true, if_false] at hset ⊢
    omega

theorem countP_set_of_false {p : σ → Bool} (h : l[k]? = some x) (hx : p x = false)
    (hy : p y = false) : (l.set k y).countP p = l.countP p := by
  have hcount := countP_set (y := y) p h
  simpa [hx, hy] using hcount

/-- A thread that does not satisfy `p` makes those that do fewer than all. -/
theorem countP_lt_length {p : σ → Bool} (h : l[k]? = some x) (hx : p x = false) :
    l.countP p < l.length := by
  refine Nat.lt_of_le_of_ne List.countP_le_length ?_
  intro heq
  have hall := List.countP_eq_length.1 heq x (List.mem_of_getElem? h)
  rw [hx] at hall
  cases hall

theorem wakeAt_eq (h : l[k]? = some x) : wakeAt wake l k = l.set k (wake x) := by
  simp [wakeAt, h]

@[simp] theorem length_wakeAt (l : List σ) (k : Nat) : (wakeAt wake l k).length = l.length := by
  unfold wakeAt
  split
  · exact List.length_set
  · rfl

theorem mem_wakeAt (h : y ∈ wakeAt wake l k) : y ∈ l ∨ ∃ x ∈ l, y = wake x := by
  unfold wakeAt at h
  split at h
  · rename_i x hx
    rcases List.mem_or_eq_of_mem_set h with hy | rfl
    · exact Or.inl hy
    · exact Or.inr ⟨x, List.mem_of_getElem? hx, rfl⟩
  · exact Or.inl h

/-! ## `notify` and `notifyAll` -/

@[simp] theorem length_notify (l : List σ) (k : Option Nat) :
    (notify wake l k).length = l.length := by
  cases k with
  | some k => exact length_wakeAt l k
  | none => rfl

theorem mem_notify {k : Option Nat} (h : y ∈ notify wake l k) : y ∈ l ∨ ∃ x ∈ l, y = wake x := by
  cases k with
  | some k => exact mem_wakeAt h
  | none => exact Or.inl h

/-- A spurious wake-up of a waiting thread. -/
theorem countP_wakeAt (woken : σ → Bool)
    (hwake : ∀ x, waiting x = true → waiting (wake x) = false)
    (hwoken : ∀ x, waiting x = true → woken x = false ∧ woken (wake x) = true)
    (h : At l k waiting) :
    (wakeAt wake l k).countP waiting + 1 = l.countP waiting ∧
      (wakeAt wake l k).countP woken = l.countP woken + 1 := by
  obtain ⟨x, hx, hw⟩ := at_iff.1 h
  have hcount := countP_set (y := wake x) waiting hx
  have hcount' := countP_set (y := wake x) woken hx
  rw [wakeAt_eq hx]
  simp only [hw, hwake x hw, hwoken x hw, if_true, Bool.false_eq_true, if_false] at hcount hcount'
  omega

/-- A `notify` moves one thread out of the wait set, if there is one. -/
theorem countP_notify (woken : σ → Bool)
    (hwake : ∀ x, waiting x = true → waiting (wake x) = false)
    (hwoken : ∀ x, waiting x = true → woken x = false ∧ woken (wake x) = true)
    {k : Option Nat} (h : Picks waiting l k) :
    (notify wake l k).countP waiting = l.countP waiting - 1 ∧
      (notify wake l k).countP woken = l.countP woken + min 1 (l.countP waiting) := by
  cases k with
  | some k =>
      have hcount := countP_wakeAt woken hwake hwoken h
      simp only [notify]
      omega
  | none =>
      have hnone : l.countP waiting = 0 := h
      simp only [notify]
      omega

@[simp] theorem length_notifyAll (l : List σ) : (notifyAll waiting wake l).length = l.length :=
  List.length_map _

/-- Nobody is notified when nobody waits. -/
theorem notifyAll_of_countP_eq_zero (h : l.countP waiting = 0) :
    notifyAll waiting wake l = l := by
  have hsame : ∀ x ∈ l, (if waiting x then wake x else x) = x := by
    intro x hx
    rw [if_neg (List.countP_eq_zero.1 h x hx)]
  exact (List.map_congr_left hsame).trans (List.map_id' l)

theorem countP_notifyAll (hwake : ∀ x, waiting x = true → waiting (wake x) = false) :
    (notifyAll waiting wake l).countP waiting = 0 := by
  rw [List.countP_eq_zero]
  intro y hy
  obtain ⟨x, _, rfl⟩ := List.mem_map.1 hy
  by_cases hw : waiting x = true
  · simp [hw, hwake x hw]
  · simp [hw]

end WaitSet
