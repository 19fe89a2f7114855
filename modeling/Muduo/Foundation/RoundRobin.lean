import Mathlib.Data.Int.CardIntervalMod

/-!
# RoundRobin — turns that go round

`turns n m` are the first `m` turns among `n` players: player `k % n` has turn `k`.  A counter that
goes up by one and back to zero at `n` gives them (`advance_mod`), and they are as even as can be
(`count_turns`).  `deal players m` are the players who have them.
-/

namespace RoundRobin

/-- The counter after a turn. -/
def advance (n next : Nat) : Nat :=
  if n ≤ next + 1 then 0 else next + 1

def turns (n m : Nat) : List Nat :=
  (List.range m).map (· % n)

variable {n i : Nat}

theorem advance_mod (hn : 0 < n) (m : Nat) : advance n (m % n) = (m + 1) % n := by
  have hlt := Nat.mod_lt m hn
  rw [Nat.add_mod_eq_ite]
  by_cases hone : n = 1
  · subst hone
    simp [advance, Nat.mod_one]
  · have hmod : 1 % n = 1 := Nat.mod_eq_of_lt (by omega)
    rw [advance, hmod]
    split <;> omega

theorem turns_succ (n m : Nat) : turns n (m + 1) = turns n m ++ [m % n] := by
  simp [turns, List.range_succ]

theorem count_turns_eq_count (hi : i < n) (m : Nat) :
    (turns n m).count i = m.count (· ≡ i [MOD n]) := by
  induction m with
  | zero => rfl
  | succ m ih =>
      rw [turns_succ, List.count_append, ih, Nat.count_succ, List.count_singleton]
      have hmod : i % n = i := Nat.mod_eq_of_lt hi
      simp [Nat.ModEq, hmod]

/-- Everybody has had `m / n` turns, and the first `m % n` players one more. -/
theorem count_turns (hi : i < n) (m : Nat) :
    (turns n m).count i = m / n + if i < m % n then 1 else 0 := by
  have hcount := Nat.count_modEq_card (b := m) (Nat.zero_lt_of_lt hi) i
  rw [Nat.mod_eq_of_lt hi] at hcount
  rw [count_turns_eq_count hi, hcount]

/-! ## Players -/

section Deal

variable {α : Type*} {players : List α} {a : α}

def deal (players : List α) (m : Nat) : List α :=
  (turns players.length m).filterMap (players[·]?)

@[simp] theorem deal_zero (players : List α) : deal players 0 = [] := rfl

theorem deal_succ (h : players[m % players.length]? = some a) :
    deal players (m + 1) = deal players m ++ [a] := by
  simp [deal, turns_succ, h]

theorem length_deal (hpos : 0 < players.length) (m : Nat) : (deal players m).length = m := by
  induction m with
  | zero => rfl
  | succ m ih =>
      rw [deal_succ (List.getElem?_eq_getElem (Nat.mod_lt m hpos)), List.length_append, ih]
      rfl

/-- Who has turn `k`. -/
theorem getElem?_deal (hpos : 0 < players.length) {k m : Nat} (hk : k < m) :
    (deal players m)[k]? = players[k % players.length]? := by
  induction m with
  | zero => omega
  | succ m ih =>
      have hturn := List.getElem?_eq_getElem (Nat.mod_lt m hpos)
      have hlength := length_deal hpos m
      rw [deal_succ hturn]
      by_cases hlt : k < m
      · rw [List.getElem?_append_left (by omega), ih hlt]
      · have hkm : k = m := by omega
        subst hkm
        rw [List.getElem?_append_right (by omega), hlength, Nat.sub_self, hturn]
        rfl

theorem count_deal [DecidableEq α] (hnodup : players.Nodup) (h : players[i]? = some a) (m : Nat) :
    (deal players m).count a = m / players.length + if i < m % players.length then 1 else 0 := by
  have hi : i < players.length := (List.getElem?_eq_some_iff.mp h).1
  rw [← count_turns hi m, deal, List.count_filterMap, List.count]
  refine List.countP_congr ?_
  intro j _
  simp only [beq_iff_eq]
  constructor
  · intro hj
    have hlt := (List.getElem?_eq_some_iff.mp hj).1
    exact (List.getElem?_inj hlt hnodup).mp (hj.trans h.symm)
  · rintro rfl
    exact h

end Deal

end RoundRobin
