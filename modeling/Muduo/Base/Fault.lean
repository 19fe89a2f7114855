import Mathlib.Logic.Basic

/-!
# Fault — what a step of the C++ program must never do

Modelled functions that contain an `assert`, touch raw storage or dereference a raw pointer
return `Except Fault`.  A fault is an `assert` that does not hold, an access outside the
storage of a vector, a read through a pointer to a deleted object, or a second `delete`.
The lemmas are the ones that run such a function symbolically.
-/

namespace Muduo

/-- The value of a raw pointer to a heap object. -/
abbrev Addr := Nat

inductive Fault
  | assertFailed
  | outOfBounds
  | useAfterFree
  | doubleFree
  deriving DecidableEq, Repr

/-- The C `assert` macro, in a build that keeps it. -/
def assert (p : Prop) [Decidable p] : Except Fault Unit :=
  if p then .ok () else .error .assertFailed

@[simp] theorem ok_bind {ε α β : Type _} (a : α) (f : α → Except ε β) :
    (Except.ok a >>= f) = f a := rfl

@[simp] theorem error_bind {ε α β : Type _} (e : ε) (f : α → Except ε β) :
    (Except.error e >>= f) = Except.error e := rfl

@[simp] theorem pure_eq_ok {ε α : Type _} (a : α) : (pure a : Except ε α) = Except.ok a := rfl

theorem exists_ok_of_bind {ε α β : Type _} {x : Except ε α} {f : α → Except ε β} {b : β}
    (h : (x >>= f) = .ok b) : ∃ a, x = .ok a ∧ f a = .ok b := by
  cases x with
  | error e => cases h
  | ok a => exact ⟨a, rfl, h⟩

@[simp] theorem assert_true {inst : Decidable True} : @assert True inst = .ok () := by
  simp [assert]

-- The instance is implicit, so that the lemma also rewrites where `simp` changed it.
theorem assert_pos {p : Prop} {inst : Decidable p} (h : p) : @assert p inst = .ok () := by
  simp [assert, h]

end Muduo
