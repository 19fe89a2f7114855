import Mathlib.Logic.Relation

/-!
# StepSystem — labelled transition systems and their invariants

A `StepSystem` is a set of initial states and a labelled step relation.  This file collects
the rules that every run argument of the development uses:

* `Reachable` and `Run`: the states a system reaches, and the labelled runs between them;
* `Reachable.invariant`: an initial and inductive predicate holds of every reachable state;
* `Run.forward` and `Reachable.forward`: forward simulation by a relation, with `Run.simulates` for
  a function;
* `Run.ranking`: a rank that falls bounds the number of steps;
* `restrict`: the runs all of whose steps meet a side condition;
* `ofExec`: the system of an executable step function that may fault, with the rule
  `ofExec_safe` that gives an invariant and the absence of faults together, and `Run.translates`,
  a forward simulation that follows a translation of the actions;
* `ofNext`: the system of a total step function.
-/

universe u v w x

/-- A labelled transition system. -/
structure StepSystem (S : Type u) (A : Type v) where
  init : S → Prop
  step : S → A → S → Prop

namespace StepSystem

variable {S : Type u} {A : Type v} (M : StepSystem S A)

/-! ## Runs and reachable states -/

inductive Run : S → List A → S → Prop where
  | nil (s : S) : Run s [] s
  | cons {s t u : S} {a : A} {as : List A} :
      M.step s a t → Run t as u → Run s (a :: as) u

inductive Reachable : S → Prop where
  | init {s : S} : M.init s → Reachable s
  | step {s t : S} {a : A} : Reachable s → M.step s a t → Reachable t

variable {M}

theorem Run.reachable {s t : S} {as : List A} (h : M.Run s as t) :
    M.Reachable s → M.Reachable t := by
  induction h with
  | nil s =>
      intro hs
      exact hs
  | cons hstep _ ih =>
      intro hs
      exact ih (Reachable.step hs hstep)

/-- Run induction: what every step preserves, a run preserves. -/
theorem Run.preserves {P : S → Prop} (hP : ∀ {s a t}, P s → M.step s a t → P t)
    {s t : S} {as : List A} (h : M.Run s as t) : P s → P t := by
  induction h with
  | nil s =>
      intro hs
      exact hs
  | cons hstep _ ih =>
      intro hs
      exact ih (hP hs hstep)

theorem Run.append {s t u : S} {as bs : List A} (h : M.Run s as t) (h' : M.Run t bs u) :
    M.Run s (as ++ bs) u := by
  induction h with
  | nil s => exact h'
  | cons hstep _ ih => exact Run.cons hstep (ih h')

theorem Run.exists_mid {s u : S} {as bs : List A} (h : M.Run s (as ++ bs) u) :
    ∃ t, M.Run s as t ∧ M.Run t bs u := by
  induction as generalizing s with
  | nil => exact ⟨s, Run.nil s, h⟩
  | cons a as ih =>
      cases h with
      | cons hstep hrest =>
          rcases ih hrest with ⟨t, hfirst, hlast⟩
          exact ⟨t, Run.cons hstep hfirst, hlast⟩

/-- Forward simulation: if from related states every step is a run of another system that ends in
related states, then every run is one. -/
theorem Run.forward {T : Type w} {B : Type x} {N : StepSystem T B} {R : S → T → Prop}
    (hR : ∀ {s a s' t}, R s t → M.step s a s' → ∃ bs t', N.Run t bs t' ∧ R s' t')
    {s s' : S} {as : List A} (h : M.Run s as s') :
    ∀ {t : T}, R s t → ∃ bs t', N.Run t bs t' ∧ R s' t' := by
  induction h with
  | nil s =>
      intro t hst
      exact ⟨[], t, Run.nil t, hst⟩
  | cons hstep _ ih =>
      intro t hst
      obtain ⟨bs, t₁, hfirst, hmid⟩ := hR hst hstep
      obtain ⟨cs, t₂, hrest, hend⟩ := ih hmid
      exact ⟨bs ++ cs, t₂, hfirst.append hrest, hend⟩

/-- The states that a system reaches are related to states that the simulating one reaches. -/
theorem Reachable.forward {T : Type w} {B : Type x} {N : StepSystem T B} {R : S → T → Prop}
    (h0 : ∀ {s}, M.init s → ∃ t, N.init t ∧ R s t)
    (hR : ∀ {s a s' t}, R s t → M.step s a s' → ∃ bs t', N.Run t bs t' ∧ R s' t')
    {s : S} (h : M.Reachable s) : ∃ t, N.Reachable t ∧ R s t := by
  induction h with
  | init hinit =>
      obtain ⟨t, ht, hst⟩ := h0 hinit
      exact ⟨t, Reachable.init ht, hst⟩
  | step _ hstep ih =>
      obtain ⟨t, ht, hst⟩ := ih
      obtain ⟨bs, t', hrun, hst'⟩ := hR hst hstep
      exact ⟨t', hrun.reachable ht, hst'⟩

/-- Simulation by a function: if under an invariant every step is a run of another system, then
every run is one. -/
theorem Run.simulates {T : Type w} {B : Type x} {N : StepSystem T B} {f : S → T} {I : S → Prop}
    (hI : ∀ {s a t}, I s → M.step s a t → I t ∧ ∃ bs, N.Run (f s) bs (f t))
    {s t : S} {as : List A} (h : M.Run s as t) (hs : I s) :
    I t ∧ ∃ bs, N.Run (f s) bs (f t) := by
  have hstep : ∀ {s a s' x}, I s ∧ x = f s → M.step s a s' →
      ∃ bs x', N.Run x bs x' ∧ I s' ∧ x' = f s' := by
    rintro s a s' _ ⟨hs, rfl⟩ hstep
    obtain ⟨hs', bs, hrun⟩ := hI hs hstep
    exact ⟨bs, f s', hrun, hs', rfl⟩
  obtain ⟨bs, _, hrun, ht, rfl⟩ :=
    h.forward (R := fun s x => I s ∧ x = f s) hstep ⟨hs, rfl⟩
  exact ⟨ht, bs, hrun⟩

/-- Invariant rule. -/
theorem Reachable.invariant {I : S → Prop} (h0 : ∀ {s}, M.init s → I s)
    (hI : ∀ {s a t}, I s → M.step s a t → I t) {s : S} (h : M.Reachable s) : I s := by
  induction h with
  | init hinit => exact h0 hinit
  | step _ hstep ih => exact hI ih hstep

/-- Ranking rule with credit: if under an invariant each step that counts lowers the rank, and only
the steps that give credit raise it, by one, then rank and credit bound the number of steps that
count. -/
theorem Run.ranking_with {I : S → Prop} {rank : S → Nat} {counts credits : A → Bool}
    (hI : ∀ {s a t}, I s → M.step s a t →
      I t ∧ rank t + (if counts a then 1 else 0) ≤ rank s + (if credits a then 1 else 0))
    {s t : S} {as : List A} (h : M.Run s as t) :
    I s → I t ∧ rank t + as.countP counts ≤ rank s + as.countP credits := by
  induction h with
  | nil s =>
      intro hs
      exact ⟨hs, Nat.le_refl _⟩
  | cons hstep _ ih =>
      intro hs
      obtain ⟨ht, hfirst⟩ := hI hs hstep
      obtain ⟨hu, hrest⟩ := ih ht
      refine ⟨hu, ?_⟩
      rw [List.countP_cons, List.countP_cons]
      omega

/-- Ranking rule: if under an invariant no step raises the rank and each step that counts lowers
it, then the rank bounds the number of steps that count. -/
theorem Run.ranking {I : S → Prop} {rank : S → Nat} {counts : A → Bool}
    (hI : ∀ {s a t}, I s → M.step s a t → I t ∧ rank t + (if counts a then 1 else 0) ≤ rank s)
    {s t : S} {as : List A} (h : M.Run s as t) (hs : I s) :
    I t ∧ rank t + as.countP counts ≤ rank s := by
  have hbound : I t ∧ rank t + as.countP counts ≤ rank s + as.countP fun _ => false :=
    h.ranking_with hI hs
  simpa using hbound

/-! ## Side conditions on steps -/

/-- The runs of `M` all of whose steps meet `G`. -/
def restrict (M : StepSystem S A) (G : S → A → Prop) : StepSystem S A where
  init := M.init
  step := fun s a t => G s a ∧ M.step s a t

/-! ## Executable systems -/

section Exec

variable {E : Type w}

/-- The system of a step function `exec` that may fault; `enabled` says which actions the
environment may choose. -/
def ofExec (init : S → Prop) (enabled : S → A → Prop) (exec : S → A → Except E S) :
    StepSystem S A where
  init := init
  step := fun s a t => enabled s a ∧ exec s a = .ok t

variable {init : S → Prop} {enabled : S → A → Prop} {exec : S → A → Except E S}

theorem restrict_ofExec (G : S → A → Prop) :
    (ofExec init enabled exec).restrict G =
      ofExec init (fun s a => G s a ∧ enabled s a) exec := by
  simp [restrict, ofExec, and_assoc]

/-- If from every state satisfying `I` every enabled action succeeds and re-establishes `I`,
then `I` holds of every reachable state and no enabled action of a reachable state faults. -/
theorem ofExec_safe {I : S → Prop} (h0 : ∀ {s}, init s → I s)
    (hI : ∀ {s a}, I s → enabled s a → ∃ t, exec s a = .ok t ∧ I t) {s : S}
    (h : (ofExec init enabled exec).Reachable s) :
    I s ∧ ∀ a, enabled s a → ∃ t, exec s a = .ok t := by
  have hs : I s := by
    refine h.invariant h0 ?_
    rintro s a t hs ⟨hen, hexec⟩
    -- `exec` is a function, so the state reached is the one that `hI` speaks about.
    rcases hI hs hen with ⟨t', ht', hIt'⟩
    rw [hexec] at ht'
    cases ht'
    exact hIt'
  refine ⟨hs, ?_⟩
  intro a hen
  rcases hI hs hen with ⟨t, ht, _⟩
  exact ⟨t, ht⟩

/-- Execute a list of actions. -/
def execAll (exec : S → A → Except E S) (s : S) : List A → Except E S
  | [] => .ok s
  | a :: as =>
      match exec s a with
      | .ok t => execAll exec t as
      | .error e => .error e

/-- What the actions of a list are in the words of another system; `f` has the state before each
of them. -/
def translate {B : Type x} (exec : S → A → Except E S) (f : S → A → List B) (s : S) :
    List A → List B
  | [] => []
  | a :: as =>
      f s a ++
        match exec s a with
        | .ok t => translate exec f t as
        | .error _ => []

/-- Forward simulation: if from related states every step is translated to a run that ends in
related states, then every run is. -/
theorem Run.translates {T : Type v} {B : Type x} {N : StepSystem T B} {R : S → T → Prop}
    {f : S → A → List B}
    (hR : ∀ {s a t x}, R s x → enabled s a → exec s a = .ok t → ∃ y, N.Run x (f s a) y ∧ R t y)
    {s t : S} {as : List A} (h : (ofExec init enabled exec).Run s as t) :
    ∀ {x : T}, R s x → ∃ y, N.Run x (translate exec f s as) y ∧ R t y := by
  induction h with
  | nil s =>
      intro x hx
      exact ⟨x, Run.nil x, hx⟩
  | cons hstep _ ih =>
      intro x hx
      obtain ⟨hen, hexec⟩ := hstep
      obtain ⟨y, hfirst, hy⟩ := hR hx hen hexec
      obtain ⟨z, hrest, hz⟩ := ih hy
      refine ⟨z, ?_, hz⟩
      rw [translate, hexec]
      exact hfirst.append hrest

/-- Every action of the list is enabled when its turn comes. -/
def EnabledAlong (enabled : S → A → Prop) (exec : S → A → Except E S) (s : S) : List A → Prop
  | [] => True
  | a :: as =>
      enabled s a ∧
        match exec s a with
        | .ok t => EnabledAlong enabled exec t as
        | .error _ => True

instance decidableEnabledAlong [∀ s a, Decidable (enabled s a)] :
    (s : S) → (as : List A) → Decidable (EnabledAlong enabled exec s as)
  | _, [] => isTrue trivial
  | s, a :: as =>
      match h : exec s a with
      | .ok t =>
          have := decidableEnabledAlong t as
          decidable_of_iff (enabled s a ∧ EnabledAlong enabled exec t as)
            (by simp [EnabledAlong, h])
      | .error _ => decidable_of_iff (enabled s a) (by simp [EnabledAlong, h])

theorem run_of_execAll {as : List A} :
    ∀ {s t : S}, EnabledAlong enabled exec s as → execAll exec s as = .ok t →
      (ofExec init enabled exec).Run s as t := by
  induction as with
  | nil =>
      intro s t _ ht
      cases ht
      exact Run.nil s
  | cons a as ih =>
      intro s t hen ht
      cases hexec : exec s a with
      | error e =>
          simp [execAll, hexec] at ht
      | ok u =>
          simp only [execAll, hexec] at ht
          have hrest := hen.2
          simp only [hexec] at hrest
          exact Run.cons ⟨hen.1, hexec⟩ (ih hrest ht)

end Exec

/-! ## Total systems -/

section Next

/-- The system of a step function that always succeeds. -/
def ofNext (init : S → Prop) (enabled : S → A → Prop) (next : S → A → S) : StepSystem S A where
  init := init
  step := fun s a t => enabled s a ∧ next s a = t

/-- Every action of the list is enabled when its turn comes. -/
def AllowedAlong (enabled : S → A → Prop) (next : S → A → S) (s : S) : List A → Prop
  | [] => True
  | a :: as => enabled s a ∧ AllowedAlong enabled next (next s a) as

variable {init : S → Prop} {enabled : S → A → Prop} {next : S → A → S}

instance decidableAllowedAlong [∀ s a, Decidable (enabled s a)] :
    (s : S) → (as : List A) → Decidable (AllowedAlong enabled next s as)
  | _, [] => isTrue trivial
  | s, a :: as =>
      have := decidableAllowedAlong (next s a) as
      inferInstanceAs (Decidable (enabled s a ∧ AllowedAlong enabled next (next s a) as))

theorem restrict_ofNext (G : S → A → Prop) :
    (ofNext init enabled next).restrict G =
      ofNext init (fun s a => G s a ∧ enabled s a) next := by
  simp [restrict, ofNext, and_assoc]

theorem run_foldl {as : List A} :
    ∀ {s : S}, AllowedAlong enabled next s as →
      (ofNext init enabled next).Run s as (as.foldl next s) := by
  induction as with
  | nil =>
      intro s _
      exact Run.nil s
  | cons a as ih =>
      intro s h
      exact Run.cons ⟨h.1, rfl⟩ (ih h.2)

end Next

end StepSystem
