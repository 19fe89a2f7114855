import Mathlib.Logic.Function.Basic
import Muduo.Net.BufferCalls

/-!
# BufferRefinement — a `Buffer` is a byte string

The concrete side is a family of `Buffer`s driven by calls to their public operations; the
reference side is a family of byte strings.  `exec_refines` is the simulation step: from
well-formed buffers, a call whose asserted precondition holds runs into no fault, leaves
well-formed buffers, and acts on the contents as the reference does.  `run_refines` lifts it
to every finite sequence of calls.
-/

namespace Muduo
namespace Net
namespace BufferRefinement

open Buffer

/-- A call on one buffer of the family, or one that exchanges two. -/
inductive Op (ι : Type)
  | call (i : ι) (c : Call)
  | swap (i j : ι)

variable {ι : Type} [DecidableEq ι]

/-! ## The two sides -/

abbrev Store (ι : Type) := ι → Buffer

abbrev Strings (ι : Type) := ι → List UInt8

def contents (σ : Store ι) : Strings ι :=
  fun i => (σ i).content

/-- The precondition that the called function asserts. -/
def Op.Pre (σ : Store ι) : Op ι → Prop
  | .call i c => c.Pre (σ i)
  | .swap _ _ => True

instance (σ : Store ι) (op : Op ι) : Decidable (op.Pre σ) :=
  match op with
  | .call i c => inferInstanceAs (Decidable (c.Pre (σ i)))
  | .swap _ _ => isTrue trivial

/-- Execute a call; the second component is the string it returns, if it returns one. -/
def exec (σ : Store ι) : Op ι → Except Fault (Store ι × Option (List UInt8))
  | .call i c => do
      let (b, out) ← (σ i).execute c
      pure (Function.update σ i b, out)
  | .swap i j =>
      let (b, rhs) := (σ i).swap (σ j)
      .ok (Function.update (Function.update σ i b) j rhs, none)

/-- The reference: what each call does to byte strings. -/
def spec (s : Strings ι) : Op ι → Strings ι × Option (List UInt8)
  | .call i c => (Function.update s i (c.act (s i)).1, (c.act (s i)).2)
  | .swap i j => (Function.update (Function.update s i (s j)) j (s i), none)

/-! ## One call -/

theorem contents_update (σ : Store ι) (i : ι) (b : Buffer) :
    contents (Function.update σ i b) = Function.update (contents σ) i b.content := by
  funext j
  by_cases hj : j = i
  · subst hj
    simp [contents]
  · simp [contents, hj]

theorem update_wf {σ : Store ι} (h : ∀ i, (σ i).WF) (i : ι) {b : Buffer} (hb : b.WF) :
    ∀ j, (Function.update σ i b j).WF := by
  intro j
  by_cases hj : j = i
  · subst hj
    simpa using hb
  · simpa [hj] using h j

theorem exec_refines {σ : Store ι} (h : ∀ i, (σ i).WF) {op : Op ι} (hpre : op.Pre σ) :
    ∃ σ' out, exec σ op = .ok (σ', out) ∧ (∀ i, (σ' i).WF) ∧
      (contents σ', out) = spec (contents σ) op := by
  cases op with
  | call i c =>
      obtain ⟨b, hb, hwf, hcontent⟩ := execute_ok (h i) hpre
      refine ⟨Function.update σ i b, (c.act (σ i).content).2, ?_, update_wf h i hwf, ?_⟩
      · rw [exec, hb]
        rfl
      · rw [contents_update, hcontent]
        rfl
  | swap i j =>
      -- Also for `i = j`: the second update writes back what the first one wrote.
      refine ⟨_, none, rfl, update_wf (update_wf h i (h j)) j (h i), ?_⟩
      simp only [contents_update]
      rfl

/-! ## Sequences of calls -/

def run (σ : Store ι) : List (Op ι) → Except Fault (Store ι × List (Option (List UInt8)))
  | [] => .ok (σ, [])
  | op :: ops => do
      let (σ, out) ← exec σ op
      let (σ, outs) ← run σ ops
      pure (σ, out :: outs)

def specRun (s : Strings ι) : List (Op ι) → Strings ι × List (Option (List UInt8))
  | [] => (s, [])
  | op :: ops =>
      let (s, out) := spec s op
      let (s, outs) := specRun s ops
      (s, out :: outs)

/-- Every call of the sequence is made with its asserted precondition. -/
def PreAlong (σ : Store ι) : List (Op ι) → Prop
  | [] => True
  | op :: ops =>
      op.Pre σ ∧
        match exec σ op with
        | .ok (σ', _) => PreAlong σ' ops
        | .error _ => True

instance decidablePreAlong : (σ : Store ι) → (ops : List (Op ι)) → Decidable (PreAlong σ ops)
  | _, [] => isTrue trivial
  | σ, op :: ops =>
      match h : exec σ op with
      | .ok (σ', _) =>
          have := decidablePreAlong σ' ops
          decidable_of_iff (op.Pre σ ∧ PreAlong σ' ops) (by simp [PreAlong, h])
      | .error _ => decidable_of_iff (op.Pre σ) (by simp [PreAlong, h])

theorem run_refines {ops : List (Op ι)} :
    ∀ {σ : Store ι}, (∀ i, (σ i).WF) → PreAlong σ ops →
      ∃ σ' outs, run σ ops = .ok (σ', outs) ∧ (∀ i, (σ' i).WF) ∧
        (contents σ', outs) = specRun (contents σ) ops := by
  induction ops with
  | nil =>
      intro σ h _
      exact ⟨σ, [], rfl, h, rfl⟩
  | cons op ops ih =>
      intro σ h hpre
      obtain ⟨hop, hops⟩ := hpre
      obtain ⟨σ₁, out, hexec, hwf₁, hspec⟩ := exec_refines h hop
      -- The rest of the sequence runs from the buffers that the first call left.
      rw [hexec] at hops
      obtain ⟨σ₂, outs, hrun, hwf₂, hspec₂⟩ := ih hwf₁ hops
      refine ⟨σ₂, out :: outs, ?_, hwf₂, ?_⟩
      · simp [run, hexec, hrun]
      · simp [specRun, ← hspec, ← hspec₂]

theorem preAlong_take {ops : List (Op ι)} :
    ∀ {σ : Store ι} (k : Nat), PreAlong σ ops → PreAlong σ (ops.take k) := by
  induction ops with
  | nil =>
      intro σ k h
      simpa using h
  | cons op ops ih =>
      intro σ k h
      cases k with
      | zero => exact trivial
      | succ k =>
          refine ⟨h.1, ?_⟩
          have hops := h.2
          cases hexec : exec σ op with
          | error e => trivial
          | ok r =>
              rw [hexec] at hops
              exact ih k hops

/-- The family of freshly constructed buffers. -/
def initial (initialSize : ι → Nat) : Store ι :=
  fun i => Buffer.new (initialSize i)

/-- For every choice of initial sizes and every sequence of calls made with their asserted
preconditions, after any number `k` of the calls: no `assert` has failed and no access has left
the storage, every buffer satisfies the index invariant, and contents and returned strings are
those of the reference byte strings, which start empty. -/
theorem buffer_refines_string (initialSize : ι → Nat) (ops : List (Op ι))
    (hpre : PreAlong (initial initialSize) ops) (k : Nat) :
    ∃ σ outs, run (initial initialSize) (ops.take k) = .ok (σ, outs) ∧
      (∀ i, kCheapPrepend ≤ (σ i).buffer.length ∧ (σ i).readerIndex ≤ (σ i).writerIndex ∧
        (σ i).writerIndex ≤ (σ i).buffer.length) ∧
      (contents σ, outs) = specRun (fun _ => []) (ops.take k) := by
  have hinit : ∀ i, (initial initialSize i).WF := fun i => new_wf (initialSize i)
  obtain ⟨σ, outs, hrun, hwf, hspec⟩ := run_refines hinit (preAlong_take k hpre)
  refine ⟨σ, outs, hrun, ?_, ?_⟩
  · intro i
    exact ⟨(hwf i).cheap, (hwf i).reader, (hwf i).writer⟩
  · have hempty : contents (initial initialSize) = fun _ => [] := by
      funext i
      exact content_new (initialSize i)
    rw [hspec, hempty]

/-- Two buffers of initial size 4: the first grows, is consumed, slides, takes a prepend and
changes places with the second. -/
def demoOps : List (Op Bool) :=
  [.call false (.append [1, 2, 3, 4, 5, 6, 7]), .call false (.retrieve 6),
    .call false (.append [8, 9, 10]), .call false (.prepend [0]), .swap false true,
    .call true (.unwrite 1), .call true (.retrieveAsString 3)]

theorem buffer_refines_string_demo :
    PreAlong (initial fun _ => 4) demoOps ∧
      ∃ σ outs, run (initial fun _ => 4) (demoOps.take 7) = .ok (σ, outs) ∧
        (∀ i, kCheapPrepend ≤ (σ i).buffer.length ∧ (σ i).readerIndex ≤ (σ i).writerIndex ∧
          (σ i).writerIndex ≤ (σ i).buffer.length) ∧
        (contents σ, outs) = specRun (fun _ => []) (demoOps.take 7) := by
  have hpre : PreAlong (initial fun _ => 4) demoOps := by decide
  exact ⟨hpre, buffer_refines_string (fun _ => 4) demoOps hpre 7⟩

end BufferRefinement

end Net
end Muduo
