import Mathlib.Logic.Function.Basic
import Muduo.Net.BufferStorage

/-!
# BufferMove — the implicit move constructor and move assignment of `Buffer`

A member-wise move takes the vector of the source, which is left empty, and copies the two
indices, which the source keeps.  The indices of a moved-from buffer therefore point behind its
storage; and if they do not (both may be zero after a `prepend` and an `unwrite`), `retrieveAll`
sets them to `kCheapPrepend`, which does.  `writableBytes()` then wraps, and the next `append`
writes without asking for room.

`run_sound_iff` draws the line for whole runs over a family of buffers: all of them stay sound
exactly as long as none is moved.
-/

namespace Muduo
namespace Net
namespace Buffer

/-- `Buffer(std::move(rhs))`: the new buffer, and `rhs` after it. -/
def moveConstruct (rhs : Buffer) : Buffer × Buffer :=
  (rhs, { rhs with buffer := [] })

/-- `*this = std::move(rhs)` for another buffer `rhs`: the values of both after it. -/
def moveAssign (_ rhs : Buffer) : Buffer × Buffer :=
  (rhs, { rhs with buffer := [] })

/-! ## Sound buffers -/

/-- `readerIndex_ <= writerIndex_ <= buffer_.size()`. -/
def InOrder (b : Buffer) : Prop :=
  b.readerIndex ≤ b.writerIndex ∧ b.writerIndex ≤ b.buffer.length

/-- The calls that ask nothing of their caller, and that every buffer must stand. -/
def Call.isFree : Call → Bool
  | .append _ => true
  | .retrieveAll => true
  | .shrink _ => true
  | _ => false

/-- The indices are in order, and any later `append`, `retrieveAll` or `shrink`, after any number
of them, stays within the storage. -/
structure Sound (b : Buffer) : Prop where
  inOrder : b.InOrder
  later : ∀ calls : List Call, (∀ call ∈ calls, call.isFree = true) →
    ∃ b', StepSystem.execAll perform b calls = .ok b'

theorem pre_of_isFree {call : Call} (h : call.isFree = true) (b : Buffer) : call.Pre b := by
  cases call <;> trivial

theorem execAll_ok {calls : List Call} :
    ∀ {b : Buffer}, b.WF → (∀ call ∈ calls, call.isFree = true) →
      ∃ b', StepSystem.execAll perform b calls = .ok b' := by
  induction calls with
  | nil =>
      intro b _ _
      exact ⟨b, rfl⟩
  | cons call calls ih =>
      intro b h hfree
      have hpre := pre_of_isFree (hfree call List.mem_cons_self) b
      obtain ⟨b₁, hb₁, hwf, _⟩ := perform_ok h hpre
      obtain ⟨b', hb'⟩ := ih hwf fun c hc => hfree c (List.mem_cons_of_mem _ hc)
      exact ⟨b', by simp only [StepSystem.execAll, hb₁, hb']⟩

theorem WF.sound {b : Buffer} (h : b.WF) : b.Sound where
  inOrder := ⟨h.reader, h.writer⟩
  later := fun _ hfree => execAll_ok h hfree

/-- Once `retrieveAll` has set the indices of a buffer without storage, `writableBytes()` wraps
and `append` writes behind the storage. -/
theorem append_overflows {b : Buffer} (h : b.buffer = []) :
    b.retrieveAll.append [0] = .error .outOfBounds := by
  cases b
  cases h
  rfl

theorem not_sound_of_empty {b : Buffer} (h : b.buffer = []) : ¬ b.Sound := by
  intro hsound
  obtain ⟨b', hb'⟩ := hsound.later [.retrieveAll, .append [0]] (by decide)
  have hfault : StepSystem.execAll perform b [.retrieveAll, .append [0]] =
      .error .outOfBounds := by
    simp [StepSystem.execAll, perform, execute, quiet, append_overflows h]
  rw [hfault] at hb'
  cases hb'

end Buffer

/-! ## Runs over a family of buffers -/

namespace BufferMove

open Buffer

/-- A call on one buffer of the family, or one that involves two. -/
inductive Op (ι : Type)
  | call (i : ι) (c : Call)
  | swap (i j : ι)
  | moveConstruct (i j : ι)
  | moveAssign (i j : ι)
  deriving DecidableEq, Repr

/-- The operation moves a buffer. -/
def Op.isMove {ι : Type} : Op ι → Bool
  | .moveConstruct _ _ => true
  | .moveAssign _ _ => true
  | _ => false

variable {ι : Type} [DecidableEq ι]

/-- Replace the buffers `i` and `j`. -/
def put (σ : ι → Buffer) (i j : ι) (bs : Buffer × Buffer) : ι → Buffer :=
  Function.update (Function.update σ i bs.1) j bs.2

def exec (σ : ι → Buffer) : Op ι → Except Fault (ι → Buffer)
  | .call i c => do
      let b ← (σ i).perform c
      pure (Function.update σ i b)
  | .swap i j => pure (put σ i j ((σ i).swap (σ j)))
  | .moveConstruct i j => pure (put σ i j (σ j).moveConstruct)
  | .moveAssign i j => pure (put σ i j ((σ i).moveAssign (σ j)))

/-- Calls are made within their asserted preconditions, and no buffer is moved into itself. -/
def Enabled (σ : ι → Buffer) : Op ι → Prop
  | .call i c => c.Pre (σ i)
  | .swap _ _ => True
  | .moveConstruct i j => i ≠ j
  | .moveAssign i j => i ≠ j

instance (σ : ι → Buffer) (op : Op ι) : Decidable (Enabled σ op) :=
  match op with
  | .call i c => inferInstanceAs (Decidable (c.Pre (σ i)))
  | .swap _ _ => isTrue trivial
  | .moveConstruct i j => inferInstanceAs (Decidable (i ≠ j))
  | .moveAssign i j => inferInstanceAs (Decidable (i ≠ j))

def system (initialSize : ι → Nat) : StepSystem (ι → Buffer) (Op ι) :=
  .ofExec (fun σ => σ = fun i => Buffer.new (initialSize i)) Enabled exec

variable {σ σ' : ι → Buffer} {initialSize : ι → Nat}

/-- A step that moves nothing keeps every buffer well-formed. -/
theorem exec_wf (h : ∀ i, (σ i).WF) {op : Op ι} (hmove : op.isMove = false)
    (hen : Enabled σ op) (hstep : exec σ op = .ok σ') : ∀ i, (σ' i).WF := by
  intro k
  cases op with
  | call i c =>
      rcases exists_ok_of_bind hstep with ⟨b, hb, hstep⟩
      cases hstep
      by_cases hk : k = i
      · subst hk
        rw [Function.update_self]
        exact (perform_wf (h k) hen hb).1
      · rw [Function.update_of_ne hk]
        exact h k
  | swap i j =>
      cases hstep
      by_cases hj : k = j
      · subst hj
        simp only [put, Function.update_self]
        exact h i
      · by_cases hi : k = i
        · subst hi
          simp only [put, Function.update_of_ne hj, Function.update_self]
          exact h j
        · simp only [put, Function.update_of_ne hj, Function.update_of_ne hi]
          exact h k
  | moveConstruct i j => cases hmove
  | moveAssign i j => cases hmove

/-- The source of a move is not sound after it, whatever it was before; the target takes over
what the source was. -/
theorem exec_moved {op : Op ι} (hmove : op.isMove = true) (hen : Enabled σ op)
    (hstep : exec σ op = .ok σ') :
    ∃ i j, i ≠ j ∧ σ' i = σ j ∧ ¬ (σ' j).Sound := by
  cases op with
  | call i c => cases hmove
  | swap i j => cases hmove
  | moveConstruct i j =>
      cases hstep
      refine ⟨i, j, hen, ?_, ?_⟩
      · simp [put, Function.update_of_ne (show i ≠ j from hen), Buffer.moveConstruct]
      · refine not_sound_of_empty ?_
        simp [put, Buffer.moveConstruct]
  | moveAssign i j =>
      cases hstep
      refine ⟨i, j, hen, ?_, ?_⟩
      · simp [put, Function.update_of_ne (show i ≠ j from hen), Buffer.moveAssign]
      · refine not_sound_of_empty ?_
        simp [put, Buffer.moveAssign]

theorem run_wf {ops : List (Op ι)} (hrun : (system initialSize).Run σ ops σ') :
    (∀ op ∈ ops, op.isMove = false) → (∀ i, (σ i).WF) → ∀ i, (σ' i).WF := by
  induction hrun with
  | nil σ =>
      intro _ h
      exact h
  | cons hstep _ ih =>
      intro hmoves h
      refine ih (fun op hop => hmoves op (List.mem_cons_of_mem _ hop)) ?_
      exact exec_wf h (hmoves _ List.mem_cons_self) hstep.1 hstep.2

/-- In every run, all buffers are sound in every state on the way exactly when no operation of
the run moves a buffer. -/
theorem run_sound_iff (initialSize : ι → Nat) {σ₀ σ : ι → Buffer} {ops : List (Op ι)}
    (h₀ : (system initialSize).init σ₀) (hrun : (system initialSize).Run σ₀ ops σ) :
    (∀ before σ₁, before <+: ops → (system initialSize).Run σ₀ before σ₁ →
      ∀ i, (σ₁ i).Sound) ↔ ∀ op ∈ ops, op.isMove = false := by
  constructor
  · intro hsound op hop
    by_contra hmove
    obtain ⟨before, after, rfl⟩ := List.append_of_mem hop
    obtain ⟨σ₁, hbefore, hrest⟩ := hrun.exists_mid
    cases hrest with
    | cons hstep hafter =>
        rename_i σ₂
        -- The source of the move is not sound right after it.
        obtain ⟨_, j, _, _, hbad⟩ := exec_moved (by simpa using hmove) hstep.1 hstep.2
        have hpre : before ++ [op] <+: before ++ op :: after := ⟨after, by simp⟩
        exact hbad (hsound _ _ hpre (hbefore.append (.cons hstep (.nil _))) j)
  · intro hmoves before σ₁ hpre hbefore i
    have hwf : ∀ i, (σ₀ i).WF := by
      rw [show σ₀ = fun i => Buffer.new (initialSize i) from h₀]
      exact fun i => new_wf (initialSize i)
    exact (run_wf hbefore (fun op hop => hmoves op (hpre.subset hop)) hwf i).sound

theorem run_sound_iff_swap :
    (∀ before σ₁, before <+: [.call false (.append [1, 2]), .swap false true] →
        (system fun _ : Bool => 4).Run (fun _ => Buffer.new 4) before σ₁ →
        ∀ i, (σ₁ i).Sound) ↔
      ∀ op ∈ [Op.call false (.append [1, 2]), .swap false true], op.isMove = false := by
  let ops : List (Op Bool) := [.call false (.append [1, 2]), .swap false true]
  let b : Buffer := ⟨[0, 0, 0, 0, 0, 0, 0, 0, 1, 2, 0, 0], 8, 10⟩
  let σ₁ : Bool → Buffer := Function.update (fun _ => Buffer.new 4) false b
  have hrun : (system fun _ : Bool => 4).Run (fun _ => Buffer.new 4) ops
      (put σ₁ false true (Buffer.new 4, b)) :=
    StepSystem.run_of_execAll (by decide) rfl
  exact run_sound_iff (fun _ => 4) rfl hrun

/-- A buffer with five bytes is moved: its own indices stay at 8 and 13, its storage is gone, and
the next `append` writes one byte behind it. -/
theorem moved_from_overflows :
    ∃ σ, (system fun _ : Bool => 5).Run (fun _ => Buffer.new 5)
        [.call false (.append [109, 117, 100, 117, 111]), .moveConstruct true false] σ ∧
      (σ true).content = [109, 117, 100, 117, 111] ∧
      σ false = ⟨[], 8, 13⟩ ∧ ¬ (σ false).InOrder ∧
      (σ false).append [120] = .error .outOfBounds := by
  let ops : List (Op Bool) :=
    [.call false (.append [109, 117, 100, 117, 111]), .moveConstruct true false]
  let b : Buffer := ⟨[0, 0, 0, 0, 0, 0, 0, 0, 109, 117, 100, 117, 111], 8, 13⟩
  let σ₁ : Bool → Buffer := Function.update (fun _ => Buffer.new 5) false b
  have hrun : (system fun _ : Bool => 5).Run (fun _ => Buffer.new 5) ops
      (put σ₁ true false (b, ⟨[], 8, 13⟩)) :=
    StepSystem.run_of_execAll (by decide) rfl
  refine ⟨_, hrun, by decide, rfl, ?_, by decide⟩
  intro horder
  exact absurd horder.2 (by decide)

end BufferMove
end Net
end Muduo
