import Muduo.Net.BufferReadFd

/-!
# BufferCalls — the calls on a `Buffer`, and what each of them does to its content

`Call` lists the public operations of one buffer, and `execute` carries one of them out.  A call
whose asserted precondition holds succeeds on a well-formed buffer, leaves it well-formed, and
acts on the content and answers as on a byte string (`execute_ok`).  The runs of the other files
are runs of these calls.
-/

namespace Muduo
namespace Net
namespace Buffer

/-! ## Calls -/

/-- A call of a member function.  Pointer arguments are offsets from `peek()`, `hasWritten`
carries the bytes its caller put at `beginWrite()`, and `readFd` the outcome of its `::readv`. -/
inductive Call
  | append (data : List UInt8)
  | prepend (data : List UInt8)
  | readFd (r : Readv)
  | ensureWritableBytes (len : Nat)
  | hasWritten (data : List UInt8)
  | unwrite (len : Nat)
  | retrieve (len : Nat)
  | retrieveUntil (offset : Nat)
  | retrieveAll
  | retrieveAsString (len : Nat)
  | retrieveAllAsString
  | shrink (reserve : Nat)
  deriving DecidableEq, Repr

/-- The precondition that the called function asserts; for `readFd`, that the kernel keeps to
the iovecs it was given. -/
def Call.Pre (b : Buffer) : Call → Prop
  | .prepend data => data.length ≤ b.prependableBytes
  | .readFd r => b.Fits r
  | .hasWritten data => data.length ≤ b.writableBytes
  | .unwrite len => len ≤ b.readableBytes
  | .retrieve len => len ≤ b.readableBytes
  | .retrieveUntil offset => b.peek + offset ≤ b.beginWrite
  | .retrieveAsString len => len ≤ b.readableBytes
  | _ => True

instance (b : Buffer) (call : Call) : Decidable (call.Pre b) :=
  match call with
  | .append _ => isTrue trivial
  | .prepend _ => inferInstanceAs (Decidable (_ ≤ _))
  | .readFd _ => inferInstanceAs (Decidable (b.Fits _))
  | .ensureWritableBytes _ => isTrue trivial
  | .hasWritten _ => inferInstanceAs (Decidable (_ ≤ _))
  | .unwrite _ => inferInstanceAs (Decidable (_ ≤ _))
  | .retrieve _ => inferInstanceAs (Decidable (_ ≤ _))
  | .retrieveUntil _ => inferInstanceAs (Decidable (_ ≤ _))
  | .retrieveAll => isTrue trivial
  | .retrieveAsString _ => inferInstanceAs (Decidable (_ ≤ _))
  | .retrieveAllAsString => isTrue trivial
  | .shrink _ => isTrue trivial

/-- A function that returns no string. -/
def quiet (call : Except Fault Buffer) : Except Fault (Buffer × Option (List UInt8)) := do
  let b ← call
  pure (b, none)

def answering (call : Except Fault (Buffer × List UInt8)) :
    Except Fault (Buffer × Option (List UInt8)) := do
  let (b, result) ← call
  pure (b, some result)

/-- The buffer after a call, and the string that the call returns, if it returns one; what
`readFd` returns is left out. -/
def execute (b : Buffer) : Call → Except Fault (Buffer × Option (List UInt8))
  | .append data => quiet (b.append data)
  | .prepend data => quiet (b.prepend data)
  | .readFd r => do
      let (b, _, _) ← b.readFd 0 r
      pure (b, none)
  | .ensureWritableBytes len => quiet (b.ensureWritableBytes len)
  | .hasWritten data =>
      -- The caller writes at `beginWrite()` first.
      quiet (b.store b.beginWrite data >>= fun b => b.hasWritten data.length)
  | .unwrite len => quiet (b.unwrite len)
  | .retrieve len => quiet (b.retrieve len)
  | .retrieveUntil offset => quiet (b.retrieveUntil (b.peek + offset))
  | .retrieveAll => quiet (pure b.retrieveAll)
  | .retrieveAsString len => answering (b.retrieveAsString len)
  | .retrieveAllAsString => answering b.retrieveAllAsString
  | .shrink reserve => quiet (b.shrink reserve)

/-- The buffer after a call. -/
def perform (b : Buffer) (call : Call) : Except Fault Buffer := do
  let (b, _) ← b.execute call
  pure b

/-- What a call does to a byte string, and the string it returns. -/
def Call.act (content : List UInt8) : Call → List UInt8 × Option (List UInt8)
  | .append data => (content ++ data, none)
  | .prepend data => (data ++ content, none)
  | .readFd (.failed _) => (content, none)
  | .readFd (.delivered data) => (content ++ data, none)
  | .ensureWritableBytes _ => (content, none)
  | .hasWritten data => (content ++ data, none)
  | .unwrite len => (content.take (content.length - len), none)
  | .retrieve len => (content.drop len, none)
  | .retrieveUntil offset => (content.drop offset, none)
  | .retrieveAll => ([], none)
  | .retrieveAsString len => (content.drop len, some (content.take len))
  | .retrieveAllAsString => ([], some content)
  | .shrink _ => (content, none)

/-! ## One call -/

theorem quiet_ok {call : Except Fault Buffer} {content : List UInt8}
    (h : ∃ b, call = .ok b ∧ b.WF ∧ b.content = content) :
    ∃ b, quiet call = .ok (b, none) ∧ b.WF ∧ b.content = content := by
  obtain ⟨b, rfl, hb⟩ := h
  exact ⟨b, rfl, hb⟩

theorem quiet_eq_ok {call : Except Fault Buffer} {b : Buffer} {out : Option (List UInt8)}
    (h : quiet call = .ok (b, out)) : call = .ok b := by
  obtain ⟨b', rfl, h⟩ := exists_ok_of_bind h
  cases h
  rfl

theorem answering_ok {call : Except Fault (Buffer × List UInt8)} {content result : List UInt8}
    (h : ∃ b, call = .ok (b, result) ∧ b.WF ∧ b.content = content) :
    ∃ b, answering call = .ok (b, some result) ∧ b.WF ∧ b.content = content := by
  obtain ⟨b, rfl, hb⟩ := h
  exact ⟨b, rfl, hb⟩

/-- The pointer comparisons of `retrieveUntil` bound its offset by the readable bytes. -/
theorem WF.le_readableBytes_of_le_beginWrite {b : Buffer} (h : b.WF) {offset : Nat}
    (hend : b.peek + offset ≤ b.beginWrite) : offset ≤ b.readableBytes := by
  have hend' : b.readerIndex + offset ≤ b.writerIndex := hend
  rw [h.readableBytes_eq]
  omega

/-- A call on a well-formed buffer is the call on its content. -/
theorem execute_ok {b : Buffer} (h : b.WF) {call : Call} (hpre : call.Pre b) :
    ∃ b', b.execute call = .ok (b', (call.act b.content).2) ∧ b'.WF ∧
      b'.content = (call.act b.content).1 := by
  cases call with
  | append data => exact quiet_ok (append_ok h data)
  | prepend data => exact quiet_ok (prepend_ok h hpre)
  | readFd r =>
      cases r with
      | failed errno => exact ⟨b, rfl, h, rfl⟩
      | delivered data =>
          obtain ⟨b', hb', hwf, hcontent⟩ := readFd_delivered h 0 hpre
          exact ⟨b', by simp [execute, hb', Call.act], hwf, hcontent⟩
  | ensureWritableBytes len =>
      obtain ⟨b', hb', hwf, hcontent, _⟩ := ensureWritableBytes_ok h len
      exact quiet_ok ⟨b', hb', hwf, hcontent⟩
  | hasWritten data => exact quiet_ok (store_hasWritten_ok h hpre)
  | unwrite len => exact quiet_ok (unwrite_ok h hpre)
  | retrieve len => exact quiet_ok (retrieve_ok h hpre)
  | retrieveUntil offset =>
      exact quiet_ok (retrieveUntil_ok h (h.le_readableBytes_of_le_beginWrite hpre))
  | retrieveAll => exact quiet_ok ⟨_, rfl, retrieveAll_wf h, content_retrieveAll b⟩
  | retrieveAsString len => exact answering_ok (retrieveAsString_ok h hpre)
  | retrieveAllAsString =>
      have hall := retrieveAsString_ok h (Nat.le_refl b.readableBytes)
      rw [← h.length_content, List.take_length, List.drop_length, h.length_content] at hall
      exact answering_ok hall
  | shrink reserve => exact quiet_ok (shrink_ok h reserve)

theorem perform_ok {b : Buffer} (h : b.WF) {call : Call} (hpre : call.Pre b) :
    ∃ b', b.perform call = .ok b' ∧ b'.WF ∧ b'.content = (call.act b.content).1 := by
  obtain ⟨b', hb', hwf, hcontent⟩ := execute_ok h hpre
  exact ⟨b', by rw [perform, hb']; rfl, hwf, hcontent⟩

theorem perform_wf {b b' : Buffer} (h : b.WF) {call : Call} (hpre : call.Pre b)
    (hcall : b.perform call = .ok b') : b'.WF ∧ b'.content = (call.act b.content).1 := by
  obtain ⟨b₁, hb₁, hwf, hcontent⟩ := perform_ok h hpre
  rw [hcall] at hb₁
  cases hb₁
  exact ⟨hwf, hcontent⟩

/-! ## Runs -/

/-- Runs of calls on one buffer, each within its asserted precondition. -/
def system (initialSize : Nat) : StepSystem Buffer Call :=
  .ofExec (fun b => b = Buffer.new initialSize) (fun b call => call.Pre b) perform

theorem reachable_wf {initialSize : Nat} {b : Buffer} (h : (system initialSize).Reachable b) :
    b.WF := by
  refine h.invariant ?_ ?_
  · rintro _ rfl
    exact new_wf initialSize
  · rintro b call b' hb ⟨hpre, hcall⟩
    exact (perform_wf hb hpre hcall).1

end Buffer
end Net
end Muduo
