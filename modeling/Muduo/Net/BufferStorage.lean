import Muduo.Net.BufferCalls

/-!
# BufferStorage — how large the storage of a `Buffer` gets

`makeSpace` grows the storage to `writerIndex_ + len`, and only when `len` bytes do not fit beside
the content; the consumed bytes in front of the content are then fewer than `len + kCheapPrepend`,
so the storage stays below twice the content that the call makes room for.
-/

namespace Muduo
namespace Net
namespace Buffer

open Window

/-! ## The size of the storage -/

theorem store_size {b b' : Buffer} {pos : Nat} {data : List UInt8}
    (hcall : b.store pos data = .ok b') : b'.buffer.length = b.buffer.length := by
  by_cases hroom : pos + data.length ≤ b.buffer.length
  · rw [store_ok hroom] at hcall
    cases hcall
    exact length_overwrite hroom
  · simp [store, hroom] at hcall

theorem store_indices {b b' : Buffer} {pos : Nat} {data : List UInt8}
    (hcall : b.store pos data = .ok b') :
    b'.readerIndex = b.readerIndex ∧ b'.writerIndex = b.writerIndex := by
  simp only [store] at hcall
  split at hcall
  · cases hcall
    exact ⟨rfl, rfl⟩
  · cases hcall

theorem retrieve_size {b b' : Buffer} {len : Nat} (hcall : b.retrieve len = .ok b') :
    b'.buffer.length = b.buffer.length := by
  rcases exists_ok_of_bind hcall with ⟨_, _, hcall⟩
  split at hcall <;> (cases hcall; rfl)

theorem retrieveAsString_size {b b' : Buffer} {len : Nat} {result : List UInt8}
    (hcall : b.retrieveAsString len = .ok (b', result)) :
    b'.buffer.length = b.buffer.length := by
  rcases exists_ok_of_bind hcall with ⟨_, _, hcall⟩
  rcases exists_ok_of_bind hcall with ⟨_, _, hcall⟩
  rcases exists_ok_of_bind hcall with ⟨b₁, hretrieve, hcall⟩
  cases hcall
  exact retrieve_size hretrieve

/-- Only the growing branch of `makeSpace` changes the size.  It is taken when what lies in
front of the content and behind it is less than `len + kCheapPrepend`. -/
theorem makeSpace_size {b b' : Buffer} (h : b.WF) {len : Nat}
    (hcall : b.makeSpace len = .ok b') :
    b'.buffer.length ≤ max b.buffer.length (2 * (b.readableBytes + len) + kCheapPrepend) := by
  have hr := h.readableBytes_eq
  have hw := h.writableBytes_eq
  have hreader := h.reader
  have hwriter := h.writer
  by_cases hgrow : b.writableBytes + b.prependableBytes < len + kCheapPrepend
  · rw [makeSpace, if_pos hgrow] at hcall
    cases hcall
    have hconsumed : b.readerIndex < len + kCheapPrepend :=
      Nat.lt_of_le_of_lt (Nat.le_add_left _ _) hgrow
    simp only [resize, List.length_append, List.length_take, List.length_replicate]
    omega
  · rw [makeSpace, if_neg hgrow] at hcall
    rcases exists_ok_of_bind hcall with ⟨_, _, hcall⟩
    rcases exists_ok_of_bind hcall with ⟨content, _, hcall⟩
    rcases exists_ok_of_bind hcall with ⟨b₁, hstore, hcall⟩
    rcases exists_ok_of_bind hcall with ⟨_, _, hcall⟩
    cases hcall
    rw [store_size hstore]
    exact Nat.le_max_left _ _

theorem ensureWritableBytes_size {b b' : Buffer} (h : b.WF) {len : Nat}
    (hcall : b.ensureWritableBytes len = .ok b') :
    b'.buffer.length ≤ max b.buffer.length (2 * (b.readableBytes + len) + kCheapPrepend) := by
  by_cases hlt : b.writableBytes < len
  · simp only [ensureWritableBytes, if_pos hlt] at hcall
    rcases exists_ok_of_bind hcall with ⟨b₁, hspace, hcall⟩
    rcases exists_ok_of_bind hcall with ⟨_, _, hcall⟩
    cases hcall
    exact makeSpace_size h hspace
  · simp only [ensureWritableBytes, if_neg hlt, pure_eq_ok, ok_bind] at hcall
    rcases exists_ok_of_bind hcall with ⟨_, _, hcall⟩
    cases hcall
    exact Nat.le_max_left _ _

theorem append_size {b b' : Buffer} (h : b.WF) {data : List UInt8}
    (hcall : b.append data = .ok b') :
    b'.buffer.length ≤ max b.buffer.length (2 * b'.readableBytes + kCheapPrepend) := by
  have hgrown : b'.readableBytes = b.readableBytes + data.length := by
    obtain ⟨b₁, hb₁, hwf, hcontent⟩ := append_ok h data
    rw [hcall] at hb₁
    cases hb₁
    rw [← hwf.length_content, hcontent, List.length_append, h.length_content]
  rcases exists_ok_of_bind hcall with ⟨b₁, hensure, hcall⟩
  rcases exists_ok_of_bind hcall with ⟨b₂, hstore, hcall⟩
  rcases exists_ok_of_bind hcall with ⟨_, _, hcall⟩
  have hsize := store_size hstore
  cases hcall
  rw [hgrown]
  exact Nat.le_trans (Nat.le_of_eq hsize) (ensureWritableBytes_size h hensure)

/-- The bytes that `readFd` appends from `extrabuf` find the storage full; what it grows to is
bounded by the content it ends with. -/
theorem readFd_size {b b' : Buffer} (h : b.WF) {savedErrno savedErrno' n : Int} {r : Readv}
    (hcall : b.readFd savedErrno r = .ok (b', savedErrno', n)) :
    b'.buffer.length ≤ max b.buffer.length (2 * b'.readableBytes + kCheapPrepend) := by
  cases r with
  | failed errno =>
      cases hcall
      exact Nat.le_max_left _ _
  | delivered data =>
      rcases exists_ok_of_bind hcall with ⟨⟨b₁, extrabuf⟩, hscatter, hcall⟩
      by_cases hle : data.length ≤ b.iovLens.sum
      case neg => simp [scatter, hle] at hscatter
      case pos =>
        simp only [scatter, if_pos hle] at hscatter
        rcases exists_ok_of_bind hscatter with ⟨b₂, hstore, hscatter⟩
        have hsize := store_size hstore
        have hindices := store_indices hstore
        cases hscatter
        dsimp only at hcall
        by_cases hfit : data.length ≤ b.writableBytes
        · rw [if_pos hfit] at hcall
          cases hcall
          exact Nat.le_trans (Nat.le_of_eq hsize) (Nat.le_max_left _ _)
        · rw [if_neg hfit] at hcall
          rcases exists_ok_of_bind hcall with ⟨b₃, happend, hcall⟩
          cases hcall
          have hwf : WF { b₁ with writerIndex := b₁.buffer.length } := by
            refine ⟨?_, ?_, Nat.le_refl _⟩
            · exact Nat.le_trans h.cheap (Nat.le_of_eq hsize.symm)
            · simp only [hindices.1, hsize]
              exact Nat.le_trans h.reader h.writer
          have hgrown := append_size hwf happend
          rw [← hsize]
          exact hgrown

/-! ## Runs -/

/-- What a caller who keeps to `M` bytes does: it asks for no more room than `M` allows, and does
not `shrink`. -/
def Call.Within (M : Nat) (b : Buffer) : Call → Prop
  | .ensureWritableBytes len => b.readableBytes + len ≤ M
  | .shrink _ => False
  | _ => True

/-- The content after the call has at most `M` bytes. -/
def Call.PeakWithin (M : Nat) (b : Buffer) (call : Call) : Prop :=
  match b.perform call with
  | .ok b' => b'.readableBytes ≤ M
  | .error _ => True

instance (M : Nat) (b : Buffer) (call : Call) : Decidable (call.Within M b) :=
  match call with
  | .ensureWritableBytes _ => inferInstanceAs (Decidable (_ ≤ _))
  | .shrink _ => isFalse id
  | .append _ => isTrue trivial
  | .prepend _ => isTrue trivial
  | .readFd _ => isTrue trivial
  | .hasWritten _ => isTrue trivial
  | .unwrite _ => isTrue trivial
  | .retrieve _ => isTrue trivial
  | .retrieveUntil _ => isTrue trivial
  | .retrieveAll => isTrue trivial
  | .retrieveAsString _ => isTrue trivial
  | .retrieveAllAsString => isTrue trivial

instance (M : Nat) (b : Buffer) (call : Call) : Decidable (call.PeakWithin M b) :=
  match h : b.perform call with
  | .ok b' => decidable_of_iff (b'.readableBytes ≤ M) (by simp [Call.PeakWithin, h])
  | .error _ => isTrue (by simp [Call.PeakWithin, h])

/-- Runs in which the content never exceeds `M` bytes. -/
def boundedSystem (initialSize M : Nat) : StepSystem Buffer Call :=
  .ofExec (fun b => b = Buffer.new initialSize)
    (fun b call => call.Pre b ∧ call.Within M b ∧ call.PeakWithin M b) perform

theorem perform_size {M : Nat} {b b' : Buffer} (h : b.WF) {call : Call} (hpre : call.Pre b)
    (hwithin : call.Within M b) (hcall : b.perform call = .ok b')
    (hpeak : b'.readableBytes ≤ M) :
    b'.buffer.length ≤ max b.buffer.length (2 * M + kCheapPrepend) := by
  have hsame : b'.buffer.length = b.buffer.length →
      b'.buffer.length ≤ max b.buffer.length (2 * M + kCheapPrepend) := by
    intro heq
    rw [heq]
    exact Nat.le_max_left _ _
  have hgrown : ∀ m ≤ M, b'.buffer.length ≤ max b.buffer.length (2 * m + kCheapPrepend) →
      b'.buffer.length ≤ max b.buffer.length (2 * M + kCheapPrepend) := by
    intro m hm hle
    omega
  rcases exists_ok_of_bind hcall with ⟨⟨b₁, out⟩, hexec, hcall⟩
  cases hcall
  cases call with
  | append data => exact hgrown _ hpeak (append_size h (quiet_eq_ok hexec))
  | prepend data =>
      rcases exists_ok_of_bind (quiet_eq_ok hexec) with ⟨_, _, hcall⟩
      dsimp only at hcall
      have hsize := store_size hcall
      exact hsame hsize
  | readFd r =>
      rcases exists_ok_of_bind hexec with ⟨⟨b₁, savedErrno', n⟩, hread, hexec⟩
      cases hexec
      exact hgrown _ hpeak (readFd_size h hread)
  | ensureWritableBytes len =>
      exact hgrown _ hwithin (ensureWritableBytes_size h (quiet_eq_ok hexec))
  | hasWritten data =>
      rcases exists_ok_of_bind (quiet_eq_ok hexec) with ⟨b₁, hstore, hcall⟩
      rcases exists_ok_of_bind hcall with ⟨_, _, hcall⟩
      have hsize := store_size hstore
      cases hcall
      exact hsame hsize
  | unwrite len =>
      rcases exists_ok_of_bind (quiet_eq_ok hexec) with ⟨_, _, hcall⟩
      cases hcall
      exact hsame rfl
  | retrieve len => exact hsame (retrieve_size (quiet_eq_ok hexec))
  | retrieveUntil offset =>
      rcases exists_ok_of_bind (quiet_eq_ok hexec) with ⟨_, _, hcall⟩
      rcases exists_ok_of_bind hcall with ⟨_, _, hcall⟩
      exact hsame (retrieve_size hcall)
  | retrieveAll =>
      cases hexec
      exact hsame rfl
  | retrieveAsString len =>
      rcases exists_ok_of_bind hexec with ⟨⟨b₁, result⟩, hretrieve, hexec⟩
      cases hexec
      exact hsame (retrieveAsString_size hretrieve)
  | retrieveAllAsString =>
      rcases exists_ok_of_bind hexec with ⟨⟨b₁, result⟩, hretrieve, hexec⟩
      cases hexec
      exact hsame (retrieveAsString_size hretrieve)
  | shrink reserve => exact absurd hwithin id

@[simp] theorem size_new (initialSize : Nat) :
    (Buffer.new initialSize).buffer.length = kCheapPrepend + initialSize :=
  List.length_replicate

/-- However many bytes have passed through, the storage of a buffer whose content never exceeds
`M` bytes stays within its initial size or twice `M`, whichever is larger. -/
theorem storage_le_of_peak (initialSize M : Nat) (b : Buffer)
    (h : (boundedSystem initialSize M).Reachable b) :
    b.buffer.length ≤ max (kCheapPrepend + initialSize) (2 * M + kCheapPrepend) := by
  suffices hinv : b.WF ∧
      b.buffer.length ≤ max (kCheapPrepend + initialSize) (2 * M + kCheapPrepend) from hinv.2
  refine h.invariant (I := fun b => b.WF ∧
    b.buffer.length ≤ max (kCheapPrepend + initialSize) (2 * M + kCheapPrepend)) ?_ ?_
  · rintro _ rfl
    exact ⟨new_wf initialSize, Nat.le_trans (Nat.le_of_eq (size_new _)) (Nat.le_max_left _ _)⟩
  · rintro b call b' ⟨hwf, hsize⟩ ⟨⟨hpre, hwithin, hpeak⟩, hcall⟩
    rw [Call.PeakWithin, hcall] at hpeak
    refine ⟨(perform_wf hwf hpre hcall).1, ?_⟩
    exact Nat.le_trans (perform_size hwf hpre hwithin hcall hpeak)
      (Nat.max_le.mpr ⟨hsize, Nat.le_max_right _ _⟩)

-- Eight bytes at a time through a buffer of initial size 4: it grows twice, then slides.
theorem storage_le_of_peak_busy :
    ∃ b, (boundedSystem 4 8).Reachable b ∧ b.buffer.length = 20 ∧
      b.buffer.length ≤ max (kCheapPrepend + 4) (2 * 8 + kCheapPrepend) := by
  let calls : List Call :=
    [.append [1, 2, 3, 4, 5], .retrieve 4, .append [1, 2, 3, 4, 5, 6, 7], .retrieve 7,
      .readFd (.delivered [8, 9]), .ensureWritableBytes 5, .unwrite 1]
  let b₁ : Buffer :=
    ⟨[0, 0, 0, 0, 0, 0, 0, 0, 7, 8, 9, 4, 5, 1, 2, 3, 4, 5, 6, 7], 8, 10⟩
  have hrun : (boundedSystem 4 8).Run (Buffer.new 4) calls b₁ :=
    StepSystem.run_of_execAll (by decide) (by decide)
  have hreach := hrun.reachable (.init rfl)
  exact ⟨b₁, hreach, rfl, storage_le_of_peak 4 8 b₁ hreach⟩

end Buffer
end Net
end Muduo
