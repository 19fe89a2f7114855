import Mathlib.Algebra.Order.Ring.Nat
import Muduo.Foundation.StepSystem
import Muduo.Net.Buffer

/-!
# BufferReadFd — reading from a socket into a `Buffer`

`readFd` of `muduo/net/Buffer.cc` lets `::readv` fill the writable bytes of the buffer and, when
these are fewer than 64 KiB, a second area on the stack; what lands there is appended afterwards.
The outcome of `::readv` is a parameter.  `readFd_delivered` and `readFd_failed` say what one
call does; the `system` at the end runs `readFd` and `retrieve` in any order and compares the
bytes that left the buffer with the stream that entered it.
-/

namespace Muduo
namespace Net

open Window

/-- The outcome of `::readv`: `-1` with an `errno`, or the bytes it put into the iovecs. -/
inductive Readv
  | failed (errno : Int)
  | delivered (data : List UInt8)
  deriving DecidableEq, Repr

/-- The value `::readv` returns. -/
def Readv.n : Readv → Int
  | .failed _ => -1
  | .delivered data => data.length

namespace Buffer

/-- `sizeof(extrabuf)`. -/
def kExtrabuf : Nat := 65536

/-- The `iov_len`s of the iovecs that `readFd` passes. -/
def iovLens (b : Buffer) : List Nat :=
  let writable := b.writableBytes
  let vec := [writable, kExtrabuf]
  let iovcnt := if writable < kExtrabuf then 2 else 1
  vec.take iovcnt

/-- `readv` fails, or delivers at most as many bytes as the iovecs hold. -/
def Fits (b : Buffer) : Readv → Prop
  | .failed _ => True
  | .delivered data => data.length ≤ b.iovLens.sum

instance (b : Buffer) (r : Readv) : Decidable (b.Fits r) :=
  match r with
  | .failed _ => isTrue trivial
  | .delivered _ => inferInstanceAs (Decidable (_ ≤ _))

/-- What `::readv` puts into the writable bytes and into `extrabuf`: it fills the iovecs in
order, and would leave the last one if it delivered more than they hold. -/
def scatter (b : Buffer) (data : List UInt8) : Except Fault (Buffer × List UInt8) := do
  if data.length ≤ b.iovLens.sum then
    let b' ← b.store b.writerIndex (data.take b.writableBytes)
    pure (b', data.drop b.writableBytes)
  else
    .error .outOfBounds

/-- `readFd(fd, savedErrno)`: the buffer, the new `*savedErrno` and the returned value. -/
def readFd (b : Buffer) (savedErrno : Int) (r : Readv) : Except Fault (Buffer × Int × Int) :=
  let writable := b.writableBytes
  match r with
  | .failed errno => .ok (b, errno, r.n)
  | .delivered data => do
      let (b, extrabuf) ← b.scatter data
      if data.length ≤ writable then
        pure ({ b with writerIndex := b.writerIndex + data.length }, savedErrno, r.n)
      else do
        let b := { b with writerIndex := b.buffer.length }
        let b ← b.append (extrabuf.take (data.length - writable))
        pure (b, savedErrno, r.n)

/-! ## One call -/

theorem readFd_failed (b : Buffer) (savedErrno errno : Int) :
    b.readFd savedErrno (.failed errno) = .ok (b, errno, -1) := rfl

/-- Bytes stored at `beginWrite()` become content when `writerIndex_` moves over them. -/
theorem advance_ok {b : Buffer} (h : b.WF) {data : List UInt8}
    (hroom : data.length ≤ b.writableBytes) :
    let b' : Buffer := { b with buffer := overwrite b.buffer b.writerIndex data,
                                writerIndex := b.writerIndex + data.length }
    b.store b.writerIndex data = .ok { b with buffer := overwrite b.buffer b.writerIndex data } ∧
      b'.WF ∧ b'.content = b.content ++ data := by
  have hw := h.writableBytes_eq
  have hcheap := h.cheap
  have hreader := h.reader
  have hwriter := h.writer
  have hstore : b.writerIndex + data.length ≤ b.buffer.length := by omega
  have hsize := length_overwrite hstore
  refine ⟨store_ok hstore, ⟨?_, ?_, ?_⟩, window_overwrite_behind hreader hstore⟩
  · simp only [hsize]
    omega
  · simp only
    omega
  · simp only [hsize]
    omega

theorem readFd_delivered {b : Buffer} (h : b.WF) (savedErrno : Int) {data : List UInt8}
    (hall : b.Fits (.delivered data)) :
    ∃ b', b.readFd savedErrno (.delivered data) = .ok (b', savedErrno, data.length) ∧ b'.WF ∧
      b'.content = b.content ++ data := by
  have hall' : data.length ≤ b.iovLens.sum := hall
  by_cases hfit : data.length ≤ b.writableBytes
  · -- Everything landed behind the content.
    obtain ⟨hstore, hwf, hcontent⟩ := advance_ok h hfit
    refine ⟨_, ?_, hwf, hcontent⟩
    simp [readFd, scatter, hall', Readv.n, List.take_of_length_le hfit, hstore, hfit]
  · -- `vec[0]` is full, so `writerIndex_` goes to the end before the rest is appended.
    have hlen : (data.take b.writableBytes).length = b.writableBytes := by
      rw [List.length_take]
      omega
    obtain ⟨hstore, hwf, hcontent⟩ := advance_ok h (Nat.le_of_eq hlen)
    obtain ⟨b₂, hb₂, hwf₂, hcontent₂⟩ := append_ok hwf (data.drop b.writableBytes)
    have hend : (overwrite b.buffer b.writerIndex (data.take b.writableBytes)).length =
        b.writerIndex + (data.take b.writableBytes).length := by
      have hw := h.writableBytes_eq
      have hwriter := h.writer
      rw [length_overwrite (by omega)]
      omega
    have hrest : (data.drop b.writableBytes).take (data.length - b.writableBytes) =
        data.drop b.writableBytes :=
      List.take_of_length_le (by simp)
    refine ⟨b₂, ?_, hwf₂, ?_⟩
    · simp only [readFd, scatter, hall', if_true, Readv.n, hstore, ok_bind, hfit, if_false, hend,
        hrest, hb₂, pure_eq_ok]
    · rw [hcontent₂, hcontent, List.append_assoc, List.take_append_drop]

end Buffer

/-! ## Runs of `readFd` and `retrieve` -/

namespace ReadFd

/-- A buffer between a stream and its consumer; `received` and `retrieved` record the bytes that
`readv` delivered and the bytes that `retrieve` removed. -/
structure State where
  buf : Buffer
  savedErrno : Int
  received : List UInt8
  retrieved : List UInt8
  deriving DecidableEq, Repr

inductive Action
  | readFd (r : Readv)
  | retrieve (len : Nat)
  deriving DecidableEq, Repr

/-- The kernel keeps to the iovecs it was given, and `retrieve` is called within its `assert`. -/
def Enabled (s : State) : Action → Prop
  | .readFd r => s.buf.Fits r
  | .retrieve len => len ≤ s.buf.readableBytes

instance (s : State) (a : Action) : Decidable (Enabled s a) :=
  match a with
  | .readFd _ => inferInstanceAs (Decidable (Buffer.Fits _ _))
  | .retrieve _ => inferInstanceAs (Decidable (_ ≤ _))

def exec (s : State) : Action → Except Fault State
  | .readFd r => do
      let (buf, savedErrno, _) ← s.buf.readFd s.savedErrno r
      let data := match r with
        | .failed _ => []
        | .delivered data => data
      pure { s with buf := buf, savedErrno := savedErrno, received := s.received ++ data }
  | .retrieve len => do
      let removed ← s.buf.load s.buf.peek len
      let buf ← s.buf.retrieve len
      pure { s with buf := buf, retrieved := s.retrieved ++ removed }

/-- Runs start with any well-formed buffer. -/
def system (b₀ : Buffer) : StepSystem State Action :=
  .ofExec (fun s => s.buf = b₀ ∧ s.received = [] ∧ s.retrieved = []) Enabled exec

/-- What left the buffer, followed by what is still in it, is what entered it. -/
structure Inv (b₀ : Buffer) (s : State) : Prop where
  wf : s.buf.WF
  stream : s.retrieved ++ s.buf.content = b₀.content ++ s.received

theorem exec_inv {b₀ : Buffer} {s : State} {a : Action} (h : Inv b₀ s) (ha : Enabled s a) :
    ∃ t, exec s a = .ok t ∧ Inv b₀ t := by
  cases a with
  | readFd r =>
      cases r with
      | failed errno =>
          refine ⟨{ s with savedErrno := errno }, ?_, h.wf, h.stream⟩
          simp [exec, Buffer.readFd_failed]
      | delivered data =>
          obtain ⟨b', hb', hwf, hcontent⟩ := Buffer.readFd_delivered h.wf s.savedErrno ha
          refine ⟨{ s with buf := b', received := s.received ++ data }, ?_, hwf, ?_⟩
          · simp [exec, hb']
          · simp only [hcontent]
            rw [← List.append_assoc, h.stream, List.append_assoc]
  | retrieve len =>
      obtain ⟨b', hb', hwf, hcontent⟩ := Buffer.retrieve_ok h.wf ha
      have hload := Buffer.load_peek_ok h.wf ha
      refine ⟨{ s with buf := b', retrieved := s.retrieved ++ s.buf.content.take len }, ?_, hwf, ?_⟩
      · simp [exec, hload, hb']
      · simp only [hcontent]
        rw [List.append_assoc, List.take_append_drop, h.stream]

/-- Every call appends to the content exactly the bytes delivered, or changes nothing but
`*savedErrno`; and in every run no byte of the stream is lost, repeated or reordered. -/
theorem readFd_appends_exactly :
    (∀ (b : Buffer) (savedErrno : Int) (r : Readv), b.WF → b.Fits r →
      ∃ b' savedErrno', b.readFd savedErrno r = .ok (b', savedErrno', r.n) ∧
        match r with
        | .failed errno => b' = b ∧ savedErrno' = errno
        | .delivered data =>
            b'.WF ∧ b'.content = b.content ++ data ∧ savedErrno' = savedErrno) ∧
    (∀ (b₀ : Buffer) (s : State), b₀.WF → (system b₀).Reachable s →
      s.retrieved ++ s.buf.content = b₀.content ++ s.received ∧
        ∀ a, Enabled s a → ∃ t, exec s a = .ok t) := by
  constructor
  · intro b savedErrno r hwf hfits
    cases r with
    | failed errno => exact ⟨b, errno, rfl, rfl, rfl⟩
    | delivered data =>
        obtain ⟨b', hb', hwf', hcontent⟩ := Buffer.readFd_delivered hwf savedErrno hfits
        exact ⟨b', savedErrno, hb', hwf', hcontent, rfl⟩
  · intro b₀ s hwf hs
    have h0 : ∀ {s : State}, s.buf = b₀ ∧ s.received = [] ∧ s.retrieved = [] → Inv b₀ s := by
      rintro s ⟨rfl, hreceived, hretrieved⟩
      exact ⟨hwf, by rw [hreceived, hretrieved]; simp⟩
    obtain ⟨hinv, hsafe⟩ := StepSystem.ofExec_safe h0 exec_inv hs
    exact ⟨hinv.stream, hsafe⟩

-- Six bytes for a buffer with room for four: two of them go through `extrabuf`, and `makeSpace`
-- slides or grows.  Then three are retrieved.
theorem readFd_appends_exactly_spill :
    (Buffer.new 4).WF ∧ (Buffer.new 4).Fits (.delivered [1, 2, 3, 4, 5, 6]) ∧
    (∃ b', (Buffer.new 4).readFd 0 (.delivered [1, 2, 3, 4, 5, 6]) = .ok (b', 0, 6) ∧
      b'.content = [1, 2, 3, 4, 5, 6]) ∧
    ∃ s, (system (Buffer.new 4)).Reachable s ∧ s.retrieved = [1, 2, 3] ∧
      s.retrieved ++ s.buf.content = [1, 2, 3, 4, 5, 6] := by
  have hfits : (Buffer.new 4).Fits (.delivered [1, 2, 3, 4, 5, 6]) := by decide
  refine ⟨Buffer.new_wf 4, hfits, ?_, ?_⟩
  · obtain ⟨b', _, hb', _, hcontent, rfl⟩ :=
      readFd_appends_exactly.1 (Buffer.new 4) 0 _ (Buffer.new_wf 4) hfits
    exact ⟨b', hb', by simpa using hcontent⟩
  · let s₀ : State := ⟨Buffer.new 4, 0, [], []⟩
    let as : List Action := [.readFd (.delivered [1, 2, 3, 4, 5, 6]), .retrieve 3]
    let b₁ : Buffer := ⟨[0, 0, 0, 0, 0, 0, 0, 0, 1, 2, 3, 4, 5, 6], 11, 14⟩
    have hrun : (system (Buffer.new 4)).Run s₀ as ⟨b₁, 0, [1, 2, 3, 4, 5, 6], [1, 2, 3]⟩ :=
      StepSystem.run_of_execAll (by decide) (by decide)
    have hreach := hrun.reachable (.init ⟨rfl, rfl, rfl⟩)
    exact ⟨_, hreach, rfl, (readFd_appends_exactly.2 _ _ (Buffer.new_wf 4) hreach).1⟩

end ReadFd

end Net
end Muduo
