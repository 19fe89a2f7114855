import Mathlib.Algebra.Group.Nat.Defs
import Muduo.Base.Fault
import Muduo.Foundation.Window

/-!
# Buffer — the byte buffer of `muduo/net/Buffer.h`

The storage `buffer_` is a list of bytes, and the two indices are natural numbers.  Sums of
sizes are those of `size_t` as long as they stay below `2 ^ 64`, which the vector's own size
limit guarantees; a difference of sizes does wrap when the subtrahend is larger, so it is
written with `sizeSub`.  Pointers into the storage are indices into it.
-/

namespace Muduo
namespace Net

open Window

/-- `a - b` as `size_t` computes it. -/
def sizeSub (a b : Nat) : Nat :=
  if b ≤ a then a - b else a + 2 ^ 64 - b

theorem sizeSub_of_le {a b : Nat} (h : b ≤ a) : sizeSub a b = a - b := by
  simp [sizeSub, h]

structure Buffer where
  buffer : List UInt8
  readerIndex : Nat
  writerIndex : Nat
  deriving DecidableEq, Repr

namespace Buffer

def kCheapPrepend : Nat := 8
def kInitialSize : Nat := 1024

/-- `Buffer(initialSize)`; the vector zero-initialises its elements. -/
def new (initialSize : Nat) : Buffer where
  buffer := List.replicate (kCheapPrepend + initialSize) 0
  readerIndex := kCheapPrepend
  writerIndex := kCheapPrepend

/-! ## Sizes and raw storage -/

def readableBytes (b : Buffer) : Nat :=
  sizeSub b.writerIndex b.readerIndex

def writableBytes (b : Buffer) : Nat :=
  sizeSub b.buffer.length b.writerIndex

def prependableBytes (b : Buffer) : Nat :=
  b.readerIndex

def peek (b : Buffer) : Nat :=
  b.readerIndex

def beginWrite (b : Buffer) : Nat :=
  b.writerIndex

/-- `std::copy(data, data + len, begin() + pos)`. -/
def store (b : Buffer) (pos : Nat) (data : List UInt8) : Except Fault Buffer :=
  if pos + data.length ≤ b.buffer.length then
    .ok { b with buffer := overwrite b.buffer pos data }
  else
    .error .outOfBounds

/-- The `len` bytes of the storage from `pos` on. -/
def load (b : Buffer) (pos len : Nat) : Except Fault (List UInt8) :=
  if pos + len ≤ b.buffer.length then
    .ok (window b.buffer pos (pos + len))
  else
    .error .outOfBounds

/-- `std::vector::resize`. -/
def resize (l : List UInt8) (n : Nat) : List UInt8 :=
  l.take n ++ List.replicate (n - l.length) 0

/-! ## Consuming -/

def retrieveAll (b : Buffer) : Buffer :=
  { b with readerIndex := kCheapPrepend, writerIndex := kCheapPrepend }

def retrieve (b : Buffer) (len : Nat) : Except Fault Buffer := do
  assert (len ≤ b.readableBytes)
  if len < b.readableBytes then
    pure { b with readerIndex := b.readerIndex + len }
  else
    pure b.retrieveAll

def retrieveUntil (b : Buffer) (end_ : Nat) : Except Fault Buffer := do
  assert (b.peek ≤ end_)
  assert (end_ ≤ b.beginWrite)
  b.retrieve (end_ - b.peek)

def retrieveAsString (b : Buffer) (len : Nat) : Except Fault (Buffer × List UInt8) := do
  assert (len ≤ b.readableBytes)
  let result ← b.load b.peek len
  let b ← b.retrieve len
  pure (b, result)

def retrieveAllAsString (b : Buffer) : Except Fault (Buffer × List UInt8) :=
  b.retrieveAsString b.readableBytes

/-! ## Producing -/

/-- Make room for `len` bytes: grow the storage, or slide the content down to
`kCheapPrepend`. -/
def makeSpace (b : Buffer) (len : Nat) : Except Fault Buffer :=
  if b.writableBytes + b.prependableBytes < len + kCheapPrepend then
    pure { b with buffer := resize b.buffer (b.writerIndex + len) }
  else do
    assert (kCheapPrepend < b.readerIndex)
    let readable := b.readableBytes
    -- `std::copy` towards the front: source and target may overlap, the bytes arrive intact.
    let content ← b.load b.readerIndex readable
    let b ← b.store kCheapPrepend content
    let b := { b with readerIndex := kCheapPrepend, writerIndex := kCheapPrepend + readable }
    assert (readable = b.readableBytes)
    pure b

def ensureWritableBytes (b : Buffer) (len : Nat) : Except Fault Buffer := do
  let b ← if b.writableBytes < len then b.makeSpace len else pure b
  assert (len ≤ b.writableBytes)
  pure b

def hasWritten (b : Buffer) (len : Nat) : Except Fault Buffer := do
  assert (len ≤ b.writableBytes)
  pure { b with writerIndex := b.writerIndex + len }

def unwrite (b : Buffer) (len : Nat) : Except Fault Buffer := do
  assert (len ≤ b.readableBytes)
  pure { b with writerIndex := b.writerIndex - len }

def append (b : Buffer) (data : List UInt8) : Except Fault Buffer := do
  let b ← b.ensureWritableBytes data.length
  let b ← b.store b.beginWrite data
  b.hasWritten data.length

def prepend (b : Buffer) (data : List UInt8) : Except Fault Buffer := do
  assert (data.length ≤ b.prependableBytes)
  let b := { b with readerIndex := b.readerIndex - data.length }
  b.store b.readerIndex data

/-- `swap(rhs)`: the new values of `*this` and `rhs`. -/
def swap (b rhs : Buffer) : Buffer × Buffer :=
  (rhs, b)

def shrink (b : Buffer) (reserve : Nat) : Except Fault Buffer := do
  let other := Buffer.new kInitialSize
  let other ← other.ensureWritableBytes (b.readableBytes + reserve)
  let content ← b.load b.peek b.readableBytes
  let other ← other.append content
  pure (b.swap other).1

/-! ## The readable content and the index invariant -/

/-- The bytes `buffer_[readerIndex_, writerIndex_)`. -/
def content (b : Buffer) : List UInt8 :=
  window b.buffer b.readerIndex b.writerIndex

structure WF (b : Buffer) : Prop where
  cheap : kCheapPrepend ≤ b.buffer.length
  reader : b.readerIndex ≤ b.writerIndex
  writer : b.writerIndex ≤ b.buffer.length

theorem WF.readableBytes_eq {b : Buffer} (h : b.WF) :
    b.readableBytes = b.writerIndex - b.readerIndex :=
  sizeSub_of_le h.reader

theorem WF.writableBytes_eq {b : Buffer} (h : b.WF) :
    b.writableBytes = b.buffer.length - b.writerIndex :=
  sizeSub_of_le h.writer

theorem WF.length_content {b : Buffer} (h : b.WF) : b.content.length = b.readableBytes := by
  rw [content, length_window h.writer, h.readableBytes_eq]

theorem new_wf (initialSize : Nat) : (Buffer.new initialSize).WF where
  cheap := by simp [new]
  reader := Nat.le_refl _
  writer := by simp [new]

@[simp] theorem content_new (initialSize : Nat) : (Buffer.new initialSize).content = [] := by
  simp [content, new]

/-! ## One specification lemma per operation -/

theorem store_ok {b : Buffer} {pos : Nat} {data : List UInt8}
    (h : pos + data.length ≤ b.buffer.length) :
    b.store pos data = .ok { b with buffer := overwrite b.buffer pos data } := by
  simp [store, h]

theorem load_ok {b : Buffer} {pos len : Nat} (h : pos + len ≤ b.buffer.length) :
    b.load pos len = .ok (window b.buffer pos (pos + len)) := by
  simp [load, h]

/-- A prefix of the content, read through `peek()`. -/
theorem load_peek_ok {b : Buffer} (h : b.WF) {len : Nat} (hlen : len ≤ b.readableBytes) :
    b.load b.peek len = .ok (b.content.take len) := by
  have hr := h.readableBytes_eq
  have hw := h.writer
  have hreader := h.reader
  rw [peek, load_ok (by omega)]
  have hn : b.readerIndex + len - b.readerIndex = len := by omega
  have hmin : min len (b.writerIndex - b.readerIndex) = len := by omega
  simp [content, window, List.take_take, hn, hmin]

/-- The whole content, read through `peek()`. -/
theorem load_content_ok {b : Buffer} (h : b.WF) :
    b.load b.peek b.readableBytes = .ok b.content := by
  have hload := load_peek_ok h (Nat.le_refl b.readableBytes)
  rwa [← h.length_content, List.take_length, h.length_content] at hload

theorem retrieveAll_wf {b : Buffer} (h : b.WF) : b.retrieveAll.WF where
  cheap := h.cheap
  reader := Nat.le_refl _
  writer := h.cheap

@[simp] theorem content_retrieveAll (b : Buffer) : b.retrieveAll.content = [] := by
  simp [content, retrieveAll]

theorem retrieve_ok {b : Buffer} (h : b.WF) {len : Nat} (hlen : len ≤ b.readableBytes) :
    ∃ b', b.retrieve len = .ok b' ∧ b'.WF ∧ b'.content = b.content.drop len := by
  by_cases hlt : len < b.readableBytes
  · -- A proper part is consumed.
    refine ⟨{ b with readerIndex := b.readerIndex + len }, ?_, ?_, ?_⟩
    · simp [retrieve, assert_pos hlen, hlt]
    · have hr := h.readableBytes_eq
      exact ⟨h.cheap, by simp only; omega, h.writer⟩
    · simp [content, window_add_left]
  · -- All of it is consumed, and both indices go back to `kCheapPrepend`.
    refine ⟨b.retrieveAll, ?_, retrieveAll_wf h, ?_⟩
    · simp [retrieve, assert_pos hlen, hlt]
    · have hall : b.content.length ≤ len := by
        rw [h.length_content]
        omega
      simp [List.drop_eq_nil_of_le hall]

theorem retrieveUntil_ok {b : Buffer} (h : b.WF) {len : Nat} (hlen : len ≤ b.readableBytes) :
    ∃ b', b.retrieveUntil (b.peek + len) = .ok b' ∧ b'.WF ∧
      b'.content = b.content.drop len := by
  obtain ⟨b', hb', hwf, hcontent⟩ := retrieve_ok h hlen
  refine ⟨b', ?_, hwf, hcontent⟩
  have hr := h.readableBytes_eq
  have hreader := h.reader
  have hhigh : b.peek + len ≤ b.beginWrite := by
    simp only [peek, beginWrite]
    omega
  simp [retrieveUntil, assert_pos hhigh, hb']

theorem retrieveAsString_ok {b : Buffer} (h : b.WF) {len : Nat} (hlen : len ≤ b.readableBytes) :
    ∃ b', b.retrieveAsString len = .ok (b', b.content.take len) ∧ b'.WF ∧
      b'.content = b.content.drop len := by
  obtain ⟨b', hb', hwf, hcontent⟩ := retrieve_ok h hlen
  refine ⟨b', ?_, hwf, hcontent⟩
  simp [retrieveAsString, assert_pos hlen, load_peek_ok h hlen, hb']

theorem resize_of_le {l : List UInt8} {n : Nat} (h : l.length ≤ n) :
    resize l n = l ++ List.replicate (n - l.length) 0 := by
  simp [resize, List.take_of_length_le h]

/-- `makeSpace` is only called when the room behind the content is too small; then both of
its branches make enough room and keep the content. -/
theorem makeSpace_ok {b : Buffer} (h : b.WF) {len : Nat} (hlen : b.writableBytes < len) :
    ∃ b', b.makeSpace len = .ok b' ∧ b'.WF ∧ b'.content = b.content ∧
      len ≤ b'.writableBytes := by
  have hr := h.readableBytes_eq
  have hw := h.writableBytes_eq
  have hcheap := h.cheap
  have hreader := h.reader
  have hwriter := h.writer
  by_cases hgrow : b.writableBytes + b.prependableBytes < len + kCheapPrepend
  · -- grow: the storage is extended behind the content
    have hle : b.buffer.length ≤ b.writerIndex + len := by omega
    have hsize : (resize b.buffer (b.writerIndex + len)).length = b.writerIndex + len := by
      simp only [resize_of_le hle, List.length_append, List.length_replicate]
      omega
    refine ⟨{ b with buffer := resize b.buffer (b.writerIndex + len) }, ?_, ?_, ?_, ?_⟩
    · simp [makeSpace, hgrow]
    · exact ⟨by simp only [hsize]; omega, hreader, by simp only [hsize]; omega⟩
    · simp [content, resize_of_le hle, window_append hwriter]
    · simp only [writableBytes, hsize]
      rw [sizeSub_of_le (by omega)]
      omega
  · -- slide: there is room in front of `readerIndex_`, beyond the cheap prepend area
    have hroom : kCheapPrepend < b.readerIndex := by
      simp only [prependableBytes] at hgrow
      omega
    have hload : b.load b.readerIndex b.readableBytes = .ok b.content := load_content_ok h
    have hlenc := h.length_content
    have hstore : kCheapPrepend + b.content.length ≤ b.buffer.length := by omega
    have hsize := length_overwrite hstore
    refine ⟨{ buffer := overwrite b.buffer kCheapPrepend b.content, readerIndex := kCheapPrepend,
              writerIndex := kCheapPrepend + b.readableBytes }, ?_, ?_, ?_, ?_⟩
    · have hsame : sizeSub (kCheapPrepend + b.readableBytes) kCheapPrepend = b.readableBytes := by
        rw [sizeSub_of_le (Nat.le_add_right _ _)]
        omega
      simp only [makeSpace, hgrow, assert_pos hroom, hload, store_ok hstore, ok_bind, if_false]
      rw [assert_pos (by simpa [readableBytes] using hsame.symm)]
      rfl
    · exact ⟨by simp only [hsize]; omega, by simp only; omega, by simp only [hsize]; omega⟩
    · rw [← hlenc]
      exact window_overwrite_same hstore
    · -- Behind the moved content lie the old room and what lay before `readerIndex_`.
      simp only [writableBytes, hsize]
      rw [sizeSub_of_le (by omega)]
      simp only [prependableBytes] at hgrow
      omega

theorem ensureWritableBytes_ok {b : Buffer} (h : b.WF) (len : Nat) :
    ∃ b', b.ensureWritableBytes len = .ok b' ∧ b'.WF ∧ b'.content = b.content ∧
      len ≤ b'.writableBytes := by
  by_cases hlt : b.writableBytes < len
  · obtain ⟨b', hb', hwf, hcontent, hroom⟩ := makeSpace_ok h hlt
    refine ⟨b', ?_, hwf, hcontent, hroom⟩
    simp [ensureWritableBytes, hlt, hb', assert_pos hroom]
  · have hroom : len ≤ b.writableBytes := by omega
    refine ⟨b, ?_, h, rfl, hroom⟩
    simp [ensureWritableBytes, hlt, assert_pos hroom]

/-- Writing `data` at `beginWrite()` and then calling `hasWritten`. -/
theorem store_hasWritten_ok {b : Buffer} (h : b.WF) {data : List UInt8}
    (hroom : data.length ≤ b.writableBytes) :
    ∃ b', (b.store b.beginWrite data >>= fun b => b.hasWritten data.length) = .ok b' ∧ b'.WF ∧
      b'.content = b.content ++ data := by
  have hw := h.writableBytes_eq
  have hwriter := h.writer
  have hreader := h.reader
  have hstore : b.writerIndex + data.length ≤ b.buffer.length := by omega
  have hsize := length_overwrite hstore
  -- The bytes first land behind the content, then `hasWritten` makes them part of it.
  refine ⟨{ b with buffer := overwrite b.buffer b.writerIndex data,
                   writerIndex := b.writerIndex + data.length }, ?_, ?_, ?_⟩
  · simp only [beginWrite, store_ok hstore, hasWritten, ok_bind]
    rw [assert_pos (by simpa [writableBytes, hsize] using hroom)]
    rfl
  · have hcheap := h.cheap
    exact ⟨by simp only [hsize]; omega, by simp only; omega, by simp only [hsize]; omega⟩
  · exact window_overwrite_behind hreader hstore

theorem append_ok {b : Buffer} (h : b.WF) (data : List UInt8) :
    ∃ b', b.append data = .ok b' ∧ b'.WF ∧ b'.content = b.content ++ data := by
  obtain ⟨b₁, hb₁, hwf₁, hcontent₁, hroom⟩ := ensureWritableBytes_ok h data.length
  obtain ⟨b₂, hb₂, hwf₂, hcontent₂⟩ := store_hasWritten_ok hwf₁ hroom
  refine ⟨b₂, ?_, hwf₂, by rw [hcontent₂, hcontent₁]⟩
  simpa [append, hb₁] using hb₂

theorem unwrite_ok {b : Buffer} (h : b.WF) {len : Nat} (hlen : len ≤ b.readableBytes) :
    ∃ b', b.unwrite len = .ok b' ∧ b'.WF ∧
      b'.content = b.content.take (b.content.length - len) := by
  have hr := h.readableBytes_eq
  have hwriter := h.writer
  have hreader := h.reader
  refine ⟨{ b with writerIndex := b.writerIndex - len }, ?_, ?_, ?_⟩
  · simp [unwrite, assert_pos hlen]
  · exact ⟨h.cheap, by simp only; omega, by simp only; omega⟩
  · exact window_sub_right hwriter

theorem prepend_ok {b : Buffer} (h : b.WF) {data : List UInt8}
    (hlen : data.length ≤ b.prependableBytes) :
    ∃ b', b.prepend data = .ok b' ∧ b'.WF ∧ b'.content = data ++ b.content := by
  have hwriter := h.writer
  have hreader := h.reader
  have hlen' : data.length ≤ b.readerIndex := hlen
  have hstore : b.readerIndex - data.length + data.length ≤ b.buffer.length := by omega
  have hsize := length_overwrite hstore
  refine ⟨{ b with buffer := overwrite b.buffer (b.readerIndex - data.length) data,
                   readerIndex := b.readerIndex - data.length }, ?_, ?_, ?_⟩
  · simp only [prepend, assert_pos hlen, ok_bind]
    exact store_ok hstore
  · have hcheap := h.cheap
    exact ⟨by simp only [hsize]; omega, by simp only; omega, by simp only [hsize]; omega⟩
  · exact window_overwrite_before hlen' hreader hwriter

theorem shrink_ok {b : Buffer} (h : b.WF) (reserve : Nat) :
    ∃ b', b.shrink reserve = .ok b' ∧ b'.WF ∧ b'.content = b.content := by
  obtain ⟨b₁, hb₁, hwf₁, hcontent₁, _⟩ :=
    ensureWritableBytes_ok (new_wf kInitialSize) (b.readableBytes + reserve)
  obtain ⟨b₂, hb₂, hwf₂, hcontent₂⟩ := append_ok hwf₁ b.content
  refine ⟨b₂, ?_, hwf₂, by simpa [hcontent₁] using hcontent₂⟩
  simp [shrink, hb₁, load_content_ok h, hb₂, swap]

end Buffer

/-! ## Buffers that carry their invariant -/

/-- A buffer with `readerIndex_ <= writerIndex_ <= buffer_.size()`, as every `Buffer` member of
the library is. -/
structure WFBuffer where
  buf : Buffer
  wf : buf.WF

namespace WFBuffer

def new : WFBuffer where
  buf := Buffer.new Buffer.kInitialSize
  wf := Buffer.new_wf Buffer.kInitialSize

def content (b : WFBuffer) : List UInt8 :=
  b.buf.content

def readableBytes (b : WFBuffer) : Nat :=
  b.buf.readableBytes

/-- The result of a buffer operation that cannot fault. -/
def after (b : WFBuffer) (r : Except Fault Buffer) (h : ∀ b', r = .ok b' → b'.WF) : WFBuffer :=
  match r, h with
  | .ok b', h => ⟨b', h b' rfl⟩
  | .error _, _ => b

theorem after_buf {b : WFBuffer} {r : Except Fault Buffer} {h : ∀ b', r = .ok b' → b'.WF}
    {b' : Buffer} (hr : r = .ok b') : (b.after r h).buf = b' := by
  subst hr
  rfl

def append (b : WFBuffer) (data : List UInt8) : WFBuffer :=
  b.after (b.buf.append data) (by
    intro b' hb'
    rcases Buffer.append_ok b.wf data with ⟨b₁, hb₁, hwf, _⟩
    rw [hb'] at hb₁
    cases hb₁
    exact hwf)

/-- `retrieve` within the readable bytes; a longer request fails its `assert`, and here leaves
the buffer as it is. -/
def retrieve (b : WFBuffer) (len : Nat) : WFBuffer :=
  if hlen : len ≤ b.readableBytes then
    b.after (b.buf.retrieve len) (by
      intro b' hb'
      rcases Buffer.retrieve_ok b.wf hlen with ⟨b₁, hb₁, hwf, _⟩
      rw [hb'] at hb₁
      cases hb₁
      exact hwf)
  else
    b

@[simp] theorem content_wf_new : WFBuffer.new.content = [] :=
  Buffer.content_new _

@[simp] theorem length_content (b : WFBuffer) : b.content.length = b.readableBytes :=
  b.wf.length_content

@[simp] theorem content_append (b : WFBuffer) (data : List UInt8) :
    (b.append data).content = b.content ++ data := by
  rcases Buffer.append_ok b.wf data with ⟨b₁, hb₁, _, hcontent⟩
  rw [content, append, after_buf hb₁, hcontent]
  rfl

theorem content_retrieve (b : WFBuffer) {len : Nat} (hlen : len ≤ b.readableBytes) :
    (b.retrieve len).content = b.content.drop len := by
  rcases Buffer.retrieve_ok b.wf hlen with ⟨b₁, hb₁, _, hcontent⟩
  rw [content, retrieve, dif_pos hlen, after_buf hb₁, hcontent]
  rfl

theorem readableBytes_eq_zero (b : WFBuffer) : b.readableBytes = 0 ↔ b.content = [] := by
  rw [← length_content, List.length_eq_zero_iff]

end WFBuffer

end Net
end Muduo
