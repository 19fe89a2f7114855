import Muduo.Base.LogStream
import Muduo.Foundation.StepSystem

/-!
# LogStreamSafety — insertions stay inside the buffer

A string or a pointer is inserted behind a test of the space left, and is dropped when there is
not enough.  An integer is not: `formatInteger` lets `convert` write at `current()` whatever
`avail()` says.  `Meets` is the test that is missing there.  `allOrNothing_iff_meets` shows for
one insertion that the text arrives completely or not at all, and inside the buffer, exactly when
`Meets` holds; `insertions_safe_of_meets` lifts this to every sequence of insertions.
-/

namespace Muduo

open Window

/-! ## Writing at the end of the text -/

namespace FixedBuffer

variable {b : FixedBuffer}

@[simp] theorem length_data_new (size : Nat) : (new size).data.length = size :=
  List.length_replicate

theorem store_ok {pos : Nat} {bytes : List UInt8} (h : pos + bytes.length ≤ b.data.length) :
    b.store pos bytes = .ok { b with data := overwrite b.data pos bytes } := by
  simp [store, h]

theorem store_error (b : FixedBuffer) {pos : Nat} {bytes : List UInt8}
    (h : b.data.length < pos + bytes.length) : b.store pos bytes = .error .outOfBounds := by
  have hnot : ¬ pos + bytes.length ≤ b.data.length := by omega
  simp [store, hnot]

/-- The buffer with `text` written at `cur_`, and `cur_` moved behind it. -/
def extended (b : FixedBuffer) (text : List UInt8) : FixedBuffer where
  data := overwrite b.data b.cur text
  cur := b.cur + text.length

theorem toString_extended {text : List UInt8} (h : b.cur + text.length ≤ b.data.length) :
    (b.extended text).toString = b.toString ++ text :=
  window_overwrite_behind (Nat.zero_le _) h

theorem append_eq (hcur : b.cur ≤ b.data.length) (hsize : b.data.length < 2 ^ 64)
    (buf : List UInt8) :
    b.append buf = .ok (if b.cur + buf.length < b.data.length then b.extended buf else b) := by
  have havail : b.avail % 2 ^ 64 = b.data.length - b.cur := by
    unfold avail
    omega
  unfold append
  rw [havail]
  by_cases hroom : b.cur + buf.length < b.data.length
  · have hlt : (buf.length : Int) < b.data.length - b.cur := by omega
    rw [if_pos hlt, if_pos hroom, store_ok (Nat.le_of_lt hroom)]
    rfl
  · have hnot : ¬ (buf.length : Int) < b.data.length - b.cur := by omega
    rw [if_neg hnot, if_neg hroom]
    rfl

/-- Writing the characters with a NUL behind them and reversing them writes the reversed text. -/
theorem store_reverse (b : FixedBuffer) {pos : Nat} {raw : List UInt8}
    (h : pos + raw.length < b.data.length) :
    ∃ b', (b.store pos (raw ++ [0]) >>= fun b => b.store pos raw.reverse) = .ok b' ∧
      b'.data.length = b.data.length ∧ b'.cur = b.cur ∧
      window b'.data 0 (pos + raw.length) = window b.data 0 pos ++ raw.reverse := by
  have hfirst : pos + (raw ++ [0]).length ≤ b.data.length := by
    simp only [List.length_append, List.length_singleton]
    omega
  have hlen := length_overwrite hfirst
  have hsecond : pos + raw.reverse.length ≤ (overwrite b.data pos (raw ++ [0])).length := by
    rw [hlen, List.length_reverse]
    omega
  refine ⟨{ b with data := overwrite (overwrite b.data pos (raw ++ [0])) pos raw.reverse },
    ?_, ?_, rfl, ?_⟩
  · rw [store_ok hfirst, ok_bind]
    exact store_ok hsecond
  · exact (length_overwrite hsecond).trans hlen
  · have hbehind := window_overwrite_behind (Nat.zero_le pos) hsecond
    rw [List.length_reverse] at hbehind
    rw [hbehind, window_overwrite_frame (Nat.le_refl pos) (by omega)]

end FixedBuffer

/-! ## The text of an insertion -/

/-- The text of an integer. -/
def decimal (value : Int) : List UInt8 :=
  (detail.convertRaw value).reverse

/-- The text of an address, without its `0x`. -/
def hexadecimal (value : Nat) : List UInt8 :=
  (detail.converHexLoop value value).reverse

namespace Insertion

/-- The value of an integer. -/
def integer? : Insertion → Option Int
  | .short v => some v.toInt
  | .unsignedShort v => some v.toNat
  | .int v => some v.toInt
  | .unsignedInt v => some v.toNat
  | .long v => some v.toInt
  | .unsignedLong v => some v.toNat
  | .longLong v => some v.toInt
  | .unsignedLongLong v => some v.toNat
  | _ => none

def cText : Option (List UInt8) → List UInt8
  | some str => LogStream.strBytes str
  | none => ascii "(null)"

/-- The text of what is not an integer. -/
def otherText : Insertion → List UInt8
  | .bool v => if v then ascii "1" else ascii "0"
  | .pointer p => ascii "0x" ++ hexadecimal p.toNat
  | .char v => [v]
  | .cString str => cText str
  | .unsignedCString str => cText str
  | .string v => v
  | .buffer v => v.toString
  | _ => []

def text (ins : Insertion) : List UInt8 :=
  match ins.integer? with
  | some value => decimal value
  | none => ins.otherText

end Insertion

namespace LogStream

variable {s t : LogStream}

def content (s : LogStream) : List UInt8 :=
  s.buffer.toString

/-- `cur_` points into the buffer or just behind it. -/
structure WF (s : LogStream) : Prop where
  size : s.buffer.data.length = kSmallBuffer
  cur : s.buffer.cur ≤ kSmallBuffer

theorem new_wf : LogStream.new.WF where
  size := FixedBuffer.length_data_new _
  cur := Nat.zero_le _

/-- The insertion writes inside the buffer only, and appends its text or changes nothing. -/
def AllOrNothing (s : LogStream) (ins : Insertion) : Prop :=
  ∃ t, s.insert ins = .ok t ∧ t.WF ∧
    (t.content = s.content ++ ins.text ∨ t.buffer.cur = s.buffer.cur ∧ t.content = s.content)

/-- There is room for the text of an integer and the NUL behind it. -/
def Meets (s : LogStream) (ins : Insertion) : Prop :=
  ∀ value ∈ ins.integer?, ((decimal value).length : Int) < s.buffer.avail

instance (s : LogStream) (ins : Insertion) : Decidable (Meets s ins) :=
  inferInstanceAs (Decidable (∀ value ∈ ins.integer?, _))

/-! ## One insertion -/

theorem append_spec (h : s.WF) (buf : List UInt8) :
    ∃ t, s.append buf = .ok t ∧ t.WF ∧
      (t.content = s.content ++ buf ∨ t.buffer.cur = s.buffer.cur ∧ t.content = s.content) := by
  have hsize := h.size
  have hcur := h.cur
  have heq := FixedBuffer.append_eq (b := s.buffer) (by omega)
    (by rw [hsize]; decide) buf
  by_cases hroom : s.buffer.cur + buf.length < s.buffer.data.length
  · rw [if_pos hroom] at heq
    refine ⟨⟨s.buffer.extended buf⟩, by simp [append, heq], ⟨?_, ?_⟩, Or.inl ?_⟩
    · exact (length_overwrite (Nat.le_of_lt hroom)).trans hsize
    · simp only [FixedBuffer.extended]
      omega
    · exact FixedBuffer.toString_extended (Nat.le_of_lt hroom)
  · rw [if_neg hroom] at heq
    exact ⟨s, by simp [append, heq], h, Or.inr ⟨rfl, rfl⟩⟩

/-- With room for the text and its NUL, an integer is appended. -/
theorem formatInteger_ok (h : s.WF) {v : Int}
    (hroom : s.buffer.cur + (decimal v).length < kSmallBuffer) :
    ∃ t, s.formatInteger v = .ok t ∧ t.WF ∧ t.content = s.content ++ decimal v := by
  have hsize := h.size
  have hlen : (decimal v).length = (detail.convertRaw v).length := List.length_reverse
  have hfits : s.buffer.cur + (detail.convertRaw v).length < s.buffer.data.length := by omega
  obtain ⟨b', hb', hdata, hcur, hwindow⟩ := s.buffer.store_reverse hfits
  obtain ⟨b₁, hb₁, hb₂⟩ := exists_ok_of_bind hb'
  refine ⟨⟨b'.add (detail.convertRaw v).length⟩, ?_, ⟨?_, ?_⟩, ?_⟩
  · simp [formatInteger, detail.convert, FixedBuffer.current, hb₁, hb₂]
  · exact hdata.trans hsize
  · simp only [FixedBuffer.add, hcur]
    omega
  · simp only [content, FixedBuffer.toString, FixedBuffer.add, hcur, hwindow]
    rfl

/-- Without it, the NUL at least is written behind the buffer. -/
theorem formatInteger_error (h : s.WF) {v : Int}
    (hfull : kSmallBuffer ≤ s.buffer.cur + (decimal v).length) :
    s.formatInteger v = .error .outOfBounds := by
  have hsize := h.size
  have hlen : (decimal v).length = (detail.convertRaw v).length := List.length_reverse
  have hover : s.buffer.data.length < s.buffer.cur + (detail.convertRaw v ++ [0]).length := by
    simp only [List.length_append, List.length_singleton]
    omega
  have herr := s.buffer.store_error hover
  simp [formatInteger, detail.convert, FixedBuffer.current, herr]

/-- `k` hexadecimal digits are enough for a number below `16 ^ k`. -/
theorem length_converHexLoop {k : Nat} :
    ∀ {fuel i : Nat}, i < 16 ^ (k + 1) → (detail.converHexLoop fuel i).length ≤ k + 1 := by
  induction k with
  | zero =>
      intro fuel i hi
      have hzero : i / 16 = 0 := by omega
      cases fuel with
      | zero => simp [detail.converHexLoop]
      | succ fuel => simp [detail.converHexLoop, hzero]
  | succ k ih =>
      intro fuel i hi
      cases fuel with
      | zero => simp [detail.converHexLoop]
      | succ fuel =>
          have hrest : i / 16 < 16 ^ (k + 1) := by
            rw [Nat.pow_succ] at hi
            omega
          have hlen : (detail.converHexLoop fuel (i / 16)).length ≤ k + 1 := ih hrest
          by_cases hzero : i / 16 = 0
          · simp [detail.converHexLoop, hzero]
          · simp only [detail.converHexLoop, ne_eq, hzero, not_false_eq_true, if_true,
              List.length_cons]
            omega

theorem insertPointer_spec (h : s.WF) (p : BitVec 64) :
    ∃ t, s.insertPointer p = .ok t ∧ t.WF ∧
      (t.content = s.content ++ (ascii "0x" ++ hexadecimal p.toNat) ∨
        t.buffer.cur = s.buffer.cur ∧ t.content = s.content) := by
  have hsize := h.size
  by_cases havail : kMaxNumericSize ≤ s.buffer.avail
  · have hroom : s.buffer.cur + 48 ≤ s.buffer.data.length := by
      simp only [kMaxNumericSize, FixedBuffer.avail] at havail
      omega
    -- Two characters for `0x`, at most sixteen digits, and the NUL.
    have hdigits : (detail.converHexLoop p.toNat p.toNat).length ≤ 16 :=
      length_converHexLoop (k := 15) p.isLt
    have hx : s.buffer.cur + (ascii "0x").length ≤ s.buffer.data.length := by
      have htwo : (ascii "0x").length = 2 := rfl
      omega
    have hsize₁ : (overwrite s.buffer.data s.buffer.cur (ascii "0x")).length =
        s.buffer.data.length := length_overwrite hx
    have hfits : s.buffer.cur + 2 + (detail.converHexLoop p.toNat p.toNat).length <
        (overwrite s.buffer.data s.buffer.cur (ascii "0x")).length := by omega
    obtain ⟨b', hb', hdata, hcur, hwindow⟩ := FixedBuffer.store_reverse
      { s.buffer with data := overwrite s.buffer.data s.buffer.cur (ascii "0x") } hfits
    obtain ⟨b₁, hb₁, hb₂⟩ := exists_ok_of_bind hb'
    refine ⟨⟨b'.add ((detail.converHexLoop p.toNat p.toNat).length + 2)⟩, ?_, ⟨?_, ?_⟩, Or.inl ?_⟩
    · simp [insertPointer, havail, FixedBuffer.current, FixedBuffer.store_ok hx, detail.converHex,
        hb₁, hb₂]
    · exact hdata.trans (hsize₁.trans hsize)
    · simp only [FixedBuffer.add, hcur]
      omega
    · have hpre : window (overwrite s.buffer.data s.buffer.cur (ascii "0x")) 0
          (s.buffer.cur + 2) = s.content ++ ascii "0x" := FixedBuffer.toString_extended hx
      have hend : s.buffer.cur + ((detail.converHexLoop p.toNat p.toNat).length + 2) =
          s.buffer.cur + 2 + (detail.converHexLoop p.toNat p.toNat).length := by omega
      simp only [content, FixedBuffer.toString, FixedBuffer.add, hcur, hend, hwindow, hpre]
      exact List.append_assoc _ _ _
  · exact ⟨s, by simp [insertPointer, havail], h, Or.inr ⟨rfl, rfl⟩⟩

theorem insertCString_spec (h : s.WF) (str : Option (List UInt8)) :
    ∃ t, s.insertCString str = .ok t ∧ t.WF ∧
      (t.content = s.content ++ Insertion.cText str ∨
        t.buffer.cur = s.buffer.cur ∧ t.content = s.content) := by
  cases str with
  | some str => exact append_spec h (strBytes str)
  | none => exact append_spec h (ascii "(null)")

/-- All integer types go through `formatInteger`, with their value. -/
theorem insert_integer {ins : Insertion} {value : Int} (h : ins.integer? = some value) :
    s.insert ins = s.formatInteger value := by
  cases ins with
  | short v =>
      cases h
      rw [insert, BitVec.toInt_signExtend_of_le (by decide)]
  | unsignedShort v =>
      cases h
      rw [insert, BitVec.toNat_setWidth_of_le (by decide)]
  | int v | unsignedInt v | long v | unsignedLong v | longLong v | unsignedLongLong v =>
      cases h
      rfl
  | bool v | pointer p | char v | cString str | unsignedCString str | string v | buffer v =>
      cases h

/-- What is not an integer is guarded. -/
theorem insert_other (h : s.WF) {ins : Insertion} (hins : ins.integer? = none) :
    ∃ t, s.insert ins = .ok t ∧ t.WF ∧
      (t.content = s.content ++ ins.otherText ∨
        t.buffer.cur = s.buffer.cur ∧ t.content = s.content) := by
  cases ins with
  | bool v => exact append_spec h _
  | pointer p => exact insertPointer_spec h p
  | char v => exact append_spec h [v]
  | cString str => exact insertCString_spec h str
  | unsignedCString str => exact insertCString_spec h str
  | string v => exact append_spec h v
  | buffer v => exact append_spec h v.toString
  | short v | unsignedShort v | int v | unsignedInt v
  | long v | unsignedLong v | longLong v | unsignedLongLong v => cases hins

theorem allOrNothing_iff_meets (h : s.WF) (ins : Insertion) :
    AllOrNothing s ins ↔ Meets s ins := by
  have hsize := h.size
  have hcur := h.cur
  cases hins : ins.integer? with
  | none =>
      have htext : ins.text = ins.otherText := by
        rw [Insertion.text, hins]
      refine iff_of_true ?_ ?_
      · rw [AllOrNothing, htext]
        exact insert_other h hins
      · intro value hvalue
        rw [hins] at hvalue
        cases hvalue
  | some value =>
      have htext : ins.text = decimal value := by
        rw [Insertion.text, hins]
      have hmeets : Meets s ins ↔ s.buffer.cur + (decimal value).length < kSmallBuffer := by
        simp only [Meets, hins, Option.mem_def, Option.some.injEq, forall_eq', FixedBuffer.avail]
        omega
      rw [hmeets, AllOrNothing, htext, insert_integer hins]
      constructor
      · rintro ⟨t, hok, _⟩
        by_contra hfull
        rw [formatInteger_error h (Nat.le_of_not_lt hfull)] at hok
        cases hok
      · intro hroom
        obtain ⟨t, hok, hwf, hcontent⟩ := formatInteger_ok h hroom
        exact ⟨t, hok, hwf, Or.inl hcontent⟩

/-! ## Sequences of insertions -/

inductive Act
  | insert (ins : Insertion)
  | resetBuffer
  deriving DecidableEq, Repr

def exec (s : LogStream) : Act → Except Fault LogStream
  | .insert ins => s.insert ins
  | .resetBuffer => .ok s.resetBuffer

def system : StepSystem LogStream Act :=
  .ofExec (· = LogStream.new) (fun _ _ => True) exec

def ActMeets (s : LogStream) : Act → Prop
  | .insert ins => Meets s ins
  | .resetBuffer => True

theorem exec_wf {a : Act} (h : s.WF) (ha : ActMeets s a) (hexec : exec s a = .ok t) : t.WF := by
  cases a with
  | insert ins =>
      obtain ⟨t', hok, hwf, _⟩ := (allOrNothing_iff_meets h ins).2 ha
      have hsame : s.insert ins = .ok t := hexec
      rw [hok] at hsame
      cases hsame
      exact hwf
  | resetBuffer =>
      cases hexec
      exact ⟨h.size, Nat.zero_le _⟩

/-- In every sequence of insertions in which each integer finds room for its text and a NUL, the
stream stays inside its buffer, and the next insertion does so too and appends all of its text or
nothing, unless it is an integer that does not find this room. -/
theorem insertions_safe_of_meets (hs : (system.restrict ActMeets).Reachable s) :
    (0 ≤ s.buffer.length ∧ s.buffer.length ≤ kSmallBuffer ∧ 0 ≤ s.buffer.avail) ∧
      ∀ ins, AllOrNothing s ins ↔ Meets s ins := by
  have hwf : s.WF := by
    refine hs.invariant (I := WF) ?_ ?_
    · rintro s rfl
      exact new_wf
    · rintro s a t hs ⟨ha, _, hexec⟩
      exact exec_wf hs ha hexec
  have hsize := hwf.size
  have hcur := hwf.cur
  refine ⟨⟨?_, ?_, ?_⟩, allOrNothing_iff_meets hwf⟩
  · simp only [FixedBuffer.length]
    omega
  · simp only [FixedBuffer.length]
    omega
  · simp only [FixedBuffer.avail]
    omega

theorem insertions_safe_of_meets_number :
    ∃ t, LogStream.new.insert (.int (-42)) = .ok t ∧ t.content = ascii "-42" ∧
      t.buffer.length ≤ kSmallBuffer ∧ ∀ ins, AllOrNothing t ins ↔ Meets t ins := by
  have hmeets : Meets LogStream.new (.int (-42)) := by decide +kernel
  obtain ⟨t, hok, hwf, hcontent⟩ := (allOrNothing_iff_meets new_wf _).2 hmeets
  have hreach : (system.restrict ActMeets).Reachable t :=
    StepSystem.Reachable.step (a := .insert (.int (-42))) (StepSystem.Reachable.init rfl)
      ⟨hmeets, trivial, hok⟩
  obtain ⟨⟨_, hle, _⟩, hiff⟩ := insertions_safe_of_meets hreach
  obtain ⟨t', hok', _, hcontent'⟩ := formatInteger_ok new_wf (v := -42) (by decide +kernel)
  have hsame : LogStream.new.insert (.int (-42)) = .ok t' := hok'
  rw [hok] at hsame
  cases hsame
  exact ⟨t, hok, hcontent'.trans (by decide +kernel), hle, hiff⟩

/-- The stream after the insertion of 3998 characters. -/
def nearlyFull : LogStream :=
  ⟨(FixedBuffer.new kSmallBuffer).extended (List.replicate 3998 120)⟩

theorem nearlyFull_room :
    (FixedBuffer.new kSmallBuffer).cur + (List.replicate 3998 (120 : UInt8)).length <
      (FixedBuffer.new kSmallBuffer).data.length := by
  rw [List.length_replicate, FixedBuffer.length_data_new]
  decide

theorem nearlyFull_wf : nearlyFull.WF where
  size := (length_overwrite (Nat.le_of_lt nearlyFull_room)).trans (FixedBuffer.length_data_new _)
  cur := Nat.le_of_lt (Nat.lt_of_lt_of_eq nearlyFull_room (FixedBuffer.length_data_new _))

theorem nearlyFull_insert :
    LogStream.new.insert (.string (List.replicate 3998 120)) = .ok nearlyFull := by
  have hsmall : (FixedBuffer.new kSmallBuffer).data.length < 2 ^ 64 := by
    rw [FixedBuffer.length_data_new]
    decide
  have heq := FixedBuffer.append_eq (Nat.zero_le _) hsmall (List.replicate 3998 120)
  rw [if_pos nearlyFull_room] at heq
  show ((FixedBuffer.new kSmallBuffer).append _ >>= fun b => pure (LogStream.mk b)) = _
  rw [heq]
  rfl

/-- The three digits of 123 do not fit into the last two bytes, and are written all the same. -/
theorem integer_overruns_buffer :
    ¬ ∀ s, system.Reachable s → ∀ ins, AllOrNothing s ins := by
  intro hclaim
  have hreach : system.Reachable nearlyFull :=
    StepSystem.Reachable.step (a := .insert (.string (List.replicate 3998 120)))
      (StepSystem.Reachable.init rfl) ⟨trivial, nearlyFull_insert⟩
  have hmeets := (allOrNothing_iff_meets nearlyFull_wf _).1 (hclaim _ hreach (.int 123))
  have havail : nearlyFull.buffer.avail = 2 := by
    have hcur : nearlyFull.buffer.cur = 3998 := by
      rw [nearlyFull, FixedBuffer.extended, List.length_replicate]
      rfl
    rw [FixedBuffer.avail, nearlyFull_wf.size, hcur]
    rfl
  have hshort := hmeets 123 rfl
  rw [havail] at hshort
  exact absurd hshort (by decide)

end LogStream

end Muduo
