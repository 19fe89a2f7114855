import Muduo.Base.CountDownLatch
import Muduo.Base.LogFileLife
import Muduo.Base.LogStreamSafety

/-!
# AsyncLogging — the double buffers of `muduo/base/AsyncLogging.cc`

Any number of threads append lines to `currentBuffer_`.  A buffer that is full goes to `buffers_`,
and `nextBuffer_` or a new one takes its place.  The back end, `threadFunc`, takes over what there
is, puts one of its own two buffers in the place of `currentBuffer_`, and goes round again for as
long as `running_` is set.  A `unique_ptr` is an `Option`, `none` being null, and a critical
section under `mutex_` is a step.

The back end does not keep any of the buffers that it takes over for its next round.  So its
first hand-over uses up `newBuffer1`, and its second leaves null in `currentBuffer_`
(`append_safe_iff`).  Its `LogFile` is opened, flushed and closed, and gets no line.
-/

namespace Muduo

/-- The argument of the template `FixedBuffer`; the class takes `kLargeBuffer`. -/
def BufferSize := { size : Nat // 0 < size ∧ size < 2 ^ 31 }

abbrev BufferPtr := Option FixedBuffer

def BufferPtr.bytes : BufferPtr → List UInt8
  | some b => b.toString
  | none => []

/-- Where the thread is that calls `start` and `stop`. -/
inductive FrontEnd
  | idle
  /-- In `latch_.wait()`. -/
  | starting
  | started
  /-- In `thread_.join()`. -/
  | stopping
  | stopped
  deriving DecidableEq, Repr

/-- Where `threadFunc` is. -/
inductive BackEnd
  | notStarted
  | entered
  /-- After `latch_.countDown()`, before the constructor of `output`. -/
  | opening
  /-- At the test of `while (running_)`. -/
  | testing
  /-- Before the mutex. -/
  | locking
  /-- After the critical section. -/
  | writing
  /-- After the loop. -/
  | leaving
  | finished
  deriving DecidableEq, Repr

/-- The local variables have been constructed. -/
def BackEnd.ready : BackEnd → Bool
  | .notStarted => false
  | .entered => false
  | .opening => false
  | _ => true

/-- The members of the class and the local variables of `threadFunc`; the last three record what
has happened. -/
structure AsyncLogging where
  running : Bool
  rollSize : Int
  latch : CountDownLatch
  currentBuffer : BufferPtr
  nextBuffer : BufferPtr
  buffers : List BufferPtr
  /-- `output`, from its constructor to its destructor. -/
  output : Option LogFile
  newBuffer1 : BufferPtr
  newBuffer2 : BufferPtr
  buffersToWrite : List BufferPtr
  front : FrontEnd
  back : BackEnd
  /-- The lines of all calls of `append`. -/
  appended : List (List UInt8)
  /-- The bytes of the buffers that the back end has destroyed. -/
  cleared : List UInt8
  /-- The number of hand-overs. -/
  handOvers : Nat

namespace AsyncLogging

open WaitSet

variable (size : BufferSize)

/-- The constructor. -/
def new (rollSize : Int) : AsyncLogging where
  running := false
  rollSize := rollSize
  latch := CountDownLatch.new 1 1
  currentBuffer := some (FixedBuffer.new size.val)
  nextBuffer := some (FixedBuffer.new size.val)
  buffers := []
  output := none
  newBuffer1 := none
  newBuffer2 := none
  buffersToWrite := []
  front := .idle
  back := .notStarted
  appended := []
  cleared := []
  handOvers := 0

/-! ## The functions of the class -/

/-- `*currentBuffer_`; a null pointer is as bad as one to a deleted object. -/
def current (s : AsyncLogging) : Except Fault FixedBuffer :=
  match s.currentBuffer with
  | some b => .ok b
  | none => .error .useAfterFree

/-- `append(logline, len)`.  Nobody waits for the `notify` at its end. -/
def append (s : AsyncLogging) (logline : List UInt8) : Except Fault AsyncLogging := do
  let b ← s.current
  if (logline.length : Int) < b.avail then
    let b ← b.append logline
    pure { s with currentBuffer := some b, appended := s.appended ++ [logline] }
  else
    let next := s.nextBuffer.getD (FixedBuffer.new size.val)
    let b' ← next.append logline
    pure { s with
      buffers := s.buffers ++ [some b]
      currentBuffer := some b'
      nextBuffer := none
      appended := s.appended ++ [logline] }

/-- `start()`, up to `latch_.wait()`. -/
def start (s : AsyncLogging) : AsyncLogging :=
  { s with running := true, latch := s.latch.call 0, front := .starting, back := .entered }

/-- `stop()`, up to `thread_.join()`. -/
def stop (s : AsyncLogging) : AsyncLogging :=
  { s with running := false, front := .stopping }

/-- The beginning of `threadFunc`. -/
def enter (s : AsyncLogging) : Except Fault AsyncLogging := do
  assert (s.running = true)
  pure { s with latch := s.latch.countDown, back := .opening }

/-- `LogFile output(basename_, rollSize_, false)` and the two buffers.  The third argument is the
flush interval; the memory of `fp_`, the clock and `fopen` come in as in `LogFile.new`. -/
def construct (s : AsyncLogging) (garbage : Addr) (now : Int) (opened : Addr) :
    Except Fault AsyncLogging := do
  let output ← LogFile.new s.rollSize 0 1024 garbage now opened
  pure { s with
    output := some output
    newBuffer1 := some (FixedBuffer.new size.val)
    newBuffer2 := some (FixedBuffer.new size.val)
    back := .testing }

/-- The critical section in the loop of `threadFunc`. -/
def handOver (s : AsyncLogging) : AsyncLogging :=
  { s with
    currentBuffer := s.newBuffer1
    newBuffer1 := none
    buffersToWrite := s.buffers ++ [s.currentBuffer]
    -- `buffersToWrite` was empty before the swap.
    buffers := s.buffersToWrite
    nextBuffer := if s.nextBuffer.isNone then s.newBuffer2 else s.nextBuffer
    newBuffer2 := if s.nextBuffer.isNone then none else s.newBuffer2
    back := .writing
    handOvers := s.handOvers + 1 }

/-- `output`, which must exist. -/
def file (s : AsyncLogging) : Except Fault LogFile :=
  match s.output with
  | some output => .ok output
  | none => .error .useAfterFree

/-- The rest of the loop's body. -/
def clear (s : AsyncLogging) : Except Fault AsyncLogging := do
  assert (s.buffersToWrite.isEmpty = false)
  let output ← s.file
  let output ← output.flush
  pure { s with
    buffersToWrite := []
    cleared := s.cleared ++ s.buffersToWrite.flatMap BufferPtr.bytes
    output := some output
    back := .testing }

/-- The end of `threadFunc`, with the destructor of `output`. -/
def leave (s : AsyncLogging) : Except Fault AsyncLogging := do
  let output ← s.file
  let output ← output.flush
  let _ ← output.destroy
  pure { s with output := none, back := .finished }

/-! ## What the functions of the back end leave -/

variable {size : BufferSize} {s t : AsyncLogging}

theorem enter_spec (hexec : s.enter = .ok t) :
    t = { s with latch := s.latch.countDown, back := .opening } := by
  obtain ⟨_, _, hexec⟩ := exists_ok_of_bind hexec
  cases hexec
  rfl

theorem construct_spec {garbage : Addr} {now : Int} {opened : Addr}
    (hexec : s.construct size garbage now opened = .ok t) :
    ∃ output, LogFile.new s.rollSize 0 1024 garbage now opened = .ok output ∧
      t = { s with
        output := some output
        newBuffer1 := some (FixedBuffer.new size.val)
        newBuffer2 := some (FixedBuffer.new size.val)
        back := .testing } := by
  obtain ⟨output, hnew, hexec⟩ := exists_ok_of_bind hexec
  cases hexec
  exact ⟨output, hnew, rfl⟩

theorem file_eq_ok {output : LogFile} (hfile : s.file = .ok output) : s.output = some output := by
  unfold file at hfile
  split at hfile
  · cases hfile
    assumption
  · cases hfile

theorem flush_eq_ok {f f' : LogFile} (hflush : f.flush = .ok f') : f' = f := by
  unfold LogFile.flush at hflush
  split at hflush
  · cases hflush
    rfl
  · cases hflush

theorem clear_spec (hexec : s.clear = .ok t) :
    t = { s with
      buffersToWrite := []
      cleared := s.cleared ++ s.buffersToWrite.flatMap BufferPtr.bytes
      back := .testing } := by
  obtain ⟨_, _, hexec⟩ := exists_ok_of_bind hexec
  obtain ⟨output, hfile, hexec⟩ := exists_ok_of_bind hexec
  obtain ⟨flushed, hflush, hexec⟩ := exists_ok_of_bind hexec
  cases hexec
  rw [flush_eq_ok hflush, ← file_eq_ok hfile]

theorem leave_spec (hexec : s.leave = .ok t) :
    t = { s with output := none, back := .finished } := by
  obtain ⟨_, _, hexec⟩ := exists_ok_of_bind hexec
  obtain ⟨_, _, hexec⟩ := exists_ok_of_bind hexec
  obtain ⟨_, _, hexec⟩ := exists_ok_of_bind hexec
  cases hexec
  rfl

/-! ## Interleavings -/

variable (size)

inductive Act
  | append (logline : List UInt8)
  | start
  /-- A critical section of `latch_.wait()`. -/
  | wait
  | spurious
  | stop
  | joined
  | enter
  | construct (garbage : Addr) (now : Int) (opened : Addr)
  | test
  | handOver
  | clear
  | leave
  deriving DecidableEq, Repr

def exec (s : AsyncLogging) : Act → Except Fault AsyncLogging
  | .append logline => s.append size logline
  | .start => pure s.start
  | .wait =>
      let latch := s.latch.wait 0
      pure { s with
        latch := latch
        front := if At latch.threads 0 LatchUse.isPassed then .started else .starting }
  | .spurious => pure { s with latch := s.latch.spurious 0 }
  | .stop => pure s.stop
  | .joined => pure { s with front := .stopped }
  | .enter => s.enter
  | .construct garbage now opened => s.construct size garbage now opened
  | .test => pure { s with back := if s.running then .locking else .leaving }
  | .handOver => pure s.handOver
  | .clear => s.clear
  | .leave => s.leave

/-- One thread starts the back end and stops it at the end; appending is for everybody, at any
time. -/
def Enabled (s : AsyncLogging) : Act → Prop
  | .append _ => True
  | .start => s.front = .idle
  | .wait => s.front = .starting ∧ At s.latch.threads 0 LatchUse.isReady
  | .spurious => s.front = .starting ∧ At s.latch.threads 0 LatchUse.isWaiting
  | .stop => s.front = .started
  | .joined => s.front = .stopping ∧ s.back = .finished
  | .enter => s.back = .entered
  | .construct _ _ _ => s.back = .opening
  | .test => s.back = .testing
  | .handOver => s.back = .locking
  | .clear => s.back = .writing
  | .leave => s.back = .leaving

instance (s : AsyncLogging) (a : Act) : Decidable (Enabled s a) :=
  match a with
  | .append _ => isTrue trivial
  | .start => inferInstanceAs (Decidable (_ = _))
  | .wait => inferInstanceAs (Decidable (_ ∧ _))
  | .spurious => inferInstanceAs (Decidable (_ ∧ _))
  | .stop => inferInstanceAs (Decidable (_ = _))
  | .joined => inferInstanceAs (Decidable (_ ∧ _))
  | .enter => inferInstanceAs (Decidable (_ = _))
  | .construct _ _ _ => inferInstanceAs (Decidable (_ = _))
  | .test => inferInstanceAs (Decidable (_ = _))
  | .handOver => inferInstanceAs (Decidable (_ = _))
  | .clear => inferInstanceAs (Decidable (_ = _))
  | .leave => inferInstanceAs (Decidable (_ = _))

def system : StepSystem AsyncLogging Act :=
  StepSystem.ofExec (fun s => ∃ rollSize, s = new size rollSize) Enabled (exec size)

/-! ## The buffers -/

variable {size}

/-- A buffer of the right size; `cur_` is inside. -/
structure Sound (size : BufferSize) (b : FixedBuffer) : Prop where
  length : b.data.length = size.val
  cur : b.cur ≤ size.val

/-- A buffer nothing was written to since its construction. -/
def Fresh (size : BufferSize) (p : BufferPtr) : Prop :=
  ∀ b ∈ p, b = FixedBuffer.new size.val

theorem new_sound (size : BufferSize) : Sound size (FixedBuffer.new size.val) where
  length := FixedBuffer.length_data_new size.val
  cur := Nat.zero_le _

/-- What `append` keeps of a line in a buffer. -/
def kept (size : BufferSize) (lines : List (List UInt8)) : List UInt8 :=
  (lines.filter fun line => line.length < size.val).flatten

theorem append_sound {b : FixedBuffer} (h : Sound size b) (line : List UInt8) :
    ∃ b', b.append line = .ok b' ∧ Sound size b' ∧
      b'.toString = b.toString ++ if b.cur + line.length < size.val then line else [] := by
  have hbound := size.property.2
  have heq := FixedBuffer.append_eq (b := b) (by rw [h.length]; exact h.cur)
    (by rw [h.length]; omega) line
  rw [h.length] at heq
  by_cases hroom : b.cur + line.length < size.val
  · rw [if_pos hroom] at heq
    have hfits : b.cur + line.length ≤ b.data.length := by
      rw [h.length]
      exact Nat.le_of_lt hroom
    refine ⟨_, heq, ⟨?_, Nat.le_of_lt hroom⟩, ?_⟩
    · exact (Window.length_overwrite hfits).trans h.length
    · rw [if_pos hroom]
      exact FixedBuffer.toString_extended hfits
  · rw [if_neg hroom] at heq
    exact ⟨b, heq, h, by simp [hroom]⟩

/-! ## The invariant -/

/-- The latch and the two threads. -/
structure Started (s : AsyncLogging) : Prop where
  latch : s.latch.Inv
  fresh : s.front = .idle → s.latch = CountDownLatch.new 1 1
  closed : s.back = .notStarted ∨ s.back = .entered → s.latch.count = 1
  idle : s.front = .idle ↔ s.back = .notStarted
  starting : s.front = .starting → s.running = true
  through : s.front ≠ .idle → s.front ≠ .starting → s.latch.count ≤ 0
  writing : s.back = .writing → s.buffersToWrite.isEmpty = false
  swapped : s.back ≠ .writing → s.buffersToWrite = []

/-- What is left of the buffers, after how many hand-overs. -/
structure Supply (size : BufferSize) (s : AsyncLogging) : Prop where
  current : ∀ b ∈ s.currentBuffer, Sound size b
  null : s.currentBuffer = none ↔ 2 ≤ s.handOvers
  next : Fresh size s.nextBuffer
  new1 : Fresh size s.newBuffer1
  new2 : Fresh size s.newBuffer2
  before : s.back.ready = false → s.handOvers = 0
  spent : s.back.ready = true → (s.newBuffer1 = none ↔ 1 ≤ s.handOvers)

/-- What was taken over, what waits for it and what is in the current buffer. -/
def stream (s : AsyncLogging) : List UInt8 :=
  s.cleared ++ s.buffersToWrite.flatMap BufferPtr.bytes ++ s.buffers.flatMap BufferPtr.bytes ++
    s.currentBuffer.bytes

structure Inv (size : BufferSize) (s : AsyncLogging) : Prop where
  started : Started s
  supply : Supply size s
  stream : s.stream = kept size s.appended

/-! ## Every function keeps it -/

theorem kept_append (size : BufferSize) (lines : List (List UInt8)) (line : List UInt8) :
    kept size (lines ++ [line]) =
      kept size lines ++ if line.length < size.val then line else [] := by
  by_cases hshort : line.length < size.val <;> simp [kept, hshort]

theorem Fresh.sound {p : BufferPtr} (h : Fresh size p) : ∀ b ∈ p, Sound size b := by
  intro b hb
  rw [h b hb]
  exact new_sound size

theorem Fresh.bytes {p : BufferPtr} (h : Fresh size p) : p.bytes = [] := by
  cases p with
  | none => rfl
  | some b =>
      rw [h b rfl]
      rfl

theorem Fresh.getD {p : BufferPtr} (h : Fresh size p) :
    p.getD (FixedBuffer.new size.val) = FixedBuffer.new size.val := by
  cases p with
  | none => rfl
  | some b => exact h b rfl

theorem fresh_new (size : BufferSize) : Fresh size (some (FixedBuffer.new size.val)) := by
  rintro b ⟨⟩
  rfl

theorem fresh_none (size : BufferSize) : Fresh size none := by
  rintro b ⟨⟩

theorem Started.append (h : Started s) {p q : BufferPtr} {ps : List BufferPtr}
    {lines : List (List UInt8)} :
    Started { s with currentBuffer := p, nextBuffer := q, buffers := ps, appended := lines } :=
  ⟨h.latch, h.fresh, h.closed, h.idle, h.starting, h.through, h.writing, h.swapped⟩

theorem append_ok (h : Inv size s) {b : FixedBuffer} (hb : s.currentBuffer = some b)
    (line : List UInt8) : ∃ t, s.append size line = .ok t ∧ Inv size t := by
  have hsound := h.supply.current b hb
  have hnull : ∀ b' : FixedBuffer, some b' = (none : BufferPtr) ↔ 2 ≤ s.handOvers := by
    intro b'
    have hbefore := h.supply.null
    rw [hb] at hbefore
    simpa using hbefore
  have hstream := h.stream
  rw [stream, hb] at hstream
  by_cases hroom : (line.length : Int) < b.avail
  · obtain ⟨b', hb', hsound', htext⟩ := append_sound hsound line
    have hfits : b.cur + line.length < size.val := by
      have hlength := hsound.length
      simp only [FixedBuffer.avail] at hroom
      omega
    have hshort : line.length < size.val := by omega
    rw [if_pos hfits] at htext
    refine ⟨{ s with currentBuffer := some b', appended := s.appended ++ [line] }, ?_,
      h.started.append, ?_, ?_⟩
    · rw [append, current, hb]
      show (if (line.length : Int) < b.avail then _ else _) = _
      rw [if_pos hroom, hb']
      rfl
    · exact { h.supply with
        current := by rintro _ ⟨⟩; exact hsound'
        null := hnull b' }
    · rw [kept_append, if_pos hshort, ← hstream]
      simp [stream, BufferPtr.bytes, htext]
  · obtain ⟨b', hb', hsound', htext⟩ := append_sound (new_sound size) line
    have htext' : b'.toString = if line.length < size.val then line else [] := by
      rw [htext]
      simp [FixedBuffer.new, FixedBuffer.toString, Window.window]
    refine ⟨{ s with
        buffers := s.buffers ++ [some b]
        currentBuffer := some b'
        nextBuffer := none
        appended := s.appended ++ [line] }, ?_, h.started.append, ?_, ?_⟩
    · rw [append, current, hb]
      show (if (line.length : Int) < b.avail then _ else _) = _
      rw [if_neg hroom, h.supply.next.getD, hb']
      rfl
    · exact { h.supply with
        current := by rintro _ ⟨⟩; exact hsound'
        null := hnull b'
        next := fresh_none size }
    · rw [kept_append, ← hstream]
      simp [stream, BufferPtr.bytes, htext']

theorem append_fault (h : Inv size s) (hspent : 2 ≤ s.handOvers) (line : List UInt8) :
    s.append size line = .error .useAfterFree := by
  rw [append, current, h.supply.null.2 hspent]
  rfl

theorem start_inv (h : Inv size s) (hidle : s.front = .idle) : Inv size s.start where
  started := {
    latch := h.started.latch.call (by rw [h.started.fresh hidle]; decide)
    fresh := by rintro ⟨⟩
    closed := fun _ => h.started.closed (Or.inl (h.started.idle.1 hidle))
    idle := by simp [start]
    starting := fun _ => rfl
    through := by intro _ hno; exact absurd rfl hno
    writing := by rintro ⟨⟩
    swapped := fun _ => h.started.swapped (by rw [h.started.idle.1 hidle]; decide) }
  supply := { h.supply with
    before := fun _ => h.supply.before (by rw [h.started.idle.1 hidle]; rfl)
    spent := by rintro ⟨⟩ }
  stream := h.stream

theorem wait_inv (h : Inv size s) (hstarting : s.front = .starting)
    (ha : At s.latch.threads 0 LatchUse.isReady) (hexec : exec size s .wait = .ok t) :
    Inv size t := by
  have hlatch := h.started.latch.wait ha
  have hback : s.back ≠ .notStarted := by
    intro hno
    rw [h.started.idle.2 hno] at hstarting
    cases hstarting
  cases hexec
  refine ⟨?_, { h.supply with }, h.stream⟩
  by_cases hpassed : At (s.latch.wait 0).threads 0 LatchUse.isPassed
  · simp only [if_pos hpassed]
    exact {
      latch := hlatch
      fresh := by rintro ⟨⟩
      closed := h.started.closed
      idle := by simp [hback]
      starting := by rintro ⟨⟩
      through := fun _ _ => hlatch.passed 0 hpassed
      writing := h.started.writing
      swapped := h.started.swapped }
  · simp only [if_neg hpassed]
    exact {
      latch := hlatch
      fresh := by rintro ⟨⟩
      closed := h.started.closed
      idle := by simp [hback]
      starting := fun _ => h.started.starting hstarting
      through := by intro _ hno; exact absurd rfl hno
      writing := h.started.writing
      swapped := h.started.swapped }

theorem spurious_inv (h : Inv size s) (hstarting : s.front = .starting)
    (ha : At s.latch.threads 0 LatchUse.isWaiting) :
    Inv size { s with latch := s.latch.spurious 0 } where
  started := { h.started with
    latch := h.started.latch.spurious ha
    fresh := by intro hidle; rw [hstarting] at hidle; cases hidle }
  supply := { h.supply with }
  stream := h.stream

theorem stop_inv (h : Inv size s) (hstarted : s.front = .started) : Inv size s.stop where
  started := { h.started with
    fresh := by rintro ⟨⟩
    idle := by
      have hidle := h.started.idle
      rw [hstarted] at hidle
      simpa [stop] using hidle
    starting := by rintro ⟨⟩
    through := fun _ _ => h.started.through (by rw [hstarted]; decide) (by rw [hstarted]; decide) }
  supply := { h.supply with }
  stream := h.stream

theorem joined_inv (h : Inv size s) (hstopping : s.front = .stopping) :
    Inv size { s with front := .stopped } where
  started := { h.started with
    fresh := by rintro ⟨⟩
    idle := by
      have hidle := h.started.idle
      rw [hstopping] at hidle
      simpa using hidle
    starting := by rintro ⟨⟩
    through := fun _ _ =>
      h.started.through (by rw [hstopping]; decide) (by rw [hstopping]; decide) }
  supply := { h.supply with }
  stream := h.stream

/-- `stop` cannot have come before the `assert`: `start` is still in `latch_.wait()`. -/
theorem running_of_entered (h : Started s) (hback : s.back = .entered) : s.running = true := by
  by_cases hstarting : s.front = .starting
  · exact h.starting hstarting
  · have hidle : s.front ≠ .idle := by
      intro hidle
      rw [h.idle.1 hidle] at hback
      cases hback
    have hopen := h.through hidle hstarting
    have hclosed := h.closed (Or.inr hback)
    omega

theorem not_idle_of_back (h : Started s) {back : BackEnd} (hback : s.back = back)
    (hstarted : back ≠ .notStarted) : s.front ≠ .idle := by
  intro hidle
  exact hstarted (hback.symm.trans (h.idle.1 hidle))

theorem enter_inv (h : Inv size s) (hback : s.back = .entered) :
    Inv size { s with latch := s.latch.countDown, back := .opening } := by
  have hidle := not_idle_of_back h.started hback (by decide)
  refine ⟨?_, { h.supply with before := ?_, spent := by rintro ⟨⟩ }, h.stream⟩
  · exact { h.started with
      latch := h.started.latch.countDown
      fresh := fun h' => absurd h' hidle
      closed := by rintro (⟨⟨⟩⟩ | ⟨⟨⟩⟩)
      idle := by simp [hidle]
      through := fun hno hno' => by
        have := h.started.through hno hno'
        show s.latch.count - 1 ≤ 0
        omega
      writing := by rintro ⟨⟩
      swapped := fun _ => h.started.swapped (by rw [hback]; decide) }
  · exact fun _ => h.supply.before (by rw [hback]; rfl)

theorem construct_inv (h : Inv size s) (hback : s.back = .opening) (output : LogFile) :
    Inv size { s with
      output := some output
      newBuffer1 := some (FixedBuffer.new size.val)
      newBuffer2 := some (FixedBuffer.new size.val)
      back := .testing } := by
  have hidle := not_idle_of_back h.started hback (by decide)
  have hnone := h.supply.before (by rw [hback]; rfl)
  refine ⟨?_, ?_, h.stream⟩
  · exact { h.started with
      closed := by rintro (⟨⟨⟩⟩ | ⟨⟨⟩⟩)
      idle := by simp [hidle]
      writing := by rintro ⟨⟩
      swapped := fun _ => h.started.swapped (by rw [hback]; decide) }
  · exact { h.supply with
      new1 := fresh_new size
      new2 := fresh_new size
      before := by rintro ⟨⟩
      spent := fun _ => by simp [hnone] }

/-- The back end goes on to another place outside the critical section. -/
theorem Inv.move (h : Inv size s) (hidle : s.front ≠ .idle) (hready : s.back.ready = true)
    (hswapped : s.buffersToWrite = []) {back : BackEnd} (hback : back.ready = true)
    (hwriting : back ≠ .writing) (output : Option LogFile) :
    Inv size { s with output := output, back := back } where
  started := { h.started with
    closed := by
      rintro (rfl | rfl)
      · cases hback
      · cases hback
    idle := by
      refine iff_of_false hidle ?_
      rintro rfl
      cases hback
    writing := fun hno => absurd hno hwriting
    swapped := fun _ => hswapped }
  supply := { h.supply with
    before := fun hno => by rw [hback] at hno; cases hno
    spent := fun _ => h.supply.spent hready }
  stream := h.stream

theorem test_inv (h : Inv size s) (hback : s.back = .testing) :
    Inv size { s with back := if s.running then .locking else .leaving } := by
  have hidle := not_idle_of_back h.started hback (by decide)
  have hswapped := h.started.swapped (by rw [hback]; decide)
  have hready : s.back.ready = true := by rw [hback]; rfl
  split
  · exact h.move hidle hready hswapped rfl (by decide) s.output
  · exact h.move hidle hready hswapped rfl (by decide) s.output

theorem handOver_inv (h : Inv size s) (hback : s.back = .locking) : Inv size s.handOver := by
  have hidle := not_idle_of_back h.started hback (by decide)
  have hswapped := h.started.swapped (by rw [hback]; decide)
  have hspent := h.supply.spent (by rw [hback]; rfl)
  refine ⟨?_, ?_, ?_⟩
  · exact { h.started with
      closed := by rintro (⟨⟨⟩⟩ | ⟨⟨⟩⟩)
      idle := by simp [handOver, hidle]
      writing := fun _ => by simp [handOver]
      swapped := fun hno => absurd rfl hno }
  · refine {
      current := h.supply.new1.sound
      null := hspent.trans (by simp [handOver])
      next := ?_
      new1 := fresh_none size
      new2 := ?_
      before := by rintro ⟨⟩
      spent := fun _ => by simp [handOver] }
    · simp only [handOver]
      split
      · exact h.supply.new2
      · exact h.supply.next
    · simp only [handOver]
      split
      · exact fresh_none size
      · exact h.supply.new2
  · have hstream := h.stream
    simp only [stream, hswapped] at hstream
    simp [stream, handOver, hswapped, h.supply.new1.bytes, ← hstream]

theorem clear_inv (h : Inv size s) (hback : s.back = .writing) :
    Inv size { s with
      buffersToWrite := []
      cleared := s.cleared ++ s.buffersToWrite.flatMap BufferPtr.bytes
      back := .testing } := by
  have hidle := not_idle_of_back h.started hback (by decide)
  have hspent := h.supply.spent (by rw [hback]; rfl)
  refine ⟨?_, ?_, ?_⟩
  · exact { h.started with
      closed := by rintro (⟨⟨⟩⟩ | ⟨⟨⟩⟩)
      idle := by simp [hidle]
      writing := by rintro ⟨⟩
      swapped := fun _ => rfl }
  · exact { h.supply with
      before := by rintro ⟨⟩
      spent := fun _ => hspent }
  · rw [← h.stream]
    simp [stream]

theorem leave_inv (h : Inv size s) (hback : s.back = .leaving) :
    Inv size { s with output := none, back := .finished } := by
  have hidle := not_idle_of_back h.started hback (by decide)
  have hswapped := h.started.swapped (by rw [hback]; decide)
  exact h.move hidle (by rw [hback]; rfl) hswapped rfl (by decide) none

/-! ## Runs -/

theorem new_inv (size : BufferSize) (rollSize : Int) : Inv size (new size rollSize) where
  started := {
    latch := CountDownLatch.new_inv 1 1
    fresh := fun _ => rfl
    closed := fun _ => rfl
    idle := by simp [new]
    starting := by rintro ⟨⟩
    through := fun hno => absurd rfl hno
    writing := by rintro ⟨⟩
    swapped := fun _ => rfl }
  supply := {
    current := (fresh_new size).sound
    null := by simp [new]
    next := fresh_new size
    new1 := fresh_none size
    new2 := fresh_none size
    before := fun _ => rfl
    spent := by rintro ⟨⟩ }
  stream := rfl

theorem step_inv {a : Act} (h : Inv size s) (hstep : (system size).step s a t) : Inv size t := by
  obtain ⟨ha, hexec⟩ := hstep
  cases a with
  | append line =>
      cases hb : s.currentBuffer with
      | none =>
          rw [exec, append_fault h (h.supply.null.1 hb)] at hexec
          cases hexec
      | some b =>
          obtain ⟨t', ht', hinv⟩ := append_ok h hb line
          cases hexec.symm.trans ht'
          exact hinv
  | start => cases hexec; exact start_inv h ha
  | wait => exact wait_inv h ha.1 ha.2 hexec
  | spurious => cases hexec; exact spurious_inv h ha.1 ha.2
  | stop => cases hexec; exact stop_inv h ha
  | joined => cases hexec; exact joined_inv h ha.1
  | enter =>
      cases enter_spec hexec
      exact enter_inv h ha
  | construct garbage now opened =>
      obtain ⟨output, _, rfl⟩ := construct_spec hexec
      exact construct_inv h ha output
  | test => cases hexec; exact test_inv h ha
  | handOver => cases hexec; exact handOver_inv h ha
  | clear =>
      cases clear_spec hexec
      exact clear_inv h ha
  | leave =>
      cases leave_spec hexec
      exact leave_inv h ha

/-- The line of a call of `append`. -/
def Act.lines : Act → List (List UInt8)
  | .append logline => [logline]
  | _ => []

theorem append_records {line : List UInt8} (hexec : s.append size line = .ok t) :
    (t.handOvers = s.handOvers ∧ t.appended = s.appended ++ [line]) ∧
      t.back = s.back ∧ t.output = s.output := by
  simp only [append, bind, Except.bind] at hexec
  split at hexec
  · cases hexec
  · split at hexec
    all_goals
      split at hexec
      · cases hexec
      · cases hexec
        exact ⟨⟨rfl, rfl⟩, rfl, rfl⟩

theorem exec_records {a : Act} (hexec : exec size s a = .ok t) :
    t.handOvers = s.handOvers + (if a == .handOver then 1 else 0) ∧
      t.appended = s.appended ++ a.lines := by
  cases a with
  | append line => exact (append_records hexec).1
  | enter =>
      cases enter_spec hexec
      exact ⟨rfl, (List.append_nil _).symm⟩
  | construct garbage now opened =>
      obtain ⟨output, _, rfl⟩ := construct_spec hexec
      exact ⟨rfl, (List.append_nil _).symm⟩
  | clear =>
      cases clear_spec hexec
      exact ⟨rfl, (List.append_nil _).symm⟩
  | leave =>
      cases leave_spec hexec
      exact ⟨rfl, (List.append_nil _).symm⟩
  | start | wait | spurious | stop | joined | test | handOver =>
      cases hexec
      exact ⟨rfl, (List.append_nil _).symm⟩

theorem run_records {as : List Act} (hrun : (system size).Run s as t) :
    t.handOvers = s.handOvers + as.count .handOver ∧
      t.appended = s.appended ++ as.flatMap Act.lines := by
  induction hrun with
  | nil s => simp
  | @cons s u t a as hstep _ ih =>
      obtain ⟨hcount, hlines⟩ := exec_records hstep.2
      constructor
      · rw [ih.1, hcount, List.count_cons]
        omega
      · rw [ih.2, hlines, List.flatMap_cons, List.append_assoc]

/-! ## The file of the back end -/

/-- The constructor of `output` gets a file: `fp_` starts null, the clock is past the 0 that
`lastRoll_` starts with, and `fopen` succeeds. -/
def Act.GetsFile : Act → Prop
  | .construct garbage now opened => garbage = 0 ∧ 0 < now ∧ opened ≠ 0
  | _ => True

/-- As long as `output` is in scope, it has an open file. -/
def HasFile (s : AsyncLogging) : Prop :=
  s.back.ready = true → s.back ≠ .finished →
    ∃ f, s.output = some f ∧ f.Handle ∧ 0 < f.lastRoll

/-- Nothing has been written to a file that `output` has open. -/
def NothingWritten (s : AsyncLogging) : Prop :=
  ∀ f ∈ s.output, ∀ h bytes, f.streams h = some bytes → bytes = []

theorem new_hasFile (rollSize flushInterval checkEveryN : Int) {garbage : Addr} {now : Int}
    {opened : Addr} (hnull : garbage = 0) (hlater : 0 < now) (hopened : opened ≠ 0) :
    ∃ f, LogFile.new rollSize flushInterval checkEveryN garbage now opened = .ok f ∧
      f.Handle ∧ 0 < f.lastRoll := by
  have hspec := (LogFile.construct_spec
    ⟨rollSize, flushInterval, checkEveryN, garbage, now, opened⟩).1 hnull
  obtain ⟨f, hf⟩ := hspec.iff.mpr fun _ => hopened
  refine ⟨f, hf, hspec.handle f hf, ?_⟩
  rw [LogFile.Birth.construct] at hf
  simp only [LogFile.new, LogFile.rollFile, if_pos hlater, LogFile.fcloseOld, hnull,
    LogFile.fopen, if_neg hopened] at hf
  cases hf
  exact hlater

theorem new_nothingWritten {rollSize flushInterval checkEveryN : Int} {garbage : Addr} {now : Int}
    {opened : Addr} {f : LogFile}
    (hnew : LogFile.new rollSize flushInterval checkEveryN garbage now opened = .ok f) {h : Addr}
    {bytes : List UInt8} (hbytes : f.streams h = some bytes) : bytes = [] := by
  simp only [LogFile.new, LogFile.rollFile, LogFile.fcloseOld, LogFile.fclose] at hnew
  split at hnew
  · -- A file has been opened, so `fp_` was null before.
    split at hnew
    · cases hnew
    · by_cases hopened : opened = 0
      · simp [LogFile.fopen, hopened] at hnew
      · simp only [LogFile.fopen, if_neg hopened] at hnew
        cases hnew
        by_cases hh : h = opened
        · simp only [hh, Function.update_self] at hbytes
          cases hbytes
          rfl
        · simp [Function.update_of_ne hh] at hbytes
  · cases hnew
    cases hbytes

/-- `output` can be flushed. -/
theorem HasFile.flushes (hfile : s.HasFile) (hready : s.back.ready = true)
    (hnot : s.back ≠ .finished) :
    ∃ f, s.output = some f ∧ f.Handle ∧ 0 < f.lastRoll ∧ f.flush = .ok f := by
  obtain ⟨f, houtput, hhandle, hroll⟩ := hfile hready hnot
  obtain ⟨f', hflush⟩ := (LogFile.flush_succeeds hhandle).iff.mpr hroll
  rw [flush_eq_ok hflush] at hflush
  exact ⟨f, houtput, hhandle, hroll, hflush⟩

theorem clear_total (hfile : s.HasFile) (hback : s.back = .writing)
    (htaken : s.buffersToWrite.isEmpty = false) : ∃ t, s.clear = .ok t ∧ t.HasFile := by
  obtain ⟨f, houtput, hhandle, hroll, hflush⟩ :=
    hfile.flushes (by rw [hback]; rfl) (by rw [hback]; decide)
  refine ⟨{ s with
      buffersToWrite := []
      cleared := s.cleared ++ s.buffersToWrite.flatMap BufferPtr.bytes
      output := some f
      back := .testing }, ?_, fun _ _ => ⟨f, rfl, hhandle, hroll⟩⟩
  rw [clear, assert_pos htaken, file, houtput, ok_bind, ok_bind, hflush]
  rfl

theorem leave_total (hfile : s.HasFile) (hback : s.back = .leaving) :
    ∃ t, s.leave = .ok t ∧ t.HasFile := by
  obtain ⟨f, houtput, hhandle, hroll, hflush⟩ :=
    hfile.flushes (by rw [hback]; rfl) (by rw [hback]; decide)
  obtain ⟨f', hdestroy, _⟩ := (LogFile.destroy_clean_iff hhandle).mpr hroll
  refine ⟨{ s with output := none, back := .finished }, ?_, fun _ hno => absurd rfl hno⟩
  rw [leave, file, houtput, ok_bind, hflush, ok_bind, hdestroy]
  rfl

/-- In a state whose `output` has its file, nothing but an `append` can fault. -/
theorem exec_total {a : Act} (h : Inv size s) (hfile : s.HasFile) (ha : Enabled s a)
    (hgets : a.GetsFile) (happend : ∀ line, a = .append line → s.handOvers < 2) :
    ∃ t, exec size s a = .ok t ∧ t.HasFile := by
  cases a with
  | append line =>
      have hspent := happend line rfl
      cases hb : s.currentBuffer with
      | none =>
          have := h.supply.null.1 hb
          omega
      | some b =>
          obtain ⟨t, ht, _⟩ := append_ok h hb line
          obtain ⟨_, hback, houtput⟩ := append_records ht
          refine ⟨t, ht, ?_⟩
          rw [HasFile, hback, houtput]
          exact hfile
  | start => exact ⟨_, rfl, by rintro ⟨⟩⟩
  | wait => exact ⟨_, rfl, hfile⟩
  | spurious => exact ⟨_, rfl, hfile⟩
  | stop => exact ⟨_, rfl, hfile⟩
  | joined => exact ⟨_, rfl, hfile⟩
  | enter =>
      refine ⟨{ s with latch := s.latch.countDown, back := .opening }, ?_, by rintro ⟨⟩⟩
      rw [exec, enter, assert_pos (running_of_entered h.started ha)]
      rfl
  | construct garbage now opened =>
      obtain ⟨hnull, hlater, hopened⟩ := hgets
      obtain ⟨f, hnew, hopen⟩ := new_hasFile s.rollSize 0 1024 hnull hlater hopened
      have hexec : exec size s (.construct garbage now opened) = .ok { s with
          output := some f
          newBuffer1 := some (FixedBuffer.new size.val)
          newBuffer2 := some (FixedBuffer.new size.val)
          back := .testing } := by
        rw [exec, construct, hnew]
        rfl
      exact ⟨_, hexec, fun _ _ => ⟨f, rfl, hopen⟩⟩
  | test =>
      have hready : s.back.ready = true := by rw [show s.back = .testing from ha]; rfl
      refine ⟨_, rfl, fun _ _ => hfile hready ?_⟩
      rw [show s.back = .testing from ha]
      decide
  | handOver =>
      have hready : s.back.ready = true := by rw [show s.back = .locking from ha]; rfl
      refine ⟨_, rfl, fun _ _ => hfile hready ?_⟩
      rw [show s.back = .locking from ha]
      decide
  | clear => exact clear_total hfile ha (h.started.writing ha)
  | leave => exact leave_total hfile ha

theorem exec_nothingWritten {a : Act} (h : s.NothingWritten) (hexec : exec size s a = .ok t) :
    t.NothingWritten := by
  cases a with
  | append line =>
      rw [NothingWritten, (append_records hexec).2.2]
      exact h
  | enter =>
      cases enter_spec hexec
      exact h
  | construct garbage now opened =>
      obtain ⟨output, hnew, rfl⟩ := construct_spec hexec
      rintro _ ⟨⟩ x bytes hbytes
      exact new_nothingWritten hnew hbytes
  | clear =>
      cases clear_spec hexec
      exact h
  | leave =>
      cases leave_spec hexec
      rintro _ ⟨⟩
  | start | wait | spurious | stop | joined | test | handOver =>
      cases hexec
      exact h

theorem run_hasFile {as : List Act} (hrun : (system size).Run s as t) :
    Inv size s → s.HasFile → (∀ a ∈ as, a.GetsFile) → t.HasFile := by
  induction hrun with
  | nil s => exact fun _ hfile _ => hfile
  | @cons s u t a as hstep _ ih =>
      intro h hfile hgets
      refine ih (step_inv h hstep) ?_ fun b hb => hgets b (List.mem_cons_of_mem _ hb)
      obtain ⟨ha, hexec⟩ := hstep
      obtain ⟨u', hu', hfile'⟩ := exec_total h hfile ha (hgets a List.mem_cons_self) <| by
        rintro line rfl
        by_contra hspent
        rw [exec, append_fault h (Nat.le_of_not_lt hspent)] at hexec
        cases hexec
      cases hexec.symm.trans hu'
      exact hfile'

variable {as : List Act} {rollSize : Int}

/-- In every interleaving: `append` works until the back end has been round its loop twice, and
never again after that; if `output` gets its file, the rest of the code, with its two `assert`s,
always works; and nothing is ever written to that file. -/
theorem append_safe_iff (hrun : (system size).Run (new size rollSize) as s) :
    (∀ line, (∃ t, exec size s (.append line) = .ok t) ↔ as.count .handOver < 2) ∧
      ((∀ a ∈ as, a.GetsFile) → ∀ a, Enabled s a → a.GetsFile → (∀ line, a ≠ .append line) →
        ∃ t, exec size s a = .ok t) ∧
      ∀ f ∈ s.output, ∀ h bytes, f.streams h = some bytes → bytes = [] := by
  have hinv : Inv size s := hrun.preserves step_inv (new_inv size rollSize)
  have hcount : s.handOvers = as.count .handOver := by
    rw [(run_records hrun).1, new, Nat.zero_add]
  refine ⟨fun line => ⟨?_, fun hspent => ?_⟩, fun hgets a ha hgets' hother => ?_, ?_⟩
  · rintro ⟨t, hexec⟩
    by_contra hspent
    rw [exec, append_fault hinv (by omega)] at hexec
    cases hexec
  · cases hb : s.currentBuffer with
    | none =>
        have := hinv.supply.null.1 hb
        omega
    | some b =>
        obtain ⟨t, hexec, _⟩ := append_ok hinv hb line
        exact ⟨t, hexec⟩
  · have hfile : s.HasFile := run_hasFile hrun (new_inv size rollSize) (by rintro ⟨⟩) hgets
    obtain ⟨t, hexec, _⟩ := exec_total hinv hfile ha hgets' fun line hline =>
      absurd hline (hother line)
    exact ⟨t, hexec⟩
  · have hnothing : NothingWritten (new size rollSize) := by
      intro f hf
      cases hf
    refine hrun.preserves (P := NothingWritten) ?_ hnothing
    intro s a t h hstep
    exact exec_nothingWritten h hstep.2

/-- In every interleaving, with any number of threads that append: what was taken over, what waits
for it and what is in the current buffer are the lines in the order of the calls, but for those
that do not even fit into an empty buffer. -/
theorem lines_in_order (hrun : (system size).Run (new size rollSize) as s) :
    s.stream = kept size (as.flatMap Act.lines) := by
  have hinv : Inv size s := hrun.preserves step_inv (new_inv size rollSize)
  rw [hinv.stream, (run_records hrun).2]
  rfl

/-- Buffers of eight bytes; the line of nine is lost, and the back end goes round twice. -/
def twoRounds : List Act :=
  [.append (ascii "abcde"), .start, .wait, .spurious, .enter, .wait, .construct 0 100 7, .test,
    .append (ascii "fghi"), .handOver, .append (ascii "123456789"), .clear, .test,
    .append (ascii "jk"), .handOver]

def eight : BufferSize :=
  ⟨8, by decide⟩

def afterTwoRounds : AsyncLogging :=
  (StepSystem.execAll (exec eight) (new eight 1000) twoRounds).toOption.getD (new eight 1000)

theorem twoRounds_run : (system eight).Run (new eight 1000) twoRounds afterTwoRounds :=
  StepSystem.run_of_execAll (by decide) rfl

theorem append_safe_iff_twoRounds :
    ¬ (∃ t, exec eight afterTwoRounds (.append (ascii "l")) = .ok t) ∧
      ∃ t, exec eight afterTwoRounds .clear = .ok t := by
  obtain ⟨happend, hother, _⟩ := append_safe_iff twoRounds_run
  refine ⟨fun hok => absurd ((happend (ascii "l")).1 hok) (by decide),
    hother ?_ .clear (by decide) trivial (by rintro line ⟨⟩)⟩
  simp [twoRounds, Act.GetsFile]

theorem lines_in_order_twoRounds : afterTwoRounds.stream = ascii "abcdefghijk" := by
  rw [lines_in_order twoRounds_run]
  decide

end AsyncLogging

end Muduo
