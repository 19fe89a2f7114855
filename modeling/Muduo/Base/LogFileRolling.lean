import Mathlib.Order.Lattice
import Muduo.Base.LogFileWriting
import Muduo.Foundation.StepSystem

/-!
# LogFileRolling — `writtenBytes_` and the file it counts

`append` resets `writtenBytes_` when it rolls for size, whether or not `rollFile` opens a new
file; and when it rolls because the day has changed, it opens a new file without resetting the
counter.  `Meets` excludes just these two, `step_counts_iff` shows that nothing less will do for
one step, and `counts_of_meets` gives the property for whole runs.
-/

namespace Muduo
namespace LogFile

variable {f f' : LogFile}

/-- The number of bytes in the open file, none if no file is open. -/
def held (f : LogFile) : Nat :=
  match f.streams f.fp with
  | some bytes => bytes.length
  | none => 0

theorem held_of_open {bytes : List UInt8} (h : f.streams f.fp = some bytes) :
    f.held = bytes.length := by
  simp [held, h]

/-! ## The parts of `append` -/

/-- A `fwrite_unlocked` that takes the whole line. -/
def acceptAll (logline : List UInt8) : Nat → WriteResult :=
  fun _ => ⟨logline.length, false⟩

/-- The only call takes the whole line. -/
theorem iteration_acceptAll {logline : List UInt8} (hlen : logline.length < 2 ^ 64) :
    WriteLoop.iteration logline (acceptAll logline) WriteLoop.start =
      (⟨1, logline.length, logline⟩, true) := by
  have hfirst : WriteLoop.iteration logline (acceptAll logline) WriteLoop.start =
      (⟨0 + 1, (0 + logline.length) % 2 ^ 64, [] ++ logline.take logline.length⟩, true) :=
    if_neg fun herr => Bool.false_ne_true herr.2
  rw [hfirst, Nat.zero_add, Nat.zero_add, Nat.mod_eq_of_lt hlen, List.take_length, List.nil_append]

theorem loop_acceptAll {logline : List UInt8} (hlen : logline.length < 2 ^ 64) :
    WriteLoop.loop logline (acceptAll logline) 2 WriteLoop.start =
      some ⟨if logline = [] then 0 else 1, logline.length, logline⟩ := by
  by_cases hnil : logline = []
  · subst hnil
    rfl
  · have hpos : ¬ WriteLoop.start.written = logline.length :=
      fun h => hnil (List.length_eq_zero_iff.1 h.symm)
    rw [WriteLoop.loop, if_neg hpos, iteration_acceptAll hlen, if_neg hnil]
    exact if_pos rfl

theorem wrote_spec {s : WriteLoop} (h : f.wrote s = .ok f') (hcalls : s.calls = 0 → s.added = []) :
    f'.writtenBytes = f.writtenBytes + s.written ∧ f'.held = f.held + s.added.length ∧
      f'.rollSize = f.rollSize ∧ f'.checkEveryN = f.checkEveryN ∧ f'.count = f.count ∧
      f'.startOfPeriod = f.startOfPeriod ∧ f'.lastRoll = f.lastRoll := by
  unfold wrote at h
  dsimp only at h
  split at h
  · -- No call was made.
    rename_i hzero
    cases h
    exact ⟨rfl, by simp [held, hcalls hzero], rfl, rfl, rfl, rfl, rfl⟩
  · split at h
    · rename_i bytes hopen
      cases h
      exact ⟨rfl, by simp [held, hopen], rfl, rfl, rfl, rfl, rfl⟩
    · cases h

theorem fcloseOld_spec (h : f.fcloseOld = .ok f') :
    f'.writtenBytes = f.writtenBytes ∧ f'.rollSize = f.rollSize := by
  unfold fcloseOld at h
  split at h
  · unfold fclose at h
    split at h
    · cases h
      exact ⟨rfl, rfl⟩
    · cases h
  · cases h
    exact ⟨rfl, rfl⟩

theorem fopen_spec {opened : Addr} (h : f.fopen opened = .ok f') :
    f'.held = 0 ∧ f'.writtenBytes = f.writtenBytes ∧ f'.rollSize = f.rollSize := by
  unfold fopen at h
  dsimp only at h
  split at h
  · cases h
  · cases h
    exact ⟨by simp [held], rfl, rfl⟩

/-- `rollFile` opens a new, empty file or does nothing; it never touches the counter. -/
theorem rollFile_spec {now : Int} {opened : Addr} {rolled : Bool}
    (h : f.rollFile now opened = .ok (f', rolled)) :
    f'.writtenBytes = f.writtenBytes ∧ f'.rollSize = f.rollSize ∧
      f'.held = if f.lastRoll < now then 0 else f.held := by
  unfold rollFile at h
  dsimp only at h
  split at h
  · rename_i hlater
    obtain ⟨f₁, hclose, h⟩ := exists_ok_of_bind h
    obtain ⟨f₂, hopen, h⟩ := exists_ok_of_bind h
    cases h
    obtain ⟨hheld, hwritten, hsize⟩ := fopen_spec hopen
    have hclosed := fcloseOld_spec hclose
    refine ⟨hwritten.trans hclosed.1, hsize.trans hclosed.2, ?_⟩
    rw [if_pos hlater, hheld]
  · rename_i hsame
    cases h
    exact ⟨rfl, rfl, by rw [if_neg hsame]⟩

theorem flush_spec (h : f.flush = .ok f') : f' = f := by
  unfold flush at h
  split at h
  · cases h
    rfl
  · cases h

/-- The day has changed at a check, and `rollFile` opens a file. -/
def DayRoll (f : LogFile) (now : Readings) : Prop :=
  f.checkEveryN ≤ f.count + 1 ∧ period now.check ≠ f.startOfPeriod ∧ f.lastRoll < now.roll

instance (f : LogFile) (now : Readings) : Decidable (DayRoll f now) :=
  inferInstanceAs (Decidable (_ ∧ _ ∧ _))

/-- The counter and the file after the roll decision. -/
theorem rollCheck_spec {now : Readings} {opened : Addr} (h : f.rollCheck now opened = .ok f') :
    f'.rollSize = f.rollSize ∧
      if f.rollSize < f.writtenBytes then
        f'.writtenBytes = 0 ∧ f'.held = if f.lastRoll < now.roll then 0 else f.held
      else
        f'.writtenBytes = f.writtenBytes ∧ f'.held = if DayRoll f now then 0 else f.held := by
  unfold rollCheck at h
  by_cases hsize : f.rollSize < f.writtenBytes
  · simp only [hsize, if_true] at h ⊢
    obtain ⟨⟨f₁, rolled⟩, hroll, h⟩ := exists_ok_of_bind h
    cases h
    obtain ⟨hwritten, hrs, hheld⟩ := rollFile_spec hroll
    exact ⟨hrs, hwritten, hheld⟩
  · simp only [hsize, if_false] at h ⊢
    by_cases hcheck : f.checkEveryN ≤ f.count + 1
    · simp only [hcheck, if_true] at h
      by_cases hperiod : period now.check ≠ f.startOfPeriod
      · rw [if_pos hperiod] at h
        obtain ⟨⟨f₁, rolled⟩, hroll, h⟩ := exists_ok_of_bind h
        cases h
        obtain ⟨hwritten, hrs, hheld⟩ := rollFile_spec hroll
        refine ⟨hrs, hwritten, hheld.trans ?_⟩
        simp [DayRoll, hcheck, hperiod, held]
      · have hno : ¬ DayRoll f now := fun hday => hperiod hday.2.1
        rw [if_neg hperiod] at h
        simp only [hno, if_false]
        split at h
        · cases flush_spec h
          exact ⟨rfl, rfl, rfl⟩
        · cases h
          exact ⟨rfl, rfl, rfl⟩
    · have hno : ¬ DayRoll f now := fun hday => hcheck hday.1
      simp only [hcheck, if_false] at h
      cases h
      rw [if_neg hno]
      exact ⟨rfl, rfl, rfl⟩

/-! ## Sequences of `append` calls -/

namespace Rolling

/-- A `LogFile` and the last clock reading. -/
structure State where
  file : LogFile
  clock : Int

/-- One `append`, with the clock readings and the stream for the `rollFile` it may call. -/
structure Act where
  logline : List UInt8
  now : Readings
  opened : Addr
  deriving DecidableEq, Repr

def exec (s : State) (a : Act) : Except Fault State :=
  match s.file.append a.logline (acceptAll a.logline) 2 a.now a.opened with
  | some result => do
      let file ← result
      pure { file := file, clock := a.now.roll }
  | none => .ok s

/-- The clock does not go back, and the length of the line is a `size_t`. -/
def Enabled (s : State) (a : Act) : Prop :=
  s.clock ≤ a.now.check ∧ a.now.check ≤ a.now.roll ∧ a.logline.length < 2 ^ 64

instance (s : State) (a : Act) : Decidable (Enabled s a) :=
  inferInstanceAs (Decidable (_ ∧ _ ∧ _))

def Init (s : State) : Prop :=
  ∃ rollSize flushInterval checkEveryN garbage opened,
    LogFile.new rollSize flushInterval checkEveryN garbage s.clock opened = .ok s.file

def system : StepSystem State Act :=
  .ofExec Init Enabled exec

/-- `writtenBytes_` once the line has been written. -/
def writtenAfter (f : LogFile) (a : Act) : Int :=
  f.writtenBytes + a.logline.length

/-- A roll for size opens a new file, and a roll for the day finds nothing counted. -/
def Meets (s : State) (a : Act) : Prop :=
  writtenAfter s.file a = 0 ∨
    if s.file.rollSize < writtenAfter s.file a then
      s.file.lastRoll < a.now.roll
    else
      ¬ DayRoll s.file a.now

instance (s : State) (a : Act) : Decidable (Meets s a) :=
  inferInstanceAs (Decidable (_ ∨ _))

theorem exec_spec {s t : State} {a : Act} (ha : Enabled s a) (h : exec s a = .ok t) :
    t.file.rollSize = s.file.rollSize ∧
      if s.file.rollSize < writtenAfter s.file a then
        t.file.writtenBytes = 0 ∧
          t.file.held = if s.file.lastRoll < a.now.roll then 0 else s.file.held + a.logline.length
      else
        t.file.writtenBytes = writtenAfter s.file a ∧
          t.file.held = if DayRoll s.file a.now then 0 else s.file.held + a.logline.length := by
  unfold exec LogFile.append at h
  rw [loop_acceptAll ha.2.2] at h
  dsimp only [Option.map_some] at h
  obtain ⟨f₂, h₂, h⟩ := exists_ok_of_bind h
  obtain ⟨f₁, h₁, hcheck⟩ := exists_ok_of_bind h₂
  cases h
  have hcalls : (if a.logline = [] then 0 else 1) = 0 → a.logline = [] := by
    intro hzero
    by_contra hne
    simp [hne] at hzero
  obtain ⟨hwritten, hheld, hsize, hevery, hcount, hstart, hlast⟩ := wrote_spec h₁ hcalls
  have hday : DayRoll f₁ a.now ↔ DayRoll s.file a.now := by
    simp only [DayRoll, hevery, hcount, hstart, hlast]
  have hspec := rollCheck_spec hcheck
  simp only [hsize, hwritten, hheld, hlast, hday] at hspec
  exact hspec

/-- The counter is the size of the open file, and the file is not larger than `rollSize_`. -/
structure Inv (f : LogFile) : Prop where
  counts : f.writtenBytes = f.held
  bounded : (f.held : Int) ≤ max 0 f.rollSize

/-- From a state in which the counter is right, it is right after an `append` exactly when the
call meets the condition. -/
theorem step_counts_iff {s t : State} {a : Act} (hs : Inv s.file) (ha : Enabled s a)
    (h : exec s a = .ok t) : t.file.writtenBytes = t.file.held ↔ Meets s a := by
  have hspec := (exec_spec ha h).2
  have hcounts := hs.counts
  unfold Meets
  unfold writtenAfter at hspec ⊢
  by_cases hroll : s.file.rollSize < s.file.writtenBytes + a.logline.length
  · simp only [hroll, if_true] at hspec ⊢
    rw [hspec.1, hspec.2]
    by_cases hlater : s.file.lastRoll < a.now.roll
    · simp [hlater]
    · simp only [hlater, if_false, or_false]
      omega
  · simp only [hroll, if_false] at hspec ⊢
    rw [hspec.1, hspec.2]
    by_cases hday : DayRoll s.file a.now
    · simp [hday]
    · simp only [hday, if_false, not_false_eq_true, or_true, iff_true]
      omega

theorem step_inv {s t : State} {a : Act} (hs : Inv s.file) (ha : Enabled s a)
    (hmeets : Meets s a) (h : exec s a = .ok t) : Inv t.file := by
  refine ⟨(step_counts_iff hs ha h).2 hmeets, ?_⟩
  obtain ⟨hsize, hspec⟩ := exec_spec ha h
  have hcounts := (step_counts_iff hs ha h).2 hmeets
  rw [hsize]
  by_cases hroll : s.file.rollSize < writtenAfter s.file a
  · rw [if_pos hroll] at hspec
    omega
  · rw [if_neg hroll] at hspec
    omega

theorem init_inv {s : State} (h : Init s) : Inv s.file := by
  obtain ⟨rollSize, flushInterval, checkEveryN, garbage, opened, hnew⟩ := h
  unfold LogFile.new at hnew
  obtain ⟨⟨f₁, rolled⟩, hroll, hnew⟩ := exists_ok_of_bind hnew
  cases hnew
  obtain ⟨hwritten, _, hheld⟩ := rollFile_spec hroll
  have hzero : s.file.held = 0 := by
    rw [hheld]
    simp [held]
  exact ⟨by rw [hwritten, hzero]; rfl, by omega⟩

/-- What the roll counter is for. -/
structure RollCounter (f : LogFile) : Prop where
  counts : ∀ bytes, f.streams f.fp = some bytes → f.writtenBytes = bytes.length
  /-- The next line takes the file past `rollSize_` by at most its own length. -/
  bounded : ∀ bytes, f.streams f.fp = some bytes → ∀ logline : List UInt8,
    ((bytes ++ logline).length : Int) ≤ max 0 f.rollSize + logline.length
  /-- A line that makes `append` roll for size has made the file larger than `rollSize_`. -/
  notEarly : ∀ bytes, f.streams f.fp = some bytes → ∀ logline : List UInt8,
    f.rollSize < f.writtenBytes + logline.length → f.rollSize < (bytes ++ logline).length

theorem Inv.rollCounter {f : LogFile} (h : Inv f) : RollCounter f := by
  have hcounts := h.counts
  have hbounded := h.bounded
  refine ⟨?_, ?_, ?_⟩
  · intro bytes hopen
    rw [hcounts, held_of_open hopen]
  · intro bytes hopen logline
    rw [held_of_open hopen] at hbounded
    rw [List.length_append]
    omega
  · intro bytes hopen logline hroll
    rw [hcounts, held_of_open hopen] at hroll
    rw [List.length_append]
    omega

/-- In every run of `append` calls that meet the condition, the roll counter counts the open
file. -/
theorem counts_of_meets {s : State} (hs : (system.restrict Meets).Reachable s) :
    RollCounter s.file := by
  have hinv : Inv s.file := by
    refine hs.invariant (I := fun s => Inv s.file) init_inv ?_
    rintro s a t hs ⟨hmeets, ha, hexec⟩
    exact step_inv hs ha hmeets hexec
  exact hinv.rollCounter

/-- A `LogFile` with `rollSize_ = 10`, opened at second 100. -/
def fresh : State where
  file :=
    { rollSize := 10, writtenBytes := 0, flushInterval := 3, checkEveryN := 1024, count := 0,
      startOfPeriod := 0, lastRoll := 100, lastFlush := 100, fp := 7,
      streams := Function.update (fun _ => none) 7 (some []) }
  clock := 100

theorem fresh_init : Init fresh :=
  ⟨10, 3, 1024, 0, 7, rfl⟩

def stateAfter (as : List Act) : State :=
  (StepSystem.execAll exec fresh as).toOption.getD fresh

/-- Two lines of six bytes, the second of them a second later. -/
def rollingRun : List Act :=
  [⟨List.replicate 6 120, ⟨100, 100⟩, 9⟩, ⟨List.replicate 6 120, ⟨101, 101⟩, 9⟩]

theorem counts_of_meets_rolled :
    RollCounter (stateAfter rollingRun).file ∧ (stateAfter rollingRun).file.fp = 9 := by
  have hrun : (system.restrict Meets).Run fresh rollingRun (stateAfter rollingRun) := by
    rw [system, StepSystem.restrict_ofExec]
    exact StepSystem.run_of_execAll (by decide) rfl
  exact ⟨counts_of_meets (hrun.reachable (StepSystem.Reachable.init fresh_init)), rfl⟩

/-- A line of eleven bytes in the second in which the file was opened. -/
def sameSecondRun : List Act :=
  [⟨List.replicate 11 120, ⟨100, 100⟩, 9⟩]

/-- The file keeps its eleven bytes and the counter starts again at zero. -/
theorem same_second_roll_miscounts :
    system.Reachable (stateAfter sameSecondRun) ∧
      (stateAfter sameSecondRun).file.writtenBytes = 0 ∧
      (stateAfter sameSecondRun).file.held = 11 ∧
      ¬ RollCounter (stateAfter sameSecondRun).file := by
  have hrun : system.Run fresh sameSecondRun (stateAfter sameSecondRun) :=
    StepSystem.run_of_execAll (by decide) rfl
  refine ⟨hrun.reachable (StepSystem.Reachable.init fresh_init), rfl, rfl, ?_⟩
  intro hcounter
  exact absurd (hcounter.counts (List.replicate 11 120) rfl) (by decide)

end Rolling

end LogFile

end Muduo
