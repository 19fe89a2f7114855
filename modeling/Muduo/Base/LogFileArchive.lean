import Muduo.Base.LogFileLife
import Muduo.Base.LogFileRolling

/-!
# LogFileArchive — the files that a `LogFile` has left behind

`append` decides about a new file when its line has been written, and `rollFile` opens one only in
a later second than that of the last.  So whatever the clock does, every file holds what some
successive calls of `append` have written, all of it and nothing else, and the seconds in the
names go up from file to file (`files_partition_log`).
-/

namespace Muduo
namespace LogFile
namespace Archive

/-- A file that was closed: the second of its name, and the bytes written to it. -/
structure Volume where
  second : Int
  bytes : List UInt8
  deriving DecidableEq, Repr

structure State where
  file : LogFile
  closed : List Volume

/-- The bytes of the open file. -/
def contents (f : LogFile) : List UInt8 :=
  (f.streams f.fp).getD []

/-- What a roll decision that turns `f` into `f'` adds to the closed files. -/
def closedBy (f f' : LogFile) : List Volume :=
  if f.lastRoll = f'.lastRoll then [] else [⟨f.lastRoll, contents f⟩]

def exec (s : State) : LifeAct → Except Fault State
  | .append logline fwrite fuel now opened =>
      match WriteLoop.loop logline fwrite fuel WriteLoop.start with
      | some w => do
          let f ← s.file.wrote w
          let f' ← f.rollCheck now opened
          pure { file := f', closed := s.closed ++ closedBy f f' }
      | none => .ok s
  | .flush => do
      let f ← s.file.flush
      pure { s with file := f }
  | .rollFile now opened => do
      let (f, _) ← s.file.rollFile now opened
      pure { file := f, closed := s.closed ++ closedBy s.file f }

/-- The calls return, and `fopen` succeeds when it is called. -/
def Enabled (s : State) (a : LifeAct) : Prop :=
  a.Returns ∧ (s.file.Opens a → a.opened ≠ 0)

/-- The object is new, with its first file open. -/
def Init (s : State) : Prop :=
  ∃ b : Birth, b.garbage = 0 ∧ 0 < b.now ∧ b.construct = .ok s.file ∧ s.closed = []

def system : StepSystem State LifeAct :=
  .ofExec Init Enabled exec

/-- What a call of `append` writes to the file. -/
def pieces : LifeAct → List (List UInt8)
  | .append logline fwrite fuel _ _ =>
      match WriteLoop.loop logline fwrite fuel WriteLoop.start with
      | some w => [w.added]
      | none => []
  | _ => []

variable {f f' : LogFile} {s t : State} {a : LifeAct}

/-- The archive only watches. -/
theorem exec_file (s : State) (a : LifeAct) :
    (exec s a).map (·.file) = s.file.lifeStep a := by
  cases a with
  | append logline fwrite fuel now opened =>
      cases hloop : WriteLoop.loop logline fwrite fuel WriteLoop.start with
      | none => simp [exec, lifeStep, LogFile.append, hloop, Except.map]
      | some w =>
          simp only [exec, lifeStep, LogFile.append, hloop, Option.map_some]
          cases s.file.wrote w with
          | error e => rfl
          | ok f =>
              simp only [ok_bind]
              cases f.rollCheck now opened <;> rfl
  | flush =>
      simp only [exec, lifeStep]
      cases s.file.flush <;> rfl
  | rollFile now opened =>
      simp only [exec, lifeStep]
      cases s.file.rollFile now opened <;> rfl

/-! ## What a call does to the open file -/

/-- The file goes on. -/
structure SameFile (f f' : LogFile) : Prop where
  lastRoll : f'.lastRoll = f.lastRoll
  fp : f'.fp = f.fp
  streams : f'.streams = f.streams

/-- A new file, in a later second. -/
structure NewFile (f f' : LogFile) : Prop where
  later : f.lastRoll < f'.lastRoll
  empty : f'.streams f'.fp = some []

theorem rollFile_file {now : Int} {opened : Addr} {rolled : Bool}
    (h : f.rollFile now opened = .ok (f', rolled)) :
    if f.lastRoll < now then NewFile f f' else SameFile f f' := by
  unfold rollFile at h
  dsimp only at h
  split at h
  case isTrue hlater =>
    rw [if_pos hlater]
    obtain ⟨f₁, hclose, h⟩ := exists_ok_of_bind h
    obtain ⟨f₂, hopen, h⟩ := exists_ok_of_bind h
    cases h
    have hroll : f₁.lastRoll = now := by
      unfold fcloseOld at hclose
      split at hclose
      · unfold fclose at hclose
        split at hclose
        · cases hclose
          rfl
        · cases hclose
      · cases hclose
        rfl
    unfold fopen at hopen
    dsimp only at hopen
    split at hopen
    · cases hopen
    · cases hopen
      refine ⟨?_, Function.update_self _ _ _⟩
      show f.lastRoll < f₁.lastRoll
      rw [hroll]
      exact hlater
  case isFalse hsame =>
    cases h
    rw [if_neg hsame]
    exact ⟨rfl, rfl, rfl⟩

theorem rollFile_cases {now : Int} {opened : Addr} {rolled : Bool}
    (h : f.rollFile now opened = .ok (f', rolled)) : SameFile f f' ∨ NewFile f f' := by
  have hfile := rollFile_file h
  split at hfile
  · exact Or.inr hfile
  · exact Or.inl hfile

theorem rollCheck_cases {now : Readings} {opened : Addr} (h : f.rollCheck now opened = .ok f') :
    SameFile f f' ∨ NewFile f f' := by
  -- The counters that change before the call of `rollFile` are not those of the file.
  have hroll : ∀ {g f' : LogFile} {rolled : Bool},
      g.rollFile now.roll opened = .ok (f', rolled) → SameFile f g →
        SameFile f f' ∨ NewFile f f' := by
    intro g f' rolled hcall hg
    rcases rollFile_cases hcall with hsame | hnew
    · exact Or.inl ⟨hsame.lastRoll.trans hg.lastRoll, hsame.fp.trans hg.fp,
        hsame.streams.trans hg.streams⟩
    · exact Or.inr ⟨hg.lastRoll ▸ hnew.later, hnew.empty⟩
  unfold rollCheck at h
  dsimp only at h
  split at h
  · obtain ⟨⟨f₁, rolled⟩, hcall, h⟩ := exists_ok_of_bind h
    cases h
    exact hroll hcall ⟨rfl, rfl, rfl⟩
  · split at h
    · split at h
      · obtain ⟨⟨f₁, rolled⟩, hcall, h⟩ := exists_ok_of_bind h
        cases h
        exact hroll hcall ⟨rfl, rfl, rfl⟩
      · split at h
        · cases flush_spec h
          exact Or.inl ⟨rfl, rfl, rfl⟩
        · cases h
          exact Or.inl ⟨rfl, rfl, rfl⟩
    · cases h
      exact Or.inl ⟨rfl, rfl, rfl⟩

theorem wrote_contents {w : WriteLoop} {bytes : List UInt8} (hopen : f.streams f.fp = some bytes)
    (hnone : w.calls = 0 → w.added = []) (h : f.wrote w = .ok f') :
    f'.lastRoll = f.lastRoll ∧ f'.streams f'.fp = some (bytes ++ w.added) := by
  unfold wrote at h
  dsimp only at h
  split at h
  case isTrue hzero =>
    cases h
    exact ⟨rfl, by simpa [hnone hzero] using hopen⟩
  case isFalse _ =>
    rw [hopen] at h
    cases h
    exact ⟨rfl, Function.update_self _ _ _⟩

/-- A write loop that makes no call puts nothing into the file. -/
theorem added_of_calls {logline : List UInt8} {fwrite : Nat → WriteResult} {fuel : Nat}
    {w : WriteLoop} (h : WriteLoop.loop logline fwrite fuel WriteLoop.start = some w)
    (hzero : w.calls = 0) : w.added = [] := by
  have hnil : logline = [] := by
    by_contra hne
    exact (calls_of_loop h).mpr hne hzero
  subst hnil
  cases fuel with
  | zero => cases h
  | succ fuel =>
      cases h
      rfl

/-! ## The partition -/

/-- The files hold the pieces: `groups` are those of the closed files, `last` those of the open
one. -/
structure Partition (s : State) (log : List (List UInt8)) : Prop where
  files : ∃ (groups : List (List (List UInt8))) (last : List (List UInt8)),
    s.closed.map (·.bytes) = groups.map List.flatten ∧
      s.file.streams s.file.fp = some last.flatten ∧ groups.flatten ++ last = log
  /-- The seconds in the names of the files. -/
  seconds : (s.closed.map (·.second) ++ [s.file.lastRoll]).Pairwise (· < ·)
  /-- Only the last file is open. -/
  one : ∀ x, x ≠ s.file.fp → s.file.streams x = none

structure Inv (s : State) (log : List (List UInt8)) : Prop where
  handle : s.file.Handle
  opened : 0 < s.file.lastRoll
  part : Partition s log

theorem Inv.of_part {log : List (List UInt8)} (handle : s.file.Handle)
    (opened : 0 < s.file.lastRoll)
    (files : ∃ (groups : List (List (List UInt8))) (last : List (List UInt8)),
      s.closed.map (·.bytes) = groups.map List.flatten ∧
        s.file.streams s.file.fp = some last.flatten ∧ groups.flatten ++ last = log)
    (seconds : (s.closed.map (·.second) ++ [s.file.lastRoll]).Pairwise (· < ·)) : Inv s log := by
  refine ⟨handle, opened, files, seconds, ?_⟩
  cases handle with
  | unopened hroll _ _ => omega
  | opened _ _ _ _ hother => exact hother

/-- A roll decision leaves the file as it is, or closes it and goes on with an empty one. -/
theorem Inv.roll {log : List (List UInt8)} (h : Inv s log)
    (hcases : SameFile s.file f' ∨ NewFile s.file f') (hhandle : f'.Handle) :
    Inv { file := f', closed := s.closed ++ closedBy s.file f' } log := by
  obtain ⟨groups, last, hclosed, hopen, hlog⟩ := h.part.files
  rcases hcases with hsame | hnew
  · have hnone : closedBy s.file f' = [] := if_pos hsame.lastRoll.symm
    rw [hnone, List.append_nil]
    refine Inv.of_part hhandle ?_ ⟨groups, last, hclosed, ?_, hlog⟩ ?_
    · rw [hsame.lastRoll]
      exact h.opened
    · rw [hsame.streams, hsame.fp]
      exact hopen
    · rw [hsame.lastRoll]
      exact h.part.seconds
  · have hlater := hnew.later
    have hone : closedBy s.file f' = [⟨s.file.lastRoll, last.flatten⟩] := by
      rw [closedBy, if_neg (by omega), contents, hopen]
      rfl
    rw [hone]
    refine Inv.of_part hhandle (Int.lt_trans h.opened hlater)
      ⟨groups ++ [last], [], ?_, hnew.empty, ?_⟩ ?_
    · simp [hclosed]
    · simpa using hlog
    · have hseconds := h.part.seconds
      simp only [List.map_append, List.map_cons, List.map_nil]
      rw [List.pairwise_append]
      refine ⟨hseconds, List.pairwise_singleton _ _, ?_⟩
      intro x hx y hy
      cases List.mem_singleton.mp hy
      rcases List.mem_append.mp hx with hx | hx
      · have hlt := (List.pairwise_append.mp hseconds).2.2 x hx _ (List.mem_singleton_self _)
        exact Int.lt_trans hlt hlater
      · cases List.mem_singleton.mp hx
        exact hlater

theorem exec_ok {log : List (List UInt8)} (h : Inv s log) (hen : Enabled s a) :
    ∃ t, exec s a = .ok t := by
  obtain ⟨f', hf'⟩ := (lifeStep_succeeds h.handle hen.1).iff.mpr ⟨fun _ => h.opened, hen.2⟩
  rw [← exec_file] at hf'
  cases hexec : exec s a with
  | error e =>
      rw [hexec] at hf'
      cases hf'
  | ok t => exact ⟨t, rfl⟩

theorem step_inv {log : List (List UInt8)} (h : Inv s log) (hen : Enabled s a)
    (hexec : exec s a = .ok t) : Inv t (log ++ pieces a) := by
  have hhandle : t.file.Handle := by
    refine (lifeStep_succeeds h.handle hen.1).handle t.file ?_
    rw [← exec_file, hexec]
    rfl
  cases a with
  | append logline fwrite fuel now opened =>
      obtain ⟨w, hw⟩ := hen.1
      simp only [exec, hw] at hexec
      obtain ⟨f₁, hwrote, hexec⟩ := exists_ok_of_bind hexec
      obtain ⟨f₂, hcheck, hexec⟩ := exists_ok_of_bind hexec
      cases hexec
      obtain ⟨groups, last, hclosed, hopen, hlog⟩ := h.part.files
      obtain ⟨hroll, hcontents⟩ := wrote_contents hopen (added_of_calls hw) hwrote
      -- The line is in the file before anything is decided.
      have hmid : Inv { file := f₁, closed := s.closed }
          (log ++ pieces (.append logline fwrite fuel now opened)) := by
        refine Inv.of_part ((wrote_succeeds h.handle w).handle f₁ hwrote) ?_
          ⟨groups, last ++ [w.added], hclosed, ?_, ?_⟩ ?_
        · show 0 < f₁.lastRoll
          rw [hroll]
          exact h.opened
        · simpa using hcontents
        · simp [pieces, hw, ← hlog]
        · show (_ ++ [f₁.lastRoll]).Pairwise _
          rw [hroll]
          exact h.part.seconds
      exact hmid.roll (rollCheck_cases hcheck) hhandle
  | flush =>
      simp only [exec] at hexec
      obtain ⟨f₁, hflush, hexec⟩ := exists_ok_of_bind hexec
      cases hexec
      cases flush_spec hflush
      simpa [pieces] using h
  | rollFile now opened =>
      simp only [exec] at hexec
      obtain ⟨⟨f₁, rolled⟩, hroll, hexec⟩ := exists_ok_of_bind hexec
      cases hexec
      simpa [pieces] using h.roll (rollFile_cases hroll) hhandle

theorem init_inv (h : Init s) : Inv s [] := by
  obtain ⟨b, hgarbage, hnow, hborn, hclosed⟩ := h
  have hhandle := ((construct_spec b).1 hgarbage).handle s.file hborn
  obtain ⟨⟨f, rolled⟩, hroll, hf⟩ := exists_ok_of_bind hborn
  cases hf
  have hnew := rollFile_file hroll
  rw [if_pos hnow] at hnew
  refine Inv.of_part hhandle hnew.later ⟨[], [], by simp [hclosed], hnew.empty, rfl⟩ ?_
  rw [hclosed]
  exact List.pairwise_singleton _ _

/-! ## Runs -/

theorem run_inv {s₀ : State} {as : List LifeAct} {log : List (List UInt8)} (h : Inv s₀ log)
    (hrun : system.Run s₀ as s) : Inv s (log ++ as.flatMap pieces) := by
  induction hrun generalizing log with
  | nil s => simpa using h
  | cons hstep _ ih =>
      have hmid := step_inv h hstep.1 hstep.2
      simpa using ih hmid

/-- The disk takes the lines whole. -/
def TakenWhole : LifeAct → Prop
  | .append logline fwrite fuel _ _ =>
      fwrite = acceptAll logline ∧ fuel = 2 ∧ logline.length < 2 ^ 64
  | _ => True

/-- The line of a call of `append`. -/
def lines : LifeAct → List (List UInt8)
  | .append logline _ _ _ _ => [logline]
  | _ => []

theorem pieces_of_takenWhole (h : TakenWhole a) : pieces a = lines a := by
  cases a with
  | append logline fwrite fuel now opened =>
      obtain ⟨rfl, rfl, hlen⟩ := h
      simp only [pieces, loop_acceptAll hlen, lines]
  | flush => rfl
  | rollFile now opened => rfl

/-- For any calls and any clock, forwards or backwards: no call faults, and the files hold what
the calls of `append` have written, in their order and each call in one file, which are the
lines if the disk takes them whole. -/
theorem files_partition_log {s₀ : State} {as : List LifeAct} (h₀ : Init s₀)
    (hrun : system.Run s₀ as s) :
    (∀ a, Enabled s a → ∃ t, exec s a = .ok t) ∧ Partition s (as.flatMap pieces) ∧
      ((∀ a ∈ as, TakenWhole a) → as.flatMap pieces = as.flatMap lines) := by
  have hinv := run_inv (init_inv h₀) hrun
  refine ⟨fun a hen => exec_ok hinv hen, hinv.part, fun hwhole => ?_⟩
  exact List.flatMap_congr fun a ha => pieces_of_takenWhole (hwhole a ha)

/-- An `append` on a healthy disk. -/
def appendWhole (logline : List UInt8) (now : Readings) (opened : Addr) : LifeAct :=
  .append logline (acceptAll logline) 2 now opened

/-- Two lines that together are too long for a file of four bytes, and a third that would be by
itself if the clock had not gone back. -/
def threeLines : List LifeAct :=
  [appendWhole [97, 98, 99] ⟨100, 100⟩ 8, appendWhole [100, 101] ⟨101, 101⟩ 9,
    appendWhole [102, 103, 104, 105, 106] ⟨50, 50⟩ 11, .flush, appendWhole [107] ⟨102, 102⟩ 12]

def firstFile : State where
  file :=
    { rollSize := 4, writtenBytes := 0, flushInterval := 3, checkEveryN := 1024, count := 0,
      startOfPeriod := 0, lastRoll := 100, lastFlush := 100, fp := 7,
      streams := Function.update (fun _ => none) 7 (some []) }
  closed := []

theorem files_partition_log_threeLines :
    ∃ s, StepSystem.execAll exec firstFile threeLines = .ok s ∧
      s.closed = [⟨100, [97, 98, 99, 100, 101]⟩] ∧
      s.file.streams s.file.fp = some [102, 103, 104, 105, 106, 107] ∧
      Partition s [[97, 98, 99], [100, 101], [102, 103, 104, 105, 106], [107]] := by
  have hexec : ∃ s, StepSystem.execAll exec firstFile threeLines = .ok s ∧
      s.closed = [⟨100, [97, 98, 99, 100, 101]⟩] ∧
      s.file.streams s.file.fp = some [102, 103, 104, 105, 106, 107] := ⟨_, rfl, rfl, rfl⟩
  obtain ⟨s, hexec, hclosed, hopen⟩ := hexec
  have hinit : Init firstFile := ⟨⟨4, 3, 1024, 0, 100, 7⟩, rfl, by decide, rfl, rfl⟩
  have hrun : system.Run firstFile threeLines s := by
    refine StepSystem.run_of_execAll ?_ hexec
    refine ⟨⟨⟨_, rfl⟩, fun _ => by decide⟩, ⟨⟨_, rfl⟩, fun _ => by decide⟩,
      ⟨⟨_, rfl⟩, fun _ => by decide⟩, ⟨trivial, fun hno => hno.elim⟩,
      ⟨⟨_, rfl⟩, fun _ => by decide⟩, trivial⟩
  obtain ⟨_, hpart, hlines⟩ := files_partition_log hinit hrun
  have hwhole : ∀ a ∈ threeLines, TakenWhole a := by
    simp [threeLines, appendWhole, TakenWhole]
  rw [hlines hwhole] at hpart
  exact ⟨s, hexec, hclosed, hopen, hpart⟩

end Archive
end LogFile
end Muduo
