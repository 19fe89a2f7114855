import Muduo.Base.LogFileWriting
import Muduo.Foundation.StepSystem

/-!
# LogFileLife — the files that a `LogFile` uses from its constructor to its destructor

`streams` holds the handles that `fopen` has returned to the object and that it has not closed
since, and every function that is given another handle faults.  So a life is clean when it runs
into no fault and leaves no handle open: what it used it had opened, and it closed each handle
once.

`fp_` has no initialiser, `rollFile` tests it before it was ever set, and nobody tests what
`fopen` returned.  `clean_iff_meets` says which lives are clean nevertheless.
-/

namespace Muduo
namespace LogFile

variable {f f' : LogFile}

/-- A call of a member function; an `append` comes with the results of its `fwrite_unlocked`
calls and a bound on their number, and a call that may open a file with what `fopen` returns. -/
inductive LifeAct
  | append (logline : List UInt8) (fwrite : Nat → WriteResult) (fuel : Nat) (now : Readings)
      (opened : Addr)
  | flush
  | rollFile (now : Int) (opened : Addr)

/-- The write loop of an `append` ends. -/
def LifeAct.Returns : LifeAct → Prop
  | .append logline fwrite fuel _ _ =>
      ∃ s, WriteLoop.loop logline fwrite fuel WriteLoop.start = some s
  | _ => True

def lifeStep (f : LogFile) : LifeAct → Except Fault LogFile
  | .append logline fwrite fuel now opened =>
      match f.append logline fwrite fuel now opened with
      | some result => result
      | none => .ok f
  | .flush => f.flush
  | .rollFile now opened => do
      let (f, _) ← f.rollFile now opened
      pure f

/-- `~LogFile()`. -/
def destroy (f : LogFile) : Except Fault LogFile :=
  f.fclose

/-- The arguments of the constructor, with its clock reading and the result of its `fopen`; the
indeterminate value of `fp_` is among them. -/
structure Birth where
  rollSize : Int
  flushInterval : Int
  checkEveryN : Int
  garbage : Addr
  now : Int
  opened : Addr

def Birth.construct (b : Birth) : Except Fault LogFile :=
  LogFile.new b.rollSize b.flushInterval b.checkEveryN b.garbage b.now b.opened

def life (b : Birth) (acts : List LifeAct) : Except Fault LogFile := do
  let f ← b.construct
  let f ← StepSystem.execAll lifeStep f acts
  f.destroy

/-- The life uses only handles that it has opened and not closed, and closes all of them. -/
def Clean (b : Birth) (acts : List LifeAct) : Prop :=
  ∃ f, life b acts = .ok f ∧ ∀ h, f.streams h = none

/-! ## The condition -/

/-- `writtenBytes_` before the roll decision of an `append`. -/
def writtenBy (f : LogFile) (logline : List UInt8) (fwrite : Nat → WriteResult) (fuel : Nat) :
    Int :=
  match WriteLoop.loop logline fwrite fuel WriteLoop.start with
  | some s => f.writtenBytes + s.written
  | none => f.writtenBytes

/-- The step gets to `fopen`. -/
def Opens (f : LogFile) : LifeAct → Prop
  | .append logline fwrite fuel now _ =>
      f.lastRoll < now.roll ∧
        (f.rollSize < f.writtenBy logline fwrite fuel ∨
          f.checkEveryN ≤ f.count + 1 ∧ period now.check ≠ f.startOfPeriod)
  | .flush => False
  | .rollFile now _ => f.lastRoll < now

/-- The step writes to `fp_` or flushes it. -/
def Uses (f : LogFile) : LifeAct → Prop
  | .append logline fwrite fuel now _ =>
      logline ≠ [] ∨
        ¬ f.rollSize < f.writtenBy logline fwrite fuel ∧ f.checkEveryN ≤ f.count + 1 ∧
          period now.check = f.startOfPeriod ∧ f.flushInterval < now.check - f.lastFlush
  | .flush => True
  | .rollFile _ _ => False

def LifeAct.opened : LifeAct → Addr
  | .append _ _ _ _ opened => opened
  | .flush => 0
  | .rollFile _ opened => opened

/-- The file is used only after a roll, and each `fopen` that is made succeeds. -/
structure LifeMeets (f : LogFile) (a : LifeAct) : Prop where
  uses : f.Uses a → 0 < f.lastRoll
  opens : f.Opens a → a.opened ≠ 0

/-- Every call of the life meets the condition, and there has been a roll when it ends. -/
def MeetsAlong (f : LogFile) : List LifeAct → Prop
  | [] => 0 < f.lastRoll
  | a :: acts => f.LifeMeets a ∧ ∀ f', f.lifeStep a = .ok f' → f'.MeetsAlong acts

/-- `fp_` happens to be null at the start, the constructor gets a file if it opens one, and its
calls meet the condition. -/
structure Birth.Meets (b : Birth) (acts : List LifeAct) : Prop where
  garbage : b.garbage = 0
  opens : 0 < b.now → b.opened ≠ 0
  calls : ∀ f, b.construct = .ok f → f.MeetsAlong acts

/-! ## The handle between two calls -/

/-- Before the first roll there is no file and `fp_` is null; after it `fp_` is the only file
that is open. -/
inductive Handle (f : LogFile) : Prop
  | unopened (hroll : f.lastRoll = 0) (hfp : f.fp = 0) (hnone : ∀ h, f.streams h = none)
  | opened (bytes : List UInt8) (hroll : 0 < f.lastRoll) (hfp : f.fp ≠ 0)
      (hopen : f.streams f.fp = some bytes) (hother : ∀ h, h ≠ f.fp → f.streams h = none)

theorem Handle.lastRoll_nonneg (h : f.Handle) : 0 ≤ f.lastRoll := by
  cases h with
  | unopened hroll => exact Int.le_of_eq hroll.symm
  | opened bytes hroll => exact Int.le_of_lt hroll

/-- `fp_` is usable exactly after the first roll. -/
theorem Handle.open_iff (h : f.Handle) : (∃ bytes, f.streams f.fp = some bytes) ↔ 0 < f.lastRoll := by
  cases h with
  | unopened hroll hfp hnone =>
      refine iff_of_false ?_ (by omega)
      rintro ⟨bytes, hbytes⟩
      rw [hnone] at hbytes
      cases hbytes
  | opened bytes hroll hfp hopen hother => exact iff_of_true ⟨bytes, hopen⟩ hroll

/-- Only the members that `Handle` speaks about matter. -/
theorem Handle.congr (h : f.Handle) (hroll : f'.lastRoll = f.lastRoll) (hfp : f'.fp = f.fp)
    (hstreams : f'.streams = f.streams) : f'.Handle := by
  cases h with
  | unopened hroll₀ hfp₀ hnone =>
      exact .unopened (hroll.trans hroll₀) (hfp.trans hfp₀) (by rw [hstreams]; exact hnone)
  | opened bytes hpos hfp₀ hopen hother =>
      refine .opened bytes (by rw [hroll]; exact hpos) (by rw [hfp]; exact hfp₀) ?_ ?_
      · rw [hstreams, hfp]
        exact hopen
      · rw [hstreams, hfp]
        exact hother

/-! ## One call -/

/-- `r` succeeds exactly if `P`, and then leaves the handle in order. -/
structure Succeeds (r : Except Fault LogFile) (P : Prop) : Prop where
  iff : (∃ f', r = .ok f') ↔ P
  handle : ∀ f', r = .ok f' → f'.Handle

theorem Succeeds.of_ok {P : Prop} (h : f.Handle) (hP : P) : Succeeds (.ok f) P where
  iff := iff_of_true ⟨f, rfl⟩ hP
  handle := by
    intro f' hf'
    cases hf'
    exact h

theorem flush_succeeds (h : f.Handle) : Succeeds f.flush (0 < f.lastRoll) := by
  rw [← h.open_iff]
  unfold flush
  split
  case h_1 bytes hopen => exact .of_ok h ⟨bytes, hopen⟩
  case h_2 hclosed =>
    constructor
    · refine iff_of_false ?_ ?_
      · rintro ⟨f', hf'⟩
        cases hf'
      · rintro ⟨bytes, hbytes⟩
        rw [hclosed] at hbytes
        cases hbytes
    · intro f' hf'
      cases hf'

/-- `rollFile` closes the only file that is open, if there is one; by then it has changed other
members. -/
theorem fcloseOld_ok (h : f.Handle) (f' : LogFile) (hfp' : f'.fp = f.fp)
    (hstreams : f'.streams = f.streams) :
    ∃ f₁, f'.fcloseOld = .ok f₁ ∧ f₁.lastRoll = f'.lastRoll ∧ ∀ x, f₁.streams x = none := by
  cases h with
  | unopened hroll hfp hnone =>
      have hnull : f'.fp = 0 := hfp'.trans hfp
      exact ⟨f', by simp [fcloseOld, hnull], rfl, by rw [hstreams]; exact hnone⟩
  | opened bytes hroll hfp hopen hother =>
      have hnonnull : f'.fp ≠ 0 := by rwa [hfp']
      have hopen' : f'.streams f'.fp = some bytes := by rwa [hstreams, hfp']
      refine ⟨{ f' with streams := Function.update f'.streams f'.fp none }, ?_, rfl, ?_⟩
      · simp only [fcloseOld, if_pos hnonnull, fclose, hopen']
      · intro x
        by_cases hx : x = f'.fp
        · rw [hx]
          exact Function.update_self _ _ _
        · rw [hfp'] at hx
          simp only [hfp', hstreams, Function.update_of_ne hx]
          exact hother x hx

theorem fopen_succeeds (hroll : 0 < f.lastRoll) (hnone : ∀ x, f.streams x = none)
    (opened : Addr) : Succeeds (f.fopen opened) (opened ≠ 0) := by
  by_cases hfail : opened = 0
  · have herror : f.fopen opened = .error .useAfterFree := by simp [fopen, hfail]
    rw [herror]
    refine ⟨iff_of_false ?_ fun hne => hne hfail, ?_⟩
    · rintro ⟨f', hf'⟩
      cases hf'
    · intro f' hf'
      cases hf'
  · have hok : f.fopen opened =
        .ok { f with fp := opened, streams := Function.update f.streams opened (some []) } := by
      simp [fopen, hfail]
    rw [hok]
    refine .of_ok (.opened [] hroll hfail (Function.update_self _ _ _) ?_) hfail
    intro x hx
    exact (Function.update_of_ne hx _ _).trans (hnone x)

theorem rollFile_succeeds (h : f.Handle) (now : Int) (opened : Addr) :
    Succeeds (do
      let (f, _) ← f.rollFile now opened
      pure f) (f.lastRoll < now → opened ≠ 0) := by
  unfold rollFile
  dsimp only
  by_cases hlater : f.lastRoll < now
  · have hpos : 0 < now := Int.lt_of_le_of_lt h.lastRoll_nonneg hlater
    rw [if_pos hlater]
    obtain ⟨f₁, hclose, hroll, hnone⟩ := fcloseOld_ok h
      { f with lastRoll := now, lastFlush := now, startOfPeriod := period now } rfl rfl
    have hspec := fopen_succeeds (f := f₁) (by rw [hroll]; exact hpos) hnone opened
    have hresult : ((do
        let f ← f₁.fopen opened
        pure (f, true)) >>= fun r : LogFile × Bool => pure r.1) = f₁.fopen opened := by
      cases f₁.fopen opened <;> rfl
    rw [hclose, ok_bind, forall_prop_of_true hlater, hresult]
    exact hspec
  · rw [if_neg hlater]
    exact .of_ok h fun hlater' => absurd hlater' hlater

/-- The write loop uses `fp_` if it makes a call. -/
theorem wrote_succeeds (h : f.Handle) (s : WriteLoop) :
    Succeeds (f.wrote s) (s.calls ≠ 0 → 0 < f.lastRoll) := by
  unfold wrote
  dsimp only
  by_cases hcalls : s.calls = 0
  · rw [if_pos hcalls]
    exact .of_ok (h.congr rfl rfl rfl) fun hne => absurd hcalls hne
  · rw [if_neg hcalls, forall_prop_of_true hcalls]
    cases h with
    | unopened hroll hfp hnone =>
        rw [hnone]
        refine ⟨iff_of_false ?_ (by omega), ?_⟩
        · rintro ⟨f', hf'⟩
          cases hf'
        · intro f' hf'
          cases hf'
    | opened bytes hroll hfp hopen hother =>
        rw [hopen]
        refine .of_ok (.opened _ hroll hfp (Function.update_self _ _ _) ?_) hroll
        intro x hx
        exact (Function.update_of_ne hx _ _).trans (hother x hx)

theorem wrote_eq {s : WriteLoop} (h : f.wrote s = .ok f') :
    ∃ streams, f' =
      { f with writtenBytes := f.writtenBytes + s.written, streams := streams } := by
  unfold wrote at h
  dsimp only at h
  split at h
  · cases h
    exact ⟨f.streams, rfl⟩
  · split at h
    · cases h
      exact ⟨_, rfl⟩
    · cases h

theorem rollCheck_succeeds (h : f.Handle) (now : Readings) (opened : Addr) :
    Succeeds (f.rollCheck now opened)
      ((f.lastRoll < now.roll ∧
          (f.rollSize < f.writtenBytes ∨
            f.checkEveryN ≤ f.count + 1 ∧ period now.check ≠ f.startOfPeriod) → opened ≠ 0) ∧
        (¬ f.rollSize < f.writtenBytes ∧ f.checkEveryN ≤ f.count + 1 ∧
          period now.check = f.startOfPeriod ∧ f.flushInterval < now.check - f.lastFlush →
            0 < f.lastRoll)) := by
  unfold rollCheck
  dsimp only
  by_cases hsize : f.rollSize < f.writtenBytes
  · have hspec := rollFile_succeeds (f := { f with writtenBytes := 0 }) (h.congr rfl rfl rfl)
      now.roll opened
    rw [if_pos hsize]
    simpa [hsize] using hspec
  · rw [if_neg hsize]
    by_cases hcheck : f.checkEveryN ≤ f.count + 1
    · rw [if_pos hcheck]
      by_cases hperiod : period now.check ≠ f.startOfPeriod
      · have hspec := rollFile_succeeds (f := { f with count := 0 }) (h.congr rfl rfl rfl)
          now.roll opened
        rw [if_pos hperiod]
        simpa [hsize, hcheck, hperiod] using hspec
      · have hsame : period now.check = f.startOfPeriod := not_not.mp hperiod
        rw [if_neg hperiod]
        by_cases hflush : f.flushInterval < now.check - f.lastFlush
        · have hspec := flush_succeeds (f := { f with count := 0, lastFlush := now.check })
            (h.congr rfl rfl rfl)
          rw [if_pos hflush]
          simpa [hsize, hcheck, hsame, hflush] using hspec
        · rw [if_neg hflush]
          refine .of_ok (h.congr rfl rfl rfl) ⟨?_, ?_⟩
          · rintro ⟨_, hroll⟩
            simp [hsize, hperiod] at hroll
          · rintro ⟨_, _, _, hdue⟩
            exact absurd hdue hflush
    · rw [if_neg hcheck]
      refine .of_ok (h.congr rfl rfl rfl) ⟨?_, ?_⟩
      · rintro ⟨_, hroll⟩
        simp [hsize, hcheck] at hroll
      · rintro ⟨_, hdue, _⟩
        exact absurd hdue hcheck

theorem iteration_calls (logline : List UInt8) (fwrite : Nat → WriteResult) (v : WriteLoop) :
    (WriteLoop.iteration logline fwrite v).1.calls = v.calls + 1 := by
  unfold WriteLoop.iteration
  dsimp only
  split <;> rfl

theorem calls_le_of_loop {logline : List UInt8} {fwrite : Nat → WriteResult} {fuel : Nat}
    {s : WriteLoop} :
    ∀ {v : WriteLoop}, WriteLoop.loop logline fwrite fuel v = some s →
      v.calls ≤ s.calls ∧ (v.written ≠ logline.length → v.calls < s.calls) := by
  induction fuel with
  | zero =>
      intro v hv
      cases hv
  | succ fuel ih =>
      intro v hv
      have hcalls := iteration_calls logline fwrite v
      rw [WriteLoop.loop] at hv
      split at hv
      case isTrue hdone =>
        cases hv
        exact ⟨Nat.le_refl _, fun hopen => absurd hdone hopen⟩
      case isFalse =>
        rcases hiter : WriteLoop.iteration logline fwrite v with ⟨v', goes⟩
        rw [hiter] at hv hcalls
        dsimp only at hcalls
        have hle : v'.calls ≤ s.calls := by
          cases goes with
          | false =>
              cases hv
              exact Nat.le_refl _
          | true => exact (ih hv).1
        exact ⟨by omega, fun _ => by omega⟩

/-- The loop makes a call unless the line is empty. -/
theorem calls_of_loop {logline : List UInt8} {fwrite : Nat → WriteResult} {fuel : Nat}
    {s : WriteLoop} (h : WriteLoop.loop logline fwrite fuel WriteLoop.start = some s) :
    s.calls ≠ 0 ↔ logline ≠ [] := by
  by_cases hnil : logline = []
  · subst hnil
    cases fuel with
    | zero => cases h
    | succ fuel =>
        cases h
        exact iff_of_false (fun hne => hne rfl) (fun hne => hne rfl)
  · have hopen : WriteLoop.start.written ≠ logline.length := fun hlen =>
      hnil (List.length_eq_zero_iff.mp hlen.symm)
    have hlt := (calls_le_of_loop h).2 hopen
    exact iff_of_true (Nat.ne_of_gt (Nat.lt_of_le_of_lt (Nat.zero_le _) hlt)) hnil

theorem Succeeds.bind {x : Except Fault LogFile} {g : LogFile → Except Fault LogFile} {P Q : Prop}
    (hx : Succeeds x P) (hg : ∀ f₁, x = .ok f₁ → Succeeds (g f₁) Q) :
    Succeeds (x >>= g) (P ∧ Q) := by
  constructor
  · constructor
    · rintro ⟨f', hf'⟩
      obtain ⟨f₁, hf₁, hrest⟩ := exists_ok_of_bind hf'
      exact ⟨hx.iff.mp ⟨f₁, hf₁⟩, (hg f₁ hf₁).iff.mp ⟨f', hrest⟩⟩
    · rintro ⟨hP, hQ⟩
      obtain ⟨f₁, hf₁⟩ := hx.iff.mpr hP
      obtain ⟨f', hf'⟩ := (hg f₁ hf₁).iff.mpr hQ
      exact ⟨f', by rw [hf₁, ok_bind, hf']⟩
  · intro f' hf'
    obtain ⟨f₁, hf₁, hrest⟩ := exists_ok_of_bind hf'
    exact (hg f₁ hf₁).handle f' hrest

theorem lifeStep_succeeds (h : f.Handle) {a : LifeAct} (hreturns : a.Returns) :
    Succeeds (f.lifeStep a) (f.LifeMeets a) := by
  cases a with
  | append logline fwrite fuel now opened =>
      obtain ⟨s, hs⟩ := hreturns
      have hstep : f.lifeStep (.append logline fwrite fuel now opened) =
          f.wrote s >>= fun f => f.rollCheck now opened := by
        simp [lifeStep, LogFile.append, hs]
      have hwritten : f.writtenBy logline fwrite fuel = f.writtenBytes + s.written := by
        simp [writtenBy, hs]
      -- The roll decision sees the members that the write loop did not change.
      have hspec := (wrote_succeeds h s).bind
        (g := fun f => f.rollCheck now opened)
        (Q := (f.Opens (.append logline fwrite fuel now opened) → opened ≠ 0) ∧
          (¬ f.rollSize < f.writtenBytes + s.written ∧ f.checkEveryN ≤ f.count + 1 ∧
            period now.check = f.startOfPeriod ∧ f.flushInterval < now.check - f.lastFlush →
              0 < f.lastRoll)) (by
          intro f₁ hf₁
          have hhandle := (wrote_succeeds h s).handle f₁ hf₁
          obtain ⟨streams, rfl⟩ := wrote_eq hf₁
          have hcheck := rollCheck_succeeds hhandle now opened
          simp only [Opens, hwritten]
          exact hcheck)
      have hmeets : f.LifeMeets (.append logline fwrite fuel now opened) ↔
          (s.calls ≠ 0 → 0 < f.lastRoll) ∧
            (f.Opens (.append logline fwrite fuel now opened) → opened ≠ 0) ∧
              (¬ f.rollSize < f.writtenBytes + s.written ∧ f.checkEveryN ≤ f.count + 1 ∧
                period now.check = f.startOfPeriod ∧
                  f.flushInterval < now.check - f.lastFlush → 0 < f.lastRoll) := by
        rw [calls_of_loop hs, ← hwritten]
        constructor
        · intro hm
          exact ⟨fun hne => hm.uses (Or.inl hne), hm.opens, fun hdue => hm.uses (Or.inr hdue)⟩
        · rintro ⟨hwrite, hopens, hdue⟩
          exact ⟨fun huse => huse.elim hwrite hdue, hopens⟩
      rw [hstep, hmeets]
      exact hspec
  | flush =>
      have hmeets : f.LifeMeets .flush ↔ 0 < f.lastRoll :=
        ⟨fun hm => hm.uses trivial, fun hroll => ⟨fun _ => hroll, fun hno => hno.elim⟩⟩
      rw [hmeets]
      exact flush_succeeds h
  | rollFile now opened =>
      have hmeets : f.LifeMeets (.rollFile now opened) ↔ (f.lastRoll < now → opened ≠ 0) :=
        ⟨fun hm => hm.opens, fun hopens => ⟨fun hno => hno.elim, hopens⟩⟩
      rw [hmeets]
      exact rollFile_succeeds h now opened

/-! ## A pointer that is not null and not a file -/

/-- What `fp_` is when it starts with another value than null and no file has been opened. -/
structure Dangling (f : LogFile) : Prop where
  fp : f.fp ≠ 0
  streams : ∀ h, f.streams h = none

theorem Dangling.flush_eq (h : f.Dangling) : f.flush = .error .useAfterFree := by
  simp [flush, h.streams]

theorem Dangling.destroy_eq (h : f.Dangling) : f.destroy = .error .useAfterFree := by
  simp [destroy, fclose, h.streams]

/-- `rollFile` closes it, or does nothing. -/
theorem Dangling.rollFile_eq (h : f.Dangling) {now : Int} {opened : Addr} {rolled : Bool}
    (hroll : f.rollFile now opened = .ok (f', rolled)) : f' = f := by
  unfold rollFile at hroll
  dsimp only at hroll
  split at hroll
  · obtain ⟨f₁, hclose, hroll⟩ := exists_ok_of_bind hroll
    simp [fcloseOld, h.fp, fclose, h.streams] at hclose
  · cases hroll
    rfl

theorem Dangling.of_rollCheck (h : f.Dangling) {now : Readings} {opened : Addr}
    (hcheck : f.rollCheck now opened = .ok f') : f'.Dangling := by
  unfold rollCheck at hcheck
  dsimp only at hcheck
  split at hcheck
  · obtain ⟨⟨f₁, rolled⟩, hroll, hcheck⟩ := exists_ok_of_bind hcheck
    cases hcheck
    have hsame := Dangling.rollFile_eq (f := { f with writtenBytes := 0 }) ⟨h.fp, h.streams⟩ hroll
    rw [hsame]
    exact ⟨h.fp, h.streams⟩
  · split at hcheck
    · split at hcheck
      · obtain ⟨⟨f₁, rolled⟩, hroll, hcheck⟩ := exists_ok_of_bind hcheck
        cases hcheck
        have hsame := Dangling.rollFile_eq (f := { f with count := 0 }) ⟨h.fp, h.streams⟩ hroll
        rw [hsame]
        exact ⟨h.fp, h.streams⟩
      · split at hcheck
        · have herror := Dangling.flush_eq (f := { f with count := 0, lastFlush := now.check })
            ⟨h.fp, h.streams⟩
          rw [herror] at hcheck
          cases hcheck
        · cases hcheck
          exact ⟨h.fp, h.streams⟩
    · cases hcheck
      exact ⟨h.fp, h.streams⟩

theorem Dangling.of_lifeStep (h : f.Dangling) {a : LifeAct} (hstep : f.lifeStep a = .ok f') :
    f'.Dangling := by
  cases a with
  | append logline fwrite fuel now opened =>
      cases hloop : WriteLoop.loop logline fwrite fuel WriteLoop.start with
      | none =>
          rw [lifeStep, LogFile.append, hloop] at hstep
          cases hstep
          exact h
      | some s =>
          rw [lifeStep, LogFile.append, hloop] at hstep
          obtain ⟨f₁, hwrote, hcheck⟩ := exists_ok_of_bind hstep
          refine Dangling.of_rollCheck ?_ hcheck
          unfold wrote at hwrote
          dsimp only at hwrote
          split at hwrote
          · cases hwrote
            exact ⟨h.fp, h.streams⟩
          · rw [h.streams] at hwrote
            cases hwrote
  | flush =>
      rw [lifeStep, h.flush_eq] at hstep
      cases hstep
  | rollFile now opened =>
      obtain ⟨⟨f₁, rolled⟩, hroll, hstep⟩ := exists_ok_of_bind hstep
      cases hstep
      rw [h.rollFile_eq hroll]
      exact h

/-- The destructor closes it in the end, if nothing did before. -/
theorem Dangling.never_clean {acts : List LifeAct} :
    ∀ {f : LogFile}, f.Dangling →
      ¬ ∃ f', (do
        let f ← StepSystem.execAll lifeStep f acts
        f.destroy) = .ok f' := by
  induction acts with
  | nil =>
      rintro f h ⟨f', hf'⟩
      rw [StepSystem.execAll, ok_bind, h.destroy_eq] at hf'
      cases hf'
  | cons a acts ih =>
      rintro f h ⟨f', hf'⟩
      cases hstep : f.lifeStep a with
      | error e =>
          simp only [StepSystem.execAll, hstep, error_bind] at hf'
          cases hf'
      | ok f₁ =>
          simp only [StepSystem.execAll, hstep] at hf'
          exact ih (h.of_lifeStep hstep) ⟨f', hf'⟩

/-! ## Lives -/

theorem destroy_clean_iff (h : f.Handle) :
    (∃ f', f.destroy = .ok f' ∧ ∀ x, f'.streams x = none) ↔ 0 < f.lastRoll := by
  cases h with
  | unopened hroll hfp hnone =>
      refine iff_of_false ?_ (by omega)
      rintro ⟨f', hf', _⟩
      simp [destroy, fclose, hnone] at hf'
  | opened bytes hroll hfp hopen hother =>
      refine iff_of_true ⟨{ f with streams := Function.update f.streams f.fp none }, ?_, ?_⟩ hroll
      · simp only [destroy, fclose, hopen]
      · intro x
        by_cases hx : x = f.fp
        · rw [hx]
          exact Function.update_self _ _ _
        · exact (Function.update_of_ne hx _ _).trans (hother x hx)

theorem acts_clean_iff {acts : List LifeAct} :
    ∀ {f : LogFile}, f.Handle → (∀ a ∈ acts, a.Returns) →
      ((∃ f', (do
        let f ← StepSystem.execAll lifeStep f acts
        f.destroy) = .ok f' ∧ ∀ x, f'.streams x = none) ↔ f.MeetsAlong acts) := by
  induction acts with
  | nil =>
      intro f h _
      exact destroy_clean_iff h
  | cons a acts ih =>
      intro f h hreturns
      have hspec := lifeStep_succeeds h (hreturns a List.mem_cons_self)
      cases hstep : f.lifeStep a with
      | error e =>
          -- The step faults, so it does not meet the condition.
          refine iff_of_false ?_ ?_
          · rintro ⟨f', hf', _⟩
            simp only [StepSystem.execAll, hstep, error_bind] at hf'
            cases hf'
          · rintro ⟨hmeets, _⟩
            obtain ⟨f₁, hf₁⟩ := hspec.iff.mpr hmeets
            rw [hstep] at hf₁
            cases hf₁
      | ok f₁ =>
          have hrest := ih (hspec.handle f₁ hstep) fun a' ha' =>
            hreturns a' (List.mem_cons_of_mem _ ha')
          simp only [StepSystem.execAll, hstep]
          rw [hrest]
          constructor
          · intro halong
            refine ⟨hspec.iff.mp ⟨f₁, hstep⟩, ?_⟩
            intro f₂ hf₂
            rw [hstep] at hf₂
            cases hf₂
            exact halong
          · intro halong
            exact halong.2 f₁ hstep

/-- What the constructor leaves. -/
theorem construct_spec (b : Birth) :
    (b.garbage = 0 → Succeeds b.construct (0 < b.now → b.opened ≠ 0)) ∧
      (b.garbage ≠ 0 → ∀ f, b.construct = .ok f → f.Dangling) := by
  constructor
  · intro hnull
    exact rollFile_succeeds (.unopened rfl hnull fun _ => rfl) b.now b.opened
  · intro hgarbage f hf
    obtain ⟨⟨f₁, rolled⟩, hroll, hf⟩ := exists_ok_of_bind hf
    cases hf
    have hsame := Dangling.rollFile_eq ⟨hgarbage, fun _ => rfl⟩ hroll
    rw [hsame]
    exact ⟨hgarbage, fun _ => rfl⟩

/-- A life whose `append` calls return uses only files that it has opened, and closes each of
them once, exactly when it meets the condition. -/
theorem clean_iff_meets (b : Birth) (acts : List LifeAct) (hreturns : ∀ a ∈ acts, a.Returns) :
    Clean b acts ↔ b.Meets acts := by
  rcases construct_spec b with ⟨hnull, hdangling⟩
  by_cases hgarbage : b.garbage = 0
  · have hspec := hnull hgarbage
    cases hborn : b.construct with
    | error e =>
        refine iff_of_false ?_ ?_
        · rintro ⟨f', hf', _⟩
          rw [life, hborn, error_bind] at hf'
          cases hf'
        · intro hmeets
          obtain ⟨f, hf⟩ := hspec.iff.mpr hmeets.opens
          rw [hborn] at hf
          cases hf
    | ok f =>
        have hacts := acts_clean_iff (hspec.handle f hborn) hreturns
        rw [Clean, life, hborn, ok_bind, hacts]
        constructor
        · intro halong
          refine ⟨hgarbage, hspec.iff.mp ⟨f, hborn⟩, ?_⟩
          intro f₁ hf₁
          rw [hborn] at hf₁
          cases hf₁
          exact halong
        · intro hmeets
          exact hmeets.calls f hborn
  · -- The value that `fp_` starts with is used sooner or later.
    refine iff_of_false ?_ fun hmeets => hgarbage hmeets.garbage
    rintro ⟨f', hf', _⟩
    obtain ⟨f, hborn, hrest⟩ := exists_ok_of_bind hf'
    exact (hdangling hgarbage f hborn).never_clean ⟨f', hrest⟩

/-- A line, a new file a second later, and a flush. -/
def cleanActs : List LifeAct :=
  [.append [97, 98] (fun _ => ⟨2, false⟩) 2 ⟨100, 100⟩ 0, .rollFile 101 9, .flush]

theorem clean_iff_meets_rolled : Clean ⟨10, 3, 1024, 0, 100, 7⟩ cleanActs := by
  refine (clean_iff_meets _ _ ?_).mpr ⟨rfl, by decide, ?_⟩
  · intro a ha
    simp only [cleanActs, List.mem_cons, List.not_mem_nil, or_false] at ha
    rcases ha with rfl | rfl | rfl
    · exact ⟨_, rfl⟩
    · trivial
    · trivial
  · intro f hf
    cases hf
    refine ⟨⟨fun _ => by decide, fun hopens => absurd hopens.1 (by decide)⟩, ?_⟩
    intro f₁ hf₁
    cases hf₁
    refine ⟨⟨fun huse => huse.elim, fun _ => by decide⟩, ?_⟩
    intro f₂ hf₂
    cases hf₂
    refine ⟨⟨fun _ => by decide, fun hopens => hopens.elim⟩, ?_⟩
    intro f₃ hf₃
    cases hf₃
    show (0 : Int) < 101
    decide

/-- `fp_` starts as 42, which the constructor takes for an open file. -/
theorem constructor_closes_garbage :
    life ⟨10, 3, 1024, 42, 100, 7⟩ [] = .error .useAfterFree ∧
      ¬ Clean ⟨10, 3, 1024, 42, 100, 7⟩ [] := by
  have hfault : life ⟨10, 3, 1024, 42, 100, 7⟩ [] = .error .useAfterFree := rfl
  refine ⟨hfault, ?_⟩
  rintro ⟨f, hf, _⟩
  rw [hfault] at hf
  cases hf

end LogFile
end Muduo
