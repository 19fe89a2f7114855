import Mathlib.Data.List.Infix
import Muduo.Base.LogFile

/-!
# LogFileWriting — the write loop of `LogFile::append`

After a short write the loop calls `fwrite_unlocked` again with the whole line, and not with the
part that is still missing.  So a line reaches the file once and in order only if the bytes that
are repeated happen to be the ones that are missing.  `InPlace` says this of the line and the
results of the calls, and `writesOnce_iff_inPlace` proves that it is the exact condition.
-/

namespace Muduo
namespace WriteLoop

variable {logline : List UInt8} {fwrite : Nat → WriteResult} {s s' v : WriteLoop} {i k fuel : Nat}

/-! ## What is asked of the loop -/

/-- What `fwrite_unlocked` may return when it is given the line: at least one byte, or fewer than
all of them and an error. -/
def Possible (logline : List UInt8) (fwrite : Nat → WriteResult) : Prop :=
  logline ≠ [] → ∀ i, (fwrite i).n ≤ logline.length ∧
    ((fwrite i).err = false → 1 ≤ (fwrite i).n) ∧
    ((fwrite i).err = true → (fwrite i).n < logline.length)

/-- The states of the loop at its test. -/
inductive Visits (logline : List UInt8) (fwrite : Nat → WriteResult) : WriteLoop → Prop where
  | start : Visits logline fwrite start
  | next {s s' : WriteLoop} : Visits logline fwrite s → s.written ≠ logline.length →
      iteration logline fwrite s = (s', true) → Visits logline fwrite s'

/-- One of the calls that the loop makes sets the error flag. -/
def ErrorOccurs (logline : List UInt8) (fwrite : Nat → WriteResult) : Prop :=
  ∃ s, Visits logline fwrite s ∧ s.written ≠ logline.length ∧ (fwrite s.calls).err = true

/-- The loop ends in `s`. -/
def Ends (logline : List UInt8) (fwrite : Nat → WriteResult) (s : WriteLoop) : Prop :=
  ∃ fuel, loop logline fwrite fuel start = some s

/-- The loop writes the line once. -/
structure WritesOnce (logline : List UInt8) (fwrite : Nat → WriteResult) : Prop where
  ends : ∃ s, Ends logline fwrite s ∧
    (¬ ErrorOccurs logline fwrite → s.added = logline) ∧
    (ErrorOccurs logline fwrite → s.added <+: logline) ∧
    -- `writtenBytes_ += written`
    s.written = s.added.length
  bounded : ∀ s, Visits logline fwrite s → s.written ≤ logline.length

/-! ## The condition on the line and the results -/

/-- The bytes of the first `i` calls together. -/
def total (fwrite : Nat → WriteResult) : Nat → Nat
  | 0 => 0
  | i + 1 => total fwrite i + (fwrite i).n

/-- Call `i` leaves off within the line, and the beginning of the line, which is what it writes,
is also what stands at the place the calls before it have reached. -/
structure Call.InPlace (logline : List UInt8) (fwrite : Nat → WriteResult) (i : Nat) : Prop where
  open_ : total fwrite i < logline.length
  within : total fwrite i + (fwrite i).n ≤ logline.length
  same : logline.take (fwrite i).n = (logline.drop (total fwrite i)).take (fwrite i).n
  /-- An error goes unnoticed when the count is the one that was missing. -/
  noted : (fwrite i).err = true → total fwrite i + (fwrite i).n = logline.length

/-- Calls in place complete the line, or lead to a call that fails and writes nothing. -/
def InPlaceUpTo (logline : List UInt8) (fwrite : Nat → WriteResult) (i k : Nat) : Prop :=
  (∀ j, i ≤ j → j < k → Call.InPlace logline fwrite j) ∧
    (total fwrite k = logline.length ∨
      total fwrite k < logline.length ∧ (fwrite k).err = true ∧ (fwrite k).n = 0)

def InPlace (logline : List UInt8) (fwrite : Nat → WriteResult) : Prop :=
  ∃ k, InPlaceUpTo logline fwrite 0 k

/-! ## The condition is enough -/

/-- The loop before call `i` as long as all calls were in place. -/
def cut (logline : List UInt8) (fwrite : Nat → WriteResult) (i : Nat) : WriteLoop where
  calls := i
  written := total fwrite i
  added := logline.take (total fwrite i)

/-- A repetition that is in place extends the prefix. -/
theorem Call.InPlace.take_total (h : Call.InPlace logline fwrite i) :
    logline.take (total fwrite i) ++ logline.take (fwrite i).n =
      logline.take (total fwrite (i + 1)) := by
  rw [h.same, total, List.take_add]

theorem remain_eq {w len : Nat} (hw : w ≤ len) (hlen : len < 2 ^ 64) :
    (len + 2 ^ 64 - w) % 2 ^ 64 = len - w := by
  have hsub : len + 2 ^ 64 - w = len - w + 2 ^ 64 := by omega
  rw [hsub, Nat.add_mod_right]
  exact Nat.mod_eq_of_lt (by omega)

/-- One iteration from a cut, without the `size_t` arithmetic of `remain`. -/
theorem iteration_cut (hi : total fwrite i ≤ logline.length) (hlen : logline.length < 2 ^ 64) :
    iteration logline fwrite (cut logline fwrite i) =
      let added := logline.take (total fwrite i) ++ logline.take (fwrite i).n
      if (fwrite i).n ≠ logline.length - total fwrite i ∧ (fwrite i).err = true then
        (⟨i + 1, total fwrite i, added⟩, false)
      else
        (⟨i + 1, (total fwrite i + (fwrite i).n) % 2 ^ 64, added⟩, true) := by
  simp only [iteration, cut, remain_eq hi hlen]

theorem Call.InPlace.iteration_cut (h : Call.InPlace logline fwrite i)
    (hlen : logline.length < 2 ^ 64) :
    iteration logline fwrite (cut logline fwrite i) = (cut logline fwrite (i + 1), true) := by
  have hwithin := h.within
  have hgoes : ¬ ((fwrite i).n ≠ logline.length - total fwrite i ∧ (fwrite i).err = true) := by
    rintro ⟨hne, herr⟩
    have hnoted := h.noted herr
    omega
  rw [WriteLoop.iteration_cut (Nat.le_of_lt h.open_) hlen]
  simp only [hgoes, if_false, h.take_total]
  rw [Nat.mod_eq_of_lt (by omega)]
  rfl

/-- The loop spends one unit of fuel for every call in place. -/
theorem loop_cut (hcalls : ∀ j, 0 ≤ j → j < k → Call.InPlace logline fwrite j)
    (hlen : logline.length < 2 ^ 64) (fuel : Nat) :
    ∀ {i}, i ≤ k → loop logline fwrite (fuel + i) start =
      loop logline fwrite fuel (cut logline fwrite i) := by
  intro i
  induction i generalizing fuel with
  | zero =>
      intro _
      rfl
  | succ i ih =>
      intro hi
      have hcall := hcalls i (Nat.zero_le i) hi
      have hopen : (cut logline fwrite i).written ≠ logline.length := Nat.ne_of_lt hcall.open_
      have hfuel : fuel + (i + 1) = fuel + 1 + i := by omega
      rw [hfuel, ih (fuel + 1) (Nat.le_of_succ_le hi), loop, if_neg hopen,
        hcall.iteration_cut hlen]

/-- The state in which a call fails without having written anything. -/
theorem iteration_failed (hopen : total fwrite k < logline.length) (herr : (fwrite k).err = true)
    (hn : (fwrite k).n = 0) (hlen : logline.length < 2 ^ 64) :
    iteration logline fwrite (cut logline fwrite k) =
      ({ cut logline fwrite k with calls := k + 1 }, false) := by
  have hbreak : (fwrite k).n ≠ logline.length - total fwrite k ∧ (fwrite k).err = true :=
    ⟨by omega, herr⟩
  rw [iteration_cut (Nat.le_of_lt hopen) hlen]
  dsimp only
  rw [if_pos hbreak, hn, List.take_zero, List.append_nil]
  rfl

theorem visits_cut (hcalls : ∀ j, 0 ≤ j → j < k → Call.InPlace logline fwrite j)
    (hlen : logline.length < 2 ^ 64) :
    ∀ {i}, i ≤ k → Visits logline fwrite (cut logline fwrite i) := by
  intro i
  induction i with
  | zero =>
      intro _
      exact Visits.start
  | succ i ih =>
      intro hi
      have hcall := hcalls i (Nat.zero_le i) hi
      exact Visits.next (ih (Nat.le_of_succ_le hi)) (Nat.ne_of_lt hcall.open_)
        (hcall.iteration_cut hlen)

/-- No other state is visited. -/
theorem eq_cut_of_visits (h : InPlaceUpTo logline fwrite 0 k) (hlen : logline.length < 2 ^ 64)
    (hs : Visits logline fwrite s) : ∃ i ≤ k, s = cut logline fwrite i := by
  induction hs with
  | start => exact ⟨0, Nat.zero_le k, rfl⟩
  | @next s s' _ hopen hiter ih =>
      obtain ⟨i, hi, rfl⟩ := ih
      rcases Nat.lt_or_eq_of_le hi with hlt | rfl
      · rw [(h.1 i (Nat.zero_le i) hlt).iteration_cut hlen] at hiter
        cases hiter
        exact ⟨i + 1, hlt, rfl⟩
      · rcases h.2 with hdone | ⟨hlt, herr, hn⟩
        · exact absurd hdone hopen
        · rw [iteration_failed hlt herr hn hlen] at hiter
          cases hiter

theorem InPlace.writesOnce (h : InPlace logline fwrite) (hlen : logline.length < 2 ^ 64) :
    WritesOnce logline fwrite := by
  obtain ⟨k, hk⟩ := h
  have hbound : ∀ s, Visits logline fwrite s → s.written ≤ logline.length := by
    intro s hs
    obtain ⟨i, hi, rfl⟩ := eq_cut_of_visits hk hlen hs
    rcases Nat.lt_or_eq_of_le hi with hlt | rfl
    · exact Nat.le_of_lt (hk.1 i (Nat.zero_le i) hlt).open_
    · rcases hk.2 with hdone | ⟨hlt, _, _⟩
      · exact Nat.le_of_eq hdone
      · exact Nat.le_of_lt hlt
  refine ⟨?_, hbound⟩
  rcases hk.2 with hdone | ⟨hlt, herr, hn⟩
  · -- The line is complete.
    have hall : (cut logline fwrite k).added = logline :=
      List.take_of_length_le (Nat.le_of_eq hdone.symm)
    have hend : Ends logline fwrite (cut logline fwrite k) := by
      refine ⟨1 + k, ?_⟩
      have hfull : (cut logline fwrite k).written = logline.length := hdone
      rw [loop_cut hk.1 hlen 1 (Nat.le_refl k), loop, if_pos hfull]
    refine ⟨_, hend, fun _ => hall, fun _ => ?_, ?_⟩
    · rw [hall]
    · rw [hall]
      exact hdone
  · -- Call `k` failed and left the prefix as it was.
    have hopen : (cut logline fwrite k).written ≠ logline.length := Nat.ne_of_lt hlt
    have hend : Ends logline fwrite { cut logline fwrite k with calls := k + 1 } := by
      refine ⟨1 + k, ?_⟩
      rw [loop_cut hk.1 hlen 1 (Nat.le_refl k), loop, if_neg hopen,
        iteration_failed hlt herr hn hlen]
    have herror : ErrorOccurs logline fwrite :=
      ⟨_, visits_cut hk.1 hlen (Nat.le_refl k), hopen, herr⟩
    refine ⟨_, hend, fun hno => absurd herror hno, fun _ => List.take_prefix _ _, ?_⟩
    show total fwrite k = (logline.take (total fwrite k)).length
    rw [List.length_take]
    omega

/-! ## The condition is necessary -/

/-- What is in the file stays there. -/
theorem added_prefix_of_loop :
    ∀ {v : WriteLoop}, loop logline fwrite fuel v = some s → v.added <+: s.added := by
  induction fuel with
  | zero =>
      intro v h
      cases h
  | succ fuel ih =>
      intro v h
      rw [loop] at h
      split at h
      · cases h
        exact List.prefix_refl _
      · rcases hiter : iteration logline fwrite v with ⟨v', goes⟩
        have hstep : v.added <+: v'.added := by
          unfold iteration at hiter
          dsimp only at hiter
          split at hiter
          · cases hiter
            exact List.prefix_append _ _
          · cases hiter
            exact List.prefix_append _ _
        rw [hiter] at h
        cases goes with
        | false =>
            cases h
            exact hstep
        | true => exact hstep.trans (ih h)

/-- A repetition after which the file still holds a prefix of the line was in place. -/
theorem inPlace_of_prefix (hopen : total fwrite i < logline.length)
    (hn : (fwrite i).n ≤ logline.length)
    (hgoes : ¬ ((fwrite i).n ≠ logline.length - total fwrite i ∧ (fwrite i).err = true))
    (hpre : logline.take (total fwrite i) ++ logline.take (fwrite i).n <+: logline) :
    Call.InPlace logline fwrite i := by
  have hsum : (logline.take (total fwrite i) ++ logline.take (fwrite i).n).length =
      total fwrite i + (fwrite i).n := by
    rw [List.length_append, List.length_take, List.length_take]
    omega
  have hwithin : total fwrite i + (fwrite i).n ≤ logline.length := hsum ▸ hpre.length_le
  have htake : logline.take (total fwrite i) ++ logline.take (fwrite i).n =
      logline.take (total fwrite i + (fwrite i).n) := by
    rw [List.prefix_iff_eq_take.1 hpre, hsum]
  refine ⟨hopen, hwithin, ?_, ?_⟩
  · rw [List.take_add] at htake
    exact List.append_cancel_left htake
  · intro herr
    by_contra hshort
    exact hgoes ⟨by omega, herr⟩

/-- A loop that ends with a correctly counted prefix of the line made its calls in place. -/
theorem inPlaceUpTo_of_loop (hposs : Possible logline fwrite) (hlen : logline.length < 2 ^ 64)
    (hpre : s.added <+: logline) (hcount : s.written = s.added.length) :
    ∀ {i}, total fwrite i ≤ logline.length →
      loop logline fwrite fuel (cut logline fwrite i) = some s →
        ∃ k, InPlaceUpTo logline fwrite i k := by
  induction fuel with
  | zero =>
      intro i _ h
      cases h
  | succ fuel ih =>
      intro i hi h
      by_cases hdone : total fwrite i = logline.length
      · exact ⟨i, fun j hj hlt => absurd hj (Nat.not_le_of_lt hlt), Or.inl hdone⟩
      have hopen : total fwrite i < logline.length := Nat.lt_of_le_of_ne hi hdone
      have hn : (fwrite i).n ≤ logline.length :=
        (hposs (List.length_pos_iff.1 (Nat.zero_lt_of_lt hopen)) i).1
      have hnot : (cut logline fwrite i).written ≠ logline.length := hdone
      rw [loop, if_neg hnot, iteration_cut hi hlen] at h
      by_cases hbreak : (fwrite i).n ≠ logline.length - total fwrite i ∧ (fwrite i).err = true
      · -- The failed call is not counted, so it wrote nothing.
        rw [if_pos hbreak] at h
        cases h
        have hzero : (fwrite i).n = 0 := by
          simp only [List.length_append, List.length_take] at hcount
          omega
        exact ⟨i, fun j hj hlt => absurd hj (Nat.not_le_of_lt hlt),
          Or.inr ⟨hopen, hbreak.2, hzero⟩⟩
      · rw [if_neg hbreak] at h
        have hcall : Call.InPlace logline fwrite i :=
          inPlace_of_prefix hopen hn hbreak ((added_prefix_of_loop h).trans hpre)
        have hwithin : total fwrite (i + 1) ≤ logline.length := hcall.within
        have hsum : total fwrite i + (fwrite i).n ≤ logline.length := hcall.within
        have hcut : WriteLoop.mk (i + 1) ((total fwrite i + (fwrite i).n) % 2 ^ 64)
            (logline.take (total fwrite i) ++ logline.take (fwrite i).n) =
              cut logline fwrite (i + 1) := by
          rw [hcall.take_total, Nat.mod_eq_of_lt (by omega)]
          rfl
        simp only [hcut] at h
        obtain ⟨k, hcalls, hk⟩ := ih hwithin h
        refine ⟨k, ?_, hk⟩
        intro j hj hlt
        rcases Nat.lt_or_eq_of_le hj with hgt | rfl
        · exact hcalls j hgt hlt
        · exact hcall

/-- The write loop writes a line exactly once if and only if every call of it is in place. -/
theorem writesOnce_iff_inPlace (logline : List UInt8) (fwrite : Nat → WriteResult)
    (hlen : logline.length < 2 ^ 64) (hposs : Possible logline fwrite) :
    WritesOnce logline fwrite ↔ InPlace logline fwrite := by
  constructor
  · rintro ⟨⟨s, ⟨fuel, hloop⟩, hclean, herror, hcount⟩, _⟩
    have hpre : s.added <+: logline := by
      by_cases hocc : ErrorOccurs logline fwrite
      · exact herror hocc
      · rw [hclean hocc]
    exact inPlaceUpTo_of_loop hposs hlen hpre hcount (Nat.zero_le _) hloop
  · intro h
    exact h.writesOnce hlen

-- The line `xx`, written one byte at a time: the byte that is repeated equals the missing one.
theorem writesOnce_iff_inPlace_repeated :
    let logline : List UInt8 := [120, 120]
    let fwrite : Nat → WriteResult := fun _ => ⟨1, false⟩
    logline.length < 2 ^ 64 ∧ Possible logline fwrite ∧ WritesOnce logline fwrite := by
  have hposs : Possible [120, 120] fun _ => ⟨1, false⟩ := by
    intro _ i
    simp
  refine ⟨by decide, hposs, ?_⟩
  refine (writesOnce_iff_inPlace _ _ (by decide) hposs).2 ⟨2, ?_, Or.inl rfl⟩
  intro j _ hj
  have hcases : j = 0 ∨ j = 1 := by omega
  rcases hcases with rfl | rfl
  · exact ⟨by decide, by decide, by decide, by decide⟩
  · exact ⟨by decide, by decide, by decide, by decide⟩

/-- The line `ab`, of which the first call writes one byte and the second call both: the file gets
`aab` and `written` passes the length of the line. -/
theorem short_write_duplicates :
    let logline : List UInt8 := [97, 98]
    let fwrite : Nat → WriteResult := fun i => if i = 0 then ⟨1, false⟩ else ⟨2, false⟩
    Possible logline fwrite ∧ Visits logline fwrite ⟨2, 3, [97, 97, 98]⟩ ∧
      ¬ WritesOnce logline fwrite := by
  intro logline fwrite
  have hposs : Possible logline fwrite := by
    intro _ i
    by_cases hi : i = 0
    · subst hi
      decide
    · simp [fwrite, hi, logline]
  have hfirst : Visits logline fwrite ⟨1, 1, [97]⟩ :=
    Visits.next Visits.start (by decide) (by decide)
  have hsecond : Visits logline fwrite ⟨2, 3, [97, 97, 98]⟩ :=
    Visits.next hfirst (by decide) (by decide)
  refine ⟨hposs, hsecond, ?_⟩
  intro honce
  exact absurd (honce.bounded _ hsecond) (by decide)

end WriteLoop

end Muduo
