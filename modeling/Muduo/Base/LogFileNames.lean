import Muduo.Base.LogFileArchive
import Muduo.Base.LogRecord
import Muduo.Foundation.FixedWidth

/-!
# LogFileNames — the log files in a directory

`getLogFileName` puts the local time into the name of a file, and `rollFile` opens that name for
appending.  As long as the local clock is not set back between two files, every file has a name of
its own and the names sort the way the files were written, so the files of a directory, in the
order of their names, are the log (`directory_reads_back`).  When the clock is set back, a name may
come again, and the file goes on in the old one (`hour_comes_again`).
-/

namespace Muduo

/-- `strftime` with `".%Y%m%d-%H%M%S."`. -/
def Tm.fileStamp (tm : Tm) : List UInt8 :=
  ascii "." ++ decimal tm.year ++ zeroPadded 2 tm.mon ++ zeroPadded 2 tm.mday ++ ascii "-" ++
    zeroPadded 2 tm.hour ++ zeroPadded 2 tm.min ++ zeroPadded 2 tm.sec ++ ascii "."

/-- What `localtime_r` fills in, in a year of four digits. -/
structure Tm.InRange (tm : Tm) : Prop where
  year : 1000 ≤ tm.year ∧ tm.year ≤ 9999
  mon : tm.mon ≤ 12
  mday : tm.mday ≤ 31
  hour : tm.hour ≤ 23
  min : tm.min ≤ 59
  sec : tm.sec ≤ 60

/-- The eight digits of the date, as a number. -/
def Tm.date (tm : Tm) : Nat :=
  (tm.year.toNat * 10 ^ 2 + tm.mon) * 10 ^ 2 + tm.mday

/-- The six digits of the time of day, as a number. -/
def Tm.time (tm : Tm) : Nat :=
  (tm.hour * 10 ^ 2 + tm.min) * 10 ^ 2 + tm.sec

/-- Earlier in the calendar and on the clock. -/
def Tm.Before (tm tm' : Tm) : Prop :=
  tm.date < tm'.date ∨ tm.date = tm'.date ∧ tm.time < tm'.time

instance (tm tm' : Tm) : Decidable (tm.Before tm') :=
  inferInstanceAs (Decidable (_ ∨ _))

namespace LogFile

/-- The name of the file that is opened at the second `now`. -/
def getLogFileName (basename hostname : List UInt8) (localtime : Int → Tm) (now : Int) :
    List UInt8 :=
  basename ++ (localtime now).fileStamp ++ hostname ++ ascii ".log"

/-! ## Names in order -/

/-- A numeral with leading zeros, in ASCII. -/
def padded (w n : Nat) : List UInt8 :=
  (FixedWidth.digits 10 w n).map detail.decimalChar

theorem zeroPadded_eq {w n : Nat} (hw : 0 < w) (hn : n < 10 ^ w) : zeroPadded w n = padded w n := by
  have hsign : ¬ (n : Int) < 0 := by omega
  have hzero : (48 : UInt8) = detail.decimalChar 0 := rfl
  rw [padded, ← FixedWidth.replicate_append_digits (by decide) hw hn, List.map_append,
    List.map_replicate, zeroPadded, if_neg hsign, Int.natAbs_natCast, decimal_nat]
  simp [hzero]

/-- A year of four digits needs no zeros. -/
theorem decimal_eq_padded {n : Nat} (hlow : 1000 ≤ n) (hhigh : n ≤ 9999) :
    decimal n = padded 4 n := by
  have hne : n ≠ 0 := by omega
  have hlength : 3 < (Numeral.digits 10 n).length := by
    rw [Numeral.digits, if_neg hne, Nat.lt_digits_length_iff (by decide)]
    exact hlow
  have hnone : 4 - (Numeral.digits 10 n).length = 0 := by omega
  have hlt : n < 10 ^ 4 := by omega
  rw [padded, ← FixedWidth.replicate_append_digits (by decide) (by decide) hlt, hnone,
    List.replicate_zero, List.nil_append, decimal_nat]

theorem padded_append (a c x : Nat) {y : Nat} (hy : y < 10 ^ c) :
    padded (a + c) (x * 10 ^ c + y) = padded a x ++ padded c y := by
  rw [padded, FixedWidth.digits_append (by decide) a c x hy, List.map_append]
  rfl

theorem padded_lt {w n m : Nat} (h : n < m) (hm : m < 10 ^ w) : padded w n < padded w m := by
  have hchar : ∀ x < 10, ∀ y < 10, x < y → detail.decimalChar x < detail.decimalChar y := by decide
  refine FixedWidth.map_lt_map (FixedWidth.digits_lt (by decide) h hm) fun x hx y hy => ?_
  exact hchar x (FixedWidth.mem_digits_lt (by decide) x hx) y
    (FixedWidth.mem_digits_lt (by decide) y hy)

/-- A stamp is the date and the time of day, as numerals of eight and six digits. -/
theorem fileStamp_eq {tm : Tm} (h : tm.InRange) :
    tm.fileStamp = ascii "." ++ (padded 8 tm.date ++ (ascii "-" ++ (padded 6 tm.time ++
      ascii "."))) := by
  obtain ⟨⟨hlow, hhigh⟩, hmon, hmday, hhour, hmin, hsec⟩ := h
  obtain ⟨year, hyear⟩ := Int.eq_ofNat_of_zero_le (show 0 ≤ tm.year by omega)
  have hdate : padded 8 tm.date = padded 4 year ++ padded 2 tm.mon ++ padded 2 tm.mday := by
    rw [Tm.date, hyear, Int.toNat_natCast]
    rw [padded_append 6 2 _ (by omega), padded_append 4 2 _ (by omega)]
  have htime : padded 6 tm.time = padded 2 tm.hour ++ padded 2 tm.min ++ padded 2 tm.sec := by
    rw [Tm.time, padded_append 4 2 _ (by omega), padded_append 2 2 _ (by omega)]
  rw [hdate, htime, Tm.fileStamp, hyear, decimal_eq_padded (by omega) (by omega),
    zeroPadded_eq (by decide) (by omega), zeroPadded_eq (by decide) (by omega),
    zeroPadded_eq (by decide) (by omega), zeroPadded_eq (by decide) (by omega),
    zeroPadded_eq (by decide) (by omega)]
  simp only [List.append_assoc]

theorem fileStamp_lt {tm tm' : Tm} (h : tm.InRange) (h' : tm'.InRange) (hlt : tm.Before tm')
    (back back' : List UInt8) : tm.fileStamp ++ back < tm'.fileStamp ++ back' := by
  have hdate' : tm'.date < 10 ^ 8 := by
    obtain ⟨⟨_, hyear⟩, hmon, hmday, _⟩ := h'
    unfold Tm.date
    omega
  have htime' : tm'.time < 10 ^ 6 := by
    obtain ⟨_, _, _, hhour, hmin, hsec⟩ := h'
    unfold Tm.time
    omega
  have hlength : ∀ w n m, (padded w n).length = (padded w m).length := by
    intro w n m
    simp [padded]
  rw [fileStamp_eq h, fileStamp_eq h']
  simp only [List.append_assoc]
  refine List.append_left_lt ?_
  rcases hlt with hdate | ⟨hdate, htime⟩
  · exact FixedWidth.append_lt_append (padded_lt hdate hdate') (hlength _ _ _) _ _
  · rw [hdate]
    refine List.append_left_lt (List.append_left_lt ?_)
    exact FixedWidth.append_lt_append (padded_lt htime htime') (hlength _ _ _) _ _

theorem getLogFileName_lt {basename hostname : List UInt8} {localtime : Int → Tm} {x y : Int}
    (hx : (localtime x).InRange) (hy : (localtime y).InRange)
    (hlt : (localtime x).Before (localtime y)) :
    getLogFileName basename hostname localtime x <
      getLogFileName basename hostname localtime y := by
  simp only [getLogFileName, List.append_assoc]
  exact List.append_left_lt (fileStamp_lt hx hy hlt _ _)

/-! ## A directory -/

/-- The files by name, in the order in which they were created. -/
abbrev Directory := List (List UInt8 × List UInt8)

/-- `fopen` with `"a"`, and what is written until `fclose`. -/
def Directory.append (d : Directory) (name bytes : List UInt8) : Directory :=
  if name ∈ d.map Prod.fst then
    d.map fun entry => if entry.1 = name then (name, entry.2 ++ bytes) else entry
  else
    d ++ [(name, bytes)]

/-- All files one after the other, in the order of their names. -/
def Directory.cat (d : Directory) : List UInt8 :=
  (d.mergeSort fun entry entry' => decide (entry.1 ≤ entry'.1)).flatMap Prod.snd

theorem Directory.cat_of_pairwise {d : Directory} (h : (d.map Prod.fst).Pairwise (· < ·)) :
    d.cat = d.flatMap Prod.snd := by
  have hsorted : d.Pairwise fun entry entry' => decide (entry.1 ≤ entry'.1) = true := by
    refine (List.pairwise_map.mp h).imp fun hlt => ?_
    simpa using List.le_of_lt hlt
  rw [Directory.cat, List.mergeSort_of_pairwise hsorted]

namespace Archive

/-- The files in the order in which they were opened, the open one last. -/
def volumes (s : State) : List Volume :=
  s.closed ++ [⟨s.file.lastRoll, contents s.file⟩]

/-- What the files have left in a directory that was empty, with their names. -/
def directory (name : Int → List UInt8) (s : State) : Directory :=
  (volumes s).foldl (fun d v => d.append (name v.second) v.bytes) []

variable {s : State} {name : Int → List UInt8}

/-- Files with names of their own. -/
theorem foldl_append {vs : List Volume} :
    ∀ {d : Directory}, (d.map Prod.fst ++ vs.map fun v => name v.second).Nodup →
      vs.foldl (fun d v => d.append (name v.second) v.bytes) d =
        d ++ vs.map fun v => (name v.second, v.bytes) := by
  induction vs with
  | nil =>
      intro d _
      simp
  | cons v vs ih =>
      intro d h
      have hnew : name v.second ∉ d.map Prod.fst := by
        intro hmem
        exact (List.nodup_append.mp h).2.2 _ hmem _ List.mem_cons_self rfl
      rw [List.foldl_cons, Directory.append, if_neg hnew, ih]
      · simp
      · simpa using h

theorem directory_of_nodup (h : ((volumes s).map fun v => name v.second).Nodup) :
    directory name s = (volumes s).map fun v => (name v.second, v.bytes) :=
  foldl_append h

/-- The volumes hold the log. -/
theorem Partition.flatMap_bytes {log : List (List UInt8)} (h : Partition s log) :
    (volumes s).flatMap Volume.bytes = log.flatten := by
  obtain ⟨groups, last, hclosed, hopen, hlog⟩ := h.files
  have hlast : contents s.file = last.flatten := by rw [contents, hopen]; rfl
  rw [volumes, List.flatMap_append, ← hlog, List.flatten_append]
  congr 1
  · rw [List.flatMap_def, hclosed, ← List.flatten_flatten]
  · simp [hlast]

/-- The local clock gives dates of four digits, and is not set back between two of the files. -/
structure ClockGoesOn (localtime : Int → Tm) (s : State) : Prop where
  range : ∀ v ∈ volumes s, (localtime v.second).InRange
  forward : ∀ v ∈ volumes s, ∀ v' ∈ volumes s, v.second < v'.second →
    (localtime v.second).Before (localtime v'.second)

/-- For any calls, any readings of the system clock and any time zone whose clock is not set back
between two of the files: the names of the files go up in the order in which the files were opened,
and all files in the order of their names are what the calls of `append` have written. -/
theorem directory_reads_back {s₀ : State} {as : List LifeAct} (h₀ : Init s₀)
    (hrun : system.Run s₀ as s) {basename hostname : List UInt8} {localtime : Int → Tm}
    (hclock : ClockGoesOn localtime s) :
    ((volumes s).map fun v => getLogFileName basename hostname localtime v.second).Pairwise
        (· < ·) ∧
      (directory (getLogFileName basename hostname localtime) s).cat =
        (as.flatMap pieces).flatten := by
  have hpart : Partition s (as.flatMap pieces) := (run_inv (init_inv h₀) hrun).part
  have hseconds : (volumes s).Pairwise fun v v' => v.second < v'.second := by
    have h := hpart.seconds
    rw [← List.map_singleton (f := Volume.second) (a := ⟨s.file.lastRoll, contents s.file⟩),
      ← List.map_append] at h
    exact List.pairwise_map.mp h
  have hnames : ((volumes s).map fun v =>
      getLogFileName basename hostname localtime v.second).Pairwise (· < ·) := by
    refine List.pairwise_map.mpr (hseconds.imp_of_mem fun {v v'} hv hv' hlt => ?_)
    exact getLogFileName_lt (hclock.range v hv) (hclock.range v' hv')
      (hclock.forward v hv v' hv' hlt)
  refine ⟨hnames, ?_⟩
  have hnodup := hnames.imp fun {a b} hlt => (show a ≠ b by rintro rfl; exact List.lt_irrefl _ hlt)
  rw [directory_of_nodup hnodup, Directory.cat_of_pairwise, List.flatMap_map, hpart.flatMap_bytes]
  rw [List.map_map]
  exact hnames

/-- A line, a new file, and two more of each. -/
def threeFiles : List LifeAct :=
  [appendWhole (ascii "a") ⟨100, 100⟩ 8, .rollFile 130 9, appendWhole (ascii "b") ⟨130, 130⟩ 10,
    .rollFile 160 11, appendWhole (ascii "c") ⟨160, 160⟩ 12]

def afterFiles : State :=
  (StepSystem.execAll exec firstFile threeFiles).toOption.getD firstFile

theorem threeFiles_run : Init firstFile ∧ system.Run firstFile threeFiles afterFiles := by
  refine ⟨⟨⟨4, 3, 1024, 0, 100, 7⟩, rfl, by decide, rfl, rfl⟩, ?_⟩
  refine StepSystem.run_of_execAll ?_ rfl
  exact ⟨⟨⟨_, rfl⟩, fun _ => by decide⟩, ⟨trivial, fun _ => by decide⟩,
    ⟨⟨_, rfl⟩, fun _ => by decide⟩, ⟨trivial, fun _ => by decide⟩,
    ⟨⟨_, rfl⟩, fun _ => by decide⟩, trivial⟩

/-- The first minutes after three in the morning of a day in October. -/
def summerTime (t : Int) : Tm :=
  ⟨2024, 10, 27, 3, (t / 60).toNat % 60, (t % 60).toNat⟩

/-- The clock is set back by a minute two and a half minutes after three. -/
def setBack (t : Int) : Tm :=
  if t < 150 then summerTime t else summerTime (t - 60)

def nameOf (localtime : Int → Tm) : Int → List UInt8 :=
  getLogFileName (ascii "test") (ascii "host") localtime

theorem directory_reads_back_threeFiles :
    ClockGoesOn summerTime afterFiles ∧
      (directory (nameOf summerTime) afterFiles).cat = ascii "abc" := by
  have hvolumes : volumes afterFiles =
      [⟨100, ascii "a"⟩, ⟨130, ascii "b"⟩, ⟨160, ascii "c"⟩] := rfl
  have hclock : ClockGoesOn summerTime afterFiles := by
    refine ⟨?_, ?_⟩
    · rw [hvolumes]
      simp only [List.forall_mem_cons]
      exact ⟨⟨by decide, by decide, by decide, by decide, by decide, by decide⟩,
        ⟨by decide, by decide, by decide, by decide, by decide, by decide⟩,
        ⟨by decide, by decide, by decide, by decide, by decide, by decide⟩,
        fun v hv => by cases hv⟩
    · rw [hvolumes]
      decide
  obtain ⟨hinit, hrun⟩ := threeFiles_run
  exact ⟨hclock, (directory_reads_back hinit hrun hclock).2⟩

/-- The third file gets the name of the first and goes on in it. -/
theorem hour_comes_again :
    (directory (nameOf setBack) afterFiles).cat = ascii "acb" := by
  have hfiles : directory (nameOf setBack) afterFiles =
      [(nameOf setBack 100, ascii "ac"), (nameOf setBack 130, ascii "b")] := by decide
  have hnames : nameOf setBack 100 < nameOf setBack 130 := by decide
  rw [hfiles, Directory.cat_of_pairwise]
  · rfl
  · simpa using hnames

end Archive
end LogFile
end Muduo
