import Muduo.Base.LogFileArchive
import Muduo.Base.LogRecord
import Muduo.Foundation.Lines

/-!
# LogToFile — a program that logs into a `LogFile`

`Logger::setOutput` is given `LogFile::append`, as in the repository's tests.  A statement passes
the level or does nothing; it formats the record with the cached text of the second, in the fixed
buffer; and the file takes the record and may go on with a new one.

`log_reads_back` says that none of this shows: the files, read line by line, are the lines of
the statements that pass the level, in order, each with the time of its own second and with all
of its text.
-/

namespace Muduo

/-! ## Room for every piece -/

/-- A piece is taken when the content and this together stay below the size of the buffer. -/
def Insertion.room : Insertion → Nat
  -- `kMaxNumericSize` must be available, whatever the digits need.
  | .pointer _ => 47
  | ins => ins.text.length

/-- Every piece finds its room when its turn comes. -/
def HasRoom : Nat → List Insertion → Prop
  | _, [] => True
  | n, ins :: rest => n + ins.room < kSmallBuffer ∧ HasRoom (n + ins.text.length) rest

instance decidableHasRoom : (n : Nat) → (pieces : List Insertion) → Decidable (HasRoom n pieces)
  | _, [] => isTrue trivial
  | n, ins :: rest =>
      have := decidableHasRoom (n + ins.text.length) rest
      inferInstanceAs (Decidable (_ < _ ∧ HasRoom (n + ins.text.length) rest))

theorem Insertion.length_text_le (ins : Insertion) : ins.text.length ≤ ins.room := by
  cases ins with
  | pointer p =>
      have hdigits := length_hexadecimal_le p
      have htwo : (ascii "0x").length = 2 := rfl
      show (ascii "0x" ++ hexadecimal p.toNat).length ≤ 47
      rw [List.length_append, htwo]
      omega
  | _ => exact Nat.le_refl _

theorem HasRoom.length_lt {pieces : List Insertion} :
    ∀ {n : Nat}, HasRoom n pieces → n < kSmallBuffer →
      n + (pieces.flatMap Insertion.text).length < kSmallBuffer := by
  induction pieces with
  | nil =>
      intro n _ hn
      exact hn
  | cons ins rest ih =>
      intro n h _
      have hle := ins.length_text_le
      have hins := h.1
      have hrest := ih h.2 (by omega)
      rw [List.flatMap_cons, List.length_append]
      omega

namespace LogStream

variable {s t : LogStream}

theorem store_cur {b b' : FixedBuffer} {pos : Nat} {bytes : List UInt8}
    (h : b.store pos bytes = .ok b') : b'.cur = b.cur := by
  rw [FixedBuffer.store] at h
  split at h
  · cases h
    rfl
  · cases h

/-- With enough available, a pointer is not dropped. -/
theorem insertPointer_room (h : s.WF) {p : BitVec 64}
    (hroom : s.content.length + 47 < kSmallBuffer) :
    ∃ t, s.insertPointer p = .ok t ∧ t.WF ∧
      t.content = s.content ++ (ascii "0x" ++ hexadecimal p.toNat) := by
  obtain ⟨t, ht, hwf, hall | ⟨hcur, _⟩⟩ := insertPointer_spec h p
  · exact ⟨t, ht, hwf, hall⟩
  · -- The cursor has moved.
    have hsize := h.size
    have havail : kMaxNumericSize ≤ s.buffer.avail := by
      rw [h.length_content] at hroom
      simp only [kMaxNumericSize, FixedBuffer.avail]
      omega
    rw [insertPointer, if_pos havail] at ht
    obtain ⟨b₁, hb₁, ht⟩ := exists_ok_of_bind ht
    obtain ⟨⟨b₂, len⟩, hb₂, ht⟩ := exists_ok_of_bind ht
    obtain ⟨b₃, hb₃, hb₂⟩ := exists_ok_of_bind hb₂
    obtain ⟨b₄, hb₄, hb₂⟩ := exists_ok_of_bind hb₂
    cases hb₂
    cases ht
    have hmoved : b₂.cur = s.buffer.cur := by
      rw [store_cur hb₄, store_cur hb₃, store_cur hb₁]
    simp only [FixedBuffer.add, hmoved] at hcur
    omega

/-- A piece that finds its room is appended. -/
theorem insert_room (h : s.WF) {ins : Insertion}
    (hroom : s.content.length + ins.room < kSmallBuffer) :
    ∃ t, s.insert ins = .ok t ∧ t.WF ∧ t.content = s.content ++ ins.text := by
  have happend : ∀ {buf : List UInt8}, s.content.length + buf.length < kSmallBuffer →
      ∃ t, s.append buf = .ok t ∧ t.WF ∧ t.content = s.content ++ buf := by
    intro buf hbuf
    obtain ⟨t, ht, hwf, hkeep⟩ := append_keep h buf
    exact ⟨t, ht, hwf, hkeep.trans (keep_of_room hbuf)⟩
  cases hint : ins.integer? with
  | some value =>
      have htext : ins.text = decimal value := by
        rw [Insertion.text, hint]
      have hfits : s.buffer.cur + (decimal value).length < kSmallBuffer := by
        rw [← h.length_content, ← htext]
        cases ins with
        | pointer p => cases hint
        | _ => exact hroom
      rw [insert_integer hint, htext]
      exact formatInteger_ok h hfits
  | none =>
      cases ins with
      | pointer p => exact insertPointer_room h hroom
      | cString str | unsignedCString str => cases str <;> exact happend hroom
      | bool v | char v | string v | buffer v => exact happend hroom
      | short v | unsignedShort v | int v | unsignedInt v
      | long v | unsignedLong v | longLong v | unsignedLongLong v => cases hint

end LogStream

theorem LogRecord.insertAll_room {pieces : List Insertion} :
    ∀ {s : LogStream}, s.WF → HasRoom s.content.length pieces →
      ∃ t, insertAll s pieces = .ok t ∧
        t.content = s.content ++ pieces.flatMap Insertion.text := by
  induction pieces with
  | nil =>
      intro s _ _
      exact ⟨s, rfl, (List.append_nil _).symm⟩
  | cons ins rest ih =>
      intro s h hroom
      obtain ⟨s₁, hs₁, h₁, hcontent₁⟩ := LogStream.insert_room h hroom.1
      have hrest : HasRoom s₁.content.length rest := by
        rw [hcontent₁, List.length_append]
        exact hroom.2
      obtain ⟨t, ht, hcontent⟩ := ih h₁ hrest
      refine ⟨t, by rw [insertAll, hs₁, ok_bind, ht], ?_⟩
      rw [hcontent, hcontent₁, List.append_assoc, List.flatMap_cons]

theorem LogRecord.insertAll_append {front back : List Insertion} :
    ∀ {s : LogStream}, insertAll s (front ++ back) =
      (insertAll s front >>= fun t => insertAll t back) := by
  induction front with
  | nil =>
      intro s
      rfl
  | cons ins front ih =>
      intro s
      simp only [List.cons_append, insertAll]
      cases s.insert ins with
      | error e => rfl
      | ok t => exact ih

namespace Site

/-- Everything that a statement inserts, in order. -/
def pieces (s : Site) (body : List Insertion) : List Insertion :=
  s.head ++ body ++
    [.cString (some (ascii " - ")), .cString (some s.basename), .cString (some (ascii ":")),
      .int s.line, .char 10]

/-- The constructor, the statement and the destructor insert one piece after the other. -/
theorem log_eq_insertAll (s : Site) (body : List Insertion) :
    s.log body =
      (LogRecord.insertAll LogStream.new (s.pieces body) >>= fun t => .ok t.content) := by
  rw [pieces, LogRecord.insertAll_append, LogRecord.insertAll_append]
  simp only [log, LogRecord.new, LogRecord.formatTime, head, LogRecord.insertAll,
    LogRecord.destroy, LogRecord.finish, bind_assoc, pure_eq_ok]
  rfl

theorem log_room {s : Site} {body : List Insertion} (hroom : HasRoom 0 (s.pieces body)) :
    s.log body = .ok ((s.pieces body).flatMap Insertion.text) := by
  have hempty : LogStream.new.content = [] :=
    List.length_eq_zero_iff.mp LogStream.new_wf.length_content
  have hstart : HasRoom LogStream.new.content.length (s.pieces body) := by
    rwa [hempty]
  obtain ⟨t, ht, hcontent⟩ := LogRecord.insertAll_room LogStream.new_wf hstart
  rw [log_eq_insertAll, ht, ok_bind, hcontent, hempty, List.nil_append]

end Site

/-! ## The line of a statement -/

/-- Without control characters, and so without a NUL and a newline. -/
def Printable (text : List UInt8) : Prop :=
  ∀ c ∈ text, 32 ≤ c

instance (text : List UInt8) : Decidable (Printable text) :=
  List.decidableBAll (fun c => 32 ≤ c) text

theorem Printable.append {front back : List UInt8} (hfront : Printable front)
    (hback : Printable back) : Printable (front ++ back) := by
  intro c hc
  rcases List.mem_append.mp hc with hc | hc
  · exact hfront c hc
  · exact hback c hc

theorem Printable.strBytes {text : List UInt8} (h : Printable text) :
    LogStream.strBytes text = text := by
  refine List.takeWhile_eq_self_iff.mpr fun c hc => ?_
  have hle := h c hc
  simp only [ne_eq, decide_not, Bool.not_eq_true', decide_eq_false_iff_not]
  rintro rfl
  exact absurd hle (by decide)

theorem Printable.newline_not_mem {text : List UInt8} (h : Printable text) : 10 ∉ text :=
  fun hmem => absurd (h 10 hmem) (by decide)

theorem printable_decimal (value : Int) : Printable (decimal value) := by
  have hchar : ∀ d < 10, 32 ≤ detail.decimalChar d := by decide
  rw [decimal_eq]
  refine Printable.append ?_ ?_
  · intro c hc
    split at hc
    · rw [List.mem_singleton.mp hc]
      decide
    · cases hc
  · intro c hc
    obtain ⟨d, hd, rfl⟩ := List.mem_map.mp hc
    exact hchar d (Numeral.digits_lt (by decide) d (List.mem_reverse.mp hd))

theorem printable_zeroPadded (width : Nat) (value : Int) : Printable (zeroPadded width value) := by
  have hsign : Printable (if value < 0 then ascii "-" else []) := by
    split
    · decide
    · intro c hc
      cases hc
  refine (hsign.append fun c hc => ?_).append (printable_decimal _)
  rw [List.eq_of_mem_replicate hc]
  decide

theorem printable_strftime (tm : Tm) : Printable tm.strftime := by
  have hspace : Printable (ascii " ") := by decide
  have hcolon : Printable (ascii ":") := by decide
  exact (printable_decimal _).append (printable_zeroPadded _ _) |>.append (printable_zeroPadded _ _)
    |>.append hspace |>.append (printable_zeroPadded _ _) |>.append hcolon
    |>.append (printable_zeroPadded _ _) |>.append hcolon |>.append (printable_zeroPadded _ _)

theorem printable_microsText (us : Int) : Printable (microsText us) := by
  have hdot : Printable (ascii ".") := by decide
  have hend : Printable (ascii "Z ") := by decide
  exact hdot.append (printable_zeroPadded _ _) |>.append hend

theorem printable_levelName (level : LogLevel) : Printable (ascii level.name) := by
  cases level <;> decide

/-- `LOG_<level> << body` at a line of a source file; `now` is the time since the epoch in
microseconds. -/
structure LogStatement where
  level : LogLevel
  name : List UInt8
  line : BitVec 32
  now : Int
  body : List Insertion
  deriving DecidableEq, Repr

namespace LogStatement

variable (localtime : Int → Tm) (st : LogStatement)

def seconds : Int :=
  st.now.tdiv 1000000

def site (cache : TimeCache) : Site :=
  ⟨cache, localtime, st.now, st.level, st.name, st.line⟩

/-- The pieces with the time of the statement's own second. -/
def pieces : List Insertion :=
  [.cString (some (localtime st.seconds).strftime),
    .cString (some (microsText (st.now.tmod 1000000))), .cString (some (ascii st.level.name))] ++
  st.body ++
  [.cString (some (ascii " - ")), .cString (some (LogRecord.formatFileName st.name)),
    .cString (some (ascii ":")), .int st.line, .char 10]

/-- The line that the statement stands for. -/
def text : List UInt8 :=
  (localtime st.seconds).strftime ++ microsText (st.now.tmod 1000000) ++ ascii st.level.name ++
    st.body.flatMap Insertion.text ++ ascii " - " ++ LogRecord.formatFileName st.name ++
    ascii ":" ++ decimal st.line.toInt

/-- The clock is past the first second of 1970, where the cache begins; every piece finds its room;
and no newline is inserted before the last one. -/
structure Complete : Prop where
  clock : st.seconds ≠ 0
  room : HasRoom 0 (st.pieces localtime)
  body : ∀ ins ∈ st.body, 10 ∉ ins.text
  name : 10 ∉ LogRecord.formatFileName st.name

theorem strBytes_formatFileName (name : List UInt8) :
    LogStream.strBytes (LogRecord.formatFileName name) = LogRecord.formatFileName name :=
  Site.strBytes_basename ⟨.initial, fun _ => ⟨0, 0, 0, 0, 0, 0⟩, 0, .INFO, name, 0⟩

theorem pieces_text :
    (st.pieces localtime).flatMap Insertion.text = st.text localtime ++ [10] := by
  have hcString : ∀ str, (Insertion.cString (some str)).text = LogStream.strBytes str :=
    fun _ => rfl
  have hint : (Insertion.int st.line).text = decimal st.line.toInt := rfl
  have hchar : (Insertion.char 10).text = [10] := rfl
  have hdash : Printable (ascii " - ") := by decide
  have hcolon : Printable (ascii ":") := by decide
  simp only [pieces, text, List.flatMap_append, List.flatMap_cons, List.flatMap_nil, hcString, hint,
    hchar, (printable_strftime _).strBytes, (printable_microsText _).strBytes,
    (printable_levelName _).strBytes, hdash.strBytes, hcolon.strBytes, strBytes_formatFileName,
    List.append_nil, List.append_assoc]

variable {localtime st}

theorem Complete.oneLine (h : st.Complete localtime) : 10 ∉ st.text localtime := by
  have hbody : 10 ∉ st.body.flatMap Insertion.text := by
    intro hmem
    obtain ⟨ins, hins, hmem⟩ := List.mem_flatMap.mp hmem
    exact h.body ins hins hmem
  have hdash : 10 ∉ ascii " - " := by decide
  have hcolon : 10 ∉ ascii ":" := by decide
  simp [text, hbody, h.name, hdash, hcolon, (printable_strftime _).newline_not_mem,
    (printable_microsText _).newline_not_mem, (printable_levelName _).newline_not_mem,
    (printable_decimal _).newline_not_mem]

/-! ## The cache -/

/-- The text of the cache is that of its second, but for the zeros at the start. -/
def CacheSound (localtime : Int → Tm) (cache : TimeCache) : Prop :=
  cache.t_lastSecond ≠ 0 → cache.t_time = (localtime cache.t_lastSecond).strftime

theorem refresh_sound {cache : TimeCache} (h : CacheSound localtime cache) {seconds : Int}
    (hseconds : seconds ≠ 0) :
    CacheSound localtime (cache.refresh localtime seconds) ∧
      (cache.refresh localtime seconds).t_time = (localtime seconds).strftime := by
  rw [TimeCache.refresh]
  split
  case isTrue => exact ⟨fun _ => rfl, rfl⟩
  case isFalse hsame =>
    have heq : cache.t_lastSecond = seconds := (not_not.mp hsame).symm
    refine ⟨h, ?_⟩
    rw [h (by rwa [heq]), heq]

/-- With a sound cache, the statement outputs its line. -/
theorem Complete.log_eq (h : st.Complete localtime) {cache : TimeCache}
    (hcache : CacheSound localtime cache) :
    (st.site localtime cache).log st.body = .ok (st.text localtime ++ [10]) := by
  have htime : (st.site localtime cache).refreshed.t_time = (localtime st.seconds).strftime :=
    (refresh_sound hcache h.clock).2
  have hpieces : (st.site localtime cache).pieces st.body = st.pieces localtime := by
    rw [Site.pieces, Site.head, htime]
    rfl
  rw [Site.log_room (by rw [hpieces]; exact h.room), hpieces, pieces_text]

/-! ## Records as text -/

/-- Each character is one byte, and none is NUL. -/
def Plain (text : String) : Prop :=
  ∀ c ∈ text.toList, c.toNat ≠ 0 ∧ c.toNat < 256

theorem ascii_append (front back : String) : ascii (front ++ back) = ascii front ++ ascii back := by
  simp [ascii]

/-- The digits of a number are the same in a `String` and in a `LogStream`. -/
theorem ascii_toString (n : Nat) : ascii (toString n) = decimal n := by
  have hchar : ∀ d < 10, UInt8.ofNat (Nat.digitChar d).toNat = detail.decimalChar d := by decide
  have htext : ∀ n, ascii (toString n) = (Nat.toDigits 10 n).map fun c => UInt8.ofNat c.toNat := by
    intro n
    rw [ascii, Nat.toString_eq_repr, Nat.repr_eq_ofList_toDigits, String.toList_ofList]
  rw [htext, decimal_nat]
  induction n using Nat.strongRecOn with
  | _ n ih =>
      rw [Numeral.digits_rec (by decide) n, Nat.toDigits_eq_if (by decide)]
      split
      case isTrue hlt =>
        have hquot : n / 10 = 0 := Nat.div_eq_of_lt hlt
        simp [hquot, hchar n hlt, Nat.mod_eq_of_lt hlt]
      case isFalse hge =>
        have hquot : n / 10 ≠ 0 := by omega
        have hrest := ih (n / 10) (by omega)
        simp [hquot, hrest, hchar (n % 10) (Nat.mod_lt _ (by decide))]

theorem Plain.toNat_ofNat {text : String} (h : Plain text) {c : Char} (hc : c ∈ text.toList) :
    (UInt8.ofNat c.toNat).toNat = c.toNat := by
  rw [UInt8.toNat_ofNat', Nat.mod_eq_of_lt (h c hc).2]

theorem Plain.strBytes {text : String} (h : Plain text) :
    LogStream.strBytes (ascii text) = ascii text := by
  refine List.takeWhile_eq_self_iff.mpr fun byte hbyte => ?_
  obtain ⟨c, hc, rfl⟩ := List.mem_map.mp hbyte
  have hnum := h.toNat_ofNat hc
  simp only [ne_eq, decide_not, Bool.not_eq_true', decide_eq_false_iff_not]
  intro hzero
  rw [hzero] at hnum
  exact (h c hc).1 hnum.symm

/-- The basename of a plain path, taken before or after it is made bytes. -/
theorem ascii_formatFileName {name : String} (h : Plain name) :
    ascii (Logger.formatFileName name) = LogRecord.formatFileName (ascii name) := by
  have hslash : ∀ c ∈ name.toList.reverse,
      decide (UInt8.ofNat c.toNat ≠ 47) = decide (c ≠ '/') := by
    intro c hc
    have hnum := h.toNat_ofNat (List.mem_reverse.mp hc)
    refine decide_eq_decide.mpr (not_congr ⟨fun heq => ?_, fun heq => by rw [heq]; rfl⟩)
    rw [heq] at hnum
    exact Char.toNat_inj.mp hnum.symm
  have hfront : ∀ l : List Char,
      (∀ c ∈ l, decide (UInt8.ofNat c.toNat ≠ 47) = decide (c ≠ '/')) →
        (l.map fun c => UInt8.ofNat c.toNat).takeWhile (· ≠ 47) =
          (l.takeWhile (· ≠ '/')).map fun c => UInt8.ofNat c.toNat := by
    intro l
    induction l with
    | nil =>
        intro _
        rfl
    | cons c l ih =>
        intro hl
        have hc := hl c List.mem_cons_self
        have hrest := ih fun d hd => hl d (List.mem_cons_of_mem _ hd)
        rw [List.map_cons, List.takeWhile_cons, List.takeWhile_cons, hc, hrest]
        split <;> rfl
  rw [LogRecord.formatFileName, h.strBytes, Logger.formatFileName, ascii, ascii,
    String.toList_ofList, List.map_reverse, ← hfront _ hslash, List.map_reverse]

/-- `LOG_<level> << text << ...` with texts only; a number is the text of its digits. -/
def ofTexts (level : LogLevel) (name : String) (line : Nat) (now : Int) (texts : List String) :
    LogStatement where
  level := level
  name := ascii name
  line := BitVec.ofNat 32 line
  now := now
  body := texts.map fun text => .cString (some (ascii text))

/-- The text that the statement of a `Logger` outputs behind the time stamp. -/
def loggerText (level : LogLevel) (name : String) (line : Nat) (texts : List String) : String :=
  (texts.foldl Logger.insert (Logger.new name line level)).destroy.1

theorem ascii_loggerText (level : LogLevel) (name : String) (line : Nat) (texts : List String) :
    ascii (loggerText level name line texts) =
      ascii level.name ++ texts.flatMap ascii ++ ascii " - " ++
        ascii (Logger.formatFileName name) ++ ascii ":" ++ decimal line ++ [10] := by
  have hinsert : ∀ l : Logger, (texts.foldl Logger.insert l).line = l.line ∧
      (texts.foldl Logger.insert l).basename = l.basename ∧
      ascii (texts.foldl Logger.insert l).stream = ascii l.stream ++ texts.flatMap ascii := by
    induction texts with
    | nil => simp
    | cons text texts ih =>
        intro l
        obtain ⟨hline, hbase, hstream⟩ := ih (l.insert text)
        refine ⟨hline, hbase, hstream.trans ?_⟩
        rw [Logger.insert, ascii_append, List.flatMap_cons, List.append_assoc]
  have hline : (texts.foldl Logger.insert (Logger.new name line level)).line = line :=
    (hinsert _).1
  have hbase : (texts.foldl Logger.insert (Logger.new name line level)).basename =
      Logger.formatFileName name := (hinsert _).2.1
  have hstream : ascii (texts.foldl Logger.insert (Logger.new name line level)).stream =
      ascii level.name ++ texts.flatMap ascii := (hinsert _).2.2
  have hnewline : ascii "\n" = [10] := rfl
  rw [loggerText, Logger.destroy, Logger.finish, Logger.insert, hline, hbase]
  simp only [ascii_append, hstream, ascii_toString, hnewline, List.append_assoc]

/-- A complete statement with plain texts passes to `g_output` what the `Logger` has, behind the
time stamp. -/
theorem log_ofTexts {level : LogLevel} {name : String} {line : Nat} {now : Int}
    {texts : List String} (hcomplete : (ofTexts level name line now texts).Complete localtime)
    (hname : Plain name) (htexts : ∀ text ∈ texts, Plain text) (hline : line < 2 ^ 31)
    {cache : TimeCache} (hcache : CacheSound localtime cache) :
    let st := ofTexts level name line now texts
    (st.site localtime cache).log st.body =
      .ok ((localtime st.seconds).strftime ++ microsText (now.tmod 1000000) ++
        ascii (loggerText level name line texts)) := by
  have hbody : (texts.map fun text => Insertion.cString (some (ascii text))).flatMap
      Insertion.text = texts.flatMap ascii := by
    rw [List.flatMap_map]
    exact List.flatMap_congr fun text htext => (htexts text htext).strBytes
  have hint : (BitVec.ofNat 32 line).toInt = line := by
    rw [BitVec.toInt_ofNat', Int.bmod_eq_of_le (by omega) (by omega)]
  intro st
  rw [hcomplete.log_eq hcache, ascii_loggerText, text]
  simp only [ofTexts, hbody, hint, ascii_formatFileName hname, List.append_assoc]
  rfl

end LogStatement

/-! ## The program -/

/-- The place of a level in the enumeration. -/
def LogLevel.value : LogLevel → Nat
  | .TRACE => 0
  | .DEBUG => 1
  | .INFO => 2
  | .WARN => 3
  | .ERROR => 4
  | .FATAL => 5

/-- The `if` of the macros; those of `WARN` and above have none. -/
def LogLevel.logs (g_logLevel : LogLevel) : LogLevel → Bool
  | .TRACE => decide (g_logLevel.value ≤ LogLevel.TRACE.value)
  | .DEBUG => decide (g_logLevel.value ≤ LogLevel.DEBUG.value)
  | .INFO => decide (g_logLevel.value ≤ LogLevel.INFO.value)
  | .WARN | .ERROR | .FATAL => true

structure LogToFile where
  g_logLevel : LogLevel
  cache : TimeCache
  archive : LogFile.Archive.State

namespace LogToFile

open LogFile (Readings LifeAct)
open LogFile.Archive (appendWhole contents)

inductive Act
  | setLogLevel (level : LogLevel)
  /-- `now` is what the clock says in `append`. -/
  | statement (st : LogStatement) (now : Readings) (opened : Addr)
  | flush
  | rollFile (now : Int) (opened : Addr)
  deriving DecidableEq, Repr

def onFile (s : LogToFile) (a : LifeAct) : Except Fault LogToFile := do
  let archive ← LogFile.Archive.exec s.archive a
  pure { s with archive := archive }

def exec (localtime : Int → Tm) (s : LogToFile) : Act → Except Fault LogToFile
  | .setLogLevel level => pure { s with g_logLevel := level }
  | .statement st now opened =>
      if s.g_logLevel.logs st.level then do
        let site := st.site localtime s.cache
        let out ← site.log st.body
        { s with cache := site.refreshed }.onFile (appendWhole out now opened)
      else
        pure s
  | .flush => s.onFile .flush
  | .rollFile now opened => s.onFile (.rollFile now opened)

/-- `fopen` succeeds. -/
def Enabled (_ : LogToFile) : Act → Prop
  | .statement _ _ opened => opened ≠ 0
  | .rollFile _ opened => opened ≠ 0
  | _ => True

def Init (s : LogToFile) : Prop :=
  s.g_logLevel = .INFO ∧ s.cache = .initial ∧ LogFile.Archive.Init s.archive

def system (localtime : Int → Tm) : StepSystem LogToFile Act :=
  .ofExec Init Enabled (exec localtime)

/-- A statement that passes the level is complete. -/
def Meets (localtime : Int → Tm) (s : LogToFile) : Act → Prop
  | .statement st _ _ => s.g_logLevel.logs st.level = true → st.Complete localtime
  | _ => True

/-- The log as it is meant: the lines of the statements that pass the level of their time. -/
def lines (localtime : Int → Tm) : LogLevel → List Act → List (List UInt8)
  | _, [] => []
  | _, .setLogLevel level :: as => lines localtime level as
  | g_logLevel, .statement st _ _ :: as =>
      (if g_logLevel.logs st.level then [st.text localtime] else []) ++
        lines localtime g_logLevel as
  | g_logLevel, .flush :: as => lines localtime g_logLevel as
  | g_logLevel, .rollFile _ _ :: as => lines localtime g_logLevel as

/-- The files make up the log. -/
structure ReadsBack (s : LogToFile) (log : List (List UInt8)) : Prop where
  lines : (s.archive.closed.flatMap fun v => Lines.split 10 v.bytes) ++
    Lines.split 10 (contents s.archive.file) = log
  /-- A file ends with a line. -/
  whole : ∀ bytes ∈ s.archive.closed.map (·.bytes) ++ [contents s.archive.file],
    Lines.join 10 (Lines.split 10 bytes) = bytes
  /-- The seconds in the names of the files. -/
  seconds : (s.archive.closed.map (·.second) ++ [s.archive.file.lastRoll]).Pairwise (· < ·)

structure Inv (localtime : Int → Tm) (s : LogToFile) (log : List (List UInt8)) : Prop where
  cache : LogStatement.CacheSound localtime s.cache
  archive : LogFile.Archive.Inv s.archive (log.map (· ++ [10]))
  oneLine : ∀ line ∈ log, 10 ∉ line

variable {localtime : Int → Tm} {s t : LogToFile} {a : Act} {as : List Act}
  {log : List (List UInt8)}

/-! ## Steps -/

theorem onFile_ok {lifeAct : LifeAct} {records : List (List UInt8)}
    (h : LogFile.Archive.Inv s.archive records)
    (hen : LogFile.Archive.Enabled s.archive lifeAct) :
    ∃ t, s.onFile lifeAct = .ok t ∧ t.g_logLevel = s.g_logLevel ∧ t.cache = s.cache ∧
      LogFile.Archive.Inv t.archive (records ++ LogFile.Archive.pieces lifeAct) := by
  obtain ⟨archive, harchive⟩ := LogFile.Archive.exec_ok h hen
  refine ⟨{ s with archive := archive }, by rw [onFile, harchive]; rfl, rfl, rfl, ?_⟩
  exact LogFile.Archive.step_inv h hen harchive

/-- What a statement that passes the level does. -/
theorem statement_ok {st : LogStatement} (h : Inv localtime s log)
    (hlogs : s.g_logLevel.logs st.level = true) (hst : st.Complete localtime) (now : Readings)
    {opened : Addr} (hopened : opened ≠ 0) :
    ∃ t, exec localtime s (.statement st now opened) = .ok t ∧ t.g_logLevel = s.g_logLevel ∧
      Inv localtime t (log ++ [st.text localtime]) := by
  have hlog := hst.log_eq h.cache
  have hlen : (st.text localtime ++ [10]).length < 2 ^ 64 := by
    have hlt := hst.room.length_lt (by decide)
    rw [LogStatement.pieces_text, Nat.zero_add] at hlt
    exact Nat.lt_trans hlt (by decide)
  have hloop := LogFile.loop_acceptAll hlen
  have hen : LogFile.Archive.Enabled s.archive
      (appendWhole (st.text localtime ++ [10]) now opened) :=
    ⟨⟨_, hloop⟩, fun _ => hopened⟩
  obtain ⟨t, ht, hlevel, hcache, harchive⟩ := onFile_ok
    (s := { s with cache := (st.site localtime s.cache).refreshed }) h.archive hen
  refine ⟨t, ?_, hlevel, ?_, ?_, ?_⟩
  · simp only [exec, hlogs, if_true, hlog, ok_bind]
    exact ht
  · rw [hcache]
    exact (LogStatement.refresh_sound h.cache hst.clock).1
  · have hpieces : LogFile.Archive.pieces (appendWhole (st.text localtime ++ [10]) now opened) =
        [st.text localtime ++ [10]] := by
      simp [appendWhole, LogFile.Archive.pieces, hloop]
    rw [hpieces] at harchive
    rwa [List.map_append, List.map_singleton]
  · intro line hline
    rcases List.mem_append.mp hline with hline | hline
    · exact h.oneLine line hline
    · rw [List.mem_singleton.mp hline]
      exact hst.oneLine

/-- A call that does not log leaves the lines as they are. -/
theorem call_ok (h : Inv localtime s log) (lifeAct : LifeAct)
    (hen : LogFile.Archive.Enabled s.archive lifeAct)
    (hnone : LogFile.Archive.pieces lifeAct = []) :
    ∃ t, s.onFile lifeAct = .ok t ∧ t.g_logLevel = s.g_logLevel ∧ Inv localtime t log := by
  obtain ⟨t, ht, hlevel, hcache, harchive⟩ := onFile_ok h.archive hen
  rw [hnone, List.append_nil] at harchive
  exact ⟨t, ht, hlevel, by rw [hcache]; exact h.cache, harchive, h.oneLine⟩

theorem step_ok (h : Inv localtime s log) (hmeets : Meets localtime s a) (hen : Enabled s a) :
    ∃ t, exec localtime s a = .ok t ∧
      Inv localtime t (log ++ lines localtime s.g_logLevel [a]) ∧
      ∀ as, lines localtime s.g_logLevel (a :: as) =
        lines localtime s.g_logLevel [a] ++ lines localtime t.g_logLevel as := by
  cases a with
  | setLogLevel level =>
      refine ⟨_, rfl, ?_, fun as => rfl⟩
      rw [lines, lines, List.append_nil]
      exact ⟨h.cache, h.archive, h.oneLine⟩
  | statement st now opened =>
      cases hlogs : s.g_logLevel.logs st.level with
      | true =>
          obtain ⟨t, ht, hlevel, hinv⟩ := statement_ok h hlogs (hmeets hlogs) now hen
          refine ⟨t, ht, ?_, fun as => by simp [lines, hlogs, hlevel]⟩
          simpa [lines, hlogs] using hinv
      | false =>
          refine ⟨s, by simp [exec, hlogs, pure_eq_ok], ?_, fun as => by simp [lines, hlogs]⟩
          simpa [lines, hlogs] using h
  | flush =>
      obtain ⟨t, ht, hlevel, hinv⟩ := call_ok h .flush ⟨trivial, False.elim⟩ rfl
      exact ⟨t, ht, by simpa [lines] using hinv, fun as => by rw [hlevel]; rfl⟩
  | rollFile now opened =>
      obtain ⟨t, ht, hlevel, hinv⟩ :=
        call_ok h (.rollFile now opened) ⟨trivial, fun _ => hen⟩ rfl
      exact ⟨t, ht, by simpa [lines] using hinv, fun as => by rw [hlevel]; rfl⟩

theorem run_inv {s₀ : LogToFile} (h : Inv localtime s₀ log)
    (hrun : ((system localtime).restrict (Meets localtime)).Run s₀ as s) :
    Inv localtime s (log ++ lines localtime s₀.g_logLevel as) := by
  rw [system, StepSystem.restrict_ofExec] at hrun
  induction hrun generalizing log with
  | nil s => simpa [lines] using h
  | cons hstep _ ih =>
      obtain ⟨⟨hmeets, hen⟩, hexec⟩ := hstep
      obtain ⟨t, ht, hinv, hlines⟩ := step_ok h hmeets hen
      rw [hexec] at ht
      cases ht
      rw [hlines, ← List.append_assoc]
      exact ih hinv

theorem init_inv (h : Init s) : Inv localtime s [] := by
  obtain ⟨_, hcache, harchive⟩ := h
  refine ⟨?_, LogFile.Archive.init_inv harchive, fun line hline => by cases hline⟩
  rw [hcache]
  exact fun hno => absurd rfl hno

/-! ## Reading back -/

theorem Inv.readsBack (h : Inv localtime s log) : ReadsBack s log := by
  obtain ⟨groups, last, hclosed, hopen, hlog⟩ := h.archive.part.files
  have hcontents : contents s.archive.file = last.flatten := by
    rw [contents, hopen]
    rfl
  -- Every record is a line of the log and its newline.
  have hrecord : ∀ p ∈ groups.flatten ++ last, ∃ l, 10 ∉ l ∧ p = l ++ [10] := by
    intro p hp
    rw [hlog] at hp
    obtain ⟨l, hl, rfl⟩ := List.mem_map.mp hp
    exact ⟨l, h.oneLine l hl, rfl⟩
  have hgroups : ∀ group ∈ groups, ∀ p ∈ group, ∃ l, 10 ∉ l ∧ p = l ++ [10] :=
    fun group hgroup p hp =>
      hrecord p (List.mem_append_left _ (List.mem_flatten.mpr ⟨group, hgroup, hp⟩))
  have hlast : ∀ p ∈ last, ∃ l, 10 ∉ l ∧ p = l ++ [10] :=
    fun p hp => hrecord p (List.mem_append_right _ hp)
  refine ⟨?_, ?_, h.archive.part.seconds⟩
  · have hid : ∀ l ∈ log, (List.dropLast ∘ (· ++ [10])) l = id l := by
      intro l _
      simp
    have hfiles : (s.archive.closed.flatMap fun v => Lines.split 10 v.bytes) =
        groups.flatMap fun group => group.map List.dropLast := by
      have hsplit : ∀ group ∈ groups, Lines.split 10 group.flatten = group.map List.dropLast :=
        fun group hgroup => (Lines.split_flatten (hgroups group hgroup)).1
      calc (s.archive.closed.flatMap fun v => Lines.split 10 v.bytes)
          = (s.archive.closed.map (·.bytes)).flatMap (Lines.split 10) := by rw [List.flatMap_map]
        _ = groups.flatMap fun group => Lines.split 10 group.flatten := by
            rw [hclosed, List.flatMap_map]
        _ = groups.flatMap fun group => group.map List.dropLast := List.flatMap_congr hsplit
    calc (s.archive.closed.flatMap fun v => Lines.split 10 v.bytes) ++
          Lines.split 10 (contents s.archive.file)
        = (groups.flatMap fun group => group.map List.dropLast) ++ last.map List.dropLast := by
          rw [hfiles, hcontents, (Lines.split_flatten hlast).1]
      _ = (groups.flatten ++ last).map List.dropLast := by
          rw [List.map_append, List.map_flatten, List.flatMap_def]
      _ = log := by
          rw [hlog, List.map_map, List.map_congr_left hid, List.map_id]
  · intro bytes hbytes
    rw [hclosed, hcontents, List.mem_append, List.mem_singleton] at hbytes
    rcases hbytes with hbytes | rfl
    · obtain ⟨group, hgroup, rfl⟩ := List.mem_map.mp hbytes
      exact (Lines.split_flatten (hgroups group hgroup)).2
    · exact (Lines.split_flatten hlast).2

/-- No call faults, and the files read line by line are the log as it is meant, for any levels,
clocks, rolls and flushes, as long as the statements that pass the level are complete. -/
theorem log_reads_back {s₀ : LogToFile} (h₀ : Init s₀)
    (hrun : ((system localtime).restrict (Meets localtime)).Run s₀ as s) :
    (∀ a, Meets localtime s a → Enabled s a → ∃ t, exec localtime s a = .ok t) ∧
      ReadsBack s (lines localtime .INFO as) := by
  have hinv := run_inv (init_inv h₀) hrun
  rw [h₀.1, List.nil_append] at hinv
  refine ⟨fun a hmeets hen => ?_, hinv.readsBack⟩
  obtain ⟨t, ht, _⟩ := step_ok hinv hmeets hen
  exact ⟨t, ht⟩

/-- A second of a May noon. -/
def noonTime (seconds : Int) : Tm :=
  ⟨2024, 5, 7, 12, 0, (seconds % 60).toNat⟩

def hidden : LogStatement :=
  ⟨.INFO, ascii "src/a.cc", 7, 1715083201000000, [.string (ascii "hidden")]⟩

def low : LogStatement :=
  ⟨.WARN, ascii "src/a.cc", 8, 1715083201000001, [.string (ascii "low"), .int 3]⟩

def mark : LogStatement :=
  ⟨.ERROR, ascii "b.cc", 42, 1715083201000500, [.char 33]⟩

/-- One statement below the level, and two in the same second that pass it. -/
def warnings : List Act :=
  [.setLogLevel .WARN, .statement hidden ⟨100, 100⟩ 8, .statement low ⟨101, 101⟩ 9,
    .statement mark ⟨102, 102⟩ 11]

def beforeWarnings : LogToFile :=
  ⟨.INFO, .initial, LogFile.Archive.firstFile⟩

theorem log_reads_back_warnings :
    ∃ s, ((system noonTime).restrict (Meets noonTime)).Run beforeWarnings warnings s ∧
      ReadsBack s
        [ascii "20240507 12:00:01.000001Z WARN  low3 - a.cc:8",
          ascii "20240507 12:00:01.000500Z ERROR ! - b.cc:42"] := by
  have hinit : Init beforeWarnings :=
    ⟨rfl, rfl, ⟨4, 3, 1024, 0, 100, 7⟩, rfl, by decide, rfl, rfl⟩
  have hlow : low.Complete noonTime := ⟨by decide, by decide, by decide, by decide⟩
  have hmark : mark.Complete noonTime := ⟨by decide, by decide, by decide, by decide⟩
  have hnine : (9 : Addr) ≠ 0 := by decide
  have heleven : (11 : Addr) ≠ 0 := by decide
  have hfirst : Inv noonTime beforeWarnings [] := init_inv hinit
  have hwarn : Inv noonTime { beforeWarnings with g_logLevel := .WARN } [] :=
    ⟨hfirst.cache, hfirst.archive, hfirst.oneLine⟩
  obtain ⟨t₁, ht₁, hlevel₁, hinv₁⟩ := statement_ok hwarn rfl hlow ⟨101, 101⟩ hnine
  have hpasses : t₁.g_logLevel.logs mark.level = true := by
    rw [hlevel₁]
    rfl
  obtain ⟨t₂, ht₂, _, _⟩ := statement_ok hinv₁ hpasses hmark ⟨102, 102⟩ heleven
  have hrun : ((system noonTime).restrict (Meets noonTime)).Run beforeWarnings warnings t₂ := by
    rw [system, StepSystem.restrict_ofExec]
    have hhidden : Meets noonTime { beforeWarnings with g_logLevel := .WARN }
        (.statement hidden ⟨100, 100⟩ 8) := by
      intro hno
      cases hno
    exact .cons ⟨⟨trivial, trivial⟩, rfl⟩
      (.cons ⟨⟨hhidden, show (8 : Addr) ≠ 0 by decide⟩, rfl⟩
        (.cons ⟨⟨fun _ => hlow, hnine⟩, ht₁⟩
          (.cons ⟨⟨fun _ => hmark, heleven⟩, ht₂⟩ (.nil _))))
  refine ⟨t₂, hrun, ?_⟩
  have hlines : lines noonTime .INFO warnings =
      [ascii "20240507 12:00:01.000001Z WARN  low3 - a.cc:8",
        ascii "20240507 12:00:01.000500Z ERROR ! - b.cc:42"] := by
    decide
  have hread := (log_reads_back hinit hrun).2
  rwa [hlines] at hread

end LogToFile

end Muduo
