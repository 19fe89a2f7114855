import Mathlib.Data.List.TakeWhile
import Muduo.Base.Logging
import Muduo.Base.LogStreamNumbers

/-!
# LogRecord — one log record in its fixed buffer

`Logger::Impl` of `muduo/base/Logging.cc` over the `LogStream` it has: the constructor inserts
time and level, the statement its text, and `finish` the five pieces of the trailer
` - <basename>:<line>` and a newline.  Each piece but the line number is dropped when it does not
fit, and the line number is written whether it fits or not.  `terminated_iff_meets` says when
the trailer arrives nevertheless.

A line break is the byte 10.
-/

namespace Muduo

/-! ## The time stamp -/

/-- The fields of a `struct tm` that the format prints, `%Y` and `%m` with their offsets. -/
structure Tm where
  year : Int
  mon : Nat
  mday : Nat
  hour : Nat
  min : Nat
  sec : Nat
  deriving DecidableEq, Repr

/-- A number with zeros in front, at least `width` characters together with its sign. -/
def zeroPadded (width : Nat) (value : Int) : List UInt8 :=
  let sign := if value < 0 then ascii "-" else []
  let text := decimal value.natAbs
  sign ++ List.replicate (width - sign.length - text.length) 48 ++ text

/-- `strftime` with `"%Y%m%d %H:%M:%S"`. -/
def Tm.strftime (tm : Tm) : List UInt8 :=
  decimal tm.year ++ zeroPadded 2 tm.mon ++ zeroPadded 2 tm.mday ++ ascii " " ++
    zeroPadded 2 tm.hour ++ ascii ":" ++ zeroPadded 2 tm.min ++ ascii ":" ++ zeroPadded 2 tm.sec

/-- `snprintf` with `".%06ldZ "`. -/
def microsText (us : Int) : List UInt8 :=
  ascii "." ++ zeroPadded 6 us ++ ascii "Z "

theorem mem_decimal {value : Int} {c : UInt8} (h : c ∈ decimal value) : c ≠ 10 := by
  have hchar : ∀ d < 10, detail.decimalChar d ≠ 10 := by decide
  rw [decimal_eq, List.mem_append] at h
  rcases h with h | h
  · split at h
    · rw [List.mem_singleton.mp h]
      decide
    · cases h
  · obtain ⟨d, hd, rfl⟩ := List.mem_map.mp h
    exact hchar d (Numeral.digits_lt (by decide) d (List.mem_reverse.mp hd))

theorem newline_not_mem_decimal (value : Int) : 10 ∉ decimal value :=
  fun h => mem_decimal h rfl

theorem newline_not_mem_zeroPadded (width : Nat) (value : Int) : 10 ∉ zeroPadded width value := by
  have hsign : 10 ∉ if value < 0 then ascii "-" else [] := by
    split <;> decide
  simp [zeroPadded, hsign, newline_not_mem_decimal, List.mem_replicate]

theorem newline_not_mem_strftime (tm : Tm) : 10 ∉ tm.strftime := by
  have hspace : 10 ∉ ascii " " := by decide
  have hcolon : 10 ∉ ascii ":" := by decide
  simp [Tm.strftime, newline_not_mem_decimal, newline_not_mem_zeroPadded, hspace, hcolon]

theorem newline_not_mem_microsText (us : Int) : 10 ∉ microsText us := by
  have hdot : 10 ∉ ascii "." := by decide
  have hend : 10 ∉ ascii "Z " := by decide
  simp [microsText, newline_not_mem_zeroPadded, hdot, hend]

/-- `t_time` and `t_lastSecond`: the text of the last second, which has no newline. -/
structure TimeCache where
  t_time : List UInt8
  t_lastSecond : Int
  oneLine : 10 ∉ t_time

/-- Both are zero at the start. -/
def TimeCache.initial : TimeCache where
  t_time := []
  t_lastSecond := 0
  oneLine := List.not_mem_nil

/-- The part of `formatTime` that refreshes `t_time`; `seconds` is the time since the epoch. -/
def TimeCache.refresh (cache : TimeCache) (localtime : Int → Tm) (seconds : Int) : TimeCache :=
  if seconds ≠ cache.t_lastSecond then
    { t_time := (localtime seconds).strftime
      t_lastSecond := seconds
      oneLine := newline_not_mem_strftime _ }
  else
    cache

/-! ## The record -/

/-- `Logger::Impl`, without the time. -/
structure LogRecord where
  stream : LogStream
  level : LogLevel
  line : BitVec 32
  basename : List UInt8
  deriving DecidableEq, Repr

namespace LogRecord

/-- What stands behind the last slash of the C string `name`. -/
def formatFileName (name : List UInt8) : List UInt8 :=
  ((LogStream.strBytes name).reverse.takeWhile (· ≠ 47)).reverse

/-- `formatTime` with `t_time` up to date: `now` is the time since the epoch in microseconds. -/
def formatTime (stream : LogStream) (cache : TimeCache) (now : Int) : Except Fault LogStream := do
  let stream ← stream.insert (.cString (some cache.t_time))
  stream.insert (.cString (some (microsText (now.tmod 1000000))))

/-- `Impl(level, name, line)`. -/
def new (cache : TimeCache) (now : Int) (level : LogLevel) (name : List UInt8) (line : BitVec 32) :
    Except Fault LogRecord := do
  let stream ← formatTime LogStream.new cache now
  let basename := formatFileName name
  let stream ← stream.insert (.cString (some (ascii level.name)))
  pure { stream := stream, level := level, line := line, basename := basename }

/-- The insertions of the statement itself. -/
def insertAll (stream : LogStream) : List Insertion → Except Fault LogStream
  | [] => .ok stream
  | ins :: body => do
      let stream ← stream.insert ins
      insertAll stream body

def finish (r : LogRecord) : Except Fault LogRecord := do
  let stream ← r.stream.insert (.cString (some (ascii " - ")))
  let stream ← stream.insert (.cString (some r.basename))
  let stream ← stream.insert (.cString (some (ascii ":")))
  let stream ← stream.insert (.int r.line)
  let stream ← stream.insert (.char 10)
  pure { r with stream := stream }

/-- `~Logger`: the bytes that `g_output` gets. -/
def destroy (r : LogRecord) : Except Fault (List UInt8) := do
  let r ← r.finish
  pure r.stream.content

end LogRecord

/-- Where and when a `LOG_` statement is executed. -/
structure Site where
  cache : TimeCache
  localtime : Int → Tm
  now : Int
  level : LogLevel
  name : List UInt8
  line : BitVec 32

namespace Site

/-- What the record is formatted with. -/
def refreshed (s : Site) : TimeCache :=
  s.cache.refresh s.localtime (s.now.tdiv 1000000)

/-- A whole statement: the bytes that it passes to `g_output`. -/
def log (s : Site) (body : List Insertion) : Except Fault (List UInt8) := do
  let r ← LogRecord.new s.refreshed s.now s.level s.name s.line
  let stream ← LogRecord.insertAll r.stream body
  { r with stream := stream }.destroy

end Site

/-! ## What is kept -/

/-- A piece is appended if there is more room than it needs, and dropped otherwise. -/
def keep (content text : List UInt8) : List UInt8 :=
  if content.length + text.length < kSmallBuffer then content ++ text else content

/-- The insertions that a statement makes of strings and characters. -/
def Insertion.isText : Insertion → Bool
  | .char _ => true
  | .cString _ => true
  | .unsignedCString _ => true
  | .string _ => true
  | _ => false

namespace LogStream

variable {s : LogStream}

theorem WF.length_content (h : s.WF) : s.content.length = s.buffer.cur := by
  have hle : s.buffer.cur ≤ s.buffer.data.length := by
    rw [h.size]
    exact h.cur
  rw [content, FixedBuffer.toString, Window.length_window hle, Nat.sub_zero]

theorem append_keep (h : s.WF) (buf : List UInt8) :
    ∃ t, s.append buf = .ok t ∧ t.WF ∧ t.content = keep s.content buf := by
  have hsize := h.size
  have hcur := h.cur
  have heq := FixedBuffer.append_eq (b := s.buffer) (by omega) (by rw [hsize]; decide) buf
  rw [keep, h.length_content]
  by_cases hroom : s.buffer.cur + buf.length < kSmallBuffer
  · rw [hsize, if_pos hroom] at heq
    have hfits : s.buffer.cur + buf.length ≤ s.buffer.data.length := by omega
    refine ⟨⟨s.buffer.extended buf⟩, by simp [append, heq], ⟨?_, ?_⟩, ?_⟩
    · exact (Window.length_overwrite hfits).trans hsize
    · exact Nat.le_of_lt hroom
    · rw [if_pos hroom]
      exact FixedBuffer.toString_extended hfits
  · rw [hsize, if_neg hroom] at heq
    exact ⟨s, by simp [append, heq], h, by rw [if_neg hroom]⟩

theorem insert_keep (h : s.WF) (ins : Insertion) (hins : ins.isText = true) :
    ∃ t, s.insert ins = .ok t ∧ t.WF ∧ t.content = keep s.content ins.text := by
  cases ins with
  | char v => exact append_keep h [v]
  | cString str | unsignedCString str => cases str <;> exact append_keep h _
  | string v => exact append_keep h v
  | _ => cases hins

end LogStream

namespace LogRecord

theorem insertAll_keep {body : List Insertion} :
    ∀ {s : LogStream}, s.WF → (∀ ins ∈ body, ins.isText = true) →
      ∃ t, insertAll s body = .ok t ∧ t.WF ∧
        t.content = (body.map Insertion.text).foldl keep s.content := by
  induction body with
  | nil =>
      intro s h _
      exact ⟨s, rfl, h, rfl⟩
  | cons ins body ih =>
      intro s h hbody
      obtain ⟨s₁, hs₁, h₁, hkeep⟩ := LogStream.insert_keep h ins (hbody ins List.mem_cons_self)
      obtain ⟨t, ht, hwf, hcontent⟩ := ih h₁ fun i hi => hbody i (List.mem_cons_of_mem _ hi)
      exact ⟨t, by rw [insertAll, hs₁, ok_bind, ht], hwf, by rw [hcontent, hkeep]; rfl⟩

end LogRecord

namespace Site

variable {s : Site} {body : List Insertion}

/-- `basename_`. -/
def basename (s : Site) : List UInt8 :=
  LogRecord.formatFileName s.name

/-- The text of `line_`. -/
def lineText (s : Site) : List UInt8 :=
  decimal s.line.toInt

/-- What stands before the text of the statement. -/
def head (s : Site) : List Insertion :=
  [.cString (some s.refreshed.t_time), .cString (some (microsText (s.now.tmod 1000000))),
    .cString (some (ascii s.level.name))]

/-- The content of the buffer when the destructor begins. -/
def before (s : Site) (body : List Insertion) : List UInt8 :=
  ((s.head ++ body).map Insertion.text).foldl keep []

/-- The content when the line number is written. -/
def beforeLine (s : Site) (body : List Insertion) : List UInt8 :=
  [ascii " - ", LogStream.strBytes s.basename, ascii ":"].foldl keep (s.before body)

/-- The constructor and the insertions fill the buffer with what is kept of their texts. -/
theorem stream_keep (hbody : ∀ ins ∈ body, ins.isText = true) :
    ∃ r t, LogRecord.new s.refreshed s.now s.level s.name s.line = .ok r ∧
      r.basename = s.basename ∧ r.line = s.line ∧
      LogRecord.insertAll r.stream body = .ok t ∧ t.WF ∧ t.content = s.before body := by
  obtain ⟨s₁, hs₁, h₁, hkeep₁⟩ := LogStream.insert_keep LogStream.new_wf
    (.cString (some s.refreshed.t_time)) rfl
  obtain ⟨s₂, hs₂, h₂, hkeep₂⟩ := LogStream.insert_keep h₁
    (.cString (some (microsText (s.now.tmod 1000000)))) rfl
  obtain ⟨s₃, hs₃, h₃, hkeep₃⟩ := LogStream.insert_keep h₂
    (.cString (some (ascii s.level.name))) rfl
  obtain ⟨t, ht, hwf, hkeep⟩ := LogRecord.insertAll_keep h₃ hbody
  have hempty : LogStream.new.content = [] :=
    List.length_eq_zero_iff.mp LogStream.new_wf.length_content
  refine ⟨⟨s₃, s.level, s.line, s.basename⟩, t, ?_, rfl, rfl, ht, hwf, ?_⟩
  · rw [LogRecord.new, LogRecord.formatTime, hs₁, ok_bind, hs₂, ok_bind, hs₃, ok_bind]
    rfl
  · rw [hkeep, hkeep₃, hkeep₂, hkeep₁, hempty, before, List.map_append, List.foldl_append, head]
    simp only [List.map_cons, List.map_nil, List.foldl_cons, List.foldl_nil]

/-- What a statement outputs, without the buffer. -/
theorem log_eq (hbody : ∀ ins ∈ body, ins.isText = true) :
    s.log body =
      if (s.beforeLine body).length + s.lineText.length < kSmallBuffer then
        .ok (keep (s.beforeLine body ++ s.lineText) [10])
      else
        .error .outOfBounds := by
  obtain ⟨r, t, hnew, hbase, hline, ht, hwf, hbefore⟩ := stream_keep (s := s) hbody
  obtain ⟨s₁, hs₁, h₁, hkeep₁⟩ := LogStream.insert_keep hwf (.cString (some (ascii " - "))) rfl
  obtain ⟨s₂, hs₂, h₂, hkeep₂⟩ := LogStream.insert_keep h₁ (.cString (some s.basename)) rfl
  obtain ⟨s₃, hs₃, h₃, hkeep₃⟩ := LogStream.insert_keep h₂ (.cString (some (ascii ":"))) rfl
  have hcontent : s₃.content = s.beforeLine body := by
    rw [hkeep₃, hkeep₂, hkeep₁, hbefore]
    rfl
  have hcur := h₃.length_content
  rw [hcontent] at hcur
  have hnumber : s₃.insert (.int s.line) = s₃.formatInteger s.line.toInt :=
    LogStream.insert_integer rfl
  simp only [log, hnew, ht, ok_bind, LogRecord.destroy, LogRecord.finish, hbase, hline, hs₁, hs₂,
    hs₃, hnumber]
  by_cases hroom : (s.beforeLine body).length + s.lineText.length < kSmallBuffer
  · obtain ⟨s₄, hs₄, h₄, hdigits⟩ := LogStream.formatInteger_ok h₃ (v := s.line.toInt)
      (by rw [← hcur]; exact hroom)
    obtain ⟨s₅, hs₅, _, hkeep₅⟩ := LogStream.insert_keep h₄ (.char 10) rfl
    rw [if_pos hroom, hs₄, ok_bind, hs₅, ok_bind]
    simp only [pure_eq_ok, ok_bind, hkeep₅, hdigits, hcontent]
    rfl
  · have hfull : kSmallBuffer ≤ s₃.buffer.cur + (decimal s.line.toInt).length := by
      rw [← hcur]
      exact Nat.le_of_not_lt hroom
    rw [if_neg hroom, LogStream.formatInteger_error h₃ hfull]
    rfl

end Site

/-! ## The trailer -/

/-- ` - <basename>:<line>` and a newline. -/
def trailerOf (basename line : List UInt8) : List UInt8 :=
  ascii " - " ++ basename ++ ascii ":" ++ line ++ [10]

/-- The record is a line of its own: it ends with the trailer, and has no other newline. -/
structure Terminated (basename line out : List UInt8) : Prop where
  trailer : trailerOf basename line <:+ out
  oneNewline : out.count 10 = 1

theorem length_keep {content text : List UInt8} (h : content.length < kSmallBuffer) :
    (keep content text).length < kSmallBuffer := by
  rw [keep]
  split
  case isTrue hroom => rwa [List.length_append]
  case isFalse => exact h

theorem newline_not_mem_keep {content text : List UInt8} (hcontent : 10 ∉ content)
    (htext : 10 ∉ text) : 10 ∉ keep content text := by
  rw [keep]
  split
  case isTrue =>
    rw [List.mem_append]
    exact fun h => h.elim hcontent htext
  case isFalse => exact hcontent

theorem foldl_keep {texts : List (List UInt8)} :
    ∀ {content : List UInt8}, content.length < kSmallBuffer → 10 ∉ content →
      (∀ text ∈ texts, 10 ∉ text) →
      (texts.foldl keep content).length < kSmallBuffer ∧ 10 ∉ texts.foldl keep content := by
  induction texts with
  | nil =>
      intro content hlen hline _
      exact ⟨hlen, hline⟩
  | cons text texts ih =>
      intro content hlen hline htexts
      exact ih (length_keep hlen) (newline_not_mem_keep hline (htexts text List.mem_cons_self))
        fun t ht => htexts t (List.mem_cons_of_mem _ ht)

section Trailer

variable {content basename line : List UInt8}

/-- The content when the line number is written. -/
def filled (content basename : List UInt8) : List UInt8 :=
  [ascii " - ", basename, ascii ":"].foldl keep content

/-- The trailer has room; or it is only the basename that has none, and the text before it ends
with what would have been dropped. -/
def Fits (content basename line : List UInt8) : Prop :=
  content.length + (trailerOf basename line).length < kSmallBuffer ∨
    kSmallBuffer ≤ content.length + 3 + basename.length ∧
      content.length + 3 + 1 + line.length + 1 < kSmallBuffer ∧
      ascii " - " ++ basename <:+ content ++ ascii " - "

theorem length_trailerOf (basename line : List UInt8) :
    (trailerOf basename line).length = 3 + basename.length + 1 + line.length + 1 := by
  have hdash : (ascii " - ").length = 3 := rfl
  have hcolon : (ascii ":").length = 1 := rfl
  simp only [trailerOf, List.length_append, hdash, hcolon, List.length_singleton]

/-- Without newlines in its parts, the record is terminated exactly when the newline at the end
fits and what stands before the line number ends with the rest of the trailer. -/
theorem terminated_keep_iff {before : List UInt8} (hbefore : 10 ∉ before) (hline : 10 ∉ line) :
    Terminated basename line (keep (before ++ line) [10]) ↔
      before.length + line.length + 1 < kSmallBuffer ∧
        ascii " - " ++ basename ++ ascii ":" <:+ before := by
  have hnone : (before ++ line).count 10 = 0 := by
    rw [List.count_append, List.count_eq_zero_of_not_mem hbefore,
      List.count_eq_zero_of_not_mem hline]
  rw [keep]
  split
  case isTrue hroom =>
    have hone : (before ++ line ++ [10]).count 10 = 1 := by
      rw [List.count_append, hnone]
      rfl
    have hroom' : before.length + line.length + 1 < kSmallBuffer := by
      simpa using hroom
    have hsuffix : trailerOf basename line <:+ before ++ line ++ [10] ↔
        ascii " - " ++ basename ++ ascii ":" <:+ before := by
      rw [trailerOf, List.suffix_append_self_iff, List.suffix_append_self_iff]
    constructor
    · intro h
      exact ⟨hroom', hsuffix.mp h.trailer⟩
    · intro h
      exact ⟨hsuffix.mpr h.2, hone⟩
  case isFalse hfull =>
    refine iff_of_false ?_ ?_
    · intro h
      have hone := h.oneNewline
      omega
    · intro h
      exact hfull (by simpa using h.1)

theorem keep_of_room {text : List UInt8} (h : content.length + text.length < kSmallBuffer) :
    keep content text = content ++ text :=
  if_pos h

theorem keep_of_full {text : List UInt8} (h : ¬ content.length + text.length < kSmallBuffer) :
    keep content text = content :=
  if_neg h

theorem length_le_keep (content text : List UInt8) : content.length ≤ (keep content text).length := by
  rw [keep]
  split
  · rw [List.length_append]
    exact Nat.le_add_right _ _
  · exact Nat.le_refl _

/-- Before a line number and a newline that fit, the colon fits too. -/
theorem colon_kept {before : List UInt8} (hline : line ≠ [])
    (h : (keep before (ascii ":")).length + line.length + 1 < kSmallBuffer) :
    keep before (ascii ":") = before ++ ascii ":" ∧
      before.length + 1 + line.length + 1 < kSmallBuffer := by
  have hcolon : (ascii ":").length = 1 := rfl
  have hdigits : 0 < line.length := List.length_pos_iff.mpr hline
  have hle := length_le_keep before (ascii ":")
  have hkeep : keep before (ascii ":") = before ++ ascii ":" := keep_of_room (by omega)
  rw [hkeep, List.length_append, hcolon] at h
  exact ⟨hkeep, h⟩

theorem filled_eq (content basename : List UInt8) :
    filled content basename = keep (keep (keep content (ascii " - ")) basename) (ascii ":") :=
  rfl

/-- With room for all three pieces, the colon comes last of them. -/
theorem filled_of_room (h : content.length + 3 + basename.length + 1 < kSmallBuffer) :
    filled content basename = content ++ ascii " - " ++ basename ++ ascii ":" := by
  have hdash : (ascii " - ").length = 3 := rfl
  have hcolon : (ascii ":").length = 1 := rfl
  have hlen₁ : (content ++ ascii " - ").length = content.length + 3 := by
    rw [List.length_append, hdash]
  have hlen₂ : (content ++ ascii " - " ++ basename).length =
      content.length + 3 + basename.length := by
    rw [List.length_append, hlen₁]
  rw [filled_eq, keep_of_room (show content.length + (ascii " - ").length < _ by omega),
    keep_of_room (show _ + basename.length < _ by omega), keep_of_room (by omega)]

/-- Of the three pieces before the line number only the basename can be dropped without loss of
the newline at the end. -/
theorem filled_iff_fits (hline : line ≠ []) :
    ((filled content basename).length + line.length + 1 < kSmallBuffer ∧
        ascii " - " ++ basename ++ ascii ":" <:+ filled content basename) ↔
      Fits content basename line := by
  have hdash : (ascii " - ").length = 3 := rfl
  have hcolon : (ascii ":").length = 1 := rfl
  have htrailer := length_trailerOf basename line
  have hlen₁ : (content ++ ascii " - ").length = content.length + 3 := by
    rw [List.length_append, hdash]
  constructor
  · rintro ⟨hroom, hsuffix⟩
    rw [filled_eq] at hroom hsuffix
    rcases colon_kept hline hroom with ⟨hthird, hroom⟩
    rw [hthird, List.suffix_append_self_iff] at hsuffix
    have hle₁ := length_le_keep content (ascii " - ")
    have hle₂ := length_le_keep (keep content (ascii " - ")) basename
    have hdigits : 0 < line.length := List.length_pos_iff.mpr hline
    -- Three bytes are needed behind the dash, so it was kept.
    have hfirst : keep content (ascii " - ") = content ++ ascii " - " := keep_of_room (by omega)
    rw [hfirst] at hroom hsuffix hle₂
    by_cases hroom₂ : (content ++ ascii " - ").length + basename.length < kSmallBuffer
    · rw [keep_of_room hroom₂, List.length_append] at hroom
      exact Or.inl (by omega)
    · -- Without the basename the text itself must end with it.
      rw [keep_of_full hroom₂] at hroom hsuffix
      exact Or.inr ⟨by omega, by omega, hsuffix⟩
  · rintro (hroom | ⟨hmissing, hroom, hsuffix⟩)
    · have hlen₃ : (content ++ ascii " - " ++ basename ++ ascii ":").length =
          content.length + 3 + basename.length + 1 := by
        rw [List.length_append, List.length_append, hlen₁, hcolon]
      rw [filled_of_room (by omega), hlen₃]
      refine ⟨by omega, content, ?_⟩
      simp only [List.append_assoc]
    · have hfirst : keep content (ascii " - ") = content ++ ascii " - " := keep_of_room (by omega)
      have hsecond : keep (content ++ ascii " - ") basename = content ++ ascii " - " :=
        keep_of_full (by omega)
      rw [filled_eq, hfirst, hsecond, keep_of_room (by omega), List.length_append, hlen₁, hcolon,
        List.suffix_append_self_iff]
      exact ⟨hroom, hsuffix⟩

end Trailer

/-! ## The whole statement -/

theorem mem_strBytes {str : List UInt8} {c : UInt8} (h : c ∈ LogStream.strBytes str) :
    c ≠ 0 ∧ c ∈ str :=
  ⟨by simpa using List.mem_takeWhile_imp h, (List.takeWhile_sublist _).subset h⟩

theorem newline_not_mem_strBytes {str : List UInt8} (h : 10 ∉ str) : 10 ∉ LogStream.strBytes str :=
  fun hmem => h (mem_strBytes hmem).2

theorem newline_not_mem_levelName (level : LogLevel) : 10 ∉ ascii level.name := by
  cases level <;> decide

theorem TimeCache.refresh_oneLine (cache : TimeCache) (localtime : Int → Tm) (seconds : Int) :
    10 ∉ (cache.refresh localtime seconds).t_time :=
  (cache.refresh localtime seconds).oneLine

namespace Site

/-- A C string does not change when it is read as one again. -/
theorem strBytes_basename (s : Site) : LogStream.strBytes s.basename = s.basename := by
  -- It is a part of `name` up to its NUL.
  refine List.takeWhile_eq_self_iff.mpr fun c hc => ?_
  have hmem : c ∈ LogStream.strBytes s.name :=
    List.mem_reverse.mp ((List.takeWhile_sublist _).subset (List.mem_reverse.mp hc))
  simpa using (mem_strBytes hmem).1

theorem beforeLine_eq_filled (s : Site) (body : List Insertion) :
    s.beforeLine body = filled (s.before body) s.basename := by
  rw [beforeLine, strBytes_basename]
  rfl

theorem newline_not_mem_head (s : Site) : ∀ ins ∈ s.head, 10 ∉ ins.text := by
  intro ins hins
  simp only [head, List.mem_cons, List.not_mem_nil, or_false] at hins
  rcases hins with rfl | rfl | rfl
  · exact newline_not_mem_strBytes (TimeCache.refresh_oneLine _ _ _)
  · exact newline_not_mem_strBytes (newline_not_mem_microsText _)
  · exact newline_not_mem_strBytes (newline_not_mem_levelName _)

theorem newline_not_mem_before {s : Site} {body : List Insertion}
    (hbody : ∀ ins ∈ body, 10 ∉ ins.text) : 10 ∉ s.before body := by
  refine (foldl_keep (by decide) List.not_mem_nil ?_).2
  intro text htext
  obtain ⟨ins, hins, rfl⟩ := List.mem_map.mp htext
  rcases List.mem_append.mp hins with hhead | hins
  · exact s.newline_not_mem_head ins hhead
  · exact hbody ins hins

theorem lineText_ne_nil (s : Site) : s.lineText ≠ [] := by
  rw [lineText, decimal_eq]
  intro hnil
  have hdigits := (List.append_eq_nil_iff.mp hnil).2
  rw [List.map_eq_nil_iff, List.reverse_eq_nil_iff] at hdigits
  exact Numeral.digits_ne_nil _ _ hdigits

/-- The basename has no newline, and the trailer arrives. -/
def Meets (s : Site) (body : List Insertion) : Prop :=
  10 ∉ s.basename ∧ Fits (s.before body) s.basename s.lineText

/-- The two newlines of a trailer whose basename has one are too many. -/
theorem not_terminated_of_newline {basename line out : List UInt8} (h : 10 ∈ basename) :
    ¬ Terminated basename line out := by
  intro hterm
  have hle := hterm.trailer.sublist.count_le 10
  have hpos : 0 < basename.count 10 := List.count_pos_iff.mpr h
  have hlast : [10].count (10 : UInt8) = 1 := rfl
  rw [hterm.oneNewline] at hle
  simp only [trailerOf, List.count_append, hlast] at hle
  omega

theorem terminated_iff_meets {s : Site} {body : List Insertion}
    (hbody : ∀ ins ∈ body, ins.isText = true ∧ 10 ∉ ins.text) :
    (∃ out, s.log body = .ok out ∧ Terminated s.basename s.lineText out) ↔ s.Meets body := by
  -- A newline in the basename spoils the record, whatever fits.
  by_cases hbase : 10 ∈ s.basename
  case pos =>
      refine iff_of_false ?_ fun h => h.1 hbase
      rintro ⟨out, _, hterm⟩
      exact not_terminated_of_newline hbase hterm
  case neg =>
      have hcolon : 10 ∉ ascii ":" := by decide
      have hdash : 10 ∉ ascii " - " := by decide
      have hbefore : 10 ∉ s.before body := newline_not_mem_before fun ins hins => (hbody ins hins).2
      have hfilled : 10 ∉ filled (s.before body) s.basename :=
        newline_not_mem_keep (newline_not_mem_keep (newline_not_mem_keep hbefore hdash) hbase) hcolon
      have hline : 10 ∉ s.lineText := newline_not_mem_decimal _
      rw [Meets, ← filled_iff_fits s.lineText_ne_nil, ← terminated_keep_iff hfilled hline,
        log_eq fun ins hins => (hbody ins hins).1, beforeLine_eq_filled]
      -- Without room for the line number there is no record to speak of.
      by_cases hroom : (filled (s.before body) s.basename).length + s.lineText.length < kSmallBuffer
      · rw [if_pos hroom]
        constructor
        · rintro ⟨out, hout, hterm⟩
          cases hout
          exact ⟨hbase, hterm⟩
        · rintro ⟨_, hterm⟩
          exact ⟨_, rfl, hterm⟩
      · rw [if_neg hroom]
        constructor
        · rintro ⟨out, hout, _⟩
          cases hout
        · rintro ⟨_, hterm⟩
          have hroom' := ((terminated_keep_iff hfilled hline).mp hterm).1
          omega

/-- Line 42 of `src/a.cc`, at noon. -/
def noon : Site where
  cache := TimeCache.initial
  localtime := fun _ => ⟨2024, 5, 7, 12, 0, 0⟩
  now := 1715083200000000
  level := .INFO
  name := ascii "src/a.cc"
  line := 42

theorem terminated_iff_meets_noon :
    (∃ out, noon.log [.string (ascii "hello"), .char 33] = .ok out ∧
        Terminated noon.basename noon.lineText out) ↔
      noon.Meets [.string (ascii "hello"), .char 33] :=
  terminated_iff_meets (by decide)

theorem head_noon :
    (noon.head.map Insertion.text).foldl keep [] = ascii "20240507 12:00:00.000000Z INFO  " := by
  decide

/-- Behind a text of this length there is room for the line number, and not for the newline. -/
theorem log_noon {text : List UInt8} (h : text.length = 3957) :
    noon.log [.string text] =
      .ok (ascii "20240507 12:00:00.000000Z INFO  " ++ text ++ ascii " - " ++ ascii "a.cc" ++
        ascii ":" ++ ascii "42") := by
  have hhead : (ascii "20240507 12:00:00.000000Z INFO  ").length = 32 := rfl
  have hdash : (ascii " - ").length = 3 := rfl
  have hbase : (ascii "a.cc").length = 4 := rfl
  have hcolon : (ascii ":").length = 1 := rfl
  have hnumber : (ascii "42").length = 2 := rfl
  have hsize : kSmallBuffer = 4000 := rfl
  have hbasename : noon.basename = ascii "a.cc" := by decide
  have hline : noon.lineText = ascii "42" := by decide
  have hbefore : noon.before [.string text] = ascii "20240507 12:00:00.000000Z INFO  " ++ text := by
    rw [before, List.map_append, List.foldl_append, head_noon]
    exact keep_of_room (show _ + text.length < _ by omega)
  have hbeforeLine : noon.beforeLine [.string text] =
      ascii "20240507 12:00:00.000000Z INFO  " ++ text ++ ascii " - " ++ ascii "a.cc" ++
        ascii ":" := by
    rw [beforeLine_eq_filled, hbefore, hbasename]
    exact filled_of_room (by rw [List.length_append]; omega)
  have hlen := congrArg List.length hbeforeLine
  simp only [List.length_append] at hlen
  rw [log_eq (by simp [Insertion.isText]), hline, if_pos (by omega), keep_of_full, hbeforeLine]
  rw [List.length_append, List.length_singleton]
  omega

theorem last_newline_dropped :
    (∀ ins ∈ [Insertion.string (List.replicate 3957 120)],
        ins.isText = true ∧ 10 ∉ ins.text) ∧
      ¬ ∃ out, noon.log [.string (List.replicate 3957 120)] = .ok out ∧
        Terminated noon.basename noon.lineText out := by
  have htext : (10 : UInt8) ∉ List.replicate 3957 (120 : UInt8) :=
    fun h => absurd (List.eq_of_mem_replicate h) (by decide)
  constructor
  · intro ins hins
    rw [List.mem_singleton.mp hins]
    exact ⟨rfl, htext⟩
  · rintro ⟨out, hout, hterm⟩
    rw [log_noon List.length_replicate] at hout
    have hpieces : ∀ text ∈ ["20240507 12:00:00.000000Z INFO  ", " - ", "a.cc", ":", "42"],
        10 ∉ ascii text := by
      decide
    have hnone : 10 ∉ out := by
      rw [← Except.ok.inj hout]
      simp only [List.mem_append, htext, hpieces, List.mem_cons, true_or, or_true, or_false,
        not_false_eq_true]
    have hone := hterm.oneNewline
    rw [List.count_eq_zero_of_not_mem hnone] at hone
    cases hone

end Site

end Muduo
