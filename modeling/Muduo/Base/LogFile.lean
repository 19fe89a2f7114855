import Mathlib.Algebra.Group.Nat.Defs
import Mathlib.Logic.Function.Basic
import Muduo.Base.Fault

/-!
# LogFile — the rolling log file of `muduo/base/LogFile.cc`

`LogFile` holds the members of the class and, as `streams`, the stdio streams it has open with
the bytes written to each of them since its `fopen`.  Using `fp_` when it is not an open stream
is a fault.

The outside world enters through parameters: what every call of `fwrite_unlocked` returns, the
seconds that `system_clock` shows at each reading, and the pointer `fopen` returns.  The write
loop of `append` need not end, so it takes fuel.  `written` and `remain` are `size_t`s.
-/

namespace Muduo

/-- What one `fwrite_unlocked(logline, 1, len, fp_)` returns and the `ferror(fp_)` after it. -/
structure WriteResult where
  n : Nat
  err : Bool
  deriving DecidableEq, Repr

/-! ## The write loop of `append` -/

/-- The loop of `append` between two calls: the number of calls so far, `written`, and the bytes
that the calls put into the file. -/
structure WriteLoop where
  calls : Nat
  written : Nat
  added : List UInt8
  deriving DecidableEq, Repr

namespace WriteLoop

def start : WriteLoop where
  calls := 0
  written := 0
  added := []

/-- One iteration, and whether the loop goes on. -/
def iteration (logline : List UInt8) (fwrite : Nat → WriteResult) (s : WriteLoop) :
    WriteLoop × Bool :=
  let len := logline.length
  let remain := (len + 2 ^ 64 - s.written) % 2 ^ 64
  -- The call always gets the whole line, from its first byte on.
  let r := fwrite s.calls
  let s' := { s with calls := s.calls + 1, added := s.added ++ logline.take r.n }
  if r.n ≠ remain ∧ r.err = true then
    (s', false)
  else
    ({ s' with written := (s.written + r.n) % 2 ^ 64 }, true)

def loop (logline : List UInt8) (fwrite : Nat → WriteResult) :
    Nat → WriteLoop → Option WriteLoop
  | 0, _ => none
  | fuel + 1, s =>
      if s.written = logline.length then
        some s
      else
        match iteration logline fwrite s with
        | (s', true) => loop logline fwrite fuel s'
        | (s', false) => some s'

end WriteLoop

/-! ## The class -/

structure LogFile where
  rollSize : Int
  writtenBytes : Int
  flushInterval : Int
  checkEveryN : Int
  count : Int
  startOfPeriod : Int
  lastRoll : Int
  lastFlush : Int
  /-- `fp_`, a `FILE *`; `0` is the null pointer. -/
  fp : Addr
  streams : Addr → Option (List UInt8)

namespace LogFile

def kRollPerSeconds : Int := 60 * 60 * 24

/-- `t / kRollPerSeconds_ * kRollPerSeconds_`, with the division of C++. -/
def period (t : Int) : Int :=
  t.tdiv kRollPerSeconds * kRollPerSeconds

/-- `fclose(fp_)`. -/
def fclose (f : LogFile) : Except Fault LogFile :=
  match f.streams f.fp with
  | some _ => .ok { f with streams := Function.update f.streams f.fp none }
  | none => .error .useAfterFree

/-- `if (fp_) fclose(fp_)`. -/
def fcloseOld (f : LogFile) : Except Fault LogFile :=
  if f.fp ≠ 0 then f.fclose else .ok f

/-- `fp_ = fopen(...)` and `setbuffer(fp_, ...)`, which must not get a null pointer; `opened` is
the stream that `fopen` returns. -/
def fopen (f : LogFile) (opened : Addr) : Except Fault LogFile := do
  let f := { f with fp := opened }
  if opened = 0 then
    .error .useAfterFree
  else
    pure { f with streams := Function.update f.streams opened (some []) }

/-- `rollFile()` with the clock reading of `getLogFileName`; the result says whether a new file
was opened. -/
def rollFile (f : LogFile) (now : Int) (opened : Addr) : Except Fault (LogFile × Bool) := do
  let start := period now
  if f.lastRoll < now then
    let f := { f with lastRoll := now, lastFlush := now, startOfPeriod := start }
    let f ← f.fcloseOld
    let f ← f.fopen opened
    pure (f, true)
  else
    pure (f, false)

/-- The constructor; `garbage` is what the memory of `fp_` holds, which no initialiser sets. -/
def new (rollSize flushInterval checkEveryN : Int) (garbage : Addr) (now : Int) (opened : Addr) :
    Except Fault LogFile := do
  let f : LogFile :=
    { rollSize := rollSize, writtenBytes := 0, flushInterval := flushInterval,
      checkEveryN := checkEveryN, count := 0, startOfPeriod := 0, lastRoll := 0, lastFlush := 0,
      fp := garbage, streams := fun _ => none }
  let (f, _) ← f.rollFile now opened
  pure f

def flush (f : LogFile) : Except Fault LogFile :=
  match f.streams f.fp with
  | some _ => .ok f
  | none => .error .useAfterFree

/-- The clock readings of one `append`: its own, if it makes one, and that of the `rollFile` it
may call. -/
structure Readings where
  check : Int
  roll : Int
  deriving DecidableEq, Repr

/-- The write loop has run: its bytes are in the file and `writtenBytes_ += written`. -/
def wrote (f : LogFile) (s : WriteLoop) : Except Fault LogFile :=
  let f := { f with writtenBytes := f.writtenBytes + s.written }
  if s.calls = 0 then
    .ok f
  else
    match f.streams f.fp with
    | some bytes =>
        .ok { f with streams := Function.update f.streams f.fp (some (bytes ++ s.added)) }
    | none => .error .useAfterFree

/-- The roll decision of `append`. -/
def rollCheck (f : LogFile) (now : Readings) (opened : Addr) : Except Fault LogFile := do
  if f.rollSize < f.writtenBytes then
    let f := { f with writtenBytes := 0 }
    let (f, _) ← f.rollFile now.roll opened
    pure f
  else
    let f := { f with count := f.count + 1 }
    if f.checkEveryN ≤ f.count then
      let f := { f with count := 0 }
      let thisPeriod := period now.check
      if thisPeriod ≠ f.startOfPeriod then
        let (f, _) ← f.rollFile now.roll opened
        pure f
      else if f.flushInterval < now.check - f.lastFlush then
        let f := { f with lastFlush := now.check }
        f.flush
      else
        pure f
    else
      pure f

/-- `append(logline, len)`; `none` when the write loop has not ended within `fuel` iterations. -/
def append (f : LogFile) (logline : List UInt8) (fwrite : Nat → WriteResult) (fuel : Nat)
    (now : Readings) (opened : Addr) : Option (Except Fault LogFile) :=
  (WriteLoop.loop logline fwrite fuel WriteLoop.start).map fun s => do
    let f ← f.wrote s
    f.rollCheck now opened

end LogFile

end Muduo
