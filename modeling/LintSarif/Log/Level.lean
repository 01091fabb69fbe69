/-!
# Log levels

The five levels of a log, from the most to the least urgent. A log that is kept at one level shows
the events of that level and of the more urgent ones.
-/

namespace LintSarif.Log

/-- How urgent an event is, or how much of a log is shown. -/
inductive Level where
  | error
  | warn
  | info
  | debug
  | trace
  deriving DecidableEq, Repr

namespace Level

/-- `verbosity l` counts the levels that are more urgent than `l`. -/
def verbosity : Level → Nat
  | .error => 0
  | .warn => 1
  | .info => 2
  | .debug => 3
  | .trace => 4

instance : LE Level := ⟨fun a b => a.verbosity ≤ b.verbosity⟩

instance (a b : Level) : Decidable (a ≤ b) :=
  inferInstanceAs (Decidable (a.verbosity ≤ b.verbosity))

/-- `name l` is the name by which `l` is chosen. -/
def name : Level → String
  | .error => "error"
  | .warn => "warn"
  | .info => "info"
  | .debug => "debug"
  | .trace => "trace"

/-- `label l` stands at the head of a log line of level `l`. -/
def label : Level → String
  | .error => "ERROR"
  | .warn => "WARN"
  | .info => "INFO"
  | .debug => "DEBUG"
  | .trace => "TRACE"

end Level

end LintSarif.Log
