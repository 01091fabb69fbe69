import LintSarif.Diagnostic.Scan
import LintSarif.Log.Level
import LintSarif.Text.Numeral

/-!
# Log events

What a conversion reports while it runs. Every event has a level, a message and named fields in a
fixed order, and `Event.text` writes them on one line. `Scan.events` are the events of a scan.
-/

namespace LintSarif.Log

/-- One report of a conversion. -/
inductive Event where
  /-- A line was read as a diagnostic. -/
  | parsed (diagnostic : Diagnostic)
  /-- A text was scanned to its end, with so many diagnostics and so many lines skipped. -/
  | scanned (found skipped : Nat)
  /-- A rule was met for the first time. -/
  | newRule (rule : String)
  /-- A document was built, with so many results and so many rules. -/
  | built (results rules : Nat)
  /-- A document was written to a file. -/
  | wrote (results : Nat) (output : String)
  deriving DecidableEq, Repr

/-- The value of a field of an event. -/
inductive Value where
  | text (value : String)
  | number (value : Int)
  deriving DecidableEq, Repr

/-- `v.toText` is the value `v` as it stands in a log line. -/
def Value.toText : Value → String
  | .text value => value
  | .number value => String.ofList (Text.Numeral.ofInt value)

namespace Event

/-- `level e` is the level at which `e` is reported. -/
def level : Event → Level
  | .parsed _ => .trace
  | .scanned _ _ => .debug
  | .newRule _ => .debug
  | .built _ _ => .info
  | .wrote _ _ => .info

/-- `message e` says what happened. -/
def message : Event → String
  | .parsed _ => "parsed diagnostic"
  | .scanned _ _ => "diagnostic lines scanned"
  | .newRule _ => "new rule"
  | .built _ _ => "built sarif run"
  | .wrote _ _ => "wrote sarif"

/-- `fields e` are the particulars of `e`. -/
def fields : Event → List (String × Value)
  | .parsed d =>
    [("file", .text d.file), ("line", .number d.line), ("column", .number d.column),
      ("severity", .text d.severity.token), ("rule", .text d.rule)]
  | .scanned found skipped => [("parsed", .number found), ("skipped", .number skipped)]
  | .newRule rule => [("rule", .text rule)]
  | .built results rules => [("results", .number results), ("rules", .number rules)]
  | .wrote results output => [("results", .number results), ("output", .text output)]

/-- `text e` is the log line of `e`. It is a stand-in for the line that the program prints, which
has a time stamp in front and pads the name of the level. -/
def text (e : Event) : String :=
  " ".intercalate
    (e.level.label :: e.message :: e.fields.map fun (name, value) => name ++ "=" ++ value.toText)

/-- `shown threshold events` are the events that a log kept at `threshold` shows, in order. -/
def shown (threshold : Level) (events : List Event) : List Event :=
  events.filter fun e => e.level ≤ threshold

end Event

end LintSarif.Log

namespace LintSarif

/-- The events of a scan: one for each diagnostic, and one for the whole. -/
def Scan.events (scan : Scan) : List Log.Event :=
  scan.diagnostics.map .parsed ++ [.scanned scan.diagnostics.length scan.skipped]

end LintSarif
