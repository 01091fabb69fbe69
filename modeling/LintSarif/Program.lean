import LintSarif.CommandLine
import LintSarif.Conversion
import LintSarif.Text.Lines

/-!
# The program

A run reads its words and then converts, or prints the help text or the version. The document is
its only product besides the log, so nothing goes to standard output in a run that converts.
-/

namespace LintSarif

/-- How a run ends. -/
inductive ExitStatus where
  | success
  /-- The words were not accepted. -/
  | usageError
  /-- The conversion failed. -/
  | failure
  deriving DecidableEq, Repr

/-- `s.code` is the number of the exit status `s`. -/
def ExitStatus.code : ExitStatus → Nat
  | .success => 0
  | .usageError => 2
  | .failure => 3

/-- What a run leaves behind besides its output file. -/
structure Report where
  status : ExitStatus
  /-- The text on standard output. -/
  output : String
  /-- The events that the log shows. -/
  log : List Log.Event
  /-- Why the run did not succeed. -/
  complaint : Option String
  deriving DecidableEq, Repr

/-- `r.errorText` is the text on standard error: each event of the log and after them the complaint,
each followed by a line feed. -/
def Report.errorText (r : Report) : String :=
  String.join ((r.log.map Log.Event.text ++
    (r.complaint.map fun complaint => "error: " ++ complaint).toList).map fun entry =>
      entry ++ "\n")

/-- `r.errorLines` are the lines on standard error. An entry that holds line feeds, as a path may,
takes several lines. -/
def Report.errorLines (r : Report) : List String :=
  (Text.lines r.errorText.toList).map String.ofList

namespace Program

/-- `refuse ending` is the report of a run whose words ask for no conversion. -/
def refuse : CommandLine.Ending → Report
  | .help => ⟨.success, CommandLine.helpText, [], none⟩
  | .version => ⟨.success, CommandLine.versionText, [], none⟩
  | .refused error => ⟨.usageError, "", [], some error.message⟩

/-- `report options conversion` is the report of a run that converted. A conversion that succeeded
is reported once more at the end. -/
def report (options : CommandLine.Options) (conversion : Conversion) : Report :=
  match conversion.result with
  | .ok count =>
    let events := conversion.events ++ [.wrote count options.output]
    ⟨.success, "", Log.Event.shown options.logLevel events, none⟩
  | .error e =>
    ⟨.failure, "", Log.Event.shown options.logLevel conversion.events, some e.message⟩

/-- `run words` is a run of the program with the words after its name. -/
def run {m : Type → Type} [Monad m] [Host m] (words : List String) : m Report := do
  match CommandLine.parse words with
  | .error ending => return refuse ending
  | .ok options => return report options (← convert options.input options.output)

end Program

end LintSarif
