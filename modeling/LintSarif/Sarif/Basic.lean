import LintSarif.Diagnostic.Basic
import LintSarif.Path

/-!
# SARIF documents

The part of the Static Analysis Results Interchange Format, version 2.1.0, that describes the
findings of one run of one tool: the rules that were violated and the results. Positions are
counted from one here.
-/

namespace LintSarif.Sarif

/-- The level of a result or the default level of a rule. -/
inductive Level where
  | warning
  | error
  deriving DecidableEq, Repr

/-- `name l` is the level as a document spells it. -/
def Level.name : Level → String
  | .warning => "warning"
  | .error => "error"

/-- `Level.ofSeverity s` is the level of a result for a diagnostic of severity `s`. Errors stay
errors; notes count as warnings. -/
def Level.ofSeverity : Severity → Level
  | .error => .error
  | .warning => .warning
  | .note => .warning

/-- What a document says about a rule. -/
structure Rule where
  id : String
  name : String
  shortDescription : String
  fullDescription : String
  help : String
  defaultLevel : Level
  deriving DecidableEq, Repr

/-- `Rule.describe id` is the description of the rule `id`, which is made from its name alone. -/
def Rule.describe (id : String) : Rule where
  id := id
  name := id
  shortDescription := id
  fullDescription := "Diagnostic emitted by clang-tidy rule " ++ id
  help := "See clang-tidy docs."
  defaultLevel := .warning

/-- A place in a file. -/
structure Location where
  uri : String
  startLine : Int
  startColumn : Int
  deriving DecidableEq, Repr

/-- One finding, with the identifier of the rule that it violates. -/
structure Result where
  ruleId : String
  level : Level
  message : String
  locations : List Location
  deriving DecidableEq, Repr

/-- `Result.ofDiagnostic base d` is the finding that `d` states. Its file is looked up from the
directory `base`. -/
def Result.ofDiagnostic (base : String) (d : Diagnostic) : Result where
  ruleId := d.rule
  level := Level.ofSeverity d.severity
  message := d.message
  locations := [⟨Path.absolutize d.file base, d.line + 1, d.column + 1⟩]

/-- The rules and the results of one run. -/
structure Document where
  rules : List Rule
  results : List Result
  deriving DecidableEq, Repr

end LintSarif.Sarif
