import LintSarif.Log.Level

/-!
# The command line

The words after the program's name are read from left to right. They name an input and an output
path and may hold flags anywhere between them, each as a long word, as a letter, or as one of
several letters after a single dash. After the word `--` every word is a path, and a single dash
is a path too.

An empty path is not refused where it stands. It is noticed when the next flag or path is taken,
or at the end, so that a word which is refused on sight comes first.
-/

namespace LintSarif.CommandLine

/-- What accepted words ask for. -/
structure Options where
  input : String
  output : String
  /-- How often more reports were asked for, at most 255. -/
  verbose : Nat
  /-- No reports but errors are wanted. -/
  quiet : Bool
  deriving DecidableEq, Repr

/-- `o.logLevel` is the level at which the log is kept. -/
def Options.logLevel (o : Options) : Log.Level :=
  if o.quiet then .error
  else
    match o.verbose with
    | 0 => .warn
    | 1 => .info
    | 2 => .debug
    | _ => .trace

/-- Why words are refused. -/
inductive UsageError where
  /-- There is no such flag, or there are more than two paths. -/
  | unknownArgument
  /-- A flag has a value attached with an equals sign. -/
  | unexpectedValue
  /-- A path is empty. -/
  | emptyPath
  /-- The quiet flag is repeated or stands beside the verbose flag. -/
  | conflictingFlags
  /-- There are fewer than two paths. -/
  | missingPath
  deriving DecidableEq, Repr

/-- `e.message` says what is wrong with the words. It is a stand-in for the text that the program
prints, which is worded by its command-line library and goes on with a hint and the usage line. -/
def UsageError.message : UsageError → String
  | .unknownArgument => "unknown argument"
  | .unexpectedValue => "a flag takes no value"
  | .emptyPath => "a path is empty"
  | .conflictingFlags => "--quiet is repeated or stands beside --verbose"
  | .missingPath => "the input and the output path are required"

/-- Why the reading of words ends without options. -/
inductive Ending where
  /-- The help text is asked for. -/
  | help
  /-- The version is asked for. -/
  | version
  /-- The words are not accepted. -/
  | refused (error : UsageError)
  deriving DecidableEq, Repr

/-- A flag. -/
inductive Flag where
  | verbose
  | quiet
  | help
  | version
  deriving DecidableEq, Repr

namespace Flag

/-- Every flag. -/
def all : List Flag := [.verbose, .quiet, .help, .version]

/-- `name f` is the long name of `f`, without its dashes. -/
def name : Flag → String
  | .verbose => "verbose"
  | .quiet => "quiet"
  | .help => "help"
  | .version => "version"

/-- `letter f` is the letter of `f`. -/
def letter : Flag → Char
  | .verbose => 'v'
  | .quiet => 'q'
  | .help => 'h'
  | .version => 'V'

/-- `ofName? name` is the flag with this long name. A shortened name is none. -/
def ofName? (name : List Char) : Option Flag :=
  all.find? fun f => f.name.toList == name

/-- `ofLetter? c` is the flag with this letter. -/
def ofLetter? (c : Char) : Option Flag :=
  all.find? fun f => f.letter == c

end Flag

/-- What a word in front of `--` is by its form. -/
inductive Word where
  /-- The word `--`. -/
  | separator
  /-- Two dashes and a name, perhaps with a value after an equals sign. -/
  | long (name : List Char) (hasValue : Bool)
  /-- One dash and letters. -/
  | cluster (letters : List Char)
  /-- Any other word. -/
  | path
  deriving DecidableEq, Repr

/-- `Word.ofString word` is the form of `word`. -/
def Word.ofString (word : String) : Word :=
  match word.toList with
  | ['-', '-'] => .separator
  | '-' :: '-' :: cs => .long (cs.takeWhile (· ≠ '=')) (cs.contains '=')
  | '-' :: c :: cs => .cluster (c :: cs)
  | _ => .path

/-- What was gathered from the words read so far. -/
structure Reading where
  /-- The paths in their order. -/
  paths : List String
  /-- How often the verbose flag was met. -/
  verbose : Nat
  /-- The quiet flag was met. -/
  quiet : Bool
  deriving DecidableEq, Repr

namespace Reading

/-- The reading of no words. -/
def start : Reading := ⟨[], 0, false⟩

/-- `checkPaths r` refuses an empty path among those read. -/
def checkPaths (r : Reading) : Except Ending Unit :=
  if "" ∈ r.paths then .error (.refused .emptyPath) else .ok ()

/-- `takePath r word` reads `word` as a path. -/
def takePath (r : Reading) (word : String) : Except Ending Reading :=
  if r.paths.length = 2 then .error (.refused .unknownArgument)
  else do
    r.checkPaths
    return { r with paths := r.paths ++ [word] }

/-- `takeFlag r f` reads the flag `f`. -/
def takeFlag (r : Reading) (f : Flag) : Except Ending Reading := do
  r.checkPaths
  match f with
  | .verbose => return { r with verbose := r.verbose + 1 }
  | .quiet =>
    if r.quiet then throw (.refused .conflictingFlags)
    else return { r with quiet := true }
  | .help => throw .help
  | .version => throw .version

/-- `takeLetters r letters` reads a cluster of letters one by one. -/
def takeLetters (r : Reading) : List Char → Except Ending Reading
  | [] => .ok r
  | c :: cs =>
    match Flag.ofLetter? c with
    | none => .error (.refused .unknownArgument)
    | some f => do (← r.takeFlag f).takeLetters cs

/-- `takeLong r name hasValue` reads a long flag. -/
def takeLong (r : Reading) (name : List Char) (hasValue : Bool) : Except Ending Reading :=
  match Flag.ofName? name with
  | none => .error (.refused .unknownArgument)
  | some f => if hasValue then .error (.refused .unexpectedValue) else r.takeFlag f

/-- `takeWords r words` reads the words in turn. -/
def takeWords (r : Reading) : List String → Except Ending Reading
  | [] => .ok r
  | word :: words =>
    match Word.ofString word with
    | .separator => words.foldlM takePath r
    | .long name hasValue => do (← r.takeLong name hasValue).takeWords words
    | .cluster letters => do (← r.takeLetters letters).takeWords words
    | .path => do (← r.takePath word).takeWords words

/-- `options r` are the options of a finished reading. -/
def options (r : Reading) : Except Ending Options := do
  r.checkPaths
  if r.quiet && r.verbose != 0 then throw (.refused .conflictingFlags)
  match r.paths with
  | [input, output] => return ⟨input, output, min r.verbose 255, r.quiet⟩
  | _ => throw (.refused .missingPath)

end Reading

/-- `parse words` are the options that the words ask for. -/
def parse (words : List String) : Except Ending Options := do
  (← Reading.start.takeWords words).options

/-- The lines of the help text. -/
def helpLines : List String := [
  "Convert clang-tidy diagnostic output into SARIF 2.1.0 JSON",
  "",
  "Usage: tidy-sarif [OPTIONS] <INPUT> <OUTPUT>",
  "",
  "Arguments:",
  "  <INPUT>   clang-tidy output to convert",
  "  <OUTPUT>  Destination of the SARIF document (created or overwritten)",
  "",
  "Options:",
  "  -v, --verbose...  Increase verbosity (-v for info, -vv for debug, -vvv for trace)",
  "  -q, --quiet       Suppress all output except errors",
  "  -h, --help        Print help",
  "  -V, --version     Print version"]

/-- The help text, which ends with a line feed. -/
def helpText : String := String.join (helpLines.map fun line => line ++ "\n")

/-- The version text. -/
def versionText : String := "tidy-sarif 0.1.0\n"

example : parse ["-v", "in", "--verbose", "-"] = .ok ⟨"in", "-", 2, false⟩ := by cbv

example : parse ["", "--quiet", "--nothing"] = .error (.refused .emptyPath) := by cbv

example : parse ["", "--nothing"] = .error (.refused .unknownArgument) := by cbv

end LintSarif.CommandLine
