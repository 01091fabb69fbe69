import LintSarif.CommandLine
import Mathlib.Algebra.GroupWithZero.Nat

/-!
# The grammar of the command line

Which words are accepted and what they ask for, said of all words at once. Flags are only counted
and paths only listed, so it does not matter where a flag stands or with which other flags it shares
a word.
-/

namespace LintSarif.CommandLine

/-- `leading words` are the words in front of the first `--`. -/
def leading (words : List String) : List String :=
  words.takeWhile fun word => word != "--"

/-- `trailing words` are the words behind the first `--`. -/
def trailing (words : List String) : List String :=
  (words.dropWhile fun word => word != "--").tail

/-- `isPath word` holds when `word` is a path although it stands in front of `--`: it is a single
dash, or it does not start with one. -/
def isPath (word : String) : Bool :=
  word == "-" || word.toList.head? != some '-'

/-- `IsFlags word` holds when `word` gives the verbose flag or the quiet flag, once by its name or
any number of times by letters behind a dash, and nothing else. -/
def IsFlags (word : String) : Prop :=
  word = "--verbose" ∨ word = "--quiet" ∨
    ∃ letters, letters ≠ [] ∧ (∀ c ∈ letters, c = 'v' ∨ c = 'q') ∧ word.toList = '-' :: letters

/-- Whether a word gives flags is decided by its characters. -/
theorem isFlags_iff {word : String} :
    IsFlags word ↔ word = "--verbose" ∨ word = "--quiet" ∨
      word.toList.head? = some '-' ∧ word.toList.tail ≠ [] ∧
        (word.toList.tail.all fun c => c == 'v' || c == 'q') = true := by
  have hall : ∀ letters : List Char, (letters.all fun c => c == 'v' || c == 'q') = true ↔
      ∀ c ∈ letters, c = 'v' ∨ c = 'q' := by
    simp
  rw [hall]
  refine or_congr_right (or_congr_right ⟨?_, ?_⟩)
  · rintro ⟨letters, hne, hletters, hword⟩
    rw [hword]
    exact ⟨rfl, hne, hletters⟩
  · rintro ⟨hdash, hne, hletters⟩
    obtain ⟨letters, hword⟩ := List.head?_eq_some_iff.1 hdash
    rw [hword] at hne hletters
    exact ⟨letters, hne, hletters, hword⟩

instance (word : String) : Decidable (IsFlags word) :=
  decidable_of_iff _ isFlags_iff.symm

/-- `paths words` are the words that are paths. -/
def paths (words : List String) : List String :=
  (leading words).filter isPath ++ trailing words

/-- `occurrences f word` counts how often `word` gives the flag `f`, be it by its name or by its
letter. -/
def occurrences (f : Flag) (word : String) : Nat :=
  if word = "--" ++ f.name then 1
  else
    match word.toList with
    | '-' :: '-' :: _ => 0
    | '-' :: letters => letters.count f.letter
    | _ => 0

/-- `given f words` counts how often the flag `f` is given in front of the first `--`. -/
def given (f : Flag) (words : List String) : Nat :=
  ((leading words).map (occurrences f)).sum

/-- `Formed words` holds when every word in front of `--` is a path or gives flags. -/
def Formed (words : List String) : Prop :=
  ∀ word ∈ leading words, isPath word = true ∨ IsFlags word

instance (words : List String) : Decidable (Formed words) :=
  List.decidableBAll (fun word => isPath word = true ∨ IsFlags word) (leading words)

/-- `Conflicting words` holds when the quiet flag is repeated or stands beside the verbose flag. -/
def Conflicting (words : List String) : Prop :=
  2 ≤ given .quiet words ∨ 1 ≤ given .quiet words ∧ 1 ≤ given .verbose words

/-- `Accepted words` holds when `words` ask for a conversion. -/
structure Accepted (words : List String) : Prop where
  formed : Formed words
  two : (paths words).length = 2
  nonempty : "" ∉ paths words
  compatible : given .quiet words = 0 ∨ given .quiet words = 1 ∧ given .verbose words = 0

/-- `levelName words` is the name of the level at which the log is kept. -/
def levelName (words : List String) : String :=
  if given .quiet words = 1 then "error"
  else
    match given .verbose words with
    | 0 => "warn"
    | 1 => "info"
    | 2 => "debug"
    | _ => "trace"

/-- `Asked words o` holds when `o` are the options that `words` ask for. -/
structure Asked (words : List String) (o : Options) : Prop where
  paths : CommandLine.paths words = [o.input, o.output]
  verbose : o.verbose = min (given .verbose words) 255
  quiet : o.quiet = true ↔ given .quiet words = 1
  level : o.logLevel.name = levelName words

end LintSarif.CommandLine
