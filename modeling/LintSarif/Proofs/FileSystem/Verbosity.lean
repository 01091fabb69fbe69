import LintSarif.Proofs.CommandLine.Acceptance
import LintSarif.Proofs.FileSystem.Run
import Mathlib.Data.List.Basic
import Mathlib.Data.List.Flatten

/-!
# Verbosity

The verbose and the quiet flag choose how much of the log is shown. Read `run_verbosity` first: two
runs with the same paths end in the same way, whatever their flags, and the shorter log is what the
longer one has at its level. Standard error is read line by line, since an entry of the log can take
several lines (`Text.lines_entries_append`).
-/

namespace LintSarif

/-! ## What a log shows -/

namespace Log.Event

/-- No event is as urgent as a warning. -/
theorem info_le_level (e : Event) : Level.info ≤ e.level := by
  show Level.info.verbosity ≤ e.level.verbosity
  cases e <;> simp [level, Level.verbosity]

/-- A log that is kept at the level of warnings or of errors is empty. -/
theorem shown_eq_nil {threshold : Level} (h : threshold ≤ .warn) (events : List Event) :
    shown threshold events = [] := by
  refine List.filter_eq_nil_iff.2 fun e _ => ?_
  have hle : e.level ≤ threshold → Level.info ≤ Level.warn := fun hshown =>
    Nat.le_trans (info_le_level e) (Nat.le_trans hshown h)
  rw [decide_eq_true_eq]
  exact fun hshown => absurd (hle hshown) (by decide)

/-- What a log shows can be taken from any log that shows more. -/
theorem shown_shown {threshold higher : Level} (h : threshold ≤ higher) (events : List Event) :
    shown threshold (shown higher events) = shown threshold events := by
  unfold shown
  rw [List.filter_filter]
  refine List.filter_congr fun e _ => ?_
  have hle : e.level ≤ threshold → e.level ≤ higher := fun hshown => Nat.le_trans hshown h
  simpa using hle

end Log.Event

/-! ## The lines of standard error -/

/-- The lines of a text that is made of entries, each followed by a line feed, are those of the
entries and of what stands behind them. -/
theorem Text.lines_entries_append (entries : List String) (rest : String) :
    lines (String.join (entries.map fun entry => entry ++ "\n") ++ rest).toList =
      (entries.flatMap fun entry => lines (entry ++ "\n").toList) ++ lines rest.toList := by
  induction entries with
  | nil => simp
  | cons entry entries ih =>
      have hfirst :
          (String.join ((entry :: entries).map fun entry => entry ++ "\n") ++ rest).toList =
            entry.toList ++ '\n' ::
              (String.join (entries.map fun entry => entry ++ "\n") ++ rest).toList := by
        simp
      have hend : (entry ++ "\n").toList = entry.toList ++ ['\n'] := by
        simp
      rw [hfirst, lines_append, ih, List.flatMap_cons, hend, List.append_assoc]

namespace Report

/-- `r.logLines` are the lines of the log on standard error. -/
def logLines (r : Report) : List String :=
  (Text.lines r.logText.toList).map String.ofList

/-- `r.complaintLines` are the lines behind the log on standard error. -/
def complaintLines (r : Report) : List String :=
  (Text.lines (r.complaint.elim "" fun complaint => "error: " ++ complaint ++ "\n").toList).map
    String.ofList

/-- Behind a log the lines go on with whatever follows it. -/
theorem lines_logText_append (r : Report) (rest : String) :
    Text.lines (r.logText ++ rest).toList =
      (r.log.flatMap fun e => Text.lines (e.text ++ "\n").toList) ++ Text.lines rest.toList := by
  have h := Text.lines_entries_append (r.log.map Log.Event.text) rest
  rw [List.map_map, List.flatMap_map] at h
  exact h

/-- The lines of a log are those of its events. -/
theorem logLines_eq (r : Report) : r.logLines =
    r.log.flatMap fun e => (Text.lines (e.text ++ "\n").toList).map String.ofList := by
  have h := r.lines_logText_append ""
  rw [String.append_empty, String.toList_empty, Text.lines_nil, List.append_nil] at h
  rw [logLines, h, List.map_flatMap]

/-- Standard error has the lines of the log and then those of the complaint. -/
theorem errorLines_eq (r : Report) : r.errorLines = r.logLines ++ r.complaintLines := by
  have h := r.lines_logText_append ""
  rw [String.append_empty, String.toList_empty, Text.lines_nil, List.append_nil] at h
  rw [errorLines, errorText_eq, lines_logText_append, List.map_append, ← h]
  rfl

/-- A log that shows fewer events has fewer lines, in the same order. -/
theorem logLines_sublist {r r' : Report} (h : r.log.Sublist r'.log) :
    r.logLines.Sublist r'.logLines := by
  rw [logLines_eq, logLines_eq]
  exact h.flatMap _

end Report

/-! ## Two runs -/

/-- `c.eventsOfRun output` are the events of a run whose conversion to the file `output` is `c`. -/
def Conversion.eventsOfRun (c : Conversion) (output : String) : List Log.Event :=
  match c.result with
  | .ok count => c.events ++ [.wrote count output]
  | .error _ => c.events

/-- The flags decide which events of a run are shown. -/
theorem Program.report_log (options : CommandLine.Options) (c : Conversion) :
    (report options c).log =
      Log.Event.shown options.logLevel (c.eventsOfRun options.output) := by
  unfold report Conversion.eventsOfRun
  cases c.result <;> rfl

/-- The flags decide nothing else in the report of a run. -/
theorem Program.report_congr (options other : CommandLine.Options) (c : Conversion) :
    (report options c).status = (report other c).status ∧
      (report options c).output = (report other c).output ∧
      (report options c).complaint = (report other c).complaint := by
  unfold report
  cases c.result <;> exact ⟨rfl, rfl, rfl⟩

namespace FileSystem

open CommandLine (Options parse paths)

variable {words other : List String} {o o' : Options}

/-- Accepted words convert the first of their paths to the second. -/
theorem run_of_parse (fs : FileSystem) (h : parse words = .ok o) :
    fs.run words = (Program.report o (fs.convert o.input o.output).1,
      (fs.convert o.input o.output).2) := by
  rw [run_eq, h]

/-- Two runs with the same paths and any flags leave the same files, the same exit status, the same
standard output and the same complaint, which ends standard error. The log of the lower level is
exactly what it shows of the other, so that its lines stand in the same order among those of the
other. At the levels of errors and of warnings there is no log. -/
theorem run_verbosity (fs : FileSystem) (h : parse words = .ok o) (h' : parse other = .ok o')
    (hpaths : paths words = paths other) :
    let report := (fs.run words).1
    let report' := (fs.run other).1
    (fs.run words).2 = (fs.run other).2 ∧
    (report.status = report'.status ∧ report.output = report'.output ∧
      report.complaint = report'.complaint) ∧
    (report.errorLines = report.logLines ++ report.complaintLines ∧
      report'.errorLines = report'.logLines ++ report.complaintLines) ∧
    (o.logLevel ≤ o'.logLevel →
      report.log = Log.Event.shown o.logLevel report'.log ∧
        report.logLines.Sublist report'.logLines) ∧
    (o.logLevel = .error ∨ o.logLevel = .warn → report.logLines = []) := by
  intro report report'
  have hasked := (CommandLine.parse_eq_ok_iff.1 h).2.paths
  have hasked' := (CommandLine.parse_eq_ok_iff.1 h').2.paths
  have hsame : [o.input, o.output] = [o'.input, o'.output] := by
    rw [← hasked, hpaths, hasked']
  obtain ⟨hinput, houtput⟩ : o.input = o'.input ∧ o.output = o'.output := by
    simpa using hsame
  have hrun := run_of_parse fs h
  have hrun' := run_of_parse fs h'
  rw [← hinput, ← houtput] at hrun'
  have hreport : report = Program.report o (fs.convert o.input o.output).1 :=
    congrArg Prod.fst hrun
  have hreport' : report' = Program.report o' (fs.convert o.input o.output).1 :=
    congrArg Prod.fst hrun'
  have hend := Program.report_congr o o' (fs.convert o.input o.output).1
  rw [← hreport, ← hreport'] at hend
  have hcomplaint : report.complaintLines = report'.complaintLines := by
    unfold Report.complaintLines
    rw [hend.2.2]
  have hlog := Program.report_log o (fs.convert o.input o.output).1
  have hlog' := Program.report_log o' (fs.convert o.input o.output).1
  rw [← hreport] at hlog
  rw [← hreport', ← houtput] at hlog'
  refine ⟨?_, hend, ⟨report.errorLines_eq, ?_⟩, fun hlevel => ?_, fun hlevel => ?_⟩
  · rw [hrun, hrun']
  · rw [hcomplaint]
    exact report'.errorLines_eq
  · have hshown : report.log = Log.Event.shown o.logLevel report'.log := by
      rw [hlog, hlog', Log.Event.shown_shown hlevel]
    refine ⟨hshown, Report.logLines_sublist ?_⟩
    rw [hshown]
    exact List.filter_sublist
  · have hwarn : o.logLevel ≤ .warn := by
      rcases hlevel with hlevel | hlevel <;> rw [hlevel] <;> decide
    rw [Report.logLines_eq, hlog, Log.Event.shown_eq_nil hwarn]
    rfl

/-- The output is a directory, which is found after the document has been built. The quiet run and
the verbose one end with the same complaint, and only the verbose one has a log in front of it. -/
theorem run_verbosity_output_is_directory :
    let fs := fresh.set ["log", "work"] (.file "a.c:1:2: note: m [r]".toUTF8)
    let words := ["log", "-q", "."]
    let other := ["-vv", "log", "--verbose", "--", "."]
    let quiet : Options := ⟨"log", ".", 0, true⟩
    let verbose : Options := ⟨"log", ".", 3, false⟩
    let complaint := "error: cannot write .: Is a directory (os error 21)"
    (parse words = .ok quiet ∧ parse other = .ok verbose ∧ paths words = paths other ∧
      quiet.logLevel = .error ∧ quiet.logLevel ≤ verbose.logLevel) ∧
    (fs.run words).2 = (fs.run other).2 ∧
    (fs.run words).1.errorLines = [complaint] ∧
    (fs.run other).1.errorLines = (fs.run other).1.logLines ++ [complaint] ∧
    (fs.run words).1.log = Log.Event.shown quiet.logLevel (fs.run other).1.log := by
  intro fs words other quiet verbose complaint
  have hwords : parse words = .ok quiet := by
    decide +kernel
  have hother : parse other = .ok verbose := by
    decide +kernel
  have hpaths : paths words = paths other := by
    decide +kernel
  have hlevel : quiet.logLevel = .error ∧ quiet.logLevel ≤ verbose.logLevel := by
    decide
  have hcomplaint : (fs.run words).1.complaintLines = [complaint] := by
    decide +kernel
  obtain ⟨hfiles, -, ⟨hlines, hlines'⟩, hlog, hsilent⟩ := run_verbosity fs hwords hother hpaths
  rw [hcomplaint] at hlines hlines'
  rw [hsilent (.inl hlevel.1)] at hlines
  exact ⟨⟨hwords, hother, hpaths, hlevel⟩, hfiles, hlines, hlines', (hlog hlevel.2).1⟩

end FileSystem

end LintSarif
