import LintSarif.Proofs.FileSystem.Conversion
import LintSarif.Proofs.Sarif.Catalog

/-!
# What a run does to the files

A run is a reading of its words and, when they are accepted, one conversion (`run_eq`). Read
`run_refines_convert` first: words that are not accepted leave the file system as it was, and all
others leave it as the conversion does, whose result decides the exit status.
-/

namespace LintSarif

/-- `r.logText` are the lines of the log on standard error. -/
def Report.logText (r : Report) : String :=
  String.join (r.log.map fun e => e.text ++ "\n")

/-- `r.writes` counts the events of the log that say that a document was written. -/
def Report.writes (r : Report) : Nat :=
  r.log.countP fun e => e.message == "wrote sarif"

/-- The complaint stands behind the log. -/
theorem Report.errorText_eq (r : Report) : r.errorText =
    r.logText ++ (r.complaint.elim "" fun complaint => "error: " ++ complaint ++ "\n") := by
  unfold errorText logText
  rw [List.map_append, List.map_map, String.join_append]
  cases r.complaint with
  | none => rfl
  | some complaint => rfl

namespace FileSystem

/-- A run reads its words and converts if they are accepted. -/
theorem run_eq (fs : FileSystem) (words : List String) :
    fs.run words =
      match CommandLine.parse words with
      | .error ending => (Program.refuse ending, fs)
      | .ok options =>
        let outcome := fs.convert options.input options.output
        (Program.report options outcome.1, outcome.2) := by
  unfold run Program.run
  cases CommandLine.parse words with
  | error ending => rfl
  | ok options => rfl

/-! ## The log -/

/-- Only the event of a run that has converted says that a document was written. -/
theorem message_eq_wrote_iff {e : Log.Event} :
    e.message = "wrote sarif" ↔ ∃ results output, e = .wrote results output := by
  cases e <;> simp [Log.Event.message]

/-- A scan does not report that a document was written. -/
theorem message_of_mem_scan_events {scan : Scan} {e : Log.Event} (he : e ∈ scan.events) :
    e.message ≠ "wrote sarif" := by
  rw [ne_eq, message_eq_wrote_iff]
  rintro ⟨results, output, rfl⟩
  rcases List.mem_append.1 he with he | he
  · obtain ⟨d, -, hd⟩ := List.mem_map.1 he
    contradiction
  · have hlast := List.mem_singleton.1 he
    contradiction

/-- Building a document does not report that it was written. -/
theorem message_of_mem_document_events {diagnostics : List Diagnostic} {base : String}
    {e : Log.Event} (he : e ∈ (Sarif.Document.ofDiagnostics diagnostics base).1) :
    e.message ≠ "wrote sarif" := by
  rw [ne_eq, message_eq_wrote_iff]
  rintro ⟨results, output, rfl⟩
  rw [Sarif.Document.ofDiagnostics_eq] at he
  rcases List.mem_append.1 he with he | he
  · have hnew := Sarif.Catalog.records_empty.register_events (diagnostics.map Diagnostic.rule)
    rw [List.eraseDups_nil, List.map_nil, List.nil_append] at hnew
    rw [hnew] at he
    obtain ⟨rule, -, hrule⟩ := List.mem_map.1 he
    contradiction
  · have hlast := List.mem_singleton.1 he
    contradiction

/-- A conversion does not report that its document was written; that is left to the run. -/
theorem message_of_mem_convert_events {fs : FileSystem} {input output : String} {e : Log.Event}
    (he : e ∈ (fs.convert input output).1.events) : e.message ≠ "wrote sarif" := by
  have hboth : ∀ {scan : Scan} {base : String},
      e ∈ scan.events ++ (Sarif.Document.ofDiagnostics scan.diagnostics base).1 →
      e.message ≠ "wrote sarif" := fun he =>
    (List.mem_append.1 he).elim message_of_mem_scan_events message_of_mem_document_events
  rw [convert_eq] at he
  split at he
  · exact absurd he List.not_mem_nil
  · split at he
    · exact message_of_mem_scan_events he
    · dsimp only at he
      split at he
      · exact hboth he
      · exact hboth he

/-- The part of a log that comes from a conversion does not say that a document was written. -/
theorem countP_shown_convert_events (fs : FileSystem) (input output : String)
    (threshold : Log.Level) :
    (Log.Event.shown threshold (fs.convert input output).1.events).countP
      (fun e => e.message == "wrote sarif") = 0 := by
  refine List.countP_eq_zero.2 fun e he => ?_
  rw [beq_iff_eq]
  exact message_of_mem_convert_events (List.mem_of_mem_filter he)

/-- The event that follows a conversion is shown from the level of its like on. -/
theorem countP_shown_convert_events_concat (fs : FileSystem) (input output : String)
    (threshold : Log.Level) (n : Nat) (path : String) :
    (Log.Event.shown threshold ((fs.convert input output).1.events ++ [.wrote n path])).countP
      (fun e => e.message == "wrote sarif") = if Log.Level.info ≤ threshold then 1 else 0 := by
  have hsilent := countP_shown_convert_events fs input output threshold
  unfold Log.Event.shown at hsilent ⊢
  rw [List.filter_append, List.countP_append, hsilent, Nat.zero_add]
  have hlevel : (Log.Event.wrote n path).level = .info := rfl
  by_cases h : Log.Level.info ≤ threshold
  · simp [h, hlevel, Log.Event.message]
  · simp [h, hlevel]

/-! ## The run -/

/-- A run with words that are not accepted changes nothing and logs nothing; it exits with 2, or
with 0 when it is asked for the help text or the version. Any other run leaves the file system as
the conversion of its two paths does and writes nothing to standard output. It exits with 0 when the
conversion succeeds and with 3 when it fails, and then the text of the error ends standard error. A
document is said to be written once at most, and only in a run that has converted. -/
theorem run_refines_convert (fs : FileSystem) (words : List String) :
    let report := (fs.run words).1
    let next := (fs.run words).2
    match CommandLine.parse words with
    | .error ending =>
      next = fs ∧ report.log = [] ∧
        match ending with
        | .refused _ => report.status.code = 2 ∧ report.output = ""
        | .help => report.status.code = 0 ∧ report.output = CommandLine.helpText
        | .version => report.status.code = 0 ∧ report.output = CommandLine.versionText
    | .ok options =>
      let outcome := fs.convert options.input options.output
      next = outcome.2 ∧ report.output = "" ∧
        match outcome.1.result with
        | .ok _ =>
          report.status.code = 0 ∧ report.errorText = report.logText ∧
            report.writes = if Log.Level.info ≤ options.logLevel then 1 else 0
        | .error e =>
          report.status.code = 3 ∧
            report.errorText = report.logText ++ ("error: " ++ e.message ++ "\n") ∧
            report.writes = 0 := by
  intro report next
  have hrun := run_eq fs words
  cases hparse : CommandLine.parse words with
  | error ending =>
      rw [hparse] at hrun
      have hreport : report = Program.refuse ending := congrArg Prod.fst hrun
      have hnext : next = fs := congrArg Prod.snd hrun
      rw [hreport]
      cases ending with
      | refused error => exact ⟨hnext, rfl, rfl, rfl⟩
      | help => exact ⟨hnext, rfl, rfl, rfl⟩
      | version => exact ⟨hnext, rfl, rfl, rfl⟩
  | ok options =>
      rw [hparse] at hrun
      have hreport : report = Program.report options
        (fs.convert options.input options.output).1 := congrArg Prod.fst hrun
      have hnext : next = (fs.convert options.input options.output).2 := congrArg Prod.snd hrun
      dsimp only
      rw [hreport, Program.report]
      cases (fs.convert options.input options.output).1.result with
      | ok n =>
          refine ⟨hnext, rfl, rfl, ?_, countP_shown_convert_events_concat _ _ _ _ _ _⟩
          rw [Report.errorText_eq]
          exact String.append_empty
      | error e =>
          exact ⟨hnext, rfl, rfl, Report.errorText_eq _, countP_shown_convert_events _ _ _ _⟩

end FileSystem

end LintSarif
