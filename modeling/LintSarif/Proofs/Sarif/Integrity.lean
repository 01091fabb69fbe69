import LintSarif.Proofs.Sarif.Catalog

/-!
# Integrity of the document

The rules and the results of a document are built from the same diagnostics by two different means:
the results one by one, the rules by a catalogue that passes over what it knows. Read
`Document.ofDiagnostics_integrity` first: the results state the diagnostics in order, and the rules
are exactly those of the results, each once and in the order of first use.
-/

namespace LintSarif.Sarif

/-- `r.States base d` holds when `r` is the result for the diagnostic `d`, read in the directory
`base`. -/
structure Result.States (r : Result) (base : String) (d : Diagnostic) : Prop where
  ruleId : r.ruleId = d.rule
  level_error : r.level.name = "error" ↔ d.severity = .error
  level_warning : r.level.name = "warning" ↔ d.severity ≠ .error
  message : r.message = d.message
  locations : r.locations = [⟨Path.absolutize d.file base, d.line + 1, d.column + 1⟩]

/-- The result that is made from a diagnostic states it. -/
theorem Result.ofDiagnostic_states (base : String) (d : Diagnostic) :
    (Result.ofDiagnostic base d).States base d where
  ruleId := rfl
  level_error := by
    cases h : d.severity <;> simp [ofDiagnostic, h, Level.ofSeverity, Level.name]
  level_warning := by
    cases h : d.severity <;> simp [ofDiagnostic, h, Level.ofSeverity, Level.name]
  message := rfl
  locations := rfl

/-- `r.Templated` holds when the texts of the rule `r` are made from its identifier. -/
structure Rule.Templated (r : Rule) : Prop where
  name : r.name = r.id
  shortDescription : r.shortDescription = r.id
  fullDescription : r.fullDescription = "Diagnostic emitted by clang-tidy rule " ++ r.id

namespace Document

/-- `d.ids` are the identifiers of the rules that `d` describes. -/
def ids (d : Document) : List String :=
  d.rules.map Rule.id

/-- `d.firstUse id` is the place of the first result of the rule `id`, and the number of results if
there is none. -/
def firstUse (d : Document) (id : String) : Nat :=
  d.results.findIdx fun result => result.ruleId == id

/-- The rules of `d` are exactly those that its results refer to. -/
structure Consistent (d : Document) : Prop where
  nodup : d.ids.Nodup
  /-- Every result refers to exactly one rule. -/
  rule_of_result : ∀ result ∈ d.results, d.ids.count result.ruleId = 1
  /-- Every rule is referred to. -/
  result_of_rule : ∀ id ∈ d.ids, ∃ result ∈ d.results, result.ruleId = id
  /-- The rules stand in the order of their first use. -/
  order : ∀ (i j : Nat) (hi : i < d.ids.length) (hj : j < d.ids.length),
    i < j ↔ d.firstUse d.ids[i] < d.firstUse d.ids[j]
  templated : ∀ rule ∈ d.rules, rule.Templated

variable {d : Document} {base : String}

/-- The place of first use is that of the first occurrence among the references. -/
theorem firstUse_eq_idxOf (d : Document) (id : String) :
    d.firstUse id = (d.results.map Result.ruleId).idxOf id := by
  rw [firstUse, List.idxOf, List.findIdx_map]
  rfl

/-- A document that describes the first occurrences of its references is consistent. -/
theorem consistent_of_rules
    (h : d.rules = (d.results.map Result.ruleId).eraseDups.map Rule.describe) : d.Consistent := by
  have hids : d.ids = (d.results.map Result.ruleId).eraseDups := by
    rw [ids, h, List.map_map]
    exact List.map_id _
  have hnodup : d.ids.Nodup := hids ▸ nodup_eraseDups _
  have hmem : ∀ id, id ∈ d.ids ↔ ∃ result ∈ d.results, result.ruleId = id := by
    intro id
    rw [hids, List.mem_eraseDups, List.mem_map]
  have hordered : ∀ (i j : Nat) (hi : i < d.ids.length) (hj : j < d.ids.length),
      i < j → d.firstUse d.ids[i] < d.firstUse d.ids[j] := by
    have hpairwise := pairwise_eraseDups (d.results.map Result.ruleId)
    rw [← hids] at hpairwise
    simp only [firstUse_eq_idxOf]
    exact List.pairwise_iff_getElem.1 hpairwise
  refine ⟨hnodup, fun result hresult => ?_, fun id => (hmem id).1, fun i j hi hj => ?_, ?_⟩
  · exact List.count_eq_one_of_mem hnodup ((hmem _).2 ⟨result, hresult, rfl⟩)
  · -- Any other order of the rules would give another order of the first uses.
    refine ⟨hordered i j hi hj, fun hlt => ?_⟩
    rcases Nat.lt_trichotomy i j with hij | rfl | hji
    · exact hij
    · exact absurd hlt (Nat.lt_irrefl _)
    · exact absurd (hordered j i hj hi hji) (Nat.lt_asymm hlt)
  · intro rule hrule
    rw [h] at hrule
    obtain ⟨id, -, rfl⟩ := List.mem_map.1 hrule
    exact ⟨rfl, rfl, rfl⟩

/-- The rules of the document of any diagnostics are the first occurrences of their rules. -/
theorem ofDiagnostics_rules (diagnostics : List Diagnostic) (base : String) :
    (ofDiagnostics diagnostics base).2.rules =
      (diagnostics.map Diagnostic.rule).eraseDups.map Rule.describe := by
  rw [ofDiagnostics_eq]
  exact (Catalog.records_empty.register (diagnostics.map Diagnostic.rule)).rules

/-- The document of any diagnostics has one result for each of them, in their order, and describes
exactly the rules that the results refer to, in the order of first use. -/
theorem ofDiagnostics_integrity (diagnostics : List Diagnostic) (base : String) :
    let document := (ofDiagnostics diagnostics base).2
    List.Forall₂ (fun result d => result.States base d) document.results diagnostics ∧
      document.Consistent := by
  intro document
  have hresults : document.results = _ := ofDiagnostics_results diagnostics base
  have hrules : document.rules = _ := ofDiagnostics_rules diagnostics base
  constructor
  · rw [hresults]
    refine List.forall₂_map_left_iff.2 (List.forall₂_same.2 fun d _ => ?_)
    exact Result.ofDiagnostic_states base d
  · refine consistent_of_rules ?_
    rw [hrules, hresults, List.map_map]
    rfl

end Document

end LintSarif.Sarif
