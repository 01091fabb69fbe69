import LintSarif.Log.Event
import LintSarif.Sarif.Catalog

/-!
# Building a document

A document has one result for each diagnostic, in their order, and a description of each rule in
the order in which the rules are first violated. It is built in one pass over the diagnostics, which
is logged: each rule when it is met for the first time, and the numbers of results and rules at the
end. `Document.ofDiagnostics_eq` says that two passes give the same, one for the rules and one for
the results.
-/

namespace LintSarif.Sarif

/-- `catalog.register ids` registers the rules `ids` in turn. It answers the event of each new one
and the catalogue at the end. -/
def Catalog.register (catalog : Catalog) : List String → List Log.Event × Catalog
  | [] => ([], catalog)
  | id :: ids =>
    let (isNew, catalog) := catalog.insert id
    let (events, catalog) := catalog.register ids
    (if isNew then .newRule id :: events else events, catalog)

/-- A document that is being built. -/
structure Draft where
  catalog : Catalog
  results : Array Result
  /-- What was logged so far. -/
  events : Array Log.Event

namespace Draft

/-- The draft of no diagnostics. -/
def empty : Draft := ⟨.empty, #[], #[]⟩

/-- `draft.add base d` is `draft` with the result for `d`, whose file is looked up from the
directory `base`. The rule of `d` is registered, and reported if it is new. -/
def add (base : String) (draft : Draft) (d : Diagnostic) : Draft :=
  let (isNew, catalog) := draft.catalog.insert d.rule
  { catalog
    results := draft.results.push (Result.ofDiagnostic base d)
    events := if isNew then draft.events.push (.newRule d.rule) else draft.events }

/-- Adding diagnostics one by one states each of them and registers their rules in turn. -/
theorem foldl_add (base : String) (diagnostics : List Diagnostic) (draft : Draft) :
    diagnostics.foldl (add base) draft =
      let registered := draft.catalog.register (diagnostics.map Diagnostic.rule)
      ⟨registered.2, draft.results ++ diagnostics.map (Result.ofDiagnostic base),
        draft.events ++ registered.1⟩ := by
  -- Over any draft, since each diagnostic is added to what those before it have left.
  induction diagnostics generalizing draft with
  | nil => simp [Catalog.register]
  | cons d diagnostics ih =>
      rw [List.foldl_cons, ih]
      rcases hinsert : draft.catalog.insert d.rule with ⟨isNew, catalog⟩
      cases isNew <;> simp [add, hinsert, Catalog.register]

end Draft

/-- `Document.ofDiagnostics diagnostics base` is the document of the diagnostics, whose files are
looked up from the directory `base`, with the events of building it. -/
def Document.ofDiagnostics (diagnostics : List Diagnostic) (base : String) :
    List Log.Event × Document :=
  let draft := diagnostics.foldl (Draft.add base) .empty
  (draft.events.toList ++ [.built draft.results.size draft.catalog.size],
    ⟨draft.catalog.rules.toList, draft.results.toList⟩)

/-- The rules of a document and its results can be made separately: the rules by registering those
of the diagnostics, the results one by one. -/
theorem Document.ofDiagnostics_eq (diagnostics : List Diagnostic) (base : String) :
    ofDiagnostics diagnostics base =
      let registered := Catalog.empty.register (diagnostics.map Diagnostic.rule)
      let results := diagnostics.map (Result.ofDiagnostic base)
      (registered.1 ++ [.built results.length registered.2.size],
        ⟨registered.2.rules.toList, results⟩) := by
  unfold ofDiagnostics
  rw [Draft.foldl_add]
  simp [Draft.empty]

/-- The results of a document are those of the diagnostics, one by one. -/
theorem Document.ofDiagnostics_results (diagnostics : List Diagnostic) (base : String) :
    (ofDiagnostics diagnostics base).2.results = diagnostics.map (Result.ofDiagnostic base) := by
  rw [ofDiagnostics_eq]

end LintSarif.Sarif
