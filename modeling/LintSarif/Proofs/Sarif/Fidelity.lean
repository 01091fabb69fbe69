import LintSarif.Proofs.Json.Printing
import LintSarif.Sarif.Encoding

/-!
# Fidelity of the rendered document

Nothing is lost between a document, its JSON value and its text. Read `render_faithful` first: the
text of the document of any diagnostics is one JSON text, with nothing around it, and every reading
of it is that document.
-/

namespace LintSarif.Sarif

/-! ## The parts of a document in JSON -/

@[simp]
theorem Level.name_inj {l m : Level} : l.name = m.name ↔ l = m := by
  cases l <;> cases m <;> simp [Level.name]

@[simp]
theorem messageToJson_inj {text other : String} :
    messageToJson text = messageToJson other ↔ text = other := by
  simp [messageToJson]

/-- The reporting descriptor of a rule tells all that is known about the rule. -/
theorem Rule.toJson_inj {r s : Rule} (h : r.toJson = s.toJson) : r = s := by
  cases r
  cases s
  simpa [Rule.toJson] using h

theorem Location.toJson_inj {l m : Location} (h : l.toJson = m.toJson) : l = m := by
  cases l
  cases m
  simpa [Location.toJson] using h

theorem Result.toJson_inj {r s : Result} (h : r.toJson = s.toJson) : r = s := by
  unfold Result.toJson at h
  obtain ⟨ruleId, level, message, locations⟩ := r
  obtain ⟨ruleId', level', message', locations'⟩ := s
  simp only [Json.obj.injEq, List.cons.injEq, Prod.mk.injEq, Json.str.injEq, Json.arr.injEq,
    Level.name_inj, messageToJson_inj, true_and, and_true] at h
  obtain ⟨rfl, rfl, rfl, hlocations⟩ := h
  rw [(List.map_inj_right fun _ _ => Location.toJson_inj).1 hlocations]

/-- A document is determined by its JSON value. -/
theorem Document.toJson_inj {d e : Document} (h : d.toJson = e.toJson) : d = e := by
  unfold Document.toJson at h
  obtain ⟨rules, results⟩ := d
  obtain ⟨rules', results'⟩ := e
  simp only [Json.obj.injEq, List.cons.injEq, Prod.mk.injEq, Json.arr.injEq, true_and,
    and_true] at h
  obtain ⟨hrules, hresults⟩ := h
  rw [(List.map_inj_right fun _ _ => Rule.toJson_inj).1 hrules,
    (List.map_inj_right fun _ _ => Result.toJson_inj).1 hresults]

/-! ## The text of a document -/

/-- Two documents with the same text are the same. -/
theorem Document.render_inj {d e : Document} (h : d.render = e.render) : d = e :=
  Document.toJson_inj (Json.print_injective h)

/-- The text of the document of any diagnostics is a JSON text of that document with nothing around
it. The strict reader gives the document back from it, no other value has that text, and neither has
any other document. -/
theorem render_faithful (diagnostics : List Diagnostic) (base : String) :
    let document := (Document.ofDiagnostics diagnostics base).2
    Json.Denotes (render diagnostics base).toList document.toJson ∧
      Json.parse? (render diagnostics base) = some document.toJson ∧
      (∀ v, Json.IsText (render diagnostics base).toList v → v = document.toJson) ∧
      ∀ other : Document, other.render = render diagnostics base → other = document := by
  intro document
  have htext : Json.Denotes (render diagnostics base).toList document.toJson :=
    Json.denotes_print document.toJson
  refine ⟨htext, Json.parse?_print document.toJson, fun v hv => ?_, fun other h => ?_⟩
  · exact hv.unique htext.isText
  · exact Document.render_inj h

end LintSarif.Sarif
