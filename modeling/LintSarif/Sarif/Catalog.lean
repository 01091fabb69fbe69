import LintSarif.Sarif.Basic
import Std.Data.HashSet

/-!
# The catalogue of rules

A catalogue holds the description of every rule that was registered, each once, in the order in
which they were first met. The set of registered identifiers is kept beside the descriptions, so
that a rule that is known already is found without going through them.
-/

namespace LintSarif.Sarif

/-- The rules met so far. -/
structure Catalog where
  /-- The identifiers of the rules. -/
  seen : Std.HashSet String
  /-- The descriptions, in the order of first appearance. -/
  rules : Array Rule

namespace Catalog

/-- The catalogue of no rules. -/
def empty : Catalog := ⟨∅, #[]⟩

/-- `insert catalog id` registers the rule `id` and answers whether it was new. -/
def insert (catalog : Catalog) (id : String) : Bool × Catalog :=
  match catalog.seen.containsThenInsert id with
  | (true, _) => (false, catalog)
  | (false, seen) => (true, ⟨seen, catalog.rules.push (Rule.describe id)⟩)

/-- `size catalog` is the number of rules in `catalog`. -/
def size (catalog : Catalog) : Nat :=
  catalog.rules.size

/-- A rule that is registered already leaves the catalogue as it is. -/
theorem insert_of_mem {catalog : Catalog} {id : String} (h : id ∈ catalog.seen) :
    catalog.insert id = (false, catalog) := by
  have h' : (catalog.seen.containsThenInsert id).1 = true := by simpa using h
  rw [insert]
  split
  · rfl
  · simp_all

/-- A new rule is described at the end of the catalogue. -/
theorem insert_of_not_mem {catalog : Catalog} {id : String} (h : id ∉ catalog.seen) :
    catalog.insert id =
      (true, ⟨catalog.seen.insert id, catalog.rules.push (Rule.describe id)⟩) := by
  have h' : (catalog.seen.containsThenInsert id).1 = false := by
    simpa using Std.HashSet.contains_eq_false_iff_not_mem.2 h
  have h'' : (catalog.seen.containsThenInsert id).2 = catalog.seen.insert id := by simp
  rw [insert]
  split <;> simp_all

end Catalog

end LintSarif.Sarif
