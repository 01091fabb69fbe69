import LintSarif.Proofs.Sarif.Catalog

/-!
# Registering rules one by one

A run of registrations has three outcomes: the answers, the set of known identifiers and the list of
descriptions. Read `register_step_by_step` first: after every step of every run the three tell one
history. What an answer says and what it does to the size hold of any catalogue (`insert_of_false`,
`size_insert`); what it says about the history needs the catalogue to record it
(`Records.insert_iff`).
-/

namespace LintSarif.Sarif.Catalog

variable {catalog : Catalog} {history : List String} {id : String}

/-- `catalog.ids` are the identifiers of the rules that `catalog` describes. -/
def ids (catalog : Catalog) : List String :=
  catalog.rules.toList.map Rule.id

/-- `after history` is the catalogue when `history` has been registered in turn, from no rules on. -/
def after (history : List String) : Catalog :=
  (empty.register history).2

/-- `catalog.answers ids` are the answers to registering `ids` in turn. -/
def answers (catalog : Catalog) : List String → List Bool
  | [] => []
  | id :: ids => (catalog.insert id).1 :: (catalog.insert id).2.answers ids

/-- `catalog.Describes history` holds when the two views of `catalog` agree and show the first
occurrences in `history`, in their order. -/
structure Describes (catalog : Catalog) (history : List String) : Prop where
  mem_seen : ∀ id, id ∈ catalog.seen ↔ id ∈ catalog.ids
  nodup : catalog.ids.Nodup
  ids : catalog.ids = history.eraseDups
  /-- Every description is made from the identifier. -/
  described : ∀ rule ∈ catalog.rules, rule = Rule.describe rule.id

/-! ## One registration -/

/-- A registration that finds nothing new changes nothing. -/
theorem insert_of_false (h : (catalog.insert id).1 = false) : (catalog.insert id).2 = catalog := by
  by_cases hid : id ∈ catalog.seen
  · rw [insert_of_mem hid]
  · rw [insert_of_not_mem hid] at h
    contradiction

/-- A registration adds a description exactly when it answers that the rule is new. -/
theorem size_insert (catalog : Catalog) (id : String) :
    (catalog.insert id).2.size = catalog.size + (catalog.insert id).1.toNat := by
  by_cases hid : id ∈ catalog.seen
  · rw [insert_of_mem hid]
    rfl
  · rw [insert_of_not_mem hid]
    exact Array.size_push _

/-- A rule is new when it does not occur in the history that the catalogue records. -/
theorem Records.insert_iff (h : catalog.Records history) (id : String) :
    (catalog.insert id).1 = true ↔ id ∉ history := by
  rw [← h.mem_seen id]
  by_cases hid : id ∈ catalog.seen
  · simp [insert_of_mem hid, hid]
  · simp [insert_of_not_mem hid, hid]

/-! ## A run of registrations -/

theorem register_concat (catalog : Catalog) (ids : List String) (id : String) :
    (catalog.register (ids ++ [id])).2 = ((catalog.register ids).2.insert id).2 := by
  induction ids generalizing catalog with
  | nil => rfl
  | cons first ids ih => exact ih (catalog.insert first).2

theorem answers_concat (catalog : Catalog) (ids : List String) (id : String) :
    catalog.answers (ids ++ [id]) =
      catalog.answers ids ++ [((catalog.register ids).2.insert id).1] := by
  induction ids generalizing catalog with
  | nil => rfl
  | cons first ids ih => exact congrArg ((catalog.insert first).1 :: ·) (ih _)

/-- A run adds as many descriptions as it answers that a rule is new. -/
theorem size_register (catalog : Catalog) (ids : List String) :
    (catalog.register ids).2.size = catalog.size + (catalog.answers ids).count true := by
  induction ids using List.reverseRecOn with
  | nil => rfl
  | append_singleton ids id ih =>
      rw [register_concat, size_insert, ih, answers_concat, List.count_append, Nat.add_assoc]
      cases ((catalog.register ids).2.insert id).1 <;> rfl

/-- A catalogue that records a history describes it. -/
theorem Records.describes (h : catalog.Records history) : catalog.Describes history := by
  have hids : catalog.ids = history.eraseDups := by
    rw [Catalog.ids, h.rules, List.map_map]
    exact List.map_id _
  refine ⟨fun id => ?_, hids ▸ nodup_eraseDups history, hids, fun rule hrule => ?_⟩
  · rw [h.mem_seen, hids, List.mem_eraseDups]
  · rw [← Array.mem_toList_iff, h.rules] at hrule
    obtain ⟨id, -, rfl⟩ := List.mem_map.1 hrule
    rfl

/-- After every step of every run that starts with no rules, the set and the list of the catalogue
show the first occurrences among what was registered, and there are as many of them as there were
answers that a rule was new. The next registration gives that answer exactly when its identifier
does not occur so far, and otherwise it changes nothing. -/
theorem register_step_by_step (history : List String) :
    (after history).Describes history ∧
      (after history).size = (empty.answers history).count true ∧
      ∀ id : String,
        after (history ++ [id]) = ((after history).insert id).2 ∧
        empty.answers (history ++ [id]) =
          empty.answers history ++ [((after history).insert id).1] ∧
        (((after history).insert id).1 = true ↔ id ∉ history) ∧
        (((after history).insert id).1 = false →
          ((after history).insert id).2 = after history) := by
  have hrecords : (after history).Records history := records_empty.register history
  have hsize : (after history).size = 0 + _ := size_register empty history
  rw [Nat.zero_add] at hsize
  refine ⟨hrecords.describes, hsize, fun id => ⟨?_, ?_, hrecords.insert_iff id, insert_of_false⟩⟩
  · exact register_concat empty history id
  · exact answers_concat empty history id

end LintSarif.Sarif.Catalog
