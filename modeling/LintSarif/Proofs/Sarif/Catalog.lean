import LintSarif.Sarif.Document
import Mathlib.Data.List.Induction
import Mathlib.Data.List.Nodup

/-!
# What a catalogue holds after a run

The set and the descriptions of a catalogue are two views of the identifiers that were registered
so far. `Catalog.Records` relates all three; each registration keeps them in step
(`Records.insert`) and so does a run of registrations (`Records.register`), which reports what was
new (`Records.register_events`). The descriptions are those of the first occurrences, in their order
(`pairwise_eraseDups`).
-/

namespace LintSarif.Sarif

/-! ## First occurrences -/

/-- One more identifier is a first occurrence unless it occurs before. -/
theorem eraseDups_concat (history : List String) (id : String) :
    (history ++ [id]).eraseDups =
      if id ∈ history then history.eraseDups else history.eraseDups ++ [id] := by
  rw [List.eraseDups_append]
  by_cases h : id ∈ history
  · simp [h, List.removeAll]
  · simp [h, List.removeAll, List.eraseDups_cons]

/-- Later identifiers add those of their first occurrences that do not occur before. -/
theorem eraseDups_append_later (history later : List String) :
    (history ++ later).eraseDups =
      history.eraseDups ++ later.eraseDups.filter fun id => id ∉ history := by
  induction later using List.reverseRecOn with
  | nil => simp
  | append_singleton later id ih =>
      rw [← List.append_assoc, eraseDups_concat, eraseDups_concat, ih]
      by_cases hlater : id ∈ later
      · rw [if_pos (List.mem_append_right history hlater), if_pos hlater]
      · by_cases hhistory : id ∈ history
        · rw [if_pos (List.mem_append_left later hhistory), if_neg hlater, List.filter_append]
          simp [hhistory]
        · rw [if_neg (by simp [hhistory, hlater]), if_neg hlater, List.filter_append]
          simp [hhistory]

/-- The first occurrences stand in the order in which they occur. -/
theorem pairwise_eraseDups (history : List String) :
    history.eraseDups.Pairwise fun id other => history.idxOf id < history.idxOf other := by
  induction history using List.reverseRecOn with
  | nil => simp
  | append_singleton history id ih =>
      have hkeep : (history.eraseDups).Pairwise fun first second =>
          (history ++ [id]).idxOf first < (history ++ [id]).idxOf second := by
        refine ih.imp_of_mem fun hfirst hsecond hlt => ?_
        rwa [List.idxOf_append_of_mem (List.mem_eraseDups.1 hfirst),
          List.idxOf_append_of_mem (List.mem_eraseDups.1 hsecond)]
      rw [eraseDups_concat]
      by_cases h : id ∈ history
      · rwa [if_pos h]
      · rw [if_neg h, List.pairwise_append]
        refine ⟨hkeep, List.pairwise_singleton _ _, fun first hfirst second hsecond => ?_⟩
        obtain rfl := List.mem_singleton.1 hsecond
        have hmem := List.mem_eraseDups.1 hfirst
        have hlt := List.idxOf_lt_length_iff.2 hmem
        rw [List.idxOf_append_of_mem hmem, List.idxOf_append_of_notMem h]
        omega

/-- No first occurrence stands twice. -/
theorem nodup_eraseDups (history : List String) : history.eraseDups.Nodup :=
  (pairwise_eraseDups history).imp fun {id other} hlt (heq : id = other) => by
    rw [heq] at hlt
    exact Nat.lt_irrefl _ hlt

/-! ## Registering -/

namespace Catalog

variable {catalog : Catalog} {history : List String}

/-- `catalog.Records history` holds when `catalog` knows the identifiers in `history` and describes
the first occurrence of each. -/
structure Records (catalog : Catalog) (history : List String) : Prop where
  mem_seen : ∀ id, id ∈ catalog.seen ↔ id ∈ history
  rules : catalog.rules.toList = history.eraseDups.map Rule.describe

theorem records_empty : empty.Records [] where
  mem_seen := by simp [empty]
  rules := rfl

/-- A registration adds one identifier to what the catalogue records. -/
theorem Records.insert (h : catalog.Records history) (id : String) :
    (catalog.insert id).2.Records (history ++ [id]) := by
  by_cases hid : id ∈ history
  · rw [insert_of_mem ((h.mem_seen id).2 hid)]
    refine ⟨fun other => ?_, ?_⟩
    · rw [h.mem_seen, List.mem_append, List.mem_singleton]
      constructor
      · exact .inl
      · rintro (hother | rfl)
        · exact hother
        · exact hid
    · rw [h.rules, eraseDups_concat, if_pos hid]
  · rw [insert_of_not_mem (mt (h.mem_seen id).1 hid)]
    refine ⟨fun other => ?_, ?_⟩
    · rw [Std.HashSet.mem_insert, h.mem_seen, beq_iff_eq, List.mem_append, List.mem_singleton,
        or_comm, eq_comm]
    · rw [Array.toList_push, h.rules, eraseDups_concat, if_neg hid, List.map_append,
        List.map_singleton]

/-- A run of registrations adds its identifiers one after the other. -/
theorem Records.register (h : catalog.Records history) (ids : List String) :
    (catalog.register ids).2.Records (history ++ ids) := by
  induction ids generalizing catalog history with
  | nil =>
      rw [List.append_nil]
      exact h
  | cons id ids ih =>
      have hrest := ih (h.insert id)
      rwa [List.append_assoc, List.singleton_append] at hrest

/-- A run of registrations reports the first occurrences that the catalogue did not record before,
in their order. -/
theorem Records.register_events (h : catalog.Records history) (ids : List String) :
    history.eraseDups.map Log.Event.newRule ++ (catalog.register ids).1 =
      (history ++ ids).eraseDups.map Log.Event.newRule := by
  induction ids generalizing catalog history with
  | nil =>
      rw [List.append_nil]
      exact List.append_nil _
  | cons id ids ih =>
      have hrest := ih (h.insert id)
      rw [List.append_assoc, List.singleton_append] at hrest
      rw [← hrest, eraseDups_concat, Catalog.register]
      by_cases hid : id ∈ history
      · rw [insert_of_mem ((h.mem_seen id).2 hid), if_pos hid]
        rfl
      · rw [insert_of_not_mem (mt (h.mem_seen id).1 hid), if_neg hid, List.map_append,
          List.append_assoc]
        rfl

end Catalog

end LintSarif.Sarif
