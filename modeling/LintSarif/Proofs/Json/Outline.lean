import LintSarif.Proofs.Json.Layout

/-!
# The outline of a printed value

A printed value starts a new line at each item, each member and each closing bracket, indented by
the depth of nesting, and nowhere else. So its lines and their indentation are known from its shape
(`outline`), whatever its strings and numbers are. Read `outlined_write` first.
-/

namespace LintSarif.Json

open Text

/-! ## Indentation of a text -/

/-- `indents cs` are the numbers of blanks at the start of the lines of `cs`, the first line left
out. -/
def indents : List Char → List Nat
  | [] => []
  | c :: cs => if c = '\n' then (cs.takeWhile (· = ' ')).length :: indents cs else indents cs

/-- There is one indentation for each line feed. -/
theorem length_indents (cs : List Char) : (indents cs).length = cs.count '\n' := by
  induction cs with
  | nil => rfl
  | cons c cs ih => by_cases h : c = '\n' <;> simp [indents, h, ih]

/-- A text without a line feed is one line. -/
theorem indents_of_not_mem {cs : List Char} (h : '\n' ∉ cs) : indents cs = [] := by
  rw [← List.length_eq_zero_iff, length_indents]
  exact List.count_eq_zero.2 h

/-- A text that does not start with a blank leaves the indentation of the lines in front of it as it
is. -/
theorem indents_append (before : List Char) {after : List Char} (h : after.head? ≠ some ' ') :
    indents (before ++ after) = indents before ++ indents after := by
  have hnone : after.takeWhile (· = ' ') = [] := by
    cases after with
    | nil => rfl
    | cons c after => simpa using h
  induction before with
  | nil => rfl
  | cons c before ih =>
      -- A line that `before` breaks off inside its indentation is not indented further.
      have hblanks : (before ++ after).takeWhile (· = ' ') = before.takeWhile (· = ' ') := by
        rw [List.takeWhile_append]
        split
        · next hall =>
            rw [hnone, List.append_nil]
            exact ((List.takeWhile_prefix _).eq_of_length hall).symm
        · rfl
      rw [List.cons_append, indents, indents, ih, hblanks]
      split <;> rfl

/-! ## Pieces of a printed value -/

/-- `Outlined lines cs` holds when `cs`, which does not start with a blank, has lines of the given
indentation behind its first and no control character but the line feeds. -/
structure Outlined (lines : List Nat) (cs : List Char) : Prop where
  indents : indents cs = lines
  noControl : ∀ c ∈ cs, c < ' ' → c = '\n'
  head : cs.head? ≠ some ' '

theorem Outlined.append {lines others : List Nat} {cs ds : List Char} (hcs : Outlined lines cs)
    (hds : Outlined others ds) : Outlined (lines ++ others) (cs ++ ds) := by
  refine ⟨?_, List.forall_mem_append.2 ⟨hcs.noControl, hds.noControl⟩, ?_⟩
  · rw [indents_append cs hds.head, hcs.indents, hds.indents]
  · rw [List.head?_append]
    cases h : cs.head? with
    | none => simpa [h] using hds.head
    | some c => simpa [h] using hcs.head

/-- A text without control characters is one line. -/
theorem outlined_of_noControl {cs : List Char} (h : ∀ c ∈ cs, ¬ c < ' ')
    (hhead : cs.head? ≠ some ' ') : Outlined [] cs where
  indents := indents_of_not_mem fun hmem => h '\n' hmem (by decide)
  noControl c hc hlt := absurd hlt (h c hc)
  head := hhead

theorem outlined_nil : Outlined [] [] :=
  outlined_of_noControl (List.forall_mem_nil _) (by simp)

theorem outlined_singleton {c : Char} (h : ' ' < c) : Outlined [] [c] :=
  outlined_of_noControl (List.forall_mem_singleton.2 (Char.lt_asymm h))
    (by simpa using (Char.ne_of_lt h).symm)

theorem outlined_quoted (cs : List Char) : Outlined [] (quoted cs) := by
  have hletters : escapeLetters.any (fun c => decide (c < ' ')) = false := by
    decide
  refine outlined_of_noControl (fun c hc hlt => ?_) (by simp [quoted])
  rcases mem_quoted hc with ⟨-, hplain⟩ | hletter
  · exact hplain hlt
  · exact List.any_eq_false.1 hletters c hletter (decide_eq_true hlt)

theorem outlined_ofInt (n : Int) : Outlined [] (Numeral.ofInt n) := by
  have hdigit : ∀ c ∈ Numeral.ofInt n, ' ' < c := by
    intro c hc
    rcases Numeral.mem_ofInt hc with rfl | hc
    · decide
    · exact Nat.lt_of_lt_of_le (by decide) (Char.isDigit_iff_toNat.1 hc).1
  refine outlined_of_noControl (fun c hc => Char.lt_asymm (hdigit c hc)) fun hhead => ?_
  exact Char.lt_irrefl _ (hdigit ' ' (List.mem_of_head? hhead))

theorem outlined_newline (depth : Nat) : Outlined [2 * depth] (newline depth) where
  indents := by
    have hblanks : indents (List.replicate (2 * depth) ' ') = [] :=
      indents_of_not_mem (by simp)
    simp [newline, Json.indents, hblanks]
  noControl := by
    intro c hc hlt
    rcases List.mem_cons.1 hc with rfl | hc
    · rfl
    · rw [List.eq_of_mem_replicate hc] at hlt
      exact absurd hlt (by decide)
  head := by
    simp [newline]

/-! ## The outline of a value -/

mutual
/-- `v.outline depth` are the indentations of the lines of `v` behind its first, when `v` stands
inside `depth` brackets. -/
def outline (depth : Nat) : Json → List Nat
  | .str _ => []
  | .int _ => []
  | .arr [] => []
  | .arr (item :: items) =>
    2 * (depth + 1) :: outline (depth + 1) item ++ itemsOutline (depth + 1) items ++ [2 * depth]
  | .obj [] => []
  | .obj ((_, value) :: members) =>
    2 * (depth + 1) :: outline (depth + 1) value ++ membersOutline (depth + 1) members ++
      [2 * depth]

/-- `itemsOutline depth items` are the indentations of the lines of `items`, each of which starts a
line of its own. -/
def itemsOutline (depth : Nat) : List Json → List Nat
  | [] => []
  | item :: items => 2 * depth :: outline depth item ++ itemsOutline depth items

/-- `membersOutline depth members` are the indentations of the lines of `members`, each of which
starts a line of its own. -/
def membersOutline (depth : Nat) : List (String × Json) → List Nat
  | [] => []
  | (_, value) :: members => 2 * depth :: outline depth value ++ membersOutline depth members
end

/-- Brackets start a line for what stands between them and one for the closing bracket. -/
theorem Outlined.enclosed {lines : List Nat} {cs : List Char} (h : Outlined lines cs) (depth : Nat)
    {opening closing : Char} (hopening : ' ' < opening) (hclosing : ' ' < closing) :
    Outlined (2 * (depth + 1) :: lines ++ [2 * depth])
      (opening :: newline (depth + 1) ++ cs ++ newline depth ++ [closing]) := by
  have hfirst := (outlined_singleton hopening).append (outlined_newline (depth + 1))
  have hlast := (outlined_newline depth).append (outlined_singleton hclosing)
  simpa using (hfirst.append h).append hlast

/-- A comma in front of an item or a member has a new line behind it. -/
theorem Outlined.separated {lines : List Nat} {cs : List Char} (h : Outlined lines cs)
    (depth : Nat) : Outlined (2 * depth :: lines) (',' :: newline depth ++ cs) :=
  ((outlined_singleton (by decide)).append (outlined_newline depth)).append h

/-- The name of a member stands on the first line of its value. -/
theorem Outlined.named {lines : List Nat} {cs : List Char} (h : Outlined lines cs)
    (name : String) : Outlined lines (quoted name.toList ++ [':', ' '] ++ cs) := by
  have hcolon : Outlined [] [':', ' '] := outlined_of_noControl (by simp) (by simp)
  simpa using ((outlined_quoted name.toList).append hcolon).append h

mutual
/-- A value is written in lines of its outline. -/
theorem outlined_write (depth : Nat) (v : Json) : Outlined (v.outline depth) (write depth v) := by
  cases v with
  | str text => exact outlined_quoted text.toList
  | int n => exact outlined_ofInt n
  | arr items =>
      cases items with
      | nil => exact (outlined_singleton (by decide)).append (outlined_singleton (by decide))
      | cons item items =>
          have hitems :=
            (outlined_write (depth + 1) item).append (outlined_writeItems (depth + 1) items)
          simpa [write, outline] using hitems.enclosed depth (by decide) (by decide)
  | obj members =>
      cases members with
      | nil => exact (outlined_singleton (by decide)).append (outlined_singleton (by decide))
      | cons member members =>
          obtain ⟨name, v⟩ := member
          have hmembers := ((outlined_write (depth + 1) v).named name).append
            (outlined_writeMembers (depth + 1) members)
          simpa [write, outline] using hmembers.enclosed depth (by decide) (by decide)
termination_by sizeOf v

/-- So are the items of an array behind its first. -/
theorem outlined_writeItems (depth : Nat) (items : List Json) :
    Outlined (itemsOutline depth items) (writeItems depth items) := by
  cases items with
  | nil => exact outlined_nil
  | cons item items =>
      exact ((outlined_write depth item).separated depth).append (outlined_writeItems depth items)
termination_by sizeOf items

/-- So are the members of an object behind its first. -/
theorem outlined_writeMembers (depth : Nat) (members : List (String × Json)) :
    Outlined (membersOutline depth members) (writeMembers depth members) := by
  cases members with
  | nil => exact outlined_nil
  | cons member members =>
      obtain ⟨name, v⟩ := member
      have hmember := ((outlined_write depth v).named name).separated depth
      simpa [writeMembers, membersOutline] using
        hmember.append (outlined_writeMembers depth members)
termination_by sizeOf members
end

/-! ## Lists of one kind of item -/

/-- `arrayOutline depth lines n` are the indentations of the lines of an array of `n` items, each of
which has the given lines behind its first. An array of no items has no lines of its own. -/
def arrayOutline (depth : Nat) (lines : List Nat) (n : Nat) : List Nat :=
  if n = 0 then []
  else (List.replicate n (2 * (depth + 1) :: lines)).flatten ++ [2 * depth]

theorem length_arrayOutline (depth : Nat) (lines : List Nat) (n : Nat) :
    (arrayOutline depth lines n).length = if n = 0 then 0 else n * (lines.length + 1) + 1 := by
  unfold arrayOutline
  split
  · rfl
  · simp

/-- Items that are made in one way and have the same lines make an array of such items. -/
theorem outline_arr_map {α : Type} {f : α → Json} {lines : List Nat} (depth : Nat)
    (h : ∀ a, (f a).outline (depth + 1) = lines) (as : List α) :
    (Json.arr (as.map f)).outline depth = arrayOutline depth lines as.length := by
  have hitems : itemsOutline (depth + 1) (as.map f) =
      (List.replicate as.length (2 * (depth + 1) :: lines)).flatten := by
    induction as with
    | nil => rfl
    | cons a as ih =>
        rw [List.map_cons, itemsOutline, h, ih]
        rfl
  cases as with
  | nil => rfl
  | cons a as =>
      show itemsOutline (depth + 1) ((a :: as).map f) ++ [2 * depth] = _
      rw [hitems]
      rfl

end LintSarif.Json
