import LintSarif.Json.Printer
import LintSarif.Proofs.Json.Reading
import LintSarif.Proofs.Text.Numeral

/-!
# The printer writes texts of the grammar

What the printer writes for a value is a text of that value, at any depth of nesting
(`denotes_write`). The strict reader therefore reads it back (`parse?_print`), and different values
have different texts (`print_injective`).
-/

namespace LintSarif.Json

open Text

/-! ## Numbers -/

/-- The digits written for a number have no superfluous zero. -/
theorem denotesNat_digits (n : Nat) : DenotesNat (Numeral.digits n) n := by
  refine ⟨Nat.toDigits_ne_nil, fun _ => Numeral.isDigit_of_mem_digits, fun hhead => ?_,
    Numeral.value_digits n⟩
  rcases Nat.eq_zero_or_pos n with rfl | hn
  · rfl
  · obtain ⟨c, ds, heq, hc⟩ := Numeral.exists_digits_cons hn
    rw [heq, List.head?_cons, Option.some.injEq] at hhead
    contradiction

theorem denotesInt_ofInt (n : Int) : DenotesInt (Numeral.ofInt n) n := by
  cases n with
  | ofNat n => exact .nonneg (denotesNat_digits n)
  | negSucc n => exact .neg (denotesNat_digits (n + 1))

/-! ## Strings -/

/-- Every character is written as a text of it. -/
theorem denotesChar_escape (c : Char) : DenotesChar (escape c) c := by
  rw [escape.eq_def]
  split
  case h_8 hquote hbackslash _ _ _ _ _ =>
    split
    · next hcontrol =>
        have hlt : c.toNat < 32 := hcontrol
        refine .unit ?_
        have hunit : CodeUnit ['0', '0', (c.toNat / 16).digitChar, (c.toNat % 16).digitChar]
            (((0 * 16 + 0) * 16 + c.toNat / 16) * 16 + c.toNat % 16) :=
          .digits ⟨by decide, .inl rfl⟩ ⟨by decide, .inl rfl⟩ ⟨by omega, .inl rfl⟩
            ⟨by omega, .inl rfl⟩
        have hvalue : ((0 * 16 + 0) * 16 + c.toNat / 16) * 16 + c.toNat % 16 = c.toNat := by
          omega
        rwa [hvalue] at hunit
    · next hcontrol => exact .plain (Char.not_lt.1 hcontrol) hquote hbackslash
  all_goals exact .letter (by decide)

theorem denotesChars_flatMap_escape (cs : List Char) : DenotesChars (cs.flatMap escape) cs := by
  induction cs with
  | nil => exact .nil
  | cons c cs ih => exact .cons (denotesChar_escape c) ih

theorem denotesString_quoted (text : String) : DenotesString (quoted text.toList) text := by
  have h := DenotesString.quoted (denotesChars_flatMap_escape text.toList)
  rwa [String.ofList_toList] at h

/-! ## Values -/

theorem spaces_nil : Spaces [] :=
  fun _ h => absurd h List.not_mem_nil

theorem spaces_newline (depth : Nat) : Spaces (newline depth) := by
  intro c hc
  rcases List.mem_cons.1 hc with rfl | hc
  · decide
  · rw [List.eq_of_mem_replicate hc]
    decide

mutual
/-- What is written for a value is a text of it. -/
theorem denotes_write (depth : Nat) (v : Json) : Denotes (write depth v) v := by
  cases v with
  | str text => exact .str (denotesString_quoted text)
  | int n => exact .int (denotesInt_ofInt n)
  | arr items =>
      cases items with
      | nil => exact .emptyArr spaces_nil
      | cons item items =>
          have hitems := denotesItems_write (depth + 1) (spaces_newline (depth + 1))
            (spaces_newline depth) item items
          simpa [write] using Denotes.arr hitems
  | obj members =>
      cases members with
      | nil => exact .emptyObj spaces_nil
      | cons member members =>
          obtain ⟨name, v⟩ := member
          have hmembers := denotesMembers_write (depth + 1) (spaces_newline (depth + 1))
            (spaces_newline depth) name v members
          simpa [write] using Denotes.obj hmembers
termination_by sizeOf v

/-- The items of an array are written one after the other, each on a line of its own. -/
theorem denotesItems_write (depth : Nat) {before after : List Char} (hbefore : Spaces before)
    (hafter : Spaces after) (item : Json) (items : List Json) :
    DenotesItems (before ++ write depth item ++ writeItems depth items ++ after)
      (item :: items) := by
  have hitem := denotes_write depth item
  cases items with
  | nil => simpa [writeItems] using DenotesItems.one (.spaced hbefore hitem hafter)
  | cons next items =>
      have hitems := denotesItems_write depth (spaces_newline depth) hafter next items
      simpa [writeItems] using DenotesItems.cons (.spaced hbefore hitem spaces_nil) hitems
termination_by sizeOf item + sizeOf items + 1

/-- The members of an object are written one after the other, each on a line of its own. -/
theorem denotesMembers_write (depth : Nat) {before after : List Char} (hbefore : Spaces before)
    (hafter : Spaces after) (name : String) (v : Json) (members : List (String × Json)) :
    DenotesMembers (before ++ quoted name.toList ++ [':', ' '] ++ write depth v ++
      writeMembers depth members ++ after) ((name, v) :: members) := by
  have hspace : Spaces [' '] := by
    simp [Spaces, spaces]
  have hname := denotesString_quoted name
  have hv := denotes_write depth v
  cases members with
  | nil =>
      have hmember : DenotesMember _ name v :=
        .named hbefore hname spaces_nil (.spaced hspace hv hafter)
      simpa [writeMembers] using DenotesMembers.one hmember
  | cons next members =>
      obtain ⟨nextName, next⟩ := next
      have hmember : DenotesMember _ name v :=
        .named hbefore hname spaces_nil (.spaced hspace hv spaces_nil)
      have hmembers :=
        denotesMembers_write depth (spaces_newline depth) hafter nextName next members
      simpa [writeMembers] using DenotesMembers.cons hmember hmembers
termination_by sizeOf v + sizeOf members + 1
end

/-- A printed value is a text of that value, with nothing around it. -/
theorem denotes_print (v : Json) : Denotes v.print.toList v := by
  unfold print
  rw [String.toList_ofList]
  exact denotes_write 0 v

/-- A text with nothing around it is a text. -/
theorem Denotes.isText {cs : List Char} {v : Json} (h : Denotes cs v) : IsText cs v := by
  simpa using IsText.spaced spaces_nil h spaces_nil

/-- The strict reader reads back what was printed. -/
theorem parse?_print (v : Json) : parse? v.print = some v :=
  parse?_eq_some_iff.2 (denotes_print v).isText

/-- Different values have different texts. -/
theorem print_injective {v w : Json} (h : v.print = w.print) : v = w := by
  have hv := (denotes_print v).isText
  rw [h] at hv
  exact hv.unique (denotes_print w).isText

end LintSarif.Json
