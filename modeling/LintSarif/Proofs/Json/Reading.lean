import LintSarif.Proofs.Json.Scalar

/-!
# Reading JSON texts

The strict reader accepts the texts of the grammar and no others, and it answers the value that a
text denotes. Read `parse?_eq_some_iff` first. Since a reader answers at most one value, a text
denotes at most one (`IsText.unique`).
-/

namespace LintSarif.Json

variable {cs rest : List Char} {fuel : Nat}

/-! ## Spaces -/

theorem isSpace_iff {c : Char} : isSpace c = true ↔ c ∈ spaces := by
  simp [isSpace, spaces, or_assoc]

/-- A space is no digit. -/
theorem isDigit_of_mem_spaces {c : Char} (h : c ∈ spaces) : c.isDigit = false := by
  simp only [spaces, List.mem_cons, List.not_mem_nil, or_false] at h
  rcases h with rfl | rfl | rfl | rfl <;> rfl

/-- A digit is no space. -/
theorem isSpace_of_isDigit {c : Char} (h : c.isDigit = true) : isSpace c = false := by
  by_contra hspace
  rw [isDigit_of_mem_spaces (isSpace_iff.1 (Bool.of_not_eq_false hspace))] at h
  contradiction

theorem skip_append {before : List Char} (h : Spaces before) (rest : List Char) :
    skip (before ++ rest) = skip rest :=
  List.dropWhile_append_of_pos fun c hc => isSpace_iff.2 (h c hc)

theorem skip_cons {c : Char} (h : isSpace c = false) (rest : List Char) :
    skip (c :: rest) = c :: rest :=
  List.dropWhile_cons_of_neg (by simp [h])

/-- Spaces are skipped up to the first other character. -/
theorem skip_append_cons {before : List Char} {c : Char} (h : Spaces before)
    (hc : isSpace c = false) (rest : List Char) : skip (before ++ c :: rest) = c :: rest := by
  rw [skip_append h, skip_cons hc]

theorem skip_skip (cs : List Char) : skip (skip cs) = skip cs :=
  List.dropWhile_idempotent _ cs

/-- What is skipped are spaces. -/
theorem exists_skip (cs : List Char) : ∃ before, Spaces before ∧ cs = before ++ skip cs :=
  ⟨cs.takeWhile isSpace, fun _ hc => isSpace_iff.1 (List.mem_takeWhile_imp hc),
    List.takeWhile_append_dropWhile.symm⟩

/-- Spaces in front of a text without a digit at its head put no digit there. -/
theorem dropWhile_spaces_append {after : List Char} (h : Spaces after)
    (hrest : rest.dropWhile Char.isDigit = rest) :
    (after ++ rest).dropWhile Char.isDigit = after ++ rest := by
  cases after with
  | nil => exact hrest
  | cons c after => simp [isDigit_of_mem_spaces (h c (by simp))]

/-! ## One step of the reader -/

theorem value?_skip (fuel : Nat) (cs : List Char) : value? fuel (skip cs) = value? fuel cs := by
  cases fuel with
  | zero => rfl
  | succ fuel => rw [value?, value?, skip_skip]

theorem items?_skip (fuel : Nat) (cs : List Char) : items? fuel (skip cs) = items? fuel cs := by
  cases fuel with
  | zero => rfl
  | succ fuel => rw [items?, items?, value?_skip]

theorem members?_skip (fuel : Nat) (cs : List Char) :
    members? fuel (skip cs) = members? fuel cs := by
  cases fuel with
  | zero => rfl
  | succ fuel => rw [members?, members?, skip_skip]

theorem value?_str {text : String} (h : string? ('"' :: cs) = some (text, rest)) :
    value? (fuel + 1) ('"' :: cs) = some (.str text, rest) := by
  rw [value?, skip_cons rfl]
  simp only [h, Option.map_some]

theorem value?_int {c : Char} {n : Int} (hc : c.isDigit = true ∨ c = '-')
    (h : integer? (c :: cs) = some (n, rest)) :
    value? (fuel + 1) (c :: cs) = some (.int n, rest) := by
  have hspace : isSpace c = false := by
    rcases hc with hc | rfl
    · exact isSpace_of_isDigit hc
    · rfl
  rw [value?, skip_cons hspace]
  split
  case h_4 =>
    rw [h]
    rfl
  all_goals
    next heq =>
      obtain ⟨rfl, -⟩ := List.cons.inj heq
      exact absurd hc (by decide)

theorem value?_emptyArr (hcs : Spaces cs) (rest : List Char) :
    value? (fuel + 1) ('[' :: (cs ++ ']' :: rest)) = some (.arr [], rest) := by
  have hskip : skip (cs ++ ']' :: rest) = ']' :: rest :=
    skip_append_cons hcs rfl rest
  rw [value?, skip_cons rfl]
  simp only [hskip]

theorem value?_emptyObj (hcs : Spaces cs) (rest : List Char) :
    value? (fuel + 1) ('{' :: (cs ++ '}' :: rest)) = some (.obj [], rest) := by
  have hskip : skip (cs ++ '}' :: rest) = '}' :: rest :=
    skip_append_cons hcs rfl rest
  rw [value?, skip_cons rfl]
  simp only [hskip]

theorem value?_arr {items : List Json} (hstart : ∀ tail, skip cs ≠ ']' :: tail)
    (h : items? fuel cs = some (items, rest)) :
    value? (fuel + 1) ('[' :: cs) = some (.arr items, rest) := by
  rw [value?, skip_cons rfl]
  simp only [items?_skip, h, Option.map_some]

theorem value?_obj {members : List (String × Json)} (hstart : ∀ tail, skip cs ≠ '}' :: tail)
    (h : members? fuel cs = some (members, rest)) :
    value? (fuel + 1) ('{' :: cs) = some (.obj members, rest) := by
  rw [value?, skip_cons rfl]
  simp only [members?_skip, h, Option.map_some]

theorem items?_one {v : Json} {after : List Char}
    (h : value? fuel cs = some (v, after ++ ']' :: rest)) (hafter : Spaces after) :
    items? (fuel + 1) cs = some ([v], rest) := by
  have hskip : skip (after ++ ']' :: rest) = ']' :: rest :=
    skip_append_cons hafter rfl rest
  simp [items?, h, hskip]

theorem items?_cons {v : Json} {items : List Json} {after more : List Char}
    (h : value? fuel cs = some (v, after ++ ',' :: more)) (hafter : Spaces after)
    (hmore : items? fuel more = some (items, rest)) :
    items? (fuel + 1) cs = some (v :: items, rest) := by
  have hskip : skip (after ++ ',' :: more) = ',' :: more :=
    skip_append_cons hafter rfl more
  simp [items?, h, hskip, hmore]

section Members

variable {name : String} {v : Json} {between more after : List Char}
  (hname : string? (skip cs) = some (name, between ++ ':' :: more)) (hbetween : Spaces between)
include hname hbetween

theorem members?_one (hvalue : value? fuel more = some (v, after ++ '}' :: rest))
    (hafter : Spaces after) : members? (fuel + 1) cs = some ([(name, v)], rest) := by
  have hcolon : skip (between ++ ':' :: more) = ':' :: more :=
    skip_append_cons hbetween rfl more
  have hskip : skip (after ++ '}' :: rest) = '}' :: rest :=
    skip_append_cons hafter rfl rest
  simp [members?, hname, hcolon, hvalue, hskip]

theorem members?_cons {members : List (String × Json)} {others : List Char}
    (hvalue : value? fuel more = some (v, after ++ ',' :: others)) (hafter : Spaces after)
    (hothers : members? fuel others = some (members, rest)) :
    members? (fuel + 1) cs = some ((name, v) :: members, rest) := by
  have hcolon : skip (between ++ ':' :: more) = ':' :: more :=
    skip_append_cons hbetween rfl more
  have hskip : skip (after ++ ',' :: others) = ',' :: others :=
    skip_append_cons hafter rfl others
  simp [members?, hname, hcolon, hvalue, hskip, hothers]

end Members

/-! ## The texts of the grammar are read -/

/-- The first character of a value is no space and closes nothing. -/
theorem Denotes.exists_cons {v : Json} (h : Denotes cs v) :
    ∃ c tail, cs = c :: tail ∧ isSpace c = false ∧ c ≠ ']' := by
  cases h with
  | str hstring =>
      cases hstring
      exact ⟨'"', _, rfl, rfl, by decide⟩
  | int hint =>
      cases hint with
      | nonneg hnat =>
          obtain ⟨c, tail, rfl, hc⟩ := hnat.exists_cons
          refine ⟨c, tail, rfl, isSpace_of_isDigit hc, ?_⟩
          rintro rfl
          contradiction
      | neg => exact ⟨'-', _, rfl, rfl, by decide⟩
  | emptyArr | arr => exact ⟨'[', _, rfl, rfl, by decide⟩
  | emptyObj | obj => exact ⟨'{', _, rfl, rfl, by decide⟩

/-- What stands between the brackets of an array does not start with the closing one. -/
theorem DenotesItems.skip_append_ne {items : List Json} (h : DenotesItems cs items)
    (rest tail : List Char) : skip (cs ++ rest) ≠ ']' :: tail := by
  have htext : ∀ {cs v}, IsText cs v → ∀ rest, skip (cs ++ rest) ≠ ']' :: tail := by
    rintro _ v ⟨hbefore, hv, -⟩ rest heq
    obtain ⟨c, more, rfl, hspace, hc⟩ := hv.exists_cons
    rw [List.append_assoc, List.append_assoc, skip_append hbefore, List.cons_append,
      skip_cons hspace] at heq
    exact hc (List.cons.inj heq).1
  cases h with
  | one hv => exact htext hv rest
  | cons hv _ =>
      rw [List.append_assoc]
      exact htext hv _

/-- What stands between the braces of an object does not start with the closing one. -/
theorem DenotesMembers.skip_append_ne {members : List (String × Json)}
    (h : DenotesMembers cs members) (rest tail : List Char) : skip (cs ++ rest) ≠ '}' :: tail := by
  have hmember : ∀ {cs name v}, DenotesMember cs name v →
      ∀ rest, skip (cs ++ rest) ≠ '}' :: tail := by
    rintro _ name v ⟨hbefore, ⟨-⟩, -, -⟩ rest heq
    simp only [List.append_assoc, List.cons_append, skip_append hbefore] at heq
    rw [skip_cons rfl] at heq
    exact absurd (List.cons.inj heq).1 (by decide)
  cases h with
  | one hm => exact hmember hm rest
  | cons hm _ =>
      rw [List.append_assoc]
      exact hmember hm _

/-- Spaces in front of a value make no difference. -/
theorem value?_append_spaces {before : List Char} (h : Spaces before) (fuel : Nat)
    (cs : List Char) : value? fuel (before ++ cs) = value? fuel cs := by
  rw [← value?_skip, skip_append h, value?_skip]

mutual
/-- A text of the grammar is read as its value when no digit follows it. Each value uses up two
characters of fuel at least, one for itself and one for its place among the items or members. -/
theorem Denotes.value?_append {cs : List Char} {v : Json} (h : Denotes cs v) (fuel : Nat)
    (hfuel : 2 * cs.length ≤ fuel) (rest : List Char) (hrest : rest.dropWhile Char.isDigit = rest) :
    value? fuel (cs ++ rest) = some (v, rest) := by
  have hne : fuel ≠ 0 := by
    obtain ⟨c, tail, rfl, -⟩ := h.exists_cons
    rw [List.length_cons] at hfuel
    omega
  cases fuel with
  | zero => contradiction
  | succ fuel =>
      cases h with
      | str hstring =>
          have hread := string?_append hstring rest
          cases hstring
          exact value?_str hread
      | int hint =>
          have hread := integer?_append hint hrest
          cases hint with
          | nonneg hnat =>
              obtain ⟨c, tail, rfl, hc⟩ := hnat.exists_cons
              exact value?_int (.inl hc) hread
          | neg => exact value?_int (.inr rfl) hread
      | emptyArr hcs => simpa using value?_emptyArr hcs rest
      | emptyObj hcs => simpa using value?_emptyObj hcs rest
      | arr hitems =>
          simp only [List.length_append, List.length_cons] at hfuel
          have hread := hitems.items?_append fuel (by omega) rest
          simpa using value?_arr (hitems.skip_append_ne _) hread
      | obj hmembers =>
          simp only [List.length_append, List.length_cons] at hfuel
          have hread := hmembers.members?_append fuel (by omega) rest
          simpa using value?_obj (hmembers.skip_append_ne _) hread
termination_by 3 * fuel
decreasing_by all_goals omega

/-- A text with spaces around it is read up to the spaces behind its value. -/
theorem IsText.value?_append {cs : List Char} {v : Json} (h : IsText cs v) (fuel : Nat)
    (hfuel : 2 * cs.length ≤ fuel) (rest : List Char) (hrest : rest.dropWhile Char.isDigit = rest) :
    ∃ after, Spaces after ∧ value? fuel (cs ++ rest) = some (v, after ++ rest) := by
  cases h with
  | spaced hbefore hv hafter =>
      simp only [List.length_append] at hfuel
      refine ⟨_, hafter, ?_⟩
      rw [List.append_assoc, List.append_assoc, value?_append_spaces hbefore]
      exact hv.value?_append fuel (by omega) _ (dropWhile_spaces_append hafter hrest)
termination_by 3 * fuel + 1
decreasing_by all_goals omega

/-- The items of an array are read with its closing bracket. -/
theorem DenotesItems.items?_append {cs : List Char} {items : List Json} (h : DenotesItems cs items)
    (fuel : Nat) (hfuel : 2 * cs.length < fuel) (rest : List Char) :
    items? fuel (cs ++ ']' :: rest) = some (items, rest) := by
  obtain ⟨fuel, rfl⟩ := Nat.exists_eq_succ_of_ne_zero (Nat.ne_of_gt (Nat.zero_lt_of_lt hfuel))
  cases h with
  | one hv =>
      obtain ⟨after, hafter, hread⟩ := hv.value?_append fuel (by omega) (']' :: rest) rfl
      exact items?_one hread hafter
  | @cons _ ds _ _ hv hitems =>
      simp only [List.length_append, List.length_cons] at hfuel
      rw [List.append_assoc, List.cons_append]
      obtain ⟨after, hafter, hread⟩ :=
        hv.value?_append fuel (by omega) (',' :: (ds ++ ']' :: rest)) rfl
      exact items?_cons hread hafter (hitems.items?_append fuel (by omega) rest)
termination_by 3 * fuel
decreasing_by all_goals omega

/-- The name, the colon and the value of a member are read one after the other. -/
theorem DenotesMember.read {cs : List Char} {name : String} {v : Json}
    (h : DenotesMember cs name v) (fuel : Nat) (hfuel : 2 * cs.length ≤ fuel) (rest : List Char)
    (hrest : rest.dropWhile Char.isDigit = rest) :
    ∃ between more after, Spaces between ∧ Spaces after ∧
      string? (skip (cs ++ rest)) = some (name, between ++ ':' :: more) ∧
      value? fuel more = some (v, after ++ rest) := by
  cases h with
  | named hbefore hname hbetween hv =>
      simp only [List.length_append, List.length_cons] at hfuel
      obtain ⟨after, hafter, hread⟩ := hv.value?_append fuel (by omega) rest hrest
      refine ⟨_, _, after, hbetween, hafter, ?_, hread⟩
      have hstring := string?_append hname
      cases hname
      simp only [List.append_assoc, List.cons_append, skip_append hbefore] at hstring ⊢
      rw [skip_cons rfl]
      exact hstring _
termination_by 3 * fuel + 2
decreasing_by all_goals omega

/-- The members of an object are read with its closing brace. -/
theorem DenotesMembers.members?_append {cs : List Char} {members : List (String × Json)}
    (h : DenotesMembers cs members) (fuel : Nat) (hfuel : 2 * cs.length < fuel)
    (rest : List Char) : members? fuel (cs ++ '}' :: rest) = some (members, rest) := by
  obtain ⟨fuel, rfl⟩ := Nat.exists_eq_succ_of_ne_zero (Nat.ne_of_gt (Nat.zero_lt_of_lt hfuel))
  cases h with
  | one hm =>
      obtain ⟨_, _, after, hbetween, hafter, hname, hread⟩ :=
        hm.read fuel (by omega) ('}' :: rest) rfl
      exact members?_one hname hbetween hread hafter
  | @cons _ ds _ _ _ hm hmembers =>
      simp only [List.length_append, List.length_cons] at hfuel
      rw [List.append_assoc, List.cons_append]
      obtain ⟨_, _, after, hbetween, hafter, hname, hread⟩ :=
        hm.read fuel (by omega) (',' :: (ds ++ '}' :: rest)) rfl
      have hothers := hmembers.members?_append fuel (by omega) rest
      exact members?_cons hname hbetween hread hafter hothers
termination_by 3 * fuel
decreasing_by all_goals omega
end

/-! ## What is read is a text of the grammar -/

/-- What remains after a character that ends a run of spaces. -/
theorem exists_of_skip_eq_cons {c : Char} (h : skip cs = c :: rest) :
    ∃ before, Spaces before ∧ cs = before ++ c :: rest := by
  obtain ⟨before, hbefore, hcs⟩ := exists_skip cs
  rw [h] at hcs
  exact ⟨before, hbefore, hcs⟩

mutual
/-- A value is read, behind spaces, from a text of it. -/
theorem value?_sound {fuel : Nat} {cs rest : List Char} {v : Json}
    (h : value? fuel cs = some (v, rest)) :
    ∃ before text, Spaces before ∧ Denotes text v ∧ cs = before ++ text ++ rest := by
  cases fuel with
  | zero => contradiction
  | succ fuel =>
      obtain ⟨before, hbefore, hcs⟩ := exists_skip cs
      rw [value?] at h
      split at h
      · next tail hopen =>
          rw [hopen] at hcs
          split at h
          · next hclose =>
              cases h
              obtain ⟨inner, hinner, rfl⟩ := exists_of_skip_eq_cons hclose
              exact ⟨before, _, hbefore, .emptyArr hinner, by simp [hcs]⟩
          · obtain ⟨⟨items, _⟩, hitems, heq⟩ := Option.map_eq_some_iff.1 h
            cases heq
            rw [items?_skip] at hitems
            obtain ⟨inner, hinner, rfl⟩ := items?_sound hitems
            exact ⟨before, _, hbefore, .arr hinner, by simp [hcs]⟩
      · next tail hopen =>
          rw [hopen] at hcs
          split at h
          · next hclose =>
              cases h
              obtain ⟨inner, hinner, rfl⟩ := exists_of_skip_eq_cons hclose
              exact ⟨before, _, hbefore, .emptyObj hinner, by simp [hcs]⟩
          · obtain ⟨⟨members, _⟩, hmembers, heq⟩ := Option.map_eq_some_iff.1 h
            cases heq
            rw [members?_skip] at hmembers
            obtain ⟨inner, hinner, rfl⟩ := members?_sound hmembers
            exact ⟨before, _, hbefore, .obj hinner, by simp [hcs]⟩
      · next hopen =>
          obtain ⟨⟨text, _⟩, hstring, heq⟩ := Option.map_eq_some_iff.1 h
          cases heq
          obtain ⟨ds, hds, heq⟩ := string?_sound hstring
          exact ⟨before, ds, hbefore, .str hds, by rw [hcs, hopen, heq, List.append_assoc]⟩
      · obtain ⟨⟨n, _⟩, hint, heq⟩ := Option.map_eq_some_iff.1 h
        cases heq
        obtain ⟨ds, hds, heq⟩ := integer?_sound hint
        exact ⟨before, ds, hbefore, .int hds, by rw [hcs, heq, List.append_assoc]⟩
termination_by fuel

/-- Items are read from what stands before a closing bracket. -/
theorem items?_sound {fuel : Nat} {cs rest : List Char} {items : List Json}
    (h : items? fuel cs = some (items, rest)) :
    ∃ text, DenotesItems text items ∧ cs = text ++ ']' :: rest := by
  cases fuel with
  | zero => contradiction
  | succ fuel =>
      simp only [items?, bind, Option.bind_eq_some_iff] at h
      obtain ⟨⟨v, cs'⟩, hvalue, h⟩ := h
      obtain ⟨before, text, hbefore, htext, rfl⟩ := value?_sound hvalue
      dsimp only at h
      split at h
      · next hcomma =>
          simp only [Option.bind_eq_some_iff] at h
          obtain ⟨⟨items, _⟩, hitems, heq⟩ := h
          cases heq
          obtain ⟨after, hafter, rfl⟩ := exists_of_skip_eq_cons hcomma
          obtain ⟨others, hothers, rfl⟩ := items?_sound hitems
          exact ⟨_, .cons (.spaced hbefore htext hafter) hothers, by simp⟩
      · next hclose =>
          cases h
          obtain ⟨after, hafter, rfl⟩ := exists_of_skip_eq_cons hclose
          exact ⟨_, .one (.spaced hbefore htext hafter), by simp⟩
      · contradiction
termination_by fuel

/-- Members are read from what stands before a closing brace. -/
theorem members?_sound {fuel : Nat} {cs rest : List Char} {members : List (String × Json)}
    (h : members? fuel cs = some (members, rest)) :
    ∃ text, DenotesMembers text members ∧ cs = text ++ '}' :: rest := by
  cases fuel with
  | zero => contradiction
  | succ fuel =>
      simp only [members?, bind, Option.bind_eq_some_iff] at h
      obtain ⟨⟨name, cs₁⟩, hname, _, hcolon, ⟨v, cs₂⟩, hvalue, h⟩ := h
      obtain ⟨before, hbefore, hcs⟩ := exists_skip cs
      obtain ⟨quotedName, hquoted, heq⟩ := string?_sound hname
      obtain ⟨between, hbetween, rfl⟩ :=
        exists_of_skip_eq_cons (Text.literal?_eq_some_iff.1 hcolon)
      obtain ⟨front, text, hfront, htext, rfl⟩ := value?_sound hvalue
      rw [heq] at hcs
      dsimp only at h
      split at h
      · next hcomma =>
          simp only [Option.bind_eq_some_iff] at h
          obtain ⟨⟨members, _⟩, hmembers, heq⟩ := h
          cases heq
          obtain ⟨after, hafter, rfl⟩ := exists_of_skip_eq_cons hcomma
          obtain ⟨others, hothers, rfl⟩ := members?_sound hmembers
          exact ⟨_, .cons (.named hbefore hquoted hbetween (.spaced hfront htext hafter)) hothers,
            by simp [hcs]⟩
      · next hclose =>
          cases h
          obtain ⟨after, hafter, rfl⟩ := exists_of_skip_eq_cons hclose
          exact ⟨_, .one (.named hbefore hquoted hbetween (.spaced hfront htext hafter)),
            by simp [hcs]⟩
      · contradiction
termination_by fuel
end

/-! ## The reader and the grammar -/

/-- The strict reader answers `v` exactly when the whole text is a text of `v`. -/
theorem parse?_eq_some_iff {text : String} {v : Json} :
    parse? text = some v ↔ IsText text.toList v := by
  simp only [parse?, bind, Option.bind_eq_some_iff]
  constructor
  · rintro ⟨⟨_, rest⟩, hvalue, h⟩
    dsimp only at h
    split at h
    · next hskip =>
        cases h
        obtain ⟨before, cs, hbefore, hcs, heq⟩ := value?_sound hvalue
        obtain ⟨after, hafter, hrest⟩ := exists_skip rest
        rw [hskip, List.append_nil] at hrest
        rw [heq, hrest]
        exact .spaced hbefore hcs hafter
    · contradiction
  · intro h
    obtain ⟨after, hafter, hread⟩ :=
      h.value?_append (2 * text.toList.length + 2) (by omega) [] rfl
    rw [List.append_nil, List.append_nil] at hread
    refine ⟨_, hread, ?_⟩
    have hskip : skip after = [] := by
      rw [← List.append_nil after, skip_append hafter]
      rfl
    simp [hskip]

/-- A text denotes at most one value. -/
theorem IsText.unique {cs : List Char} {v w : Json} (hv : IsText cs v) (hw : IsText cs w) :
    v = w := by
  have hread {u : Json} (hu : IsText cs u) : parse? (String.ofList cs) = some u :=
    parse?_eq_some_iff.2 (by rwa [String.toList_ofList])
  exact Option.some.inj ((hread hv).symm.trans (hread hw))

end LintSarif.Json
