import LintSarif.Proofs.CommandLine.Items
import Mathlib.Data.List.Basic

/-!
# Which words are accepted

The reader of the command line goes from word to word and puts off some of its checks; the grammar
counts flags and lists paths. Read `parse_exact` first: both accept the same words, with the same
options, and refuse words of the right form for the same reasons. What one item does is `take_ok`;
`run_ok` and `run_eq_verdict` follow the items of a whole command line.
-/

namespace LintSarif.CommandLine

/-- `verdict paths verbose quiet` is what words of the right form ask for that hold `paths`, none of
them empty, and give the two flags so often. -/
def verdict (paths : List String) (verbose quiet : Nat) : Except Ending Options :=
  if 2 ≤ quiet ∨ 1 ≤ quiet ∧ 1 ≤ verbose then .error (.refused .conflictingFlags)
  else
    match paths with
    | [input, output] => .ok ⟨input, output, min verbose 255, quiet == 1⟩
    | _ => .error (.refused .missingPath)

variable {r next : Reading} {o : Options} {words : List String}

theorem verdict_of_conflict {paths : List String} {verbose quiet : Nat}
    (h : 2 ≤ quiet ∨ 1 ≤ quiet ∧ 1 ≤ verbose) :
    verdict paths verbose quiet = .error (.refused .conflictingFlags) :=
  if_pos h

/-! ## One item -/

/-- What follows a check of the paths is done when none of them is empty. -/
theorem checkPaths_bind {α : Type} (h : "" ∉ r.paths) (f : Unit → Except Ending α) :
    r.checkPaths >>= f = f () := by
  rw [Reading.checkPaths, if_neg h]
  rfl

/-- Nothing is answered behind a check of the paths unless none of them is empty. -/
theorem checkPaths_bind_eq_ok_iff {α : Type} {f : Unit → Except Ending α} {a : α} :
    r.checkPaths >>= f = .ok a ↔ "" ∉ r.paths ∧ f () = .ok a := by
  by_cases h : "" ∈ r.paths
  · rw [Reading.checkPaths, if_pos h]
    exact iff_of_false nofun fun hno => hno.1 h
  · rw [checkPaths_bind h]
    exact (and_iff_right h).symm

/-- A path is taken behind at most one other that is not empty. -/
theorem takePath_of_not_mem (h : "" ∉ r.paths) (hlength : r.paths.length ≠ 2) (word : String) :
    r.takePath word = .ok { r with paths := r.paths ++ [word] } := by
  rw [Reading.takePath, if_neg hlength, checkPaths_bind h]
  rfl

/-- The quiet flag is taken once. -/
theorem takeFlag_quiet_of_not_mem (h : "" ∉ r.paths) :
    r.takeFlag .quiet =
      if r.quiet then .error (.refused .conflictingFlags) else .ok { r with quiet := true } := by
  rw [Reading.takeFlag, checkPaths_bind h]
  rfl

theorem takeFlag_verbose_of_not_mem (h : "" ∉ r.paths) :
    r.takeFlag .verbose = .ok { r with verbose := r.verbose + 1 } := by
  rw [Reading.takeFlag, checkPaths_bind h]
  rfl

/-- An item that is taken is plain, and it adds the path that it is to the paths. -/
theorem take_ok {i : Item} (h : r.take i = .ok next) :
    i.Plain ∧ next.paths = r.paths ++ i.paths := by
  cases i with
  | refused error => contradiction
  | path word =>
      change r.takePath word = .ok next at h
      rw [Reading.takePath] at h
      split at h
      · contradiction
      · obtain ⟨-, h⟩ := checkPaths_bind_eq_ok_iff.1 h
        cases h
        exact ⟨.inr (.inr ⟨word, rfl⟩), rfl⟩
  | flag f =>
      obtain ⟨-, h⟩ := checkPaths_bind_eq_ok_iff.1 h
      cases f with
      | verbose =>
          cases h
          exact ⟨.inl rfl, (List.append_nil _).symm⟩
      | quiet =>
          dsimp only at h
          split at h
          · contradiction
          · cases h
            exact ⟨.inr (.inl rfl), (List.append_nil _).symm⟩
      | help => contradiction
      | version => contradiction

/-! ## The end of the words -/

/-- Options are answered for two paths, none of them empty. -/
theorem options_ok (h : r.options = .ok o) : "" ∉ r.paths ∧ r.paths.length = 2 := by
  obtain ⟨hnonempty, h⟩ := checkPaths_bind_eq_ok_iff.1 h
  refine ⟨hnonempty, ?_⟩
  change (if (r.quiet && r.verbose != 0) = true then _ else _) = _ at h
  split at h
  · contradiction
  · split at h
    · next hpaths =>
        rw [hpaths]
        rfl
    · contradiction

/-- At the end of a reading the verdict is on what was gathered. -/
theorem options_eq_verdict (h : "" ∉ r.paths) :
    r.options = verdict r.paths r.verbose r.quiet.toNat := by
  have hconflict : (r.quiet && r.verbose != 0) = true ↔
      2 ≤ r.quiet.toNat ∨ 1 ≤ r.quiet.toNat ∧ 1 ≤ r.verbose := by
    cases r.quiet
    · simp
    · simp [Nat.one_le_iff_ne_zero]
  have hquiet : (r.quiet.toNat == 1) = r.quiet := by
    cases r.quiet <;> rfl
  unfold Reading.options verdict
  rw [checkPaths_bind h, hquiet]
  show (if (r.quiet && r.verbose != 0) = true then _ else _) = _
  by_cases hflags : (r.quiet && r.verbose != 0) = true
  · rw [if_pos hflags, if_pos (hconflict.1 hflags)]
    rfl
  · rw [if_neg hflags, if_neg (mt hconflict.2 hflags)]
    rfl

/-! ## All items -/

/-- Words that are accepted have plain items only and two paths, none of them empty. -/
theorem run_ok {rest : List Item} (h : rest.foldlM Reading.take r >>= Reading.options = .ok o) :
    (∀ i ∈ rest, i.Plain) ∧ "" ∉ r.paths ++ rest.flatMap Item.paths ∧
      (r.paths ++ rest.flatMap Item.paths).length = 2 := by
  -- Over any reading, since each item is taken after those in front of it.
  induction rest generalizing r with
  | nil =>
      rw [List.flatMap_nil, List.append_nil]
      exact ⟨List.forall_mem_nil _, options_ok h⟩
  | cons i rest ih =>
      rw [List.foldlM_cons] at h
      cases hstep : r.take i with
      | error ending =>
          rw [hstep] at h
          contradiction
      | ok next =>
          rw [hstep] at h
          obtain ⟨hplain, hpaths⟩ := take_ok hstep
          obtain ⟨hrest, hnonempty, htwo⟩ := ih h
          rw [hpaths, List.append_assoc] at hnonempty htwo
          exact ⟨List.forall_mem_cons.2 ⟨hplain, hrest⟩, hnonempty, htwo⟩

/-- Plain items with at most two paths, none of them empty, are judged by their paths and by the
number of each flag, wherever the flags stand. -/
theorem run_eq_verdict {rest : List Item} (hplain : ∀ i ∈ rest, i.Plain)
    (hnonempty : "" ∉ r.paths ++ rest.flatMap Item.paths)
    (hlength : (r.paths ++ rest.flatMap Item.paths).length ≤ 2) :
    rest.foldlM Reading.take r >>= Reading.options =
      verdict (r.paths ++ rest.flatMap Item.paths) (r.verbose + rest.count (.flag .verbose))
        (r.quiet.toNat + rest.count (.flag .quiet)) := by
  induction rest generalizing r with
  | nil =>
      rw [List.flatMap_nil, List.append_nil] at hnonempty ⊢
      exact options_eq_verdict hnonempty
  | cons i rest ih =>
      have hread : "" ∉ r.paths := fun hmem => hnonempty (List.mem_append_left _ hmem)
      obtain ⟨hi, hrest⟩ := List.forall_mem_cons.1 hplain
      rw [List.foldlM_cons]
      rcases hi with rfl | rfl | ⟨word, rfl⟩
      · show r.takeFlag .verbose >>= _ >>= _ = _
        rw [takeFlag_verbose_of_not_mem hread, List.count_cons_self,
          List.count_cons_of_ne (by decide)]
        have hnext := @ih { r with verbose := r.verbose + 1 } hrest hnonempty hlength
        rw [Nat.add_comm (rest.count _), ← Nat.add_assoc]
        exact hnext
      · show r.takeFlag .quiet >>= _ >>= _ = _
        rw [takeFlag_quiet_of_not_mem hread, List.count_cons_self,
          List.count_cons_of_ne (by decide)]
        cases hquiet : r.quiet with
        | true =>
            -- The reader stops at the second quiet flag; the verdict is the same at the end.
            have htwice : 2 ≤ Bool.toNat true + (rest.count (.flag .quiet) + 1) := by
              rw [Bool.toNat_true]
              omega
            rw [verdict_of_conflict (.inl htwice)]
            rfl
        | false =>
            have hnext := @ih { r with quiet := true } hrest hnonempty hlength
            rw [Nat.add_comm (rest.count _), ← Nat.add_assoc]
            exact hnext
      · have hone : r.paths.length ≠ 2 := by
          rw [List.length_append, List.flatMap_cons, List.length_append] at hlength
          have hword : (Item.path word).paths.length = 1 := rfl
          omega
        rw [List.count_cons_of_ne (by simp), List.count_cons_of_ne (by simp)]
        have hpaths : r.paths ++ (Item.path word :: rest).flatMap Item.paths =
            r.paths ++ [word] ++ rest.flatMap Item.paths := by
          rw [List.append_assoc]
          rfl
        rw [hpaths] at hnonempty hlength ⊢
        show r.takePath word >>= _ >>= _ = _
        rw [takePath_of_not_mem hread hone]
        exact ih hrest hnonempty hlength

/-! ## All words -/

/-- Words are read item by item and then judged. -/
theorem parse_eq (words : List String) :
    parse words = (items words).foldlM Reading.take Reading.start >>= Reading.options := by
  rw [← takeWords_eq]
  rfl

/-- Words of the right form are judged by their paths and flags. -/
theorem parse_eq_verdict (hformed : Formed words) (hnonempty : "" ∉ paths words)
    (hlength : (paths words).length ≤ 2) :
    parse words = verdict (paths words) (given .verbose words) (given .quiet words) := by
  have hrun := @run_eq_verdict Reading.start (items words) ((plain_items_iff words).2 hformed)
  rw [flatMap_paths_items, count_items, count_items] at hrun
  rw [parse_eq, hrun hnonempty hlength]
  show verdict ([] ++ paths words) (0 + given .verbose words) (0 + given .quiet words) = _
  rw [List.nil_append, Nat.zero_add, Nat.zero_add]

/-- A verdict grants the two paths when the flags go together. -/
theorem verdict_eq_ok_iff {paths : List String} {verbose quiet : Nat} :
    verdict paths verbose quiet = .ok o ↔
      ¬ (2 ≤ quiet ∨ 1 ≤ quiet ∧ 1 ≤ verbose) ∧ paths = [o.input, o.output] ∧
        o.verbose = min verbose 255 ∧ (o.quiet = true ↔ quiet = 1) := by
  obtain ⟨input, output, count, isQuiet⟩ := o
  unfold verdict
  split
  · next h => simp [h]
  · next h =>
      split
      · next first second =>
          have hquiet : (quiet == 1) = isQuiet ↔ (isQuiet = true ↔ quiet = 1) := by
            rw [Bool.eq_iff_iff, beq_iff_eq]
            exact ⟨Iff.symm, Iff.symm⟩
          rw [Except.ok.injEq, Options.mk.injEq, hquiet]
          simp [h, and_assoc, eq_comm (b := count)]
      · next hpaths =>
          refine iff_of_false (by simp) ?_
          rintro ⟨-, rfl, -⟩
          exact hpaths _ _ rfl

/-- A verdict on at most two paths refuses flags that do not go together, and then too few paths. -/
theorem verdict_eq_error_iff {paths : List String} {verbose quiet : Nat} {ending : Ending}
    (hlength : paths.length ≤ 2) :
    verdict paths verbose quiet = .error ending ↔
      ending = .refused .conflictingFlags ∧ (2 ≤ quiet ∨ 1 ≤ quiet ∧ 1 ≤ verbose) ∨
      ending = .refused .missingPath ∧ ¬ (2 ≤ quiet ∨ 1 ≤ quiet ∧ 1 ≤ verbose) ∧
        paths.length < 2 := by
  unfold verdict
  split
  · next h => simp [h, eq_comm]
  · next h =>
      split
      · simp [h]
      · next hpaths =>
          have hshort : paths.length < 2 := by
            refine Nat.lt_of_le_of_ne hlength fun htwo => ?_
            obtain ⟨input, output, heq⟩ := List.length_eq_two.1 htwo
            exact hpaths input output heq
          simp [h, hshort, eq_comm]

/-- The level of the log by the number of flags. -/
theorem logLevel_name (hverbose : o.verbose = min (given .verbose words) 255)
    (hquiet : o.quiet = true ↔ given .quiet words = 1) : o.logLevel.name = levelName words := by
  unfold Options.logLevel levelName
  by_cases h : given .quiet words = 1
  · rw [if_pos h, if_pos (hquiet.2 h)]
    rfl
  · rw [if_neg h, if_neg (mt hquiet.1 h), hverbose]
    match given .verbose words with
    | 0 => rfl
    | 1 => rfl
    | 2 => rfl
    | n + 3 =>
        -- A count that is cut off at 255 is still one of three or more.
        obtain ⟨m, hm⟩ : ∃ m, min (n + 3) 255 = m + 3 := ⟨min (n + 3) 255 - 3, by omega⟩
        rw [hm]
        rfl

/-- Words are accepted with the options that they ask for. -/
theorem parse_eq_ok_iff : parse words = .ok o ↔ Accepted words ∧ Asked words o := by
  have hcompatible : ¬ Conflicting words ↔
      given .quiet words = 0 ∨ given .quiet words = 1 ∧ given .verbose words = 0 := by
    unfold Conflicting
    omega
  constructor
  · intro h
    have hrun := h
    rw [parse_eq] at hrun
    obtain ⟨hplain, hnonempty, htwo⟩ := run_ok hrun
    rw [flatMap_paths_items] at hnonempty htwo
    have hformed := (plain_items_iff words).1 hplain
    rw [parse_eq_verdict hformed hnonempty (Nat.le_of_eq htwo), verdict_eq_ok_iff] at h
    obtain ⟨hflags, hpaths, hverbose, hquiet⟩ := h
    exact ⟨⟨hformed, htwo, hnonempty, hcompatible.1 hflags⟩,
      ⟨hpaths, hverbose, hquiet, logLevel_name hverbose hquiet⟩⟩
  · rintro ⟨haccepted, hasked⟩
    rw [parse_eq_verdict haccepted.formed haccepted.nonempty (Nat.le_of_eq haccepted.two),
      verdict_eq_ok_iff]
    exact ⟨hcompatible.2 haccepted.compatible, hasked.paths, hasked.verbose, hasked.quiet⟩

/-- Accepted words ask for some options. -/
theorem exists_asked (h : Accepted words) : ∃ o, Asked words o := by
  obtain ⟨input, output, hpaths⟩ := List.length_eq_two.1 h.two
  have hquiet : (given .quiet words == 1) = true ↔ given .quiet words = 1 := beq_iff_eq
  exact ⟨⟨input, output, min (given .verbose words) 255, given .quiet words == 1⟩,
    hpaths, rfl, hquiet, logLevel_name rfl hquiet⟩

/-- Words with the same paths and as many flags ask for the same. -/
theorem accepted_asked_of_same {other : List String} (hother : Formed other)
    (hpaths : paths other = paths words) (hverbose : given .verbose other = given .verbose words)
    (hquiet : given .quiet other = given .quiet words) (h : Accepted words ∧ Asked words o) :
    Accepted other ∧ Asked other o := by
  obtain ⟨⟨-, htwo, hnonempty, hcompatible⟩, ⟨hasked, hcount, hsilent, hlevel⟩⟩ := h
  unfold levelName at hlevel
  rw [← hpaths] at htwo hnonempty hasked
  rw [← hverbose] at hcount hlevel hcompatible
  rw [← hquiet] at hsilent hlevel hcompatible
  exact ⟨⟨hother, htwo, hnonempty, hcompatible⟩, ⟨hasked, hcount, hsilent, hlevel⟩⟩

/-- The reader accepts exactly the words of the grammar, with the options that they ask for. Words
of the right form with at most two paths, none of them empty, are refused when their flags do not go
together, and otherwise when a path is missing, and for no other reason. Where the flags stand and
how they are put together makes no difference. -/
theorem parse_exact (words : List String) :
    ((∃ o, parse words = .ok o) ↔ Accepted words) ∧
    (∀ o, parse words = .ok o ↔ Accepted words ∧ Asked words o) ∧
    (Formed words → "" ∉ paths words → (paths words).length ≤ 2 → ∀ ending,
      (parse words = .error ending ↔
        ending = .refused .conflictingFlags ∧ Conflicting words ∨
        ending = .refused .missingPath ∧ ¬ Conflicting words ∧ (paths words).length < 2)) ∧
    ∀ other, Formed words → Formed other → paths other = paths words →
      given .verbose other = given .verbose words → given .quiet other = given .quiet words →
      ∀ o, parse other = .ok o ↔ parse words = .ok o := by
  refine ⟨⟨?_, ?_⟩, fun o => parse_eq_ok_iff, ?_, ?_⟩
  · rintro ⟨o, h⟩
    exact (parse_eq_ok_iff.1 h).1
  · intro h
    obtain ⟨o, hasked⟩ := exists_asked h
    exact ⟨o, parse_eq_ok_iff.2 ⟨h, hasked⟩⟩
  · intro hformed hnonempty hlength ending
    rw [parse_eq_verdict hformed hnonempty hlength]
    exact verdict_eq_error_iff hlength
  · intro other hformed hother hpaths hverbose hquiet o
    rw [parse_eq_ok_iff, parse_eq_ok_iff]
    constructor
    · exact accepted_asked_of_same hformed hpaths.symm hverbose.symm hquiet.symm
    · exact accepted_asked_of_same hother hpaths hverbose hquiet

/-- The word behind `--` is a path although it is spelled as a flag, and the two verbose flags may
be moved and taken apart. Flags that do not go together are refused before a missing path is. -/
theorem parse_exact_flags_moved :
    let words := ["in", "-vv", "--", "-q"]
    let moved := ["--verbose", "in", "-v", "--", "-q"]
    let clash := ["-q", "in", "-v"]
    (Accepted words ∧ parse words = .ok ⟨"in", "-q", 2, false⟩) ∧
    (Formed moved ∧ parse moved = .ok ⟨"in", "-q", 2, false⟩) ∧
    (Formed clash ∧ "" ∉ paths clash ∧ (paths clash).length = 1 ∧
      parse clash = .error (.refused .conflictingFlags)) := by
  intro words moved clash
  have haccepted : Accepted words :=
    ⟨by decide, by decide, by decide, by decide⟩
  have hasked : Asked words ⟨"in", "-q", 2, false⟩ :=
    ⟨by decide, by decide, by decide, by decide⟩
  have hwords : parse words = .ok ⟨"in", "-q", 2, false⟩ :=
    ((parse_exact words).2.1 _).2 ⟨haccepted, hasked⟩
  have hmoved : Formed moved := by
    decide
  have hclash : Formed clash ∧ "" ∉ paths clash ∧ (paths clash).length = 1 := by
    decide
  have hconflicting : Conflicting clash := by
    unfold Conflicting
    decide
  refine ⟨⟨haccepted, hwords⟩, ⟨hmoved, ?_⟩, hclash.1, hclash.2.1, hclash.2.2, ?_⟩
  · exact ((parse_exact words).2.2.2 moved haccepted.formed hmoved (by decide) (by decide)
      (by decide) _).2 hwords
  · exact ((parse_exact clash).2.2.1 hclash.1 hclash.2.1 (by omega) _).2 (.inl ⟨rfl, hconflicting⟩)

end LintSarif.CommandLine
