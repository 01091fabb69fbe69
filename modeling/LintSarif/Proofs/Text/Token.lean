import LintSarif.Severity
import Mathlib.Data.List.DropRight
import Mathlib.Data.List.TakeWhile

/-!
# What the token readers take

Every reader of `LintSarif.Text.Token` is described twice: what it answers at the head of a text
that starts with such a token, and what a text looks like when the reader accepts it. Runs that end
in front of a character of another kind are determined by the text, which is `run_append_cons_inj`.
What is dropped from the end of a text is described in the same way (`rdropWhile_append`).
-/

namespace LintSarif.Text

section Runs

variable {p : Char → Bool} {run run' rest rest' : List Char} {c c' : Char}

/-- A run of one kind of characters holds no character of another kind. -/
theorem not_mem_run (hrun : ∀ x ∈ run, p x = true) (hc : p c = false) : c ∉ run := by
  intro hmem
  rw [hrun c hmem] at hc
  contradiction

/-- A run of one kind of characters with no such character behind it is determined by the text. -/
theorem run_append_inj (hrun : ∀ x ∈ run, p x = true) (hrest : rest.dropWhile p = rest)
    (hrun' : ∀ x ∈ run', p x = true) (hrest' : rest'.dropWhile p = rest')
    (h : run ++ rest = run' ++ rest') : run = run' ∧ rest = rest' := by
  have hdrop := congrArg (List.dropWhile p) h
  rw [List.dropWhile_append_of_pos hrun, List.dropWhile_append_of_pos hrun', hrest, hrest'] at hdrop
  subst hdrop
  exact ⟨List.append_cancel_right h, rfl⟩

/-- A run of one kind of characters that ends in front of another kind is determined by the text. -/
theorem run_append_cons_inj (hrun : ∀ x ∈ run, p x = true) (hc : p c = false)
    (hrun' : ∀ x ∈ run', p x = true) (hc' : p c' = false)
    (h : run ++ c :: rest = run' ++ c' :: rest') : run = run' ∧ c = c' ∧ rest = rest' := by
  obtain ⟨hrun, hrest⟩ :=
    run_append_inj hrun (by simp [hc]) hrun' (by simp [hc']) h
  exact ⟨hrun, List.cons.inj hrest⟩

/-- A run with no such character behind it is no shorter than any run at the head of the text. -/
theorem run_length_le (hrun : ∀ x ∈ run, p x = true) (hrest : rest.dropWhile p = rest)
    (hrun' : ∀ x ∈ run', p x = true) (h : run ++ rest = run' ++ rest') :
    run'.length ≤ run.length := by
  have hdrop := congrArg (List.dropWhile p) h
  rw [List.dropWhile_append_of_pos hrun, List.dropWhile_append_of_pos hrun', hrest] at hdrop
  have hlength := congrArg List.length h
  have hle := List.length_dropWhile_le p rest'
  rw [← hdrop] at hle
  simp only [List.length_append] at hlength
  omega

/-- The stretch in front of the first occurrence of a character is determined by the text. -/
theorem append_cons_inj_of_not_mem (hrun : c ∉ run) (hrun' : c ∉ run')
    (h : run ++ c :: rest = run' ++ c :: rest') : run = run' ∧ rest = rest' := by
  have hne : ∀ {xs : List Char}, c ∉ xs → ∀ x ∈ xs, (x != c) = true :=
    fun hxs x hx => bne_iff_ne.2 fun heq => hxs (heq ▸ hx)
  obtain ⟨hrun, -, hrest⟩ := run_append_cons_inj (hne hrun) (by simp) (hne hrun') (by simp) h
  exact ⟨hrun, hrest⟩

/-- The first character of a text belongs to any run at its head. -/
theorem mem_of_cons_eq_append (hne : run ≠ []) (h : c :: rest = run ++ rest') : c ∈ run := by
  obtain ⟨x, run, rfl⟩ := List.exists_cons_of_ne_nil hne
  rw [(List.cons.inj h).1]
  exact List.mem_cons_self

/-- When a text has a `c` at some place and also behind a stretch without `c`, the two are the same
`c` or the stretch and its `c` come first. -/
theorem eq_or_exists_of_append_cons {ahead : List Char} (hrun : c ∉ run)
    (h : ahead ++ c :: rest = run ++ c :: rest') :
    ahead = run ∧ rest = rest' ∨
      ∃ between, ahead = run ++ c :: between ∧ between ++ c :: rest = rest' := by
  rcases List.append_eq_append_iff.1 h with ⟨more, rfl, hrest⟩ | ⟨between, rfl, hrest⟩
  · cases more with
    | nil => exact .inl ⟨by simp, (List.cons.inj hrest).2⟩
    | cons x more =>
        rw [(List.cons.inj hrest).1] at hrun
        simp at hrun
  · cases between with
    | nil => exact .inl ⟨by simp, (List.cons.inj hrest).2.symm⟩
    | cons x between =>
        obtain ⟨rfl, hbetween⟩ := List.cons.inj hrest
        exact .inr ⟨between, rfl, hbetween.symm⟩

/-- A character that does not occur in the stretch at the head of a text occurs behind it. -/
theorem exists_append_cons_of_not_mem {ahead : List Char} (hrun : c ∉ run)
    (h : ahead ++ c :: rest = run ++ rest') : ∃ between, rest' = between ++ c :: rest := by
  rcases List.append_eq_append_iff.1 h with ⟨more, rfl, hrest⟩ | ⟨between, -, hrest⟩
  · cases more with
    | nil => exact ⟨[], hrest.symm⟩
    | cons x more =>
        rw [(List.cons.inj hrest).1] at hrun
        simp at hrun
  · exact ⟨between, hrest⟩

/-- A character that does not occur in the stretch at the end of a text occurs in front of it. -/
theorem exists_append_cons_of_not_mem_end {ahead : List Char} (hrun : c ∉ run)
    (h : ahead ++ c :: rest = rest' ++ run) :
    ∃ between, rest' = ahead ++ c :: between ∧ rest = between ++ run := by
  rcases List.append_eq_append_iff.1 h with ⟨more, hrest', hmore⟩ | ⟨more, -, rfl⟩
  · cases more with
    | nil =>
        rw [List.nil_append] at hmore
        simp [← hmore] at hrun
    | cons x more =>
        obtain ⟨rfl, hrest⟩ := List.cons.inj hmore
        exact ⟨more, hrest', hrest⟩
  · simp at hrun

/-- A property of texts holds of every text when it holds of the texts without the character `c`
and passes from the text behind the first `c` to the whole text. -/
theorem stretch_induction (c : Char) {motive : List Char → Prop}
    (last : ∀ cs, c ∉ cs → motive cs)
    (cons : ∀ stretch cs, c ∉ stretch → motive cs → motive (stretch ++ c :: cs)) (cs : List Char) :
    motive cs := by
  by_cases hmem : c ∈ cs
  · obtain ⟨stretch, rest, heq, hstretch⟩ := List.eq_append_cons_of_mem hmem
    have hlt : rest.length < cs.length := by
      simp [heq]
      omega
    rw [heq]
    exact cons stretch rest hstretch (stretch_induction c last cons rest)
  · exact last cs hmem
termination_by cs.length

end Runs

/-- A digit is no blank. -/
theorem isBlank_of_isDigit {c : Char} (h : c.isDigit = true) : isBlank c = false := by
  obtain ⟨hlow, hhigh⟩ : 48 ≤ c.toNat ∧ c.toNat ≤ 57 := Char.isDigit_iff_toNat.1 h
  simp [isBlank, blankRanges, Char.le_def, UInt32.le_iff_toNat_le]
  omega

section Ends

variable {p : Char → Bool} {cs run : List Char}

/-- Nothing is dropped from the end of a text that ends with another kind of character. -/
theorem rdropWhile_eq_self (h : ∀ c ∈ cs.getLast?, p c = false) : cs.rdropWhile p = cs := by
  refine List.rdropWhile_eq_self_iff.2 fun hne hlast => ?_
  rw [h _ (List.getLast?_eq_some_getLast hne)] at hlast
  contradiction

/-- The end of a text from which one kind of characters is dropped is of another kind. -/
theorem getLast?_rdropWhile {c : Char} (h : c ∈ (cs.rdropWhile p).getLast?) : p c = false := by
  obtain ⟨hne, rfl⟩ := List.mem_getLast?_eq_getLast h
  exact Bool.eq_false_iff.2 (List.rdropWhile_last_not p cs hne)

/-- A run of one kind of characters at the end of a text is all that is dropped there. -/
theorem rdropWhile_append (hcs : ∀ c ∈ cs.getLast?, p c = false) (hrun : ∀ c ∈ run, p c = true) :
    (cs ++ run).rdropWhile p = cs ∧ (cs ++ run).rtakeWhile p = run := by
  have hdrop : (cs ++ run).rdropWhile p = cs := by
    have hreverse : ∀ c ∈ run.reverse, p c = true := fun c hc => hrun c (List.mem_reverse.1 hc)
    unfold List.rdropWhile
    rw [List.reverse_append, List.dropWhile_append_of_pos hreverse]
    exact rdropWhile_eq_self hcs
  have hsplit := List.rdropWhile_append_rtakeWhile (p := p) (l := cs ++ run)
  rw [hdrop] at hsplit
  exact ⟨hdrop, List.append_cancel_left hsplit⟩

/-- A text falls apart behind the last of some characters. -/
theorem exists_append_of_last (c : Char) (cs : List Char) :
    ∃ before after, cs = before ++ after ∧ (∀ x ∈ before.getLast?, x = c) ∧ c ∉ after := by
  refine ⟨cs.rdropWhile (· != c), cs.rtakeWhile (· != c),
    List.rdropWhile_append_rtakeWhile.symm, fun x hx => ?_, fun hmem => ?_⟩
  · simpa using getLast?_rdropWhile hx
  · simpa using List.mem_rtakeWhile_imp hmem

/-- A text that ends with no blank is trimmed already. -/
theorem trimEnd_eq_self (h : ∀ c ∈ cs.getLast?, isBlank c = false) : trimEnd cs = cs :=
  rdropWhile_eq_self h

/-- The blanks behind a character that is none are dropped. -/
theorem trimEnd_append_cons {c : Char} (hc : isBlank c = false)
    (hrun : ∀ x ∈ run, isBlank x = true) : trimEnd (cs ++ c :: run) = cs ++ [c] := by
  have hlast : ∀ x ∈ (cs ++ [c]).getLast?, isBlank x = false := by
    simp [hc]
  have hdrop := (rdropWhile_append hlast hrun).1
  rwa [List.append_assoc] at hdrop

/-- Only blanks are missing at the end of a trimmed text. -/
theorem exists_trimEnd_append (cs : List Char) :
    ∃ gap, (∀ c ∈ gap, isBlank c = true) ∧ trimEnd cs ++ gap = cs :=
  ⟨cs.rtakeWhile isBlank, fun _ => List.mem_rtakeWhile_imp, List.rdropWhile_append_rtakeWhile⟩

end Ends

section Readers

variable {cs rest digits gap : List Char}

@[simp]
theorem literal?_append (token rest : List Char) : literal? token (token ++ rest) = some rest :=
  literal?_eq_some_iff.2 rfl

@[simp]
theorem literal?_singleton (c : Char) (rest : List Char) : literal? [c] (c :: rest) = some rest :=
  literal?_append [c] rest

/-- A run of digits with no digit behind it is read as a number. -/
theorem number?_append (hne : digits ≠ []) (hdigits : ∀ c ∈ digits, c.isDigit = true)
    (hrest : rest.dropWhile Char.isDigit = rest) :
    number? (digits ++ rest) = some (Numeral.value digits, rest) := by
  have hdrop : (digits ++ rest).dropWhile Char.isDigit = rest := by
    rw [List.dropWhile_append_of_pos hdigits, hrest]
  have htake : (digits ++ rest).takeWhile Char.isDigit = digits := by
    have hsplit := List.takeWhile_append_dropWhile (p := Char.isDigit) (l := digits ++ rest)
    rw [hdrop] at hsplit
    exact List.append_cancel_right hsplit
  rw [number?, htake, hdrop]
  split
  · contradiction
  · rfl

/-- What is read as a number is a run of digits. -/
theorem number?_sound {n : Nat} (h : number? cs = some (n, rest)) :
    ∃ digits : List Char, digits ≠ [] ∧ (∀ c ∈ digits, c.isDigit = true) ∧
      cs = digits ++ rest ∧ Numeral.value digits = n := by
  rw [number?] at h
  split at h
  · contradiction
  · next hne =>
      cases h
      exact ⟨_, hne, fun _ => List.mem_takeWhile_imp, List.takeWhile_append_dropWhile.symm, rfl⟩

/-- A run of blanks is read to its end. -/
theorem blanks?_append (hne : gap ≠ []) (hgap : ∀ c ∈ gap, isBlank c = true) (rest : List Char) :
    blanks? (gap ++ rest) = some (rest.dropWhile isBlank) := by
  cases gap with
  | nil => contradiction
  | cons c gap =>
      have hc : isBlank c = true := hgap c (by simp)
      have hdrop : (gap ++ rest).dropWhile isBlank = rest.dropWhile isBlank :=
        List.dropWhile_append_of_pos fun x hx => hgap x (by simp [hx])
      simp [blanks?, hc, hdrop]

/-- What is read as blanks is a run of blanks, and no blank follows it. -/
theorem blanks?_sound (h : blanks? cs = some rest) :
    ∃ gap : List Char, gap ≠ [] ∧ (∀ c ∈ gap, isBlank c = true) ∧ cs = gap ++ rest ∧
      rest.dropWhile isBlank = rest := by
  cases cs with
  | nil => cases h
  | cons c cs =>
      rw [blanks?] at h
      split at h
      · next hc =>
          cases h
          refine ⟨c :: cs.takeWhile isBlank, List.cons_ne_nil _ _, ?_, ?_,
            List.dropWhile_idempotent _ cs⟩
          · intro x hx
            rcases List.mem_cons.1 hx with rfl | hx
            · exact hc
            · exact List.mem_takeWhile_imp hx
          · rw [List.cons_append, List.takeWhile_append_dropWhile]
      · contradiction

end Readers

section ShortestRun

variable {α : Type} {read : List Char → Option α} {cs run : List Char} {a : α}

/-- After a shortest run the rest of the text is read. -/
theorem shortestRun?_sound (h : shortestRun? read cs = some (run, a)) :
    ∃ rest, cs = run ++ rest ∧ '\n' ∉ run ∧ read rest = some a := by
  induction cs generalizing run with
  | nil =>
      obtain ⟨_, hread, heq⟩ := Option.map_eq_some_iff.1 h
      cases heq
      exact ⟨[], rfl, List.not_mem_nil, hread⟩
  | cons c cs ih =>
      rw [shortestRun?] at h
      split at h
      · next hread =>
          cases h
          exact ⟨c :: cs, rfl, List.not_mem_nil, hread⟩
      · split at h
        · contradiction
        · next hc =>
            obtain ⟨⟨run', _⟩, hrun, heq⟩ := Option.map_eq_some_iff.1 h
            cases heq
            obtain ⟨rest, rfl, hmem, hread⟩ := ih hrun
            refine ⟨rest, rfl, ?_, hread⟩
            simp [Ne.symm hc, hmem]

/-- Where some run without line feeds leaves a text that is read, a shortest run is found, and it is
no longer. -/
theorem exists_shortestRun? {rest : List Char} (hrun : '\n' ∉ run) (hread : read rest = some a) :
    ∃ run' a', shortestRun? read (run ++ rest) = some (run', a') ∧ run'.length ≤ run.length := by
  induction run with
  | nil =>
      cases rest with
      | nil => exact ⟨[], a, by simp [shortestRun?, hread], Nat.le_refl _⟩
      | cons c rest => exact ⟨[], a, by simp [shortestRun?, hread], Nat.le_refl _⟩
  | cons c run ih =>
      rw [List.mem_cons, not_or] at hrun
      obtain ⟨run', a', hrest, hlength⟩ := ih hrun.2
      rw [List.cons_append, shortestRun?]
      cases read (c :: (run ++ rest)) with
      | some first => exact ⟨[], first, rfl, Nat.zero_le _⟩
      | none =>
          refine ⟨c :: run', a', ?_, Nat.succ_le_succ hlength⟩
          simp [Ne.symm hrun.1, hrest]

end ShortestRun

end LintSarif.Text

namespace LintSarif.Severity

/-- The word of a severity is found at the head of a text. -/
theorem word?_append (s : Severity) (rest : List Char) :
    word? (s.token.toList ++ rest) = some (s.token, rest) := by
  cases s <;> simp [word?, all, token, Text.literal?]

/-- What is found is a word, and it stands at the head of the text. -/
theorem word?_sound {word : String} {cs rest : List Char} (h : word? cs = some (word, rest)) :
    cs = word.toList ++ rest := by
  obtain ⟨s, -, h⟩ := List.exists_of_findSome?_eq_some h
  obtain ⟨_, hrest, heq⟩ := Option.map_eq_some_iff.1 h
  cases heq
  exact Text.literal?_eq_some_iff.1 hrest

/-- The word of a severity is read as that severity. -/
theorem read?_append (s : Severity) (rest : List Char) :
    read? (s.token.toList ++ rest) = some (s, rest) := by
  have htoken : ofToken? s.token = some s := ofToken?_eq_some_iff.2 rfl
  simp [read?, word?_append, htoken]

/-- A severity is read from its word. -/
theorem read?_sound {s : Severity} {cs rest : List Char} (h : read? cs = some (s, rest)) :
    cs = s.token.toList ++ rest := by
  obtain ⟨⟨word, after⟩, hword, h⟩ := Option.bind_eq_some_iff.1 h
  obtain ⟨s', htoken, h⟩ := Option.bind_eq_some_iff.1 h
  cases h
  rw [ofToken?_eq_some_iff.1 htoken]
  exact word?_sound hword

end LintSarif.Severity
