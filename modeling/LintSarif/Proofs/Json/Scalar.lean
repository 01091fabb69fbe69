import LintSarif.Json.Grammar
import LintSarif.Json.Quoted
import LintSarif.Json.Reader
import LintSarif.Proofs.Text.Token

/-!
# Strings and numbers of JSON

The readers of strings and of integers agree with the grammar: each text of the grammar is read as
what it denotes, whatever follows it, and nothing else is read.
-/

namespace LintSarif.Json

variable {cs rest : List Char}

/-! ## Hexadecimal digits -/

/-- A hexadecimal digit is read as its value. -/
theorem hexDigit?_of_hexDigit {c : Char} {n : Nat} (h : HexDigit c n) : hexDigit? c = some n := by
  have hall : ∀ n < 16,
      hexDigit? n.digitChar = some n ∧ hexDigit? n.digitChar.toUpper = some n := by
    decide
  obtain ⟨hlt, rfl | rfl⟩ := h
  · exact (hall n hlt).1
  · exact (hall n hlt).2

/-- What is read as a hexadecimal digit is one. -/
theorem hexDigit?_sound {c : Char} {n : Nat} (h : hexDigit? c = some n) : HexDigit c n := by
  have hall : ∀ k < 103, ∀ n ∈ hexDigit? (Char.ofNat k), HexDigit (Char.ofNat k) n := by
    decide
  have hlt : c.toNat < 103 := by
    rw [hexDigit?] at h
    split at h
    · next hdigit => exact Nat.lt_of_le_of_lt (Char.isDigit_iff_toNat.1 hdigit).2 (by decide)
    · split at h
      · next hlower => exact Nat.lt_of_le_of_lt hlower.2 (by decide)
      · split at h
        · next hupper => exact Nat.lt_of_le_of_lt hupper.2 (by decide)
        · contradiction
  have hc := hall c.toNat hlt
  rw [Char.ofNat_toNat] at hc
  exact hc n h

/-- Four hexadecimal digits are below 0x10000. -/
theorem CodeUnit.lt {n : Nat} (h : CodeUnit cs n) : n < 0x10000 := by
  obtain ⟨h₁, h₂, h₃, h₄⟩ := h
  have := h₁.1
  have := h₂.1
  have := h₃.1
  have := h₄.1
  omega

theorem codeUnit?_append {n : Nat} (h : CodeUnit cs n) (rest : List Char) :
    codeUnit? (cs ++ rest) = some (n, rest) := by
  obtain ⟨h₁, h₂, h₃, h₄⟩ := h
  simp [codeUnit?, hexDigit?_of_hexDigit h₁, hexDigit?_of_hexDigit h₂, hexDigit?_of_hexDigit h₃,
    hexDigit?_of_hexDigit h₄]

theorem codeUnit?_sound {n : Nat} (h : codeUnit? cs = some (n, rest)) :
    ∃ ds, CodeUnit ds n ∧ cs = ds ++ rest := by
  rw [codeUnit?.eq_def] at h
  split at h
  · next c₁ c₂ c₃ c₄ _ =>
      simp only [bind, Option.bind_eq_some_iff] at h
      obtain ⟨n₁, h₁, n₂, h₂, n₃, h₃, n₄, h₄, heq⟩ := h
      cases heq
      exact ⟨[c₁, c₂, c₃, c₄], .digits (hexDigit?_sound h₁) (hexDigit?_sound h₂)
        (hexDigit?_sound h₃) (hexDigit?_sound h₄), rfl⟩
  · contradiction

/-! ## Characters of a string -/

/-- A code unit that is no surrogate is read as its character. -/
theorem unicode?_append {c : Char} (h : CodeUnit cs c.toNat) (rest : List Char) :
    unicode? (cs ++ rest) = some (c, rest) := by
  have hvalid : c.toNat < 0xd800 ∨ 0xdfff < c.toNat ∧ c.toNat < 0x110000 := c.valid
  have hhigh : ¬ (0xd800 ≤ c.toNat ∧ c.toNat < 0xdc00) := by omega
  have hlow : ¬ (0xdc00 ≤ c.toNat ∧ c.toNat < 0xe000) := by omega
  simp [unicode?, codeUnit?_append h, hhigh, hlow]

/-- Two surrogates are read as one character. -/
theorem unicode?_append_pair {ds : List Char} {high low : Nat} {c : Char} (hcs : CodeUnit cs high)
    (hhigh : 0xd800 ≤ high ∧ high < 0xdc00) (hds : CodeUnit ds low)
    (hlow : 0xdc00 ≤ low ∧ low < 0xe000)
    (hc : c.toNat = 0x10000 + (high - 0xd800) * 0x400 + (low - 0xdc00)) (rest : List Char) :
    unicode? (cs ++ '\\' :: 'u' :: ds ++ rest) = some (c, rest) := by
  have hliteral : Text.literal? ['\\', 'u'] ('\\' :: 'u' :: (ds ++ rest)) = some (ds ++ rest) :=
    Text.literal?_append ['\\', 'u'] (ds ++ rest)
  simp only [unicode?, List.append_assoc, List.cons_append, codeUnit?_append hcs, bind,
    Option.bind_some, if_pos hhigh, hliteral, codeUnit?_append hds, if_pos hlow, ← hc,
    Char.ofNat_toNat]
  rfl

/-- The character with a valid number has that number. -/
theorem toNat_ofNat {n : Nat} (h : n.isValidChar) : (Char.ofNat n).toNat = n := by
  unfold Char.ofNat
  rw [dif_pos h]
  rfl

/-- What is read behind the letter `u` is a character of the grammar. -/
theorem unicode?_sound {c : Char} (h : unicode? cs = some (c, rest)) :
    ∃ ds, DenotesChar ('\\' :: 'u' :: ds) c ∧ cs = ds ++ rest := by
  simp only [unicode?, bind, Option.bind_eq_some_iff] at h
  obtain ⟨⟨high, _⟩, hhigh, h⟩ := h
  obtain ⟨ds, hds, rfl⟩ := codeUnit?_sound hhigh
  have hlt := hds.lt
  split at h
  · next hrange =>
      simp only [Option.bind_eq_some_iff, Text.literal?_eq_some_iff] at h
      obtain ⟨_, rfl, ⟨low, _⟩, hlow, h⟩ := h
      obtain ⟨es, hes, rfl⟩ := codeUnit?_sound hlow
      split at h
      · next hlrange =>
          simp only [pure, Option.some.injEq, Prod.mk.injEq] at h
          obtain ⟨rfl, rfl⟩ := h
          have hvalid :
              (0x10000 + (high - 0xd800) * 0x400 + (low - 0xdc00)).isValidChar := by
            unfold Nat.isValidChar
            omega
          refine ⟨ds ++ '\\' :: 'u' :: es, .pair hds hrange hes hlrange ?_, by simp⟩
          rw [toNat_ofNat hvalid]
      · contradiction
  · next hhigh =>
      split at h
      · contradiction
      · next hlow =>
          simp only [pure, Option.some.injEq, Prod.mk.injEq] at h
          obtain ⟨rfl, rfl⟩ := h
          have hvalid : high.isValidChar := by
            unfold Nat.isValidChar
            omega
          refine ⟨ds, .unit ?_, rfl⟩
          rwa [toNat_ofNat hvalid]

/-- A letter behind a backslash is read as the character that it escapes. -/
theorem escaped?_letter {l c : Char} (h : (l, c) ∈ letterEscapes) (rest : List Char) :
    escaped? (l :: rest) = some (c, rest) := by
  simp only [letterEscapes, List.mem_cons, Prod.mk.injEq, List.not_mem_nil, or_false] at h
  rcases h with ⟨rfl, rfl⟩ | ⟨rfl, rfl⟩ | ⟨rfl, rfl⟩ | ⟨rfl, rfl⟩ | ⟨rfl, rfl⟩ | ⟨rfl, rfl⟩ |
    ⟨rfl, rfl⟩ | ⟨rfl, rfl⟩ <;> rfl

/-- What is read behind a backslash is a character of the grammar. -/
theorem escaped?_sound {c : Char} (h : escaped? cs = some (c, rest)) :
    ∃ ds, DenotesChar ('\\' :: ds) c ∧ cs = ds ++ rest := by
  rw [escaped?.eq_def] at h
  split at h
  case h_9 =>
    obtain ⟨ds, hds, rfl⟩ := unicode?_sound h
    exact ⟨'u' :: ds, hds, rfl⟩
  case h_10 => contradiction
  all_goals
    cases h
    exact ⟨[_], .letter (by decide), rfl⟩

/-- A character of the grammar is read as itself, and the rest of the string is read behind it. -/
theorem unquote?_append_char {c : Char} (h : DenotesChar cs c) (fuel : Nat) (rest : List Char) :
    unquote? (fuel + 1) (cs ++ rest) =
      (unquote? fuel rest).bind fun (text, rest) => some (c :: text, rest) := by
  cases h with
  | plain hc hquote hslash =>
      have hnot : ¬ c < ' ' := Nat.not_lt.2 hc
      simp [unquote?, hnot]
  | letter hmem =>
      simp [unquote?, escaped?_letter hmem]
  | unit hunit =>
      simp [unquote?, escaped?, unicode?_append hunit]
  | pair hcs hhigh hds hlow hc =>
      have hpair := unicode?_append_pair hcs hhigh hds hlow hc rest
      simp only [List.append_assoc, List.cons_append] at hpair
      simp [unquote?, escaped?, hpair]

/-- The characters of a string are read up to the quotation mark behind them. -/
theorem unquote?_append {text : List Char} (h : DenotesChars cs text) {fuel : Nat}
    (hfuel : text.length < fuel) (rest : List Char) :
    unquote? fuel (cs ++ '"' :: rest) = some (text, rest) := by
  induction h generalizing fuel with
  | nil =>
      obtain ⟨fuel, rfl⟩ := Nat.exists_eq_succ_of_ne_zero (Nat.ne_of_gt hfuel)
      rfl
  | cons hchar _ ih =>
      obtain ⟨fuel, rfl⟩ := Nat.exists_eq_succ_of_ne_zero (Nat.ne_of_gt (Nat.zero_lt_of_lt hfuel))
      rw [List.append_assoc, unquote?_append_char hchar, ih (Nat.lt_of_succ_lt_succ hfuel)]
      rfl

/-- What is read up to a quotation mark are characters of the grammar. -/
theorem unquote?_sound {fuel : Nat} {text : List Char}
    (h : unquote? fuel cs = some (text, rest)) :
    ∃ ds, DenotesChars ds text ∧ cs = ds ++ '"' :: rest := by
  fun_induction unquote? fuel cs generalizing text with
  | case1 => contradiction
  | case2 fuel cs =>
      cases h
      exact ⟨[], .nil, rfl⟩
  | case3 fuel cs ih =>
      simp only [bind, Option.bind_eq_some_iff] at h
      obtain ⟨⟨c, cs'⟩, hescaped, ⟨text', rest'⟩, hread, heq⟩ := h
      cases heq
      obtain ⟨ds, hchar, rfl⟩ := escaped?_sound hescaped
      obtain ⟨es, hchars, rfl⟩ := ih cs' hread
      exact ⟨_, .cons hchar hchars, by simp⟩
  | case4 => contradiction
  | case5 fuel c cs hquote hslash hcontrol ih =>
      simp only [bind, Option.bind_eq_some_iff] at h
      obtain ⟨⟨text', rest'⟩, hread, heq⟩ := h
      cases heq
      obtain ⟨ds, hchars, rfl⟩ := ih hread
      exact ⟨_, .cons (.plain (Nat.not_lt.1 hcontrol) hquote hslash) hchars, rfl⟩
  | case6 => contradiction

/-- There are at least as many characters in the text of a string as the string has. -/
theorem DenotesChars.length_le {text : List Char} (h : DenotesChars cs text) :
    text.length ≤ cs.length := by
  induction h with
  | nil => exact Nat.le_refl _
  | cons hchar _ ih =>
      rw [List.length_cons, List.length_append]
      cases hchar <;> simp <;> omega

/-- A string of the grammar is read as its text. -/
theorem string?_append {text : String} (h : DenotesString cs text) (rest : List Char) :
    string? (cs ++ rest) = some (text, rest) := by
  obtain @⟨cs, text, hchars⟩ := h
  have hfuel : text.length < (cs ++ '"' :: rest).length + 1 := by
    have hlength := hchars.length_le
    simp only [List.length_append]
    omega
  have hread := unquote?_append hchars hfuel rest
  rw [List.append_assoc, List.cons_append]
  simp only [string?, List.cons_append, List.nil_append, hread]
  rfl

/-- What is read as a string is a string of the grammar. -/
theorem string?_sound {text : String} (h : string? cs = some (text, rest)) :
    ∃ ds, DenotesString ds text ∧ cs = ds ++ rest := by
  rw [string?.eq_def] at h
  split at h
  · obtain ⟨⟨text, _⟩, hread, heq⟩ := Option.map_eq_some_iff.1 h
    cases heq
    obtain ⟨ds, hchars, rfl⟩ := unquote?_sound hread
    exact ⟨_, .quoted hchars, by simp⟩
  · contradiction

/-! ## Integers -/

/-- A number of the grammar is read as its value. -/
theorem natural?_append {n : Nat} (h : DenotesNat cs n)
    (hrest : rest.dropWhile Char.isDigit = rest) : natural? (cs ++ rest) = some (n, rest) := by
  obtain ⟨hne, hdigits, hzero, rfl⟩ := h
  rw [natural?.eq_def]
  split
  · next c tail heq =>
      have hcs : cs = ['0'] := hzero (by
        rw [← List.head?_append_of_ne_nil cs hne, heq]
        rfl)
      obtain rfl : rest = c :: tail := by
        simpa [hcs] using heq
      have hc : ¬ c.isDigit = true := List.dropWhile_eq_self_iff.1 hrest (by simp)
      rw [if_neg hc]
      exact Text.number?_append hne hdigits hrest
  · exact Text.number?_append hne hdigits hrest

/-- What is read as a number is a number of the grammar. -/
theorem natural?_sound {n : Nat} (h : natural? cs = some (n, rest)) :
    ∃ ds, DenotesNat ds n ∧ cs = ds ++ rest := by
  have hzero : ∀ c tail, cs = '0' :: c :: tail → ¬ c.isDigit = true := by
    rintro c tail rfl hc
    simp [natural?, hc] at h
  have hnumber : Text.number? cs = some (n, rest) := by
    rw [natural?.eq_def] at h
    split at h
    · split at h
      · contradiction
      · exact h
    · exact h
  obtain ⟨ds, hne, hdigits, rfl, hvalue⟩ := Text.number?_sound hnumber
  refine ⟨ds, ⟨hne, hdigits, fun hhead => ?_, hvalue⟩, rfl⟩
  obtain ⟨tail, rfl⟩ := List.head?_eq_some_iff.1 hhead
  cases tail with
  | nil => rfl
  | cons c tail => exact absurd (hdigits c (by simp)) (hzero c _ rfl)

/-- A number starts with a digit. -/
theorem DenotesNat.exists_cons {n : Nat} (h : DenotesNat cs n) :
    ∃ c tail, cs = c :: tail ∧ c.isDigit = true := by
  obtain ⟨c, tail, rfl⟩ := List.exists_cons_of_ne_nil h.1
  exact ⟨c, tail, rfl, h.2.1 c (by simp)⟩

/-- An integer of the grammar is read as its value. -/
theorem integer?_append {n : Int} (h : DenotesInt cs n)
    (hrest : rest.dropWhile Char.isDigit = rest) : integer? (cs ++ rest) = some (n, rest) := by
  cases h with
  | nonneg hnat =>
      obtain ⟨c, tail, rfl, hc⟩ := hnat.exists_cons
      rw [integer?.eq_def]
      split
      · next heq =>
          rw [(List.cons.inj heq).1] at hc
          contradiction
      · rw [natural?_append hnat hrest]
        rfl
  | neg hnat =>
      simp [integer?, natural?_append hnat hrest]

/-- What is read as an integer is an integer of the grammar. -/
theorem integer?_sound {n : Int} (h : integer? cs = some (n, rest)) :
    ∃ ds, DenotesInt ds n ∧ cs = ds ++ rest := by
  rw [integer?.eq_def] at h
  split at h
  · obtain ⟨⟨m, _⟩, hnat, heq⟩ := Option.map_eq_some_iff.1 h
    cases heq
    obtain ⟨ds, hds, rfl⟩ := natural?_sound hnat
    exact ⟨'-' :: ds, .neg hds, rfl⟩
  · obtain ⟨⟨m, _⟩, hnat, heq⟩ := Option.map_eq_some_iff.1 h
    cases heq
    obtain ⟨ds, hds, rfl⟩ := natural?_sound hnat
    exact ⟨ds, .nonneg hds, rfl⟩

end LintSarif.Json
