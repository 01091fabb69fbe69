import LintSarif.CommandLine.Grammar
import Mathlib.Data.List.TakeWhile

/-!
# Words as lists of items

A word in front of `--` is a path or a list of flags. Taking all words apart gives one list of
items, and reading the words is taking the items one by one (`takeWords_eq`). The paths and the
flags among the items are those that the grammar counts, so what holds of a run over items is said
of words by `flatMap_paths_items` and `count_items`.
-/

namespace LintSarif.CommandLine

/-- What a word, or a letter of a cluster, stands for. -/
inductive Item where
  | flag (f : Flag)
  | path (word : String)
  | refused (error : UsageError)
  deriving DecidableEq

namespace Item

/-- `ofLetter c` is what the letter `c` of a cluster stands for. -/
def ofLetter (c : Char) : Item :=
  match Flag.ofLetter? c with
  | some f => .flag f
  | none => .refused .unknownArgument

/-- `ofLong name hasValue` is what two dashes and a name stand for. -/
def ofLong (name : List Char) (hasValue : Bool) : Item :=
  match Flag.ofName? name with
  | none => .refused .unknownArgument
  | some f => if hasValue then .refused .unexpectedValue else .flag f

/-- `ofForm word form` are the items of a word in front of `--` that has the form `form`. -/
def ofForm (word : String) : Word → List Item
  | .separator => []
  | .long name hasValue => [ofLong name hasValue]
  | .cluster letters => letters.map ofLetter
  | .path => [.path word]

/-- `ofWord word` are the items of a word in front of `--`. -/
def ofWord (word : String) : List Item :=
  ofForm word (Word.ofString word)

/-- `i.paths` is the path that `i` is, if it is one. -/
def paths : Item → List String
  | .path word => [word]
  | _ => []

/-- `i.Plain` holds when `i` is a path, the verbose flag or the quiet flag. -/
def Plain (i : Item) : Prop :=
  i = .flag .verbose ∨ i = .flag .quiet ∨ ∃ word, i = .path word

end Item

/-- `items words` are the items of all words. -/
def items (words : List String) : List Item :=
  (leading words).flatMap Item.ofWord ++ (trailing words).map .path

/-- `r.take i` reads the item `i`. -/
def Reading.take (r : Reading) : Item → Except Ending Reading
  | .flag f => r.takeFlag f
  | .path word => r.takePath word
  | .refused error => .error (.refused error)

/-! ## Flags and forms -/

/-- A flag is found by its letter. -/
theorem Flag.ofLetter?_eq_some_iff {c : Char} {f : Flag} :
    Flag.ofLetter? c = some f ↔ f.letter = c := by
  constructor
  · intro h
    simpa using List.find?_some h
  · rintro rfl
    cases f <;> rfl

/-- A flag is found by its name. -/
theorem Flag.ofName?_eq_some_iff {name : List Char} {f : Flag} :
    Flag.ofName? name = some f ↔ f.name.toList = name := by
  constructor
  · intro h
    simpa using List.find?_some h
  · rintro rfl
    cases f <;> rfl

/-- `word.Shape w` says how `word` is spelled when its form is `w`. -/
inductive Word.Shape (word : String) : Word → Prop where
  | separator : word = "--" → Shape word .separator
  | long (cs : List Char) : word.toList = '-' :: '-' :: cs →
      Shape word (.long (cs.takeWhile (· ≠ '=')) (cs.contains '='))
  | cluster (c : Char) (cs : List Char) : c ≠ '-' → word.toList = '-' :: c :: cs →
      Shape word (.cluster (c :: cs))
  | path : isPath word = true → Shape word .path

/-- The form of a word tells how it is spelled. -/
theorem Word.shape_ofString (word : String) : Word.Shape word (Word.ofString word) := by
  unfold ofString
  split
  · next h => exact .separator (String.toList_inj.1 h)
  · next cs _ h => exact .long cs h
  · next c cs _ hdash h => exact .cluster c cs hdash h
  · next hlong hcluster =>
      refine .path ?_
      unfold isPath
      rw [Bool.or_eq_true, beq_iff_eq, bne_iff_ne]
      -- A word that starts with a dash and goes on has another form.
      cases h : word.toList with
      | nil => exact .inr (by simp)
      | cons c cs =>
          by_cases hc : c = '-'
          · subst hc
            cases cs with
            | nil => exact .inl (String.toList_inj.1 h)
            | cons d cs => exact absurd h (hcluster d cs)
          · exact .inr (by simpa using hc)

/-! ## Reading item by item -/

theorem takeLong_eq (r : Reading) (name : List Char) (hasValue : Bool) :
    r.takeLong name hasValue = r.take (Item.ofLong name hasValue) := by
  unfold Reading.takeLong Item.ofLong
  cases Flag.ofName? name with
  | none => rfl
  | some f => cases hasValue <;> rfl

/-- A cluster is read letter by letter. -/
theorem takeLetters_eq (r : Reading) (letters : List Char) :
    r.takeLetters letters = (letters.map Item.ofLetter).foldlM Reading.take r := by
  induction letters generalizing r with
  | nil => rfl
  | cons c cs ih =>
      rw [List.map_cons, List.foldlM_cons, Reading.takeLetters, Item.ofLetter]
      cases Flag.ofLetter? c with
      | none => rfl
      | some f => exact congrArg _ (funext fun next => ih next)

/-- A word in front of `--` is read item by item. -/
theorem takeWords_cons (r : Reading) {word : String} (hword : word ≠ "--") (words : List String) :
    r.takeWords (word :: words) =
      (Item.ofWord word).foldlM Reading.take r >>= fun next => next.takeWords words := by
  rw [Reading.takeWords, Item.ofWord]
  have hshape := Word.shape_ofString word
  generalize Word.ofString word = form at hshape ⊢
  cases hshape with
  | separator h => exact absurd h hword
  | long cs h =>
      simp only [Item.ofForm, takeLong_eq, List.foldlM_cons, List.foldlM_nil, bind_pure]
  | cluster c cs hc h =>
      simp only [Item.ofForm, takeLetters_eq]
  | path h =>
      simp only [Item.ofForm, List.foldlM_cons, List.foldlM_nil, bind_pure]
      rfl

/-- Words are read item by item. -/
theorem takeWords_eq (r : Reading) (words : List String) :
    r.takeWords words = (items words).foldlM Reading.take r := by
  induction words generalizing r with
  | nil => rfl
  | cons word words ih =>
      by_cases hword : word = "--"
      · subst hword
        show words.foldlM Reading.takePath r = (words.map Item.path).foldlM Reading.take r
        rw [List.foldlM_map]
        rfl
      · rw [takeWords_cons r hword]
        have hitems : items (word :: words) = Item.ofWord word ++ items words := by
          simp [items, leading, trailing, hword]
        rw [hitems, List.foldlM_append]
        exact congrArg _ (funext fun next => ih next)

/-! ## What the items are -/

variable {word : String}

/-- A letter stands for the flag that has it. -/
theorem ofLetter_eq_flag_iff {c : Char} {f : Flag} :
    Item.ofLetter c = .flag f ↔ f.letter = c := by
  rw [← Flag.ofLetter?_eq_some_iff]
  unfold Item.ofLetter
  cases Flag.ofLetter? c <;> simp

/-- Two dashes stand for a flag when its name follows and nothing else. -/
theorem ofLong_eq_flag_iff {cs : List Char} {f : Flag} :
    Item.ofLong (cs.takeWhile (· ≠ '=')) (cs.contains '=') = .flag f ↔ cs = f.name.toList := by
  have hname : '=' ∉ f.name.toList := by
    cases f <;> decide
  have hvalue : Item.ofLong (cs.takeWhile (· ≠ '=')) (cs.contains '=') = .flag f ↔
      Flag.ofName? (cs.takeWhile (· ≠ '=')) = some f ∧ '=' ∉ cs := by
    unfold Item.ofLong
    cases Flag.ofName? (cs.takeWhile (· ≠ '=')) with
    | none => simp
    | some g => by_cases h : '=' ∈ cs <;> simp [h]
  rw [hvalue, Flag.ofName?_eq_some_iff]
  have htake : ∀ cs : List Char, '=' ∉ cs → cs.takeWhile (· ≠ '=') = cs := by
    intro cs hcs
    refine List.takeWhile_eq_self_iff.2 fun c hc => decide_eq_true ?_
    rintro rfl
    exact hcs hc
  constructor
  · rintro ⟨h, hcs⟩
    rw [h, htake cs hcs]
  · rintro rfl
    exact ⟨(htake _ hname).symm, hname⟩

/-- Two dashes and a flag's name are the long word of the flag. -/
theorem eq_dashes_append_iff {cs : List Char} (h : word.toList = '-' :: '-' :: cs) (f : Flag) :
    word = "--" ++ f.name ↔ cs = f.name.toList := by
  rw [← String.toList_inj, String.toList_append, h]
  simp

/-- A word that starts with a dash and goes on is no path in front of `--`. -/
theorem isPath_of_dash {c : Char} {cs : List Char} (h : word.toList = '-' :: c :: cs) :
    isPath word = false := by
  have hne : word ≠ "-" := by
    rintro rfl
    have hlength := congrArg List.length h
    simp at hlength
  simp [isPath, h, hne]

/-! ## The flags of a word -/

/-- A long word gives a flag when it is the flag's name. -/
theorem occurrences_of_long {cs : List Char} (h : word.toList = '-' :: '-' :: cs) (f : Flag) :
    occurrences f word = if cs = f.name.toList then 1 else 0 := by
  unfold occurrences
  simp only [eq_dashes_append_iff h, h]

/-- A cluster gives a flag as often as it holds its letter. -/
theorem occurrences_of_cluster {c : Char} {cs : List Char} (hc : c ≠ '-')
    (h : word.toList = '-' :: c :: cs) (f : Flag) :
    occurrences f word = (c :: cs).count f.letter := by
  have hname : word ≠ "--" ++ f.name := by
    rintro rfl
    rw [String.toList_append] at h
    exact hc (List.cons.inj (List.cons.inj h).2).1.symm
  unfold occurrences
  rw [if_neg hname, h]
  split
  · next heq => exact absurd (List.cons.inj (List.cons.inj heq).2).1 hc
  · next heq => rw [(List.cons.inj heq).2]
  · next hnone => exact absurd rfl (hnone _)

/-- A path gives no flag. -/
theorem occurrences_of_isPath (h : isPath word = true) (f : Flag) : occurrences f word = 0 := by
  unfold isPath at h
  rw [Bool.or_eq_true, beq_iff_eq, bne_iff_ne] at h
  have hname : word ≠ "--" ++ f.name := by
    rintro rfl
    rcases h with h | h
    · cases f <;> contradiction
    · simp at h
  unfold occurrences
  rw [if_neg hname]
  rcases h with rfl | h
  · rfl
  · split
    · next hcs => simp [hcs] at h
    · next hcs => simp [hcs] at h
    · rfl

/-- The flags among the items of a word are those that occur in it. -/
theorem count_ofForm {form : Word} (hshape : Word.Shape word form) (hword : word ≠ "--")
    (f : Flag) : (Item.ofForm word form).count (.flag f) = occurrences f word := by
  cases hshape with
  | separator h => exact absurd h hword
  | long cs h =>
      rw [occurrences_of_long h, Item.ofForm, List.count_singleton]
      simp only [beq_iff_eq, ofLong_eq_flag_iff]
  | cluster c cs hc h =>
      rw [occurrences_of_cluster hc h, Item.ofForm, List.count, List.countP_map, List.count]
      refine List.countP_congr fun d _ => ?_
      rw [Function.comp_apply, beq_iff_eq, beq_iff_eq, ofLetter_eq_flag_iff, eq_comm]
  | path h =>
      rw [occurrences_of_isPath h]
      rfl

/-! ## The paths of a word -/

theorem paths_ofLetter (c : Char) : (Item.ofLetter c).paths = [] := by
  unfold Item.ofLetter
  cases Flag.ofLetter? c <;> rfl

theorem paths_ofLong (name : List Char) (hasValue : Bool) :
    (Item.ofLong name hasValue).paths = [] := by
  unfold Item.ofLong
  cases Flag.ofName? name with
  | none => rfl
  | some f => cases hasValue <;> rfl

/-- The path among the items of a word is the word itself, if it is one. -/
theorem flatMap_paths_ofForm {form : Word} (hshape : Word.Shape word form) (hword : word ≠ "--") :
    (Item.ofForm word form).flatMap Item.paths = if isPath word then [word] else [] := by
  cases hshape with
  | separator h => exact absurd h hword
  | long cs h => simp [Item.ofForm, isPath_of_dash h, paths_ofLong]
  | cluster c cs hc h => simp [Item.ofForm, isPath_of_dash h, paths_ofLetter, List.flatMap_map]
  | path h => simp [Item.ofForm, h, Item.paths]

/-! ## Words with plain items -/

/-- An item without a path is plain when it is one of the two flags. -/
theorem plain_iff_of_paths_eq_nil {i : Item} (h : i.paths = []) :
    i.Plain ↔ i = .flag .verbose ∨ i = .flag .quiet := by
  unfold Item.Plain
  constructor
  · rintro (hi | hi | ⟨word, rfl⟩)
    · exact .inl hi
    · exact .inr hi
    · contradiction
  · rintro (hi | hi)
    · exact .inl hi
    · exact .inr (.inl hi)

/-- The letters of the two flags are plain. -/
theorem plain_ofLetter_iff {c : Char} : (Item.ofLetter c).Plain ↔ c = 'v' ∨ c = 'q' := by
  rw [plain_iff_of_paths_eq_nil (paths_ofLetter c), ofLetter_eq_flag_iff, ofLetter_eq_flag_iff]
  exact or_congr eq_comm eq_comm

/-- A long word gives flags when it is the name of one of the two. -/
theorem isFlags_of_long {cs : List Char} (h : word.toList = '-' :: '-' :: cs) :
    IsFlags word ↔ cs = Flag.verbose.name.toList ∨ cs = Flag.quiet.name.toList := by
  rw [← eq_dashes_append_iff h, ← eq_dashes_append_iff h]
  unfold IsFlags
  constructor
  · rintro (hword | hword | ⟨letters, -, hletters, hword⟩)
    · exact .inl hword
    · exact .inr hword
    · -- The second dash is no letter of a flag.
      rw [h] at hword
      obtain rfl := (List.cons.inj hword).2
      rcases hletters '-' List.mem_cons_self with hdash | hdash <;> contradiction
  · rintro (hword | hword)
    · exact .inl hword
    · exact .inr (.inl hword)

/-- A cluster gives flags when all its letters are those of the two. -/
theorem isFlags_of_cluster {c : Char} {cs : List Char} (hc : c ≠ '-')
    (h : word.toList = '-' :: c :: cs) :
    IsFlags word ↔ ∀ d ∈ c :: cs, d = 'v' ∨ d = 'q' := by
  unfold IsFlags
  constructor
  · rintro (rfl | rfl | ⟨letters, -, hletters, hword⟩)
    · exact absurd (List.cons.inj (List.cons.inj h).2).1.symm hc
    · exact absurd (List.cons.inj (List.cons.inj h).2).1.symm hc
    · rw [h] at hword
      obtain rfl := (List.cons.inj hword).2
      exact hletters
  · intro hletters
    exact .inr (.inr ⟨c :: cs, List.cons_ne_nil c cs, hletters, h⟩)

/-- The items of a word are plain when the word is a path or gives flags. -/
theorem plain_ofForm_iff {form : Word} (hshape : Word.Shape word form) (hword : word ≠ "--") :
    (∀ i ∈ Item.ofForm word form, i.Plain) ↔ isPath word = true ∨ IsFlags word := by
  cases hshape with
  | separator h => exact absurd h hword
  | long cs h =>
      rw [isPath_of_dash h, isFlags_of_long h, Item.ofForm, List.forall_mem_singleton,
        plain_iff_of_paths_eq_nil (paths_ofLong _ _), ofLong_eq_flag_iff, ofLong_eq_flag_iff]
      simp
  | cluster c cs hc h =>
      rw [isPath_of_dash h, isFlags_of_cluster hc h, Item.ofForm, List.forall_mem_map]
      simp [plain_ofLetter_iff]
  | path h => simp [Item.ofForm, h, Item.Plain]

/-! ## All words -/

/-- A word in front of `--` is not `--`. -/
theorem ne_of_mem_leading {words : List String} (h : word ∈ leading words) : word ≠ "--" := by
  simpa using List.mem_takeWhile_imp h

/-- The paths among the items are the paths. -/
theorem flatMap_paths_items (words : List String) :
    (items words).flatMap Item.paths = paths words := by
  have hleading : ∀ {front : List String}, (∀ word ∈ front, word ≠ "--") →
      (front.flatMap Item.ofWord).flatMap Item.paths = front.filter isPath := by
    intro front hfront
    induction front with
    | nil => rfl
    | cons word front ih =>
        obtain ⟨hword, hfront⟩ := List.forall_mem_cons.1 hfront
        rw [List.flatMap_cons, List.flatMap_append, ih hfront, Item.ofWord,
          flatMap_paths_ofForm (Word.shape_ofString word) hword, List.filter_cons]
        cases isPath word <;> rfl
  unfold items paths
  rw [List.flatMap_append, hleading fun _ => ne_of_mem_leading, List.flatMap_map]
  exact congrArg _ (List.flatMap_singleton' _)

/-- The flags among the items are those that are given. -/
theorem count_items (f : Flag) (words : List String) :
    (items words).count (.flag f) = given f words := by
  have htrailing : ((trailing words).map Item.path).count (.flag f) = 0 := by
    refine List.count_eq_zero.2 fun h => ?_
    obtain ⟨word, -, hpath⟩ := List.mem_map.1 h
    contradiction
  unfold items given
  rw [List.count_append, htrailing, Nat.add_zero, List.count_flatMap]
  refine congrArg List.sum (List.map_congr_left fun word hword => ?_)
  exact count_ofForm (Word.shape_ofString word) (ne_of_mem_leading hword) f

/-- The items are plain when every word is a path or gives flags. -/
theorem plain_items_iff (words : List String) :
    (∀ i ∈ items words, i.Plain) ↔ Formed words := by
  have hplain : ∀ word ∈ leading words,
      (∀ i ∈ Item.ofWord word, i.Plain) ↔ isPath word = true ∨ IsFlags word := fun word hword =>
    plain_ofForm_iff (Word.shape_ofString word) (ne_of_mem_leading hword)
  unfold items Formed
  constructor
  · intro h word hword
    refine (hplain word hword).1 fun i hi => h i ?_
    exact List.mem_append_left _ (List.mem_flatMap.2 ⟨word, hword, hi⟩)
  · intro h i hi
    rcases List.mem_append.1 hi with hi | hi
    · obtain ⟨word, hword, hi⟩ := List.mem_flatMap.1 hi
      exact (hplain word hword).2 (h word hword) i hi
    · obtain ⟨word, -, rfl⟩ := List.mem_map.1 hi
      exact .inr (.inr ⟨word, rfl⟩)

end LintSarif.CommandLine
