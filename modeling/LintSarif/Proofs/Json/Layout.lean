import LintSarif.Json.Printer
import LintSarif.Proofs.Text.LineBreak
import LintSarif.Proofs.Text.Numeral
import LintSarif.Proofs.Text.Token

/-!
# The lines of a printed value

A printed value is cut into lines by its layout alone when its strings hold no line break that stays
as it is in a JSON string (`Sealed`). Read `Sealed.laid` first: every line of such a value is a
`LayoutLine`, which is known by its end.
-/

namespace LintSarif.Json

open Text

/-! ## Characters of a string -/

/-- What escapes are made of. -/
def escapeLetters : List Char :=
  ['\\', '"', 'b', 'f', 'n', 'r', 't', 'u', '0', '1', '2', '3', '4', '5', '6', '7', '8', '9', 'a',
   'c', 'd', 'e']

/-- A character inside a string stands for itself, and is no control character then, or it belongs
to an escape. -/
theorem mem_escape {c x : Char} (h : x ∈ escape c) :
    x = c ∧ ¬ c < ' ' ∨ x ∈ escapeLetters := by
  have hdigit : ∀ n < 16, n.digitChar ∈ escapeLetters := by
    decide
  have hnamed : ['\\', '"', 'b', 'f', 'n', 'r', 't', 'u', '0'] ⊆ escapeLetters := by
    decide
  rw [escape.eq_def] at h
  split at h
  case h_8 =>
    split at h
    · next hcontrol =>
        have hlt : c.toNat < 32 := hcontrol
        refine .inr ?_
        simp only [List.mem_cons, List.not_mem_nil, or_false] at h
        rcases h with rfl | rfl | rfl | rfl | rfl | rfl
        · exact hnamed (by simp)
        · exact hnamed (by simp)
        · exact hnamed (by simp)
        · exact hnamed (by simp)
        · exact hdigit _ (by omega)
        · exact hdigit _ (by omega)
    · next hcontrol => exact .inl ⟨List.mem_singleton.1 h, hcontrol⟩
  all_goals
    refine .inr (hnamed ?_)
    simp only [List.mem_cons, List.not_mem_nil, or_false] at h
    rcases h with rfl | rfl <;> simp

/-- So does a character between the quotation marks. -/
theorem mem_quoted {cs : List Char} {x : Char} (h : x ∈ quoted cs) :
    x ∈ cs ∧ ¬ x < ' ' ∨ x ∈ escapeLetters := by
  have hquote : '"' ∈ escapeLetters := by
    decide
  simp only [quoted, List.mem_append, List.mem_cons, List.mem_flatMap, List.not_mem_nil,
    or_false] at h
  rcases h with (rfl | ⟨c, hc, hx⟩) | rfl
  · exact .inr hquote
  · rcases mem_escape hx with ⟨rfl, hplain⟩ | hletter
    · exact .inl ⟨hc, hplain⟩
    · exact .inr hletter
  · exact .inr hquote

/-- The line breaks that stay as they are in a JSON string. -/
@[simp]
def rawBreaks : List Char := ['\u0085', '\u2028', '\u2029']

/-- `Escapable text` holds when every line break in `text` is escaped in a JSON string. -/
def Escapable (text : String) : Prop :=
  ∀ c ∈ text.toList, c ∉ rawBreaks

/-- `isPlainName name` holds when `name` has neither such a line break nor an opening bracket. -/
@[simp]
def isPlainName (name : String) : Bool :=
  name.toList.all fun c => c != '[' && !rawBreaks.contains c

/-- The other line breaks are control characters. -/
theorem lt_of_isLineBreak {c : Char} (hbreak : isLineBreak c = true) (hc : c ∉ rawBreaks) :
    c < ' ' := by
  have hall : (lineBreaks.all fun c => decide (c ∈ rawBreaks) || decide (c < ' ')) = true := by
    decide
  have hsplit := List.all_eq_true.1 hall c (List.contains_iff_mem.1 hbreak)
  rw [Bool.or_eq_true, decide_eq_true_eq, decide_eq_true_eq] at hsplit
  exact hsplit.resolve_left hc

/-- A string whose line breaks are escaped takes one line. -/
theorem unbroken_quoted {text : String} (h : Escapable text) :
    ∀ c ∈ quoted text.toList, isLineBreak c = false := by
  have hletters : escapeLetters.any isLineBreak = false := by
    decide
  intro c hc
  rcases mem_quoted hc with ⟨hmem, hplain⟩ | hletter
  · refine Bool.eq_false_iff.2 fun hbreak => hplain ?_
    exact lt_of_isLineBreak hbreak (h c hmem)
  · exact Bool.eq_false_iff.2 (List.any_eq_false.1 hletters c hletter)

/-! ## Lines of the layout -/

/-- `LayoutLine line` holds when `line` ends with a character that is neither blank nor a closing
bracket, or has no opening bracket, or has one that is closed directly behind it at the end. -/
inductive LayoutLine : List Char → Prop where
  | ended (line : List Char) (c : Char) :
      line.getLast? = some c → isBlank c = false → c ≠ ']' → LayoutLine line
  | unopened (line : List Char) : '[' ∉ line → LayoutLine line
  | emptied (before : List Char) : '[' ∉ before → LayoutLine (before ++ ['[', ']'])

/-- `Layout cs` holds when all lines of `cs` are lines of the layout. -/
def Layout (cs : List Char) : Prop :=
  ∀ line ∈ pieces cs, LayoutLine line

/-- A text without a line break is one line. -/
theorem Layout.single {cs : List Char} (hcs : ∀ c ∈ cs, isLineBreak c = false)
    (h : LayoutLine cs) : Layout cs := by
  intro line hline
  rw [pieces_of_unbroken hcs, List.mem_singleton] at hline
  exact hline ▸ h

/-- A line feed ends one line and starts the next. -/
theorem Layout.append_feed {before after : List Char} (hbefore : Layout before)
    (hafter : Layout after) : Layout (before ++ '\n' :: after) := by
  intro line hline
  rw [pieces_append_cons _ _ (by decide), List.mem_append] at hline
  exact hline.elim (hbefore line) (hafter line)

/-- `Lead cs` holds when `cs` can stand in front of a value on its line. -/
structure Lead (cs : List Char) : Prop where
  unbroken : ∀ c ∈ cs, isLineBreak c = false
  unopened : '[' ∉ cs

/-- `Tail cs` holds when `cs` can stand behind a value on its line: a comma or nothing. -/
def Tail (cs : List Char) : Prop :=
  cs = [] ∨ cs = [',']

variable {lead tail cs : List Char} {v : Json}

theorem Tail.unbroken (h : Tail tail) : ∀ c ∈ tail, isLineBreak c = false := by
  rcases h with rfl | rfl <;> simp [isLineBreak, lineBreaks]

theorem Tail.unopened (h : Tail tail) : '[' ∉ tail := by
  rcases h with rfl | rfl <;> simp

/-- Blanks for the indentation can stand in front of a value. -/
theorem lead_indent (n : Nat) : Lead (List.replicate n ' ') := by
  constructor
  · intro c hc
    rw [List.eq_of_mem_replicate hc]
    decide
  · simp

/-- So can the name of a member behind its indentation. -/
theorem lead_name (n : Nat) {name : String} (hname : isPlainName name = true) :
    Lead (List.replicate n ' ' ++ quoted name.toList ++ [':', ' ']) := by
  have hplain : ∀ c ∈ name.toList, c ≠ '[' ∧ c ∉ rawBreaks := by
    simpa [isPlainName] using hname
  have hquoted := unbroken_quoted fun c hc => (hplain c hc).2
  have hopen : '[' ∉ quoted name.toList := by
    intro hmem
    rcases mem_quoted hmem with ⟨hmem, -⟩ | hmem
    · exact (hplain _ hmem).1 rfl
    · exact absurd hmem (by decide)
  constructor
  · intro c hc
    simp only [List.mem_append, List.mem_cons, List.not_mem_nil, or_false] at hc
    rcases hc with (hc | hc) | rfl | rfl
    · exact (lead_indent n).unbroken c hc
    · exact hquoted c hc
    · decide
    · decide
  · simp [(lead_indent n).unopened, hopen]

/-- A text without a line break that ends with a character that is neither blank nor a closing
bracket makes a line of the layout, with or without a comma behind it. -/
theorem layout_ended (hlead : Lead lead) (hcs : ∀ c ∈ cs, isLineBreak c = false)
    (htail : Tail tail) {c : Char} (hlast : cs.getLast? = some c) (hblank : isBlank c = false)
    (hne : c ≠ ']') : Layout (lead ++ cs ++ tail) := by
  refine .single ?_ ?_
  · exact List.forall_mem_append.2
      ⟨List.forall_mem_append.2 ⟨hlead.unbroken, hcs⟩, htail.unbroken⟩
  · rcases htail with rfl | rfl
    · exact .ended _ c (by simp [hlast]) hblank hne
    · exact .ended _ ',' (by simp) (by decide) (by decide)

/-- A closing bracket or brace has a line of its own. -/
theorem layout_closing (n : Nat) {c : Char} (hc : c = ']' ∨ c = '}') (htail : Tail tail) :
    Layout (List.replicate n ' ' ++ [c] ++ tail) := by
  have hclosing : isLineBreak c = false ∧ c ≠ '[' := by
    rcases hc with rfl | rfl <;> decide
  refine .single ?_ (.unopened _ ?_)
  · refine List.forall_mem_append.2 ⟨List.forall_mem_append.2 ⟨(lead_indent n).unbroken, ?_⟩,
      htail.unbroken⟩
    exact List.forall_mem_singleton.2 hclosing.1
  · simp [(lead_indent n).unopened, htail.unopened, hclosing.2.symm]

/-! ## The lines of a value -/

/-- `v.Laid` holds when `v`, wherever it is written, makes lines of the layout. -/
def Laid (v : Json) : Prop :=
  ∀ (depth : Nat) (lead tail : List Char), Lead lead → Tail tail →
    Layout (lead ++ write depth v ++ tail)

theorem laid_str {text : String} (h : Escapable text) : Laid (.str text) := by
  intro depth lead tail hlead htail
  have hlast : (quoted text.toList).getLast? = some '"' := List.getLast?_concat
  exact layout_ended hlead (unbroken_quoted h) htail hlast (by decide) (by decide)

theorem laid_int (n : Int) : Laid (.int n) := by
  intro depth lead tail hlead htail
  obtain ⟨c, hlast, hc⟩ := Numeral.exists_getLast?_ofInt n
  have hline : ∀ x ∈ Numeral.ofInt n, isLineBreak x = false := by
    intro x hx
    rcases Numeral.mem_ofInt hx with rfl | hx
    · decide
    · exact isLineBreak_of_isDigit hx
  have hne : c ≠ ']' := by
    rintro rfl
    exact absurd hc (by decide)
  exact layout_ended hlead hline htail hlast (isBlank_of_isDigit hc) hne

/-- Entries that make lines of the layout do so one after the other, with a comma behind each but
the last. -/
theorem layout_entries {α : Type} {entry : α → List Char} {more : List α → List Char}
    {rest : List Char} (hnil : more [] = [])
    (hcons : ∀ a as, more (a :: as) = [','] ++ '\n' :: (entry a ++ more as)) (first : α)
    (others : List α)
    (h : ∀ a ∈ first :: others, ∀ tail, Tail tail → Layout (entry a ++ tail))
    (hrest : Layout rest) : Layout (entry first ++ more others ++ '\n' :: rest) := by
  induction others generalizing first with
  | nil =>
      rw [hnil]
      exact (h first List.mem_cons_self [] (.inl rfl)).append_feed hrest
  | cons next others ih =>
      obtain ⟨hfirst, hothers⟩ := List.forall_mem_cons.1 h
      rw [hcons, ← List.append_assoc, List.append_assoc, List.cons_append]
      exact (hfirst [','] (.inr rfl)).append_feed (ih next hothers)

/-- Entries between brackets make lines of the layout: the opening bracket ends the line in front of
them and the closing one has a line of its own. -/
theorem layout_enclosed (depth : Nat) {first : List Char} {opening closing : Char}
    (hopening : opening = '[' ∨ opening = '{') (hclosing : closing = ']' ∨ closing = '}')
    (hlead : Lead lead) (htail : Tail tail)
    (h : ∀ rest, Layout rest → Layout (first ++ '\n' :: rest)) :
    Layout (lead ++ (opening :: '\n' :: first ++ newline depth ++ [closing]) ++ tail) := by
  have hopen : isLineBreak opening = false ∧ isBlank opening = false ∧ opening ≠ ']' := by
    rcases hopening with rfl | rfl <;> decide
  have hhead : Layout (lead ++ [opening] ++ []) :=
    layout_ended hlead (List.forall_mem_singleton.2 hopen.1) (.inl rfl) rfl hopen.2.1 hopen.2.2
  have hbody := hhead.append_feed (h _ (layout_closing (2 * depth) hclosing htail))
  simpa [newline] using hbody

/-- `itemEntry depth item` is an item of an array behind its indentation. -/
def itemEntry (depth : Nat) (item : Json) : List Char :=
  List.replicate (2 * depth) ' ' ++ write depth item

/-- `memberEntry depth member` is a member of an object behind its indentation. -/
def memberEntry (depth : Nat) (member : String × Json) : List Char :=
  List.replicate (2 * depth) ' ' ++ quoted member.1.toList ++ [':', ' '] ++ write depth member.2

theorem laid_arr {items : List Json} (h : ∀ item ∈ items, item.Laid) : Laid (.arr items) := by
  intro depth lead tail hlead htail
  cases items with
  | nil =>
      have hline : ∀ c ∈ lead ++ ['[', ']'] ++ tail, isLineBreak c = false := by
        refine List.forall_mem_append.2 ⟨List.forall_mem_append.2 ⟨hlead.unbroken, ?_⟩,
          htail.unbroken⟩
        simp [isLineBreak, lineBreaks]
      rw [write]
      refine .single hline ?_
      rcases htail with rfl | rfl
      · rw [List.append_nil]
        exact .emptied lead hlead.unopened
      · exact .ended _ ',' (by simp) (by decide) (by decide)
  | cons item items =>
      have hitems : ∀ rest, Layout rest → Layout (itemEntry (depth + 1) item ++
          writeItems (depth + 1) items ++ '\n' :: rest) := fun rest hrest =>
        layout_entries rfl (fun _ _ => by simp [writeItems, newline, itemEntry]) item items
          (fun item hitem tail htail => h item hitem _ _ tail (lead_indent _) htail) hrest
      have harray := layout_enclosed depth (.inl rfl) (.inl rfl) hlead htail hitems
      simpa [write, newline, itemEntry] using harray

theorem laid_obj {members : List (String × Json)}
    (hnames : (members.map Prod.fst).all isPlainName = true)
    (h : ∀ member ∈ members, member.2.Laid) : Laid (.obj members) := by
  intro depth lead tail hlead htail
  cases members with
  | nil =>
      rw [write]
      exact layout_ended hlead (by simp [isLineBreak, lineBreaks]) htail rfl (by decide)
        (by decide)
  | cons member members =>
      have hplain : ∀ other ∈ member :: members, isPlainName other.1 = true := fun other hother =>
        List.all_eq_true.1 hnames _ (List.mem_map_of_mem hother)
      have hmembers : ∀ rest, Layout rest → Layout (memberEntry (depth + 1) member ++
          writeMembers (depth + 1) members ++ '\n' :: rest) := fun rest hrest =>
        layout_entries rfl (fun _ _ => by simp [writeMembers, newline, memberEntry]) member members
          (fun member hmember tail htail => h member hmember _ _ tail
            (lead_name _ (hplain member hmember)) htail) hrest
      have hobject := layout_enclosed depth (.inr rfl) (.inr rfl) hlead htail hmembers
      simpa [write, newline, memberEntry] using hobject

/-- `v.Sealed` holds when the line breaks in the strings of `v` are escaped and the names of its
members are plain. -/
inductive Sealed : Json → Prop where
  | str (text : String) : Escapable text → Sealed (.str text)
  | int (n : Int) : Sealed (.int n)
  | arr (items : List Json) : (∀ item ∈ items, Sealed item) → Sealed (.arr items)
  | obj (members : List (String × Json)) :
      (members.map Prod.fst).all isPlainName = true →
      (∀ member ∈ members, Sealed member.2) → Sealed (.obj members)

/-- All lines of a sealed value are lines of the layout. -/
theorem Sealed.laid (h : v.Sealed) : v.Laid := by
  induction h with
  | str text htext => exact laid_str htext
  | int n => exact laid_int n
  | arr items _ ih => exact laid_arr ih
  | obj members hnames _ ih => exact laid_obj hnames ih

end LintSarif.Json
