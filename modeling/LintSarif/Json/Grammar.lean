import LintSarif.Json.Basic
import LintSarif.Text.Numeral

/-!
# The grammar of JSON texts

The JSON standard's grammar of texts, for the values of `Json`.
`Denotes cs v` says that `cs`, with no space around it, is a text of `v`, and `IsText cs v` allows
spaces on both sides. A value has many texts: characters may be escaped or not, escapes have several
forms, and spaces may stand between any two tokens. The reader of `LintSarif.Json.Reader` and the
printer of `LintSarif.Json.Printer` are both held against this grammar.
-/

namespace LintSarif.Json

/-- The characters that may stand between two tokens. -/
def spaces : List Char := [' ', '\n', '\r', '\t']

/-- `Spaces cs` holds when nothing but spaces stands in `cs`. -/
def Spaces (cs : List Char) : Prop :=
  ∀ c ∈ cs, c ∈ spaces

/-- The characters with an escape of one letter, each behind its letter. -/
def letterEscapes : List (Char × Char) :=
  [('"', '"'), ('\\', '\\'), ('/', '/'), ('b', '\x08'), ('f', '\x0c'), ('n', '\n'), ('r', '\r'),
   ('t', '\t')]

/-- `HexDigit c n` holds when `c` is a hexadecimal digit with the value `n`, in either case. -/
def HexDigit (c : Char) (n : Nat) : Prop :=
  n < 16 ∧ (c = n.digitChar ∨ c = n.digitChar.toUpper)

instance (c : Char) (n : Nat) : Decidable (HexDigit c n) :=
  inferInstanceAs (Decidable (_ ∧ (_ ∨ _)))

/-- `CodeUnit cs n` holds when `cs` are four hexadecimal digits with the value `n`. -/
inductive CodeUnit : List Char → Nat → Prop where
  | digits {c₁ c₂ c₃ c₄ : Char} {n₁ n₂ n₃ n₄ : Nat} :
      HexDigit c₁ n₁ → HexDigit c₂ n₂ → HexDigit c₃ n₃ → HexDigit c₄ n₄ →
      CodeUnit [c₁, c₂, c₃, c₄] (((n₁ * 16 + n₂) * 16 + n₃) * 16 + n₄)

/-- `DenotesChar cs c` holds when `cs` stands for the character `c` inside a string. -/
inductive DenotesChar : List Char → Char → Prop where
  /-- A character stands for itself unless it is a control character or has a use of its own. -/
  | plain {c : Char} : ' ' ≤ c → c ≠ '"' → c ≠ '\\' → DenotesChar [c] c
  | letter {l c : Char} : (l, c) ∈ letterEscapes → DenotesChar ['\\', l] c
  | unit {cs : List Char} {c : Char} : CodeUnit cs c.toNat → DenotesChar ('\\' :: 'u' :: cs) c
  /-- A character beyond U+FFFF is escaped by its two surrogates. -/
  | pair {cs ds : List Char} {high low : Nat} {c : Char} :
      CodeUnit cs high → 0xd800 ≤ high ∧ high < 0xdc00 →
      CodeUnit ds low → 0xdc00 ≤ low ∧ low < 0xe000 →
      c.toNat = 0x10000 + (high - 0xd800) * 0x400 + (low - 0xdc00) →
      DenotesChar ('\\' :: 'u' :: cs ++ '\\' :: 'u' :: ds) c

/-- `DenotesChars cs text` holds when `cs` stands for the characters `text` inside a string. -/
inductive DenotesChars : List Char → List Char → Prop where
  | nil : DenotesChars [] []
  | cons {cs ds text : List Char} {c : Char} :
      DenotesChar cs c → DenotesChars ds text → DenotesChars (cs ++ ds) (c :: text)

/-- `DenotesString cs text` holds when `cs` is the string `text` between quotation marks. -/
inductive DenotesString : List Char → String → Prop where
  | quoted {cs text : List Char} :
      DenotesChars cs text → DenotesString ('"' :: cs ++ ['"']) (String.ofList text)

/-- `DenotesNat cs n` holds when `cs` are the digits of `n`, with a zero in front only if it is the
only digit. -/
def DenotesNat (cs : List Char) (n : Nat) : Prop :=
  cs ≠ [] ∧ (∀ c ∈ cs, c.isDigit = true) ∧ (cs.head? = some '0' → cs = ['0']) ∧
    Text.Numeral.value cs = n

/-- `DenotesInt cs n` holds when `cs` is the integer `n`. -/
inductive DenotesInt : List Char → Int → Prop where
  | nonneg {cs : List Char} {n : Nat} : DenotesNat cs n → DenotesInt cs n
  | neg {cs : List Char} {n : Nat} : DenotesNat cs n → DenotesInt ('-' :: cs) (-n)

mutual
/-- `Denotes cs v` holds when `cs` is a text of the value `v` with no space around it. -/
inductive Denotes : List Char → Json → Prop where
  | str {cs : List Char} {text : String} : DenotesString cs text → Denotes cs (.str text)
  | int {cs : List Char} {n : Int} : DenotesInt cs n → Denotes cs (.int n)
  | emptyArr {cs : List Char} : Spaces cs → Denotes ('[' :: cs ++ [']']) (.arr [])
  | arr {cs : List Char} {items : List Json} :
      DenotesItems cs items → Denotes ('[' :: cs ++ [']']) (.arr items)
  | emptyObj {cs : List Char} : Spaces cs → Denotes ('{' :: cs ++ ['}']) (.obj [])
  | obj {cs : List Char} {members : List (String × Json)} :
      DenotesMembers cs members → Denotes ('{' :: cs ++ ['}']) (.obj members)

/-- `IsText cs v` holds when `cs` is a text of the value `v`. -/
inductive IsText : List Char → Json → Prop where
  | spaced {before cs after : List Char} {v : Json} :
      Spaces before → Denotes cs v → Spaces after → IsText (before ++ cs ++ after) v

/-- `DenotesItems cs items` holds when `cs` is what stands between the brackets of an array. -/
inductive DenotesItems : List Char → List Json → Prop where
  | one {cs : List Char} {v : Json} : IsText cs v → DenotesItems cs [v]
  | cons {cs ds : List Char} {v : Json} {items : List Json} :
      IsText cs v → DenotesItems ds items → DenotesItems (cs ++ ',' :: ds) (v :: items)

/-- `DenotesMember cs name v` holds when `cs` is a member of an object. -/
inductive DenotesMember : List Char → String → Json → Prop where
  | named {before cs between ds : List Char} {name : String} {v : Json} :
      Spaces before → DenotesString cs name → Spaces between → IsText ds v →
      DenotesMember (before ++ cs ++ between ++ ':' :: ds) name v

/-- `DenotesMembers cs members` holds when `cs` is what stands between the braces of an object. -/
inductive DenotesMembers : List Char → List (String × Json) → Prop where
  | one {cs : List Char} {name : String} {v : Json} :
      DenotesMember cs name v → DenotesMembers cs [(name, v)]
  | cons {cs ds : List Char} {name : String} {v : Json} {members : List (String × Json)} :
      DenotesMember cs name v → DenotesMembers ds members →
      DenotesMembers (cs ++ ',' :: ds) ((name, v) :: members)
end

end LintSarif.Json
