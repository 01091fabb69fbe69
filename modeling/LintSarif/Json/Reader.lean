import LintSarif.Json.Basic
import LintSarif.Text.Token

/-!
# Reading JSON

A strict reader for the values of `Json`. It knows every escape, pairs of surrogates included, and
takes blanks only where JSON allows them. Numbers are integers without superfluous zeros; a control
character in a string, a lone surrogate, a comma too many or text after the value is refused.

The readers answer what they read and what follows it. `parse?` bounds the depth of the recursion by
the length of the text.
-/

namespace LintSarif.Json

/-- `isSpace c` holds of the four characters that JSON allows between tokens. -/
def isSpace (c : Char) : Bool :=
  c == ' ' || c == '\n' || c == '\r' || c == '\t'

/-- `skip cs` is `cs` without the spaces at its head. -/
def skip (cs : List Char) : List Char :=
  cs.dropWhile isSpace

/-- `hexDigit? c` is the value of a hexadecimal digit in either case. -/
def hexDigit? (c : Char) : Option Nat :=
  if c.isDigit then some (c.toNat - '0'.toNat)
  else if 'a' ≤ c ∧ c ≤ 'f' then some (c.toNat - 'a'.toNat + 10)
  else if 'A' ≤ c ∧ c ≤ 'F' then some (c.toNat - 'A'.toNat + 10)
  else none

/-- `codeUnit? cs` reads four hexadecimal digits. -/
def codeUnit? : List Char → Option (Nat × List Char)
  | a :: b :: c :: d :: cs => do
    let a ← hexDigit? a
    let b ← hexDigit? b
    let c ← hexDigit? c
    let d ← hexDigit? d
    return (((a * 16 + b) * 16 + c) * 16 + d, cs)
  | _ => none

/-- `unicode? cs` reads the code unit after the letter `u` of an escape. A high surrogate must be
followed by the escape of a low one, and a low surrogate cannot come first. -/
def unicode? (cs : List Char) : Option (Char × List Char) := do
  let (high, cs) ← codeUnit? cs
  if 0xd800 ≤ high ∧ high < 0xdc00 then
    let cs ← Text.literal? ['\\', 'u'] cs
    let (low, cs) ← codeUnit? cs
    if 0xdc00 ≤ low ∧ low < 0xe000 then
      return (Char.ofNat (0x10000 + (high - 0xd800) * 0x400 + (low - 0xdc00)), cs)
    else none
  else if 0xdc00 ≤ high ∧ high < 0xe000 then none
  else return (Char.ofNat high, cs)

/-- `escaped? cs` reads what follows the backslash of an escape. -/
def escaped? : List Char → Option (Char × List Char)
  | '"' :: cs => some ('"', cs)
  | '\\' :: cs => some ('\\', cs)
  | '/' :: cs => some ('/', cs)
  | 'b' :: cs => some ('\x08', cs)
  | 'f' :: cs => some ('\x0c', cs)
  | 'n' :: cs => some ('\n', cs)
  | 'r' :: cs => some ('\r', cs)
  | 't' :: cs => some ('\t', cs)
  | 'u' :: cs => unicode? cs
  | _ => none

/-- `unquote? fuel cs` reads the characters of a string up to its closing quotation mark. -/
def unquote? : Nat → List Char → Option (List Char × List Char)
  | 0, _ => none
  | _ + 1, '"' :: cs => some ([], cs)
  | fuel + 1, '\\' :: cs => do
    let (c, cs) ← escaped? cs
    let (text, cs) ← unquote? fuel cs
    return (c :: text, cs)
  | fuel + 1, c :: cs =>
    if c < ' ' then none
    else do
      let (text, cs) ← unquote? fuel cs
      return (c :: text, cs)
  | _ + 1, [] => none

/-- `natural? cs` reads a natural number, which starts with a zero only if it is zero. -/
def natural? (cs : List Char) : Option (Nat × List Char) :=
  match cs with
  | '0' :: c :: _ => if c.isDigit then none else Text.number? cs
  | _ => Text.number? cs

/-- `integer? cs` reads an integer. -/
def integer? : List Char → Option (Int × List Char)
  | '-' :: cs => (natural? cs).map fun (n, cs) => (-n, cs)
  | cs => (natural? cs).map fun (n, cs) => ((n : Int), cs)

/-- `string? cs` reads a string with its quotation marks. -/
def string? : List Char → Option (String × List Char)
  | '"' :: cs => (unquote? (cs.length + 1) cs).map fun (text, cs) => (String.ofList text, cs)
  | _ => none

mutual
/-- `value? fuel cs` reads a value, with spaces in front of it. -/
def value? : Nat → List Char → Option (Json × List Char)
  | 0, _ => none
  | fuel + 1, cs =>
    match skip cs with
    | '[' :: cs =>
      match skip cs with
      | ']' :: cs => some (.arr [], cs)
      | cs => (items? fuel cs).map fun (items, cs) => (.arr items, cs)
    | '{' :: cs =>
      match skip cs with
      | '}' :: cs => some (.obj [], cs)
      | cs => (members? fuel cs).map fun (members, cs) => (.obj members, cs)
    | '"' :: cs => (string? ('"' :: cs)).map fun (text, cs) => (.str text, cs)
    | cs => (integer? cs).map fun (value, cs) => (.int value, cs)

/-- `items? fuel cs` reads the items of an array and its closing bracket. -/
def items? : Nat → List Char → Option (List Json × List Char)
  | 0, _ => none
  | fuel + 1, cs => do
    let (item, cs) ← value? fuel cs
    match skip cs with
    | ',' :: cs =>
      let (items, cs) ← items? fuel cs
      return (item :: items, cs)
    | ']' :: cs => return ([item], cs)
    | _ => none

/-- `members? fuel cs` reads the members of an object and its closing bracket. -/
def members? : Nat → List Char → Option (List (String × Json) × List Char)
  | 0, _ => none
  | fuel + 1, cs => do
    let (name, cs) ← string? (skip cs)
    let cs ← Text.literal? [':'] (skip cs)
    let (value, cs) ← value? fuel cs
    match skip cs with
    | ',' :: cs =>
      let (members, cs) ← members? fuel cs
      return ((name, value) :: members, cs)
    | '}' :: cs => return ([(name, value)], cs)
    | _ => none
end

/-- `parse? text` is the value whose text is `text`, with nothing but spaces around it. -/
def parse? (text : String) : Option Json := do
  let (value, rest) ← value? (2 * text.toList.length + 2) text.toList
  if skip rest = [] then some value else none

example :
    parse? "[1, \x7b \"a\" : \"\\ud83d\\ude00\\n\"\x7d,-2 ]" =
      some (.arr [.int 1, .obj [("a", .str "😀\n")], .int (-2)]) := by
  cbv

example : ["[1,]", "01", "\"\\ud83d\"", "[] []", "-", "\"\n\""].map parse? =
    List.replicate 6 none := by
  cbv

end LintSarif.Json
