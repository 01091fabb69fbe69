/-!
# JSON strings

A JSON string stands between quotation marks. The quotation mark, the backslash and the control
characters below U+0020 are escaped, the common ones by a letter and the others by four
hexadecimal digits in lower case. Every other character stands for itself, the slash, U+007F and
the Unicode line separators among them.
-/

namespace LintSarif.Json

/-- `escape c` is the text of the character `c` inside a JSON string. -/
def escape (c : Char) : List Char :=
  match c with
  | '"' => ['\\', '"']
  | '\\' => ['\\', '\\']
  | '\x08' => ['\\', 'b']
  | '\x0c' => ['\\', 'f']
  | '\n' => ['\\', 'n']
  | '\r' => ['\\', 'r']
  | '\t' => ['\\', 't']
  | c =>
    if c < ' ' then
      ['\\', 'u', '0', '0', Nat.digitChar (c.toNat / 16), Nat.digitChar (c.toNat % 16)]
    else [c]

/-- `quoted cs` is the JSON string with the characters `cs`. -/
def quoted (cs : List Char) : List Char :=
  '"' :: cs.flatMap escape ++ ['"']

example : escape '\x1f' = ['\\', 'u', '0', '0', '1', 'f'] := by decide

example : ['/', '\x7f', '\u2028'].map escape = [['/'], ['\x7f'], ['\u2028']] := by decide

end LintSarif.Json
