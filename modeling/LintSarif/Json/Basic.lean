/-!
# JSON values

The JSON values that a document is made of: strings, integers, arrays and objects. The members of
an object keep their order.
-/

namespace LintSarif

/-- A JSON value. -/
inductive Json where
  | str (text : String)
  | int (value : Int)
  | arr (items : List Json)
  | obj (members : List (String × Json))
  deriving Repr

end LintSarif
