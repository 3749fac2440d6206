namespace ModelText

/-!
# JSON values

A JSON value as far as the readers of this library tell values apart.  Integers
keep their value; a number written with a fraction, an exponent or a negative
zero is never an integer and keeps nothing.  A string whose escapes name half a
surrogate pair has no text.  It may stand where nobody looks and nowhere else,
hence the text of a string is optional.  Members of an object keep their order
and may repeat.
-/

inductive Json where
  | null
  | bool (value : Bool)
  | integer (value : Int)
  | fraction
  | string (text : Option String)
  | array (items : List Json)
  | object (members : List (Option String × Json))
  deriving Inhabited

namespace Json

def text (value : String) : Json := .string (some value)

def nat (value : Nat) : Json := .integer value

/-- A value that may be missing. -/
def optional (value : Option Json) : Json := value.getD .null

/-- An object given by its keys and values. -/
def record (members : List (String × Json)) : Json :=
  .object (members.map fun (key, value) => (some key, value))

end Json

end ModelText
