import ModelText.Json.Basic

namespace ModelText

/-!
# Writing JSON

A value is written in one of two styles: on one line without blanks, or with
each item and member on a line of its own, indented by two blanks for each level.
Strings escape the quote, the backslash and control characters and leave all
else as it is.  A fraction and a string without a text are written by the
shortest text that reads back as one.
-/

namespace Json

/-- What is written between the tokens of a value. -/
structure Style where
  /-- The break before an item or a closing bracket at a level. -/
  lineBreak : Nat → List Char
  afterColon : List Char

namespace Style

/-- Everything on one line. -/
def compact : Style := ⟨fun _ => [], []⟩

/-- One item or member on each line. -/
def pretty : Style := ⟨fun level => '\n' :: List.replicate (2 * level) ' ', [' ']⟩

end Style

/-! ## Tokens -/

/-- A hexadecimal digit in lower case. -/
def hexDigit (value : Nat) : Char :=
  if value < 10 then Char.ofNat ('0'.toNat + value) else Char.ofNat ('a'.toNat + value - 10)

/-- How a character is written inside a string. -/
def escapeChar (char : Char) : List Char :=
  if char = '"' then ['\\', '"']
  else if char = '\\' then ['\\', '\\']
  else if char = '\x08' then ['\\', 'b']
  else if char = '\t' then ['\\', 't']
  else if char = '\n' then ['\\', 'n']
  else if char = '\x0c' then ['\\', 'f']
  else if char = '\r' then ['\\', 'r']
  else if char.toNat < 0x20 then
    ['\\', 'u', '0', '0', hexDigit (char.toNat / 16), hexDigit (char.toNat % 16)]
  else [char]

def writeText (text : String) : List Char :=
  '"' :: (text.toList.flatMap escapeChar ++ ['"'])

def writeString : Option String → List Char
  | some text => writeText text
  | none => ['"', '\\', 'u', 'd', '8', '0', '0', '"']

def writeInteger (value : Int) : List Char :=
  if value < 0 then
    '-' :: Nat.toDigits 10 value.natAbs
  else
    Nat.toDigits 10 value.natAbs

/-! ## Values -/

mutual

/-- A value that stands at a level of nesting. -/
def write (style : Style) (level : Nat) : Json → List Char
  | .null => ['n', 'u', 'l', 'l']
  | .bool true => ['t', 'r', 'u', 'e']
  | .bool false => ['f', 'a', 'l', 's', 'e']
  | .integer value => writeInteger value
  | .fraction => ['-', '0']
  | .string text => writeString text
  | .array [] => ['[', ']']
  | .array (item :: items) =>
      '[' :: (style.lineBreak (level + 1) ++ write style (level + 1) item
        ++ writeItems style (level + 1) items ++ style.lineBreak level ++ [']'])
  | .object [] => ['{', '}']
  | .object (member :: members) =>
      '{' :: (style.lineBreak (level + 1) ++ writeMember style (level + 1) member
        ++ writeMembers style (level + 1) members ++ style.lineBreak level ++ ['}'])

/-- The items behind the first one. -/
def writeItems (style : Style) (level : Nat) : List Json → List Char
  | [] => []
  | item :: items =>
      ',' :: (style.lineBreak level ++ write style level item
        ++ writeItems style level items)

/-- A key and its value. -/
def writeMember (style : Style) (level : Nat) : Option String × Json → List Char
  | (key, value) => writeString key ++ ':' :: (style.afterColon ++ write style level value)

/-- The members behind the first one. -/
def writeMembers (style : Style) (level : Nat) : List (Option String × Json) → List Char
  | [] => []
  | member :: members =>
      ',' :: (style.lineBreak level ++ writeMember style level member
        ++ writeMembers style level members)

end

def compact (value : Json) : String := String.ofList (write .compact 0 value)

def pretty (value : Json) : String := String.ofList (write .pretty 0 value)

end Json

end ModelText
