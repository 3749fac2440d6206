import ModelText.Json.Basic

namespace ModelText

/-!
# Reading JSON

A strict reader: no comments, no trailing commas, no byte order mark, no leading
zeros, no raw control characters in strings, and nothing but blanks after the
value.  Every function returns what it read and the characters behind it.  The
limit passed down bounds the number of nested calls.  Of these at most three are
made at the same character, so a limit of three calls for each character is
always enough.
-/

namespace Json

/-- What was read and what is left, none where the text is malformed. -/
abbrev Read (α : Type) := Option (α × List Char)

def isBlank (char : Char) : Bool :=
  char == ' ' || char == '\t' || char == '\n' || char == '\r'

def skipBlanks (text : List Char) : List Char := text.dropWhile isBlank

/-! ## Numbers -/

def digitsValue (digits : List Char) : Nat :=
  digits.foldl (fun value digit => 10 * value + (digit.toNat - '0'.toNat)) 0

/-- At least one digit. -/
def readDigits (text : List Char) : Read (List Char) :=
  match text.span Char.isDigit with
  | ([], _) => none
  | found => some found

/-- The digits before the point: a single zero, or digits that begin with none. -/
def readWhole (text : List Char) : Read (List Char) :=
  match readDigits text with
  | none => none
  | some (['0'], rest) => some (['0'], rest)
  | some ('0' :: _, _) => none
  | found => found

/-- An optional point with digits behind it; whether there was one. -/
def readFraction : List Char → Read Bool
  | '.' :: rest => (readDigits rest).map fun (_, rest) => (true, rest)
  | text => some (false, text)

def skipSign : List Char → List Char
  | '+' :: rest => rest
  | '-' :: rest => rest
  | text => text

/-- An optional exponent; whether there was one. -/
def readExponent : List Char → Read Bool
  | [] => some (false, [])
  | head :: rest =>
      if head = 'e' ∨ head = 'E' then
        (readDigits (skipSign rest)).map fun (_, rest) => (true, rest)
      else
        some (false, head :: rest)

/-- The number with the given sign and digits, if it is an integer. -/
def numberOf (negative : Bool) (whole : List Char) (inexact : Bool) : Json :=
  let magnitude := digitsValue whole
  if inexact || (negative && magnitude == 0) then
    .fraction
  else if negative then
    .integer (-(magnitude : Int))
  else
    .integer magnitude

/-- A number behind its sign. -/
def readUnsigned (negative : Bool) (text : List Char) : Read Json :=
  match readWhole text with
  | none => none
  | some (whole, rest) =>
      match readFraction rest with
      | none => none
      | some (hasFraction, rest) =>
          match readExponent rest with
          | none => none
          | some (hasExponent, rest) =>
              some (numberOf negative whole (hasFraction || hasExponent), rest)

def readNumber : List Char → Read Json
  | '-' :: rest => readUnsigned true rest
  | text => readUnsigned false text

/-! ## Strings -/

def hexDigit? (char : Char) : Option Nat :=
  if char.isDigit then
    some (char.toNat - '0'.toNat)
  else if 'a' ≤ char ∧ char ≤ 'f' then
    some (char.toNat - 'a'.toNat + 10)
  else if 'A' ≤ char ∧ char ≤ 'F' then
    some (char.toNat - 'A'.toNat + 10)
  else
    none

def readHex4 : List Char → Read Nat
  | first :: second :: third :: fourth :: rest =>
      match hexDigit? first, hexDigit? second, hexDigit? third, hexDigit? fourth with
      | some a, some b, some c, some d => some (((a * 16 + b) * 16 + c) * 16 + d, rest)
      | _, _, _, _ => none
  | _ => none

/-- A unit of a string: a character, or half a surrogate pair. -/
inductive StringUnit where
  | char (value : Char)
  | high (code : Nat)
  | low (code : Nat)
  deriving DecidableEq

/-- The unit with a sixteen-bit code. -/
def StringUnit.ofCode (code : Nat) : StringUnit :=
  if 0xD800 ≤ code ∧ code ≤ 0xDBFF then
    .high code
  else if 0xDC00 ≤ code ∧ code ≤ 0xDFFF then
    .low code
  else
    .char (Char.ofNat code)

/-- The character of a surrogate pair. -/
def pairChar (high low : Nat) : Char :=
  Char.ofNat (0x10000 + (high - 0xD800) * 0x400 + (low - 0xDC00))

/-- The text of string units.  A high half must be followed by a low one, and
there is no other place for a low one. -/
def textOfUnits : List StringUnit → Option (List Char)
  | [] => some []
  | .char value :: rest => (textOfUnits rest).map (value :: ·)
  | .high high :: .low low :: rest => (textOfUnits rest).map (pairChar high low :: ·)
  | .high _ :: _ => none
  | .low _ :: _ => none

/-- The character that a letter stands for behind a backslash. -/
def simpleEscape? : Char → Option Char
  | '"' => some '"'
  | '\\' => some '\\'
  | '/' => some '/'
  | 'b' => some '\x08'
  | 'f' => some '\x0c'
  | 'n' => some '\n'
  | 'r' => some '\r'
  | 't' => some '\t'
  | _ => none

/-- The units of a string up to its closing quote. -/
def readUnits : Nat → List Char → Read (List StringUnit)
  | 0, _ => none
  | _ + 1, [] => none
  | _ + 1, '"' :: rest => some ([], rest)
  | _ + 1, ['\\'] => none
  | limit + 1, '\\' :: 'u' :: rest =>
      match readHex4 rest with
      | none => none
      | some (code, rest) =>
          (readUnits limit rest).map fun (units, rest) =>
            (StringUnit.ofCode code :: units, rest)
  | limit + 1, '\\' :: letter :: rest =>
      match simpleEscape? letter with
      | none => none
      | some char =>
          (readUnits limit rest).map fun (units, rest) => (.char char :: units, rest)
  | limit + 1, char :: rest =>
      if char.toNat < 0x20 then
        none
      else
        (readUnits limit rest).map fun (units, rest) => (.char char :: units, rest)

/-- The text of a string behind its opening quote. -/
def readString (limit : Nat) (text : List Char) : Read (Option String) :=
  (readUnits limit text).map fun (units, rest) =>
    ((textOfUnits units).map String.ofList, rest)

/-! ## Values -/

def readWord (word : List Char) (value : Json) (text : List Char) : Read Json :=
  if word.isPrefixOf text then some (value, text.drop word.length) else none

mutual

/-- A value behind its leading blanks. -/
def readValue : Nat → List Char → Read Json
  | 0, _ => none
  | limit + 1, text =>
      match skipBlanks text with
      | [] => none
      | '"' :: rest =>
          (readString limit rest).map fun (text, rest) => (.string text, rest)
      | '[' :: rest => readArray limit rest
      | '{' :: rest => readObject limit rest
      | 'n' :: rest => readWord ['u', 'l', 'l'] .null rest
      | 't' :: rest => readWord ['r', 'u', 'e'] (.bool true) rest
      | 'f' :: rest => readWord ['a', 'l', 's', 'e'] (.bool false) rest
      | text => readNumber text

/-- The items of an array behind its opening bracket. -/
def readArray : Nat → List Char → Read Json
  | 0, _ => none
  | limit + 1, text =>
      match skipBlanks text with
      | ']' :: rest => some (.array [], rest)
      | _ => (readItems limit text).map fun (items, rest) => (.array items, rest)

/-- One item or more, up to the closing bracket. -/
def readItems : Nat → List Char → Read (List Json)
  | 0, _ => none
  | limit + 1, text =>
      match readValue limit text with
      | none => none
      | some (item, rest) =>
          match skipBlanks rest with
          | ']' :: rest => some ([item], rest)
          | ',' :: rest =>
              (readItems limit rest).map fun (items, rest) => (item :: items, rest)
          | _ => none

/-- The members of an object behind its opening brace. -/
def readObject : Nat → List Char → Read Json
  | 0, _ => none
  | limit + 1, text =>
      match skipBlanks text with
      | '}' :: rest => some (.object [], rest)
      | _ => (readMembers limit text).map fun (members, rest) => (.object members, rest)

/-- One member or more, up to the closing brace. -/
def readMembers : Nat → List Char → Read (List (Option String × Json))
  | 0, _ => none
  | limit + 1, text =>
      match readMember limit text with
      | none => none
      | some (member, rest) =>
          match skipBlanks rest with
          | '}' :: rest => some ([member], rest)
          | ',' :: rest =>
              (readMembers limit rest).map fun (members, rest) => (member :: members, rest)
          | _ => none

/-- A key, a colon and a value. -/
def readMember : Nat → List Char → Read (Option String × Json)
  | 0, _ => none
  | limit + 1, text =>
      match skipBlanks text with
      | '"' :: rest =>
          match readString limit rest with
          | none => none
          | some (key, rest) =>
              match skipBlanks rest with
              | ':' :: rest =>
                  (readValue limit rest).map fun (value, rest) => ((key, value), rest)
              | _ => none
      | _ => none

end

/-- The value of a whole text. -/
def readChars (text : List Char) : Option Json :=
  match readValue (3 * text.length + 1) text with
  | some (value, rest) => if (skipBlanks rest).isEmpty then some value else none
  | none => none

def parse (text : String) : Option Json := readChars text.toList

end Json

end ModelText
