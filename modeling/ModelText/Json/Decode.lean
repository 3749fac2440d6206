import ModelText.Json.Reader

namespace ModelText

/-!
# Decoding JSON values

What a JSON value means where a text, a number, a list, a record or one of
several alternatives is expected; none where it means nothing there.  A record
is an object with the record's fields, each at most once, and any other members;
or an array of the fields in order, where fields at the end may be missing.
-/

namespace Json

def toBool? : Json → Option Bool
  | .bool value => some value
  | _ => none

def toText? : Json → Option String
  | .string text => text
  | _ => none

/-- An integer from the first bound up to, but not including, the second. -/
def toIntIn? (least bound : Int) : Json → Option Int
  | .integer value => if least ≤ value ∧ value < bound then some value else none
  | _ => none

def toNatBelow? (bound : Nat) (json : Json) : Option Nat :=
  (json.toIntIn? 0 bound).map Int.toNat

/-- A list whose items all decode. -/
def toList? (decode : Json → Option α) : Json → Option (List α)
  | .array items => items.mapM decode
  | _ => none

/-- Null, or something that decodes. -/
def toOption? (decode : Json → Option α) : Json → Option (Option α)
  | .null => some none
  | json => (decode json).map some

/-! ## Alternatives -/

/-- The alternative that a value names and what it holds: a string names one that
holds nothing, an object with a single member one that holds a value. -/
def toAlternative? : Json → Option (String × Option Json)
  | .string (some name) => some (name, none)
  | .object [(some name, content)] => some (name, some content)
  | _ => none

/-- The name of an alternative that holds nothing; as a member it holds null. -/
def toName? (json : Json) : Option String :=
  match json.toAlternative? with
  | some (name, none) => some name
  | some (name, some .null) => some name
  | _ => none

/-! ## Records -/

/-- The fields that a record gives. -/
abbrev Fields := List (String × Json)

/-- The fields of a record among the given names. -/
def toFields? (names : List String) : Json → Option Fields
  | .array items =>
      if items.length ≤ names.length then some (names.zip items) else none
  | .object members =>
      match members.mapM fun (key, value) => key.map fun key => (key, value) with
      | none => none
      | some members =>
          let known := members.filter fun member => names.contains member.1
          if (known.map Prod.fst).Nodup then some known else none
  | _ => none

namespace Fields

/-- A field that must be given. -/
def required? (fields : Fields) (name : String) (decode : Json → Option α) : Option α :=
  (fields.lookup name).bind decode

/-- A field that has a default. -/
def withDefault? (fields : Fields) (name : String) (default : α)
    (decode : Json → Option α) : Option α :=
  match fields.lookup name with
  | none => some default
  | some json => decode json

end Fields

end Json

/-! ## Documents -/

/-- Why a document was not read. -/
inductive LoadError where
  /-- There is no document, or it is not UTF-8. -/
  | unreadable
  /-- The text does not describe what was expected. -/
  | malformed
  deriving DecidableEq

/-- Read a document given by its bytes. -/
def loadDocument (decode : String → Option α) : Option ByteArray → Except LoadError α
  | none => .error .unreadable
  | some bytes =>
      match String.fromUTF8? bytes with
      | none => .error .unreadable
      | some text =>
          match decode text with
          | none => .error .malformed
          | some value => .ok value

end ModelText
