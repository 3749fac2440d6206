import ModelText.Graph.Value
import ModelText.Json.Decode

namespace ModelText

/-!
# Values in JSON

A value is written as the alternative that tells its kind, with its content:
the direction keyword for directions, the object's number for bound references
and a record with the text for proxies.  Metafeatures are written by their keys.
-/

def Direction.ofJson? (json : Json) : Option Direction :=
  json.toName?.bind Direction.ofKeyword?

def Metafeature.ofJson? (json : Json) : Option Metafeature :=
  json.toName?.bind Metafeature.ofKey?

def Metaclass.ofJson? (json : Json) : Option Metaclass :=
  json.toName?.bind Metaclass.ofName?

/-- Object numbers fit in 32 bits. -/
def ObjectId.ofJson? (json : Json) : Option ObjectId :=
  (json.toNatBelow? (Nat.pow 2 32)).map ObjectId.mk

namespace Value

/-- A proxy is a record with its text. -/
def proxyOfJson? (json : Json) : Option Value :=
  (json.toFields? ["text"]).bind fun fields =>
    (fields.required? "text" Json.toText?).map Value.proxy

/-- The value that a JSON value describes.  Integers fit in 64 bits. -/
def ofJson? (json : Json) : Option Value :=
  match json.toAlternative? with
  | some ("Bool", some content) => content.toBool?.map Value.bool
  | some ("Int", some content) => (content.toIntIn? (-Int.pow 2 63) (Int.pow 2 63)).map Value.int
  | some ("Text", some content) => content.toText?.map Value.text
  | some ("Direction", some content) => (Direction.ofJson? content).map Value.direction
  | some ("Object", some content) => (ObjectId.ofJson? content).map Value.object
  | some ("Proxy", some content) => proxyOfJson? content
  | _ => none

def toJson : Value → Json
  | .bool value => .record [("Bool", .bool value)]
  | .int value => .record [("Int", .integer value)]
  | .text value => .record [("Text", .text value)]
  | .direction value => .record [("Direction", .text value.keyword)]
  | .object target => .record [("Object", .nat target.index)]
  | .proxy written => .record [("Proxy", .record [("text", .text written)])]

end Value

def Slot.toJson : Slot → Json
  | .single value => .record [("Single", value.toJson)]
  | .many values => .record [("Many", .array (values.map Value.toJson))]

end ModelText
