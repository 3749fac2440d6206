import ModelText.Graph.ValueJson
import ModelText.Sequence.Pass

namespace ModelText

/-!
# Events in JSON

An event is the alternative that tells what happens, with a record of its
details.  The feature and the constraint of an entered object may be missing.
The tally of a pass is a record of its counts.
-/

namespace Event

/-- The member of an object under a key, null when it is absent. -/
private def detail (json : Json) (key : String) : Json :=
  match json with
  | .object members => (members.lookup (some key)).getD .null
  | _ => .null

private def enterOfJson? (json : Json) : Option Event := do
  let object ← ObjectId.ofJson? (detail json "object")
  let metaclass ← Metaclass.ofJson? (detail json "class")
  let feature ← (detail json "feature").toOption? Metafeature.ofJson?
  let constraint ← (detail json "constraint").toOption? Json.toText?
  return .enter object metaclass feature constraint

private def attributeOfJson? (json : Json) : Option Event := do
  let object ← ObjectId.ofJson? (detail json "object")
  let feature ← Metafeature.ofJson? (detail json "feature")
  let value ← Value.ofJson? (detail json "value")
  let many ← (detail json "many").toBool?
  return .attribute object feature value many

private def referenceOfJson? (json : Json) : Option Event := do
  let object ← ObjectId.ofJson? (detail json "object")
  let feature ← Metafeature.ofJson? (detail json "feature")
  let index ← (detail json "index").toNatBelow? (Nat.pow 2 64)
  let token ← (detail json "token").toText?
  let many ← (detail json "many").toBool?
  return .reference object feature index token many

def ofJson? (json : Json) : Option Event :=
  match json.toAlternative? with
  | some ("Enter", some content) => enterOfJson? content
  | some ("Attribute", some content) => attributeOfJson? content
  | some ("Reference", some content) => referenceOfJson? content
  | some ("Exit", some content) =>
      (ObjectId.ofJson? (detail content "object")).map Event.exit
  | _ => none

def toJson : Event → Json
  | .enter object metaclass feature constraint =>
      .record [("Enter", .record [
        ("object", .nat object.index),
        ("class", .text metaclass.name),
        ("feature", .optional (feature.map fun feature => .text feature.key)),
        ("constraint", .optional (constraint.map Json.text))])]
  | .attribute object feature value many =>
      .record [("Attribute", .record [
        ("object", .nat object.index),
        ("feature", .text feature.key),
        ("value", value.toJson),
        ("many", .bool many)])]
  | .reference object feature index token many =>
      .record [("Reference", .record [
        ("object", .nat object.index),
        ("feature", .text feature.key),
        ("index", .nat index),
        ("token", .text token),
        ("many", .bool many)])]
  | .exit object => .record [("Exit", .record [("object", .nat object.index)])]

end Event

def Tally.toJson (tally : Tally) : Json :=
  .record [
    ("objects", .nat tally.objects),
    ("attributes", .nat tally.attributes),
    ("references", .nat tally.references),
    ("transient", .nat tally.omitted)]

end ModelText
