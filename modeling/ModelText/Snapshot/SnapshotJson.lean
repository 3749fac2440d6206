import ModelText.Snapshot.Compare

namespace ModelText

/-!
# Snapshots in JSON

The written forms of targets, object records and differences.  An attribute
without a value is written as null.
-/

namespace Target

def toJson : Target → Json
  | .numbered number => .record [("Numbered", .nat number)]
  | .external identity => .record [("External", .text identity)]
  | .unresolved text => .record [("Unresolved", .text text)]

def listToJson (targets : List Target) : Json := .array (targets.map toJson)

end Target

namespace ObjectRecord

def toJson (record : ObjectRecord) : Json :=
  .record [
    ("number", .nat record.number),
    ("class", .text record.metaclass.name),
    ("attributes", .record (record.attributes.map fun (feature, value) =>
      (feature.key, .optional (value.map Value.toJson)))),
    ("references", .record (record.references.map fun (feature, targets) =>
      (feature.key, Target.listToJson targets)))]

end ObjectRecord

namespace Difference

/-- A difference in the named respect, with its details. -/
private def detailed (name : String) (details : List (String × Json))
    (expected actual : Json) : Json :=
  .record [(name, .record (details ++ [("original", expected), ("parsed", actual)]))]

def toJson : Difference → Json
  | .size expected actual => detailed "Size" [] (.nat expected) (.nat actual)
  | .metaclass number expected actual =>
      detailed "Class" [("number", .nat number)] (.text expected.name) (.text actual.name)
  | .attribute number feature expected actual =>
      detailed "Attribute" [("number", .nat number), ("feature", .text feature.key)]
        (.optional (expected.map Value.toJson)) (.optional (actual.map Value.toJson))
  | .reference number feature expected actual =>
      detailed "Reference" [("number", .nat number), ("feature", .text feature.key)]
        (Target.listToJson expected) (Target.listToJson actual)

end Difference

end ModelText
