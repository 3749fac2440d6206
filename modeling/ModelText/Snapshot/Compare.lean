import ModelText.Snapshot.Basic
import ModelText.Text.Quoted

namespace ModelText

/-!
# Comparing snapshots

The first difference between an expected and an actual snapshot: in size, or at
the first position where they differ, in class, then in an attribute, then in a
reference.  Features are compared in the order of declaration, and only those
that the expected snapshot records.
-/

/-- The first mismatch between two snapshots. -/
inductive Difference where
  | size (expected actual : Nat)
  | metaclass (number : Nat) (expected actual : Metaclass)
  | attribute (number : Nat) (feature : Metafeature) (expected actual : Option Value)
  | reference (number : Nat) (feature : Metafeature) (expected actual : List Target)
  deriving DecidableEq

namespace ObjectRecord

/-- The first attribute of a record that another record has a different value for. -/
def attributeDifference? (expected actual : ObjectRecord) : Option Difference :=
  expected.attributes.findSome? fun (feature, value) =>
    let other := (actual.attributes.lookup feature).join
    if value = other then none else some (.attribute expected.number feature value other)

/-- The first reference of a record that another record has different targets for. -/
def referenceDifference? (expected actual : ObjectRecord) : Option Difference :=
  expected.references.findSome? fun (feature, targets) =>
    let others := (actual.references.lookup feature).getD []
    if targets = others then
      none
    else
      some (.reference expected.number feature targets others)

def difference? (expected actual : ObjectRecord) : Option Difference :=
  if expected.metaclass != actual.metaclass then
    some (.metaclass expected.number expected.metaclass actual.metaclass)
  else
    match expected.attributeDifference? actual with
    | some difference => some difference
    | none => expected.referenceDifference? actual

end ObjectRecord

namespace Snapshot

def compare (expected actual : Snapshot) : Option Difference :=
  if expected.objects.length != actual.objects.length then
    some (.size expected.objects.length actual.objects.length)
  else
    (expected.objects.zip actual.objects).findSome? fun (left, right) =>
      left.difference? right

def isMatch (expected actual : Snapshot) : Bool := (expected.compare actual).isNone

end Snapshot

/-! ## Texts of differences -/

private def listText (items : List String) : String :=
  "[" ++ ", ".intercalate items ++ "]"

namespace Direction

def describe : Direction → String
  | .into => "In"
  | .out => "Out"
  | .inOut => "InOut"

end Direction

namespace Value

def describe : Value → String
  | .bool value => "Bool(" ++ (if value then "true" else "false") ++ ")"
  | .int value => "Int(" ++ toString value ++ ")"
  | .text value => "Text(" ++ Text.quoted value ++ ")"
  | .direction value => "Direction(" ++ value.describe ++ ")"
  | .object target => "Object(ObjectId(" ++ toString target.index ++ "))"
  | .proxy written => "Proxy(Proxy \x7b text: " ++ Text.quoted written ++ " \x7d)"

/-- The value of an attribute, if there is one. -/
def describeOption : Option Value → String
  | some value => "Some(" ++ value.describe ++ ")"
  | none => "None"

end Value

namespace Target

def describe : Target → String
  | .numbered number => "Numbered(" ++ toString number ++ ")"
  | .external identity => "External(" ++ Text.quoted identity ++ ")"
  | .unresolved text => "Unresolved(" ++ Text.quoted text ++ ")"

end Target

namespace Difference

/-- Where a difference was found. -/
private def positionText (number : Nat) : String := "object " ++ toString number ++ ": "

def message : Difference → String
  | .size expected actual =>
      "tree sizes differ: " ++ toString expected ++ " vs " ++ toString actual ++ " objects"
  | .metaclass number expected actual =>
      positionText number ++ "class " ++ expected.name ++ " vs " ++ actual.name
  | .attribute number feature expected actual =>
      positionText number ++ feature.label ++ " = " ++ Value.describeOption expected
        ++ " vs " ++ Value.describeOption actual
  | .reference number feature expected actual =>
      positionText number ++ feature.label ++ " -> "
        ++ listText (expected.map Target.describe) ++ " vs "
        ++ listText (actual.map Target.describe)

end Difference

end ModelText
