import ModelText.Grammar.Constraint
import ModelText.Json.Basic

namespace ModelText

/-!
# Constraints in JSON

A constraint is written with the bounds of all features of its metaclass, in the
order of their ids, and with the features that it does not bound.
-/

namespace Bound

def toJson (bound : Bound) : Json := .text bound.display

end Bound

namespace Constraint

def toJson (constraint : Constraint) : Json :=
  .record [
    ("name", .text constraint.name),
    ("rule", .text constraint.rule),
    ("class", .text constraint.metaclass.name),
    ("bounds", .array (constraint.bounds.bounds.map Bound.toJson)),
    ("unbounded",
      .array (constraint.unboundedFeatures.map fun feature => .text feature.key))]

end Constraint

end ModelText
