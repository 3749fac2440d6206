import ModelText.Json.Basic
import ModelText.Omission.Category

namespace ModelText

/-!
# Categories in JSON

A category is written by its name, with what it carries as its content.
-/

namespace ExpressionShape

def toJson : ExpressionShape → Json
  | .operator symbol => .record [("Operator", .optional (symbol.map Json.text))]
  | .featureReference memberships => .record [("FeatureReference", .nat memberships)]
  | .invocation => .text "Invocation"
  | .other => .text "Other"

end ExpressionShape

namespace Category

def toJson : Category → Json
  | .alwaysDerived => .text "AlwaysDerived"
  | .direction membership redefiningItemFlowEnd =>
      .record [("Direction", .record [
        ("owning_membership",
          .optional (membership.map fun metaclass => .text metaclass.name)),
        ("redefining_item_flow_end", .bool redefiningItemFlowEnd)])]
  | .isEnd endMembership => .record [("IsEnd", .bool endMembership)]
  | .expressionResult shape => .record [("ExpressionResult", shape.toJson)]
  | .invocationInput => .text "InvocationInput"
  | .owningMembership membership =>
      .record [("OwningMembership", .nat membership.index)]
  | .implicitMultiplicity => .text "ImplicitMultiplicity"
  | .operand => .text "Operand"
  | .owningRelationshipTarget hasOwnedElement =>
      .record [("OwningRelationshipTarget", .bool hasOwnedElement)]
  | .ordinary => .text "Ordinary"

end Category

end ModelText
