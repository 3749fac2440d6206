import ModelText.Graph.Navigation

namespace ModelText

/-!
# Categories of values

The textual notation leaves out values that its reader reconstructs.  Whether a
value is left out depends on little of the model around it; a category carries
exactly that much.  An index selects one value of a feature, no index the
feature as a whole.
-/

/-- The kind of expression that owns a result. -/
inductive ExpressionShape where
  /-- An operator expression with its operator. -/
  | operator (symbol : Option String)
  /-- A feature reference expression with the number of its memberships. -/
  | featureReference (memberships : Nat)
  /-- An invocation that is not an operator expression. -/
  | invocation
  | other
  deriving DecidableEq

/-- What the decision on a value depends on. -/
inductive Category where
  /-- Always reconstructed from other state. -/
  | alwaysDerived
  /-- A direction, implied by a parameter membership and by a redefinition on an
  item flow end. -/
  | direction (membership : Option Metaclass) (redefiningItemFlowEnd : Bool)
  /-- An end flag, implied by an end feature membership. -/
  | isEnd (endMembership : Bool)
  /-- The result parameter of an expression. -/
  | expressionResult (shape : ExpressionShape)
  /-- An input parameter of an invocation. -/
  | invocationInput
  /-- An owning membership, left out together with everything it owns. -/
  | owningMembership (membership : ObjectId)
  /-- A multiplicity that stands where no range was written. -/
  | implicitMultiplicity
  /-- An operand of an invocation, always printed. -/
  | operand
  /-- A target that is printed as the owned related element if there is one. -/
  | owningRelationshipTarget (hasOwnedElement : Bool)
  /-- No rule of its own. -/
  | ordinary
  deriving DecidableEq

namespace Category

/-- Features that the reader or the linker always fills in. -/
def alwaysDerivedFeatures : List Metafeature :=
  [.elementId, .aliasIds, .isComposite, .typedFeature, .subsettingFeature,
    .redefiningFeature]

/-- Relationship targets that coincide with an owned related element. -/
def owningRelationshipTargets : List Metafeature :=
  [.conjugatedType, .originalPortDefinition, .referencedFeature]

/-- Whether the first redefinition of a feature names a redefined feature and the
feature belongs to an item flow end. -/
def isRedefiningItemFlowEnd (model : Model) (id : ObjectId) : Bool :=
  (((model.owningFeatureMembership? id).bind model.owningType?).any
      (model.isA · .itemFlowEnd)) &&
    (model.ownedRedefinitions id).head?.any model.hasRedefinedFeature

/-- Whether an element is a multiplicity without a range. -/
def isPlaceholder (model : Model) (element : ObjectId) : Bool :=
  model.isA element .multiplicity && !model.isA element .multiplicityRange

def shapeOf (model : Model) (expression : ObjectId) : ExpressionShape :=
  if model.isA expression .operatorExpression then
    .operator (model.operator? expression)
  else if model.isA expression .featureReferenceExpression then
    .featureReference (model.ownedMemberships expression).length
  else if model.isA expression .invocationExpression then
    .invocation
  else
    .other

/-- Whether a relationship holds the result of the expression that owns it. -/
def isExpressionResult (model : Model) (owner relationship : ObjectId) : Bool :=
  model.isA owner .expression && model.isA relationship .returnParameterMembership

/-- Whether a relationship holds an input of the invocation that owns it. -/
def isInvocationInput (model : Model) (owner relationship : ObjectId) : Bool :=
  model.isA owner .invocationExpression && model.isA relationship .parameterMembership &&
    (model.ownedMemberFeature? relationship).any model.isInputParameter

/-- The category of a relationship among those an element owns. -/
def ofOwnedRelationship (model : Model) (owner relationship : ObjectId) : Category :=
  if isExpressionResult model owner relationship then
    .expressionResult (shapeOf model owner)
  else if isInvocationInput model owner relationship then
    .invocationInput
  else if model.isA relationship .owningMembership then
    .owningMembership relationship
  else
    .ordinary

/-- The category of an element among those a relationship owns. -/
def ofOwnedRelatedElement (model : Model) (element : ObjectId) : Category :=
  if isPlaceholder model element then .implicitMultiplicity else .ordinary

/-- The category of the selected object among some, if the index selects one. -/
def ofSelected (objects : List ObjectId) (index : Option Nat)
    (categorize : ObjectId → Category) : Category :=
  match index.bind fun position => objects[position]? with
  | some object => categorize object
  | none => .ordinary

/-- The category of a value, or of a feature as a whole. -/
def of (model : Model) (owner : ObjectId) (feature : Metafeature) (index : Option Nat) :
    Category :=
  if alwaysDerivedFeatures.contains feature then
    .alwaysDerived
  else if owningRelationshipTargets.contains feature then
    .owningRelationshipTarget !(model.ownedRelatedElements owner).isEmpty
  else
    match feature with
    | .direction =>
        .direction ((model.owningFeatureMembership? owner).bind model.metaclass?)
          (isRedefiningItemFlowEnd model owner)
    | .isEnd =>
        .isEnd ((model.owningMembership? owner).any (model.isA · .endFeatureMembership))
    | .ownedRelationship =>
        ofSelected (model.ownedRelationships owner) index (ofOwnedRelationship model owner)
    | .ownedRelatedElement =>
        ofSelected (model.ownedRelatedElements owner) index (ofOwnedRelatedElement model)
    | .operand => .operand
    | _ => .ordinary

end Category

end ModelText
