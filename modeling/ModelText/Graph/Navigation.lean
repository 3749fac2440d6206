import ModelText.Graph.Model

namespace ModelText

/-!
# Derived navigation

Elements own relationships and relationships own related elements, so the walk
from an element to its namespace goes through a membership.  Every step is read
off the containment back-pointers and stored values; nothing here is stored.
-/

namespace Model

/-! ## Downwards -/

def ownedRelationships (model : Model) (id : ObjectId) : List ObjectId :=
  model.objectValues id .ownedRelationship

def ownedRelatedElements (model : Model) (id : ObjectId) : List ObjectId :=
  model.objectValues id .ownedRelatedElement

def ownedMemberships (model : Model) (id : ObjectId) : List ObjectId :=
  (model.ownedRelationships id).filter (model.isA · .membership)

def ownedRedefinitions (model : Model) (id : ObjectId) : List ObjectId :=
  (model.ownedRelationships id).filter (model.isA · .redefinition)

/-- The first element owned by a relationship. -/
def ownedMemberElement? (model : Model) (membership : ObjectId) : Option ObjectId :=
  (model.ownedRelatedElements membership).head?

/-- The first feature among the elements owned by a relationship. -/
def ownedMemberFeature? (model : Model) (membership : ObjectId) : Option ObjectId :=
  (model.ownedRelatedElements membership).find? (model.isA · .feature)

/-- The element a membership makes visible: the one it owns if it is an owning
membership, the one it refers to otherwise. -/
def memberElement? (model : Model) (membership : ObjectId) : Option ObjectId :=
  if model.isA membership .owningMembership then
    model.ownedMemberElement? membership
  else
    (model.value? membership .memberElement).bind Value.object?

/-! ## Upwards -/

/-- The owner of an object that is contained through the given feature. -/
def ownerThrough? (model : Model) (feature : Metafeature) (id : ObjectId) :
    Option ObjectId :=
  (model.containment? id).bind fun (owner, containing) =>
    if containing = feature then some owner else none

theorem ownerThrough?_eq_some_iff {model : Model} {feature : Metafeature}
    {id owner : ObjectId} :
    model.ownerThrough? feature id = some owner ↔
      model.containment? id = some (owner, feature) := by
  simp only [ownerThrough?, Option.bind_eq_some_iff, Prod.exists]
  constructor
  · rintro ⟨place, containing, contained, same⟩
    by_cases through : containing = feature
    · rw [if_pos through] at same
      rw [contained, through, Option.some.inj same]
    · rw [if_neg through] at same
      cases same
  · intro contained
    exact ⟨owner, feature, contained, if_pos rfl⟩

def owningRelationship? (model : Model) (id : ObjectId) : Option ObjectId :=
  model.ownerThrough? .ownedRelatedElement id

def owningRelatedElement? (model : Model) (id : ObjectId) : Option ObjectId :=
  model.ownerThrough? .ownedRelationship id

def owningMembership? (model : Model) (id : ObjectId) : Option ObjectId :=
  (model.owningRelationship? id).filter (model.isA · .owningMembership)

def owningFeatureMembership? (model : Model) (id : ObjectId) : Option ObjectId :=
  (model.owningMembership? id).filter (model.isA · .featureMembership)

def owningType? (model : Model) (membership : ObjectId) : Option ObjectId :=
  (model.owningRelatedElement? membership).filter (model.isA · .type)

/-- The namespace of which an element is an owned member. -/
def owningNamespace? (model : Model) (id : ObjectId) : Option ObjectId :=
  ((model.owningMembership? id).bind model.owningRelatedElement?).filter
    (model.isA · .nameSpace)

/-! ## Features -/

/-- Whether a redefinition names the feature it redefines, bound or not. -/
def hasRedefinedFeature (model : Model) (redefinition : ObjectId) : Bool :=
  (model.value? redefinition .redefinedFeature).any Value.isReference

/-- The feature a redefinition redefines, when it is bound. -/
def redefinedFeature? (model : Model) (redefinition : ObjectId) : Option ObjectId :=
  (model.value? redefinition .redefinedFeature).bind Value.object?

def operator? (model : Model) (id : ObjectId) : Option String :=
  model.text? id .operator

def direction? (model : Model) (id : ObjectId) : Option Direction :=
  (model.value? id .direction).bind Value.direction?

def isInputParameter (model : Model) (id : ObjectId) : Bool :=
  (model.direction? id).any Direction.isInput

end Model

end ModelText
