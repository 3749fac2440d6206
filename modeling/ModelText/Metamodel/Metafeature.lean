import ModelText.Metamodel.Metaclass

namespace ModelText

/-!
# Metafeatures

The structural features of the abstract syntax.  Each is declared by one
metaclass and says how it stores its values.  Attributes hold primitive values,
containments own the objects they hold, cross references point at objects owned
elsewhere, and containers are the back-pointers opposite to containments.
Derived features and containers are computed from other state and are never
written.
-/

/-- How a metafeature stores its values. -/
inductive Storage where
  | attribute
  | containment
  | crossReference
  | container
  deriving DecidableEq, Inhabited

namespace Storage

def name : Storage → String
  | .attribute => "Attribute"
  | .containment => "Containment"
  | .crossReference => "CrossReference"
  | .container => "Container"

/-- Values of every storage but `attribute` are objects. -/
def isReference (storage : Storage) : Bool :=
  storage != .attribute

end Storage

/-- What the abstract syntax says about a metafeature. -/
structure Descriptor where
  name : String
  declaredBy : Metaclass
  storage : Storage
  many : Bool
  derived : Bool

/-- A metafeature of the abstract syntax, in the order of declaration. -/
inductive Metafeature where
  | elementId
  | aliasIds
  | declaredShortName
  | declaredName
  | ownedRelationship
  | owningRelationship
  | effectiveName
  | qualifiedName
  | member
  | ownedMember
  | isAbstract
  | direction
  | isComposite
  | isEnd
  | isOrdered
  | owningType
  | owningFeatureMembership
  | ownedRedefinition
  | operand
  | operator
  | ownedRelatedElement
  | owningRelatedElement
  | source
  | target
  | memberElement
  | memberElementId
  | memberName
  | ownedMemberElementId
  | ownedMemberElement
  | general
  | specific
  | typedFeature
  | typingType
  | subsettedFeature
  | subsettingFeature
  | referencedFeature
  | redefinedFeature
  | redefiningFeature
  | originalType
  | conjugatedType
  | originalPortDefinition
  deriving DecidableEq, Inhabited

namespace Metafeature

def all : List Metafeature :=
  [.elementId, .aliasIds, .declaredShortName, .declaredName, .ownedRelationship,
   .owningRelationship, .effectiveName, .qualifiedName, .member, .ownedMember, .isAbstract,
   .direction, .isComposite, .isEnd, .isOrdered, .owningType, .owningFeatureMembership,
   .ownedRedefinition, .operand, .operator, .ownedRelatedElement, .owningRelatedElement,
   .source, .target, .memberElement, .memberElementId, .memberName, .ownedMemberElementId,
   .ownedMemberElement, .general, .specific, .typedFeature, .typingType, .subsettedFeature,
   .subsettingFeature, .referencedFeature, .redefinedFeature, .redefiningFeature,
   .originalType, .conjugatedType, .originalPortDefinition]

def count : Nat := all.length

def position (feature : Metafeature) : Nat := feature.ctorIdx

def descriptor : Metafeature → Descriptor
  | .elementId => ⟨"elementId", .element, .attribute, false, false⟩
  | .aliasIds => ⟨"aliasIds", .element, .attribute, true, false⟩
  | .declaredShortName => ⟨"declaredShortName", .element, .attribute, false, false⟩
  | .declaredName => ⟨"declaredName", .element, .attribute, false, false⟩
  | .ownedRelationship => ⟨"ownedRelationship", .element, .containment, true, false⟩
  | .owningRelationship => ⟨"owningRelationship", .element, .container, false, false⟩
  | .effectiveName => ⟨"name", .element, .attribute, false, true⟩
  | .qualifiedName => ⟨"qualifiedName", .element, .attribute, false, true⟩
  | .member => ⟨"member", .nameSpace, .crossReference, true, true⟩
  | .ownedMember => ⟨"ownedMember", .nameSpace, .crossReference, true, true⟩
  | .isAbstract => ⟨"isAbstract", .type, .attribute, false, false⟩
  | .direction => ⟨"direction", .feature, .attribute, false, false⟩
  | .isComposite => ⟨"isComposite", .feature, .attribute, false, false⟩
  | .isEnd => ⟨"isEnd", .feature, .attribute, false, false⟩
  | .isOrdered => ⟨"isOrdered", .feature, .attribute, false, false⟩
  | .owningType => ⟨"owningType", .feature, .crossReference, false, true⟩
  | .owningFeatureMembership => ⟨"owningFeatureMembership", .feature, .crossReference, false, true⟩
  | .ownedRedefinition => ⟨"ownedRedefinition", .feature, .crossReference, true, true⟩
  | .operand => ⟨"operand", .invocationExpression, .containment, true, false⟩
  | .operator => ⟨"operator", .operatorExpression, .attribute, false, false⟩
  | .ownedRelatedElement => ⟨"ownedRelatedElement", .relationship, .containment, true, false⟩
  | .owningRelatedElement => ⟨"owningRelatedElement", .relationship, .container, false, false⟩
  | .source => ⟨"source", .relationship, .crossReference, true, true⟩
  | .target => ⟨"target", .relationship, .crossReference, true, true⟩
  | .memberElement => ⟨"memberElement", .membership, .crossReference, false, false⟩
  | .memberElementId => ⟨"memberElementId", .membership, .attribute, false, false⟩
  | .memberName => ⟨"memberName", .membership, .attribute, false, false⟩
  | .ownedMemberElementId => ⟨"ownedMemberElementId", .owningMembership, .attribute, false, false⟩
  | .ownedMemberElement => ⟨"ownedMemberElement", .owningMembership, .crossReference, false, true⟩
  | .general => ⟨"general", .specialization, .crossReference, false, false⟩
  | .specific => ⟨"specific", .specialization, .crossReference, false, true⟩
  | .typedFeature => ⟨"typedFeature", .featureTyping, .crossReference, false, false⟩
  | .typingType => ⟨"type", .featureTyping, .crossReference, false, false⟩
  | .subsettedFeature => ⟨"subsettedFeature", .subsetting, .crossReference, false, false⟩
  | .subsettingFeature => ⟨"subsettingFeature", .subsetting, .crossReference, false, false⟩
  | .referencedFeature => ⟨"referencedFeature", .referenceSubsetting, .crossReference, false, false⟩
  | .redefinedFeature => ⟨"redefinedFeature", .redefinition, .crossReference, false, false⟩
  | .redefiningFeature => ⟨"redefiningFeature", .redefinition, .crossReference, false, false⟩
  | .originalType => ⟨"originalType", .conjugation, .crossReference, false, false⟩
  | .conjugatedType => ⟨"conjugatedType", .conjugation, .crossReference, false, false⟩
  | .originalPortDefinition =>
      ⟨"originalPortDefinition", .portConjugation, .crossReference, false, false⟩

/-- The abstract syntax name, unique within each metaclass. -/
def name (feature : Metafeature) : String := feature.descriptor.name

def declaredBy (feature : Metafeature) : Metaclass := feature.descriptor.declaredBy

def storage (feature : Metafeature) : Storage := feature.descriptor.storage

/-- Many-valued features hold an ordered list of values. -/
def isMany (feature : Metafeature) : Bool := feature.descriptor.many

/-- Derived features are computed from other state. -/
def isDerived (feature : Metafeature) : Bool := feature.descriptor.derived

/-- Features whose values an object holds itself, neither computed nor a
back-pointer to the container. -/
def isStored (feature : Metafeature) : Bool :=
  !feature.isDerived && feature.storage != .container

/-- The feature with its declaring metaclass, as messages write it. -/
def label (feature : Metafeature) : String :=
  feature.declaredBy.name ++ "." ++ feature.name

/-- The spelling of a feature in options and interchange: unlike the abstract
syntax name it is unique without its metaclass. -/
def key : Metafeature → String
  | .elementId => "ElementId"
  | .aliasIds => "AliasIds"
  | .declaredShortName => "DeclaredShortName"
  | .declaredName => "DeclaredName"
  | .ownedRelationship => "OwnedRelationship"
  | .owningRelationship => "OwningRelationship"
  | .effectiveName => "Name"
  | .qualifiedName => "QualifiedName"
  | .member => "Member"
  | .ownedMember => "OwnedMember"
  | .isAbstract => "IsAbstract"
  | .direction => "Direction"
  | .isComposite => "IsComposite"
  | .isEnd => "IsEnd"
  | .isOrdered => "IsOrdered"
  | .owningType => "OwningType"
  | .owningFeatureMembership => "OwningFeatureMembership"
  | .ownedRedefinition => "OwnedRedefinition"
  | .operand => "Operand"
  | .operator => "Operator"
  | .ownedRelatedElement => "OwnedRelatedElement"
  | .owningRelatedElement => "OwningRelatedElement"
  | .source => "Source"
  | .target => "Target"
  | .memberElement => "MemberElement"
  | .memberElementId => "MemberElementId"
  | .memberName => "MemberName"
  | .ownedMemberElementId => "OwnedMemberElementId"
  | .ownedMemberElement => "OwnedMemberElement"
  | .general => "General"
  | .specific => "Specific"
  | .typedFeature => "TypedFeature"
  | .typingType => "TypingType"
  | .subsettedFeature => "SubsettedFeature"
  | .subsettingFeature => "SubsettingFeature"
  | .referencedFeature => "ReferencedFeature"
  | .redefinedFeature => "RedefinedFeature"
  | .redefiningFeature => "RedefiningFeature"
  | .originalType => "OriginalType"
  | .conjugatedType => "ConjugatedType"
  | .originalPortDefinition => "OriginalPortDefinition"

def ofKey? (key : String) : Option Metafeature :=
  all.find? fun candidate => candidate.key == key

theorem mem_all (feature : Metafeature) : feature ∈ all := by
  cases feature <;> decide

theorem position_lt_count (feature : Metafeature) : feature.position < count := by
  cases feature <;> decide

theorem all_getElem?_position (feature : Metafeature) :
    all[feature.position]? = some feature := by
  cases feature <;> rfl

theorem position_getElem_all (index : Fin all.length) :
    all[index].position = index.val := by
  revert index
  decide

theorem position_injective {left right : Metafeature}
    (same : left.position = right.position) : left = right := by
  have found := all_getElem?_position left
  rw [same, all_getElem?_position right] at found
  exact (Option.some.inj found).symm

end Metafeature

end ModelText
