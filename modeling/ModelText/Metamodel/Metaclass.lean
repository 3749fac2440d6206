namespace ModelText

/-!
# Metaclasses

The closed set of metaclasses of the abstract syntax and the single inheritance
between them.  A metaclass has at most one supertype, and every metaclass is
listed after its supertype, so a lineage climbs towards smaller positions and
ends at `element`.
-/

/-- A metaclass of the abstract syntax, in the order of declaration. -/
inductive Metaclass where
  | element
  | nameSpace
  | package
  | type
  | classifier
  | feature
  | expression
  | invocationExpression
  | operatorExpression
  | featureReferenceExpression
  | itemFlowEnd
  | multiplicity
  | multiplicityRange
  | relationship
  | membership
  | owningMembership
  | featureMembership
  | parameterMembership
  | returnParameterMembership
  | endFeatureMembership
  | specialization
  | featureTyping
  | subsetting
  | referenceSubsetting
  | redefinition
  | conjugation
  | portConjugation
  deriving DecidableEq, Inhabited

namespace Metaclass

def all : List Metaclass :=
  [.element, .nameSpace, .package, .type, .classifier, .feature, .expression,
   .invocationExpression, .operatorExpression, .featureReferenceExpression, .itemFlowEnd,
   .multiplicity, .multiplicityRange, .relationship, .membership, .owningMembership,
   .featureMembership, .parameterMembership, .returnParameterMembership,
   .endFeatureMembership, .specialization, .featureTyping, .subsetting,
   .referenceSubsetting, .redefinition, .conjugation, .portConjugation]

def name : Metaclass → String
  | .element => "Element"
  | .nameSpace => "Namespace"
  | .package => "Package"
  | .type => "Type"
  | .classifier => "Classifier"
  | .feature => "Feature"
  | .expression => "Expression"
  | .invocationExpression => "InvocationExpression"
  | .operatorExpression => "OperatorExpression"
  | .featureReferenceExpression => "FeatureReferenceExpression"
  | .itemFlowEnd => "ItemFlowEnd"
  | .multiplicity => "Multiplicity"
  | .multiplicityRange => "MultiplicityRange"
  | .relationship => "Relationship"
  | .membership => "Membership"
  | .owningMembership => "OwningMembership"
  | .featureMembership => "FeatureMembership"
  | .parameterMembership => "ParameterMembership"
  | .returnParameterMembership => "ReturnParameterMembership"
  | .endFeatureMembership => "EndFeatureMembership"
  | .specialization => "Specialization"
  | .featureTyping => "FeatureTyping"
  | .subsetting => "Subsetting"
  | .referenceSubsetting => "ReferenceSubsetting"
  | .redefinition => "Redefinition"
  | .conjugation => "Conjugation"
  | .portConjugation => "PortConjugation"

def ofName? (name : String) : Option Metaclass :=
  all.find? fun candidate => candidate.name == name

/-! ## Inheritance -/

/-- The direct supertype; `element` has none. -/
def supertype : Metaclass → Option Metaclass
  | .element => none
  | .nameSpace => some .element
  | .package => some .nameSpace
  | .type => some .nameSpace
  | .classifier => some .type
  | .feature => some .type
  | .expression => some .feature
  | .invocationExpression => some .expression
  | .operatorExpression => some .invocationExpression
  | .featureReferenceExpression => some .expression
  | .itemFlowEnd => some .feature
  | .multiplicity => some .feature
  | .multiplicityRange => some .multiplicity
  | .relationship => some .element
  | .membership => some .relationship
  | .owningMembership => some .membership
  | .featureMembership => some .owningMembership
  | .parameterMembership => some .featureMembership
  | .returnParameterMembership => some .parameterMembership
  | .endFeatureMembership => some .featureMembership
  | .specialization => some .relationship
  | .featureTyping => some .specialization
  | .subsetting => some .specialization
  | .referenceSubsetting => some .subsetting
  | .redefinition => some .subsetting
  | .conjugation => some .relationship
  | .portConjugation => some .conjugation

/-- At most `steps` climbs from a metaclass towards the root, the metaclass first. -/
private def climb : Nat → Metaclass → List Metaclass
  | 0, start => [start]
  | steps + 1, start =>
      match start.supertype with
      | none => [start]
      | some parent => start :: climb steps parent

/-- A metaclass followed by its supertypes up to `element`. -/
def lineage (start : Metaclass) : List Metaclass :=
  climb all.length start

/-- Whether instances of the first metaclass count as instances of the second. -/
def isA (specific general : Metaclass) : Bool :=
  specific.lineage.contains general

theorem mem_all (metaclass : Metaclass) : metaclass ∈ all := by
  cases metaclass <;> decide

theorem ofName?_name (metaclass : Metaclass) : ofName? metaclass.name = some metaclass := by
  cases metaclass <;> decide +kernel

theorem name_injective {left right : Metaclass} (same : left.name = right.name) :
    left = right := by
  have found := ofName?_name left
  rw [same, ofName?_name right] at found
  exact (Option.some.inj found).symm

theorem isA_refl (metaclass : Metaclass) : metaclass.isA metaclass = true := by
  cases metaclass <;> decide

theorem lineage_eq (start : Metaclass) :
    start.lineage = start :: (start.supertype.map lineage).getD [] := by
  cases start <;> rfl

theorem isA_eq_true_iff (specific general : Metaclass) :
    specific.isA general = true ↔
      specific = general ∨
        ∃ parent, specific.supertype = some parent ∧ parent.isA general = true := by
  rw [isA, lineage_eq]
  cases specific.supertype <;> simp [isA, @eq_comm _ general specific]

end Metaclass

end ModelText
