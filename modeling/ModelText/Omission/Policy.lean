import ModelText.Omission.Category

namespace ModelText

/-!
# Which values are left out

A policy decides for a value, or for a feature as a whole, whether the notation
leaves it out, and for which features the values are decided one by one.  The
plain policy leaves out what is not stored.  The policy of the textual notation
decides by category and asks a baseline policy about ordinary values.
-/

/-- Decides which values are left out. -/
structure OmissionPolicy where
  /-- Whether the value at an index, or the feature as a whole, is left out. -/
  omits : Model → ObjectId → Metafeature → Option Nat → Bool
  /-- Whether the values of a feature are decided one by one. -/
  decidesEach : Model → ObjectId → Metafeature → Bool

namespace OmissionPolicy

/-- Leaves out derived features, back-pointers and what is not set. -/
def plain : OmissionPolicy where
  omits model owner feature index :=
    !feature.isStored ||
      match index with
      | some position => (model.values owner feature).length ≤ position
      | none => (model.values owner feature).isEmpty
  decidesEach _ _ _ := false

/-- The same decision for every value. -/
def constant (omitted each : Bool) : OmissionPolicy where
  omits _ _ _ _ := omitted
  decidesEach _ _ _ := each

/-! ## The textual notation -/

/-- Operators whose expressions print their result parameter. -/
def resultPrintingOperators : List String := ["all", "as", "meta"]

def omitsResult : ExpressionShape → Bool
  | .operator symbol => !symbol.any resultPrintingOperators.contains
  | .featureReference memberships => memberships != 1
  | .invocation => true
  | .other => true

/-- Whether an element owned by a relationship is left out. -/
def omitsOwnedElement (baseline : OmissionPolicy) (model : Model) (relationship : ObjectId)
    (index : Nat) : Bool :=
  match Category.of model relationship .ownedRelatedElement (some index) with
  | .implicitMultiplicity => true
  | _ => baseline.omits model relationship .ownedRelatedElement (some index)

/-- Whether everything a membership owns is left out. -/
def omitsEveryOwnedElement (baseline : OmissionPolicy) (model : Model)
    (membership : ObjectId) : Bool :=
  (List.range (model.values membership .ownedRelatedElement).length).all
    (omitsOwnedElement baseline model membership)

/-- The decision on a category, none where the baseline decides. -/
def decision? (baseline : OmissionPolicy) (model : Model) : Category → Option Bool
  | .alwaysDerived => some true
  | .direction membership redefiningItemFlowEnd =>
      if membership.any (·.isA .parameterMembership) || redefiningItemFlowEnd then
        some true
      else
        none
  | .isEnd endMembership => some endMembership
  | .expressionResult shape => some (omitsResult shape)
  | .invocationInput => some true
  | .owningMembership membership =>
      some (omitsEveryOwnedElement baseline model membership)
  | .implicitMultiplicity => some true
  | .operand => some false
  | .owningRelationshipTarget hasOwnedElement => some hasOwnedElement
  | .ordinary => none

/-- The policy of the textual notation over a baseline. -/
def textual (baseline : OmissionPolicy) : OmissionPolicy where
  omits model owner feature index :=
    (decision? baseline model (Category.of model owner feature index)).getD
      (baseline.omits model owner feature index)
  decidesEach model owner feature :=
    feature == .ownedRelationship || feature == .ownedRelatedElement ||
      baseline.decidesEach model owner feature

/-! ## The values that remain -/

/-- The indices of the values of a feature that are printed. -/
def printedIndices (policy : OmissionPolicy) (model : Model) (owner : ObjectId)
    (feature : Metafeature) : List Nat :=
  let indices := List.range (model.values owner feature).length
  if policy.decidesEach model owner feature then
    indices.filter fun index => !policy.omits model owner feature (some index)
  else if policy.omits model owner feature none then
    []
  else
    indices

/-- Inside a membership the textual policy decides on an owned element as it does
anywhere else. -/
theorem omits_textual_ownedRelatedElement (baseline : OmissionPolicy) (model : Model)
    (relationship : ObjectId) (index : Nat) :
    (textual baseline).omits model relationship .ownedRelatedElement (some index) =
      omitsOwnedElement baseline model relationship index := by
  have category :
      Category.of model relationship .ownedRelatedElement (some index) =
          .implicitMultiplicity ∨
        Category.of model relationship .ownedRelatedElement (some index) = .ordinary := by
    simp only [Category.of, Category.ofSelected, Category.ofOwnedRelatedElement]
    rw [if_neg (by decide), if_neg (by decide)]
    cases (some index).bind fun position =>
        (model.ownedRelatedElements relationship)[position]? with
    | none => exact .inr rfl
    | some element =>
        by_cases placeholder : Category.isPlaceholder model element = true
        · exact .inl (if_pos placeholder)
        · exact .inr (if_neg placeholder)
  cases category with
  | inl implicit => simp [textual, omitsOwnedElement, implicit, decision?]
  | inr ordinary => simp [textual, omitsOwnedElement, ordinary, decision?]

end OmissionPolicy

end ModelText
