import Mathlib.GroupTheory.Perm.List
import ModelText.Graph.Draft
import ModelText.Proofs.Reference.Renaming
import ModelText.Sequence.Pass

namespace ModelText

/-!
# Printing renamed models

A pass meets ids only as the objects it walks over.  What the notation leaves out, which
tokens it chooses, and in which order it goes through an object depends on names, classes
and positions.  So a pass over a renamed model runs step by step like the pass over the
original, and comes to the same outcome with other ids in its events and errors.
-/

/-! ## What is left out -/

def Category.rename (rename : ObjectId → ObjectId) : Category → Category
  | .owningMembership membership => .owningMembership (rename membership)
  | category => category

namespace Model.RenamesObjects

variable {model other : Model} {permutation : Equiv.Perm ObjectId}
  (renames : model.RenamesObjects permutation other)
include renames

omit renames in
theorem any_eq {ask askToo : ObjectId → Bool} (same : ∀ id, askToo (permutation id) = ask id)
    (found : Option ObjectId) : (found.map permutation).any askToo = found.any ask := by
  cases found with
  | none => rfl
  | some id => exact same id

theorem isRedefiningItemFlowEnd_eq (id : ObjectId) :
    Category.isRedefiningItemFlowEnd other (permutation id) =
      Category.isRedefiningItemFlowEnd model id := by
  have owner : (other.owningFeatureMembership? (permutation id)).bind other.owningType? =
      ((model.owningFeatureMembership? id).bind model.owningType?).map permutation := by
    rw [renames.owningFeatureMembership?_eq]
    cases model.owningFeatureMembership? id with
    | none => rfl
    | some membership => exact renames.owningType?_eq membership
  rw [Category.isRedefiningItemFlowEnd, owner, renames.ownedRedefinitions_eq, List.head?_map,
    any_eq fun id => renames.isA_eq id .itemFlowEnd,
    any_eq renames.hasRedefinedFeature_eq, Category.isRedefiningItemFlowEnd]

theorem shapeOf_eq (expression : ObjectId) :
    Category.shapeOf other (permutation expression) = Category.shapeOf model expression := by
  rw [Category.shapeOf, renames.isA_eq, renames.isA_eq, renames.isA_eq, operator?,
    renames.text?_eq, renames.ownedMemberships_eq, List.length_map, Category.shapeOf, operator?]

theorem ofOwnedRelationship_eq (owner relationship : ObjectId) :
    Category.ofOwnedRelationship other (permutation owner) (permutation relationship) =
      (Category.ofOwnedRelationship model owner relationship).rename permutation := by
  have result : Category.isExpressionResult other (permutation owner)
      (permutation relationship) = Category.isExpressionResult model owner relationship := by
    rw [Category.isExpressionResult, renames.isA_eq, renames.isA_eq,
      Category.isExpressionResult]
  have input : Category.isInvocationInput other (permutation owner)
      (permutation relationship) = Category.isInvocationInput model owner relationship := by
    rw [Category.isInvocationInput, renames.isA_eq, renames.isA_eq,
      renames.ownedMemberFeature?_eq, any_eq renames.isInputParameter_eq,
      Category.isInvocationInput]
  rw [Category.ofOwnedRelationship, result, input, renames.isA_eq, renames.shapeOf_eq,
    Category.ofOwnedRelationship]
  split
  · rfl
  · split
    · rfl
    · split <;> rfl

theorem ofOwnedRelatedElement_eq (element : ObjectId) :
    Category.ofOwnedRelatedElement other (permutation element) =
      (Category.ofOwnedRelatedElement model element).rename permutation := by
  rw [Category.ofOwnedRelatedElement, Category.isPlaceholder, renames.isA_eq, renames.isA_eq,
    Category.ofOwnedRelatedElement, Category.isPlaceholder]
  split <;> rfl

omit renames in
theorem ofSelected_eq {categorize categorizeToo : ObjectId → Category}
    (same : ∀ id, categorizeToo (permutation id) = (categorize id).rename permutation)
    (objects : List ObjectId) (index : Option Nat) :
    Category.ofSelected (objects.map permutation) index categorizeToo =
      (Category.ofSelected objects index categorize).rename permutation := by
  have selected : (index.bind fun position => (objects.map permutation)[position]?) =
      (index.bind fun position => objects[position]?).map permutation := by
    cases index with
    | none => rfl
    | some position => exact List.getElem?_map
  rw [Category.ofSelected, selected, Category.ofSelected]
  cases index.bind fun position => objects[position]? with
  | none => rfl
  | some object => exact same object

/-- The category of a value carries the renamed membership, if any, and is the same
otherwise. -/
theorem category_eq (owner : ObjectId) (feature : Metafeature) (index : Option Nat) :
    Category.of other (permutation owner) feature index =
      (Category.of model owner feature index).rename permutation := by
  unfold Category.of
  rw [ownedRelatedElements, renames.objectValues_eq, List.isEmpty_map]
  split
  · rfl
  · split
    · rfl
    · cases feature with
      | direction =>
          rw [renames.owningFeatureMembership?_eq, renames.isRedefiningItemFlowEnd_eq]
          cases model.owningFeatureMembership? owner with
          | none => rfl
          | some membership => exact congrArg (Category.direction · _) (renames.metaclass?_eq _)
      | isEnd =>
          rw [renames.owningMembership?_eq,
            any_eq fun id => renames.isA_eq id .endFeatureMembership]
          rfl
      | ownedRelationship =>
          rw [ownedRelationships, renames.objectValues_eq]
          exact ofSelected_eq (renames.ofOwnedRelationship_eq owner) _ index
      | ownedRelatedElement => exact ofSelected_eq renames.ofOwnedRelatedElement_eq _ index
      | _ => rfl

theorem omits_plain_eq (owner : ObjectId) (feature : Metafeature) (index : Option Nat) :
    OmissionPolicy.plain.omits other (permutation owner) feature index =
      OmissionPolicy.plain.omits model owner feature index := by
  rw [OmissionPolicy.plain]
  dsimp only
  rw [renames.values_eq, List.length_map, List.isEmpty_map]

theorem omitsOwnedElement_eq (relationship : ObjectId) (index : Nat) :
    OmissionPolicy.omitsOwnedElement .plain other (permutation relationship) index =
      OmissionPolicy.omitsOwnedElement .plain model relationship index := by
  rw [OmissionPolicy.omitsOwnedElement, renames.category_eq, renames.omits_plain_eq,
    OmissionPolicy.omitsOwnedElement]
  cases Category.of model relationship .ownedRelatedElement (some index) <;> rfl

theorem omits_textual_eq (owner : ObjectId) (feature : Metafeature) (index : Option Nat) :
    (OmissionPolicy.textual .plain).omits other (permutation owner) feature index =
      (OmissionPolicy.textual .plain).omits model owner feature index := by
  have decided : ∀ category : Category,
      OmissionPolicy.decision? .plain other (category.rename permutation) =
        OmissionPolicy.decision? .plain model category := by
    intro category
    cases category with
    | owningMembership membership =>
        refine congrArg some ?_
        rw [OmissionPolicy.omitsEveryOwnedElement, renames.values_eq, List.length_map,
          OmissionPolicy.omitsEveryOwnedElement]
        congr 1
        funext position
        exact renames.omitsOwnedElement_eq membership position
    | _ => rfl
  rw [OmissionPolicy.textual]
  dsimp only
  rw [renames.category_eq, decided, renames.omits_plain_eq]

/-- The same values of a renamed object are printed. -/
theorem printedIndices_eq (owner : ObjectId) (feature : Metafeature) :
    (OmissionPolicy.textual .plain).printedIndices other (permutation owner) feature =
      (OmissionPolicy.textual .plain).printedIndices model owner feature := by
  rw [OmissionPolicy.printedIndices, OmissionPolicy.printedIndices]
  rw [renames.values_eq, List.length_map, renames.omits_textual_eq]
  simp only [renames.omits_textual_eq]
  rfl

end Model.RenamesObjects

/-! ## Renaming outcomes -/

def ModelError.rename (rename : ObjectId → ObjectId) : ModelError → ModelError
  | .unknownObject object => .unknownObject (rename object)
  | .alreadyContained object => .alreadyContained (rename object)
  | .containmentCycle owner child => .containmentCycle (rename owner) (rename child)
  | error => error

def PassError.rename (rename : ObjectId → ObjectId) : PassError → PassError
  | .resolution error => .resolution (error.rename rename)
  | .model error => .model (error.rename rename)
  | .boundExceeded object feature constraint count limit =>
      .boundExceeded (rename object) feature constraint count limit
  | .unknownObject object => .unknownObject (rename object)

def Event.rename (rename : ObjectId → ObjectId) : Event → Event
  | .enter object metaclass feature constraint =>
      .enter (rename object) metaclass feature constraint
  | .attribute object feature value many =>
      .attribute (rename object) feature (value.rename rename) many
  | .reference object feature index token many =>
      .reference (rename object) feature index token many
  | .exit object => .exit (rename object)

namespace Pass

def Item.rename (rename : ObjectId → ObjectId) : Item → Item
  | .event accepted => .event (accepted.rename rename)
  | .child feature object => .child feature (rename object)

def Task.rename (rename : ObjectId → ObjectId) : Task → Task
  | .visit object feature => .visit (rename object) feature
  | .leave object => .leave (rename object)

def Progress.rename (rename : ObjectId → ObjectId) (progress : Progress) : Progress where
  pending := progress.pending.map (Task.rename rename)
  events := progress.events.map (Event.rename rename)
  tally := progress.tally

/-- An outcome with all objects renamed; its tally, if there is one, is the same. -/
def Outcome.rename (rename : ObjectId → ObjectId) (outcome : Outcome) : Outcome where
  events := outcome.events.map (Event.rename rename)
  result := outcome.result.mapError (PassError.rename rename)

def renameResult (rename : ObjectId → ObjectId) : Except PassError Item → Except PassError Item
  | .ok item => .ok (item.rename rename)
  | .error error => .error (error.rename rename)

theorem untilError_rename (rename : ObjectId → ObjectId)
    (results : List (Except PassError Item)) :
    untilError (results.map (renameResult rename)) =
      ((untilError results).1.map (Item.rename rename),
        (untilError results).2.map (PassError.rename rename)) := by
  induction results with
  | nil => rfl
  | cons result rest inductionHypothesis =>
      cases result with
      | error error => rfl
      | ok item =>
          rw [List.map_cons, renameResult, untilError, inductionHypothesis]
          rfl

theorem filterMap_event?_rename (rename : ObjectId → ObjectId) (items : List Item) :
    (items.map (Item.rename rename)).filterMap Item.event? =
      (items.filterMap Item.event?).map (Event.rename rename) :=
  filterMap_map_of_commutes (fun item => by cases item <;> rfl) items

theorem filterMap_child?_rename (rename : ObjectId → ObjectId) (items : List Item) :
    (items.map (Item.rename rename)).filterMap Item.child? =
      (items.filterMap Item.child?).map fun child => (child.1, rename child.2) :=
  filterMap_map_of_commutes (fun item => by cases item <;> rfl) items

theorem push_append_rename (rename : ObjectId → ObjectId) (events : Array Event)
    (entered : Event) (accepted : List Event) :
    (events.map (Event.rename rename)).push (entered.rename rename) ++
        accepted.map (Event.rename rename) =
      (events.push entered ++ accepted).map (Event.rename rename) := by
  apply Array.toList_inj.mp
  simp

theorem finish_rename (rename : ObjectId → ObjectId) (progress : Progress)
    (result : Except PassError Tally) :
    (progress.rename rename).finish (result.mapError (PassError.rename rename)) =
      (progress.finish result).rename rename := by
  rw [Progress.finish, Progress.finish, Outcome.rename, Progress.rename]
  simp

/-! ## Passes -/

/-- What a pass decides about a value of an object does not depend on ids. -/
structure IgnoresIds (pass : Pass) (model : Model) (permutation : Equiv.Perm ObjectId)
    (other : Model) : Prop where
  printedIndices_eq : ∀ owner feature,
    pass.policy.printedIndices other (permutation owner) feature =
      pass.policy.printedIndices model owner feature
  resolve_eq : ∀ site value,
    pass.resolver.resolve other (site.rename permutation) (value.rename permutation) =
      (pass.resolver.resolve model site value).mapError (ResolutionError.rename permutation)

theorem standard_ignoresIds {model other : Model} {permutation : Equiv.Perm ObjectId}
    (renames : model.Renames permutation other) (options : Options)
    (constraints : Option Constraints) :
    (standard options constraints).IgnoresIds model permutation other where
  printedIndices_eq := renames.printedIndices_eq
  resolve_eq := Resolver.resolve_rename options renames

section

variable {pass : Pass} {model other : Model} {permutation : Equiv.Perm ObjectId}
  (renames : model.RenamesObjects permutation other)
  (ignores : pass.IgnoresIds model permutation other)

include ignores in
/-- A renamed value contributes the renamed item, or the renamed error. -/
theorem valueItem?_rename (object : ObjectId) (feature : Metafeature) (many : Bool)
    (index : Nat) (value : Value) :
    pass.valueItem? other (permutation object) feature many index (value.rename permutation) =
      (pass.valueItem? model object feature many index value).map
        (renameResult permutation) := by
  rw [valueItem?, valueItem?]
  cases feature.storage with
  | «attribute» => rfl
  | crossReference =>
      have resolved := ignores.resolve_eq ⟨object, feature, index⟩ value
      rw [ReferenceSite.rename] at resolved
      dsimp only at resolved ⊢
      rw [resolved]
      cases pass.resolver.resolve model ⟨object, feature, index⟩ value <;> rfl
  | containment =>
      dsimp only
      rw [Value.object?_rename]
      cases value.object? <;> rfl
  | container => rfl

theorem boundFault?_rename (rename : ObjectId → ObjectId) (constraint : Option Constraint)
    (object : ObjectId) (feature : Metafeature) (count : Nat) :
    pass.boundFault? constraint (rename object) feature count =
      (pass.boundFault? constraint object feature count).map (PassError.rename rename) := by
  unfold boundFault?
  split
  · cases constraint with
    | none => rfl
    | some constraint =>
        rw [Option.bind_some, Option.bind_some]
        split
        · split <;> rfl
        · rfl
  · rfl

include renames ignores

theorem featureItems_rename (object : ObjectId) (constraint : Option Constraint)
    (feature : Metafeature) :
    pass.featureItems other (permutation object) constraint feature =
      (pass.featureItems model object constraint feature).map (renameResult permutation) := by
  rw [featureItems, featureItems]
  dsimp only
  rw [ignores.printedIndices_eq, renames.values_eq]
  cases pass.policy.printedIndices model object feature with
  | nil => rfl
  | cons first rest =>
      dsimp only
      rw [boundFault?_rename]
      cases pass.boundFault? constraint object feature (first :: rest).length with
      | some fault => rfl
      | none =>
          rw [Option.map_none, List.map_filterMap]
          dsimp only
          congr 1
          funext index
          rw [List.getElem?_map]
          cases (model.values object feature)[index]? with
          | none => rfl
          | some value => exact valueItem?_rename ignores object feature _ index value

theorem objectItems_rename (object : ObjectId) (metaclass : Metaclass) :
    pass.objectItems other (permutation object) metaclass =
      (pass.objectItems model object metaclass).map (renameResult permutation) := by
  rw [objectItems, objectItems, List.map_flatMap]
  congr 1
  funext feature
  exact featureItems_rename renames ignores object _ feature

theorem objectTally_rename (object : ObjectId) (metaclass : Metaclass) :
    pass.objectTally other (permutation object) metaclass =
      pass.objectTally model object metaclass := by
  rw [objectTally, objectTally]
  congr 1
  funext tally feature
  rw [featureTally, featureTally]
  rw [ignores.printedIndices_eq, renames.values_eq, List.length_map]

theorem visitObject_rename (progress : Progress) (object : ObjectId)
    (feature : Option Metafeature) :
    pass.visitObject other (progress.rename permutation) (permutation object) feature =
      match pass.visitObject model progress object feature with
      | .ok advanced => .ok (advanced.rename permutation)
      | .error outcome => .error (outcome.rename permutation) := by
  rw [visitObject, visitObject, renames.metaclass?_eq]
  cases model.metaclass? object with
  | none =>
      exact congrArg Except.error
        (finish_rename permutation progress (.error (.unknownObject object)))
  | some metaclass =>
      dsimp only
      rw [objectItems_rename renames ignores, untilError_rename]
      dsimp only
      rw [filterMap_event?_rename]
      have events := push_append_rename permutation progress.events
        (.enter object metaclass feature ((pass.constraintFor? metaclass).map Constraint.name))
        ((untilError (pass.objectItems model object metaclass)).1.filterMap Item.event?)
      rw [Event.rename] at events
      cases (untilError (pass.objectItems model object metaclass)).2 with
      | some error =>
          dsimp only [Progress.rename, Option.map_some]
          rw [events]
          exact congrArg Except.error
            (finish_rename permutation ⟨progress.pending, _, progress.tally⟩ (.error error))
      | none =>
          dsimp only [Progress.rename, Option.map_none]
          rw [events, filterMap_child?_rename, objectTally_rename renames ignores]
          simp [Task.rename]

/-- The loop over renamed tasks comes to the renamed outcome. -/
theorem perform_rename (limit : Nat) (progress : Progress) :
    pass.perform other limit (progress.rename permutation) =
      (pass.perform model limit progress).rename permutation := by
  induction limit generalizing progress with
  | zero => exact finish_rename permutation progress (.ok progress.tally)
  | succ limit inductionHypothesis =>
      rcases progress with ⟨pending, events, tally⟩
      cases pending with
      | nil => exact finish_rename permutation ⟨[], events, tally⟩ (.ok tally)
      | cons task pending =>
          cases task with
          | leave object =>
              have left := inductionHypothesis ⟨pending, events.push (.exit object), tally⟩
              rw [Progress.rename] at left
              dsimp only at left
              rw [Array.map_push] at left
              exact left
          | visit object feature =>
              have visited := visitObject_rename renames ignores ⟨pending, events, tally⟩
                object feature
              rw [Progress.rename] at visited
              rw [perform_visit, Progress.rename, List.map_cons, Task.rename, perform_visit]
              dsimp only at visited ⊢
              rw [visited]
              cases pass.visitObject model ⟨pending, events, tally⟩ object feature with
              | error outcome => rfl
              | ok advanced => exact inductionHypothesis advanced

end

/-- Printing does not depend on ids: over a renamed model, from the renamed root, a pass
accepts the renamed events in the same order, and comes to the same tally or to the
renamed error. -/
theorem run_rename {model other : Model} {permutation : Equiv.Perm ObjectId}
    (renames : model.Renames permutation other) (options : Options)
    (constraints : Option Constraints) (root : ObjectId) :
    (standard options constraints).run other (permutation root) =
      ((standard options constraints).run model root).rename permutation := by
  have performed := perform_rename renames.toRenamesObjects
    (standard_ignoresIds renames options constraints) (2 * model.objects.size + 1)
    ⟨[.visit root none], #[], .zero⟩
  rw [Progress.rename, Array.map_empty] at performed
  rw [run, renames.size_eq, run, ← performed]
  rfl

/-- A part with its definition and a base nobody declares, in a draft that already has
their objects.  The name of the base is recorded as it was read. -/
def connectWheel (definition definitionMembership part partMembership typing
    specialization : ObjectId) (draft : ModelDraft) : ModelDraft :=
  let draft := draft.set definition .declaredName (.text "Wheel")
  let draft := draft.set part .declaredName (.text "wheel")
  let draft := draft.push definitionMembership .ownedRelatedElement (.object definition)
  let draft := draft.push partMembership .ownedRelatedElement (.object part)
  let draft := draft.push ModelDraft.root .ownedRelationship (.object definitionMembership)
  let draft := draft.push ModelDraft.root .ownedRelationship (.object partMembership)
  let draft := draft.push part .ownedRelationship (.object typing)
  let draft := draft.set typing .typingType (.object definition)
  let draft := draft.push definition .ownedRelationship (.object specialization)
  let draft := draft.set specialization .general (.proxy "Base")
  draft.recordSourceToken ⟨specialization, .general, 0⟩ "Base"

/-- The wheel, its objects created from the outside in. -/
def wheelOutsideIn : ModelDraft :=
  connectWheel ⟨2⟩ ⟨1⟩ ⟨4⟩ ⟨3⟩ ⟨5⟩ ⟨6⟩ <|
    [.owningMembership, .classifier, .featureMembership, .feature, .featureTyping,
      .specialization].foldl (fun draft metaclass => (draft.create metaclass).2)
        ModelDraft.initial

/-- The wheel, its relationships created before its elements. -/
def wheelRelationshipsFirst : ModelDraft :=
  connectWheel ⟨5⟩ ⟨3⟩ ⟨6⟩ ⟨4⟩ ⟨1⟩ ⟨2⟩ <|
    [.featureTyping, .specialization, .owningMembership, .featureMembership, .classifier,
      .feature].foldl (fun draft metaclass => (draft.create metaclass).2)
        ModelDraft.initial

/-- Each object of the wheel takes the id of the next one in the cycle. -/
def wheelCycle : Equiv.Perm ObjectId :=
  List.formPerm [⟨1⟩, ⟨3⟩, ⟨4⟩, ⟨6⟩, ⟨2⟩, ⟨5⟩]

/-- The wheel is printed alike however its objects were created, with a token for its
definition and the recorded one for the base. -/
theorem run_rename_wheel :
    wheelOutsideIn.refusal = none ∧ wheelRelationshipsFirst.refusal = none ∧
      wheelOutsideIn.model.Renames wheelCycle wheelRelationshipsFirst.model ∧
      ((standard .standard none).run wheelOutsideIn.model ⟨0⟩).result = .ok ⟨7, 2, 2, 0⟩ ∧
      (standard .standard none).run wheelRelationshipsFirst.model (wheelCycle ⟨0⟩) =
        ((standard .standard none).run wheelOutsideIn.model ⟨0⟩).rename wheelCycle := by
  have objects : wheelOutsideIn.model.RenamesObjects wheelCycle
      wheelRelationshipsFirst.model := by decide +kernel
  have tokens : wheelRelationshipsFirst.model.sourceTokens =
      wheelOutsideIn.model.sourceTokens.map fun entry =>
        (entry.1.rename wheelCycle, entry.2) := by decide +kernel
  have renames : wheelOutsideIn.model.Renames wheelCycle wheelRelationshipsFirst.model :=
    ⟨objects, Model.sourceToken?_of_map tokens⟩
  exact ⟨by decide +kernel, by decide +kernel, renames, by decide +kernel,
    run_rename renames .standard none ⟨0⟩⟩

end Pass

end ModelText
