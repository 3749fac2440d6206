import Mathlib.Data.List.Forall2
import ModelText.Proofs.Checks
import ModelText.Proofs.Sequence.Trace

namespace ModelText

/-!
# The shape of what is printed

The events of a pass, said without a loop: a relation between an object and its
events that follows the containment downwards.  An object is entered, every
printed index of an attribute or a reference gives one event, the printed children
come one after the other, and the object is left.  The relation determines the
events, and a pass that succeeds accepts the events it gives for the root.

The shape of the events can be read off the relation.  What is entered is left
again, in the opposite order, and the objects entered are those to which printed
containments lead from the root, each of them once.
-/

theorem forall₂_filterMap {α β : Type} {relation : α → β → Prop} {select : α → Option β}
    {listed : List α}
    (each : ∀ member, member ∈ listed → ∃ result, select member = some result ∧
      relation member result) :
    List.Forall₂ relation listed (listed.filterMap select) := by
  induction listed with
  | nil => exact .nil
  | cons head rest inductionHypothesis =>
      rcases each head List.mem_cons_self with ⟨result, selected, related⟩
      rw [List.filterMap_cons_some selected]
      exact .cons related
        (inductionHypothesis fun member inside => each member (List.mem_cons_of_mem _ inside))

/-- Two lists related to a third one are the same if their entries have no choice. -/
theorem forall₂_unique {α β : Type} {relation : α → β → Prop} {listed : List α}
    (single : ∀ member, member ∈ listed → ∀ one other,
      relation member one → relation member other → one = other)
    {results others : List β} (related : List.Forall₂ relation listed results)
    (also : List.Forall₂ relation listed others) : results = others := by
  induction related generalizing others with
  | nil => cases also; rfl
  | @cons head result rest results relatedHead _ inductionHypothesis =>
      cases also with
      | @cons _ other _ others alsoHead alsoRest =>
          rw [single head List.mem_cons_self result other relatedHead alsoHead,
            inductionHypothesis (fun member inside =>
              single member (List.mem_cons_of_mem _ inside)) alsoRest]

theorem map_eq_of_forall₂ {α β γ : Type} {relation : α → β → Prop} {listed : List α}
    {read : β → γ} {readToo : α → γ}
    (same : ∀ member, member ∈ listed → ∀ result, relation member result →
      read result = readToo member)
    {results : List β} (related : List.Forall₂ relation listed results) :
    results.map read = listed.map readToo := by
  induction related with
  | nil => rfl
  | @cons head result rest results relatedHead _ inductionHypothesis =>
      rw [List.map_cons, List.map_cons, same head List.mem_cons_self result relatedHead,
        inductionHypothesis fun member inside => same member (List.mem_cons_of_mem _ inside)]

namespace Event

def entered? : Event → Option ObjectId
  | .enter object _ _ _ => some object
  | _ => none

end Event

def enteredObjects (events : List Event) : List ObjectId :=
  events.filterMap Event.entered?

/-! ## Balanced events -/

/-- Every object that is entered is left again, and what happens in between is
balanced in the same way. -/
inductive Balanced : List Event → Prop
  | nil : Balanced []
  | attribute {object : ObjectId} {feature : Metafeature} {value : Value} {many : Bool}
      {rest : List Event} :
      Balanced rest → Balanced (.attribute object feature value many :: rest)
  | reference {object : ObjectId} {feature : Metafeature} {index : Nat} {token : String}
      {many : Bool} {rest : List Event} :
      Balanced rest → Balanced (.reference object feature index token many :: rest)
  | object {object : ObjectId} {metaclass : Metaclass} {feature : Option Metafeature}
      {constraint : Option String} {inner rest : List Event} :
      Balanced inner → Balanced rest →
        Balanced (.enter object metaclass feature constraint :: (inner ++ .exit object :: rest))

namespace Balanced

theorem append {events others : List Event} (balanced : Balanced events)
    (also : Balanced others) : Balanced (events ++ others) := by
  induction balanced with
  | nil => exact also
  | «attribute» _ inductionHypothesis => exact .attribute inductionHypothesis
  | reference _ inductionHypothesis => exact .reference inductionHypothesis
  | object inner _ _ inductionHypothesis =>
      rw [List.cons_append, List.append_assoc, List.cons_append]
      exact .object inner inductionHypothesis

theorem flatten {groups : List (List Event)}
    (each : ∀ group, group ∈ groups → Balanced group) : Balanced groups.flatten := by
  induction groups with
  | nil => exact .nil
  | cons group rest inductionHypothesis =>
      rw [List.flatten_cons]
      exact (each group List.mem_cons_self).append
        (inductionHypothesis fun other inside => each other (List.mem_cons_of_mem _ inside))

end Balanced

namespace Pass

variable {pass : Pass} {model : Model} {object root : ObjectId}

/-! ## What the events of an object are -/

/-- An event prints the value at an index of a feature: an attribute as it is, a
reference by its token. -/
inductive PrintsValue (pass : Pass) (model : Model) (object : ObjectId) (feature : Metafeature)
    (many : Bool) (index : Nat) : Event → Prop
  | attribute {value : Value} :
      feature.storage = .attribute → (model.values object feature)[index]? = some value →
        PrintsValue pass model object feature many index
          (.attribute object feature value many)
  | reference {value : Value} {token : String} :
      feature.storage = .crossReference →
      (model.values object feature)[index]? = some value →
      pass.resolver.resolve model ⟨object, feature, index⟩ value = .ok token →
        PrintsValue pass model object feature many index
          (.reference object feature index token many)

/-- The events of a feature: one for each printed index, in order.  Contained
objects are no events of the feature; they are entered later. -/
inductive PrintsFeature (pass : Pass) (model : Model) (object : ObjectId)
    (constraint : Option Constraint) (feature : Metafeature) : List Event → Prop
  | values {events : List Event} :
      feature.storage ≠ .containment →
      List.Forall₂
        (PrintsValue pass model object feature (rendersMany constraint feature))
        (pass.policy.printedIndices model object feature) events →
        PrintsFeature pass model object constraint feature events
  | children : feature.storage = .containment →
      PrintsFeature pass model object constraint feature []

/-- The events of an object and of everything printed below it: its entry, what its features
print, the events of its printed children, and its exit. -/
inductive Traces (pass : Pass) (model : Model) :
    Option Metafeature → ObjectId → List Event → Prop
  | object {feature : Option Metafeature} {object : ObjectId} {metaclass : Metaclass}
      {own inner : List (List Event)} :
      model.metaclass? object = some metaclass →
      List.Forall₂ (PrintsFeature pass model object (pass.constraintFor? metaclass))
        metaclass.storedFeatures own →
      List.Forall₂ (fun child events => Traces pass model (some child.1) child.2 events)
        (pass.printedChildren model object) inner →
        Traces pass model feature object
          (.enter object metaclass feature
              ((pass.constraintFor? metaclass).map Constraint.name) ::
            (own.flatten ++ inner.flatten ++ [.exit object]))

/-! ## The events are determined -/

theorem PrintsValue.unique {feature : Metafeature} {many : Bool} {index : Nat}
    {event other : Event} (prints : PrintsValue pass model object feature many index event)
    (also : PrintsValue pass model object feature many index other) : event = other := by
  cases prints with
  | «attribute» storage stored =>
      cases also with
      | «attribute» _ storedToo => rw [Option.some.inj (stored.symm.trans storedToo)]
      | reference different => rw [storage] at different; cases different
  | reference storage stored resolved =>
      cases also with
      | «attribute» different => rw [storage] at different; cases different
      | reference _ storedToo resolvedToo =>
          rw [Option.some.inj (stored.symm.trans storedToo)] at resolved
          rw [Except.ok.inj (resolved.symm.trans resolvedToo)]

theorem PrintsFeature.unique {constraint : Option Constraint} {feature : Metafeature}
    {events others : List Event}
    (prints : PrintsFeature pass model object constraint feature events)
    (also : PrintsFeature pass model object constraint feature others) : events = others := by
  cases prints with
  | values notContained prints =>
      cases also with
      | values _ alsoPrints =>
          exact forall₂_unique (fun _ _ _ _ one other => one.unique other) prints alsoPrints
      | children contained => exact absurd contained notContained
  | children contained =>
      cases also with
      | values notContained => exact absurd contained notContained
      | children => rfl

/-- The events of a tree are determined, from the children to the parent. -/
theorem Traces.unique (forest : model.Forest) {feature : Option Metafeature}
    {events others : List Event} (traces : Traces pass model feature object events)
    (also : Traces pass model feature object others) : events = others := by
  revert feature events others
  apply forest.descend (printedChildren_descend forest pass)
    (fun object => ∀ {feature events others}, Traces pass model feature object events →
      Traces pass model feature object others → events = others)
  intro object inductionHypothesis feature events others traces also
  cases traces with
  | @object _ _ metaclass own inner known ownPrints innerTraces =>
      cases also with
      | @object _ _ metaclass' own' inner' known' ownPrints' innerTraces' =>
          cases Option.some.inj (known.symm.trans known')
          rw [forall₂_unique (fun _ _ _ _ one other => one.unique other) ownPrints ownPrints',
            forall₂_unique (fun child below _ _ one other =>
              inductionHypothesis child.2 (List.mem_map_of_mem below) one other)
              innerTraces innerTraces']

/-! ## What a pass accepts -/

/-- An accepted object prints its features. -/
theorem printsFeature_of_accepted {metaclass : Metaclass}
    (noError : (untilError (pass.objectItems model object metaclass)).2 = none)
    {feature : Metafeature} (listed : feature ∈ metaclass.storedFeatures) :
    PrintsFeature pass model object (pass.constraintFor? metaclass) feature
      (pass.featureEvents model object (pass.constraintFor? metaclass) feature) := by
  cases storage : feature.storage with
  | «attribute» =>
      refine .values (by rw [storage]; decide) (forall₂_filterMap ?_)
      intro index printed
      rcases OmissionPolicy.exists_getElem?_of_mem_printedIndices printed with ⟨value, stored⟩
      refine ⟨_, ?_, .attribute storage stored⟩
      rw [stored, Option.bind_some, valueEvent?, valueItem?, storage]
      rfl
  | crossReference =>
      refine .values (by rw [storage]; decide) (forall₂_filterMap ?_)
      intro index printed
      rcases OmissionPolicy.exists_getElem?_of_mem_printedIndices printed with ⟨value, stored⟩
      rcases resolve_of_accepted noError listed storage printed stored with ⟨token, resolved⟩
      refine ⟨_, ?_, .reference storage stored resolved⟩
      rw [stored, Option.bind_some, valueEvent?, valueItem?, storage]
      dsimp only
      rw [resolved]
      rfl
  | containment =>
      rw [featureEvents_of_containment storage]
      exact .children storage
  | container =>
      rw [Metaclass.storedFeatures, List.mem_filter, Metafeature.isStored, storage] at listed
      simp at listed

/-- The recursive walk over accepted objects is what the relation asks for. -/
theorem traces_trace (forest : model.Forest) (feature : Option Metafeature)
    (accepts : ∀ entered, entered ∈ pass.printedTree model object → pass.Accepts model entered) :
    Traces pass model feature object (pass.trace model feature object) := by
  revert feature accepts
  apply forest.descend (printedChildren_descend forest pass)
    (fun object => ∀ feature,
      (∀ entered, entered ∈ pass.printedTree model object → pass.Accepts model entered) →
        Traces pass model feature object (pass.trace model feature object))
  intro object inductionHypothesis feature accepts
  rw [printedTree_eq forest] at accepts
  rcases accepts object List.mem_cons_self with ⟨metaclass, known, noError⟩
  have own : List.Forall₂ (PrintsFeature pass model object (pass.constraintFor? metaclass))
      metaclass.storedFeatures (metaclass.storedFeatures.map
        (pass.featureEvents model object (pass.constraintFor? metaclass))) := by
    rw [List.forall₂_map_right_iff, List.forall₂_same]
    exact fun read listed => printsFeature_of_accepted noError listed
  have inner : List.Forall₂ (fun child events => Traces pass model (some child.1) child.2 events)
      (pass.printedChildren model object) ((pass.printedChildren model object).map fun child =>
        pass.trace model (some child.1) child.2) := by
    rw [List.forall₂_map_right_iff, List.forall₂_same]
    intro child below
    refine inductionHypothesis child.2 (List.mem_map_of_mem below) (some child.1) ?_
    intro entered inside
    exact accepts entered
      (List.mem_cons_of_mem _ (List.mem_flatMap.mpr ⟨child, below, inside⟩))
  have whole : Traces pass model feature object _ := .object known own inner
  rw [trace_eq forest, entryEvents, known]
  simpa [List.flatMap_def] using whole

/-! ## The shape of the events -/

theorem PrintsValue.entered?_eq_none {feature : Metafeature} {many : Bool} {index : Nat}
    {event : Event} (prints : PrintsValue pass model object feature many index event) :
    event.entered? = none := by
  cases prints <;> rfl

theorem PrintsFeature.enteredObjects_eq_nil {constraint : Option Constraint}
    {feature : Metafeature} {events : List Event}
    (prints : PrintsFeature pass model object constraint feature events) :
    enteredObjects events = [] := by
  cases prints with
  | values _ prints =>
      refine List.filterMap_eq_nil_iff.mpr ?_
      intro event member
      rcases exists_of_mem_forall₂ prints member with ⟨_, _, printsOne⟩
      exact printsOne.entered?_eq_none
  | children => rfl

theorem PrintsFeature.balanced {constraint : Option Constraint} {feature : Metafeature}
    {events : List Event} (prints : PrintsFeature pass model object constraint feature events) :
    Balanced events := by
  cases prints with
  | values _ prints =>
      revert prints
      generalize pass.policy.printedIndices model object feature = printed
      intro prints
      induction prints with
      | nil => exact .nil
      | cons printsOne _ inductionHypothesis =>
          cases printsOne with
          | «attribute» => exact .attribute inductionHypothesis
          | reference => exact .reference inductionHypothesis
  | children => exact .nil

/-- What is printed of an object is balanced, and so is what stands between its
first and its last event. -/
theorem Traces.balanced (forest : model.Forest) {feature : Option Metafeature}
    {events : List Event} (traces : Traces pass model feature object events) :
    ∃ metaclass constraint inner,
      events = .enter object metaclass feature constraint :: (inner ++ [.exit object]) ∧
        Balanced inner := by
  revert feature events
  apply forest.descend (printedChildren_descend forest pass)
    (fun object => ∀ {feature events}, Traces pass model feature object events →
      ∃ metaclass constraint inner, events =
        Event.enter object metaclass feature constraint :: (inner ++ [Event.exit object]) ∧
          Balanced inner)
  intro object inductionHypothesis feature events traces
  cases traces with
  | @object _ _ metaclass own inner known ownPrints innerTraces =>
      refine ⟨metaclass, _, own.flatten ++ inner.flatten, rfl, ?_⟩
      apply Balanced.append
      · apply Balanced.flatten
        intro group member
        rcases exists_of_mem_forall₂ ownPrints member with ⟨_, _, prints⟩
        exact prints.balanced
      · apply Balanced.flatten
        intro group member
        rcases exists_of_mem_forall₂ innerTraces member with ⟨child, below, childTraces⟩
        rcases inductionHypothesis child.2 (List.mem_map_of_mem below) childTraces with
          ⟨_, _, between, rfl, balanced⟩
        exact .object balanced .nil

theorem Traces.enteredObjects_eq (forest : model.Forest) {feature : Option Metafeature}
    {events : List Event} (traces : Traces pass model feature object events) :
    enteredObjects events = pass.printedTree model object := by
  revert feature events
  apply forest.descend (printedChildren_descend forest pass)
    (fun object => ∀ {feature events}, Traces pass model feature object events →
      enteredObjects events = pass.printedTree model object)
  intro object inductionHypothesis feature events traces
  cases traces with
  | @object _ _ metaclass own inner known ownPrints innerTraces =>
      have ownEnters : enteredObjects own.flatten = [] := by
        rw [enteredObjects, List.filterMap_flatten]
        refine List.flatten_eq_nil_iff.mpr ?_
        intro group member
        rcases List.mem_map.mp member with ⟨events, listed, rfl⟩
        rcases exists_of_mem_forall₂ ownPrints listed with ⟨_, _, prints⟩
        exact prints.enteredObjects_eq_nil
      have innerEnters : inner.map enteredObjects =
          (pass.printedChildren model object).map fun child =>
            pass.printedTree model child.2 := by
        refine map_eq_of_forall₂ (fun child below events childTraces => ?_) innerTraces
        exact inductionHypothesis child.2 (List.mem_map_of_mem below) childTraces
      have innerEntersAll : enteredObjects inner.flatten =
          (pass.printedChildren model object).flatMap fun child =>
            pass.printedTree model child.2 := by
        rw [List.flatMap_def, ← innerEnters, enteredObjects, List.filterMap_flatten]
        rfl
      rw [printedTree_eq forest, ← innerEntersAll, enteredObjects, List.filterMap_cons,
        List.filterMap_append, List.filterMap_append]
      change object :: (enteredObjects own.flatten ++ enteredObjects inner.flatten ++ []) = _
      rw [ownEnters, List.nil_append, List.append_nil]

/-! ## What is entered -/

/-- A containment that is printed: the owner holds the child at a printed index of
the feature that contains it. -/
def PrintsLink (pass : Pass) (model : Model) (owner child : ObjectId) : Prop :=
  ∃ feature index, model.containment? child = some (owner, feature) ∧
    index ∈ pass.policy.printedIndices model owner feature ∧
    (model.values owner feature)[index]? = some (.object child)

theorem printsLink_iff (forest : model.Forest) (owner child : ObjectId) :
    PrintsLink pass model owner child ↔
      child ∈ (pass.printedChildren model owner).map Prod.snd := by
  constructor
  · rintro ⟨feature, index, contained, printed, stored⟩
    refine List.mem_map.mpr ⟨(feature, child), ?_, rfl⟩
    refine (mem_printedChildren_iff forest).mpr ⟨forest.container_fits contained, ?_⟩
    exact List.mem_filterMap.mpr
      ⟨.object child, List.mem_filterMap.mpr ⟨index, printed, stored⟩, rfl⟩
  · intro member
    rcases List.mem_map.mp member with ⟨⟨feature, entered⟩, below, rfl⟩
    have contained := containment?_of_mem_printedChildren forest below
    rcases List.mem_filterMap.mp ((mem_printedChildren_iff forest).mp below).2 with
      ⟨value, printed, isObject⟩
    rcases List.mem_filterMap.mp printed with ⟨index, inside, stored⟩
    rw [(Value.object?_eq_some_iff value entered).mp isObject] at stored
    exact ⟨feature, index, contained, inside, stored⟩

theorem printedTree_sublist (forest : model.Forest) (root : ObjectId) :
    (pass.printedTree model root).Sublist (model.containmentTree root) := by
  rw [forest.containmentTree_eq]
  exact Model.preorder_sublist forest forest.contents_descend
    (pass.printedChildren_sublist model) root

theorem mem_printedTree_iff (forest : model.Forest) (root object : ObjectId) :
    object ∈ pass.printedTree model root ↔
      Relation.ReflTransGen (PrintsLink pass model) root object := by
  have links : PrintsLink pass model =
      fun owner child => child ∈ (pass.printedChildren model owner).map Prod.snd := by
    funext owner child
    exact propext (printsLink_iff forest owner child)
  rw [links]
  exact Model.mem_preorder_iff forest (printedChildren_descend forest pass) root object

/-- A pass that succeeds accepts the events that the relation gives for the root and
no others.  They are balanced between the first and the last one, and they enter the
objects that printed containments lead to from the root, once each and in the order
of the containment tree. -/
theorem run_traces (reachable : model.Reachable) (exist : root.index < model.objects.size)
    {events : List Event} {tally : Tally}
    (finished : pass.run model root = ⟨events, .ok tally⟩) :
    (∀ others, Traces pass model none root others ↔ others = events) ∧
      (∃ metaclass constraint inner,
        events = .enter root metaclass none constraint :: (inner ++ [.exit root]) ∧
          Balanced inner) ∧
      (enteredObjects events).Nodup ∧
      (enteredObjects events).Sublist (model.containmentTree root) ∧
      ∀ object, object ∈ enteredObjects events ↔
        Relation.ReflTransGen (PrintsLink pass model) root object := by
  have forest := reachable.forest
  rcases run_eq_ok forest exist finished with ⟨traced, accepts⟩
  have traces : Traces pass model none root events := by
    rw [traced]
    exact traces_trace forest none accepts
  have entered := traces.enteredObjects_eq forest
  refine ⟨?_, traces.balanced forest, ?_, ?_, ?_⟩
  · intro others
    constructor
    · exact fun also => also.unique forest traces
    · exact fun same => same ▸ traces
  · rw [entered]
    exact printedTree_nodup forest root
  · rw [entered]
    exact printedTree_sublist forest root
  · intro object
    rw [entered]
    exact mem_printedTree_iff forest root object

/-- A part with its definition, which owns a placeholder for a multiplicity. -/
def unboundedWheel : ModelDraft :=
  let draft := (ModelDraft.initial.partDefinition ModelDraft.root "Wheel").2
  let draft := (draft.part ModelDraft.root (some "wheel")).2
  let draft := (draft.typedBy ⟨3⟩ (.object ⟨1⟩)).2
  (draft.member ⟨1⟩ .owningMembership .multiplicity none).2

theorem unboundedWheel_reachable : unboundedWheel.model.Reachable :=
  ModelDraft.reachable_member (ModelDraft.reachable_typedBy (ModelDraft.reachable_member
    (ModelDraft.reachable_member ModelDraft.reachable_initial _ _ _ _) _ _ _ _) _ _) _ _ _ _

/-- The events of the part and its definition are those of the relation.  No printed
containment leads to the membership of the placeholder, though it stands in the
tree. -/
theorem run_traces_unboundedWheel :
    Traces (.standard .standard none) unboundedWheel.model none ⟨0⟩
        ((Pass.standard .standard none).run unboundedWheel.model ⟨0⟩).events ∧
      ⟨7⟩ ∈ unboundedWheel.model.containmentTree ⟨0⟩ ∧
      ¬ Relation.ReflTransGen (PrintsLink (.standard .standard none) unboundedWheel.model)
        ⟨0⟩ ⟨7⟩ := by
  have exist : (ObjectId.mk 0).index < unboundedWheel.model.objects.size := by decide +kernel
  have printed : ((Pass.standard .standard none).run unboundedWheel.model ⟨0⟩).result =
      .ok ⟨6, 2, 1, 2⟩ := by decide +kernel
  have shape := run_traces unboundedWheel_reachable exist (run_eq_of_result printed)
  refine ⟨(shape.1 _).mpr rfl, by decide +kernel, ?_⟩
  rw [← shape.2.2.2.2]
  decide +kernel

end Pass

end ModelText
