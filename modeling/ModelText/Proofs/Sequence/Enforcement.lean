import ModelText.Proofs.Grammar.FirstRule
import ModelText.Proofs.Sequence.Copies
import ModelText.Proofs.Sequence.Nesting

namespace ModelText

/-!
# Bounds are enforced

A pass with the constraints of a grammar compares the number of values that remain
of a feature with the bound of the first rule for the object's metaclass.  A pass
that gives up on a bound has counted more values than the automaton of the rule can
print, and a pass that succeeds has printed no more of them than it can.

A value is printed as an attribute, as a reference or as an object that is entered.
An object prints its own values once, and its children are entered once, so the
events hold at most one event for each value that remains.
-/

/-! ## Values that remain -/

namespace OmissionPolicy

/-- Whether the value at an index remains: the policy leaves out neither the value
nor, if it does not decide one by one, the feature. -/
def keeps (policy : OmissionPolicy) (model : Model) (owner : ObjectId) (feature : Metafeature)
    (index : Nat) : Bool :=
  !policy.omits model owner feature
    (if policy.decidesEach model owner feature then some index else none)

/-- The number of values that remain of a feature. -/
def keptCount (policy : OmissionPolicy) (model : Model) (owner : ObjectId)
    (feature : Metafeature) : Nat :=
  (List.range (model.values owner feature).length).countP
    (policy.keeps model owner feature)

theorem length_printedIndices (policy : OmissionPolicy) (model : Model) (owner : ObjectId)
    (feature : Metafeature) :
    (policy.printedIndices model owner feature).length =
      policy.keptCount model owner feature := by
  rw [keptCount, List.countP_eq_length_filter, printedIndices]
  congr 1
  cases each : policy.decidesEach model owner feature with
  | true =>
      have decided : policy.keeps model owner feature =
          fun index => !policy.omits model owner feature (some index) := by
        funext index
        rw [keeps, each, if_pos rfl]
      rw [decided, if_pos rfl]
  | false =>
      have decided : policy.keeps model owner feature =
          fun _ => !policy.omits model owner feature none := by
        funext index
        rw [keeps, each, if_neg Bool.false_ne_true]
      rw [decided, if_neg Bool.false_ne_true]
      cases policy.omits model owner feature none <;> simp

end OmissionPolicy

/-! ## Values that are printed -/

namespace Event

/-- Whether an event prints a value of a feature itself. -/
def printsValue (object : ObjectId) (feature : Metafeature) : Event → Bool
  | .attribute owner read _ _ => owner = object && read = feature
  | .reference owner read _ _ _ => owner = object && read = feature
  | _ => false

/-- Whether an event enters an object as a value of a feature. -/
def printsChild (model : Model) (object : ObjectId) (feature : Metafeature) : Event → Bool
  | .enter child _ through _ =>
      through = some feature && model.containment? child = some (object, feature)
  | _ => false

end Event

/-- The number of values of a feature that some events print. -/
def printedCount (model : Model) (events : List Event) (object : ObjectId)
    (feature : Metafeature) : Nat :=
  events.countP (Event.printsValue object feature) +
    events.countP (Event.printsChild model object feature)

/-- What is gathered from a single entry of a list without repetitions. -/
theorem length_flatMap_le_of_nodup {α β : Type} [DecidableEq α] {listed : List α}
    (nodup : listed.Nodup) (chosen : α) {gathered : α → List β}
    (others : ∀ member, member ∈ listed → member ≠ chosen → gathered member = []) :
    (listed.flatMap gathered).length ≤ (gathered chosen).length := by
  induction listed with
  | nil => exact Nat.zero_le _
  | cons head rest inductionHypothesis =>
      rcases List.nodup_cons.mp nodup with ⟨fresh, restNodup⟩
      rw [List.flatMap_cons, List.length_append]
      by_cases same : head = chosen
      · have nothing : rest.flatMap gathered = [] := by
          refine List.flatMap_eq_nil_iff.mpr ?_
          intro member inside
          refine others member (List.mem_cons_of_mem _ inside) ?_
          intro again
          exact fresh (same ▸ again ▸ inside)
        rw [nothing, same, List.length_nil, Nat.add_zero]
      · rw [others head List.mem_cons_self same, List.length_nil, Nat.zero_add]
        exact inductionHypothesis restNodup fun member inside =>
          others member (List.mem_cons_of_mem _ inside)

namespace Pass

variable {pass : Pass} {model : Model} {object root : ObjectId} {feature : Metafeature}

theorem printsValue_of_mem_featureEvents {entered : ObjectId} {constraint : Option Constraint}
    {read : Metafeature} {event : Event}
    (member : event ∈ pass.featureEvents model entered constraint read) :
    event.printsValue object feature = (decide (entered = object) && decide (read = feature)) := by
  rcases List.mem_filterMap.mp member with ⟨index, _, found⟩
  rcases Option.bind_eq_some_iff.mp found with ⟨value, _, isEvent⟩
  rw [valueEvent?, valueItem?] at isEvent
  split at isEvent
  · cases isEvent
    rfl
  · cases resolved : pass.resolver.resolve model ⟨entered, read, index⟩ value with
    | ok token => rw [resolved] at isEvent; cases isEvent; rfl
    | error error => rw [resolved] at isEvent; cases isEvent
  · cases child : value.object? <;> rw [child] at isEvent <;> cases isEvent
  · cases isEvent

/-- The values of a feature are printed once, with the events of their object. -/
theorem countP_printsValue_le (forest : model.Forest) (through : Option Metafeature)
    {metaclass : Metaclass} (known : model.metaclass? object = some metaclass) :
    (pass.trace model through root).countP (Event.printsValue object feature) ≤
      (pass.featureEvents model object (pass.constraintFor? metaclass) feature).length := by
  have gathered : (pass.trace model through root).filter (Event.printsValue object feature) =
      (pass.printedTree model root).flatMap fun entered =>
        (pass.ownEvents model entered).filter (Event.printsValue object feature) := by
    simp only [← List.filterMap_eq_filter]
    exact filterMap_trace forest (fun _ _ _ _ => rfl) (fun _ => rfl) root through
  rw [List.countP_eq_length_filter, gathered]
  have other : ∀ entered, entered ≠ object →
      (pass.ownEvents model entered).filter (Event.printsValue object feature) = [] := by
    intro entered different
    refine List.filter_eq_nil_iff.mpr ?_
    intro event member
    unfold ownEvents at member
    split at member
    · cases member
    · rcases List.mem_flatMap.mp member with ⟨read, _, inside⟩
      rw [printsValue_of_mem_featureEvents inside]
      simp [different]
  calc ((pass.printedTree model root).flatMap fun entered =>
          (pass.ownEvents model entered).filter (Event.printsValue object feature)).length
      ≤ ((pass.ownEvents model object).filter (Event.printsValue object feature)).length :=
        length_flatMap_le_of_nodup (printedTree_nodup forest root) object
          fun entered _ different => other entered different
    _ = (metaclass.storedFeatures.flatMap fun read =>
          (pass.featureEvents model object (pass.constraintFor? metaclass) read).filter
            (Event.printsValue object feature)).length := by
        rw [ownEvents, known, List.filter_flatMap]
    _ ≤ ((pass.featureEvents model object (pass.constraintFor? metaclass) feature).filter
          (Event.printsValue object feature)).length := by
        refine length_flatMap_le_of_nodup metaclass.storedFeatures_nodup feature ?_
        intro read _ different
        refine List.filter_eq_nil_iff.mpr ?_
        intro event member
        rw [printsValue_of_mem_featureEvents member]
        simp [different]
    _ ≤ (pass.featureEvents model object (pass.constraintFor? metaclass) feature).length :=
        List.length_filter_le _ _

/-- The children through a feature are entered once. -/
theorem countP_printsChild_le (forest : model.Forest) {events : List Event}
    (entered : enteredObjects events = pass.printedTree model root)
    (inside : object ∈ pass.printedTree model root) :
    events.countP (Event.printsChild model object feature) ≤
      (pass.printedObjects model object feature).length := by
  rw [List.countP_eq_length_filter]
  have enters : ∀ event, event ∈ events.filter (Event.printsChild model object feature) →
      ∃ child, event.entered? = some child ∧
        model.containment? child = some (object, feature) := by
    intro event member
    have prints := (List.mem_filter.mp member).2
    cases event with
    | enter child metaclass through constraint =>
        rw [Event.printsChild, Bool.and_eq_true, decide_eq_true_eq, decide_eq_true_eq] at prints
        exact ⟨child, rfl, prints.2⟩
    | «attribute» => cases prints
    | reference => cases prints
    | exit => cases prints
  rw [(forall₂_filterMap enters).length_eq]
  have nodup : ((events.filter (Event.printsChild model object feature)).filterMap
      Event.entered?).Nodup := by
    refine List.Nodup.sublist (List.filter_sublist.filterMap _) ?_
    rw [← enteredObjects, entered]
    exact printedTree_nodup forest root
  refine nodup.length_le_of_subset ?_
  intro child member
  rcases List.mem_filterMap.mp member with ⟨event, selected, isEntered⟩
  rcases enters event selected with ⟨same, isEntered', contained⟩
  cases isEntered.symm.trans isEntered'
  have inTree : child ∈ pass.printedTree model root := by
    rw [← entered]
    exact List.mem_filterMap.mpr ⟨event, (List.mem_filter.mp selected).1, isEntered⟩
  have holder : model.container? child = some object := by
    rw [Model.container?, contained]
    rfl
  rcases Model.mem_preorder_cases forest (printedChildren_descend forest pass) inTree with
    rfl | ⟨owner, _, below⟩
  · -- The root is not contained in an object of its own tree.
    have above := Model.mem_containerChain_of_mem_preorder forest
      (printedChildren_descend forest pass) inside
    have shallow := (forest.containerChain_suffix above).length_le
    have deeper := forest.depth_child holder
    rw [Model.depth, Model.depth] at deeper
    omega
  · rcases List.mem_map.mp below with ⟨⟨containing, printed⟩, listed, rfl⟩
    have place := containment?_of_mem_printedChildren forest listed
    cases contained.symm.trans place
    exact ((mem_printedChildren_iff forest).mp listed).2

/-- No more values are printed than remain. -/
theorem printedCount_le (forest : model.Forest) {metaclass : Metaclass}
    (known : model.metaclass? object = some metaclass) {through : Option Metafeature}
    (entered : enteredObjects (pass.trace model through root) = pass.printedTree model root)
    (inside : object ∈ pass.printedTree model root) :
    printedCount model (pass.trace model through root) object feature ≤
      pass.policy.keptCount model object feature := by
  have values : (pass.trace model through root).countP (Event.printsValue object feature) ≤
      (pass.featureEvents model object (pass.constraintFor? metaclass) feature).length :=
    countP_printsValue_le forest through known
  have children : (pass.trace model through root).countP
      (Event.printsChild model object feature) ≤
        (pass.printedObjects model object feature).length :=
    countP_printsChild_le forest entered inside
  rw [← OmissionPolicy.length_printedIndices, printedCount]
  by_cases storage : feature.storage = .containment
  · rw [featureEvents_of_containment storage, List.length_nil] at values
    have indices : (pass.printedObjects model object feature).length ≤
        (pass.policy.printedIndices model object feature).length :=
      (List.length_filterMap_le _ _).trans (List.length_filterMap_le _ _)
    omega
  · have noChild : (pass.trace model through root).countP
        (Event.printsChild model object feature) = 0 := by
      refine List.countP_eq_zero.mpr ?_
      intro event _ prints
      cases event with
      | enter child metaclass through constraint =>
          rw [Event.printsChild, Bool.and_eq_true, decide_eq_true_eq, decide_eq_true_eq] at prints
          exact storage (forest.container_fits prints.2)
      | «attribute» => cases prints
      | reference => cases prints
      | exit => cases prints
    have indices : (pass.featureEvents model object (pass.constraintFor? metaclass)
        feature).length ≤ (pass.policy.printedIndices model object feature).length :=
      List.length_filterMap_le _ _
    omega

theorem mem_storedFeatures_of_prints (forest : model.Forest) {metaclass : Metaclass}
    (known : model.metaclass? object = some metaclass)
    (prints : pass.policy.printedIndices model object feature ≠ []) :
    feature ∈ metaclass.storedFeatures := by
  rcases List.exists_mem_of_ne_nil _ prints with ⟨index, printed⟩
  rcases OmissionPolicy.exists_getElem?_of_mem_printedIndices printed with ⟨value, stored⟩
  rcases forest.holder_fits (List.mem_of_getElem? stored) with ⟨metaclass', known', listed⟩
  cases known.symm.trans known'
  exact listed

theorem exists_featureId? {metaclass : Metaclass} (listed : feature ∈ metaclass.storedFeatures) :
    ∃ id, metaclass.featureId? feature = some id := by
  refine Option.isSome_iff_exists.mp (List.isSome_idxOf?.mpr ?_)
  exact List.mem_of_mem_filter listed

/-! ## The bound in force -/

theorem boundFault?_eq_some {constraint : Option Constraint} {count : Nat} {fault : PassError}
    (exceeded : pass.boundFault? constraint object feature count = some fault) :
    ∃ inForce limit, constraint = some inForce ∧
      inForce.bound? feature = some (.finite limit) ∧
      fault = .boundExceeded object feature inForce.name count limit := by
  unfold boundFault? at exceeded
  split at exceeded
  · rcases Option.bind_eq_some_iff.mp exceeded with ⟨inForce, same, exceeds⟩
    split at exceeds
    · next limit bounded =>
        split at exceeds
        · cases exceeds
        · exact ⟨inForce, limit, same, bounded, (Option.some.inj exceeds).symm⟩
    · cases exceeds
  · cases exceeded

/-- A pass that gives up on a bound has found an object that prints too many values. -/
theorem exceeded_of_run {name : String} {count limit : Nat}
    (failed : (pass.run model root).result =
      .error (.boundExceeded object feature name count limit)) :
    ∃ metaclass, model.metaclass? object = some metaclass ∧
      pass.policy.printedIndices model object feature ≠ [] ∧
      count = (pass.policy.printedIndices model object feature).length ∧
      pass.boundFault? (pass.constraintFor? metaclass) object feature count =
        some (.boundExceeded object feature name count limit) := by
  rcases perform_eq_error _ _ failed with ⟨refused, refuses⟩
  unfold Refuses at refuses
  cases known : model.metaclass? refused with
  | none => rw [known] at refuses; cases refuses
  | some metaclass =>
      rw [known] at refuses
      rcases List.mem_flatMap.mp (error_mem_of_untilError refuses) with ⟨read, _, inItems⟩
      have prints : pass.policy.printedIndices model refused read ≠ [] := by
        intro nothing
        rw [featureItems, nothing] at inItems
        cases inItems
      rw [featureItems_eq prints] at inItems
      split at inItems
      · next fault exceeded =>
          rcases boundFault?_eq_some exceeded with ⟨inForce, _, _, _, same⟩
          rw [← List.mem_singleton.mp inItems |> Except.error.inj] at same exceeded
          cases same
          exact ⟨metaclass, known, prints, rfl, exceeded⟩
      · rcases List.mem_filterMap.mp inItems with ⟨index, _, found⟩
        rcases Option.bind_eq_some_iff.mp found with ⟨value, _, item⟩
        unfold valueItem? at item
        split at item
        · cases item
        · split at item <;> cases item
        · cases child : value.object? <;> rw [child] at item <;> cases item
        · cases item

section Constrained

variable {grammar : Grammar} {constraints : Constraints}
  (analysed : Constraints.analyse grammar = .ok constraints)
  (small : ∀ rule, rule ∈ grammar.rules → rule.automaton.size < 2 ^ 32)
  (constrained : pass.constraints = some constraints) (enforced : pass.enforceBounds = true)
include analysed small constrained enforced

/-- Counting faults are those of the automaton of the first rule. -/
theorem boundFault?_eq_none_iff {metaclass : Metaclass} {rule : GrammarRule}
    (first : grammar.firstRuleFor? metaclass = some rule) {id : Nat}
    (named : metaclass.featureId? feature = some id) (count : Nat) :
    pass.boundFault? (pass.constraintFor? metaclass) object feature count = none ↔
      rule.automaton.Attains id rule.automaton.start count := by
  have related := Constraints.head?_forClass analysed metaclass
  rw [first] at related
  rw [constraintFor?, constrained, Option.bind_some]
  cases inForce : (constraints.forClass metaclass).head? with
  | none => rw [inForce] at related; cases related
  | some constraint =>
      rw [inForce] at related
      cases related with
      | some analysedPair =>
          rcases Constraints.bound?_of_analysePair analysedPair
            (small rule (List.mem_of_find?_eq_some first)) named with ⟨bound, found, exact⟩
          rw [boundFault?, if_pos enforced, Option.bind_some, found, ← exact count]
          cases bound with
          | unbounded => simp [Bound.admits]
          | finite limit =>
              dsimp only
              rw [Bound.admits, decide_eq_true_eq]
              by_cases within : count ≤ limit <;> simp [within]

/-- What exceeds a bound is more than the automaton of the first rule can print. -/
theorem exists_of_boundFault? {metaclass : Metaclass} {count : Nat} {fault : PassError}
    (exceeded : pass.boundFault? (pass.constraintFor? metaclass) object feature count =
      some fault) :
    ∃ rule id, grammar.firstRuleFor? metaclass = some rule ∧
      metaclass.featureId? feature = some id ∧
      ¬ rule.automaton.Attains id rule.automaton.start count := by
  rcases boundFault?_eq_some exceeded with ⟨constraint, limit, inForce, bounded, _⟩
  have related := Constraints.head?_forClass analysed metaclass
  rw [constraintFor?, constrained, Option.bind_some] at inForce
  rw [inForce] at related
  cases first : grammar.firstRuleFor? metaclass with
  | none => rw [first] at related; cases related
  | some rule =>
      rw [first] at related
      cases related with
      | some analysedPair =>
          rw [Constraint.bound?, (Constraints.analysePair_eq_ok analysedPair).2.1] at bounded
          rcases Option.bind_eq_some_iff.mp bounded with ⟨id, named, _⟩
          refine ⟨rule, id, rfl, named, ?_⟩
          intro attains
          rw [(boundFault?_eq_none_iff analysed small constrained enforced first named count).mpr
            attains] at exceeded
          cases exceeded

end Constrained

/-- A pass gives up on a bound only when a feature has more values than its rule can
print, and a pass that succeeds prints no more values than the rule can. -/
theorem bounds_enforced {grammar : Grammar} {constraints : Constraints}
    (analysed : Constraints.analyse grammar = .ok constraints)
    (small : ∀ rule, rule ∈ grammar.rules → rule.automaton.size < 2 ^ 32)
    (constrained : pass.constraints = some constraints) (enforced : pass.enforceBounds = true)
    (reachable : model.Reachable) (exist : root.index < model.objects.size) :
    (∀ object feature name count limit,
      (pass.run model root).result = .error (.boundExceeded object feature name count limit) →
        0 < count ∧ count = pass.policy.keptCount model object feature ∧
        ∃ metaclass rule id, model.metaclass? object = some metaclass ∧
          grammar.firstRuleFor? metaclass = some rule ∧
          metaclass.featureId? feature = some id ∧
          ∀ passed, rule.automaton.Walk rule.automaton.start passed →
            rule.automaton.tagCount id passed < count) ∧
    (∀ tally, (pass.run model root).result = .ok tally →
      ∀ object, object ∈ enteredObjects (pass.run model root).events →
        ∀ metaclass rule, model.metaclass? object = some metaclass →
          grammar.firstRuleFor? metaclass = some rule →
          ∀ feature, 0 < printedCount model (pass.run model root).events object feature →
            ∃ id passed, metaclass.featureId? feature = some id ∧
              rule.automaton.Walk rule.automaton.start passed ∧
              printedCount model (pass.run model root).events object feature ≤
                rule.automaton.tagCount id passed) := by
  have forest := reachable.forest
  constructor
  · intro object feature name count limit failed
    rcases exceeded_of_run failed with ⟨metaclass, known, prints, counted, exceeded⟩
    rcases exists_of_boundFault? analysed small constrained enforced exceeded with
      ⟨rule, id, first, named, unattained⟩
    refine ⟨?_, ?_, metaclass, rule, id, known, first, named, ?_⟩
    · rw [counted]
      exact List.length_pos_of_ne_nil prints
    · rw [counted, OmissionPolicy.length_printedIndices]
    · intro passed walk
      exact Nat.lt_of_not_le fun enough => unattained ⟨passed, walk, enough⟩
  · intro tally result object inside metaclass rule known first feature printed
    cases finished : pass.run model root with
    | mk events outcome =>
        rw [finished] at result inside printed
        dsimp only at result inside printed ⊢
        cases result
        rcases run_eq_ok forest exist finished with ⟨traced, accepts⟩
        have entered := (traces_trace forest none accepts).enteredObjects_eq forest
        rw [traced] at inside printed ⊢
        rw [entered] at inside
        have within : printedCount model (pass.trace model none root) object feature ≤
            pass.policy.keptCount model object feature :=
          printedCount_le forest known entered inside
        rw [← OmissionPolicy.length_printedIndices] at within
        have prints : pass.policy.printedIndices model object feature ≠ [] := by
          intro nothing
          rw [nothing, List.length_nil] at within
          omega
        rcases accepts object inside with ⟨metaclass', known', noError⟩
        cases known.symm.trans known'
        have listed := mem_storedFeatures_of_prints forest known prints
        rcases exists_featureId? listed with ⟨id, named⟩
        have bounded := boundFault?_of_accepted noError listed prints
        rcases (boundFault?_eq_none_iff analysed small constrained enforced first named _).mp
          bounded with ⟨passed, walk, enough⟩
        exact ⟨id, passed, named, walk, within.trans enough⟩

/-- A rule for a single value of the feature with an id. -/
def singleValue (name : String) (id : Nat) : Automaton :=
  ⟨name, 0, #[⟨none, [1]⟩, ⟨some id, []⟩]⟩

/-- A grammar whose namespaces own a single relationship. -/
def narrowGrammar : Grammar :=
  ⟨⟨0⟩, "Narrow",
    [⟨"Namespace", [.nameSpace], singleValue "Namespace" 4⟩,
      ⟨"Membership", [.owningMembership, .featureMembership], singleValue "Membership" 8⟩]⟩

/-- The constraints of the grammar. -/
def narrowConstraints : Constraints :=
  let single := fun count id =>
    (List.range count).map fun other => Bound.finite (if other = id then 1 else 0)
  ⟨⟨0⟩,
    [⟨"Namespace", "Namespace", .nameSpace, ⟨single 10 4⟩⟩,
      ⟨"Membership_OwningMembership", "Membership", .owningMembership, ⟨single 17 8⟩⟩,
      ⟨"Membership_FeatureMembership", "Membership", .featureMembership, ⟨single 17 8⟩⟩]⟩

/-- The root of the part and its definition owns two relationships, which the rule
for namespaces cannot print; the membership of the definition is printed. -/
theorem bounds_enforced_narrowGrammar :
    (∃ metaclass rule id, unboundedWheel.model.metaclass? ⟨0⟩ = some metaclass ∧
      narrowGrammar.firstRuleFor? metaclass = some rule ∧
      metaclass.featureId? .ownedRelationship = some id ∧
      ∀ passed, rule.automaton.Walk rule.automaton.start passed →
        rule.automaton.tagCount id passed < 2) ∧
    ∃ id passed, Metaclass.featureId? .owningMembership .ownedRelatedElement = some id ∧
      (singleValue "Membership" 8).Walk 0 passed ∧
      1 ≤ (singleValue "Membership" 8).tagCount id passed := by
  have analysed : Constraints.analyse narrowGrammar = .ok narrowConstraints := by decide +kernel
  have small : ∀ rule, rule ∈ narrowGrammar.rules → rule.automaton.size < 2 ^ 32 := by decide
  have rootExists : (ObjectId.mk 0).index < unboundedWheel.model.objects.size := by
    decide +kernel
  have membershipExists : (ObjectId.mk 2).index < unboundedWheel.model.objects.size := by
    decide +kernel
  have exceeded : ((standard .standard (some narrowConstraints)).run unboundedWheel.model
      ⟨0⟩).result = .error (.boundExceeded ⟨0⟩ .ownedRelationship "Namespace" 2 1) := by
    decide +kernel
  have printed : ((standard .standard (some narrowConstraints)).run unboundedWheel.model
      ⟨2⟩).result = .ok ⟨2, 1, 0, 1⟩ := by decide +kernel
  have one : printedCount unboundedWheel.model ((standard .standard
      (some narrowConstraints)).run unboundedWheel.model ⟨2⟩).events ⟨2⟩
      .ownedRelatedElement = 1 := by decide +kernel
  constructor
  · exact ((bounds_enforced analysed small rfl rfl unboundedWheel_reachable rootExists).1
      _ _ _ _ _ exceeded).2.2
  · have enough := (bounds_enforced analysed small rfl rfl unboundedWheel_reachable
      membershipExists).2 _ printed ⟨2⟩ (by decide +kernel) .owningMembership
      ⟨"Membership", [.owningMembership, .featureMembership], singleValue "Membership" 8⟩
      (by decide +kernel) (by decide +kernel) .ownedRelatedElement (by decide +kernel)
    rw [one] at enough
    exact enough

end Pass

end ModelText
