import Mathlib.Data.List.Basic
import ModelText.Proofs.Sequence.Replay

namespace ModelText

/-!
# The copies of a printed tree

The replay of a trace, object by object.  Entering an object with its own events
adds one object to those entered: its copy is named by its position in the tree,
stands last among the entered children of its container and holds the printed
attribute values.  The state between two visits is a function of the objects
entered so far, which makes the induction over the tree a plain one.

References are only collected here; they are linked when the tree is complete.
-/

namespace Rebuild

/-! ## Names of copies -/

/-- The copy of an object of a tree, named by its position. -/
def copyOf (tree : List ObjectId) (object : ObjectId) : ObjectId := ⟨tree.idxOf object⟩

theorem copyOf_inj {tree : List ObjectId} {first second : ObjectId} (member : first ∈ tree) :
    copyOf tree first = copyOf tree second ↔ first = second := by
  rw [← List.idxOf_inj member]
  exact ObjectId.mk.injEq _ _ ▸ Iff.rfl

theorem copyOf_of_split {before after : List ObjectId} {object : ObjectId}
    (fresh : object ∉ before) :
    copyOf (before ++ object :: after) object = ⟨before.length⟩ := by
  rw [copyOf, List.idxOf_append_of_notMem fresh, List.idxOf_cons_self, Nat.add_zero]

theorem index_copyOf_lt {before after : List ObjectId} {object : ObjectId}
    (member : object ∈ before) : (copyOf (before ++ after) object).index < before.length := by
  rw [copyOf, List.idxOf_append_of_mem member]
  exact List.idxOf_lt_length_of_mem member

theorem map_copyOf_self {tree : List ObjectId} (nodup : tree.Nodup) :
    tree.map (copyOf tree) = (List.range tree.length).map ObjectId.mk := by
  apply List.ext_getElem?
  intro index
  rw [List.getElem?_map, List.getElem?_map]
  by_cases inRange : index < tree.length
  · rw [List.getElem?_range inRange, List.getElem?_eq_getElem inRange, Option.map_some,
      Option.map_some, copyOf, nodup.idxOf_getElem index inRange]
  · rw [List.getElem?_eq_none (Nat.le_of_not_lt inRange),
      List.getElem?_eq_none (by simpa using inRange)]
    rfl

/-- In an order without repetitions, reaching one more object adds it behind the
ones selected before, if it is selected at all. -/
theorem filter_contains_append {tree before after listed : List ObjectId} {object : ObjectId}
    (nodup : tree.Nodup) (split : tree = before ++ object :: after)
    (part : listed.Sublist tree) :
    listed.filter (before ++ [object]).contains =
      listed.filter before.contains ++ if object ∈ listed then [object] else [] := by
  rw [split] at nodup part
  rcases List.sublist_append_iff.mp part with ⟨front, back, rfl, inFront, inBack⟩
  have apart := (List.nodup_append.mp nodup).2.2
  have afterNodup := List.nodup_cons.mp (List.nodup_append.mp nodup).2.1
  have frontAll : ∀ marks : List ObjectId, before ⊆ marks →
      front.filter marks.contains = front := by
    intro marks all
    refine List.filter_eq_self.mpr ?_
    intro member inside
    exact List.contains_iff_mem.mpr (all (inFront.subset inside))
  have afterNone : ∀ rest : List ObjectId, rest.Sublist after →
      rest.filter before.contains = [] ∧ rest.filter (before ++ [object]).contains = [] := by
    intro rest restSublist
    constructor
    · refine List.filter_eq_nil_iff.mpr ?_
      intro member inside marked
      exact apart member (List.contains_iff_mem.mp marked) member
        (List.mem_cons_of_mem _ (restSublist.subset inside)) rfl
    · refine List.filter_eq_nil_iff.mpr ?_
      intro member inside marked
      rcases List.mem_append.mp (List.contains_iff_mem.mp marked) with early | same
      · exact apart member early member (List.mem_cons_of_mem _ (restSublist.subset inside)) rfl
      · rw [List.mem_singleton.mp same] at inside
        exact afterNodup.1 (restSublist.subset inside)
  have notFront : object ∉ front := fun member =>
    apart object (inFront.subset member) object List.mem_cons_self rfl
  have notBefore : before.contains object = false := by
    rw [Bool.eq_false_iff]
    intro marked
    exact apart object (List.contains_iff_mem.mp marked) object List.mem_cons_self rfl
  rw [List.filter_append, List.filter_append, frontAll before (List.Subset.refl _),
    frontAll (before ++ [object]) (List.subset_append_left _ _)]
  rcases List.sublist_cons_iff.mp inBack with skipped | ⟨rest, rfl, restSublist⟩
  · have absent : object ∉ front ++ back := by
      intro member
      rcases List.mem_append.mp member with early | late
      · exact notFront early
      · exact afterNodup.1 (skipped.subset late)
    rw [if_neg absent, (afterNone back skipped).1, (afterNone back skipped).2]
    simp
  · rw [if_pos (List.mem_append_right _ List.mem_cons_self), List.filter_cons,
      List.filter_cons, notBefore, (afterNone rest restSublist).1,
      (afterNone rest restSublist).2]
    simp

end Rebuild

/-! ## Own events -/

namespace Pass

variable {pass : Pass} {model : Model} {object : ObjectId} {metaclass : Metaclass}

/-- The events an object prints about itself. -/
def ownEvents (pass : Pass) (model : Model) (object : ObjectId) : List Event :=
  match model.metaclass? object with
  | none => []
  | some metaclass =>
      metaclass.storedFeatures.flatMap
        (pass.featureEvents model object (pass.constraintFor? metaclass))

theorem entryEvents_eq (known : model.metaclass? object = some metaclass)
    (feature : Option Metafeature) :
    pass.entryEvents model feature object =
      .enter object metaclass feature ((pass.constraintFor? metaclass).map Constraint.name) ::
        pass.ownEvents model object := by
  rw [entryEvents, ownEvents, known]

/-- What a trace contains besides entries and exits is what its objects print
themselves. -/
theorem filterMap_trace {β : Type} (forest : model.Forest) {select : Event → Option β}
    (notEnter : ∀ child metaclass through constraint,
      select (.enter child metaclass through constraint) = none)
    (notExit : ∀ child, select (.exit child) = none) (root : ObjectId)
    (through : Option Metafeature) :
    (pass.trace model through root).filterMap select =
      (pass.printedTree model root).flatMap fun entered =>
        (pass.ownEvents model entered).filterMap select := by
  revert through
  apply forest.descend (printedChildren_descend forest pass)
    (fun root => ∀ through, (pass.trace model through root).filterMap select =
      (pass.printedTree model root).flatMap fun entered =>
        (pass.ownEvents model entered).filterMap select)
  intro root inductionHypothesis through
  have own : (pass.entryEvents model through root).filterMap select =
      (pass.ownEvents model root).filterMap select := by
    cases known : model.metaclass? root with
    | none => rw [entryEvents, ownEvents, known]
    | some metaclass =>
        rw [entryEvents_eq known, List.filterMap_cons_none (notEnter _ _ _ _)]
  rw [trace_eq forest, printedTree_eq forest, List.flatMap_cons, List.filterMap_append,
    List.filterMap_append, own, List.filterMap_flatMap, List.flatMap_assoc]
  rw [List.filterMap_cons_none (notExit root), List.filterMap_nil, List.append_nil]
  congr 1
  apply List.flatMap_congr
  intro child below
  exact inductionHypothesis child.2 (List.mem_map_of_mem below) (some child.1)

/-- The own events are the attributes and the references among the printed
values. -/
theorem mem_ownEvents_iff (known : model.metaclass? object = some metaclass) (event : Event) :
    event ∈ pass.ownEvents model object ↔
      ∃ feature, feature ∈ metaclass.storedFeatures ∧
        ∃ index, index ∈ pass.policy.printedIndices model object feature ∧
          ∃ value, (model.values object feature)[index]? = some value ∧
            (feature.storage = .attribute ∧
                event = .attribute object feature value
                  (rendersMany (pass.constraintFor? metaclass) feature) ∨
              feature.storage = .crossReference ∧
                ∃ token, pass.resolver.resolve model ⟨object, feature, index⟩ value = .ok token ∧
                  event = .reference object feature index token
                    (rendersMany (pass.constraintFor? metaclass) feature)) := by
  rw [ownEvents, known, List.mem_flatMap]
  refine exists_congr fun feature => and_congr_right fun _ => ?_
  rw [featureEvents, List.mem_filterMap]
  refine exists_congr fun index => and_congr_right fun _ => ?_
  rw [Option.bind_eq_some_iff]
  refine exists_congr fun value => and_congr_right fun _ => ?_
  rw [valueEvent?, valueItem?]
  cases storage : feature.storage with
  | «attribute» => simp [Except.toOption, Item.event?, eq_comm]
  | crossReference =>
      cases pass.resolver.resolve model ⟨object, feature, index⟩ value with
      | ok token => simp [Except.toOption, Item.event?, eq_comm]
      | error error => simp [Except.toOption]
  | containment => cases value.object? <;> simp [Except.toOption, Item.event?]
  | container => simp

theorem isOwn_of_mem_ownEvents (known : model.metaclass? object = some metaclass)
    {event : Event} (member : event ∈ pass.ownEvents model object) :
    Rebuild.IsOwn object metaclass event := by
  rcases (mem_ownEvents_iff known event).mp member with ⟨feature, listed, index, _, value, _,
    ⟨storage, rfl⟩ | ⟨_, token, _, rfl⟩⟩
  · exact ⟨rfl, listed, storage⟩
  · exact rfl

theorem flatMap_ite_eq {α β : Type} [DecidableEq α] {listed : List α}
    (nodup : listed.Nodup) (chosen : α) (entries : List β) :
    (listed.flatMap fun member => if member = chosen then entries else []) =
      if chosen ∈ listed then entries else [] := by
  induction listed with
  | nil => rfl
  | cons head rest inductionHypothesis =>
      rw [List.flatMap_cons, inductionHypothesis (List.nodup_cons.mp nodup).2]
      by_cases same : head = chosen
      · subst same
        rw [if_pos rfl, if_neg (List.nodup_cons.mp nodup).1, if_pos List.mem_cons_self,
          List.append_nil]
      · rw [if_neg same, List.nil_append]
        simp [Ne.symm same]

theorem filterMap_featureEvents (constraint : Option Constraint) (other feature : Metafeature) :
    (pass.featureEvents model object constraint other).filterMap
        (Rebuild.attributeValue? feature) =
      if other = feature then
        if feature.storage = .attribute then pass.policy.printedValues model object feature
        else []
      else [] := by
  rw [featureEvents, List.filterMap_filterMap]
  by_cases same : other = feature ∧ feature.storage = .attribute
  · rcases same with ⟨rfl, storage⟩
    rw [if_pos rfl, if_pos storage, OmissionPolicy.printedValues]
    congr 1
    funext index
    cases (model.values object other)[index]? with
    | none => rfl
    | some value => simp [valueEvent?, valueItem?, storage, Except.toOption, Item.event?,
        Rebuild.attributeValue?]
  · have nothing : (if other = feature then
          if feature.storage = .attribute then pass.policy.printedValues model object feature
          else []
        else []) = [] := by
      by_cases equal : other = feature
      · rw [if_pos equal, if_neg (fun storage => same ⟨equal, storage⟩)]
      · rw [if_neg equal]
    rw [nothing, List.filterMap_eq_nil_iff]
    intro index _
    cases (model.values object other)[index]? with
    | none => rfl
    | some value =>
        rw [Option.bind_some, valueEvent?, valueItem?]
        split
        · next storage =>
            have different : other ≠ feature := fun equal => same ⟨equal, equal ▸ storage⟩
            simp [Except.toOption, Item.event?, Rebuild.attributeValue?, different]
        · cases pass.resolver.resolve model ⟨object, other, index⟩ value <;> rfl
        · cases value.object? <;> rfl
        · rfl

theorem filterMap_ownEvents (forest : model.Forest)
    (known : model.metaclass? object = some metaclass) (feature : Metafeature) :
    (pass.ownEvents model object).filterMap (Rebuild.attributeValue? feature) =
      if feature.storage = .attribute then pass.policy.printedValues model object feature
      else [] := by
  rw [ownEvents, known]
  dsimp only
  rw [List.filterMap_flatMap]
  simp only [filterMap_featureEvents]
  rw [flatMap_ite_eq metaclass.storedFeatures_nodup]
  by_cases listed : feature ∈ metaclass.storedFeatures
  · rw [if_pos listed]
  · have nothing : pass.policy.printedValues model object feature = [] := by
      rw [List.eq_nil_iff_forall_not_mem]
      intro value printed
      have held := (pass.policy.printedValues_sublist model object feature).subset printed
      rcases forest.holder_fits held with ⟨other, alsoKnown, present⟩
      rw [Option.some.inj (alsoKnown.symm.trans known)] at present
      exact listed present
    rw [if_neg listed, nothing, ite_self]

def printedReferences (pass : Pass) (model : Model) (object : ObjectId) :
    List (ObjectId × Metafeature × String) :=
  (pass.ownEvents model object).filterMap Rebuild.reference?

/-- The references of a trace are those that its objects print. -/
theorem references_trace (forest : model.Forest) (root : ObjectId)
    (through : Option Metafeature) :
    (pass.trace model through root).filterMap Rebuild.reference? =
      (pass.printedTree model root).flatMap (pass.printedReferences model) :=
  filterMap_trace forest (fun _ _ _ _ => rfl) (fun _ => rfl) root through

theorem mem_printedReferences_iff (known : model.metaclass? object = some metaclass)
    (entry : ObjectId × Metafeature × String) :
    entry ∈ pass.printedReferences model object ↔
      entry.1 = object ∧ entry.2.1 ∈ metaclass.storedFeatures ∧
        entry.2.1.storage = .crossReference ∧
        ∃ index, index ∈ pass.policy.printedIndices model object entry.2.1 ∧
          ∃ value, (model.values object entry.2.1)[index]? = some value ∧
            pass.resolver.resolve model ⟨object, entry.2.1, index⟩ value = .ok entry.2.2 := by
  rw [printedReferences, List.mem_filterMap]
  constructor
  · rintro ⟨event, own, isReference⟩
    rcases (mem_ownEvents_iff known event).mp own with ⟨feature, listed, index, printed, value,
      stored, ⟨_, rfl⟩ | ⟨storage, token, resolved, rfl⟩⟩
    · cases isReference
    · cases isReference
      exact ⟨rfl, listed, storage, index, printed, value, stored, resolved⟩
  · rcases entry with ⟨owner, feature, token⟩
    rintro ⟨rfl, listed, storage, index, printed, value, stored, resolved⟩
    refine ⟨.reference owner feature index token
      (rendersMany (pass.constraintFor? metaclass) feature), ?_, rfl⟩
    exact (mem_ownEvents_iff known _).mpr ⟨feature, listed, index, printed, value, stored,
      Or.inr ⟨storage, token, resolved, rfl⟩⟩

end Pass

namespace Rebuild

/-! ## The state between two visits -/

/-- What the copy of an object holds when some objects of the tree were entered. -/
def copiedValues (pass : Pass) (model : Model) (tree entered : List ObjectId)
    (object : ObjectId) (feature : Metafeature) : List Value :=
  match feature.storage with
  | .attribute => pass.policy.printedValues model object feature
  | .containment =>
      ((pass.printedObjects model object feature).filter entered.contains).map fun child =>
        .object (copyOf tree child)
  | _ => []

/-- The replay of a trace after some objects were entered.  Their copies stand in the places
of the objects and hold the printed attributes and the copies of the children entered so
far.  They refer to nothing yet: tokens are collected until all objects are there. -/
structure Replayed (pass : Pass) (model : Model) (root : ObjectId) (entered : List ObjectId)
    (replay : Replay) : Prop where
  reachable : replay.model.Reachable
  size_eq : replay.model.objects.size = entered.length
  copied : ∀ object, object ∈ entered →
    replay.copies.lookup object = some (copyOf (pass.printedTree model root) object)
  root_eq : replay.root = entered.head?.map (copyOf (pass.printedTree model root))
  metaclass_eq : ∀ object, object ∈ entered →
    replay.model.metaclass? (copyOf (pass.printedTree model root) object) =
      model.metaclass? object
  containment_eq : ∀ object, object ∈ entered →
    replay.model.containment? (copyOf (pass.printedTree model root) object) =
      if object = root then none
      else (model.containment? object).map fun place =>
        (copyOf (pass.printedTree model root) place.1, place.2)
  values_eq : ∀ object, object ∈ entered → ∀ feature,
    replay.model.values (copyOf (pass.printedTree model root) object) feature =
      copiedValues pass model (pass.printedTree model root) entered object feature
  references_eq : replay.references =
    ((entered.flatMap (pass.printedReferences model)).map fun entry =>
      (copyOf (pass.printedTree model root) entry.1, entry.2)).reverse

theorem replayed_initial (pass : Pass) (model : Model) (root : ObjectId) :
    Replayed pass model root [] Replay.initial := by
  refine ⟨.empty default, rfl, ?_, rfl, ?_, ?_, ?_, rfl⟩
  · exact fun _ member => absurd member List.not_mem_nil
  · exact fun _ member => absurd member List.not_mem_nil
  · exact fun _ member => absurd member List.not_mem_nil
  · exact fun _ member => absurd member List.not_mem_nil

/-- An object comes next either as the root, before anything else, or as a
printed child of the object that is open innermost. -/
inductive ComesNext (pass : Pass) (model : Model) (root : ObjectId) (entered : List ObjectId)
    (replay : Replay) : Option Metafeature → ObjectId → Prop
  | root : entered = [] → replay.nesting = [] → ComesNext pass model root entered replay none root
  | child {parent object : ObjectId} {feature : Metafeature} {outer : List ObjectId} :
      parent ∈ entered → (feature, object) ∈ pass.printedChildren model parent →
      replay.nesting = copyOf (pass.printedTree model root) parent :: outer →
        ComesNext pass model root entered replay (some feature) object

section Visit

variable {pass : Pass} {model : Model} {root object : ObjectId} {entered rest : List ObjectId}
  {replay : Replay}

/-- What an entry adds to the copies of the objects entered before: the new copy,
at the end of the containment that it comes from. -/
theorem copiedValues_append (forest : model.Forest)
    (split : pass.printedTree model root = entered ++ object :: rest)
    {holder : ObjectId} (member : holder ∈ pass.printedTree model root) (feature : Metafeature) :
    copiedValues pass model (pass.printedTree model root) (entered ++ [object]) holder feature =
      copiedValues pass model (pass.printedTree model root) entered holder feature ++
        if (feature, object) ∈ pass.printedChildren model holder then
          [.object (copyOf (pass.printedTree model root) object)]
        else [] := by
  by_cases storage : feature.storage = .containment
  · -- The children of an object stand in the tree in their order.
    have part : (pass.printedObjects model holder feature).Sublist
        (pass.printedTree model root) :=
      (Pass.printedObjects_sublist forest storage).trans
        (Model.children_sublist_preorder forest (Pass.printedChildren_descend forest pass) member)
    have grown := filter_contains_append (Pass.printedTree_nodup forest root) split part
    unfold copiedValues
    rw [storage]
    dsimp only
    rw [grown, List.map_append]
    by_cases present : object ∈ pass.printedObjects model holder feature
    · rw [if_pos present, if_pos ((Pass.mem_printedChildren_iff forest).mpr ⟨storage, present⟩)]
      rfl
    · rw [if_neg present, if_neg]
      · rfl
      · exact fun inside => present ((Pass.mem_printedChildren_iff forest).mp inside).2
  · rw [if_neg (fun inside => storage ((Pass.mem_printedChildren_iff forest).mp inside).1),
      List.append_nil]
    unfold copiedValues
    split
    · rfl
    · next contained => exact absurd contained storage
    · rfl

variable (forest : model.Forest) (replayed : Replayed pass model root entered replay)
  (split : pass.printedTree model root = entered ++ object :: rest)

include forest split in
theorem not_mem_entered : object ∉ entered := by
  have nodup : (pass.printedTree model root).Nodup := Pass.printedTree_nodup forest root
  rw [split] at nodup
  intro again
  exact (List.nodup_append.mp nodup).2.2 object again object List.mem_cons_self rfl

include forest split in
theorem eq_root_iff : object = root ↔ entered = [] := by
  have fresh := not_mem_entered forest split
  rw [Pass.printedTree_eq forest] at split
  cases entered with
  | nil => exact ⟨fun _ => rfl, fun _ => (List.cons.inj split).1.symm⟩
  | cons first others =>
      have same := (List.cons.inj split).1
      refine ⟨fun again => ?_, fun impossible => by cases impossible⟩
      rw [again, same] at fresh
      exact absurd List.mem_cons_self fresh

include replayed split in
theorem copyOf_next (fresh : object ∉ entered) :
    copyOf (pass.printedTree model root) object = ⟨replay.model.objects.size⟩ := by
  rw [split, copyOf_of_split fresh, replayed.size_eq]

include replayed split in
theorem copyOf_ne_next {holder : ObjectId} (member : holder ∈ entered) :
    copyOf (pass.printedTree model root) holder ≠ ⟨replay.model.objects.size⟩ := by
  intro same
  have below : (copyOf (pass.printedTree model root) holder).index < entered.length := by
    rw [split]
    exact index_copyOf_lt member
  rw [same, replayed.size_eq] at below
  exact Nat.lt_irrefl _ below

/-- The place of the next copy is the copy of the place of its object. -/
structure Placed (pass : Pass) (model : Model) (root : ObjectId) (entered : List ObjectId)
    (object : ObjectId) (place : Option (ObjectId × Metafeature)) : Prop where
  place_eq : place =
    if object = root then none
    else (model.containment? object).map fun place =>
      (copyOf (pass.printedTree model root) place.1, place.2)
  below_iff : ∀ holder, holder ∈ entered → ∀ read,
    place = some (copyOf (pass.printedTree model root) holder, read) ↔
      (read, object) ∈ pass.printedChildren model holder
  /-- The holder of the place was entered before. -/
  older : ∀ holder read, place = some (holder, read) → holder.index < entered.length
  none_iff : place = none ↔ entered = []

include forest replayed split in
/-- The next object is entered at the copy of its place. -/
theorem Replayed.enter (metaclass : Metaclass) {feature : Option Metafeature}
    (next : ComesNext pass model root entered replay feature object)
    (constraint : Option String) :
    ∃ place after, replay.apply (.enter object metaclass feature constraint) = .ok after ∧
      Entered object metaclass place replay after ∧
      Placed pass model root entered object place := by
  cases next with
  | root nothing outermost =>
      rcases enter_root metaclass replayed.reachable outermost constraint with
        ⟨after, applied, changed⟩
      refine ⟨none, after, applied, changed, by rw [if_pos rfl], ?_, ?_, by simp [nothing]⟩
      · intro holder member
        rw [nothing] at member
        exact absurd member List.not_mem_nil
      · intro holder read impossible
        cases impossible
  | @child parent _ feature outer member below innermost =>
      have named := Pass.containment?_of_mem_printedChildren forest below
      rcases forest.holder_fits (forest.mem_values named) with ⟨parentClass, known, listed⟩
      rcases enter_child metaclass replayed.reachable innermost
        ((replayed.metaclass_eq parent member).trans known) listed
        (forest.container_fits named) constraint with ⟨after, applied, changed⟩
      have started : entered ≠ [] := List.ne_nil_of_mem member
      refine ⟨_, after, applied, changed, ?_, ?_, ?_, by simp [started]⟩
      · rw [if_neg (fun again => started ((eq_root_iff forest split).mp again)), named]
        rfl
      · intro holder holderMember read
        constructor
        · intro same
          have parts := Prod.mk.inj (Option.some.inj same)
          have inTree : parent ∈ pass.printedTree model root := by
            rw [split]
            exact List.mem_append_left _ member
          rw [← (copyOf_inj inTree).mp parts.1, ← parts.2]
          exact below
        · intro inside
          have again := Pass.containment?_of_mem_printedChildren forest inside
          cases Option.some.inj (named.symm.trans again)
          rfl
      · intro holder read same
        rw [← (Prod.mk.inj (Option.some.inj same)).1, split]
        exact index_copyOf_lt member

include replayed in
/-- The next copy holds nothing when it is entered. -/
theorem Replayed.values_of_entered {metaclass : Metaclass}
    {place : Option (ObjectId × Metafeature)} {opened : Replay}
    (changed : Entered object metaclass place replay opened)
    (placed : Placed pass model root entered object place) (feature : Metafeature) :
    opened.model.values ⟨replay.model.objects.size⟩ feature = [] := by
  rw [changed.values_eq, if_neg, List.append_nil]
  · apply Model.values_eq_nil_of_not_lt
    exact Nat.lt_irrefl _
  · intro inItself
    have before := placed.older _ _ inItself
    rw [← replayed.size_eq] at before
    exact Nat.lt_irrefl _ before

include forest split in
/-- A new copy holds attribute values only, for its children come later. -/
theorem copiedValues_self
    (later : ∀ child, child ∈ pass.printedChildren model object → child.2 ∈ rest)
    (feature : Metafeature) :
    copiedValues pass model (pass.printedTree model root) (entered ++ [object]) object feature =
      if feature.storage = .attribute then pass.policy.printedValues model object feature
      else [] := by
  have nodup : (pass.printedTree model root).Nodup := Pass.printedTree_nodup forest root
  rw [split] at nodup
  have parts := List.nodup_append.mp nodup
  have notYet : feature.storage = .containment →
      (pass.printedObjects model object feature).filter (entered ++ [object]).contains = [] := by
    intro storage
    refine List.filter_eq_nil_iff.mpr ?_
    intro child present marked
    have inRest := later (feature, child)
      ((Pass.mem_printedChildren_iff forest).mpr ⟨storage, present⟩)
    rcases List.mem_append.mp (List.contains_iff_mem.mp marked) with before | same
    · exact parts.2.2 child before child (List.mem_cons_of_mem _ inRest) rfl
    · rw [List.mem_singleton.mp same] at inRest
      exact (List.nodup_cons.mp parts.2.1).1 inRest
  unfold copiedValues
  split
  · next storage => rw [if_pos storage]
  · next storage =>
      rw [notYet storage, if_neg (by rw [storage]; decide)]
      rfl
  · next notAttribute _ => rw [if_neg notAttribute]

include forest replayed split in
/-- An entry and the own events behind it add an object to those entered. -/
theorem Replayed.grow {metaclass : Metaclass} (known : model.metaclass? object = some metaclass)
    (later : ∀ child, child ∈ pass.printedChildren model object → child.2 ∈ rest)
    {place : Option (ObjectId × Metafeature)} {opened after : Replay}
    (changed : Entered object metaclass place replay opened)
    (placed : Placed pass model root entered object place)
    (grown : OwnReplayed (copyOf (pass.printedTree model root) object)
      (pass.ownEvents model object) opened after) :
    Replayed pass model root (entered ++ [object]) after := by
  have fresh := not_mem_entered forest split
  have here := copyOf_next replayed split fresh
  have apart : ∀ {holder}, holder ∈ entered →
      copyOf (pass.printedTree model root) holder ≠
        copyOf (pass.printedTree model root) object := by
    intro holder member
    rw [here]
    exact copyOf_ne_next replayed split member
  have cases_member : ∀ {holder}, holder ∈ entered ++ [object] →
      holder ∈ entered ∨ holder = object := by
    intro holder member
    rcases List.mem_append.mp member with before | last
    · exact Or.inl before
    · exact Or.inr (List.mem_singleton.mp last)
  constructor
  case reachable => exact grown.reachable
  case size_eq =>
    rw [grown.size_eq, changed.size_eq, replayed.size_eq, List.length_append,
      List.length_singleton]
  case copied =>
    intro holder member
    rw [grown.copies_eq, changed.copies_eq, List.lookup_cons]
    rcases cases_member member with before | rfl
    · have different : (holder == object) = false := by
        rw [beq_eq_false_iff_ne]
        rintro rfl
        exact fresh before
      rw [different]
      exact replayed.copied holder before
    · rw [beq_self_eq_true, here]
  case root_eq =>
    rw [grown.root_eq, changed.root_eq, replayed.root_eq]
    cases entered with
    | nil =>
        rw [placed.none_iff.mpr rfl, ← here]
        rfl
    | cons head others =>
        cases place with
        | none => exact absurd (placed.none_iff.mp rfl) (by simp)
        | some place => rfl
  case metaclass_eq =>
    intro holder member
    rw [grown.metaclass_eq, changed.metaclass_eq, ← here]
    rcases cases_member member with before | rfl
    · rw [if_neg (apart before), replayed.metaclass_eq holder before]
    · rw [if_pos rfl, known]
  case containment_eq =>
    intro holder member
    rw [grown.containment_eq, changed.containment_eq, ← here]
    rcases cases_member member with before | rfl
    · rw [if_neg (apart before), replayed.containment_eq holder before]
    · rw [if_pos rfl, placed.place_eq]
  case values_eq =>
    intro holder member read
    rw [grown.values_eq]
    rcases cases_member member with before | rfl
    · have inTree : holder ∈ pass.printedTree model root := by
        rw [split]
        exact List.mem_append_left _ before
      rw [if_neg (apart before), changed.values_eq, replayed.values_eq holder before read,
        copiedValues_append forest split inTree, here]
      congr 1
      by_cases inside : (read, object) ∈ pass.printedChildren model holder
      · rw [if_pos inside, if_pos ((placed.below_iff holder before read).mpr inside)]
      · rw [if_neg inside,
          if_neg (fun same => inside ((placed.below_iff holder before read).mp same))]
    · rw [if_pos rfl, here, replayed.values_of_entered changed placed, List.nil_append,
        Pass.filterMap_ownEvents forest known, copiedValues_self forest split later]
  case references_eq =>
    rw [grown.references_eq, changed.references_eq, replayed.references_eq,
      List.flatMap_append, List.map_append, List.reverse_append, List.flatMap_singleton]
    congr 2
    apply List.map_congr_left
    intro entry member
    rw [((Pass.mem_printedReferences_iff known _).mp member).1]

include forest replayed split in
/-- Entering the next object with its own events adds it to the objects entered. -/
theorem Replayed.visit {metaclass : Metaclass} (known : model.metaclass? object = some metaclass)
    (later : ∀ child, child ∈ pass.printedChildren model object → child.2 ∈ rest)
    {feature : Option Metafeature}
    (next : ComesNext pass model root entered replay feature object) :
    ∃ after, (pass.entryEvents model feature object).foldlM Replay.apply replay = .ok after ∧
      Replayed pass model root (entered ++ [object]) after ∧
      after.nesting = copyOf (pass.printedTree model root) object :: replay.nesting := by
  have here := copyOf_next replayed split (not_mem_entered forest split)
  rcases replayed.enter forest split metaclass next
    ((pass.constraintFor? metaclass).map Constraint.name) with
    ⟨place, opened, applied, changed, placed⟩
  have copied : opened.copies.lookup object =
      some (copyOf (pass.printedTree model root) object) := by
    rw [changed.copies_eq, List.lookup_cons_self, here]
  have classified : opened.model.metaclass? (copyOf (pass.printedTree model root) object) =
      some metaclass := by
    rw [changed.metaclass_eq, here, if_pos rfl]
  have room : ∀ read, read.isMany = false →
      (opened.model.values (copyOf (pass.printedTree model root) object) read ++
        (pass.ownEvents model object).filterMap (attributeValue? read)).length ≤ 1 := by
    intro read single
    rw [here, replayed.values_of_entered changed placed, List.nil_append,
      Pass.filterMap_ownEvents forest known]
    split
    · exact Nat.le_trans (pass.policy.printedValues_sublist model object read).length_le
        (forest.length_values_le single)
    · exact Nat.zero_le 1
  rcases replay_own (fun _ own => Pass.isOwn_of_mem_ownEvents known own) changed.reachable
    copied classified room with ⟨after, replayedOwn, grown⟩
  refine ⟨after, ?_, replayed.grow forest split known later changed placed grown, ?_⟩
  · rw [Pass.entryEvents_eq known]
    exact foldlM_cons_eq_ok applied replayedOwn
  · rw [grown.nesting_eq, changed.nesting_eq, here]

end Visit

/-! ## Whole trees -/

section Tree

variable {pass : Pass} {model : Model} {root : ObjectId}

/-- Replaying the trace of an object, whenever it comes next, enters its whole
tree and leaves it again. -/
def ReplaysTree (pass : Pass) (model : Model) (root object : ObjectId) : Prop :=
  ∀ {feature : Option Metafeature} {entered rest : List ObjectId} {replay : Replay},
    pass.printedTree model root = entered ++ pass.printedTree model object ++ rest →
    Replayed pass model root entered replay →
    ComesNext pass model root entered replay feature object →
    ∃ after, (pass.trace model feature object).foldlM Replay.apply replay = .ok after ∧
      Replayed pass model root (entered ++ pass.printedTree model object) after ∧
      after.nesting = replay.nesting

/-- Children are replayed one after the other, with their container open. -/
theorem replay_children {object : ObjectId} {rest outer : List ObjectId}
    {listed : List (Metafeature × ObjectId)} (among : listed ⊆ pass.printedChildren model object)
    (each : ∀ child, child ∈ listed → ReplaysTree pass model root child.2)
    {entered : List ObjectId} {replay : Replay}
    (split : pass.printedTree model root = entered ++
      listed.flatMap (fun child => pass.printedTree model child.2) ++ rest)
    (replayed : Replayed pass model root entered replay) (member : object ∈ entered)
    (innermost : replay.nesting = copyOf (pass.printedTree model root) object :: outer) :
    ∃ after, (listed.flatMap fun child => pass.trace model (some child.1) child.2).foldlM
        Replay.apply replay = .ok after ∧
      Replayed pass model root
        (entered ++ listed.flatMap fun child => pass.printedTree model child.2) after ∧
      after.nesting = replay.nesting := by
  induction listed generalizing entered replay with
  | nil =>
      refine ⟨replay, rfl, ?_, rfl⟩
      rw [List.flatMap_nil, List.append_nil]
      exact replayed
  | cons child others inductionHypothesis =>
      have below := among List.mem_cons_self
      rw [List.flatMap_cons] at split
      have childSplit : pass.printedTree model root = entered ++
          pass.printedTree model child.2 ++ (others.flatMap (fun child =>
            pass.printedTree model child.2) ++ rest) := by
        rw [split]
        simp
      rcases each child List.mem_cons_self childSplit replayed (.child member below innermost) with
        ⟨middle, front, replayedMiddle, nestingMiddle⟩
      rcases inductionHypothesis (fun _ further => among (List.mem_cons_of_mem _ further))
        (fun other further => each other (List.mem_cons_of_mem _ further))
        (by rw [split]; simp) replayedMiddle (List.mem_append_left _ member)
        (nestingMiddle.trans innermost) with ⟨after, back, replayedAfter, nestingAfter⟩
      refine ⟨after, ?_, ?_, nestingAfter.trans nestingMiddle⟩
      · rw [List.flatMap_cons]
        exact foldlM_append_eq_ok front back
      · rw [List.flatMap_cons, ← List.append_assoc]
        exact replayedAfter

/-- Every tree is replayed, by induction from the children to their container. -/
theorem replay_subtree (forest : model.Forest) (exist : root.index < model.objects.size)
    (object : ObjectId) : ReplaysTree pass model root object := by
  have descends : Model.Descends model (fun id => id)
      (fun object => (pass.printedChildren model object).map Prod.snd) :=
    Pass.printedChildren_descend forest pass
  apply forest.descend descends (ReplaysTree pass model root)
  intro object inductionHypothesis feature entered rest replay split replayed next
  have inTree : object ∈ pass.printedTree model root := by
    rw [split, Pass.printedTree_eq forest object]
    simp
  have present := Model.index_lt_of_mem_preorder forest descends exist inTree
  rcases Model.exists_metaclass present with ⟨metaclass, known⟩
  rw [Pass.printedTree_eq forest object] at split
  have visitSplit : pass.printedTree model root = entered ++ object ::
      ((pass.printedChildren model object).flatMap (fun child => pass.printedTree model child.2) ++
        rest) := by
    rw [split]
    simp
  have later : ∀ child, child ∈ pass.printedChildren model object →
      child.2 ∈ (pass.printedChildren model object).flatMap
        (fun child => pass.printedTree model child.2) ++ rest := by
    intro child below
    refine List.mem_append_left _ (List.mem_flatMap.mpr ⟨child, below, ?_⟩)
    exact Model.mem_preorder_self forest descends child.2
  rcases replayed.visit forest visitSplit known later next with
    ⟨opened, entryReplayed, replayedOpen, nestingOpen⟩
  have childrenSplit : pass.printedTree model root = entered ++ [object] ++
      (pass.printedChildren model object).flatMap (fun child => pass.printedTree model child.2) ++
        rest := by
    rw [split]
    simp
  rcases replay_children (List.Subset.refl _)
    (fun child below => inductionHypothesis child.2 (List.mem_map_of_mem below))
    childrenSplit replayedOpen (List.mem_append_right _ List.mem_cons_self) nestingOpen with
    ⟨closing, childrenReplayed, replayedClosing, nestingClosing⟩
  refine ⟨{ closing with nesting := closing.nesting.tail }, ?_, ?_, ?_⟩
  · rw [Pass.trace_eq forest]
    exact foldlM_append_eq_ok (foldlM_append_eq_ok entryReplayed childrenReplayed) rfl
  · rw [Pass.printedTree_eq forest object]
    rw [List.append_assoc, List.singleton_append] at replayedClosing
    exact { replayedClosing with }
  · dsimp only
    rw [nestingClosing, nestingOpen, List.tail_cons]

/-- Replaying the trace of a root copies its printed tree. -/
theorem replay_trace (pass : Pass) (forest : model.Forest)
    (exist : root.index < model.objects.size) :
    ∃ replay, (pass.trace model none root).foldlM Replay.apply Replay.initial = .ok replay ∧
      Replayed pass model root (pass.printedTree model root) replay := by
  rcases replay_subtree forest exist root
    (by simp : pass.printedTree model root = [] ++ pass.printedTree model root ++ [])
    (replayed_initial pass model root) (.root rfl rfl) with ⟨after, replayed, copied, _⟩
  exact ⟨after, replayed, copied⟩

end Tree

end Rebuild

end ModelText
