import ModelText.Proofs.Sequence.Enclosure
import ModelText.Proofs.Sequence.Linking

namespace ModelText

/-!
# Rebuilding what was printed

Whatever a pass prints can be replayed: every object finds the place it had, and no write
is refused.  What may fail is linking, because a token may designate nothing among the
objects that were printed.  If all tokens are linked, the copies form the tree that the
events describe, whatever was left out of the original.

Linking and restoring write cross references only, so the tree of the copies stands before
the first token is looked up and is not touched afterwards.
-/

/-! ## Writing references -/

namespace Model

variable {model next last : Model} {owner : ObjectId} {feature : Metafeature} {value : Value}

/-- Two models that differ in cross references only. -/
structure SameTree (model next : Model) : Prop where
  reachable : next.Reachable
  size_eq : next.objects.size = model.objects.size
  metaclass_eq : ∀ id, next.metaclass? id = model.metaclass? id
  containment_eq : ∀ id, next.containment? id = model.containment? id
  values_eq : ∀ id feature, feature.storage ≠ .crossReference →
    next.values id feature = model.values id feature

namespace SameTree

theorem refl (reachable : model.Reachable) : SameTree model model :=
  ⟨reachable, rfl, fun _ => rfl, fun _ => rfl, fun _ _ _ => rfl⟩

theorem trans (first : SameTree model next) (second : SameTree next last) :
    SameTree model last where
  reachable := second.reachable
  size_eq := second.size_eq.trans first.size_eq
  metaclass_eq id := (second.metaclass_eq id).trans (first.metaclass_eq id)
  containment_eq id := (second.containment_eq id).trans (first.containment_eq id)
  values_eq id feature other :=
    (second.values_eq id feature other).trans (first.values_eq id feature other)

/-- Assigning a cross reference leaves the tree alone. -/
theorem of_assign (reachable : model.Reachable) (storage : feature.storage = .crossReference)
    (accepted : model.assign owner feature value = .ok next) : SameTree model next where
  reachable := reachable.assign accepted
  size_eq := size_assign accepted
  metaclass_eq := metaclass?_assign accepted
  containment_eq id := by
    rw [containment?_assign accepted, if_neg]
    rintro ⟨contained, _⟩
    rw [storage] at contained
    cases contained
  values_eq id read other := by
    rw [values_assign accepted, if_neg]
    rintro ⟨_, rfl⟩
    exact other storage

theorem contents_eq (same : SameTree model next) (id : ObjectId) :
    next.contents id = model.contents id := by
  unfold contents
  rw [same.metaclass_eq]
  cases model.metaclass? id with
  | none => rfl
  | some metaclass =>
      apply List.flatMap_congr
      intro feature listed
      have storage : feature.storage = .containment :=
        beq_iff_eq.mp (List.mem_filter.mp listed).2
      rw [objectValues, same.values_eq id feature (by rw [storage]; decide), objectValues]

theorem containmentTree_eq (same : SameTree model next) (root : ObjectId) :
    next.containmentTree root = model.containmentTree root := by
  have visited : ∀ limit pending, next.visit limit pending = model.visit limit pending := by
    intro limit
    induction limit with
    | zero => exact fun _ => rfl
    | succ limit inductionHypothesis =>
        intro pending
        cases pending with
        | nil => rfl
        | cons id pending =>
            rw [visit, visit, same.contents_eq, inductionHypothesis]
  rw [containmentTree, containmentTree, same.size_eq, visited]

end SameTree

end Model

namespace Rebuild

/-! ## Linking -/

/-- A reference at a cross reference that the class of its object stores. -/
def Linkable (model : Model) (entry : ObjectId × Metafeature × String) : Prop :=
  ∃ metaclass, model.metaclass? entry.1 = some metaclass ∧
    entry.2.1 ∈ metaclass.storedFeatures ∧ entry.2.1.storage = .crossReference

/-- The error of a token that designates nothing. -/
def unresolved (entry : ObjectId × Metafeature × String) : PassError :=
  .resolution (.unresolvedProxy entry.1 entry.2.1 entry.2.2)

variable {model next : Model} {entry : ObjectId × Metafeature × String}

theorem Linkable.of_sameTree (linkable : Linkable model entry) (same : model.SameTree next) :
    Linkable next entry := by
  rcases linkable with ⟨metaclass, known, listed⟩
  exact ⟨metaclass, (same.metaclass_eq _).trans known, listed⟩

theorem Linkable.exists_scope (linkable : Linkable model entry) :
    ∃ scope, Scope.containment Model.qualifiedName? model entry.1 entry.2.1 = some scope := by
  rcases linkable with ⟨metaclass, known, listed, storage⟩
  have position : Scope.isReferencePosition model entry.1 entry.2.1 = true := by
    have has := (Metaclass.mem_features_iff metaclass entry.2.1).mp (List.mem_filter.mp listed).1
    rw [Scope.isReferencePosition, storage, known, Option.any_some, has]
    rfl
  rw [Scope.containment, Scope.containmentOver, if_pos position]
  exact ⟨_, rfl⟩

theorem Linkable.exists_assign (linkable : Linkable model entry) (reachable : model.Reachable)
    (value : Value) :
    ∃ next, model.assign entry.1 entry.2.1 value = .ok next ∧ model.SameTree next := by
  rcases linkable with ⟨metaclass, known, listed, storage⟩
  have notContainment : entry.2.1.storage ≠ .containment := by
    rw [storage]
    decide
  rcases Model.exists_assign value known listed
    (fun contained => absurd contained notContainment) with ⟨next, accepted⟩
  exact ⟨next, accepted, .of_assign reachable storage accepted⟩

/-- Linking a reference fails only if its token designates nothing. -/
theorem link_cases (linkable : Linkable model entry) (reachable : model.Reachable)
    (separator : String) :
    (∃ next, link separator model entry = .ok next ∧ model.SameTree next) ∨
      link separator model entry = .error (unresolved entry) := by
  rcases linkable.exists_scope with ⟨scope, visible⟩
  rw [link, target, visible]
  dsimp only
  cases scope (QualifiedName.parse entry.2.2 separator) with
  | none => exact .inr rfl
  | some target =>
      rcases linkable.exists_assign reachable (.object target) with ⟨next, accepted, same⟩
      exact .inl ⟨next, assign_eq_ok accepted, same⟩

/-- Linking references one after the other fails only with one of their tokens. -/
theorem link_all_cases {references : List (ObjectId × Metafeature × String)}
    (linkable : ∀ entry, entry ∈ references → Linkable model entry)
    (reachable : model.Reachable) (separator : String) :
    (∃ linked, references.foldlM (link separator) model = .ok linked ∧ model.SameTree linked) ∨
      ∃ entry, entry ∈ references ∧
        references.foldlM (link separator) model = .error (unresolved entry) := by
  induction references generalizing model with
  | nil => exact .inl ⟨model, rfl, .refl reachable⟩
  | cons entry rest inductionHypothesis =>
      rcases link_cases (linkable entry List.mem_cons_self) reachable separator with
        ⟨next, first, same⟩ | failed
      · have still : ∀ other, other ∈ rest → Linkable next other := fun other member =>
          (linkable other (List.mem_cons_of_mem _ member)).of_sameTree same
        rw [List.foldlM_cons, first]
        rcases inductionHypothesis still same.reachable with
          ⟨linked, others, sameToo⟩ | ⟨other, member, failed⟩
        · exact .inl ⟨linked, others, same.trans sameToo⟩
        · exact .inr ⟨other, List.mem_cons_of_mem _ member, failed⟩
      · refine .inr ⟨entry, List.mem_cons_self, ?_⟩
        rw [List.foldlM_cons, failed]
        rfl

/-! ## Restoring -/

theorem stored_of_backReference? {metaclass : Metaclass} {feature : Metafeature}
    (known : backReference? metaclass = some feature) : feature ∈ metaclass.storedFeatures := by
  unfold backReference? at known
  split at known <;> cases known <;> decide

/-- Restoring a back-reference never fails. -/
theorem restore_eq_ok (reachable : model.Reachable) (relationship : ObjectId) :
    ∃ next, restore model relationship = .ok next ∧ model.SameTree next := by
  unfold restore
  cases model.owningRelatedElement? relationship with
  | none => exact ⟨model, rfl, .refl reachable⟩
  | some owner =>
      cases back : (model.metaclass? relationship).bind backReference? with
      | none => exact ⟨model, rfl, .refl reachable⟩
      | some feature =>
          rcases Option.bind_eq_some_iff.mp back with ⟨metaclass, known, given⟩
          rcases storage_of_backReference? given with ⟨storage, single⟩
          have linkable : Linkable model (relationship, feature, "") :=
            ⟨metaclass, known, stored_of_backReference? given, storage⟩
          rcases linkable.exists_assign reachable (.object owner) with ⟨next, accepted, same⟩
          rw [Model.assign, if_neg (by simp [single])] at accepted
          refine ⟨next, ?_, same⟩
          dsimp only
          rw [accepted]
          rfl

theorem restore_all_eq_ok (reachable : model.Reachable) (relationships : List ObjectId) :
    ∃ restored, relationships.foldlM restore model = .ok restored ∧ model.SameTree restored := by
  induction relationships generalizing model with
  | nil => exact ⟨model, rfl, .refl reachable⟩
  | cons relationship rest inductionHypothesis =>
      rcases restore_eq_ok reachable relationship with ⟨next, first, same⟩
      rcases inductionHypothesis same.reachable with ⟨restored, others, sameToo⟩
      exact ⟨restored, foldlM_cons_eq_ok first others, same.trans sameToo⟩

/-! ## The tree of the copies -/

section Copies

variable {pass : Pass} {model : Model} {root : ObjectId} {replay : Replay}
  (forest : model.Forest)
  (replayed : Replayed pass model root (pass.printedTree model root) replay)
include forest replayed

theorem Replayed.values_of_containment {object : ObjectId}
    (inside : object ∈ pass.printedTree model root) {feature : Metafeature}
    (storage : feature.storage = .containment) :
    replay.model.values (copyOf (pass.printedTree model root) object) feature =
      ((pass.printedObjects model object feature).map
        (copyOf (pass.printedTree model root))).map Value.object := by
  have below : pass.printedObjects model object feature ⊆ pass.printedTree model root :=
    ((Pass.printedObjects_sublist forest storage).trans (Model.children_sublist_preorder forest
      (Pass.printedChildren_descend forest pass) inside)).subset
  rw [replayed.values_eq object inside, copiedValues, storage, List.map_map]
  dsimp only
  rw [List.filter_eq_self.mpr fun child member => List.contains_iff_mem.mpr (below member)]
  rfl

theorem Replayed.contents_eq {object : ObjectId} (inside : object ∈ pass.printedTree model root) :
    replay.model.contents (copyOf (pass.printedTree model root) object) =
      (pass.printedChildren model object).map fun child =>
        copyOf (pass.printedTree model root) child.2 := by
  unfold Model.contents Pass.printedChildren
  rw [replayed.metaclass_eq object inside]
  cases model.metaclass? object with
  | none => rfl
  | some metaclass =>
      have stored : (metaclass.features.filter fun feature => feature.storage == .containment) =
          metaclass.storedFeatures.filter fun feature => feature.storage == .containment := by
        rw [Metaclass.storedFeatures, List.filter_filter]
        apply List.filter_congr
        intro feature _
        cases feature <;> rfl
      dsimp only
      rw [stored, Pass.flatMap_filter_eq, List.map_flatMap]
      apply List.flatMap_congr
      intro feature _
      by_cases storage : feature.storage = .containment
      · rw [if_pos (beq_iff_eq.mpr storage), if_pos storage, Model.objectValues,
          replayed.values_of_containment forest inside storage]
        simp [List.filterMap_map, Function.comp_def, Value.object?]
      · rw [if_neg (fun equal => storage (beq_iff_eq.mp equal)), if_neg storage, List.map_nil]

theorem Replayed.containmentTree_eq :
    replay.model.containmentTree (copyOf (pass.printedTree model root) root) =
      (pass.printedTree model root).map (copyOf (pass.printedTree model root)) := by
  have copies := replayed.reachable.forest
  have descends : Model.Descends model (fun id => id)
      (fun object => (pass.printedChildren model object).map Prod.snd) :=
    Pass.printedChildren_descend forest pass
  have each : ∀ object, object ∈ pass.printedTree model root →
      replay.model.preorder replay.model.contents (copyOf (pass.printedTree model root) object) =
        (pass.printedTree model object).map (copyOf (pass.printedTree model root)) := by
    intro object
    apply forest.descend descends (fun object => object ∈ pass.printedTree model root →
      replay.model.preorder replay.model.contents (copyOf (pass.printedTree model root) object) =
        (pass.printedTree model object).map (copyOf (pass.printedTree model root)))
    intro object inductionHypothesis inside
    rw [Model.preorder_eq copies copies.contents_descend, replayed.contents_eq forest inside,
      Pass.printedTree_eq forest object, List.map_cons, List.flatMap_map, List.map_flatMap]
    congr 1
    apply List.flatMap_congr
    intro child below
    have listed := List.mem_map_of_mem (f := Prod.snd) below
    refine inductionHypothesis child.2 listed ?_
    exact (Model.children_sublist_preorder forest descends inside).subset listed
  rw [copies.containmentTree_eq]
  exact each root (Model.mem_preorder_self forest descends root)

end Copies

end Rebuild

/-! ## What the events describe -/

/-- The value of a feature of an object that an event prints. -/
def Event.attributeOf? (object : ObjectId) (feature : Metafeature) : Event → Option Value
  | .attribute owner written value _ =>
      if owner = object ∧ written = feature then some value else none
  | _ => none

/-- A model consists of copies of the objects that some events enter, in their order, each
with its class, its place and its printed attributes. -/
structure Reproduces (original : Model) (events : List Event) (copied : Model) : Prop where
  /-- There is one object for each entry. -/
  size_eq : copied.objects.size = (enteredObjects events).length
  /-- The object that is entered at a position has its class. -/
  metaclass_eq : ∀ position object, (enteredObjects events)[position]? = some object →
    copied.metaclass? ⟨position⟩ = original.metaclass? object
  /-- The first object is the root of all others, which follow in the order of entry. -/
  containmentTree_eq : copied.containmentTree ⟨0⟩ =
    (List.range (enteredObjects events).length).map ObjectId.mk
  /-- An object is contained in the copy of what encloses its entry, through the feature of
  the entry. -/
  containment_iff : ∀ owner feature child,
    copied.containment? child = some (owner, feature) ↔
      Encloses events owner.index feature child.index
  /-- Every object but the first is contained in another one. -/
  contained : ∀ child, 0 < child.index → child.index < copied.objects.size →
    (copied.containment? child).isSome = true
  /-- A containment holds what its object encloses through it, in the order of entry. -/
  children : ∀ owner feature, feature.storage = .containment →
    ∃ positions : List Nat,
      copied.values owner feature = positions.map (fun position => .object ⟨position⟩) ∧
        positions.Pairwise (· < ·) ∧
        ∀ position, position ∈ positions ↔ Encloses events owner.index feature position
  /-- An attribute holds the values of its events. -/
  attributes : ∀ position object, (enteredObjects events)[position]? = some object →
    ∀ feature, feature.storage = .attribute →
      copied.values ⟨position⟩ feature = events.filterMap (Event.attributeOf? object feature)

/-- References do not matter for what is reproduced. -/
theorem Reproduces.of_sameTree {original copied next : Model} {events : List Event}
    (reproduces : Reproduces original events copied) (same : copied.SameTree next) :
    Reproduces original events next where
  size_eq := same.size_eq.trans reproduces.size_eq
  metaclass_eq position object entered :=
    (same.metaclass_eq _).trans (reproduces.metaclass_eq position object entered)
  containmentTree_eq := (same.containmentTree_eq _).trans reproduces.containmentTree_eq
  containment_iff owner feature child := by
    rw [same.containment_eq]
    exact reproduces.containment_iff owner feature child
  contained child later inRange := by
    rw [same.containment_eq]
    exact reproduces.contained child later (same.size_eq ▸ inRange)
  children owner feature storage := by
    rw [same.values_eq owner feature (by rw [storage]; decide)]
    exact reproduces.children owner feature storage
  attributes position object entered feature storage := by
    rw [same.values_eq _ feature (by rw [storage]; decide)]
    exact reproduces.attributes position object entered feature storage

namespace Pass

variable {pass : Pass} {model : Model} {root : ObjectId}

theorem filterMap_attributeOf? (forest : model.Forest) {object : ObjectId}
    (inside : object ∈ pass.printedTree model root) {metaclass : Metaclass}
    (known : model.metaclass? object = some metaclass) (through : Option Metafeature)
    {feature : Metafeature} (storage : feature.storage = .attribute) :
    (pass.trace model through root).filterMap (Event.attributeOf? object feature) =
      pass.policy.printedValues model object feature := by
  have own : ∀ entered, (pass.ownEvents model entered).filterMap
        (Event.attributeOf? object feature) =
      if entered = object then pass.policy.printedValues model object feature else [] := by
    intro entered
    by_cases same : entered = object
    · subst same
      have selected : (pass.ownEvents model entered).filterMap
          (Rebuild.attributeValue? feature) = _ := filterMap_ownEvents forest known feature
      rw [if_pos storage] at selected
      rw [if_pos rfl, ← selected]
      apply List.filterMap_congr
      intro event member
      have isOwn := isOwn_of_mem_ownEvents known member
      cases event with
      | «attribute» owner written value many =>
          rw [isOwn.1, Event.attributeOf?, Rebuild.attributeValue?]
          simp
      | enter | reference | exit => rfl
    · rw [if_neg same, List.filterMap_eq_nil_iff]
      intro event member
      cases knownToo : model.metaclass? entered with
      | none =>
          rw [ownEvents, knownToo] at member
          cases member
      | some enteredClass =>
          have isOwn := isOwn_of_mem_ownEvents knownToo member
          cases event with
          | «attribute» owner written value many =>
              rw [isOwn.1, Event.attributeOf?, if_neg fun here => same here.1]
          | enter | reference | exit => rfl
  rw [filterMap_trace forest (fun _ _ _ _ => rfl) (fun _ => rfl)]
  simp only [own]
  rw [flatMap_ite_eq (printedTree_nodup forest root), if_pos inside]

end Pass

namespace Rebuild

section Replayed

variable {pass : Pass} {model : Model} {root : ObjectId} {replay : Replay}
  (forest : model.Forest)
  (replayed : Replayed pass model root (pass.printedTree model root) replay)
  (accepts : ∀ entered, entered ∈ pass.printedTree model root → pass.Accepts model entered)
include forest

theorem copyOf_root (pass : Pass) (root : ObjectId) :
    copyOf (pass.printedTree model root) root = ⟨0⟩ := by
  rw [Pass.printedTree_eq forest, copyOf, List.idxOf_cons_self]

theorem exists_copyOf_eq {id : ObjectId}
    (inRange : id.index < (pass.printedTree model root).length) :
    ∃ object, object ∈ pass.printedTree model root ∧
      copyOf (pass.printedTree model root) object = id :=
  ⟨(pass.printedTree model root)[id.index], List.getElem_mem inRange, congrArg ObjectId.mk
    ((Pass.printedTree_nodup forest root).idxOf_getElem id.index inRange)⟩

include replayed

theorem Replayed.isSome_containment? {child : ObjectId} (later : 0 < child.index)
    (inRange : child.index < (pass.printedTree model root).length) :
    (replay.model.containment? child).isSome = true := by
  rcases exists_copyOf_eq forest inRange with ⟨object, inside, rfl⟩
  have notRoot : object ≠ root := by
    rintro rfl
    rw [copyOf_root forest pass] at later
    exact Nat.lt_irrefl 0 later
  rcases Model.mem_preorder_cases forest (Pass.printedChildren_descend forest pass) inside with
    same | ⟨holder, _, listed⟩
  · exact absurd same notRoot
  · rcases List.mem_map.mp listed with ⟨⟨feature, printed⟩, below, rfl⟩
    rw [replayed.containment_eq _ inside, if_neg notRoot,
      Pass.containment?_of_mem_printedChildren forest below]
    rfl

include accepts

/-- The copies are contained in each other as the events say. -/
theorem Replayed.containment_iff (owner : ObjectId) (feature : Metafeature) (child : ObjectId) :
    replay.model.containment? child = some (owner, feature) ↔
      Encloses (pass.trace model none root) owner.index feature child.index := by
  rw [Pass.encloses_trace_iff forest accepts]
  constructor
  · intro contained
    -- a contained copy is the copy of an object, which its printed holder contains
    have inRange := Model.index_lt_of_containment? contained
    rw [replayed.size_eq] at inRange
    rcases exists_copyOf_eq forest inRange with ⟨object, inside, rfl⟩
    rw [replayed.containment_eq object inside] at contained
    by_cases isRoot : object = root
    · rw [if_pos isRoot] at contained
      cases contained
    · rw [if_neg isRoot] at contained
      rcases Model.mem_preorder_cases forest (Pass.printedChildren_descend forest pass) inside
        with same | ⟨holder, holderInside, listed⟩
      · exact absurd same isRoot
      · rcases List.mem_map.mp listed with ⟨⟨read, printed⟩, below, rfl⟩
        rw [Pass.containment?_of_mem_printedChildren forest below] at contained
        cases contained
        exact ⟨holder, printed, holderInside, below, rfl, rfl⟩
  · rintro ⟨holder, object, inside, below, ownerPosition, childPosition⟩
    have listed : object ∈ (pass.printedChildren model holder).map Prod.snd :=
      List.mem_map_of_mem below
    have objectInside : object ∈ pass.printedTree model root :=
      (Model.children_sublist_preorder forest (Pass.printedChildren_descend forest pass)
        inside).subset listed
    have notRoot : object ≠ root := by
      rintro rfl
      have later := (Pass.encloses_of_mem_printedChildren forest accepts none inside below).lt
      rw [copyOf_root forest pass] at later
      exact Nat.not_lt_zero _ later
    have named : owner = copyOf (pass.printedTree model root) holder :=
      congrArg ObjectId.mk ownerPosition
    have childNamed : child = copyOf (pass.printedTree model root) object :=
      congrArg ObjectId.mk childPosition
    rw [childNamed, replayed.containment_eq object objectInside, if_neg notRoot,
      Pass.containment?_of_mem_printedChildren forest below, named]
    rfl

/-- The copies stand in the containments in the order of entry. -/
theorem Replayed.exists_positions (owner : ObjectId) {feature : Metafeature}
    (storage : feature.storage = .containment) :
    ∃ positions : List Nat,
      replay.model.values owner feature =
          positions.map (fun position => .object ⟨position⟩) ∧
        positions.Pairwise (· < ·) ∧
        ∀ position, position ∈ positions ↔
          Encloses (pass.trace model none root) owner.index feature position := by
  have descends : Model.Descends model (fun id => id)
      (fun object => (pass.printedChildren model object).map Prod.snd) :=
    Pass.printedChildren_descend forest pass
  by_cases inRange : owner.index < (pass.printedTree model root).length
  · rcases exists_copyOf_eq forest inRange with ⟨holder, inside, rfl⟩
    refine ⟨(pass.printedObjects model holder feature).map (pass.printedTree model root).idxOf,
      ?_, ?_, ?_⟩
    · rw [replayed.values_of_containment forest inside storage, List.map_map, List.map_map]
      rfl
    · have part : (pass.printedObjects model holder feature).Sublist
          (pass.printedTree model root) :=
        (Pass.printedObjects_sublist forest storage).trans
          (Model.children_sublist_preorder forest descends inside)
      have nodup : (pass.printedTree model root).Nodup := Pass.printedTree_nodup forest root
      have positions : (pass.printedTree model root).map (pass.printedTree model root).idxOf =
          List.range (pass.printedTree model root).length := by
        have ids := congrArg (List.map ObjectId.index) (map_copyOf_self nodup)
        simpa [Function.comp_def, copyOf] using ids
      refine List.Pairwise.sublist (part.map _) ?_
      rw [positions]
      exact List.pairwise_lt_range
    · intro position
      rw [Pass.encloses_trace_iff forest accepts, List.mem_map]
      constructor
      · rintro ⟨child, present, rfl⟩
        exact ⟨holder, child, inside,
          (Pass.mem_printedChildren_iff forest).mpr ⟨storage, present⟩, rfl, rfl⟩
      · rintro ⟨other, child, _, below, samePosition, rfl⟩
        have same := (copyOf_inj inside).mp (congrArg ObjectId.mk samePosition)
        rw [same]
        exact ⟨child, ((Pass.mem_printedChildren_iff forest).mp below).2, rfl⟩
  · refine ⟨[], ?_, List.Pairwise.nil, ?_⟩
    · rw [← replayed.size_eq] at inRange
      exact Model.values_eq_nil_of_not_lt inRange
    · intro position
      rw [Pass.encloses_trace_iff forest accepts]
      refine ⟨fun impossible => absurd impossible List.not_mem_nil, ?_⟩
      rintro ⟨holder, _, inside, _, samePosition, _⟩
      rw [samePosition, copyOf] at inRange
      exact absurd (List.idxOf_lt_length_of_mem inside) inRange

/-- The copies of a printed tree reproduce its events. -/
theorem Replayed.reproduces : Reproduces model (pass.trace model none root) replay.model := by
  have entered := Pass.enteredObjects_trace forest accepts none
  have nodup : (pass.printedTree model root).Nodup := Pass.printedTree_nodup forest root
  have named : ∀ {position object}, (enteredObjects (pass.trace model none root))[position]? =
      some object → object ∈ pass.printedTree model root ∧
        copyOf (pass.printedTree model root) object = ⟨position⟩ := by
    intro position object found
    rw [entered] at found
    rcases List.getElem?_eq_some_iff.mp found with ⟨inRange, rfl⟩
    exact ⟨List.getElem_mem inRange, congrArg ObjectId.mk (nodup.idxOf_getElem position inRange)⟩
  constructor
  case size_eq => rw [entered, replayed.size_eq]
  case metaclass_eq =>
    intro position object found
    rcases named found with ⟨inside, name⟩
    rw [← name, replayed.metaclass_eq object inside]
  case containmentTree_eq =>
    rw [← copyOf_root forest pass root, replayed.containmentTree_eq forest,
      map_copyOf_self nodup, entered]
  case containment_iff => exact replayed.containment_iff forest accepts
  case contained =>
    intro child later inRange
    rw [replayed.size_eq] at inRange
    exact replayed.isSome_containment? forest later inRange
  case children =>
    exact fun owner _ storage => replayed.exists_positions forest accepts owner storage
  case attributes =>
    intro position object found feature storage
    rcases named found with ⟨inside, name⟩
    rcases accepts object inside with ⟨metaclass, known, _⟩
    rw [← name, replayed.values_eq object inside, copiedValues, storage,
      Pass.filterMap_attributeOf? forest inside known none storage]

omit forest accepts in
theorem Replayed.linkable {entry : ObjectId × Metafeature × String}
    (collected : entry ∈ replay.references) : Linkable replay.model entry := by
  rw [replayed.references_eq, List.mem_reverse] at collected
  rcases List.mem_map.mp collected with ⟨original, listed, rfl⟩
  rcases List.mem_flatMap.mp listed with ⟨object, inside, printed⟩
  cases known : model.metaclass? object with
  | none =>
      rw [Pass.printedReferences, Pass.ownEvents, known] at printed
      cases printed
  | some metaclass =>
      rcases (Pass.mem_printedReferences_iff known _).mp printed with ⟨rfl, stored, storage, _⟩
      exact ⟨metaclass, (replayed.metaclass_eq _ inside).trans known, stored, storage⟩

end Replayed

/-- A printed tree can be rebuilt unless a token designates nothing.  What is rebuilt has the
objects, the containments and the attributes of the events. -/
theorem rebuild_run_reproduces {model : Model} {root : ObjectId} (reachable : model.Reachable)
    (exist : root.index < model.objects.size) (pass : Pass) {events : List Event} {tally : Tally}
    (finished : pass.run model root = ⟨events, .ok tally⟩) (separator : String) :
    (∃ copied, rebuild events separator = .ok (copied, ⟨0⟩) ∧ Reproduces model events copied) ∨
      ∃ source reference text, rebuild events separator =
        .error (.resolution (.unresolvedProxy source reference text)) := by
  have forest := reachable.forest
  rcases Pass.run_eq_ok forest exist finished with ⟨rfl, accepts⟩
  rcases replay_trace pass forest exist with ⟨replay, replays, replayed⟩
  have rooted : replay.root = some ⟨0⟩ := by
    rw [replayed.root_eq, ← copyOf_root forest pass root,
      Pass.printedTree_eq forest]
    rfl
  have linkable : ∀ entry, entry ∈ replay.references.reverse → Linkable replay.model entry :=
    fun entry member => replayed.linkable (List.mem_reverse.mp member)
  rw [rebuild, replays]
  dsimp only
  rw [finish, rooted]
  dsimp only
  rcases link_all_cases linkable replayed.reachable separator with
    ⟨linked, linking, sameLinked⟩ | ⟨entry, _, failed⟩
  · rcases restore_all_eq_ok sameLinked.reachable (linked.containmentTree ⟨0⟩) with
      ⟨restored, restoring, sameRestored⟩
    refine .inl ⟨restored, ?_, ?_⟩
    · rw [linking]
      dsimp only
      rw [restoring]
      rfl
    · exact (replayed.reproduces forest accepts).of_sameTree (sameLinked.trans sameRestored)
  · refine .inr ⟨entry.1, entry.2.1, entry.2.2, ?_⟩
    rw [failed]
    rfl

/-- The wheel and its definition are rebuilt without the placeholder for a multiplicity,
which is not printed.  The wheel alone cannot be rebuilt, for its definition is missing. -/
theorem rebuild_run_reproduces_unboundedWheel :
    (∃ copied, rebuild ((Pass.standard .standard none).run Pass.unboundedWheel.model ⟨0⟩).events
          Options.standard.nameSeparator = .ok (copied, ⟨0⟩) ∧
        Reproduces Pass.unboundedWheel.model
          ((Pass.standard .standard none).run Pass.unboundedWheel.model ⟨0⟩).events copied) ∧
      ∃ source reference text,
        rebuild ((Pass.standard .standard none).run Pass.unboundedWheel.model ⟨4⟩).events
            Options.standard.nameSeparator =
          .error (.resolution (.unresolvedProxy source reference text)) := by
  have whole : ((Pass.standard .standard none).run Pass.unboundedWheel.model ⟨0⟩).result =
      .ok ⟨6, 2, 1, 2⟩ := by decide +kernel
  have alone : ((Pass.standard .standard none).run Pass.unboundedWheel.model ⟨4⟩).result =
      .ok ⟨3, 1, 1, 1⟩ := by decide +kernel
  constructor
  · have linked : (rebuild ((Pass.standard .standard none).run Pass.unboundedWheel.model
        ⟨0⟩).events Options.standard.nameSeparator).toBool = true := by decide +kernel
    rcases rebuild_run_reproduces Pass.unboundedWheel_reachable (by decide +kernel) _
        (Pass.run_eq_of_result whole)
        Options.standard.nameSeparator with rebuilt | ⟨_, _, _, failed⟩
    · exact rebuilt
    · rw [failed] at linked
      cases linked
  · have unlinked : (rebuild ((Pass.standard .standard none).run Pass.unboundedWheel.model
        ⟨4⟩).events Options.standard.nameSeparator).toBool = false := by decide +kernel
    rcases rebuild_run_reproduces Pass.unboundedWheel_reachable (by decide +kernel) _
        (Pass.run_eq_of_result alone)
        Options.standard.nameSeparator with ⟨_, rebuilt, _⟩ | failed
    · rw [rebuilt] at unlinked
      cases unlinked
    · exact failed

end Rebuild

end ModelText
