import Mathlib.Data.List.Forall2
import Mathlib.Data.Set.Function
import ModelText.Proofs.Snapshot.Comparison

namespace ModelText

/-!
# What a match means

Two trees have matching snapshots exactly when going from each object of the one to
the object at the same position of the other is an isomorphism: it keeps classes,
values and places, and what an object refers to goes to what its counterpart refers
to.  Only identities outside the trees and the texts of unbound references are
compared as they are.

A snapshot lists, for every object in pre-order, what functions of the object give
for the features of its class, so snapshots of trees match only if they are equal.
-/

/-- The object that stands in one list where an object stands in another. -/
def counterpart (left right : List ObjectId) (object : ObjectId) : ObjectId :=
  (right[left.idxOf object]?).getD object

section Counterpart

variable {left right : List ObjectId} (lengths : left.length = right.length)
  (leftNodup : left.Nodup) (rightNodup : right.Nodup)

theorem counterpart_getElem (leftNodup : left.Nodup) {index : Nat} (below : index < left.length)
    (belowToo : index < right.length) : counterpart left right left[index] = right[index] := by
  rw [counterpart, leftNodup.idxOf_getElem, List.getElem?_eq_getElem belowToo, Option.getD_some]

include lengths leftNodup

theorem counterpart_mem {object : ObjectId} (inside : object ∈ left) :
    counterpart left right object ∈ right := by
  rcases List.mem_iff_getElem.mp inside with ⟨index, below, rfl⟩
  rw [counterpart_getElem leftNodup below (lengths ▸ below)]
  exact List.getElem_mem _

include rightNodup

theorem idxOf_counterpart {object : ObjectId} (inside : object ∈ left) :
    right.idxOf (counterpart left right object) = left.idxOf object := by
  rcases List.mem_iff_getElem.mp inside with ⟨index, below, rfl⟩
  rw [counterpart_getElem leftNodup below (lengths ▸ below), leftNodup.idxOf_getElem,
    rightNodup.idxOf_getElem]

theorem bijOn_counterpart :
    Set.BijOn (counterpart left right) {object | object ∈ left} {object | object ∈ right} := by
  refine ⟨?_, ?_, ?_⟩
  · intro object inside
    exact counterpart_mem lengths leftNodup inside
  · intro first inside second insideToo same
    rw [← List.idxOf_inj inside, ← idxOf_counterpart lengths leftNodup rightNodup inside, same,
      idxOf_counterpart lengths leftNodup rightNodup insideToo]
  · intro object inside
    rcases List.mem_iff_getElem.mp inside with ⟨index, below, rfl⟩
    have inRange : index < left.length := lengths ▸ below
    exact ⟨left[index], List.getElem_mem inRange, counterpart_getElem leftNodup inRange below⟩

end Counterpart

namespace Snapshot

/-- A reference of the one tree and one of the other: both lead to the same position of
the trees, or to objects outside with the same identity, or both are unbound with the
same text. -/
inductive Corresponds (left : Model) (leftTree : List ObjectId) (right : Model)
    (rightTree : List ObjectId) : Value → Value → Prop
  | inside {target : ObjectId} : target ∈ leftTree →
      Corresponds left leftTree right rightTree (.object target)
        (.object (counterpart leftTree rightTree target))
  | outside {target other : ObjectId} : target ∉ leftTree → other ∉ rightTree →
      Target.externalIdentity left target = Target.externalIdentity right other →
      Corresponds left leftTree right rightTree (.object target) (.object other)
  | unbound {text : String} :
      Corresponds left leftTree right rightTree (.proxy text) (.proxy text)

/-- The references of a feature, its back-pointer included, without the other values
that may lie beside them. -/
def references (model : Model) (object : ObjectId) (feature : Metafeature) : List Value :=
  (ObjectRecord.referenceValues model object feature).filter Value.isReference

/-- Two trees with the same positions of everything that a snapshot records. -/
structure Isomorphic (left : Model) (leftRoot : ObjectId) (right : Model) (rightRoot : ObjectId)
    (rename : ObjectId → ObjectId) : Prop where
  bijective : Set.BijOn rename {object | object ∈ left.containmentTree leftRoot}
    {object | object ∈ right.containmentTree rightRoot}
  /-- Corresponding objects have the same class. -/
  metaclass_eq : ∀ {object}, object ∈ left.containmentTree leftRoot →
    right.metaclass? (rename object) = left.metaclass? object
  /-- They hold the same values in attributes other than identifiers. -/
  attribute_eq : ∀ {object}, object ∈ left.containmentTree leftRoot → ∀ {feature},
    feature.storage = .attribute → feature ∉ Options.standardIgnoredFeatures →
      right.values (rename object) feature = left.values object feature
  /-- Every object below the root is contained at the same position of the same
  feature of corresponding objects. -/
  place_eq : ∀ {object}, object ∈ left.containmentTree leftRoot → object ≠ leftRoot →
    ∃ (owner : ObjectId) (feature : Metafeature) (position : Nat),
      owner ∈ left.containmentTree leftRoot ∧
      left.containment? object = some (owner, feature) ∧
      right.containment? (rename object) = some (rename owner, feature) ∧
      (left.values owner feature)[position]? = some (Value.object object) ∧
      (right.values (rename owner) feature)[position]? = some (Value.object (rename object))
  /-- Their features refer to corresponding targets, in the same order. -/
  references_eq : ∀ {object}, object ∈ left.containmentTree leftRoot → ∀ {metaclass},
    left.metaclass? object = some metaclass → ∀ {feature}, feature ∈ metaclass.features →
      feature.storage ≠ .attribute →
        List.Forall₂ (Corresponds left (left.containmentTree leftRoot) right
          (right.containmentTree rightRoot)) (references left object feature)
          (references right (rename object) feature)

/-! ## Targets -/

section Targets

variable {left right : Model} {leftTree rightTree : List ObjectId}

theorem of?_isSome (model : Model) (tree : List ObjectId) (value : Value) :
    (Target.of? model tree value).isSome = value.isReference := by
  cases value with
  | object target => rw [Target.of?]; cases tree.idxOf? target <;> rfl
  | _ => rfl

theorem of?_object_of_mem {model : Model} {tree : List ObjectId} {target : ObjectId}
    (inside : target ∈ tree) :
    Target.of? model tree (.object target) = some (.numbered (tree.idxOf target)) := by
  have found : tree.idxOf? target = some (tree.idxOf target) :=
    List.findIdx?_eq_some_of_exists ⟨target, inside, beq_self_eq_true target⟩
  rw [Target.of?, found]

theorem of?_object_of_not_mem {model : Model} {tree : List ObjectId} {target : ObjectId}
    (outside : target ∉ tree) :
    Target.of? model tree (.object target) =
      some (.external (Target.externalIdentity model target)) := by
  rw [Target.of?, List.idxOf?_eq_none_iff.mpr outside]

/-- The values that are no references are left out. -/
theorem map_of?_filter (model : Model) (tree : List ObjectId) (values : List Value) :
    (values.filter Value.isReference).map (Target.of? model tree) =
      (values.filterMap (Target.of? model tree)).map some := by
  induction values with
  | nil => rfl
  | cons value rest inductionHypothesis =>
      have isReference := of?_isSome model tree value
      cases recorded : Target.of? model tree value with
      | none =>
          rw [recorded] at isReference
          rw [List.filter_cons_of_neg (by simp [← isReference]), List.filterMap_cons_none recorded,
            inductionHypothesis]
      | some target =>
          rw [recorded] at isReference
          rw [List.filter_cons_of_pos (by simp [← isReference]), List.map_cons,
            List.filterMap_cons_some recorded, List.map_cons, inductionHypothesis, recorded]

section Trees

variable (lengths : leftTree.length = rightTree.length) (leftNodup : leftTree.Nodup)
  (rightNodup : rightTree.Nodup)
include lengths leftNodup rightNodup

theorem of?_eq_iff {value other : Value} (isReference : value.isReference = true) :
    Target.of? left leftTree value = Target.of? right rightTree other ↔
      Corresponds left leftTree right rightTree value other := by
  constructor
  · intro same
    have isReferenceToo : other.isReference = true := by
      rw [← of?_isSome right rightTree, ← same, of?_isSome, isReference]
    cases value with
    | object target =>
        by_cases inside : target ∈ leftTree
        · rw [of?_object_of_mem inside] at same
          cases other with
          | object second =>
              by_cases insideToo : second ∈ rightTree
              · rw [of?_object_of_mem insideToo,
                  ← idxOf_counterpart lengths leftNodup rightNodup inside] at same
                cases (List.idxOf_inj (counterpart_mem lengths leftNodup inside)).mp
                  (Target.numbered.inj (Option.some.inj same))
                exact .inside inside
              · rw [of?_object_of_not_mem insideToo] at same
                cases same
          | proxy => cases same
          | _ => cases isReferenceToo
        · rw [of?_object_of_not_mem inside] at same
          cases other with
          | object second =>
              by_cases insideToo : second ∈ rightTree
              · rw [of?_object_of_mem insideToo] at same
                cases same
              · rw [of?_object_of_not_mem insideToo] at same
                exact .outside inside insideToo (Target.external.inj (Option.some.inj same))
          | proxy => cases same
          | _ => cases isReferenceToo
    | proxy text =>
        cases other with
        | object second =>
            by_cases insideToo : second ∈ rightTree
            · rw [of?_object_of_mem insideToo] at same
              cases same
            · rw [of?_object_of_not_mem insideToo] at same
              cases same
        | proxy second =>
            cases same
            exact .unbound
        | _ => cases isReferenceToo
    | _ => cases isReference
  · intro corresponds
    cases corresponds with
    | inside inside =>
        rw [of?_object_of_mem inside,
          of?_object_of_mem (counterpart_mem lengths leftNodup inside),
          idxOf_counterpart lengths leftNodup rightNodup inside]
    | outside outside outsideToo identity =>
        rw [of?_object_of_not_mem outside, of?_object_of_not_mem outsideToo, identity]
    | unbound => rfl

/-- The targets of two lists of values are recorded alike exactly when their
references correspond one by one. -/
theorem targets_eq_iff (values others : List Value) :
    values.filterMap (Target.of? left leftTree) = others.filterMap (Target.of? right rightTree) ↔
      List.Forall₂ (Corresponds left leftTree right rightTree)
        (values.filter Value.isReference) (others.filter Value.isReference) := by
  have recorded : values.filterMap (Target.of? left leftTree) =
        others.filterMap (Target.of? right rightTree) ↔
      (values.filter Value.isReference).map (Target.of? left leftTree) =
        (others.filter Value.isReference).map (Target.of? right rightTree) := by
    rw [map_of?_filter, map_of?_filter]
    exact (List.map_injective_iff.mpr (Option.some_injective Target)).eq_iff.symm
  rw [recorded, ← List.forall₂_eq_eq_eq, List.forall₂_map_left_iff, List.forall₂_map_right_iff]
  have references : ∀ value, value ∈ values.filter Value.isReference →
      value.isReference = true := fun value listed => (List.mem_filter.mp listed).2
  constructor
  · intro same
    exact ((List.forall₂_and_left _ _).mpr ⟨references, same⟩).imp fun value other related =>
      (of?_eq_iff lengths leftNodup rightNodup related.1).mp related.2
  · intro corresponds
    exact ((List.forall₂_and_left _ _).mpr ⟨references, corresponds⟩).imp fun value other related =>
      (of?_eq_iff lengths leftNodup rightNodup related.1).mpr related.2

end Trees

end Targets

/-! ## Records -/

/-- The class of an object that exists. -/
def classOf (model : Model) (object : ObjectId) : Metaclass :=
  (model.metaclass? object).getD default

/-- The features of a class that a snapshot records. -/
def recorded (metaclass : Metaclass) : List Metafeature :=
  ObjectRecord.recordedFeatures Options.standardIgnoredFeatures metaclass

theorem mem_recorded_iff (metaclass : Metaclass) (feature : Metafeature) :
    feature ∈ recorded metaclass ↔ feature ∈ metaclass.features ∧ feature.isDerived = false ∧
      feature ∉ Options.standardIgnoredFeatures := by
  simp [recorded, ObjectRecord.recordedFeatures]

/-- The record of an object at a position of a tree. -/
def recordOf (model : Model) (tree : List ObjectId) (object : ObjectId) (number : Nat) :
    ObjectRecord where
  number := number
  metaclass := classOf model object
  attributes := ((recorded (classOf model object)).filter fun feature =>
    feature.storage == .attribute).map fun feature => (feature, model.value? object feature)
  references := ((recorded (classOf model object)).filter fun feature =>
    feature.storage != .attribute).map fun feature =>
      (feature, (ObjectRecord.referenceValues model object feature).filterMap
        (Target.of? model tree))

section Records

variable {left right : Model} {leftTree rightTree : List ObjectId} {object other : ObjectId}
  {number : Nat}

theorem recordOf_eq_iff :
    recordOf left leftTree object number = recordOf right rightTree other number ↔
      classOf left object = classOf right other ∧
        (∀ feature, feature ∈ recorded (classOf left object) → feature.storage = .attribute →
          left.value? object feature = right.value? other feature) ∧
        ∀ feature, feature ∈ recorded (classOf left object) → feature.storage ≠ .attribute →
          (ObjectRecord.referenceValues left object feature).filterMap
              (Target.of? left leftTree) =
            (ObjectRecord.referenceValues right other feature).filterMap
              (Target.of? right rightTree) := by
  rw [recordOf, recordOf, ObjectRecord.mk.injEq]
  by_cases classes : classOf left object = classOf right other
  · rw [← classes, List.map_inj_left, List.map_inj_left]
    simp [List.mem_filter]
  · simp [classes]

/-- Records of objects that exist differ unless they are equal. -/
theorem difference?_recordOf_eq_none_iff :
    (recordOf left leftTree object number).difference?
        (recordOf right rightTree other number) = none ↔
      recordOf left leftTree object number = recordOf right rightTree other number := by
  by_cases classes : classOf left object = classOf right other
  · have attributesToo : (recordOf right rightTree other number).attributes =
        ((recorded (classOf left object)).filter fun feature =>
          feature.storage == .attribute).map fun feature =>
            (feature, right.value? other feature) := by
      rw [classes]
      rfl
    have referencesToo : (recordOf right rightTree other number).references =
        ((recorded (classOf left object)).filter fun feature =>
          feature.storage != .attribute).map fun feature =>
            (feature, (ObjectRecord.referenceValues right other feature).filterMap
              (Target.of? right rightTree)) := by
      rw [classes]
      rfl
    have sameClass : (recordOf left leftTree object number).metaclass =
        (recordOf right rightTree other number).metaclass := classes
    have attributes : (recordOf left leftTree object number).attributeDifference?
          (recordOf right rightTree other number) = none ↔
        (recordOf left leftTree object number).attributes =
          (recordOf right rightTree other number).attributes :=
      ObjectRecord.attributeDifference?_eq_none_iff rfl attributesToo
    have references : (recordOf left leftTree object number).referenceDifference?
          (recordOf right rightTree other number) = none ↔
        (recordOf left leftTree object number).references =
          (recordOf right rightTree other number).references :=
      ObjectRecord.referenceDifference?_eq_none_iff rfl referencesToo
    have difference : (recordOf left leftTree object number).difference?
          (recordOf right rightTree other number) = none ↔
        (recordOf left leftTree object number).attributeDifference?
            (recordOf right rightTree other number) = none ∧
          (recordOf left leftTree object number).referenceDifference?
            (recordOf right rightTree other number) = none := by
      rw [ObjectRecord.difference?, sameClass, bne_self_eq_false, if_neg Bool.false_ne_true]
      cases (recordOf left leftTree object number).attributeDifference?
        (recordOf right rightTree other number) <;> simp
    rw [difference, attributes, references]
    constructor
    · rintro ⟨sameAttributes, sameReferences⟩
      exact (ObjectRecord.mk.injEq ..).mpr ⟨rfl, classes, sameAttributes, sameReferences⟩
    · intro same
      exact ⟨congrArg ObjectRecord.attributes same, congrArg ObjectRecord.references same⟩
  · have different : (recordOf left leftTree object number).metaclass ≠
        (recordOf right rightTree other number).metaclass := classes
    rw [ObjectRecord.difference?, if_pos (bne_iff_ne.mpr different)]
    constructor
    · intro impossible
      cases impossible
    · intro same
      exact absurd (congrArg ObjectRecord.metaclass same) different

end Records

/-! ## Snapshots of trees -/

/-- The snapshot of a tree, record by record. -/
def ofTree (model : Model) (tree : List ObjectId) : Snapshot :=
  ⟨tree.zipIdx.map fun entry => recordOf model tree entry.1 entry.2⟩

theorem capture_eq_ofTree {model : Model} {root : ObjectId} (forest : model.Forest)
    (exist : root.index < model.objects.size) :
    capture model root = .ok (ofTree model (model.containmentTree root)) := by
  have leftOut : Metafeature.aliasIds ∈ Options.standardIgnoredFeatures :=
    List.mem_cons_of_mem _ List.mem_cons_self
  have each : ∀ entry, entry ∈ (model.containmentTree root).zipIdx →
      ObjectRecord.capture model (model.containmentTree root)
          Options.standardIgnoredFeatures entry.1 entry.2 =
        pure (recordOf model (model.containmentTree root) entry.1 entry.2) := by
    intro entry member
    have known := forest.index_lt_of_mem_containmentTree exist
      (List.fst_mem_of_mem_zipIdx member)
    rcases Model.exists_metaclass known with ⟨metaclass, classified⟩
    have sameClass : classOf model entry.1 = metaclass := by
      rw [classOf, classified, Option.getD_some]
    rw [ObjectRecord.capture, classified, recordOf, sameClass]
    exact ObjectRecord.ofClass_eq leftOut
  rw [capture_eq exist, mapM_congr each, List.mapM_pure]
  rfl

section Trees

variable {left right : Model} {leftTree rightTree : List ObjectId}

theorem length_ofTree (model : Model) (tree : List ObjectId) :
    (ofTree model tree).objects.length = tree.length := by
  simp [ofTree]

theorem getElem_ofTree (model : Model) (tree : List ObjectId) {index : Nat}
    (below : index < (ofTree model tree).objects.length) :
    (ofTree model tree).objects[index] =
      recordOf model tree (tree.get ⟨index, length_ofTree model tree ▸ below⟩) index := by
  simp [ofTree]

theorem eq_of_getElem {expected actual : Snapshot}
    (lengths : expected.objects.length = actual.objects.length)
    (each : ∀ index (below : index < expected.objects.length)
      (belowToo : index < actual.objects.length),
      expected.objects[index] = actual.objects[index]) : expected = actual := by
  cases expected
  cases actual
  exact (Snapshot.mk.injEq ..).mpr (List.ext_getElem lengths each)

theorem isMatch_ofTree_iff :
    (ofTree left leftTree).isMatch (ofTree right rightTree) = true ↔
      ofTree left leftTree = ofTree right rightTree := by
  rw [isMatch, Option.isNone_iff_eq_none, compare]
  constructor
  · intro noDifference
    split at noDifference
    · cases noDifference
    · next lengths =>
        rw [bne_iff_ne, not_not] at lengths
        rw [List.findSome?_eq_none_iff] at noDifference
        refine eq_of_getElem lengths ?_
        intro index below belowToo
        have both : index < ((ofTree left leftTree).objects.zip
            (ofTree right rightTree).objects).length := by
          rw [List.length_zip, lengths, Nat.min_self]
          exact belowToo
        have alike := noDifference _ (List.getElem_mem both)
        rw [List.getElem_zip] at alike
        dsimp only at alike
        rw [getElem_ofTree, getElem_ofTree] at alike ⊢
        exact difference?_recordOf_eq_none_iff.mp alike
  · intro same
    rw [← same, bne_self_eq_false, if_neg Bool.false_ne_true, List.findSome?_eq_none_iff]
    intro pair member
    rcases List.mem_iff_getElem.mp member with ⟨index, both, rfl⟩
    rw [List.getElem_zip]
    dsimp only
    rw [getElem_ofTree]
    exact difference?_recordOf_eq_none_iff.mpr rfl

/-- Snapshots of trees are equal when corresponding objects have equal records. -/
theorem ofTree_eq_iff (leftNodup : leftTree.Nodup) :
    ofTree left leftTree = ofTree right rightTree ↔
      leftTree.length = rightTree.length ∧ ∀ object, object ∈ leftTree →
        recordOf left leftTree object (leftTree.idxOf object) =
          recordOf right rightTree (counterpart leftTree rightTree object)
            (leftTree.idxOf object) := by
  constructor
  · intro same
    have lengths : leftTree.length = rightTree.length := by
      rw [← length_ofTree left, ← length_ofTree right, same]
    refine ⟨lengths, ?_⟩
    intro object inside
    rcases List.mem_iff_getElem.mp inside with ⟨index, below, rfl⟩
    rw [leftNodup.idxOf_getElem, counterpart_getElem leftNodup below (lengths ▸ below)]
    have entry := congrArg (fun snapshot => snapshot.objects[index]?) same
    simpa [ofTree, below, lengths ▸ below] using entry
  · rintro ⟨lengths, each⟩
    refine eq_of_getElem (by rw [length_ofTree, length_ofTree, lengths]) ?_
    intro index below belowToo
    rw [length_ofTree] at below belowToo
    rw [getElem_ofTree, getElem_ofTree]
    have alike := each _ (List.getElem_mem below)
    rwa [leftNodup.idxOf_getElem, counterpart_getElem leftNodup below belowToo] at alike

end Trees

/-! ## What is recorded of an object -/

section Recorded

variable {model : Model} (forest : model.Forest) {object : ObjectId} {feature : Metafeature}
include forest

/-- What is not recorded is not stored, identifiers aside. -/
theorem values_eq_nil_of_not_recorded (kept : feature ∉ Options.standardIgnoredFeatures)
    (unrecorded : feature ∉ recorded (classOf model object)) :
    model.values object feature = [] := by
  rw [List.eq_nil_iff_forall_not_mem]
  intro value held
  apply unrecorded
  rcases forest.holder_fits held with ⟨metaclass, known, listed⟩
  rcases List.mem_filter.mp listed with ⟨has, isStored⟩
  rw [Metafeature.isStored, Bool.and_eq_true, Bool.not_eq_true'] at isStored
  rw [classOf, known, Option.getD_some, mem_recorded_iff]
  exact ⟨has, isStored.1, kept⟩

theorem references_of_containment (storage : feature.storage = .containment) :
    references model object feature = model.values object feature := by
  have notContainer : ¬ (feature.storage == .container) = true := by rw [storage]; decide
  rw [references, ObjectRecord.referenceValues, if_neg notContainer, List.filter_eq_self]
  intro value held
  rw [forest.values_eq_map_objectValues storage] at held
  rcases List.mem_map.mp held with ⟨child, _, rfl⟩
  rfl

theorem references_of_isDerived (notAttribute : feature.storage ≠ .attribute)
    (derived : feature.isDerived = true) : references model object feature = [] := by
  have notContainer : ¬ (feature.storage == .container) = true := by
    revert derived
    cases feature <;> decide
  have unrecorded : feature ∉ recorded (classOf model object) := by
    intro listed
    rw [mem_recorded_iff, derived] at listed
    cases listed.2.1
  have kept : feature ∉ Options.standardIgnoredFeatures := by
    revert notAttribute
    cases feature <;> decide
  rw [references, ObjectRecord.referenceValues, if_neg notContainer,
    values_eq_nil_of_not_recorded forest kept unrecorded]
  rfl

theorem metaclass?_eq_classOf {root : ObjectId} (exist : root.index < model.objects.size)
    (inside : object ∈ model.containmentTree root) :
    model.metaclass? object = some (classOf model object) := by
  have known := forest.index_lt_of_mem_containmentTree exist inside
  rcases Model.exists_metaclass known with ⟨metaclass, classified⟩
  rw [classOf, classified, Option.getD_some]

end Recorded

theorem eq_of_head?_eq {α : Type} {listed others : List α} (short : listed.length ≤ 1)
    (shortToo : others.length ≤ 1) (same : listed.head? = others.head?) : listed = others := by
  cases listed with
  | nil => exact (List.head?_eq_none_iff.mp same.symm).symm
  | cons first rest =>
      cases others with
      | nil => cases same
      | cons other others =>
          rw [List.length_eq_zero_iff.mp (Nat.le_zero.mp (Nat.le_of_succ_le_succ short)),
            List.length_eq_zero_iff.mp (Nat.le_zero.mp (Nat.le_of_succ_le_succ shortToo)),
            Option.some.inj same]

/-! ## Matching trees -/

section Matching

variable {left right : Model} (leftForest : left.Forest) (rightForest : right.Forest)
  {leftRoot rightRoot : ObjectId} (leftExist : leftRoot.index < left.objects.size)
  (rightExist : rightRoot.index < right.objects.size)
include leftForest rightForest

/-- Attributes that are not identifiers have a single value, which is recorded. -/
theorem values_eq_of_recorded_eq {object other : ObjectId} {feature : Metafeature}
    (classes : classOf left object = classOf right other) (storage : feature.storage = .attribute)
    (kept : feature ∉ Options.standardIgnoredFeatures)
    (same : feature ∈ recorded (classOf left object) →
      left.value? object feature = right.value? other feature) :
    right.values other feature = left.values object feature := by
  by_cases listed : feature ∈ recorded (classOf left object)
  · have single : feature.isMany = false := by
      revert storage kept
      cases feature <;> decide
    exact eq_of_head?_eq (rightForest.length_values_le single)
      (leftForest.length_values_le single) (same listed).symm
  · rw [values_eq_nil_of_not_recorded leftForest kept listed,
      values_eq_nil_of_not_recorded rightForest kept (classes ▸ listed)]

/-- What corresponding slots contain stands at the same positions. -/
theorem place_eq_of_references_eq {object owner : ObjectId} {feature : Metafeature}
    (inside : object ∈ left.containmentTree leftRoot)
    (contained : left.containment? object = some (owner, feature)) {rename : ObjectId → ObjectId}
    (agree : List.Forall₂ (Corresponds left (left.containmentTree leftRoot) right
      (right.containmentTree rightRoot)) (references left owner feature)
      (references right (rename owner) feature)) :
    ∃ position : Nat,
      right.containment? (counterpart (left.containmentTree leftRoot)
        (right.containmentTree rightRoot) object) = some (rename owner, feature) ∧
      (left.values owner feature)[position]? = some (Value.object object) ∧
      (right.values (rename owner) feature)[position]? = some (Value.object (counterpart
        (left.containmentTree leftRoot) (right.containmentTree rightRoot) object)) := by
  have storage := leftForest.container_fits contained
  rw [references_of_containment leftForest storage,
    references_of_containment rightForest storage] at agree
  rcases List.mem_iff_getElem.mp (leftForest.mem_values contained) with ⟨position, below, found⟩
  have belowToo : position < (right.values (rename owner) feature).length :=
    agree.length_eq ▸ below
  have corresponds := agree.get below belowToo
  rw [List.get_eq_getElem, List.get_eq_getElem] at corresponds
  dsimp only at corresponds
  rw [found] at corresponds
  have counterpartThere : (right.values (rename owner) feature)[position] =
      .object (counterpart (left.containmentTree leftRoot) (right.containmentTree rightRoot)
        object) := by
    generalize (right.values (rename owner) feature)[position] = value at corresponds
    cases corresponds with
    | inside => rfl
    | outside outside => exact absurd inside outside
  refine ⟨position, ?_, ?_, ?_⟩
  · refine (rightForest.mem_objectValues_iff storage _ _).mp ?_
    rw [Model.mem_objectValues_iff, ← counterpartThere]
    exact List.getElem_mem belowToo
  · rw [List.getElem?_eq_getElem below, found]
  · rw [List.getElem?_eq_getElem belowToo, counterpartThere]

/-- Where recorded targets agree, all references correspond: those of derived features are
not recorded, but there are none. -/
theorem references_correspond
    (lengths : (left.containmentTree leftRoot).length = (right.containmentTree rightRoot).length)
    {object other : ObjectId}
    (targets : ∀ feature, feature ∈ recorded (classOf left object) →
      feature.storage ≠ .attribute →
        (ObjectRecord.referenceValues left object feature).filterMap
            (Target.of? left (left.containmentTree leftRoot)) =
          (ObjectRecord.referenceValues right other feature).filterMap
            (Target.of? right (right.containmentTree rightRoot)))
    {metaclass : Metaclass} (known : left.metaclass? object = some metaclass)
    {feature : Metafeature} (has : feature ∈ metaclass.features)
    (notAttribute : feature.storage ≠ .attribute) :
    List.Forall₂ (Corresponds left (left.containmentTree leftRoot) right
      (right.containmentTree rightRoot)) (references left object feature)
      (references right other feature) := by
  cases derived : feature.isDerived with
  | true =>
      rw [references_of_isDerived leftForest notAttribute derived,
        references_of_isDerived rightForest notAttribute derived]
      exact .nil
  | false =>
      have kept : feature ∉ Options.standardIgnoredFeatures := by
        revert notAttribute
        cases feature <;> decide
      refine (targets_eq_iff lengths (leftForest.containmentTree_nodup leftRoot)
        (rightForest.containmentTree_nodup rightRoot) _ _).mp (targets feature ?_ notAttribute)
      rw [classOf, known, Option.getD_some, mem_recorded_iff]
      exact ⟨has, derived, kept⟩

include leftExist rightExist

/-- Trees with equal snapshots are isomorphic, and isomorphic trees of the same size
have equal snapshots. -/
theorem ofTree_eq_iff_isomorphic :
    ofTree left (left.containmentTree leftRoot) = ofTree right (right.containmentTree rightRoot) ↔
      (left.containmentTree leftRoot).length = (right.containmentTree rightRoot).length ∧
        Isomorphic left leftRoot right rightRoot
          (counterpart (left.containmentTree leftRoot) (right.containmentTree rightRoot)) := by
  have leftNodup := leftForest.containmentTree_nodup leftRoot
  have rightNodup := rightForest.containmentTree_nodup rightRoot
  rw [ofTree_eq_iff leftNodup]
  refine and_congr_right fun lengths => ?_
  constructor
  · intro records
    have alike := fun object inside => recordOf_eq_iff.mp (records object inside)
    have agree : ∀ {object}, object ∈ left.containmentTree leftRoot → ∀ {metaclass},
        left.metaclass? object = some metaclass → ∀ {feature}, feature ∈ metaclass.features →
          feature.storage ≠ .attribute →
            List.Forall₂ (Corresponds left (left.containmentTree leftRoot) right
              (right.containmentTree rightRoot)) (references left object feature)
              (references right (counterpart (left.containmentTree leftRoot)
                (right.containmentTree rightRoot) object) feature) :=
      fun inside _ known _ has notAttribute => references_correspond leftForest rightForest
        lengths (alike _ inside).2.2 known has notAttribute
    refine ⟨bijOn_counterpart lengths leftNodup rightNodup, ?_, ?_, ?_, agree⟩
    · intro object inside
      rw [metaclass?_eq_classOf leftForest leftExist inside,
        metaclass?_eq_classOf rightForest rightExist (counterpart_mem lengths leftNodup inside),
        (alike object inside).1]
    · intro object inside feature storage kept
      exact values_eq_of_recorded_eq leftForest rightForest (alike object inside).1 storage kept
        fun listed => (alike object inside).2.1 feature listed storage
    · intro object inside different
      have inTree := inside
      rw [leftForest.containmentTree_eq] at inTree
      rcases Model.mem_preorder_cases leftForest leftForest.contents_descend inTree with
        same | ⟨owner, ownerInside, below⟩
      · exact absurd same different
      · rw [← leftForest.containmentTree_eq] at ownerInside
        rcases Option.map_eq_some_iff.mp ((leftForest.mem_contents_iff owner object).mp below) with
          ⟨⟨place, feature⟩, contained, rfl⟩
        rcases leftForest.holder_fits (leftForest.mem_values contained) with
          ⟨metaclass, known, listed⟩
        have notAttribute : feature.storage ≠ .attribute := by
          rw [leftForest.container_fits contained]
          decide
        rcases place_eq_of_references_eq leftForest rightForest inside contained
          (agree ownerInside known (List.mem_of_mem_filter listed) notAttribute) with
          ⟨position, containedToo, here, there⟩
        exact ⟨place, feature, position, ownerInside, contained, containedToo, here, there⟩
  · intro isomorphic object inside
    have known := metaclass?_eq_classOf leftForest leftExist inside
    refine recordOf_eq_iff.mpr ⟨?_, ?_, ?_⟩
    · rw [classOf, classOf, isomorphic.metaclass_eq inside]
    · intro feature listed storage
      have kept := ((mem_recorded_iff _ feature).mp listed).2.2
      rw [Model.value?, Model.value?, isomorphic.attribute_eq inside storage kept]
    · intro feature listed notAttribute
      exact (targets_eq_iff lengths leftNodup rightNodup _ _).mpr
        (isomorphic.references_eq inside known (List.mem_of_mem_filter listed) notAttribute)

end Matching

/-- The snapshot of a tree in a model that creation and writing can produce. -/
structure Captured where
  snapshot : Snapshot
  taken : ∃ model root, Model.Reachable model ∧ root.index < model.objects.size ∧
    capture model root = .ok snapshot

theorem Captured.isMatch_iff (first second : Captured) :
    first.snapshot.isMatch second.snapshot = true ↔ first.snapshot = second.snapshot := by
  rcases first with ⟨expected, model, root, reachable, exist, taken⟩
  rcases second with ⟨actual, model', root', reachable', exist', taken'⟩
  cases taken.symm.trans (capture_eq_ofTree reachable.forest exist)
  cases taken'.symm.trans (capture_eq_ofTree reachable'.forest exist')
  exact isMatch_ofTree_iff

/-- Existing roots have snapshots.  They match exactly when the trees have the same size
and going to the object at the same position is an isomorphism, and then no captured
snapshot tells them apart.  Matching is an equivalence of captured snapshots. -/
theorem isMatch_iff_isomorphic {left right : Model} (leftReachable : left.Reachable)
    (rightReachable : right.Reachable) {leftRoot rightRoot : ObjectId}
    (leftExist : leftRoot.index < left.objects.size)
    (rightExist : rightRoot.index < right.objects.size) :
    (∃ expected actual, capture left leftRoot = .ok expected ∧
      capture right rightRoot = .ok actual ∧
      (expected.isMatch actual = true ↔
        (left.containmentTree leftRoot).length = (right.containmentTree rightRoot).length ∧
          Isomorphic left leftRoot right rightRoot
            (counterpart (left.containmentTree leftRoot) (right.containmentTree rightRoot))) ∧
      (expected.isMatch actual = true → ∀ other : Captured,
        expected.isMatch other.snapshot = actual.isMatch other.snapshot ∧
          other.snapshot.isMatch expected = other.snapshot.isMatch actual)) ∧
    Equivalence fun first second : Captured =>
      first.snapshot.isMatch second.snapshot = true := by
  have leftForest := leftReachable.forest
  have rightForest := rightReachable.forest
  constructor
  · refine ⟨_, _, capture_eq_ofTree leftForest leftExist,
      capture_eq_ofTree rightForest rightExist, ?_, ?_⟩
    · rw [isMatch_ofTree_iff]
      exact ofTree_eq_iff_isomorphic leftForest rightForest leftExist rightExist
    · intro same other
      rw [isMatch_ofTree_iff.mp same]
      exact ⟨rfl, rfl⟩
  · refine ⟨?_, ?_, ?_⟩
    · intro first
      exact (first.isMatch_iff first).mpr rfl
    · intro first second same
      exact (second.isMatch_iff first).mpr ((first.isMatch_iff second).mp same).symm
    · intro first second third same sameToo
      exact (first.isMatch_iff third).mpr
        (((first.isMatch_iff second).mp same).trans ((second.isMatch_iff third).mp sameToo))

/-- A part with its definition, which is created first. -/
def definitionFirst : ModelDraft :=
  let draft := (ModelDraft.initial.partDefinition ModelDraft.root "Wheel").2
  let draft := (draft.part ModelDraft.root (some "wheel")).2
  (draft.typedBy ⟨3⟩ (.object ⟨1⟩)).2

/-- The same part with the same definition, which is created last. -/
def definitionLast : ModelDraft :=
  let draft := (ModelDraft.initial.part ModelDraft.root (some "wheel")).2
  let draft := (draft.partDefinition ModelDraft.root "Wheel").2
  (draft.typedBy ⟨1⟩ (.object ⟨3⟩)).2

theorem definitionFirst_reachable : definitionFirst.model.Reachable :=
  ModelDraft.reachable_typedBy (ModelDraft.reachable_member (ModelDraft.reachable_member
    ModelDraft.reachable_initial _ _ _ _) _ _ _ _) _ _

theorem definitionLast_reachable : definitionLast.model.Reachable :=
  ModelDraft.reachable_typedBy (ModelDraft.reachable_member (ModelDraft.reachable_member
    ModelDraft.reachable_initial _ _ _ _) _ _ _ _) _ _

/-- The part and its typing are the same tree in both models, though all ids differ and
the definition lies outside the tree. -/
theorem isMatch_iff_isomorphic_wheel :
    Isomorphic definitionFirst.model ⟨3⟩ definitionLast.model ⟨1⟩
      (counterpart (definitionFirst.model.containmentTree ⟨3⟩)
        (definitionLast.model.containmentTree ⟨1⟩)) := by
  have firstExists : (ObjectId.mk 3).index < definitionFirst.model.objects.size := by
    decide +kernel
  have lastExists : (ObjectId.mk 1).index < definitionLast.model.objects.size := by
    decide +kernel
  have matched : (ofTree definitionFirst.model (definitionFirst.model.containmentTree ⟨3⟩)).isMatch
      (ofTree definitionLast.model (definitionLast.model.containmentTree ⟨1⟩)) = true := by
    decide +kernel
  rcases (isMatch_iff_isomorphic definitionFirst_reachable definitionLast_reachable firstExists
    lastExists).1 with ⟨expected, actual, expectedTaken, actualTaken, exact, _⟩
  cases expectedTaken.symm.trans
    (capture_eq_ofTree definitionFirst_reachable.forest firstExists)
  cases actualTaken.symm.trans (capture_eq_ofTree definitionLast_reachable.forest lastExists)
  exact (exact.mp matched).2

end Snapshot

end ModelText
