import Mathlib.Data.List.Flatten
import Mathlib.Data.List.Nodup
import Mathlib.Logic.Relation
import ModelText.Proofs.Graph.Forest

namespace ModelText

/-!
# Walks over containment trees

A walk that goes from every place to places below it ends, because containment
is a forest: each level down makes the chain of containers one object longer, and
no chain is longer than the model.  A walk with enough fuel therefore obeys the
equation of its recursive specification.

The pre-order of a tree is such a walk.  It lists no object twice, since the
children of an object stand on chains of equal length.
-/

theorem Metaclass.features_nodup (metaclass : Metaclass) : metaclass.features.Nodup :=
  (by decide +kernel : Metafeature.all.Nodup).filter _

theorem Metaclass.storedFeatures_nodup (metaclass : Metaclass) :
    metaclass.storedFeatures.Nodup :=
  metaclass.features_nodup.filter _

namespace Model

variable {model : Model}

/-! ## Depth -/

/-- The number of objects on the way from an object to its root, both included. -/
def depth (model : Model) (id : ObjectId) : Nat := (model.containerChain id).length

theorem Forest.containerChain_of_container? (forest : Forest model) {child owner : ObjectId}
    (contained : model.container? child = some owner) :
    model.containerChain child = child :: model.containerChain owner :=
  (forest.containerChain_climbs child).unique
    (.inside contained (forest.containerChain_climbs owner))

theorem Forest.mem_containerChain_self (forest : Forest model) (id : ObjectId) :
    id ∈ model.containerChain id := by
  rcases (forest.containerChain_climbs id).head with ⟨above, split⟩
  rw [split]
  exact List.mem_cons_self

/-- The chain of an ancestor ends the chain of an object. -/
theorem Forest.containerChain_suffix (forest : Forest model) {ancestor id : ObjectId}
    (member : ancestor ∈ model.containerChain id) :
    model.containerChain ancestor <:+ model.containerChain id := by
  rcases (forest.containerChain_climbs id).of_mem member with ⟨below, above, split, climbs⟩
  rw [(forest.containerChain_climbs ancestor).unique climbs, split]
  exact List.suffix_append below above

theorem Forest.depth_child (forest : Forest model) {child owner : ObjectId}
    (contained : model.container? child = some owner) :
    model.depth child = model.depth owner + 1 := by
  rw [depth, forest.containerChain_of_container? contained, List.length_cons, depth]

/-- No chain is longer than the model, one unknown object aside. -/
theorem Forest.depth_le (forest : Forest model) (id : ObjectId) :
    model.depth id ≤ model.objects.size + 1 := by
  have climbs := forest.containerChain_climbs id
  rcases climbs.head with ⟨above, split⟩
  have nodup : above.Nodup := (List.nodup_cons.mp (split ▸ climbs.nodup)).2
  have short : above.length ≤ model.objects.size := by
    refine length_le_size nodup ?_
    intro ancestor member
    exact climbs.index_lt forest.container_exists (by rwa [split, List.tail_cons])
  rw [depth, split, List.length_cons]
  exact Nat.succ_le_succ short

theorem depth_pos (forest : Forest model) (id : ObjectId) : 0 < model.depth id :=
  List.length_pos_of_mem (forest.mem_containerChain_self id)

/-- Two ancestors of one object at the same depth are the same. -/
theorem Forest.eq_of_depth_eq (forest : Forest model) {first second id : ObjectId}
    (firstMember : first ∈ model.containerChain id)
    (secondMember : second ∈ model.containerChain id)
    (level : model.depth first = model.depth second) : first = second := by
  have suffix := List.suffix_of_suffix_length_le (forest.containerChain_suffix firstMember)
    (forest.containerChain_suffix secondMember) (Nat.le_of_eq level)
  have same := suffix.eq_of_length level
  rcases (forest.containerChain_climbs first).head with ⟨above, split⟩
  rcases (forest.containerChain_climbs second).head with ⟨above', split'⟩
  rw [split, split'] at same
  exact (List.cons.inj same).1

/-! ## Walks downwards -/

section Gather

variable {Place Entry : Type} {object : Place → ObjectId} {below : Place → List Place}
  {around : Place → List Entry → List Entry}

/-- What is gathered on a walk from a place: what the places below it gather, one
after the other, with the entries of the place around it.  The walk goes down at
most the given number of levels. -/
def gather (below : Place → List Place) (around : Place → List Entry → List Entry) :
    Nat → Place → List Entry
  | 0, _ => []
  | levels + 1, place => around place ((below place).flatMap (gather below around levels))

/-- The places below a place stand for objects that its object contains. -/
def Descends (model : Model) (object : Place → ObjectId) (below : Place → List Place) : Prop :=
  ∀ {place next : Place}, next ∈ below place →
    model.container? (object next) = some (object place)

/-- Induction from what is below a place to the place. -/
theorem Forest.descend (forest : Forest model) (descends : Descends model object below)
    (property : Place → Prop)
    (step : ∀ place, (∀ next, next ∈ below place → property next) → property place)
    (place : Place) : property place := by
  have level : ∀ levels place, model.objects.size + 1 < levels + model.depth (object place) →
      property place := by
    intro levels
    induction levels with
    | zero =>
        intro place deep
        have shallow := forest.depth_le (object place)
        omega
    | succ levels inductionHypothesis =>
        intro place deep
        apply step
        intro next member
        apply inductionHypothesis
        rw [forest.depth_child (descends member)]
        omega
  apply level (model.objects.size + 1)
  have positive := depth_pos forest (object place)
  omega

/-- Levels that reach the bottom gather everything. -/
theorem Forest.gather_eq_of_enough (forest : Forest model)
    (descends : Descends model object below) {levels more : Nat} {place : Place}
    (enough : model.objects.size + 1 < levels + model.depth (object place))
    (also : model.objects.size + 1 < more + model.depth (object place)) :
    gather below around levels place = gather below around more place := by
  have shallow := forest.depth_le (object place)
  induction levels generalizing more place with
  | zero => omega
  | succ levels inductionHypothesis =>
      cases more with
      | zero => omega
      | succ more =>
          rw [gather, gather]
          congr 1
          apply List.flatMap_congr
          intro next member
          have deeper := forest.depth_child (descends member)
          exact inductionHypothesis (by omega) (by omega) (forest.depth_le (object next))

/-- The equation of a walk over a forest. -/
theorem Forest.gather_eq (forest : Forest model) (descends : Descends model object below)
    (place : Place) :
    gather below around (model.objects.size + 1) place =
      around place ((below place).flatMap
        (gather below around (model.objects.size + 1))) := by
  rw [gather]
  congr 1
  apply List.flatMap_congr
  intro next member
  have deeper := forest.depth_child (descends member)
  have positive := depth_pos forest (object place)
  exact forest.gather_eq_of_enough descends (by omega) (by omega)

end Gather

/-! ## Pre-order -/

section Preorder

variable {children : ObjectId → List ObjectId}

/-- An object followed by the trees of its children. -/
def preorder (model : Model) (children : ObjectId → List ObjectId) (id : ObjectId) :
    List ObjectId :=
  gather children List.cons (model.objects.size + 1) id

variable (forest : Forest model)
  (descends : Descends model (fun id : ObjectId => id) children)
include forest descends

theorem preorder_eq (id : ObjectId) :
    model.preorder children id = id :: (children id).flatMap (model.preorder children) :=
  forest.gather_eq descends id

theorem mem_preorder_self (id : ObjectId) : id ∈ model.preorder children id := by
  rw [preorder_eq forest descends]
  exact List.mem_cons_self

/-- A tree lies below its root. -/
theorem mem_containerChain_of_mem_preorder {root id : ObjectId}
    (member : id ∈ model.preorder children root) : root ∈ model.containerChain id := by
  revert member
  apply forest.descend descends
    (fun root => id ∈ model.preorder children root → root ∈ model.containerChain id)
  intro root inductionHypothesis member
  rw [preorder_eq forest descends] at member
  rcases List.mem_cons.mp member with same | further
  · rw [same]
    exact forest.mem_containerChain_self root
  · rcases List.mem_flatMap.mp further with ⟨child, below, inside⟩
    have onChain := inductionHypothesis child below inside
    refine (forest.containerChain_suffix onChain).subset ?_
    rw [forest.containerChain_of_container? (descends below)]
    exact List.mem_cons_of_mem _ (forest.mem_containerChain_self root)

theorem preorder_nodup (nodup : ∀ id, (children id).Nodup) (root : ObjectId) :
    (model.preorder children root).Nodup := by
  apply forest.descend descends (fun root => (model.preorder children root).Nodup)
  intro root inductionHypothesis
  rw [preorder_eq forest descends]
  refine List.nodup_cons.mpr ⟨?_, ?_⟩
  · intro again
    rcases List.mem_flatMap.mp again with ⟨child, below, inside⟩
    have onChain := mem_containerChain_of_mem_preorder forest descends inside
    have shorter := (forest.containerChain_suffix onChain).length_le
    have deeper : model.depth child = model.depth root + 1 := forest.depth_child (descends below)
    rw [depth, depth] at deeper
    omega
  · refine List.nodup_flatMap.mpr ⟨inductionHypothesis, ?_⟩
    refine (nodup root).imp_of_mem ?_
    intro first second firstBelow secondBelow different id inFirst inSecond
    apply different
    refine forest.eq_of_depth_eq (mem_containerChain_of_mem_preorder forest descends inFirst)
      (mem_containerChain_of_mem_preorder forest descends inSecond) ?_
    rw [forest.depth_child (descends firstBelow), forest.depth_child (descends secondBelow)]

/-- The tree of an object of a tree is a part of it without gaps. -/
theorem preorder_contiguous {root id : ObjectId} (member : id ∈ model.preorder children root) :
    model.preorder children id <:+: model.preorder children root := by
  revert member
  apply forest.descend descends (fun root =>
    id ∈ model.preorder children root →
      model.preorder children id <:+: model.preorder children root)
  intro root inductionHypothesis member
  have whole := preorder_eq forest descends root
  rw [whole] at member
  rcases List.mem_cons.mp member with rfl | further
  · exact List.infix_refl _
  · rcases List.mem_flatMap.mp further with ⟨child, below, inside⟩
    have part : model.preorder children child <:+:
        (children root).flatMap (model.preorder children) := by
      rw [List.flatMap_def]
      exact List.infix_of_mem_flatten (List.mem_map_of_mem below)
    rw [whole]
    exact (inductionHypothesis child below inside).trans (part.trans (List.suffix_cons _ _).isInfix)

/-- The children of an object of a tree stand in the tree in their order. -/
theorem children_sublist_preorder {root id : ObjectId}
    (member : id ∈ model.preorder children root) :
    (children id).Sublist (model.preorder children root) := by
  have heads : ∀ listed : List ObjectId,
      listed.Sublist (listed.flatMap (model.preorder children)) := by
    intro listed
    induction listed with
    | nil => exact List.Sublist.refl []
    | cons child rest inductionHypothesis =>
        rw [List.flatMap_cons, preorder_eq forest descends child, List.cons_append]
        exact (inductionHypothesis.trans (List.sublist_append_right _ _)).cons_cons child
  have below : (children id).Sublist (model.preorder children id) := by
    rw [preorder_eq forest descends id]
    exact (heads (children id)).cons id
  exact below.trans (preorder_contiguous forest descends member).sublist

theorem mem_preorder_cases {root id : ObjectId} (member : id ∈ model.preorder children root) :
    id = root ∨ ∃ owner, owner ∈ model.preorder children root ∧ id ∈ children owner := by
  revert member
  apply forest.descend descends (fun root =>
    id ∈ model.preorder children root →
      id = root ∨ ∃ owner, owner ∈ model.preorder children root ∧ id ∈ children owner)
  intro root inductionHypothesis member
  have whole := preorder_eq forest descends root
  rw [whole] at member
  rcases List.mem_cons.mp member with same | further
  · exact Or.inl same
  · right
    rcases List.mem_flatMap.mp further with ⟨child, below, inside⟩
    rcases inductionHypothesis child below inside with rfl | ⟨owner, ownerMember, listed⟩
    · exact ⟨root, mem_preorder_self forest descends root, below⟩
    · refine ⟨owner, ?_, listed⟩
      rw [whole]
      exact List.mem_cons_of_mem _ (List.mem_flatMap.mpr ⟨child, below, ownerMember⟩)

/-- A tree consists of what its root leads to, one child after the other. -/
theorem mem_preorder_iff (root id : ObjectId) :
    id ∈ model.preorder children root ↔
      Relation.ReflTransGen (fun owner child => child ∈ children owner) root id := by
  constructor
  · apply forest.descend descends (fun root => id ∈ model.preorder children root →
      Relation.ReflTransGen (fun owner child => child ∈ children owner) root id)
    intro root inductionHypothesis member
    rw [preorder_eq forest descends] at member
    rcases List.mem_cons.mp member with rfl | further
    · exact .refl
    · rcases List.mem_flatMap.mp further with ⟨child, below, inside⟩
      exact (inductionHypothesis child below inside).head below
  · intro leads
    induction leads with
    | refl => exact mem_preorder_self forest descends root
    | tail _ below inductionHypothesis =>
        exact (children_sublist_preorder forest descends inductionHypothesis).subset below

/-- Leaving out children leaves out parts of the tree and keeps its order. -/
theorem preorder_sublist {fewer : ObjectId → List ObjectId}
    (part : ∀ id, (fewer id).Sublist (children id)) (root : ObjectId) :
    (model.preorder fewer root).Sublist (model.preorder children root) := by
  have descendsFewer : Descends model (fun id : ObjectId => id) fewer :=
    fun below => descends ((part _).subset below)
  apply forest.descend descends
    (fun root => (model.preorder fewer root).Sublist (model.preorder children root))
  intro root inductionHypothesis
  rw [preorder_eq forest descends, preorder_eq forest descendsFewer]
  refine List.Sublist.cons_cons root ?_
  refine (List.Sublist.flatMap_right _ ?_).trans ((part root).flatMap _)
  intro child below
  exact inductionHypothesis child ((part root).subset below)

theorem index_lt_of_mem_preorder {root id : ObjectId}
    (exist : root.index < model.objects.size) (member : id ∈ model.preorder children root) :
    id.index < model.objects.size := by
  rcases mem_preorder_cases forest descends member with rfl | ⟨owner, _, below⟩
  · exact exist
  · rcases Option.map_eq_some_iff.mp (descends below) with ⟨place, contained, _⟩
    exact index_lt_of_containment? contained

end Preorder

/-! ## The containment tree -/

section Contents

/-- What a containment slot holds are the objects that name it. -/
theorem Forest.mem_objectValues_iff (forest : Forest model) {feature : Metafeature}
    (storage : feature.storage = .containment) (owner child : ObjectId) :
    child ∈ model.objectValues owner feature ↔
      model.containment? child = some (owner, feature) := by
  rw [Model.mem_objectValues_iff]
  have count := forest.child_count owner feature child storage
  constructor
  · intro member
    have positive := List.count_pos_iff.mpr member
    rw [count] at positive
    by_cases named : model.containment? child = some (owner, feature)
    · exact named
    · rw [if_neg named] at positive
      exact absurd positive (Nat.lt_irrefl 0)
  · exact forest.mem_values

private theorem count_filterMap_object? (stored : List Value) (child : ObjectId) :
    (stored.filterMap Value.object?).count child = stored.count (.object child) := by
  induction stored with
  | nil => rfl
  | cons value rest inductionHypothesis =>
      cases value <;>
        simp [List.filterMap_cons, Value.object?, List.count_cons, inductionHypothesis]

theorem Forest.objectValues_nodup (forest : Forest model) {feature : Metafeature}
    (storage : feature.storage = .containment) (owner : ObjectId) :
    (model.objectValues owner feature).Nodup := by
  rw [List.nodup_iff_count_le_one]
  intro child
  rw [objectValues, count_filterMap_object?, forest.child_count owner feature child storage]
  split <;> omega

theorem Forest.values_eq_map_objectValues (forest : Forest model) {feature : Metafeature}
    (storage : feature.storage = .containment) (owner : ObjectId) :
    model.values owner feature = (model.objectValues owner feature).map Value.object := by
  have objects : ∀ value, value ∈ model.values owner feature →
      ∃ child, value = .object child := by
    intro value member
    rcases forest.child_exists storage member with ⟨child, isObject, _⟩
    exact ⟨child, isObject⟩
  unfold objectValues
  revert objects
  generalize model.values owner feature = stored
  intro objects
  induction stored with
  | nil => rfl
  | cons value rest inductionHypothesis =>
      rcases objects value List.mem_cons_self with ⟨child, rfl⟩
      have further := inductionHypothesis fun other member =>
        objects other (List.mem_cons_of_mem _ member)
      exact congrArg (Value.object child :: ·) further

theorem Forest.mem_contents_iff (forest : Forest model) (owner child : ObjectId) :
    child ∈ model.contents owner ↔ model.container? child = some owner := by
  constructor
  · intro member
    unfold contents at member
    split at member
    · cases member
    · rcases List.mem_flatMap.mp member with ⟨feature, listed, inside⟩
      have storage := beq_iff_eq.mp (List.mem_filter.mp listed).2
      rw [container?, (forest.mem_objectValues_iff storage owner child).mp inside]
      rfl
  · intro contained
    rcases Option.map_eq_some_iff.mp contained with ⟨⟨place, feature⟩, named, rfl⟩
    have storage := forest.container_fits named
    have inside := (forest.mem_objectValues_iff storage place child).mpr named
    have stored := forest.mem_values named
    cases slotted : model.slot? place feature with
    | none => rw [values_eq_nil_of_slot? slotted] at stored; cases stored
    | some slot =>
        rcases (forest.slot_fits slotted).1 with ⟨metaclass, known, has⟩
        rw [contents, known]
        refine List.mem_flatMap.mpr ⟨feature, ?_, inside⟩
        rw [List.mem_filter, Metaclass.mem_features_iff, beq_iff_eq]
        exact ⟨has, storage⟩

theorem Forest.contents_nodup (forest : Forest model) (owner : ObjectId) :
    (model.contents owner).Nodup := by
  unfold contents
  split
  · exact List.nodup_nil
  · next metaclass _ =>
      refine List.nodup_flatMap.mpr ⟨?_, ?_⟩
      · intro feature listed
        exact forest.objectValues_nodup (beq_iff_eq.mp (List.mem_filter.mp listed).2) owner
      · refine (metaclass.features_nodup.filter _).imp_of_mem ?_
        intro first second firstListed secondListed different child inFirst inSecond
        have firstStorage := beq_iff_eq.mp (List.mem_filter.mp firstListed).2
        have secondStorage := beq_iff_eq.mp (List.mem_filter.mp secondListed).2
        have named := (forest.mem_objectValues_iff firstStorage owner child).mp inFirst
        rw [(forest.mem_objectValues_iff secondStorage owner child).mp inSecond] at named
        exact different (Prod.mk.inj (Option.some.inj named)).2.symm

theorem Forest.contents_descend (forest : Forest model) :
    Descends model (fun id => id) model.contents := by
  intro owner child member
  exact (forest.mem_contents_iff owner child).mp member

/-- The objects around an object are those that it lies below. -/
theorem Forest.mem_containerChain_iff (forest : Forest model) (ancestor id : ObjectId) :
    ancestor ∈ model.containerChain id ↔
      Relation.ReflTransGen (fun owner child => child ∈ model.contents owner) ancestor id := by
  constructor
  · intro member
    have climbs := forest.containerChain_climbs id
    generalize model.containerChain id = chain at climbs member
    induction climbs with
    | root _ =>
        rw [List.mem_singleton.mp member]
    | @inside id owner chain contained _ inductionHypothesis =>
        rcases List.mem_cons.mp member with same | further
        · rw [same]
        · have inside := (forest.mem_contents_iff owner id).mpr contained
          exact (inductionHypothesis further).tail inside
  · intro below
    induction below with
    | refl => exact forest.mem_containerChain_self ancestor
    | @tail owner child _ inside inductionHypothesis =>
        rw [forest.containerChain_of_container? ((forest.mem_contents_iff owner child).mp inside)]
        exact List.mem_cons_of_mem child inductionHypothesis

/-- Pending objects are visited tree by tree. -/
theorem Forest.visit_eq_take (forest : Forest model) (limit : Nat) (pending : List ObjectId) :
    model.visit limit pending =
      (pending.flatMap (model.preorder model.contents)).take limit := by
  induction limit generalizing pending with
  | zero => rfl
  | succ limit inductionHypothesis =>
      cases pending with
      | nil => rfl
      | cons id pending =>
          rw [visit, inductionHypothesis, List.flatMap_append, List.flatMap_cons,
            preorder_eq forest forest.contents_descend id, List.cons_append,
            List.take_succ_cons]

/-- The containment tree of an object is its pre-order. -/
theorem Forest.containmentTree_eq (forest : Forest model) (root : ObjectId) :
    model.containmentTree root = model.preorder model.contents root := by
  rw [containmentTree, forest.visit_eq_take, List.flatMap_singleton]
  apply List.take_of_length_le
  rw [preorder_eq forest forest.contents_descend, List.length_cons]
  apply Nat.succ_le_succ
  have nodup := preorder_nodup forest forest.contents_descend forest.contents_nodup root
  rw [preorder_eq forest forest.contents_descend] at nodup
  refine length_le_size (List.nodup_cons.mp nodup).2 ?_
  intro id member
  rcases List.mem_flatMap.mp member with ⟨child, below, inside⟩
  refine index_lt_of_mem_preorder forest forest.contents_descend ?_ inside
  rcases Option.map_eq_some_iff.mp (forest.contents_descend below) with ⟨place, contained, _⟩
  exact index_lt_of_containment? contained

/-- A tree is its root followed by the trees of what the root contains. -/
theorem Forest.containmentTree_eq_cons (forest : Forest model) (root : ObjectId) :
    model.containmentTree root =
      root :: (model.contents root).flatMap model.containmentTree := by
  have trees : model.containmentTree = model.preorder model.contents :=
    funext forest.containmentTree_eq
  rw [trees]
  exact preorder_eq forest forest.contents_descend root

theorem Forest.containmentTree_nodup (forest : Forest model) (root : ObjectId) :
    (model.containmentTree root).Nodup := by
  rw [forest.containmentTree_eq]
  exact preorder_nodup forest forest.contents_descend forest.contents_nodup root

theorem Forest.head?_containmentTree (forest : Forest model) (root : ObjectId) :
    (model.containmentTree root).head? = some root := by
  rw [forest.containmentTree_eq, preorder_eq forest forest.contents_descend]
  rfl

theorem Forest.mem_containmentTree_self (forest : Forest model) (root : ObjectId) :
    root ∈ model.containmentTree root :=
  List.mem_of_mem_head? (forest.head?_containmentTree root)

theorem Forest.index_lt_of_mem_containmentTree (forest : Forest model) {root id : ObjectId}
    (exist : root.index < model.objects.size) (inside : id ∈ model.containmentTree root) :
    id.index < model.objects.size := by
  rw [forest.containmentTree_eq] at inside
  exact index_lt_of_mem_preorder forest forest.contents_descend exist inside

end Contents

end Model

end ModelText
