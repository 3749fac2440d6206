import Mathlib.Data.List.Nodup
import Mathlib.Data.List.Perm.Basic
import Mathlib.Logic.Relation
import ModelText.Proofs.Graph.Renaming
import ModelText.Proofs.Graph.Tree

namespace ModelText

/-!
# Containment trees partition a model

The objects below an object can be listed without recursion, with a stack of objects that
wait to be visited.  No visited object is remembered, so it is the forest of containments
that makes the walk end and keeps it from visiting an object twice.  While the walk goes on,
the stack stands for the trees of its objects, the last one first; so what the walk lists is
the pre-order of the recursive definition.

Every object climbs to exactly one object without a container.  The trees of these objects
therefore share nothing and leave nothing out.
-/

namespace Model

variable {model : Model}

/-! ## Walks with a stack -/

/-- A walk takes the last object of its stack and puts the contents of the object there
instead, the first of them last, until the stack is empty.  It lists the objects in the order
in which it takes them. -/
inductive Walks (model : Model) : List ObjectId → List ObjectId → Prop where
  | done : Walks model [] []
  | take {stack order : List ObjectId} {id : ObjectId} :
      Walks model (stack ++ (model.contents id).reverse) order →
        Walks model (stack ++ [id]) (id :: order)

namespace Walks

variable {stack order other : List ObjectId}

/-- How a walk goes on depends on its stack. -/
theorem inversion (walks : Walks model stack order) :
    (stack = [] ∧ order = []) ∨ ∃ below id rest, stack = below ++ [id] ∧ order = id :: rest ∧
      Walks model (below ++ (model.contents id).reverse) rest := by
  cases walks with
  | done => exact Or.inl ⟨rfl, rfl⟩
  | @take below rest id further => exact Or.inr ⟨below, id, rest, rfl, rfl, further⟩

theorem unique (walks : Walks model stack order) (also : Walks model stack other) :
    order = other := by
  induction walks generalizing other with
  | done =>
      rcases also.inversion with ⟨_, rfl⟩ | ⟨below, id, _, impossible, _⟩
      · rfl
      · exact absurd impossible.symm (List.append_ne_nil_of_right_ne_nil _ (List.cons_ne_nil _ _))
  | @take below rest id _ inductionHypothesis =>
      rcases also.inversion with ⟨impossible, _⟩ | ⟨below', id', rest', same, rfl, further⟩
      · exact absurd impossible (List.append_ne_nil_of_right_ne_nil _ (List.cons_ne_nil _ _))
      · obtain ⟨rfl, sameTop⟩ := List.append_inj' same rfl
        cases sameTop
        rw [inductionHypothesis further]

end Walks

/-- A walk lists the tree of the object on top of its stack before it goes on below. -/
theorem Forest.walks_cons (forest : Forest model) (id : ObjectId) :
    ∀ {pending order : List ObjectId}, Walks model pending.reverse order →
      Walks model (id :: pending).reverse (model.preorder model.contents id ++ order) := by
  apply forest.descend forest.contents_descend (fun id => ∀ {pending order : List ObjectId},
    Walks model pending.reverse order →
      Walks model (id :: pending).reverse (model.preorder model.contents id ++ order))
  intro id inductionHypothesis pending order walks
  have below : ∀ listed : List ObjectId, (∀ child ∈ listed, child ∈ model.contents id) →
      Walks model (listed ++ pending).reverse
        (listed.flatMap (model.preorder model.contents) ++ order) := by
    intro listed inside
    induction listed with
    | nil => exact walks
    | cons child rest further =>
        rw [List.flatMap_cons, List.append_assoc]
        exact inductionHypothesis child (inside child List.mem_cons_self)
          (further fun other member => inside other (List.mem_cons_of_mem _ member))
  rw [List.reverse_cons, preorder_eq forest forest.contents_descend, List.cons_append]
  apply Walks.take
  rw [← List.reverse_append]
  exact below (model.contents id) fun _ member => member

/-- A walk that begins with one object ends, and lists its containment tree. -/
theorem Forest.walks_iff (forest : Forest model) (root : ObjectId) (order : List ObjectId) :
    Walks model [root] order ↔ order = model.containmentTree root := by
  have finished : Walks model ([] : List ObjectId).reverse [] := .done
  have walks := forest.walks_cons root finished
  rw [List.append_nil, ← forest.containmentTree_eq] at walks
  constructor
  · exact fun also => also.unique walks
  · rintro rfl
    exact walks

/-! ## Trees and the way upwards -/

/-- A tree holds the objects that have its root around them. -/
theorem Forest.mem_containmentTree_iff (forest : Forest model) (root id : ObjectId) :
    id ∈ model.containmentTree root ↔ root ∈ model.containerChain id := by
  rw [forest.containmentTree_eq, mem_preorder_iff forest forest.contents_descend,
    forest.mem_containerChain_iff]

theorem Forest.mem_containmentTree_iff_climbs (forest : Forest model) (root id : ObjectId) :
    id ∈ model.containmentTree root ↔
      Relation.ReflTransGen (fun child owner => model.container? child = some owner) id root := by
  rw [forest.mem_containmentTree_iff, forest.mem_containerChain_iff,
    ← Relation.reflTransGen_swap]
  simp only [forest.mem_contents_iff]

/-! ## The trees of the roots -/

/-- Whoever climbs arrives at an object without a container. -/
theorem Climbs.exists_root {id : ObjectId} {chain : List ObjectId}
    (climbs : Climbs model id chain) : ∃ root ∈ chain, model.container? root = none := by
  induction climbs with
  | @root id uncontained => exact ⟨id, List.mem_cons_self, uncontained⟩
  | inside _ _ inductionHypothesis =>
      obtain ⟨root, member, uncontained⟩ := inductionHypothesis
      exact ⟨root, List.mem_cons_of_mem _ member, uncontained⟩

theorem Forest.map_id_objects (forest : Forest model) :
    model.objects.toList.map Object.id = model.ids := by
  apply List.ext_getElem
  · simp [ids]
  · intro position inObjects _
    have inside : position < model.objects.size := by simpa using inObjects
    have found : model.get? ⟨position⟩ = some model.objects[position] :=
      Array.getElem?_eq_getElem inside
    simp [ids, forest.id_eq found]

theorem Forest.mem_roots_iff (forest : Forest model) (root : ObjectId) :
    root ∈ model.roots ↔ root ∈ model.ids ∧ model.container? root = none := by
  rw [roots, List.mem_map]
  constructor
  · rintro ⟨object, kept, rfl⟩
    obtain ⟨stored, uncontained⟩ := List.mem_filter.mp kept
    obtain ⟨position, here⟩ := Array.mem_iff_getElem?.mp (Array.mem_toList_iff.mp stored)
    have found : model.get? ⟨position⟩ = some object := here
    rw [forest.id_eq found, mem_ids_iff, ← isSome_get?_iff, container?, containment?, found,
      Option.bind_some, Option.isNone_iff_eq_none.mp uncontained]
    exact ⟨rfl, rfl⟩
  · rintro ⟨listed, uncontained⟩
    rw [mem_ids_iff, ← isSome_get?_iff, Option.isSome_iff_exists] at listed
    obtain ⟨object, found⟩ := listed
    rw [container?, containment?, found, Option.bind_some, Option.map_eq_none_iff] at uncontained
    refine ⟨object, List.mem_filter.mpr ⟨?_, Option.isNone_iff_eq_none.mpr uncontained⟩,
      forest.id_eq found⟩
    exact Array.mem_toList_iff.mpr (Array.mem_of_getElem? found)

theorem Forest.roots_nodup (forest : Forest model) : model.roots.Nodup := by
  have part : model.roots.Sublist model.ids := by
    rw [← forest.map_id_objects]
    exact List.filter_sublist.map Object.id
  exact part.nodup model.ids_nodup

theorem Forest.containerChain_of_uncontained (forest : Forest model) {root : ObjectId}
    (uncontained : model.container? root = none) : model.containerChain root = [root] :=
  (forest.containerChain_climbs root).unique (.root uncontained)

/-- No object is in the trees of two roots. -/
theorem Forest.flatMap_roots_nodup (forest : Forest model) :
    (model.roots.flatMap model.containmentTree).Nodup := by
  refine List.nodup_flatMap.mpr ⟨fun root _ => forest.containmentTree_nodup root, ?_⟩
  refine forest.roots_nodup.imp_of_mem ?_
  intro first second firstListed secondListed different id inFirst inSecond
  rw [forest.mem_containmentTree_iff] at inFirst inSecond
  have level : ∀ root ∈ model.roots, model.depth root = 1 := by
    intro root listed
    rw [depth, forest.containerChain_of_uncontained ((forest.mem_roots_iff root).mp listed).2]
    rfl
  exact different (forest.eq_of_depth_eq inFirst inSecond
    ((level first firstListed).trans (level second secondListed).symm))

/-- The trees of the roots list every object of the model once. -/
theorem Forest.flatMap_roots_perm (forest : Forest model) :
    (model.roots.flatMap model.containmentTree).Perm model.ids := by
  rw [List.perm_ext_iff_of_nodup forest.flatMap_roots_nodup model.ids_nodup]
  intro id
  rw [List.mem_flatMap]
  constructor
  · rintro ⟨root, listed, inside⟩
    rw [mem_ids_iff]
    have exist := (mem_ids_iff model root).mp ((forest.mem_roots_iff root).mp listed).1
    exact forest.index_lt_of_mem_containmentTree exist inside
  · intro listed
    obtain ⟨root, above, uncontained⟩ := (forest.containerChain_climbs id).exists_root
    refine ⟨root, (forest.mem_roots_iff root).mpr ⟨?_, uncontained⟩,
      (forest.mem_containmentTree_iff root id).mpr above⟩
    obtain ⟨rest, split⟩ := (forest.containerChain_climbs id).head
    rcases List.mem_cons.mp (split ▸ above) with rfl | further
    · exact listed
    · rw [mem_ids_iff]
      exact (forest.containerChain_climbs id).index_lt forest.container_exists
        (by rwa [split, List.tail_cons])

/-- The containment trees of a model.  The walk with a stack ends, and lists an object followed
by the trees of its contents in their order.  A tree lists no object twice, and those from
which its root is reached along containers.  The trees of the roots together are the
objects of the model, each once. -/
theorem containmentTree_partitions (reachable : model.Reachable) :
    (∀ root,
      (∀ order, Walks model [root] order ↔ order = model.containmentTree root) ∧
      model.containmentTree root =
        root :: (model.contents root).flatMap model.containmentTree ∧
      (model.containmentTree root).Nodup ∧
      ∀ id, id ∈ model.containmentTree root ↔
        Relation.ReflTransGen (fun child owner => model.container? child = some owner) id root) ∧
    (model.roots.flatMap model.containmentTree).Perm model.ids := by
  have forest := reachable.forest
  refine ⟨fun root => ⟨forest.walks_iff root, forest.containmentTree_eq_cons root,
    forest.containmentTree_nodup root, forest.mem_containmentTree_iff_climbs root⟩, ?_⟩
  exact forest.flatMap_roots_perm

/-- A package with two members, and a relationship that nothing contains. -/
def looseMembership : ModelDraft :=
  let draft := (ModelDraft.initial.package ModelDraft.root "Cars").2
  let draft := (draft.partDefinition ⟨1⟩ "Wheel").2
  let draft := (draft.part ⟨1⟩ (some "spare")).2
  (draft.create .membership).2

theorem looseMembership_reachable : looseMembership.model.Reachable := by
  unfold looseMembership
  apply Reachable.create
  iterate 3 apply ModelDraft.reachable_member
  exact ModelDraft.reachable_initial

/-- Memberships are listed before their members, and the loose one is a tree of its own. -/
theorem containmentTree_partitions_looseMembership :
    Walks looseMembership.model [⟨0⟩] [⟨0⟩, ⟨2⟩, ⟨1⟩, ⟨4⟩, ⟨3⟩, ⟨6⟩, ⟨5⟩] ∧
      Relation.ReflTransGen
        (fun child owner => looseMembership.model.container? child = some owner) ⟨5⟩ ⟨1⟩ ∧
      looseMembership.model.roots = [⟨0⟩, ⟨7⟩] ∧
      (looseMembership.model.roots.flatMap looseMembership.model.containmentTree).Perm
        looseMembership.model.ids := by
  obtain ⟨trees, all⟩ := containmentTree_partitions looseMembership_reachable
  refine ⟨((trees ⟨0⟩).1 _).mpr (by decide +kernel), ?_, by decide +kernel, all⟩
  exact ((trees ⟨1⟩).2.2.2 ⟨5⟩).mp (by decide +kernel)

end Model

end ModelText
