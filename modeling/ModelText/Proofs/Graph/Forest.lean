import ModelText.Graph.Draft
import ModelText.Proofs.Graph.Writes

namespace ModelText

/-!
# The containment forest

Containment is kept twice: a containment slot lists the children, and each child
points back at its container.  The two stay in step in every model that creation
and writing can produce, so the containments of a model form a forest.  An
object sits at one position of one slot, or it is a root.

Chains of containers are kept as explicit lists.  The one new edge of a write
goes from an uncontained child to an owner whose chain does not meet the child,
so the owner keeps its chain and every chain through the child ends with it.
-/

namespace Model

/-! ## Chains of containers -/

/-- A list climbs from an object along its containers to an uncontained one.  Lists are
finite, so where containers lead around in a circle there is none. -/
inductive Climbs (model : Model) : ObjectId → List ObjectId → Prop where
  | root {id : ObjectId} : model.container? id = none → Climbs model id [id]
  | inside {id owner : ObjectId} {chain : List ObjectId} :
      model.container? id = some owner → Climbs model owner chain →
        Climbs model id (id :: chain)

namespace Climbs

variable {model : Model} {id : ObjectId} {chain other : List ObjectId}

theorem head (climbs : Climbs model id chain) : ∃ rest, chain = id :: rest := by
  cases climbs with
  | root _ => exact ⟨[], rfl⟩
  | inside _ _ => exact ⟨_, rfl⟩

theorem unique (climbs : Climbs model id chain) (also : Climbs model id other) :
    chain = other := by
  induction climbs generalizing other with
  | root uncontained =>
      cases also with
      | root _ => rfl
      | inside contained _ => rw [uncontained] at contained; cases contained
  | inside contained _ inductionHypothesis =>
      cases also with
      | root uncontained => rw [uncontained] at contained; cases contained
      | inside contained' above =>
          have same := Option.some.inj (contained.symm.trans contained')
          subst same
          rw [inductionHypothesis above]

/-- Every object of a chain climbs along the rest of the chain. -/
theorem of_mem (climbs : Climbs model id chain) {ancestor : ObjectId}
    (member : ancestor ∈ chain) :
    ∃ below above, chain = below ++ above ∧ Climbs model ancestor above := by
  induction climbs with
  | @root id uncontained =>
      rw [List.mem_singleton.mp member]
      exact ⟨[], [id], rfl, .root uncontained⟩
  | @inside id owner chain contained climbs inductionHypothesis =>
      rcases List.mem_cons.mp member with same | further
      · rw [same]
        exact ⟨[], id :: chain, rfl, .inside contained climbs⟩
      · rcases inductionHypothesis further with ⟨below, above, split, climbsAbove⟩
        exact ⟨id :: below, above, by rw [split, List.cons_append], climbsAbove⟩

/-- A chain does not come back to where it was. -/
theorem nodup (climbs : Climbs model id chain) : chain.Nodup := by
  induction climbs with
  | root _ => simp
  | @inside id owner chain contained climbs inductionHypothesis =>
      refine List.nodup_cons.mpr ⟨?_, inductionHypothesis⟩
      intro returns
      rcases of_mem climbs returns with ⟨below, above, split, climbsAbove⟩
      have lengths := congrArg List.length (unique climbsAbove (.inside contained climbs))
      rw [split, List.length_cons, List.length_append] at lengths
      omega

/-- The objects above the first one contain something and therefore exist, as
long as containers exist. -/
theorem index_lt (climbs : Climbs model id chain)
    (containersExist : ∀ {child owner}, model.container? child = some owner →
      owner.index < model.objects.size)
    {ancestor : ObjectId} (above : ancestor ∈ chain.tail) :
    ancestor.index < model.objects.size := by
  induction climbs with
  | root _ => cases above
  | @inside id owner chain contained climbs inductionHypothesis =>
      rcases head climbs with ⟨rest, split⟩
      rw [List.tail_cons, split] at above
      rcases List.mem_cons.mp above with same | further
      · rw [same]
        exact containersExist contained
      · rw [split, List.tail_cons] at inductionHypothesis
        exact inductionHypothesis further

/-- A bounded climb that is allowed the length of the chain follows all of it. -/
theorem climb_eq (climbs : Climbs model id chain) {limit : Nat}
    (enough : chain.length ≤ limit) : model.climb limit id = chain := by
  induction climbs generalizing limit with
  | root uncontained =>
      cases limit with
      | zero => simp at enough
      | succ limit => simp [climb, uncontained]
  | inside contained _ inductionHypothesis =>
      cases limit with
      | zero => simp at enough
      | succ limit =>
          rw [List.length_cons] at enough
          simp [climb, contained, inductionHypothesis (Nat.le_of_succ_le_succ enough)]

/-- Chains depend on nothing but the containers along them. -/
theorem congr {next : Model} (climbs : Climbs model id chain)
    (same : ∀ {ancestor}, ancestor ∈ chain →
      next.container? ancestor = model.container? ancestor) :
    Climbs next id chain := by
  induction climbs with
  | root uncontained =>
      exact .root ((same (List.mem_singleton.mpr rfl)).trans uncontained)
  | inside contained _ inductionHypothesis =>
      exact .inside ((same List.mem_cons_self).trans contained)
        (inductionHypothesis fun member => same (List.mem_cons_of_mem _ member))

end Climbs

/-! ## The invariant -/

/-- The containments of a model form a forest over a well-typed store.  Slots and
back-pointers tell the same containments, which can be followed from either end. -/
structure Forest (model : Model) : Prop where
  /-- Objects are named by their positions. -/
  id_eq : ∀ {id object}, model.get? id = some object → object.id = id
  /-- A slot belongs to a stored feature of its object and is as many-valued as
  the feature. -/
  slot_fits : ∀ {owner feature slot}, model.slot? owner feature = some slot →
    (∃ metaclass, model.metaclass? owner = some metaclass ∧
      metaclass.hasFeature feature = true) ∧
      feature.isDerived = false ∧ feature.storage ≠ .container ∧
      slot.isMany = feature.isMany
  /-- What a containment slot holds are existing objects. -/
  child_exists : ∀ {owner feature value}, feature.storage = .containment →
    value ∈ model.values owner feature →
      ∃ child, value = .object child ∧ (model.get? child).isSome = true
  /-- An object occurs once in the containment slot that its back-pointer names,
  and in no other one. -/
  child_count : ∀ (owner feature child), feature.storage = .containment →
    (model.values owner feature).count (.object child) =
      if model.containment? child = some (owner, feature) then 1 else 0
  /-- Back-pointers name containment slots. -/
  container_fits : ∀ {id owner feature}, model.containment? id = some (owner, feature) →
    feature.storage = .containment
  /-- Containers lead to a root. -/
  climbs : ∀ id, ∃ chain, Climbs model id chain

theorem forest_empty (identity : ModelId) : Forest (Model.empty identity) where
  id_eq := by
    intro id object found
    rw [get?_empty] at found
    cases found
  slot_fits := by
    intro owner feature slot stored
    rw [slot?_empty] at stored
    cases stored
  child_exists := by
    intro owner feature value _ member
    rw [values_eq_nil_of_slot? (slot?_empty identity owner feature)] at member
    cases member
  child_count := by
    intro owner feature child _
    rw [values_eq_nil_of_slot? (slot?_empty identity owner feature), containment?_empty]
    rfl
  container_fits := by
    intro id owner feature contained
    rw [containment?_empty] at contained
    cases contained
  climbs := fun id => ⟨[id], .root (by rw [container?, containment?_empty]; rfl)⟩

theorem Forest.create {model : Model} (forest : Forest model) (metaclass : Metaclass) :
    Forest (model.create metaclass).2 where
  id_eq := by
    intro id object found
    rw [get?_create] at found
    by_cases fresh : id = ⟨model.objects.size⟩
    · rw [if_pos fresh] at found
      rw [← Option.some.inj found, fresh]
    · rw [if_neg fresh] at found
      exact forest.id_eq found
  slot_fits := by
    intro owner feature slot stored
    rw [slot?_create] at stored
    rcases forest.slot_fits stored with ⟨⟨known, found, has⟩, rest⟩
    have exist := index_lt_of_slot? stored
    refine ⟨⟨known, ?_, has⟩, rest⟩
    rw [metaclass?_create, if_neg, found]
    intro fresh
    rw [fresh] at exist
    exact Nat.lt_irrefl _ exist
  child_exists := by
    intro owner feature value storage member
    rw [values_congr (slot?_create model metaclass owner feature)] at member
    rcases forest.child_exists storage member with ⟨child, isObject, exist⟩
    refine ⟨child, isObject, ?_⟩
    rw [isSome_get?_iff] at exist ⊢
    rw [size_create]
    exact Nat.lt_succ_of_lt exist
  child_count := by
    intro owner feature child storage
    rw [values_congr (slot?_create model metaclass owner feature), containment?_create]
    exact forest.child_count owner feature child storage
  container_fits := by
    intro id owner feature contained
    rw [containment?_create] at contained
    exact forest.container_fits contained
  climbs := by
    intro id
    rcases forest.climbs id with ⟨chain, climbs⟩
    refine ⟨chain, climbs.congr ?_⟩
    intro ancestor _
    rw [container?, container?, containment?_create]

/-! ## Writes keep the forest -/

/-- Only lists of children are containments. -/
theorem isMany_of_containment {feature : Metafeature}
    (storage : feature.storage = .containment) : feature.isMany = true := by
  revert storage
  cases feature <;> decide

section

variable {model next : Model} {owner : ObjectId} {feature : Metafeature} {value : Value}

/-- A child occurs in the slot that its back-pointer names. -/
theorem Forest.mem_values (forest : Forest model) {id : ObjectId}
    (contained : model.containment? id = some (owner, feature)) :
    Value.object id ∈ model.values owner feature := by
  have count := forest.child_count owner feature id (forest.container_fits contained)
  rw [if_pos contained] at count
  exact List.count_pos_iff.mp (count ▸ Nat.one_pos)

/-- What contains something exists. -/
theorem Forest.owner_exists (forest : Forest model) {id : ObjectId}
    (contained : model.containment? id = some (owner, feature)) :
    owner.index < model.objects.size := by
  have member := forest.mem_values contained
  cases stored : model.slot? owner feature with
  | none => rw [values_eq_nil_of_slot? stored] at member; cases member
  | some slot => exact index_lt_of_slot? stored

theorem Forest.container_exists (forest : Forest model) {id : ObjectId}
    (contained : model.container? id = some owner) : owner.index < model.objects.size := by
  rcases Option.map_eq_some_iff.mp contained with ⟨⟨place, feature⟩, found, rfl⟩
  exact forest.owner_exists found

/-- The chain of containers is never cut off. -/
theorem Forest.containerChain_climbs (forest : Forest model) (id : ObjectId) :
    Climbs model id (model.containerChain id) := by
  rcases forest.climbs id with ⟨chain, climbs⟩
  rcases climbs.head with ⟨above, split⟩
  have nodup : above.Nodup := (List.nodup_cons.mp (split ▸ climbs.nodup)).2
  have exist : ∀ ancestor, ancestor ∈ above → ancestor.index < model.objects.size := by
    intro ancestor member
    exact climbs.index_lt forest.container_exists (by rwa [split, List.tail_cons])
  have short := length_le_size nodup exist
  have whole : model.containerChain id = chain := by
    refine climbs.climb_eq ?_
    rw [split, List.length_cons]
    exact Nat.succ_le_succ short
  rw [whole]
  exact climbs

private theorem slot_fits_assign (forest : Forest model)
    (accepted : model.assign owner feature value = .ok next) {id : ObjectId}
    {read : Metafeature} {slot : Slot} (stored : next.slot? id read = some slot) :
    (∃ metaclass, next.metaclass? id = some metaclass ∧
      metaclass.hasFeature read = true) ∧
      read.isDerived = false ∧ read.storage ≠ .container ∧ slot.isMany = read.isMany := by
  rw [slot?_assign accepted] at stored
  rw [metaclass?_assign accepted]
  by_cases written : id = owner ∧ read = feature
  · rw [if_pos written] at stored
    rcases written with ⟨rfl, rfl⟩
    have noFault := (exists_assign_iff model id read value).mp ⟨next, accepted⟩
    rcases (writeFault?_eq_none_iff _ _ _ _ _).mp noFault with ⟨known, storedFeature, _, _⟩
    rw [Metafeature.isStored, Bool.and_eq_true, Bool.not_eq_true', bne_iff_ne] at storedFeature
    refine ⟨known, storedFeature.1, storedFeature.2, ?_⟩
    rw [← Option.some.inj stored, slotAfter]
    cases read.isMany <;> rfl
  · rw [if_neg written] at stored
    exact forest.slot_fits stored

/-- An adopted child climbs on through its new owner, whose own chain stays. -/
theorem Forest.climbs_adopt (forest : Forest model) {child : ObjectId}
    (storage : feature.storage = .containment)
    (accepted : model.assign owner feature (.object child) = .ok next) (id : ObjectId) :
    Climbs next id (model.containerChain id ++
      if child ∈ model.containerChain id then model.containerChain owner else []) := by
  have noFault := (exists_assign_iff model owner feature (.object child)).mp ⟨next, accepted⟩
  have adoptable := ((writeFault?_eq_none_iff _ _ _ _ _).mp noFault).2.2.2 storage
  rcases (adoptionFault?_eq_none_iff _ _ _ _).mp adoptable with
    ⟨adoptee, object, isObject, found, uncontained, apart⟩
  obtain rfl := Value.object.inj isObject
  have others : ∀ {ancestor}, ancestor ≠ child →
      next.container? ancestor = model.container? ancestor := by
    intro ancestor different
    rw [container?, containment?_assign accepted, if_neg]
    · rfl
    · exact fun adopted => different (Value.object.inj adopted.2).symm
  have ownerClimbs : Climbs next owner (model.containerChain owner) :=
    (forest.containerChain_climbs owner).congr fun member =>
      others fun same => apart (same ▸ member)
  have adopted : next.container? child = some owner := by
    rw [container?, containment?_assign accepted, if_pos ⟨storage, rfl⟩]
    rfl
  have climbs := forest.containerChain_climbs id
  generalize model.containerChain id = chain at climbs ⊢
  induction climbs with
  | @root id rootId =>
      by_cases same : id = child
      · rw [if_pos (List.mem_singleton.mpr same.symm)]
        exact .inside (same ▸ adopted) ownerClimbs
      · rw [if_neg fun member => same (List.mem_singleton.mp member).symm]
        exact .root ((others same).trans rootId)
  | @inside id above chain contained _ inductionHypothesis =>
      have different : child ≠ id := by
        rintro rfl
        rw [container?, containment?, found, Option.bind_some, uncontained] at contained
        cases contained
      have further : child ∈ id :: chain ↔ child ∈ chain := by
        rw [List.mem_cons, or_iff_right different]
      simp only [List.cons_append, further]
      exact .inside ((others different.symm).trans contained) inductionHypothesis

/-- A value that is not contained leaves all chains as they are. -/
theorem Forest.climbs_keep (forest : Forest model) (storage : feature.storage ≠ .containment)
    (accepted : model.assign owner feature value = .ok next) (id : ObjectId) :
    Climbs next id (model.containerChain id) := by
  refine (forest.containerChain_climbs id).congr ?_
  intro ancestor _
  rw [container?, containment?_assign accepted, if_neg fun adopted => storage adopted.1]
  rfl

/-- After an assignment all chains still lead to a root. -/
private theorem climbs_assign (forest : Forest model)
    (accepted : model.assign owner feature value = .ok next) (id : ObjectId) :
    ∃ chain, Climbs next id chain := by
  by_cases storage : feature.storage = .containment
  · have noFault := (exists_assign_iff model owner feature value).mp ⟨next, accepted⟩
    have adoptable := ((writeFault?_eq_none_iff _ _ _ _ _).mp noFault).2.2.2 storage
    rcases (adoptionFault?_eq_none_iff _ _ _ _).mp adoptable with ⟨child, _, rfl, _⟩
    exact ⟨_, forest.climbs_adopt storage accepted id⟩
  · exact ⟨_, forest.climbs_keep storage accepted id⟩

/-- A child counts once more in the slot it is pushed to. -/
private theorem child_count_assign (forest : Forest model)
    (accepted : model.assign owner feature value = .ok next) (holder : ObjectId)
    (read : Metafeature) (child : ObjectId) (storage : read.storage = .containment) :
    (next.values holder read).count (.object child) =
      if next.containment? child = some (holder, read) then 1 else 0 := by
  have noFault := (exists_assign_iff model owner feature value).mp ⟨next, accepted⟩
  have before := forest.child_count holder read child storage
  rw [values_assign accepted, containment?_assign accepted]
  by_cases adopted : feature.storage = .containment ∧ value = .object child
  · have adoptable := ((writeFault?_eq_none_iff _ _ _ _ _).mp noFault).2.2.2 adopted.1
    rcases (adoptionFault?_eq_none_iff _ _ _ _).mp adoptable with
      ⟨found, object, isObject, exist, uncontained, _⟩
    have same := Value.object.inj (adopted.2.symm.trans isObject)
    have root : model.containment? child = none := by
      rw [containment?, same, exist, Option.bind_some, uncontained]
    rw [root, if_neg (by simp)] at before
    rw [if_pos adopted]
    by_cases written : holder = owner ∧ read = feature
    · rcases written with ⟨rfl, rfl⟩
      rw [if_pos ⟨rfl, rfl⟩, if_pos rfl, isMany_of_containment storage, if_pos rfl,
        List.count_append, before, adopted.2, List.count_singleton_self]
    · rw [if_neg written, before, if_neg]
      intro place
      have parts := Prod.mk.inj (Option.some.inj place)
      exact written ⟨parts.1.symm, parts.2.symm⟩
  · rw [if_neg adopted]
    by_cases written : holder = owner ∧ read = feature
    · rcases written with ⟨rfl, rfl⟩
      have different : value ≠ .object child := fun same => adopted ⟨storage, same⟩
      rw [if_pos ⟨rfl, rfl⟩, isMany_of_containment storage, if_pos rfl, List.count_append,
        before, List.count_singleton, beq_false_of_ne different]
      rfl
    · rw [if_neg written, before]

/-- An accepted write leaves a forest. -/
theorem Forest.assign (forest : Forest model)
    (accepted : model.assign owner feature value = .ok next) : Forest next where
  id_eq := by
    intro id object found
    rw [assign_eq_write] at accepted
    rw [get?_write accepted] at found
    rcases Option.map_eq_some_iff.mp found with ⟨before, present, rfl⟩
    exact Eq.trans rfl (forest.id_eq present : before.id = id)
  slot_fits := slot_fits_assign forest accepted
  child_exists := by
    intro holder read stored storage member
    rw [values_assign accepted] at member
    have kept : ∀ {child}, (model.get? child).isSome = true →
        (next.get? child).isSome = true := by
      intro child exist
      rw [isSome_get?_iff] at exist ⊢
      rwa [size_assign accepted]
    by_cases written : holder = owner ∧ read = feature
    · rcases written with ⟨rfl, rfl⟩
      rw [if_pos ⟨rfl, rfl⟩, isMany_of_containment storage, if_pos rfl] at member
      rcases List.mem_append.mp member with before | new
      · rcases forest.child_exists storage before with ⟨child, isObject, exist⟩
        exact ⟨child, isObject, kept exist⟩
      · have noFault := (exists_assign_iff model holder read value).mp ⟨next, accepted⟩
        have adoptable := ((writeFault?_eq_none_iff _ _ _ _ _).mp noFault).2.2.2 storage
        rcases (adoptionFault?_eq_none_iff _ _ _ _).mp adoptable with
          ⟨child, object, isObject, found, _⟩
        exact ⟨child, (List.mem_singleton.mp new).trans isObject,
          kept (Option.isSome_of_eq_some found)⟩
    · rw [if_neg written] at member
      rcases forest.child_exists storage member with ⟨child, isObject, exist⟩
      exact ⟨child, isObject, kept exist⟩
  child_count := child_count_assign forest accepted
  container_fits := by
    intro id holder read contained
    rw [containment?_assign accepted] at contained
    by_cases adopted : feature.storage = .containment ∧ value = .object id
    · rw [if_pos adopted] at contained
      rw [← (Prod.mk.inj (Option.some.inj contained)).2]
      exact adopted.1
    · rw [if_neg adopted] at contained
      exact forest.container_fits contained
  climbs := climbs_assign forest accepted

end

/-- Source tokens are no part of the forest. -/
theorem Forest.of_objects_eq {model next : Model} (forest : Forest model)
    (same : next.objects = model.objects) : Forest next := by
  have rebuilt : next.get? = model.get? := by
    funext id
    rw [get?, get?, same]
  have slots : next.slot? = model.slot? := by
    funext owner feature
    rw [slot?, slot?, rebuilt]
  have containments : next.containment? = model.containment? := by
    funext id
    rw [containment?, containment?, rebuilt]
  have stored : next.values = model.values := by
    funext owner feature
    rw [values, values, slots]
  refine ⟨?_, ?_, ?_, ?_, ?_, ?_⟩
  · rw [rebuilt]
    exact forest.id_eq
  · have classes : next.metaclass? = model.metaclass? := by
      funext id
      rw [metaclass?, metaclass?, rebuilt]
    rw [slots, classes]
    exact fun {_ _ _} stored => forest.slot_fits stored
  · rw [stored, rebuilt]
    exact forest.child_exists
  · rw [stored, containments]
    exact forest.child_count
  · rw [containments]
    exact forest.container_fits
  · intro id
    rcases forest.climbs id with ⟨chain, climbs⟩
    refine ⟨chain, climbs.congr ?_⟩
    intro ancestor _
    rw [container?, container?, containments]

/-- Every reachable model is a forest. -/
theorem Reachable.forest {model : Model} (reachable : Reachable model) : Forest model := by
  induction reachable with
  | empty identity => exact forest_empty identity
  | create metaclass _ forest => exact forest.create metaclass
  | set _ accepted forest => exact forest.assign (assign_of_set accepted)
  | push _ accepted forest => exact forest.assign (assign_of_push accepted)
  | recordSourceToken site token _ forest => exact forest.of_objects_eq rfl
  | detachSource _ forest => exact forest.of_objects_eq rfl

/-! ## What objects hold -/

/-- Only existing objects hold values, and only of stored features of their
metaclass. -/
theorem Forest.holder_fits {model : Model} (forest : Forest model) {owner : ObjectId}
    {feature : Metafeature} {value : Value} (member : value ∈ model.values owner feature) :
    ∃ metaclass, model.metaclass? owner = some metaclass ∧
      feature ∈ metaclass.storedFeatures := by
  cases stored : model.slot? owner feature with
  | none => rw [values_eq_nil_of_slot? stored] at member; cases member
  | some slot =>
      rcases forest.slot_fits stored with ⟨⟨metaclass, known, has⟩, notDerived, notContainer, _⟩
      refine ⟨metaclass, known, ?_⟩
      rw [Metaclass.storedFeatures, List.mem_filter, Metaclass.mem_features_iff]
      refine ⟨has, ?_⟩
      rw [Metafeature.isStored, notDerived, Bool.not_false, Bool.true_and, bne_iff_ne]
      exact notContainer

theorem Forest.length_values_le {model : Model} (forest : Forest model) {owner : ObjectId}
    {feature : Metafeature} (single : feature.isMany = false) :
    (model.values owner feature).length ≤ 1 := by
  cases stored : model.slot? owner feature with
  | none =>
      rw [values_eq_nil_of_slot? stored]
      exact Nat.zero_le 1
  | some slot =>
      rw [values_eq_of_slot? stored]
      have fits := (forest.slot_fits stored).2.2.2
      cases slot with
      | single value => exact Nat.le_refl 1
      | many values => rw [single] at fits; cases fits

/-! ## Histories -/

/-- A call that may change a model. -/
inductive Edit where
  | create (metaclass : Metaclass)
  | set (owner : ObjectId) (feature : Metafeature) (value : Value)
  | push (owner : ObjectId) (feature : Metafeature) (value : Value)
  | recordSourceToken (site : ReferenceSite) (token : String)
  | detachSource
  deriving DecidableEq

/-- The model after a call; a refused write leaves it as it was. -/
def edit (model : Model) : Edit → Model
  | .create metaclass => (model.create metaclass).2
  | .set owner feature value => (model.set owner feature value).toOption.getD model
  | .push owner feature value => (model.push owner feature value).toOption.getD model
  | .recordSourceToken site token => model.recordSourceToken site token
  | .detachSource => model.detachSource

def afterEdits (model : Model) (edits : List Edit) : Model :=
  edits.foldl edit model

theorem Reachable.edit {model : Model} (reachable : Reachable model) (call : Edit) :
    Reachable (model.edit call) := by
  cases call with
  | create metaclass => exact reachable.create metaclass
  | set owner feature value =>
      rw [Model.edit]
      cases accepted : model.set owner feature value with
      | error _ => exact reachable
      | ok next => exact reachable.set accepted
  | push owner feature value =>
      rw [Model.edit]
      cases accepted : model.push owner feature value with
      | error _ => exact reachable
      | ok next => exact reachable.push accepted
  | recordSourceToken site token => exact reachable.recordSourceToken site token
  | detachSource => exact reachable.detachSource

theorem Reachable.afterEdits {model : Model} (reachable : Reachable model)
    (edits : List Edit) : Reachable (model.afterEdits edits) := by
  induction edits generalizing model with
  | nil => exact reachable
  | cons call rest inductionHypothesis => exact inductionHypothesis (reachable.edit call)

/-- Containment is a forest after every history of calls, refused ones included. -/
theorem afterEdits_forest (identity : ModelId) (edits : List Edit) :
    Forest ((Model.empty identity).afterEdits edits) :=
  ((Reachable.empty identity).afterEdits edits).forest

end Model

/-! ## Drafts -/

namespace ModelDraft

theorem model_set (draft : ModelDraft) (owner : ObjectId) (feature : Metafeature)
    (value : Value) :
    (draft.set owner feature value).model = draft.model.edit (.set owner feature value) := by
  rw [set, Model.edit]
  cases draft.model.set owner feature value <;> rfl

theorem model_push (draft : ModelDraft) (owner : ObjectId) (feature : Metafeature)
    (value : Value) :
    (draft.push owner feature value).model = draft.model.edit (.push owner feature value) := by
  rw [push, Model.edit]
  cases draft.model.push owner feature value <;> rfl

theorem reachable_initial : initial.model.Reachable :=
  (Model.Reachable.empty default).create .nameSpace

variable {draft : ModelDraft} (reachable : draft.model.Reachable)
include reachable

theorem reachable_set (owner : ObjectId) (feature : Metafeature) (value : Value) :
    (draft.set owner feature value).model.Reachable := by
  rw [model_set]
  exact reachable.edit _

theorem reachable_push (owner : ObjectId) (feature : Metafeature) (value : Value) :
    (draft.push owner feature value).model.Reachable := by
  rw [model_push]
  exact reachable.edit _

/-- A draft with one more member is the outcome of creating and writing. -/
theorem reachable_member (owner : ObjectId) (behind metaclass : Metaclass)
    (name : Option String) : (draft.member owner behind metaclass name).2.model.Reachable := by
  unfold member
  apply reachable_push
  apply reachable_push
  apply Model.Reachable.create
  cases name with
  | none => exact reachable.create metaclass
  | some name => exact reachable_set (reachable.create metaclass) _ _ _

theorem reachable_relationship (owner : ObjectId) (metaclass : Metaclass) :
    (draft.relationship owner metaclass).2.model.Reachable := by
  unfold relationship
  apply reachable_push
  exact reachable.create metaclass

theorem reachable_typedBy (feature : ObjectId) (target : Value) :
    (draft.typedBy feature target).2.model.Reachable := by
  unfold typedBy
  apply reachable_set
  apply reachable_set
  exact reachable_relationship reachable feature .featureTyping

theorem reachable_subsets (feature : ObjectId) (target : Value) :
    (draft.subsets feature target).2.model.Reachable := by
  unfold subsets
  apply reachable_set
  apply reachable_set
  exact reachable_relationship reachable feature .subsetting

theorem reachable_redefines (feature : ObjectId) (target : Value) :
    (draft.redefines feature target).2.model.Reachable := by
  unfold redefines
  apply reachable_set
  apply reachable_set
  exact reachable_relationship reachable feature .redefinition

end ModelDraft

end ModelText
