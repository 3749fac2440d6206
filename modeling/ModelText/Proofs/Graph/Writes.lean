import ModelText.Graph.Mutation

namespace ModelText

/-!
# What a change leaves behind

A model is seen through four views: how many objects there are, and for each id
its metaclass, its slots and its containment.  The lemmas here say what creating
an object and an accepted write do to each view; everything later about changed
models goes through them, never through the arrays.

An accepted write changes one slot, and for a containment also the back-pointer
of the child.  The other objects keep all they have.
-/

namespace Model

variable {model next : Model} {owner id : ObjectId} {feature : Metafeature} {value : Value}

/-! ## Existing objects -/

theorem isSome_get?_iff (model : Model) (id : ObjectId) :
    (model.get? id).isSome = true ↔ id.index < model.objects.size := by
  simp [get?]

theorem isSome_metaclass?_iff (model : Model) (id : ObjectId) :
    (model.metaclass? id).isSome = true ↔ id.index < model.objects.size := by
  rw [metaclass?, Option.isSome_map, isSome_get?_iff]

theorem exists_metaclass {model : Model} {id : ObjectId} (exist : id.index < model.objects.size) :
    ∃ metaclass, model.metaclass? id = some metaclass :=
  Option.isSome_iff_exists.mp ((isSome_metaclass?_iff model id).mpr exist)

theorem mem_ids_iff (model : Model) (id : ObjectId) :
    id ∈ model.ids ↔ id.index < model.objects.size := by
  simp only [ids, List.mem_map, List.mem_range]
  constructor
  · rintro ⟨index, inRange, rfl⟩
    exact inRange
  · intro inRange
    exact ⟨id.index, inRange, rfl⟩

theorem isNone_get?_iff (model : Model) (id : ObjectId) :
    (model.get? id).isNone = true ↔ id ∉ model.ids := by
  rw [mem_ids_iff, ← isSome_get?_iff, Option.not_isSome_iff_eq_none, Option.isNone_iff_eq_none]

/-- There are no more distinct existing objects than the model has objects. -/
theorem length_le_size {model : Model} {listed : List ObjectId} (nodup : listed.Nodup)
    (exist : ∀ id, id ∈ listed → id.index < model.objects.size) :
    listed.length ≤ model.objects.size := by
  have bounded : listed.length ≤ model.ids.length :=
    nodup.length_le_of_subset fun id member => (mem_ids_iff model id).mpr (exist id member)
  rwa [ids, List.length_map, List.length_range] at bounded

theorem index_lt_of_slot? {slot : Slot} (stored : model.slot? owner feature = some slot) :
    owner.index < model.objects.size := by
  rcases Option.bind_eq_some_iff.mp stored with ⟨object, found, _⟩
  exact (isSome_get?_iff model owner).mp (Option.isSome_of_eq_some found)

theorem index_lt_of_containment? {place : ObjectId × Metafeature}
    (contained : model.containment? id = some place) : id.index < model.objects.size := by
  rcases Option.bind_eq_some_iff.mp contained with ⟨object, found, _⟩
  exact (isSome_get?_iff model id).mp (Option.isSome_of_eq_some found)

/-- The values of a feature are those of its slot, and a slot that was never
written has none. -/
theorem values_eq_of_slot? {slot : Slot} (stored : model.slot? owner feature = some slot) :
    model.values owner feature = slot.values := by
  rw [values, stored]
  rfl

theorem values_eq_nil_of_slot? (unset : model.slot? owner feature = none) :
    model.values owner feature = [] := by
  rw [values, unset]
  rfl

/-- Objects that do not exist hold nothing. -/
theorem values_eq_nil_of_not_lt (missing : ¬owner.index < model.objects.size) :
    model.values owner feature = [] := by
  apply values_eq_nil_of_slot?
  cases stored : model.slot? owner feature with
  | none => rfl
  | some slot => exact absurd (index_lt_of_slot? stored) missing

theorem values_congr {left right : Model} {one other : ObjectId}
    (same : left.slot? one feature = right.slot? other feature) :
    left.values one feature = right.values other feature := by
  rw [values, values, same]

theorem mem_objectValues_iff (model : Model) (owner : ObjectId) (feature : Metafeature)
    (child : ObjectId) :
    child ∈ model.objectValues owner feature ↔
      Value.object child ∈ model.values owner feature := by
  simp [objectValues, List.mem_filterMap, Value.object?_eq_some_iff]

/-! ## The empty model -/

theorem get?_empty (identity : ModelId) (id : ObjectId) :
    (Model.empty identity).get? id = none := by
  simp [get?, Model.empty]

theorem slot?_empty (identity : ModelId) (owner : ObjectId) (feature : Metafeature) :
    (Model.empty identity).slot? owner feature = none := by
  rw [slot?, get?_empty]
  rfl

theorem containment?_empty (identity : ModelId) (id : ObjectId) :
    (Model.empty identity).containment? id = none := by
  rw [containment?, get?_empty]
  rfl

/-! ## Creating an object -/

@[simp] theorem size_create (model : Model) (metaclass : Metaclass) :
    (model.create metaclass).2.objects.size = model.objects.size + 1 := by
  simp [create]

@[simp] theorem create_id (model : Model) (metaclass : Metaclass) :
    (model.create metaclass).1 = ⟨model.objects.size⟩ := rfl

theorem get?_create (model : Model) (metaclass : Metaclass) (id : ObjectId) :
    (model.create metaclass).2.get? id =
      if id = ⟨model.objects.size⟩ then
        some ⟨⟨model.objects.size⟩, metaclass, .empty, none⟩
      else
        model.get? id := by
  by_cases fresh : id = ⟨model.objects.size⟩
  · subst fresh
    simp [create, get?]
  · have apart : id.index ≠ model.objects.size := fun same => fresh (congrArg ObjectId.mk same)
    rw [if_neg fresh]
    simp [create, get?, Array.getElem?_push, apart]

theorem metaclass?_create (model : Model) (metaclass : Metaclass) (id : ObjectId) :
    (model.create metaclass).2.metaclass? id =
      if id = ⟨model.objects.size⟩ then some metaclass else model.metaclass? id := by
  rw [metaclass?, get?_create]
  split <;> rfl

theorem get?_size_eq_none (model : Model) : model.get? ⟨model.objects.size⟩ = none := by
  simp [get?]

theorem slot?_create (model : Model) (metaclass : Metaclass) (owner : ObjectId)
    (feature : Metafeature) :
    (model.create metaclass).2.slot? owner feature = model.slot? owner feature := by
  rw [slot?, get?_create]
  split
  · rename_i fresh
    rw [fresh, slot?, get?_size_eq_none]
    simp
  · rfl

theorem containment?_create (model : Model) (metaclass : Metaclass) (id : ObjectId) :
    (model.create metaclass).2.containment? id = model.containment? id := by
  rw [containment?, get?_create]
  split
  · rename_i fresh
    rw [fresh, containment?, get?_size_eq_none]
    rfl
  · rfl

/-! ## Accepted writes -/

theorem get?_modify (model : Model) (changed id : ObjectId) (change : Object → Object) :
    (model.modify changed change).get? id =
      if id = changed then (model.get? id).map change else model.get? id := by
  by_cases same : id = changed
  · subst same
    simp [modify, get?, Array.getElem?_modify]
  · have apart : changed.index ≠ id.index := by
      intro equal
      apply same
      cases id
      cases changed
      exact congrArg ObjectId.mk equal.symm
    simp [modify, get?, Array.getElem?_modify, apart, same]

theorem contain_of_ne (storage : feature.storage ≠ .containment) :
    model.contain owner feature value = model := by
  unfold contain
  split
  · rename_i target found
    exact absurd found storage
  · rfl

theorem contain_eq_objects (model : Model) (owner : ObjectId) (feature : Metafeature)
    (value : Value) :
    model.contain owner feature value =
      { model with objects := (model.contain owner feature value).objects } := by
  unfold contain
  split <;> rfl

theorem modify_congr {changed : ObjectId} {change other : Object → Object}
    (agree : ∀ object, model.get? changed = some object → change object = other object) :
    model.modify changed change = model.modify changed other := by
  rw [modify, modify]
  congr 1
  apply Array.ext_getElem?
  intro index
  rw [Array.getElem?_modify, Array.getElem?_modify]
  by_cases same : changed.index = index
  · rw [if_pos same, if_pos same, ← same]
    exact Option.map_congr fun object found => agree object found
  · rw [if_neg same, if_neg same]

/-- Recording a back-pointer changes the container of the child of a containment. -/
theorem get?_contain (model : Model) (owner : ObjectId) (feature : Metafeature)
    (value : Value) (id : ObjectId) :
    (model.contain owner feature value).get? id =
      (model.get? id).map fun object =>
        { object with
          container :=
            if feature.storage = .containment ∧ value = .object id then some (owner, feature)
            else object.container } := by
  by_cases child : ∃ target, feature.storage = .containment ∧ value = .object target
  · rcases child with ⟨target, storage, object⟩
    subst object
    simp only [contain, storage, get?_modify]
    by_cases same : id = target
    · simp [same]
    · simp [same, Ne.symm same]
  · have unaffected : ¬(feature.storage = .containment ∧ value = .object id) :=
      fun contained => child ⟨id, contained⟩
    have unchanged : model.contain owner feature value = model := by
      unfold contain
      split
      · rename_i target storage
        exact absurd ⟨target, storage, rfl⟩ child
      · rfl
    simp [unchanged, unaffected]

theorem write_eq_ok {many : Bool} {slot : Slot}
    (written : model.write many owner feature value slot = .ok next) :
    model.writeFault? many owner feature value = none ∧
      next = { (model.contain owner feature value).modify owner fun object =>
                  { object with slots := object.slots.put feature slot } with
               revision := model.revision + 1 } := by
  rw [write] at written
  cases fault : model.writeFault? many owner feature value with
  | none =>
      rw [fault] at written
      exact ⟨rfl, (Except.ok.inj written).symm⟩
  | some error =>
      rw [fault] at written
      cases written

theorem get?_write {many : Bool} {slot : Slot}
    (written : model.write many owner feature value slot = .ok next) (id : ObjectId) :
    next.get? id = (model.get? id).map fun object =>
      { object with
        container :=
          if feature.storage = .containment ∧ value = Value.object id then some (owner, feature)
          else object.container
        slots := if id = owner then object.slots.put feature slot else object.slots } := by
  rw [(write_eq_ok written).2]
  refine Eq.trans (get?_modify (model.contain owner feature value) owner id _) ?_
  rw [get?_contain]
  by_cases same : id = owner
  · simp only [same, if_true, Option.map_map, Function.comp_def]
  · simp only [same, if_false]

theorem size_write {many : Bool} {slot : Slot}
    (written : model.write many owner feature value slot = .ok next) :
    next.objects.size = model.objects.size := by
  rw [(write_eq_ok written).2]
  unfold contain
  split <;> simp [modify]

theorem metaclass?_write {many : Bool} {slot : Slot}
    (written : model.write many owner feature value slot = .ok next) (id : ObjectId) :
    next.metaclass? id = model.metaclass? id := by
  rw [metaclass?, get?_write written, Option.map_map]
  rfl

/-- An accepted write replaces the written slot and no other. -/
theorem slot?_write {many : Bool} {slot : Slot}
    (written : model.write many owner feature value slot = .ok next) (id : ObjectId)
    (read : Metafeature) :
    next.slot? id read =
      if id = owner ∧ read = feature then (model.get? owner).map fun _ => slot
      else model.slot? id read := by
  rw [slot?, get?_write written, slot?]
  by_cases same : id = owner
  · subst same
    cases model.get? id with
    | none => simp
    | some object =>
        by_cases sameFeature : read = feature
        · simp [sameFeature]
        · simp [sameFeature, Slots.get?_put_of_ne]
  · cases model.get? id with
    | none => simp [same]
    | some object => simp [same]

theorem containment?_write {many : Bool} {slot : Slot}
    (written : model.write many owner feature value slot = .ok next) (id : ObjectId) :
    next.containment? id =
      if feature.storage = .containment ∧ value = .object id then
        (model.get? id).map fun _ => (owner, feature)
      else
        model.containment? id := by
  rw [containment?, get?_write written, containment?]
  cases model.get? id with
  | none => simp
  | some object =>
      by_cases contained : feature.storage = .containment ∧ value = .object id
      · simp [contained]
      · simp [contained]

/-! ## When a write is accepted -/

/-- A child may be adopted exactly when it exists, has no container and is not on
the chain of containers of its new owner. -/
theorem adoptionFault?_eq_none_iff (model : Model) (owner : ObjectId)
    (feature : Metafeature) (value : Value) :
    model.adoptionFault? owner feature value = none ↔
      ∃ child object, value = .object child ∧ model.get? child = some object ∧
        object.container = none ∧ child ∉ model.containerChain owner := by
  unfold adoptionFault?
  cases target : value.object? with
  | none =>
      simp only [reduceCtorEq, false_iff]
      rintro ⟨child, object, isObject, _⟩
      rw [isObject] at target
      cases target
  | some child =>
      have isObject := (Value.object?_eq_some_iff value child).mp target
      subst isObject
      cases found : model.get? child with
      | none => simp [found]
      | some object =>
          cases contained : object.container with
          | some place => simp [found, contained]
          | none => simp [found, contained]

/-- A write has no fault exactly when the owner has the feature, the feature is
stored and as many-valued as the write, and a contained child may be adopted. -/
theorem writeFault?_eq_none_iff (model : Model) (many : Bool) (owner : ObjectId)
    (feature : Metafeature) (value : Value) :
    model.writeFault? many owner feature value = none ↔
      (∃ metaclass, model.metaclass? owner = some metaclass ∧
        metaclass.hasFeature feature = true) ∧
      feature.isStored = true ∧ feature.isMany = many ∧
      (feature.storage = .containment → model.adoptionFault? owner feature value = none) := by
  unfold writeFault? Metafeature.isStored
  cases model.metaclass? owner with
  | none => simp
  | some metaclass =>
      cases has : metaclass.hasFeature feature with
      | false => simp [has]
      | true =>
          cases derived : feature.isDerived with
          | true => simp [has]
          | false =>
              by_cases multiplicity : feature.isMany = many
              · cases storage : feature.storage <;> simp [multiplicity, has]
              · cases storage : feature.storage <;> simp [multiplicity, has]

/-- The slot that assigning a value leaves behind. -/
def slotAfter (model : Model) (owner : ObjectId) (feature : Metafeature) (value : Value) :
    Slot :=
  if feature.isMany then .many (model.values owner feature ++ [value]) else .single value

theorem assign_eq_write (model : Model) (owner : ObjectId) (feature : Metafeature)
    (value : Value) :
    model.assign owner feature value =
      model.write feature.isMany owner feature value (model.slotAfter owner feature value) := by
  cases many : feature.isMany <;> simp [assign, set, push, slotAfter, many]

/-- A push where `many` says so, and else a set. -/
def attempt (model : Model) (many : Bool) (owner : ObjectId) (feature : Metafeature)
    (value : Value) : Except ModelError Model :=
  if many then model.push owner feature value else model.set owner feature value

/-- The slot of an attempt is the one the feature asks for, because an attempt of the other
multiplicity is refused. -/
theorem attempt_eq_write (model : Model) (many : Bool) (owner : ObjectId)
    (feature : Metafeature) (value : Value) :
    model.attempt many owner feature value =
      model.write many owner feature value (model.slotAfter owner feature value) := by
  by_cases multiplicity : feature.isMany = many
  · subst multiplicity
    rw [← assign_eq_write]
    rfl
  · cases fault : model.writeFault? many owner feature value with
    | none => exact absurd ((writeFault?_eq_none_iff _ _ _ _ _).mp fault).2.2.1 multiplicity
    | some refused => cases many <;> simp [attempt, set, push, write, fault]

theorem assign_of_attempt {many : Bool}
    (accepted : model.attempt many owner feature value = .ok next) :
    feature.isMany = many ∧ model.assign owner feature value = .ok next := by
  rw [attempt_eq_write] at accepted
  have multiplicity := ((writeFault?_eq_none_iff _ _ _ _ _).mp (write_eq_ok accepted).1).2.2.1
  refine ⟨multiplicity, ?_⟩
  rw [assign_eq_write, multiplicity, accepted]

theorem assign_of_set (accepted : model.set owner feature value = .ok next) :
    model.assign owner feature value = .ok next := by
  have attempted : model.attempt false owner feature value = .ok next := accepted
  exact (assign_of_attempt attempted).2

theorem assign_of_push (accepted : model.push owner feature value = .ok next) :
    model.assign owner feature value = .ok next := by
  have attempted : model.attempt true owner feature value = .ok next := accepted
  exact (assign_of_attempt attempted).2

/-- An assignment is accepted exactly when it has no fault. -/
theorem exists_assign_iff (model : Model) (owner : ObjectId) (feature : Metafeature)
    (value : Value) :
    (∃ next, model.assign owner feature value = .ok next) ↔
      model.writeFault? feature.isMany owner feature value = none := by
  rw [assign_eq_write]
  constructor
  · rintro ⟨next, accepted⟩
    exact (write_eq_ok accepted).1
  · intro noFault
    exact ⟨_, by rw [write, noFault]⟩

theorem index_lt_of_assign (accepted : model.assign owner feature value = .ok next) :
    owner.index < model.objects.size := by
  have noFault := (exists_assign_iff model owner feature value).mp ⟨next, accepted⟩
  rcases ((writeFault?_eq_none_iff _ _ _ _ _).mp noFault).1 with ⟨metaclass, found, _⟩
  exact (isSome_metaclass?_iff model owner).mp (Option.isSome_of_eq_some found)

theorem size_assign (accepted : model.assign owner feature value = .ok next) :
    next.objects.size = model.objects.size :=
  size_write (assign_eq_write model owner feature value ▸ accepted)

theorem metaclass?_assign (accepted : model.assign owner feature value = .ok next)
    (id : ObjectId) : next.metaclass? id = model.metaclass? id :=
  metaclass?_write (assign_eq_write model owner feature value ▸ accepted) id

theorem slot?_assign (accepted : model.assign owner feature value = .ok next)
    (id : ObjectId) (read : Metafeature) :
    next.slot? id read =
      if id = owner ∧ read = feature then some (model.slotAfter owner feature value)
      else model.slot? id read := by
  rw [slot?_write (assign_eq_write model owner feature value ▸ accepted)]
  have exist := (isSome_get?_iff model owner).mpr (index_lt_of_assign accepted)
  rcases Option.isSome_iff_exists.mp exist with ⟨object, found⟩
  rw [found]
  rfl

/-- An assigned value comes last, after what a many-valued feature held before. -/
theorem values_assign (accepted : model.assign owner feature value = .ok next)
    (id : ObjectId) (read : Metafeature) :
    next.values id read =
      if id = owner ∧ read = feature then
        (if feature.isMany then model.values owner feature else []) ++ [value]
      else model.values id read := by
  rw [values, slot?_assign accepted]
  split
  · cases many : feature.isMany <;> simp [slotAfter, many, Slot.values]
  · rfl

theorem containment?_assign (accepted : model.assign owner feature value = .ok next)
    (id : ObjectId) :
    next.containment? id =
      if feature.storage = .containment ∧ value = .object id then some (owner, feature)
      else model.containment? id := by
  rw [containment?_write (assign_eq_write model owner feature value ▸ accepted)]
  split
  · rename_i adopted
    have noFault := (exists_assign_iff model owner feature value).mp ⟨next, accepted⟩
    have adoptable := ((writeFault?_eq_none_iff _ _ _ _ _).mp noFault).2.2.2 adopted.1
    rcases (adoptionFault?_eq_none_iff _ _ _ _).mp adoptable with
      ⟨child, object, isObject, found, _⟩
    have same := Value.object.inj (adopted.2.symm.trans isObject)
    rw [same, found]
    rfl
  · rfl

end Model

end ModelText
