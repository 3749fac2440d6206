import ModelText.Proofs.Graph.Forest

namespace ModelText

/-!
# Writing in place

A write changes a model in several places: a contained child learns its container, the
revision grows and the slot is filled.  Done in place, one after the other, a failure in
between would leave the model half changed.  The steps here are those of a write carried
out on the model itself, where everything that was done before a failure stays done.

All checks come before the first change, so a write in place that is refused has changed
nothing, and it ends with the model that writing as a whole gives.  The one step that could
do less is the last one: a slot with a single value does not grow.  No such slot is ever
grown, because slots are as many-valued as their features.
-/

/-- A change carried out on a model in place, which stays as it is when the change fails. -/
abbrev InPlace := ExceptT ModelError (StateM Model)

namespace InPlace

/-- What a change answers, and the model it leaves behind. -/
def on {α : Type} (change : InPlace α) (model : Model) : Except ModelError α × Model :=
  Id.run (StateT.run (ExceptT.run change) model)

/-! ## The steps of a write -/

/-- Check that a feature may be written to. -/
def check (many : Bool) (owner : ObjectId) (feature : Metafeature) : InPlace Unit := do
  match (← get).metaclass? owner with
  | none => throw (.unknownObject owner)
  | some metaclass =>
      if !metaclass.hasFeature feature then
        throw (.featureNotOnClass metaclass feature)
      else if feature.isDerived then
        throw (.derivedFeature feature)
      else if feature.storage == .container then
        throw (.containerFeature feature)
      else if feature.isMany != many then
        throw (.wrongMultiplicity feature feature.isMany)

/-- Check that a value may be contained, and record the back-pointer of the child. -/
def adopt (owner : ObjectId) (feature : Metafeature) (value : Value) : InPlace Unit := do
  match value.object? with
  | none => throw (.notAnObject feature)
  | some child =>
      match (← get).get? child with
      | none => throw (.unknownObject child)
      | some object =>
          if object.container.isSome then
            throw (.alreadyContained child)
          else if ((← get).containerChain owner).contains child then
            throw (.containmentCycle owner child)
          else
            modify fun model => model.modify child fun object =>
              { object with container := some (owner, feature) }

/-- The slot a value is written to: setting replaces what was there, and pushing appends to
a list, which it starts if there was none. -/
def filled (many : Bool) (value : Value) : Option Slot → Slot
  | none => if many then .many [value] else .single value
  | some (.single kept) => .single (if many then kept else value)
  | some (.many values) => if many then .many (values ++ [value]) else .single value

def revise : InPlace Unit :=
  modify fun model => { model with revision := model.revision + 1 }

/-- A model with a value in the slot of a feature. -/
def fillSlot (model : Model) (many : Bool) (owner : ObjectId) (feature : Metafeature)
    (value : Value) : Model :=
  model.modify owner fun object =>
    { object with
      slots := object.slots.put feature (filled many value (object.slots.get? feature)) }

def fill (many : Bool) (owner : ObjectId) (feature : Metafeature) (value : Value) :
    InPlace Unit :=
  modify fun model => fillSlot model many owner feature value

/-- Write a value to a feature, where `many` tells a push from a set. -/
def write (many : Bool) (owner : ObjectId) (feature : Metafeature) (value : Value) :
    InPlace Unit := do
  check many owner feature
  if feature.storage == .containment then
    adopt owner feature value
  revise
  fill many owner feature value

/-! ## What single steps answer -/

section Steps

variable {α β : Type} (model : Model)

@[simp] theorem on_pure (answer : α) : (pure answer : InPlace α).on model = (.ok answer, model) :=
  rfl

@[simp] theorem on_throw (error : ModelError) :
    (throw error : InPlace α).on model = (.error error, model) :=
  rfl

@[simp] theorem on_get : (get : InPlace Model).on model = (.ok model, model) := rfl

@[simp] theorem on_modify (change : Model → Model) :
    (modify change : InPlace Unit).on model = (.ok (), change model) :=
  rfl

/-- A change goes on where the one before it has stopped, unless that one failed. -/
theorem on_bind (change : InPlace α) (next : α → InPlace β) :
    (change >>= next).on model =
      match change.on model with
      | (.ok answer, changed) => (next answer).on changed
      | (.error error, changed) => (.error error, changed) := by
  unfold on ExceptT.run StateT.run Id.run
  simp only [bind, ExceptT.bind, ExceptT.mk, StateT.bind, ExceptT.bindCont]
  cases change model with
  | mk outcome changed => cases outcome <;> rfl

end Steps

/-! ## What a write answers -/

variable {model : Model} {many : Bool} {owner : ObjectId} {feature : Metafeature}
  {value : Value}

/-- Adoption in place refuses what may not be contained, and else contains it. -/
theorem on_adopt (model : Model) (owner : ObjectId) {feature : Metafeature} (value : Value)
    (storage : feature.storage = .containment) :
    (adopt owner feature value).on model =
      match model.adoptionFault? owner feature value with
      | some fault => (.error fault, model)
      | none => (.ok (), model.contain owner feature value) := by
  rw [adopt, Model.adoptionFault?]
  cases target : value.object? with
  | none => rfl
  | some child =>
      have isObject := (Value.object?_eq_some_iff value child).mp target
      subst isObject
      dsimp only
      rw [on_bind, on_get]
      dsimp only
      cases found : model.get? child with
      | none => rfl
      | some object =>
          dsimp only
          by_cases contained : object.container.isSome = true
          · rw [if_pos contained, if_pos contained, on_throw]
          · rw [if_neg contained, if_neg contained, on_bind, on_get]
            dsimp only
            by_cases around : (model.containerChain owner).contains child = true
            · rw [if_pos around, if_pos around, on_throw]
            · rw [if_neg around, if_neg around, on_modify]
              simp only [Model.contain, storage]

/-- The check in place changes nothing.  What it refuses is the fault of the write, and what
it lets through has no fault but those of adoption. -/
theorem on_check (model : Model) (many : Bool) (owner : ObjectId) (feature : Metafeature)
    (value : Value) :
    (∃ fault, (check many owner feature).on model = (.error fault, model) ∧
      model.writeFault? many owner feature value = some fault) ∨
    ((check many owner feature).on model = (.ok (), model) ∧
      model.writeFault? many owner feature value =
        if feature.storage == .containment then model.adoptionFault? owner feature value
        else none) := by
  rw [check, on_bind, on_get, Model.writeFault?]
  dsimp only
  cases model.metaclass? owner with
  | none => exact .inl ⟨_, on_throw model _, rfl⟩
  | some metaclass =>
      dsimp only
      by_cases missing : (!metaclass.hasFeature feature) = true
      · exact .inl ⟨_, by rw [if_pos missing, on_throw], by rw [if_pos missing]⟩
      rw [if_neg missing, if_neg missing]
      by_cases derived : feature.isDerived = true
      · exact .inl ⟨_, by rw [if_pos derived, on_throw], by rw [if_pos derived]⟩
      rw [if_neg derived, if_neg derived]
      by_cases container : (feature.storage == .container) = true
      · exact .inl ⟨_, by rw [if_pos container, on_throw], by rw [if_pos container]⟩
      rw [if_neg container, if_neg container]
      by_cases multiplicity : (feature.isMany != many) = true
      · exact .inl ⟨_, by rw [if_pos multiplicity, on_throw], by rw [if_pos multiplicity]⟩
      rw [if_neg multiplicity, if_neg multiplicity]
      exact .inr ⟨on_pure model (), rfl⟩

/-- Once everything is checked, the revision and the slot are written without fail. -/
private theorem on_fill {contained : Model} (sameRevision : contained.revision = model.revision) :
    (do revise; fill many owner feature value : InPlace Unit).on contained =
      (.ok (),
        { fillSlot contained many owner feature value with revision := model.revision + 1 }) := by
  rw [revise, fill, on_bind, on_modify, ← sameRevision]
  rfl

/-- A write in place refuses what writing as a whole refuses, and only then leaves the model
as it was. -/
theorem on_write (model : Model) (many : Bool) (owner : ObjectId) (feature : Metafeature)
    (value : Value) :
    (write many owner feature value).on model =
      match model.writeFault? many owner feature value with
      | some fault => (.error fault, model)
      | none =>
          (.ok (),
            { fillSlot (model.contain owner feature value) many owner feature value with
              revision := model.revision + 1 }) := by
  rw [write, on_bind]
  rcases on_check model many owner feature value with
    ⟨fault, refused, faulty⟩ | ⟨passed, remaining⟩
  · rw [refused, faulty]
  · rw [passed, remaining]
    dsimp only
    by_cases storage : feature.storage = .containment
    · have isContainment : (feature.storage == .containment) = true := beq_iff_eq.mpr storage
      rw [if_pos isContainment, if_pos isContainment, on_bind, on_adopt model owner value storage]
      cases model.adoptionFault? owner feature value with
      | some fault => rfl
      | none => exact on_fill (by rw [Model.contain_eq_objects])
    · have noContainment : ¬(feature.storage == .containment) = true := by
        rwa [beq_iff_eq]
      rw [if_neg noContainment, if_neg noContainment, Model.contain_of_ne storage]
      exact on_fill rfl

/-- The slot that a write in place fills is the slot that a write as a whole stores, because
a slot is as many-valued as its feature. -/
theorem filled_slot (forest : model.Forest) (multiplicity : feature.isMany = many) :
    filled many value (model.slot? owner feature) = model.slotAfter owner feature value := by
  subst multiplicity
  rw [Model.slotAfter]
  cases stored : model.slot? owner feature with
  | none =>
      rw [Model.values_eq_nil_of_slot? stored]
      rfl
  | some slot =>
      rw [Model.values_eq_of_slot? stored]
      have fits := (forest.slot_fits stored).2.2.2
      cases slot with
      | single kept => rw [← fits]; rfl
      | many values => rw [← fits]; rfl

/-- Containing the child first does not matter for the slot, even when the owner and the child
were the same object. -/
theorem fillSlot_contain (forest : model.Forest) (multiplicity : feature.isMany = many) :
    fillSlot (model.contain owner feature value) many owner feature value =
      (model.contain owner feature value).modify owner fun object =>
        { object with
          slots := object.slots.put feature (model.slotAfter owner feature value) } := by
  refine Model.modify_congr fun object found => ?_
  rw [Model.get?_contain, Option.map_eq_some_iff] at found
  rcases found with ⟨before, foundBefore, rfl⟩
  rw [← filled_slot forest multiplicity, Model.slot?, foundBefore]
  rfl

/-- Writing in place answers what writing as a whole answers.  It leaves the model that
writing as a whole gives, or the model as it was when the write is refused. -/
theorem on_write_eq_attempt (forest : model.Forest) (many : Bool) (owner : ObjectId)
    (feature : Metafeature) (value : Value) :
    (write many owner feature value).on model =
      match model.attempt many owner feature value with
      | .ok next => (.ok (), next)
      | .error fault => (.error fault, model) := by
  rw [on_write, Model.attempt_eq_write, Model.write]
  cases fault : model.writeFault? many owner feature value with
  | some fault => rfl
  | none =>
      have multiplicity := ((Model.writeFault?_eq_none_iff _ _ _ _ _).mp fault).2.2.1
      dsimp only
      rw [fillSlot_contain forest multiplicity]

end InPlace

end ModelText
