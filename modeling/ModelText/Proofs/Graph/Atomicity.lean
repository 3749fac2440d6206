import ModelText.Proofs.Checks
import ModelText.Proofs.Graph.InPlace
import ModelText.Proofs.Graph.Tree

namespace ModelText

/-!
# Writes as a whole

A write to a feature is refused or carried out, and nothing lies between.  A refused write
names the first check that it fails, and the model stays as it was.  A write that fails no
check is carried out: the slot holds the value, a contained child knows its container, and
whatever else can be read from the model reads as before.

The checks are stated one by one, each without regard to the others.  That the owner of a
containment is not the child itself and does not lie below it is said about containments;
the code looks for the child around the owner instead.  Both say the same in a forest.
-/

/-- What is checked before a write. -/
inductive WriteCheck where
  | ownerExists
  | featureOnMetaclass
  | notDerived
  | notContainer
  | multiplicity
  | objectValue
  | childExists
  | childUncontained
  | noCycle
  deriving DecidableEq

namespace WriteCheck

def ofFeature : List WriteCheck :=
  [.ownerExists, .featureOnMetaclass, .notDerived, .notContainer, .multiplicity]

def ofChild : List WriteCheck :=
  [.objectValue, .childExists, .childUncontained, .noCycle]

def order : List WriteCheck := ofFeature ++ ofChild

/-- The check of a write that fails, with what it reports. -/
inductive Fails (model : Model) (many : Bool) (owner : ObjectId) (feature : Metafeature)
    (value : Value) : WriteCheck → ModelError → Prop where
  | ownerExists : owner ∉ model.ids →
      Fails model many owner feature value .ownerExists (.unknownObject owner)
  | featureOnMetaclass {metaclass : Metaclass} :
      model.metaclass? owner = some metaclass → feature ∉ metaclass.features →
      Fails model many owner feature value .featureOnMetaclass
        (.featureNotOnClass metaclass feature)
  | notDerived : feature.isDerived = true →
      Fails model many owner feature value .notDerived (.derivedFeature feature)
  | notContainer : feature.storage = .container →
      Fails model many owner feature value .notContainer (.containerFeature feature)
  | multiplicity : feature.isMany ≠ many →
      Fails model many owner feature value .multiplicity
        (.wrongMultiplicity feature feature.isMany)
  | objectValue : feature.storage = .containment → (∀ child, value ≠ .object child) →
      Fails model many owner feature value .objectValue (.notAnObject feature)
  | childExists {child : ObjectId} : feature.storage = .containment →
      value = .object child → child ∉ model.ids →
      Fails model many owner feature value .childExists (.unknownObject child)
  | childUncontained {child : ObjectId} : feature.storage = .containment →
      value = .object child → model.containment? child ≠ none →
      Fails model many owner feature value .childUncontained (.alreadyContained child)
  | noCycle {child : ObjectId} : feature.storage = .containment → value = .object child →
      Relation.ReflTransGen (fun holder held => held ∈ model.contents holder) child owner →
      Fails model many owner feature value .noCycle (.containmentCycle owner child)

/-- A single check of a write. -/
def fault? (model : Model) (many : Bool) (owner : ObjectId) (feature : Metafeature)
    (value : Value) : WriteCheck → Option ModelError
  | .ownerExists => if (model.get? owner).isNone then some (.unknownObject owner) else none
  | .featureOnMetaclass =>
      (model.metaclass? owner).bind fun metaclass =>
        if metaclass.hasFeature feature then none else some (.featureNotOnClass metaclass feature)
  | .notDerived => if feature.isDerived then some (.derivedFeature feature) else none
  | .notContainer =>
      if feature.storage = .container then some (.containerFeature feature) else none
  | .multiplicity =>
      if feature.isMany ≠ many then some (.wrongMultiplicity feature feature.isMany) else none
  | .objectValue =>
      if feature.storage = .containment ∧ value.object? = none then some (.notAnObject feature)
      else none
  | .childExists =>
      value.object?.bind fun child =>
        if feature.storage = .containment ∧ (model.get? child).isNone then
          some (.unknownObject child)
        else none
  | .childUncontained =>
      value.object?.bind fun child =>
        if feature.storage = .containment ∧ (model.containment? child).isSome then
          some (.alreadyContained child)
        else none
  | .noCycle =>
      value.object?.bind fun child =>
        if feature.storage = .containment ∧ child ∈ model.containerChain owner then
          some (.containmentCycle owner child)
        else none

variable {model : Model} (many : Bool) (owner : ObjectId) (feature : Metafeature)
  (value : Value)

theorem fault?_eq_some_iff (forest : model.Forest) (check : WriteCheck) (error : ModelError) :
    check.fault? model many owner feature value = some error ↔
      Fails model many owner feature value check error := by
  cases check <;>
    simp only [fault?, Option.bind_eq_some_iff, Value.object?_eq_some_iff,
      Option.ite_none_left_eq_some, Option.ite_none_right_eq_some, Option.some.injEq]
  case ownerExists =>
    constructor
    · rintro ⟨missing, rfl⟩
      exact .ownerExists ((model.isNone_get?_iff owner).mp missing)
    · rintro ⟨missing⟩
      exact ⟨(model.isNone_get?_iff owner).mpr missing, rfl⟩
  case featureOnMetaclass =>
    constructor
    · rintro ⟨metaclass, known, absent, rfl⟩
      exact .featureOnMetaclass known fun listed =>
        absent ((metaclass.mem_features_iff feature).mp listed)
    · intro failure
      cases failure with
      | @featureOnMetaclass metaclass known absent =>
          exact ⟨metaclass, known,
            fun has => absent ((metaclass.mem_features_iff feature).mpr has), rfl⟩
  case notDerived =>
    constructor
    · rintro ⟨derived, rfl⟩
      exact .notDerived derived
    · intro failure
      cases failure with
      | notDerived derived => exact ⟨derived, rfl⟩
  case notContainer =>
    constructor
    · rintro ⟨storage, rfl⟩
      exact .notContainer storage
    · intro failure
      cases failure with
      | notContainer storage => exact ⟨storage, rfl⟩
  case multiplicity =>
    constructor
    · rintro ⟨different, rfl⟩
      exact .multiplicity different
    · intro failure
      cases failure with
      | multiplicity different => exact ⟨different, rfl⟩
  case objectValue =>
    constructor
    · rintro ⟨⟨storage, noObject⟩, rfl⟩
      exact .objectValue storage (value.object?_eq_none_iff.mp noObject)
    · intro failure
      cases failure with
      | objectValue storage noObject =>
          exact ⟨⟨storage, value.object?_eq_none_iff.mpr noObject⟩, rfl⟩
  case childExists =>
    constructor
    · rintro ⟨child, isObject, ⟨storage, missing⟩, rfl⟩
      exact .childExists storage isObject ((model.isNone_get?_iff child).mp missing)
    · intro failure
      cases failure with
      | @childExists child storage isObject missing =>
          exact ⟨child, isObject, ⟨storage, (model.isNone_get?_iff child).mpr missing⟩, rfl⟩
  case childUncontained =>
    constructor
    · rintro ⟨child, isObject, ⟨storage, contained⟩, rfl⟩
      exact .childUncontained storage isObject (Option.isSome_iff_ne_none.mp contained)
    · intro failure
      cases failure with
      | @childUncontained child storage isObject contained =>
          exact ⟨child, isObject, ⟨storage, Option.isSome_iff_ne_none.mpr contained⟩, rfl⟩
  case noCycle =>
    constructor
    · rintro ⟨child, isObject, ⟨storage, around⟩, rfl⟩
      exact .noCycle storage isObject ((forest.mem_containerChain_iff child owner).mp around)
    · intro failure
      cases failure with
      | @noCycle child storage isObject below =>
          exact ⟨child, isObject,
            ⟨storage, (forest.mem_containerChain_iff child owner).mpr below⟩, rfl⟩

end WriteCheck

namespace Model

theorem adoptionFault?_eq_findSome? (model : Model) (many : Bool) (owner : ObjectId)
    {feature : Metafeature} (value : Value) (storage : feature.storage = .containment) :
    model.adoptionFault? owner feature value =
      WriteCheck.ofChild.findSome? (WriteCheck.fault? model many owner feature value) := by
  unfold adoptionFault? WriteCheck.ofChild
  simp only [List.findSome?, WriteCheck.fault?, storage, true_and]
  cases value.object? with
  | none => rfl
  | some child =>
      cases found : model.get? child with
      | none => simp [found]
      | some object =>
          cases contained : object.container with
          | some place => simp [found, contained, containment?]
          | none =>
              by_cases around : child ∈ model.containerChain owner <;>
                simp [found, contained, around, containment?]

/-- The checks of a child concern nothing but containments. -/
theorem findSome?_ofChild_eq_none (model : Model) (many : Bool) (owner : ObjectId)
    {feature : Metafeature} (value : Value) (storage : feature.storage ≠ .containment) :
    WriteCheck.ofChild.findSome? (WriteCheck.fault? model many owner feature value) = none := by
  unfold WriteCheck.ofChild
  simp [List.findSome?, WriteCheck.fault?, storage]

theorem writeFault?_eq_findSome? (model : Model) (many : Bool) (owner : ObjectId)
    (feature : Metafeature) (value : Value) :
    model.writeFault? many owner feature value =
      WriteCheck.order.findSome? (WriteCheck.fault? model many owner feature value) := by
  have ofChild : WriteCheck.ofChild.findSome? (WriteCheck.fault? model many owner feature value) =
      if feature.storage == .containment then model.adoptionFault? owner feature value
      else none := by
    by_cases storage : feature.storage = .containment
    · rw [← adoptionFault?_eq_findSome? model many owner value storage, storage]
      rfl
    · rw [findSome?_ofChild_eq_none model many owner value storage, if_neg (by rwa [beq_iff_eq])]
  rw [WriteCheck.order, List.findSome?_append, ofChild, writeFault?, WriteCheck.ofFeature]
  simp only [List.findSome?, WriteCheck.fault?, metaclass?]
  cases found : model.get? owner with
  | none => rfl
  | some object =>
      cases has : object.metaclass.hasFeature feature with
      | false => simp [has]
      | true =>
          cases derived : feature.isDerived with
          | true => simp [has]
          | false =>
              by_cases container : feature.storage = .container
              · simp [has, container]
              · by_cases multiplicity : feature.isMany = many
                · simp [has, container, multiplicity]
                · simp [has, container, multiplicity]

/-! ## First failures -/

variable {model next : Model} {many : Bool} {owner : ObjectId} {feature : Metafeature}
  {value : Value}

/-- A write is refused with what the first failing check reports. -/
theorem Forest.writeFault?_eq_some_iff (forest : model.Forest) (error : ModelError) :
    model.writeFault? many owner feature value = some error ↔
      FirstOf (WriteCheck.Fails model many owner feature value) WriteCheck.order error := by
  rw [writeFault?_eq_findSome?, findSome?_eq_some_iff_firstOf]
  apply firstOf_congr
  exact fun check _ => WriteCheck.fault?_eq_some_iff many owner feature value forest check

theorem Forest.writeFault?_eq_none_iff_forall (forest : model.Forest) :
    model.writeFault? many owner feature value = none ↔
      ∀ check error, ¬WriteCheck.Fails model many owner feature value check error := by
  have everyCheck : ∀ check, check ∈ WriteCheck.order := by
    intro check
    cases check <;> decide
  rw [writeFault?_eq_findSome?, List.findSome?_eq_none_iff]
  simp only [everyCheck, true_implies, Option.eq_none_iff_forall_ne_some, ne_eq,
    WriteCheck.fault?_eq_some_iff many owner feature value forest]

/-! ## Accepted writes -/

/-- What a write leaves behind: the slot, the container of a contained child and the
revision have changed, and nothing else has. -/
structure Written (model : Model) (many : Bool) (owner : ObjectId) (feature : Metafeature)
    (value : Value) (next : Model) : Prop where
  identity : next.identity = model.identity
  revision : next.revision = model.revision + 1
  sourceTokens : next.sourceTokens = model.sourceTokens
  ids : next.ids = model.ids
  metaclass : ∀ id, next.metaclass? id = model.metaclass? id
  slot : next.slot? owner feature =
    some (if many then .many (model.values owner feature ++ [value]) else .single value)
  otherSlots : ∀ id read, ¬(id = owner ∧ read = feature) →
    next.slot? id read = model.slot? id read
  adopted : feature.storage = .containment → ∃ child, value = .object child ∧
    model.containment? child = none ∧ next.containment? child = some (owner, feature)
  otherContainers : ∀ id, ¬(feature.storage = .containment ∧ value = .object id) →
    next.containment? id = model.containment? id

/-- An accepted write changes what it should and nothing else. -/
theorem written_of_attempt (accepted : model.attempt many owner feature value = .ok next) :
    Written model many owner feature value next := by
  rcases assign_of_attempt accepted with ⟨multiplicity, assigned⟩
  have written := accepted
  rw [attempt_eq_write] at written
  rcases write_eq_ok written with ⟨noFault, outcome⟩
  exact {
    identity := by
      rw [outcome, contain_eq_objects]
      rfl
    revision := by rw [outcome]
    sourceTokens := by
      rw [outcome, contain_eq_objects]
      rfl
    ids := by rw [Model.ids, Model.ids, size_assign assigned]
    metaclass := metaclass?_assign assigned
    slot := by
      rw [slot?_assign assigned, if_pos ⟨rfl, rfl⟩, slotAfter, multiplicity]
    otherSlots := by
      intro id read other
      rw [slot?_assign assigned, if_neg other]
    adopted := by
      intro storage
      have adoptable := ((writeFault?_eq_none_iff _ _ _ _ _).mp noFault).2.2.2 storage
      rcases (adoptionFault?_eq_none_iff _ _ _ _).mp adoptable with
        ⟨child, object, isObject, found, uncontained, _⟩
      refine ⟨child, isObject, ?_, ?_⟩
      · rw [containment?, found, Option.bind_some, uncontained]
      · rw [containment?_assign assigned, if_pos ⟨storage, isObject⟩]
    otherContainers := by
      intro id other
      rw [containment?_assign assigned, if_neg other] }

/-- Sets and pushes are atomic.  What they refuse is reported by the first failing check and
leaves the model as it was, also when the write is carried out in place.  What they accept
fails no check and changes the slot, the container of a contained child and the revision. -/
theorem attempt_atomic (reachable : model.Reachable) (many : Bool) (owner : ObjectId)
    (feature : Metafeature) (value : Value) :
    (∀ error, model.attempt many owner feature value = .error error ↔
      FirstOf (WriteCheck.Fails model many owner feature value) WriteCheck.order error) ∧
    (∀ error, model.attempt many owner feature value = .error error →
      (InPlace.write many owner feature value).on model = (.error error, model)) ∧
    (∀ next, model.attempt many owner feature value = .ok next →
      (InPlace.write many owner feature value).on model = (.ok (), next) ∧
        Written model many owner feature value next) ∧
    ((∃ next, model.attempt many owner feature value = .ok next) ↔
      ∀ check error, ¬WriteCheck.Fails model many owner feature value check error) := by
  have inPlace := InPlace.on_write_eq_attempt reachable.forest many owner feature value
  refine ⟨?_, ?_, ?_, ?_⟩
  · intro error
    rw [← reachable.forest.writeFault?_eq_some_iff, attempt_eq_write, write]
    cases model.writeFault? many owner feature value with
    | none => simp
    | some fault => simp
  · intro error refused
    rw [inPlace, refused]
  · intro next accepted
    rw [inPlace, accepted]
    exact ⟨rfl, written_of_attempt accepted⟩
  · rw [← reachable.forest.writeFault?_eq_none_iff_forall, attempt_eq_write, write]
    cases model.writeFault? many owner feature value with
    | none => simp
    | some fault => simp

/-- A package inside a namespace, behind its membership. -/
def packaged : ModelDraft :=
  (ModelDraft.initial.package ModelDraft.root "Vehicles").2

theorem packaged_reachable : packaged.model.Reachable :=
  ModelDraft.reachable_member ModelDraft.reachable_initial _ _ _ _

/-- The namespace is not contained in its own package, whose name can be set. -/
theorem attempt_atomic_packaged :
    (InPlace.write true ⟨1⟩ .ownedRelationship (.object ModelDraft.root)).on packaged.model =
      (.error (.containmentCycle ⟨1⟩ ModelDraft.root), packaged.model) ∧
    ∃ next,
      (InPlace.write false ⟨1⟩ .declaredName (.text "Cars")).on packaged.model = (.ok (), next) ∧
        Written packaged.model false ⟨1⟩ .declaredName (.text "Cars") next := by
  have refused : packaged.model.attempt true ⟨1⟩ .ownedRelationship (.object ModelDraft.root) =
      .error (.containmentCycle ⟨1⟩ ModelDraft.root) := by
    decide +kernel
  have fault : packaged.model.writeFault? false ⟨1⟩ .declaredName (.text "Cars") = none := by
    decide +kernel
  have noFailure := packaged_reachable.forest.writeFault?_eq_none_iff_forall.mp fault
  rcases attempt_atomic packaged_reachable true ⟨1⟩ .ownedRelationship
    (.object ModelDraft.root) with ⟨_, unchanged, _, _⟩
  rcases attempt_atomic packaged_reachable false ⟨1⟩ .declaredName (.text "Cars") with
    ⟨_, _, changed, succeeds⟩
  rcases succeeds.mpr noFailure with ⟨next, accepted⟩
  exact ⟨unchanged _ refused, next, changed next accepted⟩

end Model

end ModelText
