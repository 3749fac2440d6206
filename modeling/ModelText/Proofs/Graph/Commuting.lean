import ModelText.Proofs.Graph.Atomicity

namespace ModelText

/-!
# Writes that commute

Two writes to different slots can be exchanged.  That the second one is accepted after the
first says enough about the model before both: its child is another one than the first child,
it was uncontained all along, and chains of containers only grow.

What could go wrong is a cycle, because each adoption lengthens the chains through its child.
Suppose that the second adoption, made first, had brought the first child above its own new
owner.  Then the first owner lies below the second child, and the second owner below the first
child.  But then the first adoption brings the second child above the second owner, and the
second write would not have been accepted after it.

The outcome is the same model, because a model is determined by its views.
-/

namespace Model

/-! ## Models with the same views -/

/-- Objects that have the same position and look alike in every view are the same. -/
theorem Forest.get?_eq_of_views {left right : Model} (forest : Forest left)
    (forestToo : Forest right) {id : ObjectId}
    (metaclass : left.metaclass? id = right.metaclass? id)
    (slot : ∀ feature, left.slot? id feature = right.slot? id feature)
    (containment : left.containment? id = right.containment? id) :
    left.get? id = right.get? id := by
  simp only [metaclass?, slot?, containment?] at metaclass slot containment
  cases known : left.get? id with
  | none =>
      rw [known, Option.map_none] at metaclass
      exact (Option.map_eq_none_iff.mp metaclass.symm).symm
  | some object =>
      rw [known, Option.map_some] at metaclass
      obtain ⟨other, knownToo, sameClass⟩ := Option.map_eq_some_iff.mp metaclass.symm
      simp only [known, knownToo, Option.bind_some] at slot containment
      have sameId : object.id = other.id :=
        (forest.id_eq known).trans (forestToo.id_eq knownToo).symm
      have sameSlots : object.slots = other.slots := Slots.ext_get? slot
      rw [knownToo]
      cases object
      cases other
      rw [Option.some.injEq, Object.mk.injEq]
      exact ⟨sameId, sameClass.symm, sameSlots, containment⟩

/-- A model is determined by its identity, its revision, its source tokens and the views of its
objects. -/
theorem Forest.eq_of_views {left right : Model} (forest : Forest left) (forestToo : Forest right)
    (identity : left.identity = right.identity) (revision : left.revision = right.revision)
    (sourceTokens : left.sourceTokens = right.sourceTokens)
    (metaclasses : ∀ id, left.metaclass? id = right.metaclass? id)
    (slots : ∀ id feature, left.slot? id feature = right.slot? id feature)
    (containments : ∀ id, left.containment? id = right.containment? id) : left = right := by
  have objects : left.objects = right.objects := by
    apply Array.ext_getElem?
    intro index
    exact forest.get?_eq_of_views forestToo (metaclasses ⟨index⟩) (slots ⟨index⟩)
      (containments ⟨index⟩)
  cases left
  cases right
  rw [Model.mk.injEq]
  exact ⟨identity, revision, objects, sourceTokens⟩

/-! ## Adoption in terms of the views -/

/-- A value is an existing object without a container that is not above its new owner. -/
def Adoptable (model : Model) (owner : ObjectId) (value : Value) : Prop :=
  ∃ child, value = .object child ∧ child.index < model.objects.size ∧
    model.containment? child = none ∧ child ∉ model.containerChain owner

theorem adoptionFault?_eq_none_iff_adoptable (model : Model) (owner : ObjectId)
    (feature : Metafeature) (value : Value) :
    model.adoptionFault? owner feature value = none ↔ Adoptable model owner value := by
  rw [adoptionFault?_eq_none_iff]
  constructor
  · rintro ⟨child, object, isObject, found, uncontained, apart⟩
    refine ⟨child, isObject, ?_, ?_, apart⟩
    · exact (isSome_get?_iff model child).mp (Option.isSome_of_eq_some found)
    · rw [containment?, found, Option.bind_some, uncontained]
  · rintro ⟨child, isObject, exist, uncontained, apart⟩
    obtain ⟨object, found⟩ := Option.isSome_iff_exists.mp ((isSome_get?_iff model child).mpr exist)
    rw [containment?, found, Option.bind_some] at uncontained
    exact ⟨child, object, isObject, found, uncontained, apart⟩

/-- An assignment is accepted if the class of the owner has the feature, the feature is stored,
and a contained value may be adopted. -/
theorem exists_assign_iff_adoptable (model : Model) (owner : ObjectId) (feature : Metafeature)
    (value : Value) :
    (∃ next, model.assign owner feature value = .ok next) ↔
      (∃ metaclass, model.metaclass? owner = some metaclass ∧
        metaclass.hasFeature feature = true) ∧
      feature.isStored = true ∧
      (feature.storage = .containment → Adoptable model owner value) := by
  rw [exists_assign_iff, writeFault?_eq_none_iff, adoptionFault?_eq_none_iff_adoptable,
    eq_self_iff_true, true_and]

section

variable {model middle : Model} {first : ObjectId} {one : Metafeature} {value : Value}

/-- The chains after an assignment: those through an adopted child go on along the chain of its
new owner. -/
theorem Forest.mem_containerChain_assign (forest : Forest model)
    (accepted : model.assign first one value = .ok middle) (ancestor id : ObjectId) :
    ancestor ∈ middle.containerChain id ↔
      ancestor ∈ model.containerChain id ∨
        ∃ child, one.storage = .containment ∧ value = .object child ∧
          child ∈ model.containerChain id ∧ ancestor ∈ model.containerChain first := by
  have climbs := (forest.assign accepted).containerChain_climbs id
  by_cases storage : one.storage = .containment
  · obtain ⟨_, _, adoptable⟩ :=
      (exists_assign_iff_adoptable model first one value).mp ⟨middle, accepted⟩
    obtain ⟨child, rfl, _⟩ := adoptable storage
    rw [climbs.unique (forest.climbs_adopt storage accepted id), List.mem_append]
    by_cases through : child ∈ model.containerChain id
    · simp [storage, through]
    · simp [storage, through]
  · rw [climbs.unique (forest.climbs_keep storage accepted id)]
    simp [storage]

/-- The slot that a write leaves behind does not depend on what other slots hold. -/
theorem slotAfter_assign (accepted : model.assign first one value = .ok middle)
    {second : ObjectId} {other : Metafeature} (apart : ¬(second = first ∧ other = one))
    (otherValue : Value) :
    middle.slotAfter second other otherValue = model.slotAfter second other otherValue := by
  rw [slotAfter, slotAfter, values_assign accepted, if_neg apart]

end

/-! ## Two writes -/

section

variable {model middle last : Model} {first second : ObjectId} {one other : Metafeature}
  {value otherValue : Value}

/-- What two writes adopt are different objects. -/
theorem adopted_apart (accepted : model.assign first one value = .ok middle)
    (acceptedToo : middle.assign second other otherValue = .ok last) (child : ObjectId) :
    ¬((one.storage = .containment ∧ value = .object child) ∧
      (other.storage = .containment ∧ otherValue = .object child)) := by
  rintro ⟨adopted, storage, rfl⟩
  obtain ⟨_, _, adoptable⟩ := (exists_assign_iff_adoptable middle second other _).mp
    ⟨last, acceptedToo⟩
  obtain ⟨adoptee, isObject, _, uncontained, _⟩ := adoptable storage
  obtain rfl := Value.object.inj isObject
  rw [containment?_assign accepted, if_pos adopted] at uncontained
  cases uncontained

/-- The second write is accepted without the first. -/
theorem Forest.exists_second (forest : Forest model)
    (accepted : model.assign first one value = .ok middle)
    (acceptedToo : middle.assign second other otherValue = .ok last) :
    ∃ swapped, model.assign second other otherValue = .ok swapped := by
  obtain ⟨known, stored, adoptable⟩ :=
    (exists_assign_iff_adoptable middle second other otherValue).mp ⟨last, acceptedToo⟩
  simp only [metaclass?_assign accepted] at known
  refine (exists_assign_iff_adoptable model second other otherValue).mpr ⟨known, stored, ?_⟩
  intro storage
  obtain ⟨child, rfl, exist, uncontained, below⟩ := adoptable storage
  refine ⟨child, rfl, size_assign accepted ▸ exist, ?_, ?_⟩
  · rw [containment?_assign accepted, if_neg] at uncontained
    · exact uncontained
    · exact fun adopted => adopted_apart accepted acceptedToo child ⟨adopted, storage, rfl⟩
  · exact fun above => below ((forest.mem_containerChain_assign accepted child second).mpr
      (Or.inl above))

/-- The first write is accepted after the second. -/
theorem Forest.exists_first (forest : Forest model)
    (accepted : model.assign first one value = .ok middle)
    (acceptedToo : middle.assign second other otherValue = .ok last) {swapped : Model}
    (alone : model.assign second other otherValue = .ok swapped) :
    ∃ outcome, swapped.assign first one value = .ok outcome := by
  obtain ⟨known, stored, adoptable⟩ :=
    (exists_assign_iff_adoptable model first one value).mp ⟨middle, accepted⟩
  refine (exists_assign_iff_adoptable swapped first one value).mpr ⟨?_, stored, ?_⟩
  · simpa only [metaclass?_assign alone] using known
  intro storage
  obtain ⟨child, rfl, exist, uncontained, below⟩ := adoptable storage
  refine ⟨child, rfl, by rwa [size_assign alone], ?_, ?_⟩
  · rw [containment?_assign alone, if_neg]
    · exact uncontained
    · exact fun adopted => adopted_apart accepted acceptedToo child ⟨⟨storage, rfl⟩, adopted⟩
  · rw [forest.mem_containerChain_assign alone]
    rintro (above | ⟨otherChild, otherStorage, rfl, otherAbove, above⟩)
    · exact below above
    -- each child is above the owner of the other
    · obtain ⟨_, _, adoptableToo⟩ :=
        (exists_assign_iff_adoptable middle second other _).mp ⟨last, acceptedToo⟩
      obtain ⟨adoptee, isObject, _, _, belowToo⟩ := adoptableToo otherStorage
      obtain rfl := Value.object.inj isObject
      exact belowToo ((forest.mem_containerChain_assign accepted _ second).mpr
        (Or.inr ⟨child, storage, rfl, above, otherAbove⟩))

/-- Accepted writes to different slots lead to one model in either order. -/
theorem Forest.assign_unique (forest : Forest model) (apart : ¬(first = second ∧ one = other))
    (accepted : model.assign first one value = .ok middle)
    (acceptedToo : middle.assign second other otherValue = .ok last) {swapped outcome : Model}
    (alone : model.assign second other otherValue = .ok swapped)
    (afterwards : swapped.assign first one value = .ok outcome) : outcome = last := by
  have written : Written model one.isMany first one value middle := written_of_attempt accepted
  have writtenToo : Written middle other.isMany second other otherValue last :=
    written_of_attempt acceptedToo
  have writtenAlone : Written model other.isMany second other otherValue swapped :=
    written_of_attempt alone
  have writtenAfterwards : Written swapped one.isMany first one value outcome :=
    written_of_attempt afterwards
  have apartToo : ¬(second = first ∧ other = one) := fun same => apart ⟨same.1.symm, same.2.symm⟩
  refine Forest.eq_of_views ((forest.assign alone).assign afterwards)
    ((forest.assign accepted).assign acceptedToo) ?_ ?_ ?_ ?_ ?_ ?_
  · rw [writtenAfterwards.identity, writtenAlone.identity, writtenToo.identity, written.identity]
  · rw [writtenAfterwards.revision, writtenAlone.revision, writtenToo.revision, written.revision]
  · rw [writtenAfterwards.sourceTokens, writtenAlone.sourceTokens, writtenToo.sourceTokens,
      written.sourceTokens]
  · intro id
    rw [writtenAfterwards.metaclass, writtenAlone.metaclass, writtenToo.metaclass,
      written.metaclass]
  · intro id read
    rw [slot?_assign afterwards, slot?_assign alone, slot?_assign acceptedToo,
      slot?_assign accepted, slotAfter_assign accepted apartToo, slotAfter_assign alone apart]
    by_cases atFirst : id = first ∧ read = one
    · have elsewhere : ¬(id = second ∧ read = other) := by
        rintro ⟨rfl, rfl⟩
        exact apart ⟨atFirst.1.symm, atFirst.2.symm⟩
      rw [if_pos atFirst, if_neg elsewhere, if_pos atFirst]
    · rw [if_neg atFirst, if_neg atFirst]
  · intro id
    rw [containment?_assign afterwards, containment?_assign alone, containment?_assign acceptedToo,
      containment?_assign accepted]
    by_cases adopted : one.storage = .containment ∧ value = .object id
    · have elsewhere : ¬(other.storage = .containment ∧ otherValue = .object id) :=
        fun adoptedToo => adopted_apart accepted acceptedToo id ⟨adopted, adoptedToo⟩
      rw [if_pos adopted, if_neg elsewhere, if_pos adopted]
    · rw [if_neg adopted, if_neg adopted]

/-- Pushes to different slots commute: when one is accepted after the other, they are accepted
the other way round as well, and lead to the same model. -/
theorem push_comm (reachable : model.Reachable) (apart : (first, one) ≠ (second, other))
    (pushed : model.push first one value = .ok middle)
    (pushedToo : middle.push second other otherValue = .ok last) :
    ∃ swapped, model.push second other otherValue = .ok swapped ∧
      swapped.push first one value = .ok last := by
  have different : ¬(first = second ∧ one = other) := fun same => apart (Prod.ext same.1 same.2)
  have attempted : model.attempt true first one value = .ok middle := pushed
  have attemptedToo : middle.attempt true second other otherValue = .ok last := pushedToo
  obtain ⟨many, accepted⟩ := assign_of_attempt attempted
  obtain ⟨manyToo, acceptedToo⟩ := assign_of_attempt attemptedToo
  obtain ⟨swapped, alone⟩ := reachable.forest.exists_second accepted acceptedToo
  obtain ⟨outcome, afterwards⟩ := reachable.forest.exists_first accepted acceptedToo alone
  have same := reachable.forest.assign_unique different accepted acceptedToo alone afterwards
  rw [assign, if_pos manyToo] at alone
  rw [assign, if_pos many, same] at afterwards
  exact ⟨swapped, alone, afterwards⟩

end

/-- A namespace, a membership and a package, each on its own. -/
def loosePackage : Model :=
  ((((Model.empty default).create .nameSpace).2.create .owningMembership).2.create .package).2

theorem loosePackage_reachable : loosePackage.Reachable :=
  (((Reachable.empty default).create .nameSpace).create .owningMembership).create .package

/-- The namespace may take the membership before or after the membership takes the package,
although the membership is the child of one push and the owner of the other. -/
theorem push_comm_loosePackage :
    ((⟨0⟩, .ownedRelationship) : ObjectId × Metafeature) ≠ (⟨1⟩, .ownedRelatedElement) ∧
      ∃ middle last swapped,
        loosePackage.push ⟨0⟩ .ownedRelationship (.object ⟨1⟩) = .ok middle ∧
        middle.push ⟨1⟩ .ownedRelatedElement (.object ⟨2⟩) = .ok last ∧
        loosePackage.push ⟨1⟩ .ownedRelatedElement (.object ⟨2⟩) = .ok swapped ∧
        swapped.push ⟨0⟩ .ownedRelationship (.object ⟨1⟩) = .ok last ∧
        last.containerChain ⟨2⟩ = [⟨2⟩, ⟨1⟩, ⟨0⟩] := by
  let middle := loosePackage.edit (.push ⟨0⟩ .ownedRelationship (.object ⟨1⟩))
  let last := middle.edit (.push ⟨1⟩ .ownedRelatedElement (.object ⟨2⟩))
  have apart : ((⟨0⟩, .ownedRelationship) : ObjectId × Metafeature) ≠
      (⟨1⟩, .ownedRelatedElement) := by
    decide
  have pushed : loosePackage.push ⟨0⟩ .ownedRelationship (.object ⟨1⟩) = .ok middle := by
    decide +kernel
  have pushedToo : middle.push ⟨1⟩ .ownedRelatedElement (.object ⟨2⟩) = .ok last := by
    decide +kernel
  obtain ⟨swapped, alone, afterwards⟩ := push_comm loosePackage_reachable apart pushed pushedToo
  exact ⟨apart, middle, last, swapped, pushed, pushedToo, alone, afterwards, by decide +kernel⟩

end Model

end ModelText
