import Mathlib.Data.List.Nodup
import Mathlib.Data.List.Perm.Subperm
import Mathlib.Logic.Equiv.Defs
import ModelText.Name.Effective
import ModelText.Proofs.Graph.Writes

namespace ModelText

/-!
# Renamed models

Ids say in which order objects were created, and nothing else.  A model whose
objects are those of another one under other ids looks the same from every object:
the same values, owners and members, up to the renaming, and the same names.

Renamings are permutations of all ids, so they keep different ids apart and reach
every id.  A renamed model therefore has as many objects as the original, and all
walks that are bounded by this number are bounded alike.
-/

/-! ## Renaming data -/

def Value.rename (rename : ObjectId → ObjectId) : Value → Value
  | .object target => .object (rename target)
  | value => value

@[simp] theorem Value.rename_object (rename : ObjectId → ObjectId) (target : ObjectId) :
    (Value.object target).rename rename = .object (rename target) := rfl

@[simp] theorem Value.rename_proxy (rename : ObjectId → ObjectId) (text : String) :
    (Value.proxy text).rename rename = .proxy text := rfl

/-- What is read off renamed data is what is read off the data, renamed. -/
theorem filterMap_map_of_commutes {α β γ δ : Type} {change : α → β} {read : α → Option γ}
    {readToo : β → Option δ} {carry : γ → δ}
    (commutes : ∀ datum, readToo (change datum) = (read datum).map carry) (data : List α) :
    (data.map change).filterMap readToo = (data.filterMap read).map carry := by
  rw [List.filterMap_map, List.map_filterMap]
  congr 1
  exact funext commutes

theorem Value.object?_rename (rename : ObjectId → ObjectId) (value : Value) :
    (value.rename rename).object? = value.object?.map rename := by
  cases value <;> rfl

theorem Value.text?_rename (rename : ObjectId → ObjectId) (value : Value) :
    (value.rename rename).text? = value.text? := by
  cases value <;> rfl

def Slot.rename (rename : ObjectId → ObjectId) : Slot → Slot
  | .single value => .single (value.rename rename)
  | .many values => .many (values.map (Value.rename rename))

theorem Slot.values_rename (rename : ObjectId → ObjectId) (slot : Slot) :
    (slot.rename rename).values = slot.values.map (Value.rename rename) := by
  cases slot <;> rfl

def Slots.rename (rename : ObjectId → ObjectId) (slots : Slots) : Slots :=
  ⟨slots.cells.map (Option.map (Slot.rename rename))⟩

theorem Value.rename_refl (value : Value) : value.rename (Equiv.refl ObjectId) = value := by
  cases value <;> rfl

theorem Slot.rename_refl (slot : Slot) : slot.rename (Equiv.refl ObjectId) = slot := by
  cases slot with
  | single value => exact congrArg Slot.single value.rename_refl
  | many values =>
      have same : values.map (Value.rename (Equiv.refl ObjectId)) = values :=
        List.map_id'' Value.rename_refl values
      exact congrArg Slot.many same

theorem Slots.get?_rename (rename : ObjectId → ObjectId) (slots : Slots)
    (feature : Metafeature) :
    (slots.rename rename).get? feature = (slots.get? feature).map (Slot.rename rename) := by
  simp [Slots.get?, Slots.rename]

/-- The place of an object, in its renamed container. -/
def renamePlace (rename : ObjectId → ObjectId) (place : ObjectId × Metafeature) :
    ObjectId × Metafeature :=
  (rename place.1, place.2)

/-- An object that is renamed together with everything it holds. -/
def Object.rename (rename : ObjectId → ObjectId) (object : Object) : Object where
  id := rename object.id
  metaclass := object.metaclass
  slots := object.slots.rename rename
  container := object.container.map (renamePlace rename)

theorem Object.rename_refl (object : Object) :
    object.rename (Equiv.refl ObjectId) = object := by
  have slots : object.slots.rename (Equiv.refl ObjectId) = object.slots := by
    apply Slots.ext_get?
    intro feature
    rw [Slots.get?_rename]
    cases object.slots.get? feature with
    | none => rfl
    | some slot => exact congrArg some slot.rename_refl
  have container : object.container.map (renamePlace (Equiv.refl ObjectId)) =
      object.container := by
    cases object.container <;> rfl
  rw [Object.rename, slots, container]
  rfl

def ReferenceSite.rename (rename : ObjectId → ObjectId) (site : ReferenceSite) :
    ReferenceSite :=
  { site with source := rename site.source }

theorem ReferenceSite.rename_injective {rename : ObjectId → ObjectId}
    (injective : Function.Injective rename) :
    Function.Injective (ReferenceSite.rename rename) := by
  intro first second same
  rcases first with ⟨source, feature, index⟩
  rcases second with ⟨sourceToo, featureToo, indexToo⟩
  rw [ReferenceSite.rename, ReferenceSite.rename, ReferenceSite.mk.injEq] at same
  rw [ReferenceSite.mk.injEq]
  exact ⟨injective same.1, same.2⟩

namespace Model

theorem ids_nodup (model : Model) : model.ids.Nodup :=
  List.nodup_range.map fun _ _ same => congrArg ObjectId.index same

theorem length_ids (model : Model) : model.ids.length = model.objects.size := by
  rw [ids, List.length_map, List.length_range]

/-- The objects of a model are those of another one under other ids. -/
structure RenamesObjects (model : Model) (permutation : Equiv.Perm ObjectId) (other : Model) :
    Prop where
  get?_eq : ∀ id, other.get? (permutation id) = (model.get? id).map (Object.rename permutation)

/-- A model is another one under other ids, recorded source tokens included. -/
structure Renames (model : Model) (permutation : Equiv.Perm ObjectId) (other : Model) : Prop
    extends RenamesObjects model permutation other where
  sourceToken?_eq : ∀ site, other.sourceToken? (site.rename permutation) = model.sourceToken? site

theorem renamesObjects_of_objects_eq {model other : Model}
    (same : other.objects = model.objects) :
    RenamesObjects model (Equiv.refl ObjectId) other where
  get?_eq := by
    intro id
    rw [get?, same, get?, Equiv.refl_apply]
    cases model.objects[id.index]? with
    | none => rfl
    | some object => exact congrArg some object.rename_refl.symm

namespace RenamesObjects

variable {model other : Model} {permutation : Equiv.Perm ObjectId}
  (renames : RenamesObjects model permutation other)
include renames

/-! ## Objects and values -/

theorem metaclass?_eq (id : ObjectId) :
    other.metaclass? (permutation id) = model.metaclass? id := by
  rw [metaclass?, renames.get?_eq, Option.map_map]
  rfl

theorem isA_eq (id : ObjectId) (general : Metaclass) :
    other.isA (permutation id) general = model.isA id general := by
  rw [isA, renames.metaclass?_eq, isA]

theorem slot?_eq (owner : ObjectId) (feature : Metafeature) :
    other.slot? (permutation owner) feature =
      (model.slot? owner feature).map (Slot.rename permutation) := by
  rw [slot?, renames.get?_eq, slot?]
  cases model.get? owner with
  | none => rfl
  | some object => exact Slots.get?_rename permutation object.slots feature

theorem values_eq (owner : ObjectId) (feature : Metafeature) :
    other.values (permutation owner) feature =
      (model.values owner feature).map (Value.rename permutation) := by
  rw [values, renames.slot?_eq, values]
  cases model.slot? owner feature with
  | none => rfl
  | some slot => exact Slot.values_rename permutation slot

theorem value?_eq (owner : ObjectId) (feature : Metafeature) :
    other.value? (permutation owner) feature =
      (model.value? owner feature).map (Value.rename permutation) := by
  rw [value?, renames.values_eq, List.head?_map, value?]

theorem objectValues_eq (owner : ObjectId) (feature : Metafeature) :
    other.objectValues (permutation owner) feature =
      (model.objectValues owner feature).map permutation := by
  rw [objectValues, renames.values_eq, objectValues]
  exact filterMap_map_of_commutes (Value.object?_rename permutation) _

theorem value?_object?_eq (owner : ObjectId) (feature : Metafeature) :
    (other.value? (permutation owner) feature).bind Value.object? =
      ((model.value? owner feature).bind Value.object?).map permutation := by
  rw [renames.value?_eq]
  cases model.value? owner feature with
  | none => rfl
  | some value => exact Value.object?_rename permutation value

/-- What does not look at objects reads the same from the first value of a feature. -/
theorem value?_bind_eq {α : Type} {read : Value → Option α}
    (blind : ∀ value : Value, read (value.rename permutation) = read value)
    (owner : ObjectId) (feature : Metafeature) :
    (other.value? (permutation owner) feature).bind read =
      (model.value? owner feature).bind read := by
  rw [renames.value?_eq]
  cases model.value? owner feature with
  | none => rfl
  | some value => exact blind value

theorem text?_eq (owner : ObjectId) (feature : Metafeature) :
    other.text? (permutation owner) feature = model.text? owner feature :=
  renames.value?_bind_eq (Value.text?_rename permutation) owner feature

theorem index_lt_iff (id : ObjectId) :
    (permutation id).index < other.objects.size ↔ id.index < model.objects.size := by
  rw [← isSome_get?_iff, ← isSome_get?_iff, renames.get?_eq, Option.isSome_map]

/-- There are as many objects under other ids, since no two ids are confused and no id
is missed. -/
theorem size_eq : other.objects.size = model.objects.size := by
  apply Nat.le_antisymm
  · have short : (other.ids.map permutation.symm).length ≤ model.objects.size := by
      refine length_le_size (other.ids_nodup.map permutation.symm.injective) ?_
      intro id member
      rcases List.mem_map.mp member with ⟨renamed, listed, rfl⟩
      rw [← renames.index_lt_iff, Equiv.apply_symm_apply]
      exact (mem_ids_iff other renamed).mp listed
    rwa [List.length_map, length_ids] at short
  · have short : (model.ids.map permutation).length ≤ other.objects.size := by
      refine length_le_size (model.ids_nodup.map permutation.injective) ?_
      intro id member
      rcases List.mem_map.mp member with ⟨original, listed, rfl⟩
      exact (renames.index_lt_iff original).mpr ((mem_ids_iff model original).mp listed)
    rwa [List.length_map, length_ids] at short

/-! ## Containers -/

theorem containment?_eq (id : ObjectId) :
    other.containment? (permutation id) =
      (model.containment? id).map (renamePlace permutation) := by
  rw [containment?, renames.get?_eq, containment?]
  cases model.get? id <;> rfl

theorem container?_eq (id : ObjectId) :
    other.container? (permutation id) = (model.container? id).map permutation := by
  rw [container?, renames.containment?_eq, container?, Option.map_map, Option.map_map]
  rfl

theorem climb_eq (limit : Nat) (id : ObjectId) :
    other.climb limit (permutation id) = (model.climb limit id).map permutation := by
  induction limit generalizing id with
  | zero => rfl
  | succ limit inductionHypothesis =>
      rw [climb, climb, renames.container?_eq]
      cases model.container? id with
      | none => rfl
      | some owner => exact congrArg (permutation id :: ·) (inductionHypothesis owner)

/-- The objects around a renamed object are the renamed objects around it. -/
theorem containerChain_eq (id : ObjectId) :
    other.containerChain (permutation id) = (model.containerChain id).map permutation := by
  rw [containerChain, renames.size_eq, renames.climb_eq, containerChain]

/-! ## Navigation -/

/-- Renaming commutes with selecting objects by their class. -/
theorem filter_isA_eq (listed : List ObjectId) (general : Metaclass) :
    (listed.map permutation).filter (other.isA · general) =
      (listed.filter (model.isA · general)).map permutation := by
  rw [List.filter_map]
  congr 2
  funext id
  exact renames.isA_eq id general

theorem optionFilter_isA_eq (found : Option ObjectId) (general : Metaclass) :
    (found.map permutation).filter (other.isA · general) =
      (found.filter (model.isA · general)).map permutation := by
  cases found with
  | none => rfl
  | some id =>
      rw [Option.map_some, Option.filter_some, Option.filter_some, renames.isA_eq]
      cases model.isA id general <;> rfl

theorem ownedMemberships_eq (id : ObjectId) :
    other.ownedMemberships (permutation id) = (model.ownedMemberships id).map permutation := by
  rw [ownedMemberships, ownedRelationships, renames.objectValues_eq]
  exact renames.filter_isA_eq _ _

theorem ownedRedefinitions_eq (id : ObjectId) :
    other.ownedRedefinitions (permutation id) = (model.ownedRedefinitions id).map permutation := by
  rw [ownedRedefinitions, ownedRelationships, renames.objectValues_eq]
  exact renames.filter_isA_eq _ _

theorem ownedMemberElement?_eq (membership : ObjectId) :
    other.ownedMemberElement? (permutation membership) =
      (model.ownedMemberElement? membership).map permutation := by
  rw [ownedMemberElement?, ownedRelatedElements, renames.objectValues_eq, List.head?_map]
  rfl

theorem ownedMemberFeature?_eq (membership : ObjectId) :
    other.ownedMemberFeature? (permutation membership) =
      (model.ownedMemberFeature? membership).map permutation := by
  rw [ownedMemberFeature?, ownedRelatedElements, renames.objectValues_eq, List.find?_map,
    ownedMemberFeature?]
  congr 2
  funext id
  exact renames.isA_eq id .feature

theorem memberElement?_eq (membership : ObjectId) :
    other.memberElement? (permutation membership) =
      (model.memberElement? membership).map permutation := by
  rw [memberElement?, renames.isA_eq, memberElement?]
  split
  · exact renames.ownedMemberElement?_eq membership
  · exact renames.value?_object?_eq membership .memberElement

theorem ownerThrough?_eq (feature : Metafeature) (id : ObjectId) :
    other.ownerThrough? feature (permutation id) =
      (model.ownerThrough? feature id).map permutation := by
  rw [ownerThrough?, renames.containment?_eq, ownerThrough?]
  cases model.containment? id with
  | none => rfl
  | some place =>
      rw [Option.map_some, Option.bind_some, Option.bind_some, renamePlace]
      dsimp only
      split <;> rfl

theorem owningMembership?_eq (id : ObjectId) :
    other.owningMembership? (permutation id) = (model.owningMembership? id).map permutation := by
  rw [owningMembership?, owningRelationship?, renames.ownerThrough?_eq]
  exact renames.optionFilter_isA_eq _ _

theorem owningFeatureMembership?_eq (id : ObjectId) :
    other.owningFeatureMembership? (permutation id) =
      (model.owningFeatureMembership? id).map permutation := by
  rw [owningFeatureMembership?, renames.owningMembership?_eq]
  exact renames.optionFilter_isA_eq _ _

theorem owningType?_eq (membership : ObjectId) :
    other.owningType? (permutation membership) =
      (model.owningType? membership).map permutation := by
  rw [owningType?, owningRelatedElement?, renames.ownerThrough?_eq]
  exact renames.optionFilter_isA_eq _ _

theorem owningNamespace?_eq (id : ObjectId) :
    other.owningNamespace? (permutation id) = (model.owningNamespace? id).map permutation := by
  have related : (other.owningMembership? (permutation id)).bind other.owningRelatedElement? =
      ((model.owningMembership? id).bind model.owningRelatedElement?).map permutation := by
    rw [renames.owningMembership?_eq]
    cases model.owningMembership? id with
    | none => rfl
    | some membership => exact renames.ownerThrough?_eq .ownedRelationship membership
  rw [owningNamespace?, related]
  exact renames.optionFilter_isA_eq _ _

theorem redefinedFeature?_eq (redefinition : ObjectId) :
    other.redefinedFeature? (permutation redefinition) =
      (model.redefinedFeature? redefinition).map permutation :=
  renames.value?_object?_eq redefinition .redefinedFeature

theorem hasRedefinedFeature_eq (redefinition : ObjectId) :
    other.hasRedefinedFeature (permutation redefinition) =
      model.hasRedefinedFeature redefinition := by
  rw [hasRedefinedFeature, renames.value?_eq, hasRedefinedFeature]
  cases model.value? redefinition .redefinedFeature with
  | none => rfl
  | some value => cases value <;> rfl

theorem isInputParameter_eq (id : ObjectId) :
    other.isInputParameter (permutation id) = model.isInputParameter id := by
  have blind : ∀ value : Value, (value.rename permutation).direction? = value.direction? := by
    intro value
    cases value <;> rfl
  rw [isInputParameter, direction?, renames.value?_bind_eq blind, isInputParameter, direction?]

/-! ## Names -/

theorem declaredName?_eq (id : ObjectId) :
    other.declaredName? (permutation id) = model.declaredName? id :=
  renames.text?_eq id .declaredName

theorem namingFeature?_eq (id : ObjectId) :
    other.namingFeature? (permutation id) = (model.namingFeature? id).map permutation := by
  rw [namingFeature?, renames.isA_eq, renames.ownedRedefinitions_eq, List.head?_map,
    namingFeature?]
  split
  · cases (model.ownedRedefinitions id).head? with
    | none => rfl
    | some redefinition => exact renames.redefinedFeature?_eq redefinition
  · rfl

theorem nameAlongRedefinitions?_eq (limit : Nat) (id : ObjectId) :
    other.nameAlongRedefinitions? limit (permutation id) =
      model.nameAlongRedefinitions? limit id := by
  induction limit generalizing id with
  | zero => rfl
  | succ limit inductionHypothesis =>
      rw [nameAlongRedefinitions?, nameAlongRedefinitions?, renames.declaredName?_eq,
        renames.namingFeature?_eq]
      cases model.declaredName? id with
      | some name => rfl
      | none =>
          cases model.namingFeature? id with
          | none => rfl
          | some next => exact inductionHypothesis next

/-- Names do not depend on ids. -/
theorem effectiveName?_eq (id : ObjectId) :
    other.effectiveName? (permutation id) = model.effectiveName? id := by
  rw [effectiveName?, renames.size_eq, renames.nameAlongRedefinitions?_eq, effectiveName?]

theorem membershipName?_eq (membership : ObjectId) :
    other.membershipName? (permutation membership) = model.membershipName? membership := by
  rw [membershipName?, renames.text?_eq, renames.memberElement?_eq, membershipName?]
  cases model.memberElement? membership with
  | none => rfl
  | some element => rw [Option.map_some, Option.bind_some, Option.bind_some,
      renames.effectiveName?_eq]

theorem namedMembers_eq (namespaceId : ObjectId) :
    other.namedMembers (permutation namespaceId) =
      (model.namedMembers namespaceId).map fun named => (named.1, permutation named.2) := by
  rw [namedMembers, renames.ownedMemberships_eq, namedMembers]
  refine filterMap_map_of_commutes (fun membership => ?_) _
  rw [renames.memberElement?_eq, renames.membershipName?_eq]
  cases model.memberElement? membership <;> cases model.membershipName? membership <;> rfl

theorem isRootNamespace_eq (id : ObjectId) :
    other.isRootNamespace (permutation id) = model.isRootNamespace id := by
  rw [isRootNamespace, renames.owningNamespace?_eq, renames.container?_eq, Option.isNone_map,
    Option.isNone_map, isRootNamespace]

theorem qualify_eq (limit : Nat) (id : ObjectId) (path : List String) :
    other.qualify limit (permutation id) path = model.qualify limit id path := by
  induction limit generalizing id path with
  | zero => rfl
  | succ limit inductionHypothesis =>
      rw [qualify, qualify, renames.owningNamespace?_eq]
      cases model.owningNamespace? id with
      | none => rfl
      | some owner =>
          rw [Option.map_some]
          dsimp only
          rw [renames.isRootNamespace_eq, renames.effectiveName?_eq]
          split
          · rfl
          · cases model.effectiveName? owner with
            | none => rfl
            | some name => exact inductionHypothesis owner (name :: path)

theorem qualifiedName?_eq (id : ObjectId) :
    other.qualifiedName? (permutation id) = model.qualifiedName? id := by
  rw [qualifiedName?, renames.effectiveName?_eq, qualifiedName?]
  cases model.effectiveName? id with
  | none => rfl
  | some name => dsimp only; rw [renames.size_eq, renames.qualify_eq]

end RenamesObjects

/-! ## Deciding whether a model is renamed -/

/-- Only the ids of existing objects need a look, if there are as many objects in both
models. -/
theorem renamesObjects_iff {model other : Model} {permutation : Equiv.Perm ObjectId} :
    RenamesObjects model permutation other ↔
      other.objects.size = model.objects.size ∧
        ∀ id, id ∈ model.ids →
          other.get? (permutation id) = (model.get? id).map (Object.rename permutation) := by
  constructor
  · intro renames
    exact ⟨renames.size_eq, fun id _ => renames.get?_eq id⟩
  · rintro ⟨size, agree⟩
    have listed : ∀ id, id ∈ model.ids → permutation id ∈ other.ids := by
      intro id member
      rw [mem_ids_iff, ← isSome_get?_iff, agree id member, Option.isSome_map, isSome_get?_iff,
        ← mem_ids_iff]
      exact member
    -- the renamed ids are distinct ids of the other model, so they are all of them
    have all : (model.ids.map permutation).Perm other.ids := by
      have distinct : (model.ids.map permutation).Nodup :=
        model.ids_nodup.map permutation.injective
      refine (List.subperm_of_subset distinct ?_).perm_of_length_le ?_
      · intro renamed member
        rcases List.mem_map.mp member with ⟨id, known, rfl⟩
        exact listed id known
      · rw [List.length_map, length_ids, length_ids]
        exact Nat.le_of_eq size
    refine ⟨fun id => ?_⟩
    by_cases member : id ∈ model.ids
    · exact agree id member
    · have unlisted : permutation id ∉ other.ids := by
        rw [← all.mem_iff, List.mem_map_of_injective permutation.injective]
        exact member
      rw [mem_ids_iff, ← isSome_get?_iff, Option.not_isSome_iff_eq_none] at member unlisted
      rw [member, unlisted]
      rfl

instance (model other : Model) (permutation : Equiv.Perm ObjectId) :
    Decidable (RenamesObjects model permutation other) :=
  decidable_of_iff' _ renamesObjects_iff

theorem sourceToken?_of_map {model other : Model} {permutation : Equiv.Perm ObjectId}
    (recorded : other.sourceTokens =
      model.sourceTokens.map fun entry => (entry.1.rename permutation, entry.2))
    (site : ReferenceSite) :
    other.sourceToken? (site.rename permutation) = model.sourceToken? site := by
  rw [sourceToken?, recorded, sourceToken?]
  induction model.sourceTokens with
  | nil => rfl
  | cons entry rest inductionHypothesis =>
      have same : (site.rename permutation == entry.1.rename permutation) =
          (site == entry.1) := by
        rw [Bool.eq_iff_iff, beq_iff_eq, beq_iff_eq]
        exact (ReferenceSite.rename_injective permutation.injective).eq_iff
      rw [List.map_cons, List.lookup_cons, same, inductionHypothesis, List.lookup_cons]

end Model

end ModelText
