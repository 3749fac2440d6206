import ModelText.Proofs.Sequence.Linking
import ModelText.Proofs.Snapshot.Comparison

namespace ModelText

/-!
# The snapshot of a copy

A copy of a tree is complete when all its references are linked.  A snapshot
names objects by their positions in the tree, and a copy stands at the position
of its original.  So a complete copy has the same snapshot, as long as the
references of the tree do not leave it.
-/

namespace Rebuild

variable {model copied : Model} {tree : List ObjectId} {object : ObjectId}
  {feature : Metafeature}

/-- All references of a tree are linked in its copy. -/
def Complete (model : Model) (tree : List ObjectId) (copied : Model) : Prop :=
  ∀ {object}, object ∈ tree → ∀ {feature}, feature.storage = .crossReference →
    Linked model tree copied object feature

/-- A complete copy refers to the counterparts of what the original refers to. -/
theorem Mirrors.referenceValues_eq (mirrors : Mirrors model tree copied)
    (forest : model.Forest) (complete : Complete model tree copied) (member : object ∈ tree)
    (notAttribute : feature.storage ≠ .attribute) :
    ObjectRecord.referenceValues copied (copyOf tree object) feature =
      (ObjectRecord.referenceValues model object feature).map (Value.rename (copyOf tree)) := by
  unfold ObjectRecord.referenceValues
  cases storage : feature.storage with
  | «attribute» => exact absurd storage notAttribute
  | crossReference => exact complete member storage
  | containment =>
      rw [if_neg (by decide), if_neg (by decide),
        mirrors.reachable.forest.values_eq_map_objectValues storage, mirrors.children_eq member
        storage, forest.values_eq_map_objectValues storage, List.map_map, List.map_map]
      rfl
  | container =>
      rw [if_pos (by decide), if_pos (by decide)]
      unfold ObjectRecord.containerValue? Model.owningRelationship? Model.owningRelatedElement?
      split
      · rw [mirrors.ownerThrough?_eq member]
        cases model.ownerThrough? .ownedRelatedElement object <;> rfl
      · rw [mirrors.ownerThrough?_eq member]
        cases model.ownerThrough? .ownedRelationship object <;> rfl
      · rfl

theorem mem_of_mem_referenceValues (forest : model.Forest) (enclosed : model.Enclosed tree)
    (contained : SelfContained model tree) (member : object ∈ tree)
    (notAttribute : feature.storage ≠ .attribute) {value : Value}
    (held : value ∈ ObjectRecord.referenceValues model object feature) :
    ∃ target, target ∈ tree ∧ value = .object target := by
  unfold ObjectRecord.referenceValues at held
  cases storage : feature.storage with
  | «attribute» => exact absurd storage notAttribute
  | crossReference =>
      rw [storage, if_neg (by decide)] at held
      exact contained.internal member storage held
  | containment =>
      rw [storage, if_neg (by decide), forest.values_eq_map_objectValues storage] at held
      rcases List.mem_map.mp held with ⟨child, below, rfl⟩
      exact ⟨child, Mirrors.mem_of_mem_objectValues forest enclosed member storage below, rfl⟩
  | container =>
      rw [storage, if_pos (by decide)] at held
      unfold ObjectRecord.containerValue? Model.owningRelationship?
        Model.owningRelatedElement? at held
      split at held
      · rcases Option.map_eq_some_iff.mp (Option.mem_toList.mp held) with ⟨owner, above, rfl⟩
        exact ⟨owner, Mirrors.ownerThrough?_mem enclosed member above, rfl⟩
      · rcases Option.map_eq_some_iff.mp (Option.mem_toList.mp held) with ⟨owner, above, rfl⟩
        exact ⟨owner, Mirrors.ownerThrough?_mem enclosed member above, rfl⟩
      · cases held

theorem idxOf?_map_copyOf (part : List ObjectId) (inside : object ∈ tree) :
    (part.map (copyOf tree)).idxOf? (copyOf tree object) = part.idxOf? object := by
  induction part with
  | nil => rfl
  | cons head rest inductionHypothesis =>
      rw [List.map_cons, List.idxOf?_cons, List.idxOf?_cons, inductionHypothesis]
      by_cases same : head = object
      · rw [same, beq_self_eq_true, beq_self_eq_true]
      · have apart : copyOf tree head ≠ copyOf tree object := fun equal =>
          same ((copyOf_inj inside).mp equal.symm).symm
        rw [beq_eq_false_iff_ne.mpr same, beq_eq_false_iff_ne.mpr apart]

/-- A complete copy has the attributes of the original, identifiers aside. -/
theorem Mirrors.recorded_value?_eq (mirrors : Mirrors model tree copied) (member : object ∈ tree)
    {ignored : List Metafeature} (noId : Metafeature.elementId ∈ ignored)
    (noAlias : Metafeature.aliasIds ∈ ignored) {metaclass : Metaclass}
    (recorded : feature ∈ ObjectRecord.recordedFeatures ignored metaclass)
    (storage : feature.storage = .attribute) :
    copied.value? (copyOf tree object) feature = model.value? object feature := by
  have kept : feature ∉ ignored := by
    intro listed
    have notIgnored := (List.mem_filter.mp recorded).2
    rw [List.contains_iff_mem.mpr listed, Bool.not_true, Bool.and_false] at notIgnored
    cases notIgnored
  rw [Model.value?, Model.value?, mirrors.attribute_eq member storage]
  · rintro rfl
    exact kept noId
  · rintro rfl
    exact kept noAlias

theorem Mirrors.targets_eq (mirrors : Mirrors model tree copied) (forest : model.Forest)
    (enclosed : model.Enclosed tree) (contained : SelfContained model tree)
    (complete : Complete model tree copied) (member : object ∈ tree)
    (notAttribute : feature.storage ≠ .attribute) :
    (ObjectRecord.referenceValues copied (copyOf tree object) feature).filterMap
        (Target.of? copied (tree.map (copyOf tree))) =
      (ObjectRecord.referenceValues model object feature).filterMap (Target.of? model tree) := by
  rw [mirrors.referenceValues_eq forest complete member notAttribute, List.filterMap_map]
  apply List.filterMap_congr
  intro value held
  rcases mem_of_mem_referenceValues forest enclosed contained member notAttribute held with
    ⟨target, inside, rfl⟩
  rcases Option.isSome_iff_exists.mp (List.isSome_idxOf?.mpr inside) with ⟨number, found⟩
  rw [Function.comp_apply, Value.rename, Target.of?, Target.of?,
    idxOf?_map_copyOf tree inside, found]

/-- Objects are recorded alike in the original and in a complete copy. -/
theorem Mirrors.record_eq (mirrors : Mirrors model tree copied) (forest : model.Forest)
    (enclosed : model.Enclosed tree) (contained : SelfContained model tree)
    (complete : Complete model tree copied) (member : object ∈ tree)
    {ignored : List Metafeature} (noId : Metafeature.elementId ∈ ignored)
    (noAlias : Metafeature.aliasIds ∈ ignored) (number : Nat) :
    ObjectRecord.capture copied (tree.map (copyOf tree)) ignored (copyOf tree object) number =
      ObjectRecord.capture model tree ignored object number := by
  rcases Model.exists_metaclass (enclosed.exist member) with ⟨metaclass, known⟩
  rw [ObjectRecord.capture, ObjectRecord.capture, mirrors.metaclass_eq member, known]
  dsimp only
  rw [ObjectRecord.ofClass_eq noAlias, ObjectRecord.ofClass_eq noAlias]
  refine congrArg Except.ok ?_
  congr 1
  · apply List.map_congr_left
    intro feature listed
    rcases List.mem_filter.mp listed with ⟨recorded, storage⟩
    rw [mirrors.recorded_value?_eq member noId noAlias recorded (beq_iff_eq.mp storage)]
  · apply List.map_congr_left
    intro feature listed
    rw [mirrors.targets_eq forest enclosed contained complete member
      (bne_iff_ne.mp (List.mem_filter.mp listed).2)]

/-- A complete copy has the snapshot of the original. -/
theorem Mirrors.capture_eq {root : ObjectId}
    (mirrors : Mirrors model (model.containmentTree root) copied) (forest : model.Forest)
    (enclosed : model.Enclosed (model.containmentTree root))
    (contained : SelfContained model (model.containmentTree root))
    (complete : Complete model (model.containmentTree root) copied)
    (member : root ∈ model.containmentTree root) :
    Snapshot.capture copied (copyOf (model.containmentTree root) root) =
      Snapshot.capture model root := by
  have exist := enclosed.exist member
  have copiedExist : (copyOf (model.containmentTree root) root).index < copied.objects.size := by
    rw [mirrors.size_eq]
    exact List.idxOf_lt_length_of_mem member
  rw [Snapshot.capture_eq exist, Snapshot.capture_eq copiedExist,
    mirrors.containmentTree_eq forest enclosed member, List.zipIdx_map, List.mapM_map]
  refine congrArg (Except.map Snapshot.mk) (mapM_congr ?_)
  intro entry listed
  exact mirrors.record_eq forest enclosed contained complete
    (List.fst_mem_of_mem_zipIdx listed) List.mem_cons_self
    (List.mem_cons_of_mem _ List.mem_cons_self) entry.2

end Rebuild

end ModelText
