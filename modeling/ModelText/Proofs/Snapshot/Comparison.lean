import ModelText.Proofs.Checks
import ModelText.Proofs.Graph.Tree
import ModelText.Snapshot.Compare

namespace ModelText

/-!
# Snapshots that match

Every existing root has a snapshot when identifiers are left out: the aliases are
the only many-valued attribute, and they are among the identifiers.  A snapshot
matches itself, since a record lists for each feature what a function of the
feature gives, so that looking a feature up finds what stands beside it.
-/

private theorem lookup_map_self {α β : Type} [DecidableEq α] {listed : List α} {key : α}
    (content : α → β) (member : key ∈ listed) :
    (listed.map fun name => (name, content name)).lookup key = some (content key) := by
  induction listed with
  | nil => cases member
  | cons head rest inductionHypothesis =>
      rw [List.map_cons, List.lookup_cons]
      by_cases same : key = head
      · rw [same, beq_self_eq_true]
      · rw [beq_eq_false_iff_ne.mpr same]
        exact inductionHypothesis ((List.mem_cons.mp member).resolve_left same)

namespace ObjectRecord

variable {model : Model} {tree : List ObjectId} {ignored : List Metafeature}
  {object : ObjectId} {number : Nat} {metaclass : Metaclass}

theorem eq_aliasIds_of_isMany {feature : Metafeature} (storage : feature.storage = .attribute)
    (many : feature.isMany = true) : feature = .aliasIds := by
  revert storage many
  cases feature <;> decide

/-- An object is recorded when the aliases are left out. -/
theorem ofClass_eq (listed : Metafeature.aliasIds ∈ ignored) :
    ofClass model tree ignored object number metaclass = .ok
      { number := number
        metaclass := metaclass
        attributes := ((recordedFeatures ignored metaclass).filter fun feature =>
          feature.storage == .attribute).map fun feature =>
            (feature, model.value? object feature)
        references := ((recordedFeatures ignored metaclass).filter fun feature =>
          feature.storage != .attribute).map fun feature =>
            (feature, (referenceValues model object feature).filterMap
              (Target.of? model tree)) } := by
  have single : ((recordedFeatures ignored metaclass).filter fun feature =>
      feature.storage == .attribute).find? Metafeature.isMany = none := by
    rw [List.find?_eq_none]
    intro feature recorded many
    rcases List.mem_filter.mp recorded with ⟨present, storage⟩
    have aliases := eq_aliasIds_of_isMany (beq_iff_eq.mp storage) many
    have kept := (List.mem_filter.mp present).2
    rw [aliases, List.contains_iff_mem.mpr listed] at kept
    cases kept
  unfold ofClass
  dsimp only
  rw [single]

theorem attributeDifference?_eq_none_iff {expected actual : ObjectRecord}
    {features : List Metafeature} {content other : Metafeature → Option Value}
    (written : expected.attributes = features.map fun feature => (feature, content feature))
    (writtenToo : actual.attributes = features.map fun feature => (feature, other feature)) :
    expected.attributeDifference? actual = none ↔ expected.attributes = actual.attributes := by
  rw [attributeDifference?, written, writtenToo, List.findSome?_eq_none_iff, List.map_inj_left,
    List.forall_mem_map]
  refine forall₂_congr fun feature inside => ?_
  dsimp only
  rw [lookup_map_self other inside, Option.join_some]
  by_cases same : content feature = other feature <;> simp [same]

theorem referenceDifference?_eq_none_iff {expected actual : ObjectRecord}
    {features : List Metafeature} {content other : Metafeature → List Target}
    (written : expected.references = features.map fun feature => (feature, content feature))
    (writtenToo : actual.references = features.map fun feature => (feature, other feature)) :
    expected.referenceDifference? actual = none ↔ expected.references = actual.references := by
  rw [referenceDifference?, written, writtenToo, List.findSome?_eq_none_iff, List.map_inj_left,
    List.forall_mem_map]
  refine forall₂_congr fun feature inside => ?_
  dsimp only
  rw [lookup_map_self other inside, Option.getD_some]
  by_cases same : content feature = other feature <;> simp [same]

theorem difference?_self {record : ObjectRecord}
    (taken : ofClass model tree ignored object number metaclass = .ok record) :
    record.difference? record = none := by
  unfold ofClass at taken
  dsimp only at taken
  split at taken
  · cases taken
  · cases taken
    rw [difference?, bne_self_eq_false, if_neg Bool.false_ne_true,
      (attributeDifference?_eq_none_iff rfl rfl).mpr rfl]
    exact (referenceDifference?_eq_none_iff rfl rfl).mpr rfl

end ObjectRecord

namespace Snapshot

variable {model : Model} {root : ObjectId}

theorem capture_eq (exist : root.index < model.objects.size) :
    capture model root =
      ((model.containmentTree root).zipIdx.mapM fun entry =>
        ObjectRecord.capture model (model.containmentTree root)
          Options.standardIgnoredFeatures entry.1 entry.2).map Snapshot.mk := by
  have present : (model.get? root).isNone = false := by
    rw [Option.isNone_eq_false_iff]
    exact (Model.isSome_get?_iff model root).mpr exist
  rw [capture, captureIgnoring, present, if_neg Bool.false_ne_true]

/-- An existing root has a snapshot, and the snapshot matches itself. -/
theorem capture_eq_ok (forest : model.Forest) (exist : root.index < model.objects.size) :
    ∃ snapshot, capture model root = .ok snapshot ∧ snapshot.isMatch snapshot = true := by
  have leftOut : Metafeature.aliasIds ∈ Options.standardIgnoredFeatures :=
    List.mem_cons_of_mem _ List.mem_cons_self
  have each : ∀ entry, entry ∈ (model.containmentTree root).zipIdx →
      ∃ record, ObjectRecord.capture model (model.containmentTree root)
        Options.standardIgnoredFeatures entry.1 entry.2 = .ok record ∧
          record.difference? record = none := by
    intro entry member
    have known := forest.index_lt_of_mem_containmentTree exist
      (List.fst_mem_of_mem_zipIdx member)
    rcases Model.exists_metaclass known with ⟨metaclass, classified⟩
    rw [ObjectRecord.capture, classified]
    dsimp only
    cases taken : ObjectRecord.ofClass model (model.containmentTree root)
        Options.standardIgnoredFeatures entry.1 entry.2 metaclass with
    | error error =>
        rw [ObjectRecord.ofClass_eq leftOut] at taken
        cases taken
    | ok record => exact ⟨record, rfl, ObjectRecord.difference?_self taken⟩
  cases taken : (model.containmentTree root).zipIdx.mapM fun entry =>
      ObjectRecord.capture model (model.containmentTree root)
        Options.standardIgnoredFeatures entry.1 entry.2 with
  | error error =>
      obtain ⟨entry, member, _, failing⟩ :=
        exists_firstOf_iff.mp ⟨error, mapM_eq_error_iff.mp taken⟩
      obtain ⟨record, given, _⟩ := each entry member
      rw [given] at failing
      cases failing
  | ok records =>
      refine ⟨⟨records⟩, by rw [capture_eq exist, taken]; rfl, ?_⟩
      rw [isMatch, compare, bne_self_eq_false, if_neg Bool.false_ne_true,
        Option.isNone_iff_eq_none, List.findSome?_eq_none_iff]
      intro pair member
      rcases List.mem_iff_getElem.mp member with ⟨index, bound, rfl⟩
      rw [List.getElem_zip]
      have position : index < records.length := by
        rwa [List.length_zip, Nat.min_self] at bound
      obtain ⟨entry, listed, given⟩ :=
        exists_of_mem_forall₂ (mapM_eq_ok_iff.mp taken) (List.getElem_mem position)
      obtain ⟨other, givenToo, same⟩ := each entry listed
      rw [given] at givenToo
      cases givenToo
      exact same

end Snapshot

end ModelText
