import ModelText.Proofs.Reference.Tokens
import ModelText.Proofs.Snapshot.Copied

namespace ModelText

/-!
# The round trip of a tree

A tree is readable when its references stay inside, its names do not depend on
them, and the notation leaves out nothing but identifiers and the references that
a reader restores.  A readable tree that a pass prints without an error can be
rebuilt from the events, and the result has the snapshot of the original.

The tokens were accepted in the scopes of the finished original, but they are
linked one by one in a copy that still lacks references.  This is where names
have to be independent of references: the copy then mirrors the original before
and after every link, and a mirror reads a token as the original does.

Names of a restorable tree may depend on references.  Such a tree is rebuilt in the
same way as long as each name is there in time, when the first token that spells it
is read.
-/

namespace Rebuild

/-! ## Readable trees -/

/-- A tree of which the textual notation leaves out only what its reader gives back:
identifiers, which nothing depends on, and back-references, which hold the owner that the
reader takes them to hold. -/
structure Restorable (model : Model) (root : ObjectId) : Prop
    extends Inward model (model.containmentTree root) where
  omitted : ∀ {object}, object ∈ model.containmentTree root → ∀ {feature index},
    index < (model.values object feature).length →
      index ∉ (OmissionPolicy.textual .plain).printedIndices model object feature →
        feature = .elementId ∨ feature = .aliasIds ∨
          ∃ metaclass, model.metaclass? object = some metaclass ∧
            backReference? metaclass = some feature
  restored : BackReferencesStand model (model.containmentTree root)

/-- A restorable tree with names that do not depend on references. -/
structure Readable (model : Model) (root : ObjectId) : Prop
    extends Restorable model root, SelfContained model (model.containmentTree root)

/-- Whether a tree is restorable shows object by object and feature by feature. -/
theorem restorable_iff (model : Model) (root : ObjectId) :
    Restorable model root ↔
      ∀ object ∈ model.containmentTree root,
        (model.isA object .membership = true → model.isA object .owningMembership = false →
          model.values object .memberElement = []) ∧
        ∀ feature ∈ Metafeature.all,
          (feature.storage = .crossReference → ∀ value ∈ model.values object feature,
            ∃ target ∈ model.containmentTree root, value = .object target) ∧
          (∀ index ∈ List.range (model.values object feature).length,
            index ∉ (OmissionPolicy.textual .plain).printedIndices model object feature →
              feature = .elementId ∨ feature = .aliasIds ∨
                (model.metaclass? object).bind backReference? = some feature) ∧
          ((model.metaclass? object).bind backReference? = some feature →
            model.values object feature =
              ((model.owningRelatedElement? object).map Value.object).toList) := by
  constructor
  · intro restorable object member
    refine ⟨restorable.owned member, ?_⟩
    intro feature _
    refine ⟨?_, ?_, ?_⟩
    · intro storage value held
      exact restorable.internal member storage held
    · intro index bound leftOut
      rcases restorable.omitted member (List.mem_range.mp bound) leftOut with
        isId | isAlias | back
      · exact Or.inl isId
      · exact Or.inr (Or.inl isAlias)
      · exact Or.inr (Or.inr (Option.bind_eq_some_iff.mpr back))
    · intro back
      rcases Option.bind_eq_some_iff.mp back with ⟨metaclass, known, given⟩
      exact restorable.restored member known given
  · intro each
    refine ⟨⟨?_, fun member => (each _ member).1⟩, ?_, ?_⟩
    · intro object member feature storage value held
      exact ((each object member).2 feature feature.mem_all).1 storage value held
    · intro object member feature index bound leftOut
      rcases ((each object member).2 feature feature.mem_all).2.1 index
        (List.mem_range.mpr bound) leftOut with isId | isAlias | back
      · exact Or.inl isId
      · exact Or.inr (Or.inl isAlias)
      · exact Or.inr (Or.inr (Option.bind_eq_some_iff.mp back))
    · intro object member metaclass feature known back
      exact ((each object member).2 feature feature.mem_all).2.2
        (Option.bind_eq_some_iff.mpr ⟨metaclass, known, back⟩)

instance decidableRestorable (model : Model) (root : ObjectId) :
    Decidable (Restorable model root) :=
  decidable_of_iff' _ (restorable_iff model root)

/-- Names of a readable tree are declared. -/
theorem readable_iff (model : Model) (root : ObjectId) :
    Readable model root ↔
      Restorable model root ∧ ∀ object ∈ model.containmentTree root,
        model.effectiveName? object = model.declaredName? object := by
  constructor
  · intro readable
    exact ⟨readable.toRestorable, fun _ member => readable.effective_eq member⟩
  · rintro ⟨restorable, declared⟩
    exact { restorable with effective_eq := declared _ }

instance decidableReadable (model : Model) (root : ObjectId) : Decidable (Readable model root) :=
  decidable_of_iff' _ (readable_iff model root)

namespace Restorable

variable {pass : Pass} {model : Model} {root object : ObjectId} {feature : Metafeature}

section Printed

variable (restorable : Restorable model root) (textual : pass.policy = .textual .plain)
  (forest : model.Forest)
include restorable textual

/-- Other features are printed as they are. -/
theorem printedValues_eq (member : object ∈ model.containmentTree root)
    (notId : feature ≠ .elementId) (notAlias : feature ≠ .aliasIds)
    (notBack : ∀ metaclass, model.metaclass? object = some metaclass →
      backReference? metaclass ≠ some feature) :
    pass.policy.printedValues model object feature = model.values object feature := by
  apply pass.policy.printedValues_eq
  intro index bound
  rw [textual]
  by_contra leftOut
  rcases restorable.omitted member bound leftOut with isId | isAlias | ⟨metaclass, known, back⟩
  · exact notId isId
  · exact notAlias isAlias
  · exact notBack metaclass known back

/-- Only references are back-references. -/
theorem printedValues_eq_of_storage (member : object ∈ model.containmentTree root)
    (notId : feature ≠ .elementId) (notAlias : feature ≠ .aliasIds)
    (storage : feature.storage ≠ .crossReference) :
    pass.policy.printedValues model object feature = model.values object feature :=
  restorable.printedValues_eq textual member notId notAlias fun _ _ back =>
    storage (storage_of_backReference? back).1

theorem printedObjects_eq (member : object ∈ model.containmentTree root)
    (storage : feature.storage = .containment) :
    pass.printedObjects model object feature = model.objectValues object feature := by
  rw [Pass.printedObjects, Model.objectValues,
    restorable.printedValues_eq_of_storage textual member]
  · rintro rfl
    cases storage
  · rintro rfl
    cases storage
  · rw [storage]
    decide

include forest

theorem printedChildren_eq (member : object ∈ model.containmentTree root) :
    (pass.printedChildren model object).map Prod.snd = model.contents object := by
  refine eq_of_sublist_of_subset (forest.contents_nodup object)
    (Pass.printedChildren_sublist pass model object) ?_
  intro child below
  rcases Option.map_eq_some_iff.mp ((forest.mem_contents_iff object child).mp below) with
    ⟨⟨owner, feature⟩, contained, rfl⟩
  have storage := forest.container_fits contained
  have held := (forest.mem_objectValues_iff storage owner child).mpr contained
  rw [← restorable.printedObjects_eq textual member storage] at held
  exact List.mem_map_of_mem ((Pass.mem_printedChildren_iff forest).mpr ⟨storage, held⟩)

theorem printedTree_eq : pass.printedTree model root = model.containmentTree root := by
  have descends : Model.Descends model (fun id => id) model.contents := forest.contents_descend
  have each : ∀ object, object ∈ model.containmentTree root →
      pass.printedTree model object = model.preorder model.contents object := by
    intro object
    apply forest.descend descends (fun object =>
      object ∈ model.containmentTree root →
        pass.printedTree model object = model.preorder model.contents object)
    intro object inductionHypothesis member
    rw [Pass.printedTree_eq forest, Model.preorder_eq forest descends,
      ← restorable.printedChildren_eq textual forest member, List.flatMap_map]
    refine congrArg (object :: ·) (List.flatMap_congr ?_)
    intro child below
    have under : child.2 ∈ model.contents object :=
      (Pass.printedChildren_sublist pass model object).subset (List.mem_map_of_mem below)
    refine inductionHypothesis child.2 under ?_
    rw [forest.containmentTree_eq] at member ⊢
    exact (Model.children_sublist_preorder forest descends member).subset under
  rw [each root (forest.mem_containmentTree_self root), forest.containmentTree_eq]

/-- What is replayed mirrors the tree, with all references missing. -/
theorem mirrors (enclosed : model.Enclosed (model.containmentTree root))
    (uncontained : model.containment? root = none) {replay : Replay}
    (replayed : Replayed pass model root (model.containmentTree root) replay) :
    Mirrors model (model.containmentTree root) replay.model := by
  rcases replayed with ⟨reachable, size_eq, _, _, metaclass_eq, containment_eq, values_eq, _⟩
  rw [restorable.printedTree_eq textual forest] at metaclass_eq containment_eq values_eq
  constructor
  case reachable => exact reachable
  case size_eq => exact size_eq
  case metaclass_eq => exact fun {object} member => metaclass_eq object member
  case containment_eq =>
    intro object member
    rw [containment_eq object member]
    split
    · next isRoot =>
        rw [isRoot, uncontained]
        rfl
    · rfl
  case attribute_eq =>
    intro object member feature storage notId notAlias
    rw [values_eq object member, copiedValues, storage]
    exact restorable.printedValues_eq_of_storage textual member notId notAlias
      (by rw [storage]; decide)
  case children_eq =>
    intro object member feature storage
    have entered : (model.objectValues object feature).filter
        (model.containmentTree root).contains = model.objectValues object feature := by
      refine List.filter_eq_self.mpr ?_
      intro child below
      exact List.contains_iff_mem.mpr
        (Mirrors.mem_of_mem_objectValues forest enclosed member storage below)
    rw [Model.objectValues, values_eq object member, copiedValues, storage]
    dsimp only
    rw [restorable.printedObjects_eq textual member storage, entered, List.filterMap_map]
    exact congrFun List.filterMap_eq_map _
  case reference_eq =>
    intro object member feature storage
    left
    rw [values_eq object member, copiedValues, storage]

omit textual in
theorem refers {options : Options} (standard : pass.resolver = .standard options)
    (enclosed : model.Enclosed (model.containmentTree root))
    {entry : ObjectId × Metafeature × String}
    (printed : entry ∈ (model.containmentTree root).flatMap (pass.printedReferences model)) :
    Refers model (model.containmentTree root) options.nameSeparator entry := by
  rcases List.mem_flatMap.mp printed with ⟨object, member, own⟩
  rcases Model.exists_metaclass (enclosed.exist member) with ⟨metaclass, known⟩
  rcases (Pass.mem_printedReferences_iff known entry).mp own with
    ⟨here, listed, storage, index, _, value, stored, resolved⟩
  have held := List.mem_of_getElem? stored
  rcases restorable.internal member storage held with ⟨target, inside, rfl⟩
  have single : (model.values object entry.2.1).length ≤ 1 := forest.length_values_le
    (isMany_of_crossReference (List.mem_filter.mp listed).2 storage)
  have only : model.values object entry.2.1 = [.object target] := by
    rcases List.length_eq_one_iff.mp (Nat.le_antisymm single (List.length_pos_of_mem held)) with
      ⟨sole, isSole⟩
    rw [isSole] at held ⊢
    rw [List.mem_singleton.mp held]
  rcases (Resolver.resolve_eq_ok_iff rfl).mp resolved with
    ⟨scope, bound, visible, isBound, accepted⟩
  cases isBound
  have reads := Resolver.targetToken_reads_back accepted
  rw [standard] at visible reads
  refine ⟨here ▸ member, storage, target, scope, inside, ?_, ?_, reads⟩
  · rw [here]
    exact only
  · rw [here]
    exact visible

theorem printed_or_restored (member : object ∈ model.containmentTree root)
    (accepted : pass.Accepts model object) (storage : feature.storage = .crossReference) :
    model.values object feature = [] ∨
      (∃ token, (object, feature, token) ∈ pass.printedReferences model object) ∨
      ∃ metaclass, model.metaclass? object = some metaclass ∧
        backReference? metaclass = some feature := by
  rcases accepted with ⟨metaclass, known, noError⟩
  cases stored : model.values object feature with
  | nil => exact Or.inl rfl
  | cons value rest =>
      right
      by_cases back : backReference? metaclass = some feature
      · exact Or.inr ⟨metaclass, known, back⟩
      · left
        have first : (model.values object feature)[0]? = some value := by rw [stored]; rfl
        have listed : feature ∈ metaclass.storedFeatures := by
          rcases forest.holder_fits (List.mem_of_getElem? first) with ⟨other, alsoKnown, present⟩
          rwa [Option.some.inj (known.symm.trans alsoKnown)]
        have printed : 0 ∈ pass.policy.printedIndices model object feature := by
          rw [textual]
          by_contra leftOut
          rcases restorable.omitted member (by rw [stored]; exact Nat.succ_pos _) leftOut with
            rfl | rfl | ⟨other, alsoKnown, alsoBack⟩
          · cases storage
          · cases storage
          · rw [Option.some.inj (known.symm.trans alsoKnown)] at back
            exact back alsoBack
        rcases Pass.resolve_of_accepted noError listed storage printed first with
          ⟨token, resolved⟩
        refine ⟨token, (Pass.mem_printedReferences_iff known _).mpr ?_⟩
        exact ⟨rfl, listed, storage, 0, printed, value, first, resolved⟩

end Printed

end Restorable

/-! ## The round trip -/

/-- The copy of a restorable tree is complete once references are linked and
back-references are restored, if names are there in time. -/
theorem Restorable.finish_eq_ok {pass : Pass} {model : Model} {root : ObjectId}
    {options : Options} (restorable : Restorable model root) (forest : model.Forest)
    (textual : pass.policy = .textual .plain) (standard : pass.resolver = .standard options)
    (enclosed : model.Enclosed (model.containmentTree root))
    (uncontained : model.containment? root = none)
    (accepts : ∀ object, object ∈ model.containmentTree root → pass.Accepts model object)
    {replay : Replay} (replayed : Replayed pass model root (model.containmentTree root) replay)
    (kept : KeptInTime model (model.containmentTree root)
      ((model.containmentTree root).flatMap (pass.printedReferences model))) :
    ∃ copied, finish options.nameSeparator replay =
        .ok (copied, copyOf (model.containmentTree root) root) ∧
      Mirrors model (model.containmentTree root) copied ∧
      Complete model (model.containmentTree root) copied := by
  have whole := restorable.printedTree_eq textual forest
  have member := forest.mem_containmentTree_self root
  have mirrors := restorable.mirrors textual forest enclosed uncontained replayed
  rcases mirrors.link_all forest enclosed restorable.toInward
    (fun entry printed => restorable.refers forest standard enclosed printed) kept with
    ⟨linked, linking, mirrorsLinked, filled, _⟩
  rcases mirrorsLinked.restore_all forest restorable.restored (List.Subset.refl _) with
    ⟨copied, restoring, mirrorsCopied, restored, kept⟩
  refine ⟨copied, ?_, mirrorsCopied, ?_⟩
  · have rooted : replay.root = some (copyOf (model.containmentTree root) root) := by
      rw [replayed.root_eq, whole, forest.head?_containmentTree]
      rfl
    have listed : replay.references.reverse =
        ((model.containmentTree root).flatMap (pass.printedReferences model)).map
          fun entry => (copyOf (model.containmentTree root) entry.1, entry.2) := by
      rw [replayed.references_eq, List.reverse_reverse, whole]
    rw [finish, rooted]
    dsimp only
    rw [listed, linking]
    dsimp only
    rw [mirrorsLinked.containmentTree_eq forest enclosed member, restoring]
    rfl
  · intro object inside feature storage
    rcases restorable.printed_or_restored textual forest inside (accepts object inside) storage
      with nothing | ⟨token, printed⟩ | ⟨metaclass, known, back⟩
    · exact mirrorsCopied.linked_of_nil inside storage nothing
    · exact kept object inside feature
        (filled (object, feature, token) (List.mem_flatMap.mpr ⟨object, inside, printed⟩))
    · exact restored object inside metaclass feature known back

section

variable {pass : Pass} {model : Model} {root : ObjectId}

theorem Readable.printedTree_eq (readable : Readable model root)
    (textual : pass.policy = .textual .plain) (forest : model.Forest) :
    pass.printedTree model root = model.containmentTree root :=
  readable.toRestorable.printedTree_eq textual forest

/-- Names of a readable tree are always there in time. -/
theorem finish_eq_ok {options : Options} (forest : model.Forest) (readable : Readable model root)
    (textual : pass.policy = .textual .plain) (standard : pass.resolver = .standard options)
    (enclosed : model.Enclosed (model.containmentTree root))
    (uncontained : model.containment? root = none)
    (accepts : ∀ object, object ∈ model.containmentTree root → pass.Accepts model object)
    {replay : Replay} (replayed : Replayed pass model root (model.containmentTree root) replay) :
    ∃ copied, finish options.nameSeparator replay =
        .ok (copied, copyOf (model.containmentTree root) root) ∧
      Mirrors model (model.containmentTree root) copied ∧
      Complete model (model.containmentTree root) copied :=
  readable.toRestorable.finish_eq_ok forest textual standard enclosed uncontained accepts replayed
    (readable.keptInTime forest enclosed fun _ printed =>
      readable.toRestorable.refers forest standard enclosed printed)

end

/-- A readable tree that a pass prints can be rebuilt from the events, and the
rebuilt tree has the snapshot of the original. -/
theorem rebuild_run {model : Model} {root : ObjectId} (reachable : model.Reachable)
    (exist : root.index < model.objects.size) (uncontained : model.containment? root = none)
    (readable : Readable model root) (options : Options) (constraints : Option Constraints)
    {tally : Tally}
    (printed : ((Pass.standard options constraints).run model root).result = .ok tally) :
    ∃ copied copiedRoot,
      rebuild ((Pass.standard options constraints).run model root).events
          options.nameSeparator = .ok (copied, copiedRoot) ∧
        ∃ snapshot, Snapshot.capture model root = .ok snapshot ∧
          Snapshot.capture copied copiedRoot = .ok snapshot ∧
          snapshot.isMatch snapshot = true := by
  have forest := reachable.forest
  have enclosed := forest.enclosed exist uncontained
  have whole : (Pass.standard options constraints).printedTree model root =
      model.containmentTree root := readable.printedTree_eq rfl forest
  have member := forest.mem_containmentTree_self root
  cases finished : (Pass.standard options constraints).run model root with
  | mk events result =>
      rw [finished] at printed
      cases printed
      rcases Pass.run_eq_ok forest exist finished with ⟨traced, accepts⟩
      rcases replay_trace (Pass.standard options constraints) forest exist with
        ⟨replay, replays, replayed⟩
      rw [whole] at accepts replayed
      rcases finish_eq_ok forest readable rfl rfl enclosed uncontained accepts replayed with
        ⟨copied, finishes, mirrors, complete⟩
      rcases Snapshot.capture_eq_ok forest exist with ⟨snapshot, captured, same⟩
      refine ⟨copied, copyOf (model.containmentTree root) root, ?_, snapshot, captured, ?_,
        same⟩
      · rw [rebuild, traced, replays]
        exact finishes
      · rw [mirrors.capture_eq forest enclosed readable.toSelfContained complete member]
        exact captured

/-- The part typed by a definition, with an identifier that is not printed. -/
def identifiedPart : ModelDraft :=
  Resolver.wheeledPart.set ⟨1⟩ .elementId (.text "0b8f6c1e")

theorem identifiedPart_reachable : identifiedPart.model.Reachable :=
  ModelDraft.reachable_set (ModelDraft.reachable_typedBy (ModelDraft.reachable_member
    (ModelDraft.reachable_member (ModelDraft.reachable_member (ModelDraft.reachable_member
      ModelDraft.reachable_initial _ _ _ _) _ _ _ _) _ _ _ _) _ _ _ _) _ _) _ _ _

/-- The identifier of the part is lost, as it is not printed, and the snapshots are still the
same, as they leave identifiers out. -/
theorem rebuild_run_identifiedPart :
    ∃ copied copiedRoot,
      rebuild ((Pass.standard .standard none).run identifiedPart.model ⟨0⟩).events
          Options.standard.nameSeparator = .ok (copied, copiedRoot) ∧
        ∃ snapshot, Snapshot.capture identifiedPart.model ⟨0⟩ = .ok snapshot ∧
          Snapshot.capture copied copiedRoot = .ok snapshot ∧
          snapshot.isMatch snapshot = true := by
  have exist : (ObjectId.mk 0).index < identifiedPart.model.objects.size := by decide +kernel
  have uncontained : identifiedPart.model.containment? ⟨0⟩ = none := by decide +kernel
  have readable : Readable identifiedPart.model ⟨0⟩ := by decide +kernel
  have printed : ((Pass.standard .standard none).run identifiedPart.model ⟨0⟩).result =
      .ok ⟨10, 4, 1, 2⟩ := by decide +kernel
  exact rebuild_run identifiedPart_reachable exist uncontained readable .standard none printed

end Rebuild

end ModelText
