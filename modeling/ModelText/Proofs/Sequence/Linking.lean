import Mathlib.Data.List.Induction
import ModelText.Proofs.Sequence.Designation

namespace ModelText

/-!
# Linking a copy

Linking assigns to the copy of a reference what its token designates, and
restoring gives back the references that are never printed.  Either step fills
one reference of the copy with the counterpart of what the original holds.  The
copy mirrors the original before and after, so the tokens of later references
still designate what they designated in the original, provided that the names on
the way to their targets are there in time.
-/

namespace Rebuild

variable {model copied : Model} {tree : List ObjectId} {object : ObjectId}
  {feature : Metafeature}

theorem isMany_of_crossReference (stored : feature.isStored = true)
    (storage : feature.storage = .crossReference) : feature.isMany = false := by
  revert stored storage
  cases feature <;> decide

/-- The copy holds the counterparts of what the original holds. -/
def Linked (model : Model) (tree : List ObjectId) (copied : Model) (object : ObjectId)
    (feature : Metafeature) : Prop :=
  copied.values (copyOf tree object) feature =
    (model.values object feature).map (Value.rename (copyOf tree))

/-- Nothing is linked where there is nothing to link. -/
theorem Mirrors.linked_of_nil (mirrors : Mirrors model tree copied) (member : object ∈ tree)
    (storage : feature.storage = .crossReference) (nothing : model.values object feature = []) :
    Linked model tree copied object feature := by
  rcases mirrors.reference_eq member storage with missing | present
  · rw [Linked, missing, nothing]
    rfl
  · exact present

/-- One reference of the copy is filled, and what was linked stays linked. -/
theorem Mirrors.fill (mirrors : Mirrors model tree copied) (forest : model.Forest)
    (member : object ∈ tree) (storage : feature.storage = .crossReference) {target : ObjectId}
    (held : model.values object feature = [.object target]) :
    ∃ next, copied.assign (copyOf tree object) feature (.object (copyOf tree target)) =
        .ok next ∧
      Mirrors model tree next ∧ Linked model tree next object feature ∧
      ∀ other, other ∈ tree → ∀ read, Linked model tree copied other read →
        Linked model tree next other read := by
  rcases forest.holder_fits (held ▸ List.mem_cons_self :
    Value.object target ∈ model.values object feature) with ⟨metaclass, known, listed⟩
  have single := isMany_of_crossReference (List.mem_filter.mp listed).2 storage
  have notContainment : feature.storage ≠ .containment := by
    rw [storage]
    decide
  rcases Model.exists_assign (.object (copyOf tree target))
    ((mirrors.metaclass_eq member).trans known) listed
    (fun contained => absurd contained notContainment) with ⟨next, accepted⟩
  have linked : Linked model tree next object feature := by
    rw [Linked, Model.values_assign accepted, if_pos ⟨rfl, rfl⟩, single, held]
    rfl
  have kept : ∀ other, other ∈ tree → ∀ read, ¬(other = object ∧ read = feature) →
      next.values (copyOf tree other) read = copied.values (copyOf tree other) read := by
    intro other inside read elsewhere
    rw [Model.values_assign accepted, if_neg]
    rintro ⟨same, sameFeature⟩
    exact elsewhere ⟨(copyOf_inj inside).mp same, sameFeature⟩
  have otherStorage : ∀ other, other ∈ tree → ∀ read, read.storage ≠ .crossReference →
      next.values (copyOf tree other) read = copied.values (copyOf tree other) read := by
    intro other inside read different
    refine kept other inside read ?_
    rintro ⟨_, rfl⟩
    exact different storage
  refine ⟨next, accepted, ?_, linked, ?_⟩
  · constructor
    case reachable => exact mirrors.reachable.assign accepted
    case size_eq => exact (Model.size_assign accepted).trans mirrors.size_eq
    case metaclass_eq =>
      intro other inside
      exact (Model.metaclass?_assign accepted _).trans (mirrors.metaclass_eq inside)
    case containment_eq =>
      intro other inside
      rw [Model.containment?_assign accepted, if_neg (fun adopted => notContainment adopted.1)]
      exact mirrors.containment_eq inside
    case attribute_eq =>
      intro other inside read readStorage notId notAlias
      rw [otherStorage other inside read (by rw [readStorage]; decide)]
      exact mirrors.attribute_eq inside readStorage notId notAlias
    case children_eq =>
      intro other inside read readStorage
      rw [Model.objectValues, otherStorage other inside read (by rw [readStorage]; decide)]
      exact mirrors.children_eq inside readStorage
    case reference_eq =>
      intro other inside read readStorage
      by_cases here : other = object ∧ read = feature
      · rcases here with ⟨rfl, rfl⟩
        exact Or.inr linked
      · rw [kept other inside read here]
        exact mirrors.reference_eq inside readStorage
  · intro other inside read before
    by_cases here : other = object ∧ read = feature
    · rcases here with ⟨rfl, rfl⟩
      exact linked
    · rw [Linked, kept other inside read here]
      exact before

/-! ## Linking -/

/-- A token of the tree that designates the object its reference holds. -/
structure Refers (model : Model) (tree : List ObjectId) (separator : String)
    (entry : ObjectId × Metafeature × String) : Prop where
  member : entry.1 ∈ tree
  storage : entry.2.1.storage = .crossReference
  designates : ∃ target scope, target ∈ tree ∧
    model.values entry.1 entry.2.1 = [.object target] ∧
    Scope.containment Model.qualifiedName? model entry.1 entry.2.1 = some scope ∧
    scope (QualifiedName.parse entry.2.2 separator) = some target

/-- There is only one object that a reference refers to, and it belongs to the tree. -/
theorem Refers.target_mem {separator : String} {entry : ObjectId × Metafeature × String}
    (refers : Refers model tree separator entry) {target : ObjectId}
    (held : model.values entry.1 entry.2.1 = [.object target]) : target ∈ tree := by
  rcases refers.designates with ⟨referred, _, inside, also, _⟩
  rw [held] at also
  cases also
  exact inside

/-- The names on the path of a target are there once the references before its own are
linked. -/
def KeptInTime (model : Model) (tree : List ObjectId)
    (references : List (ObjectId × Metafeature × String)) : Prop :=
  ∀ {before entry after}, references = before ++ entry :: after →
    ∀ copied, Mirrors model tree copied →
      (∀ earlier, earlier ∈ before → Linked model tree copied earlier.1 earlier.2.1) →
        ∀ {target}, model.values entry.1 entry.2.1 = [.object target] →
          KeepsPath model tree copied target

/-- Nothing is missing in time where nothing is ever missing. -/
theorem SelfContained.keptInTime (contained : SelfContained model tree) (forest : model.Forest)
    (enclosed : model.Enclosed tree) {references : List (ObjectId × Metafeature × String)}
    {separator : String}
    (refer : ∀ entry, entry ∈ references → Refers model tree separator entry) :
    KeptInTime model tree references := by
  intro before entry after split copied mirrors _ target held ancestor above
  have listed : entry ∈ references := by
    rw [split]
    exact List.mem_append_right _ List.mem_cons_self
  have around := enclosed.containerChain_subset forest ((refer entry listed).target_mem held)
  exact mirrors.effectiveName?_eq forest enclosed contained (around above)

section

variable (forest : model.Forest) (enclosed : model.Enclosed tree) (inward : Inward model tree)
include forest enclosed inward

/-- Linking one reference fills it, if the names on the path of its target are there. -/
theorem Mirrors.link (mirrors : Mirrors model tree copied) {separator : String}
    {entry : ObjectId × Metafeature × String} (refers : Refers model tree separator entry)
    (keeps : ∀ {target}, model.values entry.1 entry.2.1 = [.object target] →
      KeepsPath model tree copied target) :
    ∃ next, Rebuild.link separator copied (copyOf tree entry.1, entry.2) = .ok next ∧
      Mirrors model tree next ∧ Linked model tree next entry.1 entry.2.1 ∧
      ∀ other, other ∈ tree → ∀ read, Linked model tree copied other read →
        Linked model tree next other read := by
  rcases entry with ⟨object, feature, token⟩
  rcases refers with ⟨member, storage, target, scope, inside, held, visible, found⟩
  rcases mirrors.designates_copy forest enclosed inward member visible inside (keeps held) found
    with ⟨copiedScope, copiedVisible, copiedFound⟩
  rcases mirrors.fill forest member storage held with ⟨next, accepted, further⟩
  refine ⟨next, ?_, further⟩
  have designated : Rebuild.target copied separator (copyOf tree object) feature token =
      .ok (copyOf tree target) := by
    rw [Rebuild.target, copiedVisible]
    dsimp only
    rw [copiedFound]
  rw [Rebuild.link, designated]
  exact assign_eq_ok accepted

/-- Linking references one after the other fills them all, if names are there in time. -/
theorem Mirrors.link_all (mirrors : Mirrors model tree copied) {separator : String}
    {references : List (ObjectId × Metafeature × String)}
    (refer : ∀ entry, entry ∈ references → Refers model tree separator entry)
    (kept : KeptInTime model tree references) :
    ∃ linked, (references.map fun entry => (copyOf tree entry.1, entry.2)).foldlM
        (Rebuild.link separator) copied = .ok linked ∧
      Mirrors model tree linked ∧
      (∀ entry, entry ∈ references → Linked model tree linked entry.1 entry.2.1) ∧
      ∀ other, other ∈ tree → ∀ read, Linked model tree copied other read →
        Linked model tree linked other read := by
  -- The last reference finds all the others linked.
  induction references using List.reverseRecOn with
  | nil =>
      refine ⟨copied, rfl, mirrors, ?_, fun _ _ _ before => before⟩
      exact fun entry member => absurd member List.not_mem_nil
  | append_singleton front last inductionHypothesis =>
      have keptFront : KeptInTime model tree front := by
        intro before entry after split
        have longer : front ++ [last] = before ++ entry :: (after ++ [last]) := by
          rw [split, List.append_assoc, List.cons_append]
        exact kept longer
      rcases inductionHypothesis (fun entry member =>
        refer entry (List.mem_append_left _ member)) keptFront with
        ⟨middle, linkedFront, mirrorsMiddle, filledFront, keptMiddle⟩
      have refersLast := refer last (List.mem_append_right _ List.mem_cons_self)
      rcases mirrorsMiddle.link forest enclosed inward refersLast
        (kept rfl middle mirrorsMiddle filledFront) with
        ⟨linked, linkedLast, mirrorsLinked, filled, keptLast⟩
      refine ⟨linked, ?_, mirrorsLinked, ?_, ?_⟩
      · rw [List.map_append]
        exact foldlM_append_eq_ok linkedFront (foldlM_cons_eq_ok linkedLast rfl)
      · intro other member
        rcases List.mem_append.mp member with earlier | isLast
        · exact keptLast _ (refer other (List.mem_append_left _ earlier)).member _
            (filledFront other earlier)
        · rw [List.mem_singleton.mp isLast]
          exact filled
      · intro other inside read before
        exact keptLast other inside read (keptMiddle other inside read before)

end

/-! ## Restoring -/

/-- Back-references hold the element that owns their relationship. -/
def BackReferencesStand (model : Model) (tree : List ObjectId) : Prop :=
  ∀ {object}, object ∈ tree → ∀ {metaclass feature}, model.metaclass? object = some metaclass →
    backReference? metaclass = some feature →
      model.values object feature =
        ((model.owningRelatedElement? object).map Value.object).toList

theorem storage_of_backReference? {metaclass : Metaclass}
    (known : backReference? metaclass = some feature) :
    feature.storage = .crossReference ∧ feature.isMany = false := by
  unfold backReference? at known
  split at known <;> cases known <;> decide

/-- Restoring one relationship fills its back-reference, if it has one. -/
theorem Mirrors.restore (mirrors : Mirrors model tree copied) (forest : model.Forest)
    (stand : BackReferencesStand model tree) (member : object ∈ tree) :
    ∃ next, Rebuild.restore copied (copyOf tree object) = .ok next ∧
      Mirrors model tree next ∧
      (∀ metaclass feature, model.metaclass? object = some metaclass →
        backReference? metaclass = some feature → Linked model tree next object feature) ∧
      ∀ other, other ∈ tree → ∀ read, Linked model tree copied other read →
        Linked model tree next other read := by
  have owner_eq : copied.owningRelatedElement? (copyOf tree object) =
      (model.owningRelatedElement? object).map (copyOf tree) :=
    mirrors.ownerThrough?_eq member .ownedRelationship
  unfold Rebuild.restore
  rw [owner_eq, mirrors.metaclass_eq member]
  cases owned : model.owningRelatedElement? object with
  | none =>
      refine ⟨copied, rfl, mirrors, ?_, fun _ _ _ before => before⟩
      intro metaclass feature known back
      refine mirrors.linked_of_nil member (storage_of_backReference? back).1 ?_
      rw [stand member known back, owned]
      rfl
  | some owner =>
      cases back : (model.metaclass? object).bind backReference? with
      | none =>
          refine ⟨copied, rfl, mirrors, ?_, fun _ _ _ before => before⟩
          intro metaclass feature known given
          rw [known, Option.bind_some, given] at back
          cases back
      | some feature =>
          rcases Option.bind_eq_some_iff.mp back with ⟨metaclass, known, given⟩
          have held : model.values object feature = [.object owner] := by
            rw [stand member known given, owned]
            rfl
          rcases storage_of_backReference? given with ⟨storage, single⟩
          rcases mirrors.fill forest member storage held with
            ⟨next, accepted, mirrorsNext, filled, kept⟩
          refine ⟨next, ?_, mirrorsNext, ?_, kept⟩
          · rw [Model.assign, if_neg (by simp [single])] at accepted
            dsimp only [Option.map_some]
            rw [accepted]
            rfl
          · intro other otherFeature otherKnown otherGiven
            rw [known] at otherKnown
            cases otherKnown
            rw [given] at otherGiven
            cases otherGiven
            exact filled

/-- Restoring a list of objects of the tree fills all their back-references. -/
theorem Mirrors.restore_all (mirrors : Mirrors model tree copied) (forest : model.Forest)
    (stand : BackReferencesStand model tree) {listed : List ObjectId} (inside : listed ⊆ tree) :
    ∃ restored, (listed.map (copyOf tree)).foldlM Rebuild.restore copied = .ok restored ∧
      Mirrors model tree restored ∧
      (∀ object, object ∈ listed → ∀ metaclass feature,
        model.metaclass? object = some metaclass → backReference? metaclass = some feature →
          Linked model tree restored object feature) ∧
      ∀ other, other ∈ tree → ∀ read, Linked model tree copied other read →
        Linked model tree restored other read := by
  induction listed generalizing copied with
  | nil =>
      refine ⟨copied, rfl, mirrors, ?_, fun _ _ _ before => before⟩
      exact fun object member => absurd member List.not_mem_nil
  | cons object rest inductionHypothesis =>
      have member := inside List.mem_cons_self
      rcases mirrors.restore forest stand member with
        ⟨middle, first, mirrorsMiddle, filled, keptFirst⟩
      rcases inductionHypothesis mirrorsMiddle (fun _ further =>
        inside (List.mem_cons_of_mem _ further)) with
        ⟨restored, others, mirrorsRestored, filledRest, keptRest⟩
      refine ⟨restored, foldlM_cons_eq_ok first others, mirrorsRestored, ?_, ?_⟩
      · intro other listed metaclass feature known back
        rcases List.mem_cons.mp listed with rfl | further
        · exact keptRest _ member _ (filled metaclass feature known back)
        · exact filledRest other further metaclass feature known back
      · intro other otherInside read before
        exact keptRest other otherInside read (keptFirst other otherInside read before)

/-! ## The tree of the copy -/

theorem Mirrors.contents_eq (mirrors : Mirrors model tree copied) (member : object ∈ tree) :
    copied.contents (copyOf tree object) = (model.contents object).map (copyOf tree) := by
  unfold Model.contents
  rw [mirrors.metaclass_eq member]
  cases model.metaclass? object with
  | none => rfl
  | some metaclass =>
      dsimp only
      rw [List.map_flatMap]
      apply List.flatMap_congr
      intro feature listed
      exact mirrors.children_eq member (beq_iff_eq.mp (List.mem_filter.mp listed).2)

/-- The tree of a copy is the copy of the tree, in the same order. -/
theorem Mirrors.containmentTree_eq (mirrors : Mirrors model tree copied) (forest : model.Forest)
    (enclosed : model.Enclosed tree) (member : object ∈ tree) :
    copied.containmentTree (copyOf tree object) =
      (model.containmentTree object).map (copyOf tree) := by
  have copiedForest := mirrors.reachable.forest
  have descends : Model.Descends model (fun id => id) model.contents := forest.contents_descend
  rw [copiedForest.containmentTree_eq, forest.containmentTree_eq]
  revert member
  apply forest.descend descends (fun object => object ∈ tree →
    copied.preorder copied.contents (copyOf tree object) =
      (model.preorder model.contents object).map (copyOf tree))
  intro object inductionHypothesis member
  rw [Model.preorder_eq copiedForest copiedForest.contents_descend,
    Model.preorder_eq forest descends object, mirrors.contents_eq member, List.map_cons,
    List.flatMap_map, List.map_flatMap]
  congr 1
  apply List.flatMap_congr
  intro child below
  refine inductionHypothesis child below ?_
  rcases Option.map_eq_some_iff.mp ((forest.mem_contents_iff object child).mp below) with
    ⟨place, named, rfl⟩
  exact enclosed.child member named

end Rebuild

end ModelText
