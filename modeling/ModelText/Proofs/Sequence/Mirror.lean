import ModelText.Proofs.Graph.Renaming
import ModelText.Proofs.Name.Redefinitions
import ModelText.Proofs.Scope.Table
import ModelText.Proofs.Sequence.Copies

namespace ModelText

/-!
# Names in a copy

A copy mirrors a tree when it has the same objects with the same attributes in
the same places, while of its references any part may still be missing.  An unnamed
feature of the copy can only look along a part of the redefinitions that the original
feature looks along.  So no name of the copy is new, and names are missing only where
they depend on references that are missing.

Where no name is missing, the counterpart of whatever a name designates at a place of
the tree is what the name designates at the counterpart of the place.  The converse does
not hold: objects outside the tree can make a name ambiguous that is unique in the copy.
-/

namespace Model

/-! ## Enclosed trees -/

/-- A list of objects that lead neither to containers nor to children outside. -/
structure Enclosed (model : Model) (tree : List ObjectId) : Prop where
  nodup : tree.Nodup
  exist : ∀ {object}, object ∈ tree → object.index < model.objects.size
  owner : ∀ {object place}, object ∈ tree → model.containment? object = some place →
    place.1 ∈ tree
  child : ∀ {object child feature}, object ∈ tree →
    model.containment? child = some (object, feature) → child ∈ tree

theorem Forest.enclosed {model : Model} (forest : Forest model) {root : ObjectId}
    (exist : root.index < model.objects.size) (uncontained : model.containment? root = none) :
    Enclosed model (model.containmentTree root) := by
  have descends : Descends model (fun id => id) model.contents := forest.contents_descend
  rw [forest.containmentTree_eq]
  refine ⟨?_, ?_, ?_, ?_⟩
  · exact preorder_nodup forest descends forest.contents_nodup root
  · exact fun member => index_lt_of_mem_preorder forest descends exist member
  · intro object place member contained
    rcases mem_preorder_cases forest descends member with rfl | ⟨owner, inside, below⟩
    · rw [uncontained] at contained
      cases contained
    · have named := descends below
      rw [container?, contained] at named
      rw [Option.some.inj named]
      exact inside
  · intro object child feature member contained
    refine (children_sublist_preorder forest descends member).subset ?_
    refine (forest.mem_contents_iff object child).mpr ?_
    rw [container?, contained]
    rfl

theorem Enclosed.containerChain_subset {model : Model} {tree : List ObjectId}
    (enclosed : Enclosed model tree) (forest : Forest model) {object : ObjectId}
    (member : object ∈ tree) : model.containerChain object ⊆ tree := by
  have climbs := forest.containerChain_climbs object
  generalize model.containerChain object = chain at climbs ⊢
  induction climbs with
  | root _ => exact List.cons_subset.mpr ⟨member, List.nil_subset tree⟩
  | inside contained _ inductionHypothesis =>
      rcases Option.map_eq_some_iff.mp contained with ⟨place, named, rfl⟩
      exact List.cons_subset.mpr ⟨member, inductionHypothesis (enclosed.owner member named)⟩

theorem mem_namedMembers_iff (model : Model) (namespaceId : ObjectId) (name : String)
    (element : ObjectId) :
    (name, element) ∈ model.namedMembers namespaceId ↔
      ∃ membership, membership ∈ model.ownedMemberships namespaceId ∧
        model.memberElement? membership = some element ∧
        model.membershipName? membership = some name := by
  unfold namedMembers
  rw [List.mem_filterMap]
  refine exists_congr fun membership => and_congr_right fun _ => ?_
  cases model.memberElement? membership <;> cases model.membershipName? membership <;>
    simp [and_comm]

end Model

namespace Rebuild

/-! ## Mirrors -/

/-- A copy of a tree in which references may be missing. -/
structure Mirrors (model : Model) (tree : List ObjectId) (copied : Model) : Prop where
  reachable : copied.Reachable
  size_eq : copied.objects.size = tree.length
  metaclass_eq : ∀ {object}, object ∈ tree →
    copied.metaclass? (copyOf tree object) = model.metaclass? object
  containment_eq : ∀ {object}, object ∈ tree →
    copied.containment? (copyOf tree object) =
      (model.containment? object).map fun place => (copyOf tree place.1, place.2)
  attribute_eq : ∀ {object}, object ∈ tree → ∀ {feature}, feature.storage = .attribute →
    feature ≠ .elementId → feature ≠ .aliasIds →
      copied.values (copyOf tree object) feature = model.values object feature
  children_eq : ∀ {object}, object ∈ tree → ∀ {feature}, feature.storage = .containment →
    copied.objectValues (copyOf tree object) feature =
      (model.objectValues object feature).map (copyOf tree)
  reference_eq : ∀ {object}, object ∈ tree → ∀ {feature}, feature.storage = .crossReference →
    copied.values (copyOf tree object) feature = [] ∨
      copied.values (copyOf tree object) feature =
        (model.values object feature).map (Value.rename (copyOf tree))

/-- References stay inside a tree, and members are owned. -/
structure Inward (model : Model) (tree : List ObjectId) : Prop where
  /-- References are bound, to objects of the tree. -/
  internal : ∀ {object}, object ∈ tree → ∀ {feature}, feature.storage = .crossReference →
    ∀ {value}, value ∈ model.values object feature →
      ∃ target, target ∈ tree ∧ value = .object target
  owned : ∀ {object}, object ∈ tree → model.isA object .membership = true →
    model.isA object .owningMembership = false → model.values object .memberElement = []

/-- References stay inside a tree, and names do not depend on them: none comes from what a
feature redefines. -/
structure SelfContained (model : Model) (tree : List ObjectId) : Prop
    extends Inward model tree where
  effective_eq : ∀ {object}, object ∈ tree →
    model.effectiveName? object = model.declaredName? object

def KeepsName (model : Model) (tree : List ObjectId) (copied : Model) (object : ObjectId) :
    Prop :=
  copied.effectiveName? (copyOf tree object) = model.effectiveName? object

/-- The copies of an element and of all that contains it have their names. -/
def KeepsPath (model : Model) (tree : List ObjectId) (copied : Model) (object : ObjectId) :
    Prop :=
  ∀ {ancestor}, ancestor ∈ model.containerChain object → KeepsName model tree copied ancestor

section Mirrors

variable {model copied : Model} {tree : List ObjectId} {object : ObjectId}

namespace Mirrors

theorem isA_eq (mirrors : Mirrors model tree copied) (member : object ∈ tree)
    (general : Metaclass) :
    copied.isA (copyOf tree object) general = model.isA object general := by
  rw [Model.isA, Model.isA, mirrors.metaclass_eq member]

theorem text?_eq (mirrors : Mirrors model tree copied) (member : object ∈ tree)
    {feature : Metafeature} (storage : feature.storage = .attribute)
    (notId : feature ≠ .elementId) (notAlias : feature ≠ .aliasIds) :
    copied.text? (copyOf tree object) feature = model.text? object feature := by
  rw [Model.text?, Model.text?, Model.value?, Model.value?,
    mirrors.attribute_eq member storage notId notAlias]

theorem declaredName?_eq (mirrors : Mirrors model tree copied) (member : object ∈ tree) :
    copied.declaredName? (copyOf tree object) = model.declaredName? object :=
  mirrors.text?_eq member rfl (by decide) (by decide)

/-! ## Around an object -/

/-- Renaming commutes with selecting an object of the tree by its class. -/
theorem filter_isA_eq (mirrors : Mirrors model tree copied) {found : Option ObjectId}
    (inside : ∀ object, found = some object → object ∈ tree) (general : Metaclass) :
    (found.map (copyOf tree)).filter (copied.isA · general) =
      (found.filter (model.isA · general)).map (copyOf tree) := by
  cases found with
  | none => rfl
  | some object =>
      rw [Option.map_some, Option.filter_some, Option.filter_some,
        mirrors.isA_eq (inside object rfl)]
      cases model.isA object general <;> rfl

theorem ownerThrough?_eq (mirrors : Mirrors model tree copied) (member : object ∈ tree)
    (feature : Metafeature) :
    copied.ownerThrough? feature (copyOf tree object) =
      (model.ownerThrough? feature object).map (copyOf tree) := by
  rw [Model.ownerThrough?, Model.ownerThrough?, mirrors.containment_eq member]
  cases model.containment? object with
  | none => rfl
  | some place =>
      rw [Option.map_some, Option.bind_some, Option.bind_some]
      dsimp only
      split <;> rfl

theorem ownerThrough?_mem (enclosed : model.Enclosed tree) (member : object ∈ tree)
    {feature : Metafeature} {owner : ObjectId}
    (found : model.ownerThrough? feature object = some owner) : owner ∈ tree :=
  enclosed.owner member (Model.ownerThrough?_eq_some_iff.mp found)

theorem owningElement_mem (enclosed : model.Enclosed tree) (member : object ∈ tree)
    {owner : ObjectId}
    (found : (model.owningMembership? object).bind model.owningRelatedElement? = some owner) :
    owner ∈ tree := by
  rcases Option.bind_eq_some_iff.mp found with ⟨membership, owning, above⟩
  have through := (Option.filter_eq_some_iff.mp owning).1
  exact ownerThrough?_mem enclosed (ownerThrough?_mem enclosed member through) above

theorem owningNamespace?_mem (enclosed : model.Enclosed tree) (member : object ∈ tree)
    {owner : ObjectId} (found : model.owningNamespace? object = some owner) : owner ∈ tree :=
  owningElement_mem enclosed member (Option.filter_eq_some_iff.mp found).1

theorem owningNamespace?_eq (mirrors : Mirrors model tree copied)
    (enclosed : model.Enclosed tree) (member : object ∈ tree) :
    copied.owningNamespace? (copyOf tree object) =
      (model.owningNamespace? object).map (copyOf tree) := by
  have membership : copied.owningMembership? (copyOf tree object) =
      (model.owningMembership? object).map (copyOf tree) := by
    rw [Model.owningMembership?, Model.owningRelationship?, mirrors.ownerThrough?_eq member]
    exact mirrors.filter_isA_eq (fun _ found => ownerThrough?_mem enclosed member found) _
  have related : (copied.owningMembership? (copyOf tree object)).bind
        copied.owningRelatedElement? =
      ((model.owningMembership? object).bind model.owningRelatedElement?).map
        (copyOf tree) := by
    rw [membership]
    cases found : model.owningMembership? object with
    | none => rfl
    | some membership =>
        have through := (Option.filter_eq_some_iff.mp found).1
        exact mirrors.ownerThrough?_eq (ownerThrough?_mem enclosed member through) _
  rw [Model.owningNamespace?, related, Model.owningNamespace?]
  apply mirrors.filter_isA_eq
  intro owner found
  exact owningElement_mem enclosed member found

theorem container?_eq (mirrors : Mirrors model tree copied) (member : object ∈ tree) :
    copied.container? (copyOf tree object) = (model.container? object).map (copyOf tree) := by
  rw [Model.container?, mirrors.containment_eq member, Model.container?, Option.map_map,
    Option.map_map]
  rfl

/-- The objects around a copy are the copies of the objects around. -/
theorem containerChain_eq (mirrors : Mirrors model tree copied) (forest : model.Forest)
    (enclosed : model.Enclosed tree) (member : object ∈ tree) :
    copied.containerChain (copyOf tree object) =
      (model.containerChain object).map (copyOf tree) := by
  have climbs := forest.containerChain_climbs object
  generalize model.containerChain object = chain at climbs ⊢
  have mirrored : Model.Climbs copied (copyOf tree object) (chain.map (copyOf tree)) := by
    induction climbs with
    | @root object uncontained =>
        refine .root ?_
        rw [mirrors.container?_eq member, uncontained]
        rfl
    | @inside object owner chain contained _ inductionHypothesis =>
        rcases Option.map_eq_some_iff.mp contained with ⟨place, named, rfl⟩
        refine .inside ?_ (inductionHypothesis (enclosed.owner member named))
        rw [mirrors.container?_eq member, contained]
        rfl
  exact (mirrors.reachable.forest.containerChain_climbs _).unique mirrored

theorem depth_eq (mirrors : Mirrors model tree copied) (forest : model.Forest)
    (enclosed : model.Enclosed tree) (member : object ∈ tree) :
    copied.depth (copyOf tree object) = model.depth object := by
  rw [Model.depth, mirrors.containerChain_eq forest enclosed member, List.length_map,
    Model.depth]

/-! ## Below an object -/

theorem mem_of_mem_objectValues (forest : model.Forest) (enclosed : model.Enclosed tree)
    (member : object ∈ tree) {feature : Metafeature} (storage : feature.storage = .containment)
    {child : ObjectId} (below : child ∈ model.objectValues object feature) : child ∈ tree :=
  enclosed.child member ((forest.mem_objectValues_iff storage object child).mp below)

/-- Renaming commutes with selecting owned relationships by their class. -/
theorem ownedRelationships_filter_eq (mirrors : Mirrors model tree copied)
    (forest : model.Forest) (enclosed : model.Enclosed tree) (member : object ∈ tree)
    (general : Metaclass) :
    (copied.ownedRelationships (copyOf tree object)).filter (copied.isA · general) =
      ((model.ownedRelationships object).filter (model.isA · general)).map (copyOf tree) := by
  rw [Model.ownedRelationships, mirrors.children_eq member rfl, List.filter_map,
    Model.ownedRelationships]
  congr 1
  apply List.filter_congr
  intro relationship below
  exact mirrors.isA_eq (mem_of_mem_objectValues forest enclosed member rfl below) general

theorem ownedMemberElement?_eq (mirrors : Mirrors model tree copied) (member : object ∈ tree) :
    copied.ownedMemberElement? (copyOf tree object) =
      (model.ownedMemberElement? object).map (copyOf tree) := by
  rw [Model.ownedMemberElement?, Model.ownedRelatedElements, mirrors.children_eq member rfl,
    List.head?_map]
  rfl

theorem ownedMemberElement?_mem (forest : model.Forest) (enclosed : model.Enclosed tree)
    (member : object ∈ tree) {element : ObjectId}
    (found : model.ownedMemberElement? object = some element) : element ∈ tree :=
  mem_of_mem_objectValues forest enclosed member rfl (List.mem_of_head? found)

/-! ## Names -/

theorem ownedRedefinitions_eq (mirrors : Mirrors model tree copied) (forest : model.Forest)
    (enclosed : model.Enclosed tree) (member : object ∈ tree) :
    copied.ownedRedefinitions (copyOf tree object) =
      (model.ownedRedefinitions object).map (copyOf tree) :=
  mirrors.ownedRelationships_filter_eq forest enclosed member _

theorem firstRedefinition_mem (forest : model.Forest) (enclosed : model.Enclosed tree)
    (member : object ∈ tree) {redefinition : ObjectId}
    (first : (model.ownedRedefinitions object).head? = some redefinition) :
    redefinition ∈ tree :=
  mem_of_mem_objectValues forest enclosed member rfl
    (List.mem_filter.mp (List.mem_of_head? first)).1

theorem referenced_mem (inward : Inward model tree) (member : object ∈ tree)
    {feature : Metafeature} (storage : feature.storage = .crossReference) {target : ObjectId}
    (found : (model.value? object feature).bind Value.object? = some target) :
    target ∈ tree := by
  rcases Option.bind_eq_some_iff.mp found with ⟨value, held, isObject⟩
  rcases inward.internal member storage (List.mem_of_head? held) with ⟨referenced, inside, same⟩
  rw [same] at isObject
  exact Option.some.inj isObject ▸ inside

/-- A reference of the copy that is there leads to the counterpart of what the
original leads to. -/
theorem value?_object? (mirrors : Mirrors model tree copied) (member : object ∈ tree)
    {feature : Metafeature} (storage : feature.storage = .crossReference) {target : ObjectId}
    (found : (copied.value? (copyOf tree object) feature).bind Value.object? = some target) :
    ∃ original, (model.value? object feature).bind Value.object? = some original ∧
      target = copyOf tree original := by
  rw [Model.value?] at found ⊢
  rcases mirrors.reference_eq member storage with missing | present
  · rw [missing] at found
    cases found
  · rw [present, List.head?_map] at found
    cases first : (model.values object feature).head? with
    | none =>
        rw [first] at found
        cases found
    | some value =>
        rw [first, Option.map_some, Option.bind_some, Value.object?_rename] at found
        rcases Option.map_eq_some_iff.mp found with ⟨original, isObject, rfl⟩
        exact ⟨original, isObject, rfl⟩

section

variable (mirrors : Mirrors model tree copied) (forest : model.Forest)
  (enclosed : model.Enclosed tree) (inward : Inward model tree)
include mirrors forest enclosed inward

/-- The copy of a feature takes its name from the copy of what the feature takes
its name from, if from anything. -/
theorem namingFeature?_of_copy (member : object ∈ tree) {target : ObjectId}
    (found : copied.namingFeature? (copyOf tree object) = some target) :
    ∃ original, original ∈ tree ∧ model.namingFeature? object = some original ∧
      target = copyOf tree original := by
  rcases (copied.namingFeature?_eq_some_iff _ _).mp found with
    ⟨isFeature, redefinitionCopy, firstCopy, redefined⟩
  rw [mirrors.isA_eq member] at isFeature
  rw [mirrors.ownedRedefinitions_eq forest enclosed member, List.head?_map] at firstCopy
  rcases Option.map_eq_some_iff.mp firstCopy with ⟨redefinition, first, rfl⟩
  have inside := firstRedefinition_mem forest enclosed member first
  rcases mirrors.value?_object? inside rfl redefined with ⟨original, led, rfl⟩
  refine ⟨original, referenced_mem inward inside rfl led, ?_, rfl⟩
  exact (model.namingFeature?_eq_some_iff _ _).mpr ⟨isFeature, redefinition, first, led⟩

theorem namedThrough_of_copy {copy : ObjectId} {chain : List ObjectId} {name : String}
    (named : Model.NamedThrough copied copy chain name) (member : object ∈ tree)
    (same : copy = copyOf tree object) :
    ∃ original, Model.NamedThrough model object original name := by
  induction named generalizing object with
  | declared known =>
      rw [same, mirrors.declaredName?_eq member] at known
      exact ⟨[object], .declared known⟩
  | redefined unnamed leads _ inductionHypothesis =>
      rw [same, mirrors.declaredName?_eq member] at unnamed
      rw [same] at leads
      rcases mirrors.namingFeature?_of_copy forest enclosed inward member leads with
        ⟨original, originalMember, naming, sameTarget⟩
      rcases inductionHypothesis originalMember sameTarget with ⟨further, named⟩
      exact ⟨object :: further, .redefined unnamed naming named⟩

/-- Copies have no names but those of their originals, however little is linked. -/
theorem effectiveName?_of_copy (member : object ∈ tree) {name : String}
    (found : copied.effectiveName? (copyOf tree object) = some name) :
    model.effectiveName? object = some name := by
  rw [Model.effectiveName?_eq_some_iff] at found ⊢
  rcases found with ⟨chain, named⟩
  exact mirrors.namedThrough_of_copy forest enclosed inward named member rfl

end

/-- Copies have the names of their originals, however much is linked. -/
theorem effectiveName?_eq (mirrors : Mirrors model tree copied) (forest : model.Forest)
    (enclosed : model.Enclosed tree) (contained : SelfContained model tree)
    (member : object ∈ tree) : KeepsName model tree copied object := by
  rw [KeepsName, contained.effective_eq member]
  cases declared : model.declaredName? object with
  | some name =>
      rw [Model.effectiveName?, Model.nameAlongRedefinitions?,
        mirrors.declaredName?_eq member, declared]
  | none =>
      cases found : copied.effectiveName? (copyOf tree object) with
      | none => rfl
      | some name =>
          have named :=
            mirrors.effectiveName?_of_copy forest enclosed contained.toInward member found
          rw [contained.effective_eq member, declared] at named
          cases named

theorem memberElement?_eq (mirrors : Mirrors model tree copied)
    (inward : Inward model tree) (member : object ∈ tree)
    (isMembership : model.isA object .membership = true) :
    copied.memberElement? (copyOf tree object) =
      (model.memberElement? object).map (copyOf tree) := by
  unfold Model.memberElement?
  rw [mirrors.isA_eq member]
  cases owning : model.isA object .owningMembership with
  | true =>
      rw [if_pos rfl, if_pos rfl]
      exact mirrors.ownedMemberElement?_eq member
  | false =>
      have nothing := inward.owned member isMembership owning
      rw [if_neg (by simp), if_neg (by simp), Model.value?, Model.value?, nothing]
      rcases mirrors.reference_eq member (rfl : Metafeature.memberElement.storage = .crossReference)
        with missing | present
      · rw [missing]
        rfl
      · rw [present, nothing]
        rfl

theorem memberElement?_mem (forest : model.Forest) (enclosed : model.Enclosed tree)
    (inward : Inward model tree) (member : object ∈ tree)
    {element : ObjectId} (found : model.memberElement? object = some element) :
    element ∈ tree := by
  unfold Model.memberElement? at found
  split at found
  · exact ownedMemberElement?_mem forest enclosed member found
  · exact referenced_mem inward member rfl found

section

variable (mirrors : Mirrors model tree copied) (forest : model.Forest)
  (enclosed : model.Enclosed tree) (inward : Inward model tree)
include mirrors forest enclosed inward

/-- The copy of a membership has no name but that of the membership. -/
theorem membershipName?_of_copy (member : object ∈ tree)
    (isMembership : model.isA object .membership = true) {name : String}
    (found : copied.membershipName? (copyOf tree object) = some name) :
    model.membershipName? object = some name := by
  unfold Model.membershipName? at found ⊢
  rw [mirrors.text?_eq member rfl (by decide) (by decide),
    mirrors.memberElement?_eq inward member isMembership] at found
  cases text : model.text? object .memberName with
  | some given =>
      rw [text] at found
      exact found
  | none =>
      rw [text] at found
      cases element : model.memberElement? object with
      | none =>
          rw [element] at found
          cases found
      | some element =>
          rw [element] at found
          exact mirrors.effectiveName?_of_copy forest enclosed inward
            (memberElement?_mem forest enclosed inward member ‹_›) found

omit forest enclosed in
theorem membershipName?_eq (member : object ∈ tree)
    (isMembership : model.isA object .membership = true) {element : ObjectId}
    (found : model.memberElement? object = some element)
    (keeps : KeepsName model tree copied element) :
    copied.membershipName? (copyOf tree object) = model.membershipName? object := by
  unfold Model.membershipName?
  rw [mirrors.text?_eq member rfl (by decide) (by decide),
    mirrors.memberElement?_eq inward member isMembership, found, Option.map_some,
    Option.bind_some, Option.bind_some, keeps]

omit inward in
theorem ownedMemberships_eq (member : object ∈ tree) :
    copied.ownedMemberships (copyOf tree object) =
      (model.ownedMemberships object).map (copyOf tree) :=
  mirrors.ownedRelationships_filter_eq forest enclosed member _

/-- The named members of a copied namespace are copies of its members, under the same
names. -/
theorem namedMembers_of_copy (member : object ∈ tree) {name : String} {copy : ObjectId}
    (present : (name, copy) ∈ copied.namedMembers (copyOf tree object)) :
    ∃ element, (name, element) ∈ model.namedMembers object ∧ copy = copyOf tree element := by
  rcases (copied.mem_namedMembers_iff _ _ _).mp present with ⟨listed, inside, element, named⟩
  rw [mirrors.ownedMemberships_eq forest enclosed member] at inside
  rcases List.mem_map.mp inside with ⟨membership, owned, rfl⟩
  rcases List.mem_filter.mp owned with ⟨below, isMembership⟩
  have membershipMember := mem_of_mem_objectValues forest enclosed member rfl below
  rw [mirrors.memberElement?_eq inward membershipMember isMembership] at element
  rcases Option.map_eq_some_iff.mp element with ⟨original, found, rfl⟩
  refine ⟨original, (model.mem_namedMembers_iff _ _ _).mpr ⟨membership, owned, found, ?_⟩, rfl⟩
  exact mirrors.membershipName?_of_copy forest enclosed inward membershipMember isMembership named

/-- Members whose copies have their names are among the named members of the copy. -/
theorem namedMembers_copy (member : object ∈ tree) {name : String} {element : ObjectId}
    (present : (name, element) ∈ model.namedMembers object)
    (keeps : KeepsName model tree copied element) :
    (name, copyOf tree element) ∈ copied.namedMembers (copyOf tree object) := by
  rcases (model.mem_namedMembers_iff _ _ _).mp present with ⟨membership, owned, found, named⟩
  rcases List.mem_filter.mp owned with ⟨below, isMembership⟩
  have membershipMember := mem_of_mem_objectValues forest enclosed member rfl below
  refine (copied.mem_namedMembers_iff _ _ _).mpr ⟨copyOf tree membership, ?_, ?_, ?_⟩
  · rw [mirrors.ownedMemberships_eq forest enclosed member]
    exact List.mem_map_of_mem owned
  · rw [mirrors.memberElement?_eq inward membershipMember isMembership, found]
    rfl
  · rw [mirrors.membershipName?_eq inward membershipMember isMembership found keeps, named]

end

end Mirrors

end Mirrors

end Rebuild

end ModelText
