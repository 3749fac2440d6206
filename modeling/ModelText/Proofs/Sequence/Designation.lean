import ModelText.Proofs.Name.Namespaces
import ModelText.Proofs.Sequence.Mirror

namespace ModelText

/-!
# What names designate in a copy

Qualified names are paths through the same namespaces in a tree and in its copy.
The layers of a scope are those of the original with every member replaced by its
copy, and of the qualified names of the whole model those of the tree remain.
Names may be missing in a copy, but no name is new.  So a name that designates an
object of the tree designates the copy of this object at the copied place, once the
copies of the object and of what contains it have their names.
-/

namespace Rebuild

variable {model copied : Model} {tree : List ObjectId} {object : ObjectId}

namespace Mirrors

section

variable (mirrors : Mirrors model tree copied) (forest : model.Forest)
  (enclosed : model.Enclosed tree) (inward : Inward model tree)
include mirrors forest enclosed inward

/-! ## Qualified names -/

omit forest inward in
theorem isRootNamespace_eq (member : object ∈ tree) :
    copied.isRootNamespace (copyOf tree object) = model.isRootNamespace object := by
  rw [Model.isRootNamespace, mirrors.owningNamespace?_eq enclosed member,
    mirrors.container?_eq member, Option.isNone_map, Option.isNone_map, Model.isRootNamespace]

/-- A path through copies is a path through their originals. -/
theorem qualify_of_copy {limit more : Nat} {path segments : List String} (member : object ∈ tree)
    (enough : model.depth object ≤ more)
    (found : copied.qualify limit (copyOf tree object) path = some segments) :
    model.qualify more object path = some segments := by
  induction limit generalizing more object path with
  | zero => cases found
  | succ limit inductionHypothesis =>
      cases more with
      | zero =>
          have positive := Model.depth_pos forest object
          omega
      | succ more =>
          unfold Model.qualify at found ⊢
          rw [mirrors.owningNamespace?_eq enclosed member] at found
          cases owned : model.owningNamespace? object with
          | none =>
              rw [owned] at found
              exact found
          | some owner =>
              have inside := owningNamespace?_mem enclosed member owned
              have above := forest.depth_owningNamespace owned
              rw [owned, Option.map_some] at found
              dsimp only at found ⊢
              rw [mirrors.isRootNamespace_eq enclosed inside] at found
              cases isRoot : model.isRootNamespace owner with
              | true =>
                  rw [isRoot] at found
                  exact found
              | false =>
                  rw [isRoot, if_neg Bool.false_ne_true] at found
                  rw [if_neg Bool.false_ne_true]
                  cases named : copied.effectiveName? (copyOf tree owner) with
                  | none => rw [named] at found; cases found
                  | some name =>
                      rw [named] at found
                      rw [mirrors.effectiveName?_of_copy forest enclosed inward inside named]
                      exact inductionHypothesis inside (by omega) found

omit inward in
/-- With enough steps on both sides the paths are the same, if all copies have their
names. -/
theorem qualify_eq (limit more : Nat) (path : List String) (member : object ∈ tree)
    (enough : model.depth object ≤ limit) (also : model.depth object ≤ more)
    (keeps : KeepsPath model tree copied object) :
    copied.qualify limit (copyOf tree object) path = model.qualify more object path := by
  induction limit generalizing more object path with
  | zero =>
      have positive := Model.depth_pos forest object
      omega
  | succ limit inductionHypothesis =>
      cases more with
      | zero =>
          have positive := Model.depth_pos forest object
          omega
      | succ more =>
          unfold Model.qualify
          rw [mirrors.owningNamespace?_eq enclosed member]
          cases found : model.owningNamespace? object with
          | none => rfl
          | some owner =>
              have inside := owningNamespace?_mem enclosed member found
              have above := forest.depth_owningNamespace found
              have around := forest.containerChain_owningNamespace found
              have ownerKeeps := keeps (around (forest.mem_containerChain_self owner))
              rw [Option.map_some]
              dsimp only
              rw [mirrors.isRootNamespace_eq enclosed inside, ownerKeeps]
              split
              · rfl
              · cases model.effectiveName? owner with
                | none => rfl
                | some name =>
                    exact inductionHypothesis more (name :: path) inside (by omega) (by omega)
                      fun up => keeps (around up)

/-- The copy of an element has no qualified name but that of the element. -/
theorem qualifiedName?_of_copy (member : object ∈ tree) {name : QualifiedName}
    (found : copied.qualifiedName? (copyOf tree object) = some name) :
    model.qualifiedName? object = some name := by
  unfold Model.qualifiedName? at found ⊢
  cases named : copied.effectiveName? (copyOf tree object) with
  | none => rw [named] at found; cases found
  | some last =>
      rw [named] at found
      rw [mirrors.effectiveName?_of_copy forest enclosed inward member named]
      rcases Option.map_eq_some_iff.mp found with ⟨segments, path, rfl⟩
      dsimp only
      rw [mirrors.qualify_of_copy forest enclosed inward member (forest.depth_le object) path]
      rfl

omit inward in
/-- It has the qualified name of the element if all names around it are there. -/
theorem qualifiedName?_eq (member : object ∈ tree)
    (keeps : KeepsPath model tree copied object) :
    copied.qualifiedName? (copyOf tree object) = model.qualifiedName? object := by
  unfold Model.qualifiedName?
  rw [keeps (forest.mem_containerChain_self object)]
  cases model.effectiveName? object with
  | none => rfl
  | some name =>
      dsimp only
      rw [mirrors.qualify_eq forest enclosed _ (model.objects.size + 1) [name] member ?_ ?_ keeps]
      · rw [← mirrors.depth_eq forest enclosed member]
        exact mirrors.reachable.forest.depth_le _
      · exact forest.depth_le object

/-! ## Tables -/

omit forest inward in
theorem ids_eq : copied.ids = tree.map (copyOf tree) := by
  rw [Model.ids, mirrors.size_eq, map_copyOf_self enclosed.nodup]

/-- A qualified name that is unique among all elements designates the copy of its
element. -/
theorem globalTable_lookup? {name : QualifiedName} {target : ObjectId} (inside : target ∈ tree)
    (keeps : KeepsPath model tree copied target)
    (found : (Scope.globalTable Model.qualifiedName? model).lookup? name = some target) :
    (Scope.globalTable Model.qualifiedName? copied).lookup? name =
      some (copyOf tree target) := by
  unfold Scope.globalTable at found ⊢
  rw [NameTable.lookup?_ofList_eq_some_iff] at found ⊢
  rcases found with ⟨present, unique⟩
  have named : model.qualifiedName? target = some name := by
    rcases List.mem_filterMap.mp present with ⟨id, _, given⟩
    rcases Option.map_eq_some_iff.mp given with ⟨known, known_eq, same⟩
    cases same
    exact known_eq
  rw [mirrors.ids_eq enclosed]
  constructor
  · refine List.mem_filterMap.mpr ⟨copyOf tree target, List.mem_map_of_mem inside, ?_⟩
    rw [mirrors.qualifiedName?_eq forest enclosed inside keeps, named]
    rfl
  · intro other otherPresent
    rcases List.mem_filterMap.mp otherPresent with ⟨id, listed, given⟩
    rcases List.mem_map.mp listed with ⟨original, originalInside, rfl⟩
    rcases Option.map_eq_some_iff.mp given with ⟨known, known_eq, same⟩
    cases same
    have originalName :=
      mirrors.qualifiedName?_of_copy forest enclosed inward originalInside known_eq
    have originalPresent : (name, original) ∈
        model.ids.filterMap fun id => (model.qualifiedName? id).map fun name => (name, id) := by
      refine List.mem_filterMap.mpr ⟨original, ?_, by rw [originalName]; rfl⟩
      exact (Model.mem_ids_iff model original).mpr (enclosed.exist originalInside)
    rw [unique original originalPresent]

/-- The names of the members of a copied namespace follow those of the original. -/
theorem memberTable_follows (member : object ∈ tree) (name : QualifiedName) {target : ObjectId}
    (keeps : KeepsName model tree copied target) :
    Scope.Follows (copyOf tree) name target (Scope.memberTable model object)
      (Scope.memberTable copied (copyOf tree object)) := by
  unfold Scope.memberTable
  have of_copy : ∀ copy, (name, copy) ∈ (copied.namedMembers (copyOf tree object)).map
        (fun named => (QualifiedName.simple named.1, named.2)) →
      ∃ original, (name, original) ∈ (model.namedMembers object).map
          (fun named => (QualifiedName.simple named.1, named.2)) ∧
        copy = copyOf tree original := by
    intro copy present
    rcases List.mem_map.mp present with ⟨named, listed, same⟩
    cases same
    rcases mirrors.namedMembers_of_copy forest enclosed inward member listed with
      ⟨original, originalListed, same⟩
    exact ⟨original, List.mem_map.mpr ⟨_, originalListed, rfl⟩, same⟩
  constructor
  · rw [NameTable.binding?_ofList_eq_none_iff, NameTable.binding?_ofList_eq_none_iff]
    intro absent copy present
    rcases of_copy copy present with ⟨original, originalPresent, _⟩
    exact absent original originalPresent
  · intro found
    rw [NameTable.lookup?_ofList_eq_some_iff] at found ⊢
    constructor
    · rcases List.mem_map.mp found.1 with ⟨named, listed, same⟩
      cases same
      exact List.mem_map.mpr
        ⟨_, mirrors.namedMembers_copy forest enclosed inward member listed keeps, rfl⟩
    · intro other present
      rcases of_copy other present with ⟨original, originalPresent, rfl⟩
      rw [found.2 original originalPresent]

/-! ## Scopes -/

omit forest inward enclosed in
theorem isReferencePosition_eq (member : object ∈ tree) (reference : Metafeature) :
    Scope.isReferencePosition copied (copyOf tree object) reference =
      Scope.isReferencePosition model object reference := by
  rw [Scope.isReferencePosition, mirrors.metaclass_eq member, Scope.isReferencePosition]

/-- At the copy of a place, a name designates the copy of what it designates at
the place, if the names around the target are there. -/
theorem designates_copy (member : object ∈ tree) {reference : Metafeature} {scope : Scope}
    (visible : Scope.containment Model.qualifiedName? model object reference = some scope)
    {name : QualifiedName} {target : ObjectId} (inside : target ∈ tree)
    (keeps : KeepsPath model tree copied target)
    (found : scope name = some target) :
    ∃ copiedScope, Scope.containment Model.qualifiedName? copied (copyOf tree object) reference =
        some copiedScope ∧
      copiedScope name = some (copyOf tree target) := by
  unfold Scope.containment Scope.containmentOver at visible ⊢
  rw [mirrors.isReferencePosition_eq member]
  split at visible
  · next position =>
      rw [if_pos position]
      refine ⟨_, rfl, ?_⟩
      rw [← Option.some.inj visible] at found
      have around := enclosed.containerChain_subset forest member
      have layers_eq : Scope.layers copied (copyOf tree object) =
          ((model.containerChain object).filter (model.isA · .nameSpace)).map
            fun owner => Scope.memberTable copied (copyOf tree owner) := by
        rw [Scope.layers, mirrors.containerChain_eq forest enclosed member, List.filter_map,
          List.map_map]
        congr 1
        apply List.filter_congr
        intro ancestor above
        exact mirrors.isA_eq (around above) .nameSpace
      rw [layers_eq]
      unfold Scope.layers at found
      refine Scope.layered_of_follows ?_ ?_ found
      · intro owner listed
        have above := (List.mem_filter.mp listed).1
        exact mirrors.memberTable_follows forest enclosed inward (around above) name
          (keeps (forest.mem_containerChain_self target))
      · exact mirrors.globalTable_lookup? forest enclosed inward inside keeps
  · cases visible

end

end Mirrors

end Rebuild

end ModelText
