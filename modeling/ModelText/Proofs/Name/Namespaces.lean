import Mathlib.Logic.Relation
import ModelText.Graph.Draft
import ModelText.Proofs.Graph.Renaming
import ModelText.Proofs.Graph.Tree
import ModelText.Proofs.Name.Redefinitions

namespace ModelText

/-!
# Names along namespaces

The qualified name of an element is looked for upwards, from namespace to namespace.  Every
namespace stands above the elements it owns, so the way up ends before the search gives
up, and the name composes: it is the qualified name of the namespace with the name of the
element behind it.  Below the namespace at the root, which is no part of the path, it
begins anew.

Two elements with the same qualified name therefore have namespaces with the same qualified
name, and so on up to the root.  When the way up from both ends at the same root and no
namespace on the way has two members of one name, the elements are the same, from the root
downwards.
-/

namespace Model

variable {model : Model}

/-! ## Namespaces contain what they own -/

theorem container?_of_ownerThrough? {feature : Metafeature} {id owner : ObjectId}
    (found : model.ownerThrough? feature id = some owner) : model.container? id = some owner := by
  rw [container?, ownerThrough?_eq_some_iff.mp found]
  rfl

/-- A namespace contains the membership that contains the element. -/
theorem container?_of_owningNamespace? {id owner : ObjectId}
    (found : model.owningNamespace? id = some owner) :
    ∃ membership, model.container? id = some membership ∧
      model.container? membership = some owner := by
  have related := (Option.filter_eq_some_iff.mp found).1
  rcases Option.bind_eq_some_iff.mp related with ⟨membership, owning, above⟩
  have through := (Option.filter_eq_some_iff.mp owning).1
  exact ⟨membership, container?_of_ownerThrough? through, container?_of_ownerThrough? above⟩

/-- A namespace stands above the elements it owns. -/
theorem Forest.depth_owningNamespace (forest : Forest model) {id owner : ObjectId}
    (found : model.owningNamespace? id = some owner) : model.depth owner < model.depth id := by
  rcases container?_of_owningNamespace? found with ⟨membership, below, above⟩
  rw [forest.depth_child below, forest.depth_child above]
  omega

theorem Forest.containerChain_owningNamespace (forest : Forest model) {id owner : ObjectId}
    (found : model.owningNamespace? id = some owner) :
    model.containerChain owner ⊆ model.containerChain id := by
  rcases container?_of_owningNamespace? found with ⟨membership, below, above⟩
  rw [forest.containerChain_of_container? below, forest.containerChain_of_container? above]
  exact fun _ member => List.mem_cons_of_mem _ (List.mem_cons_of_mem _ member)

theorem owningNamespace?_eq_none {id : ObjectId} (uncontained : model.container? id = none) :
    model.owningNamespace? id = none := by
  rw [Option.eq_none_iff_forall_ne_some]
  intro owner found
  obtain ⟨membership, contained, _⟩ := container?_of_owningNamespace? found
  rw [uncontained] at contained
  cases contained

/-- A namespace is at the root of the model when nothing contains it. -/
theorem isRootNamespace_eq (model : Model) (id : ObjectId) :
    model.isRootNamespace id = (model.container? id).isNone := by
  rw [isRootNamespace]
  cases uncontained : model.container? id with
  | none => rw [owningNamespace?_eq_none uncontained]; rfl
  | some _ => exact Bool.and_false _

/-! ## The way up -/

/-- What stands behind the names that are prepended is passed through. -/
theorem qualify_append (model : Model) (limit : Nat) (id : ObjectId) (path rest : List String) :
    model.qualify limit id (path ++ rest) = (model.qualify limit id path).map (· ++ rest) := by
  induction limit generalizing id path with
  | zero => rfl
  | succ limit inductionHypothesis =>
      rw [qualify, qualify]
      cases model.owningNamespace? id with
      | none => rfl
      | some owner =>
          dsimp only
          split
          · rfl
          · cases model.effectiveName? owner with
            | none => rfl
            | some name => exact inductionHypothesis owner (name :: path)

/-- A qualified path ends in what it was qualified from. -/
theorem exists_append_of_qualify {limit : Nat} {id : ObjectId} {path segments : List String}
    (qualified : model.qualify limit id path = some segments) :
    ∃ outer, segments = outer ++ path := by
  rw [← List.nil_append path, qualify_append, Option.map_eq_some_iff] at qualified
  obtain ⟨outer, _, same⟩ := qualified
  exact ⟨outer, same.symm⟩

/-- The last segment of a qualified name is the effective name. -/
theorem exists_effectiveName? {target : ObjectId} {path : QualifiedName}
    (named : model.qualifiedName? target = some path) :
    ∃ name outer, model.effectiveName? target = some name ∧ path.segments = outer ++ [name] := by
  unfold qualifiedName? at named
  split at named
  · cases named
  · next name effective =>
    obtain ⟨segments, qualified, rfl⟩ := Option.map_eq_some_iff.mp named
    obtain ⟨outer, same⟩ := exists_append_of_qualify qualified
    exact ⟨name, outer, effective, same⟩

theorem mem_ids_of_effectiveName? {target : ObjectId} {name : String}
    (named : model.effectiveName? target = some name) : target ∈ model.ids := by
  obtain ⟨chain, along⟩ := (effectiveName?_eq_some_iff model target name).mp named
  rw [mem_ids_iff]
  cases along with
  | declared known => exact (NamedThrough.declared known).index_lt List.mem_cons_self
  | redefined unnamed leads further =>
      exact (NamedThrough.redefined unnamed leads further).index_lt List.mem_cons_self

/-- What has no class does not exist, so it has no name either. -/
theorem effectiveName?_eq_none {id : ObjectId} (missing : model.metaclass? id = none) :
    model.effectiveName? id = none := by
  cases named : model.effectiveName? id with
  | none => rfl
  | some name =>
      have exist := (mem_ids_iff model id).mp (mem_ids_of_effectiveName? named)
      rw [← isSome_metaclass?_iff, missing] at exist
      cases exist

theorem qualifiedName?_eq_none {id : ObjectId} (unnamed : model.effectiveName? id = none) :
    model.qualifiedName? id = none := by
  rw [qualifiedName?, unnamed]

/-- A search that may take as many steps as an element is deep is not cut off. -/
theorem Forest.qualify_eq_of_enough (forest : Forest model) {limit more : Nat} {id : ObjectId}
    (enough : model.depth id ≤ limit) (also : model.depth id ≤ more) (path : List String) :
    model.qualify limit id path = model.qualify more id path := by
  have positive := depth_pos forest id
  induction limit generalizing more id path with
  | zero => omega
  | succ limit inductionHypothesis =>
      cases more with
      | zero => omega
      | succ more =>
          rw [qualify, qualify]
          cases owned : model.owningNamespace? id with
          | none => rfl
          | some owner =>
              have above := forest.depth_owningNamespace owned
              have positiveToo := depth_pos forest owner
              dsimp only
              split
              · rfl
              · cases model.effectiveName? owner with
                | none => rfl
                | some name =>
                    exact inductionHypothesis (by omega) (by omega) (name :: path) positiveToo

/-- The qualified name of an element is that of its namespace with the effective name of the
element behind it, and the effective name alone when there is no namespace or nothing
contains the namespace. -/
theorem Forest.qualifiedName?_eq (forest : Forest model) (id : ObjectId) :
    model.qualifiedName? id = (model.effectiveName? id).bind fun name =>
      match model.owningNamespace? id with
      | none => some (.simple name)
      | some owner =>
          if (model.container? owner).isNone then some (.simple name)
          else (model.qualifiedName? owner).map fun outer => outer.append name := by
  rw [qualifiedName?]
  cases model.effectiveName? id with
  | none => rfl
  | some name =>
      dsimp only
      rw [qualify, Option.bind_some]
      cases owned : model.owningNamespace? id with
      | none => rfl
      | some owner =>
          dsimp only
          rw [isRootNamespace_eq]
          by_cases uncontained : (model.container? owner).isNone = true
          · rw [if_pos uncontained, if_pos uncontained]
            rfl
          · rw [if_neg uncontained, if_neg uncontained, qualifiedName?]
            cases model.effectiveName? owner with
            | none => rfl
            | some outer =>
                have above := forest.depth_owningNamespace owned
                have shallow := forest.depth_le id
                have sameLimit : model.qualify model.objects.size owner [outer] =
                    model.qualify (model.objects.size + 1) owner [outer] := by
                  apply forest.qualify_eq_of_enough <;> omega
                have parted := qualify_append model model.objects.size owner [outer] [name]
                rw [List.singleton_append] at parted
                dsimp only
                rw [parted, sameLimit, Option.map_map, Option.map_map]
                rfl

/-! ## Different names -/

/-- An element is owned by a namespace. -/
def OwnedBy (model : Model) (element owner : ObjectId) : Prop :=
  model.owningNamespace? element = some owner

/-- No two elements that a namespace owns have one name. -/
def NamesApart (model : Model) (owner : ObjectId) : Prop :=
  ∀ first ∈ model.ids, ∀ second ∈ model.ids, model.OwnedBy first owner →
    model.OwnedBy second owner → ∀ name, model.effectiveName? first = some name →
      model.effectiveName? second = some name → first = second

/-- Below a root, the qualified name of an element is its effective name alone when the root
owns it, and else the name of a namespace below the root is in front. -/
theorem Forest.qualifiedName?_below (forest : Forest model) {id root : ObjectId}
    {path : QualifiedName} (uncontained : model.container? root = none)
    (below : Relation.TransGen model.OwnedBy id root)
    (named : model.qualifiedName? id = some path) :
    ∃ name, model.effectiveName? id = some name ∧
      (model.OwnedBy id root ∧ path = .simple name ∨
        ∃ owner outer, model.OwnedBy id owner ∧ Relation.TransGen model.OwnedBy owner root ∧
          model.qualifiedName? owner = some outer ∧ path = outer.append name) := by
  rw [forest.qualifiedName?_eq, Option.bind_eq_some_iff] at named
  obtain ⟨name, effective, composed⟩ := named
  refine ⟨name, effective, ?_⟩
  obtain ⟨owner, owned, above⟩ := Relation.TransGen.head'_iff.mp below
  rw [show model.owningNamespace? id = some owner from owned] at composed
  dsimp only at composed
  rcases Relation.reflTransGen_iff_eq_or_transGen.mp above with rfl | further
  · rw [uncontained, Option.isNone_none, if_pos rfl] at composed
    exact Or.inl ⟨owned, (Option.some.inj composed).symm⟩
  · obtain ⟨next, ownedToo, _⟩ := Relation.TransGen.head'_iff.mp further
    obtain ⟨membership, contained, _⟩ := container?_of_owningNamespace? ownedToo
    rw [contained, Option.isNone_some, if_neg Bool.false_ne_true,
      Option.map_eq_some_iff] at composed
    obtain ⟨outer, outerNamed, same⟩ := composed
    exact Or.inr ⟨owner, outer, owned, further, outerNamed, same.symm⟩

theorem append_ne_simple {id : ObjectId} {outer : QualifiedName} {name other : String}
    (named : model.qualifiedName? id = some outer) : outer.append name ≠ .simple other := by
  obtain ⟨last, before, _, segments⟩ := exists_effectiveName? named
  intro same
  have lengths := congrArg (fun path => path.segments.length) same
  simp [QualifiedName.append, QualifiedName.simple, segments] at lengths

/-- Below one root, elements with the same qualified name are the same, if the namespaces on the
way up from them have no two members of one name. -/
theorem Forest.eq_of_qualifiedName?_eq (forest : Forest model) {first second root : ObjectId}
    {path : QualifiedName} (uncontained : model.container? root = none)
    (below : Relation.TransGen model.OwnedBy first root)
    (belowToo : Relation.TransGen model.OwnedBy second root)
    (apart : ∀ owner, Relation.TransGen model.OwnedBy first owner ∨
      Relation.TransGen model.OwnedBy second owner → model.NamesApart owner)
    (named : model.qualifiedName? first = some path)
    (namedToo : model.qualifiedName? second = some path) : first = second := by
  obtain ⟨name, effective, place⟩ := forest.qualifiedName?_below uncontained below named
  obtain ⟨also, effectiveToo, placeToo⟩ :=
    forest.qualifiedName?_below uncontained belowToo namedToo
  have siblings : ∀ owner, model.OwnedBy first owner → model.OwnedBy second owner →
      name = also → first = second := by
    rintro owner owned ownedToo rfl
    exact apart owner (Or.inl (.single owned)) first (mem_ids_of_effectiveName? effective) second
      (mem_ids_of_effectiveName? effectiveToo) owned ownedToo name effective effectiveToo
  rcases place with ⟨owned, composed⟩ | ⟨owner, outer, owned, further, outerNamed, composed⟩
  · rcases placeToo with ⟨ownedToo, composedToo⟩ | ⟨_, _, _, _, otherNamed, composedToo⟩
    · rw [composed, QualifiedName.simple, QualifiedName.simple, QualifiedName.mk.injEq,
        List.singleton_inj] at composedToo
      exact siblings root owned ownedToo composedToo
    · exact absurd (composedToo.symm.trans composed) (append_ne_simple otherNamed)
  · rcases placeToo with ⟨_, composedToo⟩ |
      ⟨other, otherOuter, ownedToo, furtherToo, otherNamed, composedToo⟩
    · exact absurd (composed.symm.trans composedToo) (append_ne_simple outerNamed)
    · have same := composed.symm.trans composedToo
      rw [QualifiedName.append, QualifiedName.append, QualifiedName.mk.injEq,
        List.append_singleton_inj] at same
      -- the namespaces have one qualified name, which is shorter
      have sameOuter : outer = otherOuter := congrArg QualifiedName.mk same.1
      have shorter : outer.segments.length < path.segments.length := by
        rw [composed, QualifiedName.append, List.length_append]
        exact Nat.lt_succ_self _
      have sameOwner : owner = other :=
        forest.eq_of_qualifiedName?_eq uncontained further furtherToo
          (fun around above => apart around (above.imp (.head owned) (.head ownedToo)))
          outerNamed (sameOuter ▸ otherNamed)
      exact siblings owner owned (sameOwner ▸ ownedToo) same.2
termination_by path.segments.length

/-- Qualified names compose along namespaces: an element has the qualified name of its namespace
with its effective name behind it, or its effective name alone when it has no namespace or
nothing contains the namespace.  They are unique where siblings are: below one root, two
elements have different qualified names if no namespace on the way up from them has two
members of one name. -/
theorem qualifiedName?_composes (reachable : model.Reachable) :
    (∀ id, model.qualifiedName? id = (model.effectiveName? id).bind fun name =>
      match model.owningNamespace? id with
      | none => some (.simple name)
      | some owner =>
          if (model.container? owner).isNone then some (.simple name)
          else (model.qualifiedName? owner).map fun outer => outer.append name) ∧
    ∀ first second root, first ≠ second →
      Relation.TransGen model.OwnedBy first root → Relation.TransGen model.OwnedBy second root →
      model.container? root = none →
      (∀ owner, Relation.TransGen model.OwnedBy first owner ∨
        Relation.TransGen model.OwnedBy second owner → model.NamesApart owner) →
      ∀ path, model.qualifiedName? first = some path → model.qualifiedName? second ≠ some path := by
  have forest := reachable.forest
  refine ⟨forest.qualifiedName?_eq, ?_⟩
  intro first second root different below belowToo uncontained apart path named namedToo
  exact different
    (forest.eq_of_qualifiedName?_eq uncontained below belowToo apart named namedToo)

/-- Two packages, each with a wheel that has a rim. -/
def twoWheels : ModelDraft :=
  let draft := (ModelDraft.initial.package ModelDraft.root "Cars").2
  let draft := (draft.partDefinition ⟨1⟩ "Wheel").2
  let draft := (draft.package ModelDraft.root "Bikes").2
  let draft := (draft.partDefinition ⟨5⟩ "Wheel").2
  let draft := (draft.part ⟨3⟩ (some "rim")).2
  (draft.part ⟨7⟩ (some "rim")).2

theorem twoWheels_reachable : twoWheels.model.Reachable := by
  unfold twoWheels
  iterate 6 apply ModelDraft.reachable_member
  exact ModelDraft.reachable_initial

/-- The rims differ in the first segment, which comes from the packages two namespaces up. -/
theorem qualifiedName?_composes_twoWheels :
    twoWheels.model.qualifiedName? ⟨9⟩ = some ⟨["Cars", "Wheel", "rim"]⟩ ∧
      Relation.TransGen twoWheels.model.OwnedBy ⟨9⟩ ⟨0⟩ ∧
      Relation.TransGen twoWheels.model.OwnedBy ⟨11⟩ ⟨0⟩ ∧
      twoWheels.model.container? ⟨0⟩ = none ∧
      (∀ owner, twoWheels.model.NamesApart owner) ∧
      twoWheels.model.qualifiedName? ⟨11⟩ ≠ some ⟨["Cars", "Wheel", "rim"]⟩ := by
  have different := (qualifiedName?_composes twoWheels_reachable).2
  have owned : ∀ pair ∈ [(9, 3), (3, 1), (1, 0), (11, 7), (7, 5), (5, 0)],
      twoWheels.model.OwnedBy ⟨pair.1⟩ ⟨pair.2⟩ := by
    unfold OwnedBy
    decide +kernel
  have first : Relation.TransGen twoWheels.model.OwnedBy ⟨9⟩ ⟨0⟩ :=
    .head (owned (9, 3) (by decide)) (.head (owned (3, 1) (by decide))
      (.single (owned (1, 0) (by decide))))
  have second : Relation.TransGen twoWheels.model.OwnedBy ⟨11⟩ ⟨0⟩ :=
    .head (owned (11, 7) (by decide)) (.head (owned (7, 5) (by decide))
      (.single (owned (5, 0) (by decide))))
  have uncontained : twoWheels.model.container? ⟨0⟩ = none := by decide +kernel
  have apart : ∀ owner, twoWheels.model.NamesApart owner := by
    intro owner first firstListed second secondListed owned ownedToo name effective effectiveToo
    have pairs : ∀ first ∈ twoWheels.model.ids, ∀ second ∈ twoWheels.model.ids,
        twoWheels.model.owningNamespace? first = twoWheels.model.owningNamespace? second →
        (twoWheels.model.owningNamespace? first).isSome = true →
        twoWheels.model.effectiveName? first = twoWheels.model.effectiveName? second →
        first = second := by
      decide +kernel
    exact pairs first firstListed second secondListed (owned.trans ownedToo.symm)
      (Option.isSome_iff_exists.mpr ⟨owner, owned⟩) (effective.trans effectiveToo.symm)
  have named : twoWheels.model.qualifiedName? ⟨9⟩ = some ⟨["Cars", "Wheel", "rim"]⟩ := by
    decide +kernel
  refine ⟨named, first, second, uncontained, apart, ?_⟩
  exact different ⟨9⟩ ⟨11⟩ ⟨0⟩ (by decide) first second uncontained (fun owner _ => apart owner)
    _ named

end Model

end ModelText
