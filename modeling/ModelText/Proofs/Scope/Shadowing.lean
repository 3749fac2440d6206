import Mathlib.Data.List.Basic
import ModelText.Proofs.Graph.Forest
import ModelText.Proofs.Scope.Table

namespace ModelText

/-!
# Shadowing by the nearest namespace

Around a reference stand the namespaces that contain it, and the innermost one with a member
of a simple name decides what the name means.  It decides even when it leaves the name
ambiguous: an outer member of the name, or an element with this qualified name, stays hidden
all the same.  Every other name is looked up among the qualified names of all elements.

The layers of a scope are asked one after the other.  A table that is made beforehand, by
shadowing the qualified names with one layer after the other from outside inwards, gives the
same answers.
-/

namespace Model

variable {model : Model} {source owner target : ObjectId} {name : String}
  {chain : List ObjectId}

/-! ## The members of a namespace -/

/-- Whether an object is a namespace with a member of the given name. -/
def HasMember (model : Model) (name : String) (owner : ObjectId) : Prop :=
  model.isA owner .nameSpace = true ∧ ∃ member, (name, member) ∈ model.namedMembers owner

/-- What a namespace binds a name to; other objects bind nothing. -/
def memberBinding? (model : Model) (name : QualifiedName) (owner : ObjectId) : Option Binding :=
  if model.isA owner .nameSpace then
    (Scope.memberTable model owner).binding? name
  else
    none

theorem memberBinding?_eq_none_iff :
    model.memberBinding? (.simple name) owner = none ↔ ¬model.HasMember name owner := by
  unfold memberBinding? HasMember
  split
  · next isNamespace =>
    rw [Scope.memberTable, NameTable.binding?_ofList_eq_none_iff]
    simp [isNamespace, QualifiedName.simple]
  · next other => simp [other]

theorem memberBinding?_eq_unique_iff :
    model.memberBinding? (.simple name) owner = some (.unique target) ↔
      model.isA owner .nameSpace = true ∧
        ∀ member, (name, member) ∈ model.namedMembers owner ↔ member = target := by
  unfold memberBinding?
  split
  · next isNamespace =>
    rw [Scope.memberTable, (NameTable.describes_ofList _ _).2]
    simp only [isNamespace, QualifiedName.simple, true_and, List.mem_map, Prod.mk.injEq,
      Prod.exists, QualifiedName.mk.injEq, List.cons.injEq, and_true, ↓existsAndEq]
    constructor
    · rintro ⟨present, alone⟩ member
      exact ⟨alone member, fun same => same ▸ present⟩
    · intro only
      exact ⟨(only target).mpr rfl, fun other => (only other).mp⟩
  · next other => simp [other]

theorem memberBinding?_eq_none_iff_forall {path : QualifiedName} :
    model.memberBinding? path owner = none ↔
      ∀ name, path = .simple name → ¬model.HasMember name owner := by
  constructor
  · rintro unbound name rfl
    exact memberBinding?_eq_none_iff.mp unbound
  · intro absent
    unfold memberBinding?
    split
    · next isNamespace =>
      rw [Scope.memberTable, NameTable.binding?_ofList_eq_none_iff]
      intro target present
      obtain ⟨⟨name, member⟩, listed, same⟩ := List.mem_map.mp present
      exact absent name (Prod.mk.inj same).1.symm ⟨isNamespace, member, listed⟩
    · rfl

/-! ## The innermost namespace -/

/-- The first namespace of a chain that has a member of the given name. -/
def Innermost (model : Model) (name : String) (chain : List ObjectId) (owner : ObjectId) :
    Prop :=
  ∃ inner outer, chain = inner ++ owner :: outer ∧ model.HasMember name owner ∧
    ∀ closer ∈ inner, ¬model.HasMember name closer

open Classical in
theorem innermost_iff_find? :
    model.Innermost name chain owner ↔
      chain.find? (fun place => decide (model.HasMember name place)) = some owner := by
  rw [List.find?_eq_some_iff_append, Innermost]
  simp only [decide_eq_true_eq, Bool.not_eq_true', decide_eq_false_iff_not]
  constructor
  · rintro ⟨inner, outer, split, member, hidden⟩
    exact ⟨member, inner, outer, split, hidden⟩
  · rintro ⟨member, inner, outer, split, hidden⟩
    exact ⟨inner, outer, split, member, hidden⟩

theorem exists_innermost (someMember : ∃ owner ∈ chain, model.HasMember name owner) :
    ∃ owner, model.Innermost name chain owner := by
  classical
  obtain ⟨owner, listed, member⟩ := someMember
  have found : (chain.find? fun place => decide (model.HasMember name place)).isSome = true :=
    List.find?_isSome.mpr ⟨owner, listed, decide_eq_true member⟩
  obtain ⟨first, known⟩ := Option.isSome_iff_exists.mp found
  exact ⟨first, innermost_iff_find?.mpr known⟩

theorem Innermost.unique {other : ObjectId} (innermost : model.Innermost name chain owner)
    (also : model.Innermost name chain other) : owner = other := by
  rw [innermost_iff_find?] at innermost also
  exact Option.some.inj (innermost.symm.trans also)

/-- The innermost namespace that binds a name decides. -/
theorem layered_layers (model : Model) (source : ObjectId) (outer : NameTable)
    (path : QualifiedName) :
    Scope.layered (Scope.layers model source) outer path =
      match (model.containerChain source).findSome? (model.memberBinding? path) with
      | some binding => binding.target?
      | none => outer.lookup? path := by
  have innermost : (Scope.layers model source).findSome? (fun layer => layer.binding? path) =
      (model.containerChain source).findSome? (model.memberBinding? path) := by
    rw [Scope.layers, List.findSome?_map]
    induction model.containerChain source with
    | nil => rfl
    | cons owner around inductionHypothesis =>
        rw [List.findSome?_cons, ← inductionHypothesis, memberBinding?, List.filter_cons]
        split
        · rw [List.findSome?_cons]
          rfl
        · rfl
  rw [← innermost]
  rfl

theorem layered_of_innermost {outer : NameTable}
    (innermost : model.Innermost name (model.containerChain source) owner) :
    Scope.layered (Scope.layers model source) outer (.simple name) = some target ↔
      ∀ member, (name, member) ∈ model.namedMembers owner → member = target := by
  obtain ⟨inner, around, split, ⟨isNamespace, someMember⟩, hidden⟩ := innermost
  have closer : inner.findSome? (model.memberBinding? (.simple name)) = none :=
    List.findSome?_eq_none_iff.mpr fun place listed =>
      memberBinding?_eq_none_iff.mpr (hidden place listed)
  have bound : model.memberBinding? (.simple name) owner ≠ none :=
    fun unbound => memberBinding?_eq_none_iff.mp unbound ⟨isNamespace, someMember⟩
  obtain ⟨binding, known⟩ := Option.ne_none_iff_exists'.mp bound
  have decides : binding.target? = some target ↔ binding = .unique target := by
    cases binding <;> simp [Binding.target?]
  have unique : model.memberBinding? (.simple name) owner = some (.unique target) ↔
      model.isA owner .nameSpace = true ∧
        ∀ member, (name, member) ∈ model.namedMembers owner ↔ member = target :=
    memberBinding?_eq_unique_iff
  rw [known, Option.some_inj, isNamespace] at unique
  rw [layered_layers, split, List.findSome?_append, closer, Option.none_or, List.findSome?_cons,
    known]
  dsimp only
  rw [decides, unique, and_iff_right rfl]
  obtain ⟨member, listed⟩ := someMember
  constructor
  · exact fun only other => (only other).mp
  · intro agree other
    exact ⟨agree other, fun same => by rwa [same, ← agree member listed]⟩

/-- A name that no namespace around takes is looked up among the qualified names. -/
theorem layered_of_unbound {outer : NameTable} {path : QualifiedName}
    (unbound : ∀ name, path = .simple name →
      ∀ owner ∈ model.containerChain source, ¬model.HasMember name owner) :
    Scope.layered (Scope.layers model source) outer path = outer.lookup? path := by
  have nowhere : (model.containerChain source).findSome? (model.memberBinding? path) = none :=
    List.findSome?_eq_none_iff.mpr fun owner listed =>
      memberBinding?_eq_none_iff_forall.mpr fun name same => unbound name same owner listed
  rw [layered_layers, nowhere]

/-- A qualified name designates the only element that has it. -/
theorem globalTable_lookup?_eq_some_iff {path : QualifiedName} :
    (Scope.globalTable qualifiedName? model).lookup? path = some target ↔
      ∀ other, (other ∈ model.ids ∧ model.qualifiedName? other = some path) ↔ other = target := by
  have listed : ∀ other,
      (path, other) ∈ (model.ids.filterMap fun id =>
          (model.qualifiedName? id).map fun name => (name, id)) ↔
        other ∈ model.ids ∧ model.qualifiedName? other = some path := by
    intro other
    simp only [List.mem_filterMap, Option.map_eq_some_iff, Prod.mk.injEq]
    constructor
    · rintro ⟨id, present, _, named, rfl, rfl⟩
      exact ⟨present, named⟩
    · rintro ⟨present, named⟩
      exact ⟨other, present, path, named, rfl, rfl⟩
  rw [Scope.globalTable, NameTable.lookup?_ofList_eq_some_iff]
  simp only [listed]
  constructor
  · rintro ⟨present, alone⟩ other
    exact ⟨alone other, fun same => same ▸ present⟩
  · intro only
    exact ⟨(only target).mpr rfl, fun other => (only other).mp⟩

end Model

namespace Scope

/-- The qualified names of a model, shadowed by the namespaces around an object from the
outermost to the innermost. -/
def shadowedTable (model : Model) (source : ObjectId) : NameTable :=
  (layers model source).reverse.foldl NameTable.shadowWith
    (globalTable Model.qualifiedName? model)

/-- The table that shadows last decides. -/
theorem binding?_foldl_shadowWith (layers : List NameTable) (outer : NameTable)
    (name : QualifiedName) :
    (layers.reverse.foldl NameTable.shadowWith outer).binding? name =
      (layers.findSome? fun layer => layer.binding? name).or (outer.binding? name) := by
  rw [List.foldl_reverse]
  induction layers with
  | nil => rfl
  | cons layer rest inductionHypothesis =>
      rw [List.foldr_cons, NameTable.binding?_shadowWith, inductionHypothesis,
        List.findSome?_cons]
      cases layer.binding? name <;> rfl

/-- Asking layers one after the other is looking up in the table they shadow. -/
theorem layered_eq_scope (layers : List NameTable) (outer : NameTable) :
    layered layers outer = (layers.reverse.foldl NameTable.shadowWith outer).scope := by
  funext name
  rw [NameTable.scope, NameTable.lookup?, binding?_foldl_shadowWith, layered]
  cases layers.findSome? fun layer => layer.binding? name <;> rfl

theorem isReferencePosition_iff (model : Model) (source : ObjectId) (reference : Metafeature) :
    isReferencePosition model source reference = true ↔
      reference.storage = .crossReference ∧
        ∃ metaclass, model.metaclass? source = some metaclass ∧
          metaclass.hasFeature reference = true := by
  rw [isReferencePosition, Bool.and_eq_true, beq_iff_eq, Option.any_eq_true]

theorem containment_eq_some_iff {names : NameProvider} {model : Model} {source : ObjectId}
    {reference : Metafeature} {scope : Scope} :
    containment names model source reference = some scope ↔
      isReferencePosition model source reference = true ∧
        layered (layers model source) (globalTable names model) = scope := by
  rw [containment, containmentOver]
  split <;> simp_all

/-! ## The scope of a reference -/

/-- The scope of a reference.  There is one exactly at the cross references that a source
exists for and has.  The innermost namespace around the source with a member of a simple
name decides for the object that all its members of this name are; every other name
designates the only element of which it is the qualified name.  The table that is shadowed
from outside inwards is the same scope. -/
theorem containment_nearest {model : Model} (reachable : model.Reachable) (source : ObjectId)
    (reference : Metafeature) :
    ((containment Model.qualifiedName? model source reference).isSome = true ↔
      reference.storage = .crossReference ∧
        ∃ metaclass, model.metaclass? source = some metaclass ∧
          metaclass.hasFeature reference = true) ∧
    ∀ scope, containment Model.qualifiedName? model source reference = some scope →
      (∃ chain, model.Climbs source chain ∧
        (∀ name, (∃ owner ∈ chain, model.HasMember name owner) →
          ∃ owner, model.Innermost name chain owner ∧
            ∀ target, scope (.simple name) = some target ↔
              ∀ member, (name, member) ∈ model.namedMembers owner → member = target) ∧
        ∀ path,
          (∀ name, path = .simple name → ∀ owner ∈ chain, ¬model.HasMember name owner) →
            ∀ target, scope path = some target ↔
              ∀ other, (other ∈ model.ids ∧ model.qualifiedName? other = some path) ↔
                other = target) ∧
      scope = (shadowedTable model source).scope := by
  constructor
  · rw [← isReferencePosition_iff, Option.isSome_iff_exists]
    constructor
    · rintro ⟨scope, given⟩
      exact (containment_eq_some_iff.mp given).1
    · intro position
      exact ⟨_, containment_eq_some_iff.mpr ⟨position, rfl⟩⟩
  · intro scope given
    obtain ⟨_, rfl⟩ := containment_eq_some_iff.mp given
    refine ⟨⟨_, reachable.forest.containerChain_climbs source, ?_, ?_⟩, layered_eq_scope _ _⟩
    · intro name someMember
      obtain ⟨owner, innermost⟩ := Model.exists_innermost someMember
      exact ⟨owner, innermost, fun target => Model.layered_of_innermost innermost⟩
    · intro path unbound target
      rw [Model.layered_of_unbound unbound, Model.globalTable_lookup?_eq_some_iff]

/-- A definition at the top, and a package with two definitions of the same name, one of which
it has as a member twice, and a part whose type is to be referred to. -/
def ambiguousWheels : ModelDraft :=
  let draft := (ModelDraft.initial.partDefinition ModelDraft.root "wheel").2
  let draft := (draft.package ModelDraft.root "Cars").2
  let draft := (draft.partDefinition ⟨3⟩ "wheel").2
  let draft := (draft.partDefinition ⟨3⟩ "wheel").2
  let draft := (draft.part ⟨3⟩ (some "spare")).2
  let draft := (draft.typedBy ⟨9⟩ (.object ⟨1⟩)).2
  let draft := (draft.relationship ⟨3⟩ .membership).2
  draft.set ⟨12⟩ .memberElement (.object ⟨9⟩)

theorem ambiguousWheels_reachable : ambiguousWheels.model.Reachable := by
  unfold ambiguousWheels
  apply ModelDraft.reachable_set
  apply ModelDraft.reachable_relationship
  apply ModelDraft.reachable_typedBy
  iterate 5 apply ModelDraft.reachable_member
  exact ModelDraft.reachable_initial

/-- The package hides the definition at the top behind its two definitions, although no other
element has the qualified name of the one at the top.  The member it has twice stays
unique, and so does the qualified name of this member. -/
theorem containment_nearest_ambiguousWheels :
    ∃ scope, containment Model.qualifiedName? ambiguousWheels.model ⟨11⟩ .typingType =
        some scope ∧
      (∀ target, scope (.simple "wheel") ≠ some target) ∧
      scope (.simple "spare") = some ⟨9⟩ ∧
      scope ⟨["Cars", "spare"]⟩ = some ⟨9⟩ ∧
      scope = (shadowedTable ambiguousWheels.model ⟨11⟩).scope := by
  obtain ⟨position, answers⟩ :=
    containment_nearest ambiguousWheels_reachable ⟨11⟩ .typingType
  obtain ⟨scope, given⟩ := Option.isSome_iff_exists.mp
    (position.mpr ⟨rfl, .featureTyping, by decide +kernel, by decide⟩)
  obtain ⟨⟨chain, climbs, nearest, elsewhere⟩, eager⟩ := answers scope given
  have places : chain = [⟨11⟩, ⟨9⟩, ⟨10⟩, ⟨3⟩, ⟨4⟩, ⟨0⟩] :=
    (climbs.unique (ambiguousWheels_reachable.forest.containerChain_climbs _)).trans
      (by decide +kernel)
  -- the package is the innermost namespace with members of the two names
  have decides : ∀ name member, (name, member) ∈ ambiguousWheels.model.namedMembers ⟨3⟩ →
      (∀ closer ∈ [⟨11⟩, ⟨9⟩, ⟨10⟩],
        ambiguousWheels.model.memberBinding? (.simple name) closer = none) →
      ∀ target, scope (.simple name) = some target ↔
        ∀ member, (name, member) ∈ ambiguousWheels.model.namedMembers ⟨3⟩ →
          member = target := by
    intro name member listed free
    have package : ambiguousWheels.model.HasMember name ⟨3⟩ :=
      ⟨by decide +kernel, member, listed⟩
    obtain ⟨owner, innermost, answer⟩ := nearest name ⟨⟨3⟩, by simp [places], package⟩
    have here : ambiguousWheels.model.Innermost name chain ⟨3⟩ :=
      ⟨[⟨11⟩, ⟨9⟩, ⟨10⟩], [⟨4⟩, ⟨0⟩], places, package, fun closer inside =>
        Model.memberBinding?_eq_none_iff.mp (free closer inside)⟩
    rw [innermost.unique here] at answer
    exact answer
  refine ⟨scope, given, ?_, ?_, ?_, eager⟩
  · intro target found
    have agree := (decides "wheel" ⟨5⟩ (by decide +kernel) (by decide +kernel) target).mp found
    have first := agree ⟨5⟩ (by decide +kernel)
    have second := agree ⟨7⟩ (by decide +kernel)
    rw [← second] at first
    exact absurd first (by decide)
  · refine (decides "spare" ⟨9⟩ (by decide +kernel) (by decide +kernel) ⟨9⟩).mpr ?_
    intro member listed
    exact (by decide +kernel : ∀ pair ∈ ambiguousWheels.model.namedMembers ⟨3⟩,
      pair.1 = "spare" → pair.2 = ⟨9⟩) _ listed rfl
  · refine (elsewhere ⟨["Cars", "spare"]⟩ (fun _ impossible => ?_) ⟨9⟩).mpr ?_
    · cases impossible
    · intro other
      constructor
      · rintro ⟨listed, named⟩
        exact (by decide +kernel : ∀ id ∈ ambiguousWheels.model.ids,
          ambiguousWheels.model.qualifiedName? id = some ⟨["Cars", "spare"]⟩ → id = ⟨9⟩) _
            listed named
      · rintro rfl
        exact ⟨by decide +kernel, by decide +kernel⟩

end Scope

end ModelText
