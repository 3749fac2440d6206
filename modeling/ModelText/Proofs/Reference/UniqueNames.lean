import Mathlib.Data.List.Basic
import ModelText.Graph.Draft
import ModelText.Proofs.Name.Namespaces
import ModelText.Proofs.Name.Written
import ModelText.Proofs.Reference.Tokens
import ModelText.Proofs.Scope.Shadowing

namespace ModelText

/-!
# References to elements with a name of their own

An element whose qualified name no other element has can be referred to from everywhere,
as far as the simple names in between allow it.  Namespaces add simple names only, so a
name of two or more segments is looked up among the qualified names of all elements and
found there.  A name of one segment may be taken before that: the innermost namespace
around the reference with a member of this name decides.  Where it decides for another
element there is no token at all, because the effective name, which is tried last, is the
same single segment.
-/

/-! ## Names around a place -/

namespace Model

variable {model : Model} {source target : ObjectId} {name : String}

/-- Whether a simple name means the given object or nothing in the namespaces around a
place.  Either none of them has a member of this name, or the innermost one that has maps
the name to the object alone. -/
def Unshadowed (model : Model) (source : ObjectId) (name : String) (target : ObjectId) : Prop :=
  (∀ owner ∈ model.containerChain source, ¬model.HasMember name owner) ∨
    ∃ inner owner outer, model.containerChain source = inner ++ owner :: outer ∧
      (model.isA owner .nameSpace = true ∧
        ∀ member, (name, member) ∈ model.namedMembers owner ↔ member = target) ∧
      ∀ closer ∈ inner, ¬model.HasMember name closer

theorem unshadowed_iff :
    model.Unshadowed source name target ↔
      (model.containerChain source).findSome? (model.memberBinding? (.simple name)) = none ∨
        (model.containerChain source).findSome? (model.memberBinding? (.simple name)) =
          some (.unique target) := by
  simp only [Unshadowed, List.findSome?_eq_none_iff, List.findSome?_eq_some_iff,
    memberBinding?_eq_none_iff, memberBinding?_eq_unique_iff]

theorem layered_simple_eq_some_iff {outer : NameTable}
    (found : outer.lookup? (.simple name) = some target) :
    Scope.layered (Scope.layers model source) outer (.simple name) = some target ↔
      model.Unshadowed source name target := by
  rw [layered_layers, unshadowed_iff]
  cases (model.containerChain source).findSome? (model.memberBinding? (.simple name)) with
  | none => simp [found]
  | some binding => cases binding <;> simp [Binding.target?]

theorem layered_of_two_le {outer : NameTable} {path : QualifiedName}
    (long : 2 ≤ path.segments.length) :
    Scope.layered (Scope.layers model source) outer path = outer.lookup? path := by
  apply layered_of_unbound
  rintro name rfl
  simp [QualifiedName.simple] at long

/-! ## Qualified names -/

theorem globalTable_lookup?_of_unique {path : QualifiedName}
    (named : model.qualifiedName? target = some path)
    (unique : ∀ other ∈ model.ids, model.qualifiedName? other = some path → other = target) :
    (Scope.globalTable qualifiedName? model).lookup? path = some target := by
  obtain ⟨name, _, effective, _⟩ := exists_effectiveName? named
  rw [globalTable_lookup?_eq_some_iff]
  intro other
  constructor
  · rintro ⟨listed, otherNamed⟩
    exact unique other listed otherNamed
  · rintro rfl
    exact ⟨mem_ids_of_effectiveName? effective, named⟩

end Model

/-! ## Tokens -/

namespace Resolver

open QualifiedName (separates)

variable {options : Options} {model : Model} {source target : ObjectId}
  {reference : Metafeature} {path : QualifiedName}

/-- The standard scope at the place of a reference. -/
def standardScope (model : Model) (source : ObjectId) : Scope :=
  Scope.layered (Scope.layers model source) (Scope.globalTable Model.qualifiedName? model)

theorem resolve_object (options : Options)
    (position : Scope.isReferencePosition model source reference = true) (index : Nat)
    (target : ObjectId) :
    (standard options).resolve model ⟨source, reference, index⟩ (.object target) =
      (standard options).targetToken model (standardScope model source) source reference
        target := by
  simp [resolve, recordedToken?, scopeAt, scopes_standard options position, scopedToken,
    referent, standardScope]

/-- A name that reads back is accepted exactly where it means the target. -/
theorem acceptedToken?_standard (apart : separates options.nameSeparator.toList = true)
    (nonempty : path.segments ≠ []) (scope : Scope) (target : ObjectId) :
    (standard options).acceptedToken? scope path target =
      if scope path = some target then some (path.render options.nameSeparator) else none := by
  simp [acceptedToken?, Scope.designates, standard, QualifiedName.parse_render apart nonempty]

/-- The qualified name is written where it means the target. -/
theorem targetToken_of_designates (apart : separates options.nameSeparator.toList = true)
    (named : model.qualifiedName? target = some path) (nonempty : path.segments ≠ [])
    {scope : Scope} (found : scope path = some target) :
    (standard options).targetToken model scope source reference target =
      .ok (path.render options.nameSeparator) := by
  have qualified : (standard options).qualifiedName? model target = some path := by
    simp [qualifiedName?, standard, named]
  simp [targetToken, qualifiedToken?, qualified, acceptedToken?_standard apart nonempty, found]

/-- Where a qualified name of one segment means something else, so does the effective
name. -/
theorem targetToken_of_shadowed {name : String}
    (apart : separates options.nameSeparator.toList = true)
    (named : model.qualifiedName? target = some (.simple name)) {scope : Scope}
    (other : scope (.simple name) ≠ some target) :
    (standard options).targetToken model scope source reference target =
      .error (.notValidInScope source reference target name) := by
  have qualified : (standard options).qualifiedName? model target = some (.simple name) := by
    simp [qualifiedName?, standard, named]
  have effective : model.effectiveName? target = some name := by
    obtain ⟨last, outer, known, same⟩ := Model.exists_effectiveName? named
    have alone : name = last := by
      simpa [QualifiedName.simple] using congrArg List.getLast? same
    rw [alone, known]
  have nonempty : (QualifiedName.simple name).segments ≠ [] := List.cons_ne_nil name []
  have refused : (standard options).acceptedToken? scope (.simple name) target = none := by
    rw [acceptedToken?_standard apart nonempty, if_neg other]
  simp [targetToken, qualifiedToken?, qualified, effectiveToken, effective, refused]

/-- The reference to an element whose qualified name no other element has.  A qualified name of
two or more segments is its token from everywhere.  A single segment is its token exactly
where the namespaces around do not take the segment for something else, and elsewhere
there is no token. -/
theorem resolve_uniquelyNamed (options : Options)
    (apart : separates options.nameSeparator.toList = true) {model : Model}
    {source target : ObjectId} {metaclass : Metaclass} {reference : Metafeature}
    (exist : model.metaclass? source = some metaclass)
    (carries : metaclass.hasFeature reference = true)
    (storage : reference.storage = .crossReference) (index : Nat) {path : QualifiedName}
    (named : model.qualifiedName? target = some path)
    (unique : ∀ other ∈ model.ids, model.qualifiedName? other = some path → other = target) :
    (2 ≤ path.segments.length →
      (standard options).resolve model ⟨source, reference, index⟩ (.object target) =
        .ok (path.render options.nameSeparator)) ∧
    ∀ name, path = .simple name →
      ((standard options).resolve model ⟨source, reference, index⟩ (.object target) =
          .ok (path.render options.nameSeparator) ↔ model.Unshadowed source name target) ∧
      (¬model.Unshadowed source name target →
        (standard options).resolve model ⟨source, reference, index⟩ (.object target) =
          .error (.notValidInScope source reference target name)) := by
  have position : Scope.isReferencePosition model source reference = true := by
    simp [Scope.isReferencePosition, storage, exist, carries]
  have found := Model.globalTable_lookup?_of_unique named unique
  rw [resolve_object options position]
  constructor
  · intro long
    apply targetToken_of_designates apart named
    · exact List.ne_nil_of_length_pos (by omega)
    · rw [standardScope, Model.layered_of_two_le long, found]
  · rintro name rfl
    have decides : standardScope model source (.simple name) = some target ↔
        model.Unshadowed source name target :=
      Model.layered_simple_eq_some_iff found
    have refused : ¬model.Unshadowed source name target →
        (standard options).targetToken model (standardScope model source) source reference target =
          .error (.notValidInScope source reference target name) := fun shadowed =>
      targetToken_of_shadowed apart named fun reached => shadowed (decides.mp reached)
    refine ⟨⟨?_, ?_⟩, refused⟩
    · intro written
      by_contra shadowed
      rw [refused shadowed] at written
      cases written
    · intro clear
      exact targetToken_of_designates apart named (List.cons_ne_nil name [])
        (decides.mpr clear)

/-- A definition at the top, a package with a definition of the same name, and a part in
each of the two that is typed by the definition at the top. -/
def twoWheels : ModelDraft :=
  let draft := (ModelDraft.initial.partDefinition ModelDraft.root "rear wheel").2
  let draft := (draft.package ModelDraft.root "Cars").2
  let draft := (draft.partDefinition ⟨3⟩ "rear wheel").2
  let draft := (draft.part ⟨3⟩ (some "inside")).2
  let draft := (draft.typedBy ⟨7⟩ (.object ⟨1⟩)).2
  let draft := (draft.part ModelDraft.root (some "outside")).2
  (draft.typedBy ⟨10⟩ (.object ⟨1⟩)).2

/-- The definition in the package has its token from outside, the one at the top has its
token from the top, and inside the package the other one stands before it. -/
theorem resolve_uniquelyNamed_twoWheels :
    (standard { Options.standard with nameSeparator := "->" }).resolve twoWheels.model
        ⟨⟨12⟩, .typingType, 0⟩ (.object ⟨5⟩) = .ok "Cars->'rear wheel'" ∧
      twoWheels.model.Unshadowed ⟨12⟩ "rear wheel" ⟨1⟩ ∧
      (standard { Options.standard with nameSeparator := "->" }).resolve twoWheels.model
        ⟨⟨12⟩, .typingType, 0⟩ (.object ⟨1⟩) = .ok "'rear wheel'" ∧
      ¬twoWheels.model.Unshadowed ⟨9⟩ "rear wheel" ⟨1⟩ ∧
      (standard { Options.standard with nameSeparator := "->" }).resolve twoWheels.model
        ⟨⟨9⟩, .typingType, 0⟩ (.object ⟨1⟩) =
          .error (.notValidInScope ⟨9⟩ .typingType ⟨1⟩ "rear wheel") := by
  have apart : separates "->".toList = true := by decide +kernel
  have inPackage : twoWheels.model.qualifiedName? ⟨5⟩ = some ⟨["Cars", "rear wheel"]⟩ := by
    decide +kernel
  have atTop : twoWheels.model.qualifiedName? ⟨1⟩ = some ⟨["rear wheel"]⟩ := by decide +kernel
  have outside : twoWheels.model.metaclass? ⟨12⟩ = some .featureTyping := by decide +kernel
  have inside : twoWheels.model.metaclass? ⟨9⟩ = some .featureTyping := by decide +kernel
  have carries : Metaclass.featureTyping.hasFeature .typingType = true := by decide
  have clear : twoWheels.model.Unshadowed ⟨12⟩ "rear wheel" ⟨1⟩ := by
    rw [Model.unshadowed_iff]
    decide +kernel
  have shadowed : ¬twoWheels.model.Unshadowed ⟨9⟩ "rear wheel" ⟨1⟩ := by
    rw [Model.unshadowed_iff]
    decide +kernel
  refine ⟨?_, clear, ?_, shadowed, ?_⟩
  · exact (resolve_uniquelyNamed _ apart outside carries rfl 0 inPackage
      (by decide +kernel)).1 (by decide)
  · exact ((resolve_uniquelyNamed _ apart outside carries rfl 0 atTop
      (by decide +kernel)).2 _ rfl).1.mpr clear
  · exact ((resolve_uniquelyNamed _ apart inside carries rfl 0 atTop
      (by decide +kernel)).2 _ rfl).2 shadowed

end Resolver

end ModelText
