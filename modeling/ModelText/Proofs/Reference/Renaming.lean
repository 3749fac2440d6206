import ModelText.Proofs.Graph.Renaming
import ModelText.Proofs.Scope.Table
import ModelText.Reference.Resolver

namespace ModelText

/-!
# Tokens in renamed models

The table of qualified names is collected in the order of creation, and whether a name
is ambiguous comes out while it is collected.  Still a table depends on nothing but the
set of its pairs, so the table of a renamed model designates renamed objects by the same
names.  The scope of a place renames the scope of the original place, and a reference is
written with the same token.
-/

/-! ## Tables -/

def Binding.rename (rename : ObjectId → ObjectId) : Binding → Binding
  | .unique target => .unique (rename target)
  | .ambiguous => .ambiguous

theorem Binding.target?_rename (rename : ObjectId → ObjectId) (binding : Binding) :
    (binding.rename rename).target? = binding.target?.map rename := by
  cases binding <;> rfl

namespace NameTable

/-- Tables of pairs that are the same up to renaming bind names in the same way, in
whatever order and however often the pairs were inserted. -/
theorem binding?_ofList_rename {permutation : Equiv.Perm ObjectId}
    {pairs others : List (QualifiedName × ObjectId)}
    (same : ∀ name target, (name, permutation target) ∈ others ↔ (name, target) ∈ pairs)
    (name : QualifiedName) :
    (ofList others).binding? name =
      ((ofList pairs).binding? name).map (Binding.rename permutation) := by
  have none_iff : (ofList others).binding? name = none ↔
      (ofList pairs).binding? name = none := by
    rw [binding?_ofList_eq_none_iff, binding?_ofList_eq_none_iff, ← permutation.forall_congr_right]
    exact forall_congr' fun target => not_congr (same name target)
  have unique_iff : ∀ target,
      (ofList others).binding? name = some (.unique (permutation target)) ↔
        (ofList pairs).binding? name = some (.unique target) := by
    intro target
    rw [(describes_ofList others name).2, (describes_ofList pairs name).2, same,
      ← permutation.forall_congr_right]
    refine and_congr_right fun _ => forall_congr' fun chosen => ?_
    rw [same, permutation.injective.eq_iff]
  cases bound : (ofList pairs).binding? name with
  | none => exact none_iff.mpr bound
  | some binding =>
      cases binding with
      | unique target => exact (unique_iff target).mpr bound
      | ambiguous =>
          cases boundToo : (ofList others).binding? name with
          | none => rw [none_iff.mp boundToo] at bound; cases bound
          | some other =>
              cases other with
              | ambiguous => rfl
              | unique target =>
                  rw [← permutation.apply_symm_apply target] at boundToo
                  rw [(unique_iff _).mp boundToo] at bound
                  cases bound

end NameTable

/-! ## Scopes -/

namespace Scope

/-- A scope that designates renamed objects. -/
def rename (rename : ObjectId → ObjectId) (scope : Scope) : Scope :=
  fun name => (scope name).map rename

theorem designates_rename {permutation : Equiv.Perm ObjectId} (scope : Scope)
    (name : QualifiedName) (target : ObjectId) :
    (scope.rename permutation).designates name (permutation target) =
      scope.designates name target := by
  rw [designates, rename, designates, Bool.eq_iff_iff, beq_iff_eq, beq_iff_eq,
    ← Option.map_some, (Option.map_injective permutation.injective).eq_iff]

/-- Layers that bind names to renamed objects make a scope of renamed objects. -/
theorem layered_rename {rename : ObjectId → ObjectId} {name : QualifiedName}
    {places : List ObjectId} {layer other : ObjectId → NameTable} {outer otherOuter : NameTable}
    (each : ∀ place, (other place).binding? name =
      ((layer place).binding? name).map (Binding.rename rename))
    (outermost : otherOuter.binding? name = (outer.binding? name).map (Binding.rename rename)) :
    layered (places.map other) otherOuter name =
      (layered (places.map layer) outer name).map rename := by
  unfold layered
  induction places with
  | nil =>
      rw [List.map_nil, List.map_nil, List.findSome?_nil]
      dsimp only
      rw [NameTable.lookup?, outermost, NameTable.lookup?]
      cases outer.binding? name with
      | none => rfl
      | some binding => exact binding.target?_rename rename
  | cons place places inductionHypothesis =>
      rw [List.map_cons, List.map_cons, List.findSome?_cons, List.findSome?_cons, each]
      cases (layer place).binding? name with
      | none => exact inductionHypothesis
      | some binding => exact binding.target?_rename rename

end Scope

namespace Model.RenamesObjects

variable {model other : Model} {permutation : Equiv.Perm ObjectId}
  (renames : model.RenamesObjects permutation other)
include renames

/-- Qualified names are collected in another order, but they are the same names. -/
theorem globalTable_binding?_eq (name : QualifiedName) :
    (Scope.globalTable Model.qualifiedName? other).binding? name =
      ((Scope.globalTable Model.qualifiedName? model).binding? name).map
        (Binding.rename permutation) := by
  have listed : ∀ (holder : Model) (name : QualifiedName) (target : ObjectId),
      (name, target) ∈ (holder.ids.filterMap fun id =>
          (holder.qualifiedName? id).map fun name => (name, id)) ↔
        target ∈ holder.ids ∧ holder.qualifiedName? target = some name := by
    intro holder name target
    rw [List.mem_filterMap]
    constructor
    · rintro ⟨id, member, given⟩
      rcases Option.map_eq_some_iff.mp given with ⟨known, known_eq, same⟩
      cases same
      exact ⟨member, known_eq⟩
    · rintro ⟨member, known⟩
      exact ⟨target, member, by rw [known]; rfl⟩
  refine NameTable.binding?_ofList_rename ?_ name
  intro known target
  rw [listed, listed, renames.qualifiedName?_eq, mem_ids_iff, renames.index_lt_iff, mem_ids_iff]

theorem memberTable_binding?_eq (namespaceId : ObjectId) (name : QualifiedName) :
    (Scope.memberTable other (permutation namespaceId)).binding? name =
      ((Scope.memberTable model namespaceId).binding? name).map (Binding.rename permutation) := by
  refine NameTable.binding?_ofList_rename ?_ name
  intro known target
  rw [renames.namedMembers_eq, List.map_map, List.mem_map, List.mem_map]
  refine exists_congr fun named => and_congr_right fun _ => ?_
  rw [Function.comp_apply, Prod.mk.injEq, Prod.mk.injEq, permutation.injective.eq_iff]

/-- At a renamed place the same names designate renamed objects. -/
theorem containment_eq (source : ObjectId) (reference : Metafeature) :
    Scope.containment Model.qualifiedName? other (permutation source) reference =
      (Scope.containment Model.qualifiedName? model source reference).map
        (Scope.rename permutation) := by
  have position : Scope.isReferencePosition other (permutation source) reference =
      Scope.isReferencePosition model source reference := by
    rw [Scope.isReferencePosition, renames.metaclass?_eq, Scope.isReferencePosition]
  unfold Scope.containment Scope.containmentOver
  rw [position]
  split
  · refine congrArg some ?_
    funext name
    rw [Scope.layers, renames.containerChain_eq, renames.filter_isA_eq, List.map_map]
    exact Scope.layered_rename (fun place => renames.memberTable_binding?_eq place name)
      (renames.globalTable_binding?_eq name)
  · rfl

end Model.RenamesObjects

/-! ## Tokens -/

def ResolutionError.rename (rename : ObjectId → ObjectId) : ResolutionError → ResolutionError
  | .noScope source reference => .noScope (rename source) reference
  | .notAReference source reference => .notAReference (rename source) reference
  | .unresolvedProxy source reference text => .unresolvedProxy (rename source) reference text
  | .noEffectiveName source reference target =>
      .noEffectiveName (rename source) reference (rename target)
  | .notValidInScope source reference target name =>
      .notValidInScope (rename source) reference (rename target) name

namespace Resolver

variable {model other : Model} {permutation : Equiv.Perm ObjectId}

theorem acceptedToken?_rename (resolver : Resolver) (scope : Scope) (name : QualifiedName)
    (target : ObjectId) :
    resolver.acceptedToken? (scope.rename permutation) name (permutation target) =
      resolver.acceptedToken? scope name target := by
  rw [acceptedToken?, acceptedToken?, Scope.designates_rename]

theorem referent_rename (resolver : Resolver) (scope : Scope) (source : ObjectId)
    (reference : Metafeature) (value : Value) :
    resolver.referent (scope.rename permutation) (permutation source) reference
        (value.rename permutation) =
      ((resolver.referent scope source reference value).map permutation).mapError
        (ResolutionError.rename permutation) := by
  cases value with
  | proxy text =>
      rw [Value.rename_proxy, referent, referent, Scope.rename]
      cases scope (QualifiedName.parse text resolver.separator) <;> rfl
  | bool | int | text | direction | object => rfl

variable (renames : model.RenamesObjects permutation other) (options : Options)
include renames

theorem qualifiedToken?_rename (scope : Scope) (target : ObjectId) :
    (standard options).qualifiedToken? other (scope.rename permutation) (permutation target) =
      (standard options).qualifiedToken? model scope target := by
  have named : (standard options).qualifiedName? other (permutation target) =
      (standard options).qualifiedName? model target := by
    rw [qualifiedName?, qualifiedName?, standard]
    dsimp only
    rw [renames.qualifiedName?_eq, renames.isA_eq, renames.ownedMemberElement?_eq]
    cases model.qualifiedName? target with
    | some name => rfl
    | none =>
        cases model.ownedMemberElement? target with
        | none => rfl
        | some element => rw [Option.map_some, Option.bind_some, Option.bind_some,
            renames.qualifiedName?_eq]
  rw [qualifiedToken?, named, qualifiedToken?]
  congr 1
  funext name
  exact acceptedToken?_rename _ scope name target

theorem targetToken_rename (scope : Scope) (source : ObjectId) (reference : Metafeature)
    (target : ObjectId) :
    (standard options).targetToken other (scope.rename permutation) (permutation source)
        reference (permutation target) =
      ((standard options).targetToken model scope source reference target).mapError
        (ResolutionError.rename permutation) := by
  rw [targetToken, qualifiedToken?_rename renames, targetToken]
  cases (standard options).qualifiedToken? model scope target with
  | some token => rfl
  | none =>
      dsimp only
      rw [effectiveToken, renames.effectiveName?_eq, effectiveToken]
      cases model.effectiveName? target with
      | none => rfl
      | some name =>
          dsimp only
          rw [acceptedToken?_rename]
          cases (standard options).acceptedToken? scope (.simple name) target <;> rfl

theorem scopedToken_rename (scope : Scope) (source : ObjectId) (reference : Metafeature)
    (value : Value) :
    (standard options).scopedToken other (scope.rename permutation) (permutation source)
        reference (value.rename permutation) =
      ((standard options).scopedToken model scope source reference value).mapError
        (ResolutionError.rename permutation) := by
  rw [scopedToken, referent_rename, scopedToken]
  cases (standard options).referent scope source reference value with
  | error error => rfl
  | ok target => exact targetToken_rename renames options scope source reference target

omit renames in
/-- A renamed reference has the same token, or none for the same reason. -/
theorem resolve_rename (renames : model.Renames permutation other) (site : ReferenceSite)
    (value : Value) :
    (standard options).resolve other (site.rename permutation) (value.rename permutation) =
      ((standard options).resolve model site value).mapError
        (ResolutionError.rename permutation) := by
  have recorded : (standard options).recordedToken? other (site.rename permutation)
        (value.rename permutation) = (standard options).recordedToken? model site value := by
    cases value with
    | proxy text => rw [Value.rename_proxy, recordedToken?, recordedToken?, renames.sourceToken?_eq]
    | bool | int | text | direction | object => rfl
  have visible : (standard options).scopeAt other (permutation site.source) site.feature =
      (((standard options).scopeAt model site.source site.feature).map
        (Scope.rename permutation)).mapError (ResolutionError.rename permutation) := by
    rw [scopeAt, scopeAt, standard]
    dsimp only
    rw [renames.containment_eq]
    cases Scope.containment Model.qualifiedName? model site.source site.feature <;> rfl
  rw [resolve, recorded, resolve]
  cases (standard options).recordedToken? model site value with
  | some token => rfl
  | none =>
      dsimp only [ReferenceSite.rename]
      rw [visible]
      cases (standard options).scopeAt model site.source site.feature with
      | error error => rfl
      | ok scope =>
          exact scopedToken_rename renames.toRenamesObjects options scope site.source
            site.feature value

end Resolver

end ModelText
