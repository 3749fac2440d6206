import ModelText.Proofs.Graph.Forest
import ModelText.Proofs.Graph.Renaming
import ModelText.Workspace

namespace ModelText

/-!
# The name cache is never stale

The cache holds one table of qualified names, marked with a model and a revision.  Between
two lookups models are opened, copied and changed, and a copy keeps the revision of its
original.  A revision counts every change of the objects of a model, so two moments of one
model at the same revision have the same objects; and a copy is a different model, so it
never takes over what was remembered of the original.

What the cache remembers therefore belongs to an earlier moment of a model that is open.
If that model is still at the remembered revision, the table is its present one.
-/

/-! ## Moments of one model -/

namespace Model

/-- A model may be a later moment of another one: its revision is not smaller, and no
change of the objects goes uncounted. -/
structure Precedes (model later : Model) : Prop where
  revision_le : model.revision ≤ later.revision
  objects_eq : later.revision = model.revision → later.objects = model.objects

namespace Precedes

theorem refl (model : Model) : Precedes model model := ⟨Nat.le_refl _, fun _ => rfl⟩

theorem trans {model later last : Model} (first : Precedes model later)
    (second : Precedes later last) : Precedes model last where
  revision_le := Nat.le_trans first.revision_le second.revision_le
  objects_eq := by
    intro same
    have between : later.revision = model.revision :=
      Nat.le_antisymm (same ▸ second.revision_le) first.revision_le
    rw [second.objects_eq (same.trans between.symm), first.objects_eq between]

theorem of_revision_eq_succ {model later : Model}
    (counted : later.revision = model.revision + 1) : Precedes model later where
  revision_le := by omega
  objects_eq := by omega

end Precedes

/-- A write is refused, or it counts as a revision. -/
theorem revision_write {model next : Model} {many : Bool} {owner : ObjectId}
    {feature : Metafeature} {value : Value} {slot : Slot}
    (accepted : model.write many owner feature value slot = .ok next) :
    next.revision = model.revision + 1 := by
  unfold write at accepted
  split at accepted
  · cases accepted
  · cases accepted
    rfl

/-- Every call that may change a model counts the changes of its objects. -/
theorem precedes_edit (model : Model) (call : Edit) : Precedes model (model.edit call) := by
  have written : ∀ result : Except ModelError Model,
      (∀ next, result = .ok next → next.revision = model.revision + 1) →
        Precedes model (result.toOption.getD model) := by
    intro result counted
    cases result with
    | error fault => exact .refl model
    | ok next => exact .of_revision_eq_succ (counted next rfl)
  cases call with
  | create metaclass => exact .of_revision_eq_succ rfl
  | set owner feature value => exact written _ fun _ => revision_write
  | push owner feature value => exact written _ fun _ => revision_write
  | recordSourceToken site token => exact ⟨Nat.le_refl _, fun _ => rfl⟩
  | detachSource => exact ⟨Nat.le_refl _, fun _ => rfl⟩

end Model

theorem Scope.globalTable_congr {model other : Model} (same : other.objects = model.objects) :
    globalTable Model.qualifiedName? other = globalTable Model.qualifiedName? model := by
  have named : ∀ id, other.qualifiedName? id = model.qualifiedName? id :=
    (Model.renamesObjects_of_objects_eq same).qualifiedName?_eq
  rw [globalTable, globalTable, Model.ids, same, Model.ids]
  simp only [named]

/-! ## Histories of a workspace -/

namespace Workspace

/-- The scope of a reference in one of the models, through the shared cache. -/
def scopeFor? (workspace : Workspace) (place : Nat) (source : ObjectId)
    (reference : Metafeature) : Option Scope × Workspace :=
  match workspace.model? place with
  | none => (none, workspace)
  | some model =>
      let (scope, names) :=
        workspace.names.scopeFor? Model.qualifiedName? model source reference
      (scope, { workspace with names := names })

/-- A workspace that remembers no names. -/
def forgetNames (workspace : Workspace) : Workspace := { workspace with names := .empty }

/-- A call that opens, copies or changes a model, or looks up one or all of its scopes. -/
inductive Call where
  | openEmpty
  | copy (place : Nat)
  | edit (place : Nat) (change : Model.Edit)
  | scopeFor (place : Nat) (source : ObjectId) (reference : Metafeature)
  | scopes (place : Nat)
  deriving DecidableEq

/-- The workspace after a call; a call to a place without a model does nothing. -/
def perform (workspace : Workspace) : Call → Workspace
  | .openEmpty => (workspace.add default).2
  | .copy place =>
      match workspace.model? place with
      | some model => (workspace.add model).2
      | none => workspace
  | .edit place change =>
      match workspace.model? place with
      | some model => workspace.update place (model.edit change)
      | none => workspace
  | .scopeFor place source reference => (workspace.scopeFor? place source reference).2
  | .scopes place =>
      match workspace.model? place with
      | some model => (workspace.scopes model).2
      | none => workspace

def after (workspace : Workspace) (calls : List Call) : Workspace :=
  calls.foldl perform workspace

/-- The open models have their places as identities, and the remembered table belongs to
an earlier moment of one of them. -/
structure Coherent (workspace : Workspace) : Prop where
  identity_eq : ∀ place model, workspace.model? place = some model → model.identity = ⟨place⟩
  remembered : ∀ cached, workspace.names.last = some cached →
    ∃ model, workspace.model? cached.model.number = some model ∧
      cached.revision ≤ model.revision ∧
      (model.revision = cached.revision →
        cached.table = Scope.globalTable Model.qualifiedName? model)

/-- Every open model stays open, and what is at its place is a later moment of it. -/
def Precedes (workspace later : Workspace) : Prop :=
  ∀ place model, workspace.model? place = some model →
    ∃ modelLater, later.model? place = some modelLater ∧ model.Precedes modelLater

namespace Precedes

theorem refl (workspace : Workspace) : Precedes workspace workspace :=
  fun _ model found => ⟨model, found, .refl model⟩

theorem trans {workspace later last : Workspace} (first : Precedes workspace later)
    (second : Precedes later last) : Precedes workspace last := by
  intro place model found
  rcases first place model found with ⟨modelLater, foundLater, before⟩
  rcases second place modelLater foundLater with ⟨modelLast, foundLast, beforeLast⟩
  exact ⟨modelLast, foundLast, before.trans beforeLast⟩

end Precedes

/-! ## Single calls -/

theorem model?_add (workspace : Workspace) (model : Model) (place : Nat) :
    (workspace.add model).2.model? place =
      if place = workspace.models.size then
        some { model with identity := ⟨workspace.models.size⟩ }
      else
        workspace.model? place :=
  Array.getElem?_push

theorem model?_update {workspace : Workspace} {changed : Nat} {model : Model}
    (found : workspace.model? changed = some model) (next : Model) (place : Nat) :
    (workspace.update changed next).model? place =
      if place = changed then some { next with identity := ⟨changed⟩ }
      else workspace.model? place := by
  have inside : changed < workspace.models.size := (Array.getElem?_eq_some_iff.mp found).1
  rw [model?, update, Array.getElem?_setIfInBounds, if_pos inside, model?]
  simp only [eq_comm]

theorem size_ne_of_model? {workspace : Workspace} {place : Nat} {model : Model}
    (found : workspace.model? place = some model) : place ≠ workspace.models.size :=
  Nat.ne_of_lt (Array.getElem?_eq_some_iff.mp found).1

theorem scopeFor?_fst (workspace : Workspace) (place : Nat) (source : ObjectId)
    (reference : Metafeature) :
    (workspace.scopeFor? place source reference).1 =
      (workspace.model? place).bind fun model =>
        Scope.containmentOver (workspace.names.table Model.qualifiedName? model).1 model source
          reference := by
  unfold scopeFor?
  cases workspace.model? place with
  | none => rfl
  | some model =>
      dsimp only [NameCache.scopeFor?, Option.bind_some]
      split
      · rfl
      · next elsewhere => exact (if_neg elsewhere).symm

theorem models_scopeFor? (workspace : Workspace) (place : Nat) (source : ObjectId)
    (reference : Metafeature) :
    (workspace.scopeFor? place source reference).2.models = workspace.models := by
  unfold scopeFor?
  cases workspace.model? place <;> rfl

/-- A call changes no model but the one it edits, and counts what it changes there. -/
theorem precedes_perform (workspace : Workspace) (call : Call) :
    Precedes workspace (workspace.perform call) := by
  have added : ∀ opened : Model, Precedes workspace (workspace.add opened).2 := by
    intro opened place model found
    refine ⟨model, ?_, .refl model⟩
    rw [model?_add, if_neg (size_ne_of_model? found), found]
  cases call with
  | openEmpty => exact added default
  | copy place =>
      rw [perform]
      cases workspace.model? place with
      | none => exact .refl workspace
      | some original => exact added original
  | edit changed change =>
      rw [perform]
      cases edited : workspace.model? changed with
      | none => exact .refl workspace
      | some original =>
          intro place model found
          dsimp only
          rw [model?_update edited]
          by_cases same : place = changed
          · cases same
            cases edited.symm.trans found
            have counted := Model.precedes_edit original change
            exact ⟨_, if_pos rfl, counted.revision_le, counted.objects_eq⟩
          · exact ⟨model, by rw [if_neg same, found], .refl model⟩
  | scopeFor asked source reference =>
      intro place model found
      refine ⟨model, ?_, .refl model⟩
      rw [perform, model?, models_scopeFor?]
      exact found
  | scopes asked =>
      rw [perform]
      cases workspace.model? asked <;> exact .refl _

/-- A table that was remembered earlier is still remembered rightly: models only move on
to later moments. -/
theorem Coherent.remembered_later {workspace later : Workspace} (coherent : Coherent workspace)
    (before : Precedes workspace later) (names : later.names = workspace.names)
    (cached : CachedNames) (last : later.names.last = some cached) :
    ∃ model, later.model? cached.model.number = some model ∧
      cached.revision ≤ model.revision ∧
      (model.revision = cached.revision →
        cached.table = Scope.globalTable Model.qualifiedName? model) := by
  rcases coherent.remembered cached (names ▸ last) with ⟨model, found, reached, table⟩
  rcases before _ model found with ⟨modelLater, foundLater, moment⟩
  refine ⟨modelLater, foundLater, Nat.le_trans reached moment.revision_le, ?_⟩
  intro same
  -- the revision was reached already when the table was right, and it never goes back
  have unchanged : modelLater.revision = model.revision :=
    Nat.le_antisymm (same ▸ reached) moment.revision_le
  rw [table (unchanged.symm.trans same),
    Scope.globalTable_congr (moment.objects_eq unchanged)]

/-- A table that is handed out again was made for the objects the model has now. -/
theorem Coherent.table_eq {workspace : Workspace} (coherent : Coherent workspace) {place : Nat}
    {model : Model} (found : workspace.model? place = some model) :
    (workspace.names.table Model.qualifiedName? model).1 =
      Scope.globalTable Model.qualifiedName? model := by
  unfold NameCache.table
  cases hit : workspace.names.hit? model with
  | none => rfl
  | some table =>
      rcases Option.map_eq_some_iff.mp hit with ⟨cached, kept, rfl⟩
      rcases Option.filter_eq_some_iff.mp kept with ⟨last, matching⟩
      rw [Bool.and_eq_true, beq_iff_eq, beq_iff_eq] at matching
      rcases coherent.remembered cached last with ⟨remembered, foundToo, _, current⟩
      rw [matching.1, coherent.identity_eq place model found, found] at foundToo
      cases foundToo
      exact current matching.2.symm

theorem Coherent.table {workspace : Workspace} (coherent : Coherent workspace) {place : Nat}
    {model : Model} (found : workspace.model? place = some model) :
    Coherent { workspace with names := (workspace.names.table Model.qualifiedName? model).2 } where
  identity_eq := coherent.identity_eq
  remembered := by
    intro cached last
    dsimp only at last
    unfold NameCache.table at last
    cases hit : workspace.names.hit? model with
    | some table =>
        rw [hit] at last
        exact coherent.remembered cached last
    | none =>
        rw [hit] at last
        cases last
        refine ⟨model, ?_, Nat.le_refl _, fun _ => rfl⟩
        rw [coherent.identity_eq place model found]
        exact found

theorem Coherent.scopeFor {workspace : Workspace} (coherent : Coherent workspace)
    (place : Nat) (source : ObjectId) (reference : Metafeature) :
    Coherent (workspace.scopeFor? place source reference).2 := by
  unfold scopeFor?
  cases found : workspace.model? place with
  | none => exact coherent
  | some model =>
      dsimp only [NameCache.scopeFor?]
      split
      · exact coherent.table found
      · exact coherent

/-- Every call leaves the cache right about all open models. -/
theorem Coherent.perform {workspace : Workspace} (coherent : Coherent workspace) (call : Call) :
    Coherent (workspace.perform call) := by
  have before := precedes_perform workspace call
  have added : ∀ (opened : Model) (place : Nat) (model : Model),
      (workspace.add opened).2.model? place = some model → model.identity = ⟨place⟩ := by
    intro opened place model found
    rw [model?_add] at found
    split at found
    · next same => rw [← Option.some.inj found, same]
    · exact coherent.identity_eq place model found
  cases call with
  | openEmpty => exact ⟨added default, coherent.remembered_later before rfl⟩
  | copy place =>
      rw [Workspace.perform] at before ⊢
      cases found : workspace.model? place with
      | none => exact coherent
      | some original =>
          rw [found] at before
          exact ⟨added original, coherent.remembered_later before rfl⟩
  | edit changed change =>
      rw [Workspace.perform] at before ⊢
      cases edited : workspace.model? changed with
      | none => exact coherent
      | some original =>
          rw [edited] at before
          refine ⟨?_, coherent.remembered_later before rfl⟩
          intro place model found
          dsimp only at found
          rw [model?_update edited] at found
          split at found
          · next same => rw [← Option.some.inj found, same]
          · exact coherent.identity_eq place model found
  | scopeFor place source reference => exact coherent.scopeFor place source reference
  | scopes place =>
      rw [Workspace.perform]
      cases found : workspace.model? place with
      | none => exact coherent
      | some model => exact coherent.table found

/-! ## Whole histories -/

theorem coherent_initial : Coherent initial where
  identity_eq := by
    intro place model found
    cases place with
    | zero =>
        rw [← Option.some.inj found]
        rfl
    | succ place => cases found
  remembered := by
    intro cached last
    cases last

theorem Coherent.after {workspace : Workspace} (coherent : Coherent workspace)
    (calls : List Call) : Coherent (workspace.after calls) := by
  induction calls generalizing workspace with
  | nil => exact coherent
  | cons call rest inductionHypothesis => exact inductionHypothesis (coherent.perform call)

theorem precedes_after (workspace : Workspace) (calls : List Call) :
    Precedes workspace (workspace.after calls) := by
  induction calls generalizing workspace with
  | nil => exact .refl workspace
  | cons call rest inductionHypothesis =>
      exact (precedes_perform workspace call).trans (inductionHypothesis _)

/-- The scope over a coherent cache is the scope that forgetting all names gives. -/
theorem Coherent.scopeFor?_eq {workspace : Workspace} (coherent : Coherent workspace)
    (place : Nat) (source : ObjectId) (reference : Metafeature) :
    (workspace.scopeFor? place source reference).1 =
      (workspace.forgetNames.scopeFor? place source reference).1 := by
  have models : workspace.forgetNames.model? place = workspace.model? place := rfl
  rw [scopeFor?_fst, scopeFor?_fst, models]
  cases found : workspace.model? place with
  | none => rfl
  | some model =>
      rw [Option.bind_some, Option.bind_some, coherent.table_eq found]
      rfl

/-- After any history, the shared cache answers every lookup as an empty one would.  And
two moments of one model in a history at the same revision have the same objects. -/
theorem scopeFor?_after_eq_fresh (calls : List Call) :
    (∀ place source reference,
      ((initial.after calls).scopeFor? place source reference).1 =
        ((initial.after calls).forgetNames.scopeFor? place source reference).1) ∧
      (∀ place model, (initial.after calls).model? place = some model →
        ((initial.after calls).scopes model).1 =
          ((initial.after calls).forgetNames.scopes model).1) ∧
      ∀ further place model modelLater,
        (initial.after calls).model? place = some model →
          (initial.after (calls ++ further)).model? place = some modelLater →
            modelLater.revision = model.revision → modelLater.objects = model.objects := by
  have coherent := coherent_initial.after calls
  refine ⟨coherent.scopeFor?_eq, ?_, ?_⟩
  · intro place model found
    exact congrArg Scope.containmentOver (coherent.table_eq found)
  · intro further place model modelLater found foundLater same
    rw [after, List.foldl_append] at foundLater
    rcases precedes_after (initial.after calls) further place model found with
      ⟨reached, foundReached, moment⟩
    cases foundLater.symm.trans foundReached
    exact moment.objects_eq same

/-- A package is copied with its model before it has a name.  Then both models take one
more revision, each with a name of its own, and the names of the copy are looked up. -/
def namedApart : List Call :=
  [.edit 0 (.create .nameSpace), .edit 0 (.create .featureTyping), .edit 0 (.create .package),
    .edit 0 (.create .owningMembership),
    .edit 0 (.push ⟨3⟩ .ownedRelatedElement (.object ⟨2⟩)),
    .edit 0 (.push ⟨0⟩ .ownedRelationship (.object ⟨3⟩)),
    .copy 0,
    .edit 0 (.set ⟨2⟩ .declaredName (.text "Parts")),
    .edit 1 (.set ⟨2⟩ .declaredName (.text "Tools")),
    .scopeFor 1 ⟨1⟩ .typingType]

/-- The names of the copy, remembered at the revision that the original is at too, are not
taken for those of the original.  A recorded token changes neither revision nor objects. -/
theorem scopeFor?_after_namedApart :
    ((initial.after namedApart).model? 0).map Model.revision =
        ((initial.after namedApart).model? 1).map Model.revision ∧
      ((initial.after namedApart).scopeFor? 0 ⟨1⟩ .typingType).1.map (· (.simple "Parts")) =
        some (some ⟨2⟩) ∧
      ((initial.after namedApart).scopeFor? 1 ⟨1⟩ .typingType).1.map (· (.simple "Parts")) =
        some none ∧
      ∀ model modelLater, (initial.after namedApart).model? 0 = some model →
        (initial.after (namedApart ++
            [.edit 0 (.recordSourceToken ⟨⟨1⟩, .typingType, 0⟩ "Parts")])).model? 0 =
          some modelLater →
        modelLater.objects = model.objects := by
  have fresh := (scopeFor?_after_eq_fresh namedApart).1
  refine ⟨by decide +kernel, ?_, ?_, ?_⟩
  · rw [fresh]
    decide +kernel
  · rw [fresh]
    decide +kernel
  · intro model modelLater found foundLater
    refine (scopeFor?_after_eq_fresh namedApart).2.2 _ 0 model modelLater found foundLater ?_
    have revisions : ((initial.after (namedApart ++
          [.edit 0 (.recordSourceToken ⟨⟨1⟩, .typingType, 0⟩ "Parts")])).model? 0).map
            Model.revision = ((initial.after namedApart).model? 0).map Model.revision := by
      decide +kernel
    rw [found, foundLater] at revisions
    exact Option.some.inj revisions

end Workspace

end ModelText
