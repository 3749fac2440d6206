import Mathlib.Algebra.GroupWithZero.Nat
import Mathlib.Data.List.Flatten
import ModelText.Proofs.Graph.Tree
import ModelText.Sequence.Pass

namespace ModelText

/-!
# The events of a pass

A pass that succeeds accepts the events of a recursive walk: an object is
entered, the values it prints itself follow in the order of features and indices,
then come its printed children, and it is left again.  The loop over pending
tasks is the same walk with the tasks of the levels above kept in a list.

Every object of the printed tree is visited once and left once.  The printed tree
has no more objects than the model, so the loop never runs out of steps.
-/

/-- A part of a list without repetitions that leaves nothing out is the list. -/
theorem eq_of_sublist_of_subset {α : Type} {part whole : List α} (nodup : whole.Nodup)
    (sublist : part.Sublist whole) (covered : whole ⊆ part) : part = whole :=
  sublist.eq_of_length_le (nodup.length_le_of_subset covered)

/-! ## Printed values -/

namespace OmissionPolicy

variable (policy : OmissionPolicy) (model : Model) (owner : ObjectId) (feature : Metafeature)

/-- The values of a feature that are printed, in order. -/
def printedValues : List Value :=
  (policy.printedIndices model owner feature).filterMap fun index =>
    (model.values owner feature)[index]?

theorem printedIndices_sublist :
    (policy.printedIndices model owner feature).Sublist
      (List.range (model.values owner feature).length) := by
  unfold printedIndices
  dsimp only
  split
  · exact List.filter_sublist
  · split
    · exact List.nil_sublist _
    · exact List.Sublist.refl _

variable {policy model owner feature} in
theorem exists_getElem?_of_mem_printedIndices {index : Nat}
    (printed : index ∈ policy.printedIndices model owner feature) :
    ∃ value, (model.values owner feature)[index]? = some value := by
  have among := (policy.printedIndices_sublist model owner feature).subset printed
  exact ⟨_, List.getElem?_eq_getElem (List.mem_range.mp among)⟩

theorem filterMap_getElem?_range {α : Type} (listed : List α) :
    ((List.range listed.length).filterMap fun index => listed[index]?) = listed := by
  induction listed with
  | nil => rfl
  | cons head rest inductionHypothesis =>
      rw [List.length_cons, List.range_succ_eq_map, List.filterMap_cons, List.filterMap_map]
      exact congrArg (head :: ·) inductionHypothesis

theorem printedValues_sublist :
    (policy.printedValues model owner feature).Sublist (model.values owner feature) := by
  have part := (policy.printedIndices_sublist model owner feature).filterMap
    fun index => (model.values owner feature)[index]?
  rwa [filterMap_getElem?_range] at part

theorem printedValues_eq
    (every : ∀ index, index < (model.values owner feature).length →
      index ∈ policy.printedIndices model owner feature) :
    policy.printedValues model owner feature = model.values owner feature := by
  have part := policy.printedIndices_sublist model owner feature
  have covered : List.range (model.values owner feature).length ⊆
      policy.printedIndices model owner feature := by
    intro index member
    exact every index (List.mem_range.mp member)
  rw [printedValues, eq_of_sublist_of_subset List.nodup_range part covered,
    filterMap_getElem?_range]

end OmissionPolicy

namespace Pass

variable {pass : Pass} {model : Model}

/-! ## Results before an error -/

theorem error_mem_of_untilError {ε α : Type} {results : List (Except ε α)} {error : ε}
    (failed : (untilError results).2 = some error) : .error error ∈ results := by
  induction results with
  | nil => cases failed
  | cons result rest inductionHypothesis =>
      cases result with
      | error first =>
          cases failed
          exact List.mem_cons_self
      | ok result => exact List.mem_cons_of_mem _ (inductionHypothesis failed)

theorem untilError_eq_none {ε α : Type} {results : List (Except ε α)}
    (noError : (untilError results).2 = none) :
    results = (untilError results).1.map Except.ok := by
  induction results with
  | nil => rfl
  | cons result rest inductionHypothesis =>
      cases result with
      | error error => cases noError
      | ok result =>
          rw [untilError, List.map_cons, ← inductionHypothesis noError]

/-! ## What an object prints itself -/

/-- The event that prints a value, if the value is an attribute or a reference
with a token. -/
def valueEvent? (pass : Pass) (model : Model) (object : ObjectId) (feature : Metafeature)
    (many : Bool) (index : Nat) (value : Value) : Option Event :=
  (pass.valueItem? model object feature many index value).bind fun item =>
    item.toOption.bind Item.event?

/-- A feature that prints anything either exceeds its bound or prints its values. -/
theorem featureItems_eq {object : ObjectId} {constraint : Option Constraint}
    {feature : Metafeature} (prints : pass.policy.printedIndices model object feature ≠ []) :
    pass.featureItems model object constraint feature =
      match pass.boundFault? constraint object feature
          (pass.policy.printedIndices model object feature).length with
      | some fault => [.error fault]
      | none =>
          (pass.policy.printedIndices model object feature).filterMap fun index =>
            (model.values object feature)[index]?.bind
              (pass.valueItem? model object feature (rendersMany constraint feature) index) := by
  unfold featureItems
  cases printed : pass.policy.printedIndices model object feature with
  | nil => exact absurd printed prints
  | cons first rest => rfl

/-- The events of the printed values of a feature. -/
def featureEvents (pass : Pass) (model : Model) (object : ObjectId)
    (constraint : Option Constraint) (feature : Metafeature) : List Event :=
  (pass.policy.printedIndices model object feature).filterMap fun index =>
    (model.values object feature)[index]?.bind
      (pass.valueEvent? model object feature (rendersMany constraint feature) index)

theorem featureEvents_of_containment {object : ObjectId} {constraint : Option Constraint}
    {feature : Metafeature} (storage : feature.storage = .containment) :
    pass.featureEvents model object constraint feature = [] := by
  rw [featureEvents, List.filterMap_eq_nil_iff]
  intro index _
  cases (model.values object feature)[index]? with
  | none => rfl
  | some value =>
      rw [Option.bind_some, valueEvent?, valueItem?, storage]
      cases value.object? <;> rfl

/-- The events of an object up to its children. -/
def entryEvents (pass : Pass) (model : Model) (feature : Option Metafeature)
    (object : ObjectId) : List Event :=
  match model.metaclass? object with
  | none => []
  | some metaclass =>
      .enter object metaclass feature ((pass.constraintFor? metaclass).map Constraint.name) ::
        metaclass.storedFeatures.flatMap
          (pass.featureEvents model object (pass.constraintFor? metaclass))

/-- The objects that are printed as values of a feature. -/
def printedObjects (pass : Pass) (model : Model) (object : ObjectId) (feature : Metafeature) :
    List ObjectId :=
  (pass.policy.printedValues model object feature).filterMap Value.object?

/-- The children that are printed, with the features that contain them. -/
def printedChildren (pass : Pass) (model : Model) (object : ObjectId) :
    List (Metafeature × ObjectId) :=
  match model.metaclass? object with
  | none => []
  | some metaclass =>
      metaclass.storedFeatures.flatMap fun feature =>
        if feature.storage = .containment then
          (pass.printedObjects model object feature).map fun child => (feature, child)
        else
          []

/-- An object is accepted when it exists and none of its values is in error. -/
def Accepts (pass : Pass) (model : Model) (object : ObjectId) : Prop :=
  ∃ metaclass, model.metaclass? object = some metaclass ∧
    (untilError (pass.objectItems model object metaclass)).2 = none

/-- An object is refused with an error when it does not exist or one of its values
is in error. -/
def Refuses (pass : Pass) (model : Model) (object : ObjectId) (error : PassError) : Prop :=
  match model.metaclass? object with
  | none => error = .unknownObject object
  | some metaclass => (untilError (pass.objectItems model object metaclass)).2 = some error

section Accepted

variable {object : ObjectId} {metaclass : Metaclass}
  (noError : (untilError (pass.objectItems model object metaclass)).2 = none)
include noError

/-- Nothing of an accepted object is in error. -/
theorem error_not_mem_objectItems (fault : PassError) :
    .error fault ∉ pass.objectItems model object metaclass := by
  intro present
  rw [untilError_eq_none noError] at present
  rcases List.mem_map.mp present with ⟨_, _, impossible⟩
  cases impossible

/-- The features of an accepted object keep to their bounds. -/
theorem boundFault?_of_accepted {feature : Metafeature}
    (listed : feature ∈ metaclass.storedFeatures)
    (prints : pass.policy.printedIndices model object feature ≠ []) :
    pass.boundFault? (pass.constraintFor? metaclass) object feature
      (pass.policy.printedIndices model object feature).length = none := by
  cases bounded : pass.boundFault? (pass.constraintFor? metaclass) object feature
      (pass.policy.printedIndices model object feature).length with
  | none => rfl
  | some fault =>
      exfalso
      refine error_not_mem_objectItems noError fault (List.mem_flatMap.mpr ⟨feature, listed, ?_⟩)
      rw [featureItems_eq prints, bounded]
      exact List.mem_cons_self

theorem featureItems_of_accepted {feature : Metafeature}
    (listed : feature ∈ metaclass.storedFeatures) :
    pass.featureItems model object (pass.constraintFor? metaclass) feature =
      (pass.policy.printedIndices model object feature).filterMap fun index =>
        (model.values object feature)[index]?.bind
          (pass.valueItem? model object feature
            (rendersMany (pass.constraintFor? metaclass) feature) index) := by
  by_cases nothing : pass.policy.printedIndices model object feature = []
  · rw [featureItems, nothing]
    rfl
  · rw [featureItems_eq nothing, boundFault?_of_accepted noError listed nothing]

/-- Every printed reference of an accepted object has a token. -/
theorem resolve_of_accepted {feature : Metafeature} {index : Nat} {value : Value}
    (listed : feature ∈ metaclass.storedFeatures) (storage : feature.storage = .crossReference)
    (printed : index ∈ pass.policy.printedIndices model object feature)
    (stored : (model.values object feature)[index]? = some value) :
    ∃ token, pass.resolver.resolve model ⟨object, feature, index⟩ value = .ok token := by
  cases resolved : pass.resolver.resolve model ⟨object, feature, index⟩ value with
  | ok token => exact ⟨token, rfl⟩
  | error error =>
      exfalso
      refine error_not_mem_objectItems noError (.resolution error) ?_
      refine List.mem_flatMap.mpr ⟨feature, listed, ?_⟩
      rw [featureItems_of_accepted noError listed]
      refine List.mem_filterMap.mpr ⟨index, printed, ?_⟩
      rw [stored, Option.bind_some, valueItem?, storage]
      dsimp only
      rw [resolved]

theorem filterMap_items {β : Type} (select : Item → Option β) :
    (untilError (pass.objectItems model object metaclass)).1.filterMap select =
      metaclass.storedFeatures.flatMap fun feature =>
        (pass.policy.printedIndices model object feature).filterMap fun index =>
          (model.values object feature)[index]?.bind fun value =>
            (pass.valueItem? model object feature
              (rendersMany (pass.constraintFor? metaclass) feature) index value).bind
                fun item => item.toOption.bind select := by
  have accepted := untilError_eq_none noError
  have lifted : (untilError (pass.objectItems model object metaclass)).1.filterMap select =
      (pass.objectItems model object metaclass).filterMap fun item =>
        item.toOption.bind select := by
    rw [accepted, List.filterMap_map, ← accepted]
    rfl
  rw [lifted, objectItems, List.filterMap_flatMap]
  apply List.flatMap_congr
  intro feature listed
  rw [featureItems_of_accepted noError listed, List.filterMap_filterMap]
  congr 1
  funext index
  rw [Option.bind_assoc]

theorem events_of_accepted :
    (untilError (pass.objectItems model object metaclass)).1.filterMap Item.event? =
      metaclass.storedFeatures.flatMap
        (pass.featureEvents model object (pass.constraintFor? metaclass)) :=
  filterMap_items noError Item.event?

theorem children_of_accepted (known : model.metaclass? object = some metaclass) :
    (untilError (pass.objectItems model object metaclass)).1.filterMap Item.child? =
      pass.printedChildren model object := by
  rw [filterMap_items noError, printedChildren, known]
  apply List.flatMap_congr
  intro feature _
  by_cases storage : feature.storage = .containment
  · rw [if_pos storage, printedObjects, OmissionPolicy.printedValues, List.filterMap_filterMap,
      List.map_filterMap]
    congr 1
    funext index
    cases (model.values object feature)[index]? with
    | none => rfl
    | some value =>
        rw [Option.bind_some, Option.bind_some, valueItem?, storage]
        cases value.object? <;> rfl
  · rw [if_neg storage, List.filterMap_eq_nil_iff]
    intro index _
    cases (model.values object feature)[index]? with
    | none => rfl
    | some value =>
        rw [Option.bind_some, valueItem?]
        split
        · rfl
        · cases pass.resolver.resolve model ⟨object, feature, index⟩ value <;> rfl
        · next contained => exact absurd contained storage
        · rfl

end Accepted

/-! ## The printed tree -/

theorem flatMap_filter_eq {α β : Type} (select : α → Bool) (gather : α → List β)
    (listed : List α) :
    (listed.filter select).flatMap gather =
      listed.flatMap fun member => if select member then gather member else [] := by
  induction listed with
  | nil => rfl
  | cons member rest inductionHypothesis =>
      rw [List.filter_cons, List.flatMap_cons, ← inductionHypothesis]
      cases select member with
      | true => rfl
      | false => exact (List.nil_append _).symm

theorem printedChildren_sublist (pass : Pass) (model : Model) (object : ObjectId) :
    ((pass.printedChildren model object).map Prod.snd).Sublist (model.contents object) := by
  unfold printedChildren Model.contents
  cases model.metaclass? object with
  | none => exact List.Sublist.refl []
  | some metaclass =>
      dsimp only
      rw [flatMap_filter_eq, List.map_flatMap]
      simp only [beq_iff_eq]
      have stored : metaclass.storedFeatures.Sublist metaclass.features := List.filter_sublist
      refine (stored.flatMap _).trans (List.Sublist.flatMap_right _ ?_)
      intro feature _
      by_cases storage : feature.storage = .containment
      · rw [if_pos storage, if_pos storage, List.map_map]
        have part :=
          (pass.policy.printedValues_sublist model object feature).filterMap Value.object?
        simpa [Function.comp_def, Model.objectValues, printedObjects] using part
      · rw [if_neg storage]
        exact List.nil_sublist _

theorem mem_printedChildren_iff (forest : model.Forest) {object child : ObjectId}
    {feature : Metafeature} :
    (feature, child) ∈ pass.printedChildren model object ↔
      feature.storage = .containment ∧ child ∈ pass.printedObjects model object feature := by
  constructor
  · intro member
    unfold printedChildren at member
    split at member
    · cases member
    · rcases List.mem_flatMap.mp member with ⟨containing, _, inside⟩
      by_cases storage : containing.storage = .containment
      · rw [if_pos storage] at inside
        rcases List.mem_map.mp inside with ⟨printed, present, same⟩
        cases same
        exact ⟨storage, present⟩
      · rw [if_neg storage] at inside
        cases inside
  · rintro ⟨storage, present⟩
    rcases List.mem_filterMap.mp present with ⟨value, printed, _⟩
    have held := (pass.policy.printedValues_sublist model object feature).subset printed
    rcases forest.holder_fits held with ⟨metaclass, known, listed⟩
    rw [printedChildren, known]
    refine List.mem_flatMap.mpr ⟨feature, listed, ?_⟩
    rw [if_pos storage]
    exact List.mem_map_of_mem present

/-- What is printed through one containment keeps its order among the children. -/
theorem printedObjects_sublist (forest : model.Forest) {object : ObjectId}
    {feature : Metafeature} (storage : feature.storage = .containment) :
    (pass.printedObjects model object feature).Sublist
      ((pass.printedChildren model object).map Prod.snd) := by
  cases through : pass.printedObjects model object feature with
  | nil => exact List.nil_sublist _
  | cons first others =>
      have present : first ∈ pass.printedObjects model object feature :=
        through ▸ List.mem_cons_self
      rcases List.mem_filterMap.mp present with ⟨value, printed, _⟩
      have held := (pass.policy.printedValues_sublist model object feature).subset printed
      rcases forest.holder_fits held with ⟨metaclass, known, listed⟩
      rw [printedChildren, known]
      dsimp only
      rw [List.map_flatMap, ← through, List.flatMap_def]
      refine List.Sublist.trans ?_
        (List.infix_of_mem_flatten (List.mem_map_of_mem listed)).sublist
      rw [if_pos storage, List.map_map]
      simp [Function.comp_def]

theorem containment?_of_mem_printedChildren (forest : model.Forest) {object child : ObjectId}
    {feature : Metafeature} (member : (feature, child) ∈ pass.printedChildren model object) :
    model.containment? child = some (object, feature) := by
  rcases (mem_printedChildren_iff forest).mp member with ⟨storage, present⟩
  rcases List.mem_filterMap.mp present with ⟨value, printed, isObject⟩
  rw [(Value.object?_eq_some_iff value child).mp isObject] at printed
  have held := (pass.policy.printedValues_sublist model object feature).subset printed
  exact (forest.mem_objectValues_iff storage object child).mp
    ((Model.mem_objectValues_iff model object feature child).mpr held)

/-- The objects of a printed tree, in the order they are entered. -/
def printedTree (pass : Pass) (model : Model) (root : ObjectId) : List ObjectId :=
  model.preorder (fun object => (pass.printedChildren model object).map Prod.snd) root

theorem printedChildren_descend (forest : model.Forest) (pass : Pass) :
    Model.Descends model (fun id => id)
      (fun object => (pass.printedChildren model object).map Prod.snd) := by
  intro object child member
  exact forest.contents_descend ((pass.printedChildren_sublist model object).subset member)

theorem printedChildren_nodup (forest : model.Forest) (pass : Pass) (object : ObjectId) :
    ((pass.printedChildren model object).map Prod.snd).Nodup :=
  (forest.contents_nodup object).sublist (pass.printedChildren_sublist model object)

theorem printedTree_eq (forest : model.Forest) (root : ObjectId) :
    pass.printedTree model root =
      root :: (pass.printedChildren model root).flatMap fun child =>
        pass.printedTree model child.2 := by
  rw [printedTree, Model.preorder_eq forest (printedChildren_descend forest pass),
    List.flatMap_map]
  rfl

theorem printedTree_nodup (forest : model.Forest) (root : ObjectId) :
    (pass.printedTree model root).Nodup :=
  Model.preorder_nodup forest (printedChildren_descend forest pass)
    (printedChildren_nodup forest pass) root

/-! ## The recursive walk -/

/-- The events of a tree: the root with its own values, the printed children in
order, and the end of the root. -/
def trace (pass : Pass) (model : Model) (feature : Option Metafeature) (object : ObjectId) :
    List Event :=
  Model.gather
    (fun place => (pass.printedChildren model place.2).map fun child =>
      (some child.1, child.2))
    (fun place inner => pass.entryEvents model place.1 place.2 ++ inner ++ [.exit place.2])
    (model.objects.size + 1) (feature, object)

theorem trace_eq (forest : model.Forest) (feature : Option Metafeature) (object : ObjectId) :
    pass.trace model feature object =
      pass.entryEvents model feature object ++
        ((pass.printedChildren model object).flatMap fun child =>
          pass.trace model (some child.1) child.2) ++ [.exit object] := by
  have descends : Model.Descends model (Prod.snd : Option Metafeature × ObjectId → ObjectId)
      (fun place => (pass.printedChildren model place.2).map fun child =>
        (some child.1, child.2)) := by
    intro place next member
    rcases List.mem_map.mp member with ⟨⟨containing, child⟩, below, rfl⟩
    rw [Model.container?, containment?_of_mem_printedChildren forest below]
    rfl
  rw [trace, forest.gather_eq descends, List.flatMap_map]
  rfl

/-! ## The loop -/

def taskEvents (pass : Pass) (model : Model) : Task → List Event
  | .visit object feature => pass.trace model feature object
  | .leave object => [.exit object]

def taskObjects (pass : Pass) (model : Model) : Task → List ObjectId
  | .visit object _ => pass.printedTree model object
  | .leave _ => []

/-- How many steps a task takes with all that comes of it. -/
def taskCost (pass : Pass) (model : Model) : Task → Nat
  | .visit object _ => 2 * (pass.printedTree model object).length
  | .leave _ => 1

/-- A visit costs two steps and what its children cost. -/
theorem taskCost_visit (forest : model.Forest) (object : ObjectId)
    (feature : Option Metafeature) :
    pass.taskCost model (.visit object feature) =
      2 + ((pass.printedChildren model object).map fun child =>
        pass.taskCost model (.visit child.2 (some child.1))).sum := by
  rw [taskCost, printedTree_eq forest, List.length_cons, List.length_flatMap]
  generalize pass.printedChildren model object = children
  induction children with
  | nil => rfl
  | cons child rest inductionHypothesis =>
      simp only [List.map_cons, List.sum_cons, taskCost] at inductionHypothesis ⊢
      omega

theorem taskCost_pos (forest : model.Forest) (task : Task) : 0 < pass.taskCost model task := by
  cases task with
  | visit object feature =>
      rw [taskCost_visit forest]
      omega
  | leave object => exact Nat.one_pos

theorem visitObject_eq_ok {progress advanced : Progress} {object : ObjectId}
    {feature : Option Metafeature}
    (visited : pass.visitObject model progress object feature = .ok advanced) :
    pass.Accepts model object ∧
      advanced.events.toList = progress.events.toList ++ pass.entryEvents model feature object ∧
      advanced.pending = ((pass.printedChildren model object).map fun child =>
        Task.visit child.2 (some child.1)) ++ .leave object :: progress.pending := by
  unfold visitObject at visited
  cases known : model.metaclass? object with
  | none =>
      rw [known] at visited
      cases visited
  | some metaclass =>
      rw [known] at visited
      dsimp only at visited
      cases noError : (untilError (pass.objectItems model object metaclass)).2 with
      | some error =>
          rw [noError] at visited
          cases visited
      | none =>
          rw [noError] at visited
          have same := Except.ok.inj visited
          refine ⟨⟨metaclass, known, noError⟩, ?_, ?_⟩
          · rw [← same, entryEvents, known]
            dsimp only
            rw [events_of_accepted noError]
            simp
          · rw [← same]
            dsimp only
            rw [children_of_accepted noError known]

/-- A visit takes two steps: itself, and the departure it leaves behind. -/
theorem sum_taskCost_of_visitObject (forest : model.Forest) {progress advanced : Progress}
    {object : ObjectId} {feature : Option Metafeature}
    (visited : pass.visitObject model progress object feature = .ok advanced) :
    (advanced.pending.map (pass.taskCost model)).sum + 1 =
      pass.taskCost model (.visit object feature) +
        (progress.pending.map (pass.taskCost model)).sum := by
  rw [(visitObject_eq_ok visited).2.2, taskCost_visit forest, List.map_append, List.map_cons,
    List.sum_append, List.sum_cons, taskCost, List.map_map]
  dsimp only [Function.comp_def]
  omega

theorem visitObject_eq_error {progress : Progress} {outcome : Outcome} {object : ObjectId}
    {feature : Option Metafeature}
    (visited : pass.visitObject model progress object feature = .error outcome) :
    ∃ error, outcome.result = .error error ∧ pass.Refuses model object error := by
  unfold visitObject at visited
  unfold Refuses
  cases known : model.metaclass? object with
  | none =>
      rw [known] at visited
      rw [← Except.error.inj visited]
      exact ⟨_, rfl, rfl⟩
  | some metaclass =>
      rw [known] at visited
      dsimp only at visited ⊢
      cases failed : (untilError (pass.objectItems model object metaclass)).2 with
      | some error =>
          rw [failed] at visited
          rw [← Except.error.inj visited]
          exact ⟨error, rfl, rfl⟩
      | none =>
          rw [failed] at visited
          cases visited

/-- A pass fails with the error of an object it does not accept. -/
theorem perform_eq_error (limit : Nat) (progress : Progress) {error : PassError}
    (failed : (pass.perform model limit progress).result = .error error) :
    ∃ object, pass.Refuses model object error := by
  induction limit generalizing progress with
  | zero => cases failed
  | succ limit inductionHypothesis =>
      unfold perform at failed
      cases pending : progress.pending with
      | nil => rw [pending] at failed; cases failed
      | cons task rest =>
          rw [pending] at failed
          cases task with
          | leave object => exact inductionHypothesis _ failed
          | visit object feature =>
              dsimp only at failed
              cases visited : pass.visitObject model { progress with pending := rest } object
                  feature with
              | error outcome =>
                  rw [visited] at failed
                  rcases visitObject_eq_error visited with ⟨other, result, refuses⟩
                  cases result.symm.trans failed
                  exact ⟨object, refuses⟩
              | ok advanced =>
                  rw [visited] at failed
                  exact inductionHypothesis advanced failed

/-- With enough steps, a pass that succeeds accepts the events of all pending
tasks, and every object it enters. -/
theorem perform_eq_ok (forest : model.Forest) (limit : Nat) (progress : Progress) {tally : Tally}
    (enough : (progress.pending.map (pass.taskCost model)).sum ≤ limit)
    (finished : (pass.perform model limit progress).result = .ok tally) :
    (pass.perform model limit progress).events =
        progress.events.toList ++ progress.pending.flatMap (pass.taskEvents model) ∧
      ∀ object, object ∈ progress.pending.flatMap (pass.taskObjects model) →
        pass.Accepts model object := by
  induction limit generalizing progress with
  | zero =>
      have nothing : progress.pending = [] := by
        cases pending : progress.pending with
        | nil => rfl
        | cons task rest =>
            have positive : 0 < pass.taskCost model task := taskCost_pos forest task
            rw [pending, List.map_cons, List.sum_cons] at enough
            omega
      rw [nothing]
      refine ⟨?_, fun object member => absurd member List.not_mem_nil⟩
      rw [perform, Progress.finish, List.flatMap_nil, List.append_nil]
  | succ limit inductionHypothesis =>
      unfold perform at finished ⊢
      cases pending : progress.pending with
      | nil =>
          refine ⟨?_, fun object member => absurd member List.not_mem_nil⟩
          rw [Progress.finish, List.flatMap_nil, List.append_nil]
      | cons task rest =>
          rw [pending, List.map_cons, List.sum_cons] at enough
          rw [pending] at finished
          cases task with
          | leave object =>
              rw [taskCost] at enough
              have further := inductionHypothesis
                { progress with pending := rest, events := progress.events.push (.exit object) }
                (by dsimp only; omega) finished
              refine ⟨?_, further.2⟩
              rw [List.flatMap_cons, taskEvents]
              simpa using further.1
          | visit object feature =>
              dsimp only at finished ⊢
              cases visited : pass.visitObject model { progress with pending := rest } object
                  feature with
              | error outcome =>
                  rw [visited] at finished
                  rcases visitObject_eq_error visited with ⟨error, failed, _⟩
                  rw [failed] at finished
                  cases finished
              | ok advanced =>
                  rw [visited] at finished
                  rcases visitObject_eq_ok visited with ⟨accepts, events, pendingNext⟩
                  have paid : (advanced.pending.map (pass.taskCost model)).sum ≤ limit := by
                    have cost := sum_taskCost_of_visitObject forest visited
                    dsimp only at cost
                    omega
                  have further := inductionHypothesis advanced paid finished
                  constructor
                  · dsimp only
                    rw [further.1, events, pendingNext, List.flatMap_append, List.flatMap_cons,
                      List.flatMap_cons, List.flatMap_map, taskEvents, taskEvents,
                      trace_eq forest]
                    simp only [taskEvents, List.append_assoc]
                  · intro entered member
                    rw [List.flatMap_cons, taskObjects, printedTree_eq forest,
                      List.cons_append] at member
                    rcases List.mem_cons.mp member with rfl | later
                    · exact accepts
                    · apply further.2
                      rw [pendingNext, List.flatMap_append, List.flatMap_cons, List.flatMap_map,
                        taskObjects, List.nil_append]
                      exact later

/-- A pass has enough steps for the tree of its root. -/
theorem sum_taskCost_root_le (forest : model.Forest) {root : ObjectId}
    (exist : root.index < model.objects.size) :
    ([Task.visit root none].map (pass.taskCost model)).sum ≤ 2 * model.objects.size + 1 := by
  have short : (pass.printedTree model root).length ≤ model.objects.size := by
    refine Model.length_le_size (printedTree_nodup forest root) ?_
    intro object member
    exact Model.index_lt_of_mem_preorder forest (printedChildren_descend forest pass) exist member
  simp only [List.map_cons, List.map_nil, List.sum_cons, List.sum_nil, taskCost]
  omega

theorem run_eq_of_result {root : ObjectId} {tally : Tally}
    (printed : (pass.run model root).result = .ok tally) :
    pass.run model root = ⟨(pass.run model root).events, .ok tally⟩ := by
  rw [← printed]

/-- A pass over an existing root that succeeds accepts the trace of the root. -/
theorem run_eq_ok (forest : model.Forest) {root : ObjectId}
    (exist : root.index < model.objects.size) {events : List Event} {tally : Tally}
    (finished : pass.run model root = ⟨events, .ok tally⟩) :
    events = pass.trace model none root ∧
      ∀ object, object ∈ pass.printedTree model root → pass.Accepts model object := by
  rw [run] at finished
  have result : (pass.perform model (2 * model.objects.size + 1)
      ⟨[.visit root none], #[], .zero⟩).result = .ok tally := by rw [finished]
  have performed := perform_eq_ok forest _ _ (sum_taskCost_root_le forest exist) result
  rw [finished] at performed
  simpa [taskEvents, taskObjects] using performed

end Pass

end ModelText
