import Mathlib.Algebra.BigOperators.Group.Finset.Basic
import ModelText.Proofs.Sequence.Enclosure

namespace ModelText

/-!
# Every stored value is accounted for

A pass counts what it enters, what it prints and what it leaves out.  An attribute or a
reference is counted with the object that holds it, whereas a contained object is counted
when it is entered itself, which is later.  On its way a pass therefore balances with the
visits that are still pending: attributes, references, objects, omissions and pending visits
make up the values that the entered objects store, and one more for the root, which nobody
holds.

The balance needs a forest.  A containment that held anything but an object would lose a
value, since the walk skips it without counting it.
-/

/-! ## Counting events and values -/

namespace Event

def isEnter : Event → Bool
  | .enter _ _ _ _ => true
  | _ => false

def isAttribute : Event → Bool
  | .attribute _ _ _ _ => true
  | _ => false

def isReference : Event → Bool
  | .reference _ _ _ _ _ => true
  | _ => false

end Event

/-- The number of values an object stores, over all features that it can store. -/
def Model.storedCount (model : Model) (object : ObjectId) : Nat :=
  match model.metaclass? object with
  | none => 0
  | some metaclass =>
      (metaclass.storedFeatures.map fun feature => (model.values object feature).length).sum

theorem length_enteredObjects (events : List Event) :
    (enteredObjects events).length = events.countP Event.isEnter := by
  rw [enteredObjects, List.length_filterMap_eq_countP]
  congr 1
  funext event
  cases event <;> rfl

theorem countP_eq_of_forall_eq {α : Type} {select : α → Bool} {constant : Bool}
    {listed : List α} (same : ∀ member, member ∈ listed → select member = constant) :
    listed.countP select = if constant then listed.length else 0 := by
  cases constant with
  | true => exact List.countP_eq_length.mpr same
  | false =>
      refine List.countP_eq_zero.mpr fun member inside => ?_
      rw [same member inside]
      exact Bool.false_ne_true

/-! ## Adding up tallies -/

namespace Tally

/-- The printed part of a tally is what some events print. -/
structure Counts (tally : Tally) (events : List Event) : Prop where
  objects : tally.objects = events.countP Event.isEnter
  attributes : tally.attributes = events.countP Event.isAttribute
  references : tally.references = events.countP Event.isReference

/-- What a tally counts beside the objects. -/
def settled (tally : Tally) : Nat :=
  tally.attributes + tally.references + tally.omitted

theorem settled_add (left right : Tally) :
    (left.add right).settled = left.settled + right.settled := by
  simp only [settled, add]
  omega

theorem settled_foldl_add {α : Type} (gain : α → Tally) (listed : List α) (start : Tally) :
    (listed.foldl (fun tally member => tally.add (gain member)) start).settled =
      start.settled + (listed.map fun member => (gain member).settled).sum := by
  induction listed generalizing start with
  | nil => rfl
  | cons member rest inductionHypothesis =>
      rw [List.foldl_cons, inductionHypothesis, settled_add, List.map_cons, List.sum_cons,
        Nat.add_assoc]

namespace Counts

variable {tally other : Tally} {events others : List Event}

theorem append (counts : tally.Counts events) (also : other.Counts others) :
    (tally.add other).Counts (events ++ others) := by
  constructor
  · rw [List.countP_append, ← counts.objects, ← also.objects, add]
  · rw [List.countP_append, ← counts.attributes, ← also.attributes, add]
  · rw [List.countP_append, ← counts.references, ← also.references, add]

theorem foldl {α : Type} {gain : α → Tally} {printed : α → List Event} {listed : List α}
    (counts : tally.Counts events)
    (each : ∀ member, member ∈ listed → (gain member).Counts (printed member)) :
    (listed.foldl (fun tally member => tally.add (gain member)) tally).Counts
      (events ++ listed.flatMap printed) := by
  induction listed generalizing tally events with
  | nil => simpa using counts
  | cons member rest inductionHypothesis =>
      rw [List.foldl_cons, List.flatMap_cons, ← List.append_assoc]
      apply inductionHypothesis
      · exact counts.append (each member List.mem_cons_self)
      · exact fun other inside => each other (List.mem_cons_of_mem _ inside)

end Counts

end Tally

namespace Pass

variable {pass : Pass} {model : Model} {object root : ObjectId} {metaclass : Metaclass}
  {feature : Metafeature}

/-! ## One feature -/

/-- What remains of a containment is entered, all of it. -/
theorem length_printedObjects (forest : model.Forest) (storage : feature.storage = .containment) :
    (pass.printedObjects model object feature).length =
      (pass.policy.printedIndices model object feature).length := by
  rw [printedObjects, OmissionPolicy.printedValues, List.filterMap_filterMap,
    List.filterMap_length_eq_length]
  intro index printed
  rcases OmissionPolicy.exists_getElem?_of_mem_printedIndices printed with ⟨value, stored⟩
  rcases forest.child_exists storage (List.mem_of_getElem? stored) with ⟨child, rfl, _⟩
  simp [stored, Value.object?]

/-- The values of a feature are printed as attributes, as references or as children, or they
are left out. -/
theorem settled_featureTally (forest : model.Forest) (stored : feature.isStored = true) :
    (pass.featureTally model object feature).settled +
        (if feature.storage = .containment then
          (pass.printedObjects model object feature).length else 0) =
      (model.values object feature).length := by
  have fewer := (pass.policy.printedIndices_sublist model object feature).length_le
  rw [List.length_range] at fewer
  cases storage : feature.storage with
  | container => simp [Metafeature.isStored, storage] at stored
  | containment =>
      rw [if_pos rfl, length_printedObjects forest storage]
      simp only [Tally.settled, featureTally, storage, beq_iff_eq, reduceCtorEq, if_false]
      omega
  | «attribute» | crossReference =>
      simp only [Tally.settled, featureTally, storage, beq_iff_eq, reduceCtorEq, if_true, if_false]
      omega

theorem PrintsValue.kind {many : Bool} {index : Nat} {event : Event}
    (prints : PrintsValue pass model object feature many index event) :
    event.isEnter = false ∧ event.isAttribute = (feature.storage == .attribute) ∧
      event.isReference = (feature.storage == .crossReference) := by
  cases prints with
  | «attribute» storage _ | reference storage _ _ =>
      rw [storage]
      exact ⟨rfl, rfl, rfl⟩

theorem PrintsFeature.counts {constraint : Option Constraint} {events : List Event}
    (prints : PrintsFeature pass model object constraint feature events) :
    (pass.featureTally model object feature).Counts events := by
  cases prints with
  | children storage =>
      constructor <;> simp [featureTally, storage]
  | values _ prints =>
      have each : ∀ event, event ∈ events →
          event.isEnter = false ∧ event.isAttribute = (feature.storage == .attribute) ∧
            event.isReference = (feature.storage == .crossReference) := by
        intro event member
        rcases exists_of_mem_forall₂ prints member with ⟨_, _, printsOne⟩
        exact printsOne.kind
      constructor
      · rw [countP_eq_of_forall_eq fun event member => (each event member).1]
        rfl
      · rw [countP_eq_of_forall_eq fun event member => (each event member).2.1,
          ← prints.length_eq]
        rfl
      · rw [countP_eq_of_forall_eq fun event member => (each event member).2.2,
          ← prints.length_eq]
        rfl

/-! ## One object -/

/-- The tally of an accepted object counts its own events, the first of which enters it. -/
theorem counts_entryEvents (known : model.metaclass? object = some metaclass)
    (noError : (untilError (pass.objectItems model object metaclass)).2 = none)
    (through : Option Metafeature) :
    (pass.objectTally model object metaclass).Counts
      (pass.entryEvents model through object) := by
  have entered : Tally.Counts ⟨1, 0, 0, 0⟩ [.enter object metaclass through
      ((pass.constraintFor? metaclass).map Constraint.name)] := ⟨rfl, rfl, rfl⟩
  rw [entryEvents, known]
  exact entered.foldl fun feature listed => (printsFeature_of_accepted noError listed).counts

theorem enteredObjects_entryEvents (known : model.metaclass? object = some metaclass)
    (noError : (untilError (pass.objectItems model object metaclass)).2 = none)
    (through : Option Metafeature) :
    enteredObjects (pass.entryEvents model through object) = [object] := by
  rw [entryEvents, known]
  dsimp only
  rw [enteredObjects_enter, enteredObjects, List.filterMap_flatMap]
  congr 1
  refine List.flatMap_eq_nil_iff.mpr fun feature listed => ?_
  exact (printsFeature_of_accepted noError listed).enteredObjects_eq_nil

/-- The values an object stores are settled with the object, or they are its printed
children. -/
theorem settled_objectTally (forest : model.Forest)
    (known : model.metaclass? object = some metaclass) :
    (pass.objectTally model object metaclass).settled +
        (pass.printedChildren model object).length =
      model.storedCount object := by
  have balance : (metaclass.storedFeatures.map fun feature =>
        (pass.featureTally model object feature).settled).sum +
      (metaclass.storedFeatures.map fun feature =>
        if feature.storage = .containment then
          (pass.printedObjects model object feature).length else 0).sum =
      (metaclass.storedFeatures.map fun feature => (model.values object feature).length).sum := by
    rw [← List.sum_map_add]
    congr 1
    apply List.map_congr_left
    intro feature listed
    exact settled_featureTally forest (List.mem_filter.mp listed).2
  rw [objectTally, Tally.settled_foldl_add, Model.storedCount, printedChildren, known]
  dsimp only
  rw [← balance, List.length_flatMap]
  simp [Tally.settled, apply_ite List.length]

/-! ## The walk -/

def Task.isVisit : Task → Bool
  | .visit _ _ => true
  | .leave _ => false

/-- The books of a pass on its way.  A value of an object that was entered is settled, or it
is a child that was entered as well, or a child whose visit is pending. -/
structure Accounts (model : Model) (progress : Progress) : Prop where
  counts : progress.tally.Counts progress.events.toList
  /-- What the entered objects store is settled, entered or about to be visited, as is the
  root. -/
  balance : progress.tally.settled + progress.tally.objects +
      progress.pending.countP Task.isVisit =
    ((enteredObjects progress.events.toList).map model.storedCount).sum + 1

theorem accounts_initial (model : Model) (root : ObjectId) :
    Accounts model ⟨[.visit root none], #[], .zero⟩ where
  counts := ⟨rfl, rfl, rfl⟩
  balance := rfl

variable {through : Option Metafeature} {pending : List Task} {events : Array Event}
  {tally : Tally}

theorem Accounts.leave (accounts : Accounts model ⟨.leave object :: pending, events, tally⟩) :
    Accounts model ⟨pending, events.push (.exit object), tally⟩ where
  counts := by
    have exits : Tally.Counts .zero [.exit object] := ⟨rfl, rfl, rfl⟩
    simpa [Tally.add, Tally.zero] using accounts.counts.append exits
  balance := by
    have entered : enteredObjects (events.push (.exit object)).toList =
        enteredObjects events.toList := by
      simp [enteredObjects, Event.entered?]
    rw [entered]
    simpa [Task.isVisit] using accounts.balance

/-- A visit that does not end the pass adds what the object prints to the tally. -/
theorem tally_of_visitObject {progress advanced : Progress}
    (visited : pass.visitObject model progress object through = .ok advanced) :
    ∃ metaclass, model.metaclass? object = some metaclass ∧
      (untilError (pass.objectItems model object metaclass)).2 = none ∧
      advanced.tally = progress.tally.add (pass.objectTally model object metaclass) := by
  unfold visitObject at visited
  split at visited
  · cases visited
  · next metaclass known =>
      dsimp only at visited
      split at visited
      · cases visited
      · next noError =>
          rw [← Except.ok.inj visited]
          exact ⟨metaclass, known, noError, rfl⟩

/-- The children of the visited object are pending in its place. -/
theorem Accounts.visit (forest : model.Forest) {advanced : Progress}
    (accounts : Accounts model ⟨.visit object through :: pending, events, tally⟩)
    (visited : pass.visitObject model ⟨pending, events, tally⟩ object through = .ok advanced) :
    Accounts model advanced := by
  rcases tally_of_visitObject visited with ⟨metaclass, known, noError, tallied⟩
  rcases visitObject_eq_ok visited with ⟨_, printed, pendingNext⟩
  have counts := counts_entryEvents known noError through
  have enters := enteredObjects_entryEvents known noError through
  constructor
  · rw [tallied, printed]
    exact accounts.counts.append counts
  · have before := accounts.balance
    have stored : (pass.objectTally model object metaclass).settled +
        (pass.printedChildren model object).length = model.storedCount object :=
      settled_objectTally forest known
    have single : (pass.objectTally model object metaclass).objects = 1 := by
      rw [counts.objects, ← length_enteredObjects, enters, List.length_singleton]
    have visits : ((pass.printedChildren model object).map fun child =>
        Task.visit child.2 (some child.1)).countP Task.isVisit =
          (pass.printedChildren model object).length := by
      rw [List.countP_map]
      exact List.countP_eq_length.mpr fun child below => rfl
    rw [tallied, Tally.settled_add, printed, enteredObjects_append, enters, pendingNext,
      List.countP_append, visits, List.map_append, List.sum_append]
    simp only [Tally.add, List.countP_cons, Task.isVisit, List.map_singleton,
      List.sum_singleton, if_true, Bool.false_eq_true, if_false] at before ⊢
    omega

theorem accounts_of_perform (forest : model.Forest) (limit : Nat) (progress : Progress)
    {events : List Event} {tally : Tally} (accounts : Accounts model progress)
    (enough : (progress.pending.map (pass.taskCost model)).sum ≤ limit)
    (finished : pass.perform model limit progress = ⟨events, .ok tally⟩) :
    Accounts model ⟨[], events.toArray, tally⟩ := by
  induction limit generalizing progress with
  | zero =>
      rcases progress with ⟨pending, printed, counted⟩
      cases pending with
      | nil =>
          cases finished
          simpa using accounts
      | cons task rest =>
          have positive : 0 < pass.taskCost model task := taskCost_pos forest task
          simp only [List.map_cons, List.sum_cons] at enough
          omega
  | succ limit inductionHypothesis =>
      rcases progress with ⟨pending, printed, counted⟩
      cases pending with
      | nil =>
          cases finished
          simpa using accounts
      | cons task rest =>
          cases task with
          | leave object =>
              rw [perform_leave] at finished
              refine inductionHypothesis _ accounts.leave ?_ finished
              simp only [List.map_cons, List.sum_cons, taskCost] at enough ⊢
              omega
          | visit object through =>
              rw [perform_visit] at finished
              cases visited : pass.visitObject model ⟨rest, printed, counted⟩ object
                  through with
              | error outcome =>
                  rw [visited] at finished
                  rcases visitObject_eq_error visited with ⟨error, failed, _⟩
                  rw [show outcome = _ from finished] at failed
                  cases failed
              | ok advanced =>
                  rw [visited] at finished
                  refine inductionHypothesis advanced (accounts.visit forest visited) ?_ finished
                  have cost := sum_taskCost_of_visitObject forest visited
                  simp only [List.map_cons, List.sum_cons] at enough cost
                  omega

/-- A pass that succeeds counts the events it has accepted, and every value that the entered
objects store is printed as an attribute, as a reference or as an entered object, or is left
out.  The root is the one entered object that is no value of another one. -/
theorem run_accounts (reachable : model.Reachable) (exist : root.index < model.objects.size)
    {events : List Event} {tally : Tally}
    (finished : pass.run model root = ⟨events, .ok tally⟩) :
    tally.objects = events.countP Event.isEnter ∧
      tally.attributes = events.countP Event.isAttribute ∧
      tally.references = events.countP Event.isReference ∧
      0 < tally.objects ∧
      tally.attributes + tally.references + (tally.objects - 1) + tally.omitted =
        ∑ object ∈ (enteredObjects events).toFinset, model.storedCount object := by
  have forest := reachable.forest
  have accounts := accounts_of_perform forest _ _ (accounts_initial model root)
    (sum_taskCost_root_le forest exist) finished
  rcases run_eq_ok forest exist finished with ⟨rfl, accepts⟩
  have nonempty : 0 < tally.objects := by
    rw [accounts.counts.objects, ← length_enteredObjects, enteredObjects_trace forest accepts,
      printedTree_eq forest]
    exact Nat.zero_lt_succ _
  have balance := accounts.balance
  refine ⟨accounts.counts.objects, accounts.counts.attributes, accounts.counts.references,
    nonempty, ?_⟩
  rw [List.sum_toFinset model.storedCount (enteredObjects_trace_nodup forest accepts none)]
  simp only [Tally.settled, List.countP_nil] at balance
  omega

/-- Of the part, its definition and their memberships everything is counted, the membership
of the multiplicity among what is left out. -/
theorem run_accounts_unboundedWheel :
    ((Pass.standard .standard none).run unboundedWheel.model ⟨0⟩).result =
        .ok ⟨6, 2, 1, 2⟩ ∧
      2 + 1 + (6 - 1) + 2 =
        ∑ object ∈ (enteredObjects
          ((Pass.standard .standard none).run unboundedWheel.model ⟨0⟩).events).toFinset,
            unboundedWheel.model.storedCount object := by
  have exist : (ObjectId.mk 0).index < unboundedWheel.model.objects.size := by decide +kernel
  have printed : ((Pass.standard .standard none).run unboundedWheel.model ⟨0⟩).result =
      .ok ⟨6, 2, 1, 2⟩ := by decide +kernel
  exact ⟨printed,
    (run_accounts unboundedWheel_reachable exist (run_eq_of_result printed)).2.2.2.2⟩

end Pass

end ModelText
