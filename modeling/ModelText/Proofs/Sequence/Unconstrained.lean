import ModelText.Proofs.Sequence.Enforcement

namespace ModelText

/-!
# Printing with and without constraints

The constraints of a grammar add the name of a rule to an entered object and say whether
values are written as a list.  Apart from that a pass with constraints does what the same
pass does without them, until it gives up on a bound.

Both passes are compared task by task.  They have the same tasks pending and differ in the
annotations of their events only.  A bound is checked in the middle of an object, so the
constrained pass may stop when the other one has more events of the same object to come;
what it has accepted by then is a prefix.
-/

/-! ## What constraints add -/

/-- An event without its annotations. -/
def Event.bare : Event → Event
  | .enter object metaclass feature _ => .enter object metaclass feature none
  | .attribute object feature value _ => .attribute object feature value false
  | .reference object feature index token _ => .reference object feature index token false
  | .exit object => .exit object

namespace Pass

/-- The same pass without constraints. -/
def unconstrained (pass : Pass) : Pass := { pass with constraints := none }

/-- An outcome is that of a plain pass with annotations, or it stops early at a bound. -/
def Outcome.Annotates (outcome plain : Outcome) : Prop :=
  match outcome.result with
  | .error (.boundExceeded _ _ _ _ _) =>
      outcome.events.map Event.bare <+: plain.events.map Event.bare
  | result =>
      plain.result = result ∧ plain.events.map Event.bare = outcome.events.map Event.bare

namespace Outcome

variable {outcome plain : Outcome}

theorem annotates_of_eq (result : plain.result = outcome.result)
    (events : plain.events.map Event.bare = outcome.events.map Event.bare) :
    outcome.Annotates plain := by
  unfold Annotates
  split
  · exact events ▸ List.prefix_rfl
  · exact ⟨result, events⟩

theorem annotates_of_isPrefix {object : ObjectId} {feature : Metafeature} {name : String}
    {count limit : Nat}
    (result : outcome.result = .error (.boundExceeded object feature name count limit))
    (early : outcome.events.map Event.bare <+: plain.events.map Event.bare) :
    outcome.Annotates plain := by
  unfold Annotates
  rw [result]
  exact early

end Outcome

def Item.bare : Item → Item
  | .event accepted => .event accepted.bare
  | .child feature object => .child feature object

theorem filterMap_event?_bare (items : List Item) :
    (items.map Item.bare).filterMap Item.event? =
      (items.filterMap Item.event?).map Event.bare := by
  rw [List.filterMap_map, List.map_filterMap]
  congr 1
  funext item
  cases item <;> rfl

theorem filterMap_child?_bare (items : List Item) :
    (items.map Item.bare).filterMap Item.child? = items.filterMap Item.child? := by
  rw [List.filterMap_map]
  congr 1
  funext item
  cases item <;> rfl

/-- Two lists of results that stop alike, apart from annotations; or the first one stops
early at a bound of the object. -/
def StopsAlike (object : ObjectId) (results plain : List (Except PassError Item)) : Prop :=
  ((untilError results).1.map Item.bare = (untilError plain).1.map Item.bare ∧
    (untilError results).2 = (untilError plain).2) ∨
  ∃ feature name count limit,
    (untilError results).2 = some (.boundExceeded object feature name count limit) ∧
      (untilError results).1.map Item.bare <+: (untilError plain).1.map Item.bare

/-- Results that differ in annotations only do not matter for how the results behind them
stop. -/
theorem StopsAlike.append {object : ObjectId} {first firstPlain : List (Except PassError Item)}
    (same : first.map (Except.map Item.bare) = firstPlain.map (Except.map Item.bare))
    {rest restPlain : List (Except PassError Item)} (alike : StopsAlike object rest restPlain) :
    StopsAlike object (first ++ rest) (firstPlain ++ restPlain) := by
  induction first generalizing firstPlain with
  | nil =>
      rw [List.map_nil, eq_comm, List.map_eq_nil_iff] at same
      rw [same]
      exact alike
  | cons result others inductionHypothesis =>
      cases firstPlain with
      | nil => cases same
      | cons resultPlain othersPlain =>
          rw [List.map_cons, List.map_cons, List.cons.injEq] at same
          have further := inductionHypothesis same.2
          cases result with
          | error error =>
              cases resultPlain with
              | error errorPlain =>
                  cases same.1
                  exact .inl ⟨rfl, rfl⟩
              | ok itemPlain => cases same.1
          | ok item =>
              cases resultPlain with
              | error errorPlain => cases same.1
              | ok itemPlain =>
                  have bare : item.bare = itemPlain.bare := Except.ok.inj same.1
                  rcases further with ⟨items, errors⟩ | ⟨feature, name, count, limit, fault, early⟩
                  · refine .inl ⟨?_, errors⟩
                    rw [List.cons_append, List.cons_append, untilError, untilError]
                    exact congrArg₂ List.cons bare items
                  · refine .inr ⟨feature, name, count, limit, fault, ?_⟩
                    rw [List.cons_append, List.cons_append, untilError, untilError]
                    dsimp only
                    rw [List.map_cons, List.map_cons, bare]
                    exact (List.prefix_cons_inj _).mpr early

variable {pass : Pass} {model : Model}

/-! ## One object -/

theorem valueItem?_unconstrained (object : ObjectId) (feature : Metafeature) (many plain : Bool)
    (index : Nat) (value : Value) :
    (pass.valueItem? model object feature many index value).map (Except.map Item.bare) =
      (pass.unconstrained.valueItem? model object feature plain index value).map
        (Except.map Item.bare) := by
  rw [valueItem?, valueItem?, unconstrained]
  cases feature.storage with
  | crossReference =>
      dsimp only
      cases pass.resolver.resolve model ⟨object, feature, index⟩ value <;> rfl
  | «attribute» | containment | container => rfl

/-- A feature exceeds its bound, or contributes the same as without constraints. -/
theorem featureItems_unconstrained (object : ObjectId) (constraint : Option Constraint)
    (feature : Metafeature) :
    (∃ name count limit, pass.featureItems model object constraint feature =
        [.error (.boundExceeded object feature name count limit)]) ∨
      (pass.featureItems model object constraint feature).map (Except.map Item.bare) =
        (pass.unconstrained.featureItems model object none feature).map
          (Except.map Item.bare) := by
  by_cases nothing : pass.policy.printedIndices model object feature = []
  · have nothingPlain : pass.unconstrained.policy.printedIndices model object feature = [] :=
      nothing
    refine .inr ?_
    rw [featureItems, featureItems, nothing, nothingPlain]
  · have unbounded : pass.unconstrained.boundFault? none object feature
        (pass.policy.printedIndices model object feature).length = none := by
      unfold boundFault?
      split <;> rfl
    have printsToo : pass.unconstrained.policy.printedIndices model object feature ≠ [] := nothing
    rw [featureItems_eq nothing, featureItems_eq printsToo]
    cases exceeded : pass.boundFault? constraint object feature
        (pass.policy.printedIndices model object feature).length with
    | some fault =>
        rcases boundFault?_eq_some exceeded with ⟨inForce, limit, _, _, rfl⟩
        exact .inl ⟨_, _, _, rfl⟩
    | none =>
        refine .inr ?_
        rw [unconstrained] at unbounded ⊢
        rw [unbounded]
        dsimp only
        rw [List.map_filterMap, List.map_filterMap]
        congr 1
        funext index
        cases (model.values object feature)[index]? with
        | none => rfl
        | some value => exact valueItem?_unconstrained object feature _ _ index value

/-- An object contributes the same as without constraints, up to the first bound it
exceeds. -/
theorem objectItems_unconstrained (pass : Pass) (model : Model) (object : ObjectId)
    (metaclass : Metaclass) :
    StopsAlike object (pass.objectItems model object metaclass)
      (pass.unconstrained.objectItems model object metaclass) := by
  rw [objectItems, objectItems]
  induction metaclass.storedFeatures with
  | nil => exact .inl ⟨rfl, rfl⟩
  | cons feature rest inductionHypothesis =>
      rw [List.flatMap_cons, List.flatMap_cons]
      rcases featureItems_unconstrained object (pass.constraintFor? metaclass) feature with
        ⟨name, count, limit, exceeded⟩ | same
      · rw [exceeded]
        exact .inr ⟨feature, name, count, limit, rfl, List.nil_prefix⟩
      · exact StopsAlike.append same inductionHypothesis

/-! ## The loop -/

def Progress.bare (progress : Progress) : Progress :=
  { progress with events := progress.events.map Event.bare }

theorem Progress.bare_eq_iff {progress plain : Progress} :
    progress.bare = plain.bare ↔
      progress.pending = plain.pending ∧
        progress.events.map Event.bare = plain.events.map Event.bare ∧
        progress.tally = plain.tally := by
  rw [Progress.bare, Progress.bare, Progress.mk.injEq]

/-- The events accepted when an object was visited, whether or not this ends the pass. -/
def acceptedEvents : Except Outcome Progress → List Event
  | .error outcome => outcome.events
  | .ok advanced => advanced.events.toList

theorem acceptedEvents_visitObject {object : ObjectId} {metaclass : Metaclass}
    (known : model.metaclass? object = some metaclass) (progress : Progress)
    (feature : Option Metafeature) :
    acceptedEvents (pass.visitObject model progress object feature) =
      progress.events.toList ++
        .enter object metaclass feature ((pass.constraintFor? metaclass).map Constraint.name) ::
          (untilError (pass.objectItems model object metaclass)).1.filterMap Item.event? := by
  unfold visitObject
  rw [known]
  dsimp only
  cases (untilError (pass.objectItems model object metaclass)).2 <;>
    simp [acceptedEvents, Progress.finish]

/-- Performing tasks adds to the events that were accepted before. -/
theorem events_prefix_perform (limit : Nat) (progress : Progress) :
    progress.events.toList <+: (pass.perform model limit progress).events := by
  induction limit generalizing progress with
  | zero => exact List.prefix_rfl
  | succ limit inductionHypothesis =>
      rcases progress with ⟨pending, events, tally⟩
      cases pending with
      | nil => exact List.prefix_rfl
      | cons task pending =>
          cases task with
          | leave object =>
              rw [perform_leave]
              refine List.IsPrefix.trans ?_ (inductionHypothesis _)
              rw [Array.toList_push]
              exact List.prefix_append _ _
          | visit object feature =>
              have visited : events.toList <+: acceptedEvents
                  (pass.visitObject model ⟨pending, events, tally⟩ object feature) := by
                cases known : model.metaclass? object with
                | none =>
                    unfold visitObject
                    rw [known]
                    exact List.prefix_rfl
                | some metaclass =>
                    rw [acceptedEvents_visitObject known]
                    exact List.prefix_append _ _
              rw [perform_visit]
              cases result : pass.visitObject model ⟨pending, events, tally⟩ object feature with
              | error outcome =>
                  rw [result] at visited
                  exact visited
              | ok advanced =>
                  rw [result] at visited
                  exact visited.trans (inductionHypothesis advanced)

theorem acceptedEvents_bare (pass : Pass) {object : ObjectId} {metaclass : Metaclass}
    (known : model.metaclass? object = some metaclass) (progress : Progress)
    (feature : Option Metafeature) :
    (acceptedEvents (pass.visitObject model progress object feature)).map Event.bare =
      progress.bare.events.toList ++ .enter object metaclass feature none ::
        ((untilError (pass.objectItems model object metaclass)).1.map Item.bare).filterMap
          Item.event? := by
  rw [acceptedEvents_visitObject known, filterMap_event?_bare, List.map_append, List.map_cons,
    Progress.bare, Array.toList_map, Event.bare]

/-- How two visits of an object compare: both go on, both end the pass with the same
result, or the first one ends it early at a bound. -/
inductive VisitsAlike (object : ObjectId) : Except Outcome Progress → Except Outcome Progress →
    Prop
  | advance {advanced plain : Progress} : advanced.bare = plain.bare →
      VisitsAlike object (.ok advanced) (.ok plain)
  | fail {outcome plain : Outcome} : plain.result = outcome.result →
      plain.events.map Event.bare = outcome.events.map Event.bare →
      VisitsAlike object (.error outcome) (.error plain)
  | stop {outcome : Outcome} {plain : Except Outcome Progress} {feature : Metafeature}
      {name : String} {count limit : Nat} :
      outcome.result = .error (.boundExceeded object feature name count limit) →
      outcome.events.map Event.bare <+: (acceptedEvents plain).map Event.bare →
      VisitsAlike object (.error outcome) plain

/-- An object that contributes alike to both passes lets both go on, or ends both. -/
theorem visitObject_alike {object : ObjectId} {metaclass : Metaclass}
    (known : model.metaclass? object = some metaclass) {progress plain : Progress}
    (same : progress.bare = plain.bare) (feature : Option Metafeature)
    (items : (untilError (pass.objectItems model object metaclass)).1.map Item.bare =
      (untilError (pass.unconstrained.objectItems model object metaclass)).1.map Item.bare)
    (errors : (untilError (pass.objectItems model object metaclass)).2 =
      (untilError (pass.unconstrained.objectItems model object metaclass)).2) :
    VisitsAlike object (pass.visitObject model progress object feature)
      (pass.unconstrained.visitObject model plain object feature) := by
  rcases Progress.bare_eq_iff.mp same with ⟨pending, _, tally⟩
  have events := acceptedEvents_bare pass known progress feature
  have eventsPlain := acceptedEvents_bare pass.unconstrained known plain feature
  rw [← same, ← items, ← events] at eventsPlain
  unfold visitObject at eventsPlain ⊢
  rw [known] at eventsPlain ⊢
  dsimp only at eventsPlain ⊢
  rw [← errors] at eventsPlain ⊢
  cases failed : (untilError (pass.objectItems model object metaclass)).2 with
  | some error =>
      rw [failed] at eventsPlain
      exact .fail rfl eventsPlain
  | none =>
      rw [failed] at eventsPlain
      have children := congrArg (List.filterMap Item.child?) items
      rw [filterMap_child?_bare, filterMap_child?_bare] at children
      refine .advance (Progress.bare_eq_iff.mpr ⟨?_, Array.toList_inj.mp ?_, ?_⟩)
      · rw [children, pending]
      · rw [Array.toList_map, Array.toList_map]
        exact eventsPlain.symm
      · rw [tally]
        rfl

/-- An object that exceeds a bound stops the pass, with a prefix of what the plain pass
accepts for the object, whether that pass fails there too or goes on. -/
theorem visitObject_stop {object : ObjectId} {metaclass : Metaclass}
    (known : model.metaclass? object = some metaclass) {progress plain : Progress}
    (same : progress.bare = plain.bare) (feature : Option Metafeature)
    {exceeded : Metafeature} {name : String} {count limit : Nat}
    (fault : (untilError (pass.objectItems model object metaclass)).2 =
      some (.boundExceeded object exceeded name count limit))
    (early : (untilError (pass.objectItems model object metaclass)).1.map Item.bare <+:
      (untilError (pass.unconstrained.objectItems model object metaclass)).1.map Item.bare) :
    VisitsAlike object (pass.visitObject model progress object feature)
      (pass.unconstrained.visitObject model plain object feature) := by
  have events := acceptedEvents_bare pass known progress feature
  have eventsPlain := acceptedEvents_bare pass.unconstrained known plain feature
  rw [← same] at eventsPlain
  have prefixed := (List.prefix_append_right_inj progress.bare.events.toList).mpr
    ((List.prefix_cons_inj (.enter object metaclass feature none)).mpr
      (early.filterMap Item.event?))
  rw [← events, ← eventsPlain] at prefixed
  unfold visitObject at prefixed ⊢
  rw [known] at prefixed ⊢
  dsimp only at prefixed ⊢
  rw [fault] at prefixed ⊢
  exact .stop rfl prefixed

/-- Visiting an object takes the same step in both passes, or stops the first one. -/
theorem visitObject_unconstrained (pass : Pass) (model : Model) {progress plain : Progress}
    (same : progress.bare = plain.bare) (object : ObjectId) (feature : Option Metafeature) :
    VisitsAlike object (pass.visitObject model progress object feature)
      (pass.unconstrained.visitObject model plain object feature) := by
  cases known : model.metaclass? object with
  | none =>
      rcases Progress.bare_eq_iff.mp same with ⟨_, events, _⟩
      unfold visitObject
      rw [known]
      refine .fail rfl ?_
      rw [Progress.finish, Progress.finish, ← Array.toList_map, ← Array.toList_map, events]
  | some metaclass =>
      rcases objectItems_unconstrained pass model object metaclass with
        ⟨items, errors⟩ | ⟨exceeded, name, count, limit, fault, early⟩
      · exact visitObject_alike known same feature items errors
      · exact visitObject_stop known same feature fault early

theorem finish_annotates {progress plain : Progress} (same : progress.bare = plain.bare) :
    (progress.finish (.ok progress.tally)).Annotates (plain.finish (.ok plain.tally)) := by
  rcases Progress.bare_eq_iff.mp same with ⟨_, events, tally⟩
  refine Outcome.annotates_of_eq (congrArg Except.ok tally.symm) ?_
  rw [Progress.finish, Progress.finish, ← Array.toList_map, ← Array.toList_map, events]

/-- With the same tasks pending, a pass adds annotations to what it does without
constraints. -/
theorem perform_unconstrained (limit : Nat) {progress plain : Progress}
    (same : progress.bare = plain.bare) :
    (pass.perform model limit progress).Annotates
      (pass.unconstrained.perform model limit plain) := by
  induction limit generalizing progress plain with
  | zero => exact finish_annotates same
  | succ limit inductionHypothesis =>
      rcases progress with ⟨pending, events, tally⟩
      rcases plain with ⟨pendingPlain, eventsPlain, tallyPlain⟩
      rcases Progress.bare_eq_iff.mp same with ⟨samePending, sameEvents, sameTally⟩
      cases samePending
      cases sameTally
      cases pending with
      | nil => exact finish_annotates same
      | cons task pending =>
          cases task with
          | leave object =>
              rw [perform_leave, perform_leave]
              refine inductionHypothesis (Progress.bare_eq_iff.mpr ⟨rfl, ?_, rfl⟩)
              dsimp only at sameEvents ⊢
              rw [Array.map_push, Array.map_push, sameEvents]
          | visit object feature =>
              have visits := visitObject_unconstrained pass model
                (Progress.bare_eq_iff.mpr ⟨rfl, sameEvents, rfl⟩ :
                  Progress.bare ⟨pending, events, tally⟩ = .bare ⟨pending, eventsPlain, tally⟩)
                object feature
              rw [perform_visit, perform_visit]
              generalize pass.visitObject model ⟨pending, events, tally⟩ object feature =
                visited at visits
              generalize pass.unconstrained.visitObject model ⟨pending, eventsPlain, tally⟩
                object feature = visitedPlain at visits
              cases visits with
              | advance alike => exact inductionHypothesis alike
              | fail result events => exact Outcome.annotates_of_eq result events
              | stop fault early =>
                  -- wherever the plain pass ends, it keeps the events it has accepted by now
                  refine Outcome.annotates_of_isPrefix fault (early.trans ?_)
                  cases visitedPlain with
                  | error outcome => exact List.prefix_rfl
                  | ok advanced => exact (events_prefix_perform limit advanced).map Event.bare

/-- Constraints annotate and reject, and change nothing else: a pass that succeeds comes to
the same tally without constraints, and accepts the same events up to annotations; a pass
that gives up on a bound has accepted a prefix of them; and a pass that fails for another
reason fails in the same way without constraints. -/
theorem run_unconstrained (pass : Pass) (model : Model) (root : ObjectId) :
    (pass.run model root).Annotates (pass.unconstrained.run model root) :=
  perform_unconstrained _ rfl

/-- A grammar that is too narrow for the root stops the pass in front of its children. -/
example :
    ((standard .standard (some narrowConstraints)).run unboundedWheel.model ⟨0⟩).events.map
        Event.bare =
      (((standard .standard none).run unboundedWheel.model ⟨0⟩).events.take 1).map
        Event.bare := by decide +kernel

end Pass

end ModelText
