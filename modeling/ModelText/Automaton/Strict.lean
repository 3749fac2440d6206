import ModelText.Automaton.FeatureBounds
import ModelText.Automaton.LowLinks

namespace ModelText

/-!
# The analysis read strictly

States, followers and tags are numbers that come from a description, and the analysis uses
them as positions.  A look-up outside an array has a default, which would hide a wrong
position.  Here every function of the analysis is read strictly: a look-up or a write
outside an array, or a component without states, has no result, and neither has anything
that needs it.

The strict analysis keeps tables that the analysis can do without.  Components come from
the search by low links, with its numbers and marks.  States of a component with others are
given the number of the component, so that a sweep can tell where an edge leaves it.
Bounds are kept by feature and written by tag: the tags of such a component are unbounded,
and a sweep is for the other features, which none of its states is tagged with.
-/

namespace Automaton

namespace Strict

/-! ## Positions -/

def write {α : Type} (values : Array α) (index : Nat) (value : α) : Option (Array α) :=
  if index < values.size then some (values.setIfInBounds index value) else none

def writeAll {α : Type} (values : Array α) (indices : List Nat) (value : α) : Option (Array α) :=
  indices.foldlM (fun values index => write values index value) values

def followers (automaton : Automaton) (id : StateId) : Option (List StateId) :=
  (automaton.state? id).map State.followers

def isTagged (automaton : Automaton) (feature : Nat) (id : StateId) : Option Bool :=
  (automaton.state? id).map fun state => state.feature == some feature

/-! ## Validation -/

def markReachable (automaton : Automaton) :
    Nat → List StateId → Array Bool → Option (Array Bool)
  | 0, _, seen => some seen
  | _ + 1, [], seen => some seen
  | limit + 1, id :: pending, seen =>
      match seen[id]? with
      | none => none
      | some true => markReachable automaton limit pending seen
      | some false => do
          let followers ← followers automaton id
          let seen ← write seen id true
          markReachable automaton limit (followers ++ pending) seen

def reachableStates (automaton : Automaton) : Option (Array Bool) :=
  markReachable automaton (automaton.followerCount + 1) [automaton.start]
    (Array.replicate automaton.size false)

def isMissed (reachable : Array Bool) (numbered : State × StateId) : Option Bool :=
  if numbered.1.feature.isSome then reachable[numbered.2]?.map (!·) else some false

def firstUnreachable (automaton : Automaton) : Option (Option StateId) := do
  let reachable ← reachableStates automaton
  let found ← automaton.states.toList.zipIdx.findM? (isMissed reachable)
  some (found.map Prod.snd)

/-- The first fault of an automaton.  To examine the states in order needs no look-up. -/
def fault (automaton : Automaton) (featureCount : Nat) : Option (Option AnalysisError) :=
  if automaton.size ≤ automaton.start then
    some (some (.startOutOfRange automaton.name automaton.start automaton.size))
  else
    match automaton.firstStateFault? featureCount with
    | some fault => some (some fault)
    | none => do
        let found ← firstUnreachable automaton
        some (found.map (.unreachableState automaton.name))

/-! ## The sweep -/

/-- For each state the number of its component, if others share it. -/
def numbersOf (automaton : Automaton) (components : List (List StateId)) :
    Option (Array (Option Nat)) :=
  components.zipIdx.foldlM
    (fun numbers numbered =>
      if 2 ≤ numbered.1.length then
        writeAll numbers numbered.1 (some numbered.2)
      else
        some numbers)
    (Array.replicate automaton.size none)

/-- The largest of the bounds settled for the followers of a component outside. -/
def bestOutside (automaton : Automaton) (numbers : Array (Option Nat)) (settled : Array Bound)
    (numbered : List StateId × Nat) : Option Bound :=
  numbered.1.foldlM
    (fun best id => do
      let followers ← followers automaton id
      followers.foldlM
        (fun best follower => do
          let number ← numbers[follower]?
          if number = some numbered.2 then
            some best
          else do
            let bound ← settled[follower]?
            some (best.max bound))
        best)
    .zero

/-- Look at a follower of a lone state, which may be the state itself. -/
def passFollower (settled : Array Bound) (id : StateId) (tagged : Bool) (best : Bound)
    (follower : StateId) : Option Bound :=
  if follower = id then
    some (if tagged then .unbounded else best)
  else do
    let bound ← settled[follower]?
    some (best.max bound)

/-- The bound of a state that shares its component with no other. -/
def loneBound (automaton : Automaton) (feature : Nat) (settled : Array Bound) (id : StateId) :
    Option Bound := do
  let followers ← followers automaton id
  let tagged ← isTagged automaton feature id
  let best ← followers.foldlM (passFollower settled id tagged) .zero
  some (if tagged then best.succ else best)

/-- Give every state of a component its bound.  Tags are counted for lone states. -/
def settle (automaton : Automaton) (feature : Nat) (numbers : Array (Option Nat))
    (settled : Array Bound) (numbered : List StateId × Nat) : Option (Array Bound) :=
  if 2 ≤ numbered.1.length then do
    let best ← bestOutside automaton numbers settled numbered
    writeAll settled numbered.1 best
  else do
    let id ← numbered.1[0]?
    let bound ← loneBound automaton feature settled id
    write settled id bound

def sweep (automaton : Automaton) (components : List (List StateId))
    (numbers : Array (Option Nat)) (feature : Nat) : Option (Array Bound) :=
  components.zipIdx.foldlM (settle automaton feature numbers)
    (Array.replicate automaton.size .zero)

def startBound (automaton : Automaton) (components : List (List StateId))
    (numbers : Array (Option Nat)) (feature : Nat) : Option Bound := do
  let settled ← sweep automaton components numbers feature
  settled[automaton.start]?

/-! ## Bounds by feature -/

/-- Make the bound of the feature that a state is tagged with unbounded. -/
def lift (automaton : Automaton) (table : Array Bound) (id : StateId) : Option (Array Bound) := do
  let state ← automaton.state? id
  match state.feature with
  | none => some table
  | some feature => write table feature .unbounded

/-- A table of bounds that are zero, but unbounded for the tags of components with several
states. -/
def lifted (automaton : Automaton) (featureCount : Nat) (components : List (List StateId)) :
    Option (Array Bound) :=
  (components.filter fun component => 2 ≤ component.length).flatten.foldlM (lift automaton)
    (Array.replicate featureCount .zero)

/-- The bound of a feature, which needs no sweep when it is unbounded in the table. -/
def boundIn (automaton : Automaton) (components : List (List StateId))
    (numbers : Array (Option Nat)) (table : Array Bound) (feature : Nat) : Option Bound := do
  let bound ← table[feature]?
  if bound.isUnbounded then some bound else startBound automaton components numbers feature

def bounds (automaton : Automaton) (featureCount : Nat) :
    Option (Except AnalysisError FeatureBounds) := do
  match ← fault automaton featureCount with
  | some fault => some (.error fault)
  | none =>
      let components ← automaton.componentsByLowLinks?
        (2 * automaton.size + automaton.followerCount)
      let numbers ← numbersOf automaton components
      let table ← lifted automaton featureCount components
      let bounds ← (List.range featureCount).mapM (boundIn automaton components numbers table)
      some (.ok ⟨bounds⟩)

end Strict

end Automaton

end ModelText
