import ModelText.Automaton.Bound
import ModelText.Automaton.Components
import ModelText.Automaton.Validation

namespace ModelText

/-!
# Bounds of features

The bound of a feature is the largest number of states tagged with it on a walk
from the start.  A tagged state on a cycle can be passed any number of times.
Otherwise each component counts as a single state, and as components come sinks
first, one sweep finds for every state the largest number of tags on a walk from
there.
-/

/-- The bounds of the features of a metaclass, by local id. -/
structure FeatureBounds where
  bounds : List Bound
  deriving DecidableEq

namespace FeatureBounds

def get? (table : FeatureBounds) (feature : Nat) : Option Bound := table.bounds[feature]?

def size (table : FeatureBounds) : Nat := table.bounds.length

def unboundedFeatures (table : FeatureBounds) : List Nat :=
  (List.range table.size).filter fun feature =>
    (table.get? feature).any Bound.isUnbounded

end FeatureBounds

namespace Automaton

def isTagged (automaton : Automaton) (feature : Nat) (id : StateId) : Bool :=
  automaton.feature? id == some feature

/-- Whether a component contains a cycle: it has two states, or one that follows
itself. -/
def isCyclic (automaton : Automaton) : List StateId → Bool
  | [] => false
  | [id] => (automaton.followers id).contains id
  | _ => true

/-- The largest of the bounds settled so far for the followers of some states. -/
def bestFollower (automaton : Automaton) (settled : Array Bound)
    (component : List StateId) : Bound :=
  component.foldl
    (fun best id =>
      (automaton.followers id).foldl
        (fun best follower => best.max ((settled[follower]?).getD .zero)) best)
    .zero

/-- The bound of a component, from the bounds of what it leads to. -/
def componentBound (automaton : Automaton) (feature : Nat) (settled : Array Bound)
    (component : List StateId) : Bound :=
  let best := automaton.bestFollower settled component
  if component.any (automaton.isTagged feature) then
    if automaton.isCyclic component then .unbounded else best.succ
  else
    best

/-- Give every state of a component the bound of the component. -/
def settle (automaton : Automaton) (feature : Nat) (settled : Array Bound)
    (component : List StateId) : Array Bound :=
  let bound := automaton.componentBound feature settled component
  component.foldl (fun settled id => settled.setIfInBounds id bound) settled

/-- The bounds of all states, settled component by component. -/
def sweep (automaton : Automaton) (feature : Nat) (components : List (List StateId)) :
    Array Bound :=
  components.foldl (automaton.settle feature)
    (Array.replicate automaton.size .zero)

/-- The bound of a feature on walks from the start. -/
def startBound (automaton : Automaton) (components : List (List StateId))
    (feature : Nat) : Bound :=
  ((automaton.sweep feature components)[automaton.start]?).getD .zero

/-- The bounds of all features of a metaclass with the given number of features,
for an automaton that is fit for analysis. -/
def bounds (automaton : Automaton) (featureCount : Nat) :
    Except AnalysisError FeatureBounds :=
  match automaton.fault? featureCount with
  | some fault => .error fault
  | none =>
      let components := automaton.components
      .ok ⟨(List.range featureCount).map (automaton.startBound components)⟩

end Automaton

end ModelText
