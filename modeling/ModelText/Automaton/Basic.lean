namespace ModelText

/-!
# Rule automata

The state graph that a grammar rule induces for a metaclass.  A state may carry
the local id of the feature it assigns, and its followers are the states that
may come next.  States are named by their positions, so cycles need no sharing;
a follower may name a state that does not exist, which is found by validation
and skipped everywhere else.
-/

/-- A state of an automaton, named by its position. -/
abbrev StateId := Nat

/-- A state id as messages write it. -/
def StateId.label (id : StateId) : String := "s" ++ toString id

namespace Automaton

/-- One state: the feature it assigns, if any, and the states that may come next. -/
structure State where
  feature : Option Nat
  followers : List StateId
  deriving DecidableEq, Inhabited

end Automaton

/-- The state graph of one rule. -/
structure Automaton where
  name : String
  start : StateId
  states : Array Automaton.State
  deriving DecidableEq, Inhabited

namespace Automaton

/-- The automaton with a single state that assigns nothing. -/
def single (name : String) : Automaton := ⟨name, 0, #[⟨none, []⟩]⟩

def size (automaton : Automaton) : Nat := automaton.states.size

def state? (automaton : Automaton) (id : StateId) : Option State := automaton.states[id]?

def feature? (automaton : Automaton) (id : StateId) : Option Nat :=
  (automaton.state? id).bind State.feature

/-- The followers of a state, none for a state that does not exist. -/
def followers (automaton : Automaton) (id : StateId) : List StateId :=
  ((automaton.state? id).map State.followers).getD []

/-- The followers of a state that exist. -/
def successors (automaton : Automaton) (id : StateId) : List StateId :=
  (automaton.followers id).filter fun follower => follower < automaton.size

/-- The number of followers of all states, repeated and missing ones included. -/
def followerCount (automaton : Automaton) : Nat :=
  automaton.states.foldl (fun total state => total + state.followers.length) 0

/-- The number of edges between states that exist, parallel ones included. -/
def edgeCount (automaton : Automaton) : Nat :=
  automaton.states.foldl
    (fun total state =>
      total + state.followers.countP fun follower => follower < automaton.size)
    0

/-! ## Construction -/

/-- Add a state without followers; its id is the former size. -/
def addState (automaton : Automaton) (feature : Option Nat) : Automaton :=
  { automaton with states := automaton.states.push ⟨feature, []⟩ }

/-- Add a follower to a state.  Nothing happens when the state does not exist. -/
def addFollower (automaton : Automaton) (source target : StateId) : Automaton :=
  { automaton with
    states := automaton.states.modify source fun state =>
      { state with followers := state.followers ++ [target] } }

/-- Make each state of a path a follower of the one before it. -/
def addChain (automaton : Automaton) (path : List StateId) : Automaton :=
  (path.zip path.tail).foldl (fun chained edge => chained.addFollower edge.1 edge.2)
    automaton

end Automaton

end ModelText
