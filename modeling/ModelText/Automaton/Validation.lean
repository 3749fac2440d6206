import ModelText.Grammar.AnalysisError

namespace ModelText

/-!
# Validation of automata

An automaton is fit for analysis when its start and all followers exist, every
tag is a feature of the analysed metaclass and every tagged state can be reached
from the start.  States are examined in order, and of one state a missing
follower is reported before its tag.
-/

namespace Automaton

/-! ## Reachable states -/

/-- Marks the pending states and what they lead to, for at most the given number
of pending states; states that do not exist are passed over. -/
def markReachable (automaton : Automaton) : Nat → List StateId → Array Bool → Array Bool
  | 0, _, seen => seen
  | _ + 1, [], seen => seen
  | limit + 1, id :: pending, seen =>
      if seen[id]? = some false then
        markReachable automaton limit (automaton.followers id ++ pending)
          (seen.setIfInBounds id true)
      else
        markReachable automaton limit pending seen

/-- For each state whether it can be reached from the start.  Besides the start
no state is pending more often than it is a follower. -/
def reachableStates (automaton : Automaton) : Array Bool :=
  automaton.markReachable (automaton.followerCount + 1) [automaton.start]
    (Array.replicate automaton.size false)

/-! ## Faults -/

/-- The fault of a single state: its first missing follower, or else a tag that
is no feature. -/
def stateFault? (automaton : Automaton) (featureCount : Nat) (id : StateId)
    (state : State) : Option AnalysisError :=
  match state.followers.find? fun follower => automaton.size ≤ follower with
  | some follower => some (.danglingFollower automaton.name id follower)
  | none =>
      match state.feature with
      | none => none
      | some feature =>
          if featureCount ≤ feature then
            some (.featureOutOfRange automaton.name id feature featureCount)
          else
            none

def firstStateFault? (automaton : Automaton) (featureCount : Nat) :
    Option AnalysisError :=
  automaton.states.toList.zipIdx.findSome? fun (state, id) =>
    automaton.stateFault? featureCount id state

/-- The first tagged state that the start does not lead to. -/
def firstUnreachable? (automaton : Automaton) : Option StateId :=
  let reachable := automaton.reachableStates
  (automaton.states.toList.zipIdx.find? fun (state, id) =>
    state.feature.isSome && reachable[id]? != some true).map Prod.snd

/-- The first fault of an automaton for a metaclass with the given number of
features. -/
def fault? (automaton : Automaton) (featureCount : Nat) : Option AnalysisError :=
  if automaton.size ≤ automaton.start then
    some (.startOutOfRange automaton.name automaton.start automaton.size)
  else
    match automaton.firstStateFault? featureCount with
    | some fault => some fault
    | none => automaton.firstUnreachable?.map (.unreachableState automaton.name)

/-- Whether an automaton is fit for analysis, with the first fault if it is not. -/
def validate (automaton : Automaton) (featureCount : Nat) : Except AnalysisError Unit :=
  match automaton.fault? featureCount with
  | some fault => .error fault
  | none => .ok ()

end Automaton

end ModelText
