import ModelText.Automaton.Basic
import ModelText.Metamodel.Metaclass

namespace ModelText

/-!
# Faults of grammars

What keeps a grammar from being built or analysed.  Every fault names the rule
it was found in.
-/

/-- Why a grammar was refused. -/
inductive AnalysisError where
  | startOutOfRange (rule : String) (start : StateId) (stateCount : Nat)
  | danglingFollower (rule : String) (state follower : StateId)
  | unreachableState (rule : String) (state : StateId)
  | featureOutOfRange (rule : String) (state : StateId) (feature featureCount : Nat)
  | unknownClass (rule name : String)
  | unknownFeature (rule : String) (metaclass : Metaclass) (feature : String)
  | noClasses (rule : String)
  deriving DecidableEq

namespace AnalysisError

def rule : AnalysisError → String
  | .startOutOfRange rule _ _ => rule
  | .danglingFollower rule _ _ => rule
  | .unreachableState rule _ => rule
  | .featureOutOfRange rule _ _ _ => rule
  | .unknownClass rule _ => rule
  | .unknownFeature rule _ _ => rule
  | .noClasses rule => rule

/-- The fault without the rule it was found in. -/
def reason : AnalysisError → String
  | .startOutOfRange _ start stateCount =>
      "start state " ++ start.label ++ " is out of range (" ++ toString stateCount
        ++ " states)"
  | .danglingFollower _ state follower =>
      "state " ++ state.label ++ " has dangling follower " ++ follower.label
  | .unreachableState _ state =>
      "tagged state " ++ state.label ++ " is unreachable from the start state"
  | .featureOutOfRange _ state feature featureCount =>
      "state " ++ state.label ++ " tags feature " ++ toString feature ++ ", class has "
        ++ toString featureCount ++ " features"
  | .unknownClass _ name => "unknown class " ++ name
  | .unknownFeature _ metaclass feature =>
      "class " ++ metaclass.name ++ " has no feature " ++ feature
  | .noClasses _ => "no classes declared"

def message (error : AnalysisError) : String :=
  "rule " ++ error.rule ++ ": " ++ error.reason

end AnalysisError

end ModelText
