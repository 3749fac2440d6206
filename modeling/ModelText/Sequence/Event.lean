import ModelText.Graph.Mutation
import ModelText.Reference.Resolver

namespace ModelText

/-!
# Events

A printed tree is a list of events.  An object is entered, its attributes and
references follow, then the objects it contains, and it is left again.
-/

/-- One step through a printed tree. -/
inductive Event where
  /-- An object begins, contained through a feature unless it is the root, and
  printed under a constraint if one is known. -/
  | enter (object : ObjectId) (metaclass : Metaclass) (feature : Option Metafeature)
      (constraint : Option String)
  | attribute (object : ObjectId) (feature : Metafeature) (value : Value) (many : Bool)
  /-- The token of the reference at an index. -/
  | reference (object : ObjectId) (feature : Metafeature) (index : Nat) (token : String)
      (many : Bool)
  | exit (object : ObjectId)
  deriving DecidableEq

namespace Event

def token? : Event → Option String
  | .reference _ _ _ token _ => some token
  | _ => none

end Event

/-- Why a tree was not printed or rebuilt. -/
inductive PassError where
  | resolution (error : ResolutionError)
  | model (error : ModelError)
  | boundExceeded (object : ObjectId) (feature : Metafeature) (constraint : String)
      (count limit : Nat)
  | unknownObject (object : ObjectId)
  deriving DecidableEq

namespace PassError

def message : PassError → String
  | .resolution error => error.message
  | .model error => error.message
  | .boundExceeded object feature constraint count limit =>
      feature.label ++ " of " ++ object.label ++ " has " ++ toString count
        ++ " values but rule " ++ constraint ++ " accepts at most " ++ toString limit
  | .unknownObject object => "object " ++ object.label ++ " is not part of the model"

end PassError

end ModelText
