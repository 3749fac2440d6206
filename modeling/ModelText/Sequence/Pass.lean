import ModelText.Grammar.Constraint
import ModelText.Omission.Policy
import ModelText.Sequence.Event

namespace ModelText

/-!
# Printing a tree

A pass walks a containment tree and turns every printed value into an event:
attributes as they are, cross references as tokens, contained objects as subtrees
behind the events of their container.  Where the constraints of a grammar are
known, the number of printed values is checked against the bound of the feature
before any of them is turned into an event.  The events accepted before a failure
remain visible.
-/

/-- What decides how a tree is printed. -/
structure Pass where
  policy : OmissionPolicy
  resolver : Resolver
  constraints : Option Constraints
  enforceBounds : Bool

/-- How much a pass has printed and left out. -/
structure Tally where
  objects : Nat
  attributes : Nat
  references : Nat
  omitted : Nat
  deriving DecidableEq

namespace Tally

def zero : Tally := ⟨0, 0, 0, 0⟩

def add (left right : Tally) : Tally :=
  ⟨left.objects + right.objects, left.attributes + right.attributes,
    left.references + right.references, left.omitted + right.omitted⟩

end Tally

namespace Pass

/-- The policy of the textual notation and the standard resolver, with the given
options. -/
def standard (options : Options) (constraints : Option Constraints) : Pass where
  policy := .textual .plain
  resolver := .standard options
  constraints := constraints
  enforceBounds := options.enforceBounds

/-- The constraint for objects of a metaclass: that of the first rule listing it. -/
def constraintFor? (pass : Pass) (metaclass : Metaclass) : Option Constraint :=
  pass.constraints.bind fun constraints => (constraints.forClass metaclass).head?

/-! ## One object -/

/-- What one printed value contributes: an event, or an object to enter later. -/
inductive Item where
  | event (accepted : Event)
  | child (feature : Metafeature) (object : ObjectId)
  deriving DecidableEq

namespace Item

def event? : Item → Option Event
  | .event accepted => some accepted
  | .child _ _ => none

def child? : Item → Option (Metafeature × ObjectId)
  | .event _ => none
  | .child feature object => some (feature, object)

end Item

/-- Whether more values are printed than the constraint allows. -/
def boundFault? (pass : Pass) (constraint : Option Constraint) (object : ObjectId)
    (feature : Metafeature) (count : Nat) : Option PassError :=
  if pass.enforceBounds then
    constraint.bind fun constraint =>
      match constraint.bound? feature with
      | some (.finite limit) =>
          if count ≤ limit then
            none
          else
            some (.boundExceeded object feature constraint.name count limit)
      | _ => none
  else
    none

/-- Whether the values of a feature are printed as a list: as its rule says if
there is one, and as the abstract syntax says otherwise. -/
def rendersMany (constraint : Option Constraint) (feature : Metafeature) : Bool :=
  match constraint with
  | some constraint => constraint.isMany feature
  | none => feature.isMany

/-- What the value at an index contributes, if anything. -/
def valueItem? (pass : Pass) (model : Model) (object : ObjectId) (feature : Metafeature)
    (many : Bool) (index : Nat) (value : Value) : Option (Except PassError Item) :=
  match feature.storage with
  | .attribute => some (.ok (.event (.attribute object feature value many)))
  | .crossReference =>
      match pass.resolver.resolve model ⟨object, feature, index⟩ value with
      | .ok token => some (.ok (.event (.reference object feature index token many)))
      | .error error => some (.error (.resolution error))
  | .containment => value.object?.map fun child => .ok (.child feature child)
  | .container => none

/-- What the printed values of a feature contribute, in the order of their
indices. -/
def featureItems (pass : Pass) (model : Model) (object : ObjectId)
    (constraint : Option Constraint) (feature : Metafeature) :
    List (Except PassError Item) :=
  let values := model.values object feature
  match pass.policy.printedIndices model object feature with
  | [] => []
  | printed =>
      match pass.boundFault? constraint object feature printed.length with
      | some fault => [.error fault]
      | none =>
          let many := rendersMany constraint feature
          printed.filterMap fun index =>
            values[index]?.bind (pass.valueItem? model object feature many index)

/-- What the features of an object contribute, in the order of their ids. -/
def objectItems (pass : Pass) (model : Model) (object : ObjectId)
    (metaclass : Metaclass) : List (Except PassError Item) :=
  metaclass.storedFeatures.flatMap
    (pass.featureItems model object (pass.constraintFor? metaclass))

/-- What printing one feature of an object adds to the tally. -/
def featureTally (pass : Pass) (model : Model) (object : ObjectId)
    (feature : Metafeature) : Tally :=
  let printed := (pass.policy.printedIndices model object feature).length
  { objects := 0
    attributes := if feature.storage == .attribute then printed else 0
    references := if feature.storage == .crossReference then printed else 0
    omitted := (model.values object feature).length - printed }

/-- What printing an object adds to the tally. -/
def objectTally (pass : Pass) (model : Model) (object : ObjectId)
    (metaclass : Metaclass) : Tally :=
  metaclass.storedFeatures.foldl
    (fun tally feature => tally.add (pass.featureTally model object feature))
    ⟨1, 0, 0, 0⟩

/-- The results before the first error, and this error. -/
def untilError : List (Except ε α) → List α × Option ε
  | [] => ([], none)
  | .error error :: _ => ([], some error)
  | .ok result :: rest =>
      let (results, error) := untilError rest
      (result :: results, error)

/-! ## The walk -/

/-- What is left to do. -/
inductive Task where
  | visit (object : ObjectId) (feature : Option Metafeature)
  | leave (object : ObjectId)
  deriving DecidableEq

/-- What a pass comes to: the events accepted, and the tally or an error. -/
structure Outcome where
  events : List Event
  result : Except PassError Tally

/-- A pass on its way. -/
structure Progress where
  pending : List Task
  events : Array Event
  tally : Tally

def Progress.finish (progress : Progress) (result : Except PassError Tally) : Outcome :=
  ⟨progress.events.toList, result⟩

/-- Print the events of an object and put its children in front of what is
pending; or end with an error. -/
def visitObject (pass : Pass) (model : Model) (progress : Progress) (object : ObjectId)
    (feature : Option Metafeature) : Except Outcome Progress :=
  match model.metaclass? object with
  | none => .error (progress.finish (.error (.unknownObject object)))
  | some metaclass =>
      let constraint := (pass.constraintFor? metaclass).map Constraint.name
      let (items, error) := untilError (pass.objectItems model object metaclass)
      let entered := progress.events.push (.enter object metaclass feature constraint)
      let advanced : Progress := { progress with
        events := entered ++ items.filterMap Item.event? }
      match error with
      | some error => .error (advanced.finish (.error error))
      | none =>
          let children := items.filterMap Item.child?
          .ok { advanced with
            pending :=
              children.map (fun (feature, child) => .visit child (some feature))
                ++ .leave object :: progress.pending
            tally := progress.tally.add (pass.objectTally model object metaclass) }

/-- Perform pending tasks front to back, at most the given number of them. -/
def perform (pass : Pass) (model : Model) : Nat → Progress → Outcome
  | 0, progress => progress.finish (.ok progress.tally)
  | limit + 1, progress =>
      match progress.pending with
      | [] => progress.finish (.ok progress.tally)
      | .leave object :: pending =>
          perform pass model limit
            { progress with pending := pending, events := progress.events.push (.exit object) }
      | .visit object feature :: pending =>
          match pass.visitObject model { progress with pending := pending } object feature with
          | .error outcome => outcome
          | .ok advanced => perform pass model limit advanced

theorem perform_leave (pass : Pass) (model : Model) (limit : Nat) (object : ObjectId)
    (pending : List Task) (events : Array Event) (tally : Tally) :
    pass.perform model (limit + 1) ⟨.leave object :: pending, events, tally⟩ =
      pass.perform model limit ⟨pending, events.push (.exit object), tally⟩ := rfl

theorem perform_visit (pass : Pass) (model : Model) (limit : Nat) (object : ObjectId)
    (feature : Option Metafeature) (pending : List Task) (events : Array Event)
    (tally : Tally) :
    pass.perform model (limit + 1) ⟨.visit object feature :: pending, events, tally⟩ =
      match pass.visitObject model ⟨pending, events, tally⟩ object feature with
      | .error outcome => outcome
      | .ok advanced => pass.perform model limit advanced := rfl

/-- Print the tree of a root.  Every object is visited and left once. -/
def run (pass : Pass) (model : Model) (root : ObjectId) : Outcome :=
  perform pass model (2 * model.objects.size + 1) ⟨[.visit root none], #[], .zero⟩

end Pass

end ModelText
