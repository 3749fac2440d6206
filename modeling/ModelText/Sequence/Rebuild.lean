import ModelText.Sequence.Event

namespace ModelText

/-!
# Rebuilding a model from events

Events are replayed into a fresh model the way a reader of the notation would do
it.  Objects and attributes come first, then every reference is linked in the
scope of the model as it stands at that moment.  At last typings, redefinitions
and subsettings get back the reference to the element that owns them, which is
never printed.
-/

namespace Rebuild

/-- A rebuilt model on its way. -/
structure Replay where
  model : Model
  /-- The copies of the objects entered so far, latest first. -/
  copies : List (ObjectId × ObjectId)
  /-- The copies that were not left yet, innermost first. -/
  nesting : List ObjectId
  root : Option ObjectId
  /-- References to be linked, latest first. -/
  references : List (ObjectId × Metafeature × String)

def Replay.initial : Replay := ⟨default, [], [], none, []⟩

/-- Set or push a value, with its error as an error of the pass. -/
def assign (model : Model) (owner : ObjectId) (feature : Metafeature) (value : Value) :
    Except PassError Model :=
  (model.assign owner feature value).mapError PassError.model

def Replay.copy (replay : Replay) (object : ObjectId) : Except PassError ObjectId :=
  match replay.copies.lookup object with
  | some copy => .ok copy
  | none => .error (.unknownObject object)

/-- Create the copy of an object, inside the innermost open copy or else as the
root, unless there is a root already. -/
def Replay.enter (replay : Replay) (object : ObjectId) (metaclass : Metaclass)
    (feature : Option Metafeature) : Except PassError Replay :=
  let (copy, model) := replay.model.create metaclass
  let entered : Replay := { replay with
    model := model
    copies := (object, copy) :: replay.copies
    nesting := copy :: replay.nesting }
  match replay.nesting, feature with
  | parent :: _, some feature =>
      (assign model parent feature (.object copy)).map fun model =>
        { entered with model := model }
  | _, _ => .ok { entered with root := some (replay.root.getD copy) }

def Replay.apply (replay : Replay) : Event → Except PassError Replay
  | .enter object metaclass feature _ => replay.enter object metaclass feature
  | .attribute object feature value _ =>
      match replay.copy object with
      | .error error => .error error
      | .ok owner =>
          (assign replay.model owner feature value).map fun model =>
            { replay with model := model }
  | .reference object feature _ token _ =>
      (replay.copy object).map fun owner =>
        { replay with references := (owner, feature, token) :: replay.references }
  | .exit _ => .ok { replay with nesting := replay.nesting.tail }

/-! ## Linking -/

/-- The object that a token designates in the scope of its reference. -/
def target (model : Model) (separator : String) (owner : ObjectId)
    (feature : Metafeature) (token : String) : Except PassError ObjectId :=
  match Scope.containment Model.qualifiedName? model owner feature with
  | none => .error (.resolution (.noScope owner feature))
  | some scope =>
      match scope (QualifiedName.parse token separator) with
      | none => .error (.resolution (.unresolvedProxy owner feature token))
      | some target => .ok target

def link (separator : String) (model : Model) :
    ObjectId × Metafeature × String → Except PassError Model
  | (owner, feature, token) =>
      match target model separator owner feature token with
      | .error error => .error error
      | .ok target => assign model owner feature (.object target)

/-- The feature by which a relationship refers to the element that owns it. -/
def backReference? : Metaclass → Option Metafeature
  | .featureTyping => some .typedFeature
  | .redefinition => some .redefiningFeature
  | .subsetting => some .subsettingFeature
  | _ => none

/-- Give a relationship the reference to the element that owns it. -/
def restore (model : Model) (relationship : ObjectId) : Except PassError Model :=
  match model.owningRelatedElement? relationship,
      (model.metaclass? relationship).bind backReference? with
  | some owner, some feature =>
      (model.set relationship feature (.object owner)).mapError PassError.model
  | _, _ => .ok model

/-- Link all references and restore back-references in the tree of the root. -/
def finish (separator : String) (replay : Replay) : Except PassError (Model × ObjectId) :=
  match replay.root with
  | none => .error (.unknownObject ⟨0⟩)
  | some root =>
      match replay.references.reverse.foldlM (link separator) replay.model with
      | .error error => .error error
      | .ok linked =>
          ((linked.containmentTree root).foldlM restore linked).map fun model =>
            (model, root)

end Rebuild

/-- Rebuild the model and the root that a list of events describes. -/
def rebuild (events : List Event) (separator : String) :
    Except PassError (Model × ObjectId) :=
  match events.foldlM Rebuild.Replay.apply Rebuild.Replay.initial with
  | .error error => .error error
  | .ok replay => Rebuild.finish separator replay

end ModelText
