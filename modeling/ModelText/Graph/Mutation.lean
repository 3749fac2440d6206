import ModelText.Graph.Model

namespace ModelText

/-!
# Changing a model

Objects are created without slots.  A single-valued feature is set and a
many-valued feature grows by pushing; both refuse what the abstract syntax or
the containment forest forbids and then leave the model as it was.  Writing an
object into a containment feature records the back-pointer in the same step.
Every creation and every write counts as one revision.  Recorded source tokens
do not, because they are not part of the graph.
-/

/-- Why a write was refused. -/
inductive ModelError where
  | unknownObject (object : ObjectId)
  | featureNotOnClass (metaclass : Metaclass) (feature : Metafeature)
  | derivedFeature (feature : Metafeature)
  | containerFeature (feature : Metafeature)
  | wrongMultiplicity (feature : Metafeature) (many : Bool)
  | notAnObject (feature : Metafeature)
  | alreadyContained (object : ObjectId)
  | containmentCycle (owner child : ObjectId)
  deriving DecidableEq

namespace ModelError

def message : ModelError → String
  | .unknownObject object => "object not found: " ++ object.label
  | .featureNotOnClass metaclass feature =>
      "class " ++ metaclass.name ++ " has no feature " ++ feature.label
  | .derivedFeature feature =>
      "feature " ++ feature.label ++ " is derived and cannot be stored"
  | .containerFeature feature =>
      "feature " ++ feature.label
        ++ " is a container back-pointer; set the containment instead"
  | .wrongMultiplicity feature many =>
      "feature " ++ feature.label ++ " is " ++ (if many then "many" else "single")
        ++ "-valued"
  | .notAnObject feature => "containment " ++ feature.label ++ " requires an object value"
  | .alreadyContained object => "object " ++ object.label ++ " already has a container"
  | .containmentCycle owner child =>
      "containing " ++ child.label ++ " in " ++ owner.label
        ++ " would create a containment cycle"

end ModelError

namespace Model

/-! ## What is refused -/

/-- The first reason not to contain a value in an object: it must be an existing
object without a container, and neither the owner nor an object around it. -/
def adoptionFault? (model : Model) (owner : ObjectId) (feature : Metafeature)
    (value : Value) : Option ModelError :=
  match value.object? with
  | none => some (.notAnObject feature)
  | some child =>
      match model.get? child with
      | none => some (.unknownObject child)
      | some object =>
          if object.container.isSome then
            some (.alreadyContained child)
          else if (model.containerChain owner).contains child then
            some (.containmentCycle owner child)
          else
            none

/-- The first reason not to write a value to a feature, where `many` tells a
push from a set. -/
def writeFault? (model : Model) (many : Bool) (owner : ObjectId) (feature : Metafeature)
    (value : Value) : Option ModelError :=
  match model.metaclass? owner with
  | none => some (.unknownObject owner)
  | some metaclass =>
      if !metaclass.hasFeature feature then
        some (.featureNotOnClass metaclass feature)
      else if feature.isDerived then
        some (.derivedFeature feature)
      else if feature.storage == .container then
        some (.containerFeature feature)
      else if feature.isMany != many then
        some (.wrongMultiplicity feature feature.isMany)
      else if feature.storage == .containment then
        model.adoptionFault? owner feature value
      else
        none

/-! ## Changes -/

/-- A new object of a metaclass, with its id. -/
def create (model : Model) (metaclass : Metaclass) : ObjectId × Model :=
  let id : ObjectId := ⟨model.objects.size⟩
  (id, { model with
    revision := model.revision + 1
    objects := model.objects.push ⟨id, metaclass, .empty, none⟩ })

/-- Change one object and leave the others as they are. -/
def modify (model : Model) (id : ObjectId) (change : Object → Object) : Model :=
  { model with objects := model.objects.modify id.index change }

/-- Record the back-pointer of an object written into a containment feature. -/
def contain (model : Model) (owner : ObjectId) (feature : Metafeature) (value : Value) :
    Model :=
  match feature.storage, value with
  | .containment, .object child =>
      model.modify child fun object => { object with container := some (owner, feature) }
  | _, _ => model

/-- Replace a slot and count a revision, unless the write has a fault. -/
def write (model : Model) (many : Bool) (owner : ObjectId) (feature : Metafeature)
    (value : Value) (slot : Slot) : Except ModelError Model :=
  match model.writeFault? many owner feature value with
  | some fault => .error fault
  | none =>
      let contained := model.contain owner feature value
      .ok { contained.modify owner fun object =>
              { object with slots := object.slots.put feature slot } with
            revision := model.revision + 1 }

def set (model : Model) (owner : ObjectId) (feature : Metafeature) (value : Value) :
    Except ModelError Model :=
  model.write false owner feature value (.single value)

def push (model : Model) (owner : ObjectId) (feature : Metafeature) (value : Value) :
    Except ModelError Model :=
  model.write true owner feature value (.many (model.values owner feature ++ [value]))

/-- Set or push, as the feature requires. -/
def assign (model : Model) (owner : ObjectId) (feature : Metafeature) (value : Value) :
    Except ModelError Model :=
  if feature.isMany then model.push owner feature value else model.set owner feature value

/-- Record the text a parser saw for a reference, replacing what was recorded
for it before. -/
def recordSourceToken (model : Model) (site : ReferenceSite) (token : String) : Model :=
  { model with
    sourceTokens := (site, token) :: model.sourceTokens.filter fun entry => entry.1 != site }

/-- Forget every recorded source token. -/
def detachSource (model : Model) : Model :=
  { model with sourceTokens := [] }

/-! ## Reachable models -/

/-- The models that arise from an empty model by creation, accepted writes and
changes to source tokens. -/
inductive Reachable : Model → Prop where
  | empty (identity : ModelId) : Reachable (Model.empty identity)
  | create {model : Model} (metaclass : Metaclass) :
      Reachable model → Reachable (model.create metaclass).2
  | set {model next : Model} {owner : ObjectId} {feature : Metafeature} {value : Value} :
      Reachable model → model.set owner feature value = .ok next → Reachable next
  | push {model next : Model} {owner : ObjectId} {feature : Metafeature} {value : Value} :
      Reachable model → model.push owner feature value = .ok next → Reachable next
  | recordSourceToken {model : Model} (site : ReferenceSite) (token : String) :
      Reachable model → Reachable (model.recordSourceToken site token)
  | detachSource {model : Model} : Reachable model → Reachable model.detachSource

end Model

end ModelText
