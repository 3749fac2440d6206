import ModelText.Metamodel.Schema
import ModelText.Graph.Value

namespace ModelText

/-!
# Models

A model is a list of objects in the order of creation.  An object knows its
metaclass, the slots written so far, and the object and containment feature
that contain it.  A model also carries an identity and a revision, which let a
reader tell whether it has already seen the model in its present state, and the
text a parser recorded for references.
-/

/-- An object together with the containment that holds it. -/
structure Object where
  id : ObjectId
  metaclass : Metaclass
  slots : Slots
  container : Option (ObjectId × Metafeature)
  deriving DecidableEq, Inhabited

/-- The place of one reference value: its object, feature and index. -/
structure ReferenceSite where
  source : ObjectId
  feature : Metafeature
  index : Nat
  deriving DecidableEq

/-- The identity of a model; no two models of one workspace share it. -/
structure ModelId where
  number : Nat
  deriving DecidableEq, Inhabited

/-- An object graph. -/
structure Model where
  identity : ModelId
  revision : Nat
  objects : Array Object
  sourceTokens : List (ReferenceSite × String)
  deriving DecidableEq

namespace Model

def empty (identity : ModelId) : Model := ⟨identity, 0, #[], []⟩

instance : Inhabited Model := ⟨empty default⟩

/-! ## Objects -/

/-- The object with an id, if it exists. -/
def get? (model : Model) (id : ObjectId) : Option Object :=
  model.objects[id.index]?

/-- The ids of all objects, in the order of creation. -/
def ids (model : Model) : List ObjectId :=
  (List.range model.objects.size).map ObjectId.mk

def metaclass? (model : Model) (id : ObjectId) : Option Metaclass :=
  (model.get? id).map Object.metaclass

/-- Whether an object exists and is an instance of a metaclass or of one of its
subtypes. -/
def isA (model : Model) (id : ObjectId) (general : Metaclass) : Bool :=
  (model.metaclass? id).any fun metaclass => metaclass.isA general

/-! ## Stored values -/

def slot? (model : Model) (owner : ObjectId) (feature : Metafeature) : Option Slot :=
  (model.get? owner).bind fun object => object.slots.get? feature

/-- The stored values of a feature, none when it was never written. -/
def values (model : Model) (owner : ObjectId) (feature : Metafeature) : List Value :=
  ((model.slot? owner feature).map Slot.values).getD []

/-- The first stored value of a feature. -/
def value? (model : Model) (owner : ObjectId) (feature : Metafeature) : Option Value :=
  (model.values owner feature).head?

/-- The objects a feature holds, leaving out proxies and primitive values. -/
def objectValues (model : Model) (owner : ObjectId) (feature : Metafeature) :
    List ObjectId :=
  (model.values owner feature).filterMap Value.object?

/-- The text of a feature whose first value is a text. -/
def text? (model : Model) (owner : ObjectId) (feature : Metafeature) : Option String :=
  (model.value? owner feature).bind Value.text?

/-- The text a parser recorded for a reference. -/
def sourceToken? (model : Model) (site : ReferenceSite) : Option String :=
  model.sourceTokens.lookup site

/-! ## Containment -/

/-- The object and the feature that contain an object. -/
def containment? (model : Model) (id : ObjectId) : Option (ObjectId × Metafeature) :=
  (model.get? id).bind Object.container

def container? (model : Model) (id : ObjectId) : Option ObjectId :=
  (model.containment? id).map Prod.fst

/-- The feature through which an object is contained. -/
def containingFeature? (model : Model) (id : ObjectId) : Option Metafeature :=
  (model.containment? id).map Prod.snd

/-- The objects without a container. -/
def roots (model : Model) : List ObjectId :=
  (model.objects.toList.filter fun object => object.container.isNone).map Object.id

/-- The objects an object contains, in the order of its containment features. -/
def contents (model : Model) (id : ObjectId) : List ObjectId :=
  match model.metaclass? id with
  | none => []
  | some metaclass =>
      (metaclass.features.filter fun feature => feature.storage == .containment).flatMap
        (model.objectValues id)

/-- Climbs from an object along containers, the object first, for at most the
given number of objects. -/
def climb (model : Model) : Nat → ObjectId → List ObjectId
  | 0, _ => []
  | limit + 1, id =>
      match model.container? id with
      | none => [id]
      | some owner => id :: climb model limit owner

/-- An object followed by the objects that contain it, innermost first.  No
chain of containers is longer than the model. -/
def containerChain (model : Model) (id : ObjectId) : List ObjectId :=
  model.climb (model.objects.size + 1) id

/-- Visits pending objects front to back, the contents of each before what was
pending behind it, for at most the given number of visits. -/
def visit (model : Model) : Nat → List ObjectId → List ObjectId
  | 0, _ => []
  | _ + 1, [] => []
  | limit + 1, id :: pending => id :: visit model limit (model.contents id ++ pending)

/-- A root followed by everything it contains, in pre-order.  No tree has more
objects than the model, one unknown root aside. -/
def containmentTree (model : Model) (root : ObjectId) : List ObjectId :=
  model.visit (model.objects.size + 1) [root]

end Model

end ModelText
