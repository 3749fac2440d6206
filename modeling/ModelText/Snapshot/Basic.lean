import ModelText.Name.Effective
import ModelText.Options

namespace ModelText

/-!
# Snapshots

A snapshot records a containment tree without naming its objects: class and
attribute values of each object in pre-order, and for every reference the
positions of its targets.  A target outside the tree is recorded by a name that
does not depend on the model, and an unbound reference by its text.
-/

/-- The target of a reference as a snapshot sees it. -/
inductive Target where
  /-- An object of the tree, by its position. -/
  | numbered (number : Nat)
  /-- An object outside the tree. -/
  | external (identity : String)
  /-- A reference that is not bound. -/
  | unresolved (text : String)
  deriving DecidableEq

namespace Target

def display : Target → String
  | .numbered number => "<" ++ toString number ++ ">"
  | .external identity => "<external " ++ identity ++ ">"
  | .unresolved text => "<'" ++ text ++ "'>"

/-- How an object outside the tree is told from others: by its qualified name, or
else by its class and its effective name. -/
def externalIdentity (model : Model) (id : ObjectId) : String :=
  match model.qualifiedName? id with
  | some name => name.display
  | none =>
      match model.metaclass? id, model.effectiveName? id with
      | some metaclass, some name => metaclass.name ++ " " ++ name
      | some metaclass, none => metaclass.name
      | none, _ => "<missing>"

/-- The target of a value, for the objects and proxies among values. -/
def of? (model : Model) (tree : List ObjectId) : Value → Option Target
  | .object id =>
      match tree.idxOf? id with
      | some number => some (.numbered number)
      | none => some (.external (externalIdentity model id))
  | .proxy text => some (.unresolved text)
  | _ => none

end Target

/-- The recorded state of one object. -/
structure ObjectRecord where
  number : Nat
  metaclass : Metaclass
  attributes : List (Metafeature × Option Value)
  references : List (Metafeature × List Target)
  deriving DecidableEq

/-- The recorded state of a tree, in pre-order. -/
structure Snapshot where
  objects : List ObjectRecord
  deriving DecidableEq

/-- Why no snapshot was taken. -/
inductive SnapshotError where
  | unsupportedFeatureShape (object : ObjectId) (feature : Metafeature)
  | unknownObject (object : ObjectId)
  deriving DecidableEq

namespace SnapshotError

def message : SnapshotError → String
  | .unsupportedFeatureShape object feature =>
      "snapshotting many-valued attribute " ++ feature.label ++ " of " ++ object.label
        ++ " is not supported"
  | .unknownObject object => "object " ++ object.label ++ " is not part of the model"

end SnapshotError

/-! ## Taking a snapshot -/

namespace ObjectRecord

/-- The features of a metaclass that a snapshot records. -/
def recordedFeatures (ignored : List Metafeature) (metaclass : Metaclass) :
    List Metafeature :=
  metaclass.features.filter fun feature => !feature.isDerived && !ignored.contains feature

/-- The object around an object, as the value of the matching back-pointer. -/
def containerValue? (model : Model) (object : ObjectId) :
    Metafeature → Option Value
  | .owningRelationship => (model.owningRelationship? object).map Value.object
  | .owningRelatedElement => (model.owningRelatedElement? object).map Value.object
  | _ => none

/-- The values of a reference feature, read off the container for back-pointers. -/
def referenceValues (model : Model) (object : ObjectId) (feature : Metafeature) :
    List Value :=
  if feature.storage == .container then
    (containerValue? model object feature).toList
  else
    model.values object feature

/-- The state of an object of a known metaclass. -/
def ofClass (model : Model) (tree : List ObjectId) (ignored : List Metafeature)
    (object : ObjectId) (number : Nat) (metaclass : Metaclass) :
    Except SnapshotError ObjectRecord :=
  let recorded := recordedFeatures ignored metaclass
  let attributes := recorded.filter fun feature => feature.storage == .attribute
  let references := recorded.filter fun feature => feature.storage != .attribute
  match attributes.find? Metafeature.isMany with
  | some feature => .error (.unsupportedFeatureShape object feature)
  | none => .ok
      { number := number
        metaclass := metaclass
        attributes := attributes.map fun feature => (feature, model.value? object feature)
        references := references.map fun feature =>
          (feature, (referenceValues model object feature).filterMap (Target.of? model tree)) }

/-- The state of an object at a position of the tree. -/
def capture (model : Model) (tree : List ObjectId) (ignored : List Metafeature)
    (object : ObjectId) (number : Nat) : Except SnapshotError ObjectRecord :=
  match model.metaclass? object with
  | none => .error (.unknownObject object)
  | some metaclass => ofClass model tree ignored object number metaclass

end ObjectRecord

namespace Snapshot

/-- The objects of a tree with their positions. -/
def numbering (model : Model) (root : ObjectId) : List (ObjectId × Nat) :=
  (model.containmentTree root).zipIdx

/-- Record the tree of a root, leaving out some features. -/
def captureIgnoring (ignored : List Metafeature) (model : Model) (root : ObjectId) :
    Except SnapshotError Snapshot :=
  if (model.get? root).isNone then
    .error (.unknownObject root)
  else
    let tree := model.containmentTree root
    (tree.zipIdx.mapM fun (object, number) =>
      ObjectRecord.capture model tree ignored object number).map Snapshot.mk

/-- Record the tree of a root, leaving out identifiers. -/
def capture (model : Model) (root : ObjectId) : Except SnapshotError Snapshot :=
  captureIgnoring Options.standardIgnoredFeatures model root

end Snapshot

end ModelText
