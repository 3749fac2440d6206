import ModelText.Graph.Navigation
import ModelText.Name.Qualified

namespace ModelText

/-!
# Names of elements

An element is known by its declared name.  A feature without one takes the name
of the feature that its first redefinition redefines, and so on along a chain of
redefinitions.  The qualified name of an element is the path of the names of its
owning namespaces; the namespace at the root of a model is anonymous in the
notation and no part of the path.
-/

namespace Model

def declaredName? (model : Model) (id : ObjectId) : Option String :=
  model.text? id .declaredName

/-- The feature from which an unnamed feature takes its name. -/
def namingFeature? (model : Model) (id : ObjectId) : Option ObjectId :=
  if model.isA id .feature then
    (model.ownedRedefinitions id).head?.bind model.redefinedFeature?
  else
    none

/-- The first declared name along a chain of redefinitions, looking at no more
than the given number of elements. -/
def nameAlongRedefinitions? (model : Model) : Nat → ObjectId → Option String
  | 0, _ => none
  | limit + 1, id =>
      match model.declaredName? id with
      | some name => some name
      | none =>
          (model.namingFeature? id).bind (nameAlongRedefinitions? model limit)

/-- The name of an element: its declared name, or for an unnamed feature the
name of the feature it redefines.  A chain longer than the model repeats a
feature and never comes to a name. -/
def effectiveName? (model : Model) (id : ObjectId) : Option String :=
  model.nameAlongRedefinitions? (model.objects.size + 1) id

/-- The name under which a membership makes its member visible. -/
def membershipName? (model : Model) (membership : ObjectId) : Option String :=
  match model.text? membership .memberName with
  | some name => some name
  | none => (model.memberElement? membership).bind model.effectiveName?

/-- The named members of a namespace, in the order of its memberships. -/
def namedMembers (model : Model) (namespaceId : ObjectId) : List (String × ObjectId) :=
  (model.ownedMemberships namespaceId).filterMap fun membership =>
    match model.memberElement? membership, model.membershipName? membership with
    | some member, some name => some (name, member)
    | _, _ => none

/-! ## Qualified names -/

/-- Whether an element is the anonymous namespace at the root of a model. -/
def isRootNamespace (model : Model) (id : ObjectId) : Bool :=
  (model.owningNamespace? id).isNone && (model.container? id).isNone

/-- Prepend the names of the namespaces around an element to a path, for at
most the given number of namespaces.  There is no path through an unnamed
namespace. -/
def qualify (model : Model) : Nat → ObjectId → List String → Option (List String)
  | 0, _, _ => none
  | limit + 1, id, path =>
      match model.owningNamespace? id with
      | none => some path
      | some owner =>
          if model.isRootNamespace owner then
            some path
          else
            match model.effectiveName? owner with
            | none => none
            | some name => qualify model limit owner (name :: path)

/-- The path of an element from the root of its model. -/
def qualifiedName? (model : Model) (id : ObjectId) : Option QualifiedName :=
  match model.effectiveName? id with
  | none => none
  | some name => (model.qualify (model.objects.size + 1) id [name]).map QualifiedName.mk

end Model

/-- A way to give elements qualified names. -/
abbrev NameProvider := Model → ObjectId → Option QualifiedName

end ModelText
