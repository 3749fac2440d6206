import ModelText.Name.Effective
import ModelText.Scope.Table

namespace ModelText

/-!
# Scopes of the containment tree

At the place of a cross reference every element is visible under its qualified
name.  The members of each namespace around the referring object are visible by
their simple names too, inner namespaces shadowing outer ones.  Other features
have no scope.

The table of qualified names depends on the model alone.  A name cache keeps the
table of the model it saw last and hands it out again while that model stays at
the same revision.
-/

/-- The scope of a reference: the model, the referring object and its feature. -/
abbrev ScopeProvider := Model → ObjectId → Metafeature → Option Scope

namespace Scope

/-- The qualified names of all elements of a model. -/
def globalTable (names : NameProvider) (model : Model) : NameTable :=
  .ofList <| model.ids.filterMap fun id => (names model id).map fun name => (name, id)

/-- The simple names of the members of a namespace. -/
def memberTable (model : Model) (namespaceId : ObjectId) : NameTable :=
  .ofList <| (model.namedMembers namespaceId).map fun (name, member) =>
    (QualifiedName.simple name, member)

/-- The tables of the namespaces around an object, innermost first. -/
def layers (model : Model) (source : ObjectId) : List NameTable :=
  ((model.containerChain source).filter (model.isA · .nameSpace)).map (memberTable model)

/-- The innermost layer that binds a name decides; a name that no layer binds is
looked up in the outer table. -/
def layered (layers : List NameTable) (outer : NameTable) : Scope := fun name =>
  match layers.findSome? fun layer => layer.binding? name with
  | some binding => binding.target?
  | none => outer.lookup? name

/-- Whether a feature of an object is a cross reference that its metaclass has. -/
def isReferencePosition (model : Model) (source : ObjectId) (reference : Metafeature) :
    Bool :=
  reference.storage == .crossReference &&
    (model.metaclass? source).any fun metaclass => metaclass.hasFeature reference

/-- The scope of a reference over a given table of qualified names. -/
def containmentOver (table : NameTable) : ScopeProvider := fun model source reference =>
  if isReferencePosition model source reference then
    some (layered (layers model source) table)
  else
    none

/-- The scope of a reference over the qualified names of its model. -/
def containment (names : NameProvider) : ScopeProvider := fun model source reference =>
  containmentOver (globalTable names model) model source reference

end Scope

/-! ## The name cache -/

/-- The table of qualified names of one model at one revision. -/
structure CachedNames where
  model : ModelId
  revision : Nat
  table : NameTable

/-- The table seen last, if any. -/
structure NameCache where
  last : Option CachedNames

namespace NameCache

def empty : NameCache := ⟨none⟩

instance : Inhabited NameCache := ⟨empty⟩

/-- The cached table, if it was made for this model at this revision. -/
def hit? (cache : NameCache) (model : Model) : Option NameTable :=
  (cache.last.filter fun cached =>
    cached.model == model.identity && cached.revision == model.revision).map
      CachedNames.table

/-- The table of qualified names of a model, and the cache that remembers it. -/
def table (cache : NameCache) (names : NameProvider) (model : Model) :
    NameTable × NameCache :=
  match cache.hit? model with
  | some table => (table, cache)
  | none =>
      let table := Scope.globalTable names model
      (table, ⟨some ⟨model.identity, model.revision, table⟩⟩)

/-- The scope of a reference through the cache.  Positions without a scope leave
the cache alone. -/
def scopeFor? (cache : NameCache) (names : NameProvider) (model : Model)
    (source : ObjectId) (reference : Metafeature) : Option Scope × NameCache :=
  if Scope.isReferencePosition model source reference then
    let (table, next) := cache.table names model
    (Scope.containmentOver table model source reference, next)
  else
    (none, cache)

end NameCache

end ModelText
