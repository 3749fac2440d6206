import ModelText.Scope.Containment

namespace ModelText

/-!
# Workspaces

The models that are open together, with the table of names they share.  A model
gets its identity when it is opened, namely its place in the workspace, so two
open models never share one, even if one was copied from the other.
-/

/-- The open models and the table of names seen last. -/
structure Workspace where
  models : Array Model
  names : NameCache

namespace Workspace

def initial : Workspace := ⟨#[Model.empty ⟨0⟩], .empty⟩

instance : Inhabited Workspace := ⟨initial⟩

def model? (workspace : Workspace) (place : Nat) : Option Model :=
  workspace.models[place]?

/-- Open a model at a new place, which becomes its identity. -/
def add (workspace : Workspace) (model : Model) : Nat × Workspace :=
  let place := workspace.models.size
  (place, { workspace with
    models := workspace.models.push { model with identity := ⟨place⟩ } })

/-- Replace the model at a place by a changed one.  It keeps its identity. -/
def update (workspace : Workspace) (place : Nat) (model : Model) : Workspace :=
  { workspace with
    models := workspace.models.setIfInBounds place { model with identity := ⟨place⟩ } }

/-- The containment scopes of a model over the shared table of its qualified
names. -/
def scopes (workspace : Workspace) (model : Model) : ScopeProvider × Workspace :=
  let (table, names) := workspace.names.table Model.qualifiedName? model
  (Scope.containmentOver table, { workspace with names := names })

end Workspace

end ModelText
