import ModelText.Graph.Value
import ModelText.Name.Qualified

namespace ModelText

/-!
# Name tables

A scope answers which object a qualified name designates, if it designates
exactly one.  A name table is a scope given by bindings.  A name bound to a
second object becomes ambiguous and designates nothing, and shadowing by an
inner table replaces the bindings of every name the inner table binds.
-/

/-- The unique object that a name designates at some position. -/
abbrev Scope := QualifiedName → Option ObjectId

/-- Whether a scope maps a name to the given object and nothing else. -/
def Scope.designates (scope : Scope) (name : QualifiedName) (target : ObjectId) : Bool :=
  scope name == some target

/-- What a name is bound to. -/
inductive Binding where
  | unique (target : ObjectId)
  | ambiguous
  deriving DecidableEq

namespace Binding

def target? : Binding → Option ObjectId
  | .unique target => some target
  | .ambiguous => none

/-- A binding after a further object was bound to its name. -/
def extend (binding : Binding) (target : ObjectId) : Binding :=
  if binding = .unique target then binding else .ambiguous

end Binding

/-- Bindings of distinct names. -/
structure NameTable where
  entries : List (QualifiedName × Binding)
  deriving DecidableEq

namespace NameTable

def empty : NameTable := ⟨[]⟩

instance : Inhabited NameTable := ⟨empty⟩

/-- The number of names that are bound, ambiguous ones included. -/
def size (table : NameTable) : Nat := table.entries.length

def isEmpty (table : NameTable) : Bool := table.entries.isEmpty

def binding? (table : NameTable) (name : QualifiedName) : Option Binding :=
  table.entries.lookup name

/-- Bind a name and forget what it was bound to. -/
def bind (table : NameTable) (name : QualifiedName) (binding : Binding) : NameTable :=
  ⟨(name, binding) :: table.entries.filter fun entry => entry.1 != name⟩

/-- Bind a name to an object in addition to what it is bound to. -/
def insert (table : NameTable) (name : QualifiedName) (target : ObjectId) : NameTable :=
  match table.binding? name with
  | none => table.bind name (.unique target)
  | some binding => table.bind name (binding.extend target)

def ofList (pairs : List (QualifiedName × ObjectId)) : NameTable :=
  pairs.foldl (fun table pair => table.insert pair.1 pair.2) empty

/-- Replace the bindings of every name that the inner table binds. -/
def shadowWith (table inner : NameTable) : NameTable :=
  inner.entries.foldr (fun entry outer => outer.bind entry.1 entry.2) table

/-- The object that a name designates in the table. -/
def lookup? (table : NameTable) (name : QualifiedName) : Option ObjectId :=
  (table.binding? name).bind Binding.target?

def scope (table : NameTable) : Scope := table.lookup?

/-! ## Bindings after one operation -/

@[simp] theorem binding?_empty (name : QualifiedName) : empty.binding? name = none := rfl

@[simp] theorem binding?_bind_self (table : NameTable) (name : QualifiedName)
    (binding : Binding) : (table.bind name binding).binding? name = some binding := by
  simp [bind, binding?]

theorem lookup_filter_ne {name other : QualifiedName} (different : other ≠ name)
    (entries : List (QualifiedName × Binding)) :
    (entries.filter fun entry => entry.1 != name).lookup other = entries.lookup other := by
  induction entries with
  | nil => rfl
  | cons entry rest hypothesis =>
      obtain ⟨key, binding⟩ := entry
      by_cases same : key = name
      · subst same
        simp [List.lookup_cons, hypothesis, beq_false_of_ne different]
      · simp [same, List.lookup_cons, hypothesis]

theorem binding?_bind_of_ne (table : NameTable) {name other : QualifiedName}
    (binding : Binding) (different : other ≠ name) :
    (table.bind name binding).binding? other = table.binding? other := by
  simp [bind, binding?, List.lookup_cons, beq_false_of_ne different,
    lookup_filter_ne different]

end NameTable

end ModelText
