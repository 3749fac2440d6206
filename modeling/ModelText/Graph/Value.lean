import ModelText.Metamodel.Metafeature

namespace ModelText

/-!
# Values

What a feature of an object can hold: a primitive value, a bound reference to
an object of the same model, or a proxy, which is a reference known only by its
text.  A slot holds a single value or an ordered list of values.
-/

/-- The direction of a feature relative to its owning type. -/
inductive Direction where
  | into
  | out
  | inOut
  deriving DecidableEq, Inhabited

namespace Direction

def all : List Direction := [.into, .out, .inOut]

def keyword : Direction → String
  | .into => "in"
  | .out => "out"
  | .inOut => "inout"

def ofKeyword? (keyword : String) : Option Direction :=
  all.find? fun candidate => candidate.keyword == keyword

/-- Values flow in through a feature of this direction. -/
def isInput : Direction → Bool
  | .into => true
  | .out => false
  | .inOut => true

end Direction

/-- An object of a model, named by its position in the order of creation. -/
structure ObjectId where
  index : Nat
  deriving DecidableEq, Inhabited

namespace ObjectId

/-- An object id as messages write it. -/
def label (id : ObjectId) : String := "#" ++ toString id.index

end ObjectId

/-- A single value of a feature. -/
inductive Value where
  | bool (value : Bool)
  | int (value : Int)
  | text (value : String)
  | direction (value : Direction)
  | object (target : ObjectId)
  | proxy (text : String)
  deriving DecidableEq, Inhabited

namespace Value

def object? : Value → Option ObjectId
  | .object target => some target
  | _ => none

def text? : Value → Option String
  | .text value => some value
  | _ => none

def bool? : Value → Option Bool
  | .bool value => some value
  | _ => none

def direction? : Value → Option Direction
  | .direction value => some value
  | _ => none

/-- Whether the value points at an object, bound or not. -/
def isReference : Value → Bool
  | .object _ => true
  | .proxy _ => true
  | _ => false

theorem object?_eq_some_iff (value : Value) (target : ObjectId) :
    value.object? = some target ↔ value = .object target := by
  cases value <;> simp [object?]

theorem object?_eq_none_iff (value : Value) :
    value.object? = none ↔ ∀ target, value ≠ .object target := by
  simp only [Option.eq_none_iff_forall_ne_some, ne_eq, object?_eq_some_iff]

end Value

/-- The stored state of one feature of one object. -/
inductive Slot where
  | single (value : Value)
  | many (values : List Value)
  deriving DecidableEq, Inhabited

namespace Slot

def values : Slot → List Value
  | .single value => [value]
  | .many values => values

def isMany : Slot → Bool
  | .single _ => false
  | .many _ => true

end Slot

/-!
## Slots of an object

One optional slot per metafeature.  Two slot tables are equal exactly when they
agree on every feature, whatever order their slots were written in.
-/

structure Slots where
  cells : Vector (Option Slot) Metafeature.count
  deriving DecidableEq

namespace Slots

/-- No feature holds a slot. -/
def empty : Slots := ⟨Vector.replicate Metafeature.count none⟩

instance : Inhabited Slots := ⟨empty⟩

/-- The slot of a feature, if the feature was written. -/
def get? (slots : Slots) (feature : Metafeature) : Option Slot :=
  have _inRange := feature.position_lt_count
  slots.cells[feature.position]

def put (slots : Slots) (feature : Metafeature) (slot : Slot) : Slots :=
  ⟨slots.cells.set feature.position (some slot) feature.position_lt_count⟩

@[simp] theorem get?_empty (feature : Metafeature) : empty.get? feature = none := by
  simp [get?, empty]

@[simp] theorem get?_put_self (slots : Slots) (feature : Metafeature) (slot : Slot) :
    (slots.put feature slot).get? feature = some slot := by
  simp [get?, put]

theorem get?_put_of_ne (slots : Slots) {written read : Metafeature} (slot : Slot)
    (different : read ≠ written) :
    (slots.put written slot).get? read = slots.get? read := by
  have apart : written.position ≠ read.position := fun same =>
    different (Metafeature.position_injective same).symm
  simp [get?, put, Vector.getElem_set_ne _ _ apart]

theorem ext_get? {left right : Slots}
    (agree : ∀ feature, left.get? feature = right.get? feature) : left = right := by
  cases left with
  | mk leftCells =>
    cases right with
    | mk rightCells =>
      congr 1
      apply Vector.ext
      intro position inRange
      have found := Metafeature.position_getElem_all ⟨position, inRange⟩
      have agreed := agree (Metafeature.all.get ⟨position, inRange⟩)
      simp only [get?, List.get_eq_getElem] at agreed
      simp only [Fin.getElem_fin] at found
      simpa only [found] using agreed

end Slots

end ModelText
