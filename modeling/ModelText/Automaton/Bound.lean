namespace ModelText

/-!
# Upper bounds

How often a feature can be assigned: at most a finite number of times, or
without limit.  Finite bounds fit in 32 bits; counting one more than the largest
gives up and allows any number.
-/

/-- An upper bound on a number of values. -/
inductive Bound where
  | finite (limit : Nat)
  | unbounded
  deriving DecidableEq, Inhabited

namespace Bound

def zero : Bound := .finite 0

def finiteCount : Nat := Nat.pow 2 32

/-- The bound that allows one value more. -/
def succ : Bound → Bound
  | .finite limit => if limit + 1 < finiteCount then .finite (limit + 1) else .unbounded
  | .unbounded => .unbounded

def finite? : Bound → Option Nat
  | .finite limit => some limit
  | .unbounded => none

def isUnbounded : Bound → Bool
  | .finite _ => false
  | .unbounded => true

def admits : Bound → Nat → Bool
  | .finite limit, count => count ≤ limit
  | .unbounded, _ => true

/-- Whether the bound admits a list of values. -/
def allowsMany (bound : Bound) : Bool := bound.admits 2

/-- The order of bounds; no finite bound reaches the unbounded one. -/
def compare : Bound → Bound → Ordering
  | .finite left, .finite right => Ord.compare left right
  | .finite _, .unbounded => .lt
  | .unbounded, .finite _ => .gt
  | .unbounded, .unbounded => .eq

def max : Bound → Bound → Bound
  | .finite left, .finite right => .finite (Nat.max left right)
  | _, _ => .unbounded

def display : Bound → String
  | .finite limit => toString limit
  | .unbounded => "*"

theorem admits_max (left right : Bound) (count : Nat) :
    (left.max right).admits count = (left.admits count || right.admits count) := by
  cases left with
  | unbounded => cases right <;> simp [max, admits]
  | finite leftLimit =>
      cases right with
      | unbounded => simp [max, admits]
      | finite rightLimit =>
          rw [Bool.eq_iff_iff]
          simp only [max, admits, Bool.or_eq_true, decide_eq_true_eq]
          change count ≤ Max.max leftLimit rightLimit ↔ _
          omega

end Bound

end ModelText
