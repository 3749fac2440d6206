import ModelText.Automaton.Basic

namespace ModelText

/-!
# Components by low links

Tarjan's search for strongly connected components.  States are numbered in the order
they are entered and stay on a stack until their component is known.  The low link of a
state is the lowest number on the stack that the state is known to lead to; a state that
keeps its own number as low link when it is left is the lowest of its component, and the
component is what stands on the stack from there.

The recursion is unrolled into frames: a state that is being searched, and the position
of the follower to look at next.  Low links are passed on when a frame is taken off.
Reads and writes of marks are strict: a position outside the array has no result.
Neither has a search from a root that is not over after the turns it is given.
-/

namespace Automaton

/-- What the search has noted for a state: its number once it was entered, its low link,
and whether it stands on the stack. -/
structure Mark where
  number : Option Nat
  lowLink : Nat
  onStack : Bool
  deriving DecidableEq, Inhabited

namespace Mark

def blank : Mark := ⟨none, 0, false⟩

/-- The mark with its low link lowered to a number, if that is lower. -/
def lower (mark : Mark) (number : Nat) : Mark :=
  { mark with lowLink := min mark.lowLink number }

/-- The mark of a state taken off the stack. -/
def takeOff (mark : Mark) : Mark := { mark with onStack := false }

def change? (marks : Array Mark) (id : StateId) (change : Mark → Mark) :
    Option (Array Mark) :=
  marks[id]?.map fun mark => marks.setIfInBounds id (change mark)

end Mark

structure Traversal where
  marks : Array Mark
  /-- States without a component, latest first. -/
  stack : List StateId
  /-- States being searched, latest first, each with the position of its next follower. -/
  frames : List (StateId × Nat)
  /-- The number of the state to be entered next. -/
  next : Nat
  /-- The components found, latest first. -/
  found : List (List StateId)

namespace Traversal

def initial (automaton : Automaton) : Traversal where
  marks := Array.replicate automaton.size .blank
  stack := []
  frames := []
  next := 0
  found := []

/-- Number a state, as its own low link, and put it on the stack and into a frame. -/
def enter? (traversal : Traversal) (id : StateId) : Option Traversal := do
  let marks ← Mark.change? traversal.marks id fun _ =>
    ⟨some traversal.next, traversal.next, true⟩
  some { traversal with
    marks := marks
    stack := id :: traversal.stack
    frames := (id, 0) :: traversal.frames
    next := traversal.next + 1 }

def lower? (traversal : Traversal) (id : StateId) (number : Nat) : Option Traversal := do
  let marks ← Mark.change? traversal.marks id fun mark => mark.lower number
  some { traversal with marks := marks }

/-- Look at a follower of a state.  A follower that does not exist is passed over, and so
is one whose component is known. -/
def follow? (automaton : Automaton) (traversal : Traversal) (id follower : StateId) :
    Option Traversal :=
  if automaton.size ≤ follower then
    some traversal
  else do
    let mark ← traversal.marks[follower]?
    match mark.number with
    | none => traversal.enter? follower
    | some number => if mark.onStack then traversal.lower? id number else some traversal

/-- Pass the low link of a state on to the state whose frame is on top. -/
def passOn? (traversal : Traversal) (id : StateId) : Option Traversal :=
  match traversal.frames with
  | [] => some traversal
  | (parent, _) :: _ => do
      let mark ← traversal.marks[id]?
      traversal.lower? parent mark.lowLink

/-- Take states off a stack, the given state last: the states taken, the rest of the
stack and the marks. -/
def popThrough? (id : StateId) : List StateId → Array Mark →
    Option (List StateId × List StateId × Array Mark)
  | [], marks => some ([], [], marks)
  | member :: stack, marks => do
      let marks ← Mark.change? marks member Mark.takeOff
      if member = id then
        some ([member], stack, marks)
      else
        let (component, stack, marks) ← popThrough? id stack marks
        some (member :: component, stack, marks)

/-- Take the component of its lowest state off the stack. -/
def close? (traversal : Traversal) (id : StateId) : Option Traversal := do
  let (component, stack, marks) ← popThrough? id traversal.stack traversal.marks
  some { traversal with
    marks := marks
    stack := stack
    found := component :: traversal.found }

/-- Leave a state whose frame was taken off. -/
def leave? (traversal : Traversal) (id : StateId) : Option Traversal := do
  let traversal ← traversal.passOn? id
  let mark ← traversal.marks[id]?
  if mark.number = some mark.lowLink then traversal.close? id else some traversal

/-- One turn of the search, with the top frame and the frames below it. -/
def turn? (automaton : Automaton) (traversal : Traversal) (frame : StateId × Nat)
    (frames : List (StateId × Nat)) : Option Traversal := do
  let state ← automaton.state? frame.1
  match state.followers[frame.2]? with
  | some follower =>
      follow? automaton { traversal with frames := (frame.1, frame.2 + 1) :: frames }
        frame.1 follower
  | none => leave? { traversal with frames := frames } frame.1

/-- Search until no frame is left, which may take at most the given number of turns. -/
def explore? (automaton : Automaton) : Nat → Traversal → Option Traversal
  | limit, traversal =>
      match traversal.frames, limit with
      | [], _ => some traversal
      | _ :: _, 0 => none
      | frame :: frames, limit + 1 => do
          let turned ← turn? automaton traversal frame frames
          explore? automaton limit turned

/-- Search from a state, unless it was entered. -/
def tryRoot? (automaton : Automaton) (limit : Nat) (traversal : Traversal) (root : StateId) :
    Option Traversal := do
  let mark ← traversal.marks[root]?
  match mark.number with
  | some _ => some traversal
  | none => do
      let entered ← traversal.enter? root
      entered.explore? automaton limit

end Traversal

/-- The components that the search by low links finds, in the order it finds them.  No root
is given more turns than the limit. -/
def componentsByLowLinks? (automaton : Automaton) (limit : Nat) :
    Option (List (List StateId)) := do
  let traversal ← (List.range automaton.size).foldlM (Traversal.tryRoot? automaton limit)
    (Traversal.initial automaton)
  some traversal.found.reverse

end Automaton

end ModelText
