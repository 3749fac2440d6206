import ModelText.Automaton.Basic

namespace ModelText

/-!
# Strongly connected components

Two states belong to one component when each leads to the other.  A depth-first
search keeps the states that are not yet assigned to a component on a path,
numbered in the order they were entered, and remembers the lowest number of each
group of path states already known to lead to one another.  A follower on the
path joins all groups above it.  When the search leaves a state that begins the
top group, this group is a component.

Components are found sinks first: whatever a component leads to was found before
it.  All pending work is kept in lists, so long paths need no deep recursion.
-/

namespace Automaton

/-- How far the search has come with a state. -/
inductive Progress where
  | unseen
  | onPath (number : Nat)
  | assigned
  deriving DecidableEq, Inhabited

/-- A state of the depth-first search. -/
structure Search where
  /-- States that may still have to start a search of their own. -/
  roots : List StateId
  /-- States being searched, latest first, each with the followers to look at. -/
  frames : List (StateId × List StateId)
  /-- States on the path, latest first. -/
  path : List StateId
  /-- The lowest numbers of the groups on the path, topmost first. -/
  groups : List Nat
  progress : Array Progress
  /-- The number of the state to be entered next. -/
  next : Nat
  /-- The components found, latest first. -/
  found : List (List StateId)

namespace Search

def initial (automaton : Automaton) : Search where
  roots := List.range automaton.size
  frames := []
  path := []
  groups := []
  progress := Array.replicate automaton.size .unseen
  next := 0
  found := []

/-- Put a state on the path, as a group of its own. -/
def enter (automaton : Automaton) (search : Search) (id : StateId) : Search :=
  { search with
    frames := (id, automaton.followers id) :: search.frames
    path := id :: search.path
    groups := search.next :: search.groups
    progress := search.progress.setIfInBounds id (.onPath search.next)
    next := search.next + 1 }

/-- Look at a follower of the state being searched. -/
def follow (automaton : Automaton) (search : Search) (follower : StateId) : Search :=
  match search.progress[follower]? with
  | some .unseen => search.enter automaton follower
  | some (.onPath number) =>
      { search with groups := search.groups.dropWhile fun lowest => number < lowest }
  | _ => search

/-- Whether a state has been on the path since the given number or later. -/
def enteredFrom (progress : Array Progress) (lowest : Nat) (id : StateId) : Bool :=
  match progress[id]? with
  | some (.onPath number) => lowest ≤ number
  | _ => false

/-- Take the states entered from the given number on off the path, as one
component. -/
def close (search : Search) (lowest : Nat) (groups : List Nat) : Search :=
  let (component, path) := search.path.span (enteredFrom search.progress lowest)
  { search with
    path := path
    groups := groups
    progress := component.foldl
      (fun progress id => progress.setIfInBounds id .assigned) search.progress
    found := component :: search.found }

/-- Leave a state whose followers have all been looked at. -/
def leave (search : Search) (id : StateId) : Search :=
  match search.progress[id]?, search.groups with
  | some (.onPath number), lowest :: groups =>
      if number = lowest then search.close lowest groups else search
  | _, _ => search

/-- Start a search from a state that has not been seen. -/
def tryRoot (automaton : Automaton) (search : Search) (root : StateId) : Search :=
  match search.progress[root]? with
  | some .unseen => search.enter automaton root
  | _ => search

def isFinished (search : Search) : Bool :=
  search.frames.isEmpty && search.roots.isEmpty

/-- One step of the search; a finished search stays as it is. -/
def step (automaton : Automaton) (search : Search) : Search :=
  match search.frames with
  | (id, follower :: followers) :: frames =>
      follow automaton { search with frames := (id, followers) :: frames } follower
  | (id, []) :: frames => leave { search with frames := frames } id
  | [] =>
      match search.roots with
      | [] => search
      | root :: roots => tryRoot automaton { search with roots := roots } root

def run (automaton : Automaton) : Nat → Search → Search
  | 0, search => search
  | limit + 1, search =>
      if search.isFinished then search else run automaton limit (search.step automaton)

end Search

/-- The strongly connected components, sinks first.  Every state is a root once
and left once, and every follower is looked at once. -/
def components (automaton : Automaton) : List (List StateId) :=
  ((Search.initial automaton).run automaton
    (2 * automaton.size + automaton.followerCount + 1)).found.reverse

end Automaton

end ModelText
