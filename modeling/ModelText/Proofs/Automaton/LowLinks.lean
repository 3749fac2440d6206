import Mathlib.Logic.Function.Iterate
import ModelText.Automaton.LowLinks
import ModelText.Proofs.Automaton.Components

namespace ModelText

/-!
# Low links and groups

The search by low links carries out the search by groups.  A mark tells how far the
search has come with a state, a frame which followers are still to be looked at, and the
low links of the frames tell the groups: a number begins a group as long as neither its
own low link nor one of a later frame is below it.  Looking at a follower on the stack
lowers the low link on top, which joins the groups above that follower.  Passing a low
link on when a frame is taken off keeps the groups it joined.  So a state is left with
its own number as low link exactly if it begins the topmost group, and what is on the
stack from there is the component.

Every turn of one search is a step of the other one, and every step leaves less work.  So
the search by low links ends as well, without a look-up outside an array and within as
many turns as there was work, and finds the same components in the same order.
-/

namespace Automaton

/-! ## Runs as repeated steps -/

namespace Search

variable {automaton : Automaton} {search : Search}

theorem step_of_isFinished (finished : search.isFinished = true) :
    search.step automaton = search := by
  rw [isFinished, Bool.and_eq_true, List.isEmpty_iff, List.isEmpty_iff] at finished
  rw [step, finished.1, finished.2]

theorem run_eq_iterate (limit : Nat) :
    search.run automaton limit = (step automaton)^[limit] search := by
  induction limit generalizing search with
  | zero => rfl
  | succ limit inductionHypothesis =>
      rw [run, Function.iterate_succ_apply, ← inductionHypothesis]
      split
      · next finished =>
          rw [inductionHypothesis, step_of_isFinished finished,
            Function.iterate_fixed (step_of_isFinished finished)]
      · rfl

theorem Invariant.iterate (count : Nat)
    (invariant : Invariant automaton (fun _ _ => False) search) :
    Invariant automaton (fun _ _ => False) ((Search.step automaton)^[count] search) := by
  rw [← run_eq_iterate]
  exact invariant.run count

theorem Invariant.remaining_iterate_le (count : Nat)
    (invariant : Invariant automaton (fun _ _ => False) search) :
    remaining automaton ((Search.step automaton)^[count] search) ≤
      remaining automaton search := by
  induction count with
  | zero => exact Nat.le_refl _
  | succ count inductionHypothesis =>
      rw [Function.iterate_succ_apply']
      cases finished : ((Search.step automaton)^[count] search).isFinished with
      | true => exact (step_of_isFinished finished).symm ▸ inductionHypothesis
      | false =>
          have less := remaining_step (invariant.iterate count).size_eq finished
          exact Nat.le_trans (Nat.le_of_lt less) inductionHypothesis

/-- All runs of a search that are finished end in the same way. -/
theorem iterate_eq_of_isFinished {count other : Nat}
    (finished : ((step automaton)^[count] search).isFinished = true)
    (finishedToo : ((step automaton)^[other] search).isFinished = true) :
    (step automaton)^[count] search = (step automaton)^[other] search := by
  have later : ∀ {first second : Nat}, first ≤ second →
      ((step automaton)^[first] search).isFinished = true →
        (step automaton)^[first] search = (step automaton)^[second] search := by
    intro first second le ended
    rw [← Nat.sub_add_cancel le, Function.iterate_add_apply,
      Function.iterate_fixed (step_of_isFinished ended)]
  rcases Nat.le_total count other with le | le
  · exact later le finished
  · exact (later le finishedToo).symm

theorem leave_of_begins (search : Search) {id : StateId} {number : Nat} {groups : List Nat}
    (found : search.progress[id]? = some (.onPath number))
    (begins : search.groups = number :: groups) :
    search.leave id = search.close number groups := by
  rw [leave, found, begins]
  exact if_pos rfl

theorem leave_of_joined (search : Search) {id : StateId} {number : Nat}
    (found : search.progress[id]? = some (.onPath number))
    (joined : ∀ lowest ∈ search.groups, lowest < number) : search.leave id = search := by
  rw [leave, found]
  cases grouped : search.groups with
  | nil => rfl
  | cons lowest groups =>
      have less := joined lowest (grouped ▸ List.mem_cons_self)
      exact if_neg (Nat.ne_of_gt less)

theorem tryRoot_of_seen {root : StateId} {progress : Progress}
    (found : search.progress[root]? = some progress) (seen : progress ≠ .unseen) :
    search.tryRoot automaton root = search := by
  rw [tryRoot, found]
  cases progress with
  | unseen => exact absurd rfl seen
  | onPath number => rfl
  | assigned => rfl

theorem enteredFrom_eq {progress : Array Progress} {id : StateId} {lowest number : Nat}
    (found : progress[id]? = some (.onPath number)) :
    enteredFrom progress lowest id = decide (lowest ≤ number) := by
  rw [enteredFrom, found]

/-- A state on the path cuts it behind itself: those in front were entered later. -/
theorem Invariant.exists_cut {inHand : StateId → StateId → Prop} {id : StateId} {number : Nat}
    (invariant : Invariant automaton inHand search)
    (found : search.progress[id]? = some (.onPath number)) :
    ∃ front back, search.path = front ++ id :: back ∧ id ∉ front ∧
      search.path.takeWhile (enteredFrom search.progress number) = front ++ [id] ∧
      search.path.dropWhile (enteredFrom search.progress number) = back := by
  obtain ⟨front, back, cut⟩ :=
    List.append_of_mem ((invariant.mem_path_iff id).mpr ⟨number, found⟩)
  have numbered : ∀ other ∈ search.path,
      ∃ number, search.progress[other]? = some (.onPath number) :=
    fun other => (invariant.mem_path_iff other).mp
  have nodup := invariant.path_nodup
  have ordered := invariant.path_ordered
  rw [cut] at numbered nodup ordered
  obtain ⟨_, behindOrdered, acrossOrdered⟩ := List.pairwise_append.mp ordered
  have apart : id ∉ front := fun inside =>
    (List.nodup_append.mp nodup).2.2 id inside id List.mem_cons_self rfl
  have above : ∀ other ∈ front ++ [id], enteredFrom search.progress number other = true := by
    intro other inside
    rcases List.mem_append.mp inside with inFront | own
    · obtain ⟨high, foundHigh⟩ := numbered other (List.mem_append_left _ inFront)
      have less := acrossOrdered other inFront id List.mem_cons_self foundHigh found
      rw [enteredFrom_eq foundHigh, decide_eq_true_eq]
      exact Nat.le_of_lt less
    · rw [List.mem_singleton.mp own, enteredFrom_eq found, decide_eq_true_eq]
  have below : back.takeWhile (enteredFrom search.progress number) = [] := by
    cases back with
    | nil => rfl
    | cons next rest =>
        obtain ⟨low, foundLow⟩ := numbered next (by simp)
        have less := (List.pairwise_cons.mp behindOrdered).1 next List.mem_cons_self
          found foundLow
        rw [List.takeWhile_cons, enteredFrom_eq foundLow, if_neg (by simpa using less)]
  have taken : search.path.takeWhile (enteredFrom search.progress number) = front ++ [id] := by
    rw [cut, List.append_cons, List.takeWhile_append_of_pos above, below, List.append_nil]
  refine ⟨front, back, cut, apart, taken, ?_⟩
  have parts := List.takeWhile_append_dropWhile (p := enteredFrom search.progress number)
    (l := search.path)
  rw [taken] at parts
  exact List.append_cancel_left (parts.trans (cut.trans (List.append_cons front id back)))

end Search

/-! ## Marks -/

namespace Mark

/-- How far the search has come with a state. -/
def progress (mark : Mark) : Progress :=
  match mark.number with
  | none => .unseen
  | some number => if mark.onStack then .onPath number else .assigned

def links (mark : Mark) : Option Nat × Nat := (mark.number, mark.lowLink)

variable {mark : Mark} {number : Nat}

@[simp]
theorem progress_lower : (mark.lower number).progress = mark.progress := rfl

@[simp]
theorem links_lower : (mark.lower number).links = (mark.number, min mark.lowLink number) := rfl

@[simp]
theorem links_takeOff : mark.takeOff.links = mark.links := rfl

theorem progress_eq_unseen_iff : mark.progress = .unseen ↔ mark.number = none := by
  unfold progress
  split
  · next unnumbered => simp [unnumbered]
  · next other numbered => rw [numbered]; split <;> simp

theorem progress_eq_onPath_iff :
    mark.progress = .onPath number ↔ mark.number = some number ∧ mark.onStack = true := by
  unfold progress
  split
  · next unnumbered => simp [unnumbered]
  · next other numbered => rw [numbered]; split <;> simp_all

theorem progress_takeOff (numbered : mark.number = some number) :
    mark.takeOff.progress = .assigned := by
  simp [progress, takeOff, numbered]

variable {marks : Array Mark} {id other : StateId}

theorem change?_eq {change : Mark → Mark} (found : marks[id]? = some mark) :
    change? marks id change = some (marks.setIfInBounds id (change mark)) := by
  rw [change?, found, Option.map_some]

theorem getElem?_set (found : marks[id]? = some mark) (replacement : Mark) :
    (marks.setIfInBounds id replacement)[other]? =
      if other = id then some replacement else marks[other]? := by
  obtain ⟨inRange, _⟩ := Array.getElem?_eq_some_iff.mp found
  rw [Array.getElem?_setIfInBounds]
  by_cases same : other = id
  · rw [if_pos same.symm, if_pos same, if_pos (same ▸ inRange)]
  · rw [if_neg (Ne.symm same), if_neg same]

/-- The number and the low link of a state in a table; a state that is not in the table
has no number. -/
def linksOf (marks : Array Mark) (id : StateId) : Option Nat × Nat :=
  (marks[id]?.map links).getD (none, 0)

theorem linksOf_eq (found : marks[id]? = some mark) : linksOf marks id = mark.links := by
  rw [linksOf, found]
  rfl

theorem linksOf_set (found : marks[id]? = some mark) (replacement : Mark) :
    linksOf (marks.setIfInBounds id replacement) other =
      if other = id then replacement.links else linksOf marks other := by
  rw [linksOf, getElem?_set found]
  split <;> rfl

theorem linksOf_takeOff (found : marks[id]? = some mark) (other : StateId) :
    linksOf (marks.setIfInBounds id mark.takeOff) other = linksOf marks other := by
  rw [linksOf_set found]
  split
  · next same => rw [same, linksOf_eq found, links_takeOff]
  · rfl

/-- No low link lies above the number of its state. -/
def Fit (marks : Array Mark) : Prop :=
  ∀ (id : StateId) (number : Nat), (linksOf marks id).1 = some number →
    (linksOf marks id).2 ≤ number

theorem Fit.le (fit : Fit marks) (found : marks[id]? = some mark)
    (numbered : mark.number = some number) : mark.lowLink ≤ number := by
  have le := fit id number
  rw [linksOf_eq found] at le
  exact le numbered

theorem Fit.set (fit : Fit marks) (found : marks[id]? = some mark) {replacement : Mark}
    (fits : ∀ number, replacement.number = some number → replacement.lowLink ≤ number) :
    Fit (marks.setIfInBounds id replacement) := by
  intro other number
  rw [linksOf_set found]
  split
  · exact fits number
  · exact fit other number

theorem Fit.lower (fit : Fit marks) (found : marks[id]? = some mark) (number : Nat) :
    Fit (marks.setIfInBounds id (mark.lower number)) :=
  fit.set found fun _ numbered => Nat.le_trans (Nat.min_le_left _ _) (fit.le found numbered)

theorem Fit.congr {popped : Array Mark} (fit : Fit marks)
    (same : ∀ other, linksOf popped other = linksOf marks other) : Fit popped := by
  intro other number
  rw [same]
  exact fit other number

end Mark

namespace Traversal

/-! ## The search that is carried out -/

/-- The groups that the links of the frames tell, topmost first. -/
def groupsOf : List (Option Nat × Nat) → List Nat
  | [] => []
  | (number, lowLink) :: rest =>
      (number.toList ++ groupsOf rest).filter fun lowest => lowest ≤ lowLink

/-- The search that a traversal carries out, with the roots that are still to be tried. -/
def toSearch (automaton : Automaton) (roots : List StateId) (traversal : Traversal) :
    Search where
  roots := roots
  frames := traversal.frames.map fun frame =>
    (frame.1, (automaton.followers frame.1).drop frame.2)
  path := traversal.stack
  groups := groupsOf (traversal.frames.map fun frame => Mark.linksOf traversal.marks frame.1)
  progress := traversal.marks.map Mark.progress
  next := traversal.next
  found := traversal.found

/-- A result that carries out a search. -/
def CarriesOut (automaton : Automaton) (roots : List StateId) (result : Option Traversal)
    (search : Search) : Prop :=
  ∃ next, result = some next ∧ Mark.Fit next.marks ∧ next.toSearch automaton roots = search

/-- A result without frames that carries out some steps of a search. -/
def Ends (automaton : Automaton) (roots : List StateId) (result : Option Traversal)
    (search : Search) : Prop :=
  ∃ last, result = some last ∧ last.frames = [] ∧ Mark.Fit last.marks ∧
    ∃ count, last.toSearch automaton roots = (Search.step automaton)^[count] search

variable {automaton : Automaton} {roots : List StateId} {traversal : Traversal}
  {marks : Array Mark} {mark : Mark} {id follower : StateId} {cursor number : Nat}
  {frames : List (StateId × Nat)} {limit : Nat}

theorem map_linksOf_set (found : marks[id]? = some mark) (replacement : Mark)
    (apart : ∀ frame ∈ frames, frame.1 ≠ id) :
    (frames.map fun frame => Mark.linksOf (marks.setIfInBounds id replacement) frame.1) =
      frames.map fun frame => Mark.linksOf marks frame.1 := by
  apply List.map_congr_left
  intro frame member
  rw [Mark.linksOf_set found, if_neg (apart frame member)]

/-! ## Entering a state -/

theorem enter_carriesOut (automaton : Automaton) (roots : List StateId)
    (fit : Mark.Fit traversal.marks) (found : traversal.marks[id]? = some mark)
    (apart : ∀ frame ∈ traversal.frames, frame.1 ≠ id)
    (below : ∀ lowest ∈ (traversal.toSearch automaton roots).groups, lowest ≤ traversal.next) :
    CarriesOut automaton roots (traversal.enter? id)
      ((traversal.toSearch automaton roots).enter automaton id) := by
  refine ⟨_, by rw [enter?, Mark.change?_eq found]; rfl, ?_, ?_⟩
  · apply fit.set found
    rintro number numbered
    exact Nat.le_of_eq (Option.some.inj numbered)
  · have own : Mark.linksOf (traversal.marks.setIfInBounds id
          ⟨some traversal.next, traversal.next, true⟩) id =
        (some traversal.next, traversal.next) := by
      rw [Mark.linksOf_set found, if_pos rfl]
      rfl
    have others := map_linksOf_set found ⟨some traversal.next, traversal.next, true⟩ apart
    have kept : (traversal.toSearch automaton roots).groups.filter
        (fun lowest => lowest ≤ traversal.next) = (traversal.toSearch automaton roots).groups :=
      List.filter_eq_self.mpr fun lowest member => decide_eq_true (below lowest member)
    rw [toSearch] at kept
    simp only [toSearch, Search.enter, List.map_cons, own, others, groupsOf,
      Option.toList_some, List.singleton_append, List.filter_cons, Nat.le_refl, decide_true,
      if_true, kept, Array.map_setIfInBounds, Mark.progress, List.drop_zero]

/-! ## Low links on top -/

theorem lower?_eq (traversal : Traversal) (found : traversal.marks[id]? = some mark)
    (number : Nat) :
    traversal.lower? id number =
      some { traversal with marks := traversal.marks.setIfInBounds id (mark.lower number) } := by
  rw [lower?, Mark.change?_eq found]
  rfl

/-- Lowering the low link on top takes away the groups above the number. -/
theorem toSearch_lower (top : traversal.frames = (id, cursor) :: frames)
    (found : traversal.marks[id]? = some mark) (apart : ∀ frame ∈ frames, frame.1 ≠ id)
    (number : Nat) :
    toSearch automaton roots
        { traversal with marks := traversal.marks.setIfInBounds id (mark.lower number) } =
      { traversal.toSearch automaton roots with
        groups := (traversal.toSearch automaton roots).groups.filter
          fun lowest => lowest ≤ number } := by
  have marked : (traversal.marks.setIfInBounds id (mark.lower number)).map Mark.progress =
      traversal.marks.map Mark.progress := by
    apply Array.ext_getElem?
    intro other
    rw [Array.getElem?_map, Mark.getElem?_set found, Array.getElem?_map]
    split
    · next same => rw [same, found, Option.map_some, Option.map_some, Mark.progress_lower]
    · rfl
  have own : Mark.linksOf (traversal.marks.setIfInBounds id (mark.lower number)) id =
      (mark.number, min mark.lowLink number) := by
    rw [Mark.linksOf_set found, if_pos rfl, Mark.links_lower]
  have others := map_linksOf_set found (mark.lower number) apart
  simp only [toSearch, top, List.map_cons, own, others, Mark.linksOf_eq found, Mark.links,
    groupsOf, List.filter_filter, marked, Search.mk.injEq, true_and, and_true]
  apply List.filter_congr
  intro lowest _
  rw [← Bool.decide_and, decide_eq_decide, Nat.le_min, and_comm]

theorem filter_le_eq_dropWhile {groups : List Nat}
    (ordered : groups.Pairwise fun higher lower => lower < higher) (number : Nat) :
    (groups.filter fun lowest => lowest ≤ number) =
      groups.dropWhile fun lowest => number < lowest := by
  induction groups with
  | nil => rfl
  | cons lowest rest inductionHypothesis =>
      obtain ⟨above, restOrdered⟩ := List.pairwise_cons.mp ordered
      rw [List.filter_cons, List.dropWhile_cons]
      by_cases le : lowest ≤ number
      · have kept : (rest.filter fun lowest => lowest ≤ number) = rest :=
          List.filter_eq_self.mpr fun other member =>
            decide_eq_true (Nat.le_trans (Nat.le_of_lt (above other member)) le)
        rw [if_pos (decide_eq_true le), kept, if_neg (by simpa using le)]
      · rw [if_neg (by simpa using le), if_pos (by simpa using le)]
        exact inductionHypothesis restOrdered

/-! ## What the search knows about frames -/

section

variable {inHand : StateId → StateId → Prop}
  (invariant : Search.Invariant automaton inHand (traversal.toSearch automaton roots))

theorem map_fst_toSearch :
    (traversal.toSearch automaton roots).frames.map Prod.fst = traversal.frames.map Prod.fst := by
  simp [toSearch]

theorem progress_toSearch (id : StateId) :
    (traversal.toSearch automaton roots).progress[id]? =
      traversal.marks[id]?.map Mark.progress := by
  rw [toSearch, Array.getElem?_map]

theorem onPath_iff :
    (traversal.toSearch automaton roots).progress[id]? = some (.onPath number) ↔
      ∃ mark, traversal.marks[id]? = some mark ∧ mark.number = some number ∧
        mark.onStack = true := by
  rw [progress_toSearch, Option.map_eq_some_iff]
  simp only [Mark.progress_eq_onPath_iff]

include invariant

theorem size_marks : traversal.marks.size = automaton.size := by
  have size_eq := invariant.size_eq
  rwa [toSearch, Array.size_map] at size_eq

theorem exists_mark_of_frame (framed : id ∈ traversal.frames.map Prod.fst) :
    ∃ mark number, traversal.marks[id]? = some mark ∧ mark.number = some number ∧
      mark.onStack = true := by
  obtain ⟨number, found⟩ := invariant.onPath_of_frame (map_fst_toSearch ▸ framed)
  obtain ⟨mark, found⟩ := onPath_iff.mp found
  exact ⟨mark, number, found⟩

/-- A state that was not entered has no frame. -/
theorem frame_ne_of_unnumbered (found : traversal.marks[id]? = some mark)
    (unnumbered : mark.number = none) : ∀ frame ∈ traversal.frames, frame.1 ≠ id := by
  rintro frame member rfl
  obtain ⟨other, number, foundToo, numbered, _⟩ :=
    exists_mark_of_frame invariant (List.mem_map_of_mem member)
  cases found.symm.trans foundToo
  rw [unnumbered] at numbered
  cases numbered

theorem frames_nodup : (traversal.frames.map Prod.fst).Nodup :=
  map_fst_toSearch ▸ invariant.path_nodup.sublist invariant.frames_sublist

theorem frame_ne_of_top (top : traversal.frames = (id, cursor) :: frames) :
    ∀ frame ∈ frames, frame.1 ≠ id := by
  have nodup := frames_nodup invariant
  rw [top, List.map_cons, List.nodup_cons] at nodup
  rintro frame member rfl
  exact nodup.1 (List.mem_map.mpr ⟨frame, member, rfl⟩)

theorem groups_le_next :
    ∀ lowest ∈ (traversal.toSearch automaton roots).groups, lowest ≤ traversal.next := by
  intro lowest member
  obtain ⟨_, _, found⟩ := invariant.group_frame member
  exact Nat.le_of_lt (invariant.number_lt found)

/-! ## Looking at a follower -/

theorem follow_carriesOut (fit : Mark.Fit traversal.marks)
    (top : traversal.frames = (id, cursor) :: frames) :
    CarriesOut automaton roots (traversal.follow? automaton id follower)
      ((traversal.toSearch automaton roots).follow automaton follower) := by
  have size_eq := size_marks invariant
  rw [follow?, Search.follow, progress_toSearch]
  by_cases missing : automaton.size ≤ follower
  · rw [if_pos missing, Array.getElem?_eq_none (size_eq ▸ missing)]
    exact ⟨traversal, rfl, fit, rfl⟩
  · obtain ⟨mark, found⟩ : ∃ mark, traversal.marks[follower]? = some mark :=
      ⟨_, Array.getElem?_eq_getElem (size_eq ▸ Nat.lt_of_not_le missing)⟩
    rw [if_neg missing, found, Option.map_some]
    dsimp only [Option.bind_eq_bind, Option.bind_some]
    cases numbered : mark.number with
    | none =>
        rw [Mark.progress_eq_unseen_iff.mpr numbered]
        exact enter_carriesOut automaton roots fit found
          (frame_ne_of_unnumbered invariant found numbered) (groups_le_next invariant)
    | some number =>
        cases stacked : mark.onStack with
        | true =>
            have framed : id ∈ traversal.frames.map Prod.fst := by
              rw [top]
              exact List.mem_cons_self
            obtain ⟨own, _, foundOwn, _⟩ := exists_mark_of_frame invariant framed
            rw [Mark.progress_eq_onPath_iff.mpr ⟨numbered, stacked⟩]
            dsimp only
            rw [if_pos rfl, lower?_eq traversal foundOwn]
            refine ⟨_, rfl, fit.lower foundOwn number, ?_⟩
            rw [toSearch_lower top foundOwn (frame_ne_of_top invariant top),
              filter_le_eq_dropWhile invariant.groups_ordered]
        | false =>
            have assigned : mark.progress = .assigned := by
              simp [Mark.progress, numbered, stacked]
            rw [assigned]
            exact ⟨traversal, rfl, fit, rfl⟩

end

/-! ## Taking a component off the stack -/

theorem map_progress_takeOff (numbered : mark.number = some number) :
    (marks.setIfInBounds id mark.takeOff).map Mark.progress =
      (marks.map Mark.progress).setIfInBounds id .assigned := by
  rw [Array.map_setIfInBounds, Mark.progress_takeOff numbered]

/-- What is popped are the states down to the given one.  They have numbers, so that being
off the stack they count as assigned. -/
theorem popThrough?_eq {front back : List StateId} (apart : id ∉ front)
    (numbered : ∀ member ∈ front ++ [id], ∃ mark number,
      marks[member]? = some mark ∧ mark.number = some number) :
    ∃ popped, popThrough? id (front ++ id :: back) marks = some (front ++ [id], back, popped) ∧
      popped.map Mark.progress = (front ++ [id]).foldl
        (fun progress member => progress.setIfInBounds member .assigned)
        (marks.map Mark.progress) ∧
      ∀ other, Mark.linksOf popped other = Mark.linksOf marks other := by
  induction front generalizing marks with
  | nil =>
      obtain ⟨mark, number, found, numberedOwn⟩ := numbered id (List.mem_singleton_self id)
      refine ⟨_, ?_, map_progress_takeOff numberedOwn, Mark.linksOf_takeOff found⟩
      rw [List.nil_append, popThrough?, Mark.change?_eq found]
      dsimp only [Option.bind_eq_bind, Option.bind_some]
      rw [if_pos rfl]
      rfl
  | cons head rest inductionHypothesis =>
      obtain ⟨differs, apartRest⟩ := not_or.mp (List.mem_cons.not.mp apart)
      obtain ⟨mark, number, found, numberedHead⟩ := numbered head List.mem_cons_self
      have numberedRest : ∀ member ∈ rest ++ [id], ∃ other number,
          (marks.setIfInBounds head mark.takeOff)[member]? = some other ∧
            other.number = some number := by
        intro member inside
        rw [Mark.getElem?_set found]
        split
        · exact ⟨_, number, rfl, numberedHead⟩
        · exact numbered member (List.mem_cons_of_mem head inside)
      obtain ⟨popped, pops, assigned, linked⟩ := inductionHypothesis apartRest numberedRest
      refine ⟨popped, ?_, ?_, fun other => (linked other).trans (Mark.linksOf_takeOff found other)⟩
      · rw [List.cons_append, popThrough?, Mark.change?_eq found]
        dsimp only [Option.bind_eq_bind, Option.bind_some]
        rw [if_neg (Ne.symm differs), pops]
        rfl
      · rw [assigned, map_progress_takeOff numberedHead]
        rfl

/-- Closing the component of a state on the stack, when another search is known to have the
same path. -/
theorem close_carriesOut {inHand : StateId → StateId → Prop} {search : Search} {lowest : Nat}
    (invariant : Search.Invariant automaton inHand search)
    (path_eq : search.path = traversal.stack)
    (progress_eq : search.progress = traversal.marks.map Mark.progress)
    (fit : Mark.Fit traversal.marks) (found : search.progress[id]? = some (.onPath lowest)) :
    CarriesOut automaton roots (traversal.close? id)
      ((traversal.toSearch automaton roots).close lowest
        (traversal.toSearch automaton roots).groups) := by
  obtain ⟨front, back, cut, apart, taken, left⟩ := invariant.exists_cut found
  have numbered : ∀ member ∈ front ++ [id], ∃ mark number,
      traversal.marks[member]? = some mark ∧ mark.number = some number := by
    intro member inside
    have onPath : member ∈ search.path := by
      rw [cut, List.append_cons]
      exact List.mem_append_left back inside
    obtain ⟨number, foundMember⟩ := (invariant.mem_path_iff member).mp onPath
    rw [progress_eq, Array.getElem?_map, Option.map_eq_some_iff] at foundMember
    obtain ⟨mark, foundMark, progress⟩ := foundMember
    exact ⟨mark, number, foundMark, (Mark.progress_eq_onPath_iff.mp progress).1⟩
  obtain ⟨popped, pops, assigned, linked⟩ := popThrough?_eq apart numbered
  refine ⟨_, by rw [close?, ← path_eq, cut, pops]; rfl, fit.congr linked, ?_⟩
  rw [path_eq, progress_eq] at taken left
  rw [Search.Invariant.close_eq]
  simp only [toSearch, taken, left, assigned, linked]

/-! ## Leaving a state -/

/-- The frame on top keeps the groups below it down to its low link, and begins one itself
unless its low link is below its number. -/
theorem groups_of_top (automaton : Automaton) (roots : List StateId)
    (top : traversal.frames = (id, cursor) :: frames) (found : traversal.marks[id]? = some mark) :
    (traversal.toSearch automaton roots).groups =
      (mark.number.toList ++ (toSearch automaton roots
        { traversal with frames := frames }).groups).filter
          fun lowest => lowest ≤ mark.lowLink := by
  simp only [toSearch, top, List.map_cons, Mark.linksOf_eq found, Mark.links, groupsOf]

/-- Passing a low link on takes away the groups above it. -/
theorem passOn?_eq (automaton : Automaton) (roots : List StateId) (traversal : Traversal)
    (fit : Mark.Fit traversal.marks) (found : traversal.marks[id]? = some mark)
    (apart : (id :: traversal.frames.map Prod.fst).Nodup)
    (known : ∀ other ∈ traversal.frames.map Prod.fst,
      ∃ mark, traversal.marks[other]? = some mark) :
    ∃ passed, traversal.passOn? id = some passed ∧ Mark.Fit passed.marks ∧
      passed.marks[id]? = some mark ∧
      passed.toSearch automaton roots =
        { traversal.toSearch automaton roots with
          groups := (traversal.toSearch automaton roots).groups.filter
            fun lowest => lowest ≤ mark.lowLink } := by
  rw [passOn?]
  cases framed : traversal.frames with
  | nil =>
      refine ⟨traversal, rfl, fit, found, ?_⟩
      simp [toSearch, framed, groupsOf]
  | cons frame frames =>
      obtain ⟨parent, cursor⟩ := frame
      rw [framed, List.map_cons] at apart known
      obtain ⟨parentMark, foundParent⟩ := known parent List.mem_cons_self
      obtain ⟨notFramed, distinct⟩ := List.nodup_cons.mp apart
      have differs : id ≠ parent := fun same => notFramed (same ▸ List.mem_cons_self)
      have alone : ∀ frame ∈ frames, frame.1 ≠ parent := by
        rintro frame member rfl
        exact (List.nodup_cons.mp distinct).1 (List.mem_map.mpr ⟨frame, member, rfl⟩)
      dsimp only
      rw [found]
      dsimp only [Option.bind_eq_bind, Option.bind_some]
      rw [lower?_eq traversal foundParent]
      refine ⟨_, rfl, fit.lower foundParent _, ?_, toSearch_lower framed foundParent alone _⟩
      rw [Mark.getElem?_set foundParent, if_neg differs]
      exact found

/-- A state is closed when its low link is its own number, which is when it begins the
topmost group. -/
theorem leave_carriesOut {inHand : StateId → StateId → Prop}
    {waiting : List (StateId × List StateId)}
    (invariant : Search.Invariant automaton inHand (traversal.toSearch automaton roots))
    (fit : Mark.Fit traversal.marks) (top : traversal.frames = (id, cursor) :: frames)
    (waits : (toSearch automaton roots { traversal with frames := frames }).frames = waiting) :
    CarriesOut automaton roots ({ traversal with frames := frames }.leave? id)
      (Search.leave { traversal.toSearch automaton roots with frames := waiting } id) := by
  have framed : traversal.frames.map Prod.fst = id :: frames.map Prod.fst := by
    rw [top, List.map_cons]
  have known : ∀ other ∈ id :: frames.map Prod.fst, ∃ mark number,
      traversal.marks[other]? = some mark ∧ mark.number = some number ∧ mark.onStack = true :=
    fun other member => exists_mark_of_frame invariant (framed ▸ member)
  obtain ⟨mark, number, found, numbered, stacked⟩ := known id List.mem_cons_self
  have onPath : (traversal.toSearch automaton roots).progress[id]? = some (.onPath number) :=
    onPath_iff.mpr ⟨mark, found, numbered, stacked⟩
  have apart := frames_nodup invariant
  rw [framed] at apart
  obtain ⟨passed, passes, passedFit, foundToo, passed_eq⟩ :=
    passOn?_eq automaton roots { traversal with frames := frames } fit found apart
      fun other member => by
        obtain ⟨mark, _, found, _⟩ := known other (List.mem_cons_of_mem id member)
        exact ⟨mark, found⟩
  have groups_eq := groups_of_top automaton roots top found
  have le := fit.le found numbered
  rw [numbered, Option.toList_some, List.singleton_append, List.filter_cons] at groups_eq
  rw [leave?, passes]
  dsimp only [Option.bind_eq_bind, Option.bind_some]
  rw [foundToo]
  dsimp only [Option.bind_some]
  by_cases own : number ≤ mark.lowLink
  · -- the topmost group begins at the state, which is the lowest of its component
    rw [if_pos (decide_eq_true own)] at groups_eq
    have closes : CarriesOut automaton roots (passed.close? id)
        ((passed.toSearch automaton roots).close number
          (passed.toSearch automaton roots).groups) :=
      close_carriesOut invariant (congrArg Search.path passed_eq).symm
        (congrArg Search.progress passed_eq).symm passedFit onPath
    rw [if_pos (numbered.trans (congrArg some (Nat.le_antisymm own le))),
      Search.leave_of_begins { traversal.toSearch automaton roots with frames := waiting }
        onPath groups_eq]
    rw [passed_eq, Search.Invariant.close_eq] at closes
    rw [Search.Invariant.close_eq, ← waits]
    exact closes
  · -- the state leads to one below it, and its group was joined to a lower one
    rw [if_neg (by simpa using own)] at groups_eq
    have joined : ∀ lowest ∈ (traversal.toSearch automaton roots).groups, lowest < number := by
      intro lowest member
      rw [groups_eq] at member
      have under := of_decide_eq_true (List.mem_filter.mp member).2
      omega
    rw [if_neg (by rw [numbered, Option.some_inj]; omega),
      Search.leave_of_joined { traversal.toSearch automaton roots with frames := waiting }
        onPath joined]
    refine ⟨passed, rfl, passedFit, ?_⟩
    rw [passed_eq, ← groups_eq, ← waits]
    rfl

/-! ## Turns and steps -/

/-- Every turn is a step. -/
theorem turn_carriesOut
    (invariant : Search.Invariant automaton (fun _ _ => False)
      (traversal.toSearch automaton roots))
    (fit : Mark.Fit traversal.marks) (top : traversal.frames = (id, cursor) :: frames) :
    CarriesOut automaton roots (traversal.turn? automaton (id, cursor) frames)
      ((traversal.toSearch automaton roots).step automaton) := by
  have framed : id ∈ traversal.frames.map Prod.fst := by
    rw [top]
    exact List.mem_cons_self
  obtain ⟨mark, _, found, _⟩ := exists_mark_of_frame invariant framed
  have inRange : id < automaton.size :=
    size_marks invariant ▸ (Array.getElem?_eq_some_iff.mp found).1
  have exists_state : automaton.state? id = some automaton.states[id] :=
    Array.getElem?_eq_getElem inRange
  have followers_eq : automaton.followers id = automaton.states[id].followers := by
    rw [followers, exists_state]
    rfl
  have topFrame : (traversal.toSearch automaton roots).frames =
      (id, (automaton.followers id).drop cursor) ::
        (toSearch automaton roots { traversal with frames := frames }).frames := by
    rw [toSearch, top]
    rfl
  rw [turn?, exists_state]
  dsimp only [Option.bind_eq_bind, Option.bind_some]
  rw [← followers_eq]
  cases next : (automaton.followers id)[cursor]? with
  | none =>
      rw [List.drop_eq_nil_of_le (List.getElem?_eq_none_iff.mp next)] at topFrame
      rw [Search.step, topFrame]
      exact leave_carriesOut invariant fit top rfl
  | some follower =>
      obtain ⟨bound, follower_eq⟩ := List.getElem?_eq_some_iff.mp next
      rw [List.drop_eq_getElem_cons bound, follower_eq] at topFrame
      have advanced : toSearch automaton roots
            { traversal with frames := (id, cursor + 1) :: frames } =
          { traversal.toSearch automaton roots with
            frames := (id, (automaton.followers id).drop (cursor + 1)) ::
              (toSearch automaton roots { traversal with frames := frames }).frames } := by
        simp only [toSearch, top, List.map_cons]
      have taken := invariant.take topFrame
      rw [← advanced] at taken
      rw [Search.step, topFrame]
      dsimp only
      rw [← advanced]
      exact follow_carriesOut taken fit rfl

theorem explore?_of_idle (idle : traversal.frames = []) :
    traversal.explore? automaton limit = some traversal := by
  unfold explore?
  rw [idle]

theorem explore?_of_turn {frame : StateId × Nat} {turned : Traversal}
    (top : traversal.frames = frame :: frames)
    (turns : traversal.turn? automaton frame frames = some turned) :
    traversal.explore? automaton (limit + 1) = turned.explore? automaton limit := by
  conv_lhs => unfold explore?
  rw [top]
  dsimp only
  rw [turns]
  rfl

theorem not_isFinished_of_frames {frame : StateId × Nat}
    (top : traversal.frames = frame :: frames) :
    (traversal.toSearch automaton roots).isFinished = false := by
  rw [Search.isFinished, toSearch, top]
  rfl

/-- The loop ends within as many turns as there is work, since every turn leaves less. -/
theorem explore_ends
    (invariant : Search.Invariant automaton (fun _ _ => False)
      (traversal.toSearch automaton roots))
    (fit : Mark.Fit traversal.marks)
    (enough : Search.remaining automaton (traversal.toSearch automaton roots) ≤ limit) :
    Ends automaton roots (traversal.explore? automaton limit)
      (traversal.toSearch automaton roots) := by
  induction limit generalizing traversal with
  | zero =>
      cases top : traversal.frames with
      | nil => exact ⟨traversal, explore?_of_idle top, top, fit, 0, rfl⟩
      | cons frame frames =>
          have less := Search.remaining_step invariant.size_eq (not_isFinished_of_frames top)
          exact absurd (Nat.lt_of_lt_of_le less enough) (Nat.not_lt_zero _)
  | succ limit inductionHypothesis =>
      cases top : traversal.frames with
      | nil => exact ⟨traversal, explore?_of_idle top, top, fit, 0, rfl⟩
      | cons frame frames =>
          obtain ⟨turned, turns, turnedFit, turned_eq⟩ := turn_carriesOut invariant fit top
          have less := Search.remaining_step invariant.size_eq (not_isFinished_of_frames top)
          rw [← turned_eq] at less
          obtain ⟨last, explores, idle, lastFit, count, last_eq⟩ :=
            inductionHypothesis (turned_eq ▸ invariant.step) turnedFit
              (Nat.le_of_lt_succ (Nat.lt_of_lt_of_le less enough))
          refine ⟨last, (explore?_of_turn top turns).trans explores, idle, lastFit,
            count + 1, ?_⟩
          rw [last_eq, turned_eq, Function.iterate_succ_apply]

theorem tryRoot_ends {root : StateId} (inRange : root < automaton.size)
    (invariant : Search.Invariant automaton (fun _ _ => False)
      (traversal.toSearch automaton (root :: roots)))
    (fit : Mark.Fit traversal.marks) (idle : traversal.frames = [])
    (enough :
      Search.remaining automaton (traversal.toSearch automaton (root :: roots)) ≤ limit) :
    Ends automaton roots (traversal.tryRoot? automaton limit root)
      (traversal.toSearch automaton (root :: roots)) := by
  obtain ⟨mark, found⟩ : ∃ mark, traversal.marks[root]? = some mark :=
    ⟨_, Array.getElem?_eq_getElem (size_marks invariant ▸ inRange)⟩
  have step_eq : (traversal.toSearch automaton (root :: roots)).step automaton =
      (traversal.toSearch automaton roots).tryRoot automaton root := by
    simp only [Search.step, toSearch, idle, List.map_nil]
  have progress : (traversal.toSearch automaton roots).progress[root]? = some mark.progress := by
    rw [progress_toSearch, found, Option.map_some]
  rw [tryRoot?, found]
  dsimp only [Option.bind_eq_bind, Option.bind_some]
  cases numbered : mark.number with
  | some number =>
      have seen : mark.progress ≠ .unseen := by
        rw [Ne, Mark.progress_eq_unseen_iff, numbered]
        exact Option.some_ne_none number
      rw [Search.tryRoot_of_seen progress seen] at step_eq
      exact ⟨traversal, rfl, idle, fit, 1, step_eq.symm⟩
  | none =>
      have apart : ∀ frame ∈ traversal.frames, frame.1 ≠ root :=
        frame_ne_of_unnumbered invariant found numbered
      have below := groups_le_next invariant
      obtain ⟨entered, enters, enteredFit, entered_eq⟩ :=
        enter_carriesOut automaton roots fit found apart below
      rw [Search.tryRoot, progress, Mark.progress_eq_unseen_iff.mpr numbered] at step_eq
      have entering := step_eq.trans entered_eq.symm
      obtain ⟨last, explores, lastIdle, lastFit, count, last_eq⟩ :=
        explore_ends (entering ▸ invariant.step) enteredFit
          (Nat.le_trans (entering ▸ invariant.remaining_iterate_le 1) enough)
      refine ⟨last, ?_, lastIdle, lastFit, count + 1, ?_⟩
      · dsimp only
        rw [enters]
        exact explores
      · rw [last_eq, ← entering, Function.iterate_succ_apply]

theorem foldlM_tryRoot_ends (inRange : ∀ root ∈ roots, root < automaton.size)
    (invariant : Search.Invariant automaton (fun _ _ => False)
      (traversal.toSearch automaton roots))
    (fit : Mark.Fit traversal.marks) (idle : traversal.frames = [])
    (enough : Search.remaining automaton (traversal.toSearch automaton roots) ≤ limit) :
    Ends automaton [] (roots.foldlM (tryRoot? automaton limit) traversal)
      (traversal.toSearch automaton roots) := by
  induction roots generalizing traversal with
  | nil => exact ⟨traversal, rfl, idle, fit, 0, rfl⟩
  | cons root roots inductionHypothesis =>
      obtain ⟨rootInRange, others⟩ := List.forall_mem_cons.mp inRange
      obtain ⟨tried, tries, triedIdle, triedFit, count, tried_eq⟩ :=
        tryRoot_ends rootInRange invariant fit idle enough
      obtain ⟨last, ends, lastIdle, lastFit, more, last_eq⟩ :=
        inductionHypothesis others (tried_eq ▸ invariant.iterate count) triedFit triedIdle
          (tried_eq ▸ Nat.le_trans (invariant.remaining_iterate_le count) enough)
      refine ⟨last, ?_, lastIdle, lastFit, more + count, ?_⟩
      · rw [List.foldlM_cons, tries]
        exact ends
      · rw [last_eq, tried_eq, Function.iterate_add_apply]

theorem toSearch_initial (automaton : Automaton) :
    (initial automaton).toSearch automaton (List.range automaton.size) =
      Search.initial automaton := by
  simp [initial, toSearch, Search.initial, groupsOf, Mark.blank, Mark.progress]

theorem fit_initial (automaton : Automaton) : Mark.Fit (initial automaton).marks := by
  intro id number numbered
  rw [Mark.linksOf, initial, Array.getElem?_replicate] at numbered
  split at numbered <;> cases numbered

end Traversal

/-- With turns enough the search by low links ends, and it finds what the search by groups
finds. -/
theorem componentsByLowLinks?_eq (automaton : Automaton) {limit : Nat}
    (enough : 2 * automaton.size + automaton.followerCount ≤ limit) :
    automaton.componentsByLowLinks? limit = some automaton.components := by
  have initial_eq := Traversal.toSearch_initial automaton
  obtain ⟨last, ends, idle, _, count, last_eq⟩ :=
    Traversal.foldlM_tryRoot_ends (fun _ => List.mem_range.mp)
      (initial_eq ▸ Search.Invariant.initial automaton) (Traversal.fit_initial automaton) rfl
      (initial_eq ▸ Search.remaining_initial automaton ▸ enough)
  rw [initial_eq] at last_eq
  have finished : ((Search.step automaton)^[count] (Search.initial automaton)).isFinished =
      true := by
    rw [← last_eq, Search.isFinished, Traversal.toSearch, idle]
    rfl
  have limited := Search.run_isFinished (Search.Invariant.initial automaton)
    (2 * automaton.size + automaton.followerCount + 1)
    (by rw [Search.remaining_initial]; exact Nat.lt_succ_self _)
  rw [Search.run_eq_iterate] at limited
  rw [componentsByLowLinks?, ends, components, Search.run_eq_iterate,
    Search.iterate_eq_of_isFinished limited finished, ← last_eq]
  rfl

/-- The search by low links ends for every automaton, whether or not all followers exist: two
turns for each state and one for each follower are enough, and more change nothing.  It
finds the components that the analysis uses.  Every state is in one of them, once, and
no list is empty.  Two states are in one list exactly if each reaches the other.  A list
that contains a follower of a state of another list comes before that list. -/
theorem components_exact (automaton : Automaton) {limit : Nat}
    (enough : 2 * automaton.size + automaton.followerCount ≤ limit) :
    ∃ components, automaton.componentsByLowLinks? limit = some components ∧
      components = automaton.components ∧ [] ∉ components ∧
      (∀ id, components.flatten.count id = if id < automaton.size then 1 else 0) ∧
      (∀ source target,
        (∃ component ∈ components, source ∈ component ∧ target ∈ component) ↔
          source < automaton.size ∧ target < automaton.size ∧
            Reaches automaton source target ∧ Reaches automaton target source) ∧
      ∀ own other : Fin components.length,
        ∀ source ∈ components[own], ∀ target ∈ components[other],
          target ∈ automaton.followers source → own ≠ other → other < own := by
  have condensation := components_condensation automaton
  refine ⟨automaton.components, componentsByLowLinks?_eq automaton enough, rfl, ?_, ?_,
    condensation.exists_component_iff, ?_⟩
  · exact fun listed => condensation.ne_nil listed rfl
  · intro id
    simp only [condensation.nodup.count, condensation.mem_iff]
  · intro own other source sourceMember target targetMember follows differ
    have inRange := (condensation.mem_iff target).mp
      (List.mem_flatten_of_mem (List.getElem_mem other.isLt) targetMember)
    have succeeds := (mem_successors_iff automaton source target).mpr ⟨follows, inRange⟩
    rcases Nat.lt_or_gt_of_ne (Fin.val_ne_of_ne differ) with before | behind
    · exact absurd succeeds (List.pairwise_iff_getElem.mp condensation.ordered own other
        own.isLt other.isLt before sourceMember targetMember)
    · exact behind

/-- Two cycles and a state that leads to itself, with a follower that does not exist. -/
def knotted : Automaton :=
  ⟨"knotted", 0,
    #[⟨none, [3, 9]⟩, ⟨none, [2]⟩, ⟨none, [1, 0]⟩, ⟨none, [4]⟩, ⟨none, [3, 4]⟩,
      ⟨none, [5, 2, 6]⟩]⟩

/-- Its components: the second cycle leads to the state alone, and that to the first cycle. -/
def knots : List (List StateId) := [[4, 3], [0], [2, 1], [5]]

/-- The states of the first cycle reach each other.  The second cycle leads to state 0 and
state 0 does not lead back, so state 0 is a component of its own, found earlier. -/
theorem components_exact_knotted :
    2 * knotted.size + knotted.followerCount ≤ 23 ∧
      knotted.componentsByLowLinks? 23 = some knots ∧
      (Reaches knotted 3 4 ∧ Reaches knotted 4 3) ∧
      ¬(Reaches knotted 0 2 ∧ Reaches knotted 2 0) ∧
      2 ∈ knots[2] ∧ 0 ∈ knots[1] ∧ 0 ∈ knotted.followers 2 ∧
      (⟨2, by decide⟩ : Fin knots.length) ≠ ⟨1, by decide⟩ ∧
      (⟨1, by decide⟩ : Fin knots.length) < ⟨2, by decide⟩ := by
  have enough : 2 * knotted.size + knotted.followerCount ≤ 23 := by decide
  obtain ⟨components, ends, same, _, _, together, ordered⟩ := components_exact knotted enough
  have knots_eq : knotted.components = knots := by decide
  rw [knots_eq] at same
  subst same
  refine ⟨enough, ends, ((together 3 4).mp (by decide)).2.2, ?_, by decide, by decide, by decide,
    by decide, ordered ⟨2, by decide⟩ ⟨1, by decide⟩ 2 (by decide) 0 (by decide) (by decide)
      (by decide)⟩
  intro reach
  exact absurd ((together 0 2).mpr ⟨by decide, by decide, reach⟩) (by decide)

end Automaton

end ModelText
