import Mathlib.Data.List.TakeDrop
import Mathlib.Logic.Relation
import ModelText.Automaton.Components

namespace ModelText

/-!
# The search for components

What every step of the depth-first search keeps.  States on the path are
numbered in the order they were entered, and the lowest numbers of the groups
cut the path into segments.  A state of a segment reaches every state of its own
and of the later segments.  An edge that was looked at leads to an assigned
state or into its own or a later segment, so the topmost segment has no way out
but to assigned states once its first state has been searched to the end.  That
makes it a component whose edges lead to components found before.

An edge is looked at some time after its source was entered: until then it stays
in the frame of its source.  The invariant takes the edge that a step has in its
hands as a parameter.
-/

namespace Automaton

/-! ## Reachability -/

/-- One state leads to another along followers that exist. -/
abbrev Reaches (automaton : Automaton) : StateId → StateId → Prop :=
  Relation.ReflTransGen fun id next => next ∈ automaton.successors id

theorem mem_successors_iff (automaton : Automaton) (id next : StateId) :
    next ∈ automaton.successors id ↔ next ∈ automaton.followers id ∧ next < automaton.size := by
  simp [successors]

theorem lt_size_of_mem_followers {automaton : Automaton} {id next : StateId}
    (follows : next ∈ automaton.followers id) : id < automaton.size := by
  unfold followers state? at follows
  by_cases inRange : id < automaton.states.size
  · exact inRange
  · rw [Array.getElem?_eq_none (Nat.le_of_not_lt inRange)] at follows
    cases follows

/-! ## Writing one value at several positions -/

theorem size_foldl_setIfInBounds {α : Type} (values : Array α) (ids : List Nat) (value : α) :
    (ids.foldl (fun values id => values.setIfInBounds id value) values).size =
      values.size := by
  induction ids generalizing values with
  | nil => rfl
  | cons id rest inductionHypothesis =>
      rw [List.foldl_cons, inductionHypothesis, Array.size_setIfInBounds]

theorem getElem?_foldl_setIfInBounds {α : Type} (values : Array α) (ids : List Nat)
    (value : α) (index : Nat) :
    (ids.foldl (fun values id => values.setIfInBounds id value) values)[index]? =
      if index ∈ ids then values[index]?.map fun _ => value else values[index]? := by
  induction ids generalizing values with
  | nil => simp
  | cons id rest inductionHypothesis =>
      rw [List.foldl_cons, inductionHypothesis, Array.getElem?_setIfInBounds]
      by_cases same : id = index
      · subst same
        by_cases inRange : id < values.size <;> simp [inRange]
      · by_cases member : index ∈ rest <;> simp [same, Ne.symm same, member]

/-! ## Splitting an ordered list -/

/-- In a list whose members fall below the mark once and for all, what stands
before the first one below are the others. -/
theorem mem_takeWhile_iff {α : Type} {mark : α → Bool} {listed : List α}
    (ordered : listed.Pairwise fun before after => mark after = true → mark before = true)
    (member : α) :
    member ∈ listed.takeWhile mark ↔ member ∈ listed ∧ mark member = true := by
  induction listed with
  | nil => simp
  | cons head rest inductionHypothesis =>
      have parts := List.pairwise_cons.mp ordered
      cases marked : mark head with
      | true =>
          rw [List.takeWhile_cons, if_pos marked, List.mem_cons, inductionHypothesis parts.2,
            List.mem_cons]
          constructor
          · rintro (same | further)
            · exact ⟨Or.inl same, same ▸ marked⟩
            · exact ⟨Or.inr further.1, further.2⟩
          · rintro ⟨same | further, above⟩
            · exact Or.inl same
            · exact Or.inr ⟨further, above⟩
      | false =>
          rw [List.takeWhile_cons, if_neg (by simp [marked])]
          refine ⟨fun impossible => absurd impossible List.not_mem_nil, ?_⟩
          rintro ⟨present, above⟩
          rcases List.mem_cons.mp present with same | further
          · rw [same, marked] at above
            cases above
          · have contrary := parts.1 member further above
            rw [marked] at contrary
            cases contrary

theorem mem_dropWhile_iff {α : Type} {mark : α → Bool} {listed : List α}
    (ordered : listed.Pairwise fun before after => mark after = true → mark before = true)
    (member : α) :
    member ∈ listed.dropWhile mark ↔ member ∈ listed ∧ mark member = false := by
  induction listed with
  | nil => simp
  | cons head rest inductionHypothesis =>
      have parts := List.pairwise_cons.mp ordered
      cases marked : mark head with
      | true =>
          rw [List.dropWhile_cons, if_pos marked, inductionHypothesis parts.2, List.mem_cons]
          constructor
          · rintro ⟨further, below⟩
            exact ⟨Or.inr further, below⟩
          · rintro ⟨same | further, below⟩
            · rw [same, marked] at below
              cases below
            · exact ⟨further, below⟩
      | false =>
          rw [List.dropWhile_cons, if_neg (by simp [marked])]
          refine ⟨fun present => ⟨present, ?_⟩, fun both => both.1⟩
          rcases List.mem_cons.mp present with same | further
          · rw [same, marked]
          · cases below : mark member with
            | false => rfl
            | true =>
                have contrary := parts.1 member further below
                rw [marked] at contrary
                cases contrary

/-! ## The invariant -/

namespace Search

/-- What the search knows, where `inHand` are the edges that left their frame
and were not looked at yet. -/
structure Invariant (automaton : Automaton) (inHand : StateId → StateId → Prop)
    (search : Search) : Prop where
  size_eq : search.progress.size = automaton.size
  /-- The path holds the numbered states, the latest first. -/
  mem_path_iff : ∀ id : StateId, id ∈ search.path ↔
    ∃ number, search.progress[id]? = some (.onPath number)
  path_ordered : search.path.Pairwise fun later earlier => ∀ {high low : Nat},
    search.progress[later]? = some (.onPath high) →
      search.progress[earlier]? = some (.onPath low) → low < high
  number_lt : ∀ {id : StateId} {number : Nat}, search.progress[id]? = some (.onPath number) →
    number < search.next
  /-- The states being searched stand on the path in the same order. -/
  frames_sublist : (search.frames.map Prod.fst).Sublist search.path
  frame_edge : ∀ {id : StateId} {followers : List StateId}, (id, followers) ∈ search.frames →
    followers ⊆ automaton.followers id
  groups_ordered : search.groups.Pairwise fun higher lower => lower < higher
  /-- The first state of a group is still being searched. -/
  group_frame : ∀ {lowest}, lowest ∈ search.groups →
    ∃ id : StateId, id ∈ search.frames.map Prod.fst ∧ search.progress[id]? = some (.onPath lowest)
  group_below : ∀ {id : StateId} {number : Nat}, search.progress[id]? = some (.onPath number) →
    ∃ lowest, lowest ∈ search.groups ∧ lowest ≤ number
  /-- A state on the path reaches those of its own group and of the groups above. -/
  path_reaches : ∀ {source target : StateId} {low high : Nat},
    search.progress[source]? = some (.onPath low) →
      search.progress[target]? = some (.onPath high) →
        (∀ lowest, lowest ∈ search.groups → lowest ≤ low → lowest ≤ high) →
          Reaches automaton source target
  /-- An edge from the path waits in a frame, is in hand, or leads to an assigned
  state or to one whose group is not below. -/
  path_edge : ∀ {source target : StateId} {low : Nat},
    search.progress[source]? = some (.onPath low) → target ∈ automaton.successors source →
      (∃ followers, (source, followers) ∈ search.frames ∧ target ∈ followers) ∨
      inHand source target ∨ search.progress[target]? = some .assigned ∨
      ∃ high, search.progress[target]? = some (.onPath high) ∧
        ∀ lowest, lowest ∈ search.groups → lowest ≤ low → lowest ≤ high
  assigned_edge : ∀ {source target : StateId}, search.progress[source]? = some .assigned →
    target ∈ automaton.successors source → search.progress[target]? = some .assigned
  /-- The components found hold the assigned states, each once. -/
  mem_found_iff : ∀ id : StateId, id ∈ search.found.flatten ↔ search.progress[id]? = some .assigned
  found_nodup : search.found.flatten.Nodup
  found_ne_nil : ∀ {component}, component ∈ search.found → component ≠ []
  found_reaches : ∀ {component source target}, component ∈ search.found →
    source ∈ component → target ∈ component → Reaches automaton source target
  /-- No edge leads from a component to one found later. -/
  found_ordered : search.found.Pairwise fun later earlier => ∀ {source target : StateId},
    source ∈ earlier → target ∈ later → target ∉ automaton.successors source
  /-- What has not been seen will be tried as a root. -/
  roots_cover : ∀ {id : StateId}, search.progress[id]? = some .unseen → id ∈ search.roots

namespace Invariant

variable {automaton : Automaton} {inHand : StateId → StateId → Prop} {search : Search}
  {id follower : StateId} {followers : List StateId} {frames : List (StateId × List StateId)}

theorem initial (automaton : Automaton) :
    Invariant automaton (fun _ _ => False) (initial automaton) := by
  have unseen : ∀ {id : StateId} {progress},
      (Search.initial automaton).progress[id]? = some progress → progress = .unseen := by
    intro id progress found
    rw [Search.initial, Array.getElem?_replicate] at found
    by_cases inRange : id < automaton.size
    · rw [if_pos inRange] at found
      exact (Option.some.inj found).symm
    · rw [if_neg inRange] at found
      cases found
  have notOnPath : ∀ {id : StateId} {number : Nat} {conclusion : Prop},
      (Search.initial automaton).progress[id]? = some (.onPath number) → conclusion :=
    fun found => Progress.noConfusion (unseen found)
  have notAssigned : ∀ {id : StateId} {conclusion : Prop},
      (Search.initial automaton).progress[id]? = some .assigned → conclusion :=
    fun found => Progress.noConfusion (unseen found)
  constructor
  case size_eq => exact Array.size_replicate
  case mem_path_iff =>
    intro id
    refine ⟨fun member => absurd member List.not_mem_nil, ?_⟩
    rintro ⟨number, found⟩
    exact notOnPath found
  case path_ordered => exact List.Pairwise.nil
  case number_lt => exact fun found => notOnPath found
  case frames_sublist => exact List.Sublist.refl []
  case frame_edge => exact fun member => absurd member List.not_mem_nil
  case groups_ordered => exact List.Pairwise.nil
  case group_frame => exact fun member => absurd member List.not_mem_nil
  case group_below => exact fun found => notOnPath found
  case path_reaches => exact fun found _ _ => notOnPath found
  case path_edge => exact fun found _ => notOnPath found
  case assigned_edge => exact fun found _ => notAssigned found
  case mem_found_iff =>
    intro id
    exact ⟨fun member => absurd member List.not_mem_nil, fun found => notAssigned found⟩
  case found_nodup => exact List.nodup_nil
  case found_ne_nil => exact fun member => absurd member List.not_mem_nil
  case found_reaches => exact fun member _ _ => absurd member List.not_mem_nil
  case found_ordered => exact List.Pairwise.nil
  case roots_cover =>
    intro id found
    have inRange := Array.getElem?_eq_some_iff.mp found
    rcases inRange with ⟨bound, _⟩
    rw [Search.initial, Array.size_replicate] at bound
    exact List.mem_range.mpr bound

/-! ## Entering a state -/

theorem progress_enter (unseen : search.progress[id]? = some .unseen) (other : StateId) :
    (search.enter automaton id).progress[other]? =
      if other = id then some (.onPath search.next) else search.progress[other]? := by
  rcases Array.getElem?_eq_some_iff.mp unseen with ⟨inRange, _⟩
  rw [Search.enter, Array.getElem?_setIfInBounds]
  by_cases same : id = other
  · rw [if_pos same, if_pos same.symm, if_pos (same ▸ inRange)]
  · rw [if_neg same, if_neg (Ne.symm same)]

theorem onPath_enter (unseen : search.progress[id]? = some .unseen) {other : StateId}
    {number : Nat}
    (found : (search.enter automaton id).progress[other]? = some (.onPath number)) :
    (other = id ∧ number = search.next) ∨
      (other ≠ id ∧ search.progress[other]? = some (.onPath number)) := by
  rw [progress_enter unseen] at found
  by_cases same : other = id
  · rw [if_pos same] at found
    exact Or.inl ⟨same, (Progress.onPath.inj (Option.some.inj found)).symm⟩
  · rw [if_neg same] at found
    exact Or.inr ⟨same, found⟩

theorem assigned_enter (unseen : search.progress[id]? = some .unseen) (other : StateId) :
    (search.enter automaton id).progress[other]? = some .assigned ↔
      search.progress[other]? = some .assigned := by
  rw [progress_enter unseen]
  by_cases same : other = id
  · rw [if_pos same, same, unseen]
    simp
  · rw [if_neg same]

/-- Entering an unseen state that the whole path reaches, when at most edges to
this state are in hand. -/
theorem enter (invariant : Invariant automaton inHand search)
    (unseen : search.progress[id]? = some .unseen)
    (led : ∀ {source : StateId} {number : Nat},
      search.progress[source]? = some (.onPath number) → Reaches automaton source id)
    (only : ∀ {source target}, inHand source target → target = id) :
    Invariant automaton (fun _ _ => False) (search.enter automaton id) := by
  have entered : (search.enter automaton id).progress[id]? = some (.onPath search.next) := by
    rw [progress_enter unseen, if_pos rfl]
  have kept : ∀ {other : StateId} {number : Nat},
      search.progress[other]? = some (.onPath number) →
        (search.enter automaton id).progress[other]? = some (.onPath number) := by
    intro other number found
    rw [progress_enter unseen, if_neg]
    · exact found
    · rintro rfl
      rw [unseen] at found
      cases found
  constructor
  case size_eq => exact (Array.size_setIfInBounds).trans invariant.size_eq
  case mem_path_iff =>
    intro other
    constructor
    · intro member
      rcases List.mem_cons.mp member with rfl | before
      · exact ⟨search.next, entered⟩
      · rcases (invariant.mem_path_iff other).mp before with ⟨number, found⟩
        exact ⟨number, kept found⟩
    · rintro ⟨number, found⟩
      rcases onPath_enter unseen found with ⟨rfl, _⟩ | ⟨_, before⟩
      · exact List.mem_cons_self
      · exact List.mem_cons_of_mem _ ((invariant.mem_path_iff other).mpr ⟨number, before⟩)
  case path_ordered =>
    refine List.pairwise_cons.mpr ⟨?_, ?_⟩
    · intro earlier member high low foundHigh foundLow
      rcases (invariant.mem_path_iff earlier).mp member with ⟨number, found⟩
      have lowEq := Progress.onPath.inj (Option.some.inj (foundLow.symm.trans (kept found)))
      have highEq := Progress.onPath.inj (Option.some.inj (foundHigh.symm.trans entered))
      rw [lowEq, highEq]
      exact invariant.number_lt found
    · refine invariant.path_ordered.imp_of_mem ?_
      intro later earlier laterMember earlierMember ordered high low foundHigh foundLow
      rcases (invariant.mem_path_iff later).mp laterMember with ⟨m, foundLater⟩
      rcases (invariant.mem_path_iff earlier).mp earlierMember with ⟨n, foundEarlier⟩
      have highEq := Progress.onPath.inj (Option.some.inj (foundHigh.symm.trans (kept foundLater)))
      have lowEq := Progress.onPath.inj (Option.some.inj (foundLow.symm.trans (kept foundEarlier)))
      rw [lowEq, highEq]
      exact ordered foundLater foundEarlier
  case number_lt =>
    intro other number found
    show number < search.next + 1
    rcases onPath_enter unseen found with ⟨_, rfl⟩ | ⟨_, before⟩
    · exact Nat.lt_succ_self _
    · exact Nat.lt_succ_of_lt (invariant.number_lt before)
  case frames_sublist => exact invariant.frames_sublist.cons_cons id
  case frame_edge =>
    intro other waiting framed
    rcases List.mem_cons.mp framed with same | before
    · cases same
      exact List.Subset.refl _
    · exact invariant.frame_edge before
  case groups_ordered =>
    refine List.pairwise_cons.mpr ⟨?_, invariant.groups_ordered⟩
    intro lowest member
    rcases invariant.group_frame member with ⟨other, _, found⟩
    exact invariant.number_lt found
  case group_frame =>
    intro lowest member
    rcases List.mem_cons.mp member with rfl | before
    · exact ⟨id, List.mem_cons_self, entered⟩
    · rcases invariant.group_frame before with ⟨other, framed, found⟩
      exact ⟨other, List.mem_cons_of_mem _ framed, kept found⟩
  case group_below =>
    intro other number found
    rcases onPath_enter unseen found with ⟨_, rfl⟩ | ⟨_, before⟩
    · exact ⟨search.next, List.mem_cons_self, Nat.le_refl _⟩
    · rcases invariant.group_below before with ⟨lowest, member, below⟩
      exact ⟨lowest, List.mem_cons_of_mem _ member, below⟩
  case path_reaches =>
    intro source target low high foundSource foundTarget grouped
    rcases onPath_enter unseen foundTarget with ⟨rfl, _⟩ | ⟨_, targetBefore⟩
    · rcases onPath_enter unseen foundSource with ⟨rfl, _⟩ | ⟨_, sourceBefore⟩
      · exact .refl
      · exact led sourceBefore
    · rcases onPath_enter unseen foundSource with ⟨_, rfl⟩ | ⟨_, sourceBefore⟩
      · have tooHigh := grouped search.next List.mem_cons_self (Nat.le_refl _)
        exact absurd (invariant.number_lt targetBefore) (Nat.not_lt.mpr tooHigh)
      · exact invariant.path_reaches sourceBefore targetBefore fun lowest member below =>
          grouped lowest (List.mem_cons_of_mem _ member) below
  case path_edge =>
    intro source target low found follows
    have follower := (mem_successors_iff automaton source target).mp follows
    rcases onPath_enter unseen found with ⟨rfl, _⟩ | ⟨_, before⟩
    · exact Or.inl ⟨automaton.followers source, List.mem_cons_self, follower.1⟩
    · have below : ∀ lowest, lowest ∈ (search.enter automaton id).groups → lowest ≤ low →
          lowest ∈ search.groups := by
        intro lowest member under
        rcases List.mem_cons.mp member with rfl | known
        · exact absurd (invariant.number_lt before) (Nat.not_lt.mpr under)
        · exact known
      rcases invariant.path_edge before follows with ⟨waiting, framed, member⟩ | held | done |
        ⟨high, onPath, grouped⟩
      · exact Or.inl ⟨waiting, List.mem_cons_of_mem _ framed, member⟩
      · rw [only held]
        refine Or.inr (Or.inr (Or.inr ⟨search.next, entered, ?_⟩))
        intro lowest member under
        exact Nat.le_trans under (Nat.le_of_lt (invariant.number_lt before))
      · exact Or.inr (Or.inr (Or.inl ((assigned_enter unseen target).mpr done)))
      · refine Or.inr (Or.inr (Or.inr ⟨high, kept onPath, ?_⟩))
        intro lowest member under
        exact grouped lowest (below lowest member under) under
  case assigned_edge =>
    intro source target found follows
    exact (assigned_enter unseen target).mpr
      (invariant.assigned_edge ((assigned_enter unseen source).mp found) follows)
  case mem_found_iff =>
    intro other
    exact (invariant.mem_found_iff other).trans (assigned_enter unseen other).symm
  case found_nodup => exact invariant.found_nodup
  case found_ne_nil => exact invariant.found_ne_nil
  case found_reaches => exact invariant.found_reaches
  case found_ordered => exact invariant.found_ordered
  case roots_cover =>
    intro other found
    rw [progress_enter unseen] at found
    by_cases same : other = id
    · rw [if_pos same] at found
      cases found
    · rw [if_neg same] at found
      exact invariant.roots_cover found

/-! ## Looking at an edge -/

/-- Whatever is being searched is on the path. -/
theorem onPath_of_frame (invariant : Invariant automaton inHand search)
    (framed : id ∈ search.frames.map Prod.fst) :
    ∃ number, search.progress[id]? = some (.onPath number) :=
  (invariant.mem_path_iff id).mp (invariant.frames_sublist.subset framed)

/-- The frames below the topmost belong to states entered before its state. -/
theorem number_lt_of_frame_below (invariant : Invariant automaton inHand search)
    (top : search.frames = (id, followers) :: frames) {other : StateId} {high low : Nat}
    (framed : other ∈ frames.map Prod.fst)
    (foundHigh : search.progress[id]? = some (.onPath high))
    (foundLow : search.progress[other]? = some (.onPath low)) : low < high := by
  have ordered := invariant.path_ordered.sublist invariant.frames_sublist
  rw [top] at ordered
  exact (List.pairwise_cons.mp ordered).1 other framed foundHigh foundLow

/-- No group begins above the state being searched. -/
theorem group_le_of_top (invariant : Invariant automaton inHand search)
    (top : search.frames = (id, followers) :: frames) {number lowest : Nat}
    (found : search.progress[id]? = some (.onPath number))
    (member : lowest ∈ search.groups) : lowest ≤ number := by
  rcases invariant.group_frame member with ⟨other, framed, foundOther⟩
  rw [top] at framed
  rcases List.mem_cons.mp framed with rfl | below
  · exact Nat.le_of_eq (Progress.onPath.inj (Option.some.inj (foundOther.symm.trans found)))
  · exact Nat.le_of_lt (invariant.number_lt_of_frame_below top below found foundOther)

/-- The whole path reaches the state being searched. -/
theorem reaches_top (invariant : Invariant automaton inHand search)
    (top : search.frames = (id, followers) :: frames) {source : StateId} {low : Nat}
    (found : search.progress[source]? = some (.onPath low)) : Reaches automaton source id := by
  have framed : id ∈ search.frames.map Prod.fst := by
    rw [top]
    exact List.mem_cons_self
  rcases invariant.onPath_of_frame framed with ⟨number, foundTop⟩
  exact invariant.path_reaches found foundTop fun lowest member _ =>
    invariant.group_le_of_top top foundTop member

/-- The next edge of the topmost frame is taken in hand. -/
theorem take (invariant : Invariant automaton (fun _ _ => False) search)
    (top : search.frames = (id, follower :: followers) :: frames) :
    Invariant automaton (fun source target => source = id ∧ target = follower)
      { search with frames := (id, followers) :: frames } := by
  have sameStates : ((id, followers) :: frames).map Prod.fst = search.frames.map Prod.fst := by
    rw [top]
    rfl
  refine { invariant with
    frames_sublist := ?_, frame_edge := ?_, group_frame := ?_, path_edge := ?_ }
  · show (((id, followers) :: frames).map Prod.fst).Sublist search.path
    rw [sameStates]
    exact invariant.frames_sublist
  · intro other waiting framed
    rcases List.mem_cons.mp framed with same | below
    · cases same
      have whole := invariant.frame_edge (top ▸ List.mem_cons_self)
      exact (List.cons_subset.mp whole).2
    · exact invariant.frame_edge (top ▸ List.mem_cons_of_mem _ below)
  · intro lowest member
    show ∃ other, other ∈ ((id, followers) :: frames).map Prod.fst ∧ _
    rw [sameStates]
    exact invariant.group_frame member
  · intro source target low found follows
    rcases invariant.path_edge found follows with ⟨waiting, framed, member⟩ | held | known
    · rw [top] at framed
      rcases List.mem_cons.mp framed with same | below
      · cases same
        rcases List.mem_cons.mp member with same | later
        · exact Or.inr (Or.inl ⟨rfl, same⟩)
        · exact Or.inl ⟨followers, List.mem_cons_self, later⟩
      · exact Or.inl ⟨waiting, List.mem_cons_of_mem _ below, member⟩
    · exact held.elim
    · exact Or.inr (Or.inr known)

/-- A follower on the path joins all groups above its own. -/
theorem join (invariant : Invariant automaton
      (fun source target => source = id ∧ target = follower) search)
    (top : search.frames = (id, followers) :: frames)
    (follows : follower ∈ automaton.successors id) {number : Nat}
    (met : search.progress[follower]? = some (.onPath number)) :
    Invariant automaton (fun _ _ => False)
      { search with groups := search.groups.dropWhile fun lowest => number < lowest } := by
  have mem_groups : ∀ lowest,
      lowest ∈ search.groups.dropWhile (fun lowest => number < lowest) ↔
        lowest ∈ search.groups ∧ lowest ≤ number := by
    intro lowest
    rw [mem_dropWhile_iff]
    · simp
    · refine invariant.groups_ordered.imp ?_
      intro higher lower below marked
      have above := of_decide_eq_true marked
      exact decide_eq_true (Nat.lt_trans above below)
  refine { invariant with
    groups_ordered := ?_, group_frame := ?_, group_below := ?_, path_reaches := ?_,
    path_edge := ?_ }
  · exact invariant.groups_ordered.sublist (List.dropWhile_sublist _)
  · intro lowest member
    exact invariant.group_frame ((mem_groups lowest).mp member).1
  · intro other entered found
    rcases invariant.group_below found with ⟨lowest, member, below⟩
    rcases invariant.group_below met with ⟨joined, joinedMember, joinedBelow⟩
    by_cases kept : lowest ≤ number
    · exact ⟨lowest, (mem_groups lowest).mpr ⟨member, kept⟩, below⟩
    · exact ⟨joined, (mem_groups joined).mpr ⟨joinedMember, joinedBelow⟩, by omega⟩
  · intro source target low high foundSource foundTarget grouped
    by_cases within : ∀ lowest, lowest ∈ search.groups → lowest ≤ low → lowest ≤ high
    · exact invariant.path_reaches foundSource foundTarget within
    -- Otherwise the groups between the two were joined: the way leads around
    -- the edge that was looked at.
    · have above : number < low := by
        refine Nat.lt_of_not_le fun contrary => within ?_
        intro lowest member below
        exact grouped lowest
          ((mem_groups lowest).mpr ⟨member, Nat.le_trans below contrary⟩) below
      have fromFollower : Reaches automaton follower target := by
        refine invariant.path_reaches met foundTarget ?_
        intro lowest member below
        exact grouped lowest ((mem_groups lowest).mpr ⟨member, below⟩)
          (Nat.le_trans below (Nat.le_of_lt above))
      exact (invariant.reaches_top top foundSource).trans (.head follows fromFollower)
  · intro source target low found edge
    rcases invariant.path_edge found edge with waiting | ⟨rfl, rfl⟩ | done |
      ⟨high, onPath, grouped⟩
    · exact Or.inl waiting
    · refine Or.inr (Or.inr (Or.inr ⟨number, met, ?_⟩))
      intro lowest member _
      exact ((mem_groups lowest).mp member).2
    · exact Or.inr (Or.inr (Or.inl done))
    · refine Or.inr (Or.inr (Or.inr ⟨high, onPath, ?_⟩))
      intro lowest member below
      exact grouped lowest ((mem_groups lowest).mp member).1 below

/-- An edge in hand is let go when it leads to an assigned state or nowhere. -/
theorem letGo (invariant : Invariant automaton inHand search)
    (settled : ∀ {source target : StateId}, inHand source target →
      target ∈ automaton.successors source → search.progress[target]? = some .assigned) :
    Invariant automaton (fun _ _ => False) search := by
  refine { invariant with path_edge := ?_ }
  intro source target low found follows
  rcases invariant.path_edge found follows with waiting | held | known
  · exact Or.inl waiting
  · exact Or.inr (Or.inr (Or.inl (settled held follows)))
  · exact Or.inr (Or.inr known)

theorem follow (invariant : Invariant automaton
      (fun source target => source = id ∧ target = follower) search)
    (top : search.frames = (id, followers) :: frames)
    (listed : follower ∈ automaton.followers id) :
    Invariant automaton (fun _ _ => False) (search.follow automaton follower) := by
  have exists_of_progress : ∀ {progress}, search.progress[follower]? = some progress →
      follower ∈ automaton.successors id := by
    intro progress found
    rcases Array.getElem?_eq_some_iff.mp found with ⟨inRange, _⟩
    rw [invariant.size_eq] at inRange
    exact (mem_successors_iff automaton id follower).mpr ⟨listed, inRange⟩
  cases found : search.progress[follower]? with
  | none =>
      rw [show search.follow automaton follower = search by simp only [Search.follow, found]]
      refine invariant.letGo ?_
      rintro source target ⟨rfl, rfl⟩ follows
      have inRange := ((mem_successors_iff automaton source target).mp follows).2
      rw [Array.getElem?_eq_none_iff, invariant.size_eq] at found
      exact absurd inRange (Nat.not_lt.mpr found)
  | some progress =>
      have follows := exists_of_progress found
      cases progress with
      | unseen =>
          rw [show search.follow automaton follower = search.enter automaton follower by
            simp only [Search.follow, found]]
          refine invariant.enter found ?_ ?_
          · intro source number onPath
            exact (invariant.reaches_top top onPath).tail follows
          · rintro source target ⟨_, same⟩
            exact same
      | onPath number =>
          rw [show search.follow automaton follower = { search with
            groups := search.groups.dropWhile fun lowest => number < lowest } by
              simp only [Search.follow, found]]
          exact invariant.join top follows found
      | assigned =>
          rw [show search.follow automaton follower = search by
            simp only [Search.follow, found]]
          refine invariant.letGo ?_
          rintro source target ⟨_, rfl⟩ _
          exact found

/-! ## Leaving a state -/

/-- A state whose edges were all looked at is left.  It begins no group, so the
group it belongs to is still being searched. -/
theorem pop (invariant : Invariant automaton (fun _ _ => False) search)
    (top : search.frames = (id, []) :: frames) {number : Nat}
    (found : search.progress[id]? = some (.onPath number)) (inside : number ∉ search.groups) :
    Invariant automaton (fun _ _ => False) { search with frames := frames } := by
  refine { invariant with
    frames_sublist := ?_, frame_edge := ?_, group_frame := ?_, path_edge := ?_ }
  · have ordered := invariant.frames_sublist
    rw [top] at ordered
    exact (List.sublist_cons_self id _).trans ordered
  · intro other waiting framed
    exact invariant.frame_edge (top ▸ List.mem_cons_of_mem _ framed)
  · intro lowest member
    rcases invariant.group_frame member with ⟨other, framed, foundOther⟩
    rw [top] at framed
    rcases List.mem_cons.mp framed with rfl | below
    · rw [found] at foundOther
      cases foundOther
      exact absurd member inside
    · exact ⟨other, below, foundOther⟩
  · intro source target low onPath follows
    rcases invariant.path_edge onPath follows with ⟨waiting, framed, member⟩ | known
    · rw [top] at framed
      rcases List.mem_cons.mp framed with same | below
      · cases same
        exact absurd member List.not_mem_nil
      · exact Or.inl ⟨waiting, below, member⟩
    · exact Or.inr known

/-- The states entered from a number on are the first ones of the path. -/
theorem enteredFrom_ordered (invariant : Invariant automaton inHand search) (lowest : Nat) :
    search.path.Pairwise fun later earlier =>
      enteredFrom search.progress lowest earlier = true →
        enteredFrom search.progress lowest later = true := by
  refine invariant.path_ordered.imp_of_mem ?_
  intro later earlier laterMember earlierMember ordered marked
  rcases (invariant.mem_path_iff later).mp laterMember with ⟨high, foundHigh⟩
  rcases (invariant.mem_path_iff earlier).mp earlierMember with ⟨low, foundLow⟩
  have below := ordered foundHigh foundLow
  simp only [enteredFrom, foundLow, foundHigh, decide_eq_true_eq] at marked ⊢
  omega

theorem path_nodup (invariant : Invariant automaton inHand search) : search.path.Nodup := by
  refine invariant.path_ordered.imp_of_mem ?_
  intro later earlier laterMember _ ordered same
  rcases (invariant.mem_path_iff later).mp laterMember with ⟨number, found⟩
  exact Nat.lt_irrefl number (ordered found (same ▸ found))

theorem mem_component_iff (invariant : Invariant automaton inHand search) (lowest : Nat)
    (other : StateId) :
    other ∈ search.path.takeWhile (enteredFrom search.progress lowest) ↔
      ∃ number, search.progress[other]? = some (.onPath number) ∧ lowest ≤ number := by
  rw [mem_takeWhile_iff (invariant.enteredFrom_ordered lowest), invariant.mem_path_iff]
  constructor
  · rintro ⟨⟨number, found⟩, marked⟩
    simp only [enteredFrom, found, decide_eq_true_eq] at marked
    exact ⟨number, found, marked⟩
  · rintro ⟨number, found, above⟩
    refine ⟨⟨number, found⟩, ?_⟩
    simp only [enteredFrom, found, decide_eq_true_eq]
    exact above

theorem mem_rest_iff (invariant : Invariant automaton inHand search) (lowest : Nat)
    (other : StateId) :
    other ∈ search.path.dropWhile (enteredFrom search.progress lowest) ↔
      ∃ number, search.progress[other]? = some (.onPath number) ∧ number < lowest := by
  rw [mem_dropWhile_iff (invariant.enteredFrom_ordered lowest), invariant.mem_path_iff]
  constructor
  · rintro ⟨⟨number, found⟩, marked⟩
    simp only [enteredFrom, found, decide_eq_false_iff_not] at marked
    exact ⟨number, found, Nat.lt_of_not_le marked⟩
  · rintro ⟨number, found, below⟩
    refine ⟨⟨number, found⟩, ?_⟩
    simp only [enteredFrom, found, decide_eq_false_iff_not]
    exact Nat.not_le.mpr below

theorem close_eq (search : Search) (lowest : Nat) (groups : List Nat) :
    search.close lowest groups =
      { search with
        path := search.path.dropWhile (enteredFrom search.progress lowest)
        groups := groups
        progress := (search.path.takeWhile (enteredFrom search.progress lowest)).foldl
          (fun progress id => progress.setIfInBounds id .assigned) search.progress
        found := search.path.takeWhile (enteredFrom search.progress lowest) :: search.found } := by
  rw [Search.close, List.span_eq_takeWhile_dropWhile]

theorem progress_close (search : Search) (lowest : Nat) (groups : List Nat) (other : StateId) :
    (search.close lowest groups).progress[other]? =
      if other ∈ search.path.takeWhile (enteredFrom search.progress lowest) then
        search.progress[other]?.map fun _ => .assigned
      else
        search.progress[other]? := by
  rw [close_eq]
  exact getElem?_foldl_setIfInBounds _ _ _ _

theorem onPath_close_iff (invariant : Invariant automaton inHand search) (lowest : Nat)
    (groups : List Nat) (other : StateId) (number : Nat) :
    (search.close lowest groups).progress[other]? = some (.onPath number) ↔
      search.progress[other]? = some (.onPath number) ∧ number < lowest := by
  rw [progress_close]
  by_cases entered : other ∈ search.path.takeWhile (enteredFrom search.progress lowest)
  · rw [if_pos entered]
    rcases (invariant.mem_component_iff lowest other).mp entered with ⟨known, found, above⟩
    rw [found]
    constructor
    · intro impossible
      cases impossible
    · rintro ⟨same, below⟩
      cases same
      exact absurd below (Nat.not_lt.mpr above)
  · rw [if_neg entered]
    refine ⟨fun found => ⟨found, ?_⟩, fun both => both.1⟩
    exact Nat.lt_of_not_le fun above =>
      entered ((invariant.mem_component_iff lowest other).mpr ⟨number, found, above⟩)

theorem assigned_close_iff (invariant : Invariant automaton inHand search) (lowest : Nat)
    (groups : List Nat) (other : StateId) :
    (search.close lowest groups).progress[other]? = some .assigned ↔
      (∃ number, search.progress[other]? = some (.onPath number) ∧ lowest ≤ number) ∨
        search.progress[other]? = some .assigned := by
  rw [progress_close, ← invariant.mem_component_iff lowest other]
  by_cases entered : other ∈ search.path.takeWhile (enteredFrom search.progress lowest)
  · rw [if_pos entered]
    rcases (invariant.mem_component_iff lowest other).mp entered with ⟨number, found, _⟩
    rw [found]
    exact ⟨fun _ => Or.inl entered, fun _ => rfl⟩
  · rw [if_neg entered]
    exact ⟨Or.inr, fun known => known.resolve_left entered⟩

/-- No state of a closed group is in a component found before. -/
theorem not_mem_found (invariant : Invariant automaton inHand search) {lowest : Nat}
    {other : StateId}
    (member : other ∈ search.path.takeWhile (enteredFrom search.progress lowest)) :
    other ∉ search.found.flatten := by
  intro inFound
  rcases (invariant.mem_component_iff lowest other).mp member with ⟨number, onPath, _⟩
  have done := (invariant.mem_found_iff other).mp inFound
  rw [onPath] at done
  cases done

section Topmost

variable (invariant : Invariant automaton (fun _ _ => False) search)
  (top : search.frames = (id, []) :: frames) {lowest : Nat} {groups : List Nat}
  (found : search.progress[id]? = some (.onPath lowest))
  (grouped : search.groups = lowest :: groups)
include invariant top found

/-- The states that are still being searched stay on the path. -/
theorem frames_sublist_rest :
    (frames.map Prod.fst).Sublist
      (search.path.dropWhile (enteredFrom search.progress lowest)) := by
  have whole := invariant.frames_sublist
  rw [top] at whole
  have sublist := (List.sublist_cons_self id (frames.map Prod.fst)).trans whole
  rw [← List.takeWhile_append_dropWhile (p := enteredFrom search.progress lowest)
    (l := search.path)] at sublist
  rcases List.sublist_append_iff.mp sublist with ⟨front, back, split, frontSublist, backSublist⟩
  have nothing : front = [] := by
    refine List.eq_nil_iff_forall_not_mem.mpr ?_
    intro other member
    rcases (invariant.mem_component_iff lowest other).mp (frontSublist.subset member) with
      ⟨number, onPath, above⟩
    have framed : other ∈ frames.map Prod.fst := split ▸ List.mem_append_left _ member
    exact absurd (invariant.number_lt_of_frame_below top framed found onPath)
      (Nat.not_lt.mpr above)
  rw [split, nothing]
  exact backSublist

/-- The states of the topmost group reach each other. -/
theorem component_reaches {source target : StateId}
    (sourceMember : source ∈ search.path.takeWhile (enteredFrom search.progress lowest))
    (targetMember : target ∈ search.path.takeWhile (enteredFrom search.progress lowest)) :
    Reaches automaton source target := by
  rcases (invariant.mem_component_iff lowest source).mp sourceMember with ⟨low, sourceOnPath, _⟩
  rcases (invariant.mem_component_iff lowest target).mp targetMember with
    ⟨high, targetOnPath, above⟩
  refine invariant.path_reaches sourceOnPath targetOnPath ?_
  intro first firstMember _
  exact Nat.le_trans (invariant.group_le_of_top top found firstMember) above

include grouped in
/-- No edge leads from the topmost group to the groups below it. -/
theorem edge_of_component {source target : StateId} {low : Nat}
    (onPath : search.progress[source]? = some (.onPath low)) (above : lowest ≤ low)
    (follows : target ∈ automaton.successors source) :
    (∃ high, search.progress[target]? = some (.onPath high) ∧ lowest ≤ high) ∨
      search.progress[target]? = some .assigned := by
  rcases invariant.path_edge onPath follows with ⟨waiting, framed, member⟩ | held | done |
    ⟨high, targetOnPath, within⟩
  · rw [top] at framed
    rcases List.mem_cons.mp framed with same | below
    · cases same
      exact absurd member List.not_mem_nil
    · have inFrames : source ∈ frames.map Prod.fst := List.mem_map.mpr ⟨_, below, rfl⟩
      exact absurd (invariant.number_lt_of_frame_below top inFrames found onPath)
        (Nat.not_lt.mpr above)
  · exact held.elim
  · exact Or.inr done
  · exact Or.inl ⟨high, targetOnPath, within lowest (grouped ▸ List.mem_cons_self) above⟩

end Topmost

/-- The state that begins the topmost group is left, and its group is taken off
the path as a component.  By then all edges of the group were looked at. -/
theorem close (invariant : Invariant automaton (fun _ _ => False) search)
    (top : search.frames = (id, []) :: frames) {lowest : Nat} {groups : List Nat}
    (found : search.progress[id]? = some (.onPath lowest))
    (grouped : search.groups = lowest :: groups) :
    Invariant automaton (fun _ _ => False)
      (Search.close { search with frames := frames } lowest groups) := by
  have ordered : ∀ other, other ∈ groups → other < lowest := by
    have pairs := invariant.groups_ordered
    rw [grouped] at pairs
    exact (List.pairwise_cons.mp pairs).1
  have known : ∀ other, other ∈ groups → other ∈ search.groups := by
    intro other member
    rw [grouped]
    exact List.mem_cons_of_mem _ member
  -- The frames play no role in what is closed.
  have closed : Search.close { search with frames := frames } lowest groups =
      { search.close lowest groups with frames := frames } := rfl
  have found_eq : (search.close lowest groups).found =
      search.path.takeWhile (enteredFrom search.progress lowest) :: search.found := by
    rw [close_eq]
  have path_eq : (search.close lowest groups).path =
      search.path.dropWhile (enteredFrom search.progress lowest) := by
    rw [close_eq]
  have onPath_iff := invariant.onPath_close_iff lowest groups
  have assigned_iff := invariant.assigned_close_iff lowest groups
  have component_iff := invariant.mem_component_iff lowest
  rw [closed]
  constructor
  case size_eq =>
    show (search.close lowest groups).progress.size = automaton.size
    rw [close_eq]
    exact (size_foldl_setIfInBounds _ _ _).trans invariant.size_eq
  case mem_path_iff =>
    intro other
    show other ∈ (search.close lowest groups).path ↔ _
    rw [path_eq, invariant.mem_rest_iff lowest other]
    constructor
    · rintro ⟨number, onPath, below⟩
      exact ⟨number, (onPath_iff other number).mpr ⟨onPath, below⟩⟩
    · rintro ⟨number, onPath⟩
      exact ⟨number, (onPath_iff other number).mp onPath⟩
  case path_ordered =>
    show (search.close lowest groups).path.Pairwise _
    rw [path_eq]
    refine (invariant.path_ordered.sublist (List.dropWhile_sublist _)).imp ?_
    intro later earlier before high low foundHigh foundLow
    exact before ((onPath_iff later high).mp foundHigh).1 ((onPath_iff earlier low).mp foundLow).1
  case number_lt =>
    intro other number onPath
    exact invariant.number_lt ((onPath_iff other number).mp onPath).1
  case frames_sublist =>
    show (frames.map Prod.fst).Sublist (search.close lowest groups).path
    rw [path_eq]
    exact invariant.frames_sublist_rest top found
  case frame_edge =>
    intro other waiting framed
    exact invariant.frame_edge (top ▸ List.mem_cons_of_mem _ framed)
  case groups_ordered =>
    have pairs := invariant.groups_ordered
    rw [grouped] at pairs
    exact (List.pairwise_cons.mp pairs).2
  case group_frame =>
    intro other member
    have under : other < lowest := ordered other member
    rcases invariant.group_frame (known other member) with ⟨first, framed, foundFirst⟩
    rw [top] at framed
    rcases List.mem_cons.mp framed with rfl | below
    · rw [found] at foundFirst
      cases foundFirst
      exact absurd under (Nat.lt_irrefl _)
    · exact ⟨first, below, (onPath_iff first other).mpr ⟨foundFirst, under⟩⟩
  case group_below =>
    intro other number onPath
    rcases (onPath_iff other number).mp onPath with ⟨foundOther, under⟩
    rcases invariant.group_below foundOther with ⟨first, member, below⟩
    rw [grouped] at member
    rcases List.mem_cons.mp member with rfl | kept
    · exact absurd under (Nat.not_lt.mpr below)
    · exact ⟨first, kept, below⟩
  case path_reaches =>
    intro source target low high foundSource foundTarget within
    rcases (onPath_iff source low).mp foundSource with ⟨sourceBefore, lowUnder⟩
    rcases (onPath_iff target high).mp foundTarget with ⟨targetBefore, _⟩
    refine invariant.path_reaches sourceBefore targetBefore ?_
    intro first member below
    rw [grouped] at member
    rcases List.mem_cons.mp member with rfl | kept
    · exact absurd lowUnder (Nat.not_lt.mpr below)
    · exact within first kept below
  case path_edge =>
    intro source target low foundSource follows
    rcases (onPath_iff source low).mp foundSource with ⟨sourceBefore, lowUnder⟩
    rcases invariant.path_edge sourceBefore follows with ⟨waiting, framed, member⟩ | held | done |
      ⟨high, onPath, within⟩
    · rw [top] at framed
      rcases List.mem_cons.mp framed with same | below
      · cases same
        exact absurd member List.not_mem_nil
      · exact Or.inl ⟨waiting, below, member⟩
    · exact held.elim
    · exact Or.inr (Or.inr (Or.inl ((assigned_iff target).mpr (Or.inr done))))
    · by_cases above : lowest ≤ high
      · exact Or.inr (Or.inr (Or.inl ((assigned_iff target).mpr (Or.inl ⟨high, onPath, above⟩))))
      · refine Or.inr (Or.inr (Or.inr ⟨high, ?_, ?_⟩))
        · exact (onPath_iff target high).mpr ⟨onPath, Nat.lt_of_not_le above⟩
        · intro first member below
          exact within first (known first member) below
  case assigned_edge =>
    intro source target foundSource follows
    refine (assigned_iff target).mpr ?_
    rcases (assigned_iff source).mp foundSource with ⟨low, onPath, above⟩ | before
    · exact invariant.edge_of_component top found grouped onPath above follows
    · exact Or.inr (invariant.assigned_edge before follows)
  case mem_found_iff =>
    intro other
    show other ∈ (search.close lowest groups).found.flatten ↔ _
    rw [found_eq, List.flatten_cons, List.mem_append, component_iff other,
      invariant.mem_found_iff other]
    exact (assigned_iff other).symm
  case found_nodup =>
    show (search.close lowest groups).found.flatten.Nodup
    rw [found_eq, List.flatten_cons, List.nodup_append]
    refine ⟨invariant.path_nodup.sublist (List.takeWhile_sublist _), invariant.found_nodup, ?_⟩
    rintro other inComponent _ inFound rfl
    exact invariant.not_mem_found inComponent inFound
  case found_ne_nil =>
    intro component member
    replace member : component ∈ (search.close lowest groups).found := member
    rw [found_eq] at member
    rcases List.mem_cons.mp member with rfl | before
    · exact List.ne_nil_of_mem ((component_iff id).mpr ⟨lowest, found, Nat.le_refl _⟩)
    · exact invariant.found_ne_nil before
  case found_reaches =>
    intro component source target member
    replace member : component ∈ (search.close lowest groups).found := member
    rw [found_eq] at member
    rcases List.mem_cons.mp member with rfl | before
    · exact invariant.component_reaches top found
    · exact invariant.found_reaches before
  case found_ordered =>
    show (search.close lowest groups).found.Pairwise _
    rw [found_eq]
    refine List.pairwise_cons.mpr ⟨?_, invariant.found_ordered⟩
    intro earlier member source target sourceMember targetMember follows
    have sourceFound := List.mem_flatten_of_mem member sourceMember
    have done := invariant.assigned_edge ((invariant.mem_found_iff source).mp sourceFound) follows
    exact invariant.not_mem_found targetMember ((invariant.mem_found_iff target).mpr done)
  case roots_cover =>
    intro other unseen
    refine invariant.roots_cover ?_
    replace unseen : (search.close lowest groups).progress[other]? = some .unseen := unseen
    rw [progress_close] at unseen
    by_cases entered : other ∈ search.path.takeWhile (enteredFrom search.progress lowest)
    · rw [if_pos entered] at unseen
      rcases (component_iff other).mp entered with ⟨number, onPath, _⟩
      rw [onPath] at unseen
      cases unseen
    · rw [if_neg entered] at unseen
      exact unseen

theorem leave (invariant : Invariant automaton (fun _ _ => False) search)
    (top : search.frames = (id, []) :: frames) :
    Invariant automaton (fun _ _ => False)
      (Search.leave { search with frames := frames } id) := by
  have framed : id ∈ search.frames.map Prod.fst := by
    rw [top]
    exact List.mem_cons_self
  rcases invariant.onPath_of_frame framed with ⟨number, found⟩
  rcases invariant.group_below found with ⟨first, member, _⟩
  rcases List.exists_cons_of_ne_nil (List.ne_nil_of_mem member) with ⟨lowest, groups, grouped⟩
  by_cases begins : number = lowest
  · rw [show Search.leave { search with frames := frames } id =
      Search.close { search with frames := frames } lowest groups by
        simp only [Search.leave, found, grouped, if_pos begins]]
    exact invariant.close top (begins ▸ found) grouped
  · rw [show Search.leave { search with frames := frames } id =
      { search with frames := frames } by
        simp only [Search.leave, found, grouped, if_neg begins]]
    refine invariant.pop top found ?_
    intro inside
    have pairs := invariant.groups_ordered
    have highest := invariant.group_le_of_top top found
      (grouped ▸ List.mem_cons_self : lowest ∈ search.groups)
    rw [grouped] at pairs inside
    rcases List.mem_cons.mp inside with same | below
    · exact begins same
    · have under := (List.pairwise_cons.mp pairs).1 number below
      exact absurd under (Nat.not_lt.mpr highest)

/-! ## Starting from a root -/

theorem not_onPath (invariant : Invariant automaton inHand search) (idle : search.frames = [])
    (number : Nat) : search.progress[id]? ≠ some (.onPath number) := by
  intro found
  rcases invariant.group_below found with ⟨lowest, member, _⟩
  rcases invariant.group_frame member with ⟨other, framed, _⟩
  rw [idle] at framed
  exact absurd framed List.not_mem_nil

/-- A root that was seen need not be tried again. -/
theorem dropRoot (invariant : Invariant automaton inHand search) {root : StateId}
    {roots : List StateId} (listed : search.roots = root :: roots)
    (seen : search.progress[root]? ≠ some .unseen) :
    Invariant automaton inHand { search with roots := roots } := by
  refine { invariant with roots_cover := ?_ }
  intro other unseen
  have member := invariant.roots_cover unseen
  rw [listed] at member
  rcases List.mem_cons.mp member with rfl | later
  · exact absurd unseen seen
  · exact later

theorem tryRoot (invariant : Invariant automaton (fun _ _ => False) search)
    (idle : search.frames = []) {root : StateId} {roots : List StateId}
    (listed : search.roots = root :: roots) :
    Invariant automaton (fun _ _ => False)
      (Search.tryRoot automaton { search with roots := roots } root) := by
  by_cases unseen : search.progress[root]? = some .unseen
  · rw [show Search.tryRoot automaton { search with roots := roots } root =
      { search.enter automaton root with roots := roots } by
        simp only [Search.tryRoot, unseen, Search.enter]]
    have entered := invariant.enter unseen
      (fun onPath => absurd onPath (invariant.not_onPath idle _))
      (fun held => held.elim)
    refine entered.dropRoot listed ?_
    rw [progress_enter unseen, if_pos rfl]
    intro contrary
    cases contrary
  · have skipped : Search.tryRoot automaton { search with roots := roots } root =
        { search with roots := roots } := by
      unfold Search.tryRoot
      split
      · next found => exact absurd found unseen
      · rfl
    rw [skipped]
    exact invariant.dropRoot listed unseen

/-! ## Whole runs -/

theorem step (invariant : Invariant automaton (fun _ _ => False) search) :
    Invariant automaton (fun _ _ => False) (search.step automaton) := by
  unfold Search.step
  split
  · next id follower followers frames top =>
      have listed : follower ∈ automaton.followers id :=
        invariant.frame_edge (top ▸ List.mem_cons_self) List.mem_cons_self
      exact (invariant.take top).follow rfl listed
  · next id frames top => exact invariant.leave top
  · next idle =>
      split
      · exact invariant
      · next root roots listed => exact invariant.tryRoot idle listed

theorem run (limit : Nat) (invariant : Invariant automaton (fun _ _ => False) search) :
    Invariant automaton (fun _ _ => False) (search.run automaton limit) := by
  induction limit generalizing search with
  | zero => exact invariant
  | succ limit inductionHypothesis =>
      unfold Search.run
      split
      · exact invariant
      · exact inductionHypothesis invariant.step

end Invariant

end Search

end Automaton

end ModelText
