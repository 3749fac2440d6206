import Mathlib.Algebra.Group.Action.Defs
import Mathlib.Algebra.Order.BigOperators.Group.List
import Mathlib.Algebra.Order.Ring.Nat
import Mathlib.Data.List.Perm.Subperm
import ModelText.Proofs.Automaton.Search

namespace ModelText

/-!
# The components of an automaton

The search ends within its limit: every state is a root once, entered once and
left once, and every follower is looked at once.  A finished search has assigned
all states, and its invariant then says what the components are: they divide the
states, their members reach one another, and no edge leads from a component to a
later one.
-/

namespace Automaton

/-- What it means for lists of states to be the components of an automaton,
sinks first.  That states which reach each other are in one list follows: no way leads
from a list to a later one. -/
structure Condensation (automaton : Automaton) (components : List (List StateId)) : Prop where
  mem_iff : ∀ id : StateId, id ∈ components.flatten ↔ id < automaton.size
  nodup : components.flatten.Nodup
  ne_nil : ∀ {component}, component ∈ components → component ≠ []
  reaches : ∀ {component source target}, component ∈ components →
    source ∈ component → target ∈ component → Reaches automaton source target
  ordered : components.Pairwise fun earlier later => ∀ {source target : StateId},
    source ∈ earlier → target ∈ later → target ∉ automaton.successors source

namespace Search

variable {automaton : Automaton} {search : Search} {id follower : StateId}

/-! ## The work that remains -/

/-- What a state that was not seen still costs: entering it with all its
followers. -/
def unseenCost (automaton : Automaton) (search : Search) (id : StateId) : Nat :=
  if search.progress[id]? = some .unseen then (automaton.followers id).length + 1 else 0

/-- How many steps a search has before it at most. -/
def remaining (automaton : Automaton) (search : Search) : Nat :=
  search.roots.length + (search.frames.map fun frame => frame.2.length + 1).sum +
    ((List.range automaton.size).map (unseenCost automaton search)).sum

/-- A sum falls by what one of its terms falls, as long as none grows. -/
theorem sum_map_add_le {α : Type} {listed : List α} {before after : α → Nat}
    {member : α} {saved : Nat} (present : member ∈ listed)
    (less : after member + saved ≤ before member)
    (noneMore : ∀ other, after other ≤ before other) :
    (listed.map after).sum + saved ≤ (listed.map before).sum := by
  induction listed with
  | nil => exact absurd present List.not_mem_nil
  | cons head rest inductionHypothesis =>
      rw [List.map_cons, List.map_cons, List.sum_cons, List.sum_cons]
      rcases List.mem_cons.mp present with rfl | further
      · have others : (rest.map after).sum ≤ (rest.map before).sum :=
          List.sum_le_sum fun other _ => noneMore other
        omega
      · have others := inductionHypothesis further
        have first := noneMore head
        omega

/-- Entering a state pays for its frame. -/
theorem remaining_enter (size_eq : search.progress.size = automaton.size)
    (unseen : search.progress[id]? = some .unseen) :
    remaining automaton (search.enter automaton id) ≤ remaining automaton search := by
  have inRange : id ∈ List.range automaton.size := by
    rcases Array.getElem?_eq_some_iff.mp unseen with ⟨bound, _⟩
    exact List.mem_range.mpr (size_eq ▸ bound)
  have paid : ((List.range automaton.size).map
        (unseenCost automaton (search.enter automaton id))).sum +
        ((automaton.followers id).length + 1) ≤
      ((List.range automaton.size).map (unseenCost automaton search)).sum := by
    refine sum_map_add_le inRange ?_ ?_
    · rw [unseenCost, unseenCost, if_pos unseen, Invariant.progress_enter unseen, if_pos rfl,
        if_neg (by intro contrary; cases contrary)]
      omega
    · intro other
      rw [unseenCost, unseenCost, Invariant.progress_enter unseen]
      by_cases same : other = id
      · rw [if_pos same, if_neg (by intro contrary; cases contrary)]
        exact Nat.zero_le _
      · rw [if_neg same]
  have framed : (((search.enter automaton id).frames).map fun frame => frame.2.length + 1).sum =
      (automaton.followers id).length + 1 +
        (search.frames.map fun frame => frame.2.length + 1).sum := by
    rw [Search.enter, List.map_cons, List.sum_cons]
  have rooted : (search.enter automaton id).roots = search.roots := rfl
  rw [remaining, remaining, framed, rooted]
  omega

theorem remaining_follow (size_eq : search.progress.size = automaton.size) :
    remaining automaton (search.follow automaton follower) ≤ remaining automaton search := by
  unfold Search.follow
  split
  · next unseen => exact remaining_enter size_eq unseen
  · exact Nat.le_refl _
  · exact Nat.le_refl _

theorem remaining_leave :
    remaining automaton (search.leave id) ≤ remaining automaton search := by
  unfold Search.leave
  split
  · next number lowest groups _ _ =>
      split
      · have cheaper : ((List.range automaton.size).map
              (unseenCost automaton (search.close lowest groups))).sum ≤
            ((List.range automaton.size).map (unseenCost automaton search)).sum := by
          refine List.sum_le_sum ?_
          intro other _
          rw [unseenCost, unseenCost, Invariant.progress_close]
          by_cases closed :
              other ∈ search.path.takeWhile (enteredFrom search.progress lowest)
          · rw [if_pos closed]
            cases search.progress[other]? with
            | none => simp
            | some progress => simp
          · rw [if_neg closed]
        have framed : (search.close lowest groups).frames = search.frames := by
          rw [Invariant.close_eq]
        have rooted : (search.close lowest groups).roots = search.roots := by
          rw [Invariant.close_eq]
        rw [remaining, remaining, framed, rooted]
        omega
      · exact Nat.le_refl _
  · exact Nat.le_refl _

theorem remaining_tryRoot (size_eq : search.progress.size = automaton.size) {root : StateId} :
    remaining automaton (search.tryRoot automaton root) ≤ remaining automaton search := by
  unfold Search.tryRoot
  split
  · next unseen => exact remaining_enter size_eq unseen
  · exact Nat.le_refl _

theorem remaining_step (size_eq : search.progress.size = automaton.size)
    (unfinished : search.isFinished = false) :
    remaining automaton (search.step automaton) < remaining automaton search := by
  unfold Search.step
  split
  · next id follower followers frames top =>
      refine Nat.lt_of_le_of_lt (remaining_follow size_eq) ?_
      rw [remaining, remaining, top]
      simp only [List.map_cons, List.sum_cons, List.length_cons]
      exact Nat.add_lt_add_right (by omega) _
  · next id frames top =>
      refine Nat.lt_of_le_of_lt remaining_leave ?_
      rw [remaining, remaining, top]
      simp only [List.map_cons, List.sum_cons, List.length_nil]
      exact Nat.add_lt_add_right (by omega) _
  · next idle =>
      split
      · next none =>
          rw [isFinished, idle, none] at unfinished
          cases unfinished
      · next root roots listed =>
          have tried : remaining automaton
              (tryRoot automaton { search with roots := roots } root) ≤
                remaining automaton { search with roots := roots } := by
            refine remaining_tryRoot ?_
            exact size_eq
          refine Nat.lt_of_le_of_lt tried ?_
          rw [remaining, remaining, listed]
          simp only [List.length_cons]
          exact Nat.add_lt_add_right (by omega) _

theorem run_isFinished (invariant : Invariant automaton (fun _ _ => False) search)
    (limit : Nat) (enough : remaining automaton search < limit) :
    (search.run automaton limit).isFinished = true := by
  induction limit generalizing search with
  | zero => exact absurd enough (Nat.not_lt_zero _)
  | succ limit inductionHypothesis =>
      unfold Search.run
      cases finished : search.isFinished with
      | true => exact finished
      | false =>
          have less := remaining_step invariant.size_eq finished
          exact inductionHypothesis invariant.step (by omega)

/-! ## The work at the beginning -/

private theorem sum_range_length {α : Type} (listed : List α) (measure : Option α → Nat) :
    ((List.range listed.length).map fun index => measure listed[index]?).sum =
      (listed.map fun member => measure (some member)).sum := by
  induction listed with
  | nil => rfl
  | cons head rest inductionHypothesis =>
      rw [List.length_cons, List.range_succ_eq_map, List.map_cons, List.map_map, List.sum_cons,
        List.map_cons, List.sum_cons, ← inductionHypothesis]
      rfl

private theorem foldl_add_eq {α : Type} (listed : List α) (measure : α → Nat) (total : Nat) :
    listed.foldl (fun total member => total + measure member) total =
      total + (listed.map measure).sum := by
  induction listed generalizing total with
  | nil => rfl
  | cons head rest inductionHypothesis =>
      rw [List.foldl_cons, inductionHypothesis, List.map_cons, List.sum_cons, Nat.add_assoc]

theorem sum_length_followers (automaton : Automaton) :
    ((List.range automaton.size).map fun id => (automaton.followers id).length).sum =
      automaton.followerCount := by
  have summed := sum_range_length automaton.states.toList fun state =>
    ((state.map State.followers).getD []).length
  have counted : automaton.followerCount =
      (automaton.states.toList.map fun state => state.followers.length).sum := by
    rw [followerCount, ← Array.foldl_toList, foldl_add_eq, Nat.zero_add]
  simp only [Array.getElem?_toList, Array.length_toList] at summed
  exact summed.trans counted.symm

theorem remaining_initial (automaton : Automaton) :
    remaining automaton (initial automaton) =
      2 * automaton.size + automaton.followerCount := by
  have costs : (List.range automaton.size).map (unseenCost automaton (initial automaton)) =
      (List.range automaton.size).map fun id => (automaton.followers id).length + 1 := by
    apply List.map_congr_left
    intro id member
    have unseen : (initial automaton).progress[id]? = some .unseen := by
      rw [initial, Array.getElem?_replicate, if_pos (List.mem_range.mp member)]
    rw [unseenCost, if_pos unseen]
  have summed : ((List.range automaton.size).map fun id =>
        (automaton.followers id).length + 1).sum =
      automaton.followerCount + automaton.size := by
    rw [List.sum_map_add, sum_length_followers, List.map_const', List.sum_replicate,
      smul_eq_mul, Nat.mul_one, List.length_range]
  rw [remaining, costs, summed]
  simp only [initial, List.length_range, List.map_nil, List.sum_nil]
  omega

end Search

/-! ## What the search finds -/

open Search in
/-- A finished search has assigned every state. -/
theorem assigned_of_finished {automaton : Automaton} {search : Search}
    (invariant : Invariant automaton (fun _ _ => False) search)
    (finished : search.isFinished = true) {id : StateId} (inRange : id < automaton.size) :
    search.progress[id]? = some .assigned := by
  rw [isFinished, Bool.and_eq_true, List.isEmpty_iff, List.isEmpty_iff] at finished
  cases found : search.progress[id]? with
  | none =>
      rw [Array.getElem?_eq_none_iff, invariant.size_eq] at found
      exact absurd inRange (Nat.not_lt.mpr found)
  | some progress =>
      cases progress with
      | unseen =>
          have pending := invariant.roots_cover found
          rw [finished.2] at pending
          exact absurd pending List.not_mem_nil
      | onPath number => exact absurd found (invariant.not_onPath finished.1 number)
      | assigned => rfl

/-- The components that are found are the strongly connected components, and
they are found sinks first. -/
theorem components_condensation (automaton : Automaton) :
    Condensation automaton automaton.components := by
  have invariant := (Search.Invariant.initial automaton).run
    (2 * automaton.size + automaton.followerCount + 1)
  have finished := Search.run_isFinished (Search.Invariant.initial automaton)
    (2 * automaton.size + automaton.followerCount + 1)
    (by rw [Search.remaining_initial]; exact Nat.lt_succ_self _)
  have reversed := List.reverse_perm ((Search.initial automaton).run automaton
    (2 * automaton.size + automaton.followerCount + 1)).found
  refine ⟨?_, ?_, ?_, ?_, ?_⟩
  · intro id
    rw [components, reversed.flatten.mem_iff, invariant.mem_found_iff]
    constructor
    · intro found
      rcases Array.getElem?_eq_some_iff.mp found with ⟨bound, _⟩
      exact invariant.size_eq ▸ bound
    · exact assigned_of_finished invariant finished
  · exact reversed.flatten.nodup_iff.mpr invariant.found_nodup
  · intro component member
    exact invariant.found_ne_nil (List.mem_reverse.mp member)
  · intro component source target member
    exact invariant.found_reaches (List.mem_reverse.mp member)
  · exact List.pairwise_reverse.mpr invariant.found_ordered

namespace Condensation

variable {automaton : Automaton} {components : List (List StateId)}

theorem length_le (condensation : Condensation automaton components) :
    components.length ≤ automaton.size := by
  have inside : components.flatten ⊆ List.range automaton.size := by
    intro id member
    exact List.mem_range.mpr ((condensation.mem_iff id).mp member)
  have counted := (List.subperm_of_subset condensation.nodup inside).length_le
  rw [List.length_range, List.length_flatten] at counted
  have positive : ∀ component, component ∈ components → 1 ≤ component.length := by
    intro component member
    exact List.length_pos_of_ne_nil (condensation.ne_nil member)
  have ones := List.length_le_sum_of_one_le (components.map List.length) (by
    simpa using positive)
  rw [List.length_map] at ones
  exact Nat.le_trans ones counted

/-- A follower of a member stands in its component or in one found before. -/
theorem mem_of_mem_successors {earlier later : List (List StateId)} {component : List StateId}
    (condensation : Condensation automaton (earlier ++ component :: later))
    {source target : StateId} (member : source ∈ component)
    (follows : target ∈ automaton.successors source) :
    target ∈ component ∨ target ∈ earlier.flatten := by
  have inRange := ((mem_successors_iff automaton source target).mp follows).2
  have present := (condensation.mem_iff target).mpr inRange
  rw [List.flatten_append, List.flatten_cons, List.mem_append, List.mem_append] at present
  rcases present with before | same | after
  · exact Or.inr before
  · exact Or.inl same
  · rcases List.mem_flatten.mp after with ⟨other, otherMember, targetMember⟩
    have ordered := (List.pairwise_append.mp condensation.ordered).2.1
    exact absurd follows ((List.pairwise_cons.mp ordered).1 other otherMember member targetMember)

/-- What a member reaches stands in its component or in one found before. -/
theorem mem_of_reaches {earlier later : List (List StateId)} {component : List StateId}
    (condensation : Condensation automaton (earlier ++ component :: later))
    {source target : StateId} (member : source ∈ component)
    (reaches : Reaches automaton source target) :
    target ∈ component ∨ target ∈ earlier.flatten := by
  induction reaches with
  | refl => exact Or.inl member
  | tail _ follows inductionHypothesis =>
      rcases inductionHypothesis with own | before
      · exact condensation.mem_of_mem_successors own follows
      · obtain ⟨other, listed, otherMember⟩ := List.mem_flatten.mp before
        obtain ⟨front, back, rfl⟩ := List.append_of_mem listed
        rw [List.append_assoc, List.cons_append] at condensation
        have within := condensation.mem_of_mem_successors otherMember follows
        rw [List.flatten_append, List.flatten_cons, List.mem_append, List.mem_append]
        exact Or.inr (within.elim (fun own => Or.inr (Or.inl own)) Or.inl)

theorem mem_of_reaches_back (condensation : Condensation automaton components)
    {component : List StateId} (listed : component ∈ components) {source target : StateId}
    (member : source ∈ component) (reaches : Reaches automaton source target)
    (back : Reaches automaton target source) : target ∈ component := by
  obtain ⟨earlier, later, rfl⟩ := List.append_of_mem listed
  rcases condensation.mem_of_reaches member reaches with own | before
  · exact own
  · -- the component of the target would stand in front and hold the source as well
    obtain ⟨other, otherListed, targetMember⟩ := List.mem_flatten.mp before
    obtain ⟨front, between, rfl⟩ := List.append_of_mem otherListed
    have nodup := condensation.nodup
    rw [List.append_assoc, List.cons_append] at condensation
    have again : source ∈ (front ++ other :: between).flatten := by
      rw [List.flatten_append, List.flatten_cons, List.mem_append, List.mem_append]
      exact (condensation.mem_of_reaches targetMember back).elim
        (fun own => Or.inr (Or.inl own)) Or.inl
    rw [List.flatten_append, List.nodup_append] at nodup
    exact absurd rfl (nodup.2.2 source again source (by simp [member]))

/-- Two states stand in one component exactly if both exist and each reaches the other. -/
theorem exists_component_iff (condensation : Condensation automaton components)
    (source target : StateId) :
    (∃ component ∈ components, source ∈ component ∧ target ∈ component) ↔
      source < automaton.size ∧ target < automaton.size ∧
        Reaches automaton source target ∧ Reaches automaton target source := by
  constructor
  · rintro ⟨component, listed, sourceMember, targetMember⟩
    exact ⟨(condensation.mem_iff source).mp (List.mem_flatten_of_mem listed sourceMember),
      (condensation.mem_iff target).mp (List.mem_flatten_of_mem listed targetMember),
      condensation.reaches listed sourceMember targetMember,
      condensation.reaches listed targetMember sourceMember⟩
  · rintro ⟨sourceInRange, _, reaches, back⟩
    obtain ⟨component, listed, member⟩ :=
      List.mem_flatten.mp ((condensation.mem_iff source).mpr sourceInRange)
    exact ⟨component, listed, member, condensation.mem_of_reaches_back listed member reaches back⟩

end Condensation

end Automaton

end ModelText
