import ModelText.Automaton.Validation
import ModelText.Proofs.Automaton.Components
import ModelText.Proofs.Checks

namespace ModelText

/-!
# Validation accepts well-formed automata

An automaton is well-formed when its start and all followers exist, its tags are features
and its tagged states can be reached.  Validation checks exactly this, and it reports the
start before any state, the first faulty state before any that cannot be reached, and of
a state a missing follower before the tag.

The states that can be reached are marked with a list of pending states.  A state is
marked once, and its followers are pending from then on, so what a marked state leads to
is marked or pending.  When nothing is pending any more the marked states are closed, and
they are those the start reaches.
-/

namespace Automaton

variable {automaton : Automaton} {start id : StateId} {pending : List StateId}
  {seen : Array Bool}

/-! ## Marking the states that can be reached -/

/-- What is known while states are marked from the start.  States are marked or pending only
where the start leads to, and no edge of a marked state is lost. -/
structure Marking (automaton : Automaton) (start : StateId) (pending : List StateId)
    (seen : Array Bool) : Prop where
  size_eq : seen.size = automaton.size
  /-- The start is marked or will be. -/
  start_marked : seen[start]? = some true ∨ start ∈ pending
  pending_reached : ∀ {id : StateId}, id ∈ pending → id < automaton.size →
    Reaches automaton start id
  marked_reached : ∀ {id : StateId}, seen[id]? = some true → Reaches automaton start id
  /-- What a marked state leads to is marked or will be. -/
  edge : ∀ {id next : StateId}, seen[id]? = some true → next ∈ automaton.successors id →
    seen[next]? = some true ∨ next ∈ pending

namespace Marking

theorem initial (automaton : Automaton) (start : StateId) :
    Marking automaton start [start] (Array.replicate automaton.size false) := by
  have unmarked : ∀ id : StateId,
      (Array.replicate automaton.size false)[id]? ≠ some true := by
    intro id marked
    rw [Array.getElem?_replicate] at marked
    split at marked <;> cases marked
  constructor
  case size_eq => exact Array.size_replicate
  case start_marked => exact Or.inr List.mem_cons_self
  case pending_reached =>
    intro id member _
    rw [List.mem_singleton.mp member]
  case marked_reached => exact fun marked => absurd marked (unmarked _)
  case edge => exact fun marked _ => absurd marked (unmarked _)

theorem of_lt (marking : Marking automaton start pending seen) (inRange : id < automaton.size) :
    seen[id]? = some true ∨ seen[id]? = some false := by
  rw [← marking.size_eq] at inRange
  rw [Array.getElem?_eq_getElem inRange]
  cases seen[id] <;> simp

theorem lt_of_marked {mark : Bool} (marking : Marking automaton start pending seen)
    (marked : seen[id]? = some mark) : id < automaton.size := by
  rw [← marking.size_eq]
  exact (Array.getElem?_eq_some_iff.mp marked).1

/-- Visiting a pending state marks it, and its followers are pending. -/
theorem visit (marking : Marking automaton start (id :: pending) seen)
    (unmarked : seen[id]? = some false) :
    Marking automaton start (automaton.followers id ++ pending) (seen.setIfInBounds id true) := by
  have inRange := marking.lt_of_marked unmarked
  have reached := marking.pending_reached List.mem_cons_self inRange
  have marked_iff : ∀ other : StateId, (seen.setIfInBounds id true)[other]? = some true ↔
      other = id ∨ seen[other]? = some true := by
    intro other
    rw [← marking.size_eq] at inRange
    rw [Array.getElem?_setIfInBounds]
    by_cases same : id = other
    · simp [← same, inRange]
    · simp [same, Ne.symm same]
  -- what was marked or pending before is so still, or it is the visited state
  have kept : ∀ {other : StateId}, seen[other]? = some true ∨ other ∈ id :: pending →
      (seen.setIfInBounds id true)[other]? = some true ∨
        other ∈ automaton.followers id ++ pending := by
    rintro other (marked | member)
    · exact Or.inl ((marked_iff other).mpr (Or.inr marked))
    · rcases List.mem_cons.mp member with same | further
      · exact Or.inl ((marked_iff other).mpr (Or.inl same))
      · exact Or.inr (List.mem_append_right _ further)
  constructor
  case size_eq => exact Array.size_setIfInBounds.trans marking.size_eq
  case start_marked => exact kept marking.start_marked
  case pending_reached =>
    intro other member present
    rcases List.mem_append.mp member with follows | further
    · exact reached.tail ((mem_successors_iff automaton id other).mpr ⟨follows, present⟩)
    · exact marking.pending_reached (List.mem_cons_of_mem _ further) present
  case marked_reached =>
    intro other marked
    rcases (marked_iff other).mp marked with rfl | before
    · exact reached
    · exact marking.marked_reached before
  case edge =>
    intro source next marked follows
    rcases (marked_iff source).mp marked with rfl | before
    · have listed := ((mem_successors_iff automaton source next).mp follows).1
      exact Or.inr (List.mem_append_left _ listed)
    · exact kept (marking.edge before follows)

/-- A pending state that is marked or does not exist is passed over. -/
theorem pass (marking : Marking automaton start (id :: pending) seen)
    (start_lt : start < automaton.size) (other : seen[id]? ≠ some false) :
    Marking automaton start pending seen := by
  have kept : ∀ {next : StateId}, next < automaton.size →
      seen[next]? = some true ∨ next ∈ id :: pending →
        seen[next]? = some true ∨ next ∈ pending := by
    rintro next inRange (marked | member)
    · exact Or.inl marked
    · rcases List.mem_cons.mp member with rfl | further
      · exact Or.inl ((marking.of_lt inRange).resolve_right other)
      · exact Or.inr further
  refine { marking with
    start_marked := kept start_lt marking.start_marked, pending_reached := ?_, edge := ?_ }
  · exact fun member => marking.pending_reached (List.mem_cons_of_mem _ member)
  · intro source next marked follows
    have inRange := ((mem_successors_iff automaton source next).mp follows).2
    exact kept inRange (marking.edge marked follows)

/-- When nothing is pending the marked states are those that the start reaches. -/
theorem marked_iff (marking : Marking automaton start [] seen) :
    seen[id]? = some true ↔ Reaches automaton start id := by
  constructor
  · exact marking.marked_reached
  · intro reaches
    have marked : ∀ {id : StateId}, seen[id]? = some true ∨ id ∈ [] → seen[id]? = some true :=
      fun either => either.resolve_right List.not_mem_nil
    induction reaches with
    | refl => exact marked marking.start_marked
    | tail _ follows here => exact marked (marking.edge here follows)

end Marking

/-- What a state that is not marked may still add to the pending states. -/
def unmarkedCost (automaton : Automaton) (seen : Array Bool) (id : StateId) : Nat :=
  if seen[id]? = some false then (automaton.followers id).length else 0

/-- How many pending states there will be at most. -/
def unvisited (automaton : Automaton) (pending : List StateId) (seen : Array Bool) : Nat :=
  pending.length + ((List.range automaton.size).map (automaton.unmarkedCost seen)).sum

theorem unvisited_visit (pending : List StateId) (inRange : id < automaton.size)
    (unmarked : seen[id]? = some false) :
    automaton.unvisited (automaton.followers id ++ pending) (seen.setIfInBounds id true) <
      automaton.unvisited (id :: pending) seen := by
  have bound := (Array.getElem?_eq_some_iff.mp unmarked).1
  have paid : ((List.range automaton.size).map
        (automaton.unmarkedCost (seen.setIfInBounds id true))).sum +
          (automaton.followers id).length ≤
      ((List.range automaton.size).map (automaton.unmarkedCost seen)).sum := by
    refine Search.sum_map_add_le (List.mem_range.mpr inRange) ?_ ?_
    · rw [unmarkedCost, unmarkedCost, if_pos unmarked,
        Array.getElem?_setIfInBounds_self_of_lt bound]
      simp
    · intro other
      rw [unmarkedCost, unmarkedCost, Array.getElem?_setIfInBounds]
      by_cases same : id = other
      · simp [← same, bound]
      · rw [if_neg same]
  rw [unvisited, unvisited, List.length_append, List.length_cons]
  omega

theorem markReachable_iff (limit : Nat) (marking : Marking automaton start pending seen)
    (start_lt : start < automaton.size) (enough : automaton.unvisited pending seen ≤ limit) :
    (automaton.markReachable limit pending seen)[id]? = some true ↔
      Reaches automaton start id := by
  induction limit generalizing pending seen with
  | zero =>
      have nothing : pending = [] := by
        rw [unvisited] at enough
        exact List.length_eq_zero_iff.mp (by omega)
      subst nothing
      exact marking.marked_iff
  | succ limit inductionHypothesis =>
      cases pending with
      | nil => exact marking.marked_iff
      | cons next pending =>
          rw [markReachable]
          split
          · next unmarked =>
              have inRange := marking.lt_of_marked unmarked
              have less := unvisited_visit pending inRange unmarked
              exact inductionHypothesis (marking.visit unmarked) (by omega)
          · next other =>
              rw [unvisited, List.length_cons] at enough
              exact inductionHypothesis (marking.pass start_lt other) (by rw [unvisited]; omega)

theorem unvisited_initial (automaton : Automaton) (start : StateId) :
    automaton.unvisited [start] (Array.replicate automaton.size false) =
      automaton.followerCount + 1 := by
  have costs : (List.range automaton.size).map
      (automaton.unmarkedCost (Array.replicate automaton.size false)) =
        (List.range automaton.size).map fun id => (automaton.followers id).length := by
    apply List.map_congr_left
    intro id member
    rw [unmarkedCost, Array.getElem?_replicate, if_pos (List.mem_range.mp member), if_pos rfl]
  rw [unvisited, costs, Search.sum_length_followers, List.length_singleton, Nat.add_comm]

/-- The states marked as reachable are those that the start reaches. -/
theorem reachableStates_iff (start_lt : automaton.start < automaton.size) :
    automaton.reachableStates[id]? = some true ↔ Reaches automaton automaton.start id := by
  apply markReachable_iff _ (Marking.initial automaton automaton.start) start_lt
  rw [unvisited_initial]

/-! ## Well-formed automata -/

/-- An automaton is well-formed when its start and all followers exist, its tags are features
and the start reaches all tagged states. -/
structure WellFormed (automaton : Automaton) (featureCount : Nat) : Prop where
  start_lt : automaton.start < automaton.size
  follower_lt : ∀ {id follower}, follower ∈ automaton.followers id → follower < automaton.size
  tag_lt : ∀ {id feature}, automaton.feature? id = some feature → feature < featureCount
  reached : ∀ {id feature}, automaton.feature? id = some feature →
    Reaches automaton automaton.start id

/-- A follower is wrong when it does not exist. -/
def FollowerFault (automaton : Automaton) (id follower : StateId) (fault : AnalysisError) : Prop :=
  automaton.size ≤ follower ∧ fault = .danglingFollower automaton.name id follower

/-- A state is wrong for its first missing follower, or for a tag that is no feature when all
its followers exist. -/
inductive StateFault (automaton : Automaton) (featureCount : Nat) (id : StateId) :
    AnalysisError → Prop where
  | follower {fault : AnalysisError} :
      FirstOf (automaton.FollowerFault id) (automaton.followers id) fault →
        StateFault automaton featureCount id fault
  | tag {feature : Nat} :
      (∀ follower ∈ automaton.followers id, follower < automaton.size) →
        automaton.feature? id = some feature → featureCount ≤ feature →
          StateFault automaton featureCount id
            (.featureOutOfRange automaton.name id feature featureCount)

/-- A tagged state is wrong when the start does not reach it. -/
def ReachFault (automaton : Automaton) (id : StateId) (fault : AnalysisError) : Prop :=
  (∃ feature, automaton.feature? id = some feature) ∧ ¬Reaches automaton automaton.start id ∧
    fault = .unreachableState automaton.name id

/-- What is wrong with an automaton: its start, or the first wrong state, or, when no state is
wrong, the first tagged state that the start does not reach. -/
inductive Fault (automaton : Automaton) (featureCount : Nat) : AnalysisError → Prop where
  | start : automaton.size ≤ automaton.start →
      Fault automaton featureCount
        (.startOutOfRange automaton.name automaton.start automaton.size)
  | state {fault : AnalysisError} : automaton.start < automaton.size →
      FirstOf (automaton.StateFault featureCount) (List.range automaton.size) fault →
        Fault automaton featureCount fault
  | reach {fault : AnalysisError} : automaton.start < automaton.size →
      (∀ id < automaton.size, ∀ other, ¬automaton.StateFault featureCount id other) →
        FirstOf automaton.ReachFault (List.range automaton.size) fault →
          Fault automaton featureCount fault

/-! ## Faults are found -/

section Faults

variable {featureCount : Nat} {state : State} {fault : AnalysisError}

theorem firstOf_zipIdx_iff {fails : State × StateId → AnalysisError → Prop}
    {failsAt : StateId → AnalysisError → Prop}
    (same : ∀ state id, automaton.state? id = some state →
      ∀ error, fails (state, id) error ↔ failsAt id error) :
    FirstOf fails automaton.states.toList.zipIdx fault ↔
      FirstOf failsAt (List.range automaton.size) fault := by
  have numbered : automaton.states.toList.zipIdx.map Prod.snd = List.range automaton.size := by
    simp [List.zipIdx_map_snd, List.range_eq_range', size]
  rw [← numbered, firstOf_map_iff]
  apply firstOf_congr
  rintro ⟨state, id⟩ member
  rw [List.mem_zipIdx_iff_getElem?, Array.getElem?_toList] at member
  exact same state id member

/-- A follower of a state is missing, or all are present. -/
theorem firstOf_followerFault_or (automaton : Automaton) (id : StateId) :
    (∃ fault, FirstOf (automaton.FollowerFault id) (automaton.followers id) fault) ∨
      ∀ follower ∈ automaton.followers id, follower < automaton.size := by
  by_cases missing : ∃ follower ∈ automaton.followers id, automaton.size ≤ follower
  · obtain ⟨follower, listed, beyond⟩ := missing
    exact Or.inl (exists_firstOf_iff.mpr ⟨follower, listed, _, beyond, rfl⟩)
  · refine Or.inr fun follower listed => Nat.lt_of_not_le fun beyond => ?_
    exact missing ⟨follower, listed, beyond⟩

theorem not_firstOf_followerFault
    (present : ∀ follower ∈ automaton.followers id, follower < automaton.size) :
    ¬FirstOf (automaton.FollowerFault id) (automaton.followers id) fault := by
  intro first
  obtain ⟨follower, listed, _, beyond, _⟩ := exists_firstOf_iff.mp ⟨fault, first⟩
  exact absurd (present follower listed) (Nat.not_lt.mpr beyond)

theorem stateFault?_eq_some_iff (found : automaton.state? id = some state) :
    automaton.stateFault? featureCount id state = some fault ↔
      automaton.StateFault featureCount id fault := by
  have followers_eq : automaton.followers id = state.followers := by
    rw [followers, found]
    rfl
  have feature_eq : automaton.feature? id = state.feature := by
    rw [feature?, found]
    rfl
  have missing_iff : ∀ error,
      (state.followers.find? fun follower => automaton.size ≤ follower).map
        (.danglingFollower automaton.name id) = some error ↔
          FirstOf (automaton.FollowerFault id) (automaton.followers id) error := by
    intro error
    simp only [map_find?_eq_some_iff_firstOf, followers_eq, decide_eq_true_eq]
    rfl
  rw [stateFault?]
  cases missing : state.followers.find? fun follower => automaton.size ≤ follower with
  | some follower =>
      rw [missing, Option.map_some] at missing_iff
      dsimp only
      rw [missing_iff]
      constructor
      · exact .follower
      · rintro (first | ⟨present, _, _⟩)
        · exact first
        · exact absurd ((missing_iff _).mp rfl) (not_firstOf_followerFault present)
  | none =>
      rw [missing, Option.map_none] at missing_iff
      have present := (firstOf_followerFault_or automaton id).resolve_left fun ⟨_, first⟩ =>
        nomatch (missing_iff _).mpr first
      have tag_iff : automaton.StateFault featureCount id fault ↔
          ∃ feature, state.feature = some feature ∧ featureCount ≤ feature ∧
            .featureOutOfRange automaton.name id feature featureCount = fault := by
        rw [← feature_eq]
        constructor
        · rintro (first | ⟨_, tagged, beyond⟩)
          · exact absurd first (not_firstOf_followerFault present)
          · exact ⟨_, tagged, beyond, rfl⟩
        · rintro ⟨feature, tagged, beyond, rfl⟩
          exact .tag present tagged beyond
      rw [tag_iff]
      cases state.feature with
      | none => simp
      | some feature => simp [Option.ite_none_right_eq_some]

theorem firstStateFault?_eq_some_iff :
    automaton.firstStateFault? featureCount = some fault ↔
      FirstOf (automaton.StateFault featureCount) (List.range automaton.size) fault := by
  rw [firstStateFault?, findSome?_eq_some_iff_firstOf]
  apply firstOf_zipIdx_iff
  exact fun state id found error => stateFault?_eq_some_iff found

theorem firstStateFault?_eq_none_iff :
    automaton.firstStateFault? featureCount = none ↔
      ∀ id < automaton.size, ∀ other, ¬automaton.StateFault featureCount id other := by
  rw [Option.eq_none_iff_forall_ne_some]
  simp only [ne_eq, firstStateFault?_eq_some_iff]
  rw [← not_exists, exists_firstOf_iff]
  simp

theorem map_firstUnreachable?_eq_some_iff (start_lt : automaton.start < automaton.size) :
    automaton.firstUnreachable?.map (.unreachableState automaton.name) = some fault ↔
      FirstOf automaton.ReachFault (List.range automaton.size) fault := by
  rw [firstUnreachable?, Option.map_map, map_find?_eq_some_iff_firstOf]
  apply firstOf_zipIdx_iff
  intro state id found error
  have tagged : state.feature.isSome = true ↔ ∃ feature, automaton.feature? id = some feature := by
    rw [feature?, found, Option.isSome_iff_exists]
    rfl
  rw [ReachFault, ← reachableStates_iff start_lt, ← tagged, Bool.and_eq_true, bne_iff_ne, ne_eq,
    and_assoc]
  rfl

theorem fault?_eq_some_iff :
    automaton.fault? featureCount = some fault ↔ automaton.Fault featureCount fault := by
  rw [fault?]
  by_cases start : automaton.size ≤ automaton.start
  · rw [if_pos start, Option.some.injEq]
    constructor
    · rintro rfl
      exact .start start
    · rintro (_ | ⟨start_lt, _⟩ | ⟨start_lt, _⟩)
      · rfl
      · exact absurd start_lt (Nat.not_lt.mpr start)
      · exact absurd start_lt (Nat.not_lt.mpr start)
  · have start_lt := Nat.lt_of_not_le start
    rw [if_neg start]
    cases found : automaton.firstStateFault? featureCount with
    | some other =>
        constructor
        · rintro ⟨⟩
          exact .state start_lt (firstStateFault?_eq_some_iff.mp found)
        · rintro (beyond | ⟨_, first⟩ | ⟨_, faultless, _⟩)
          · exact absurd beyond start
          · exact found.symm.trans (firstStateFault?_eq_some_iff.mpr first)
          · cases found.symm.trans (firstStateFault?_eq_none_iff.mpr faultless)
    | none =>
        have faultless := firstStateFault?_eq_none_iff.mp found
        dsimp only
        rw [map_firstUnreachable?_eq_some_iff start_lt]
        constructor
        · exact .reach start_lt faultless
        · rintro (beyond | ⟨_, first⟩ | ⟨_, _, first⟩)
          · exact absurd beyond start
          · cases found.symm.trans (firstStateFault?_eq_some_iff.mpr first)
          · exact first

theorem WellFormed.not_fault (wellFormed : automaton.WellFormed featureCount) :
    ¬automaton.Fault featureCount fault := by
  rintro (beyond | ⟨_, first⟩ | ⟨_, _, first⟩)
  · exact absurd wellFormed.start_lt (Nat.not_lt.mpr beyond)
  · obtain ⟨id, _, _, wrong | ⟨_, tagged, beyond⟩⟩ := exists_firstOf_iff.mp ⟨fault, first⟩
    · exact not_firstOf_followerFault (fun _ => wellFormed.follower_lt) wrong
    · exact absurd (wellFormed.tag_lt tagged) (Nat.not_lt.mpr beyond)
  · obtain ⟨id, _, _, ⟨_, tagged⟩, unreached, _⟩ := exists_firstOf_iff.mp ⟨fault, first⟩
    exact unreached (wellFormed.reached tagged)

theorem lt_size_of_feature? {feature : Nat} (tagged : automaton.feature? id = some feature) :
    id < automaton.size := by
  obtain ⟨state, found, _⟩ := Option.bind_eq_some_iff.mp tagged
  exact (Array.getElem?_eq_some_iff.mp found).1

theorem follower_lt_of_not_stateFault
    (faultless : ∀ id < automaton.size, ∀ other, ¬automaton.StateFault featureCount id other)
    {follower : StateId} (listed : follower ∈ automaton.followers id) :
    follower < automaton.size := by
  have present := (firstOf_followerFault_or automaton id).resolve_left fun ⟨fault, first⟩ =>
    faultless id (lt_size_of_mem_followers listed) fault (.follower first)
  exact present follower listed

theorem wellFormed_of_not_fault (faultless : ∀ fault, ¬automaton.Fault featureCount fault) :
    automaton.WellFormed featureCount := by
  have start_lt : automaton.start < automaton.size :=
    Nat.lt_of_not_le fun beyond => faultless _ (.start beyond)
  have states : ∀ id < automaton.size, ∀ other, ¬automaton.StateFault featureCount id other := by
    intro id inRange other wrong
    obtain ⟨fault, first⟩ :=
      exists_firstOf_iff.mpr ⟨id, List.mem_range.mpr inRange, other, wrong⟩
    exact faultless fault (.state start_lt first)
  constructor
  case start_lt => exact start_lt
  case follower_lt => exact follower_lt_of_not_stateFault states
  case tag_lt =>
    intro id feature tagged
    have inRange := lt_size_of_feature? tagged
    apply Nat.lt_of_not_le
    intro beyond
    exact states id inRange _
      (.tag (fun _ => follower_lt_of_not_stateFault states) tagged beyond)
  case reached =>
    intro id feature tagged
    by_contra unreached
    have listed := List.mem_range.mpr (lt_size_of_feature? tagged)
    have wrong : automaton.ReachFault id (.unreachableState automaton.name id) :=
      ⟨⟨feature, tagged⟩, unreached, rfl⟩
    obtain ⟨fault, first⟩ := exists_firstOf_iff.mpr ⟨id, listed, _, wrong⟩
    exact faultless fault (.reach start_lt states first)

/-- Nothing is wrong with an automaton exactly when it is well-formed. -/
theorem fault?_eq_none_iff :
    automaton.fault? featureCount = none ↔ automaton.WellFormed featureCount := by
  rw [Option.eq_none_iff_forall_ne_some]
  constructor
  · intro none
    exact wellFormed_of_not_fault fun fault wrong => none fault (fault?_eq_some_iff.mpr wrong)
  · intro wellFormed fault found
    exact wellFormed.not_fault (fault?_eq_some_iff.mp found)

theorem validate_eq_ok_iff :
    automaton.validate featureCount = .ok () ↔ automaton.WellFormed featureCount := by
  rw [← fault?_eq_none_iff, validate]
  cases automaton.fault? featureCount <;> simp

theorem validate_eq_error_iff :
    automaton.validate featureCount = .error fault ↔ automaton.Fault featureCount fault := by
  rw [← fault?_eq_some_iff, validate]
  cases automaton.fault? featureCount <;> simp

/-- Of the first faulty state the first missing follower is reported, not its tag. -/
example :
    (⟨"rule", 0, #[⟨none, [1]⟩, ⟨some 9, [0, 5, 6]⟩, ⟨some 0, []⟩]⟩ : Automaton).validate 2 =
      .error (.danglingFollower "rule" 1 5) := rfl

end Faults

end Automaton

end ModelText
