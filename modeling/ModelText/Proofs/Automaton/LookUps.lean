import ModelText.Automaton.Strict
import ModelText.Proofs.Automaton.Bounds
import ModelText.Proofs.Automaton.LowLinks

namespace ModelText

/-!
# The analysis stays inside its arrays

The strict analysis has a result for every automaton, and it is that of the analysis.
Followers are looked up when all are known to exist, and no other positions are met but
the start and members of components.  What a sweep leaves out changes nothing: while a
component is being settled, the bounds of its own states are still zero.
-/

/-! ## Steps that all have a result -/

section

variable {α β : Type} {listed : List α}

theorem mapM_eq_some {step? : α → Option β} {step : α → β}
    (steps : ∀ member ∈ listed, step? member = some (step member)) :
    listed.mapM step? = some (listed.map step) := by
  induction listed with
  | nil => rfl
  | cons head rest inductionHypothesis =>
      have first := steps head List.mem_cons_self
      have others := inductionHypothesis fun member inside =>
        steps member (List.mem_cons_of_mem _ inside)
      rw [List.mapM_cons, first, others]
      rfl

theorem findM?_eq_some {test? : α → Option Bool} {test : α → Bool}
    (tests : ∀ member ∈ listed, test? member = some (test member)) :
    listed.findM? test? = some (listed.find? test) := by
  induction listed with
  | nil => rfl
  | cons head rest inductionHypothesis =>
      have first := tests head List.mem_cons_self
      have others := inductionHypothesis fun member inside =>
        tests member (List.mem_cons_of_mem _ inside)
      rw [List.findM?, first, List.find?_cons]
      cases test head with
      | true => rfl
      | false => exact others

theorem foldlM_eq_some {step? : β → α → Option β} {step : β → α → β}
    (steps : ∀ member ∈ listed, ∀ state, step? state member = some (step state member))
    (state : β) : listed.foldlM step? state = some (listed.foldl step state) := by
  induction listed generalizing state with
  | nil => rfl
  | cons head rest inductionHypothesis =>
      have others := fun member inside => steps member (List.mem_cons_of_mem head inside)
      rw [List.foldlM_cons, steps head List.mem_cons_self state, List.foldl_cons]
      exact inductionHypothesis others _

/-- Steps have a result if each keeps up what holds for the members passed, and if that is
all their results depend on. -/
theorem exists_foldlM_eq_some {step? : β → α → Option β} {keeps : List α → β → Prop}
    (steps : ∀ passed member rest, listed = passed ++ member :: rest →
      ∀ state, keeps passed state →
        ∃ next, step? state member = some next ∧ keeps (passed ++ [member]) next)
    {state : β} (kept : keeps [] state) :
    ∃ last, listed.foldlM step? state = some last ∧ keeps listed last := by
  suffices ends : ∀ rest passed, listed = passed ++ rest → ∀ state, keeps passed state →
      ∃ last, rest.foldlM step? state = some last ∧ keeps listed last from
    ends listed [] rfl state kept
  intro rest
  induction rest with
  | nil =>
      intro passed split state kept
      rw [List.append_nil] at split
      exact ⟨state, rfl, split ▸ kept⟩
  | cons member rest inductionHypothesis =>
      intro passed split state kept
      obtain ⟨next, steps, keptToo⟩ := steps passed member rest split state kept
      rw [List.foldlM_cons, steps]
      exact inductionHypothesis (passed ++ [member]) (by simp [split]) next keptToo

end

namespace Automaton

namespace Strict

/-! ## All positions exist -/

section

variable {automaton : Automaton} {id : StateId} {limit : Nat} {pending : List StateId}
  {seen : Array Bool}

theorem write_eq {α : Type} {values : Array α} {index : Nat} {value : α}
    (inRange : index < values.size) :
    write values index value = some (values.setIfInBounds index value) :=
  if_pos inRange

/-- Writing keeps the size, and so one write makes room for the next. -/
theorem writeAll_eq {α : Type} {values : Array α} {indices : List Nat} (value : α)
    (inRange : ∀ index ∈ indices, index < values.size) :
    writeAll values indices value =
      some (indices.foldl (fun values index => values.setIfInBounds index value) values) := by
  induction indices generalizing values with
  | nil => rfl
  | cons index rest inductionHypothesis =>
      obtain ⟨bound, others⟩ := List.forall_mem_cons.mp inRange
      rw [writeAll, List.foldlM_cons, write_eq bound, List.foldl_cons]
      exact inductionHypothesis fun other member =>
        Array.size_setIfInBounds.symm ▸ others other member

theorem followers_eq (inRange : id < automaton.size) :
    followers automaton id = some (automaton.followers id) := by
  rw [followers, Automaton.followers, state?, Array.getElem?_eq_getElem inRange]
  rfl

theorem isTagged_eq (feature : Nat) (inRange : id < automaton.size) :
    isTagged automaton feature id = some (automaton.isTagged feature id) := by
  rw [isTagged, Automaton.isTagged, feature?, state?, Array.getElem?_eq_getElem inRange]
  rfl

/-! ## Validation -/

theorem size_markReachable :
    (automaton.markReachable limit pending seen).size = seen.size := by
  induction limit generalizing pending seen with
  | zero => rfl
  | succ limit inductionHypothesis =>
      cases pending with
      | nil => rfl
      | cons id pending =>
          rw [Automaton.markReachable]
          split
          · rw [inductionHypothesis, Array.size_setIfInBounds]
          · exact inductionHypothesis

theorem markReachable_eq
    (closed : ∀ {id follower}, follower ∈ automaton.followers id → follower < automaton.size)
    (size_eq : seen.size = automaton.size) (inRange : ∀ id ∈ pending, id < automaton.size) :
    markReachable automaton limit pending seen =
      some (automaton.markReachable limit pending seen) := by
  induction limit generalizing pending seen with
  | zero => rfl
  | succ limit inductionHypothesis =>
      cases pending with
      | nil => rfl
      | cons id pending =>
          obtain ⟨idInRange, others⟩ := List.forall_mem_cons.mp inRange
          have bound : id < seen.size := size_eq ▸ idInRange
          rw [markReachable, Automaton.markReachable, Array.getElem?_eq_getElem bound]
          cases seen[id] with
          | true => exact inductionHypothesis size_eq others
          | false =>
              have sizeToo : (seen.setIfInBounds id true).size = automaton.size :=
                Array.size_setIfInBounds.trans size_eq
              have inRangeToo : ∀ next ∈ automaton.followers id ++ pending,
                  next < automaton.size := by
                intro next member
                rcases List.mem_append.mp member with follows | further
                · exact closed follows
                · exact others next further
              rw [if_pos rfl, ← inductionHypothesis sizeToo inRangeToo, followers_eq idInRange,
                write_eq bound]
              rfl

theorem firstUnreachable_eq
    (closed : ∀ {id follower}, follower ∈ automaton.followers id → follower < automaton.size)
    (start_lt : automaton.start < automaton.size) :
    firstUnreachable automaton = some automaton.firstUnreachable? := by
  have marked : reachableStates automaton = some automaton.reachableStates := by
    apply markReachable_eq closed Array.size_replicate
    intro id member
    rwa [List.mem_singleton.mp member]
  have size_eq : automaton.reachableStates.size = automaton.size :=
    size_markReachable.trans Array.size_replicate
  have missed : ∀ numbered ∈ automaton.states.toList.zipIdx,
      isMissed automaton.reachableStates numbered = some (numbered.1.feature.isSome &&
        automaton.reachableStates[numbered.2]? != some true) := by
    rintro ⟨state, id⟩ listed
    rw [List.mem_zipIdx_iff_getElem?, Array.getElem?_toList] at listed
    have inRange : id < automaton.reachableStates.size :=
      size_eq ▸ (Array.getElem?_eq_some_iff.mp listed).1
    rw [isMissed, Array.getElem?_eq_getElem inRange]
    cases state.feature.isSome <;> cases automaton.reachableStates[id] <;> rfl
  rw [firstUnreachable, marked]
  exact congrArg (Option.bind · fun found => some (found.map Prod.snd)) (findM?_eq_some missed)

theorem fault_eq (automaton : Automaton) (featureCount : Nat) :
    fault automaton featureCount = some (automaton.fault? featureCount) := by
  rw [fault, fault?]
  by_cases start : automaton.size ≤ automaton.start
  · rw [if_pos start, if_pos start]
  · rw [if_neg start, if_neg start]
    cases found : automaton.firstStateFault? featureCount with
    | some other => rfl
    | none =>
        have closed : ∀ {id follower}, follower ∈ automaton.followers id →
            follower < automaton.size :=
          follower_lt_of_not_stateFault (firstStateFault?_eq_none_iff.mp found)
        dsimp only
        rw [firstUnreachable_eq closed (Nat.lt_of_not_le start)]
        rfl

end

/-! ## The numbers of components -/

section

variable {automaton : Automaton} {components : List (List StateId)} {component : List StateId}
  {numbers : Array (Option Nat)} {number : Nat} {id : StateId}

/-- Numbers for all states, which lead to their components. -/
structure Numbered (automaton : Automaton) (components : List (List StateId))
    (numbers : Array (Option Nat)) : Prop where
  size_eq : numbers.size = automaton.size
  listed : ∀ {id : StateId} {number : Nat}, numbers[id]? = some (some number) →
    ∃ component, components[number]? = some component ∧ id ∈ component

theorem Numbered.initial (automaton : Automaton) (components : List (List StateId)) :
    Numbered automaton components (Array.replicate automaton.size none) := by
  refine ⟨Array.size_replicate, ?_⟩
  intro id number found
  rw [Array.getElem?_replicate] at found
  split at found <;> cases found

theorem Numbered.writeAll (numbered : Numbered automaton components numbers)
    (here : components[number]? = some component)
    (inRange : ∀ id ∈ component, id < automaton.size) :
    ∃ next, writeAll numbers component (some number) = some next ∧
      Numbered automaton components next := by
  refine ⟨_, writeAll_eq _ fun id member => numbered.size_eq ▸ inRange id member, ?_, ?_⟩
  · exact (size_foldl_setIfInBounds _ _ _).trans numbered.size_eq
  · intro id other found
    rw [getElem?_foldl_setIfInBounds] at found
    split at found
    · next member =>
        obtain ⟨_, _, same⟩ := Option.map_eq_some_iff.mp found
        exact ⟨component, Option.some.inj same ▸ here, member⟩
    · exact numbered.listed found

theorem exists_numbers (condensation : Condensation automaton components) :
    ∃ numbers, numbersOf automaton components = some numbers ∧
      Numbered automaton components numbers := by
  have steps : ∀ (passed : List (List StateId × Nat)) numbered rest,
      components.zipIdx = passed ++ numbered :: rest →
        ∀ numbers, Numbered automaton components numbers →
          ∃ next, (if 2 ≤ numbered.1.length then
              Strict.writeAll numbers numbered.1 (some numbered.2) else some numbers) = some next ∧
            Numbered automaton components next := by
    rintro passed ⟨component, number⟩ rest split numbers before
    have listed : (component, number) ∈ components.zipIdx := by simp [split]
    have here := List.mem_zipIdx_iff_getElem?.mp listed
    dsimp only
    split
    · apply before.writeAll here
      intro id member
      exact (condensation.mem_iff id).mp
        (List.mem_flatten_of_mem (List.mem_of_getElem? here) member)
    · exact ⟨numbers, rfl, before⟩
  exact exists_foldlM_eq_some steps (Numbered.initial automaton components)

end

/-! ## The sweep -/

section

variable {automaton : Automaton} {feature number : Nat} {settled : Array Bound} {id : StateId}
  {component : List StateId} {components : List (List StateId)} {numbers : Array (Option Nat)}
  (closed : ∀ {id follower}, follower ∈ automaton.followers id → follower < automaton.size)
  (size_eq : settled.size = automaton.size)

include size_eq in
theorem settled_eq (inRange : id < automaton.size) : settled[id]? = some (boundAt settled id) := by
  rw [boundAt, Array.getElem?_eq_getElem (size_eq ▸ inRange)]
  rfl

/-- A tagged state that follows itself is unbounded. -/
theorem foldl_unbounded {bounds : StateId → Bound} {followers : List StateId} {best : Bound}
    (unbounded : best = .unbounded ∨ id ∈ followers) :
    followers.foldl (fun best follower =>
      if follower = id then .unbounded else best.max (bounds follower)) best = .unbounded := by
  induction followers generalizing best with
  | nil => exact unbounded.resolve_right List.not_mem_nil
  | cons follower rest inductionHypothesis =>
      rw [List.foldl_cons]
      apply inductionHypothesis
      by_cases same : follower = id
      · exact Or.inl (if_pos same)
      · rw [if_neg same]
        rcases unbounded with rfl | member
        · exact Or.inl rfl
        · exact Or.inr ((List.mem_cons.mp member).resolve_left (Ne.symm same))

include closed size_eq

/-- What is left out are bounds that are still zero. -/
theorem bestOutside_eq (numbered : Numbered automaton components numbers)
    (here : components[number]? = some component)
    (inRange : ∀ id ∈ component, id < automaton.size)
    (untouched : ∀ id ∈ component, boundAt settled id = .zero) :
    bestOutside automaton numbers settled (component, number) =
      some (automaton.bestFollower settled component) := by
  apply foldlM_eq_some
  intro id member best
  rw [followers_eq (inRange id member)]
  apply foldlM_eq_some
  intro follower follows best
  have exist := closed follows
  have known := Array.getElem?_eq_getElem (numbered.size_eq ▸ exist)
  rw [known]
  dsimp only [Option.bind_eq_bind, Option.bind_some]
  split
  · next own =>
      obtain ⟨other, found, inside⟩ := numbered.listed (known.trans (congrArg some own))
      cases here.symm.trans found
      have nothing := untouched follower inside
      rw [boundAt] at nothing
      rw [nothing, Bound.max_zero]
  · rw [settled_eq size_eq exist]
    rfl

theorem loneBound_eq (inRange : id < automaton.size) (untouched : boundAt settled id = .zero) :
    loneBound automaton feature settled id =
      some (automaton.componentBound feature settled [id]) := by
  have looked : ∀ tagged,
      (automaton.followers id).foldlM (passFollower settled id tagged) .zero =
        some ((automaton.followers id).foldl (fun best follower =>
          if follower = id then if tagged then Bound.unbounded else best
          else best.max (boundAt settled follower)) .zero) := by
    intro tagged
    apply foldlM_eq_some
    intro follower follows best
    rw [passFollower]
    split
    · rfl
    · rw [settled_eq size_eq (closed follows)]
      rfl
  have best_eq : automaton.bestFollower settled [id] =
      (automaton.followers id).foldl (fun best follower => best.max (boundAt settled follower))
        .zero :=
    rfl
  have tagged_eq : [id].any (automaton.isTagged feature) = automaton.isTagged feature id :=
    Bool.or_false _
  rw [loneBound, followers_eq inRange, isTagged_eq feature inRange, componentBound, best_eq,
    tagged_eq]
  dsimp only [Option.bind_eq_bind, Option.bind_some]
  rw [looked]
  cases automaton.isTagged feature id with
  | false =>
      refine congrArg some (List.foldl_ext _ _ _ fun best follower _ => ?_)
      split
      · next same => rw [same, untouched, Bound.max_zero]; rfl
      · rfl
  | true =>
      by_cases itself : id ∈ automaton.followers id
      · have cyclic : automaton.isCyclic [id] = true := List.contains_iff_mem.mpr itself
        rw [cyclic]
        exact congrArg (fun best => some (Bound.succ best)) (foldl_unbounded (Or.inr itself))
      · have acyclic : automaton.isCyclic [id] = false :=
          Bool.eq_false_iff.mpr fun cyclic => itself (List.contains_iff_mem.mp cyclic)
        rw [acyclic]
        refine congrArg (fun best => some (Bound.succ best))
          (List.foldl_ext _ _ _ fun best follower follows => ?_)
        have other : follower ≠ id := fun same => itself (same ▸ follows)
        rw [if_neg other]

theorem settle_eq (numbered : Numbered automaton components numbers)
    (here : components[number]? = some component)
    (inRange : ∀ id ∈ component, id < automaton.size) (nonempty : component ≠ [])
    (untouched : ∀ id ∈ component, boundAt settled id = .zero)
    (untagged : 2 ≤ component.length → ∀ id ∈ component, automaton.isTagged feature id = false) :
    settle automaton feature numbers settled (component, number) =
      some (automaton.settle feature settled component) := by
  by_cases several : 2 ≤ component.length
  · have bound_eq : automaton.componentBound feature settled component =
        automaton.bestFollower settled component := by
      have none : component.any (automaton.isTagged feature) = false :=
        List.any_eq_false.mpr fun id member => Bool.eq_false_iff.mp (untagged several id member)
      rw [componentBound, none]
      rfl
    rw [settle, if_pos several, bestOutside_eq closed size_eq numbered here inRange untouched,
      Automaton.settle, bound_eq]
    exact writeAll_eq _ fun id member => size_eq ▸ inRange id member
  · have single : component.length = 1 :=
      Nat.le_antisymm (Nat.le_of_not_lt several) (List.length_pos_of_ne_nil nonempty)
    obtain ⟨id, rfl⟩ := List.length_eq_one_iff.mp single
    have exist := inRange id List.mem_cons_self
    have bound_eq : loneBound automaton feature settled id =
        some (automaton.componentBound feature settled [id]) :=
      loneBound_eq closed size_eq exist (untouched id List.mem_cons_self)
    rw [settle, if_neg several, List.getElem?_cons_zero]
    dsimp only [Option.bind_eq_bind, Option.bind_some]
    rw [bound_eq]
    exact write_eq (size_eq ▸ exist)

end

/-- The bounds when some of the components are settled. -/
structure Swept (automaton : Automaton) (feature : Nat) (passed : List (List StateId × Nat))
    (settled : Array Bound) : Prop where
  eq : settled = (passed.map Prod.fst).foldl (automaton.settle feature)
    (Array.replicate automaton.size .zero)
  settled : Settled automaton feature (passed.map Prod.fst) settled

section

variable {automaton : Automaton} {feature : Nat} {components : List (List StateId)}
  {numbers : Array (Option Nat)}
  (closed : ∀ {id follower}, follower ∈ automaton.followers id → follower < automaton.size)
  (condensation : Condensation automaton components)
  (numbered : Numbered automaton components numbers)
  (untagged : ∀ component ∈ components, 2 ≤ component.length →
    ∀ id ∈ component, automaton.isTagged feature id = false)
include closed condensation numbered untagged

theorem sweep_eq :
    sweep automaton components numbers feature = some (automaton.sweep feature components) ∧
      (automaton.sweep feature components).size = automaton.size := by
  have steps : ∀ (passed : List (List StateId × Nat)) entry rest,
      components.zipIdx = passed ++ entry :: rest →
        ∀ settled, Swept automaton feature passed settled →
          ∃ next, settle automaton feature numbers settled entry = some next ∧
            Swept automaton feature (passed ++ [entry]) next := by
    rintro passed ⟨component, number⟩ rest split settled swept
    have cut : components = passed.map Prod.fst ++ component :: rest.map Prod.fst := by
      rw [← List.zipIdx_map_fst 0 components, split, List.map_append, List.map_cons]
    have entered : (component, number) ∈ components.zipIdx := by simp [split]
    have here : components[number]? = some component := List.mem_zipIdx_iff_getElem?.mp entered
    have listed := List.mem_of_getElem? here
    have inRange : ∀ id ∈ component, id < automaton.size := fun id member =>
      (condensation.mem_iff id).mp (List.mem_flatten_of_mem listed member)
    -- its states are not among those of the components settled before
    have untouched : ∀ id ∈ component, boundAt settled id = .zero := by
      intro id member
      apply swept.settled.untouched
      intro before
      have nodup := condensation.nodup
      rw [cut, List.flatten_append, List.flatten_cons] at nodup
      exact (List.nodup_append.mp nodup).2.2 id before id (List.mem_append_left _ member) rfl
    have settles := settle_eq closed swept.settled.size_eq numbered here inRange
      (condensation.ne_nil listed) untouched (untagged component listed)
    refine ⟨_, settles, ?_, ?_⟩
    · rw [List.map_append, List.foldl_append, ← swept.eq]
      rfl
    · rw [List.map_append]
      exact swept.settled.settle (cut ▸ condensation) closed
  have initial : Swept automaton feature [] (Array.replicate automaton.size .zero) :=
    ⟨rfl, .initial automaton feature⟩
  obtain ⟨last, sweeps, swept⟩ := exists_foldlM_eq_some steps initial
  have last_eq := swept.eq
  rw [List.zipIdx_map_fst] at last_eq
  refine ⟨?_, ?_⟩
  · rw [sweep, sweeps, last_eq]
    rfl
  · rw [Automaton.sweep, ← last_eq]
    exact swept.settled.size_eq

theorem startBound_eq (start_lt : automaton.start < automaton.size) :
    startBound automaton components numbers feature =
      some (automaton.startBound components feature) := by
  obtain ⟨swept, size_eq⟩ := sweep_eq closed condensation numbered untagged
  have bound : automaton.start < (automaton.sweep feature components).size := size_eq ▸ start_lt
  rw [startBound, swept, Automaton.startBound, Array.getElem?_eq_getElem bound]
  exact Array.getElem?_eq_getElem bound

end

/-! ## Bounds by feature -/

section

variable {automaton : Automaton} {featureCount feature : Nat} {component : List StateId}
  {id : StateId} {passed : List StateId} {table : Array Bound}

/-- A feature that tags a state of a component with several states is unbounded, because the
start reaches the state and the component leads back to it. -/
theorem startBound_eq_unbounded (wellFormed : automaton.WellFormed featureCount)
    (listed : component ∈ automaton.components) (several : 2 ≤ component.length)
    (member : id ∈ component) (tagged : automaton.feature? id = some feature) :
    automaton.startBound automaton.components feature = .unbounded := by
  have condensation := components_condensation automaton
  have nodup := (List.nodup_flatten.mp condensation.nodup).1 component listed
  have cyclic : automaton.isCyclic component = true := by
    match component, several with
    | _ :: _ :: _, _ => rfl
  obtain ⟨follower, follows, back⟩ :=
    exists_cycle (condensation.reaches listed) nodup cyclic member
  have isTagged : automaton.isTagged feature id = true := beq_iff_eq.mpr tagged
  have admitted : ∀ count,
      (automaton.startBound automaton.components feature).admits count = true := by
    intro count
    apply (startBound_exact (validate_eq_ok_iff.mpr wellFormed) feature).1
    exact .of_reaches (wellFormed.reached tagged) (.of_cycle isTagged follows back count)
  cases bound : automaton.startBound automaton.components feature with
  | unbounded => rfl
  | finite limit =>
      have more := admitted (limit + 1)
      rw [bound] at more
      exact absurd (of_decide_eq_true more) (Nat.not_succ_le_self limit)

/-- A table of all features that is unbounded where the tags of some states are, and only
where the analysis is. -/
structure Lifted (automaton : Automaton) (featureCount : Nat) (passed : List StateId)
    (table : Array Bound) : Prop where
  size_eq : table.size = featureCount
  sound : ∀ {feature : Nat}, table[feature]? = some .unbounded →
    automaton.startBound automaton.components feature = .unbounded
  lifted : ∀ {id : StateId} {feature : Nat}, id ∈ passed →
    automaton.feature? id = some feature → table[feature]? = some .unbounded

theorem Lifted.initial (automaton : Automaton) (featureCount : Nat) :
    Lifted automaton featureCount [] (Array.replicate featureCount .zero) := by
  refine ⟨Array.size_replicate, ?_, fun impossible => absurd impossible List.not_mem_nil⟩
  intro feature found
  rw [Array.getElem?_replicate] at found
  split at found <;> cases found

theorem Lifted.write (before : Lifted automaton featureCount passed table)
    (tagged : automaton.feature? id = some feature) (known : feature < featureCount)
    (unbounded : automaton.startBound automaton.components feature = .unbounded) :
    Lifted automaton featureCount (passed ++ [id]) (table.setIfInBounds feature .unbounded) := by
  have written : ∀ other : Nat, (table.setIfInBounds feature .unbounded)[other]? =
      if feature = other then some .unbounded else table[other]? := by
    intro other
    rw [Array.getElem?_setIfInBounds]
    split
    · exact if_pos (before.size_eq ▸ known)
    · rfl
  constructor
  case size_eq => exact Array.size_setIfInBounds.trans before.size_eq
  case sound =>
    intro other found
    rw [written] at found
    split at found
    · next same => exact same ▸ unbounded
    · exact before.sound found
  case lifted =>
    intro other tag member taggedToo
    rw [written]
    split
    · rfl
    · next differs =>
        rcases List.mem_append.mp member with earlier | own
        · exact before.lifted earlier taggedToo
        · rw [List.mem_singleton.mp own, tagged] at taggedToo
          exact absurd (Option.some.inj taggedToo) differs

/-- A tag of a well-formed automaton stands in the table. -/
theorem Lifted.lift (wellFormed : automaton.WellFormed featureCount)
    (before : Lifted automaton featureCount passed table) (inRange : id < automaton.size)
    (unbounded : ∀ feature, automaton.feature? id = some feature →
      automaton.startBound automaton.components feature = .unbounded) :
    ∃ next, lift automaton table id = some next ∧
      Lifted automaton featureCount (passed ++ [id]) next := by
  have found : automaton.state? id = some automaton.states[id] :=
    Array.getElem?_eq_getElem inRange
  have tag_eq : automaton.feature? id = automaton.states[id].feature := by
    rw [feature?, found, Option.bind_some]
  rw [Strict.lift, found]
  dsimp only [Option.bind_eq_bind, Option.bind_some]
  cases tag : automaton.states[id].feature with
  | none =>
      refine ⟨table, rfl, before.size_eq, before.sound, ?_⟩
      intro other feature member tagged
      rcases List.mem_append.mp member with earlier | own
      · exact before.lifted earlier tagged
      · rw [List.mem_singleton.mp own, tag_eq, tag] at tagged
        cases tagged
  | some feature =>
      have tagged := tag_eq.trans tag
      have known := wellFormed.tag_lt tagged
      exact ⟨_, write_eq (before.size_eq ▸ known),
        before.write tagged known (unbounded feature tagged)⟩

/-- The states of components with several states. -/
def shared (automaton : Automaton) : List StateId :=
  (automaton.components.filter fun component => 2 ≤ component.length).flatten

theorem mem_shared_iff (automaton : Automaton) (id : StateId) :
    id ∈ shared automaton ↔
      ∃ component ∈ automaton.components, 2 ≤ component.length ∧ id ∈ component := by
  simp [shared, List.mem_flatten, and_assoc]

theorem exists_lifted (wellFormed : automaton.WellFormed featureCount) :
    ∃ table, lifted automaton featureCount automaton.components = some table ∧
      Lifted automaton featureCount (shared automaton) table := by
  have steps : ∀ passed id rest, shared automaton = passed ++ id :: rest →
      ∀ table, Lifted automaton featureCount passed table →
        ∃ next, lift automaton table id = some next ∧
          Lifted automaton featureCount (passed ++ [id]) next := by
    intro passed id rest split table before
    obtain ⟨component, listed, several, member⟩ :=
      (mem_shared_iff automaton id).mp (by simp [split])
    have present := (components_condensation automaton).mem_iff id
    apply before.lift wellFormed (present.mp (List.mem_flatten_of_mem listed member))
    intro feature tagged
    exact startBound_eq_unbounded wellFormed listed several member tagged
  exact exists_foldlM_eq_some steps (Lifted.initial automaton featureCount)

theorem boundIn_eq (wellFormed : automaton.WellFormed featureCount)
    {numbers : Array (Option Nat)} (numbered : Numbered automaton automaton.components numbers)
    (before : Lifted automaton featureCount (shared automaton) table)
    (known : feature < featureCount) :
    boundIn automaton automaton.components numbers table feature =
      some (automaton.startBound automaton.components feature) := by
  have inRange : feature < table.size := before.size_eq ▸ known
  have bound := Array.getElem?_eq_getElem inRange
  rw [boundIn, bound]
  cases found : table[feature] with
  | unbounded =>
      rw [before.sound (bound.trans (congrArg some found))]
      rfl
  | finite limit =>
      have untagged : ∀ component ∈ automaton.components, 2 ≤ component.length →
          ∀ id ∈ component, automaton.isTagged feature id = false := by
        intro component listed several id member
        refine Bool.eq_false_iff.mpr fun tagged => ?_
        have lifted := before.lifted
          ((mem_shared_iff automaton id).mpr ⟨component, listed, several, member⟩)
          (beq_iff_eq.mp tagged)
        rw [bound, found] at lifted
        cases lifted
      exact startBound_eq wellFormed.follower_lt (components_condensation automaton) numbered
        untagged wellFormed.start_lt

end

/-- The strict analysis has a result for every automaton, and it is that of the analysis. -/
theorem bounds_eq (automaton : Automaton) (featureCount : Nat) :
    bounds automaton featureCount = some (automaton.bounds featureCount) := by
  rw [bounds, Automaton.bounds, fault_eq]
  cases faultless : automaton.fault? featureCount with
  | some fault => rfl
  | none =>
      have wellFormed := fault?_eq_none_iff.mp faultless
      obtain ⟨numbers, numbering, numbered⟩ :=
        exists_numbers (components_condensation automaton)
      obtain ⟨table, lifts, before⟩ := exists_lifted wellFormed
      have swept := mapM_eq_some fun feature listed =>
        boundIn_eq wellFormed numbered before (List.mem_range.mp listed)
      simp only [Option.bind_eq_bind, Option.bind_some]
      rw [componentsByLowLinks?_eq automaton (Nat.le_refl _), Option.bind_some, numbering,
        Option.bind_some, lifts, Option.bind_some, swept]
      rfl

/-- A state that does not exist has no place in the sweep. -/
example : sweep bracketed [[3]] #[none, none, none] 0 = none := rfl

end Strict

/-- Validation accepts exactly the well-formed automata and reports what is wrong with the
others.  The analysis has the outcome of validation, with a bound for each feature when
the automaton is accepted, and it has this outcome without a look-up or a write outside an
array. -/
theorem analysis_total (automaton : Automaton) (featureCount : Nat) :
    (automaton.validate featureCount = .ok () ↔ automaton.WellFormed featureCount) ∧
    (∀ fault, automaton.validate featureCount = .error fault ↔
      automaton.Fault featureCount fault) ∧
    (∃ table : FeatureBounds, table.size = featureCount ∧
      automaton.bounds featureCount = (automaton.validate featureCount).map fun _ => table) ∧
    Strict.bounds automaton featureCount = some (automaton.bounds featureCount) := by
  refine ⟨validate_eq_ok_iff, fun _ => validate_eq_error_iff, ?_, Strict.bounds_eq _ _⟩
  refine ⟨⟨(List.range featureCount).map (automaton.startBound automaton.components)⟩, ?_, ?_⟩
  · rw [FeatureBounds.size, List.length_map, List.length_range]
  · rw [bounds, validate]
    cases automaton.fault? featureCount <;> rfl

end Automaton

end ModelText
