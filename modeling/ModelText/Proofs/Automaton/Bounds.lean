import Mathlib.Data.List.Nodup
import ModelText.Automaton.FeatureBounds
import ModelText.Proofs.Automaton.Validation

namespace ModelText

/-!
# Bounds are exact

A bound admits a number of values exactly when some walk from the start passes
at least that many tagged states.  The sweep keeps this for all states of the
components it has settled: whatever a component leads to is in the component or
was settled before.  In a component with a cycle a walk can return to a tagged
state as often as it likes; a component without a cycle is a single state, which
a walk passes once.

Each component adds at most one to a finite bound, so only an automaton with
more states than there are finite bounds can make the sweep give up.
-/

namespace Bound

theorem admits_zero (bound : Bound) : bound.admits 0 = true := by
  cases bound with
  | finite limit => exact decide_eq_true (Nat.zero_le limit)
  | unbounded => rfl

theorem max_zero (bound : Bound) : bound.max .zero = bound := by
  cases bound with
  | finite limit => exact congrArg Bound.finite (Nat.max_zero limit)
  | unbounded => rfl

theorem admits_mono {bound : Bound} {less more : Nat} (below : less ≤ more)
    (admitted : bound.admits more = true) : bound.admits less = true := by
  cases bound with
  | finite limit => exact decide_eq_true (Nat.le_trans below (of_decide_eq_true admitted))
  | unbounded => rfl

theorem admits_succ {bound : Bound} {count : Nat} (admitted : bound.admits count = true) :
    bound.succ.admits (count + 1) = true := by
  cases bound with
  | unbounded => rfl
  | finite limit =>
      have below : count ≤ limit := of_decide_eq_true admitted
      rw [succ]
      split
      · exact decide_eq_true (Nat.succ_le_succ below)
      · rfl

/-- A bound that is not too large counts one more, and no more. -/
theorem admits_of_admits_succ {bound : Bound} {count : Nat}
    (small : ∀ limit, bound = .finite limit → limit + 1 < finiteCount)
    (admitted : bound.succ.admits (count + 1) = true) : bound.admits count = true := by
  cases bound with
  | unbounded => rfl
  | finite limit =>
      rw [succ, if_pos (small limit rfl)] at admitted
      exact decide_eq_true (Nat.le_of_succ_le_succ (of_decide_eq_true admitted))

theorem admits_foldl_max (bounds : List Bound) (best : Bound) (count : Nat) :
    (bounds.foldl max best).admits count = true ↔
      best.admits count = true ∨ ∃ bound, bound ∈ bounds ∧ bound.admits count = true := by
  induction bounds generalizing best with
  | nil => simp
  | cons bound rest inductionHypothesis =>
      rw [List.foldl_cons, inductionHypothesis, admits_max, Bool.or_eq_true, or_assoc]
      simp

theorem foldl_max_mem (bounds : List Bound) (best : Bound) :
    bounds.foldl max best ∈ best :: bounds := by
  induction bounds generalizing best with
  | nil => exact List.mem_cons_self
  | cons bound rest inductionHypothesis =>
      have larger : best.max bound = best ∨ best.max bound = bound := by
        cases best with
        | unbounded => exact Or.inl rfl
        | finite left =>
            cases bound with
            | unbounded => exact Or.inr rfl
            | finite right =>
                rcases Nat.le_total left right with below | below
                · exact Or.inr (congrArg finite (Nat.max_eq_right below))
                · exact Or.inl (congrArg finite (Nat.max_eq_left below))
      rcases List.mem_cons.mp (inductionHypothesis (best.max bound)) with same | further
      · rw [List.foldl_cons, same]
        rcases larger with chosen | chosen
        · rw [chosen]
          exact List.mem_cons_self
        · rw [chosen]
          exact List.mem_cons_of_mem _ List.mem_cons_self
      · exact List.mem_cons_of_mem _ (List.mem_cons_of_mem _ further)

end Bound

namespace Automaton

/-! ## Walks -/

/-- The states that a walk along followers passes, in order. -/
inductive Walk (automaton : Automaton) : StateId → List StateId → Prop
  | stop (id : StateId) : Walk automaton id [id]
  | next {id follower : StateId} {passed : List StateId} :
      follower ∈ automaton.followers id → Walk automaton follower passed →
        Walk automaton id (id :: passed)

def tagCount (automaton : Automaton) (feature : Nat) (passed : List StateId) : Nat :=
  passed.countP (automaton.isTagged feature)

/-- Some walk from a state passes at least the given number of tagged states. -/
def Attains (automaton : Automaton) (feature : Nat) (id : StateId) (count : Nat) : Prop :=
  ∃ passed, Walk automaton id passed ∧ count ≤ automaton.tagCount feature passed

namespace Attains

variable {automaton : Automaton} {feature count : Nat} {id follower target : StateId}

theorem zero (automaton : Automaton) (feature : Nat) (id : StateId) :
    Attains automaton feature id 0 :=
  ⟨[id], .stop id, Nat.zero_le _⟩

theorem one (tagged : automaton.isTagged feature id = true) :
    Attains automaton feature id 1 := by
  refine ⟨[id], .stop id, ?_⟩
  rw [tagCount, List.countP_cons_of_pos tagged]
  exact Nat.le_add_left 1 _

theorem of_follower (follows : follower ∈ automaton.followers id)
    (attains : Attains automaton feature follower count) :
    Attains automaton feature id count := by
  rcases attains with ⟨passed, walk, enough⟩
  refine ⟨id :: passed, .next follows walk, Nat.le_trans enough ?_⟩
  exact (List.sublist_cons_self id passed).countP_le

theorem of_tagged (tagged : automaton.isTagged feature id = true)
    (follows : follower ∈ automaton.followers id)
    (attains : Attains automaton feature follower count) :
    Attains automaton feature id (count + 1) := by
  rcases attains with ⟨passed, walk, enough⟩
  refine ⟨id :: passed, .next follows walk, ?_⟩
  rw [tagCount, List.countP_cons_of_pos tagged]
  exact Nat.succ_le_succ enough

theorem of_reaches (reaches : Reaches automaton id target)
    (attains : Attains automaton feature target count) :
    Attains automaton feature id count := by
  induction reaches using Relation.ReflTransGen.head_induction_on with
  | refl => exact attains
  | head follows _ inductionHypothesis =>
      exact of_follower ((mem_successors_iff automaton _ _).mp follows).1 inductionHypothesis

/-- Around a cycle through a tagged state any number of tags can be passed. -/
theorem of_cycle (tagged : automaton.isTagged feature id = true)
    (follows : follower ∈ automaton.followers id) (back : Reaches automaton follower id)
    (count : Nat) : Attains automaton feature id count := by
  induction count with
  | zero => exact zero automaton feature id
  | succ count inductionHypothesis =>
      exact of_tagged tagged follows (of_reaches back inductionHypothesis)

end Attains

/-! ## The bound of a component -/

/-- The bound settled so far for a state. -/
def boundAt (settled : Array Bound) (id : StateId) : Bound := (settled[id]?).getD .zero

theorem bestFollower_eq (automaton : Automaton) (settled : Array Bound)
    (component : List StateId) :
    automaton.bestFollower settled component =
      ((component.flatMap automaton.followers).map (boundAt settled)).foldl Bound.max .zero := by
  rw [bestFollower, List.foldl_map, List.foldl_flatMap]
  rfl

theorem admits_bestFollower_iff (automaton : Automaton) (settled : Array Bound)
    (component : List StateId) (count : Nat) :
    (automaton.bestFollower settled component).admits count = true ↔
      count = 0 ∨ ∃ id follower, id ∈ component ∧ follower ∈ automaton.followers id ∧
        (boundAt settled follower).admits count = true := by
  rw [bestFollower_eq, Bound.admits_foldl_max]
  constructor
  · rintro (none | ⟨bound, member, admitted⟩)
    · exact Or.inl (Nat.le_zero.mp (of_decide_eq_true none))
    · rcases List.mem_map.mp member with ⟨follower, listed, rfl⟩
      rcases List.mem_flatMap.mp listed with ⟨id, inside, follows⟩
      exact Or.inr ⟨id, follower, inside, follows, admitted⟩
  · rintro (rfl | ⟨id, follower, inside, follows, admitted⟩)
    · exact Or.inl rfl
    · have listed := List.mem_flatMap.mpr ⟨id, inside, follows⟩
      exact Or.inr ⟨_, List.mem_map_of_mem listed, admitted⟩

theorem bestFollower_eq_zero_or (automaton : Automaton) (settled : Array Bound)
    (component : List StateId) :
    automaton.bestFollower settled component = .zero ∨
      ∃ id follower, id ∈ component ∧ follower ∈ automaton.followers id ∧
        automaton.bestFollower settled component = boundAt settled follower := by
  have chosen := Bound.foldl_max_mem
    ((component.flatMap automaton.followers).map (boundAt settled)) .zero
  rw [← bestFollower_eq] at chosen
  rcases List.mem_cons.mp chosen with none | member
  · exact Or.inl none
  · rcases List.mem_map.mp member with ⟨follower, listed, same⟩
    rcases List.mem_flatMap.mp listed with ⟨id, inside, follows⟩
    exact Or.inr ⟨id, follower, inside, follows, same.symm⟩

/-- In a cyclic component every member has a follower that leads back to it. -/
theorem exists_cycle {automaton : Automaton} {component : List StateId}
    (reaches : ∀ {source target}, source ∈ component → target ∈ component →
      Reaches automaton source target)
    (nodup : component.Nodup) (cyclic : automaton.isCyclic component = true) {id : StateId}
    (member : id ∈ component) :
    ∃ follower, follower ∈ automaton.followers id ∧ Reaches automaton follower id := by
  match component, cyclic with
  | [only], cyclic =>
      rcases List.mem_singleton.mp member with rfl
      exact ⟨id, List.contains_iff_mem.mp cyclic, .refl⟩
  | first :: second :: rest, _ =>
      have other : ∃ other, other ∈ first :: second :: rest ∧ other ≠ id := by
        by_cases same : first = id
        · refine ⟨second, List.mem_cons_of_mem _ List.mem_cons_self, ?_⟩
          rintro rfl
          exact (List.nodup_cons.mp nodup).1 (same ▸ List.mem_cons_self)
        · exact ⟨first, List.mem_cons_self, same⟩
      rcases other with ⟨other, otherMember, different⟩
      rcases (reaches member otherMember).cases_head with rfl | ⟨follower, follows, onward⟩
      · exact absurd rfl different
      · have listed := ((mem_successors_iff automaton id follower).mp follows).1
        exact ⟨follower, listed, onward.trans (reaches otherMember member)⟩

theorem eq_singleton_of_not_cyclic {automaton : Automaton} {component : List StateId}
    (acyclic : automaton.isCyclic component = false) {id : StateId} (member : id ∈ component) :
    component = [id] ∧ id ∉ automaton.followers id := by
  match component, acyclic with
  | [only], acyclic =>
      rcases List.mem_singleton.mp member with rfl
      refine ⟨rfl, ?_⟩
      intro follows
      rw [isCyclic, List.contains_iff_mem.mpr follows] at acyclic
      cases acyclic

/-! ## The sweep -/

/-- What the sweep knows about the states of the components it has settled.  Their bounds
admit what walks attain, and nothing else as long as the finite bounds suffice.  These do
when there are fewer states than finite bounds, since a component adds one at most. -/
structure Settled (automaton : Automaton) (feature : Nat) (finished : List (List StateId))
    (settled : Array Bound) : Prop where
  size_eq : settled.size = automaton.size
  untouched : ∀ {id}, id ∉ finished.flatten → boundAt settled id = .zero
  sound : ∀ {id count}, id ∈ finished.flatten → Attains automaton feature id count →
    (boundAt settled id).admits count = true
  exact : automaton.size < Bound.finiteCount → ∀ {id count}, id ∈ finished.flatten →
    (boundAt settled id).admits count = true → Attains automaton feature id count
  limited : ∀ {id limit}, boundAt settled id = .finite limit → limit ≤ finished.length

namespace Settled

variable {automaton : Automaton} {feature : Nat} {earlier later : List (List StateId)}
  {component : List StateId} {settled : Array Bound}

theorem initial (automaton : Automaton) (feature : Nat) :
    Settled automaton feature [] (Array.replicate automaton.size .zero) := by
  have nothing : ∀ id, boundAt (Array.replicate automaton.size .zero) id = .zero := by
    intro id
    rw [boundAt, Array.getElem?_replicate]
    split <;> rfl
  refine ⟨Array.size_replicate, ?_, ?_, ?_, ?_⟩
  · exact fun _ => nothing _
  · exact fun member => absurd member List.not_mem_nil
  · exact fun _ _ _ member => absurd member List.not_mem_nil
  · intro id limit same
    rw [nothing] at same
    cases same
    exact Nat.le_refl 0

section Component

variable (settledBefore : Settled automaton feature earlier settled)
include settledBefore

/-- What a walk passes after leaving the component is admitted by the best
follower. -/
theorem admits_bestFollower {id follower : StateId} {passed : List StateId}
    (member : id ∈ component) (follows : follower ∈ automaton.followers id)
    (outside : follower ∈ earlier.flatten) (walk : Walk automaton follower passed) :
    (automaton.bestFollower settled component).admits (automaton.tagCount feature passed) =
      true := by
  refine (admits_bestFollower_iff automaton settled component _).mpr (Or.inr ?_)
  refine ⟨id, follower, member, follows, ?_⟩
  exact settledBefore.sound outside ⟨passed, walk, Nat.le_refl _⟩

/-- A number that the best follower admits is attained by a follower. -/
theorem attains_of_bestFollower (fits : automaton.size < Bound.finiteCount) {count : Nat}
    (admitted : (automaton.bestFollower settled component).admits count = true) :
    count = 0 ∨ ∃ id follower, id ∈ component ∧ follower ∈ automaton.followers id ∧
      Attains automaton feature follower count := by
  rcases (admits_bestFollower_iff automaton settled component count).mp admitted with
    none | ⟨id, follower, member, follows, within⟩
  · exact Or.inl none
  · by_cases outside : follower ∈ earlier.flatten
    · exact Or.inr ⟨id, follower, member, follows, settledBefore.exact fits outside within⟩
    · rw [settledBefore.untouched outside] at within
      exact Or.inl (Nat.le_zero.mp (of_decide_eq_true within))

theorem bestFollower_limited {limit : Nat}
    (same : automaton.bestFollower settled component = .finite limit) :
    limit ≤ earlier.length := by
  rcases bestFollower_eq_zero_or automaton settled component with
    none | ⟨_, follower, _, _, chosen⟩
  · rw [none] at same
    cases same
    exact Nat.zero_le _
  · exact settledBefore.limited (chosen ▸ same)

theorem componentBound_limited {limit : Nat}
    (same : automaton.componentBound feature settled component = .finite limit) :
    limit ≤ earlier.length + 1 := by
  unfold componentBound at same
  dsimp only at same
  split at same
  · split at same
    · cases same
    · cases best : automaton.bestFollower settled component with
      | unbounded =>
          rw [best, Bound.succ] at same
          cases same
      | finite before =>
          have below := settledBefore.bestFollower_limited best
          rw [best, Bound.succ] at same
          split at same
          · cases same
            exact Nat.succ_le_succ below
          · cases same
  · exact Nat.le_succ_of_le (settledBefore.bestFollower_limited same)

variable (condensation : Condensation automaton (earlier ++ component :: later))
  (closed : ∀ {id follower}, follower ∈ automaton.followers id → follower < automaton.size)
include condensation

theorem componentBound_exact (fits : automaton.size < Bound.finiteCount) {id : StateId}
    {count : Nat} (member : id ∈ component)
    (admitted : (automaton.componentBound feature settled component).admits count = true) :
    Attains automaton feature id count := by
  have together : ∀ {source target}, source ∈ component → target ∈ component →
      Reaches automaton source target :=
    condensation.reaches (List.mem_append_right _ List.mem_cons_self)
  have nodup : component.Nodup :=
    (List.nodup_flatten.mp condensation.nodup).1 component
      (List.mem_append_right _ List.mem_cons_self)
  unfold componentBound at admitted
  dsimp only at admitted
  cases tagged : component.any (automaton.isTagged feature) with
  | false =>
      rw [tagged, if_neg (by simp)] at admitted
      rcases settledBefore.attains_of_bestFollower fits admitted with
        rfl | ⟨leaving, follower, leavingMember, follows, attains⟩
      · exact .zero automaton feature id
      · exact .of_reaches (together member leavingMember) (.of_follower follows attains)
  | true =>
      rw [tagged, if_pos rfl] at admitted
      rcases List.any_eq_true.mp tagged with ⟨marked, markedMember, isMarked⟩
      cases cyclic : automaton.isCyclic component with
      | true =>
          rcases exists_cycle together nodup cyclic markedMember with ⟨follower, follows, back⟩
          exact .of_reaches (together member markedMember) (.of_cycle isMarked follows back count)
      | false =>
          have single := (eq_singleton_of_not_cyclic cyclic member).1
          have same : marked = id := List.mem_singleton.mp (single ▸ markedMember)
          rw [same] at isMarked
          rw [cyclic, if_neg (by simp)] at admitted
          cases count with
          | zero => exact .zero automaton feature id
          | succ count =>
              have admittedBefore := Bound.admits_of_admits_succ (by
                intro limit finite
                have below := settledBefore.bestFollower_limited finite
                have counted := condensation.length_le
                rw [List.length_append, List.length_cons] at counted
                omega) admitted
              rcases settledBefore.attains_of_bestFollower fits admittedBefore with
                rfl | ⟨leaving, follower, leavingMember, follows, attains⟩
              · exact .one isMarked
              · have leavingSame : leaving = id := List.mem_singleton.mp (single ▸ leavingMember)
                rw [leavingSame] at follows
                exact .of_tagged isMarked follows attains

include closed

omit settledBefore in
theorem mem_of_mem_followers {id follower : StateId} (member : id ∈ component)
    (follows : follower ∈ automaton.followers id) :
    follower ∈ component ∨ follower ∈ earlier.flatten :=
  condensation.mem_of_mem_successors member
    ((mem_successors_iff automaton id follower).mpr ⟨follows, closed follows⟩)

/-- In an untagged component nothing is passed before a walk leaves it. -/
theorem admits_of_untagged
    (untagged : ∀ id, id ∈ component → automaton.isTagged feature id = false)
    {id : StateId} {passed : List StateId} (member : id ∈ component)
    (walk : Walk automaton id passed) :
    (automaton.bestFollower settled component).admits (automaton.tagCount feature passed) =
      true := by
  induction walk with
  | stop id =>
      rw [tagCount, List.countP_cons_of_neg (by rw [untagged id member]; simp)]
      exact Bound.admits_zero _
  | @next id follower passed follows walk inductionHypothesis =>
      rw [tagCount, List.countP_cons_of_neg (by rw [untagged id member]; simp)]
      rcases mem_of_mem_followers condensation closed member follows with inside | outside
      · exact inductionHypothesis inside
      · exact settledBefore.admits_bestFollower member follows outside walk

theorem componentBound_sound {id : StateId} {count : Nat} (member : id ∈ component)
    (attains : Attains automaton feature id count) :
    (automaton.componentBound feature settled component).admits count = true := by
  rcases attains with ⟨passed, walk, enough⟩
  refine Bound.admits_mono enough ?_
  rw [componentBound]
  cases tagged : component.any (automaton.isTagged feature) with
  | false =>
      refine settledBefore.admits_of_untagged condensation closed ?_ member walk
      intro other otherMember
      exact Bool.eq_false_iff.mpr (List.any_eq_false.mp tagged other otherMember)
  | true =>
      rw [if_pos rfl]
      cases cyclic : automaton.isCyclic component with
      | true => rfl
      | false =>
          have single := eq_singleton_of_not_cyclic cyclic member
          rw [if_neg (by simp)]
          cases walk with
          | stop _ =>
              have once : automaton.tagCount feature [id] ≤ 0 + 1 := List.countP_le_length
              exact Bound.admits_mono once (Bound.admits_succ (Bound.admits_zero _))
          | @next _ follower passed follows walk =>
              have admitted : (automaton.bestFollower settled component).admits
                  (automaton.tagCount feature passed) = true := by
                rcases mem_of_mem_followers condensation closed member follows with
                  inside | outside
                · rw [single.1] at inside
                  rcases List.mem_singleton.mp inside with rfl
                  exact absurd follows single.2
                · exact settledBefore.admits_bestFollower member follows outside walk
              refine Bound.admits_mono ?_ (Bound.admits_succ admitted)
              rw [tagCount, tagCount, List.countP_cons]
              split <;> omega

omit settledBefore condensation closed in
theorem boundAt_settle (inRange : ∀ id, id ∈ component → id < settled.size) (id : StateId) :
    boundAt (automaton.settle feature settled component) id =
      if id ∈ component then automaton.componentBound feature settled component
      else boundAt settled id := by
  rw [boundAt, settle, getElem?_foldl_setIfInBounds]
  by_cases member : id ∈ component
  · rw [if_pos member, if_pos member, Array.getElem?_eq_getElem (inRange id member)]
    rfl
  · rw [if_neg member, if_neg member]
    rfl

theorem settle :
    Settled automaton feature (earlier ++ [component])
      (automaton.settle feature settled component) := by
  have inRange : ∀ id, id ∈ component → id < settled.size := by
    intro id member
    rw [settledBefore.size_eq]
    refine (condensation.mem_iff id).mp (List.mem_flatten.mpr ⟨component, ?_, member⟩)
    exact List.mem_append_right _ List.mem_cons_self
  have now : ∀ {id}, id ∈ component → boundAt (automaton.settle feature settled component) id =
      automaton.componentBound feature settled component := by
    intro id member
    rw [boundAt_settle inRange, if_pos member]
  have asBefore : ∀ {id}, id ∉ component →
      boundAt (automaton.settle feature settled component) id = boundAt settled id := by
    intro id other
    rw [boundAt_settle inRange, if_neg other]
  have mem_iff : ∀ id, id ∈ (earlier ++ [component]).flatten ↔
      id ∈ earlier.flatten ∨ id ∈ component := by
    intro id
    rw [List.flatten_append, List.flatten_singleton, List.mem_append]
  refine ⟨?_, ?_, ?_, ?_, ?_⟩
  · exact (size_foldl_setIfInBounds _ _ _).trans settledBefore.size_eq
  · intro id pending
    rw [mem_iff, not_or] at pending
    rw [asBefore pending.2]
    exact settledBefore.untouched pending.1
  · intro id count member attains
    by_cases inside : id ∈ component
    · rw [now inside]
      exact settledBefore.componentBound_sound condensation closed inside attains
    · rw [asBefore inside]
      exact settledBefore.sound (((mem_iff id).mp member).resolve_right inside) attains
  · intro fits id count member admitted
    by_cases inside : id ∈ component
    · rw [now inside] at admitted
      exact settledBefore.componentBound_exact condensation fits inside admitted
    · rw [asBefore inside] at admitted
      exact settledBefore.exact fits (((mem_iff id).mp member).resolve_right inside) admitted
  · intro id limit same
    rw [List.length_append, List.length_singleton]
    by_cases inside : id ∈ component
    · rw [now inside] at same
      exact settledBefore.componentBound_limited same
    · rw [asBefore inside] at same
      exact Nat.le_succ_of_le (settledBefore.limited same)

end Component

theorem foldl {components : List (List StateId)}
    (condensation : Condensation automaton components)
    (closed : ∀ {id follower}, follower ∈ automaton.followers id → follower < automaton.size)
    (split : earlier ++ later = components)
    (settledBefore : Settled automaton feature earlier settled) :
    Settled automaton feature components (later.foldl (automaton.settle feature) settled) := by
  induction later generalizing earlier settled with
  | nil =>
      rw [List.append_nil] at split
      exact split ▸ settledBefore
  | cons component later inductionHypothesis =>
      have next := settledBefore.settle (split ▸ condensation) closed
      refine inductionHypothesis ?_ next
      rw [List.append_assoc, List.singleton_append]
      exact split

end Settled

/-! ## Analysis -/

/-- An automaton that is fit for analysis has a start and no missing followers. -/
theorem of_validate {automaton : Automaton} {featureCount : Nat}
    (valid : automaton.validate featureCount = .ok ()) :
    automaton.fault? featureCount = none ∧ automaton.start < automaton.size ∧
      ∀ {id follower}, follower ∈ automaton.followers id → follower < automaton.size := by
  have wellFormed := validate_eq_ok_iff.mp valid
  exact ⟨fault?_eq_none_iff.mpr wellFormed, wellFormed.start_lt, wellFormed.follower_lt⟩

/-- What the bound of a feature admits is what walks from the start attain. -/
theorem startBound_exact {automaton : Automaton} {featureCount : Nat}
    (valid : automaton.validate featureCount = .ok ()) (feature : Nat) :
    (∀ count, Attains automaton feature automaton.start count →
      (automaton.startBound automaton.components feature).admits count = true) ∧
    (automaton.size < Bound.finiteCount → ∀ count,
      (automaton.startBound automaton.components feature).admits count = true →
        Attains automaton feature automaton.start count) := by
  rcases of_validate valid with ⟨_, start, closed⟩
  have condensation := components_condensation automaton
  have member := (condensation.mem_iff automaton.start).mpr start
  have settled := (Settled.initial automaton feature).foldl condensation closed rfl
  constructor
  · intro count attains
    exact settled.sound member attains
  · intro fits count admitted
    exact settled.exact fits member admitted

/-- The analysis of an automaton that is fit for it succeeds, and for no feature
does a walk from the start pass more tagged states than its bound allows.  With
fewer states than there are finite bounds, the bound is the largest number of
tagged states on a walk, and unbounded exactly when there is none. -/
theorem bounds_exact {automaton : Automaton} {featureCount : Nat}
    (valid : automaton.validate featureCount = .ok ()) :
    ∃ table, automaton.bounds featureCount = .ok table ∧
      ∀ feature, feature < featureCount → ∃ bound, table.get? feature = some bound ∧
        (∀ passed, Walk automaton automaton.start passed →
          bound.admits (automaton.tagCount feature passed) = true) ∧
        (automaton.size < 2 ^ 32 →
          (∀ limit, bound = .finite limit ↔
            (∃ passed, Walk automaton automaton.start passed ∧
              automaton.tagCount feature passed = limit) ∧
            ∀ passed, Walk automaton automaton.start passed →
              automaton.tagCount feature passed ≤ limit) ∧
          (bound = .unbounded ↔ ∀ count, ∃ passed, Walk automaton automaton.start passed ∧
            count ≤ automaton.tagCount feature passed)) := by
  refine ⟨⟨(List.range featureCount).map (automaton.startBound automaton.components)⟩, ?_, ?_⟩
  · rw [bounds, (of_validate valid).1]
  · intro feature known
    refine ⟨automaton.startBound automaton.components feature, ?_, ?_⟩
    · rw [FeatureBounds.get?, List.getElem?_map, List.getElem?_range known, Option.map_some]
    · rcases startBound_exact valid feature with ⟨sound, exact⟩
      have admitted : ∀ passed, Walk automaton automaton.start passed →
          (automaton.startBound automaton.components feature).admits
            (automaton.tagCount feature passed) = true := by
        intro passed walk
        exact sound _ ⟨passed, walk, Nat.le_refl _⟩
      refine ⟨admitted, ?_⟩
      intro fits
      have attained := exact fits
      cases same : automaton.startBound automaton.components feature with
      | finite largest =>
          rw [same] at admitted attained
          have below : ∀ passed, Walk automaton automaton.start passed →
              automaton.tagCount feature passed ≤ largest := by
            intro passed walk
            exact of_decide_eq_true (admitted passed walk)
          rcases attained largest (decide_eq_true (Nat.le_refl _)) with ⟨best, walk, enough⟩
          have maximum : automaton.tagCount feature best = largest :=
            Nat.le_antisymm (below best walk) enough
          refine ⟨?_, ?_⟩
          · intro limit
            constructor
            · intro equal
              cases equal
              exact ⟨⟨best, walk, maximum⟩, below⟩
            · rintro ⟨⟨passed, other, rfl⟩, limited⟩
              have left := below passed other
              have right := limited best walk
              rw [maximum] at right
              rw [Nat.le_antisymm left right]
          · constructor
            · intro impossible
              cases impossible
            · intro unlimited
              rcases unlimited (largest + 1) with ⟨passed, other, more⟩
              exact absurd (below passed other) (Nat.not_le.mpr more)
      | unbounded =>
          rw [same] at attained
          have unlimited : ∀ count, Attains automaton feature automaton.start count :=
            fun count => attained count rfl
          refine ⟨?_, ?_⟩
          · intro limit
            constructor
            · intro impossible
              cases impossible
            · rintro ⟨_, limited⟩
              rcases unlimited (limit + 1) with ⟨passed, walk, more⟩
              exact absurd (limited passed walk) (Nat.not_le.mpr more)
          · exact ⟨fun _ => unlimited, fun _ => rfl⟩

/-- A rule for a list between brackets: any number of elements of feature 0, and
a closing state of feature 1. -/
def bracketed : Automaton :=
  ⟨"bracketed", 0, #[⟨none, [1, 2]⟩, ⟨some 0, [1, 2]⟩, ⟨some 1, []⟩]⟩

/-- Elements may be repeated, so a walk can pass any number of them before it comes to the
closing state, which has no followers and is passed once. -/
theorem bounds_exact_bracketed :
    bracketed.validate 2 = .ok () ∧ bracketed.size < 2 ^ 32 ∧
    ∃ table, bracketed.bounds 2 = .ok table ∧
      ∀ feature, feature < 2 → ∃ bound, table.get? feature = some bound ∧
        (∀ passed, Walk bracketed bracketed.start passed →
          bound.admits (bracketed.tagCount feature passed) = true) ∧
        (bracketed.size < 2 ^ 32 →
          (∀ limit, bound = .finite limit ↔
            (∃ passed, Walk bracketed bracketed.start passed ∧
              bracketed.tagCount feature passed = limit) ∧
            ∀ passed, Walk bracketed bracketed.start passed →
              bracketed.tagCount feature passed ≤ limit) ∧
          (bound = .unbounded ↔ ∀ count, ∃ passed, Walk bracketed bracketed.start passed ∧
            count ≤ bracketed.tagCount feature passed)) :=
  ⟨rfl, by decide, bounds_exact rfl⟩

example : bracketed.bounds 2 = .ok ⟨[.unbounded, .finite 1]⟩ := rfl

end Automaton

end ModelText
