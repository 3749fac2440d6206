import ModelText.Scope.Containment

namespace ModelText

/-!
# What a table of names designates

A table made from a list of pairs designates an object by a name exactly when
the list pairs the name with this object and with no other one, however often.
A scope of several tables asks the first one that binds the name.
-/

namespace NameTable

/-- A table that binds the names of some pairs: to the object they agree on, or
ambiguously. -/
def Describes (pairs : List (QualifiedName × ObjectId)) (table : NameTable) : Prop :=
  ∀ name,
    (table.binding? name = none ↔ ∀ target, (name, target) ∉ pairs) ∧
    ∀ target, table.binding? name = some (.unique target) ↔
      (name, target) ∈ pairs ∧ ∀ other, (name, other) ∈ pairs → other = target

theorem describes_empty : Describes [] empty := by
  intro name
  simp

theorem binding?_insert_of_ne (table : NameTable) {asked name : QualifiedName}
    (different : asked ≠ name) (target : ObjectId) :
    (table.insert name target).binding? asked = table.binding? asked := by
  unfold NameTable.insert
  split <;> exact binding?_bind_of_ne table _ different

theorem binding?_insert_self_ne_none (table : NameTable) (name : QualifiedName)
    (target : ObjectId) : (table.insert name target).binding? name ≠ none := by
  unfold NameTable.insert
  split <;> simp

/-- A name that is inserted once more stays unique if it was paired with the same
object only. -/
theorem Describes.binding?_insert_self {pairs : List (QualifiedName × ObjectId)}
    {table : NameTable} (describes : Describes pairs table) (name : QualifiedName)
    (target chosen : ObjectId) :
    (table.insert name target).binding? name = some (.unique chosen) ↔
      chosen = target ∧ ∀ other, (name, other) ∈ pairs → other = target := by
  have before := describes name
  unfold NameTable.insert
  cases known : table.binding? name with
  | none =>
      have absent := before.1.mp known
      dsimp only
      rw [binding?_bind_self, Option.some.injEq, Binding.unique.injEq]
      constructor
      · intro equal
        exact ⟨equal.symm, fun other member => absurd member (absent other)⟩
      · exact fun both => both.1.symm
  | some binding =>
      dsimp only
      rw [binding?_bind_self, Option.some.injEq]
      unfold Binding.extend
      by_cases agrees : binding = .unique target
      · rw [if_pos agrees, agrees, Binding.unique.injEq]
        have agreed := ((before.2 target).mp (known.trans (congrArg some agrees))).2
        exact ⟨fun equal => ⟨equal.symm, agreed⟩, fun both => both.1.symm⟩
      · rw [if_neg agrees]
        constructor
        · intro impossible
          cases impossible
        · rintro ⟨rfl, agree⟩
          have present : ∃ other, (name, other) ∈ pairs := by
            apply Classical.byContradiction
            intro absent
            have unbound := before.1.mpr fun other member => absent ⟨other, member⟩
            rw [known] at unbound
            cases unbound
          rcases present with ⟨other, member⟩
          have unique := (before.2 chosen).mpr ⟨agree other member ▸ member, agree⟩
          exact absurd (Option.some.inj (known.symm.trans unique)) agrees

/-- Inserting a pair describes one pair more. -/
theorem Describes.insert {pairs : List (QualifiedName × ObjectId)} {table : NameTable}
    (describes : Describes pairs table) (name : QualifiedName) (target : ObjectId) :
    Describes (pairs ++ [(name, target)]) (table.insert name target) := by
  intro asked
  by_cases same : asked = name
  · subst same
    have inserted : (asked, target) ∈ pairs ++ [(asked, target)] :=
      List.mem_append_right _ List.mem_cons_self
    constructor
    · constructor
      · exact fun unbound => absurd unbound (binding?_insert_self_ne_none table asked target)
      · exact fun absent => absurd inserted (absent target)
    · intro chosen
      rw [describes.binding?_insert_self]
      constructor
      · rintro ⟨rfl, agree⟩
        refine ⟨inserted, ?_⟩
        intro other member
        rcases List.mem_append.mp member with old | new
        · exact agree other old
        · exact (Prod.mk.inj (List.mem_singleton.mp new)).2
      · rintro ⟨_, agree⟩
        have same := agree target inserted
        refine ⟨same.symm, ?_⟩
        intro other member
        rw [agree other (List.mem_append_left _ member), same]
  · have mem_iff : ∀ other, (asked, other) ∈ pairs ++ [(name, target)] ↔
        (asked, other) ∈ pairs := by
      intro other
      simp [same]
    rw [binding?_insert_of_ne table same]
    simp only [mem_iff]
    exact describes asked

theorem describes_ofList (pairs : List (QualifiedName × ObjectId)) :
    Describes pairs (ofList pairs) := by
  have further : ∀ (rest done : List (QualifiedName × ObjectId)) (table : NameTable),
      Describes done table →
        Describes (done ++ rest)
          (rest.foldl (fun table pair => table.insert pair.1 pair.2) table) := by
    intro rest
    induction rest with
    | nil =>
        intro done table describes
        rw [List.append_nil]
        exact describes
    | cons pair rest inductionHypothesis =>
        intro done table describes
        have next := inductionHypothesis _ _ (describes.insert pair.1 pair.2)
        rw [List.append_assoc] at next
        exact next
  exact further pairs [] empty describes_empty

theorem binding?_ofList_eq_none_iff (pairs : List (QualifiedName × ObjectId))
    (name : QualifiedName) :
    (ofList pairs).binding? name = none ↔ ∀ target, (name, target) ∉ pairs :=
  (describes_ofList pairs name).1

theorem lookup?_eq_some_iff (table : NameTable) (name : QualifiedName) (target : ObjectId) :
    table.lookup? name = some target ↔ table.binding? name = some (.unique target) := by
  unfold lookup?
  cases table.binding? name with
  | none => simp
  | some binding => cases binding <;> simp [Binding.target?]

theorem lookup?_ofList_eq_some_iff (pairs : List (QualifiedName × ObjectId))
    (name : QualifiedName) (target : ObjectId) :
    (ofList pairs).lookup? name = some target ↔
      (name, target) ∈ pairs ∧ ∀ other, (name, other) ∈ pairs → other = target :=
  (lookup?_eq_some_iff _ name target).trans ((describes_ofList pairs name).2 target)

/-- A name that the inner table binds means what it means there, and every other name what
it meant before. -/
theorem binding?_shadowWith (table inner : NameTable) (name : QualifiedName) :
    (table.shadowWith inner).binding? name =
      (inner.binding? name).or (table.binding? name) := by
  obtain ⟨entries⟩ := inner
  unfold shadowWith
  induction entries with
  | nil => rfl
  | cons entry rest inductionHypothesis =>
      obtain ⟨key, binding⟩ := entry
      rw [List.foldr_cons]
      by_cases same : name = key
      · subst same
        rw [binding?_bind_self]
        simp [binding?]
      · rw [binding?_bind_of_ne _ _ same, inductionHypothesis]
        simp [binding?, List.lookup_cons, beq_false_of_ne same]

end NameTable

namespace Scope

/-- A table over other objects that binds a name only if a first table does, and
designates the counterpart of a target if the first one designates the target. -/
def Follows (rename : ObjectId → ObjectId) (name : QualifiedName) (target : ObjectId)
    (table other : NameTable) : Prop :=
  (table.binding? name = none → other.binding? name = none) ∧
    (table.lookup? name = some target → other.lookup? name = some (rename target))

/-- Layers that follow one another designate counterparts. -/
theorem layered_of_follows {rename : ObjectId → ObjectId} {name : QualifiedName}
    {places : List ObjectId} {layer other : ObjectId → NameTable}
    {outer otherOuter : NameTable} {target : ObjectId}
    (follow : ∀ place, place ∈ places →
      Follows rename name target (layer place) (other place))
    (outerFollows : outer.lookup? name = some target →
      otherOuter.lookup? name = some (rename target))
    (found : layered (places.map layer) outer name = some target) :
    layered (places.map other) otherOuter name = some (rename target) := by
  unfold layered at found ⊢
  induction places with
  | nil => exact outerFollows found
  | cons place places inductionHypothesis =>
      have follows := follow place List.mem_cons_self
      rw [List.map_cons, List.findSome?_cons] at found ⊢
      cases bound : (layer place).binding? name with
      | none =>
          rw [bound] at found
          rw [follows.1 bound]
          exact inductionHypothesis (fun inner member =>
            follow inner (List.mem_cons_of_mem _ member)) found
      | some binding =>
          rw [bound] at found
          have looked : (layer place).lookup? name = some target := by
            rw [NameTable.lookup?, bound]
            exact found
          have reached := follows.2 looked
          rw [(NameTable.lookup?_eq_some_iff _ _ _).mp reached]
          rfl

end Scope

end ModelText
