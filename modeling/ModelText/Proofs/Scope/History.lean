import Mathlib.Data.Set.Card
import ModelText.Proofs.Scope.Table

namespace ModelText

/-!
# Histories of a name table

A table grows by single bindings, and now and then it is shadowed by another table.  A
shadowing replaces what its table binds and leaves the other names alone, so what a name
means in the end is decided by the last table that shadows it together with the bindings
made since.  Among these neither order nor repetition matters: the name designates an
object if all of them agree on it.  In particular an ambiguous name stays ambiguous until
it is shadowed, and a shadowing may make a name ambiguous that was not.
-/

namespace NameTable

/-! ## Changes -/

/-- A name is bound to an object in addition to what it is bound to, or the table is
shadowed by the table of some pairs. -/
inductive Change where
  | insert (name : QualifiedName) (target : ObjectId)
  | shadow (inner : List (QualifiedName × ObjectId))
  deriving DecidableEq

namespace Change

def pairs : Change → List (QualifiedName × ObjectId)
  | .insert name target => [(name, target)]
  | .shadow inner => inner

/-- A change replaces what a name was bound to: it shadows the name. -/
def Replaces (name : QualifiedName) : Change → Prop
  | .insert _ _ => False
  | .shadow inner => ∃ target, (name, target) ∈ inner

end Change

def perform (table : NameTable) : Change → NameTable
  | .insert name target => table.insert name target
  | .shadow inner => table.shadowWith (ofList inner)

def after (table : NameTable) (history : List Change) : NameTable :=
  history.foldl perform table

/-- The objects a name is bound to by changes that no later change replaces.  They come from
the last table that shadows the name and from the bindings made since, or from all
bindings if nothing shadows the name. -/
def targets (history : List Change) (name : QualifiedName) : Set ObjectId :=
  {target | ∃ earlier change later, history = earlier ++ change :: later ∧
    (name, target) ∈ change.pairs ∧ ∀ further ∈ later, ¬further.Replaces name}

theorem targets_nil (name : QualifiedName) : targets [] name = ∅ := by
  refine Set.eq_empty_iff_forall_notMem.mpr ?_
  rintro target ⟨earlier, change, later, split, _⟩
  exact absurd split.symm (List.append_ne_nil_of_right_ne_nil _ (List.cons_ne_nil _ _))

/-- One more change adds its own pairs to those it does not replace. -/
theorem mem_targets_append_iff {history : List Change} {change : Change}
    {name : QualifiedName} {target : ObjectId} :
    target ∈ targets (history ++ [change]) name ↔
      (name, target) ∈ change.pairs ∨ ¬change.Replaces name ∧ target ∈ targets history name := by
  constructor
  · rintro ⟨earlier, bound, later, split, present, kept⟩
    rcases List.eq_nil_or_concat later with rfl | ⟨between, last, rfl⟩
    · have same := (List.append_inj' split rfl).2
      rw [List.singleton_inj.mp same]
      exact Or.inl present
    · rw [List.concat_eq_append] at split kept
      rw [← List.cons_append, ← List.append_assoc] at split
      have parts := List.append_inj' split rfl
      have same := List.singleton_inj.mp parts.2
      right
      refine ⟨same ▸ kept last (List.mem_append_right _ List.mem_cons_self), ?_⟩
      exact ⟨earlier, bound, between, parts.1, present,
        fun further member => kept further (List.mem_append_left _ member)⟩
  · rintro (present | ⟨spared, earlier, bound, later, split, present, kept⟩)
    · exact ⟨history, change, [], rfl, present, nofun⟩
    · refine ⟨earlier, bound, later ++ [change], by simp [split], present, ?_⟩
      intro further member
      rcases List.mem_append.mp member with before | last
      · exact kept further before
      · rw [List.mem_singleton.mp last]
        exact spared

/-! ## What a table describes after a change -/

/-- The pairs that stand beside a table of some other pairs, because they name something else,
followed by these others. -/
def beside (pairs inner : List (QualifiedName × ObjectId)) :
    List (QualifiedName × ObjectId) :=
  pairs.filter (fun pair => inner.all (·.1 != pair.1)) ++ inner

theorem mem_beside_iff {pairs inner : List (QualifiedName × ObjectId)} {name : QualifiedName}
    {target : ObjectId} :
    (name, target) ∈ beside pairs inner ↔
      (name, target) ∈ inner ∨
        ¬(Change.shadow inner).Replaces name ∧ (name, target) ∈ pairs := by
  have apart : inner.all (·.1 != name) = true ↔ ¬(Change.shadow inner).Replaces name := by
    rw [List.all_eq_true]
    constructor
    · rintro different ⟨object, member⟩
      exact bne_iff_ne.mp (different _ member) rfl
    · rintro spared ⟨other, object⟩ member
      rw [bne_iff_ne]
      rintro rfl
      exact spared ⟨object, member⟩
  rw [beside, List.mem_append, List.mem_filter, or_comm, and_comm, apart]

theorem Describes.shadowWith {pairs inner : List (QualifiedName × ObjectId)}
    {table innerTable : NameTable} (describes : Describes pairs table)
    (describesInner : Describes inner innerTable) :
    Describes (beside pairs inner) (table.shadowWith innerTable) := by
  intro name
  rw [binding?_shadowWith]
  by_cases replaced : (Change.shadow inner).Replaces name
  · have mem_iff : ∀ target, (name, target) ∈ beside pairs inner ↔ (name, target) ∈ inner := by
      intro target
      rw [mem_beside_iff, or_iff_left fun spared => spared.1 replaced]
    have bound : innerTable.binding? name ≠ none := by
      rw [Ne, (describesInner name).1]
      obtain ⟨target, member⟩ := replaced
      exact fun absent => absent target member
    obtain ⟨binding, known⟩ := Option.ne_none_iff_exists'.mp bound
    rw [known, Option.some_or, ← known]
    simp only [mem_iff]
    exact describesInner name
  · have absent : ∀ target, (name, target) ∉ inner :=
      fun target member => replaced ⟨target, member⟩
    have mem_iff : ∀ target, (name, target) ∈ beside pairs inner ↔ (name, target) ∈ pairs := by
      intro target
      rw [mem_beside_iff, or_iff_right (absent target), and_iff_right replaced]
    rw [(describesInner name).1.mpr absent, Option.none_or]
    simp only [mem_iff]
    exact describes name

/-- After a change a table describes the pairs of the change and those it does not
replace. -/
theorem Describes.perform {pairs : List (QualifiedName × ObjectId)} {table : NameTable}
    (describes : Describes pairs table) (change : Change) :
    ∃ next, Describes next (table.perform change) ∧ ∀ name target,
      (name, target) ∈ next ↔
        (name, target) ∈ change.pairs ∨ ¬change.Replaces name ∧ (name, target) ∈ pairs := by
  cases change with
  | insert bound object =>
      refine ⟨_, describes.insert bound object, ?_⟩
      intro name target
      rw [List.mem_append, or_comm]
      simp [Change.pairs, Change.Replaces]
  | shadow inner =>
      exact ⟨_, describes.shadowWith (describes_ofList inner), fun _ _ => mem_beside_iff⟩

/-- After a history a table describes what the history binds and does not replace. -/
theorem exists_describes (history : List Change) :
    ∃ pairs, Describes pairs (empty.after history) ∧
      ∀ name target, (name, target) ∈ pairs ↔ target ∈ targets history name := by
  induction history using List.reverseRecOn with
  | nil =>
      refine ⟨[], describes_empty, ?_⟩
      intro name target
      rw [targets_nil]
      exact iff_of_false nofun (Set.notMem_empty target)
  | append_singleton history change inductionHypothesis =>
      obtain ⟨pairs, describes, mem_iff⟩ := inductionHypothesis
      obtain ⟨next, describesNext, mem_next_iff⟩ := describes.perform change
      refine ⟨next, ?_, ?_⟩
      · rw [after, List.foldl_concat]
        exact describesNext
      · intro name target
        rw [mem_next_iff, mem_targets_append_iff, mem_iff]

theorem Describes.lookup?_eq_some_iff {pairs : List (QualifiedName × ObjectId)}
    {table : NameTable} (describes : Describes pairs table) (name : QualifiedName)
    (target : ObjectId) :
    table.lookup? name = some target ↔ {object | (name, object) ∈ pairs} = {target} := by
  rw [NameTable.lookup?_eq_some_iff, (describes name).2, Set.eq_singleton_iff_unique_mem]
  rfl

/-! ## The names of a table -/

/-- No name is bound twice. -/
def Distinct (table : NameTable) : Prop := (table.entries.map Prod.fst).Nodup

theorem distinct_empty : empty.Distinct := List.nodup_nil

theorem Distinct.bind {table : NameTable} (distinct : table.Distinct) (name : QualifiedName)
    (binding : Binding) : (table.bind name binding).Distinct := by
  refine List.nodup_cons.mpr ⟨?_, distinct.sublist (List.filter_sublist.map Prod.fst)⟩
  intro again
  obtain ⟨entry, member, same⟩ := List.mem_map.mp again
  exact bne_iff_ne.mp (List.mem_filter.mp member).2 same

theorem Distinct.insert {table : NameTable} (distinct : table.Distinct) (name : QualifiedName)
    (target : ObjectId) : (table.insert name target).Distinct := by
  unfold NameTable.insert
  split <;> exact distinct.bind name _

theorem Distinct.shadowWith {table : NameTable} (distinct : table.Distinct)
    (inner : NameTable) : (table.shadowWith inner).Distinct := by
  unfold NameTable.shadowWith
  induction inner.entries with
  | nil => exact distinct
  | cons entry rest inductionHypothesis => exact inductionHypothesis.bind entry.1 entry.2

theorem Distinct.perform {table : NameTable} (distinct : table.Distinct) (change : Change) :
    (table.perform change).Distinct := by
  cases change with
  | insert name target => exact distinct.insert name target
  | shadow inner => exact distinct.shadowWith _

theorem Distinct.after {table : NameTable} (distinct : table.Distinct)
    (history : List Change) : (table.after history).Distinct := by
  induction history generalizing table with
  | nil => exact distinct
  | cons change rest inductionHypothesis => exact inductionHypothesis (distinct.perform change)

theorem mem_names_iff (table : NameTable) (name : QualifiedName) :
    name ∈ table.entries.map Prod.fst ↔ table.binding? name ≠ none := by
  rw [binding?, Ne, List.lookup_eq_none_iff]
  simp

theorem Distinct.encard_eq {table : NameTable} (distinct : table.Distinct) :
    {name | table.binding? name ≠ none}.encard = table.size := by
  have names : {name | table.binding? name ≠ none} =
      ↑(table.entries.map Prod.fst).toFinset := by
    ext name
    rw [List.coe_toFinset, Set.mem_ofPred_eq, Set.mem_ofPred_eq, mem_names_iff]
  rw [names, Set.encard_coe_eq_coe_finsetCard, List.toFinset_card_of_nodup distinct,
    List.length_map, size]

/-! ## What a history leaves -/

theorem binding?_after_ne_none_iff (history : List Change) (name : QualifiedName) :
    (empty.after history).binding? name ≠ none ↔ (targets history name).Nonempty := by
  obtain ⟨pairs, describes, mem_iff⟩ := exists_describes history
  rw [Ne, (describes name).1, not_forall_not]
  exact exists_congr (mem_iff name)

theorem scope_after_eq_some_iff (history : List Change) (name : QualifiedName)
    (target : ObjectId) :
    (empty.after history).scope name = some target ↔ targets history name = {target} := by
  obtain ⟨pairs, describes, mem_iff⟩ := exists_describes history
  have same : {object | (name, object) ∈ pairs} = targets history name := Set.ext (mem_iff name)
  rw [scope, describes.lookup?_eq_some_iff, same]

theorem size_after_eq_encard (history : List Change) :
    ((empty.after history).size : ℕ∞) = {name | (targets history name).Nonempty}.encard := by
  have distinct : (empty.after history).Distinct := distinct_empty.after history
  rw [← distinct.encard_eq]
  simp only [binding?_after_ne_none_iff]

/-- The insertion of pairs, one after the other. -/
def insertions (pairs : List (QualifiedName × ObjectId)) : List Change :=
  pairs.map fun pair => .insert pair.1 pair.2

theorem after_insertions (pairs : List (QualifiedName × ObjectId)) :
    empty.after (insertions pairs) = ofList pairs :=
  List.foldl_map

/-- Insertions replace nothing. -/
theorem targets_insertions (pairs : List (QualifiedName × ObjectId)) (name : QualifiedName) :
    targets (insertions pairs) name = {target | (name, target) ∈ pairs} := by
  induction pairs using List.reverseRecOn with
  | nil => exact (targets_nil name).trans (by simp)
  | append_singleton pairs pair inductionHypothesis =>
      ext target
      have split : insertions (pairs ++ [pair]) =
          insertions pairs ++ [.insert pair.1 pair.2] := List.map_append
      rw [split, mem_targets_append_iff, inductionHypothesis]
      simp [Change.pairs, Change.Replaces, or_comm]

/-- What a table designates after a history.  A name designates the only one of the targets
that the history leaves it, and the table has the size of the set of names with a target.  So
a table that collects pairs is the same scope, of the same size, in whatever order and
however often the pairs come. -/
theorem after_designates (history : List Change) :
    (∀ name target, (empty.after history).scope name = some target ↔
      targets history name = {target}) ∧
    ((empty.after history).size : ℕ∞) = {name | (targets history name).Nonempty}.encard ∧
    ∀ pairs others : List (QualifiedName × ObjectId),
      (∀ pair, pair ∈ pairs ↔ pair ∈ others) →
        (ofList pairs).scope = (ofList others).scope ∧
          (ofList pairs).size = (ofList others).size := by
  refine ⟨scope_after_eq_some_iff history, size_after_eq_encard history, ?_⟩
  intro pairs others same
  have targets_eq : targets (insertions pairs) = targets (insertions others) := by
    funext name
    rw [targets_insertions, targets_insertions]
    exact Set.ext fun target => same (name, target)
  rw [← after_insertions, ← after_insertions]
  constructor
  · funext name
    apply Option.ext
    intro target
    rw [scope_after_eq_some_iff, scope_after_eq_some_iff, targets_eq]
  · have sizes := size_after_eq_encard (insertions pairs)
    rw [targets_eq, ← size_after_eq_encard] at sizes
    exact Nat.cast_injective sizes

/-- An ambiguous name is shadowed by a unique one and bound to it once more; another name is
shadowed by an ambiguous one. -/
def shadowedTwice : List Change :=
  [.insert (.simple "wheel") ⟨1⟩, .insert (.simple "wheel") ⟨2⟩, .insert (.simple "axle") ⟨1⟩,
    .shadow [(.simple "wheel", ⟨3⟩)], .insert (.simple "wheel") ⟨3⟩,
    .shadow [(.simple "axle", ⟨4⟩), (.simple "axle", ⟨5⟩)], .insert (.simple "axle") ⟨4⟩]

/-- The first name is left with one target and the second one with two.  Pairs that come
again or in another order leave the scope as it is. -/
theorem after_designates_shadowedTwice :
    targets shadowedTwice (.simple "wheel") = {⟨3⟩} ∧
      targets shadowedTwice (.simple "axle") ≠ {⟨4⟩} ∧
      {name | (targets shadowedTwice name).Nonempty}.encard = 2 ∧
      (ofList [(.simple "wheel", ⟨1⟩), (.simple "axle", ⟨2⟩), (.simple "wheel", ⟨1⟩)]).scope =
        (ofList [(.simple "axle", ⟨2⟩), (.simple "wheel", ⟨1⟩)]).scope := by
  obtain ⟨designates, counts, sameScope⟩ := after_designates shadowedTwice
  refine ⟨?_, ?_, ?_, ?_⟩
  · rw [← designates]
    decide +kernel
  · rw [Ne, ← designates]
    decide +kernel
  · rw [← counts]
    rfl
  · refine (sameScope _ _ ?_).1
    intro pair
    simp only [List.mem_cons, List.not_mem_nil, or_false]
    tauto

end NameTable

end ModelText
