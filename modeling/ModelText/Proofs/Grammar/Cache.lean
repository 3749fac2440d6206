import Mathlib.Data.Finset.Card
import ModelText.Grammar.Cache

namespace ModelText

/-!
# The constraint cache is coherent

The cache tells grammars apart by their identities and never looks at their rules.  What it
keeps is right as long as an identity stands for one grammar only.  This holds in every
history of building and copying: a grammar gets an identity that none before it has, and
only copies share it.

The answers of a history are set against the cache it leaves behind.  An analysis is kept
under an identity exactly when a call for a grammar with this identity was answered with
it, and serial numbers count the kept analyses, so they repeat only with the identity.
-/

/-! ## One call -/

namespace ConstraintCache

variable {cache : ConstraintCache} {grammar : Grammar}

/-- A call finds the analysis, fails to make it and changes nothing, or makes it and keeps
it under the next serial number. -/
theorem constraints_cases (cache : ConstraintCache) (grammar : Grammar) :
    (∃ shared, cache.find? grammar.identity = some shared ∧
      cache.constraints grammar = (.ok shared, cache)) ∨
    cache.find? grammar.identity = none ∧
      ((∃ error, Constraints.analyse grammar = .error error ∧
        cache.constraints grammar = (.error error, cache)) ∨
      ∃ constraints, Constraints.analyse grammar = .ok constraints ∧
        cache.constraints grammar = (.ok ⟨cache.size, constraints⟩,
          ⟨(grammar.identity, ⟨cache.size, constraints⟩) :: cache.entries⟩)) := by
  unfold constraints
  cases kept : cache.find? grammar.identity with
  | some shared => exact .inl ⟨shared, rfl, rfl⟩
  | none =>
      cases Constraints.analyse grammar with
      | error error => exact .inr ⟨rfl, .inl ⟨error, rfl, rfl⟩⟩
      | ok constraints => exact .inr ⟨rfl, .inr ⟨constraints, rfl, rfl⟩⟩

theorem cache_of_error {error : AnalysisError}
    (failed : (cache.constraints grammar).1 = .error error) :
    (cache.constraints grammar).2 = cache := by
  rcases constraints_cases cache grammar with
    ⟨shared, _, result⟩ | ⟨_, ⟨_, _, result⟩ | ⟨constraints, _, result⟩⟩
  · rw [result]
  · rw [result]
  · rw [result] at failed
    cases failed

theorem find?_cons (identity sought : GrammarId) (shared : SharedConstraints)
    (entries : List (GrammarId × SharedConstraints)) :
    (ConstraintCache.mk ((identity, shared) :: entries)).find? sought =
      if sought = identity then some shared else (ConstraintCache.mk entries).find? sought := by
  rw [find?, List.lookup_cons]
  by_cases same : sought = identity
  · rw [if_pos same, beq_iff_eq.mpr same]
  · rw [if_neg same, beq_eq_false_iff_ne.mpr same]
    rfl

theorem mem_of_find? {identity : GrammarId} {shared : SharedConstraints}
    (kept : cache.find? identity = some shared) : (identity, shared) ∈ cache.entries := by
  rcases cache with ⟨entries⟩
  induction entries with
  | nil => cases kept
  | cons entry rest inductionHypothesis =>
      rw [find?_cons] at kept
      split at kept
      · next same =>
          cases kept
          rw [same]
          exact List.mem_cons_self
      · exact List.mem_cons_of_mem _ (inductionHypothesis kept)

theorem isCached_iff_mem (cache : ConstraintCache) (identity : GrammarId) :
    cache.isCached identity = true ↔ identity ∈ cache.entries.map Prod.fst := by
  constructor
  · intro cached
    rcases Option.isSome_iff_exists.mp cached with ⟨shared, kept⟩
    exact List.mem_map_of_mem (mem_of_find? kept)
  · rcases cache with ⟨entries⟩
    induction entries with
    | nil => intro listed; cases listed
    | cons entry rest inductionHypothesis =>
        intro listed
        rw [isCached, find?_cons]
        split
        · rfl
        · next different =>
            exact inductionHypothesis ((List.mem_cons.mp listed).resolve_left different)

end ConstraintCache

/-! ## The answers so far -/

/-- A grammar that was asked for, and what the call answered. -/
structure AnalysisAnswer where
  grammar : Grammar
  outcome : Except AnalysisError SharedConstraints

namespace AnalysisAnswer

/-- The answer hands out an analysis for a grammar with the given identity. -/
def Gives (answer : AnalysisAnswer) (identity : GrammarId) (shared : SharedConstraints) :
    Prop :=
  answer.grammar.identity = identity ∧ answer.outcome = .ok shared

/-- The identity of the grammar, if the call succeeded. -/
def analysed? (answer : AnalysisAnswer) : Option GrammarId :=
  match answer.outcome with
  | .ok _ => some answer.grammar.identity
  | .error _ => none

theorem analysed?_eq_some_iff (answer : AnalysisAnswer) (identity : GrammarId) :
    answer.analysed? = some identity ↔ ∃ shared, answer.Gives identity shared := by
  rcases answer with ⟨grammar, outcome⟩
  cases outcome with
  | ok shared => simp [analysed?, Gives]
  | error error => simp [analysed?, Gives]

/-- One more answer gives what the earlier ones gave, and what it gives itself. -/
theorem exists_append_iff (answers : List AnalysisAnswer) (last : AnalysisAnswer)
    (identity : GrammarId) (shared : SharedConstraints) :
    (∃ answer, answer ∈ answers ++ [last] ∧ answer.Gives identity shared) ↔
      (∃ answer, answer ∈ answers ∧ answer.Gives identity shared) ∨
        last.Gives identity shared := by
  simp only [List.mem_append, List.mem_singleton, or_and_right, exists_or, exists_eq_left]

end AnalysisAnswer

/-- What a cache remembers of the calls it has answered. -/
structure ConstraintCache.Remembers (cache : ConstraintCache) (answers : List AnalysisAnswer) :
    Prop where
  /-- Every call answers what the analysis of its grammar gives. -/
  faithful : ∀ answer, answer ∈ answers →
    answer.outcome.map SharedConstraints.constraints = Constraints.analyse answer.grammar
  /-- The analyses handed out are kept, and no others. -/
  find?_iff : ∀ identity shared, cache.find? identity = some shared ↔
    ∃ answer, answer ∈ answers ∧ answer.Gives identity shared
  identities_nodup : (cache.entries.map Prod.fst).Nodup
  /-- Serial numbers count the analyses, and the latest comes first. -/
  serials_eq : cache.entries.map (fun entry => entry.2.serial) =
    (List.range cache.size).reverse

namespace ConstraintCache.Remembers

variable {cache : ConstraintCache} {answers : List AnalysisAnswer} {grammar : Grammar}

theorem empty : ConstraintCache.empty.Remembers [] where
  faithful := nofun
  find?_iff := by
    intro identity shared
    exact ⟨nofun, nofun⟩
  identities_nodup := List.nodup_nil
  serials_eq := rfl

/-- One more answer that agrees with the analysis of its grammar. -/
private theorem faithful_append (remembers : cache.Remembers answers) {last : AnalysisAnswer}
    (right : last.outcome.map SharedConstraints.constraints =
      Constraints.analyse last.grammar) (answer : AnalysisAnswer)
    (member : answer ∈ answers ++ [last]) :
    answer.outcome.map SharedConstraints.constraints = Constraints.analyse answer.grammar := by
  rcases List.mem_append.mp member with before | new
  · exact remembers.faithful answer before
  · rw [List.mem_singleton.mp new]
    exact right

/-- An answer that is kept already adds nothing, and a failure adds nothing either. -/
private theorem append (remembers : cache.Remembers answers) {last : AnalysisAnswer}
    (right : last.outcome.map SharedConstraints.constraints =
      Constraints.analyse last.grammar)
    (kept : ∀ shared, last.outcome = .ok shared →
      cache.find? last.grammar.identity = some shared) :
    cache.Remembers (answers ++ [last]) where
  faithful := remembers.faithful_append right
  find?_iff := by
    intro identity shared
    rw [AnalysisAnswer.exists_append_iff, ← remembers.find?_iff]
    refine ⟨Or.inl, fun given => given.elim id ?_⟩
    rintro ⟨rfl, outcome⟩
    exact kept shared outcome
  identities_nodup := remembers.identities_nodup
  serials_eq := remembers.serials_eq

/-- A new analysis is kept under an identity that had none. -/
private theorem insert (remembers : cache.Remembers answers) {constraints : Constraints}
    (unknown : cache.find? grammar.identity = none)
    (made : Constraints.analyse grammar = .ok constraints) :
    (ConstraintCache.mk ((grammar.identity, ⟨cache.size, constraints⟩) :: cache.entries)).Remembers
      (answers ++ [⟨grammar, .ok ⟨cache.size, constraints⟩⟩]) where
  faithful := remembers.faithful_append (by rw [made]; rfl)
  find?_iff := by
    intro identity shared
    rw [find?_cons, AnalysisAnswer.exists_append_iff, ← remembers.find?_iff]
    by_cases same : identity = grammar.identity
    · subst same
      rw [if_pos rfl, unknown]
      simp [AnalysisAnswer.Gives]
    · simp [same, AnalysisAnswer.Gives, Ne.symm same]
  identities_nodup := by
    refine List.nodup_cons.mpr ⟨?_, remembers.identities_nodup⟩
    rw [← isCached_iff_mem, isCached, unknown]
    exact Bool.false_ne_true
  serials_eq := by
    rw [List.map_cons, remembers.serials_eq, size, size, List.length_cons, List.range_succ,
      List.reverse_append]
    rfl

/-- A call is remembered, if no other grammar was asked for under its identity. -/
theorem call (remembers : cache.Remembers answers)
    (identified : ∀ answer, answer ∈ answers →
      answer.grammar.identity = grammar.identity → answer.grammar = grammar) :
    (cache.constraints grammar).2.Remembers
      (answers ++ [⟨grammar, (cache.constraints grammar).1⟩]) := by
  rcases constraints_cases cache grammar with
    ⟨shared, kept, result⟩ | ⟨unknown, ⟨error, failed, result⟩ | ⟨constraints, made, result⟩⟩
  · rw [result]
    -- what is kept under the identity was made for this very grammar
    rcases (remembers.find?_iff _ _).mp kept with ⟨asked, member, same, outcome⟩
    have made := remembers.faithful asked member
    rw [outcome, identified asked member same] at made
    refine remembers.append made ?_
    rintro found ⟨⟩
    exact kept
  · rw [result]
    exact remembers.append (by rw [failed]; rfl) nofun
  · rw [result]
    exact remembers.insert unknown made

/-! ## What follows of all answers -/

/-- Two calls are handed the same analysis exactly when they ask under one identity. -/
theorem serial_eq_iff (remembers : cache.Remembers answers) {first second : AnalysisAnswer}
    {shared sharedToo : SharedConstraints} (firstMember : first ∈ answers)
    (secondMember : second ∈ answers) (firstOutcome : first.outcome = .ok shared)
    (secondOutcome : second.outcome = .ok sharedToo) :
    (shared.serial = sharedToo.serial ↔
        first.grammar.identity = second.grammar.identity) ∧
      (first.grammar.identity = second.grammar.identity → shared = sharedToo) := by
  have kept := (remembers.find?_iff _ _).mpr ⟨first, firstMember, rfl, firstOutcome⟩
  have keptToo := (remembers.find?_iff _ _).mpr ⟨second, secondMember, rfl, secondOutcome⟩
  have shares : first.grammar.identity = second.grammar.identity → shared = sharedToo := by
    intro same
    rw [same, keptToo] at kept
    exact (Option.some.inj kept).symm
  refine ⟨⟨?_, fun same => congrArg _ (shares same)⟩, shares⟩
  intro same
  have serials_nodup : (cache.entries.map fun entry => entry.2.serial).Nodup := by
    rw [remembers.serials_eq]
    exact List.nodup_reverse.mpr List.nodup_range
  have entry := List.inj_on_of_nodup_map serials_nodup (mem_of_find? kept)
    (mem_of_find? keptToo) same
  exact congrArg Prod.fst entry

/-- A grammar is cached exactly when a call for its identity has succeeded. -/
theorem isCached_iff (remembers : cache.Remembers answers) (identity : GrammarId) :
    cache.isCached identity = true ↔
      ∃ answer shared, answer ∈ answers ∧ answer.Gives identity shared := by
  rw [isCached, Option.isSome_iff_exists, exists_comm]
  exact exists_congr (remembers.find?_iff identity)

/-- The size of the cache is the number of identities for which a call has succeeded. -/
theorem size_eq_card (remembers : cache.Remembers answers) :
    cache.size = (answers.filterMap AnalysisAnswer.analysed?).toFinset.card := by
  have same : (cache.entries.map Prod.fst).toFinset =
      (answers.filterMap AnalysisAnswer.analysed?).toFinset := by
    ext identity
    rw [List.mem_toFinset, ← isCached_iff_mem, remembers.isCached_iff, List.mem_toFinset,
      List.mem_filterMap]
    simp only [AnalysisAnswer.analysed?_eq_some_iff, exists_and_left]
  rw [← same, List.toFinset_card_of_nodup remembers.identities_nodup, List.length_map, size]

end ConstraintCache.Remembers

/-! ## Histories of building, copying and asking -/

/-- The grammars built and copied so far, and the cache of their analyses. -/
structure GrammarShelf where
  grammars : Array Grammar
  cache : ConstraintCache

namespace GrammarShelf

/-- No grammars, and nothing analysed. -/
def initial : GrammarShelf := ⟨#[], .empty⟩

/-- A call that builds a grammar, copies one or asks for its constraints. -/
inductive Call where
  | build (name : String) (rules : List GrammarRule)
  | copy (place : Nat)
  | constraints (place : Nat)
  deriving DecidableEq

/-- The shelf after a call.  A new grammar has its place as identity and a copy keeps the
identity of its original; a call to a place without a grammar does nothing. -/
def perform (shelf : GrammarShelf) : Call → GrammarShelf
  | .build name rules =>
      { shelf with grammars := shelf.grammars.push ⟨⟨shelf.grammars.size⟩, name, rules⟩ }
  | .copy place =>
      match shelf.grammars[place]? with
      | some grammar => { shelf with grammars := shelf.grammars.push grammar }
      | none => shelf
  | .constraints place =>
      match shelf.grammars[place]? with
      | some grammar => { shelf with cache := (shelf.cache.constraints grammar).2 }
      | none => shelf

def answer? (shelf : GrammarShelf) : Call → Option AnalysisAnswer
  | .build _ _ => none
  | .copy _ => none
  | .constraints place =>
      shelf.grammars[place]?.map fun grammar => ⟨grammar, (shelf.cache.constraints grammar).1⟩

def after (shelf : GrammarShelf) (calls : List Call) : GrammarShelf :=
  calls.foldl perform shelf

/-- What the calls of a history answer, in their order. -/
def answers (shelf : GrammarShelf) : List Call → List AnalysisAnswer
  | [] => []
  | call :: rest => (shelf.answer? call).toList ++ (shelf.perform call).answers rest

/-- Grammars with one identity are copies of each other, and the next identity is free. -/
structure Identified (shelf : GrammarShelf) : Prop where
  eq_of_identity_eq : ∀ grammar other, grammar ∈ shelf.grammars → other ∈ shelf.grammars →
    grammar.identity = other.identity → grammar = other
  number_lt : ∀ grammar, grammar ∈ shelf.grammars →
    grammar.identity.number < shelf.grammars.size

/-- The grammars are told apart by their identities, and the cache remembers what was
answered for them. -/
structure Coherent (shelf : GrammarShelf) (answers : List AnalysisAnswer) : Prop where
  identified : shelf.Identified
  asked : ∀ answer, answer ∈ answers → answer.grammar ∈ shelf.grammars
  remembers : shelf.cache.Remembers answers

theorem coherent_initial : initial.Coherent [] where
  identified := ⟨nofun, nofun⟩
  asked := nofun
  remembers := .empty

/-- A copy shares its identity with its original only. -/
theorem Identified.copy {shelf : GrammarShelf} (identified : shelf.Identified)
    {grammar : Grammar} (original : grammar ∈ shelf.grammars) :
    { shelf with grammars := shelf.grammars.push grammar : GrammarShelf }.Identified := by
  have onShelf : ∀ listed, listed ∈ shelf.grammars.push grammar → listed ∈ shelf.grammars := by
    intro listed member
    rcases Array.mem_push.mp member with before | rfl
    · exact before
    · exact original
  refine ⟨?_, ?_⟩
  · intro first second firstMember secondMember
    exact identified.eq_of_identity_eq first second (onShelf first firstMember)
      (onShelf second secondMember)
  · intro listed member
    rw [Array.size_push]
    exact Nat.lt_succ_of_lt (identified.number_lt listed (onShelf listed member))

/-- A grammar with a free identity shares it with no other. -/
theorem Identified.build {shelf : GrammarShelf} (identified : shelf.Identified)
    {grammar : Grammar} (fresh : grammar.identity = ⟨shelf.grammars.size⟩) :
    { shelf with grammars := shelf.grammars.push grammar : GrammarShelf }.Identified := by
  have apart : ∀ listed, listed ∈ shelf.grammars → listed.identity ≠ grammar.identity := by
    intro listed member same
    have below := identified.number_lt listed member
    rw [same, fresh] at below
    exact Nat.lt_irrefl _ below
  refine ⟨?_, ?_⟩
  · intro first second firstMember secondMember same
    rcases Array.mem_push.mp firstMember with firstBefore | rfl
    · rcases Array.mem_push.mp secondMember with secondBefore | rfl
      · exact identified.eq_of_identity_eq first second firstBefore secondBefore same
      · exact absurd same (apart first firstBefore)
    · rcases Array.mem_push.mp secondMember with secondBefore | rfl
      · exact absurd same.symm (apart second secondBefore)
      · rfl
  · intro listed member
    rw [Array.size_push]
    rcases Array.mem_push.mp member with before | rfl
    · exact Nat.lt_succ_of_lt (identified.number_lt listed before)
    · rw [fresh]
      exact Nat.lt_succ_self _

/-- Every call keeps the shelf coherent with the answers so far and its own. -/
theorem Coherent.perform {shelf : GrammarShelf} {answers : List AnalysisAnswer}
    (coherent : shelf.Coherent answers) (call : Call) :
    (shelf.perform call).Coherent (answers ++ (shelf.answer? call).toList) := by
  have stillAsked : ∀ grammar answer, answer ∈ answers →
      answer.grammar ∈ shelf.grammars.push grammar :=
    fun grammar answer member => Array.mem_push_of_mem grammar (coherent.asked answer member)
  cases call with
  | build name rules =>
      rw [GrammarShelf.perform, answer?, Option.toList_none, List.append_nil]
      exact ⟨coherent.identified.build rfl, stillAsked _, coherent.remembers⟩
  | copy place =>
      rw [GrammarShelf.perform, answer?, Option.toList_none, List.append_nil]
      cases found : shelf.grammars[place]? with
      | none => exact coherent
      | some grammar =>
          exact ⟨coherent.identified.copy (Array.mem_of_getElem? found), stillAsked _,
            coherent.remembers⟩
  | constraints place =>
      rw [GrammarShelf.perform, answer?]
      cases found : shelf.grammars[place]? with
      | none =>
          rw [Option.map_none, Option.toList_none, List.append_nil]
          exact coherent
      | some grammar =>
          have onShelf := Array.mem_of_getElem? found
          rw [Option.map_some, Option.toList_some]
          refine ⟨⟨coherent.identified.eq_of_identity_eq, coherent.identified.number_lt⟩, ?_, ?_⟩
          · intro answer member
            rcases List.mem_append.mp member with before | new
            · exact coherent.asked answer before
            · rw [List.mem_singleton.mp new]
              exact onShelf
          · refine coherent.remembers.call ?_
            intro answer member
            exact coherent.identified.eq_of_identity_eq _ _ (coherent.asked answer member) onShelf

theorem Coherent.after {shelf : GrammarShelf} {before : List AnalysisAnswer}
    (coherent : shelf.Coherent before) (calls : List Call) :
    (shelf.after calls).Coherent (before ++ shelf.answers calls) := by
  induction calls generalizing shelf before with
  | nil =>
      rw [answers, List.append_nil]
      exact coherent
  | cons call rest inductionHypothesis =>
      rw [answers, ← List.append_assoc]
      exact inductionHypothesis (coherent.perform call)

/-- In every history of building, copying and asking, each call answers what the analysis
of its grammar gives, and two calls that succeed are handed the same analysis exactly when
their grammars have the same identity.  Cached are the identities for which a call has
succeeded, once each.  A call that fails leaves the cache as it was. -/
theorem answers_coherent (calls : List Call) :
    (∀ answer, answer ∈ initial.answers calls →
      answer.outcome.map SharedConstraints.constraints =
        Constraints.analyse answer.grammar) ∧
    (∀ first second shared sharedToo, first ∈ initial.answers calls →
      second ∈ initial.answers calls → first.outcome = .ok shared →
      second.outcome = .ok sharedToo →
        (shared.serial = sharedToo.serial ↔
          first.grammar.identity = second.grammar.identity) ∧
        (first.grammar.identity = second.grammar.identity → shared = sharedToo)) ∧
    (∀ identity, (initial.after calls).cache.isCached identity = true ↔
      ∃ answer shared, answer ∈ initial.answers calls ∧ answer.Gives identity shared) ∧
    (initial.after calls).cache.size =
      ((initial.answers calls).filterMap AnalysisAnswer.analysed?).toFinset.card ∧
    ∀ call answer error, (initial.after calls).answer? call = some answer →
      answer.outcome = .error error →
        ((initial.after calls).perform call).cache = (initial.after calls).cache := by
  have remembers : (initial.after calls).cache.Remembers (initial.answers calls) :=
    (coherent_initial.after calls).remembers
  refine ⟨remembers.faithful, ?_, remembers.isCached_iff, remembers.size_eq_card, ?_⟩
  · intro first second shared sharedToo firstMember secondMember
    exact remembers.serial_eq_iff firstMember secondMember
  · intro call answer error answered failed
    cases call with
    | build name rules => cases answered
    | copy place => cases answered
    | constraints place =>
        rw [answer?] at answered
        rw [GrammarShelf.perform]
        cases found : (initial.after calls).grammars[place]? with
        | none => rfl
        | some grammar =>
            rw [found] at answered
            cases answered
            exact ConstraintCache.cache_of_error failed

end GrammarShelf

end ModelText
