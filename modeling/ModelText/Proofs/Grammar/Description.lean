import Mathlib.Data.List.Chain
import Mathlib.Order.Bounds.Basic
import ModelText.Grammar.Description
import ModelText.Proofs.Grammar.FirstRule

namespace ModelText

/-!
# Bounds of described features

A description names metaclasses and features; the automata that are analysed know local
feature ids only.  A name becomes an id through the first metaclass of a rule, and the id
is read back through the metaclass of each constraint.  Nothing is lost on the way, because
a feature must have the same id in all metaclasses of its rule and no two features of a
metaclass share a name: a state of the automaton is tagged with the id of a feature exactly
when its description names the feature.

So the bounds can be said of the description alone.  The walks are those along its follower
indices, and the bound of a feature is the largest number of states on a walk that name it.
-/

/-- Two lists that correspond to a third one entry by entry correspond to each other. -/
private theorem forall₂_comp {α β γ : Type} {first : α → β → Prop} {second : β → γ → Prop}
    {listed : List α} {between : List β} {results : List γ}
    (firstRelated : List.Forall₂ first listed between)
    (secondRelated : List.Forall₂ second between results) :
    List.Forall₂ (Relation.Comp first second) listed results := by
  induction firstRelated generalizing results with
  | nil =>
      cases secondRelated
      exact .nil
  | cons head _ inductionHypothesis =>
      cases secondRelated with
      | cons headToo rest => exact .cons ⟨_, head, headToo⟩ (inductionHypothesis rest)

/-! ## Bounds as largest numbers -/

namespace Bound

variable {bound : Bound} {counts : Set Nat}

/-- A bound that admits what some count reaches is finite exactly at the largest count. -/
theorem eq_finite_iff_isGreatest
    (exact : ∀ count, bound.admits count = true ↔
      ∃ attained, attained ∈ counts ∧ count ≤ attained) (limit : Nat) :
    bound = .finite limit ↔ IsGreatest counts limit := by
  have isGreatest : ∀ other, bound = .finite other → IsGreatest counts other := by
    rintro other rfl
    have below : ∀ attained, attained ∈ counts → attained ≤ other := by
      intro attained member
      exact of_decide_eq_true ((exact attained).mpr ⟨attained, member, Nat.le_refl _⟩)
    rcases (exact other).mp (decide_eq_true (Nat.le_refl _)) with ⟨attained, member, enough⟩
    rw [Nat.le_antisymm enough (below attained member)]
    refine ⟨member, ?_⟩
    intro count counted
    exact Nat.le_trans (below count counted) enough
  refine ⟨isGreatest limit, ?_⟩
  intro greatest
  cases bound with
  | finite other => exact congrArg finite ((isGreatest other rfl).unique greatest)
  | unbounded =>
      rcases (exact (limit + 1)).mp rfl with ⟨attained, member, more⟩
      exact absurd (greatest.2 member) (Nat.not_le.mpr more)

/-- It is unbounded exactly when there is no largest count. -/
theorem eq_unbounded_iff_not_isGreatest
    (exact : ∀ count, bound.admits count = true ↔
      ∃ attained, attained ∈ counts ∧ count ≤ attained) :
    bound = .unbounded ↔ ¬∃ limit, IsGreatest counts limit := by
  simp only [← eq_finite_iff_isGreatest exact]
  cases bound <;> simp

end Bound

/-! ## Features of a metaclass -/

theorem Metafeature.nodup_names : (all.map Metafeature.name).Nodup := by decide +kernel

namespace Metaclass

variable {metaclass : Metaclass} {feature other : Metafeature}

theorem exists_featureId?_iff :
    (∃ id, metaclass.featureId? feature = some id) ↔ feature ∈ metaclass.features := by
  rw [← Option.isSome_iff_exists, featureId?, List.isSome_idxOf?]

theorem eq_of_featureId?_eq {id : Nat} (known : metaclass.featureId? feature = some id)
    (knownToo : metaclass.featureId? other = some id) : feature = other := by
  rcases List.idxOf?_eq_some_iff.mp known with ⟨_, found, _⟩
  rcases List.idxOf?_eq_some_iff.mp knownToo with ⟨_, foundToo, _⟩
  exact found.symm.trans foundToo

theorem eq_of_name_eq (listed : feature ∈ metaclass.features)
    (listedToo : other ∈ metaclass.features) (same : feature.name = other.name) :
    feature = other := by
  have distinct : (metaclass.features.map Metafeature.name).Nodup :=
    Metafeature.nodup_names.sublist (List.filter_sublist.map Metafeature.name)
  exact List.inj_on_of_nodup_map distinct listed listedToo same

theorem featureNamed?_eq_some {name : String}
    (found : metaclass.featureNamed? name = some feature) : feature.name = name := by
  have named := List.find?_some found
  exact beq_iff_eq.mp named

end Metaclass

/-! ## Walks of a description -/

namespace RuleDescription

/-- The follower indices of a described state, none for a state that is not described. -/
def followers (rule : RuleDescription) (id : Nat) : List Nat :=
  (rule.states[id]?.map StateDescription.followers).getD []

def feature? (rule : RuleDescription) (id : Nat) : Option String :=
  rule.states[id]?.bind StateDescription.feature

/-- Whether a described state names a feature. -/
def names (rule : RuleDescription) (feature : String) (id : Nat) : Bool :=
  rule.feature? id == some feature

/-- The states passed on a walk from the start along follower indices, in order. -/
def Walk (rule : RuleDescription) (passed : List Nat) : Prop :=
  passed.head? = some rule.start ∧
    passed.IsChain fun id follower => follower ∈ rule.followers id

/-- The numbers of states that name a feature, over all walks. -/
def counts (rule : RuleDescription) (feature : String) : Set Nat :=
  { count | ∃ passed, rule.Walk passed ∧ passed.countP (rule.names feature) = count }

end RuleDescription

namespace Automaton

/-- A walk is a chain of states from the first one along followers. -/
theorem walk_iff_isChain (automaton : Automaton) (id : StateId) (passed : List StateId) :
    automaton.Walk id passed ↔ passed.head? = some id ∧
      passed.IsChain fun id follower => follower ∈ automaton.followers id := by
  constructor
  · intro walk
    induction walk with
    | stop id => exact ⟨rfl, .singleton id⟩
    | next follows _ inductionHypothesis =>
        refine ⟨rfl, List.isChain_cons.mpr ⟨?_, inductionHypothesis.2⟩⟩
        intro next first
        rw [inductionHypothesis.1] at first
        cases first
        exact follows
  · rintro ⟨first, chain⟩
    induction passed generalizing id with
    | nil => cases first
    | cons head rest inductionHypothesis =>
        cases first
        cases rest with
        | nil => exact .stop head
        | cons next rest =>
            rcases List.isChain_cons_cons.mp chain with ⟨follows, further⟩
            exact .next follows (inductionHypothesis next rfl further)

end Automaton

/-! ## Built rules -/

/-- A state as built for some metaclasses: the name of a feature has become the id that all
of them give the feature. -/
structure StateDescription.Resolved (metaclasses : List Metaclass)
    (described : StateDescription) (state : Automaton.State) : Prop where
  followers_eq : state.followers = described.followers
  feature : described.feature = none ∧ state.feature = none ∨
    ∃ feature id, described.feature = some (Metafeature.name feature) ∧
      state.feature = some id ∧
      ∀ metaclass, metaclass ∈ metaclasses → metaclass.featureId? feature = some id

/-- A rule as built from its description. -/
structure RuleDescription.Built (rule : RuleDescription) (built : GrammarRule) : Prop where
  name_eq : built.name = rule.name
  metaclasses : List.Forall₂ (fun name metaclass => Metaclass.ofName? name = some metaclass)
    rule.metaclasses built.metaclasses
  start_eq : built.automaton.start = rule.start
  states : List.Forall₂ (StateDescription.Resolved built.metaclasses) rule.states
    built.automaton.states.toList

namespace RuleDescription

variable {rule : RuleDescription} {built : GrammarRule} {metaclass other : Metaclass}
  {feature : Metafeature}

/-- A feature name is resolved to an id that all metaclasses give the feature. -/
theorem resolveFeature_eq_ok {metaclasses : List Metaclass} {name : String} {id : Nat}
    (accepted : rule.resolveFeature metaclass metaclasses name = .ok id) :
    ∃ feature : Metafeature, feature.name = name ∧
      ∀ metaclass, metaclass ∈ metaclasses → metaclass.featureId? feature = some id := by
  unfold resolveFeature at accepted
  split at accepted
  · cases accepted
  · next feature found =>
      split at accepted
      · cases accepted
      · split at accepted
        · cases accepted
        · next agree =>
            cases accepted
            refine ⟨feature, Metaclass.featureNamed?_eq_some found, ?_⟩
            intro metaclass listed
            have agrees := List.find?_eq_none.mp agree metaclass listed
            simpa using agrees

theorem resolveState_eq_ok {metaclasses : List Metaclass} {described : StateDescription}
    {state : Automaton.State}
    (accepted : rule.resolveState metaclass metaclasses described = .ok state) :
    described.Resolved metaclasses state := by
  unfold resolveState at accepted
  split at accepted
  · next unnamed =>
      cases accepted
      exact ⟨rfl, .inl ⟨unnamed, rfl⟩⟩
  · next name named =>
      cases resolved : rule.resolveFeature metaclass metaclasses name with
      | error error => rw [resolved] at accepted; cases accepted
      | ok id =>
          rw [resolved] at accepted
          cases accepted
          rcases resolveFeature_eq_ok resolved with ⟨feature, rfl, agree⟩
          exact ⟨rfl, .inr ⟨feature, id, named, rfl, agree⟩⟩

theorem resolveClasses_eq_ok {metaclasses : List Metaclass}
    (accepted : rule.resolveClasses = .ok metaclasses) :
    List.Forall₂ (fun name metaclass => Metaclass.ofName? name = some metaclass)
      rule.metaclasses metaclasses := by
  refine (mapM_eq_ok_iff.mp accepted).imp ?_
  intro name metaclass resolved
  split at resolved
  · next found => cases resolved; exact found
  · cases resolved

theorem built_of_build (accepted : rule.build = .ok built) : rule.Built built := by
  unfold build at accepted
  split at accepted
  · cases accepted
  · cases accepted
  · next first others classes =>
      cases resolved : rule.states.mapM (rule.resolveState first (first :: others)) with
      | error error => rw [resolved] at accepted; cases accepted
      | ok states =>
          rw [resolved] at accepted
          cases accepted
          refine ⟨rfl, resolveClasses_eq_ok classes, rfl, ?_⟩
          rw [List.toList_toArray]
          exact (mapM_eq_ok_iff.mp resolved).imp fun _ _ => resolveState_eq_ok

namespace Built

/-- State by state, a built rule has what is described. -/
theorem state?_cases (builds : rule.Built built) (id : Nat) :
    rule.states[id]? = none ∧ built.automaton.state? id = none ∨
      ∃ described state, rule.states[id]? = some described ∧
        built.automaton.state? id = some state ∧
        described.Resolved built.metaclasses state := by
  have states := builds.states
  rw [Automaton.state?, ← Array.getElem?_toList]
  revert states
  generalize rule.states = described
  generalize built.automaton.states.toList = states
  intro states
  induction states generalizing id with
  | nil => exact .inl ⟨rfl, rfl⟩
  | cons first _ inductionHypothesis =>
      cases id with
      | zero => exact .inr ⟨_, _, rfl, rfl, first⟩
      | succ id => exact inductionHypothesis id

theorem followers_eq (builds : rule.Built built) (id : Nat) :
    built.automaton.followers id = rule.followers id := by
  rw [Automaton.followers, followers]
  rcases builds.state?_cases id with ⟨undescribed, missing⟩ | ⟨_, _, here, found, resolved⟩
  · rw [undescribed, missing]
    rfl
  · rw [here, found]
    exact resolved.followers_eq

/-- A state is untagged and names no feature, or it is tagged with the id that all
metaclasses give the feature it names. -/
theorem feature?_cases (builds : rule.Built built) (id : Nat) :
    rule.feature? id = none ∧ built.automaton.feature? id = none ∨
      ∃ feature tag, rule.feature? id = some (Metafeature.name feature) ∧
        built.automaton.feature? id = some tag ∧
        ∀ metaclass, metaclass ∈ built.metaclasses → metaclass.featureId? feature = some tag := by
  rw [feature?, Automaton.feature?]
  rcases builds.state?_cases id with ⟨undescribed, missing⟩ | ⟨_, _, here, found, resolved⟩
  · rw [undescribed, missing]
    exact .inl ⟨rfl, rfl⟩
  · rw [here, found]
    exact resolved.feature

/-- A state is tagged with the id of a feature exactly when its description names the
feature. -/
theorem isTagged_eq (builds : rule.Built built) (listed : metaclass ∈ built.metaclasses)
    {id : Nat} (known : metaclass.featureId? feature = some id) (state : Nat) :
    built.automaton.isTagged id state = rule.names feature.name state := by
  rw [Automaton.isTagged, names]
  rcases builds.feature?_cases state with ⟨unnamed, untagged⟩ | ⟨named, tag, here, found, agree⟩
  · rw [unnamed, untagged]
    rfl
  · have tagKnown := agree metaclass listed
    have namedListed := Metaclass.exists_featureId?_iff.mp ⟨tag, tagKnown⟩
    have featureListed := Metaclass.exists_featureId?_iff.mp ⟨id, known⟩
    rw [here, found, Bool.eq_iff_iff, beq_iff_eq, beq_iff_eq, Option.some.injEq,
      Option.some.injEq]
    constructor
    · rintro rfl
      exact congrArg Metafeature.name (Metaclass.eq_of_featureId?_eq tagKnown known)
    · intro same
      rw [Metaclass.eq_of_name_eq namedListed featureListed same, known] at tagKnown
      exact (Option.some.inj tagKnown).symm

/-- A feature that one of the metaclasses lacks is named by no state. -/
theorem names_eq_false (builds : rule.Built built) (listed : metaclass ∈ built.metaclasses)
    (listedToo : other ∈ built.metaclasses) (has : feature ∈ metaclass.features)
    (lacks : feature ∉ other.features) (state : Nat) :
    rule.names feature.name state = false := by
  rw [names, beq_eq_false_iff_ne]
  intro here
  rcases builds.feature?_cases state with ⟨unnamed, _⟩ | ⟨named, tag, found, _, agree⟩
  · rw [unnamed] at here
    cases here
  · rw [found] at here
    have namedListed := Metaclass.exists_featureId?_iff.mp ⟨tag, agree metaclass listed⟩
    have same := Metaclass.eq_of_name_eq namedListed has (Option.some.inj here)
    exact lacks (same ▸ Metaclass.exists_featureId?_iff.mp ⟨tag, agree other listedToo⟩)

theorem walk_iff (builds : rule.Built built) (passed : List Nat) :
    built.automaton.Walk built.automaton.start passed ↔ rule.Walk passed := by
  rw [Automaton.walk_iff_isChain, builds.start_eq, Walk]
  simp only [builds.followers_eq]

/-- What walks of the automaton attain is what walks of the description count. -/
theorem attains_iff (builds : rule.Built built) (listed : metaclass ∈ built.metaclasses)
    {id : Nat} (known : metaclass.featureId? feature = some id) (count : Nat) :
    built.automaton.Attains id built.automaton.start count ↔
      ∃ attained, attained ∈ rule.counts feature.name ∧ count ≤ attained := by
  have tagged : built.automaton.isTagged id = rule.names feature.name :=
    funext (builds.isTagged_eq listed known)
  constructor
  · rintro ⟨passed, walk, enough⟩
    rw [Automaton.tagCount, tagged] at enough
    exact ⟨_, ⟨passed, (builds.walk_iff passed).mp walk, rfl⟩, enough⟩
  · rintro ⟨_, ⟨passed, walk, rfl⟩, enough⟩
    refine ⟨passed, (builds.walk_iff passed).mpr walk, ?_⟩
    rwa [Automaton.tagCount, tagged]

theorem size_eq (builds : rule.Built built) : built.automaton.size = rule.states.length := by
  rw [Automaton.size, ← Array.length_toList, builds.states.length_eq]

end Built

end RuleDescription

/-! ## Constraints of a description -/

/-- A constraint belongs to a described rule and one of the metaclasses it lists, and bounds
the features of the metaclass by the walks of the description. -/
structure RuleDescription.Constrains (rule : RuleDescription) (name : String)
    (constraint : Constraint) : Prop where
  rule_eq : constraint.rule = rule.name
  metaclass : Metaclass.ofName? name = some constraint.metaclass
  name_eq : constraint.name = Constraint.nameOf rule.name constraint.metaclass
  bound?_eq_none : ∀ feature, feature ∉ constraint.metaclass.features →
    constraint.bound? feature = none
  bound?_isSome : ∀ feature, feature ∈ constraint.metaclass.features →
    (constraint.bound? feature).isSome = true
  finite_iff : ∀ feature, feature ∈ constraint.metaclass.features → ∀ limit,
    constraint.bound? feature = some (.finite limit) ↔
      IsGreatest (rule.counts feature.name) limit
  unbounded_iff : ∀ feature, feature ∈ constraint.metaclass.features →
    (constraint.bound? feature = some .unbounded ↔
      ¬∃ limit, IsGreatest (rule.counts feature.name) limit)

namespace RuleDescription

variable {rule : RuleDescription} {built : GrammarRule} {metaclass : Metaclass}
  {constraint other : Constraint} {name otherName : String} {feature : Metafeature}

/-- The analysis of a built rule bounds the features by the walks of its description. -/
theorem constrains_of_analysePair (builds : rule.Built built)
    (small : rule.states.length < 2 ^ 32) (named : Metaclass.ofName? name = some metaclass)
    (listed : metaclass ∈ built.metaclasses)
    (analysed : Constraints.analysePair built metaclass = .ok constraint) :
    rule.Constrains name constraint := by
  have sameClass := (Constraints.analysePair_eq_ok analysed).2.1
  have sameNames := Constraints.names_of_analysePair analysed
  rw [builds.name_eq] at sameNames
  have bounded : ∀ feature, feature ∈ constraint.metaclass.features →
      ∃ bound, constraint.bound? feature = some bound ∧
        ∀ count, bound.admits count = true ↔
          ∃ attained, attained ∈ rule.counts feature.name ∧ count ≤ attained := by
    intro feature has
    rw [sameClass] at has
    rcases Metaclass.exists_featureId?_iff.mpr has with ⟨id, known⟩
    rcases Constraints.bound?_of_analysePair analysed (builds.size_eq ▸ small) known with
      ⟨bound, found, exact⟩
    refine ⟨bound, found, fun count => ?_⟩
    rw [exact, builds.attains_iff listed known]
  refine ⟨sameNames.1, by rw [named, sameClass], by rw [sameNames.2, sameClass], ?_, ?_, ?_, ?_⟩
  · intro feature lacks
    rw [Constraint.bound?, Metaclass.featureId?, List.idxOf?_eq_none_iff.mpr lacks]
    rfl
  · intro feature has
    rcases bounded feature has with ⟨bound, found, _⟩
    rw [found]
    rfl
  · intro feature has limit
    rcases bounded feature has with ⟨bound, found, exact⟩
    rw [found, Option.some.injEq, Bound.eq_finite_iff_isGreatest exact]
  · intro feature has
    rcases bounded feature has with ⟨bound, found, exact⟩
    rw [found, Option.some.injEq, Bound.eq_unbounded_iff_not_isGreatest exact]

/-- The bound of a feature is the same for all metaclasses of a rule that have it. -/
theorem Constrains.bound?_eq (constrains : rule.Constrains name constraint)
    (constrainsToo : rule.Constrains otherName other)
    (has : feature ∈ constraint.metaclass.features) (hasToo : feature ∈ other.metaclass.features) :
    constraint.bound? feature = other.bound? feature := by
  rcases Option.isSome_iff_exists.mp (constrains.bound?_isSome feature has) with ⟨bound, found⟩
  rw [found]
  symm
  cases bound with
  | finite limit =>
      rw [constrainsToo.finite_iff feature hasToo, ← constrains.finite_iff feature has, found]
  | unbounded =>
      rw [constrainsToo.unbounded_iff feature hasToo, ← constrains.unbounded_iff feature has, found]

/-- A feature that no state names is never printed. -/
theorem Constrains.bound?_eq_zero (constrains : rule.Constrains name constraint)
    (has : feature ∈ constraint.metaclass.features)
    (unnamed : ∀ state, rule.names feature.name state = false) :
    constraint.bound? feature = some .zero := by
  have nothing : ∀ passed : List Nat, passed.countP (rule.names feature.name) = 0 := by
    intro passed
    rw [List.countP_eq_zero]
    intro state _
    rw [unnamed state]
    exact Bool.false_ne_true
  rw [Bound.zero, constrains.finite_iff feature has]
  refine ⟨⟨[rule.start], ⟨rfl, .singleton rule.start⟩, nothing _⟩, ?_⟩
  rintro _ ⟨passed, _, rfl⟩
  exact Nat.le_of_eq (nothing passed)

end RuleDescription

namespace GrammarDescription

variable {description : GrammarDescription} {identity : GrammarId} {grammar : Grammar}
  {constraints : Constraints}

/-- The rules with the names of the metaclasses they list, in order. -/
def pairs (description : GrammarDescription) : List (RuleDescription × String) :=
  description.rules.flatMap fun rule => rule.metaclasses.map fun name => (rule, name)

/-- A constraint is what the analysis makes of a described rule and a name it lists. -/
def Analysed (pair : RuleDescription × String) (constraint : Constraint) : Prop :=
  ∃ built metaclass, pair.1.build = .ok built ∧ Metaclass.ofName? pair.2 = some metaclass ∧
    metaclass ∈ built.metaclasses ∧ Constraints.analysePair built metaclass = .ok constraint

/-- A rule has one constraint for each name it lists. -/
private theorem analysed_group {rule : RuleDescription} {built : GrammarRule}
    {group : List Constraint} (builds : rule.build = .ok built)
    (analysed : List.Forall₂ (fun metaclass constraint =>
      Constraints.analysePair built metaclass = .ok constraint) built.metaclasses group) :
    List.Forall₂ Analysed (rule.metaclasses.map fun name => (rule, name)) group := by
  have listed := (List.forall₂_and_left _ _).mpr ⟨fun _ member => member, analysed⟩
  rw [List.forall₂_map_left_iff]
  refine (forall₂_comp (RuleDescription.built_of_build builds).metaclasses listed).imp ?_
  rintro name constraint ⟨metaclass, named, member, constrained⟩
  exact ⟨built, metaclass, builds, named, member, constrained⟩

/-- The constraints stand in the order of the rules and of the names they list. -/
theorem analysed_pairs (builds : description.build identity = .ok grammar)
    (analysed : Constraints.analyse grammar = .ok constraints) :
    List.Forall₂ Analysed description.pairs constraints.entries := by
  obtain ⟨groups, byRule, entries⟩ := Constraints.analyse_eq_ok analysed
  rw [build] at builds
  cases rules : description.rules.mapM RuleDescription.build with
  | error error => rw [rules] at builds; cases builds
  | ok built =>
      rw [rules] at builds
      cases builds
      rw [entries, pairs, List.flatMap_def]
      apply List.rel_flatten
      rw [List.forall₂_map_left_iff]
      refine (forall₂_comp (mapM_eq_ok_iff.mp rules) byRule).imp ?_
      rintro rule group ⟨builtRule, ruleBuilds, groupAnalysed⟩
      exact analysed_group ruleBuilds groupAnalysed

/-- The constraints of a description stand for its rules and the metaclasses they list, in
order.  The bound of a feature is the largest number of states that name it on a walk of
the description, unbounded when there is none, and missing for a feature that the metaclass
lacks.  All metaclasses of a rule that have a feature have the same bound for it, and if one
lacks the feature, then the others cannot print it. -/
theorem description_bounds (builds : description.build identity = .ok grammar)
    (analysed : Constraints.analyse grammar = .ok constraints)
    (small : ∀ rule, rule ∈ description.rules → rule.states.length < 2 ^ 32) :
    List.Forall₂ (fun pair constraint => pair.1.Constrains pair.2 constraint)
      description.pairs constraints.entries ∧
    ∀ rule name otherName constraint other,
      ((rule, name), constraint) ∈ description.pairs.zip constraints.entries →
      ((rule, otherName), other) ∈ description.pairs.zip constraints.entries →
        ∀ feature, feature ∈ constraint.metaclass.features →
          (feature ∈ other.metaclass.features →
            constraint.bound? feature = other.bound? feature) ∧
          (feature ∉ other.metaclass.features →
            constraint.bound? feature = some .zero) := by
  have related := analysed_pairs builds analysed
  have constrains : ∀ pair constraint, pair ∈ description.pairs → Analysed pair constraint →
      pair.1.Constrains pair.2 constraint := by
    rintro ⟨rule, name⟩ constraint member ⟨built, metaclass, ruleBuilds, named, listed, made⟩
    have described : rule ∈ description.rules := by
      rcases List.mem_flatMap.mp member with ⟨listedRule, ruleMember, nameMember⟩
      rcases List.mem_map.mp nameMember with ⟨_, _, ⟨⟩⟩
      exact ruleMember
    exact RuleDescription.constrains_of_analysePair (RuleDescription.built_of_build ruleBuilds)
      (small rule described) named listed made
  have all := (List.forall₂_and_left _ _).mpr ⟨fun _ member => member, related⟩
  refine ⟨all.imp fun pair constraint both => constrains pair constraint both.1 both.2, ?_⟩
  intro rule name otherName constraint other member memberToo feature has
  have first := constrains _ _ (List.of_mem_zip member).1 (List.forall₂_zip related member)
  have second := constrains _ _ (List.of_mem_zip memberToo).1
    (List.forall₂_zip related memberToo)
  refine ⟨first.bound?_eq second has, ?_⟩
  intro lacks
  rcases List.forall₂_zip related member with ⟨built, metaclass, ruleBuilds, _, listed, made⟩
  rcases List.forall₂_zip related memberToo with
    ⟨builtToo, otherClass, ruleBuildsToo, _, listedToo, madeToo⟩
  cases ruleBuilds.symm.trans ruleBuildsToo
  rw [← (Constraints.analysePair_eq_ok made).2.1] at listed
  rw [← (Constraints.analysePair_eq_ok madeToo).2.1] at listedToo
  exact first.bound?_eq_zero has
    ((RuleDescription.built_of_build ruleBuilds).names_eq_false listed listedToo has lacks)

/-- A rule shared by two metaclasses: any number of relationships, then a name that is
printed twice. -/
def sharedRule : RuleDescription :=
  ⟨"Step", ["Feature", "OperatorExpression"], 0,
    [⟨none, [1, 2]⟩, ⟨some "ownedRelationship", [1, 2]⟩, ⟨some "declaredName", [3]⟩,
      ⟨some "declaredName", []⟩]⟩

/-- The grammar that is built from the rule. -/
def sharedGrammar : Grammar :=
  ⟨⟨0⟩, "Shared",
    [⟨"Step", [.feature, .operatorExpression],
      ⟨"Step", 0, #[⟨none, [1, 2]⟩, ⟨some 4, [1, 2]⟩, ⟨some 3, [3]⟩, ⟨some 3, []⟩]⟩⟩]⟩

/-- The constraints of the grammar; the second metaclass has features that the first one
lacks. -/
def sharedConstraints : Constraints :=
  let bounds := fun metaclass : Metaclass => metaclass.features.map fun feature =>
    match feature with
    | .ownedRelationship => Bound.unbounded
    | .declaredName => .finite 2
    | _ => .zero
  ⟨⟨0⟩,
    [⟨"Step_Feature", "Step", .feature, ⟨bounds .feature⟩⟩,
      ⟨"Step_OperatorExpression", "Step", .operatorExpression, ⟨bounds .operatorExpression⟩⟩]⟩

/-- Both metaclasses have the two features that the rule names, with the same bounds: a walk
goes around the relationships as often as it likes, and then names the element twice. -/
theorem description_bounds_sharedRule :
    (GrammarDescription.mk "Shared" [sharedRule]).build ⟨0⟩ = .ok sharedGrammar ∧
      Constraints.analyse sharedGrammar = .ok sharedConstraints ∧
      sharedRule.states.length < 2 ^ 32 ∧
      List.Forall₂ (fun pair constraint => pair.1.Constrains pair.2 constraint)
        [(sharedRule, "Feature"), (sharedRule, "OperatorExpression")]
        sharedConstraints.entries ∧
      IsGreatest (sharedRule.counts "declaredName") 2 ∧
      ¬∃ limit, IsGreatest (sharedRule.counts "ownedRelationship") limit := by
  have builds : (GrammarDescription.mk "Shared" [sharedRule]).build ⟨0⟩ = .ok sharedGrammar := by
    decide +kernel
  have analysed : Constraints.analyse sharedGrammar = .ok sharedConstraints := by
    decide +kernel
  have small : ∀ rule, rule ∈ [sharedRule] → rule.states.length < 2 ^ 32 := by decide
  have related := (description_bounds builds analysed small).1
  refine ⟨builds, analysed, small _ (List.mem_singleton.mpr rfl), related, ?_, ?_⟩
  · rcases related with _ | ⟨first, _⟩
    exact (first.finite_iff .declaredName (by decide +kernel) 2).mp (by decide +kernel)
  · rcases related with _ | ⟨first, _⟩
    exact (first.unbounded_iff .ownedRelationship (by decide +kernel)).mp (by decide +kernel)

end GrammarDescription

end ModelText
