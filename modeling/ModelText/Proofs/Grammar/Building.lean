import ModelText.Proofs.Checks
import ModelText.Proofs.Grammar.Description

namespace ModelText

/-!
# Building described grammars

A description is built rule by rule, and of a rule first its metaclasses are looked up and
then the features of its states, so the error tells the first name that is wrong.  A
feature is looked up in the first metaclass of the rule, and the others are asked whether
they have it under the same local id.  This amounts to asking whether they have a feature
of this name: a feature has one id in all metaclasses, because inherited features come
first, and no other feature has its name.

What is built says what the description says.  Only names are looked up; positions are
taken over as they are, whether or not there is a state behind them.
-/

/-! ## Names of the abstract syntax -/

theorem Metafeature.name_injective {left right : Metafeature} (same : left.name = right.name) :
    left = right :=
  List.inj_on_of_nodup_map nodup_names (mem_all left) (mem_all right) same

namespace Metaclass

variable {metaclass : Metaclass} {feature : Metafeature} {name : String}

theorem ofName?_eq_some_iff : ofName? name = some metaclass ↔ metaclass.name = name := by
  constructor
  · intro known
    have test := List.find?_some known
    exact beq_iff_eq.mp test
  · rintro rfl
    exact ofName?_name metaclass

theorem ofName?_eq_none_iff :
    ofName? name = none ↔ ∀ metaclass : Metaclass, metaclass.name ≠ name := by
  simp only [Option.eq_none_iff_forall_ne_some, ne_eq, ofName?_eq_some_iff]

/-- Inherited features come first, in the order of the supertype. -/
theorem features_prefix {specific general : Metaclass} (kind : specific.isA general = true) :
    general.features <+: specific.features := by
  have lineages : ∀ specific ∈ all, ∀ general ∈ specific.lineage,
      general.features <+: specific.features := by
    decide +kernel
  exact lineages specific (mem_all specific) general (List.contains_iff_mem.mp kind)

/-- An inherited feature keeps the local id that it has where it is declared. -/
theorem featureId?_eq (has : feature ∈ metaclass.features) :
    metaclass.featureId? feature = feature.declaredBy.featureId? feature := by
  have kind := (mem_features_iff metaclass feature).mp has
  have declared : feature ∈ feature.declaredBy.features :=
    (mem_features_iff _ feature).mpr (isA_refl _)
  obtain ⟨id, known⟩ := exists_featureId?_iff.mpr declared
  obtain ⟨own, split⟩ := features_prefix kind
  rw [known, featureId?, ← split, List.idxOf?, List.findIdx?_append]
  rw [featureId?, List.idxOf?] at known
  rw [known, Option.some_or]

/-- Whether a metaclass has a feature of the given name. -/
def HasNamed (metaclass : Metaclass) (name : String) : Prop :=
  ∃ feature ∈ metaclass.features, feature.name = name

theorem featureNamed?_eq_none_iff :
    metaclass.featureNamed? name = none ↔ ¬metaclass.HasNamed name := by
  simp [featureNamed?, HasNamed]

theorem featureNamed?_eq_some_iff :
    metaclass.featureNamed? name = some feature ↔
      feature ∈ metaclass.features ∧ feature.name = name := by
  constructor
  · intro found
    exact ⟨List.mem_of_find?_eq_some found, featureNamed?_eq_some found⟩
  · rintro ⟨has, rfl⟩
    cases found : metaclass.featureNamed? feature.name with
    | none => exact absurd ⟨feature, has, rfl⟩ (featureNamed?_eq_none_iff.mp found)
    | some named => rw [Metafeature.name_injective (featureNamed?_eq_some found)]

/-- To have a feature under the id that it has elsewhere is to have a feature of its name. -/
theorem featureId?_eq_iff_hasNamed {other : Metaclass} {id : Nat}
    (known : other.featureId? feature = some id) :
    metaclass.featureId? feature = some id ↔ metaclass.HasNamed feature.name := by
  have otherHas := exists_featureId?_iff.mp ⟨id, known⟩
  constructor
  · intro knownToo
    exact ⟨feature, exists_featureId?_iff.mp ⟨id, knownToo⟩, rfl⟩
  · rintro ⟨named, has, sameName⟩
    rw [Metafeature.name_injective sameName] at has
    rw [featureId?_eq has, ← featureId?_eq otherHas, known]

end Metaclass

namespace RuleDescription

variable {rule : RuleDescription} {metaclasses : List Metaclass} {first : Metaclass}
  {others : List Metaclass} {state : StateDescription} {name : String} {error : AnalysisError}

/-! ## What is wrong with a rule -/

/-- A listed name is wrong when no metaclass has it. -/
def NameFault (rule : RuleDescription) (name : String) (error : AnalysisError) : Prop :=
  (∀ metaclass : Metaclass, metaclass.name ≠ name) ∧ error = .unknownClass rule.name name

/-- A metaclass is wrong for a feature name when it has no feature of this name. -/
def FeatureFault (rule : RuleDescription) (name : String) (metaclass : Metaclass)
    (error : AnalysisError) : Prop :=
  ¬metaclass.HasNamed name ∧ error = .unknownFeature rule.name metaclass name

/-- A state is wrong when a metaclass lacks the feature it names; the first such metaclass is
reported. -/
def StateFault (rule : RuleDescription) (metaclasses : List Metaclass) (state : StateDescription)
    (error : AnalysisError) : Prop :=
  ∃ name, state.feature = some name ∧ FirstOf (rule.FeatureFault name) metaclasses error

/-- What is wrong with a rule: the first name without a metaclass, or that no name is listed,
or the first wrong state. -/
inductive Fault (rule : RuleDescription) : AnalysisError → Prop where
  | unknownName {error : AnalysisError} :
      FirstOf rule.NameFault rule.metaclasses error → Fault rule error
  | noNames : rule.metaclasses = [] → Fault rule (.noClasses rule.name)
  | wrongState {metaclasses : List Metaclass} {error : AnalysisError} :
      metaclasses.map Metaclass.name = rule.metaclasses →
        FirstOf (rule.StateFault metaclasses) rule.states error → Fault rule error

/-- A rule is sound when it lists names of metaclasses, at least one, and its states name
features that all these metaclasses have. -/
structure Sound (rule : RuleDescription) : Prop where
  known : ∀ name ∈ rule.metaclasses, ∃ metaclass : Metaclass, metaclass.name = name
  ne_nil : rule.metaclasses ≠ []
  shared : ∀ state ∈ rule.states, ∀ name, state.feature = some name →
    ∃ feature : Metafeature, feature.name = name ∧
      ∀ metaclass : Metaclass, metaclass.name ∈ rule.metaclasses → feature ∈ metaclass.features

/-! ## Looking names up -/

theorem resolveClasses_eq_error_iff :
    rule.resolveClasses = .error error ↔ FirstOf rule.NameFault rule.metaclasses error := by
  rw [resolveClasses, mapM_eq_error_iff]
  refine iff_of_eq (congrArg (FirstOf · rule.metaclasses error) ?_)
  funext name error
  rw [NameFault, ← Metaclass.ofName?_eq_none_iff]
  cases Metaclass.ofName? name <;> simp [eq_comm]

theorem resolveClasses_eq_ok_iff :
    rule.resolveClasses = .ok metaclasses ↔ metaclasses.map Metaclass.name = rule.metaclasses := by
  rw [resolveClasses, mapM_eq_ok_iff, eq_comm, ← List.forall₂_eq_eq_eq, List.forall₂_map_right_iff]
  refine iff_of_eq (congrArg (List.Forall₂ · rule.metaclasses metaclasses) ?_)
  funext name metaclass
  rw [@eq_comm _ name, ← Metaclass.ofName?_eq_some_iff]
  cases Metaclass.ofName? name <;> simp

theorem listed_of_known (known : List.Forall₂ (fun name metaclass =>
      Metaclass.ofName? name = some metaclass) rule.metaclasses metaclasses) :
    metaclasses.map Metaclass.name = rule.metaclasses := by
  rw [eq_comm, ← List.forall₂_eq_eq_eq, List.forall₂_map_right_iff]
  exact known.imp fun _ _ found => (Metaclass.ofName?_eq_some_iff.mp found).symm

/-- A feature name is refused for the first metaclass without a feature of this name. -/
theorem resolveFeature_eq_error_iff :
    rule.resolveFeature first (first :: others) name = .error error ↔
      FirstOf (rule.FeatureFault name) (first :: others) error := by
  rw [resolveFeature]
  cases found : first.featureNamed? name with
  | none =>
      have lacks := Metaclass.featureNamed?_eq_none_iff.mp found
      rw [firstOf_cons_iff]
      simp [FeatureFault, lacks, eq_comm]
  | some feature =>
      obtain ⟨has, rfl⟩ := Metaclass.featureNamed?_eq_some_iff.mp found
      obtain ⟨id, known⟩ := Metaclass.exists_featureId?_iff.mpr has
      have faults : rule.FeatureFault feature.name = fun metaclass error =>
          (metaclass.featureId? feature != some id) = true ∧
            error = .unknownFeature rule.name metaclass feature.name := by
        funext metaclass error
        rw [FeatureFault, bne_iff_ne, ne_eq, Metaclass.featureId?_eq_iff_hasNamed known]
      dsimp only
      rw [known, faults, ← map_find?_eq_some_iff_firstOf]
      dsimp only
      cases (first :: others).find? fun metaclass => metaclass.featureId? feature != some id <;>
        simp

/-- A feature name is resolved to the id that all metaclasses give the feature. -/
theorem resolveFeature_eq_ok_of {feature : Metafeature} {id : Nat}
    (agree : ∀ metaclass ∈ first :: others, metaclass.featureId? feature = some id) :
    rule.resolveFeature first (first :: others) feature.name = .ok id := by
  have known := agree first List.mem_cons_self
  have found : first.featureNamed? feature.name = some feature :=
    Metaclass.featureNamed?_eq_some_iff.mpr ⟨Metaclass.exists_featureId?_iff.mp ⟨id, known⟩, rfl⟩
  have all : (first :: others).find? (fun metaclass => metaclass.featureId? feature != some id) =
      none := by
    rw [List.find?_eq_none]
    intro metaclass listed
    rw [agree metaclass listed, bne_self_eq_false]
    exact Bool.false_ne_true
  rw [resolveFeature, found]
  dsimp only
  rw [known]
  dsimp only
  rw [all]

theorem resolveState_eq_error_iff :
    rule.resolveState first (first :: others) state = .error error ↔
      rule.StateFault (first :: others) state error := by
  rw [resolveState, StateFault]
  cases named : state.feature with
  | none => simp
  | some name =>
      simp only [Option.some.injEq, exists_eq_left', ← resolveFeature_eq_error_iff]
      cases rule.resolveFeature first (first :: others) name <;> simp [Except.map]

theorem resolveState_eq_ok_iff {built : Automaton.State} :
    rule.resolveState first (first :: others) state = .ok built ↔
      state.Resolved (first :: others) built := by
  constructor
  · exact resolveState_eq_ok
  · rintro ⟨followers, ⟨unnamed, untagged⟩ | ⟨feature, id, named, tagged, agree⟩⟩
    · rw [resolveState, unnamed, ← followers, ← untagged]
    · rw [resolveState, named]
      dsimp only
      rw [resolveFeature_eq_ok_of agree, Except.map, ← followers, ← tagged]

/-! ## Rules -/

/-- A rule is built as described: from metaclasses with the listed names, at least one, and with
an automaton that has the described start and states. -/
structure Describes (rule : RuleDescription) (built : GrammarRule) : Prop extends
    Built rule built where
  automaton_name_eq : built.automaton.name = rule.name
  ne_nil : built.metaclasses ≠ []

theorem resolveStates_eq_error_iff :
    rule.states.mapM (rule.resolveState first (first :: others)) = .error error ↔
      FirstOf (rule.StateFault (first :: others)) rule.states error := by
  rw [mapM_eq_error_iff]
  simp only [resolveState_eq_error_iff]

theorem not_firstOf_stateFault_nil : ¬FirstOf (rule.StateFault []) rule.states error := by
  intro first
  obtain ⟨_, _, _, _, _, first⟩ := exists_firstOf_iff.mp ⟨error, first⟩
  exact not_firstOf_nil first

theorem build_eq_error_iff : rule.build = .error error ↔ rule.Fault error := by
  have named : ∀ {metaclasses : List Metaclass}, rule.resolveClasses = .ok metaclasses ↔
      metaclasses.map Metaclass.name = rule.metaclasses := resolveClasses_eq_ok_iff
  constructor
  · intro refused
    rw [build] at refused
    cases classes : rule.resolveClasses with
    | error found =>
        rw [classes] at refused
        cases refused
        exact .unknownName (resolveClasses_eq_error_iff.mp classes)
    | ok metaclasses =>
        rw [classes] at refused
        cases metaclasses with
        | nil =>
            cases refused
            exact .noNames (named.mp classes).symm
        | cons first others =>
            dsimp only at refused
            cases states : rule.states.mapM (rule.resolveState first (first :: others)) with
            | error found =>
                rw [states] at refused
                cases refused
                exact .wrongState (named.mp classes) (resolveStates_eq_error_iff.mp states)
            | ok built =>
                rw [states] at refused
                cases refused
  · intro fault
    cases fault with
    | unknownName first => rw [build, resolveClasses_eq_error_iff.mpr first]
    | noNames none =>
        have classes : rule.resolveClasses = .ok [] := named.mpr none.symm
        rw [build, classes]
    | @wrongState metaclasses _ listed wrong =>
        cases metaclasses with
        | nil => exact absurd wrong not_firstOf_stateFault_nil
        | cons first others =>
            rw [build, named.mpr listed]
            dsimp only
            rw [resolveStates_eq_error_iff.mpr wrong]
            rfl

theorem build_eq_ok_iff {built : GrammarRule} : rule.build = .ok built ↔ rule.Describes built := by
  constructor
  · intro accepted
    have builds := built_of_build accepted
    rw [build] at accepted
    split at accepted
    · cases accepted
    · cases accepted
    · next first others _ =>
      cases states : rule.states.mapM (rule.resolveState first (first :: others)) with
      | error found =>
          rw [states] at accepted
          cases accepted
      | ok resolved =>
          rw [states] at accepted
          cases accepted
          exact ⟨builds, rfl, List.cons_ne_nil first others⟩
  · rintro ⟨⟨sameName, known, sameStart, states⟩, automatonNamed, nonempty⟩
    have listed := listed_of_known known
    obtain ⟨_, metaclasses, _, _, ⟨resolved⟩⟩ := built
    cases sameName
    cases automatonNamed
    cases sameStart
    cases metaclasses with
    | nil => exact absurd rfl nonempty
    | cons first others =>
        have resolves : rule.states.mapM (rule.resolveState first (first :: others)) =
            .ok resolved :=
          mapM_eq_ok_iff.mpr (states.imp fun _ _ => resolveState_eq_ok_iff.mpr)
        rw [build, resolveClasses_eq_ok_iff.mpr listed]
        dsimp only
        rw [resolves]
        rfl

/-- A rule can be built exactly when it is sound. -/
theorem exists_build_eq_ok_iff : (∃ built, rule.build = .ok built) ↔ rule.Sound := by
  constructor
  · rintro ⟨built, accepted⟩
    obtain ⟨builds, _, nonempty⟩ := build_eq_ok_iff.mp accepted
    have listed := listed_of_known builds.metaclasses
    refine ⟨?_, ?_, ?_⟩
    · intro name member
      rw [← listed] at member
      obtain ⟨metaclass, _, same⟩ := List.mem_map.mp member
      exact ⟨metaclass, same⟩
    · rw [← listed]
      exact fun none => nonempty (List.map_eq_nil_iff.mp none)
    · intro described member name named
      obtain ⟨id, here⟩ := List.mem_iff_getElem?.mp member
      rcases builds.state?_cases id with ⟨undescribed, _⟩ | ⟨_, state, hereToo, _, resolved⟩
      · cases undescribed.symm.trans here
      cases hereToo.symm.trans here
      rcases resolved.feature with ⟨unnamed, _⟩ | ⟨feature, id, namedToo, _, agree⟩
      · cases unnamed.symm.trans named
      · refine ⟨feature, Option.some.inj (namedToo.symm.trans named), ?_⟩
        intro metaclass memberToo
        rw [← listed] at memberToo
        obtain ⟨other, builtFor, same⟩ := List.mem_map.mp memberToo
        have has := Metaclass.exists_featureId?_iff.mp ⟨id, agree other builtFor⟩
        rwa [Metaclass.name_injective same] at has
  · intro sound
    cases outcome : rule.build with
    | ok built => exact ⟨built, rfl⟩
    | error error =>
        cases build_eq_error_iff.mp outcome with
        | unknownName first =>
            obtain ⟨name, listed, _, unknown, _⟩ := exists_firstOf_iff.mp ⟨_, first⟩
            obtain ⟨metaclass, same⟩ := sound.known name listed
            exact absurd same (unknown metaclass)
        | noNames none => exact absurd none sound.ne_nil
        | wrongState listed first =>
            obtain ⟨state, described, _, name, named, first⟩ := exists_firstOf_iff.mp ⟨_, first⟩
            obtain ⟨metaclass, member, _, lacks, _⟩ := exists_firstOf_iff.mp ⟨_, first⟩
            obtain ⟨feature, same, shared⟩ := sound.shared state described name named
            have has := shared metaclass (listed ▸ List.mem_map_of_mem member)
            exact absurd ⟨feature, has, same⟩ lacks

end RuleDescription

/-! ## Grammars -/

namespace GrammarDescription

variable {description : GrammarDescription} {identity : GrammarId} {grammar : Grammar}
  {error : AnalysisError}

/-- A grammar is refused for the first rule that is, with what is wrong with this rule. -/
theorem build_eq_error_iff :
    description.build identity = .error error ↔
      FirstOf RuleDescription.Fault description.rules error := by
  have refused : description.rules.mapM RuleDescription.build = .error error ↔
      FirstOf RuleDescription.Fault description.rules error := by
    simp only [mapM_eq_error_iff, RuleDescription.build_eq_error_iff]
  rw [build, ← refused]
  cases description.rules.mapM RuleDescription.build <;> simp [Except.map]

/-- A grammar has the given identity, the name of its description and the rules described, in
their order. -/
theorem build_eq_ok_iff :
    description.build identity = .ok grammar ↔
      grammar.identity = identity ∧ grammar.name = description.name ∧
        List.Forall₂ RuleDescription.Describes description.rules grammar.rules := by
  have accepted : ∀ {rules : List GrammarRule},
      description.rules.mapM RuleDescription.build = .ok rules ↔
        List.Forall₂ RuleDescription.Describes description.rules rules := by
    intro rules
    simp only [mapM_eq_ok_iff, RuleDescription.build_eq_ok_iff]
  obtain ⟨identityBuilt, name, rules⟩ := grammar
  rw [build, ← accepted]
  cases description.rules.mapM RuleDescription.build <;> simp [Except.map, eq_comm]

theorem exists_build_eq_ok_iff :
    (∃ grammar, description.build identity = .ok grammar) ↔
      ∀ rule ∈ description.rules, rule.Sound := by
  constructor
  · rintro ⟨grammar, accepted⟩ rule listed
    apply RuleDescription.exists_build_eq_ok_iff.mp
    cases outcome : rule.build with
    | ok built => exact ⟨built, rfl⟩
    | error error =>
        have fault := RuleDescription.build_eq_error_iff.mp outcome
        obtain ⟨_, refused⟩ := exists_firstOf_iff.mpr ⟨rule, listed, error, fault⟩
        cases (build_eq_error_iff.mpr refused).symm.trans accepted
  · intro sound
    cases outcome : description.build identity with
    | ok grammar => exact ⟨grammar, rfl⟩
    | error error =>
        obtain ⟨rule, listed, wrong, fault⟩ :=
          exists_firstOf_iff.mp ⟨error, build_eq_error_iff.mp outcome⟩
        obtain ⟨built, accepted⟩ :=
          RuleDescription.exists_build_eq_ok_iff.mpr (sound rule listed)
        cases (RuleDescription.build_eq_error_iff.mpr fault).symm.trans accepted

/-- A grammar can be built exactly when all rules of its description are sound.  Otherwise the
first rule that is not is refused, for its first unknown name, for listing no name, or for
the first metaclass that lacks the feature named by its first wrong state.  What is built
says what the description says, rule by rule and state by state. -/
theorem build_exact (description : GrammarDescription) (identity : GrammarId) :
    ((∃ grammar, description.build identity = .ok grammar) ↔
      ∀ rule ∈ description.rules, rule.Sound) ∧
    (∀ error, description.build identity = .error error ↔
      FirstOf RuleDescription.Fault description.rules error) ∧
    ∀ grammar, description.build identity = .ok grammar ↔
      grammar.identity = identity ∧ grammar.name = description.name ∧
        List.Forall₂ RuleDescription.Describes description.rules grammar.rules :=
  ⟨exists_build_eq_ok_iff, fun _ => build_eq_error_iff, fun _ => build_eq_ok_iff⟩

end GrammarDescription

end ModelText
