import Mathlib.Data.List.Forall2
import ModelText.Grammar.Constraint
import ModelText.Proofs.Automaton.Bounds
import ModelText.Proofs.Checks

namespace ModelText

/-!
# The constraint of a metaclass

Several rules of a grammar may list one metaclass.  The constraint in force is the
first in the order of rules, and of metaclasses inside a rule, so it belongs to the
first rule that lists the metaclass.  Its bounds are those of the rule's automaton,
looked up by the ids that features have in the metaclass: a bound admits a number of
values exactly when the automaton can print that many.
-/

namespace Grammar

/-- The first rule that lists a metaclass. -/
def firstRuleFor? (grammar : Grammar) (metaclass : Metaclass) : Option GrammarRule :=
  grammar.rules.find? fun rule => rule.metaclasses.contains metaclass

end Grammar

namespace Constraints

variable {rule : GrammarRule} {metaclass : Metaclass} {constraint : Constraint}

/-! ## One rule -/

theorem analysePair_eq_ok (analysed : analysePair rule metaclass = .ok constraint) :
    rule.automaton.validate metaclass.featureCount = .ok () ∧
      constraint.metaclass = metaclass ∧
      constraint.bounds.bounds = (List.range metaclass.featureCount).map
        (rule.automaton.startBound rule.automaton.components) := by
  rw [analysePair, Automaton.bounds] at analysed
  cases faulty : rule.automaton.fault? metaclass.featureCount with
  | some fault => rw [faulty] at analysed; cases analysed
  | none =>
      rw [faulty] at analysed
      cases analysed
      exact ⟨by rw [Automaton.validate, faulty], rfl, rfl⟩

theorem names_of_analysePair (analysed : analysePair rule metaclass = .ok constraint) :
    constraint.rule = rule.name ∧
      constraint.name = Constraint.nameOf rule.name metaclass := by
  rw [analysePair] at analysed
  cases table : rule.automaton.bounds metaclass.featureCount with
  | error fault => rw [table] at analysed; cases analysed
  | ok bounds =>
      rw [table] at analysed
      cases analysed
      exact ⟨rfl, rfl⟩

/-- The bound of a feature admits as many values as the automaton can print. -/
theorem bound?_of_analysePair (analysed : analysePair rule metaclass = .ok constraint)
    (small : rule.automaton.size < 2 ^ 32) {feature : Metafeature} {id : Nat}
    (named : metaclass.featureId? feature = some id) :
    ∃ bound, constraint.bound? feature = some bound ∧ ∀ count, bound.admits count = true ↔
      rule.automaton.Attains id rule.automaton.start count := by
  rcases analysePair_eq_ok analysed with ⟨valid, same, table⟩
  have inRange : id < metaclass.featureCount := (List.idxOf?_eq_some_iff.mp named).1
  refine ⟨rule.automaton.startBound rule.automaton.components id, ?_, ?_⟩
  · rw [Constraint.bound?, same, named, Option.bind_some, FeatureBounds.get?, table,
      List.getElem?_map, List.getElem?_range inRange, Option.map_some]
  · rcases Automaton.startBound_exact valid id with ⟨sound, exact⟩
    intro count
    exact ⟨exact small count, sound count⟩

theorem analyseRule_eq_ok {group : List Constraint} (analysed : analyseRule rule = .ok group) :
    List.Forall₂ (fun metaclass constraint => analysePair rule metaclass = .ok constraint)
      rule.metaclasses group := by
  rw [analyseRule] at analysed
  split at analysed
  · cases analysed
  · exact mapM_eq_ok_iff.mp analysed

/-- The constraints of a rule belong to the metaclasses it lists. -/
private theorem find?_group {listed : List Metaclass} {group : List Constraint}
    (analysed : List.Forall₂
      (fun metaclass constraint => analysePair rule metaclass = .ok constraint) listed group)
    (metaclass : Metaclass) :
    if listed.contains metaclass then
      ∃ constraint, group.find? (fun entry => entry.metaclass == metaclass) = some constraint ∧
        analysePair rule metaclass = .ok constraint
    else group.find? (fun entry => entry.metaclass == metaclass) = none := by
  induction analysed with
  | nil => rfl
  | @cons head entry rest group analysedHead _ inductionHypothesis =>
      have belongs := (analysePair_eq_ok analysedHead).2.1
      rw [List.find?_cons, belongs, List.contains_cons]
      by_cases same : head = metaclass
      · subst same
        simp [analysedHead]
      · have differs : (head == metaclass) = false := beq_eq_false_iff_ne.mpr same
        have differsToo : (metaclass == head) = false := beq_eq_false_iff_ne.mpr (Ne.symm same)
        rw [differs, differsToo, Bool.false_or]
        exact inductionHypothesis

/-! ## All rules -/

/-- The constraints of a grammar are grouped by its rules, with one for each metaclass that
the rule lists. -/
theorem analyse_eq_ok {grammar : Grammar} {constraints : Constraints}
    (analysed : analyse grammar = .ok constraints) :
    ∃ groups : List (List Constraint),
      List.Forall₂ (fun rule group =>
        List.Forall₂ (fun metaclass constraint => analysePair rule metaclass = .ok constraint)
          rule.metaclasses group) grammar.rules groups ∧
      constraints.entries = groups.flatten := by
  rw [analyse] at analysed
  cases accepted : grammar.rules.mapM analyseRule with
  | error error => rw [accepted] at analysed; cases analysed
  | ok groups =>
      rw [accepted] at analysed
      cases analysed
      exact ⟨groups, (mapM_eq_ok_iff.mp accepted).imp fun _ _ => analyseRule_eq_ok, rfl⟩

private theorem find?_flatten {rules : List GrammarRule} {groups : List (List Constraint)}
    (analysed : List.Forall₂ (fun rule group =>
      List.Forall₂ (fun metaclass constraint => analysePair rule metaclass = .ok constraint)
        rule.metaclasses group) rules groups)
    (metaclass : Metaclass) :
    Option.Rel (fun rule constraint => analysePair rule metaclass = .ok constraint)
      (rules.find? fun rule => rule.metaclasses.contains metaclass)
      (groups.flatten.find? fun entry => entry.metaclass == metaclass) := by
  induction analysed with
  | nil => exact .none
  | @cons rule group rules groups analysedRule _ inductionHypothesis =>
      have first := find?_group analysedRule metaclass
      rw [List.find?_cons, List.flatten_cons, List.find?_append]
      cases lists : rule.metaclasses.contains metaclass with
      | false =>
          rw [lists, if_neg Bool.false_ne_true] at first
          rw [first, Option.none_or]
          exact inductionHypothesis
      | true =>
          rw [lists, if_pos rfl] at first
          rcases first with ⟨constraint, found, analysedPair⟩
          rw [found, Option.some_or]
          exact .some analysedPair

/-- The constraint in force for a metaclass is that of the first rule listing it. -/
theorem head?_forClass {grammar : Grammar} {constraints : Constraints}
    (analysed : analyse grammar = .ok constraints) (metaclass : Metaclass) :
    Option.Rel (fun rule constraint => analysePair rule metaclass = .ok constraint)
      (grammar.firstRuleFor? metaclass) (constraints.forClass metaclass).head? := by
  obtain ⟨groups, byRule, entries⟩ := analyse_eq_ok analysed
  rw [forClass, entries, List.head?_filter]
  exact find?_flatten byRule metaclass

end Constraints

end ModelText
