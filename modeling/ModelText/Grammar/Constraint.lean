import ModelText.Automaton.FeatureBounds
import ModelText.Grammar.Basic
import ModelText.Metamodel.Schema

namespace ModelText

/-!
# Constraints of a grammar

Analysing a grammar yields one constraint for each rule and each metaclass that
the rule lists, in this order.  A constraint knows how many values of each
feature the rule can print.
-/

/-- What one rule can print for one metaclass. -/
structure Constraint where
  name : String
  rule : String
  metaclass : Metaclass
  bounds : FeatureBounds
  deriving DecidableEq

namespace Constraint

/-- The name of the constraint of a rule for a metaclass: the rule's own name if
the metaclass is called the same. -/
def nameOf (rule : String) (metaclass : Metaclass) : String :=
  if rule == metaclass.name then rule else rule ++ "_" ++ metaclass.name

/-- The bound of a feature, for the features of the metaclass. -/
def bound? (constraint : Constraint) (feature : Metafeature) : Option Bound :=
  (constraint.metaclass.featureId? feature).bind constraint.bounds.get?

/-- Whether the rule prints a feature as a list. -/
def isMany (constraint : Constraint) (feature : Metafeature) : Bool :=
  (constraint.bound? feature).any Bound.allowsMany

def unboundedFeatures (constraint : Constraint) : List Metafeature :=
  constraint.bounds.unboundedFeatures.filterMap constraint.metaclass.featureAt?

end Constraint

structure Constraints where
  grammar : GrammarId
  entries : List Constraint
  deriving DecidableEq

namespace Constraints

/-- The constraint of a rule for one of its metaclasses. -/
def analysePair (rule : GrammarRule) (metaclass : Metaclass) :
    Except AnalysisError Constraint :=
  (rule.automaton.bounds metaclass.featureCount).map fun bounds =>
    ⟨Constraint.nameOf rule.name metaclass, rule.name, metaclass, bounds⟩

/-- The constraints of a rule; a rule must list a metaclass. -/
def analyseRule (rule : GrammarRule) : Except AnalysisError (List Constraint) :=
  if rule.metaclasses.isEmpty then
    .error (.noClasses rule.name)
  else
    rule.metaclasses.mapM (analysePair rule)

/-- The constraints of a grammar, or the first fault of its rules. -/
def analyse (grammar : Grammar) : Except AnalysisError Constraints :=
  (grammar.rules.mapM analyseRule).map fun entries => ⟨grammar.identity, entries.flatten⟩

/-- The first constraint of a rule for a metaclass. -/
def get? (constraints : Constraints) (rule : String) (metaclass : Metaclass) :
    Option Constraint :=
  constraints.entries.find? fun entry => entry.rule == rule && entry.metaclass == metaclass

/-- The constraints for exactly the given metaclass, in the order of the rules. -/
def forClass (constraints : Constraints) (metaclass : Metaclass) : List Constraint :=
  constraints.entries.filter fun entry => entry.metaclass == metaclass

end Constraints

end ModelText
