import ModelText.Automaton.Basic
import ModelText.Metamodel.Metaclass

namespace ModelText

/-!
# Grammars

A grammar is a list of rules; a rule names the metaclasses whose instances it
prints and the automaton it induces for each of them.  A grammar has an identity
that it shares with its copies and with nothing else.
-/

/-- The identity of a grammar and its copies. -/
structure GrammarId where
  number : Nat
  deriving DecidableEq, Inhabited

/-- A rule and the metaclasses it prints. -/
structure GrammarRule where
  name : String
  metaclasses : List Metaclass
  automaton : Automaton
  deriving DecidableEq

/-- A list of rules with an identity. -/
structure Grammar where
  identity : GrammarId
  name : String
  rules : List GrammarRule
  deriving DecidableEq

namespace Grammar

def rule? (grammar : Grammar) (name : String) : Option GrammarRule :=
  grammar.rules.find? fun candidate => candidate.name == name

end Grammar

end ModelText
