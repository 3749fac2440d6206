import ModelText.Grammar.Basic
import ModelText.Graph.ValueJson

namespace ModelText

/-!
# Automata and rules in JSON

Built automata tag their states with local feature ids rather than names.  A tag
that is absent is written as null and may be left out.
-/

/-- State and feature ids fit in 64 bits. -/
def stateIdLimit : Nat := Nat.pow 2 64

namespace Automaton

namespace State

def toJson (state : State) : Json :=
  .record [
    ("feature", .optional (state.feature.map Json.nat)),
    ("followers", .array (state.followers.map Json.nat))]

def ofJson? (json : Json) : Option State :=
  match json.toFields? ["feature", "followers"] with
  | none => none
  | some fields => do
      let feature ←
        fields.withDefault? "feature" none (Json.toOption? (Json.toNatBelow? stateIdLimit))
      let followers ←
        fields.withDefault? "followers" [] (Json.toList? (Json.toNatBelow? stateIdLimit))
      return ⟨feature, followers⟩

end State

def toJson (automaton : Automaton) : Json :=
  .record [
    ("name", .text automaton.name),
    ("start", .nat automaton.start),
    ("states", .array (automaton.states.toList.map State.toJson))]

def ofJson? (json : Json) : Option Automaton :=
  match json.toFields? ["name", "start", "states"] with
  | none => none
  | some fields => do
      let name ← fields.required? "name" Json.toText?
      let start ← fields.withDefault? "start" 0 (Json.toNatBelow? stateIdLimit)
      let states ← fields.required? "states" (Json.toList? State.ofJson?)
      return ⟨name, start, states.toArray⟩

end Automaton

namespace GrammarRule

def toJson (rule : GrammarRule) : Json :=
  .record [
    ("name", .text rule.name),
    ("classes", .array (rule.metaclasses.map fun metaclass => .text metaclass.name)),
    ("automaton", rule.automaton.toJson)]

def ofJson? (json : Json) : Option GrammarRule :=
  match json.toFields? ["name", "classes", "automaton"] with
  | none => none
  | some fields => do
      let name ← fields.required? "name" Json.toText?
      let metaclasses ← fields.required? "classes" (Json.toList? Metaclass.ofJson?)
      let automaton ← fields.required? "automaton" Automaton.ofJson?
      return ⟨name, metaclasses, automaton⟩

end GrammarRule

namespace Grammar

/-- A grammar with the given identity from its name and its rules. -/
def ofJson? (identity : GrammarId) (json : Json) : Option Grammar :=
  match json.toFields? ["name", "rules"] with
  | none => none
  | some fields => do
      let name ← fields.required? "name" Json.toText?
      let rules ← fields.withDefault? "rules" [] (Json.toList? GrammarRule.ofJson?)
      return ⟨identity, name, rules⟩

end Grammar

end ModelText
