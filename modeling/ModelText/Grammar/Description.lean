import ModelText.Grammar.AnalysisError
import ModelText.Grammar.Basic
import ModelText.Json.Decode
import ModelText.Json.Printer
import ModelText.Metamodel.Schema

namespace ModelText

/-!
# Grammar descriptions

A description names the metaclasses and features of its rules by their abstract
syntax names and can be written and read as JSON.  Building a grammar from it
looks the names up.  A feature must mean the same local id in every metaclass of
its rule, because the metaclasses share one automaton.
-/

/-- One state of a described automaton. -/
structure StateDescription where
  feature : Option String
  followers : List Nat
  deriving DecidableEq, Inhabited

structure RuleDescription where
  name : String
  metaclasses : List String
  start : Nat
  states : List StateDescription
  deriving DecidableEq, Inhabited

structure GrammarDescription where
  name : String
  rules : List RuleDescription
  deriving DecidableEq, Inhabited

/-! ## Building -/

namespace RuleDescription

/-- The metaclasses of a rule, or the first name that is none. -/
def resolveClasses (rule : RuleDescription) : Except AnalysisError (List Metaclass) :=
  rule.metaclasses.mapM fun name =>
    match Metaclass.ofName? name with
    | some metaclass => .ok metaclass
    | none => .error (.unknownClass rule.name name)

/-- The local id of a named feature, or the first metaclass that does not have the
feature under this id. -/
def resolveFeature (rule : RuleDescription) (first : Metaclass)
    (metaclasses : List Metaclass) (name : String) : Except AnalysisError Nat :=
  match first.featureNamed? name with
  | none => .error (.unknownFeature rule.name first name)
  | some feature =>
      match first.featureId? feature with
      | none => .error (.unknownFeature rule.name first name)
      | some id =>
          match metaclasses.find? fun metaclass => metaclass.featureId? feature != some id with
          | some metaclass => .error (.unknownFeature rule.name metaclass name)
          | none => .ok id

/-- A state with its feature looked up. -/
def resolveState (rule : RuleDescription) (first : Metaclass)
    (metaclasses : List Metaclass) (state : StateDescription) :
    Except AnalysisError Automaton.State :=
  match state.feature with
  | none => .ok ⟨none, state.followers⟩
  | some name =>
      (rule.resolveFeature first metaclasses name).map fun id =>
        ⟨some id, state.followers⟩

def build (rule : RuleDescription) : Except AnalysisError GrammarRule :=
  match rule.resolveClasses with
  | .error error => .error error
  | .ok [] => .error (.noClasses rule.name)
  | .ok (first :: others) =>
      (rule.states.mapM (rule.resolveState first (first :: others))).map fun states =>
        ⟨rule.name, first :: others, ⟨rule.name, rule.start, states.toArray⟩⟩

end RuleDescription

namespace GrammarDescription

/-- The grammar that a description describes, with the given identity. -/
def build (description : GrammarDescription) (identity : GrammarId) :
    Except AnalysisError Grammar :=
  (description.rules.mapM RuleDescription.build).map fun rules =>
    ⟨identity, description.name, rules⟩

end GrammarDescription

/-! ## JSON -/

/-- Positions in descriptions fit in 64 bits. -/
def positionLimit : Nat := Nat.pow 2 64

namespace StateDescription

def toJson (state : StateDescription) : Json :=
  let followers := ("followers", Json.array (state.followers.map Json.nat))
  match state.feature with
  | some name => .record [("feature", .text name), followers]
  | none => .record [followers]

def ofJson? (json : Json) : Option StateDescription :=
  match json.toFields? ["feature", "followers"] with
  | none => none
  | some fields => do
      let feature ← fields.withDefault? "feature" none (Json.toOption? Json.toText?)
      let followers ←
        fields.withDefault? "followers" [] (Json.toList? (Json.toNatBelow? positionLimit))
      return ⟨feature, followers⟩

end StateDescription

namespace RuleDescription

def toJson (rule : RuleDescription) : Json :=
  .record [
    ("name", .text rule.name),
    ("classes", .array (rule.metaclasses.map Json.text)),
    ("start", .nat rule.start),
    ("states", .array (rule.states.map StateDescription.toJson))]

def ofJson? (json : Json) : Option RuleDescription :=
  match json.toFields? ["name", "classes", "start", "states"] with
  | none => none
  | some fields => do
      let name ← fields.required? "name" Json.toText?
      let metaclasses ← fields.required? "classes" (Json.toList? Json.toText?)
      let start ← fields.withDefault? "start" 0 (Json.toNatBelow? positionLimit)
      let states ← fields.required? "states" (Json.toList? StateDescription.ofJson?)
      return ⟨name, metaclasses, start, states⟩

end RuleDescription

namespace GrammarDescription

def toJson (description : GrammarDescription) : Json :=
  .record [
    ("name", .text description.name),
    ("rules", .array (description.rules.map RuleDescription.toJson))]

def ofJson? (json : Json) : Option GrammarDescription :=
  match json.toFields? ["name", "rules"] with
  | none => none
  | some fields => do
      let name ← fields.required? "name" Json.toText?
      let rules ← fields.withDefault? "rules" [] (Json.toList? RuleDescription.ofJson?)
      return ⟨name, rules⟩

def render (description : GrammarDescription) : String := description.toJson.pretty

def parse? (text : String) : Option GrammarDescription :=
  (Json.parse text).bind ofJson?

end GrammarDescription

end ModelText
