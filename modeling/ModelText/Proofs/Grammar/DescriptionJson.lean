import ModelText.Grammar.Description
import ModelText.Proofs.Json.Written

namespace ModelText

/-!
# Descriptions survive JSON

A description is read from its own JSON text as it was.  The text reads back to the JSON
value it was written for, whatever the names in it contain, so only the values matter: a
record gives the fields it was made of, a list decodes item by item, and an absent feature
is the default of the field that is not written.  Positions are the one thing a
description can hold and its reader refuses, when they do not fit in 64 bits.
-/

namespace Json

/-! ## Decoding what was encoded -/

theorem mapM_map_eq_some {α β : Type} {decode : β → Option α} {encode : α → β}
    {listed : List α} (inverse : ∀ member ∈ listed, decode (encode member) = some member) :
    (listed.map encode).mapM decode = some listed := by
  induction listed with
  | nil => rfl
  | cons head rest inductionHypothesis =>
      have first := inverse head List.mem_cons_self
      have others := inductionHypothesis fun member inside =>
        inverse member (List.mem_cons_of_mem head inside)
      simp [first, others]

theorem toList?_map {α : Type} {decode : Json → Option α} {encode : α → Json}
    {listed : List α} (inverse : ∀ member ∈ listed, decode (encode member) = some member) :
    toList? decode (.array (listed.map encode)) = some listed :=
  mapM_map_eq_some inverse

theorem toNatBelow?_nat {bound value : Nat} (below : value < bound) :
    toNatBelow? bound (.nat value) = some value := by
  simp [toNatBelow?, nat, toIntIn?, below]

/-- A record gives the fields it is made of, if they are known and no two have one
name. -/
theorem toFields?_record {names : List String} {members : List (String × Json)}
    (known : ∀ member ∈ members, member.1 ∈ names)
    (distinct : (members.map Prod.fst).Nodup) :
    (record members).toFields? names = some members := by
  have read : (members.map fun member => (some member.1, member.2)).mapM
      (fun member : Option String × Json => member.1.map fun key => (key, member.2)) =
        some members :=
    mapM_map_eq_some fun _ _ => rfl
  have kept : members.filter (fun member => names.contains member.1) = members :=
    List.filter_eq_self.mpr fun member inside => List.contains_iff_mem.mpr (known member inside)
  simp only [record, toFields?, read, kept, if_pos distinct]

end Json

/-! ## Descriptions -/

namespace StateDescription

/-- Whether the followers fit in 64 bits. -/
def Fits (state : StateDescription) : Prop :=
  ∀ follower ∈ state.followers, follower < positionLimit

instance (state : StateDescription) : Decidable state.Fits :=
  inferInstanceAs (Decidable (∀ follower ∈ state.followers, follower < positionLimit))

theorem ofJson?_toJson {state : StateDescription} (fits : state.Fits) :
    ofJson? state.toJson = some state := by
  have followers : Json.toList? (Json.toNatBelow? positionLimit)
      (.array (state.followers.map Json.nat)) = some state.followers :=
    Json.toList?_map fun follower member => Json.toNatBelow?_nat (fits follower member)
  obtain ⟨feature, listed⟩ := state
  cases feature with
  | none =>
      rw [toJson, ofJson?, Json.toFields?_record (by simp) (by simp)]
      simp [Json.Fields.withDefault?, List.lookup_cons, followers]
  | some name =>
      rw [toJson, ofJson?, Json.toFields?_record (by simp) (by simp)]
      simp [Json.Fields.withDefault?, List.lookup_cons, Json.toOption?, Json.text, Json.toText?,
        followers]

end StateDescription

namespace RuleDescription

/-- Whether the start and all followers fit in 64 bits. -/
def Fits (rule : RuleDescription) : Prop :=
  rule.start < positionLimit ∧ ∀ state ∈ rule.states, state.Fits

instance (rule : RuleDescription) : Decidable rule.Fits :=
  inferInstanceAs (Decidable (_ ∧ ∀ state ∈ rule.states, state.Fits))

theorem ofJson?_toJson {rule : RuleDescription} (fits : rule.Fits) :
    ofJson? rule.toJson = some rule := by
  have metaclasses : Json.toList? Json.toText? (.array (rule.metaclasses.map Json.text)) =
      some rule.metaclasses :=
    Json.toList?_map fun _ _ => rfl
  have start := Json.toNatBelow?_nat fits.1
  have states := Json.toList?_map fun state member =>
    StateDescription.ofJson?_toJson (fits.2 state member)
  rw [toJson, ofJson?, Json.toFields?_record (by simp) (by simp)]
  simp [Json.Fields.required?, Json.Fields.withDefault?, List.lookup_cons, Json.text,
    Json.toText?, metaclasses, start, states]

end RuleDescription

namespace GrammarDescription

/-- Whether all positions of a description fit in 64 bits. -/
def Fits (description : GrammarDescription) : Prop := ∀ rule ∈ description.rules, rule.Fits

instance (description : GrammarDescription) : Decidable description.Fits :=
  inferInstanceAs (Decidable (∀ rule ∈ description.rules, rule.Fits))

theorem ofJson?_toJson {description : GrammarDescription} (fits : description.Fits) :
    ofJson? description.toJson = some description := by
  have rules := Json.toList?_map fun rule member =>
    RuleDescription.ofJson?_toJson (fits rule member)
  rw [toJson, ofJson?, Json.toFields?_record (by simp) (by simp)]
  simp [Json.Fields.required?, Json.Fields.withDefault?, List.lookup_cons, Json.text,
    Json.toText?, rules]

/-- A description whose positions fit in 64 bits is read from its JSON text as it was. -/
theorem parse?_render {description : GrammarDescription} (fits : description.Fits) :
    parse? description.render = some description := by
  rw [parse?, render, Json.parse_pretty, Option.bind_some, ofJson?_toJson fits]

/-- Names with quotes, backslashes, control characters and characters beyond ASCII, a rule
without metaclasses and states, states with and without a feature, and the greatest
position. -/
def oddNames : GrammarDescription where
  name := "\"\\\x00\x1f\x7f\n\r\té\u2028😀"
  rules := [
    ⟨"", [], 0, []⟩,
    ⟨"/[\x7b,:]", ["Part\\u0041", "\x08\x0c"], 18446744073709551615,
      [⟨none, []⟩, ⟨some "", [0, 18446744073709551615, 10]⟩, ⟨some "null", []⟩]⟩]

/-- Whatever JSON would read as something else is escaped, and the greatest position has all
its digits. -/
theorem parse?_render_oddNames :
    oddNames.Fits ∧ parse? oddNames.render = some oddNames := by
  have fits : oddNames.Fits := by decide +kernel
  exact ⟨fits, parse?_render fits⟩

end GrammarDescription

end ModelText
