import ModelText.Graph.ValueJson
import ModelText.Name.Qualified

namespace ModelText

/-!
# Options of a pass

How names are joined, whether recorded texts are reused, whether the bounds of a
grammar are enforced, and which features snapshots leave out.  Every option has
a default, in code and in JSON alike.
-/

/-- The options of a pass. -/
structure Options where
  nameSeparator : String
  reuseSourceTokens : Bool
  enforceBounds : Bool
  ignoredFeatures : List Metafeature
  deriving DecidableEq

namespace Options

/-- Identifiers, which differ between two readings of one text. -/
def standardIgnoredFeatures : List Metafeature :=
  [.elementId, .aliasIds, .memberElementId, .ownedMemberElementId]

/-- The options that hold unless others are given. -/
def standard : Options :=
  ⟨QualifiedName.standardSeparator, true, true, standardIgnoredFeatures⟩

instance : Inhabited Options := ⟨standard⟩

def ofJson? (json : Json) : Option Options :=
  match json.toFields? ["name_separator", "reuse_source_tokens", "enforce_bounds",
      "ignored_snapshot_features"] with
  | none => none
  | some fields => do
      let separator ←
        fields.withDefault? "name_separator" standard.nameSeparator Json.toText?
      let reuse ←
        fields.withDefault? "reuse_source_tokens" standard.reuseSourceTokens Json.toBool?
      let enforce ←
        fields.withDefault? "enforce_bounds" standard.enforceBounds Json.toBool?
      let ignored ←
        fields.withDefault? "ignored_snapshot_features" standard.ignoredFeatures
          (Json.toList? Metafeature.ofJson?)
      return ⟨separator, reuse, enforce, ignored⟩

def parse? (text : String) : Option Options :=
  (Json.parse text).bind ofJson?

def toJson (options : Options) : Json :=
  .record [
    ("name_separator", .text options.nameSeparator),
    ("reuse_source_tokens", .bool options.reuseSourceTokens),
    ("enforce_bounds", .bool options.enforceBounds),
    ("ignored_snapshot_features",
      .array (options.ignoredFeatures.map fun feature => .text feature.key))]

end Options

end ModelText
