import ModelText.Grammar.Constraint

namespace ModelText

/-!
# The constraint cache

A grammar is analysed once.  The cache keeps the analysis under the identity of
the grammar and hands the same one out to every copy.  Analyses are told apart
by serial numbers, so two answers share an analysis exactly when their serial
numbers agree.  A failed analysis is not kept.
-/

/-- An analysis that may be handed out more than once. -/
structure SharedConstraints where
  serial : Nat
  constraints : Constraints
  deriving DecidableEq

/-- The analyses made so far, latest first. -/
structure ConstraintCache where
  entries : List (GrammarId × SharedConstraints)

namespace ConstraintCache

def empty : ConstraintCache := ⟨[]⟩

instance : Inhabited ConstraintCache := ⟨empty⟩

def find? (cache : ConstraintCache) (identity : GrammarId) : Option SharedConstraints :=
  cache.entries.lookup identity

def isCached (cache : ConstraintCache) (identity : GrammarId) : Bool :=
  (cache.find? identity).isSome

/-- The number of grammars that have been analysed. -/
def size (cache : ConstraintCache) : Nat := cache.entries.length

/-- The analysis of a grammar, made on first use, and the cache that keeps it. -/
def constraints (cache : ConstraintCache) (grammar : Grammar) :
    Except AnalysisError SharedConstraints × ConstraintCache :=
  match cache.find? grammar.identity with
  | some shared => (.ok shared, cache)
  | none =>
      match Constraints.analyse grammar with
      | .error error => (.error error, cache)
      | .ok constraints =>
          let shared : SharedConstraints := ⟨cache.size, constraints⟩
          (.ok shared, ⟨(grammar.identity, shared) :: cache.entries⟩)

end ConstraintCache

end ModelText
