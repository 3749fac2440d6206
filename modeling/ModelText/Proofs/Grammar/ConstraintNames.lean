import Mathlib.Data.List.DropRight
import ModelText.Proofs.Grammar.FirstRule

namespace ModelText

/-!
# The names of constraints

A constraint is named after its rule and its metaclass, or by one name when the two are
called the same.  Names of rules are free: a rule may be called like a metaclass, or like
the constraint of another rule.  Names of metaclasses have no underscore, so what follows
the last underscore of a constraint's name, or all of it without one, is the name of the
metaclass.  What stands before that underscore is the name of the rule, and a name
without one is both.
-/

namespace Constraint

/-! ## Reading a name -/

/-- What follows the last underscore of a text, or all of it. -/
def lastPart (text : String) : List Char :=
  text.toList.rtakeWhile fun char => char != '_'

theorem underscore_not_mem_name (metaclass : Metaclass) : '_' ∉ metaclass.name.toList := by
  cases metaclass <;> decide +kernel

theorem lastPart_name (metaclass : Metaclass) :
    lastPart metaclass.name = metaclass.name.toList := by
  rw [lastPart, List.rtakeWhile_eq_self_iff]
  rintro char member
  rw [bne_iff_ne]
  rintro rfl
  exact underscore_not_mem_name metaclass member

theorem lastPart_append_name (rule : String) (metaclass : Metaclass) :
    lastPart (rule ++ "_" ++ metaclass.name) = metaclass.name.toList := by
  have whole := lastPart_name metaclass
  rw [lastPart, List.rtakeWhile_eq_self_iff] at whole
  have passed : ∀ char ∈ metaclass.name.toList.reverse, (char != '_') = true :=
    fun char member => whole char (List.mem_reverse.mp member)
  rw [lastPart, String.toList_append, String.toList_append, List.rtakeWhile,
    List.reverse_append, List.takeWhile_append_of_pos passed]
  simp

/-- The name of a constraint ends in the name of its metaclass. -/
theorem lastPart_nameOf (rule : String) (metaclass : Metaclass) :
    lastPart (nameOf rule metaclass) = metaclass.name.toList := by
  unfold nameOf
  split
  · next same =>
      rw [beq_iff_eq.mp same]
      exact lastPart_name metaclass
  · exact lastPart_append_name rule metaclass

/-- No rule before a metaclass gives the name of a metaclass alone. -/
theorem append_name_ne_name (rule : String) (metaclass otherClass : Metaclass) :
    rule ++ "_" ++ metaclass.name ≠ otherClass.name := by
  intro same
  apply underscore_not_mem_name otherClass
  rw [← same]
  simp

/-- Rules that give a metaclass constraints of one name have one name. -/
theorem nameOf_left_injective {rule other : String} {metaclass : Metaclass}
    (same : nameOf rule metaclass = nameOf other metaclass) : rule = other := by
  unfold nameOf at same
  split at same <;> split at same
  · exact same
  · next alike _ =>
      rw [beq_iff_eq.mp alike] at same
      exact absurd same.symm (append_name_ne_name other metaclass metaclass)
  · next alike =>
      rw [beq_iff_eq.mp alike] at same
      exact absurd same (append_name_ne_name rule metaclass metaclass)
  · rw [String.append_left_inj, String.append_left_inj] at same
    exact same

theorem nameOf_eq_iff {rule other : String} {metaclass otherClass : Metaclass} :
    nameOf rule metaclass = nameOf other otherClass ↔ rule = other ∧ metaclass = otherClass := by
  constructor
  · intro same
    have sameClass : metaclass = otherClass := by
      apply Metaclass.name_injective
      rw [← String.toList_inj, ← lastPart_nameOf rule, same, lastPart_nameOf]
    subst sameClass
    exact ⟨nameOf_left_injective same, rfl⟩
  · rintro ⟨rfl, rfl⟩
    rfl

end Constraint

namespace Constraints

/-! ## The constraints of a grammar -/

/-- A constraint belongs to a rule of the given name, for a metaclass the rule lists. -/
def ComesFrom (grammar : Grammar) (name : String) (metaclass : Metaclass)
    (constraint : Constraint) : Prop :=
  ∃ rule, rule ∈ grammar.rules ∧ rule.name = name ∧ metaclass ∈ rule.metaclasses ∧
    analysePair rule metaclass = .ok constraint

variable {grammar : Grammar} {constraints : Constraints} {constraint : Constraint}
  {name : String} {metaclass : Metaclass}

theorem ComesFrom.name_eq (origin : ComesFrom grammar name metaclass constraint) :
    constraint.name = Constraint.nameOf name metaclass := by
  obtain ⟨rule, _, rfl, _, analysed⟩ := origin
  exact (names_of_analysePair analysed).2

/-- Every constraint of a grammar belongs to one of its rules. -/
theorem exists_comesFrom (analysed : analyse grammar = .ok constraints)
    (member : constraint ∈ constraints.entries) :
    ∃ name metaclass, ComesFrom grammar name metaclass constraint := by
  obtain ⟨groups, byRule, entries⟩ := analyse_eq_ok analysed
  rw [entries] at member
  obtain ⟨group, listed, inside⟩ := List.mem_flatten.mp member
  obtain ⟨rule, ruleMember, analysedRule⟩ := exists_of_mem_forall₂ byRule listed
  obtain ⟨metaclass, classMember, analysedPair⟩ := exists_of_mem_forall₂ analysedRule inside
  exact ⟨rule.name, metaclass, rule, ruleMember, rfl, classMember, analysedPair⟩

/-- The name of a constraint determines the name of its rule and its metaclass, whatever
rules are called.  Two constraints of a grammar share a name exactly if they belong to
rules of one name, for one metaclass. -/
theorem names_distinguish :
    (∀ rule other metaclass otherClass,
      Constraint.nameOf rule metaclass = Constraint.nameOf other otherClass ↔
        rule = other ∧ metaclass = otherClass) ∧
    ∀ grammar constraints, analyse grammar = .ok constraints →
      ∀ first ∈ constraints.entries, ∀ second ∈ constraints.entries,
        (first.name = second.name ↔ ∃ name metaclass,
          ComesFrom grammar name metaclass first ∧ ComesFrom grammar name metaclass second) := by
  refine ⟨fun _ _ _ _ => Constraint.nameOf_eq_iff, ?_⟩
  intro grammar constraints analysed first firstMember second secondMember
  obtain ⟨name, metaclass, origin⟩ := exists_comesFrom analysed firstMember
  obtain ⟨other, otherClass, otherOrigin⟩ := exists_comesFrom analysed secondMember
  constructor
  · intro same
    rw [origin.name_eq, otherOrigin.name_eq] at same
    obtain ⟨rfl, rfl⟩ := Constraint.nameOf_eq_iff.mp same
    exact ⟨name, metaclass, origin, otherOrigin⟩
  · rintro ⟨shared, sharedClass, firstOrigin, secondOrigin⟩
    rw [firstOrigin.name_eq, secondOrigin.name_eq]

/-- Rules called like metaclasses and like constraints of each other: two rules print
packages under one name, and one is called like a constraint of the first. -/
def lookalikes : Grammar :=
  ⟨⟨0⟩, "Lookalikes",
    [⟨"Package", [.package, .nameSpace], .single "Package"⟩,
      ⟨"Package_Namespace", [.nameSpace], .single "Package_Namespace"⟩,
      ⟨"Package", [.package], ⟨"Package", 0, #[⟨some 3, []⟩]⟩⟩]⟩

/-- A constraint that admits a declared name so many times, and no other feature. -/
def lookalike (name rule : String) (metaclass : Metaclass) (limit : Nat) : Constraint :=
  ⟨name, rule, metaclass, ⟨metaclass.features.map fun feature =>
    if feature = .declaredName then .finite limit else .zero⟩⟩

/-- The constraints of the grammar, in the order of its rules and of the metaclasses they
list. -/
def lookalikeConstraints : Constraints :=
  ⟨⟨0⟩,
    [lookalike "Package" "Package" .package 0,
      lookalike "Package_Namespace" "Package" .nameSpace 0,
      lookalike "Package_Namespace_Namespace" "Package_Namespace" .nameSpace 0,
      lookalike "Package" "Package" .package 1]⟩

/-- Different constraints share a name here because the two rules for packages do.  The rule
called like a constraint of the first one has a constraint with a longer name. -/
theorem names_distinguish_lookalikes :
    analyse lookalikes = .ok lookalikeConstraints ∧
      lookalike "Package" "Package" .package 0 ≠ lookalike "Package" "Package" .package 1 ∧
      (∃ name metaclass,
        ComesFrom lookalikes name metaclass (lookalike "Package" "Package" .package 0) ∧
        ComesFrom lookalikes name metaclass (lookalike "Package" "Package" .package 1)) ∧
      ¬∃ name metaclass,
        ComesFrom lookalikes name metaclass
          (lookalike "Package_Namespace" "Package" .nameSpace 0) ∧
        ComesFrom lookalikes name metaclass
          (lookalike "Package_Namespace_Namespace" "Package_Namespace" .nameSpace 0) := by
  have analysed : analyse lookalikes = .ok lookalikeConstraints := by decide +kernel
  have named := names_distinguish.2 _ _ analysed
  refine ⟨analysed, by decide +kernel, ?_, ?_⟩
  · exact (named _ (by simp [lookalikeConstraints]) _ (by simp [lookalikeConstraints])).mp rfl
  · intro shared
    have same := (named _ (by simp [lookalikeConstraints]) _
      (by simp [lookalikeConstraints])).mpr shared
    exact absurd same (by decide +kernel)

end Constraints

end ModelText
