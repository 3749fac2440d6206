import Mathlib.Data.List.Basic
import ModelText.Proofs.Name.Written

namespace ModelText

/-!
# Separators that overlap themselves

A separator of letters, digits and underscores can begin inside a bare segment and end in the
separator that follows it.  Quoting the segments that contain the separator does not prevent
this, because such a segment does not contain it.  What begins in the segment ends in the
separator only if the separator ends as it begins.  With every separator that does, there
are names that do not read back: a segment may end in what stands in front of the overlap.
-/

namespace QualifiedName

/-- A separator that does not end as it begins, except as a whole. -/
def Unbordered (separator : List Char) : Prop :=
  ∀ border, border <+: separator → border <:+ separator → border = [] ∨ border = separator

instance (separator : List Char) : Decidable (Unbordered separator) :=
  decidable_of_iff
    (∀ border ∈ separator.inits, border <:+ separator → border = [] ∨ border = separator) <| by
    simp only [Unbordered, List.mem_inits]

section Overlap

variable {separator : List Char} (nonempty : separator ≠ [])
include nonempty

/-- Nothing runs into a separator that does not end as it begins. -/
theorem Unbordered.not_runsInto (unbordered : Unbordered separator) (segment : List Char) :
    ¬RunsInto separator segment := by
  rintro ⟨_, apart, tail, someTail, suffix, found⟩
  have short : tail.length < separator.length := by
    by_contra long
    have begun : separator <+: tail :=
      List.prefix_of_prefix_length_le found (List.prefix_append _ _) (Nat.le_of_not_lt long)
    rw [contains_iff.mpr ⟨tail, someTail, suffix, nonempty,
      List.isPrefixOf_iff_prefix.mpr begun⟩] at apart
    cases apart
  obtain ⟨border, split⟩ := List.prefix_of_prefix_length_le (List.prefix_append tail separator)
    found (Nat.le_of_lt short)
  have overlap : border <+: separator := by
    rw [← List.prefix_append_right_inj tail, split]
    exact found
  rcases unbordered border overlap ⟨tail, split⟩ with rfl | same
  · rw [List.append_nil] at split
    rw [split] at short
    exact Nat.lt_irrefl _ short
  · rw [same] at split
    exact someTail (List.append_left_eq_self.mp split)

/-- What stands in front of an overlap, behind a letter that the separator does not begin
with, runs into the separator. -/
theorem exists_runsInto (parts : ∀ char ∈ separator, isNamePart char = true)
    (bordered : ¬Unbordered separator) : ∃ segment, RunsInto separator segment := by
  rw [Unbordered] at bordered
  push Not at bordered
  obtain ⟨border, begun, ⟨front, split⟩, someBorder, notWhole⟩ := bordered
  have someFront : front ≠ [] := by
    rintro rfl
    exact notWhole split
  have short : front.length < separator.length := by
    have positive := List.length_pos_iff.mpr someBorder
    rw [← split, List.length_append]
    omega
  obtain ⟨letter, start, other⟩ :
      ∃ letter, isNameStart letter = true ∧ separator.head? ≠ some letter := by
    by_cases head : separator.head? = some 'a'
    · exact ⟨'b', by decide, by rw [head]; decide⟩
    · exact ⟨'a', by decide, head⟩
  refine ⟨letter :: front, ?_, ?_, front, someFront, List.suffix_cons letter front, ?_⟩
  · rw [isBasic, start, Bool.true_and, List.all_eq_true]
    intro char member
    exact parts char (split ▸ List.mem_append_left border member)
  · rw [← Bool.not_eq_true, contains_iff]
    rintro ⟨tail, _, suffix, _, found⟩
    have begun := List.isPrefixOf_iff_prefix.mp found
    rcases List.suffix_cons_iff.mp suffix with rfl | further
    · obtain ⟨first, rest, rfl⟩ := List.exists_cons_of_ne_nil nonempty
      exact other (congrArg some (List.cons_prefix_cons.mp begun).1)
    · have long := begun.length_le.trans further.length_le
      omega
  · nth_rewrite 1 [← split]
    exact (List.prefix_append_right_inj front).mpr begun

end Overlap

/-- With a separator of letters, digits and underscores, a name reads back exactly if none of
its segments runs into the separator that follows it.  All names read back exactly if the
separator does not end as it begins. -/
theorem reads_back_iff_unbordered {separator : String} (nonempty : separator ≠ "")
    (parts : separator.toList.all isNamePart = true) :
    (∀ name : QualifiedName, name.segments ≠ [] →
      (parse (name.render separator) separator = name ↔
        ∀ segment ∈ name.segments.dropLast, ¬RunsInto separator.toList segment.toList)) ∧
    ((∀ name : QualifiedName, name.segments ≠ [] →
      parse (name.render separator) separator = name) ↔ Unbordered separator.toList) := by
  rw [List.all_eq_true] at parts
  have someChar : separator.toList ≠ [] := by simpa using nonempty
  have unquoted : separator.toList.head? ≠ some '\'' := by
    intro quote
    exact absurd (parts '\'' (List.mem_of_mem_head? quote)) (by decide)
  refine ⟨fun name => parse_render_iff nonempty unquoted, ?_, ?_⟩
  · intro readsBack
    by_contra bordered
    obtain ⟨segment, runs⟩ := exists_runsInto someChar parts bordered
    have someSegment : (⟨[String.ofList segment, ""]⟩ : QualifiedName).segments ≠ [] :=
      List.cons_ne_nil _ _
    have clear := (parse_render_iff nonempty unquoted someSegment).mp (readsBack _ someSegment)
    refine clear (String.ofList segment) List.mem_cons_self ?_
    rw [String.toList_ofList]
    exact runs
  · intro unbordered name someSegment
    rw [parse_render_iff nonempty unquoted someSegment]
    exact fun segment _ => unbordered.not_runsInto someChar segment.toList

/-- A double underscore overlaps itself, so it does not serve all names: an underscore at the
beginning of a segment does no harm, and neither does one at the end of the name, but a segment
that ends in one runs into the separator.  A separator of two different letters serves every
name. -/
theorem reads_back_iff_unbordered_doubleUnderscore :
    parse ((⟨["_front", "a__b", "wheel_"]⟩ : QualifiedName).render "__") "__" =
        ⟨["_front", "a__b", "wheel_"]⟩ ∧
      RunsInto "__".toList "front_".toList ∧
      parse ((⟨["front_", "wheel"]⟩ : QualifiedName).render "__") "__" ≠ ⟨["front_", "wheel"]⟩ ∧
      ¬Unbordered "__".toList ∧
      Unbordered "of".toList ∧
      parse ((⟨["o", "wheelof", "f", "o"]⟩ : QualifiedName).render "of") "of" =
        ⟨["o", "wheelof", "f", "o"]⟩ := by
  have someUnderscore : "__" ≠ "" := by decide
  have someLetter : "of" ≠ "" := by decide
  have underscores := reads_back_iff_unbordered someUnderscore (by decide)
  have letters := reads_back_iff_unbordered someLetter (by decide)
  have unbordered : Unbordered "of".toList := by decide +kernel
  have runs : RunsInto "__".toList "front_".toList := by decide +kernel
  refine ⟨?_, runs, ?_, by decide +kernel, unbordered, ?_⟩
  · exact (underscores.1 _ (List.cons_ne_nil _ _)).mpr (by decide +kernel)
  · intro same
    exact (underscores.1 _ (List.cons_ne_nil _ _)).mp same "front_" List.mem_cons_self runs
  · exact letters.2.mpr unbordered _ (List.cons_ne_nil _ _)

/-- Two segments are read as two others, although the separator stands in neither. -/
theorem parse_render_trailingUnderscore :
    "__".toList.all isNamePart = true ∧
      contains "__".toList "a_".toList = false ∧ contains "__".toList "b".toList = false ∧
      (⟨["a_", "b"]⟩ : QualifiedName).render "__" = "a___b" ∧
      parse "a___b" "__" = ⟨["a", "_b"]⟩ ∧
      parse ((⟨["a_", "b"]⟩ : QualifiedName).render "__") "__" ≠ ⟨["a_", "b"]⟩ := by
  decide +kernel

end QualifiedName

end ModelText
