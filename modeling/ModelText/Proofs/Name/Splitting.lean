import ModelText.Proofs.Name.Written

namespace ModelText

/-!
# Splitting text without quotes

A text without quotes is cut at the separator and nowhere else.  The split is described here
without reading: the text is cut where the separator occurs for the first time, and what
stands behind that occurrence is split in the same way.  Every text has one such split.

Joining its segments gives back the text, and no segment contains the separator.  These two
facts alone do not single it out when the separator overlaps itself: `aaa` is joined from the
empty segment and `a` as well as from `a` and the empty segment, with `aa` in between.  Only the
first of the two is cut as far to the left as possible, and that is the one the reader finds,
because it looks for the separator at every character before it looks at the character.
-/

namespace QualifiedName

/-! ## The leftmost split -/

/-- The separator between the two pieces of a text is the first one: none begins in front of
it, not even one that reaches into it. -/
def CutsFirst (separator front rest : List Char) : Prop :=
  ∀ before after, before ++ (separator ++ after) = front ++ (separator ++ rest) →
    front.length ≤ before.length

/-- A text is cut at its first separator, and what stands behind it is split again.  A text
without a separator is one segment. -/
inductive Splits (separator : List Char) : List Char → List (List Char) → Prop where
  | whole {text : List Char} : ¬separator <:+: text → Splits separator text [text]
  | cut {front rest : List Char} {segments : List (List Char)} :
      CutsFirst separator front rest → Splits separator rest segments →
        Splits separator (front ++ (separator ++ rest)) (front :: segments)

section

variable {separator text front rest : List Char} {segments : List (List Char)}

theorem Splits.intercalate_eq (splits : Splits separator text segments) :
    separator.intercalate segments = text := by
  induction splits with
  | whole _ => exact List.intercalate_singleton
  | @cut front rest segments _ further inductionHypothesis =>
      have nonempty : segments ≠ [] := by
        cases further <;> exact List.cons_ne_nil _ _
      rw [List.intercalate_cons_of_ne_nil nonempty, inductionHypothesis, List.append_assoc]

/-- A separator inside the front piece would have been cut at. -/
theorem CutsFirst.not_infix (nonempty : separator ≠ [])
    (first : CutsFirst separator front rest) : ¬separator <:+: front := by
  rintro ⟨before, after, rfl⟩
  have early := first before (after ++ (separator ++ rest)) (by simp)
  have positive := List.length_pos_iff.mpr nonempty
  rw [List.length_append, List.length_append] at early
  omega

theorem Splits.not_infix (nonempty : separator ≠ []) (splits : Splits separator text segments)
    {segment : List Char} (member : segment ∈ segments) : ¬separator <:+: segment := by
  induction splits with
  | whole apart =>
      rw [List.mem_singleton.mp member]
      exact apart
  | cut first _ inductionHypothesis =>
      rcases List.mem_cons.mp member with rfl | further
      · exact first.not_infix nonempty
      · exact inductionHypothesis further

/-- No separator begins where the text begins, so the first one moves back with the text. -/
theorem CutsFirst.cons {char : Char} (apart : ¬separator <+: char :: (front ++ (separator ++ rest)))
    (first : CutsFirst separator front rest) : CutsFirst separator (char :: front) rest := by
  intro before after same
  cases before with
  | nil =>
      rw [List.nil_append, List.cons_append] at same
      exact absurd ⟨after, same⟩ apart
  | cons head before =>
      rw [List.cons_append, List.cons_append, List.cons.injEq] at same
      exact Nat.succ_le_succ (first before after same.2)

theorem exists_splits (nonempty : separator ≠ []) (text : List Char) :
    ∃ segments, Splits separator text segments := by
  by_cases here : separator <+: text
  · rcases here with ⟨rest, rfl⟩
    have shorter : rest.length < (separator ++ rest).length := by
      rw [List.length_append]
      exact Nat.lt_add_of_pos_left (List.length_pos_iff.mpr nonempty)
    rcases exists_splits nonempty rest with ⟨segments, splits⟩
    have atOnce : CutsFirst separator [] rest := fun _ _ _ => Nat.zero_le _
    exact ⟨[] :: segments, .cut atOnce splits⟩
  · cases text with
    | nil => exact ⟨[[]], .whole fun found => nonempty (List.infix_nil.mp found)⟩
    | cons char text =>
        rcases exists_splits nonempty text with ⟨segments, splits⟩
        cases splits with
        | whole apart =>
            refine ⟨[char :: text], .whole ?_⟩
            rw [List.infix_cons_iff]
            exact not_or.mpr ⟨here, apart⟩
        | @cut front rest segments first splits =>
            exact ⟨(char :: front) :: segments, .cut (first.cons here) splits⟩
termination_by text.length

/-! ## Reading finds it -/

/-- Without quotes, the reader finds the leftmost split. -/
theorem split_eq_of_splits (nonempty : separator ≠ []) (splits : Splits separator text segments)
    (unquoted : ∀ char ∈ text, char ≠ '\'') : split separator text = segments := by
  unfold split
  induction splits with
  | @whole text apart =>
      have clear : ∀ head tail, head :: tail <:+ text → ¬begins separator (head :: tail ++ []) := by
        intro head tail suffix found
        rw [List.append_nil] at found
        exact apart ((List.isPrefixOf_iff_prefix.mp found.2).isInfix.trans suffix.isInfix)
      have read := splitFrom_bare unquoted clear []
      rw [List.append_nil, List.append_nil, splitFrom, List.reverse_reverse] at read
      exact read
  | @cut front rest segments first _ inductionHypothesis =>
      have clear : ∀ head tail, head :: tail <:+ front →
          ¬begins separator (head :: tail ++ (separator ++ rest)) := by
        rintro head tail ⟨before, rfl⟩ found
        obtain ⟨after, here⟩ := List.isPrefixOf_iff_prefix.mp found.2
        have early := first before after (by rw [here, ← List.append_assoc])
        rw [List.length_append, List.length_cons] at early
        omega
      have bare : ∀ char ∈ front, char ≠ '\'' :=
        fun char member => unquoted char (List.mem_append_left _ member)
      rw [splitFrom_bare bare clear, splitFrom_separator nonempty, List.append_nil,
        List.reverse_reverse, inductionHypothesis]
      intro char member
      exact unquoted char (List.mem_append_right _ (List.mem_append_right _ member))

/-- The split that is read is the only leftmost one. -/
theorem splits_iff (nonempty : separator ≠ []) (unquoted : ∀ char ∈ text, char ≠ '\'') :
    Splits separator text segments ↔ split separator text = segments := by
  constructor
  · exact fun splits => split_eq_of_splits nonempty splits unquoted
  · rintro rfl
    obtain ⟨segments, splits⟩ := exists_splits nonempty text
    rwa [split_eq_of_splits nonempty splits unquoted]

end

/-- Splitting a text without quotes loses nothing.  Joined by the separator, the segments are
the text again, no segment contains the separator, and the segments are those of the leftmost
split. -/
theorem parse_leftmost {text separator : String} (unquoted : '\'' ∉ text.toList)
    (nonempty : separator ≠ "") :
    separator.intercalate (parse text separator).segments = text ∧
      (∀ segment ∈ (parse text separator).segments,
        ¬separator.toList <:+: segment.toList) ∧
      ∀ name : QualifiedName,
        Splits separator.toList text.toList (name.segments.map String.toList) ↔
          parse text separator = name := by
  have someChar : separator.toList ≠ [] := by simpa using nonempty
  have bare : ∀ char ∈ text.toList, char ≠ '\'' := by
    rintro char member rfl
    exact unquoted member
  have listed : (parse text separator).segments.map String.toList =
      split separator.toList text.toList := by
    simp [parse, Function.comp_def]
  have splits := (splits_iff someChar bare).mpr listed.symm
  refine ⟨?_, ?_, ?_⟩
  · rw [← String.toList_inj, String.toList_intercalate]
    exact splits.intercalate_eq
  · intro segment member
    exact splits.not_infix someChar (List.mem_map_of_mem member)
  · intro name
    rw [splits_iff someChar bare, ← listed]
    constructor
    · intro same
      have segments := List.map_injective_iff.mpr (fun _ _ => String.toList_injective) same
      exact congrArg QualifiedName.mk segments
    · rintro rfl
      rfl

/-- Colons at both ends, a run of three of them and a backslash: the second cut is made at the
first two colons of the run, and the third one is left to the segment behind it. -/
theorem parse_leftmost_colonRun :
    '\'' ∉ "::a\\:::b::".toList ∧ "::" ≠ "" ∧
      (parse "::a\\:::b::" "::").segments = ["", "a\\", ":b", ""] ∧
      "::".intercalate (parse "::a\\:::b::" "::").segments = "::a\\:::b::" ∧
      ¬"::".toList <:+: ":b".toList ∧
      Splits "::".toList "::a\\:::b::".toList (["", "a\\", ":b", ""].map String.toList) := by
  have unquoted : '\'' ∉ "::a\\:::b::".toList := by decide +kernel
  have nonempty : "::" ≠ "" := by decide
  have read : parse "::a\\:::b::" "::" = ⟨["", "a\\", ":b", ""]⟩ := by decide +kernel
  obtain ⟨joined, apart, leftmost⟩ := parse_leftmost unquoted nonempty
  refine ⟨unquoted, nonempty, congrArg segments read, joined, ?_, (leftmost _).mpr read⟩
  exact apart ":b" (by rw [read]; decide)

end QualifiedName

end ModelText
