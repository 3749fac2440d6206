import Mathlib.Data.List.Infix
import ModelText.Name.Qualified

namespace ModelText

/-!
# Written names read back

A name is written segment by segment, with quotes around every segment that is not a
basic name.  It is read character by character, and outside quotes the separator is looked
for before anything else.  The two agree when no written segment can be taken for the
beginning of a separator.  A quoted segment never can if the separator does not begin with
a quote.  A basic name that contains the separator is quoted as well; but one that does not
may still run into the separator that follows it, because its last characters and the first
ones of the separator can look like the separator.  The name is read back exactly if none of
its segments does.

Basic names begin and go on with letters, digits and underscores, so nothing runs into a
separator that begins with another character.  What comes later in a separator does not
matter: quotes and backslashes in it are never looked at, because the reader is past the
whole separator before it looks at the next character.
-/

namespace QualifiedName

/-- Whether a separator begins with a character that no written segment has outside its
quotes, a closing quote included. -/
def separates : List Char → Bool
  | [] => false
  | head :: _ => head != '\'' && !isNamePart head

/-- Whether a text begins with a separator. -/
def begins (separator text : List Char) : Prop :=
  separator ≠ [] ∧ separator.isPrefixOf text = true

/-! ## Reading one piece of a text -/

section Steps

variable {separator current rest : List Char} {quoted : Bool} {char : Char}

/-- Outside quotes a separator ends the segment. -/
theorem splitFrom_separator (nonempty : separator ≠ []) (current rest : List Char) :
    splitFrom separator false current (separator ++ rest) =
      current.reverse :: splitFrom separator false [] rest := by
  obtain ⟨head, tail, rfl⟩ := List.exists_cons_of_ne_nil nonempty
  have here : (head :: tail).isPrefixOf (head :: (tail ++ rest)) = true :=
    List.isPrefixOf_iff_prefix.mpr (List.prefix_append (head :: tail) rest)
  rw [List.cons_append, splitFrom, dif_pos ⟨rfl, nonempty, here⟩]
  congr 2
  exact List.drop_left' rfl

/-- Between quotes, and where no separator begins, the next character is looked at. -/
private theorem not_ends {text : List Char} (apart : quoted = true ∨ ¬begins separator text) :
    ¬(quoted = false ∧ separator ≠ [] ∧ separator.isPrefixOf text = true) := by
  rintro ⟨rfl, here⟩
  exact apart.elim nofun (absurd here)

/-- A quote opens or closes, unless a separator begins with it. -/
theorem splitFrom_quote (apart : quoted = true ∨ ¬begins separator ('\'' :: rest))
    (current : List Char) :
    splitFrom separator quoted current ('\'' :: rest) =
      splitFrom separator (!quoted) current rest := by
  rw [splitFrom, dif_neg (not_ends apart), if_pos rfl]

/-- A backslash between quotes takes the next character as it stands. -/
theorem splitFrom_backslash (separator current : List Char) (escaped : Char)
    (rest : List Char) :
    splitFrom separator true current ('\\' :: escaped :: rest) =
      splitFrom separator true (escaped :: current) rest := by
  rw [splitFrom, dif_neg (by simp), if_neg (by decide), if_pos ⟨rfl, rfl⟩]

theorem splitFrom_plain (unquote : char ≠ '\'') (unescaped : quoted = false ∨ char ≠ '\\')
    (apart : quoted = true ∨ ¬begins separator (char :: rest)) (current : List Char) :
    splitFrom separator quoted current (char :: rest) =
      splitFrom separator quoted (char :: current) rest := by
  have literal : ¬(quoted = true ∧ char = '\\') := by
    rintro ⟨rfl, here⟩
    exact unescaped.elim nofun (absurd here)
  rw [splitFrom, dif_neg (not_ends apart), if_neg unquote, if_neg literal]

end Steps

/-! ## Reading a written segment -/

/-- Between quotes the escaped characters of a segment are read up to the closing quote. -/
theorem splitFrom_escape (separator current segment rest : List Char) :
    splitFrom separator true current (escape segment ++ '\'' :: rest) =
      splitFrom separator false (segment.reverse ++ current) rest := by
  induction segment generalizing current with
  | nil =>
      rw [escape, List.flatMap_nil, List.nil_append, splitFrom_quote (Or.inl rfl)]
      rfl
  | cons char segment inductionHypothesis =>
      rw [escape, List.flatMap_cons, List.append_assoc, ← escape, List.reverse_cons,
        List.append_assoc, List.singleton_append]
      by_cases special : char = '\'' ∨ char = '\\'
      · rw [if_pos special, List.cons_append, List.cons_append, List.nil_append,
          splitFrom_backslash]
        exact inductionHypothesis (char :: current)
      · rw [not_or] at special
        rw [if_neg (not_or.mpr special), List.singleton_append,
          splitFrom_plain special.1 (Or.inr special.2) (Or.inl rfl)]
        exact inductionHypothesis (char :: current)

/-- A quoted segment is read as it was, where no separator begins at its opening quote. -/
theorem splitFrom_quoted {separator segment rest : List Char}
    (apart : ¬begins separator (quote segment ++ rest)) (current : List Char) :
    splitFrom separator false current (quote segment ++ rest) =
      splitFrom separator false (segment.reverse ++ current) rest := by
  rw [quote, List.cons_append, List.append_assoc, List.singleton_append] at apart ⊢
  rw [splitFrom_quote (Or.inr apart)]
  exact splitFrom_escape separator current segment rest

/-- A segment without quotes that is written bare is read as it was, where no separator
begins at one of its characters. -/
theorem splitFrom_bare {separator segment rest : List Char}
    (unquoted : ∀ char, char ∈ segment → char ≠ '\'')
    (apart : ∀ head tail, head :: tail <:+ segment →
      ¬begins separator (head :: tail ++ rest)) (current : List Char) :
    splitFrom separator false current (segment ++ rest) =
      splitFrom separator false (segment.reverse ++ current) rest := by
  induction segment generalizing current with
  | nil => rfl
  | cons char segment inductionHypothesis =>
      have here := apart char segment List.suffix_rfl
      rw [List.cons_append] at here ⊢
      rw [splitFrom_plain (unquoted char List.mem_cons_self) (Or.inl rfl) (Or.inr here),
        inductionHypothesis (fun other member => unquoted other (List.mem_cons_of_mem _ member))
          (fun head tail suffix => apart head tail (suffix.trans (List.suffix_cons char segment))),
        List.reverse_cons, List.append_assoc, List.singleton_append]

theorem isNamePart_of_isBasic {segment : List Char} (basic : isBasic segment = true)
    {char : Char} (member : char ∈ segment) : isNamePart char = true := by
  cases segment with
  | nil => cases member
  | cons head rest =>
      rw [isBasic, Bool.and_eq_true, List.all_eq_true] at basic
      rcases List.mem_cons.mp member with rfl | further
      · have start := basic.1
        rw [isNameStart, Bool.or_eq_true] at start
        rw [isNamePart, Char.isAlphanum, Bool.or_eq_true, Bool.or_eq_true]
        exact start.imp_left Or.inl
      · exact basic.2 char further

theorem ne_quote_of_isBasic {segment : List Char} (basic : isBasic segment = true)
    (char : Char) (member : char ∈ segment) : char ≠ '\'' := by
  rintro rfl
  exact absurd (isNamePart_of_isBasic basic member) (by decide)

theorem contains_iff {separator segment : List Char} :
    contains separator segment = true ↔
      ∃ tail, tail ≠ [] ∧ tail <:+ segment ∧ begins separator tail := by
  induction segment with
  | nil =>
      refine iff_of_false (by simp [contains]) ?_
      rintro ⟨tail, nonempty, suffix, _⟩
      exact nonempty (List.suffix_nil.mp suffix)
  | cons head rest inductionHypothesis =>
      have here : (!separator.isEmpty && separator.isPrefixOf (head :: rest)) = true ↔
          begins separator (head :: rest) := by
        simp [begins]
      rw [contains, Bool.or_eq_true, here, inductionHypothesis]
      constructor
      · rintro (found | ⟨tail, nonempty, suffix, found⟩)
        · exact ⟨_, List.cons_ne_nil head rest, List.suffix_rfl, found⟩
        · exact ⟨tail, nonempty, suffix.trans (List.suffix_cons head rest), found⟩
      · rintro ⟨tail, nonempty, suffix, found⟩
        rcases List.suffix_cons_iff.mp suffix with rfl | further
        · exact Or.inl found
        · exact Or.inr ⟨tail, nonempty, further, found⟩

/-- A segment that is written bare runs into a separator: an end of the segment and the
beginning of the separator behind it can be taken for the separator. -/
def RunsInto (separator segment : List Char) : Prop :=
  isBasic segment = true ∧ contains separator segment = false ∧
    ∃ tail, tail ≠ [] ∧ tail <:+ segment ∧ separator <+: tail ++ separator

instance (separator segment : List Char) : Decidable (RunsInto separator segment) :=
  decidable_of_iff
    (isBasic segment = true ∧ contains separator segment = false ∧
      ∃ tail ∈ segment.tails, tail ≠ [] ∧ separator <+: tail ++ separator) <| by
    simp only [RunsInto, List.mem_tails, and_left_comm]

/-- Behind the beginning of a separator nothing else matters for it. -/
theorem begins_append_iff {separator : List Char} (nonempty : separator ≠ [])
    (tail rest : List Char) :
    begins separator (tail ++ (separator ++ rest)) ↔ separator <+: tail ++ separator := by
  rw [begins, List.isPrefixOf_iff_prefix, and_iff_right nonempty, ← List.append_assoc]
  constructor
  · intro found
    exact List.prefix_of_prefix_length_le found (List.prefix_append _ _) (by simp)
  · exact fun found => found.trans (List.prefix_append _ _)

section Unquoted

variable {separator : List Char} (unquoted : separator.head? ≠ some '\'')
include unquoted

theorem not_begins_quote (rest : List Char) : ¬begins separator ('\'' :: rest) := by
  rintro ⟨nonempty, here⟩
  obtain ⟨first, tail, rfl⟩ := List.exists_cons_of_ne_nil nonempty
  rw [List.isPrefixOf_cons_cons, Bool.and_eq_true, beq_iff_eq] at here
  exact unquoted (congrArg some here.1)

/-- A written segment is read as it was, unless a separator begins in it when it is written
bare. -/
theorem splitFrom_writeSegment {segment rest : List Char}
    (clear : isBasic segment = true → contains separator segment = false →
      ∀ tail, tail ≠ [] → tail <:+ segment → ¬begins separator (tail ++ rest))
    (current : List Char) :
    splitFrom separator false current (writeSegment separator segment ++ rest) =
      splitFrom separator false (segment.reverse ++ current) rest := by
  unfold writeSegment
  split
  · next bare =>
      rw [Bool.and_eq_true, Bool.not_eq_true'] at bare
      refine splitFrom_bare (ne_quote_of_isBasic bare.1) ?_ current
      intro head tail suffix
      exact clear bare.1 bare.2 (head :: tail) (List.cons_ne_nil head tail) suffix
  · exact splitFrom_quoted (not_begins_quote unquoted _) current

theorem splitFrom_writeSegment_last (current segment : List Char) :
    splitFrom separator false current (writeSegment separator segment) =
      [current.reverse ++ segment] := by
  have clear : isBasic segment = true → contains separator segment = false →
      ∀ tail, tail ≠ [] → tail <:+ segment → ¬begins separator (tail ++ []) := by
    intro _ apart tail nonempty suffix
    rw [List.append_nil]
    intro found
    rw [contains_iff.mpr ⟨tail, nonempty, suffix, found⟩] at apart
    cases apart
  have read := splitFrom_writeSegment unquoted clear current
  rw [List.append_nil, splitFrom, List.reverse_append, List.reverse_reverse] at read
  exact read

/-- A segment that does not run into the separator behind it is read as it was. -/
theorem splitFrom_writeSegment_separator (nonempty : separator ≠ []) {segment : List Char}
    (clear : ¬RunsInto separator segment) (current rest : List Char) :
    splitFrom separator false current (writeSegment separator segment ++ (separator ++ rest)) =
      (current.reverse ++ segment) :: splitFrom separator false [] rest := by
  rw [splitFrom_writeSegment unquoted, splitFrom_separator nonempty, List.reverse_append,
    List.reverse_reverse]
  intro basic apart tail someTail suffix
  rw [begins_append_iff nonempty]
  exact fun found => clear ⟨basic, apart, tail, someTail, suffix, found⟩

end Unquoted

/-- Where a separator begins in a bare segment, the segment is read too short. -/
theorem splitFrom_short {separator segment tail rest : List Char}
    (unquoted : ∀ char, char ∈ segment → char ≠ '\'') (nonempty : tail ≠ [])
    (suffix : tail <:+ segment) (found : begins separator (tail ++ rest))
    (current : List Char) :
    ∃ shorter : List Char, shorter.length < segment.length ∧
      (splitFrom separator false current (segment ++ rest)).head? =
        some (current.reverse ++ shorter) := by
  induction segment generalizing current with
  | nil => exact absurd (List.suffix_nil.mp suffix) nonempty
  | cons char segment inductionHypothesis =>
      by_cases here : begins separator (char :: (segment ++ rest))
      · refine ⟨[], Nat.succ_pos _, ?_⟩
        rw [List.cons_append, splitFrom, dif_pos ⟨rfl, here⟩, List.head?_cons, List.append_nil]
      · have further : tail <:+ segment := by
          rcases List.suffix_cons_iff.mp suffix with rfl | further
          · exact absurd found here
          · exact further
        obtain ⟨shorter, less, read⟩ := inductionHypothesis
          (fun other member => unquoted other (List.mem_cons_of_mem _ member)) further
          (char :: current)
        refine ⟨char :: shorter, Nat.succ_lt_succ less, ?_⟩
        rw [List.cons_append, splitFrom_plain (unquoted char List.mem_cons_self) (Or.inl rfl)
          (Or.inr here), read, List.reverse_cons, List.append_assoc, List.singleton_append]

/-- A segment that runs into the separator behind it is read too short. -/
theorem splitFrom_runsInto {separator segment : List Char} (nonempty : separator ≠ [])
    (runs : RunsInto separator segment) (current rest : List Char) :
    ∃ shorter : List Char, shorter.length < segment.length ∧
      (splitFrom separator false current
          (writeSegment separator segment ++ (separator ++ rest))).head? =
        some (current.reverse ++ shorter) := by
  obtain ⟨basic, apart, tail, someTail, suffix, found⟩ := runs
  have bare : writeSegment separator segment = segment := by
    rw [writeSegment, basic, apart]
    rfl
  rw [bare]
  exact splitFrom_short (ne_quote_of_isBasic basic) someTail suffix
    ((begins_append_iff nonempty tail rest).mpr found) current

/-! ## Reading a written name -/

/-- Joined segments are split into the same segments, exactly if none of them runs into the
separator that follows it. -/
theorem split_intercalate_iff {separator : List Char} (nonempty : separator ≠ [])
    (unquoted : separator.head? ≠ some '\'') {segments : List (List Char)}
    (someSegment : segments ≠ []) :
    split separator (separator.intercalate (segments.map (writeSegment separator))) =
        segments ↔
      ∀ segment ∈ segments.dropLast, ¬RunsInto separator segment := by
  induction segments with
  | nil => exact absurd rfl someSegment
  | cons segment others inductionHypothesis =>
      cases others with
      | nil =>
          rw [List.map_singleton, List.intercalate_singleton, split,
            splitFrom_writeSegment_last unquoted]
          exact iff_of_true rfl nofun
      | cons next others =>
          have further := inductionHypothesis (List.cons_ne_nil next others)
          rw [split] at further
          rw [List.map_cons, List.map_cons, List.intercalate_cons_cons, ← List.map_cons, split,
            List.append_assoc, List.dropLast_cons_cons, List.forall_mem_cons, ← further]
          by_cases runs : RunsInto separator segment
          · refine iff_of_false ?_ fun clear => clear.1 runs
            intro same
            obtain ⟨shorter, less, read⟩ := splitFrom_runsInto nonempty runs [] _
            rw [same, List.head?_cons] at read
            rw [Option.some.inj read] at less
            exact Nat.lt_irrefl _ less
          · rw [and_iff_right runs, splitFrom_writeSegment_separator unquoted nonempty runs]
            exact List.cons_inj_right segment

/-- A name is read as it was written, exactly if no segment runs into the separator that
follows it. -/
theorem parse_render_iff {separator : String} (nonempty : separator ≠ "")
    (unquoted : separator.toList.head? ≠ some '\'') {name : QualifiedName}
    (someSegment : name.segments ≠ []) :
    parse (name.render separator) separator = name ↔
      ∀ segment ∈ name.segments.dropLast, ¬RunsInto separator.toList segment.toList := by
  obtain ⟨segments⟩ := name
  have someText : segments.map String.toList ≠ [] := by simpa using someSegment
  have someChar : separator.toList ≠ [] := by simpa using nonempty
  have written := split_intercalate_iff someChar unquoted someText
  rw [List.map_map] at written
  unfold Function.comp at written
  rw [← List.map_dropLast, List.forall_mem_map] at written
  have back : ∀ texts : List (List Char),
      texts.map String.ofList = segments ↔ texts = segments.map String.toList := by
    intro texts
    constructor
    · rintro rfl
      simp [Function.comp_def]
    · rintro rfl
      simp [Function.comp_def]
  rw [← written, parse, render, String.toList_ofList, QualifiedName.mk.injEq, back]

theorem head?_ne_quote_of_separates {separator : List Char}
    (apart : separates separator = true) : separator.head? ≠ some '\'' := by
  cases separator with
  | nil => cases apart
  | cons first others =>
      rw [separates, Bool.and_eq_true, bne_iff_ne] at apart
      exact fun quote => apart.1 (Option.some.inj quote)

theorem not_runsInto_of_separates {separator : List Char} (apart : separates separator = true)
    (segment : List Char) : ¬RunsInto separator segment := by
  rintro ⟨basic, _, tail, someTail, suffix, found⟩
  obtain ⟨head, rest, rfl⟩ := List.exists_cons_of_ne_nil someTail
  cases separator with
  | nil => cases apart
  | cons first others =>
      have same : first = head := (List.cons_prefix_cons.mp found).1
      have part := isNamePart_of_isBasic basic (suffix.subset List.mem_cons_self)
      rw [separates, Bool.and_eq_true, Bool.not_eq_true', same, part] at apart
      cases apart.2

/-- A name with at least one segment is read as it was written. -/
theorem parse_render {separator : String} (apart : separates separator.toList = true)
    {name : QualifiedName} (nonempty : name.segments ≠ []) :
    parse (name.render separator) separator = name := by
  have someSeparator : separator ≠ "" := by
    rintro rfl
    cases apart
  rw [parse_render_iff someSeparator (head?_ne_quote_of_separates apart) nonempty]
  exact fun segment _ => not_runsInto_of_separates apart segment.toList

/-- With a separator that separates, written names read back.  So no two names are written
alike, and every text is read as the name it would be written as. -/
theorem written_reads_back {separator : String} (apart : separates separator.toList = true) :
    (∀ name : QualifiedName, name.segments ≠ [] →
      parse (name.render separator) separator = name) ∧
    (∀ name other : QualifiedName, name.segments ≠ [] → other.segments ≠ [] →
      name.render separator = other.render separator → name = other) ∧
    ∀ text, parse ((parse text separator).render separator) separator = parse text separator := by
  refine ⟨fun name => parse_render apart, ?_, ?_⟩
  · intro name other nonempty nonemptyToo same
    rw [← parse_render apart nonempty, same, parse_render apart nonemptyToo]
  · intro text
    exact parse_render apart (segments_parse_ne_nil text separator)

/-- A separator of a backslash and a quote, which are special between quotes only.  It
stands in one segment and begins at the end of another one. -/
theorem written_reads_back_backslashQuote :
    separates "\\'".toList = true ∧
      (⟨["", "it's", "a\\'b", "x\\", "ünit", "wheel"]⟩ : QualifiedName).render "\\'" =
        "''\\''it\\'s'\\''a\\\\\\'b'\\''x\\\\'\\''ünit'\\'wheel" ∧
      parse "''\\''it\\'s'\\''a\\\\\\'b'\\''x\\\\'\\''ünit'\\'wheel" "\\'" =
        ⟨["", "it's", "a\\'b", "x\\", "ünit", "wheel"]⟩ := by
  have apart : separates "\\'".toList = true := by decide +kernel
  have written : (⟨["", "it's", "a\\'b", "x\\", "ünit", "wheel"]⟩ : QualifiedName).render "\\'" =
      "''\\''it\\'s'\\''a\\\\\\'b'\\''x\\\\'\\''ünit'\\'wheel" := by decide +kernel
  refine ⟨apart, written, ?_⟩
  rw [← written]
  exact (written_reads_back apart).1 _ (List.cons_ne_nil _ _)

end QualifiedName

end ModelText
