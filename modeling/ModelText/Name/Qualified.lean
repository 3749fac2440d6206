namespace ModelText

/-!
# Qualified names

A qualified name is a path of segments of any content.  Its written form joins
the segments by a separator.  A segment that is not a basic name, or that
contains the separator, is written between single quotes, where the separator is
literal and a backslash takes the next character as it stands.
-/

/-- A path of name segments. -/
structure QualifiedName where
  segments : List String
  deriving DecidableEq, Inhabited

namespace QualifiedName

/-- The separator of the textual notation. -/
def standardSeparator : String := "::"

def simple (segment : String) : QualifiedName := ⟨[segment]⟩

def append (name : QualifiedName) (segment : String) : QualifiedName :=
  ⟨name.segments ++ [segment]⟩

/-! ## Splitting -/

/-- The segments of a text, given the characters collected for the segment that
is being read, last one first, and whether a quote is open.  Outside quotes the
separator ends a segment, and it is looked for before anything else. -/
def splitFrom (separator : List Char) (quoted : Bool) (current : List Char) :
    List Char → List (List Char)
  | [] => [current.reverse]
  | head :: rest =>
      if _found : quoted = false ∧ separator ≠ [] ∧
          separator.isPrefixOf (head :: rest) = true then
        current.reverse ::
          splitFrom separator quoted [] ((head :: rest).drop separator.length)
      else if head = '\'' then
        splitFrom separator (!quoted) current rest
      else if quoted = true ∧ head = '\\' then
        match rest with
        | [] => [current.reverse]
        | escaped :: rest => splitFrom separator quoted (escaped :: current) rest
      else
        splitFrom separator quoted (head :: current) rest
termination_by text => text.length
decreasing_by
  · have nonempty := List.length_pos_iff.2 _found.2.1
    simp only [List.length_drop, List.length_cons]
    omega
  all_goals simp +arith

def split (separator text : List Char) : List (List Char) :=
  splitFrom separator false [] text

/-- Read a written name.  Every text is some name, with at least one segment. -/
def parse (text separator : String) : QualifiedName :=
  ⟨(split separator.toList text.toList).map String.ofList⟩

/-! ## Writing -/

def isNameStart (char : Char) : Bool := char.isAlpha || char == '_'

def isNamePart (char : Char) : Bool := char.isAlphanum || char == '_'

/-- A basic name is an ASCII letter or underscore, followed by ASCII letters,
digits and underscores. -/
def isBasic : List Char → Bool
  | [] => false
  | head :: rest => isNameStart head && rest.all isNamePart

/-- Whether a segment contains a separator; nothing contains the empty one. -/
def contains (separator : List Char) : List Char → Bool
  | [] => false
  | head :: rest =>
      (!separator.isEmpty && separator.isPrefixOf (head :: rest)) || contains separator rest

/-- The characters between the quotes of a quoted segment. -/
def escape (segment : List Char) : List Char :=
  segment.flatMap fun char =>
    if char = '\'' ∨ char = '\\' then ['\\', char] else [char]

def quote (segment : List Char) : List Char :=
  '\'' :: (escape segment ++ ['\''])

def writeSegment (separator segment : List Char) : List Char :=
  if isBasic segment && !contains separator segment then segment else quote segment

/-- The written form of a name with a separator. -/
def render (name : QualifiedName) (separator : String) : String :=
  String.ofList <| separator.toList.intercalate <|
    name.segments.map fun segment => writeSegment separator.toList segment.toList

/-- The written form of a name with the separator of the notation. -/
def display (name : QualifiedName) : String := name.render standardSeparator

theorem split_ne_nil (separator text : List Char) : split separator text ≠ [] := by
  unfold split
  fun_induction splitFrom separator false [] text <;> simp_all

theorem segments_parse_ne_nil (text separator : String) :
    (parse text separator).segments ≠ [] := by
  simp [parse, split_ne_nil]

end QualifiedName

end ModelText
