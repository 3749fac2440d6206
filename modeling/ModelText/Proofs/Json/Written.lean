import Mathlib.Data.List.TakeDrop
import ModelText.Json.Printer
import ModelText.Json.Reader

namespace ModelText

/-!
# Written values read back

A value is written token by token with nothing but blanks between the tokens, and the
reader passes over blanks in front of every token.  So each token is read as it was
written, whatever comes behind it; a number alone needs to know that what comes behind it
does not go on with the number.  Strings read back because every character that is
special inside a string has an escape, and integers because decimal digits have no
leading zero.

The reader takes a limit on nested calls and makes at most three of them at one
character.  Three calls for each character that is left are therefore enough, and all
statements about values carry this bound along.
-/

namespace Json

/-! ## Blanks -/

/-- A style that puts nothing but blanks between the tokens. -/
structure Style.Spaces (style : Style) : Prop where
  lineBreak : ∀ level, ∀ char ∈ style.lineBreak level, isBlank char = true
  afterColon : ∀ char ∈ style.afterColon, isBlank char = true

theorem spaces_pretty : Style.pretty.Spaces where
  lineBreak level char member := by
    simp only [Style.pretty, List.mem_cons, List.mem_replicate] at member
    rcases member with rfl | ⟨_, rfl⟩ <;> rfl
  afterColon char member := by
    rw [List.mem_singleton.mp member]
    rfl

theorem skipBlanks_cons {head : Char} (visible : isBlank head = false) (rest : List Char) :
    skipBlanks (head :: rest) = head :: rest :=
  List.dropWhile_cons_of_neg (by simp [visible])

section Blanks

variable {blanks : List Char} (blank : ∀ char ∈ blanks, isBlank char = true)
include blank

theorem skipBlanks_append (text : List Char) :
    skipBlanks (blanks ++ text) = skipBlanks text :=
  List.dropWhile_append_of_pos blank

theorem skipBlanks_append_cons {head : Char} (visible : isBlank head = false)
    (rest : List Char) : skipBlanks (blanks ++ head :: rest) = head :: rest := by
  rw [skipBlanks_append blank, skipBlanks_cons visible]

theorem readValue_append (limit : Nat) (text : List Char) :
    readValue limit (blanks ++ text) = readValue limit text := by
  cases limit with
  | zero => simp [readValue]
  | succ limit => simp only [readValue, skipBlanks_append blank]

theorem readMember_append (limit : Nat) (text : List Char) :
    readMember limit (blanks ++ text) = readMember limit text := by
  cases limit with
  | zero => simp [readMember]
  | succ limit => simp only [readMember, skipBlanks_append blank]

end Blanks

/-! ## Strings -/

theorem hexDigit?_hexDigit : ∀ value < 16, hexDigit? (hexDigit value) = some value := by
  decide

/-- Two hexadecimal digits behind two zeros give the code of a character below 256. -/
theorem readHex4_hexDigits {code : Nat} (small : code < 256) (rest : List Char) :
    readHex4 ('0' :: '0' :: hexDigit (code / 16) :: hexDigit (code % 16) :: rest) =
      some (code, rest) := by
  have zero : hexDigit? '0' = some 0 := by decide
  have high := hexDigit?_hexDigit (code / 16) (by omega)
  have low := hexDigit?_hexDigit (code % 16) (by omega)
  simp only [readHex4, zero, high, low, Option.some.injEq, Prod.mk.injEq, and_true]
  omega

/-- The character with a code below the surrogates is a unit of its own. -/
theorem ofCode_toNat {char : Char} (control : char.toNat < 0x20) :
    StringUnit.ofCode char.toNat = .char char := by
  rw [StringUnit.ofCode, if_neg (by omega), if_neg (by omega), Char.ofNat_toNat]

theorem readUnits_escapeChar (limit : Nat) (char : Char) (text : List Char) :
    readUnits (limit + 1) (escapeChar char ++ text) =
      (readUnits limit text).map fun (units, rest) => (.char char :: units, rest) := by
  unfold escapeChar
  split_ifs with quote backslash backspace tab newline formFeed carriageReturn control
  · subst quote; rfl
  · subst backslash; rfl
  · subst backspace; rfl
  · subst tab; rfl
  · subst newline; rfl
  · subst formFeed; rfl
  · subst carriageReturn; rfl
  · simp only [List.cons_append, List.nil_append]
    rw [readUnits, readHex4_hexDigits (by omega)]
    simp only [ofCode_toNat control]
  · rw [List.singleton_append, readUnits, if_neg control] <;> simp_all

theorem length_escapeChar_pos (char : Char) : 0 < (escapeChar char).length := by
  unfold escapeChar
  split_ifs <;> simp

/-- The escaped characters of a text are read up to the closing quote. -/
theorem readUnits_escaped (chars rest : List Char) {limit : Nat}
    (enough : (chars.flatMap escapeChar).length < limit) :
    readUnits limit (chars.flatMap escapeChar ++ '"' :: rest) =
      some (chars.map .char, rest) := by
  induction chars generalizing limit with
  | nil =>
      obtain ⟨limit, rfl⟩ := Nat.exists_eq_add_one_of_ne_zero (Nat.ne_of_gt enough)
      rfl
  | cons char chars inductionHypothesis =>
      have longer := length_escapeChar_pos char
      rw [List.flatMap_cons, List.length_append] at enough
      obtain ⟨limit, rfl⟩ := Nat.exists_eq_add_one_of_ne_zero (show limit ≠ 0 by omega)
      rw [List.flatMap_cons, List.append_assoc, readUnits_escapeChar,
        inductionHypothesis (by omega)]
      rfl

theorem textOfUnits_map_char (chars : List Char) :
    textOfUnits (chars.map .char) = some chars := by
  induction chars with
  | nil => rfl
  | cons char chars inductionHypothesis => simp [textOfUnits, inductionHypothesis]

/-- What is written behind the opening quote of a string. -/
def stringTail : Option String → List Char
  | some text => text.toList.flatMap escapeChar ++ ['"']
  | none => ['\\', 'u', 'd', '8', '0', '0', '"']

theorem writeString_eq (text : Option String) : writeString text = '"' :: stringTail text := by
  cases text <;> rfl

/-- A string is read as it was written, with half a surrogate pair for no text. -/
theorem readString_stringTail (text : Option String) (rest : List Char) {limit : Nat}
    (enough : (stringTail text).length ≤ limit) :
    readString limit (stringTail text ++ rest) = some (text, rest) := by
  cases text with
  | some text =>
      rw [stringTail, List.length_append, List.length_singleton] at enough
      rw [stringTail, List.append_assoc, List.singleton_append, readString,
        readUnits_escaped text.toList rest (by omega)]
      simp [textOfUnits_map_char]
  | none =>
      obtain ⟨limit, rfl⟩ := Nat.exists_eq_add_of_le enough
      rw [Nat.add_comm]
      rfl

/-! ## Numbers -/

/-- Whether a number goes on with a character. -/
def continuesNumber (char : Char) : Bool :=
  char.isDigit || char == '.' || char == 'e' || char == 'E'

/-- Whether a number ends in front of a text. -/
def EndsNumber (text : List Char) : Prop :=
  ∀ head rest, text = head :: rest → continuesNumber head = false

theorem endsNumber_nil : EndsNumber [] := nofun

theorem endsNumber_cons {head : Char} (ends : continuesNumber head = false)
    (rest : List Char) : EndsNumber (head :: rest) := by
  rintro _ _ ⟨⟩
  exact ends

theorem endsNumber_append {blanks text : List Char}
    (blank : ∀ char ∈ blanks, isBlank char = true) (ends : EndsNumber text) :
    EndsNumber (blanks ++ text) := by
  cases blanks with
  | nil => exact ends
  | cons head blanks =>
      apply endsNumber_cons
      have here := blank head List.mem_cons_self
      simp only [isBlank, Bool.or_eq_true, beq_iff_eq] at here
      rcases here with ((rfl | rfl) | rfl) | rfl <;> decide

section Digits

variable {digits rest : List Char}

theorem readDigits_append (nonempty : digits ≠ []) (all : ∀ char ∈ digits, char.isDigit = true)
    (ends : EndsNumber rest) : readDigits (digits ++ rest) = some (digits, rest) := by
  have stop : rest.takeWhile Char.isDigit = [] ∧ rest.dropWhile Char.isDigit = rest := by
    cases rest with
    | nil => exact ⟨rfl, rfl⟩
    | cons head rest =>
        have here := ends head rest rfl
        simp only [continuesNumber, Bool.or_eq_false_iff] at here
        simp [here]
  have found : (digits ++ rest).span Char.isDigit = (digits, rest) := by
    rw [List.span_eq_takeWhile_dropWhile, List.takeWhile_append_of_pos all,
      List.dropWhile_append_of_pos all, stop.1, stop.2, List.append_nil]
  rw [readDigits, found]
  cases digits with
  | nil => exact absurd rfl nonempty
  | cons head digits => rfl

theorem readWhole_append (nonempty : digits ≠ []) (all : ∀ char ∈ digits, char.isDigit = true)
    (leading : digits = ['0'] ∨ digits.head? ≠ some '0') (ends : EndsNumber rest) :
    readWhole (digits ++ rest) = some (digits, rest) := by
  rw [readWhole, readDigits_append nonempty all ends]
  rcases leading with rfl | leading
  · rfl
  · cases digits with
    | nil => exact absurd rfl nonempty
    | cons head digits =>
        have nonzero : head ≠ '0' := fun zero => leading (congrArg some zero)
        split <;> simp_all

end Digits

theorem readFraction_of_endsNumber {rest : List Char} (ends : EndsNumber rest) :
    readFraction rest = some (false, rest) := by
  unfold readFraction
  split
  · next tail => exact absurd (ends '.' tail rfl) (by decide)
  · rfl

theorem readExponent_of_endsNumber {rest : List Char} (ends : EndsNumber rest) :
    readExponent rest = some (false, rest) := by
  unfold readExponent
  split
  · rfl
  · next head tail =>
    have here := ends head tail rfl
    simp only [continuesNumber, Bool.or_eq_false_iff, beq_eq_false_iff_ne] at here
    rw [if_neg (by simp [here])]

/-! ### Decimal digits -/

theorem isDigit_of_mem_toDigits {value : Nat} {char : Char}
    (member : char ∈ Nat.toDigits 10 value) : char.isDigit = true :=
  Nat.isDigit_of_mem_toDigits (by decide) (by decide) member

theorem digitsValue_toDigits (value : Nat) : digitsValue (Nat.toDigits 10 value) = value := by
  rw [digitsValue, ← Nat.ofDigitChars_eq_foldl, Nat.ofDigitChars_ten_toDigits]

/-- Only zero is written with a leading zero. -/
theorem head?_toDigits_ne {value : Nat} (positive : 0 < value) :
    (Nat.toDigits 10 value).head? ≠ some '0' := by
  induction value using Nat.strongRecOn with
  | ind value inductionHypothesis =>
      rw [Nat.toDigits_eq_if (by decide)]
      split
      · simp
        omega
      · have further := inductionHypothesis (value / 10) (by omega) (by omega)
        rwa [List.head?_append, Option.or_of_isSome]
        simp [Nat.toDigits_ne_nil]

theorem toDigits_leading (value : Nat) :
    Nat.toDigits 10 value = ['0'] ∨ (Nat.toDigits 10 value).head? ≠ some '0' := by
  rcases Nat.eq_zero_or_pos value with rfl | positive
  · exact .inl (Nat.toDigits_zero 10)
  · exact .inr (head?_toDigits_ne positive)

theorem exists_toDigits_eq_cons (value : Nat) :
    ∃ head tail, Nat.toDigits 10 value = head :: tail ∧ head.isDigit = true := by
  obtain ⟨head, tail, digits⟩ := List.exists_cons_of_ne_nil
    (Nat.toDigits_ne_nil : Nat.toDigits 10 value ≠ [])
  exact ⟨head, tail, digits, isDigit_of_mem_toDigits (digits ▸ List.mem_cons_self)⟩

/-! ### Written numbers -/

theorem readValue_number {head : Char} (first : head.isDigit = true ∨ head = '-')
    (limit : Nat) (tail : List Char) :
    readValue (limit + 1) (head :: tail) = readNumber (head :: tail) := by
  have visible : isBlank head = false ∧ head ≠ '"' ∧ head ≠ '[' ∧ head ≠ '{' ∧
      head ≠ 'n' ∧ head ≠ 't' ∧ head ≠ 'f' := by
    rcases first with digit | rfl
    · refine ⟨?_, ?_, ?_, ?_, ?_, ?_, ?_⟩
      · simp only [isBlank, Bool.or_eq_false_iff, beq_eq_false_iff_ne]
        refine ⟨⟨⟨?_, ?_⟩, ?_⟩, ?_⟩ <;> rintro rfl <;> exact absurd digit (by decide)
      all_goals rintro rfl; exact absurd digit (by decide)
    · decide
  rw [readValue, skipBlanks_cons visible.1]
  split <;> simp_all

section Numbers

variable {rest : List Char} (ends : EndsNumber rest)
include ends

theorem readUnsigned_toDigits (negative : Bool) (value : Nat) :
    readUnsigned negative (Nat.toDigits 10 value ++ rest) =
      some (numberOf negative (Nat.toDigits 10 value) false, rest) := by
  simp only [readUnsigned, readWhole_append Nat.toDigits_ne_nil
    (fun _ => isDigit_of_mem_toDigits) (toDigits_leading value) ends,
    readFraction_of_endsNumber ends, readExponent_of_endsNumber ends, Bool.or_self]

theorem readValue_toDigits (limit value : Nat) :
    readValue (limit + 1) (Nat.toDigits 10 value ++ rest) =
      some (.integer value, rest) := by
  have unsigned := readUnsigned_toDigits ends false value
  obtain ⟨head, tail, digits, digit⟩ := exists_toDigits_eq_cons value
  have positive : head ≠ '-' := by
    rintro rfl
    exact absurd digit (by decide)
  rw [numberOf, digitsValue_toDigits, digits, List.cons_append] at unsigned
  rw [digits, List.cons_append, readValue_number (Or.inl digit), readNumber]
  · exact unsigned
  · simp [positive]

theorem readValue_minus (limit value : Nat) :
    readValue (limit + 1) ('-' :: (Nat.toDigits 10 value ++ rest)) =
      some (if value = 0 then .fraction else .integer (-value), rest) := by
  rw [readValue_number (Or.inr rfl), readNumber, readUnsigned_toDigits ends, numberOf,
    digitsValue_toDigits]
  by_cases zero : value = 0 <;> simp [zero]

theorem readValue_writeInteger (limit : Nat) (value : Int) :
    readValue (limit + 1) (writeInteger value ++ rest) = some (.integer value, rest) := by
  unfold writeInteger
  split
  · next negative =>
    rw [List.cons_append, readValue_minus ends, if_neg (by omega)]
    simp only [Option.some.injEq, Prod.mk.injEq, Json.integer.injEq, and_true]
    omega
  · next natural =>
    rw [readValue_toDigits ends]
    simp only [Option.some.injEq, Prod.mk.injEq, Json.integer.injEq, and_true]
    omega

end Numbers

/-! ## Values -/

/-- Behind the opening bracket of a list that is not empty stand its items.  No value
begins with the closing bracket. -/
theorem readArray_of_item {limit : Nat} {text after : List Char} {item : Json}
    (read : readValue limit text = some (item, after)) (more : Nat) :
    readArray (more + 1) text =
      (readItems more text).map fun (items, rest) => (.array items, rest) := by
  rw [readArray]
  split
  · next rest closing =>
    cases limit with
    | zero => cases read
    | succ limit =>
        rw [readValue, closing] at read
        cases read
  · rfl

theorem readObject_of_member {limit : Nat} {text after : List Char}
    {member : Option String × Json} (read : readMember limit text = some (member, after))
    (more : Nat) :
    readObject (more + 1) text =
      (readMembers more text).map fun (members, rest) => (.object members, rest) := by
  rw [readObject]
  split
  · next rest closing =>
    cases limit with
    | zero => cases read
    | succ limit =>
        rw [readMember, closing] at read
        cases read
  · rfl

section Values

variable {style : Style} (spaces : style.Spaces)

/-- Items and the closing bracket behind them. -/
def closeItems (style : Style) (level : Nat) (items : List Json) (rest : List Char) :
    List Char :=
  writeItems style (level + 1) items ++ (style.lineBreak level ++ ']' :: rest)

/-- Members and the closing brace behind them. -/
def closeMembers (style : Style) (level : Nat) (members : List (Option String × Json))
    (rest : List Char) : List Char :=
  writeMembers style (level + 1) members ++ (style.lineBreak level ++ '}' :: rest)

theorem write_array (level : Nat) (item : Json) (items : List Json) (rest : List Char) :
    write style level (.array (item :: items)) ++ rest =
      '[' :: (style.lineBreak (level + 1) ++
        (write style (level + 1) item ++ closeItems style level items rest)) := by
  simp [write, closeItems]

theorem write_object (level : Nat) (member : Option String × Json)
    (members : List (Option String × Json)) (rest : List Char) :
    write style level (.object (member :: members)) ++ rest =
      '{' :: (style.lineBreak (level + 1) ++
        (writeMember style (level + 1) member ++ closeMembers style level members rest)) := by
  simp [write, closeMembers]

theorem closeItems_cons (level : Nat) (item : Json) (items : List Json) (rest : List Char) :
    closeItems style level (item :: items) rest =
      ',' :: (style.lineBreak (level + 1) ++
        (write style (level + 1) item ++ closeItems style level items rest)) := by
  simp [closeItems, writeItems]

theorem closeMembers_cons (level : Nat) (member : Option String × Json)
    (members : List (Option String × Json)) (rest : List Char) :
    closeMembers style level (member :: members) rest =
      ',' :: (style.lineBreak (level + 1) ++
        (writeMember style (level + 1) member ++ closeMembers style level members rest)) := by
  simp [closeMembers, writeMembers]

theorem writeMember_append (level : Nat) (key : Option String) (value : Json)
    (rest : List Char) :
    writeMember style level (key, value) ++ rest =
      '"' :: (stringTail key ++ ':' :: (style.afterColon ++
        (write style level value ++ rest))) := by
  simp [writeMember, writeString_eq]

include spaces

/-- What comes behind an item ends a number. -/
theorem endsNumber_closeItems (level : Nat) (items : List Json) (rest : List Char) :
    EndsNumber (closeItems style level items rest) := by
  cases items with
  | nil =>
      rw [closeItems, writeItems, List.nil_append]
      exact endsNumber_append (spaces.lineBreak level) (endsNumber_cons (by decide) rest)
  | cons item items =>
      rw [closeItems_cons]
      exact endsNumber_cons (by decide) _

theorem endsNumber_closeMembers (level : Nat) (members : List (Option String × Json))
    (rest : List Char) : EndsNumber (closeMembers style level members rest) := by
  cases members with
  | nil =>
      rw [closeMembers, writeMembers, List.nil_append]
      exact endsNumber_append (spaces.lineBreak level) (endsNumber_cons (by decide) rest)
  | cons member members =>
      rw [closeMembers_cons]
      exact endsNumber_cons (by decide) _

mutual

/-- A value is read as it was written. -/
theorem readValue_write (level : Nat) (json : Json) {limit : Nat} {rest : List Char}
    (ends : EndsNumber rest) (enough : 3 * (write style level json ++ rest).length < limit) :
    readValue limit (write style level json ++ rest) = some (json, rest) := by
  obtain ⟨limit, rfl⟩ := Nat.exists_eq_add_one_of_ne_zero (show limit ≠ 0 by omega)
  match json with
  | .null => rfl
  | .bool true => rfl
  | .bool false => rfl
  | .integer value => exact readValue_writeInteger ends limit value
  | .fraction => exact readValue_minus ends limit 0
  | .string text =>
      rw [write, writeString_eq, List.cons_append] at enough ⊢
      simp only [List.length_cons, List.length_append] at enough
      have body := readString_stringTail text rest (show (stringTail text).length ≤ limit by omega)
      show (readString limit (stringTail text ++ rest)).map _ = _
      rw [body]
      rfl
  | .array [] =>
      simp only [write, List.length_append, List.length_cons] at enough
      obtain ⟨limit, rfl⟩ := Nat.exists_eq_add_one_of_ne_zero (show limit ≠ 0 by omega)
      rfl
  | .array (item :: items) =>
      rw [write_array] at enough ⊢
      simp only [List.length_cons, List.length_append] at enough
      obtain ⟨limit, rfl⟩ := Nat.exists_eq_add_of_le' (show 3 ≤ limit by omega)
      have first : readValue (limit + 1) (style.lineBreak (level + 1) ++
          (write style (level + 1) item ++ closeItems style level items rest)) =
            some (item, closeItems style level items rest) := by
        rw [readValue_append (spaces.lineBreak (level + 1))]
        apply readValue_write (level + 1) item (endsNumber_closeItems spaces level items rest)
        rw [List.length_append]
        omega
      show readArray (limit + 3) _ = _
      rw [readArray_of_item first, readItems_closeItems level items first (by omega)]
      rfl
  | .object [] =>
      simp only [write, List.length_append, List.length_cons] at enough
      obtain ⟨limit, rfl⟩ := Nat.exists_eq_add_one_of_ne_zero (show limit ≠ 0 by omega)
      rfl
  | .object (member :: members) =>
      rw [write_object] at enough ⊢
      simp only [List.length_cons, List.length_append] at enough
      obtain ⟨limit, rfl⟩ := Nat.exists_eq_add_of_le' (show 3 ≤ limit by omega)
      have first : readMember (limit + 1) (style.lineBreak (level + 1) ++
          (writeMember style (level + 1) member ++ closeMembers style level members rest)) =
            some (member, closeMembers style level members rest) := by
        rw [readMember_append (spaces.lineBreak (level + 1))]
        apply readMember_write (level + 1) member
          (endsNumber_closeMembers spaces level members rest)
        rw [List.length_append]
        omega
      show readObject (limit + 3) _ = _
      rw [readObject_of_member first, readMembers_closeMembers level members first (by omega)]
      rfl

/-- When the first item is read, so are the items behind it. -/
theorem readItems_closeItems (level : Nat) (items : List Json) {limit : Nat} {first : Json}
    {text rest : List Char}
    (read : readValue limit text = some (first, closeItems style level items rest))
    (enough : 3 * (closeItems style level items rest).length ≤ limit) :
    readItems (limit + 1) text = some (first :: items, rest) := by
  rw [readItems, read]
  match items with
  | [] =>
      rw [closeItems, writeItems, List.nil_append]
      simp only [skipBlanks_append_cons (spaces.lineBreak level)
        (show isBlank ']' = false by decide)]
  | item :: items =>
      rw [closeItems_cons] at enough ⊢
      simp only [List.length_cons, List.length_append] at enough
      obtain ⟨limit, rfl⟩ := Nat.exists_eq_add_of_le' (show 2 ≤ limit by omega)
      have next : readValue (limit + 1) (style.lineBreak (level + 1) ++
          (write style (level + 1) item ++ closeItems style level items rest)) =
            some (item, closeItems style level items rest) := by
        rw [readValue_append (spaces.lineBreak (level + 1))]
        apply readValue_write (level + 1) item (endsNumber_closeItems spaces level items rest)
        rw [List.length_append]
        omega
      show (readItems (limit + 2) _).map _ = _
      rw [readItems_closeItems level items next (by omega)]
      rfl

theorem readMember_write (level : Nat) (member : Option String × Json) {limit : Nat}
    {rest : List Char} (ends : EndsNumber rest)
    (enough : 3 * (writeMember style level member ++ rest).length < limit) :
    readMember limit (writeMember style level member ++ rest) = some (member, rest) := by
  match member with
  | (key, value) =>
      rw [writeMember_append] at enough ⊢
      simp only [List.length_cons, List.length_append] at enough
      obtain ⟨limit, rfl⟩ := Nat.exists_eq_add_one_of_ne_zero (show limit ≠ 0 by omega)
      have content : readValue limit (style.afterColon ++ (write style level value ++ rest)) =
          some (value, rest) := by
        rw [readValue_append spaces.afterColon]
        apply readValue_write level value ends
        rw [List.length_append]
        omega
      have named := readString_stringTail key
        (':' :: (style.afterColon ++ (write style level value ++ rest)))
        (show (stringTail key).length ≤ limit by omega)
      simp only [readMember, skipBlanks_cons (show isBlank '"' = false by decide), named,
        skipBlanks_cons (show isBlank ':' = false by decide), content, Option.map_some]

/-- When the first member is read, so are the members behind it. -/
theorem readMembers_closeMembers (level : Nat) (members : List (Option String × Json))
    {limit : Nat} {first : Option String × Json} {text rest : List Char}
    (read : readMember limit text = some (first, closeMembers style level members rest))
    (enough : 3 * (closeMembers style level members rest).length ≤ limit) :
    readMembers (limit + 1) text = some (first :: members, rest) := by
  rw [readMembers, read]
  match members with
  | [] =>
      rw [closeMembers, writeMembers, List.nil_append]
      simp only [skipBlanks_append_cons (spaces.lineBreak level)
        (show isBlank '}' = false by decide)]
  | member :: members =>
      rw [closeMembers_cons] at enough ⊢
      simp only [List.length_cons, List.length_append] at enough
      obtain ⟨limit, rfl⟩ := Nat.exists_eq_add_of_le' (show 2 ≤ limit by omega)
      have next : readMember (limit + 1) (style.lineBreak (level + 1) ++
          (writeMember style (level + 1) member ++ closeMembers style level members rest)) =
            some (member, closeMembers style level members rest) := by
        rw [readMember_append (spaces.lineBreak (level + 1))]
        apply readMember_write (level + 1) member
          (endsNumber_closeMembers spaces level members rest)
        rw [List.length_append]
        omega
      show (readMembers (limit + 2) _).map _ = _
      rw [readMembers_closeMembers level members next (by omega)]
      rfl

end

/-- A text that is written in a style with blanks only is read as the value it was
written for. -/
theorem readChars_write (json : Json) : readChars (write style 0 json) = some json := by
  have read := readValue_write spaces 0 json endsNumber_nil
    (Nat.lt_succ_self (3 * (write style 0 json ++ []).length))
  rw [List.append_nil] at read
  simp [readChars, read, skipBlanks]

end Values

theorem parse_pretty (json : Json) : parse json.pretty = some json := by
  rw [parse, pretty, String.toList_ofList]
  exact readChars_write spaces_pretty json

end Json

end ModelText
