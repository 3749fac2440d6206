import ModelText.Text.Plain

namespace ModelText

/-!
# Quoted text

A text between double quotes on one line.  The quote and the backslash are
escaped, line breaks, tabs and the null character have short forms, and every
other character that does not show by itself is written by its code.
-/

namespace Text

def hexadecimal (value : Nat) : List Char := Nat.toDigits 16 value

/-- How a character is written between quotes. -/
def quotedChar (char : Char) : List Char :=
  if char = '\x00' then ['\\', '0']
  else if char = '\t' then ['\\', 't']
  else if char = '\n' then ['\\', 'n']
  else if char = '\r' then ['\\', 'r']
  else if char = '"' ∨ char = '\\' then ['\\', char]
  else if isPlain char then [char]
  else ['\\', 'u', '\x7b'] ++ hexadecimal char.toNat ++ ['\x7d']

/-- A text between double quotes. -/
def quoted (text : String) : String :=
  String.ofList ('"' :: (text.toList.flatMap quotedChar ++ ['"']))

end Text

end ModelText
