import NavCheck.Text.LetterRanges

/-!
# Character classes

The classes of characters that the lexer and the command line tell apart. Blanks are the characters with the Unicode property
`White_Space`; letters have the property `Alphabetic`; digits of number literals are ASCII only.
-/

namespace NavCheck.Text

/-- Whether a code point lies in one of the ranges. -/
def inRanges (ranges : List (Nat × Nat)) (n : Nat) : Bool :=
  ranges.any fun r => r.1 ≤ n && n ≤ r.2

/-- White space in the sense of Unicode: twenty-five characters in ten runs. -/
def isBlank (c : Char) : Bool :=
  inRanges [(9, 13), (32, 32), (0x85, 0x85), (0xA0, 0xA0), (0x1680, 0x1680), (0x2000, 0x200A), (0x2028, 0x2029),
    (0x202F, 0x202F), (0x205F, 0x205F), (0x3000, 0x3000)] c.toNat

/-- A letter: ASCII letters are decided directly, all others by the table. -/
def isLetter (c : Char) : Bool :=
  if c.toNat < 128 then c.isAlpha else inRanges alphabeticRanges c.toNat

/-- A number sign of any script; below 128 these are the ten digits. -/
def isNumeral (c : Char) : Bool :=
  if c.toNat < 128 then c.isDigit else inRanges numericRanges c.toNat

/-- May a name start with this character? -/
def startsName (c : Char) : Bool :=
  isLetter c || c == '_'

/-- May a name go on with this character? -/
def continuesName (c : Char) : Bool :=
  isLetter c || isNumeral c || c == '_'

/-- May a number literal go on with this character? -/
def continuesNumber (c : Char) : Bool :=
  c.isDigit || c == '_'

/-- Every white space character of ASCII that the core library knows is a blank. -/
theorem isBlank_of_isWhitespace {c : Char} (h : c.isWhitespace = true) : isBlank c = true := by
  simp only [Char.isWhitespace, Bool.or_eq_true, decide_eq_true_eq] at h
  rcases h with ((rfl | rfl) | rfl) | rfl <;> decide

/-- A text without the blanks at its two ends. -/
def trim (cs : List Char) : List Char :=
  ((cs.dropWhile isBlank).reverse.dropWhile isBlank).reverse

/-- The text with its ASCII letters in lower case; other characters stay. -/
def asciiLower (s : String) : String :=
  String.ofList (s.toList.map Char.toLower)

/-- The text with its ASCII letters in upper case; other characters stay. -/
def asciiUpper (s : String) : String :=
  String.ofList (s.toList.map Char.toUpper)

end NavCheck.Text
