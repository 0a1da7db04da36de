/-!
# Quoted texts

How a string value is written as a literal: between double quotes, with a backslash before the characters that a literal
cannot hold as they are.
-/

namespace NavCheck.Text

/-- The written form of one character inside a literal. -/
def escapeChar (c : Char) : List Char :=
  if c = '"' then ['\\', '"']
  else if c = '\\' then ['\\', '\\']
  else if c = '\n' then ['\\', 'n']
  else if c = '\t' then ['\\', 't']
  else if c.toNat = 0 then ['\\', '0']
  else [c]

/-- The character that a backslash and `c` stand for; any character but `n`, `t` and `0` stands for itself. -/
def unescapeChar (c : Char) : Char :=
  if c = 'n' then '\n' else if c = 't' then '\t' else if c = '0' then Char.ofNat 0 else c

/-- The literal for a list of characters. -/
def quoteChars (cs : List Char) : List Char :=
  '"' :: (cs.flatMap escapeChar ++ ['"'])

/-- The literal for a string. -/
def quote (s : String) : String :=
  String.ofList (quoteChars s.toList)

end NavCheck.Text
