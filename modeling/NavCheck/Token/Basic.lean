import NavCheck.Span

/-!
# Tokens

The pieces that a source text is cut into: names, literals, keywords, punctuation marks and operator signs, and the trivia
between them.
-/

namespace NavCheck

/-- The reserved words. -/
inductive Keyword where
  | publicKw | privateKw | internalKw | protectedKw | readonlyKw | staticKw | constKw
  | classKw | structKw | whereKw | returnKw | ifKw | elseKw | varKw | newKw | thisKw | nullKw | trueKw | falseKw
  | getKw | setKw
deriving DecidableEq

namespace Keyword

/-- How a keyword is spelled. -/
def text : Keyword → String
  | .publicKw => "public"
  | .privateKw => "private"
  | .internalKw => "internal"
  | .protectedKw => "protected"
  | .readonlyKw => "readonly"
  | .staticKw => "static"
  | .constKw => "const"
  | .classKw => "class"
  | .structKw => "struct"
  | .whereKw => "where"
  | .returnKw => "return"
  | .ifKw => "if"
  | .elseKw => "else"
  | .varKw => "var"
  | .newKw => "new"
  | .thisKw => "this"
  | .nullKw => "null"
  | .trueKw => "true"
  | .falseKw => "false"
  | .getKw => "get"
  | .setKw => "set"

/-- Every keyword. -/
def all : List Keyword :=
  [.publicKw, .privateKw, .internalKw, .protectedKw, .readonlyKw, .staticKw, .constKw, .classKw, .structKw, .whereKw,
    .returnKw, .ifKw, .elseKw, .varKw, .newKw, .thisKw, .nullKw, .trueKw, .falseKw, .getKw, .setKw]

theorem mem_all (k : Keyword) : k ∈ all := by
  cases k <;> decide

/-- The keyword with a spelling. -/
def ofText? (s : String) : Option Keyword :=
  all.find? (·.text == s)

/-- Keywords that may stand in the modifier list of a member or a parameter. -/
def isModifier : Keyword → Bool
  | .publicKw | .privateKw | .internalKw | .protectedKw | .readonlyKw | .staticKw | .constKw => true
  | _ => false

end Keyword

/-- The punctuation marks; each is one character. -/
inductive Punct where
  | openBrace | closeBrace | openParen | closeParen | openBracket | closeBracket
  | semicolon | comma | colon | dot | dollar | question
deriving DecidableEq

namespace Punct

/-- The character of a mark. -/
def char : Punct → Char
  | .openBrace => '{'
  | .closeBrace => '}'
  | .openParen => '('
  | .closeParen => ')'
  | .openBracket => '['
  | .closeBracket => ']'
  | .semicolon => ';'
  | .comma => ','
  | .colon => ':'
  | .dot => '.'
  | .dollar => '$'
  | .question => '?'

/-- The mark of a character. -/
def ofChar? : Char → Option Punct
  | '{' => some .openBrace
  | '}' => some .closeBrace
  | '(' => some .openParen
  | ')' => some .closeParen
  | '[' => some .openBracket
  | ']' => some .closeBracket
  | ';' => some .semicolon
  | ',' => some .comma
  | ':' => some .colon
  | '.' => some .dot
  | '$' => some .dollar
  | '?' => some .question
  | _ => none

theorem ofChar?_char (p : Punct) : ofChar? p.char = some p := by
  cases p <;> rfl

/-- Does the mark open a bracket of some kind? -/
def opens : Punct → Bool
  | .openBrace | .openParen | .openBracket => true
  | _ => false

/-- Does the mark close a bracket of some kind? -/
def closes : Punct → Bool
  | .closeBrace | .closeParen | .closeBracket => true
  | _ => false

end Punct

/-- The operator signs. -/
inductive Sign where
  | arrow | equal | notEqual | atMost | atLeast | both | either | coalesce
  | assign | plus | minus | star | percent | bang | less | greater | ampersand | bar | slash
deriving DecidableEq

namespace Sign

/-- How a sign is written. -/
def text : Sign → String
  | .arrow => "=>"
  | .equal => "=="
  | .notEqual => "!="
  | .atMost => "<="
  | .atLeast => ">="
  | .both => "&&"
  | .either => "||"
  | .coalesce => "??"
  | .assign => "="
  | .plus => "+"
  | .minus => "-"
  | .star => "*"
  | .percent => "%"
  | .bang => "!"
  | .less => "<"
  | .greater => ">"
  | .ampersand => "&"
  | .bar => "|"
  | .slash => "/"

end Sign

/-- What a token is. Number literals carry their value, strings their decoded text. -/
inductive TokenKind where
  | name
  | number (value : Nat)
  | string (value : String)
  | keyword (word : Keyword)
  | punct (mark : Punct)
  | sign (sign : Sign)
  | comment
  | blank
  | unknown (c : Char)
deriving DecidableEq

namespace TokenKind

/-- Blanks and comments carry no meaning for the parsers. -/
def isTrivia : TokenKind → Bool
  | .comment | .blank => true
  | _ => false

end TokenKind

/-- A piece of a source text with its place. -/
structure Token where
  kind : TokenKind
  lexeme : String
  span : Span
deriving DecidableEq

end NavCheck
