import NavCheck.Diagnostic.Sink
import NavCheck.Text.CharClass
import NavCheck.Text.Quoted
import NavCheck.Token.Basic

/-!
# Lexing

A source text is cut into tokens from left to right, each as long as its kind allows. `scan` decides what the first token is
and how many characters it takes; nothing is dropped, so the lexemes put together are the text. A malformed piece still
becomes a token, with a fault beside it.
-/

namespace NavCheck

/-- What can be wrong with a token. -/
inductive LexFault where
  | unexpectedChar (c : Char)
  | numberOutOfRange (digits : String)
  | unterminatedString
  | unterminatedComment
deriving DecidableEq

/-- The wording of a fault. -/
def LexFault.message : LexFault → String
  | .unexpectedChar c => s!"unexpected character `{c}`"
  | .numberOutOfRange digits => s!"integer literal `{digits}` is out of range"
  | .unterminatedString => "unterminated string literal"
  | .unterminatedComment => "unterminated block comment"

/-- The first token of a text: its kind, the number of characters behind the first one that belong to it, and its fault. -/
structure Scan where
  kind : TokenKind
  extra : Nat
  fault : Option LexFault := none

namespace Lexer

/-- A single mark. -/
def single (mark : Punct) : Scan :=
  { kind := .punct mark, extra := 0 }

/-- A sign of one character and `extra` more. -/
def operator (sign : Sign) (extra : Nat) : Scan :=
  { kind := .sign sign, extra }

/-- The largest value of a number literal. -/
def maxNumber : Nat := 9223372036854775807

/-- The value of a row of decimal digits. -/
def decimal (digits : List Char) : Nat :=
  digits.foldl (fun value c => 10 * value + (c.toNat - 48)) 0

/-- A name or keyword that starts with `c`. -/
def scanName (c : Char) (cs : List Char) : Scan :=
  let more := cs.takeWhile Text.continuesName
  match Keyword.ofText? (String.ofList (c :: more)) with
  | some word => { kind := .keyword word, extra := more.length }
  | none => { kind := .name, extra := more.length }

/-- A number that starts with the digit `c`. Underscores between the digits do not count; a value that is too large is read
as zero. -/
def scanNumber (c : Char) (cs : List Char) : Scan :=
  let more := cs.takeWhile Text.continuesNumber
  let digits := (c :: more).filter (· != '_')
  if decimal digits ≤ maxNumber then { kind := .number (decimal digits), extra := more.length }
  else { kind := .number 0, extra := more.length, fault := some (.numberOutOfRange (String.ofList digits)) }

/-- The inside of a string literal up to its end: the decoded characters, how many characters that is with the closing
quote, and whether there was one. A line feed ends the literal and belongs to it. -/
def stringBody : List Char → List Char × Nat × Bool
  | [] => ([], 0, false)
  | '"' :: _ => ([], 1, true)
  | '\n' :: _ => ([], 1, false)
  | ['\\'] => ([], 1, false)
  | '\\' :: c :: cs =>
    let (value, n, closed) := stringBody cs
    (Text.unescapeChar c :: value, n + 2, closed)
  | c :: cs =>
    let (value, n, closed) := stringBody cs
    (c :: value, n + 1, closed)

/-- A string literal behind its opening quote. -/
def scanString (cs : List Char) : Scan :=
  let (value, n, closed) := stringBody cs
  { kind := .string (String.ofList value), extra := n, fault := if closed then none else some .unterminatedString }

/-- The inside of a block comment: how many characters it has with the closing sign, and whether there was one. -/
def commentBody : List Char → Nat × Bool
  | [] => (0, false)
  | '*' :: '/' :: _ => (2, true)
  | _ :: cs =>
    let (n, closed) := commentBody cs
    (n + 1, closed)

/-- A comment, or the division sign. -/
def scanSlash : List Char → Scan
  | '/' :: cs => { kind := .comment, extra := 1 + (cs.takeWhile (· != '\n')).length }
  | '*' :: cs =>
    let (n, closed) := commentBody cs
    { kind := .comment, extra := 1 + n, fault := if closed then none else some .unterminatedComment }
  | _ => operator .slash 0

/-- A mark or a sign that starts with `c`; signs of two characters come first. -/
def scanSymbol? (c : Char) (cs : List Char) : Option Scan :=
  match c, cs with
  | '?', '?' :: _ => some (operator .coalesce 1)
  | '=', '>' :: _ => some (operator .arrow 1)
  | '=', '=' :: _ => some (operator .equal 1)
  | '!', '=' :: _ => some (operator .notEqual 1)
  | '<', '=' :: _ => some (operator .atMost 1)
  | '>', '=' :: _ => some (operator .atLeast 1)
  | '&', '&' :: _ => some (operator .both 1)
  | '|', '|' :: _ => some (operator .either 1)
  | '=', _ => some (operator .assign 0)
  | '+', _ => some (operator .plus 0)
  | '-', _ => some (operator .minus 0)
  | '*', _ => some (operator .star 0)
  | '%', _ => some (operator .percent 0)
  | '!', _ => some (operator .bang 0)
  | '<', _ => some (operator .less 0)
  | '>', _ => some (operator .greater 0)
  | '&', _ => some (operator .ampersand 0)
  | '|', _ => some (operator .bar 0)
  | '/', cs => some (scanSlash cs)
  | c, _ => (Punct.ofChar? c).map single

/-- The first token of the text `c :: cs`. -/
def scan (c : Char) (cs : List Char) : Scan :=
  if Text.isBlank c then { kind := .blank, extra := (cs.takeWhile Text.isBlank).length }
  else if Text.startsName c then scanName c cs
  else if c.isDigit then scanNumber c cs
  else if c = '"' then scanString cs
  else (scanSymbol? c cs).getD { kind := .unknown c, extra := 0, fault := some (.unexpectedChar c) }

/-- The tokens of a text that begins at a byte offset of a file, each with its fault. -/
def tokensFrom (file : Option Nat) (offset : Nat) : List Char → List (Token × Option LexFault)
  | [] => []
  | c :: cs =>
    let s := scan c cs
    let taken := c :: cs.take s.extra
    let stop := offset + Text.byteLength taken
    let token : Token := ⟨s.kind, String.ofList taken, ⟨file, offset, stop⟩⟩
    (token, s.fault) :: tokensFrom file stop (cs.drop s.extra)
termination_by cs => cs.length
decreasing_by simp only [List.length_drop, List.length_cons]; omega

end Lexer

/-- A text cut into tokens, each with its fault. -/
structure Lexed where
  pieces : List (Token × Option LexFault)

/-- The area of codes of lexical findings. -/
def lexArea : String := "LEX"

/-- Cuts a text into tokens. -/
def lex (source : String) (file : Option Nat) : Lexed :=
  ⟨Lexer.tokensFrom file 0 source.toList⟩

namespace Lexed

/-- The tokens of the text. -/
def tokens (l : Lexed) : List Token :=
  l.pieces.map (·.1)

/-- The findings about malformed tokens: every fault becomes an error at its token. -/
def diagnostics [Text.Hash] (l : Lexed) : List Diagnostic :=
  (l.pieces.foldl (fun sink (token, fault) =>
    match fault with
    | some fault => sink.pushError fault.message (some token.span)
    | none => sink) (Sink.empty lexArea)).found

/-- The tokens that the parsers read. -/
def significant (l : Lexed) : List Token :=
  l.tokens.filter fun token => !token.kind.isTrivia

end Lexed

end NavCheck
