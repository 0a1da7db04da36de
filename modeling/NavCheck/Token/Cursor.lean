import NavCheck.Token.Basic

/-!
# Cursors

A cursor is a place in a token sequence: the tokens already passed and the tokens ahead. Reading moves it forward, and what is
read comes with a proof that fewer tokens are ahead, on which the recursion of the parsers rests.
-/

namespace NavCheck

/-- A place in a token sequence; the tokens passed stand latest first. -/
structure Cursor where
  passed : List Token
  ahead : List Token

/-- A value read at the cursor `c`, and the cursor behind it. -/
structure Parsed (α : Type) (c : Cursor) where
  value : α
  next : Cursor
  shorter : next.ahead.length < c.ahead.length

namespace Cursor

/-- The place before all tokens. -/
def start (tokens : List Token) : Cursor :=
  ⟨[], tokens⟩

/-- The place before the token of an index, or behind all tokens when there is none. -/
def ofIndex (tokens : List Token) (index : Nat) : Cursor :=
  ⟨(tokens.take index).reverse, tokens.drop index⟩

/-- The number of tokens passed. -/
def index (c : Cursor) : Nat :=
  c.passed.length

/-- The number of tokens ahead. -/
def remaining (c : Cursor) : Nat :=
  c.ahead.length

/-- The next token. -/
def peek? (c : Cursor) : Option Token :=
  c.ahead.head?

/-- Whether the next token is of a kind. -/
def sees (c : Cursor) (kind : TokenKind) : Bool :=
  match c.ahead with
  | t :: _ => t.kind == kind
  | [] => false

/-- The place of the next token, or of the last one behind all tokens. -/
def hereSpan? (c : Cursor) : Option Span :=
  match c.ahead with
  | t :: _ => some t.span
  | [] => c.passed.head?.map (·.span)

/-- Passes the next token, whatever it is. -/
def next? (c : Cursor) : Option (Parsed Token c) :=
  match h : c.ahead with
  | [] => none
  | t :: rest => some ⟨t, ⟨t :: c.passed, rest⟩, by simp [h]⟩

/-- Passes the next token if it is of a kind. -/
def accept? (c : Cursor) (kind : TokenKind) : Option (Parsed Token c) :=
  match c.next? with
  | some p => if p.value.kind = kind then some p else none
  | none => none

/-- Passes tokens until `rest` is ahead, which must be what is left behind some of the tokens ahead. -/
def advanceTo (c : Cursor) (rest : List Token) : Cursor :=
  ⟨(c.ahead.take (c.ahead.length - rest.length)).reverse ++ c.passed, rest⟩

/-- The span from the first token ahead of `c` to the last token passed by `d`. -/
def spanTo (c d : Cursor) : Span :=
  match c.ahead, d.passed with
  | first :: _, last :: _ => first.span.join last.span
  | _, _ => default

end Cursor

end NavCheck
