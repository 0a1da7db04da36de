import NavCheck.Token.Basic
import NavCheck.TypeExpr.Basic

/-!
# Reading written types

`TypeExpr.scan?` reads the longest type at the front of a token sequence and reports nothing when there is none, so callers
may try it. A `?` belongs to the type unless it can start a null-conditional access: in front of `.`, `[` or `(` it is left.
-/

namespace NavCheck

namespace Token

/-- Whether the token is of a kind. -/
def is (t : Token) (kind : TokenKind) : Bool :=
  t.kind == kind

/-- Whether the token is a mark. -/
def isMark (t : Token) (mark : Punct) : Bool :=
  t.kind == .punct mark

/-- Whether the token is a sign. -/
def isSign (t : Token) (sign : Sign) : Bool :=
  t.kind == .sign sign

end Token

/-- Something read from the front of `tokens`, with the span of the last token that was read and the tokens that are left. -/
structure TypeScan (α : Type) (tokens : List Token) where
  value : α
  last : Span
  rest : List Token
  shorter : rest.length < tokens.length

namespace TypeExpr

/-- Whether the tokens behind a `?` make it an access rather than a suffix. -/
def guardsAccess : List Token → Bool
  | t :: _ => t.isMark .dot || t.isMark .openBracket || t.isMark .openParen
  | [] => false

/-- The suffixes at the front of a token sequence, the span of the last token so far, and the rest. -/
def scanSuffixes (last : Span) : List Token → List TypeSuffix × Span × List Token
  | [] => ([], last, [])
  | t :: rest =>
    if t.isMark .question then
      if guardsAccess rest then ([], last, t :: rest)
      else
        let (suffixes, last, rest) := scanSuffixes t.span rest
        (.nullable :: suffixes, last, rest)
    else if t.isMark .openBracket then
      match rest with
      | close :: rest' =>
        if close.isMark .closeBracket then
          let (suffixes, last, rest) := scanSuffixes close.span rest'
          (.array :: suffixes, last, rest)
        else ([], last, t :: close :: rest')
      | [] => ([], last, [t])
    else ([], last, t :: rest)

theorem length_scanSuffixes (last : Span) (tokens : List Token) :
    (scanSuffixes last tokens).2.2.length ≤ tokens.length := by
  fun_induction scanSuffixes last tokens <;> simp_all <;> omega

mutual

/-- Reads a type: a name, perhaps with arguments, and its suffixes. -/
def scan? (tokens : List Token) : Option (TypeScan TypeExpr tokens) :=
  match tokens with
  | [] => none
  | first :: rest =>
    if first.is .name then
      match scanArgs? first.span rest with
      | none => none
      | some (args, afterArgs) =>
        match h : scanSuffixes afterArgs.1 afterArgs.2.1 with
        | (suffixes, last, rest') =>
          some {
            value := { name := first.lexeme, args, suffixes, span := first.span.join last }
            last
            rest := rest'
            shorter := by
              have hs := length_scanSuffixes afterArgs.1 afterArgs.2.1
              have ha := afterArgs.2.2
              simp only [h] at hs
              simp only [List.length_cons]
              omega }
    else none
termination_by 2 * tokens.length

/-- Reads the arguments of a type when an angle bracket follows, and nothing otherwise. -/
def scanArgs? (last : Span) (tokens : List Token) :
    Option (List TypeExpr × Span × { rest : List Token // rest.length ≤ tokens.length }) :=
  match tokens with
  | [] => some ([], last, ⟨[], Nat.le_refl _⟩)
  | t :: rest =>
    if t.isSign .less then
      (scanArgList? rest).map fun s => (s.value, s.last, ⟨s.rest, by have := s.shorter; simp only [List.length_cons]; omega⟩)
    else some ([], last, ⟨t :: rest, Nat.le_refl _⟩)
termination_by 2 * tokens.length + 1

/-- Reads types with commas between them up to and with the closing angle bracket. -/
def scanArgList? (tokens : List Token) : Option (TypeScan (List TypeExpr) tokens) :=
  match scan? tokens with
  | none => none
  | some arg =>
    match h : arg.rest with
    | [] => none
    | t :: rest =>
      have shorter : rest.length < tokens.length := by
        have := arg.shorter
        rw [h, List.length_cons] at this
        omega
      if t.isMark .comma then
        (scanArgList? rest).map fun more =>
          { value := arg.value :: more.value, last := more.last, rest := more.rest,
            shorter := Nat.lt_trans more.shorter shorter }
      else if t.isSign .greater then some { value := [arg.value], last := t.span, rest, shorter }
      else none
termination_by 2 * tokens.length + 1

end

end TypeExpr

end NavCheck
