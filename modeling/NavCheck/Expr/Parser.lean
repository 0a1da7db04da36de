import NavCheck.Expr.Basic
import NavCheck.Expr.Fault
import NavCheck.Token.Cursor
import NavCheck.TypeExpr.Scan

/-!
# Reading expressions

Recursive descent over a cursor, one function for each level of the grammar: assignments, conditionals, binary operators by
precedence, unary operators, accesses, and primary expressions. Every function passes at least one token or fails.

A `?` may open a conditional or guard an access. In front of `.` or `[` it guards; in front of `(` it guards an invocation
unless a `:` pairs with it. For that test the functions carry `pending`, the number of conditionals around the cursor, within
the innermost brackets, whose `:` is still ahead.
-/

namespace NavCheck

/-- The outcome of reading at the cursor `c`. -/
abbrev Read (α : Type) (c : Cursor) := Except ExprError (Parsed α c)

namespace Cursor

/-- A fault at the next token, or at the last one behind all tokens. -/
def fail {α : Type} (c : Cursor) (fault : ExprFault) : Except ExprError α :=
  .error ⟨fault, c.hereSpan?⟩

/-- Passes the mark that closes a bracket. -/
def close (c : Cursor) (place : ClosePlace) : Read Token c :=
  match c.accept? (.punct place.mark) with
  | some p => .ok p
  | none => c.fail (.unclosed place)

/-- Passes a name. -/
def nameAt (c : Cursor) (place : NamePlace) : Read Token c :=
  match c.accept? .name with
  | some p => .ok p
  | none => c.fail (.noName place (c.peek?.map (·.lexeme)))

/-- Reads a type if there is one. -/
def type? (c : Cursor) : Option (Parsed TypeExpr c) :=
  (TypeExpr.scan? c.ahead).map fun s => ⟨s.value, c.advanceTo s.rest, s.shorter⟩

end Cursor

/-- How an access begins. -/
inductive AccessStart where
  | dot
  | bracket
  | paren
deriving DecidableEq

/-- The tokens behind the bracket that closes the first bracket of a token sequence; `depth` brackets are open already. -/
def behindClose? (depth : Nat) : List Token → Option (List Token)
  | [] => none
  | t :: rest =>
    match t.kind with
    | .punct mark =>
      if mark.opens then behindClose? (depth + 1) rest
      else if mark.closes then
        match depth with
        | 0 => none
        | 1 => some rest
        | d + 2 => behindClose? (d + 1) rest
      else behindClose? depth rest
    | _ => behindClose? depth rest

/-- Whether the bracket ahead holds the parameters of a lambda: an arrow follows its end. -/
def Cursor.opensLambda (c : Cursor) : Bool :=
  match behindClose? 0 c.ahead with
  | some (t :: _) => t.isSign .arrow
  | _ => false

/-- Whether a `?` in front of the tokens guards the access to a member or an element. -/
def guardsLink : List Token → Bool
  | t :: _ => t.isMark .dot || t.isMark .openBracket
  | [] => false

/-- Whether a `?` in front of `tokens` guards an invocation. It does unless a `:` pairs with it in the same brackets before
they end or a comma or semicolon comes. `questions` counts further conditionals opened on the way, `pending` the marks `:`
that conditionals around the cursor still wait for. -/
def questionGuards (depth questions pending : Nat) : List Token → Bool
  | [] => true
  | t :: rest =>
    match t.kind with
    | .punct mark =>
      if mark.opens then questionGuards (depth + 1) questions pending rest
      else if mark.closes then
        match depth with
        | 0 => true
        | d + 1 => questionGuards d questions pending rest
      else if depth ≠ 0 then questionGuards depth questions pending rest
      else
        match mark with
        | .semicolon | .comma => true
        | .question =>
          questionGuards depth (if guardsLink rest then questions else questions + 1) pending rest
        | .colon =>
          match questions, pending with
          | q + 1, _ => questionGuards depth q pending rest
          | 0, p + 1 => questionGuards depth 0 p rest
          | 0, 0 => false
        | _ => questionGuards depth questions pending rest
    | _ => questionGuards depth questions pending rest

namespace Cursor

/-- Passes a dot or an opening bracket or parenthesis. -/
def accessMark? (c : Cursor) : Option (Parsed AccessStart c) :=
  match c.next? with
  | some p =>
    if p.value.isMark .dot then some ⟨.dot, p.next, p.shorter⟩
    else if p.value.isMark .openBracket then some ⟨.bracket, p.next, p.shorter⟩
    else if p.value.isMark .openParen then some ⟨.paren, p.next, p.shorter⟩
    else none
  | none => none

/-- Passes the beginning of an access, with the `?` that guards it, if one begins here. -/
def accessStart? (c : Cursor) (pending : Nat) : Option (Parsed (AccessStart × Bool) c) :=
  match c.accept? (.punct .question) with
  | none => c.accessMark?.map fun p => ⟨(p.value, false), p.next, p.shorter⟩
  | some q =>
    match q.next.accessMark? with
    | none => none
    | some p =>
      if p.value = .paren ∧ questionGuards 0 0 pending q.next.ahead = false then none
      else some ⟨(p.value, true), p.next, Nat.lt_trans p.shorter q.shorter⟩

/-- Passes an operator between operands, unless it binds more loosely than `least`. -/
def binOp? (c : Cursor) (least : Nat) : Option (Parsed BinOp c) :=
  match c.next? with
  | none => none
  | some p =>
    match p.value.binOp? with
    | none => none
    | some op => if op.precedence < least then none else some ⟨op, p.next, p.shorter⟩

/-- Passes an operator in front of an operand. -/
def unOp? (c : Cursor) : Option (Parsed UnOp c) :=
  match c.next? with
  | none => none
  | some p => p.value.unOp?.map fun op => ⟨op, p.next, p.shorter⟩

/-- Passes the name behind a dollar sign, which must follow it without a gap. The place runs from the dollar sign on. -/
def dollarName (c : Cursor) (dollar : Token) : Read (MemberName × Span) c :=
  match c.next? with
  | none => .error ⟨.noDollarName none, some dollar.span⟩
  | some p =>
    let span := dollar.span.join p.value.span
    if p.value.kind ≠ .name then .error ⟨.noDollarName (some p.value.lexeme), some p.value.span⟩
    else if p.value.span.start ≠ dollar.span.stop then .error ⟨.detachedDollar, some span⟩
    else .ok ⟨(.keyed p.value.lexeme, span), p.next, p.shorter⟩

/-- Passes the member name behind a dot. -/
def memberName (c : Cursor) (guarded : Bool) : Read (MemberName × Span) c :=
  match c.accept? (.punct .dollar) with
  | some d => do
    let p ← d.next.dollarName d.value
    .ok ⟨p.value, p.next, Nat.lt_trans p.shorter d.shorter⟩
  | none => do
    let p ← c.nameAt (if guarded then .behindGuardedDot else .behindDot)
    .ok ⟨(.plain p.value.lexeme, p.value.span), p.next, p.shorter⟩

/-- Passes the name that an entry of an initializer begins with. -/
def entryName (c : Cursor) : Read (MemberName × Span) c :=
  match c.accept? (.punct .dollar) with
  | some d => do
    let p ← d.next.dollarName d.value
    .ok ⟨p.value, p.next, Nat.lt_trans p.shorter d.shorter⟩
  | none => do
    let p ← c.nameAt .initializer
    .ok ⟨(.plain p.value.lexeme, p.value.span), p.next, p.shorter⟩

/-- Passes a parameter of a lambda: a name with a type in front of it, or a name alone. -/
def lambdaParam (c : Cursor) : Read LambdaParam c :=
  let plain : Read LambdaParam c := do
    let p ← c.nameAt .lambdaParam
    .ok ⟨⟨none, p.value.lexeme, p.value.span⟩, p.next, p.shorter⟩
  match c.type? with
  | none => plain
  | some t =>
    match t.next.accept? .name with
    | some p => .ok ⟨⟨some t.value, p.value.lexeme, p.value.span⟩, p.next, Nat.lt_trans p.shorter t.shorter⟩
    | none => plain

/-- Passes parameters of a lambda with commas between them. -/
def lambdaParamList (c : Cursor) : Read (List LambdaParam) c := do
  let p ← c.lambdaParam
  match p.next.accept? (.punct .comma) with
  | none => .ok ⟨[p.value], p.next, p.shorter⟩
  | some comma =>
    have h : comma.next.ahead.length < c.ahead.length := Nat.lt_trans comma.shorter p.shorter
    let ps ← lambdaParamList comma.next
    .ok ⟨p.value :: ps.value, ps.next, Nat.lt_trans ps.shorter h⟩
termination_by c.ahead.length

/-- Passes the parameters of a lambda behind the opening parenthesis, and the closing one. -/
def lambdaParams (c : Cursor) : Read (List LambdaParam) c :=
  match c.accept? (.punct .closeParen) with
  | some p => .ok ⟨[], p.next, p.shorter⟩
  | none => do
    let ps ← c.lambdaParamList
    let p ← ps.next.close .lambdaParams
    .ok ⟨ps.value, p.next, Nat.lt_trans p.shorter ps.shorter⟩

/-- Passes the arrow of a lambda, behind which no block may stand. -/
def lambdaArrow (c : Cursor) : Read Token c :=
  match c.accept? (.sign .arrow) with
  | none => c.fail .noLambdaArrow
  | some p => if p.next.sees (.punct .openBrace) then p.next.fail .blockLambda else .ok p

end Cursor

/-- Something read from the cursor `c` on that may be empty, and the cursor behind it. -/
structure ParsedMany (α : Type) (c : Cursor) where
  value : α
  next : Cursor
  le : next.ahead.length ≤ c.ahead.length

/-- The empty piece at a cursor. -/
def ParsedMany.nothing {α : Type} {c : Cursor} (value : α) : ParsedMany α c :=
  ⟨value, c, Nat.le_refl _⟩

namespace Expr

mutual

/-- An assignment, or a conditional without one; assignments group to the right. -/
def readAssign (pending : Nat) (c : Cursor) : Read Expr c := do
  let left ← readConditional pending c
  match left.next.accept? (.sign .assign) with
  | none => .ok left
  | some sign =>
    have h := Nat.lt_trans sign.shorter left.shorter
    let right ← readAssign pending sign.next
    .ok ⟨.assign left.value right.value (c.spanTo right.next), right.next, Nat.lt_trans right.shorter h⟩
termination_by 11 * c.ahead.length + 6

/-- A conditional, or a binary expression without one. -/
def readConditional (pending : Nat) (c : Cursor) : Read Expr c := do
  let condition ← readBinary pending 0 c
  match condition.next.accept? (.punct .question) with
  | none => .ok condition
  | some question =>
    have h₁ := Nat.lt_trans question.shorter condition.shorter
    let thenBranch ← readAssign (pending + 1) question.next
    have h₂ := Nat.lt_trans thenBranch.shorter h₁
    match thenBranch.next.accept? (.punct .colon) with
    | none => thenBranch.next.fail .noColon
    | some colon =>
      have h₃ := Nat.lt_trans colon.shorter h₂
      let elseBranch ← readAssign pending colon.next
      .ok ⟨.conditional condition.value thenBranch.value elseBranch.value (c.spanTo elseBranch.next), elseBranch.next,
        Nat.lt_trans elseBranch.shorter h₃⟩
termination_by 11 * c.ahead.length + 5

/-- Operands with operators between them that bind at least as tightly as `least`. -/
def readBinary (pending least : Nat) (c : Cursor) : Read Expr c := do
  let left ← readUnary pending c
  have h := left.shorter
  let whole ← readBinaryRest pending least c left.value left.next
  .ok ⟨whole.value, whole.next, Nat.lt_of_le_of_lt whole.le h⟩
termination_by 11 * c.ahead.length + 4

/-- The operators and operands behind a left operand that begins at `start`. -/
def readBinaryRest (pending least : Nat) (start : Cursor) (left : Expr) (c : Cursor) :
    Except ExprError (ParsedMany Expr c) :=
  match c.binOp? least with
  | none => .ok (.nothing left)
  | some op => do
    have ho := op.shorter
    let right ← readBinary pending (if op.value.groupsRight then op.value.precedence else op.value.precedence + 1) op.next
    have h := Nat.lt_trans right.shorter ho
    let whole ← readBinaryRest pending least start (.binary op.value left right.value (start.spanTo right.next)) right.next
    .ok ⟨whole.value, whole.next, Nat.le_of_lt (Nat.lt_of_le_of_lt whole.le h)⟩
termination_by 11 * c.ahead.length + 4

/-- An operand with its unary operators. -/
def readUnary (pending : Nat) (c : Cursor) : Read Expr c :=
  match c.unOp? with
  | some op => do
    have h := op.shorter
    let operand ← readUnary pending op.next
    .ok ⟨.unary op.value operand.value (c.spanTo operand.next), operand.next, Nat.lt_trans operand.shorter h⟩
  | none => do
    let base ← readPrimary pending c
    have h := base.shorter
    let whole ← readAccesses pending c base.value base.next
    .ok ⟨whole.value, whole.next, Nat.lt_of_le_of_lt whole.le h⟩
termination_by 11 * c.ahead.length + 3

/-- The accesses behind a base that begins at `start`. -/
def readAccesses (pending : Nat) (start : Cursor) (base : Expr) (c : Cursor) :
    Except ExprError (ParsedMany Expr c) :=
  match c.accessStart? pending with
  | none => .ok (.nothing base)
  | some a => do
    have ha := a.shorter
    let link ← readLink a.value.1 a.value.2 a.next
    have h := Nat.lt_trans link.shorter ha
    let whole ← readAccesses pending start (.access base link.value a.value.2 (start.spanTo link.next)) link.next
    .ok ⟨whole.value, whole.next, Nat.le_of_lt (Nat.lt_of_le_of_lt whole.le h)⟩
termination_by 11 * c.ahead.length + 3

/-- The link behind its opening mark. -/
def readLink (start : AccessStart) (guarded : Bool) (c : Cursor) : Read Link c :=
  match start with
  | .dot => do
    let name ← c.memberName guarded
    .ok ⟨.member name.value.1 name.value.2, name.next, name.shorter⟩
  | .bracket =>
    if c.sees (.punct .closeBracket) then c.fail .noIndex
    else do
      let indices ← readBracketed .indices c
      .ok ⟨.element indices.value, indices.next, indices.shorter⟩
  | .paren => do
    let args ← readArgs c
    .ok ⟨.invoke args.value, args.next, args.shorter⟩
termination_by 11 * c.ahead.length + 10

/-- Expressions with commas between them. No conditional outside the brackets can claim a `:` inside. -/
def readList (c : Cursor) : Read (List Expr) c := do
  let e ← readAssign 0 c
  match e.next.accept? (.punct .comma) with
  | none => .ok ⟨[e.value], e.next, e.shorter⟩
  | some comma =>
    have h := Nat.lt_trans comma.shorter e.shorter
    let es ← readList comma.next
    .ok ⟨e.value :: es.value, es.next, Nat.lt_trans es.shorter h⟩
termination_by 11 * c.ahead.length + 7

/-- Expressions with commas between them, and the mark that closes their bracket. -/
def readBracketed (place : ClosePlace) (c : Cursor) : Read (List Expr) c := do
  let es ← readList c
  let p ← es.next.close place
  .ok ⟨es.value, p.next, Nat.lt_trans p.shorter es.shorter⟩
termination_by 11 * c.ahead.length + 8

/-- Arguments behind the opening parenthesis, perhaps none, and the closing one. -/
def readArgs (c : Cursor) : Read (List Expr) c :=
  match c.accept? (.punct .closeParen) with
  | some p => .ok ⟨[], p.next, p.shorter⟩
  | none => readBracketed .args c
termination_by 11 * c.ahead.length + 9

/-- A primary expression. -/
def readPrimary (pending : Nat) (c : Cursor) : Read Expr c :=
  match c.next? with
  | none => c.fail (.noExpression none)
  | some p =>
    have hp := p.shorter
    let token := p.value
    let leaf (e : Expr) : Read Expr c := .ok ⟨e, p.next, p.shorter⟩
    match token.kind with
    | .name =>
      if p.next.sees (.sign .arrow) then
        readLambdaBody pending c [⟨none, token.lexeme, token.span⟩] p.next p.shorter
      else leaf (.name token.lexeme token.span)
    | .number value => leaf (.literal (.int value) token.span)
    | .string value => leaf (.literal (.str value) token.span)
    | .keyword .trueKw => leaf (.literal (.bool true) token.span)
    | .keyword .falseKw => leaf (.literal (.bool false) token.span)
    | .keyword .nullKw => leaf (.literal .null token.span)
    | .keyword .thisKw => leaf (.self token.span)
    | .keyword .newKw => do
      let e ← readCreation c p.next
      .ok ⟨e.value, e.next, Nat.lt_trans e.shorter hp⟩
    | .punct .openParen =>
      if c.opensLambda then do
        let params ← p.next.lambdaParams
        readLambdaBody pending c params.value params.next (Nat.lt_trans params.shorter hp)
      else do
        let inner ← readAssign 0 p.next
        let close ← inner.next.close .paren
        .ok ⟨.paren inner.value (c.spanTo close.next), close.next,
          Nat.lt_trans close.shorter (Nat.lt_trans inner.shorter hp)⟩
    | .punct .dollar => .error ⟨.looseDollar, some token.span⟩
    | _ => c.fail (.noExpression (some token.lexeme))
termination_by 11 * c.ahead.length + 2

/-- The arrow and the body of a lambda that begins at `start`. -/
def readLambdaBody (pending : Nat) (start : Cursor) (params : List LambdaParam) (c : Cursor)
    (h : c.ahead.length < start.ahead.length) : Read Expr start := do
  let arrow ← c.lambdaArrow
  have ha := Nat.lt_trans arrow.shorter h
  let body ← readAssign pending arrow.next
  .ok ⟨.lambda params body.value (start.spanTo body.next), body.next, Nat.lt_trans body.shorter ha⟩
termination_by 11 * start.ahead.length + 1

/-- The creation of an object, which begins at `start`, behind its keyword: a type, and arguments or an initializer or both. -/
def readCreation (start c : Cursor) : Read Expr c :=
  match c.type? with
  | none => c.fail .noCreatedType
  | some type =>
    have ht := type.shorter
    match type.next.accept? (.punct .openParen) with
    | some opening => do
      have h₁ := Nat.lt_trans opening.shorter ht
      let args ← readArgs opening.next
      have h₂ := Nat.lt_trans args.shorter h₁
      match args.next.accept? (.punct .openBrace) with
      | some brace =>
        have h₃ := Nat.lt_trans brace.shorter h₂
        let entries ← readEntries brace.next
        .ok ⟨.create type.value args.value entries.value (start.spanTo entries.next), entries.next,
          Nat.lt_trans entries.shorter h₃⟩
      | none => .ok ⟨.create type.value args.value [] (start.spanTo args.next), args.next, h₂⟩
    | none =>
      match type.next.accept? (.punct .openBrace) with
      | some brace => do
        have h₁ := Nat.lt_trans brace.shorter ht
        let entries ← readEntries brace.next
        .ok ⟨.create type.value [] entries.value (start.spanTo entries.next), entries.next,
          Nat.lt_trans entries.shorter h₁⟩
      | none => type.next.fail (.noCreationBody type.value)
termination_by 11 * c.ahead.length + 2

/-- The entries of an object initializer behind the opening brace, and the closing one. A comma may stand behind the last. -/
def readEntries (c : Cursor) : Read (List Entry) c :=
  match c.accept? (.punct .closeBrace) with
  | some p => .ok ⟨[], p.next, p.shorter⟩
  | none => do
    let entry ← readEntry c
    match entry.next.accept? (.punct .comma) with
    | some comma =>
      have h := Nat.lt_trans comma.shorter entry.shorter
      let entries ← readEntries comma.next
      .ok ⟨entry.value :: entries.value, entries.next, Nat.lt_trans entries.shorter h⟩
    | none =>
      let p ← entry.next.close .initializer
      .ok ⟨[entry.value], p.next, Nat.lt_trans p.shorter entry.shorter⟩
termination_by 11 * c.ahead.length + 9

/-- An entry of an object initializer. -/
def readEntry (c : Cursor) : Read Entry c :=
  match c.accept? (.punct .openBracket) with
  | some bracket => do
    have hb := bracket.shorter
    if bracket.next.sees (.punct .closeBracket) then bracket.next.fail .noIndex
    else
      let indices ← readBracketed .indices bracket.next
      have h := Nat.lt_trans indices.shorter hb
      let value ← readEntryValue indices.next
      .ok ⟨.element indices.value (c.spanTo indices.next) value.value, value.next, Nat.lt_trans value.shorter h⟩
  | none => do
    let name ← c.entryName
    have h := name.shorter
    let value ← readEntryValue name.next
    .ok ⟨.member name.value.1 name.value.2 value.value, value.next, Nat.lt_trans value.shorter h⟩
termination_by 11 * c.ahead.length + 8

/-- The sign `=` and the value of an entry. -/
def readEntryValue (c : Cursor) : Read Expr c :=
  match c.accept? (.sign .assign) with
  | none => c.fail .noEntryAssign
  | some sign => do
    have h := sign.shorter
    let value ← readAssign 0 sign.next
    .ok ⟨value.value, value.next, Nat.lt_trans value.shorter h⟩
termination_by 11 * c.ahead.length + 7

end

/-- Reads one expression from the token of an index on; gives it with the index behind it. -/
def readAt (tokens : List Token) (index : Nat) : Except ExprError (Expr × Nat) := do
  let e ← readAssign 0 (Cursor.ofIndex tokens index)
  .ok (e.value, tokens.length - e.next.remaining)

/-- Reads a text that is one expression. A malformed token is reported before anything else. -/
def parse (source : String) : Except ExprError Expr := do
  let pieces := Lexer.tokensFrom none 0 source.toList
  match pieces.find? (·.2.isSome) with
  | some (token, some fault) => .error ⟨.lexical fault, some token.span⟩
  | _ =>
    let e ← readAssign 0 (Cursor.start (lex source none).significant)
    match e.next.peek? with
    | some token => .error ⟨.trailing token.lexeme, some token.span⟩
    | none => .ok e.value

end Expr

end NavCheck
