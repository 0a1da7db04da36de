import NavCheck.Decl.Fault
import NavCheck.Diagnostic.Sink
import NavCheck.Expr.Parser

/-!
# Reading with recovery

Declarations are read by actions on a `Reader`: the cursor, the findings so far, and the tokens that recovery passed over
without reading them. An action never fails and never moves the cursor back; the second is part of its type, and loops end
because every round but the last passes a token.
-/

namespace NavCheck

/-- The state of reading: the place, the findings, and the tokens passed over by recovery in order. -/
structure Reader where
  cursor : Cursor
  sink : Sink
  skipped : List Token

/-- The number of tokens ahead. -/
def Reader.remaining (r : Reader) : Nat :=
  r.cursor.ahead.length

/-- The outcome of an action at the state `r`. -/
structure Step (α : Type) (r : Reader) where
  value : α
  next : Reader
  le : next.remaining ≤ r.remaining

/-- An action. -/
structure Reading (α : Type) where
  run : Reader → α × Reader
  forward : ∀ r, (run r).2.remaining ≤ r.remaining

namespace Reading

/-- The outcome of an action with its proof. -/
def step {α : Type} (a : Reading α) (r : Reader) : Step α r :=
  ⟨(a.run r).1, (a.run r).2, a.forward r⟩

/-- The action that an outcome for every state makes. -/
def ofStep {α : Type} (f : (r : Reader) → Step α r) : Reading α :=
  ⟨fun r => ((f r).value, (f r).next), fun r => (f r).le⟩

instance : Monad Reading where
  pure a := ⟨fun r => (a, r), fun _ => Nat.le_refl _⟩
  bind a f := ofStep fun r =>
    let first := a.step r
    let second := (f first.value).step first.next
    ⟨second.value, second.next, Nat.le_trans second.le first.le⟩

/-- The place of the cursor. -/
def cursor : Reading Cursor :=
  ⟨fun r => (r.cursor, r), fun _ => Nat.le_refl _⟩

/-- Notes a fault. -/
def report (fault : DeclFault) (span : Option Span) : Reading Unit :=
  ⟨fun r => ((), { r with sink := r.sink.pushError fault.message span }), fun _ => Nat.le_refl _⟩

/-- Notes a fault at the next token, or at the last one behind all tokens. -/
def reportHere (fault : DeclFault) : Reading Unit := do
  report fault (← cursor).hereSpan?

/-- The lexeme of the next token. -/
def found? : Reading (Option String) := do
  return (← cursor).peek?.map (·.lexeme)

/-- Passes what was read from the cursor on. -/
def pass {α : Type} (read : (c : Cursor) → Option (Parsed α c)) : Reading (Option α) :=
  ofStep fun r =>
    match read r.cursor with
    | some p => ⟨some p.value, { r with cursor := p.next }, Nat.le_of_lt p.shorter⟩
    | none => ⟨none, r, Nat.le_refl _⟩

/-- Passes the next token if it is of a kind. -/
def accept? (kind : TokenKind) : Reading (Option Token) :=
  pass (·.accept? kind)

/-- Passes the next token if it is of a kind, and tells whether it was. -/
def accept (kind : TokenKind) : Reading Bool := do
  return (← accept? kind).isSome

/-- Whether the next token is of a kind. -/
def sees (kind : TokenKind) : Reading Bool := do
  return (← cursor).sees kind

/-- Passes a mark; another token in its place is a fault and stays. -/
def expect (mark : Punct) : Reading Bool := do
  if ← accept (.punct mark) then return true
  reportHere (.noMark mark (← found?))
  return false

/-- Passes a name; another token in its place is a fault and stays. -/
def expectName (what : DeclName) : Reading (Option Token) := do
  if let some token ← accept? .name then return some token
  reportHere (.noName what (← found?))
  return none

/-- Passes a type; another token in its place is a fault and stays. -/
def expectType (place : TypePlace) : Reading (Option TypeExpr) := do
  if let some type ← pass Cursor.type? then return some type
  reportHere (.noType place (← found?))
  return none

/-- Passes over `count` tokens without reading them. -/
def skip (count : Nat) : Reading Unit :=
  ⟨fun r =>
    let tokens := r.cursor.ahead.take count
    ((), { r with
      cursor := ⟨tokens.reverse ++ r.cursor.passed, r.cursor.ahead.drop count⟩
      skipped := r.skipped ++ tokens }),
    fun r => by simp only [Reader.remaining, List.length_drop]; omega⟩

/-- Passes over as many of the tokens ahead as a rule says. -/
def skipBy (rule : List Token → Nat) : Reading Unit := do
  skip (rule (← cursor).ahead)

/-- Repeats a round as long as it asks for another and has passed a token. -/
def iterateFrom {σ : Type} (round : σ → Reading (σ × Bool)) (s : σ) (r : Reader) : Step σ r :=
  let first := (round s).step r
  if first.value.2 = true ∧ first.next.remaining < r.remaining then
    let rest := iterateFrom round first.value.1 first.next
    ⟨rest.value, rest.next, Nat.le_trans rest.le first.le⟩
  else ⟨first.value.1, first.next, first.le⟩
termination_by r.remaining
decreasing_by exact ‹_ ∧ _›.2

/-- Repeats a round as long as it asks for another and has passed a token. -/
def iterate {σ : Type} (round : σ → Reading (σ × Bool)) (s : σ) : Reading σ :=
  ofStep (iterateFrom round s)

/-- Reads items as long as tokens are ahead that do not end the row. An item that passes nothing costs one token, so that
the reading gets on. -/
def many {α : Type} (ends : Token → Bool) (item : Reading (Option α)) : Reading (List α) :=
  iterate (fun items => do
    let before ← cursor
    match before.peek? with
    | none => return (items, false)
    | some token =>
      if ends token then return (items, false)
      let read ← item
      if (← cursor).remaining = before.remaining then skip 1
      return (items ++ read.toList, true)) []

end Reading

/-! ## Recovery -/

namespace Recovery

/-- How many tokens stand before the end of an expression: a comma, a semicolon or a closing bracket outside all brackets
that were opened on the way. -/
def expression (depth : Nat) : List Token → Nat
  | [] => 0
  | t :: rest =>
    match t.kind with
    | .punct mark =>
      if mark.opens then expression (depth + 1) rest + 1
      else if mark.closes then
        match depth with
        | 0 => 0
        | d + 1 => expression d rest + 1
      else if depth = 0 ∧ (mark = .semicolon ∨ mark = .comma) then 0
      else expression depth rest + 1
    | _ => expression depth rest + 1

/-- How many tokens a member still has: up to and with a semicolon or a complete block, but not the brace that closes the
type. -/
def member (depth : Nat) : List Token → Nat
  | [] => 0
  | t :: rest =>
    match t.kind with
    | .punct .openBrace => member (depth + 1) rest + 1
    | .punct .closeBrace =>
      match depth with
      | 0 => 0
      | 1 => 1
      | d + 2 => member (d + 1) rest + 1
    | .punct .semicolon => if depth = 0 then 1 else member depth rest + 1
    | _ => member depth rest + 1

/-- Can a type declaration begin with this token? -/
def startsType (t : Token) : Bool :=
  match t.kind with
  | .keyword .classKw | .keyword .structKw => true
  | .keyword word => word.isModifier
  | _ => false

/-- How many tokens stand before the next type declaration. -/
def type (tokens : List Token) : Nat :=
  (tokens.takeWhile (!startsType ·)).length

/-- How many tokens a statement still has: the rest of its expression and a semicolon behind it. -/
def statement (tokens : List Token) : Nat :=
  let count := expression 0 tokens
  match tokens.drop count with
  | t :: _ => if t.isMark .semicolon then count + 1 else count
  | [] => count

end Recovery

namespace Reading

/-- Passes an expression, or gives the reason why there is none. -/
def expr? : Reading (Except ExprError Expr) :=
  ofStep fun r =>
    match Expr.readAssign 0 r.cursor with
    | .ok p => ⟨.ok p.value, { r with cursor := p.next }, Nat.le_of_lt p.shorter⟩
    | .error e => ⟨.error e, r, Nat.le_refl _⟩

/-- Passes an expression. When there is none the fault is noted and the rest of the expression is passed over. -/
def expr : Reading (Option Expr) := do
  match ← expr? with
  | .ok e => return some e
  | .error e =>
    report (.expr e.fault) e.span
    skipBy (Recovery.expression 0)
    return none

end Reading

end NavCheck
