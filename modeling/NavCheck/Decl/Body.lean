import NavCheck.Decl.Reading
import NavCheck.Decl.Statement

/-!
# Reading statements

Statements nest, so they are read by recursion on the tokens ahead: a statement inside another begins behind the token that
opened the outer one. A statement that cannot be read is left out; its faults are noted and reading goes on behind it.
-/

namespace NavCheck

/-- Whether a declaration of a local with a written type is ahead: a type, a name, and then `=` or `;`. -/
def localAhead (tokens : List Token) : Bool :=
  match TypeExpr.scan? tokens with
  | none => false
  | some scan =>
    match scan.rest with
    | ⟨.name, _, _⟩ :: t :: _ => t.isMark .semicolon || t.isSign .assign
    | _ => false

namespace Reading

/-- Passes the semicolon of a statement; without one the rest of the statement is passed over. -/
def endStatement : Reading Unit := do
  if !(← expect .semicolon) then skipBy Recovery.statement

/-- Passes a `return` statement behind its keyword. -/
def returnRest (start : Cursor) : Reading (Option Statement) := do
  let value ← do
    if ← sees (.punct .semicolon) then pure none
    else
      let some value ← expr | return none
      pure (some value)
  endStatement
  return some (.give value (start.spanTo (← cursor)))

/-- Passes the declaration of a local behind its type. -/
def localRest (start : Cursor) (type : Option TypeExpr) : Reading (Option Statement) := do
  let some name ← expectName .local |
    skipBy Recovery.statement
    return none
  let init ← do
    if ← accept (.sign .assign) then
      let some value ← expr | return none
      pure (some value)
    else pure none
  if type.isNone && init.isNone then report (.untypedLocal name.lexeme) (some name.span)
  endStatement
  return some (.local type name.lexeme name.span init (start.spanTo (← cursor)))

/-- Passes the condition of an `if` statement in its parentheses. -/
def condition : Reading (Option Expr) := do
  if !(← expect .openParen) then
    skipBy Recovery.statement
    return none
  let some value ← expr | return none
  if !(← expect .closeParen) then
    skipBy Recovery.statement
    return none
  return some value

/-- Passes a statement that has no statement inside. -/
def simpleStatement : Reading (Option Statement) := do
  let start ← cursor
  if ← accept (.keyword .returnKw) then returnRest start
  else if ← accept (.keyword .varKw) then localRest start none
  else if localAhead start.ahead then
    let some type ← expectType .local | return none
    localRest start (some type)
  else
    let some value ← expr | return none
    endStatement
    return some (.expr value)

mutual

/-- A statement from the place of the reader on. -/
def statementFrom (r : Reader) : Step (Option Statement) r :=
  match r.cursor.accept? (.punct .openBrace) with
  | some brace =>
    have h₁ : Reader.remaining { r with cursor := brace.next } < r.remaining := brace.shorter
    let inside := statementsFrom { r with cursor := brace.next }
    let close := (expect .closeBrace).step inside.next
    ⟨some (.block inside.value (r.cursor.spanTo close.next.cursor)), close.next,
      Nat.le_of_lt (Nat.lt_of_le_of_lt (Nat.le_trans close.le inside.le) h₁)⟩
  | none =>
    match r.cursor.accept? (.keyword .ifKw) with
    | some word =>
      have h₁ : Reader.remaining { r with cursor := word.next } < r.remaining := word.shorter
      let head := condition.step { r with cursor := word.next }
      have h₂ : head.next.remaining < r.remaining := Nat.lt_of_le_of_lt head.le h₁
      match head.value with
      | none => ⟨none, head.next, Nat.le_of_lt h₂⟩
      | some test =>
        let thenBranch := statementFrom head.next
        have h₃ : thenBranch.next.remaining < r.remaining := Nat.lt_of_le_of_lt thenBranch.le h₂
        match thenBranch.value with
        | none => ⟨none, thenBranch.next, Nat.le_of_lt h₃⟩
        | some first =>
          let otherwise := (accept (.keyword .elseKw)).step thenBranch.next
          have h₄ : otherwise.next.remaining < r.remaining := Nat.lt_of_le_of_lt otherwise.le h₃
          if otherwise.value then
            let elseBranch := statementFrom otherwise.next
            ⟨elseBranch.value.map fun second =>
                .branch test first (some second) (r.cursor.spanTo elseBranch.next.cursor),
              elseBranch.next, Nat.le_of_lt (Nat.lt_of_le_of_lt elseBranch.le h₄)⟩
          else
            ⟨some (.branch test first none (r.cursor.spanTo otherwise.next.cursor)), otherwise.next, Nat.le_of_lt h₄⟩
    | none => simpleStatement.step r
termination_by 2 * r.remaining + 0

/-- The statements up to a closing brace or the end. A statement that passes nothing costs one token. -/
def statementsFrom (r : Reader) : Step (List Statement) r :=
  if ends : r.remaining = 0 ∨ r.cursor.sees (.punct .closeBrace) then ⟨[], r, Nat.le_refl _⟩
  else
    let first := statementFrom r
    if first.next.remaining < r.remaining then
      let rest := statementsFrom first.next
      ⟨first.value.toList ++ rest.value, rest.next, Nat.le_trans rest.le first.le⟩
    else
      let forced := (skip 1).step first.next
      have h : forced.next.remaining < r.remaining := by
        have := first.le
        simp only [forced, step, skip, Reader.remaining, List.length_drop] at *
        omega
      let rest := statementsFrom forced.next
      ⟨first.value.toList ++ rest.value, rest.next, Nat.le_of_lt (Nat.lt_of_le_of_lt rest.le h)⟩
termination_by 2 * r.remaining + 1

end

/-- Passes statements up to a closing brace or the end. -/
def statements : Reading (List Statement) :=
  ofStep statementsFrom

/-- Passes statements between braces, behind the opening one. -/
def blockRest (start : Cursor) : Reading Block := do
  let list ← statements
  let _ ← expect .closeBrace
  return ⟨list, start.spanTo (← cursor)⟩

/-- Passes an expression and a semicolon. -/
def exprAndEnd : Reading (Option Expr) := do
  let some value ← expr | return none
  if ← expect .semicolon then return some value
  return none

/-- Passes a body: an arrow and an expression, or a block. -/
def body : Reading (Option Body) := do
  let start ← cursor
  if ← accept (.sign .arrow) then return (← exprAndEnd).map .expr
  if ← accept (.punct .openBrace) then return some (.block (← blockRest start))
  reportHere .noBody
  return none

end Reading

end NavCheck
