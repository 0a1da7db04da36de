import NavCheck.Decl.Basic
import NavCheck.Decl.Reading

/-!
# Reading the parts of a header

Modifiers and attributes, generic parameters with their constraints, primary constructor parameters, and the base.
-/

namespace NavCheck

/-- Names that are modifiers where another name or a keyword follows. -/
def contextualModifiers : List String :=
  ["abstract", "virtual", "override", "sealed", "extern", "volatile", "required"]

/-- Whether the first token of a sequence is a modifier. -/
def modifierAhead : List Token → Bool
  | [] => false
  | t :: rest =>
    match t.kind with
    | .keyword word => word.isModifier
    | .name =>
      contextualModifiers.contains t.lexeme &&
        match rest with
        | ⟨.name, _, _⟩ :: _ => true
        | ⟨.keyword _, _, _⟩ :: _ => true
        | _ => false
    | _ => false

namespace Reading

/-- Passes a modifier. -/
def modifier? : Reading (Option Modifier) := do
  if !modifierAhead (← cursor).ahead then return none
  return (← pass (·.next?)).map fun token => ⟨token.lexeme, token.span⟩

/-- Passes all modifiers ahead. Which of them go together is decided elsewhere. -/
def modifiers : Reading (List Modifier) :=
  iterate (fun list => do
    match ← modifier? with
    | some m => return (list ++ [m], true)
    | none => return (list, false)) []

/-- Passes the target of an attribute list: a name with a colon. -/
def attributeTarget? : Reading (Option String) := do
  match (← cursor).ahead with
  | ⟨.name, lexeme, _⟩ :: ⟨.punct .colon, _, _⟩ :: _ =>
    let _ ← accept .name
    let _ ← accept (.punct .colon)
    return some lexeme
  | _ => return none

/-- Passes names with commas between them, each an attribute with the same target. -/
def attributeNames (target : Option String) : Reading (List Attribute) :=
  iterate (fun list => do
    match ← expectName .attribute with
    | some name => return (list ++ [⟨target, name.lexeme, name.span⟩], ← accept (.punct .comma))
    | none => return (list, false)) []

/-- Passes an attribute list behind its opening bracket. -/
def attributeList : Reading (List Attribute) := do
  let target ← attributeTarget?
  let names ← attributeNames target
  if !(← expect .closeBracket) then
    skipBy (Recovery.expression 0)
    let _ ← accept (.punct .closeBracket)
  return names

/-- Passes all attribute lists ahead. -/
def attributes : Reading (List Attribute) :=
  iterate (fun list => do
    if ← accept (.punct .openBracket) then return (list ++ (← attributeList), true)
    return (list, false)) []

/-- Passes the generic parameters of a type, if there are any. -/
def generics : Reading (List GenericParam) := do
  if !(← accept (.sign .less)) then return []
  let list ← iterate (fun list => do
    match ← expectName .generic with
    | none => return (list, false)
    | some name =>
      if list.any (·.name == name.lexeme) then report (.duplicateGeneric name.lexeme) (some name.span)
      return (list ++ [({ name := name.lexeme, span := name.span, constraint := none } : GenericParam)],
        ← accept (.punct .comma))) []
  if !(← accept (.sign .greater)) then reportHere .unclosedGenerics
  return list

/-- Passes a default value, if there is one. -/
def default? : Reading (Option Expr) := do
  if ← accept (.sign .assign) then expr else return none

/-- Passes a primary constructor parameter. -/
def primaryParam : Reading (Option PrimaryParam) := do
  let start ← cursor
  let attributes ← attributes
  let modifiers ← modifiers
  let some type ← expectType .primaryParam | return none
  let some name ← expectName .param | return none
  let default ← default?
  return some { attributes, modifiers, type, name := name.lexeme, nameSpan := name.span, default,
                span := start.spanTo (← cursor) }

/-- Passes the primary constructor parameters of a type, if the parenthesis of a list is ahead. -/
def primary? : Reading (Option (List PrimaryParam)) := do
  if !(← accept (.punct .openParen)) then return none
  if ← accept (.punct .closeParen) then return some []
  let list ← iterate (fun list => do
    let list ← do
      match ← primaryParam with
      | some param =>
        if list.any (·.name == param.name) then report (.duplicateParam param.name) (some param.nameSpan)
        pure (list ++ [param])
      | none =>
        skipBy (Recovery.expression 0)
        pure list
    return (list, ← accept (.punct .comma))) ([] : List PrimaryParam)
  let _ ← expect .closeParen
  return some list

/-- Passes arguments behind their opening parenthesis, and the closing one. An argument that cannot be read is left out. -/
def arguments : Reading (List Expr) := do
  if ← accept (.punct .closeParen) then return []
  let list ← iterate (fun list => do
    let arg ← expr
    return (list ++ arg.toList, ← accept (.punct .comma))) []
  let _ ← expect .closeParen
  return list

/-- Passes the base of a type behind the colon. -/
def baseSpec : Reading (Option BaseSpec) := do
  let start ← cursor
  let some type ← expectType .base | return none
  let args ← do
    if ← accept (.punct .openParen) then some <$> arguments else pure none
  return some { type, args, span := start.spanTo (← cursor) }

/-- Passes the base of a type, if a colon is ahead. -/
def base? : Reading (Option BaseSpec) := do
  if ← accept (.punct .colon) then baseSpec else return none

/-- Passes what is asked of a generic parameter. -/
def constraint : Reading (Option GenericConstraint) := do
  if ← accept (.keyword .classKw) then return some .classOnly
  if ← accept (.keyword .structKw) then return some .structOnly
  return (← expectType .constraint).map .type

end Reading

/-- Gives a constraint to the first parameter of a name. -/
def constrain (name : String) (constraint : Option GenericConstraint) : List GenericParam → List GenericParam
  | [] => []
  | p :: ps => if p.name = name then { p with constraint } :: ps else p :: constrain name constraint ps

namespace Reading

/-- Passes a constraint clause behind its keyword, and gives the parameters with what it asks. -/
def whereClause (generics : List GenericParam) : Reading (List GenericParam) := do
  let some name ← expectName .constrained | return generics
  if !(← expect .colon) then return generics
  let constraint ← constraint
  match generics.find? (·.name == name.lexeme) with
  | some param =>
    if param.constraint.isSome then
      report (.constrainedTwice name.lexeme) (some name.span)
      return generics
    return constrain name.lexeme constraint generics
  | none =>
    report (.unknownGeneric name.lexeme) (some name.span)
    return generics

/-- Passes all constraint clauses ahead. -/
def whereClauses (generics : List GenericParam) : Reading (List GenericParam) :=
  iterate (fun generics => do
    if ← accept (.keyword .whereKw) then return (← whereClause generics, true)
    return (generics, false)) generics

end Reading

end NavCheck
