import NavCheck.Decl.Body
import NavCheck.Decl.Header

/-!
# Reading declarations

Members, types, and a whole source text. Reading goes on behind every fault, so that one run finds them all; a text with any
fault gives no unit.
-/

namespace NavCheck

/-- What is read before the name of a member: the place where the member begins, its attributes, modifiers and type. -/
structure MemberHead where
  start : Cursor
  attributes : List Attribute
  modifiers : List Modifier
  type : TypeExpr

namespace Reading

/-- The span from a place to the last token passed. -/
def spanFrom (start : Cursor) : Reading Span := do
  return start.spanTo (← cursor)

/-- Passes a parameter of a method or an indexer. -/
def param (earlier : List Param) : Reading (Option Param) := do
  let start ← cursor
  let some type ← expectType .param | return none
  let some name ← expectName .param | return none
  if earlier.any (·.name == name.lexeme) then report (.duplicateParam name.lexeme) (some name.span)
  let default ← default?
  return some { type, name := name.lexeme, nameSpan := name.span, default, span := ← spanFrom start }

/-- Passes parameters with commas between them; `none` when one cannot be read. -/
def paramList : Reading (Option (List Param)) := do
  let (list, complete) ← iterate (fun (list, _) => do
    match ← param list with
    | some p => return ((list ++ [p], true), ← accept (.punct .comma))
    | none => return ((list, false), false)) (([] : List Param), true)
  return if complete then some list else none

/-- Passes parameters behind their opening mark, and the closing one. -/
def params (close : Punct) : Reading (Option (List Param)) := do
  if ← accept (.punct close) then return some []
  let some list ← paramList | return none
  if ← expect close then return some list
  return none

/-- Passes the word that begins an accessor. -/
def accessorKind : Reading (Option AccessorKind) := do
  if ← accept (.keyword .getKw) then return some .get
  if ← accept (.keyword .setKw) then return some .set
  reportHere (.noAccessor (← found?))
  return none

/-- Passes an accessor; it ends at once with a semicolon, or has a body. -/
def accessor (earlier : List Accessor) : Reading (Option Accessor) := do
  let start ← cursor
  let some kind ← accessorKind | return none
  if earlier.any (·.kind == kind) then report .duplicateAccessor (← spanFrom start)
  if ← accept (.punct .semicolon) then return some { kind, body := none, span := ← spanFrom start }
  let some body ← body | return none
  return some { kind, body := some body, span := ← spanFrom start }

/-- Passes accessors in braces; `none` when one cannot be read. -/
def accessors : Reading (Option (List Accessor)) := do
  if !(← expect .openBrace) then return none
  let (list, complete) ← iterate (fun (list, _) => do
    if ← accept (.punct .closeBrace) then return ((list, true), false)
    match ← accessor list with
    | some a => return ((list ++ [a], false), true)
    | none => return ((list, false), false)) (([] : List Accessor), false)
  return if complete then some list else none

/-- Passes the rest of a field behind its name. -/
def fieldRest (head : MemberHead) (name : Token) : Reading (Option FieldDecl) := do
  let init ← do
    if ← accept (.sign .assign) then
      let some value ← expr | return none
      pure (some value)
    else pure none
  if !(← expect .semicolon) then return none
  return some { attributes := head.attributes, modifiers := head.modifiers, type := head.type, name := name.lexeme,
                nameSpan := name.span, init, origin := .declared, span := ← spanFrom head.start }

/-- Passes the initializer of a property behind its accessors, if there is one. The outer `none` is a fault. -/
def propertyInit : Reading (Option (Option Expr)) := do
  if !(← accept (.sign .assign)) then return some none
  return (← exprAndEnd).map some

/-- Passes the rest of a property behind its name. -/
def propertyRest (head : MemberHead) (name : Token) : Reading (Option PropertyDecl) := do
  let finish (body : PropertyBody) (init : Option Expr) : Reading (Option PropertyDecl) := do
    return some { attributes := head.attributes, modifiers := head.modifiers, type := head.type, name := name.lexeme,
                  nameSpan := name.span, body, init, span := ← spanFrom head.start }
  if ← accept (.sign .arrow) then
    let some value ← exprAndEnd | return none
    finish (.expr value) none
  else
    let some list ← accessors | return none
    let some init ← propertyInit | return none
    finish (.accessors list) init

/-- Passes the rest of a method behind the opening parenthesis. -/
def methodRest (head : MemberHead) (name : Token) : Reading (Option MethodDecl) := do
  let some params ← params .closeParen | return none
  let some body ← body | return none
  return some { attributes := head.attributes, modifiers := head.modifiers, returnType := head.type, name := name.lexeme,
                nameSpan := name.span, params, body, span := ← spanFrom head.start }

/-- Passes the rest of a member behind its name. -/
def namedRest (head : MemberHead) (name : Token) : Reading (Option Member) := do
  if ← accept (.punct .openParen) then return (← methodRest head name).map .method
  if (← sees (.sign .arrow)) || (← sees (.punct .openBrace)) then return (← propertyRest head name).map .property
  return (← fieldRest head name).map .field

/-- Passes over the rest of a member that cannot be read. -/
def dropMember {α : Type} : Reading (Option α) := do
  skipBy (Recovery.member 0)
  return none

/-- Passes the rest of an indexer behind its keyword. -/
def indexerRest (head : MemberHead) : Reading (Option IndexerDecl) := do
  let finish (params : List Param) (body : PropertyBody) : Reading (Option IndexerDecl) := do
    return some { attributes := head.attributes, modifiers := head.modifiers, type := head.type, params, body,
                  span := ← spanFrom head.start }
  if !(← expect .openBracket) then return ← dropMember
  let some params ← params .closeBracket | dropMember
  if params.isEmpty then report .emptyIndexer ((← cursor).passed.head?.map (·.span))
  if ← accept (.sign .arrow) then
    let value ← expr
    if !(← expect .semicolon) then return ← dropMember
    let some value := value | return none
    finish params (.expr value)
  else
    let some list ← accessors | dropMember
    finish params (.accessors list)

/-- Passes a member. -/
def member : Reading (Option Member) := do
  let start ← cursor
  let attributes ← attributes
  let modifiers ← modifiers
  let some type ← expectType .member | dropMember
  let head : MemberHead := { start, attributes, modifiers, type }
  if ← accept (.keyword .thisKw) then return (← indexerRest head).map .indexer
  let some name ← expectName .member | dropMember
  let some read ← namedRest head name | dropMember
  return some read

/-- Passes over the tokens before the next type declaration. -/
def dropType {α : Type} (value : α) : Reading α := do
  skipBy Recovery.type
  return value

/-- Passes the members of a type in their braces. -/
def members : Reading (List Member) := do
  if !(← expect .openBrace) then return ← dropType []
  let list ← many (·.isMark .closeBrace) member
  let _ ← expect .closeBrace
  return list

/-- Passes the word that begins a type declaration. -/
def typeKind : Reading (Option TypeKind) := do
  if ← accept (.keyword .classKw) then return some .classType
  if ← accept (.keyword .structKw) then return some .structType
  reportHere (.noDeclaration ((← found?).getD ""))
  return none

/-- Passes a type declaration. -/
def typeDecl : Reading (Option TypeDecl) := do
  let start ← cursor
  let modifiers ← modifiers
  let some kind ← typeKind | dropType none
  let some name ← expectName .type | dropType none
  let generics ← generics
  let primary ← primary?
  let base ← base?
  let generics ← whereClauses generics
  let members ← members
  return some { modifiers, kind, name := name.lexeme, nameSpan := name.span, generics, primary, base, members,
                span := ← spanFrom start }

/-- Passes all type declarations. -/
def unit : Reading SourceUnit := do
  return ⟨← many (fun _ => false) typeDecl⟩

end Reading

/-- Why a text gives no unit: the faults of its tokens and then those of its declarations. -/
structure SyntaxFailure where
  diagnostics : List Diagnostic

namespace SyntaxFailure

/-- The summary of a failure. -/
def summary : String := "encountered errors while parsing"

/-- The failure with its places in a file. -/
def inFile (f : SyntaxFailure) (file : Nat) : SyntaxFailure :=
  ⟨f.diagnostics.map (·.inFile file)⟩

end SyntaxFailure

namespace SourceUnit

/-- The area of codes of findings about the form of declarations. -/
def parseArea : String := "PARSE"

/-- Where the reading of a text begins: before its significant tokens, with the findings about malformed ones. -/
def reader [Text.Hash] (lexed : Lexed) : Reader where
  cursor := .start lexed.significant
  sink := (Sink.empty parseArea).extend lexed.diagnostics
  skipped := []

/-- Reads a source text; spans lie in the given file. -/
def parse [Text.Hash] (source : String) (file : Option Nat) : Except SyntaxFailure SourceUnit :=
  let (unit, reader) := Reading.unit.run (reader (lex source file))
  if hasErrors reader.sink.found then .error ⟨reader.sink.found⟩ else .ok unit

end SourceUnit

end NavCheck
