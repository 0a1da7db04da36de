import NavCheck.Table.Build
import NavCheck.Typing.Typer

/-!
# Checking bodies

All code of a unit: the default values of parameters, the arguments for bases, the initializers and bodies of members. Every
type is checked by a typer of its own, so the types of a unit do not depend on each other here.
-/

namespace NavCheck

namespace Typer

/-! ## Statements -/

/-- The type of a local that takes it from its initializer. -/
def inferLocal (t : Typer) (name : String) (span : Span) (found : Ty) : Ty × Typer :=
  match found with
  | .null => (.error, t.fault (.nullLocal name) span)
  | .delegate params result =>
    if params.contains .error then (.error, t.fault (.lambdaLocal name) span) else (.delegate params result, t)
  | other => (other, t)

/-- Checks a `return` statement of a member that gives a type. -/
def checkReturn (t : Typer) (result : Ty) (value : Option Expr) (span : Span) : Typer :=
  match value, result with
  | some e, .void => (t.checked e .discard).fault .valueFromVoid e.span
  | some e, result => t.checked e (.type result)
  | none, .void => t
  | none, .error => t
  | none, result => t.fault (.noReturnValue result) span

/-- Checks the declaration of a local and declares it. -/
def checkLocal (t : Typer) (type : Option TypeExpr) (name : String) (nameSpan : Span) (init : Option Expr) : Typer :=
  match type, init with
  | some written, init =>
    let (declared, t) := t.run fun env => env.resolve written
    let t := match init with
      | some e => t.checked e (.type declared)
      | none => t
    t.declare name declared
  | none, some e =>
    let (found, t) := t.checkRoot e .value
    let (inferred, t) := t.inferLocal name nameSpan found
    t.declare name inferred
  | none, none => t.declare name .error

mutual

/-- Checks a statement of a member that gives a type. -/
def statement (result : Ty) (s : Statement) (t : Typer) : Typer :=
  match s with
  | .block list _ => (statements result list t.pushScope).popScope
  | .give value span => t.checkReturn result value span
  | .branch condition thenBranch elseBranch _ =>
    let t := t.checked condition (.type .bool)
    let t := (statement result thenBranch t.pushScope).popScope
    match elseBranch with
    | some s => (statement result s t.pushScope).popScope
    | none => t
  | .local type name nameSpan init _ => t.checkLocal type name nameSpan init
  | .expr e => t.checked e .discard

/-- Checks statements in order. -/
def statements (result : Ty) (list : List Statement) (t : Typer) : Typer :=
  match list with
  | [] => t
  | s :: rest => statements result rest (statement result s t)

end

/-- Checks a body that gives a type. -/
def body (t : Typer) (result : Ty) : Body → Typer
  | .expr e => t.checked e (if result = .void then .discard else .type result)
  | .block b => (statements result b.statements t.pushScope).popScope

/-! ## Members -/

/-- Begins a body that sees parameters. -/
def enterBody (t : Typer) (params : List (String × Ty)) (isStatic : Bool) : Typer :=
  params.foldl (fun t (name, type) => t.declare name type) (t.enter .afterwards isStatic)

/-- Checks the initializer of a member. -/
def initializer (t : Typer) (m : Member) (type : Ty) : Option Expr → Typer
  | some e => (t.enter m.initPhase m.isStatic).checked e (.type type)
  | none => t

/-- The types of parameters by name. -/
def paramTypes (t : Typer) (params : List Param) : List (String × Ty) :=
  params.map fun p => (p.name, t.env.resolveDeclared p.type)

/-- Checks the default values of parameters, which are evaluated in each call. -/
def defaults (t : Typer) (params : List Param) (isStatic : Bool) : Typer :=
  params.foldl (fun t p =>
    match p.default with
    | some e => (t.enter .afterwards isStatic).checked e (.type (t.env.resolveDeclared p.type))
    | none => t) t

/-- Checks an accessor of a property or an indexer. A setter gives nothing and sees the new value. -/
def accessor (params : List (String × Ty)) (type : Ty) (isStatic : Bool) (t : Typer) (a : Accessor) : Typer :=
  match a.body with
  | none => t
  | some b =>
    let t := t.enterBody params isStatic
    match a.kind with
    | .get => t.body type b
    | .set => (t.declare "value" type).body .void b

/-- Checks what a property or an indexer does. -/
def propertyBody (t : Typer) (params : List (String × Ty)) (type : Ty) (isStatic : Bool) : PropertyBody → Typer
  | .expr e => (t.enterBody params isStatic).checked e (.type type)
  | .accessors list => list.foldl (accessor params type isStatic) t

/-- Checks a member. -/
def member (t : Typer) (m : Member) : Typer :=
  match m with
  | .field f => t.initializer m (t.env.resolveDeclared f.type) f.init
  | .property p =>
    let type := t.env.resolveDeclared p.type
    (t.propertyBody [] type m.isStatic p.body).initializer m type p.init
  | .method d =>
    let result := t.env.resolveDeclared d.returnType
    ((t.defaults d.params m.isStatic).enterBody (t.paramTypes d.params) m.isStatic).body result d.body
  | .indexer i =>
    let type := t.env.resolveDeclared i.type
    (t.defaults i.params m.isStatic).propertyBody (t.paramTypes i.params) type m.isStatic i.body

/-! ## Headers -/

/-- Checks the default values of primary constructor parameters. -/
def primaryDefaults (t : Typer) (params : List PrimaryParam) (signatures : List ParamSig) : Typer :=
  (params.zip signatures).foldl (fun t (p, s) =>
    match p.default with
    | some e => (t.enter .construction false).checked e (.type s.type)
    | none => t) t

/-- Checks arguments for the constructor of a base; one without a parameter must only be a value. -/
def baseArguments (t : Typer) : List ParamSig → List Expr → Typer
  | _, [] => t
  | [], e :: es => (t.checked e .value).baseArguments [] es
  | p :: ps, e :: es => (t.checked e (.type p.type)).baseArguments ps es

/-- The constructor of a type that is a base. -/
def baseConstructor? (table : TypeTable) : Ty → Option (List ParamSig)
  | .named name args => (table.find? name).map (·.constructorWith args)
  | _ => none

/-- Checks the base of a declaration whose type has a base. -/
def baseOf (t : Typer) (d : TypeDecl) (base : Option Ty) : Typer :=
  match d.base with
  | some { args := some args, span, .. } =>
    let t := t.enter .construction false
    match base.bind (baseConstructor? t.env.table) with
    | none => t.baseArguments [] args
    | some params =>
      let t := if countFits params args.length then t
        else t.fault (.baseArgCount d.name params.length args.length) span
      t.baseArguments params args
  | _ => t

end Typer

namespace TypeDecl

/-- The typer for the code of a declaration, if it is the one that the table knows by its name. -/
def typer? (d : TypeDecl) (table : TypeTable) : Option (TypeInfo × Typer) :=
  match table.find? d.name with
  | some info =>
    if info.span = some d.nameSpan then
      some (info, .start table info.selfType (table.genericScope d) info.constructor)
    else none
  | none => none

/-- Checks all code of a declaration. -/
def check (d : TypeDecl) (table : TypeTable) : TypingReport :=
  match d.typer? table with
  | none => .empty
  | some (info, t) =>
    let t := t.primaryDefaults d.params info.constructor
    let t := t.baseOf d info.base
    (d.members.foldl Typer.member t).report

end TypeDecl

/-- Checks all code of a unit. -/
def SourceUnit.check (u : SourceUnit) (table : TypeTable) : TypingReport :=
  (u.types.map (·.check table)).foldl TypingReport.append .empty

end NavCheck
