import NavCheck.Decl.Basic

/-!
# References to primary constructor parameters

A primary constructor parameter can be named only while an instance is constructed. The walk over a declaration lists every
name that stands as an expression and is not hidden by a parameter of a member, the `value` of a setter, a local or a
parameter of a lambda, together with the phase in which it is evaluated. Whether the parameter is kept in a field makes no
difference.
-/

namespace NavCheck

/-- When code runs: while an instance is constructed, or afterwards or outside of any instance. -/
inductive Phase where
  | construction
  | afterwards
deriving DecidableEq

/-- A name that stands as an expression and is not hidden. -/
structure Reference where
  name : String
  span : Span
  phase : Phase
deriving DecidableEq

mutual

/-- The references of an expression below the names that are hidden. The body of a lambda may run long after construction,
wherever the lambda is written. -/
def Expr.references (hidden : List String) (phase : Phase) : Expr → List Reference
  | .literal _ _ => []
  | .name text span => if hidden.contains text then [] else [⟨text, span, phase⟩]
  | .self _ => []
  | .unary _ operand _ => operand.references hidden phase
  | .binary _ left right _ => left.references hidden phase ++ right.references hidden phase
  | .conditional condition thenBranch elseBranch _ =>
    condition.references hidden phase ++ thenBranch.references hidden phase ++ elseBranch.references hidden phase
  | .assign target value _ => target.references hidden phase ++ value.references hidden phase
  | .lambda params body _ => body.references (params.map (·.name) ++ hidden) .afterwards
  | .paren inner _ => inner.references hidden phase
  | .access base link _ _ => base.references hidden phase ++ link.references hidden phase
  | .create _ args entries _ => listReferences hidden phase args ++ entryReferences hidden phase entries

/-- The references of the operands of a link. -/
def Link.references (hidden : List String) (phase : Phase) : Link → List Reference
  | .member _ _ => []
  | .element indices => listReferences hidden phase indices
  | .invoke args => listReferences hidden phase args

/-- The references of several expressions. -/
def listReferences (hidden : List String) (phase : Phase) : List Expr → List Reference
  | [] => []
  | e :: es => e.references hidden phase ++ listReferences hidden phase es

/-- The references of the entries of an initializer. -/
def entryReferences (hidden : List String) (phase : Phase) : List Entry → List Reference
  | [] => []
  | .member _ _ value :: entries => value.references hidden phase ++ entryReferences hidden phase entries
  | .element indices _ value :: entries =>
    listReferences hidden phase indices ++ value.references hidden phase ++ entryReferences hidden phase entries

end

/-- The references of an expression that may be missing. -/
def optionReferences (hidden : List String) (phase : Phase) : Option Expr → List Reference
  | some e => e.references hidden phase
  | none => []

/-- The names that a statement adds to the statements behind it. -/
def Statement.declares : Statement → List String
  | .local _ name _ _ _ => [name]
  | _ => []

mutual

/-- The references of a statement. A local is not yet visible in its own initializer, and not any more behind the block or
the branch that declares it. -/
def Statement.references (hidden : List String) : Statement → List Reference
  | .block statements _ => statementReferences hidden statements
  | .give value _ => optionReferences hidden .afterwards value
  | .branch condition thenBranch elseBranch _ =>
    condition.references hidden .afterwards ++ thenBranch.references hidden ++
      match elseBranch with
      | some s => s.references hidden
      | none => []
  | .local _ _ _ init _ => optionReferences hidden .afterwards init
  | .expr value => value.references hidden .afterwards

/-- The references of statements in a row. -/
def statementReferences (hidden : List String) : List Statement → List Reference
  | [] => []
  | s :: rest => s.references hidden ++ statementReferences (s.declares ++ hidden) rest

end

/-- The references of a body below the names that are hidden. -/
def Body.references (hidden : List String) : Body → List Reference
  | .expr value => value.references hidden .afterwards
  | .block b => statementReferences hidden b.statements

/-- The names of parameters. -/
def paramNames (params : List Param) : List String :=
  params.map (·.name)

/-- The references of the default values of parameters, which are evaluated in the call and see no parameter. -/
def defaultReferences (params : List Param) : List Reference :=
  params.flatMap fun p => optionReferences [] .afterwards p.default

/-- The names that an accessor sees besides the parameters of an indexer: a setter has the new value. -/
def AccessorKind.implicitNames : AccessorKind → List String
  | .get => []
  | .set => ["value"]

/-- The references of an accessor of a property or an indexer with the given parameters. -/
def Accessor.references (params : List Param) (a : Accessor) : List Reference :=
  match a.body with
  | some body => body.references (paramNames params ++ a.kind.implicitNames)
  | none => []

/-- The references of what a property or an indexer with the given parameters does. -/
def PropertyBody.references (params : List Param) : PropertyBody → List Reference
  | .expr value => value.references (paramNames params) .afterwards
  | .accessors list => list.flatMap (·.references params)

/-- When the initializer of a member runs. -/
def Member.initPhase (m : Member) : Phase :=
  if m.isStatic then .afterwards else .construction

/-- The references of a member. -/
def Member.references (m : Member) : List Reference :=
  match m with
  | .field f => optionReferences [] m.initPhase f.init
  | .property p => p.body.references [] ++ optionReferences [] m.initPhase p.init
  | .method d => defaultReferences d.params ++ d.body.references (paramNames d.params)
  | .indexer i => defaultReferences i.params ++ i.body.references i.params

namespace TypeDecl

/-- The references of a declaration: of the default values of its parameters, of the arguments for its base, and of its
members. -/
def references (d : TypeDecl) : List Reference :=
  d.params.flatMap (fun p => optionReferences [] .construction p.default) ++
    listReferences [] .construction (d.baseArgs?.getD []) ++
    d.members.flatMap Member.references

end TypeDecl

/-- The references to one parameter, in the order they are found: those during construction, which are legal, and those
afterwards, which are not. -/
structure ParamUse where
  name : String
  legal : List Span
  illegal : List Span
deriving DecidableEq

namespace ParamUse

/-- The uses of a parameter among references. -/
def ofReferences (name : String) (references : List Reference) : ParamUse where
  name
  legal := (references.filter fun r => r.name == name && r.phase == .construction).map (·.span)
  illegal := (references.filter fun r => r.name == name && r.phase == .afterwards).map (·.span)

/-- The uses of parameters in order. A reference counts for the first parameter of its name. -/
def list (references : List Reference) : List String → List ParamUse
  | [] => []
  | name :: names => ofReferences name references :: list (references.filter (·.name != name)) names

end ParamUse

namespace TypeDecl

/-- The uses of the primary constructor parameters, in the order of the parameters. -/
def paramUses (d : TypeDecl) : List ParamUse :=
  ParamUse.list d.references (d.params.map (·.name))

end TypeDecl

/-- The illegal references with their names, by their place in the text. -/
def illegalReferences (uses : List ParamUse) : List (String × Span) :=
  (uses.flatMap fun u => u.illegal.map (u.name, ·)).mergeSort fun a b => a.2.before b.2

end NavCheck
