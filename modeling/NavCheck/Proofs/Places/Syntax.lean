import NavCheck.Decl.Basic
import NavCheck.Expr.Chain

/-!
# Places in syntax

Syntax whose places have a property, as far as findings about it are placed there: whatever is reported about it later
is reported at places with this property. For a null-conditional access this includes the place of its `?`, which is
made of the places of two expressions.
-/

namespace NavCheck

section

variable (good : Span → Prop)

/-! ## Types and expressions -/

mutual

/-- The places of a written type. -/
def TypeExpr.Within : TypeExpr → Prop
  | ⟨_, args, _, span⟩ => typesWithin args ∧ good span

/-- The places of several written types. -/
def typesWithin : List TypeExpr → Prop
  | [] => True
  | t :: ts => t.Within ∧ typesWithin ts

end

/-- The places of a parameter of a lambda. -/
structure LambdaParam.Within (p : LambdaParam) : Prop where
  type : ∀ t ∈ p.type, t.Within good
  span : good p.span

mutual

/-- The places of an expression. -/
def Expr.Within : Expr → Prop
  | .literal _ span | .name _ span | .self span => good span
  | .unary _ operand span => operand.Within ∧ good span
  | .binary _ left right span => left.Within ∧ right.Within ∧ good span
  | .conditional condition thenBranch elseBranch span =>
    condition.Within ∧ thenBranch.Within ∧ elseBranch.Within ∧ good span
  | .assign target value span => target.Within ∧ value.Within ∧ good span
  | .lambda params body span => (∀ p ∈ params, p.Within good) ∧ body.Within ∧ good span
  | .paren inner span => inner.Within ∧ good span
  | .access base link _ span => base.Within ∧ link.Within ∧ good span ∧ good (guardSpan base span)
  | .create type args entries span => type.Within good ∧ listWithin args ∧ entriesWithin entries ∧ good span

/-- The places of a link. -/
def Link.Within : Link → Prop
  | .member _ span => good span
  | .element indices => listWithin indices
  | .invoke args => listWithin args

/-- The places of several expressions. -/
def listWithin : List Expr → Prop
  | [] => True
  | e :: es => e.Within ∧ listWithin es

/-- The places of the entries of an initializer. -/
def entriesWithin : List Entry → Prop
  | [] => True
  | .member _ span value :: entries => good span ∧ value.Within ∧ entriesWithin entries
  | .element indices span value :: entries => listWithin indices ∧ good span ∧ value.Within ∧ entriesWithin entries

end

/-! ## Statements -/

mutual

/-- The places of a statement. -/
def Statement.Within : Statement → Prop
  | .block list span => statementsWithin list ∧ good span
  | .give value span => (∀ e ∈ value, e.Within good) ∧ good span
  | .branch condition thenBranch elseBranch span =>
    condition.Within good ∧ thenBranch.Within ∧
      (match elseBranch with
      | some s => s.Within
      | none => True) ∧ good span
  | .local type _ nameSpan init span =>
    (∀ t ∈ type, t.Within good) ∧ good nameSpan ∧ (∀ e ∈ init, e.Within good) ∧ good span
  | .expr value => value.Within good

/-- The places of statements in a row. -/
def statementsWithin : List Statement → Prop
  | [] => True
  | s :: rest => s.Within ∧ statementsWithin rest

end

/-- The places of a body. -/
def Body.Within : Body → Prop
  | .expr value => value.Within good
  | .block b => statementsWithin good b.statements

/-! ## Declarations -/

/-- The places of what a `where` clause asks. -/
def GenericConstraint.Within : GenericConstraint → Prop
  | .classOnly | .structOnly => True
  | .type e => e.Within good

/-- The places of a generic parameter. -/
structure GenericParam.Within (g : GenericParam) : Prop where
  span : good g.span
  constraint : ∀ c ∈ g.constraint, c.Within good

/-- The places of a base. -/
structure BaseSpec.Within (b : BaseSpec) : Prop where
  type : b.type.Within good
  args : ∀ e ∈ b.args.getD [], e.Within good
  span : good b.span

/-- The places of a primary constructor parameter. -/
structure PrimaryParam.Within (p : PrimaryParam) : Prop where
  attributes : ∀ a ∈ p.attributes, good a.span
  modifiers : ∀ m ∈ p.modifiers, good m.span
  type : p.type.Within good
  nameSpan : good p.nameSpan
  default : ∀ e ∈ p.default, e.Within good

/-- The places of a parameter. -/
structure Param.Within (p : Param) : Prop where
  type : p.type.Within good
  default : ∀ e ∈ p.default, e.Within good

/-- The places of what a property or an indexer does. -/
def PropertyBody.Within : PropertyBody → Prop
  | .expr value => value.Within good
  | .accessors list => ∀ a ∈ list, ∀ b ∈ a.body, b.Within good

/-- The places of a member: of its modifiers, of its name or of the whole of an indexer, and of all inside it. -/
def Member.Within (m : Member) : Prop :=
  (∀ x ∈ m.modifiers, good x.span) ∧ good m.nameSpan ∧
    match m with
    | .field f => f.type.Within good ∧ ∀ e ∈ f.init, e.Within good
    | .property p => p.type.Within good ∧ p.body.Within good ∧ ∀ e ∈ p.init, e.Within good
    | .method d => d.returnType.Within good ∧ (∀ p ∈ d.params, p.Within good) ∧ d.body.Within good
    | .indexer i => i.type.Within good ∧ (∀ p ∈ i.params, p.Within good) ∧ i.body.Within good

/-- The places of a declaration. -/
structure TypeDecl.Within (d : TypeDecl) : Prop where
  nameSpan : good d.nameSpan
  generics : ∀ g ∈ d.generics, g.Within good
  params : ∀ p ∈ d.params, p.Within good
  base : ∀ b ∈ d.base, b.Within good
  members : ∀ m ∈ d.members, m.Within good

/-- The places of a unit. -/
def SourceUnit.Within (u : SourceUnit) : Prop :=
  ∀ d ∈ u.types, d.Within good

end

/-! ## Several of them -/

variable {good : Span → Prop}

/-- Expressions are at good places when each of them is. -/
theorem listWithin_iff {es : List Expr} : listWithin good es ↔ ∀ e ∈ es, e.Within good := by
  induction es with
  | nil => simp [listWithin]
  | cons e es ih => simp [listWithin, ih]

/-- Entries are at good places when the first is and the others are. -/
theorem entriesWithin_cons {entry : Entry} {entries : List Entry} :
    entriesWithin good (entry :: entries) ↔ entriesWithin good [entry] ∧ entriesWithin good entries := by
  cases entry <;> simp [entriesWithin, and_assoc]

/-- Statements are at good places when each of them is. -/
theorem statementsWithin_iff {list : List Statement} : statementsWithin good list ↔ ∀ s ∈ list, s.Within good := by
  induction list with
  | nil => simp [statementsWithin]
  | cons s list ih => simp [statementsWithin, ih]

/-- The place of an expression is one of its places. -/
theorem Expr.Within.span {e : Expr} (h : e.Within good) : good e.span := by
  cases e <;> simp only [Expr.Within] at h <;> grind [Expr.span]

/-- A type at good places is at a good place itself. -/
theorem TypeExpr.Within.span {t : TypeExpr} (h : t.Within good) : good t.span := by
  cases t
  exact h.2

/-! ## Where every place will do -/

mutual

/-- A type is at good places when all places are good. -/
theorem TypeExpr.within_of_forall (h : ∀ span, good span) (t : TypeExpr) : t.Within good := by
  cases t with
  | mk name args suffixes span => exact ⟨typesWithin_of_forall h args, h span⟩

/-- Types are at good places when all places are good. -/
theorem typesWithin_of_forall (h : ∀ span, good span) (ts : List TypeExpr) : typesWithin good ts := by
  cases ts with
  | nil => trivial
  | cons t ts => exact ⟨t.within_of_forall h, typesWithin_of_forall h ts⟩

end

/-- A parameter of a lambda is at good places when all places are good. -/
theorem LambdaParam.within_of_forall (h : ∀ span, good span) (p : LambdaParam) : p.Within good :=
  ⟨fun t _ => t.within_of_forall h, h p.span⟩

mutual

/-- An expression is at good places when all places are good. -/
theorem Expr.within_of_forall (h : ∀ span, good span) (e : Expr) : e.Within good := by
  cases e with
  | literal value span => exact h span
  | name text span => exact h span
  | self span => exact h span
  | unary op operand span => exact ⟨operand.within_of_forall h, h span⟩
  | binary op left right span => exact ⟨left.within_of_forall h, right.within_of_forall h, h span⟩
  | conditional condition thenBranch elseBranch span =>
    exact ⟨condition.within_of_forall h, thenBranch.within_of_forall h, elseBranch.within_of_forall h, h span⟩
  | assign target value span => exact ⟨target.within_of_forall h, value.within_of_forall h, h span⟩
  | lambda params body span => exact ⟨fun p _ => p.within_of_forall h, body.within_of_forall h, h span⟩
  | paren inner span => exact ⟨inner.within_of_forall h, h span⟩
  | access base link guarded span => exact ⟨base.within_of_forall h, link.within_of_forall h, h span, h _⟩
  | create type args entries span =>
    exact ⟨type.within_of_forall h, listWithin_of_forall h args, entriesWithin_of_forall h entries, h span⟩

/-- A link is at good places when all places are good. -/
theorem Link.within_of_forall (h : ∀ span, good span) (link : Link) : link.Within good := by
  cases link with
  | member name span => exact h span
  | element indices => exact listWithin_of_forall h indices
  | invoke args => exact listWithin_of_forall h args

/-- Expressions are at good places when all places are good. -/
theorem listWithin_of_forall (h : ∀ span, good span) (es : List Expr) : listWithin good es := by
  cases es with
  | nil => trivial
  | cons e es => exact ⟨e.within_of_forall h, listWithin_of_forall h es⟩

/-- Entries are at good places when all places are good. -/
theorem entriesWithin_of_forall (h : ∀ span, good span) (entries : List Entry) : entriesWithin good entries := by
  cases entries with
  | nil => trivial
  | cons entry entries =>
    have rest := entriesWithin_of_forall h entries
    cases entry with
    | member name span value => exact ⟨h span, value.within_of_forall h, rest⟩
    | element indices span value => exact ⟨listWithin_of_forall h indices, h span, value.within_of_forall h, rest⟩

end

mutual

/-- A statement is at good places when all places are good. -/
theorem Statement.within_of_forall (h : ∀ span, good span) (s : Statement) : s.Within good := by
  cases s with
  | block list span => exact ⟨statementsWithin_of_forall h list, h span⟩
  | give value span => exact ⟨fun e _ => e.within_of_forall h, h span⟩
  | branch condition thenBranch elseBranch span =>
    cases elseBranch with
    | none => exact ⟨condition.within_of_forall h, thenBranch.within_of_forall h, trivial, h span⟩
    | some s => exact ⟨condition.within_of_forall h, thenBranch.within_of_forall h, s.within_of_forall h, h span⟩
  | «local» type name nameSpan init span =>
    exact ⟨fun t _ => t.within_of_forall h, h nameSpan, fun e _ => e.within_of_forall h, h span⟩
  | expr value => exact value.within_of_forall h

/-- Statements are at good places when all places are good. -/
theorem statementsWithin_of_forall (h : ∀ span, good span) (list : List Statement) : statementsWithin good list := by
  cases list with
  | nil => trivial
  | cons s rest => exact ⟨s.within_of_forall h, statementsWithin_of_forall h rest⟩

end

section

variable (h : ∀ span, good span)

include h

/-- A body is at good places when all places are good. -/
theorem Body.within_of_forall (b : Body) : b.Within good := by
  cases b with
  | expr value => exact value.within_of_forall h
  | block b => exact statementsWithin_of_forall h b.statements

/-- A generic parameter is at good places when all places are good. -/
theorem GenericParam.within_of_forall (g : GenericParam) : g.Within good where
  span := h g.span
  constraint c _ := by
    cases c with
    | classOnly => trivial
    | structOnly => trivial
    | type e => exact e.within_of_forall h

/-- A primary constructor parameter is at good places when all places are good. -/
theorem PrimaryParam.within_of_forall (p : PrimaryParam) : p.Within good where
  attributes a _ := h a.span
  modifiers m _ := h m.span
  type := p.type.within_of_forall h
  nameSpan := h p.nameSpan
  default e _ := e.within_of_forall h

/-- A parameter is at good places when all places are good. -/
theorem Param.within_of_forall (p : Param) : p.Within good :=
  ⟨p.type.within_of_forall h, fun e _ => e.within_of_forall h⟩

/-- The body of a property or an indexer is at good places when all places are good. -/
theorem PropertyBody.within_of_forall (b : PropertyBody) : b.Within good := by
  cases b with
  | expr value => exact value.within_of_forall h
  | accessors list => exact fun _ _ b _ => b.within_of_forall h

/-- A member is at good places when all places are good. -/
theorem Member.within_of_forall (m : Member) : m.Within good := by
  refine ⟨fun x _ => h x.span, h m.nameSpan, ?_⟩
  cases m with
  | field f => exact ⟨f.type.within_of_forall h, fun e _ => e.within_of_forall h⟩
  | property p => exact ⟨p.type.within_of_forall h, p.body.within_of_forall h, fun e _ => e.within_of_forall h⟩
  | method d => exact ⟨d.returnType.within_of_forall h, fun p _ => p.within_of_forall h, d.body.within_of_forall h⟩
  | indexer i => exact ⟨i.type.within_of_forall h, fun p _ => p.within_of_forall h, i.body.within_of_forall h⟩

/-- A declaration is at good places when all places are good. -/
theorem TypeDecl.within_of_forall (d : TypeDecl) : d.Within good where
  nameSpan := h d.nameSpan
  generics g _ := g.within_of_forall h
  params p _ := p.within_of_forall h
  base b _ := ⟨b.type.within_of_forall h, fun e _ => e.within_of_forall h, h b.span⟩
  members m _ := m.within_of_forall h

end

end NavCheck
