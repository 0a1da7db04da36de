import Mathlib.Tactic.Simps.Basic
import NavCheck.Check.Report
import NavCheck.Proofs.Written

/-!
# Relocation

What a change of the layout of a text does to the data that is made of it: every place goes somewhere else and nothing else
changes. A `Relocation` says where places go, `Placed` collects the types of data with places in them, and to forget all
places is a relocation as well.
-/

namespace NavCheck

/-- Where places go. The places of `?` accesses, which begin where the expression in front of the `?` ends, go their own way:
no token need begin there. -/
structure Relocation where
  span : Span → Span
  guard : Span → Span

namespace Relocation

/-- One relocation after another. -/
def andThen (m n : Relocation) : Relocation :=
  ⟨fun s => n.span (m.span s), fun s => n.guard (m.guard s)⟩

/-- Forgets all places. -/
def erasing : Relocation :=
  ⟨fun _ => default, fun _ => default⟩

/-- Erasing places after moving them is erasing them. -/
@[simp] theorem andThen_erasing (m : Relocation) : m.andThen erasing = erasing := rfl

end Relocation

/-- What checking asks of a relocation: no two places become one, places keep their order, and the place of a `?` goes where
the ends go that it lies between. -/
structure Relocation.Faithful (m : Relocation) : Prop where
  span_injective : Function.Injective m.span
  before : ∀ a b, (m.span a).before (m.span b) = a.before b
  guard_injective : Function.Injective m.guard
  guard_between : ∀ a b : Span, m.guard ⟨b.file, a.stop, b.stop⟩ = ⟨(m.span b).file, (m.span a).stop, (m.span b).stop⟩

/-- Data with places in it. -/
class Placed (α : Type) where
  /-- The data with its places relocated. -/
  move : Relocation → α → α
  move_move : ∀ (m n : Relocation) (x : α), move n (move m x) = move (m.andThen n) x

export Placed (move move_move)

/-- Data without its places. -/
def erased {α : Type} [Placed α] (x : α) : α :=
  move .erasing x

/-- What differs by places only is the same without them. -/
@[simp]
theorem erased_move {α : Type} [Placed α] (m : Relocation) (x : α) : erased (move m x) = erased x := by
  rw [erased, move_move, Relocation.andThen_erasing, erased]

/-! ## Data without places -/

/-- Data that has no places. -/
abbrev Placed.fixed {α : Type} : Placed α :=
  ⟨fun _ x => x, fun _ _ _ => rfl⟩

@[simps] instance Bool.placed : Placed Bool := .fixed
@[simps] instance Nat.placed : Placed Nat := .fixed
@[simps] instance String.placed : Placed String := .fixed
@[simps] instance Unit.placed : Placed Unit := .fixed
@[simps] instance BinOp.placed : Placed BinOp := .fixed
@[simps] instance UnOp.placed : Placed UnOp := .fixed
@[simps] instance MemberName.placed : Placed MemberName := .fixed
@[simps] instance AccessStart.placed : Placed AccessStart := .fixed
@[simps] instance TypeKind.placed : Placed TypeKind := .fixed
@[simps] instance AccessorKind.placed : Placed AccessorKind := .fixed

/-! ## Places, lists and options -/

@[simps]
instance Span.placed : Placed Span where
  move m s := m.span s
  move_move _ _ _ := rfl

section

variable {α β : Type} [Placed α] [Placed β] (m : Relocation)

@[simps]
instance List.placed : Placed (List α) where
  move m l := l.map (move m)
  move_move m n l := by simp [move_move]

@[simps]
instance Option.placed : Placed (Option α) where
  move m o := o.map (move m)
  move_move m n o := by simp [Function.comp_def, move_move]

@[simps]
instance Prod.placed : Placed (α × β) where
  move m p := (move m p.1, move m p.2)
  move_move m n p := by simp [move_move]

end

/-! ## Tokens and written types -/

@[simps]
instance Token.placed : Placed Token where
  move m t := { t with span := m.span t.span }
  move_move _ _ _ := rfl

@[simps]
instance Cursor.placed : Placed Cursor where
  move m c := ⟨move m c.passed, move m c.ahead⟩
  move_move m n c := by simp only [move_move]

/-- A cursor is relocated with the tokens behind it and ahead of it. -/
@[simp]
theorem Cursor.move_mk (m : Relocation) (passed ahead : List Token) :
    move m (Cursor.mk passed ahead) = ⟨passed.map (move m), ahead.map (move m)⟩ := rfl

mutual

/-- A written type, relocated. -/
def TypeExpr.relocated (m : Relocation) : TypeExpr → TypeExpr
  | ⟨name, args, suffixes, span⟩ => ⟨name, relocatedTypes m args, suffixes, m.span span⟩

/-- Written types, relocated. -/
def relocatedTypes (m : Relocation) : List TypeExpr → List TypeExpr
  | [] => []
  | t :: ts => t.relocated m :: relocatedTypes m ts

end

/-- Types in a row are relocated one by one. -/
theorem relocatedTypes_eq (m : Relocation) (ts : List TypeExpr) : relocatedTypes m ts = ts.map (·.relocated m) := by
  induction ts with
  | nil => rfl
  | cons t ts ih => rw [relocatedTypes, ih, List.map_cons]

mutual

/-- Relocating a type twice is relocating it once. -/
theorem TypeExpr.relocated_relocated (m n : Relocation) :
    ∀ t : TypeExpr, (t.relocated m).relocated n = t.relocated (m.andThen n)
  | ⟨_, args, _, _⟩ => by
    simp only [TypeExpr.relocated, relocatedTypes_relocatedTypes m n args, Relocation.andThen]

/-- The same for types in a row. -/
theorem relocatedTypes_relocatedTypes (m n : Relocation) :
    ∀ ts : List TypeExpr, relocatedTypes n (relocatedTypes m ts) = relocatedTypes (m.andThen n) ts
  | [] => rfl
  | t :: ts => by
    simp only [relocatedTypes, t.relocated_relocated m n, relocatedTypes_relocatedTypes m n ts]

end

instance TypeExpr.placed : Placed TypeExpr :=
  ⟨TypeExpr.relocated, TypeExpr.relocated_relocated⟩

/-- A type is relocated with its arguments and its span; its name and suffixes stay. -/
@[simp]
theorem TypeExpr.move_mk (m : Relocation) (name : String) (args : List TypeExpr) (suffixes : List TypeSuffix) (span : Span) :
    move m (TypeExpr.mk name args suffixes span) = ⟨name, args.map (move m), suffixes, m.span span⟩ := by
  show TypeExpr.relocated m _ = _
  rw [TypeExpr.relocated, relocatedTypes_eq]
  rfl

mutual

/-- The places of a type are erased by the relocation that erases. -/
theorem TypeExpr.erased_eq : ∀ t : TypeExpr, t.erased = move .erasing t
  | ⟨_, args, _, _⟩ => by rw [TypeExpr.erased, erasedTypes_eq args, TypeExpr.move_mk]; rfl

/-- The same for types in a row. -/
theorem erasedTypes_eq : ∀ ts : List TypeExpr, erasedTypes ts = ts.map (move .erasing)
  | [] => rfl
  | t :: ts => by rw [erasedTypes, t.erased_eq, erasedTypes_eq ts, List.map_cons]

end

/-- A type prints in the same way wherever it stands. -/
@[simp]
theorem TypeExpr.text_move (m : Relocation) (t : TypeExpr) : (move m t).text = t.text := by
  rw [← TypeExpr.text_erased, TypeExpr.erased_eq, move_move, Relocation.andThen_erasing, ← TypeExpr.erased_eq,
    TypeExpr.text_erased]

/-- Relocation keeps the name of a type. -/
@[simp]
theorem TypeExpr.move_name (m : Relocation) (t : TypeExpr) : (move m t).name = t.name := by
  cases t; simp

/-- The span of a relocated type is the relocated span. -/
@[simp]
theorem TypeExpr.move_span (m : Relocation) (t : TypeExpr) : (move m t).span = m.span t.span := by
  cases t; simp

/-! ## Expressions -/

@[simps]
instance LambdaParam.placed : Placed LambdaParam where
  move m p := ⟨move m p.type, p.name, m.span p.span⟩
  move_move m n p := by simp only [move_move]; rfl

mutual

/-- An expression, relocated. -/
def Expr.relocated (m : Relocation) : Expr → Expr
  | .literal value span => .literal value (m.span span)
  | .name text span => .name text (m.span span)
  | .self span => .self (m.span span)
  | .unary op operand span => .unary op (operand.relocated m) (m.span span)
  | .binary op left right span => .binary op (left.relocated m) (right.relocated m) (m.span span)
  | .conditional condition thenBranch elseBranch span =>
    .conditional (condition.relocated m) (thenBranch.relocated m) (elseBranch.relocated m) (m.span span)
  | .assign target value span => .assign (target.relocated m) (value.relocated m) (m.span span)
  | .lambda params body span => .lambda (move m params) (body.relocated m) (m.span span)
  | .paren inner span => .paren (inner.relocated m) (m.span span)
  | .access base link guarded span => .access (base.relocated m) (link.relocated m) guarded (m.span span)
  | .create type args entries span =>
    .create (move m type) (relocatedList m args) (relocatedEntries m entries) (m.span span)

/-- A link, relocated. -/
def Link.relocated (m : Relocation) : Link → Link
  | .member name span => .member name (m.span span)
  | .element indices => .element (relocatedList m indices)
  | .invoke args => .invoke (relocatedList m args)

/-- An entry of an initializer, relocated. -/
def Entry.relocated (m : Relocation) : Entry → Entry
  | .member name span value => .member name (m.span span) (value.relocated m)
  | .element indices span value => .element (relocatedList m indices) (m.span span) (value.relocated m)

/-- Expressions, relocated. -/
def relocatedList (m : Relocation) : List Expr → List Expr
  | [] => []
  | e :: es => e.relocated m :: relocatedList m es

/-- Entries of an initializer, relocated. -/
def relocatedEntries (m : Relocation) : List Entry → List Entry
  | [] => []
  | entry :: entries => entry.relocated m :: relocatedEntries m entries

end

section

variable (m : Relocation)

/-- Expressions in a row are relocated one by one. -/
theorem relocatedList_eq (es : List Expr) : relocatedList m es = es.map (·.relocated m) := by
  induction es with
  | nil => rfl
  | cons e es ih => rw [relocatedList, ih, List.map_cons]

/-- Entries of an initializer are relocated one by one. -/
theorem relocatedEntries_eq (entries : List Entry) : relocatedEntries m entries = entries.map (·.relocated m) := by
  induction entries with
  | nil => rfl
  | cons entry entries ih => rw [relocatedEntries, ih, List.map_cons]

end

mutual

/-- Relocating an expression twice is relocating it once. -/
theorem Expr.relocated_relocated (m n : Relocation) : ∀ e : Expr, (e.relocated m).relocated n = e.relocated (m.andThen n)
  | .literal _ _ | .name _ _ | .self _ => rfl
  | .unary _ operand _ => by simp only [Expr.relocated, operand.relocated_relocated m n]; rfl
  | .binary _ left right _ => by
    simp only [Expr.relocated, left.relocated_relocated m n, right.relocated_relocated m n]; rfl
  | .conditional condition thenBranch elseBranch _ => by
    simp only [Expr.relocated, condition.relocated_relocated m n, thenBranch.relocated_relocated m n,
      elseBranch.relocated_relocated m n]
    rfl
  | .assign target value _ => by
    simp only [Expr.relocated, target.relocated_relocated m n, value.relocated_relocated m n]; rfl
  | .lambda _ body _ => by simp only [Expr.relocated, move_move, body.relocated_relocated m n]; rfl
  | .paren inner _ => by simp only [Expr.relocated, inner.relocated_relocated m n]; rfl
  | .access base link _ _ => by
    simp only [Expr.relocated, base.relocated_relocated m n, link.relocated_relocated m n]; rfl
  | .create _ args entries _ => by
    simp only [Expr.relocated, move_move, relocatedList_relocatedList m n args,
      relocatedEntries_relocatedEntries m n entries]
    rfl

/-- The same for the operands of a link. -/
theorem Link.relocated_relocated (m n : Relocation) : ∀ l : Link, (l.relocated m).relocated n = l.relocated (m.andThen n)
  | .member _ _ => rfl
  | .element indices => by simp only [Link.relocated, relocatedList_relocatedList m n indices]
  | .invoke args => by simp only [Link.relocated, relocatedList_relocatedList m n args]

/-- The same for an entry of an initializer. -/
theorem Entry.relocated_relocated (m n : Relocation) :
    ∀ entry : Entry, (entry.relocated m).relocated n = entry.relocated (m.andThen n)
  | .member _ _ value => by simp only [Entry.relocated, value.relocated_relocated m n]; rfl
  | .element indices _ value => by
    simp only [Entry.relocated, relocatedList_relocatedList m n indices, value.relocated_relocated m n]; rfl

/-- The same for expressions in a row. -/
theorem relocatedList_relocatedList (m n : Relocation) :
    ∀ es : List Expr, relocatedList n (relocatedList m es) = relocatedList (m.andThen n) es
  | [] => rfl
  | e :: es => by
    simp only [relocatedList, e.relocated_relocated m n, relocatedList_relocatedList m n es]

/-- The same for entries in a row. -/
theorem relocatedEntries_relocatedEntries (m n : Relocation) :
    ∀ entries : List Entry, relocatedEntries n (relocatedEntries m entries) = relocatedEntries (m.andThen n) entries
  | [] => rfl
  | entry :: entries => by
    simp only [relocatedEntries, entry.relocated_relocated m n, relocatedEntries_relocatedEntries m n entries]

end

instance Expr.placed : Placed Expr :=
  ⟨Expr.relocated, Expr.relocated_relocated⟩

instance Link.placed : Placed Link :=
  ⟨Link.relocated, Link.relocated_relocated⟩

instance Entry.placed : Placed Entry :=
  ⟨Entry.relocated, Entry.relocated_relocated⟩

section

variable (m : Relocation) (e e₁ e₂ : Expr) (link : Link) (es : List Expr) (span : Span)

namespace Expr

/-- A literal is relocated with its span. -/
@[simp] theorem move_literal (value : Literal) : move m (literal value span) = literal value (m.span span) := rfl

/-- A name is relocated with its span, and keeps its text. -/
@[simp] theorem move_name (text : String) : move m (name text span) = name text (m.span span) := rfl

/-- The current object is relocated with its span. -/
@[simp] theorem move_self : move m (self span) = self (m.span span) := rfl

/-- An operation is relocated with its operand. -/
@[simp] theorem move_unary (op : UnOp) : move m (unary op e span) = unary op (move m e) (m.span span) := rfl

/-- An operation is relocated with both operands. -/
@[simp]
theorem move_binary (op : BinOp) :
    move m (binary op e₁ e₂ span) = binary op (move m e₁) (move m e₂) (m.span span) := rfl

/-- A conditional is relocated with its three parts. -/
@[simp]
theorem move_conditional :
    move m (conditional e e₁ e₂ span) = conditional (move m e) (move m e₁) (move m e₂) (m.span span) := rfl

/-- An assignment is relocated with its target and value. -/
@[simp] theorem move_assign : move m (assign e₁ e₂ span) = assign (move m e₁) (move m e₂) (m.span span) := rfl

/-- A lambda is relocated with its parameters and body. -/
@[simp]
theorem move_lambda (params : List LambdaParam) :
    move m (lambda params e span) = lambda (params.map (move m)) (move m e) (m.span span) := rfl

/-- Parentheses are relocated with what is in them. -/
@[simp] theorem move_paren : move m (paren e span) = paren (move m e) (m.span span) := rfl

/-- An access is relocated with its base and link. -/
@[simp]
theorem move_access (guarded : Bool) :
    move m (access e link guarded span) = access (move m e) (move m link) guarded (m.span span) := rfl

/-- A creation is relocated with its type, arguments and entries. -/
@[simp]
theorem move_create (type : TypeExpr) (entries : List Entry) :
    move m (create type es entries span) =
      create (move m type) (es.map (move m)) (entries.map (move m)) (m.span span) := by
  show Expr.relocated m _ = _
  rw [Expr.relocated, relocatedList_eq, relocatedEntries_eq]
  rfl

/-- The span of a relocated expression is the relocated span. -/
@[simp]
theorem move_span : (move m e).span = m.span e.span := by
  cases e <;> simp [Expr.span]

end Expr

/-- A member link is relocated with the span of its name. -/
@[simp] theorem Link.move_member (name : MemberName) : move m (Link.member name span) = .member name (m.span span) := rfl

/-- An element link is relocated with its indices. -/
@[simp]
theorem Link.move_element : move m (Link.element es) = .element (es.map (move m)) := by
  show Link.relocated m _ = _
  rw [Link.relocated, relocatedList_eq]
  rfl

/-- An invocation is relocated with its arguments. -/
@[simp]
theorem Link.move_invoke : move m (Link.invoke es) = .invoke (es.map (move m)) := by
  show Link.relocated m _ = _
  rw [Link.relocated, relocatedList_eq]
  rfl

/-- An entry for a member is relocated with its value. -/
@[simp]
theorem Entry.move_member (name : MemberName) :
    move m (Entry.member name span e) = .member name (m.span span) (move m e) := rfl

/-- An entry for an element is relocated with its indices and value. -/
@[simp]
theorem Entry.move_element : move m (Entry.element es span e) = .element (es.map (move m)) (m.span span) (move m e) := by
  show Entry.relocated m _ = _
  rw [Entry.relocated, relocatedList_eq]
  rfl

end

/-! ### Texts -/

/-- The places of a parameter of a lambda are erased by the relocation that erases. -/
theorem LambdaParam.erased_eq (p : LambdaParam) : p.erased = move .erasing p := by
  obtain ⟨_ | type, name, span⟩ := p
  · rfl
  · rw [LambdaParam.erased, Option.map_some, type.erased_eq]; rfl

mutual

/-- The places of an expression are erased by the relocation that erases. -/
theorem Expr.erased_eq : ∀ e : Expr, e.erased = move .erasing e
  | .literal _ _ | .name _ _ | .self _ => rfl
  | .unary _ operand _ => by rw [Expr.erased, operand.erased_eq]; rfl
  | .binary _ left right _ => by rw [Expr.erased, left.erased_eq, right.erased_eq]; rfl
  | .conditional condition thenBranch elseBranch _ => by
    rw [Expr.erased, condition.erased_eq, thenBranch.erased_eq, elseBranch.erased_eq]; rfl
  | .assign target value _ => by rw [Expr.erased, target.erased_eq, value.erased_eq]; rfl
  | .lambda params body _ => by
    rw [Expr.erased, body.erased_eq, Expr.move_lambda, funext LambdaParam.erased_eq]; rfl
  | .paren inner _ => by rw [Expr.erased, inner.erased_eq]; rfl
  | .access base link _ _ => by rw [Expr.erased, base.erased_eq, link.erased_eq]; rfl
  | .create type args entries _ => by
    rw [Expr.erased, type.erased_eq, erasedList_eq args, erasedEntries_eq entries, Expr.move_create]; rfl

/-- The same for a link. -/
theorem Link.erased_eq : ∀ link : Link, link.erased = move .erasing link
  | .member _ _ => rfl
  | .element indices => by rw [Link.erased, erasedList_eq indices, Link.move_element]
  | .invoke args => by rw [Link.erased, erasedList_eq args, Link.move_invoke]

/-- The same for expressions in a row. -/
theorem erasedList_eq : ∀ es : List Expr, erasedList es = es.map (move .erasing)
  | [] => rfl
  | e :: es => by rw [erasedList, e.erased_eq, erasedList_eq es, List.map_cons]

/-- The same for entries in a row. -/
theorem erasedEntries_eq : ∀ entries : List Entry, erasedEntries entries = entries.map (move .erasing)
  | [] => rfl
  | .member _ _ value :: entries => by rw [erasedEntries, value.erased_eq, erasedEntries_eq entries]; rfl
  | .element indices _ value :: entries => by
    rw [erasedEntries, erasedList_eq indices, value.erased_eq, erasedEntries_eq entries, List.map_cons,
      Entry.move_element]
    rfl

end

/-- An expression prints in the same way wherever it stands. -/
@[simp]
theorem Expr.text_move (m : Relocation) (e : Expr) : (move m e).text = e.text := by
  rw [Expr.text, Expr.text, ← Expr.render_erased, Expr.erased_eq, move_move, Relocation.andThen_erasing,
    ← Expr.erased_eq, Expr.render_erased]

/-! ## Statements -/

mutual

/-- A statement, relocated. -/
def Statement.relocated (m : Relocation) : Statement → Statement
  | .block list span => .block (relocatedStatements m list) (m.span span)
  | .give value span => .give (move m value) (m.span span)
  | .branch condition thenBranch elseBranch span =>
    .branch (move m condition) (thenBranch.relocated m)
      (match elseBranch with
        | some s => some (s.relocated m)
        | none => none) (m.span span)
  | .local type name nameSpan init span =>
    .local (move m type) name (m.span nameSpan) (move m init) (m.span span)
  | .expr value => .expr (move m value)

/-- Statements, relocated. -/
def relocatedStatements (m : Relocation) : List Statement → List Statement
  | [] => []
  | s :: rest => s.relocated m :: relocatedStatements m rest

end

/-- Statements in a row are relocated one by one. -/
theorem relocatedStatements_eq (m : Relocation) (list : List Statement) :
    relocatedStatements m list = list.map (·.relocated m) := by
  induction list with
  | nil => rfl
  | cons s rest ih => rw [relocatedStatements, ih, List.map_cons]

mutual

/-- Relocating a statement twice is relocating it once. -/
theorem Statement.relocated_relocated (m n : Relocation) :
    ∀ s : Statement, (s.relocated m).relocated n = s.relocated (m.andThen n)
  | .block list _ => by simp only [Statement.relocated, relocatedStatements_relocatedStatements m n list]; rfl
  | .give _ _ => by simp only [Statement.relocated, move_move]; rfl
  | .branch _ thenBranch none _ => by
    simp only [Statement.relocated, move_move, thenBranch.relocated_relocated m n]; rfl
  | .branch _ thenBranch (some elseBranch) _ => by
    simp only [Statement.relocated, move_move, thenBranch.relocated_relocated m n, elseBranch.relocated_relocated m n]
    rfl
  | .local _ _ _ _ _ => by simp only [Statement.relocated, move_move]; rfl
  | .expr _ => by simp only [Statement.relocated, move_move]

/-- The same for statements in a row. -/
theorem relocatedStatements_relocatedStatements (m n : Relocation) :
    ∀ list : List Statement, relocatedStatements n (relocatedStatements m list) = relocatedStatements (m.andThen n) list
  | [] => rfl
  | s :: rest => by
    simp only [relocatedStatements, s.relocated_relocated m n, relocatedStatements_relocatedStatements m n rest]

end

instance Statement.placed : Placed Statement :=
  ⟨Statement.relocated, Statement.relocated_relocated⟩

section

variable (m : Relocation) (span : Span)

namespace Statement

/-- A block is relocated with its statements. -/
@[simp]
theorem move_block (list : List Statement) : move m (block list span) = block (list.map (move m)) (m.span span) := by
  show Statement.relocated m _ = _
  rw [Statement.relocated, relocatedStatements_eq]
  rfl

/-- A `return` is relocated with its value. -/
@[simp] theorem move_give (value : Option Expr) : move m (give value span) = give (value.map (move m)) (m.span span) := rfl

/-- An `if` is relocated with its condition and branches. -/
@[simp]
theorem move_branch (condition : Expr) (thenBranch : Statement) (elseBranch : Option Statement) :
    move m (branch condition thenBranch elseBranch span) =
      branch (move m condition) (move m thenBranch) (elseBranch.map (move m)) (m.span span) := by
  cases elseBranch <;> rfl

/-- A local is relocated with its type, its name and its initial value. -/
@[simp]
theorem move_local (type : Option TypeExpr) (name : String) (nameSpan : Span) (init : Option Expr) :
    move m (Statement.local type name nameSpan init span) =
      .local (type.map (move m)) name (m.span nameSpan) (init.map (move m)) (m.span span) := rfl

/-- An expression statement is relocated with its expression. -/
@[simp] theorem move_expr (value : Expr) : move m (Statement.expr value) = .expr (move m value) := rfl

end Statement

end

@[simps]
instance Block.placed : Placed Block where
  move m b := ⟨move m b.statements, m.span b.span⟩
  move_move m n b := by simp only [move_move]; rfl

instance Body.placed : Placed Body where
  move m
    | .expr value => .expr (move m value)
    | .block b => .block (move m b)
  move_move m n b := by cases b <;> simp only [move_move]

/-- A body that is an expression is relocated with it. -/
@[simp] theorem Body.move_expr (m : Relocation) (e : Expr) : move m (Body.expr e) = .expr (move m e) := rfl

/-- A body that is a block is relocated with it. -/
@[simp] theorem Body.move_block (m : Relocation) (b : Block) : move m (Body.block b) = .block (move m b) := rfl

/-! ## Declarations -/

@[simps]
instance Modifier.placed : Placed Modifier where
  move m w := { w with span := m.span w.span }
  move_move _ _ _ := rfl

@[simps]
instance Attribute.placed : Placed Attribute where
  move m a := { a with span := m.span a.span }
  move_move _ _ _ := rfl

instance GenericConstraint.placed : Placed GenericConstraint where
  move m
    | .classOnly => .classOnly
    | .structOnly => .structOnly
    | .type e => .type (move m e)
  move_move m n c := by cases c <;> simp only [move_move]

/-- A constraint by a type is relocated with the type. -/
@[simp] theorem GenericConstraint.move_type (m : Relocation) (type : TypeExpr) :
    move m (GenericConstraint.type type) = .type (move m type) := rfl

@[simps]
instance GenericParam.placed : Placed GenericParam where
  move m g := ⟨g.name, m.span g.span, move m g.constraint⟩
  move_move m n g := by simp only [move_move]; rfl

@[simps move_args move_span]
instance BaseSpec.placed : Placed BaseSpec where
  move m b := ⟨move m b.type, move m b.args, m.span b.span⟩
  move_move m n b := by simp only [move_move]; rfl

/-- A base is relocated with its type. -/
@[simp] theorem BaseSpec.placed_move_type (m : Relocation) (b : BaseSpec) : (move m b).type = move m b.type := rfl

@[simps move_attributes move_modifiers move_name move_nameSpan move_default move_span]
instance PrimaryParam.placed : Placed PrimaryParam where
  move m p :=
    { attributes := move m p.attributes, modifiers := move m p.modifiers, type := move m p.type, name := p.name
      nameSpan := m.span p.nameSpan, default := move m p.default, span := m.span p.span }
  move_move m n p := by simp only [move_move]; rfl

/-- A primary parameter is relocated with its type. -/
@[simp] theorem PrimaryParam.placed_move_type (m : Relocation) (p : PrimaryParam) : (move m p).type = move m p.type := rfl

@[simps move_name move_nameSpan move_default move_span]
instance Param.placed : Placed Param where
  move m p :=
    { type := move m p.type, name := p.name, nameSpan := m.span p.nameSpan, default := move m p.default
      span := m.span p.span }
  move_move m n p := by simp only [move_move]; rfl

/-- A parameter is relocated with its type. -/
@[simp] theorem Param.placed_move_type (m : Relocation) (p : Param) : (move m p).type = move m p.type := rfl

@[simps move_attributes move_modifiers move_name move_nameSpan move_init move_origin move_span]
instance FieldDecl.placed : Placed FieldDecl where
  move m f :=
    { attributes := move m f.attributes, modifiers := move m f.modifiers, type := move m f.type, name := f.name
      nameSpan := m.span f.nameSpan, init := move m f.init, origin := f.origin, span := m.span f.span }
  move_move m n f := by simp only [move_move]; rfl

/-- A field is relocated with its type. -/
@[simp] theorem FieldDecl.placed_move_type (m : Relocation) (f : FieldDecl) : (move m f).type = move m f.type := rfl

@[simps]
instance Accessor.placed : Placed Accessor where
  move m a := ⟨a.kind, move m a.body, m.span a.span⟩
  move_move m n a := by simp only [move_move]; rfl

instance PropertyBody.placed : Placed PropertyBody where
  move m
    | .expr value => .expr (move m value)
    | .accessors list => .accessors (move m list)
  move_move m n b := by cases b <;> simp only [move_move]

/-- A property that is an expression is relocated with it. -/
@[simp] theorem PropertyBody.move_expr (m : Relocation) (e : Expr) : move m (PropertyBody.expr e) = .expr (move m e) := rfl

/-- A property with accessors is relocated with them. -/
@[simp] theorem PropertyBody.move_accessors (m : Relocation) (list : List Accessor) :
    move m (PropertyBody.accessors list) = .accessors (list.map (move m)) := rfl

@[simps move_attributes move_modifiers move_name move_nameSpan move_body move_init move_span]
instance PropertyDecl.placed : Placed PropertyDecl where
  move m p :=
    { attributes := move m p.attributes, modifiers := move m p.modifiers, type := move m p.type, name := p.name
      nameSpan := m.span p.nameSpan, body := move m p.body, init := move m p.init, span := m.span p.span }
  move_move m n p := by simp only [move_move]; rfl

/-- A property is relocated with its type. -/
@[simp] theorem PropertyDecl.placed_move_type (m : Relocation) (p : PropertyDecl) : (move m p).type = move m p.type := rfl

@[simps move_attributes move_modifiers move_name move_nameSpan move_params move_body move_span]
instance MethodDecl.placed : Placed MethodDecl where
  move m d :=
    { attributes := move m d.attributes, modifiers := move m d.modifiers, returnType := move m d.returnType, name := d.name
      nameSpan := m.span d.nameSpan, params := move m d.params, body := move m d.body, span := m.span d.span }
  move_move m n d := by simp only [move_move]; rfl

/-- A method is relocated with the type of its result. -/
@[simp] theorem MethodDecl.placed_move_returnType (m : Relocation) (d : MethodDecl) :
    (move m d).returnType = move m d.returnType := rfl

@[simps move_attributes move_modifiers move_params move_body move_span]
instance IndexerDecl.placed : Placed IndexerDecl where
  move m i :=
    { attributes := move m i.attributes, modifiers := move m i.modifiers, type := move m i.type
      params := move m i.params, body := move m i.body, span := m.span i.span }
  move_move m n i := by simp only [move_move]; rfl

/-- An indexer is relocated with its type. -/
@[simp] theorem IndexerDecl.placed_move_type (m : Relocation) (i : IndexerDecl) : (move m i).type = move m i.type := rfl

instance Member.placed : Placed Member where
  move m
    | .field f => .field (move m f)
    | .property p => .property (move m p)
    | .method d => .method (move m d)
    | .indexer i => .indexer (move m i)
  move_move m n x := by cases x <;> simp only [move_move]

/-- A member that is a field is relocated as a field. -/
@[simp] theorem Member.move_field (m : Relocation) (f : FieldDecl) : move m (Member.field f) = .field (move m f) := rfl

/-- A member that is a property is relocated as a property. -/
@[simp] theorem Member.move_property (m : Relocation) (p : PropertyDecl) :
    move m (Member.property p) = .property (move m p) := rfl

/-- A member that is a method is relocated as a method. -/
@[simp] theorem Member.move_method (m : Relocation) (d : MethodDecl) : move m (Member.method d) = .method (move m d) := rfl

/-- A member that is an indexer is relocated as an indexer. -/
@[simp] theorem Member.move_indexer (m : Relocation) (i : IndexerDecl) :
    move m (Member.indexer i) = .indexer (move m i) := rfl

@[simps]
instance TypeDecl.placed : Placed TypeDecl where
  move m d :=
    { modifiers := move m d.modifiers, kind := d.kind, name := d.name, nameSpan := m.span d.nameSpan
      generics := move m d.generics, primary := move m d.primary, base := move m d.base, members := move m d.members
      span := m.span d.span }
  move_move m n d := by simp only [move_move]; rfl

@[simps]
instance SourceUnit.placed : Placed SourceUnit where
  move m u := ⟨move m u.types⟩
  move_move m n u := by simp only [move_move]

@[simps move_start move_attributes move_modifiers]
instance MemberHead.placed : Placed MemberHead where
  move m head := ⟨move m head.start, move m head.attributes, move m head.modifiers, move m head.type⟩
  move_move m n head := by simp only [move_move]

/-! ## Findings -/

@[simps]
instance Label.placed : Placed Label where
  move m l := { l with span := m.span l.span }
  move_move _ _ _ := rfl

@[simps]
instance Suggestion.placed : Placed Suggestion where
  move m s := { s with span := move m s.span }
  move_move m n s := by simp only [move_move]

@[simps]
instance Diagnostic.placed : Placed Diagnostic where
  move m d := { d with primary := move m d.primary, secondary := move m d.secondary, suggestions := move m d.suggestions }
  move_move m n d := by simp only [move_move]

end NavCheck
