import Mathlib.Computability.Language
import NavCheck.Decl.Parser
import NavCheck.Proofs.Passing

/-!
# The grammar of declarations

The token sequences that a unit and its parts can be read from, as languages. The language of a whole is put together from those
of its parts and of the marks and words between them, so every token of a sequence belongs to a part or stands where the grammar
has it.
-/

namespace NavCheck

namespace Grammar

/-! ## Tokens -/

/-- A token of a kind. -/
def token (kind : TokenKind) : Language Token :=
  {ts | ∃ t : Token, t.kind = kind ∧ ts = [t]}

/-- A mark. -/
abbrev mark (mark : Punct) : Language Token :=
  token (.punct mark)

/-- A sign. -/
abbrev sign (sign : Sign) : Language Token :=
  token (.sign sign)

/-- A keyword. -/
abbrev word (word : Keyword) : Language Token :=
  token (.keyword word)

/-- Two languages have the empty sequence in their product when both have it. -/
theorem nil_mem_mul {L M : Language Token} : [] ∈ L * M ↔ [] ∈ L ∧ [] ∈ M := by
  simp [Language.mem_mul]

/-- A token is not the empty sequence. -/
theorem nil_notMem_token (kind : TokenKind) : [] ∉ token kind := by
  rintro ⟨t, -, h⟩
  cases h

/-- A name at a place. -/
def name (text : String) (span : Span) : Language Token :=
  {[⟨.name, text, span⟩]}

/-- A name somewhere. -/
def anyName (text : String) : Language Token :=
  {ts | ∃ span, ts = [⟨.name, text, span⟩]}

/-! ## Rows and options -/

section

variable {α : Type} (f : α → Language Token)

/-- Items one behind the other. -/
def row (list : List α) : Language Token :=
  (list.map f).prod

/-- Items with commas between them. -/
def commas : List α → Language Token
  | [] => 1
  | [a] => f a
  | a :: b :: rest => f a * mark .comma * commas (b :: rest)

/-- An item that may be missing. -/
def optional : Option α → Language Token
  | some a => f a
  | none => 1

/-- An item that must be there. -/
def given : Option α → Language Token
  | some a => f a
  | none => 0

/-- A row of two lists is the row of the first and the row of the second. -/
theorem row_append (list more : List α) : row f (list ++ more) = row f list * row f more := by
  rw [row, List.map_append, List.prod_append]
  rfl

/-- A row of one is just that. -/
theorem row_singleton (a : α) : row f [a] = f a := by
  rw [row, List.map_singleton, List.prod_singleton]

/-- One more item behind items that end with a comma. -/
theorem commas_append (list : List α) (a : α) :
    commas f (list ++ [a]) = row (fun a => f a * mark .comma) list * f a := by
  induction list with
  | nil => simp [commas, row]
  | cons b list ih =>
    have step : commas f (b :: (list ++ [a])) = f b * mark .comma * commas f (list ++ [a]) := by
      cases list <;> rfl
    rw [List.cons_append, step, ih]
    simp [row, mul_assoc]

/-- A list between commas may be mapped first. -/
theorem commas_map {β : Type} (g : β → α) : ∀ list : List β, commas (fun b => f (g b)) list = commas f (list.map g)
  | [] => rfl
  | [_] => rfl
  | a :: b :: rest => by
    rw [commas, commas_map g (b :: rest)]
    rfl

end

section

variable {α : Type} {f : α → Language Token} {L M : Language Token} {ts : List Token}

/-- Behind what is not there nothing is derived. -/
theorem notMem_given_none : ts ∉ L * given f none := by
  show ts ∉ L * 0
  rw [mul_zero]
  exact Language.notMem_zero ts

/-- Behind something that may be there on a condition, what is derived is derived without the condition. -/
theorem mem_mul_of_cond {b : Bool} (h : ts ∈ L * cond b M 0) : ts ∈ L * M := by
  cases b
  · exact (Language.notMem_zero ts (mul_zero L ▸ h)).elim
  · exact h

/-- What must be there is not derived from the empty sequence when nothing of its kind is. -/
theorem nil_notMem_given (h : ∀ a, [] ∉ f a) (o : Option α) : [] ∉ given f o := by
  cases o with
  | none => exact Language.notMem_zero _
  | some a => exact h a

end

/-! ## Types and expressions -/

/-- The suffix of a type. -/
def suffix : TypeSuffix → Language Token
  | .nullable => mark .question
  | .array => mark .openBracket * mark .closeBracket

mutual

/-- A written type. -/
def type : TypeExpr → Language Token
  | ⟨name, args, suffixes, _⟩ => anyName name * typeArgs args * row suffix suffixes

/-- The arguments of a type, if there are any. -/
def typeArgs : List TypeExpr → Language Token
  | [] => 1
  | arg :: args => sign .less * type arg * moreTypes args * sign .greater

/-- Further arguments of a type. -/
def moreTypes : List TypeExpr → Language Token
  | [] => 1
  | arg :: args => mark .comma * type arg * moreTypes args

end

/-- A type is not derived from the empty sequence. -/
theorem nil_notMem_type (t : TypeExpr) : [] ∉ type t := by
  obtain ⟨name, args, suffixes, span⟩ := t
  rw [type, nil_mem_mul, nil_mem_mul]
  rintro ⟨⟨⟨span, h⟩, -⟩, -⟩
  cases h

/-- An expression: the tokens that a derivation of it goes over. -/
def expr (e : Expr) : Language Token :=
  {ts | ∃ c d : Cursor, Reads (.assign 0 e) c d ∧ c.Passes ts d}

/-- An initializer or a default value, if there is one. -/
def initial : Option Expr → Language Token :=
  optional fun e => sign .assign * expr e

/-- An expression and a semicolon. -/
def exprAndEnd (e : Expr) : Language Token :=
  expr e * mark .semicolon

/-- An expression behind an arrow. -/
def arrow (e : Expr) : Language Token :=
  sign .arrow * exprAndEnd e

/-! ## Statements -/

/-- A condition in parentheses. -/
def condition (e : Expr) : Language Token :=
  mark .openParen * expr e * mark .closeParen

mutual

/-- A statement. -/
def statement : Statement → Language Token
  | .block list _ => mark .openBrace * statements list * mark .closeBrace
  | .give value _ => word .returnKw * optional expr value * mark .semicolon
  | .branch test thenBranch elseBranch _ =>
    word .ifKw * condition test * statement thenBranch *
      match elseBranch with
      | some s => word .elseKw * statement s
      | none => 1
  | .local written text span init _ =>
    (match written with
      | some t => type t
      | none => word .varKw) * name text span * initial init * mark .semicolon
  | .expr value => expr value * mark .semicolon

/-- Statements. -/
def statements : List Statement → Language Token
  | [] => 1
  | s :: rest => statement s * statements rest

end

/-- A statement is not derived from the empty sequence. -/
theorem nil_notMem_statement (s : Statement) : [] ∉ statement s := by
  cases s with
  | branch _ _ elseBranch _ => cases elseBranch <;> simp [statement, nil_mem_mul, nil_notMem_token]
  | «local» type _ _ _ _ => cases type <;> simp [statement, nil_mem_mul, nil_notMem_token]
  | _ => simp [statement, nil_mem_mul, nil_notMem_token]

/-- A body. -/
def body : Body → Language Token
  | .expr value => arrow value
  | .block b => mark .openBrace * statements b.statements * mark .closeBrace

/-! ## Headers -/

/-- A modifier. -/
def modifier (m : Modifier) : Language Token :=
  {ts | ∃ kind : TokenKind, ((∃ word : Keyword, word.isModifier = true ∧ kind = .keyword word) ∨
    (kind = .name ∧ m.text ∈ contextualModifiers)) ∧ ts = [⟨kind, m.text, m.span⟩]}

/-- Attributes in brackets, perhaps with a target in front of them. -/
structure AttributeGroup where
  target : Option String
  attributes : List Attribute
  targets : ∀ a ∈ attributes, a.target = target
  nonempty : attributes ≠ []

/-- A list of attributes. -/
def attributeGroup (g : AttributeGroup) : Language Token :=
  mark .openBracket * optional (fun text => anyName text * mark .colon) g.target *
    commas (fun a => name a.name a.span) g.attributes * mark .closeBracket

/-- Attributes, in any number of lists. -/
def attributes (list : List Attribute) : Language Token :=
  {ts | ∃ groups : List AttributeGroup, groups.flatMap (·.attributes) = list ∧ ts ∈ row attributeGroup groups}

/-- A primary constructor parameter. -/
def primaryParam (p : PrimaryParam) : Language Token :=
  attributes p.attributes * row modifier p.modifiers * type p.type * name p.name p.nameSpan * initial p.default

/-- Primary constructor parameters in parentheses. -/
def primary (params : List PrimaryParam) : Language Token :=
  mark .openParen * commas primaryParam params * mark .closeParen

/-- What is asked of a generic parameter. -/
def constraint : GenericConstraint → Language Token
  | .classOnly => word .classKw
  | .structOnly => word .structKw
  | .type t => type t

/-- Generic parameters without what is asked of them, if there are any. -/
def generics (list : List GenericParam) : Language Token :=
  if list.isEmpty then 1 else sign .less * commas (fun g => name g.name g.span) list * sign .greater

/-- A constraint clause: what is asked of the generic parameter of a name. -/
def clause (c : String × GenericConstraint) : Language Token :=
  word .whereKw * anyName c.1 * mark .colon * constraint c.2

/-- The constraint clauses of generic parameters: each is for one of the parameters, no two are for the same, and what they ask
is what the parameters have. -/
def clauses (list : List GenericParam) : Language Token :=
  {ts | ∃ asked : List (String × GenericConstraint), (asked.map (·.1)).Nodup ∧ (∀ c ∈ asked, c.1 ∈ list.map (·.name)) ∧
    (∀ g ∈ list, g.constraint = asked.lookup g.name) ∧ ts ∈ row clause asked}

/-- Arguments in parentheses. -/
def arguments (args : List Expr) : Language Token :=
  mark .openParen * commas expr args * mark .closeParen

/-- A base behind the colon. -/
def base (b : BaseSpec) : Language Token :=
  type b.type * optional arguments b.args

/-! ## Members -/

/-- A parameter. -/
def param (p : Param) : Language Token :=
  type p.type * name p.name p.nameSpan * initial p.default

/-- The word that begins an accessor. -/
def accessorKind : AccessorKind → Language Token
  | .get => word .getKw
  | .set => word .setKw

/-- An accessor. -/
def accessor (a : Accessor) : Language Token :=
  accessorKind a.kind *
    match a.body with
    | some b => body b
    | none => mark .semicolon

/-- An accessor is not derived from the empty sequence. -/
theorem nil_notMem_accessor (a : Accessor) : [] ∉ accessor a := by
  obtain ⟨kind, body, span⟩ := a
  cases kind <;> simp [accessor, accessorKind, nil_mem_mul, nil_notMem_token]

/-- What a property or an indexer does. -/
def propertyBody : PropertyBody → Language Token
  | .expr value => arrow value
  | .accessors list => mark .openBrace * row accessor list * mark .closeBrace

/-- The initializer of a property, if there is one. -/
def propertyInit : Option Expr → Language Token :=
  optional fun e => sign .assign * exprAndEnd e

/-- What stands in front of the name of a member. -/
def head (list : List Attribute) (modifiers : List Modifier) (written : TypeExpr) : Language Token :=
  attributes list * row modifier modifiers * type written

/-- A member. -/
def member : Member → Language Token
  | .field f => head f.attributes f.modifiers f.type * name f.name f.nameSpan * initial f.init * mark .semicolon
  | .property p =>
    head p.attributes p.modifiers p.type * name p.name p.nameSpan * propertyBody p.body * propertyInit p.init
  | .method d =>
    head d.attributes d.modifiers d.returnType * name d.name d.nameSpan * mark .openParen * commas param d.params *
      mark .closeParen * body d.body
  | .indexer i =>
    head i.attributes i.modifiers i.type * word .thisKw * mark .openBracket * commas param i.params * mark .closeBracket *
      propertyBody i.body

/-- A member is not derived from the empty sequence. -/
theorem nil_notMem_member (m : Member) : [] ∉ member m := by
  cases m <;> simp [member, head, nil_mem_mul, nil_notMem_type]

/-! ## Types and units -/

/-- The word that begins a declaration. -/
def typeKind : TypeKind → Language Token
  | .classType => word .classKw
  | .structType => word .structKw

/-- A declaration. -/
def typeDecl (d : TypeDecl) : Language Token :=
  row modifier d.modifiers * typeKind d.kind * name d.name d.nameSpan * generics d.generics *
    optional primary d.primary * optional (fun b => mark .colon * base b) d.base * clauses d.generics *
    (mark .openBrace * row member d.members * mark .closeBrace)

/-- A declaration is not derived from the empty sequence. -/
theorem nil_notMem_typeDecl (d : TypeDecl) : [] ∉ typeDecl d := by
  simp [typeDecl, nil_mem_mul, nil_notMem_token]

/-- A unit. -/
def unit (u : SourceUnit) : Language Token :=
  row typeDecl u.types

end Grammar

end NavCheck
