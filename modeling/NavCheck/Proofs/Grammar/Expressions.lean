import NavCheck.Proofs.Passing

/-!
# The grammar of expressions

Expressions have twelve levels, from assignments down to primary expressions: `Derives construct ts` says that the grammar derives
the tokens `ts` from a construct. Every rule names each of the tokens that it puts between its parts, so all that is written
stands at its place in the tree, and every node has the place of its own tokens. Nothing here looks ahead: which of several
derivations is found is a matter of the parser.
-/

namespace NavCheck

/-- Tokens in the order of the source: of two tokens the first neither begins nor ends behind the second. -/
def InSourceOrder (tokens : List Token) : Prop :=
  tokens.Pairwise fun a b => a.span.start ≤ b.span.start ∧ a.span.stop ≤ b.span.stop

/-- The place of a row of tokens: from the start of the first to the end of the last, in the file of the first. -/
def extent : List Token → Span
  | [] => default
  | t :: ts => ⟨t.span.file, t.span.start, (ts.getLast?.getD t).span.stop⟩

namespace Grammar

/-! ## Levels -/

/-- The levels of expressions, from the loosest to the tightest. -/
inductive Level where
  | assignment | conditional | coalescing | disjunction | conjunction | equality | relation | sum | product
  | unary | access | primary
deriving DecidableEq

namespace Level

/-- The place of a level in the row of levels. -/
def rank : Level → Nat
  | .assignment => 0
  | .conditional => 1
  | .coalescing => 2
  | .disjunction => 3
  | .conjunction => 4
  | .equality => 5
  | .relation => 6
  | .sum => 7
  | .product => 8
  | .unary => 9
  | .access => 10
  | .primary => 11

instance : LE Level :=
  ⟨fun l m => l.rank ≤ m.rank⟩

instance (l m : Level) : Decidable (l ≤ m) :=
  inferInstanceAs (Decidable (l.rank ≤ m.rank))

/-- The level of what an operator makes of its operands. -/
def ofOp : BinOp → Level
  | .coalesce => coalescing
  | .or => disjunction
  | .and => conjunction
  | .eq | .ne => equality
  | .lt | .le | .gt | .ge => relation
  | .add | .sub => sum
  | .mul | .div | .rem => product

/-- The level of the operands on the side on which an operator does not group: the next tighter one. -/
def ofOperand : BinOp → Level
  | .coalesce => disjunction
  | .or => conjunction
  | .and => equality
  | .eq | .ne => relation
  | .lt | .le | .gt | .ge => sum
  | .add | .sub => product
  | .mul | .div | .rem => unary

/-- The level of the left operand: only `??` groups to the right. -/
def ofLeft : BinOp → Level
  | .coalesce => ofOperand .coalesce
  | op => ofOp op

/-- The level of the right operand. -/
def ofRight : BinOp → Level
  | .coalesce => ofOp .coalesce
  | op => ofOperand op

end Level

/-! ## Derivations -/

/-- What the grammar has rules for. Arguments and parameters have their parentheses with them, and an initializer its braces;
the other rows are what stands between brackets. -/
inductive Construct where
  | expr (level : Level) (e : Expr)
  | link (link : Link)
  | memberName (name : MemberName) (span : Span)
  | exprs (es : List Expr)
  | args (es : List Expr)
  | params (params : List LambdaParam)
  | paramList (params : List LambdaParam)
  | param (param : LambdaParam)
  | creation (args : List Expr) (entries : List Entry)
  | initializer (entries : List Entry)
  | entryList (entries : List Entry)
  | entry (entry : Entry)
  | type (type : TypeExpr)
  | typeArgs (types : List TypeExpr)
  | types (types : List TypeExpr)
  | suffixes (suffixes : List TypeSuffix)

/-- The grammar derives tokens from a construct. -/
inductive Derives : Construct → List Token → Prop
  /- Expressions, level by level -/
  | tighter {l m e ts} : l ≤ m → Derives (.expr m e) ts → Derives (.expr l e) ts
  | assign {target value ts us} {sign : Token} :
    Derives (.expr .conditional target) ts → sign.kind = .sign .assign → Derives (.expr .assignment value) us →
    Derives (.expr .assignment (.assign target value (extent (ts ++ sign :: us)))) (ts ++ sign :: us)
  | conditional {condition thenBranch elseBranch ts us vs} {question colon : Token} :
    Derives (.expr .coalescing condition) ts → question.kind = .punct .question →
    Derives (.expr .assignment thenBranch) us → colon.kind = .punct .colon → Derives (.expr .assignment elseBranch) vs →
    Derives (.expr .conditional
      (.conditional condition thenBranch elseBranch (extent (ts ++ question :: (us ++ colon :: vs)))))
      (ts ++ question :: (us ++ colon :: vs))
  | binary {op : BinOp} {left right ts us} {sign : Token} :
    Derives (.expr (.ofLeft op) left) ts → sign.kind = .sign op.sign → Derives (.expr (.ofRight op) right) us →
    Derives (.expr (.ofOp op) (.binary op left right (extent (ts ++ sign :: us)))) (ts ++ sign :: us)
  | unary {op : UnOp} {operand ts} {sign : Token} :
    sign.kind = .sign op.sign → Derives (.expr .unary operand) ts →
    Derives (.expr .unary (.unary op operand (extent (sign :: ts)))) (sign :: ts)
  | access {base link ts us} :
    Derives (.expr .access base) ts → Derives (.link link) us →
    Derives (.expr .access (.access base link false (extent (ts ++ us)))) (ts ++ us)
  | guarded {base link ts us} {question : Token} :
    Derives (.expr .access base) ts → question.kind = .punct .question → Derives (.link link) us →
    Derives (.expr .access (.access base link true (extent (ts ++ question :: us)))) (ts ++ question :: us)
  | name {t : Token} : t.kind = .name → Derives (.expr .primary (.name t.lexeme t.span)) [t]
  | literal {value} {t : Token} : t.kind.literal? = some value → Derives (.expr .primary (.literal value t.span)) [t]
  | self {t : Token} : t.kind = .keyword .thisKw → Derives (.expr .primary (.self t.span)) [t]
  | paren {inner ts} {opening closing : Token} :
    opening.kind = .punct .openParen → Derives (.expr .assignment inner) ts → closing.kind = .punct .closeParen →
    Derives (.expr .primary (.paren inner (extent (opening :: (ts ++ [closing]))))) (opening :: (ts ++ [closing]))
  | lambda {params body ts us} {arrow : Token} :
    Derives (.params params) ts → arrow.kind = .sign .arrow → Derives (.expr .assignment body) us →
    Derives (.expr .primary (.lambda params body (extent (ts ++ arrow :: us)))) (ts ++ arrow :: us)
  | create {type args entries ts us} {word : Token} :
    word.kind = .keyword .newKw → Derives (.type type) ts → Derives (.creation args entries) us →
    Derives (.expr .primary (.create type args entries (extent (word :: (ts ++ us))))) (word :: (ts ++ us))
  /- Links -/
  | member {name span ts} {dot : Token} :
    dot.kind = .punct .dot → Derives (.memberName name span) ts → Derives (.link (.member name span)) (dot :: ts)
  | element {indices ts} {opening closing : Token} :
    opening.kind = .punct .openBracket → Derives (.exprs indices) ts → closing.kind = .punct .closeBracket →
    Derives (.link (.element indices)) (opening :: (ts ++ [closing]))
  | invoke {args ts} : Derives (.args args) ts → Derives (.link (.invoke args)) ts
  | plainName {t : Token} : t.kind = .name → Derives (.memberName (.plain t.lexeme) t.span) [t]
  | keyedName {dollar t : Token} :
    dollar.kind = .punct .dollar → t.kind = .name → t.span.start = dollar.span.stop →
    Derives (.memberName (.keyed t.lexeme) (extent [dollar, t])) [dollar, t]
  /- Rows of expressions -/
  | lastExpr {e ts} : Derives (.expr .assignment e) ts → Derives (.exprs [e]) ts
  | moreExprs {e es ts us} {comma : Token} :
    Derives (.expr .assignment e) ts → comma.kind = .punct .comma → Derives (.exprs es) us →
    Derives (.exprs (e :: es)) (ts ++ comma :: us)
  | noArgs {opening closing : Token} :
    opening.kind = .punct .openParen → closing.kind = .punct .closeParen → Derives (.args []) [opening, closing]
  | someArgs {es ts} {opening closing : Token} :
    opening.kind = .punct .openParen → Derives (.exprs es) ts → closing.kind = .punct .closeParen →
    Derives (.args es) (opening :: (ts ++ [closing]))
  /- Parameters of lambdas -/
  | soleParam {t : Token} : t.kind = .name → Derives (.params [⟨none, t.lexeme, t.span⟩]) [t]
  | noParams {opening closing : Token} :
    opening.kind = .punct .openParen → closing.kind = .punct .closeParen → Derives (.params []) [opening, closing]
  | someParams {params ts} {opening closing : Token} :
    opening.kind = .punct .openParen → Derives (.paramList params) ts → closing.kind = .punct .closeParen →
    Derives (.params params) (opening :: (ts ++ [closing]))
  | lastParam {p ts} : Derives (.param p) ts → Derives (.paramList [p]) ts
  | moreParams {p ps ts us} {comma : Token} :
    Derives (.param p) ts → comma.kind = .punct .comma → Derives (.paramList ps) us →
    Derives (.paramList (p :: ps)) (ts ++ comma :: us)
  | untyped {t : Token} : t.kind = .name → Derives (.param ⟨none, t.lexeme, t.span⟩) [t]
  | typed {type ts} {t : Token} :
    Derives (.type type) ts → t.kind = .name → Derives (.param ⟨some type, t.lexeme, t.span⟩) (ts ++ [t])
  /- Creations -/
  | argsOnly {args ts} : Derives (.args args) ts → Derives (.creation args []) ts
  | argsAndEntries {args entries ts us} :
    Derives (.args args) ts → Derives (.initializer entries) us → Derives (.creation args entries) (ts ++ us)
  | entriesOnly {entries ts} : Derives (.initializer entries) ts → Derives (.creation [] entries) ts
  | noEntries {opening closing : Token} :
    opening.kind = .punct .openBrace → closing.kind = .punct .closeBrace → Derives (.initializer []) [opening, closing]
  | someEntries {entries ts} {opening closing : Token} :
    opening.kind = .punct .openBrace → Derives (.entryList entries) ts → closing.kind = .punct .closeBrace →
    Derives (.initializer entries) (opening :: (ts ++ [closing]))
  | lastEntry {entry ts} : Derives (.entry entry) ts → Derives (.entryList [entry]) ts
  | lastEntryComma {entry ts} {comma : Token} :
    Derives (.entry entry) ts → comma.kind = .punct .comma → Derives (.entryList [entry]) (ts ++ [comma])
  | moreEntries {entry entries ts us} {comma : Token} :
    Derives (.entry entry) ts → comma.kind = .punct .comma → Derives (.entryList entries) us →
    Derives (.entryList (entry :: entries)) (ts ++ comma :: us)
  | memberEntry {name span value ts us} {sign : Token} :
    Derives (.memberName name span) ts → sign.kind = .sign .assign → Derives (.expr .assignment value) us →
    Derives (.entry (.member name span value)) (ts ++ sign :: us)
  | elementEntry {indices value ts us} {opening closing sign : Token} :
    opening.kind = .punct .openBracket → Derives (.exprs indices) ts → closing.kind = .punct .closeBracket →
    sign.kind = .sign .assign → Derives (.expr .assignment value) us →
    Derives (.entry (.element indices (extent (opening :: (ts ++ [closing]))) value))
      (opening :: (ts ++ [closing]) ++ sign :: us)
  /- Types -/
  | type {args suffixes ts us} {t : Token} :
    t.kind = .name → Derives (.typeArgs args) ts → Derives (.suffixes suffixes) us →
    Derives (.type ⟨t.lexeme, args, suffixes, extent (t :: (ts ++ us))⟩) (t :: (ts ++ us))
  | noTypeArgs : Derives (.typeArgs []) []
  | someTypeArgs {types ts} {opening closing : Token} :
    opening.kind = .sign .less → Derives (.types types) ts → closing.kind = .sign .greater →
    Derives (.typeArgs types) (opening :: (ts ++ [closing]))
  | lastType {type ts} : Derives (.type type) ts → Derives (.types [type]) ts
  | moreTypes {type types ts us} {comma : Token} :
    Derives (.type type) ts → comma.kind = .punct .comma → Derives (.types types) us →
    Derives (.types (type :: types)) (ts ++ comma :: us)
  | noSuffixes : Derives (.suffixes []) []
  | nullable {suffixes ts} {question : Token} :
    question.kind = .punct .question → Derives (.suffixes suffixes) ts →
    Derives (.suffixes (.nullable :: suffixes)) (question :: ts)
  | array {suffixes ts} {opening closing : Token} :
    opening.kind = .punct .openBracket → closing.kind = .punct .closeBracket → Derives (.suffixes suffixes) ts →
    Derives (.suffixes (.array :: suffixes)) (opening :: closing :: ts)

/-! ## Places of nodes -/

/-- That tokens of its own are derived from an expression somewhere among the tokens, and are its place. -/
def Placed (ts : List Token) (e : Expr) : Prop :=
  ∃ level own, own <:+: ts ∧ Derives (.expr level e) own ∧ e.span = extent own

theorem Placed.mono {ts us : List Token} {e : Expr} (h : Placed ts e) (hs : ts <:+: us) : Placed us e :=
  let ⟨level, own, ho, hd, he⟩ := h
  ⟨level, own, ho.trans hs, hd, he⟩

/-- The expressions of a construct and everything inside them. -/
def Construct.nodes : Construct → List Expr
  | .expr _ e => e.nodes
  | .link l => l.nodes
  | .exprs es => listNodes es
  | .args es => listNodes es
  | .creation es inits => listNodes es ++ entryNodes inits
  | .initializer inits => entryNodes inits
  | .entryList inits => entryNodes inits
  | .entry init => entryNodes [init]
  | _ => []

/-- The place of an expression that is derived is that of its tokens. -/
theorem Derives.span_eq {construct : Construct} {ts : List Token} (h : Derives construct ts) :
    match construct with
    | .expr _ e => e.span = extent ts
    | _ => True := by
  induction h with
  | tighter _ _ ih => exact ih
  | _ => first | rfl | trivial

theorem Derives.placed {level : Level} {e : Expr} {ts : List Token} (h : Derives (.expr level e) ts) : Placed ts e :=
  ⟨level, ts, List.infix_rfl, h, h.span_eq⟩

theorem entryNodes_cons (entry : Entry) (entries : List Entry) :
    entryNodes (entry :: entries) = entryNodes [entry] ++ entryNodes entries := by
  cases entry <;> simp [entryNodes]

theorem infix_behind (ts : List Token) (t : Token) (us : List Token) : us <:+: ts ++ t :: us :=
  ⟨ts ++ [t], [], by simp⟩

/-- Expressions that each have a place among the tokens. -/
def AllPlaced (ts : List Token) (ns : List Expr) : Prop :=
  ∀ n ∈ ns, Placed ts n

namespace AllPlaced

variable {ts us : List Token} {e : Expr} {ns ms : List Expr}

theorem nil : AllPlaced ts [] :=
  fun _ hn => absurd hn List.not_mem_nil

theorem cons (h : Placed ts e) (hs : AllPlaced ts ns) : AllPlaced ts (e :: ns) :=
  List.forall_mem_cons.2 ⟨h, hs⟩

theorem append (hs : AllPlaced ts ns) (hs' : AllPlaced ts ms) : AllPlaced ts (ns ++ ms) :=
  List.forall_mem_append.2 ⟨hs, hs'⟩

/-- Places among some tokens are places among more of them. -/
theorem mono (hs : AllPlaced us ns) (h : us <:+: ts) : AllPlaced ts ns :=
  fun n hn => (hs n hn).mono h

/-- What is placed among tokens in front. -/
theorem before (hs : AllPlaced ts ns) : AllPlaced (ts ++ us) ns :=
  hs.mono (List.prefix_append _ _).isInfix

/-- What is placed among tokens behind. -/
theorem behind (hs : AllPlaced us ns) : AllPlaced (ts ++ us) ns :=
  hs.mono (List.suffix_append _ _).isInfix

/-- What is placed behind a token that stands behind others. -/
theorem behindMark {t : Token} (hs : AllPlaced us ns) : AllPlaced (ts ++ t :: us) ns :=
  hs.mono (infix_behind _ _ _)

/-- What is placed behind one token. -/
theorem tail {t : Token} (hs : AllPlaced ts ns) : AllPlaced (t :: ts) ns :=
  hs.mono (List.suffix_cons _ _).isInfix

/-- What is placed between two tokens. -/
theorem between {t u : Token} (hs : AllPlaced ts ns) : AllPlaced (t :: (ts ++ [u])) ns :=
  hs.before.tail

end AllPlaced

/-- Everything inside a construct that is derived has its place among the tokens. -/
theorem Derives.placed_nodes {construct : Construct} {ts : List Token} (h : Derives construct ts) :
    ∀ n ∈ construct.nodes, Placed ts n := by
  induction h with
  | tighter _ _ ih => exact ih
  | assign h₁ hk h₂ ih₁ ih₂ =>
    exact AllPlaced.cons (Derives.assign h₁ hk h₂).placed (.append (.before ih₁) (.behindMark ih₂))
  | conditional h₁ hq h₂ hc h₃ ih₁ ih₂ ih₃ =>
    rw [Construct.nodes, Expr.nodes, List.append_assoc]
    exact AllPlaced.cons (Derives.conditional h₁ hq h₂ hc h₃).placed
      (.append (.before ih₁) (.behindMark (.append (.before ih₂) (.behindMark ih₃))))
  | binary h₁ hk h₂ ih₁ ih₂ =>
    exact AllPlaced.cons (Derives.binary h₁ hk h₂).placed (.append (.before ih₁) (.behindMark ih₂))
  | unary hk h ih => exact AllPlaced.cons (Derives.unary hk h).placed (.tail ih)
  | access h₁ h₂ ih₁ ih₂ => exact AllPlaced.cons (Derives.access h₁ h₂).placed (.append (.before ih₁) (.behind ih₂))
  | guarded h₁ hq h₂ ih₁ ih₂ =>
    exact AllPlaced.cons (Derives.guarded h₁ hq h₂).placed (.append (.before ih₁) (.behindMark ih₂))
  | name hk => exact AllPlaced.cons (Derives.name hk).placed .nil
  | literal hv => exact AllPlaced.cons (Derives.literal hv).placed .nil
  | self hk => exact AllPlaced.cons (Derives.self hk).placed .nil
  | paren ho h hc ih => exact AllPlaced.cons (Derives.paren ho h hc).placed (.between ih)
  | lambda h₁ hk h₂ _ ih => exact AllPlaced.cons (Derives.lambda h₁ hk h₂).placed (.behindMark ih)
  | create hk h₁ h₂ _ ih =>
    rw [Construct.nodes, Expr.nodes]
    exact AllPlaced.cons (Derives.create hk h₁ h₂).placed (AllPlaced.behind ih).tail
  | member | plainName | keyedName | noArgs | soleParam | noParams | someParams | lastParam | moreParams | untyped | typed
  | noEntries | type | noTypeArgs | someTypeArgs | lastType | moreTypes | noSuffixes | nullable | array =>
    exact AllPlaced.nil
  | element _ _ _ ih => exact AllPlaced.between ih
  | invoke _ ih => exact ih
  | lastExpr _ ih => exact AllPlaced.append ih .nil
  | moreExprs _ _ _ ih₁ ih₂ => exact AllPlaced.append (.before ih₁) (.behindMark ih₂)
  | someArgs _ _ _ ih => exact AllPlaced.between ih
  | argsOnly _ ih => exact AllPlaced.append ih .nil
  | argsAndEntries _ _ ih₁ ih₂ => exact AllPlaced.append (.before ih₁) (.behind ih₂)
  | entriesOnly _ ih => exact ih
  | someEntries _ _ _ ih => exact AllPlaced.between ih
  | lastEntry _ ih => exact ih
  | lastEntryComma _ _ ih => exact AllPlaced.before ih
  | moreEntries _ _ _ ih₁ ih₂ =>
    rw [Construct.nodes, entryNodes_cons]
    exact AllPlaced.append (.before ih₁) (.behindMark ih₂)
  | memberEntry _ _ _ _ ih => exact AllPlaced.append (.behindMark ih) .nil
  | elementEntry _ _ _ _ _ ih₁ ih₂ =>
    exact AllPlaced.append (.append (AllPlaced.before (AllPlaced.between ih₁)) (.behindMark ih₂)) .nil

end Grammar

end NavCheck
