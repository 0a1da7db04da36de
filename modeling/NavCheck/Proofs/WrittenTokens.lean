import NavCheck.Proofs.Alike
import NavCheck.Proofs.Legible

/-!
# The tokens of a written expression

`Expr.tokens` are the tokens that a tree stands for when no parentheses are added, as they come from the lexer but without
places. An expression fits when it can be written like that: its names are names, its numbers are in range and its operands
are tight enough. The text of an expression that fits is cut into its tokens.
-/

namespace NavCheck

namespace Token

/-- The token of a name. -/
def ofName (name : String) : Token :=
  ⟨.name, name, default⟩

/-- The token of a mark. -/
def ofMark (mark : Punct) : Token :=
  ⟨.punct mark, String.ofList [mark.char], default⟩

/-- The token of a sign. -/
def ofSign (sign : Sign) : Token :=
  ⟨.sign sign, sign.text, default⟩

/-- The token of a keyword. -/
def ofKeyword (word : Keyword) : Token :=
  ⟨.keyword word, word.text, default⟩

end Token

/-- A comma and the tokens of more items, unless there are none. -/
def behindComma {α : Type} (more : List α) (tokens : List Token) : List Token :=
  match more with
  | [] => []
  | _ :: _ => .ofMark .comma :: tokens

/-- The token of a literal. -/
def Literal.token : Literal → Token
  | .int value => ⟨.number value.toNat, toString value, default⟩
  | .str value => ⟨.string value, Text.quote value, default⟩
  | .bool true => .ofKeyword .trueKw
  | .bool false => .ofKeyword .falseKw
  | .null => .ofKeyword .nullKw

/-- The tokens of a member name. -/
def MemberName.tokens : MemberName → List Token
  | .plain name => [.ofName name]
  | .keyed name => [.ofMark .dollar, .ofName name]

/-- The tokens of suffixes; two `?` make one sign. -/
def suffixTokens : List TypeSuffix → List Token
  | .nullable :: .nullable :: suffixes => .ofSign .coalesce :: suffixTokens suffixes
  | .nullable :: suffixes => .ofMark .question :: suffixTokens suffixes
  | .array :: suffixes => .ofMark .openBracket :: .ofMark .closeBracket :: suffixTokens suffixes
  | [] => []

/-- Type arguments with the angle brackets around them, unless there are none. -/
def inAngles {α : Type} (args : List α) (tokens : List Token) : List Token :=
  match args with
  | [] => []
  | _ :: _ => .ofSign .less :: (tokens ++ [.ofSign .greater])

mutual

/-- The tokens of a type. -/
def TypeExpr.tokens : TypeExpr → List Token
  | ⟨name, args, suffixes, _⟩ => .ofName name :: (inAngles args (typeTokens args) ++ suffixTokens suffixes)

/-- The tokens of types with commas between them. -/
def typeTokens : List TypeExpr → List Token
  | [] => []
  | t :: ts => t.tokens ++ behindComma ts (typeTokens ts)

end

/-- The tokens of a parameter. -/
def LambdaParam.tokens (p : LambdaParam) : List Token :=
  (p.type.elim [] TypeExpr.tokens) ++ [.ofName p.name]

/-- The tokens of parameters with commas between them. -/
def paramTokens : List LambdaParam → List Token
  | [] => []
  | p :: ps => p.tokens ++ behindComma ps (paramTokens ps)

/-- The tokens of the parameters of a lambda. -/
def lambdaParamsTokens (params : List LambdaParam) : List Token :=
  match soleName? params with
  | some name => [.ofName name]
  | none => .ofMark .openParen :: (paramTokens params ++ [.ofMark .closeParen])

/-- An initializer with its braces, unless it has no entries. -/
def inBraces (entries : List Entry) (tokens : List Token) : List Token :=
  match entries with
  | [] => []
  | _ :: _ => .ofMark .openBrace :: (tokens ++ [.ofMark .closeBrace])

mutual

/-- The tokens of an expression that is written without further parentheses. -/
def Expr.tokens : Expr → List Token
  | .literal value _ => [value.token]
  | .name text _ => [.ofName text]
  | .self _ => [.ofKeyword .thisKw]
  | .unary op operand _ => .ofSign op.sign :: operand.tokens
  | .binary op left right _ => left.tokens ++ .ofSign op.sign :: right.tokens
  | .conditional condition thenBranch elseBranch _ =>
    condition.tokens ++ .ofMark .question :: (thenBranch.tokens ++ .ofMark .colon :: elseBranch.tokens)
  | .assign target value _ => target.tokens ++ .ofSign .assign :: value.tokens
  | .lambda params body _ => lambdaParamsTokens params ++ .ofSign .arrow :: body.tokens
  | .paren inner _ => .ofMark .openParen :: (inner.tokens ++ [.ofMark .closeParen])
  | .access base link guarded _ => base.tokens ++ ((if guarded then [.ofMark .question] else []) ++ link.tokens)
  | .create type args entries _ =>
    .ofKeyword .newKw :: (type.tokens ++ .ofMark .openParen :: (listTokens args ++ .ofMark .closeParen ::
      inBraces entries (entryTokens entries)))

/-- The tokens of a link. -/
def Link.tokens : Link → List Token
  | .member name _ => .ofMark .dot :: name.tokens
  | .element indices => .ofMark .openBracket :: (listTokens indices ++ [.ofMark .closeBracket])
  | .invoke args => .ofMark .openParen :: (listTokens args ++ [.ofMark .closeParen])

/-- The tokens of expressions with commas between them. -/
def listTokens : List Expr → List Token
  | [] => []
  | e :: es => e.tokens ++ behindComma es (listTokens es)

/-- The tokens of entries with commas between them. -/
def entryTokens : List Entry → List Token
  | [] => []
  | .member name _ value :: entries =>
    name.tokens ++ .ofSign .assign :: (value.tokens ++ behindComma entries (entryTokens entries))
  | .element indices _ value :: entries =>
    .ofMark .openBracket :: (listTokens indices ++ .ofMark .closeBracket :: .ofSign .assign ::
      (value.tokens ++ behindComma entries (entryTokens entries)))

end

/-! ## What can be written -/

/-- Whether a text is one name. -/
def IsName (s : String) : Prop :=
  ∃ c cs, s.toList = c :: cs ∧ Lexer.scan c cs = { kind := .name, extra := cs.length }

/-- Whether no `[]` stands behind a `?`. -/
def ArraysFirst : List TypeSuffix → Prop
  | [] => True
  | .array :: suffixes => ArraysFirst suffixes
  | .nullable :: suffixes => ∀ s ∈ suffixes, s = .nullable

mutual

/-- Whether a type can be written: its names are names, and no `[]` stands behind a `?`. -/
def TypeExpr.Fits : TypeExpr → Prop
  | ⟨name, args, suffixes, _⟩ => IsName name ∧ TypesFit args ∧ ArraysFirst suffixes

/-- Whether types can be written. -/
def TypesFit : List TypeExpr → Prop
  | [] => True
  | t :: ts => t.Fits ∧ TypesFit ts

end

/-- Whether a literal can be written. -/
def Literal.Fits : Literal → Prop
  | .int value => 0 ≤ value ∧ value.toNat ≤ Lexer.maxNumber
  | _ => True

/-- Whether a member name can be written. -/
def MemberName.Fits : MemberName → Prop
  | .plain name | .keyed name => IsName name

/-- Whether a parameter can be written. -/
def LambdaParam.Fits (p : LambdaParam) : Prop :=
  (∀ type ∈ p.type, type.Fits) ∧ IsName p.name

mutual

/-- Whether an expression can be written without further parentheses. -/
def Expr.Fits : Expr → Prop
  | .literal value _ => value.Fits
  | .name text _ => IsName text
  | .self _ => True
  | .unary _ operand _ => levels.unary ≤ operand.level ∧ operand.Fits
  | .binary op left right _ => op.leftLevel ≤ left.level ∧ op.rightLevel ≤ right.level ∧ left.Fits ∧ right.Fits
  | .conditional condition thenBranch elseBranch _ => levels.conditional + 1 ≤ condition.level ∧
    levels.conditional ≤ thenBranch.level ∧ levels.conditional ≤ elseBranch.level ∧ condition.Fits ∧ thenBranch.Fits ∧
      elseBranch.Fits
  | .assign target value _ =>
    levels.conditional + 1 ≤ target.level ∧ levels.assign ≤ value.level ∧ target.Fits ∧ value.Fits
  | .lambda params body _ => (∀ p ∈ params, p.Fits) ∧ levels.assign ≤ body.level ∧ body.Fits
  | .paren inner _ => inner.Fits
  | .access base link _ _ => levels.postfixed ≤ base.level ∧ base.Fits ∧ link.Fits
  | .create type args entries _ => type.Fits ∧ ListFits args ∧ EntriesFit entries

/-- Whether a link can be written. -/
def Link.Fits : Link → Prop
  | .member name _ => name.Fits
  | .element indices => indices ≠ [] ∧ ListFits indices
  | .invoke args => ListFits args

/-- Whether expressions can be written. -/
def ListFits : List Expr → Prop
  | [] => True
  | e :: es => e.Fits ∧ ListFits es

/-- Whether entries can be written. -/
def EntriesFit : List Entry → Prop
  | [] => True
  | .member name _ value :: entries => name.Fits ∧ levels.assign ≤ value.level ∧ value.Fits ∧ EntriesFit entries
  | .element indices _ value :: entries =>
    indices ≠ [] ∧ ListFits indices ∧ levels.assign ≤ value.level ∧ value.Fits ∧ EntriesFit entries

end

theorem Literal.startsOperand_token (value : Literal) : value.token.startsOperand = true := by
  cases value with
  | bool b => cases b <;> rfl
  | _ => rfl

/-- A written expression begins with a token that an operand can begin with, and with a parenthesis only if it opens with
one. -/
theorem Expr.head_tokens (e : Expr) : ∃ t ts, e.tokens = t :: ts ∧ t.startsOperand = true ∧
    (t.isMark .openParen = true → e.opensParen = true) := by
  cases e with
  | literal value =>
    refine ⟨value.token, [], rfl, value.startsOperand_token, ?_⟩
    cases value with
    | bool b => cases b <;> simp [Literal.token, Token.isMark, Token.ofKeyword]
    | _ => simp [Literal.token, Token.isMark, Token.ofKeyword]
  | name => exact ⟨_, _, rfl, rfl, by simp [Token.isMark, Token.ofName]⟩
  | self => exact ⟨_, _, rfl, rfl, by simp [Token.isMark, Token.ofKeyword]⟩
  | unary op => exact ⟨_, _, rfl, by cases op <;> rfl, by simp [Token.isMark, Token.ofSign]⟩
  | binary _ left =>
    obtain ⟨t, ts, ht, hs⟩ := left.head_tokens
    exact ⟨t, _, by rw [Expr.tokens, ht, List.cons_append], hs⟩
  | conditional condition =>
    obtain ⟨t, ts, ht, hs⟩ := condition.head_tokens
    exact ⟨t, _, by rw [Expr.tokens, ht, List.cons_append], hs⟩
  | assign target =>
    obtain ⟨t, ts, ht, hs⟩ := target.head_tokens
    exact ⟨t, _, by rw [Expr.tokens, ht, List.cons_append], hs⟩
  | lambda params =>
    cases h : soleName? params with
    | some name =>
      exact ⟨_, _, by rw [Expr.tokens, lambdaParamsTokens, h, List.cons_append], rfl, by simp [Token.isMark, Token.ofName]⟩
    | none => exact ⟨_, _, by rw [Expr.tokens, lambdaParamsTokens, h, List.cons_append], rfl, by simp [Expr.opensParen, h]⟩
  | paren => exact ⟨_, _, rfl, rfl, fun _ => rfl⟩
  | access base =>
    obtain ⟨t, ts, ht, hs⟩ := base.head_tokens
    exact ⟨t, _, by rw [Expr.tokens, ht, List.cons_append], hs⟩
  | create => exact ⟨_, _, rfl, rfl, by simp [Token.isMark, Token.ofKeyword]⟩

end NavCheck
