import NavCheck.Expr.Parser
import NavCheck.Proofs.Outcomes

/-!
# Derivations of expressions

What the expression parser reads, as a relation: `Reads phrase c d` says that the phrase is read from the cursor `c` up to the
cursor `d`. It has one rule for each way in which a function of the parser comes to a result, with what the function looks at
as premises, so statements about expressions that were read are proved by induction on a derivation. `reads_iff` says that
derivations are exactly the successful runs of the parser.
-/

namespace NavCheck

/-- What a function of the parser reads, with the arguments that it reads it for. Operators and accesses come behind what
was read from `start` on. -/
inductive Phrase where
  | assign (pending : Nat) (e : Expr)
  | conditional (pending : Nat) (e : Expr)
  | binary (pending least : Nat) (e : Expr)
  | operators (pending least : Nat) (start : Cursor) (left whole : Expr)
  | unary (pending : Nat) (e : Expr)
  | accesses (pending : Nat) (start : Cursor) (base whole : Expr)
  | link (start : AccessStart) (guarded : Bool) (link : Link)
  | list (es : List Expr)
  | bracketed (place : ClosePlace) (es : List Expr)
  | args (es : List Expr)
  | primary (pending : Nat) (e : Expr)
  | lambda (pending : Nat) (start : Cursor) (params : List LambdaParam) (e : Expr)
  | creation (start : Cursor) (e : Expr)
  | entries (entries : List Entry)
  | entry (entry : Entry)
  | entryValue (e : Expr)

namespace TokenKind

/-- The literal that a token stands for. -/
def literal? : TokenKind → Option Literal
  | .number value => some (.int value)
  | .string value => some (.str value)
  | .keyword .trueKw => some (.bool true)
  | .keyword .falseKw => some (.bool false)
  | .keyword .nullKw => some .null
  | _ => none

end TokenKind

namespace BinOp

/-- How tightly the operators behind the right operand of an operator must bind. -/
def rightLeast (op : BinOp) : Nat :=
  if op.groupsRight then op.precedence else op.precedence + 1

end BinOp

/-- What is read from one cursor up to another. -/
inductive Reads : Phrase → Cursor → Cursor → Prop
  | assignEnd {pending e} {c d : Cursor} :
    Reads (.conditional pending e) c d → d.accept? (.sign .assign) = none → Reads (.assign pending e) c d
  | assign {pending left right} {c d d' : Cursor} {sign : Parsed Token d} :
    Reads (.conditional pending left) c d → d.accept? (.sign .assign) = some sign →
    Reads (.assign pending right) sign.next d' →
    Reads (.assign pending (.assign left right (c.spanTo d'))) c d'
  | conditionalEnd {pending e} {c d : Cursor} :
    Reads (.binary pending 0 e) c d → d.accept? (.punct .question) = none → Reads (.conditional pending e) c d
  | conditional {pending condition thenBranch elseBranch} {c c₁ c₂ d : Cursor} {question : Parsed Token c₁}
      {colon : Parsed Token c₂} :
    Reads (.binary pending 0 condition) c c₁ → c₁.accept? (.punct .question) = some question →
    Reads (.assign (pending + 1) thenBranch) question.next c₂ → c₂.accept? (.punct .colon) = some colon →
    Reads (.assign pending elseBranch) colon.next d →
    Reads (.conditional pending (.conditional condition thenBranch elseBranch (c.spanTo d))) c d
  | binary {pending least left whole} {c c₁ d : Cursor} :
    Reads (.unary pending left) c c₁ → Reads (.operators pending least c left whole) c₁ d →
    Reads (.binary pending least whole) c d
  | operatorsEnd {pending least left} {start c : Cursor} :
    c.binOp? least = none → Reads (.operators pending least start left left) c c
  | operators {pending least left right whole} {start c c₁ d : Cursor} {op : Parsed BinOp c} :
    c.binOp? least = some op → Reads (.binary pending op.value.rightLeast right) op.next c₁ →
    Reads (.operators pending least start (.binary op.value left right (start.spanTo c₁)) whole) c₁ d →
    Reads (.operators pending least start left whole) c d
  | unary {pending operand} {c d : Cursor} {op : Parsed UnOp c} :
    c.unOp? = some op → Reads (.unary pending operand) op.next d →
    Reads (.unary pending (.unary op.value operand (c.spanTo d))) c d
  | postfixed {pending base whole} {c c₁ d : Cursor} :
    c.unOp? = none → Reads (.primary pending base) c c₁ → Reads (.accesses pending c base whole) c₁ d →
    Reads (.unary pending whole) c d
  | accessesEnd {pending base} {start c : Cursor} :
    c.accessStart? pending = none → Reads (.accesses pending start base base) c c
  | accesses {pending base link whole} {start c c₁ d : Cursor} {mark : Parsed (AccessStart × Bool) c} :
    c.accessStart? pending = some mark → Reads (.link mark.value.1 mark.value.2 link) mark.next c₁ →
    Reads (.accesses pending start (.access base link mark.value.2 (start.spanTo c₁)) whole) c₁ d →
    Reads (.accesses pending start base whole) c d
  | member {guarded} {c : Cursor} {name : Parsed (MemberName × Span) c} :
    c.memberName guarded = .ok name → Reads (.link .dot guarded (.member name.value.1 name.value.2)) c name.next
  | element {guarded indices} {c d : Cursor} :
    c.sees (.punct .closeBracket) = false → Reads (.bracketed .indices indices) c d →
    Reads (.link .bracket guarded (.element indices)) c d
  | invoke {guarded args} {c d : Cursor} :
    Reads (.args args) c d → Reads (.link .paren guarded (.invoke args)) c d
  | listEnd {e} {c d : Cursor} :
    Reads (.assign 0 e) c d → d.accept? (.punct .comma) = none → Reads (.list [e]) c d
  | list {e es} {c c₁ d : Cursor} {comma : Parsed Token c₁} :
    Reads (.assign 0 e) c c₁ → c₁.accept? (.punct .comma) = some comma → Reads (.list es) comma.next d →
    Reads (.list (e :: es)) c d
  | bracketed {place es} {c d : Cursor} {close : Parsed Token d} :
    Reads (.list es) c d → d.accept? (.punct place.mark) = some close → Reads (.bracketed place es) c close.next
  | argsEnd {c : Cursor} {close : Parsed Token c} :
    c.accept? (.punct .closeParen) = some close → Reads (.args []) c close.next
  | args {es} {c d : Cursor} :
    c.accept? (.punct .closeParen) = none → Reads (.bracketed .args es) c d → Reads (.args es) c d
  | name {pending} {c : Cursor} {token : Parsed Token c} :
    c.accept? .name = some token → token.next.sees (.sign .arrow) = false →
    Reads (.primary pending (.name token.value.lexeme token.value.span)) c token.next
  | shortLambda {pending e} {c d : Cursor} {token : Parsed Token c} :
    c.accept? .name = some token → token.next.sees (.sign .arrow) = true →
    Reads (.lambda pending c [⟨none, token.value.lexeme, token.value.span⟩] e) token.next d →
    Reads (.primary pending e) c d
  | literal {pending value} {c : Cursor} {token : Parsed Token c} :
    c.next? = some token → token.value.kind.literal? = some value →
    Reads (.primary pending (.literal value token.value.span)) c token.next
  | self {pending} {c : Cursor} {token : Parsed Token c} :
    c.accept? (.keyword .thisKw) = some token → Reads (.primary pending (.self token.value.span)) c token.next
  | create {pending e} {c d : Cursor} {token : Parsed Token c} :
    c.accept? (.keyword .newKw) = some token → Reads (.creation c e) token.next d → Reads (.primary pending e) c d
  | longLambda {pending e} {c d : Cursor} {token : Parsed Token c} {params : Parsed (List LambdaParam) token.next} :
    c.accept? (.punct .openParen) = some token → c.opensLambda = true → token.next.lambdaParams = .ok params →
    Reads (.lambda pending c params.value e) params.next d →
    Reads (.primary pending e) c d
  | paren {pending inner} {c d : Cursor} {token : Parsed Token c} {close : Parsed Token d} :
    c.accept? (.punct .openParen) = some token → c.opensLambda = false → Reads (.assign 0 inner) token.next d →
    d.accept? (.punct .closeParen) = some close →
    Reads (.primary pending (.paren inner (c.spanTo close.next))) c close.next
  | lambda {pending params body} {start c d : Cursor} {arrow : Parsed Token c} :
    c.lambdaArrow = .ok arrow → Reads (.assign pending body) arrow.next d →
    Reads (.lambda pending start params (.lambda params body (start.spanTo d))) c d
  | createArgs {args} {start c d : Cursor} {type : Parsed TypeExpr c} {opening : Parsed Token type.next} :
    c.type? = some type → type.next.accept? (.punct .openParen) = some opening → Reads (.args args) opening.next d →
    d.accept? (.punct .openBrace) = none →
    Reads (.creation start (.create type.value args [] (start.spanTo d))) c d
  | createBoth {args entries} {start c c₁ d : Cursor} {type : Parsed TypeExpr c} {opening : Parsed Token type.next}
      {brace : Parsed Token c₁} :
    c.type? = some type → type.next.accept? (.punct .openParen) = some opening → Reads (.args args) opening.next c₁ →
    c₁.accept? (.punct .openBrace) = some brace → Reads (.entries entries) brace.next d →
    Reads (.creation start (.create type.value args entries (start.spanTo d))) c d
  | createEntries {entries} {start c d : Cursor} {type : Parsed TypeExpr c} {brace : Parsed Token type.next} :
    c.type? = some type → type.next.accept? (.punct .openParen) = none →
    type.next.accept? (.punct .openBrace) = some brace → Reads (.entries entries) brace.next d →
    Reads (.creation start (.create type.value [] entries (start.spanTo d))) c d
  | entriesEnd {c : Cursor} {close : Parsed Token c} :
    c.accept? (.punct .closeBrace) = some close → Reads (.entries []) c close.next
  | entriesLast {entry} {c d : Cursor} {close : Parsed Token d} :
    c.accept? (.punct .closeBrace) = none → Reads (.entry entry) c d → d.accept? (.punct .comma) = none →
    d.accept? (.punct .closeBrace) = some close → Reads (.entries [entry]) c close.next
  | entries {entry entries} {c c₁ d : Cursor} {comma : Parsed Token c₁} :
    c.accept? (.punct .closeBrace) = none → Reads (.entry entry) c c₁ → c₁.accept? (.punct .comma) = some comma →
    Reads (.entries entries) comma.next d → Reads (.entries (entry :: entries)) c d
  | entryElement {indices value} {c c₁ d : Cursor} {bracket : Parsed Token c} :
    c.accept? (.punct .openBracket) = some bracket → bracket.next.sees (.punct .closeBracket) = false →
    Reads (.bracketed .indices indices) bracket.next c₁ → Reads (.entryValue value) c₁ d →
    Reads (.entry (.element indices (c.spanTo c₁) value)) c d
  | entryMember {value} {c d : Cursor} {name : Parsed (MemberName × Span) c} :
    c.accept? (.punct .openBracket) = none → c.entryName = .ok name → Reads (.entryValue value) name.next d →
    Reads (.entry (.member name.value.1 name.value.2 value)) c d
  | entryValue {e} {c d : Cursor} {sign : Parsed Token c} :
    c.accept? (.sign .assign) = some sign → Reads (.assign 0 e) sign.next d → Reads (.entryValue e) c d

/-! ## Runs of the parser are derivations -/

namespace Cursor

/-- The mark that closes a bracket is accepted. -/
theorem accept?_of_close {c : Cursor} {place : ClosePlace} {p : Parsed Token c} (h : c.close place = .ok p) :
    c.accept? (.punct place.mark) = some p := by
  unfold close at h
  cases ha : c.accept? (.punct place.mark) with
  | none => rw [ha] at h; cases h
  | some q => rw [ha] at h; cases h; rfl

/-- A bracket is closed where the mark that closes it is accepted. -/
theorem close_of_accept? {c : Cursor} (place : ClosePlace) {p : Parsed Token c} (h : c.accept? (.punct place.mark) = some p) :
    c.close place = .ok p := by
  simp [close, h]

/-- Passing a token of a kind. -/
theorem accept?_of_next? {c : Cursor} {p : Parsed Token c} {kind : TokenKind} (h : c.next? = some p)
    (hk : p.value.kind = kind) : c.accept? kind = some p := by
  simp [accept?, h, hk]

/-- A token that was accepted was the next one and is of the kind. -/
theorem next?_of_accept? {c : Cursor} {p : Parsed Token c} {kind : TokenKind} (h : c.accept? kind = some p) :
    c.next? = some p ∧ p.value.kind = kind := by
  unfold accept? at h
  split at h
  · rename_i q hq
    split at h
    · cases h
      exact ⟨hq, ‹_›⟩
    · cases h
  · cases h

/-- A member name is passed at a place: one behind a dollar sign, or one alone. -/
inductive PassesName (c : Cursor) (place : NamePlace) : Parsed (MemberName × Span) c → Prop
  | keyed {d : Parsed Token c} {p : Parsed (MemberName × Span) d.next} :
    c.accept? (.punct .dollar) = some d → d.next.dollarName d.value = .ok p →
    PassesName c place ⟨p.value, p.next, Nat.lt_trans p.shorter d.shorter⟩
  | plain {p : Parsed Token c} :
    c.accept? (.punct .dollar) = none → c.nameAt place = .ok p →
    PassesName c place ⟨(.plain p.value.lexeme, p.value.span), p.next, p.shorter⟩

section

variable {c : Cursor} {place : NamePlace} {p : Parsed (MemberName × Span) c}

theorem passesName_iff_of_some {d : Parsed Token c} (hd : c.accept? (.punct .dollar) = some d) :
    (do
      let q ← d.next.dollarName d.value
      .ok ⟨q.value, q.next, Nat.lt_trans q.shorter d.shorter⟩ : Read (MemberName × Span) c) = .ok p ↔
        c.PassesName place p := by
  rw [Except.bind_eq_ok_iff]
  constructor
  · rintro ⟨q, hq, h⟩
    cases h
    exact .keyed hd hq
  · rintro (⟨hd', hq⟩ | ⟨hd', -⟩) <;> cases hd.symm.trans hd'
    exact ⟨_, hq, rfl⟩

theorem passesName_iff_of_none (hd : c.accept? (.punct .dollar) = none) :
    (do
      let q ← c.nameAt place
      .ok ⟨(.plain q.value.lexeme, q.value.span), q.next, q.shorter⟩ : Read (MemberName × Span) c) = .ok p ↔
        c.PassesName place p := by
  rw [Except.bind_eq_ok_iff]
  constructor
  · rintro ⟨q, hq, h⟩
    cases h
    exact .plain hd hq
  · rintro (⟨hd', -⟩ | ⟨-, hq⟩)
    · cases hd.symm.trans hd'
    · exact ⟨_, hq, rfl⟩

theorem memberName_eq_ok_iff {guarded : Bool} :
    c.memberName guarded = .ok p ↔ c.PassesName (if guarded then .behindGuardedDot else .behindDot) p := by
  unfold memberName
  cases hd : c.accept? (.punct .dollar) with
  | some d => exact passesName_iff_of_some hd
  | none => exact passesName_iff_of_none hd

/-- The name in front of an entry is passed like one behind a dot. -/
theorem entryName_eq_ok_iff : c.entryName = .ok p ↔ c.PassesName .initializer p := by
  unfold entryName
  cases hd : c.accept? (.punct .dollar) with
  | some d => exact passesName_iff_of_some hd
  | none => exact passesName_iff_of_none hd

end

end Cursor

open NavCheck.Expr

mutual

/-- An assignment that was read is derived. -/
theorem reads_of_readAssign (pending : Nat) (c : Cursor) (r : Parsed Expr c) (h : readAssign pending c = .ok r) :
    Reads (.assign pending r.value) c r.next := by
  rw [readAssign] at h
  obtain ⟨left, hl, h⟩ := of_bind_eq_ok h
  have ih := reads_of_readConditional pending c left hl
  cases ha : left.next.accept? (.sign .assign) with
  | none =>
    rw [ha] at h
    cases h
    exact ih.assignEnd ha
  | some sign =>
    rw [ha] at h
    have := Nat.lt_trans sign.shorter left.shorter
    obtain ⟨right, hr, h⟩ := of_bind_eq_ok h
    cases h
    exact ih.assign ha (reads_of_readAssign pending sign.next right hr)
termination_by (c.ahead.length, 6)

/-- A conditional that was read is derived. -/
theorem reads_of_readConditional (pending : Nat) (c : Cursor) (r : Parsed Expr c)
    (h : readConditional pending c = .ok r) : Reads (.conditional pending r.value) c r.next := by
  rw [readConditional] at h
  obtain ⟨condition, hc, h⟩ := of_bind_eq_ok h
  have ih := reads_of_readBinary pending 0 c condition hc
  cases hq : condition.next.accept? (.punct .question) with
  | none =>
    rw [hq] at h
    cases h
    exact ih.conditionalEnd hq
  | some question =>
    rw [hq] at h
    have h₁ := Nat.lt_trans question.shorter condition.shorter
    obtain ⟨thenBranch, ht, h⟩ := of_bind_eq_ok h
    have h₂ := Nat.lt_trans thenBranch.shorter h₁
    have iht := reads_of_readAssign (pending + 1) question.next thenBranch ht
    cases hk : thenBranch.next.accept? (.punct .colon) with
    | none => rw [hk] at h; cases h
    | some colon =>
      rw [hk] at h
      have h₃ := Nat.lt_trans colon.shorter h₂
      obtain ⟨elseBranch, he, h⟩ := of_bind_eq_ok h
      cases h
      exact ih.conditional hq iht hk (reads_of_readAssign pending colon.next elseBranch he)
termination_by (c.ahead.length, 5)

/-- Operands with operators between them that were read are derived. -/
theorem reads_of_readBinary (pending least : Nat) (c : Cursor) (r : Parsed Expr c)
    (h : readBinary pending least c = .ok r) : Reads (.binary pending least r.value) c r.next := by
  rw [readBinary] at h
  obtain ⟨left, hl, h⟩ := of_bind_eq_ok h
  have := left.shorter
  obtain ⟨whole, hw, h⟩ := of_bind_eq_ok h
  cases h
  exact (reads_of_readUnary pending c left hl).binary (reads_of_readBinaryRest pending least c left.value left.next whole hw)
termination_by (c.ahead.length, 4)

/-- Operators with right operands that were read are derived. -/
theorem reads_of_readBinaryRest (pending least : Nat) (start : Cursor) (left : Expr) (c : Cursor) (r : ParsedMany Expr c)
    (h : readBinaryRest pending least start left c = .ok r) :
    Reads (.operators pending least start left r.value) c r.next := by
  rw [readBinaryRest] at h
  cases ho : c.binOp? least with
  | none =>
    rw [ho] at h
    cases h
    exact .operatorsEnd ho
  | some op =>
    rw [ho] at h
    have := op.shorter
    obtain ⟨right, hr, h⟩ := of_bind_eq_ok h
    have := Nat.lt_trans right.shorter op.shorter
    obtain ⟨whole, hw, h⟩ := of_bind_eq_ok h
    cases h
    exact .operators ho (reads_of_readBinary pending op.value.rightLeast op.next right hr)
      (reads_of_readBinaryRest pending least start _ right.next whole hw)
termination_by (c.ahead.length, 4)

/-- An operand with unary operators that was read is derived. -/
theorem reads_of_readUnary (pending : Nat) (c : Cursor) (r : Parsed Expr c) (h : readUnary pending c = .ok r) :
    Reads (.unary pending r.value) c r.next := by
  rw [readUnary] at h
  cases ho : c.unOp? with
  | some op =>
    rw [ho] at h
    have := op.shorter
    obtain ⟨operand, hr, h⟩ := of_bind_eq_ok h
    cases h
    exact .unary ho (reads_of_readUnary pending op.next operand hr)
  | none =>
    rw [ho] at h
    obtain ⟨base, hb, h⟩ := of_bind_eq_ok h
    have := base.shorter
    obtain ⟨whole, hw, h⟩ := of_bind_eq_ok h
    cases h
    exact .postfixed ho (reads_of_readPrimary pending c base hb)
      (reads_of_readAccesses pending c base.value base.next whole hw)
termination_by (c.ahead.length, 3)

/-- Accesses that were read are derived. -/
theorem reads_of_readAccesses (pending : Nat) (start : Cursor) (base : Expr) (c : Cursor) (r : ParsedMany Expr c)
    (h : readAccesses pending start base c = .ok r) : Reads (.accesses pending start base r.value) c r.next := by
  rw [readAccesses] at h
  cases ha : c.accessStart? pending with
  | none =>
    rw [ha] at h
    cases h
    exact .accessesEnd ha
  | some mark =>
    rw [ha] at h
    have := mark.shorter
    obtain ⟨link, hl, h⟩ := of_bind_eq_ok h
    have := Nat.lt_trans link.shorter mark.shorter
    obtain ⟨whole, hw, h⟩ := of_bind_eq_ok h
    cases h
    exact .accesses ha (reads_of_readLink mark.value.1 mark.value.2 mark.next link hl)
      (reads_of_readAccesses pending start _ link.next whole hw)
termination_by (c.ahead.length, 3)

/-- A link that was read is derived. -/
theorem reads_of_readLink (start : AccessStart) (guarded : Bool) (c : Cursor) (r : Parsed Link c)
    (h : readLink start guarded c = .ok r) : Reads (.link start guarded r.value) c r.next := by
  rw [readLink.eq_def] at h
  cases start with
  | dot =>
    obtain ⟨name, hn, h⟩ := of_bind_eq_ok h
    cases h
    exact .member hn
  | bracket =>
    cases hs : c.sees (.punct .closeBracket) with
    | true => simp only [hs, if_true] at h; cases h
    | false =>
      simp only [hs, Bool.false_eq_true, if_false] at h
      obtain ⟨indices, hi, h⟩ := of_bind_eq_ok h
      cases h
      exact .element hs (reads_of_readBracketed .indices c indices hi)
  | paren =>
    obtain ⟨args, ha, h⟩ := of_bind_eq_ok h
    cases h
    exact .invoke (reads_of_readArgs c args ha)
termination_by (c.ahead.length, 10)

/-- Expressions in a row that were read are derived. -/
theorem reads_of_readList (c : Cursor) (r : Parsed (List Expr) c) (h : readList c = .ok r) :
    Reads (.list r.value) c r.next := by
  rw [readList] at h
  obtain ⟨e, he, h⟩ := of_bind_eq_ok h
  have ih := reads_of_readAssign 0 c e he
  cases hk : e.next.accept? (.punct .comma) with
  | none =>
    rw [hk] at h
    cases h
    exact ih.listEnd hk
  | some comma =>
    rw [hk] at h
    have := Nat.lt_trans comma.shorter e.shorter
    obtain ⟨es, hes, h⟩ := of_bind_eq_ok h
    cases h
    exact ih.list hk (reads_of_readList comma.next es hes)
termination_by (c.ahead.length, 7)

/-- Expressions up to a closing mark that were read are derived. -/
theorem reads_of_readBracketed (place : ClosePlace) (c : Cursor) (r : Parsed (List Expr) c)
    (h : readBracketed place c = .ok r) : Reads (.bracketed place r.value) c r.next := by
  rw [readBracketed] at h
  obtain ⟨es, hes, h⟩ := of_bind_eq_ok h
  obtain ⟨close, hc, h⟩ := of_bind_eq_ok h
  cases h
  exact (reads_of_readList c es hes).bracketed (Cursor.accept?_of_close hc)
termination_by (c.ahead.length, 8)

/-- Arguments that were read are derived. -/
theorem reads_of_readArgs (c : Cursor) (r : Parsed (List Expr) c) (h : readArgs c = .ok r) :
    Reads (.args r.value) c r.next := by
  rw [readArgs] at h
  cases hc : c.accept? (.punct .closeParen) with
  | some close =>
    rw [hc] at h
    cases h
    exact .argsEnd hc
  | none =>
    rw [hc] at h
    exact .args hc (reads_of_readBracketed .args c r h)
termination_by (c.ahead.length, 9)

/-- A primary expression that was read is derived. -/
theorem reads_of_readPrimary (pending : Nat) (c : Cursor) (r : Parsed Expr c) (h : readPrimary pending c = .ok r) :
    Reads (.primary pending r.value) c r.next := by
  rw [readPrimary] at h
  cases hn : c.next? with
  | none => rw [hn] at h; cases h
  | some token =>
    rw [hn] at h
    have := token.shorter
    dsimp only at h
    split at h
    case h_1 hk =>
      have ha := Cursor.accept?_of_next? hn hk
      cases hs : token.next.sees (.sign .arrow) with
      | true =>
        simp only [hs, if_true] at h
        exact .shortLambda ha hs (reads_of_readLambdaBody pending c _ token.next token.shorter r h)
      | false =>
        simp only [hs, Bool.false_eq_true, if_false] at h
        cases h
        exact .name ha hs
    case h_2 hk => cases h; exact .literal hn (by rw [hk]; rfl)
    case h_3 hk => cases h; exact .literal hn (by rw [hk]; rfl)
    case h_4 hk => cases h; exact .literal hn (by rw [hk]; rfl)
    case h_5 hk => cases h; exact .literal hn (by rw [hk]; rfl)
    case h_6 hk => cases h; exact .literal hn (by rw [hk]; rfl)
    case h_7 hk => cases h; exact .self (Cursor.accept?_of_next? hn hk)
    case h_8 hk =>
      obtain ⟨e, he, h⟩ := of_bind_eq_ok h
      cases h
      exact .create (Cursor.accept?_of_next? hn hk) (reads_of_readCreation c token.next e he)
    case h_9 hk =>
      have ha := Cursor.accept?_of_next? hn hk
      cases hl : c.opensLambda with
      | true =>
        simp only [hl, if_true] at h
        obtain ⟨params, hp, h⟩ := of_bind_eq_ok h
        exact .longLambda ha hl hp (reads_of_readLambdaBody pending c params.value params.next _ r h)
      | false =>
        simp only [hl, Bool.false_eq_true, if_false] at h
        obtain ⟨inner, hi, h⟩ := of_bind_eq_ok h
        obtain ⟨close, hc, h⟩ := of_bind_eq_ok h
        cases h
        exact .paren ha hl (reads_of_readAssign 0 token.next inner hi) (Cursor.accept?_of_close hc)
    case h_10 => cases h
    case h_11 => cases h
termination_by (c.ahead.length, 2)

/-- The arrow and the body of a lambda that were read are derived. -/
theorem reads_of_readLambdaBody (pending : Nat) (start : Cursor) (params : List LambdaParam) (c : Cursor)
    (hc : c.ahead.length < start.ahead.length) (r : Parsed Expr start)
    (h : readLambdaBody pending start params c hc = .ok r) : Reads (.lambda pending start params r.value) c r.next := by
  rw [readLambdaBody] at h
  obtain ⟨arrow, ha, h⟩ := of_bind_eq_ok h
  have := Nat.lt_trans arrow.shorter hc
  obtain ⟨body, hb, h⟩ := of_bind_eq_ok h
  cases h
  exact .lambda ha (reads_of_readAssign pending arrow.next body hb)
termination_by (start.ahead.length, 1)

/-- A creation that was read is derived. -/
theorem reads_of_readCreation (start c : Cursor) (r : Parsed Expr c) (h : readCreation start c = .ok r) :
    Reads (.creation start r.value) c r.next := by
  rw [readCreation] at h
  cases ht : c.type? with
  | none => rw [ht] at h; cases h
  | some type =>
    rw [ht] at h
    dsimp only at h
    have h₀ := type.shorter
    cases ho : type.next.accept? (.punct .openParen) with
    | some opening =>
      rw [ho] at h
      have h₁ := Nat.lt_trans opening.shorter h₀
      obtain ⟨args, ha, h⟩ := of_bind_eq_ok h
      have h₂ := Nat.lt_trans args.shorter h₁
      have iha := reads_of_readArgs opening.next args ha
      cases hb : args.next.accept? (.punct .openBrace) with
      | some brace =>
        rw [hb] at h
        have h₃ := Nat.lt_trans brace.shorter h₂
        obtain ⟨entries, he, h⟩ := of_bind_eq_ok h
        cases h
        exact .createBoth ht ho iha hb (reads_of_readEntries brace.next entries he)
      | none =>
        rw [hb] at h
        cases h
        exact .createArgs ht ho iha hb
    | none =>
      rw [ho] at h
      cases hb : type.next.accept? (.punct .openBrace) with
      | some brace =>
        rw [hb] at h
        have h₁ := Nat.lt_trans brace.shorter h₀
        obtain ⟨entries, he, h⟩ := of_bind_eq_ok h
        cases h
        exact .createEntries ht ho hb (reads_of_readEntries brace.next entries he)
      | none => rw [hb] at h; cases h
termination_by (c.ahead.length, 2)

/-- The entries of an initializer that were read are derived. -/
theorem reads_of_readEntries (c : Cursor) (r : Parsed (List Entry) c) (h : readEntries c = .ok r) :
    Reads (.entries r.value) c r.next := by
  rw [readEntries] at h
  cases hc : c.accept? (.punct .closeBrace) with
  | some close =>
    rw [hc] at h
    cases h
    exact .entriesEnd hc
  | none =>
    rw [hc] at h
    obtain ⟨entry, he, h⟩ := of_bind_eq_ok h
    have ih := reads_of_readEntry c entry he
    cases hk : entry.next.accept? (.punct .comma) with
    | some comma =>
      rw [hk] at h
      have := Nat.lt_trans comma.shorter entry.shorter
      obtain ⟨entries, hes, h⟩ := of_bind_eq_ok h
      cases h
      exact .entries hc ih hk (reads_of_readEntries comma.next entries hes)
    | none =>
      rw [hk] at h
      obtain ⟨close, hb, h⟩ := of_bind_eq_ok h
      cases h
      exact .entriesLast hc ih hk (Cursor.accept?_of_close hb)
termination_by (c.ahead.length, 9)

/-- An entry of an initializer that was read is derived. -/
theorem reads_of_readEntry (c : Cursor) (r : Parsed Entry c) (h : readEntry c = .ok r) :
    Reads (.entry r.value) c r.next := by
  rw [readEntry] at h
  cases hb : c.accept? (.punct .openBracket) with
  | some bracket =>
    rw [hb] at h
    have h₀ := bracket.shorter
    cases hs : bracket.next.sees (.punct .closeBracket) with
    | true => simp only [hs, if_true] at h; cases h
    | false =>
      simp only [hs, Bool.false_eq_true, if_false] at h
      obtain ⟨indices, hi, h⟩ := of_bind_eq_ok h
      have := Nat.lt_trans indices.shorter h₀
      obtain ⟨value, hv, h⟩ := of_bind_eq_ok h
      cases h
      exact .entryElement hb hs (reads_of_readBracketed .indices bracket.next indices hi)
        (reads_of_readEntryValue indices.next value hv)
  | none =>
    rw [hb] at h
    obtain ⟨name, hn, h⟩ := of_bind_eq_ok h
    have := name.shorter
    obtain ⟨value, hv, h⟩ := of_bind_eq_ok h
    cases h
    exact .entryMember hb hn (reads_of_readEntryValue name.next value hv)
termination_by (c.ahead.length, 8)

/-- The value of an entry that was read is derived. -/
theorem reads_of_readEntryValue (c : Cursor) (r : Parsed Expr c) (h : readEntryValue c = .ok r) :
    Reads (.entryValue r.value) c r.next := by
  rw [readEntryValue] at h
  cases hs : c.accept? (.sign .assign) with
  | none => rw [hs] at h; cases h
  | some sign =>
    rw [hs] at h
    have := sign.shorter
    obtain ⟨value, hv, h⟩ := of_bind_eq_ok h
    cases h
    exact .entryValue hs (reads_of_readAssign 0 sign.next value hv)
termination_by (c.ahead.length, 7)

end

/-! ## Derivations are runs of the parser -/

/-- The parser reads a phrase from one cursor up to another. -/
def Phrase.IsRead : Phrase → Cursor → Cursor → Prop
  | .assign pending e, c, d => ∃ h, readAssign pending c = .ok ⟨e, d, h⟩
  | .conditional pending e, c, d => ∃ h, readConditional pending c = .ok ⟨e, d, h⟩
  | .binary pending least e, c, d => ∃ h, readBinary pending least c = .ok ⟨e, d, h⟩
  | .operators pending least start left whole, c, d => ∃ h, readBinaryRest pending least start left c = .ok ⟨whole, d, h⟩
  | .unary pending e, c, d => ∃ h, readUnary pending c = .ok ⟨e, d, h⟩
  | .accesses pending start base whole, c, d => ∃ h, readAccesses pending start base c = .ok ⟨whole, d, h⟩
  | .link start guarded l, c, d => ∃ h, readLink start guarded c = .ok ⟨l, d, h⟩
  | .list es, c, d => ∃ h, readList c = .ok ⟨es, d, h⟩
  | .bracketed place es, c, d => ∃ h, readBracketed place c = .ok ⟨es, d, h⟩
  | .args es, c, d => ∃ h, readArgs c = .ok ⟨es, d, h⟩
  | .primary pending e, c, d => ∃ h, readPrimary pending c = .ok ⟨e, d, h⟩
  | .lambda pending start params e, c, d =>
    ∀ hc : c.ahead.length < start.ahead.length, ∃ h, readLambdaBody pending start params c hc = .ok ⟨e, d, h⟩
  | .creation start e, c, d => ∃ h, readCreation start c = .ok ⟨e, d, h⟩
  | .entries es, c, d => ∃ h, readEntries c = .ok ⟨es, d, h⟩
  | .entry en, c, d => ∃ h, readEntry c = .ok ⟨en, d, h⟩
  | .entryValue e, c, d => ∃ h, readEntryValue c = .ok ⟨e, d, h⟩

/-! ### The rules as runs

What a run of the parser is made of: the runs of its parts are given, with the marks between them. -/

namespace Phrase.IsRead

variable {pending : Nat} {e : Expr} {start c c₁ c₂ d : Cursor}

/-- A conditional is read when its parts are and its marks stand between them. -/
theorem conditional {condition thenBranch elseBranch : Expr} {question : Parsed Token c₁} {colon : Parsed Token c₂}
    (ih₁ : (Phrase.binary pending 0 condition).IsRead c c₁) (hq : c₁.accept? (.punct .question) = some question)
    (ih₂ : (Phrase.assign (pending + 1) thenBranch).IsRead question.next c₂) (hc : c₂.accept? (.punct .colon) = some colon)
    (ih₃ : (Phrase.assign pending elseBranch).IsRead colon.next d) :
    (Phrase.conditional pending (.conditional condition thenBranch elseBranch (c.spanTo d))).IsRead c d := by
  obtain ⟨h₁, ih₁⟩ := ih₁
  obtain ⟨h₂, ih₂⟩ := ih₂
  obtain ⟨h₃, ih₃⟩ := ih₃
  have := question.shorter
  have := colon.shorter
  exact ⟨by omega, by rw [readConditional, ih₁]; simp [bind, Except.bind, hq, ih₂, hc, ih₃]⟩

/-- Operators behind an operand are read when the first operation and those behind it are. -/
theorem operators {least : Nat} {left right whole : Expr} {op : Parsed BinOp c} (ho : c.binOp? least = some op)
    (ih₁ : (Phrase.binary pending op.value.rightLeast right).IsRead op.next c₁)
    (ih₂ : (Phrase.operators pending least start (.binary op.value left right (start.spanTo c₁)) whole).IsRead c₁ d) :
    (Phrase.operators pending least start left whole).IsRead c d := by
  obtain ⟨h₁, ih₁⟩ := ih₁
  obtain ⟨h₂, ih₂⟩ := ih₂
  have := op.shorter
  rw [BinOp.rightLeast] at ih₁
  exact ⟨by omega, by rw [readBinaryRest, ho]; simp [bind, Except.bind, ih₁, ih₂]⟩

/-- Accesses behind a base are read when the first link and those behind it are. -/
theorem accesses {base whole : Expr} {link : Link} {mark : Parsed (AccessStart × Bool) c} (ha : c.accessStart? pending = some mark)
    (ih₁ : (Phrase.link mark.value.1 mark.value.2 link).IsRead mark.next c₁)
    (ih₂ : (Phrase.accesses pending start (.access base link mark.value.2 (start.spanTo c₁)) whole).IsRead c₁ d) :
    (Phrase.accesses pending start base whole).IsRead c d := by
  obtain ⟨h₁, ih₁⟩ := ih₁
  obtain ⟨h₂, ih₂⟩ := ih₂
  have := mark.shorter
  exact ⟨by omega, by rw [readAccesses, ha]; simp [bind, Except.bind, ih₁, ih₂]⟩

section

variable {token : Parsed Token c}

/-- A name with an arrow behind it begins a lambda. -/
theorem shortLambda (ha : c.accept? .name = some token) (hs : token.next.sees (.sign .arrow) = true)
    (ih : (Phrase.lambda pending c [⟨none, token.value.lexeme, token.value.span⟩] e).IsRead token.next d) :
    (Phrase.primary pending e).IsRead c d := by
  obtain ⟨hn, hk⟩ := Cursor.next?_of_accept? ha
  obtain ⟨h, ih⟩ := ih token.shorter
  exact ⟨h, by rw [readPrimary, hn]; simp [hk, hs, ih]⟩

/-- A literal is read from its token. -/
theorem literal {value : Literal} (hn : c.next? = some token) (hv : token.value.kind.literal? = some value) :
    (Phrase.primary pending (.literal value token.value.span)).IsRead c token.next := by
  refine ⟨token.shorter, ?_⟩
  rw [readPrimary, hn]
  revert hv
  unfold TokenKind.literal?
  split <;> intro hv <;> cases hv <;> simp_all

/-- A creation is read behind `new`. -/
theorem create (ha : c.accept? (.keyword .newKw) = some token) (ih : (Phrase.creation c e).IsRead token.next d) :
    (Phrase.primary pending e).IsRead c d := by
  obtain ⟨hn, hk⟩ := Cursor.next?_of_accept? ha
  obtain ⟨h, ih⟩ := ih
  have := token.shorter
  exact ⟨by omega, by rw [readPrimary, hn]; simp [bind, Except.bind, hk, ih]⟩

/-- A parenthesis that opens the parameters of a lambda begins one. -/
theorem longLambda {params : Parsed (List LambdaParam) token.next} (ha : c.accept? (.punct .openParen) = some token)
    (hl : c.opensLambda = true) (hp : token.next.lambdaParams = .ok params)
    (ih : (Phrase.lambda pending c params.value e).IsRead params.next d) : (Phrase.primary pending e).IsRead c d := by
  obtain ⟨hn, hk⟩ := Cursor.next?_of_accept? ha
  obtain ⟨h, ih⟩ := ih (Nat.lt_trans params.shorter token.shorter)
  exact ⟨h, by rw [readPrimary, hn]; simp [bind, Except.bind, hk, hl, hp, ih]⟩

/-- Any other parenthesis holds an expression. -/
theorem paren {close : Parsed Token d} (ha : c.accept? (.punct .openParen) = some token) (hl : c.opensLambda = false)
    (ih : (Phrase.assign 0 e).IsRead token.next d) (hc : d.accept? (.punct .closeParen) = some close) :
    (Phrase.primary pending (.paren e (c.spanTo close.next))).IsRead c close.next := by
  obtain ⟨hn, hk⟩ := Cursor.next?_of_accept? ha
  obtain ⟨h, ih⟩ := ih
  have := token.shorter
  have := close.shorter
  exact ⟨by omega, by rw [readPrimary, hn]; simp [bind, Except.bind, hk, hl, ih, Cursor.close_of_accept? .paren hc]⟩

end

section

variable {args : List Expr} {entries : List Entry} {type : Parsed TypeExpr c}

/-- A creation with arguments and no entries. -/
theorem createArgs {opening : Parsed Token type.next} (ht : c.type? = some type)
    (ho : type.next.accept? (.punct .openParen) = some opening) (ih : (Phrase.args args).IsRead opening.next d)
    (hb : d.accept? (.punct .openBrace) = none) :
    (Phrase.creation start (.create type.value args [] (start.spanTo d))).IsRead c d := by
  obtain ⟨h, ih⟩ := ih
  have := type.shorter
  have := opening.shorter
  exact ⟨by omega, by rw [readCreation, ht]; simp [bind, Except.bind, ho, ih, hb]⟩

/-- A creation with arguments and entries. -/
theorem createBoth {opening : Parsed Token type.next} {brace : Parsed Token c₁} (ht : c.type? = some type)
    (ho : type.next.accept? (.punct .openParen) = some opening) (ih₁ : (Phrase.args args).IsRead opening.next c₁)
    (hb : c₁.accept? (.punct .openBrace) = some brace) (ih₂ : (Phrase.entries entries).IsRead brace.next d) :
    (Phrase.creation start (.create type.value args entries (start.spanTo d))).IsRead c d := by
  obtain ⟨h₁, ih₁⟩ := ih₁
  obtain ⟨h₂, ih₂⟩ := ih₂
  have := type.shorter
  have := opening.shorter
  have := brace.shorter
  exact ⟨by omega, by rw [readCreation, ht]; simp [bind, Except.bind, ho, ih₁, hb, ih₂]⟩

/-- A creation with entries alone. -/
theorem createEntries {brace : Parsed Token type.next} (ht : c.type? = some type)
    (ho : type.next.accept? (.punct .openParen) = none) (hb : type.next.accept? (.punct .openBrace) = some brace)
    (ih : (Phrase.entries entries).IsRead brace.next d) :
    (Phrase.creation start (.create type.value [] entries (start.spanTo d))).IsRead c d := by
  obtain ⟨h, ih⟩ := ih
  have := type.shorter
  have := brace.shorter
  exact ⟨by omega, by rw [readCreation, ht]; simp [bind, Except.bind, ho, hb, ih]⟩

end

section

variable {entry : Entry} {more : List Entry} {indices : List Expr}

/-- The last entry, with no comma behind it. -/
theorem entriesLast {close : Parsed Token d} (hn : c.accept? (.punct .closeBrace) = none)
    (ih : (Phrase.entry entry).IsRead c d) (hk : d.accept? (.punct .comma) = none)
    (hc : d.accept? (.punct .closeBrace) = some close) : (Phrase.entries [entry]).IsRead c close.next := by
  obtain ⟨h, ih⟩ := ih
  have := close.shorter
  exact ⟨by omega, by rw [readEntries, hn]; simp [bind, Except.bind, ih, hk, Cursor.close_of_accept? .initializer hc]⟩

/-- An entry and those behind its comma. -/
theorem entries {comma : Parsed Token c₁} (hn : c.accept? (.punct .closeBrace) = none) (ih₁ : (Phrase.entry entry).IsRead c c₁)
    (hk : c₁.accept? (.punct .comma) = some comma) (ih₂ : (Phrase.entries more).IsRead comma.next d) :
    (Phrase.entries (entry :: more)).IsRead c d := by
  obtain ⟨h₁, ih₁⟩ := ih₁
  obtain ⟨h₂, ih₂⟩ := ih₂
  have := comma.shorter
  exact ⟨by omega, by rw [readEntries, hn]; simp [bind, Except.bind, ih₁, hk, ih₂]⟩

/-- An entry for an element. -/
theorem entryElement {bracket : Parsed Token c} (hb : c.accept? (.punct .openBracket) = some bracket)
    (hs : bracket.next.sees (.punct .closeBracket) = false) (ih₁ : (Phrase.bracketed .indices indices).IsRead bracket.next c₁)
    (ih₂ : (Phrase.entryValue e).IsRead c₁ d) : (Phrase.entry (.element indices (c.spanTo c₁) e)).IsRead c d := by
  obtain ⟨h₁, ih₁⟩ := ih₁
  obtain ⟨h₂, ih₂⟩ := ih₂
  have := bracket.shorter
  exact ⟨by omega, by rw [readEntry, hb]; simp [bind, Except.bind, hs, ih₁, ih₂]⟩

/-- An entry for a member. -/
theorem entryMember {name : Parsed (MemberName × Span) c} (hb : c.accept? (.punct .openBracket) = none)
    (hn : c.entryName = .ok name) (ih : (Phrase.entryValue e).IsRead name.next d) :
    (Phrase.entry (.member name.value.1 name.value.2 e)).IsRead c d := by
  obtain ⟨h, ih⟩ := ih
  have := name.shorter
  exact ⟨by omega, by rw [readEntry, hb]; simp [bind, Except.bind, hn, ih]⟩

end

end Phrase.IsRead

/-- A derivation tells what the parser reads: by induction on the derivation, with one rule for each way to read something. -/
theorem Reads.isRead {phrase : Phrase} {c d : Cursor} (h : Reads phrase c d) : phrase.IsRead c d := by
  induction h with
  | assignEnd _ hd ih =>
    obtain ⟨h, ih⟩ := ih
    exact ⟨h, by rw [readAssign, ih]; simp [bind, Except.bind, hd]⟩
  | @assign _ _ _ _ _ _ sign _ hd _ ih₁ ih₂ =>
    obtain ⟨h₁, ih₁⟩ := ih₁
    obtain ⟨h₂, ih₂⟩ := ih₂
    have := sign.shorter
    exact ⟨by omega, by rw [readAssign, ih₁]; simp [bind, Except.bind, hd, ih₂]⟩
  | conditionalEnd _ hd ih =>
    obtain ⟨h, ih⟩ := ih
    exact ⟨h, by rw [readConditional, ih]; simp [bind, Except.bind, hd]⟩
  | conditional _ hq _ hc _ ih₁ ih₂ ih₃ => exact .conditional ih₁ hq ih₂ hc ih₃
  | binary _ _ ih₁ ih₂ =>
    obtain ⟨h₁, ih₁⟩ := ih₁
    obtain ⟨h₂, ih₂⟩ := ih₂
    exact ⟨by omega, by rw [readBinary, ih₁]; simp [bind, Except.bind, ih₂]⟩
  | operatorsEnd ho => exact ⟨Nat.le_refl _, by rw [readBinaryRest, ho]; rfl⟩
  | operators ho _ _ ih₁ ih₂ => exact .operators ho ih₁ ih₂
  | @unary _ _ _ _ op ho _ ih =>
    obtain ⟨h, ih⟩ := ih
    have := op.shorter
    exact ⟨by omega, by rw [readUnary, ho]; simp [bind, Except.bind, ih]⟩
  | postfixed ho _ _ ih₁ ih₂ =>
    obtain ⟨h₁, ih₁⟩ := ih₁
    obtain ⟨h₂, ih₂⟩ := ih₂
    exact ⟨by omega, by rw [readUnary, ho]; simp [bind, Except.bind, ih₁, ih₂]⟩
  | accessesEnd ha => exact ⟨Nat.le_refl _, by rw [readAccesses, ha]; rfl⟩
  | accesses ha _ _ ih₁ ih₂ => exact .accesses ha ih₁ ih₂
  | @member _ _ name hn => exact ⟨name.shorter, by rw [readLink, hn]; rfl⟩
  | element hs _ ih =>
    obtain ⟨h, ih⟩ := ih
    exact ⟨h, by rw [readLink]; simp [bind, Except.bind, hs, ih]⟩
  | invoke _ ih =>
    obtain ⟨h, ih⟩ := ih
    exact ⟨h, by rw [readLink, ih]; rfl⟩
  | listEnd _ hd ih =>
    obtain ⟨h, ih⟩ := ih
    exact ⟨h, by rw [readList, ih]; simp [bind, Except.bind, hd]⟩
  | @list _ _ _ _ _ comma _ hk _ ih₁ ih₂ =>
    obtain ⟨h₁, ih₁⟩ := ih₁
    obtain ⟨h₂, ih₂⟩ := ih₂
    have := comma.shorter
    exact ⟨by omega, by rw [readList, ih₁]; simp [bind, Except.bind, hk, ih₂]⟩
  | @bracketed _ _ _ _ close _ hc ih =>
    obtain ⟨h, ih⟩ := ih
    have := close.shorter
    exact ⟨by omega, by rw [readBracketed, ih]; simp [bind, Except.bind, Cursor.close_of_accept? _ hc]⟩
  | @argsEnd _ close hc => exact ⟨close.shorter, by rw [readArgs, hc]⟩
  | args hc _ ih =>
    obtain ⟨h, ih⟩ := ih
    exact ⟨h, by rw [readArgs, hc]; exact ih⟩
  | @name _ _ token ha hs =>
    obtain ⟨hn, hk⟩ := Cursor.next?_of_accept? ha
    exact ⟨token.shorter, by rw [readPrimary, hn]; simp [hk, hs]⟩
  | shortLambda ha hs _ ih => exact .shortLambda ha hs ih
  | literal hn hv => exact .literal hn hv
  | @self _ _ token ha =>
    obtain ⟨hn, hk⟩ := Cursor.next?_of_accept? ha
    exact ⟨token.shorter, by rw [readPrimary, hn]; simp [hk]⟩
  | create ha _ ih => exact .create ha ih
  | longLambda ha hl hp _ ih => exact .longLambda ha hl hp ih
  | paren ha hl _ hc ih => exact .paren ha hl ih hc
  | @lambda _ _ _ _ _ _ arrow ha _ ih =>
    intro hc
    obtain ⟨h, ih⟩ := ih
    have := arrow.shorter
    exact ⟨by omega, by rw [readLambdaBody, ha]; simp [bind, Except.bind, ih]⟩
  | createArgs ht ho _ hb ih => exact .createArgs ht ho ih hb
  | createBoth ht ho _ hb _ ih₁ ih₂ => exact .createBoth ht ho ih₁ hb ih₂
  | createEntries ht ho hb _ ih => exact .createEntries ht ho hb ih
  | @entriesEnd _ close hc => exact ⟨close.shorter, by rw [readEntries, hc]⟩
  | entriesLast hn _ hk hc ih => exact .entriesLast hn ih hk hc
  | entries hn _ hk _ ih₁ ih₂ => exact .entries hn ih₁ hk ih₂
  | entryElement hb hs _ _ ih₁ ih₂ => exact .entryElement hb hs ih₁ ih₂
  | entryMember hb hn _ ih => exact .entryMember hb hn ih
  | @entryValue _ _ _ sign hs _ ih =>
    obtain ⟨h, ih⟩ := ih
    have := sign.shorter
    exact ⟨by omega, by rw [readEntryValue, hs]; simp [bind, Except.bind, ih]⟩

end NavCheck
