import NavCheck.Decl.Body
import NavCheck.Proofs.Passing

/-!
# Recursive descents

Recursive functions that read tokens, written with their recursive calls as questions. A question may be asked about a
call with fewer tokens ahead, or with as many on a lower level, and about no other. The functions answer their own
questions, so none of them ever calls itself in any other way.
-/

namespace NavCheck

/-- Recursive functions on tokens: their calls, what a call gives, and one step of them, which may ask for what calls
below give. -/
structure Descent where
  Call : Type
  Result : Call → Type
  ahead : Call → Nat
  level : Call → Nat
  step : (c : Call) → ((d : Call) → ahead d < ahead c ∨ ahead d = ahead c ∧ level d < level c → Result d) → Result c

namespace Descent

variable (D : Descent)

/-- A call with fewer tokens ahead, or with as many on a lower level. -/
def Below (d c : D.Call) : Prop :=
  D.ahead d < D.ahead c ∨ D.ahead d = D.ahead c ∧ D.level d < D.level c

/-- No row of calls goes down for ever. -/
theorem wellFounded_below : WellFounded D.Below :=
  Subrelation.wf (r := InvImage (Prod.Lex (· < ·) (· < ·)) fun c => (D.ahead c, D.level c)) (fun h => Prod.lex_def.2 h)
    (InvImage.wf _ (Prod.lex Nat.lt_wfRel Nat.lt_wfRel).wf)

/-- Functions that answer the questions of their own steps. -/
def Describes (f : (c : D.Call) → D.Result c) : Prop :=
  ∀ c, f c = D.step c fun d _ => f d

variable {D}

/-- The steps determine the functions. -/
theorem Describes.unique {f g : (c : D.Call) → D.Result c} (hf : D.Describes f) (hg : D.Describes g) : f = g := by
  funext c
  induction c using D.wellFounded_below.induction with
  | h c ih =>
    rw [hf c, hg c]
    congr 1
    funext d hd
    exact ih d hd

/-- The functions that answer the questions of the steps, and the only ones. -/
def Determines (D : Descent) (f : (c : D.Call) → D.Result c) : Prop :=
  ∀ g, D.Describes g ↔ g = f

theorem Describes.determines {f : (c : D.Call) → D.Result c} (h : D.Describes f) : D.Determines f :=
  fun _ => ⟨fun hg => hg.unique h, fun hg => hg ▸ h⟩

end Descent

/-! ## Tokens ahead -/

namespace TypeScan

variable {α β : Type} {ts rest : List Token} {t : Token}

theorem shorter_of_rest (s : TypeScan α ts) (h : s.rest = t :: rest) : rest.length < ts.length := by
  have := s.shorter
  rw [h, List.length_cons] at this
  omega

/-- What ends with the token behind what was read. -/
def closedBy (s : TypeScan α ts) (h : s.rest = t :: rest) (value : β) : TypeScan β ts :=
  { value, last := t.span, rest, shorter := s.shorter_of_rest h }

/-- What goes on behind the token behind what was read. -/
def followedBy (s : TypeScan α ts) (h : s.rest = t :: rest) (more : TypeScan β rest) (value : β) : TypeScan β ts :=
  { value, last := more.last, rest := more.rest, shorter := Nat.lt_trans more.shorter (s.shorter_of_rest h) }

/-- What was read behind a token, with how many tokens are left at most. -/
def behind (t : Token) (s : TypeScan α ts) : α × Span × { rest : List Token // rest.length ≤ (t :: ts).length } :=
  (s.value, s.last, ⟨s.rest, by have := s.shorter; simp only [List.length_cons]; omega⟩)

/-- Nothing was read behind the last token. -/
def nothing (last : Span) (ts : List Token) : List α × Span × { rest : List Token // rest.length ≤ ts.length } :=
  ([], last, ⟨ts, Nat.le_refl _⟩)

section

variable (first : Token) (read : List TypeExpr × Span × { rest : List Token // rest.length ≤ ts.length })

theorem shorter_of_scanSuffixes {suffixes : List TypeSuffix} {last : Span}
    (h : TypeExpr.scanSuffixes read.2.1 read.2.2.1 = (suffixes, last, rest)) : rest.length < (first :: ts).length := by
  have hs := TypeExpr.length_scanSuffixes read.2.1 read.2.2.1
  have hr := read.2.2.2
  simp only [h] at hs
  simp only [List.length_cons]
  omega

/-- A type with a name and arguments, and with the suffixes behind them. -/
def named : TypeScan TypeExpr (first :: ts) :=
  match h : TypeExpr.scanSuffixes read.2.1 read.2.2.1 with
  | (suffixes, last, rest) =>
    { value := { name := first.lexeme, args := read.1, suffixes, span := first.span.join last }
      last
      rest
      shorter := shorter_of_scanSuffixes first read h }

end

end TypeScan

namespace Scan

/-- The functions that look at tokens ahead: they read types, they tell what a bracket and a question mark mean, and
they find where reading goes on behind a fault. -/
inductive Call where
  | type (tokens : List Token)
  | typeArgs (last : Span) (tokens : List Token)
  | typeList (tokens : List Token)
  | suffixes (last : Span) (tokens : List Token)
  | behindClose (depth : Nat) (tokens : List Token)
  | guards (depth questions pending : Nat) (tokens : List Token)
  | restOfExpression (depth : Nat) (tokens : List Token)
  | restOfMember (depth : Nat) (tokens : List Token)
  | toNextType (tokens : List Token)

namespace Call

/-- The tokens ahead. -/
def tokens : Call → List Token
  | type ts | typeArgs _ ts | typeList ts | suffixes _ ts | behindClose _ ts | guards _ _ _ ts | restOfExpression _ ts
  | restOfMember _ ts | toNextType ts => ts

/-- A row of types begins with a type. -/
def level : Call → Nat
  | typeList _ => 1
  | _ => 0

/-- One token further on the way behind a bracket. -/
def pastBracket (depth : Nat) (t : Token) (rest : List Token) (go : Nat → Option (List Token)) : Option (List Token) :=
  match t.kind with
  | .punct mark =>
    if mark.opens then go (depth + 1)
    else if mark.closes then
      match depth with
      | 0 => none
      | 1 => some rest
      | d + 2 => go (d + 1)
    else go depth
  | _ => go depth

/-- One token further on the way from a `?` to its `:`. -/
def pastQuestion (depth questions pending : Nat) (t : Token) (rest : List Token) (go : Nat → Nat → Nat → Bool) : Bool :=
  match t.kind with
  | .punct mark =>
    if mark.opens then go (depth + 1) questions pending
    else if mark.closes then
      match depth with
      | 0 => true
      | d + 1 => go d questions pending
    else if depth ≠ 0 then go depth questions pending
    else
      match mark with
      | .semicolon | .comma => true
      | .question => go depth (if guardsLink rest then questions else questions + 1) pending
      | .colon =>
        match questions, pending with
        | q + 1, _ => go depth q pending
        | 0, p + 1 => go depth 0 p
        | 0, 0 => false
      | _ => go depth questions pending
  | _ => go depth questions pending

/-- One token further on the way to the end of an expression. -/
def pastOperand (depth : Nat) (t : Token) (go : Nat → Nat) : Nat :=
  match t.kind with
  | .punct mark =>
    if mark.opens then go (depth + 1) + 1
    else if mark.closes then
      match depth with
      | 0 => 0
      | d + 1 => go d + 1
    else if depth = 0 ∧ (mark = .semicolon ∨ mark = .comma) then 0
    else go depth + 1
  | _ => go depth + 1

/-- One token further on the way to the end of a member. -/
def pastPart (depth : Nat) (t : Token) (go : Nat → Nat) : Nat :=
  match t.kind with
  | .punct .openBrace => go (depth + 1) + 1
  | .punct .closeBrace =>
    match depth with
    | 0 => 0
    | 1 => 1
    | d + 2 => go (d + 1) + 1
  | .punct .semicolon => if depth = 0 then 1 else go depth + 1
  | _ => go depth + 1

/-- What a call gives. -/
abbrev Result : Call → Type
  | type ts => Option (TypeScan TypeExpr ts)
  | typeArgs _ ts => Option (List TypeExpr × Span × { rest : List Token // rest.length ≤ ts.length })
  | typeList ts => Option (TypeScan (List TypeExpr) ts)
  | suffixes _ _ => List TypeSuffix × Span × List Token
  | behindClose _ _ => Option (List Token)
  | guards _ _ _ _ => Bool
  | restOfExpression _ _ | restOfMember _ _ | toNextType _ => Nat

/-- What may be asked for. -/
abbrev Asks (c : Call) : Type :=
  (d : Call) → d.tokens.length < c.tokens.length ∨ d.tokens.length = c.tokens.length ∧ d.level < c.level → d.Result

/-- One step of a call. -/
def step : (c : Call) → c.Asks → c.Result
  | type [], _ => none
  | type (first :: rest), ask =>
    if first.is .name then (ask (typeArgs first.span rest) (.inl (Nat.lt_succ_self _))).map (TypeScan.named first) else none
  | typeArgs last [], _ => some (TypeScan.nothing last [])
  | typeArgs last (t :: rest), ask =>
    if t.isSign .less then (ask (typeList rest) (.inl (Nat.lt_succ_self _))).map (TypeScan.behind t)
    else some (TypeScan.nothing last (t :: rest))
  | typeList ts, ask =>
    match ask (type ts) (.inr ⟨rfl, Nat.one_pos⟩) with
    | none => none
    | some arg =>
      match h : arg.rest with
      | [] => none
      | t :: rest =>
        if t.isMark .comma then
          (ask (typeList rest) (.inl (arg.shorter_of_rest h))).map fun more =>
            arg.followedBy h more (arg.value :: more.value)
        else if t.isSign .greater then some (arg.closedBy h [arg.value])
        else none
  | suffixes last [], _ => ([], last, [])
  | suffixes last (t :: rest), ask =>
    if t.isMark .question then
      if TypeExpr.guardsAccess rest then ([], last, t :: rest)
      else
        let (found, last, rest) := ask (suffixes t.span rest) (.inl (Nat.lt_succ_self _))
        (.nullable :: found, last, rest)
    else if t.isMark .openBracket then
      match rest, ask with
      | close :: rest', ask =>
        if close.isMark .closeBracket then
          let (found, last, rest) := ask (suffixes close.span rest') (.inl (by simp only [tokens, List.length_cons]; omega))
          (.array :: found, last, rest)
        else ([], last, t :: close :: rest')
      | [], _ => ([], last, [t])
    else ([], last, t :: rest)
  | behindClose _ [], _ => none
  | behindClose depth (t :: rest), ask =>
    pastBracket depth t rest fun depth => ask (behindClose depth rest) (.inl (Nat.lt_succ_self _))
  | guards _ _ _ [], _ => true
  | guards depth questions pending (t :: rest), ask =>
    pastQuestion depth questions pending t rest fun depth questions pending =>
      ask (guards depth questions pending rest) (.inl (Nat.lt_succ_self _))
  | restOfExpression _ [], _ => 0
  | restOfExpression depth (t :: rest), ask =>
    pastOperand depth t fun depth => ask (restOfExpression depth rest) (.inl (Nat.lt_succ_self _))
  | restOfMember _ [], _ => 0
  | restOfMember depth (t :: rest), ask =>
    pastPart depth t fun depth => ask (restOfMember depth rest) (.inl (Nat.lt_succ_self _))
  | toNextType [], _ => 0
  | toNextType (t :: rest), ask =>
    if Recovery.startsType t then 0 else ask (toNextType rest) (.inl (Nat.lt_succ_self _)) + 1

/-- The functions themselves. -/
def run : (c : Call) → c.Result
  | type ts => TypeExpr.scan? ts
  | typeArgs last ts => TypeExpr.scanArgs? last ts
  | typeList ts => TypeExpr.scanArgList? ts
  | suffixes last ts => TypeExpr.scanSuffixes last ts
  | behindClose depth ts => behindClose? depth ts
  | guards depth questions pending ts => questionGuards depth questions pending ts
  | restOfExpression depth ts => Recovery.expression depth ts
  | restOfMember depth ts => Recovery.member depth ts
  | toNextType ts => Recovery.type ts

end Call

/-- The recursion of the functions that look ahead. -/
def descent : Descent where
  Call := Call
  Result := Call.Result
  ahead c := c.tokens.length
  level := Call.level
  step := Call.step

theorem describes : descent.Describes Call.run := by
  intro c
  -- the functions on types recurse over a measure and are opened by their equations; the others go along the tokens
  cases c with
  | type ts =>
    show TypeExpr.scan? ts = _
    cases ts with
    | nil => rw [TypeExpr.scan?]; rfl
    | cons first rest =>
      rw [TypeExpr.scan?]
      dsimp only [descent, Call.step, Call.run]
      cases TypeExpr.scanArgs? first.span rest <;> rfl
  | typeArgs last ts =>
    show TypeExpr.scanArgs? last ts = _
    cases ts <;> rw [TypeExpr.scanArgs?] <;> rfl
  | typeList ts =>
    show TypeExpr.scanArgList? ts = _
    rw [TypeExpr.scanArgList?]
    rfl
  | suffixes last ts =>
    rcases ts with _ | ⟨t, _ | ⟨close, rest⟩⟩ <;> rfl
  | behindClose depth ts => cases ts <;> rfl
  | guards depth questions pending ts => cases ts <;> rfl
  | restOfExpression depth ts => cases ts <;> rfl
  | restOfMember depth ts => cases ts <;> rfl
  | toNextType ts =>
    cases ts with
    | nil => rfl
    | cons t rest =>
      show (List.takeWhile _ (t :: rest)).length = if Recovery.startsType t then 0 else Recovery.type rest + 1
      rw [List.takeWhile_cons]
      cases Recovery.startsType t <;> rfl

end Scan

/-! ## Expressions -/

namespace Parsed

variable {α β : Type} {c : Cursor}

/-- The same tokens, read as something else. -/
def giving (p : Parsed α c) (value : β) : Parsed β c :=
  ⟨value, p.next, p.shorter⟩

/-- What was read from where something else was read to, with the tokens of both. -/
def followedBy (p : Parsed α c) (q : Parsed β p.next) : Parsed β c :=
  ⟨q.value, q.next, Nat.lt_trans q.shorter p.shorter⟩

/-- What may have passed nothing from where something else was read to, with the tokens of both. -/
def followedByMany (p : Parsed α c) (q : ParsedMany β p.next) : Parsed β c :=
  ⟨q.value, q.next, Nat.lt_of_le_of_lt q.le p.shorter⟩

/-- What was read where nothing need be. -/
def many (p : Parsed α c) : ParsedMany α c :=
  ⟨p.value, p.next, Nat.le_of_lt p.shorter⟩

end Parsed

namespace Expr

/-- The functions that read expressions, each from a cursor on. -/
inductive Call where
  | assign (pending : Nat) (c : Cursor)
  | conditional (pending : Nat) (c : Cursor)
  | binary (pending least : Nat) (c : Cursor)
  | operators (pending least : Nat) (start : Cursor) (left : Expr) (c : Cursor)
  | unary (pending : Nat) (c : Cursor)
  | accesses (pending : Nat) (start : Cursor) (base : Expr) (c : Cursor)
  | link (start : AccessStart) (guarded : Bool) (c : Cursor)
  | list (c : Cursor)
  | bracketed (place : ClosePlace) (c : Cursor)
  | args (c : Cursor)
  | primary (pending : Nat) (c : Cursor)
  | lambda (pending : Nat) (start : Cursor) (head : Parsed (List LambdaParam) start)
  | lambdaHead (c : Cursor)
  | lambdaParams (c : Cursor)
  | creation (start c : Cursor)
  | entries (c : Cursor)
  | entry (c : Cursor)
  | entryValue (c : Cursor)

namespace Call

/-- The cursor of a call. -/
def cursor : Call → Cursor
  | assign _ c | conditional _ c | binary _ _ c | operators _ _ _ _ c | unary _ c | accesses _ _ _ c | link _ _ c | list c
  | bracketed _ c | args c | primary _ c | lambdaHead c | lambdaParams c | creation _ c | entries c | entry c
  | entryValue c => c
  | lambda _ _ head => head.next

/-- The levels of the grammar, from primary expressions up to the links and entries that hold whole expressions. -/
def level : Call → Nat
  | lambda .. | lambdaParams .. => 0
  | primary .. | lambdaHead .. | creation .. => 1
  | unary .. | accesses .. => 2
  | binary .. | operators .. => 3
  | conditional .. => 4
  | assign .. => 5
  | list .. | entryValue .. => 6
  | bracketed .. | entry .. => 7
  | args .. | entries .. => 8
  | link .. => 9

/-- What a call gives. -/
abbrev Result : Call → Type
  | assign _ c | conditional _ c | binary _ _ c | unary _ c | primary _ c | creation _ c | entryValue c => Read Expr c
  | operators _ _ _ _ c | accesses _ _ _ c => Except ExprError (ParsedMany Expr c)
  | link _ _ c => Read Link c
  | list c | bracketed _ c | args c => Read (List Expr) c
  | lambda _ start _ => Read Expr start
  | lambdaHead c | lambdaParams c => Read (List LambdaParam) c
  | entries c => Read (List Entry) c
  | entry c => Read Entry c

/-- What may be asked for. -/
abbrev Asks (c : Call) : Type :=
  (d : Call) → d.cursor.ahead.length < c.cursor.ahead.length ∨
    d.cursor.ahead.length = c.cursor.ahead.length ∧ d.level < c.level → d.Result

/-- One step of a call. -/
def step : (c : Call) → c.Asks → c.Result
  | assign pending c, ask => do
    let left ← ask (conditional pending c) (.inr ⟨rfl, (by decide : 4 < 5)⟩)
    match left.next.accept? (.sign .assign) with
    | none => .ok left
    | some sign =>
      let right ← ask (assign pending sign.next) (.inl (left.followedBy sign).shorter)
      .ok (((left.followedBy sign).followedBy right).giving (.assign left.value right.value (c.spanTo right.next)))
  | conditional pending c, ask => do
    let condition ← ask (binary pending 0 c) (.inr ⟨rfl, (by decide : 3 < 4)⟩)
    match condition.next.accept? (.punct .question) with
    | none => .ok condition
    | some question =>
      let opening := condition.followedBy question
      let thenBranch ← ask (assign (pending + 1) question.next) (.inl opening.shorter)
      match thenBranch.next.accept? (.punct .colon) with
      | none => thenBranch.next.fail .noColon
      | some colon =>
        let upToColon := (opening.followedBy thenBranch).followedBy colon
        let elseBranch ← ask (assign pending colon.next) (.inl upToColon.shorter)
        .ok ((upToColon.followedBy elseBranch).giving
          (.conditional condition.value thenBranch.value elseBranch.value (c.spanTo elseBranch.next)))
  | binary pending least c, ask => do
    let left ← ask (unary pending c) (.inr ⟨rfl, (by decide : 2 < 3)⟩)
    let whole ← ask (operators pending least c left.value left.next) (.inl left.shorter)
    .ok (left.followedByMany whole)
  | operators pending least start left c, ask =>
    match c.binOp? least with
    | none => .ok (.nothing left)
    | some op => do
      let least' := if op.value.groupsRight then op.value.precedence else op.value.precedence + 1
      let right ← ask (binary pending least' op.next) (.inl op.shorter)
      let left := .binary op.value left right.value (start.spanTo right.next)
      let whole ← ask (operators pending least start left right.next) (.inl (op.followedBy right).shorter)
      .ok ((op.followedBy right).followedByMany whole).many
  | unary pending c, ask =>
    match c.unOp? with
    | some op => do
      let operand ← ask (unary pending op.next) (.inl op.shorter)
      .ok ((op.followedBy operand).giving (.unary op.value operand.value (c.spanTo operand.next)))
    | none => do
      let base ← ask (primary pending c) (.inr ⟨rfl, (by decide : 1 < 2)⟩)
      let whole ← ask (accesses pending c base.value base.next) (.inl base.shorter)
      .ok (base.followedByMany whole)
  | accesses pending start base c, ask =>
    match c.accessStart? pending with
    | none => .ok (.nothing base)
    | some a => do
      let found ← ask (link a.value.1 a.value.2 a.next) (.inl a.shorter)
      let base := .access base found.value a.value.2 (start.spanTo found.next)
      let whole ← ask (accesses pending start base found.next) (.inl (a.followedBy found).shorter)
      .ok ((a.followedBy found).followedByMany whole).many
  | link .dot guarded c, _ => do
    let name ← c.memberName guarded
    .ok (name.giving (.member name.value.1 name.value.2))
  | link .bracket _ c, ask =>
    if c.sees (.punct .closeBracket) then c.fail .noIndex
    else do
      let indices ← ask (bracketed .indices c) (.inr ⟨rfl, (by decide : 7 < 9)⟩)
      .ok (indices.giving (.element indices.value))
  | link .paren _ c, ask => do
    let found ← ask (args c) (.inr ⟨rfl, (by decide : 8 < 9)⟩)
    .ok (found.giving (.invoke found.value))
  | list c, ask => do
    let e ← ask (assign 0 c) (.inr ⟨rfl, (by decide : 5 < 6)⟩)
    match e.next.accept? (.punct .comma) with
    | none => .ok (e.giving [e.value])
    | some comma =>
      let es ← ask (list comma.next) (.inl (e.followedBy comma).shorter)
      .ok (((e.followedBy comma).followedBy es).giving (e.value :: es.value))
  | bracketed place c, ask => do
    let es ← ask (list c) (.inr ⟨rfl, (by decide : 6 < 7)⟩)
    let p ← es.next.close place
    .ok ((es.followedBy p).giving es.value)
  | args c, ask =>
    match c.accept? (.punct .closeParen) with
    | some p => .ok (p.giving [])
    | none => ask (bracketed .args c) (.inr ⟨rfl, (by decide : 7 < 8)⟩)
  | primary pending c, ask =>
    match c.next? with
    | none => c.fail (.noExpression none)
    | some p =>
      let token := p.value
      let leaf (e : Expr) : Read Expr c := .ok (p.giving e)
      match token.kind with
      | .name =>
        if p.next.sees (.sign .arrow) then
          ask (lambda pending c (p.giving [⟨none, token.lexeme, token.span⟩])) (.inl p.shorter)
        else leaf (.name token.lexeme token.span)
      | .number value => leaf (.literal (.int value) token.span)
      | .string value => leaf (.literal (.str value) token.span)
      | .keyword .trueKw => leaf (.literal (.bool true) token.span)
      | .keyword .falseKw => leaf (.literal (.bool false) token.span)
      | .keyword .nullKw => leaf (.literal .null token.span)
      | .keyword .thisKw => leaf (.self token.span)
      | .keyword .newKw => do
        let e ← ask (creation c p.next) (.inl p.shorter)
        .ok (p.followedBy e)
      | .punct .openParen =>
        if c.opensLambda then do
          let params ← ask (lambdaHead p.next) (.inl p.shorter)
          ask (lambda pending c (p.followedBy params)) (.inl (p.followedBy params).shorter)
        else do
          let inner ← ask (assign 0 p.next) (.inl p.shorter)
          let close ← inner.next.close .paren
          .ok (((p.followedBy inner).followedBy close).giving (.paren inner.value (c.spanTo close.next)))
      | .punct .dollar => .error ⟨.looseDollar, some token.span⟩
      | _ => c.fail (.noExpression (some token.lexeme))
  | lambda pending start head, ask => do
    let arrow ← head.next.lambdaArrow
    let body ← ask (assign pending arrow.next) (.inl arrow.shorter)
    .ok (((head.followedBy arrow).followedBy body).giving (.lambda head.value body.value (start.spanTo body.next)))
  | lambdaHead c, ask =>
    match c.accept? (.punct .closeParen) with
    | some p => .ok (p.giving [])
    | none => do
      let ps ← ask (lambdaParams c) (.inr ⟨rfl, (by decide : 0 < 1)⟩)
      let p ← ps.next.close .lambdaParams
      .ok ((ps.followedBy p).giving ps.value)
  | lambdaParams c, ask => do
    let p ← c.lambdaParam
    match p.next.accept? (.punct .comma) with
    | none => .ok (p.giving [p.value])
    | some comma =>
      let ps ← ask (lambdaParams comma.next) (.inl (p.followedBy comma).shorter)
      .ok (((p.followedBy comma).followedBy ps).giving (p.value :: ps.value))
  | creation start c, ask =>
    match c.type? with
    | none => c.fail .noCreatedType
    | some type =>
      match type.next.accept? (.punct .openParen) with
      | some opening => do
        let found ← ask (args opening.next) (.inl (type.followedBy opening).shorter)
        let created := (type.followedBy opening).followedBy found
        match found.next.accept? (.punct .openBrace) with
        | some brace =>
          let inside ← ask (entries brace.next) (.inl (created.followedBy brace).shorter)
          .ok (((created.followedBy brace).followedBy inside).giving
            (.create type.value found.value inside.value (start.spanTo inside.next)))
        | none => .ok (created.giving (.create type.value found.value [] (start.spanTo found.next)))
      | none =>
        match type.next.accept? (.punct .openBrace) with
        | some brace => do
          let inside ← ask (entries brace.next) (.inl (type.followedBy brace).shorter)
          .ok (((type.followedBy brace).followedBy inside).giving
            (.create type.value [] inside.value (start.spanTo inside.next)))
        | none => type.next.fail (.noCreationBody type.value)
  | entries c, ask =>
    match c.accept? (.punct .closeBrace) with
    | some p => .ok (p.giving [])
    | none => do
      let first ← ask (entry c) (.inr ⟨rfl, (by decide : 7 < 8)⟩)
      match first.next.accept? (.punct .comma) with
      | some comma =>
        let rest ← ask (entries comma.next) (.inl (first.followedBy comma).shorter)
        .ok (((first.followedBy comma).followedBy rest).giving (first.value :: rest.value))
      | none =>
        let p ← first.next.close .initializer
        .ok ((first.followedBy p).giving [first.value])
  | entry c, ask =>
    match c.accept? (.punct .openBracket) with
    | some bracket => do
      if bracket.next.sees (.punct .closeBracket) then bracket.next.fail .noIndex
      else
        let indices ← ask (bracketed .indices bracket.next) (.inl bracket.shorter)
        let value ← ask (entryValue indices.next) (.inl (bracket.followedBy indices).shorter)
        .ok (((bracket.followedBy indices).followedBy value).giving
          (.element indices.value (c.spanTo indices.next) value.value))
    | none => do
      let name ← c.entryName
      let value ← ask (entryValue name.next) (.inl name.shorter)
      .ok ((name.followedBy value).giving (.member name.value.1 name.value.2 value.value))
  | entryValue c, ask =>
    match c.accept? (.sign .assign) with
    | none => c.fail .noEntryAssign
    | some sign => do
      let value ← ask (assign 0 sign.next) (.inl sign.shorter)
      .ok (sign.followedBy value)

/-- The functions themselves. -/
def run : (c : Call) → c.Result
  | assign pending c => readAssign pending c
  | conditional pending c => readConditional pending c
  | binary pending least c => readBinary pending least c
  | operators pending least start left c => readBinaryRest pending least start left c
  | unary pending c => readUnary pending c
  | accesses pending start base c => readAccesses pending start base c
  | link start guarded c => readLink start guarded c
  | list c => readList c
  | bracketed place c => readBracketed place c
  | args c => readArgs c
  | primary pending c => readPrimary pending c
  | lambda pending start head => readLambdaBody pending start head.value head.next head.shorter
  | lambdaHead c => c.lambdaParams
  | lambdaParams c => c.lambdaParamList
  | creation start c => readCreation start c
  | entries c => readEntries c
  | entry c => readEntry c
  | entryValue c => readEntryValue c

/-- The place behind what was read. -/
def stop? : (c : Call) → c.Result → Option Cursor
  | assign .., x | conditional .., x | binary .., x | operators .., x | unary .., x | accesses .., x | link .., x | list _, x
  | bracketed .., x | args _, x | primary .., x | lambda .., x | lambdaHead _, x | lambdaParams _, x | creation .., x
  | entries _, x | entry _, x | entryValue _, x => x.toOption.map (·.next)

end Call

/-- The recursion of the functions that read expressions. -/
def descent : Descent where
  Call := Call
  Result := Call.Result
  ahead c := c.cursor.ahead.length
  level := Call.level
  step := Call.step

theorem describes : descent.Describes Call.run := by
  intro c
  cases c with
  | assign pending c => exact readAssign.eq_def pending c
  | conditional pending c => exact readConditional.eq_def pending c
  | binary pending least c => exact readBinary.eq_def pending least c
  | operators pending least start left c => exact readBinaryRest.eq_def pending least start left c
  | unary pending c => exact readUnary.eq_def pending c
  | accesses pending start base c => exact readAccesses.eq_def pending start base c
  | link start guarded c => cases start <;> exact readLink.eq_def _ guarded c
  | list c => exact readList.eq_def c
  | bracketed place c => exact readBracketed.eq_def place c
  | args c => exact readArgs.eq_def c
  | primary pending c => exact readPrimary.eq_def pending c
  | lambda pending start head => exact readLambdaBody.eq_def pending start head.value head.next head.shorter
  | lambdaHead c => exact Cursor.lambdaParams.eq_def c
  | lambdaParams c => exact Cursor.lambdaParamList.eq_def c
  | creation start c => exact readCreation.eq_def start c
  | entries c => exact readEntries.eq_def c
  | entry c => exact readEntry.eq_def c
  | entryValue c => exact readEntryValue.eq_def c

end Expr

/-! ## Statements -/

namespace Step

variable {α β : Type} {r : Reader}

/-- The same way, with another value. -/
def giving (s : Step α r) (value : β) : Step β r :=
  ⟨value, s.next, s.le⟩

/-- One step and another one behind it. -/
def followedBy (s : Step α r) (t : Step β s.next) : Step β r :=
  ⟨t.value, t.next, Nat.le_trans t.le s.le⟩

end Step

namespace Parsed

variable {α : Type} {r : Reader} (p : Parsed α r.cursor)

theorem remaining_le : Reader.remaining { r with cursor := p.next } ≤ r.remaining :=
  Nat.le_of_lt p.shorter

/-- The step over what was read. -/
def step : Step α r :=
  ⟨p.value, { r with cursor := p.next }, p.remaining_le⟩

end Parsed

namespace Reading

theorem remaining_skip_lt {r s : Reader} (hle : s.remaining ≤ r.remaining) (hne : r.remaining ≠ 0) :
    ((skip 1).step s).next.remaining < r.remaining := by
  simp only [step, skip, Reader.remaining, List.length_drop] at *
  omega

/-- The functions that read statements, each from a place on. -/
inductive Call where
  | statement (r : Reader)
  | statements (r : Reader)

namespace Call

/-- The place of a call. -/
def reader : Call → Reader
  | statement r | statements r => r

/-- A row of statements begins with a statement. -/
def level : Call → Nat
  | statement _ => 0
  | statements _ => 1

/-- What a call gives. -/
abbrev Result : Call → Type
  | statement r => Step (Option Statement) r
  | statements r => Step (List Statement) r

/-- What may be asked for. -/
abbrev Asks (c : Call) : Type :=
  (d : Call) → d.reader.remaining < c.reader.remaining ∨ d.reader.remaining = c.reader.remaining ∧ d.level < c.level → d.Result

/-- One step of a call. -/
def step : (c : Call) → c.Asks → c.Result
  | statement r, ask =>
    match r.cursor.accept? (.punct .openBrace) with
    | some brace =>
      let inside := ask (statements { r with cursor := brace.next }) (.inl brace.shorter)
      let close := (expect .closeBrace).step inside.next
      ((brace.step.followedBy inside).followedBy close).giving
        (some (.block inside.value (r.cursor.spanTo close.next.cursor)))
    | none =>
      match r.cursor.accept? (.keyword .ifKw) with
      | some word =>
        let head := condition.step { r with cursor := word.next }
        match head.value with
        | none => (word.step.followedBy head).giving none
        | some test =>
          let thenBranch := ask (statement head.next) (.inl (Nat.lt_of_le_of_lt head.le word.shorter))
          let upToThen := (word.step.followedBy head).followedBy thenBranch
          match thenBranch.value with
          | none => upToThen.giving none
          | some first =>
            let otherwise := (accept (.keyword .elseKw)).step thenBranch.next
            if otherwise.value then
              let elseBranch := ask (statement otherwise.next)
                (.inl (Nat.lt_of_le_of_lt (Nat.le_trans otherwise.le (Nat.le_trans thenBranch.le head.le)) word.shorter))
              ((upToThen.followedBy otherwise).followedBy elseBranch).giving (elseBranch.value.map fun second =>
                .branch test first (some second) (r.cursor.spanTo elseBranch.next.cursor))
            else
              (upToThen.followedBy otherwise).giving
                (some (.branch test first none (r.cursor.spanTo otherwise.next.cursor)))
      | none => simpleStatement.step r
  | statements r, ask =>
    if ends : r.remaining = 0 ∨ r.cursor.sees (.punct .closeBrace) then Reading.step (pure []) r
    else
      let first := ask (statement r) (.inr ⟨rfl, Nat.one_pos⟩)
      if h : first.next.remaining < r.remaining then
        let rest := ask (statements first.next) (.inl h)
        (first.followedBy rest).giving (first.value.toList ++ rest.value)
      else
        let forced := (skip 1).step first.next
        let rest := ask (statements forced.next) (.inl (remaining_skip_lt first.le fun h => ends (.inl h)))
        ((first.followedBy forced).followedBy rest).giving (first.value.toList ++ rest.value)

/-- The functions themselves. -/
def run : (c : Call) → c.Result
  | statement r => statementFrom r
  | statements r => statementsFrom r

/-- The place behind what is read. -/
def next : Call → Reader
  | statement r => (statementFrom r).next
  | statements r => (statementsFrom r).next

end Call

/-- The recursion of the functions that read statements. -/
def descent : Descent where
  Call := Call
  Result := Call.Result
  ahead c := c.reader.remaining
  level := Call.level
  step := Call.step

theorem describes : descent.Describes Call.run := by
  intro c
  cases c with
  | statement r => exact statementFrom.eq_def r
  | statements r => exact statementsFrom.eq_def r

end Reading

end NavCheck
