import NavCheck.Decl.Parser
import NavCheck.Proofs.Marks

/-!
# Where declarations lie

The pieces of a unit that matter to names and chains are the names that it declares and its complete expressions. Reading lays
them out on the tokens one behind the other, also when tokens between them are passed over. `Reading.Lays` says that of an
action, and every action of the parser of declarations is shown to do so from the actions that it is made of.
-/

namespace NavCheck

/-- A piece of a declaration: a name that it declares, or a complete expression. -/
inductive Piece where
  | name (span : Span)
  | expr (e : Expr)

/-- Pieces that lie on tokens one behind the other: a name is the token of the name, and an expression was read from the
tokens it lies on. Tokens that belong to no piece may stand anywhere. -/
inductive Laid : List Piece → List Token → Prop
  | nothing (ts : List Token) : Laid [] ts
  | name (t : Token) : Laid [.name t.span] [t]
  | expr {e : Expr} {c d : Cursor} {ts : List Token} (h : Reads (.assign 0 e) c d) (hp : c.Passes ts d) :
    Laid [.expr e] ts
  | append {ps qs : List Piece} {ts us : List Token} (h : Laid ps ts) (h' : Laid qs us) : Laid (ps ++ qs) (ts ++ us)
  | sublist {ps qs : List Piece} {ts : List Token} (h : Laid qs ts) (hs : ps.Sublist qs) : Laid ps ts

namespace Laid

/-- Tokens behind do not matter. -/
theorem before {ps : List Piece} {ts : List Token} (h : Laid ps ts) (us : List Token) : Laid ps (ts ++ us) := by
  simpa using h.append (.nothing us)

end Laid

/-! ## The pieces of declarations -/

/-- The piece that an expression is, where there may be one. -/
def optionPieces : Option Expr → List Piece
  | some e => [.expr e]
  | none => []

mutual

/-- The pieces of a statement. -/
def Statement.pieces : Statement → List Piece
  | .block list _ => statementPieces list
  | .give value _ => optionPieces value
  | .branch condition thenBranch elseBranch _ =>
    .expr condition :: thenBranch.pieces ++
      match elseBranch with
      | some s => s.pieces
      | none => []
  | .local _ _ _ init _ => optionPieces init
  | .expr value => [.expr value]

/-- The pieces of statements. -/
def statementPieces : List Statement → List Piece
  | [] => []
  | s :: rest => s.pieces ++ statementPieces rest

end

/-- The pieces of a body. -/
def Body.pieces : Body → List Piece
  | .expr value => [.expr value]
  | .block b => statementPieces b.statements

/-- The pieces of parameters. -/
def paramPieces (params : List Param) : List Piece :=
  params.flatMap fun p => optionPieces p.default

/-- The pieces of an accessor. -/
def Accessor.pieces (a : Accessor) : List Piece :=
  match a.body with
  | some body => body.pieces
  | none => []

/-- The pieces of what a property or an indexer does. -/
def PropertyBody.pieces : PropertyBody → List Piece
  | .expr value => [.expr value]
  | .accessors list => list.flatMap Accessor.pieces

/-- The pieces of a member. -/
def Member.pieces : Member → List Piece
  | .field f => optionPieces f.init
  | .property p => p.body.pieces ++ optionPieces p.init
  | .method d => paramPieces d.params ++ d.body.pieces
  | .indexer i => paramPieces i.params ++ i.body.pieces

/-- The pieces of a primary constructor parameter: its name, and its default value. -/
def PrimaryParam.pieces (p : PrimaryParam) : List Piece :=
  .name p.nameSpan :: optionPieces p.default

/-- The pieces of a declaration: its name, and those of its parameters, of the arguments for its base, and of its members. -/
def TypeDecl.pieces (d : TypeDecl) : List Piece :=
  .name d.nameSpan :: (d.params.flatMap PrimaryParam.pieces ++ (d.baseArgs?.getD []).map .expr ++
    d.members.flatMap Member.pieces)

/-- The pieces of a unit. -/
def SourceUnit.pieces (u : SourceUnit) : List Piece :=
  u.types.flatMap TypeDecl.pieces

/-! ## Actions that lay pieces -/

namespace Reading

variable {α β : Type}

/-- When pieces `ps` lie on the tokens passed so far, the pieces `f v` of the outcome `v` lie on these and the tokens that the
action passes. -/
def LaysBehind (ps : List Piece) (a : Reading α) (f : α → List Piece) : Prop :=
  ∀ r, ∃ us, r.cursor.Passes us (a.run r).2.cursor ∧ ∀ ts, Laid ps ts → Laid (f (a.run r).1) (ts ++ us)

/-- The pieces of the outcome lie on the tokens that the action passes. -/
def Lays (a : Reading α) (f : α → List Piece) : Prop :=
  ∀ r, ∃ us, r.cursor.Passes us (a.run r).2.cursor ∧ Laid (f (a.run r).1) us

/-- The action passes tokens for no piece. -/
abbrev Silent (a : Reading α) : Prop :=
  a.Lays fun _ => []

/-- An answer without an action lays some of the pieces behind which it stands. -/
theorem laysBehind_pure {ps : List Piece} {v : α} {f : α → List Piece} (h : (f v).Sublist ps) :
    LaysBehind ps (pure v) f :=
  fun _ => ⟨[], .refl _, fun ts hl => by
    rw [List.append_nil]
    exact hl.sublist h⟩

/-- What lies behind no pieces lies on the tokens of the action alone. -/
theorem LaysBehind.lays {a : Reading α} {f : α → List Piece} (h : LaysBehind [] a f) : a.Lays f := by
  intro r
  obtain ⟨us, hp, hl⟩ := h r
  exact ⟨us, hp, hl [] (.nothing [])⟩

/-- The pieces of an action behind pieces. -/
theorem Lays.behind {a : Reading α} {f : α → List Piece} (h : a.Lays f) (ps : List Piece) :
    LaysBehind ps a fun v => ps ++ f v := by
  intro r
  obtain ⟨us, hp, hl⟩ := h r
  exact ⟨us, hp, fun ts hts => hts.append hl⟩

/-- An action and what goes on with its outcome. -/
theorem Lays.bind {ps : List Piece} {a : Reading α} {f : α → List Piece} {k : α → Reading β} {g : β → List Piece}
    (h : a.Lays f) (hk : ∀ v, LaysBehind (ps ++ f v) (k v) g) : LaysBehind ps (a >>= k) g := by
  intro r
  obtain ⟨us, hp, hl⟩ := h r
  obtain ⟨vs, hq, hm⟩ := hk (a.run r).1 (a.run r).2
  refine ⟨us ++ vs, hp.trans hq, fun ts hts => ?_⟩
  have := hm (ts ++ us) (hts.append hl)
  rwa [List.append_assoc] at this

/-- A silent action and what goes on with its outcome. -/
theorem Lays.then {ps : List Piece} {a : Reading α} {k : α → Reading β} {g : β → List Piece}
    (h : a.Silent) (hk : ∀ v, LaysBehind ps (k v) g) : LaysBehind ps (a >>= k) g :=
  h.bind fun v => by simpa using hk v

/-- Fewer pieces lie where more do. -/
theorem LaysBehind.weaken {ps : List Piece} {a : Reading α} {f g : α → List Piece} (h : LaysBehind ps a f)
    (hs : ∀ v, (g v).Sublist (f v)) : LaysBehind ps a g := by
  intro r
  obtain ⟨us, hp, hl⟩ := h r
  exact ⟨us, hp, fun ts hts => (hl ts hts).sublist (hs _)⟩

/-! ## The basic actions -/

/-- Asking where the reader is passes no token. -/
theorem silent_cursor : Silent cursor :=
  fun _ => ⟨[], .refl _, .nothing _⟩

/-- Reporting a fault passes no token. -/
theorem silent_report (fault : DeclFault) (span : Option Span) : Silent (report fault span) :=
  fun _ => ⟨[], .refl _, .nothing _⟩

/-- An action is silent for one who does not ask for its pieces. -/
theorem Lays.silent {a : Reading α} {f : α → List Piece} (h : a.Lays f) : a.Silent :=
  ((h.behind []).weaken fun _ => List.nil_sublist _).lays

/-- The last action behind pieces. -/
theorem Lays.last {ps : List Piece} {a : Reading α} {f g : α → List Piece} (h : a.Lays f)
    (hs : ∀ v, (g v).Sublist (ps ++ f v)) : LaysBehind ps a g :=
  (h.behind ps).weaken hs

/-- Reporting a fault at the next token passes no token. -/
theorem silent_reportHere (fault : DeclFault) : Silent (reportHere fault) :=
  (silent_cursor.then fun _ => (silent_report _ _).last fun _ => List.nil_sublist _).lays

/-- Looking at the next token passes no token. -/
theorem silent_found? : Silent found? :=
  (silent_cursor.then fun _ => laysBehind_pure (List.nil_sublist _)).lays

/-- Asking for the kind of the next token passes no token. -/
theorem silent_sees (kind : TokenKind) : Silent (sees kind) :=
  (silent_cursor.then fun _ => laysBehind_pure (List.nil_sublist _)).lays

/-- What is passed is laid when whatever the reader reads is. -/
theorem lays_pass {read : (c : Cursor) → Option (Parsed α c)} {f : α → List Piece}
    (h : ∀ c p, read c = some p → ∃ ts, c.Passes ts p.next ∧ Laid (f p.value) ts) :
    (pass read).Lays fun o => o.toList.flatMap f := by
  intro r
  unfold pass
  simp only [ofStep]
  cases hr : read r.cursor with
  | none => exact ⟨[], .refl _, .nothing _⟩
  | some p =>
    obtain ⟨ts, hp, hl⟩ := h r.cursor p hr
    exact ⟨ts, hp, by simpa using hl⟩

/-- A token that is passed may be the name of a declaration. -/
theorem lays_accept? (kind : TokenKind) : (accept? kind).Lays fun o => o.toList.flatMap fun t => [.name t.span] :=
  lays_pass fun _ _ h => ⟨_, Cursor.passes_accept? h, .name _⟩

/-- An accepted token belongs to no piece. -/
theorem silent_accept (kind : TokenKind) : Silent (accept kind) :=
  ((lays_accept? kind).silent.then fun _ => laysBehind_pure (List.nil_sublist _)).lays

/-- An expected mark belongs to no piece. -/
theorem silent_expect (mark : Punct) : Silent (expect mark) := by
  refine LaysBehind.lays ((silent_accept _).then fun b => ?_)
  cases b
  · exact silent_found?.then fun _ => (silent_reportHere _).then fun _ => laysBehind_pure (List.nil_sublist _)
  · exact laysBehind_pure (List.nil_sublist _)

/-- An expected name is a piece when it is there. -/
theorem lays_expectName (what : DeclName) :
    (expectName what).Lays fun o => o.toList.flatMap fun t => [.name t.span] := by
  refine LaysBehind.lays ((lays_accept? _).bind fun o => ?_)
  cases o with
  | none =>
    exact silent_found?.then fun _ => (silent_reportHere _).then fun _ => laysBehind_pure (List.nil_sublist _)
  | some token => exact laysBehind_pure (List.Sublist.refl _)

/-- The tokens of an expected type belong to no piece. -/
theorem silent_expectType (place : TypePlace) : Silent (expectType place) := by
  have hp : Silent (pass Cursor.type?) := Lays.silent (f := fun o => o.toList.flatMap fun _ => []) <|
    lays_pass fun c p h => by
      obtain ⟨ts, ht⟩ := Cursor.passes_type? h
      exact ⟨ts, ht, .nothing _⟩
  refine LaysBehind.lays (hp.then fun o => ?_)
  cases o with
  | none =>
    exact silent_found?.then fun _ => (silent_reportHere _).then fun _ => laysBehind_pure (List.nil_sublist _)
  | some type => exact laysBehind_pure (List.nil_sublist _)

/-- Skipped tokens belong to no piece. -/
theorem silent_skip (count : Nat) : Silent (skip count) :=
  fun r => ⟨r.cursor.ahead.take count, ⟨(List.take_append_drop _ _).symm, rfl⟩, .nothing _⟩

/-- Tokens that a rule skips belong to no piece. -/
theorem silent_skipBy (rule : List Token → Nat) : Silent (skipBy rule) :=
  (silent_cursor.then fun _ => (silent_skip _).last fun _ => List.nil_sublist _).lays

/-- A loop lays the pieces of its state when every round does. -/
theorem lays_iterate {σ : Type} {round : σ → Reading (σ × Bool)} {f : σ → List Piece}
    (h : ∀ s, LaysBehind (f s) (round s) fun v => f v.1) (s : σ) : LaysBehind (f s) (iterate round s) f := by
  intro r
  show ∃ us, r.cursor.Passes us (iterateFrom round s r).next.cursor ∧
    ∀ ts, Laid (f s) ts → Laid (f (iterateFrom round s r).value) (ts ++ us)
  fun_induction iterateFrom round s r with
  | case1 s r first hc rest ih =>
    obtain ⟨us, hp, hl⟩ := h s r
    obtain ⟨vs, hq, hm⟩ := ih
    refine ⟨us ++ vs, hp.trans hq, fun ts hts => ?_⟩
    rw [← List.append_assoc]
    exact hm _ (hl ts hts)
  | case2 s r first hc => exact h s r

/-- A row of items lays the pieces of each. -/
theorem lays_many {ends : Token → Bool} {item : Reading (Option α)} {f : α → List Piece}
    (h : item.Lays fun o => o.toList.flatMap f) : (many ends item).Lays fun list => list.flatMap f := by
  refine LaysBehind.lays (lays_iterate (f := fun list => list.flatMap f) (fun items => ?_) [])
  refine silent_cursor.then fun before => ?_
  split
  · exact laysBehind_pure (List.Sublist.refl _)
  · split
    · exact laysBehind_pure (List.Sublist.refl _)
    · refine h.bind fun read => silent_cursor.then fun now => ?_
      have hf : ∀ v : List α × Bool, v = (items ++ read.toList, true) →
          (v.1.flatMap f).Sublist (items.flatMap f ++ read.toList.flatMap f) := by
        rintro v rfl
        simp
      split
      · exact (silent_skip 1).then fun _ => laysBehind_pure (hf _ rfl)
      · exact laysBehind_pure (hf _ rfl)

/-- An expression that is read is a piece. -/
theorem lays_expr : expr.Lays optionPieces := by
  have he : expr?.Lays fun o => optionPieces o.toOption := by
    intro r
    unfold expr?
    simp only [ofStep]
    cases hr : Expr.readAssign 0 r.cursor with
    | error e => exact ⟨[], .refl _, .nothing _⟩
    | ok p =>
      have hd := reads_of_readAssign 0 r.cursor p hr
      obtain ⟨ts, ht⟩ := hd.passes
      exact ⟨ts, ht, .expr hd ht⟩
  refine LaysBehind.lays (he.bind fun o => ?_)
  cases o with
  | ok e => exact laysBehind_pure (List.Sublist.refl _)
  | error e =>
    exact (silent_report _ _).then fun _ => (silent_skipBy _).then fun _ => laysBehind_pure (List.Sublist.refl _)

/-! ## Statements -/

/-- The end of a statement belongs to no piece. -/
theorem silent_endStatement : Silent endStatement := by
  refine LaysBehind.lays ((silent_expect _).then fun b => ?_)
  cases b
  · exact (silent_skipBy _).last fun _ => List.nil_sublist _
  · exact laysBehind_pure (List.nil_sublist _)

/-- The pieces of what may be missing. -/
def ofOption (f : α → List Piece) (o : Option α) : List Piece :=
  o.toList.flatMap f

/-- The pieces of a `return` lie on its tokens. -/
theorem lays_returnRest (start : Cursor) : (returnRest start).Lays (ofOption Statement.pieces) := by
  have finish : ∀ value : Option Expr, LaysBehind (optionPieces value) (do
      endStatement
      return some (.give value (start.spanTo (← cursor)))) (ofOption Statement.pieces) := fun value =>
    silent_endStatement.then fun _ => silent_cursor.then fun _ =>
      laysBehind_pure (by simp [ofOption, Statement.pieces])
  refine LaysBehind.lays ((silent_sees _).then fun b => ?_)
  cases b
  · refine lays_expr.bind fun o => ?_
    cases o with
    | none => exact laysBehind_pure (List.Sublist.refl _)
    | some e => exact finish (some e)
  · exact finish none

/-- The pieces of a local lie on its tokens. -/
theorem lays_localRest (start : Cursor) (type : Option TypeExpr) :
    (localRest start type).Lays (ofOption Statement.pieces) := by
  refine LaysBehind.lays ((lays_expectName _).silent.then fun o => ?_)
  cases o with
  | none => exact (silent_skipBy _).then fun _ => laysBehind_pure (List.Sublist.refl _)
  | some name =>
    have finish : ∀ init : Option Expr, LaysBehind (optionPieces init) (do
        if type.isNone && init.isNone then report (.untypedLocal name.lexeme) (some name.span)
        endStatement
        return some (.local type name.lexeme name.span init (start.spanTo (← cursor)))) (ofOption Statement.pieces) := by
      intro init
      have rest : LaysBehind (optionPieces init) (do
          endStatement
          return some (.local type name.lexeme name.span init (start.spanTo (← cursor)))) (ofOption Statement.pieces) :=
        silent_endStatement.then fun _ => silent_cursor.then fun _ =>
          laysBehind_pure (by simp [ofOption, Statement.pieces])
      split
      · exact (silent_report _ _).then fun _ => rest
      · exact rest
    refine (silent_accept _).then fun b => ?_
    cases b
    · exact finish none
    · refine lays_expr.bind fun o => ?_
      cases o with
      | none => exact laysBehind_pure (List.Sublist.refl _)
      | some e => exact finish (some e)

/-- The pieces of a condition lie on its tokens. -/
theorem lays_condition : condition.Lays optionPieces := by
  refine LaysBehind.lays ((silent_expect _).then fun b => ?_)
  cases b
  · exact (silent_skipBy _).then fun _ => laysBehind_pure (List.Sublist.refl _)
  · refine lays_expr.bind fun o => ?_
    cases o with
    | none => exact laysBehind_pure (List.Sublist.refl _)
    | some e =>
      refine (silent_expect _).then fun b => ?_
      cases b
      · exact (silent_skipBy _).then fun _ => laysBehind_pure (List.nil_sublist _)
      · exact laysBehind_pure (List.Sublist.refl _)

/-- The pieces of a statement without statements in it lie on its tokens. -/
theorem lays_simpleStatement : simpleStatement.Lays (ofOption Statement.pieces) := by
  refine LaysBehind.lays (silent_cursor.then fun start => (silent_accept _).then fun b => ?_)
  cases b
  · refine (silent_accept _).then fun b => ?_
    cases b
    · show LaysBehind [] (if localAhead start.ahead = true then _ else _) _
      split
      · refine (silent_expectType _).then fun o => ?_
        cases o with
        | none => exact laysBehind_pure (List.Sublist.refl _)
        | some type => exact (lays_localRest _ _).last fun _ => List.Sublist.refl _
      · refine lays_expr.bind fun o => ?_
        cases o with
        | none => exact laysBehind_pure (List.Sublist.refl _)
        | some e => exact silent_endStatement.then fun _ => laysBehind_pure (List.Sublist.refl _)
    · exact (lays_localRest _ _).last fun _ => List.Sublist.refl _
  · exact (lays_returnRest _).last fun _ => List.Sublist.refl _

mutual

/-- The pieces of a statement lie on the tokens that are passed for it. -/
theorem laid_statementFrom (r : Reader) :
    ∃ us, r.cursor.Passes us (statementFrom r).next.cursor ∧ Laid (ofOption Statement.pieces (statementFrom r).value) us := by
  rw [statementFrom]
  cases hb : r.cursor.accept? (.punct .openBrace) with
  | some brace =>
    have := brace.shorter
    obtain ⟨us, hp, hl⟩ := laid_statementsFrom { r with cursor := brace.next }
    obtain ⟨vs, hq, -⟩ := silent_expect .closeBrace (statementsFrom { r with cursor := brace.next }).next
    refine ⟨_, ((Cursor.passes_accept? hb).trans hp).trans hq, ?_⟩
    exact (((Laid.nothing _).append hl).before vs).sublist (by simp [ofOption, Statement.pieces])
  | none =>
    dsimp only
    cases hw : r.cursor.accept? (.keyword .ifKw) with
    | none => exact lays_simpleStatement r
    | some word =>
      have h₁ : Reader.remaining { r with cursor := word.next } < r.remaining := word.shorter
      have h₂ := Nat.lt_of_le_of_lt (condition.step { r with cursor := word.next }).le h₁
      obtain ⟨us, hp, hl⟩ := lays_condition { r with cursor := word.next }
      have hhead := (Cursor.passes_accept? hw).trans hp
      dsimp only
      split
      · exact ⟨_, hhead, .nothing _⟩
      · rename_i test ht
        rw [show (condition.run { r with cursor := word.next }).1 = some test from ht] at hl
        have htest : Laid [.expr test] ([word.value] ++ us) := (Laid.nothing _).append hl
        obtain ⟨vs, hq, hm⟩ := laid_statementFrom (condition.step { r with cursor := word.next }).next
        have hthen := hhead.trans hq
        have h₃ := Nat.lt_of_le_of_lt (statementFrom (condition.step { r with cursor := word.next }).next).le h₂
        split
        · exact ⟨_, hthen, .nothing _⟩
        · rename_i first hf
          rw [hf] at hm
          have hboth := htest.append hm
          obtain ⟨ws, hv, -⟩ := silent_accept (.keyword .elseKw)
            (statementFrom (condition.step { r with cursor := word.next }).next).next
          have helse := hthen.trans hv
          have h₄ := Nat.lt_of_le_of_lt ((accept (.keyword .elseKw)).step
            (statementFrom (condition.step { r with cursor := word.next }).next).next).le h₃
          split
          · obtain ⟨xs, hx, ho⟩ := laid_statementFrom ((accept (.keyword .elseKw)).step
              (statementFrom (condition.step { r with cursor := word.next }).next).next).next
            refine ⟨_, helse.trans hx, ((hboth.before ws).append ho).sublist ?_⟩
            dsimp only
            cases (statementFrom ((accept (.keyword .elseKw)).step
              (statementFrom (condition.step { r with cursor := word.next }).next).next).next).value <;>
              simp [ofOption, Statement.pieces]
          · exact ⟨_, helse, (hboth.before ws).sublist (by simp [ofOption, Statement.pieces])⟩
termination_by (r.remaining, 0)

/-- The pieces of statements lie on the tokens that are passed for them. -/
theorem laid_statementsFrom (r : Reader) :
    ∃ us, r.cursor.Passes us (statementsFrom r).next.cursor ∧ Laid (statementPieces (statementsFrom r).value) us := by
  have hcons : ∀ (o : Option Statement) (list : List Statement),
      statementPieces (o.toList ++ list) = ofOption Statement.pieces o ++ statementPieces list := by
    intro o list
    cases o <;> simp [ofOption, statementPieces]
  rw [statementsFrom]
  split
  · exact ⟨[], .refl _, .nothing _⟩
  · obtain ⟨us, hp, hl⟩ := laid_statementFrom r
    dsimp only
    split
    · obtain ⟨vs, hq, hm⟩ := laid_statementsFrom (statementFrom r).next
      refine ⟨_, hp.trans hq, ?_⟩
      rw [hcons]
      exact hl.append hm
    · rename_i hne hns
      obtain ⟨ws, hw, -⟩ := silent_skip 1 (statementFrom r).next
      have h : ((skip 1).step (statementFrom r).next).next.remaining < r.remaining := by
        have := (statementFrom r).le
        have : r.remaining ≠ 0 := fun h => hne (.inl h)
        simp only [step, skip, Reader.remaining, List.length_drop] at *
        omega
      obtain ⟨vs, hq, hm⟩ := laid_statementsFrom ((skip 1).step (statementFrom r).next).next
      refine ⟨_, (hp.trans hw).trans hq, ?_⟩
      rw [hcons]
      exact (hl.before ws).append hm
termination_by (r.remaining, 1)

end

/-- The pieces of statements lie on their tokens. -/
theorem lays_statements : statements.Lays statementPieces :=
  laid_statementsFrom

/-- The pieces of a block lie on its tokens. -/
theorem lays_blockRest (start : Cursor) : (blockRest start).Lays fun b => statementPieces b.statements :=
  LaysBehind.lays <| lays_statements.bind fun _ => (silent_expect _).then fun _ => silent_cursor.then fun _ =>
    laysBehind_pure (List.Sublist.refl _)

/-- The pieces of an expression and the end behind it lie on their tokens. -/
theorem lays_exprAndEnd : exprAndEnd.Lays optionPieces := by
  refine LaysBehind.lays (lays_expr.bind fun o => ?_)
  cases o with
  | none => exact laysBehind_pure (List.Sublist.refl _)
  | some e =>
    refine (silent_expect _).then fun b => ?_
    cases b
    · exact laysBehind_pure (List.nil_sublist _)
    · exact laysBehind_pure (List.Sublist.refl _)

/-- The pieces of a body lie on its tokens. -/
theorem lays_body : body.Lays (ofOption Body.pieces) := by
  refine LaysBehind.lays (silent_cursor.then fun start => (silent_accept _).then fun b => ?_)
  cases b
  · refine (silent_accept _).then fun b => ?_
    cases b
    · exact (silent_reportHere _).then fun _ => laysBehind_pure (List.nil_sublist _)
    · exact (lays_blockRest start).bind fun _ => laysBehind_pure (by simp [ofOption, Body.pieces])
  · refine lays_exprAndEnd.bind fun o => laysBehind_pure ?_
    cases o <;> exact List.Sublist.refl _

end Reading

end NavCheck
