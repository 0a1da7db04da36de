import NavCheck.Decl.Parser
import NavCheck.Proofs.Layout.Expressions

/-!
# Declarations in another layout

The actions that read declarations do with relocated tokens what they do with the tokens: they give the relocated outcome,
they stop at the relocated place, and they report an error in both cases or in none. Only whether there are errors is
compared: codes depend on places.
-/

namespace NavCheck

/-- The state of reading relocated tokens beside that of reading the tokens. -/
structure Reader.Moved (m : Relocation) (tokens : List Token) (r' r : Reader) : Prop where
  cursor : r'.cursor = move m r.cursor
  amid : r.cursor.Over tokens
  errors : hasErrors r'.sink.found = hasErrors r.sink.found

namespace Reader.Moved

variable {m : Relocation} {tokens ts : List Token} {r' r : Reader}

/-- Relocation does not change how many tokens remain. -/
theorem remaining (h : Moved m tokens r' r) : r'.remaining = r.remaining := by
  rw [Reader.remaining, Reader.remaining, h.cursor, Cursor.placed_move_ahead, List.placed_move, List.length_map]

/-- Readers that pass the same tokens stay in step. -/
theorem passes (h : Moved m tokens r' r) {c : Cursor} (hc : r.cursor.Passes ts c) :
    Moved m tokens { r' with cursor := move m c } { r with cursor := c } :=
  ⟨rfl, h.amid.passes hc, h.errors⟩

end Reader.Moved

/-- A finding that gets a code stays an error. -/
theorem hasErrors_push (s : Sink) (d : Diagnostic) : hasErrors (s.push d).found = (hasErrors s.found || d.isError) := by
  have he : (Sink.withCode s.hash s.area d).isError = d.isError := by
    unfold Sink.withCode
    split <;> rfl
  simp [hasErrors, Sink.push, he]

/-- A report makes the sink hold errors. -/
theorem hasErrors_pushError (s : Sink) (message : String) (span : Option Span) :
    hasErrors (s.pushError message span).found = true := by
  rw [Sink.pushError, hasErrors_push]
  exact Bool.or_true _

namespace Reading

variable {α β : Type} [Placed α] [Placed β] {m : Relocation} {tokens : List Token}

/-- An action on relocated tokens beside an action on the tokens. -/
def Moves (m : Relocation) (tokens : List Token) (a' a : Reading α) : Prop :=
  ∀ r' r, Reader.Moved m tokens r' r →
    (a'.run r').1 = move m (a.run r).1 ∧ Reader.Moved m tokens (a'.run r').2 (a.run r).2

/-- An action that reads nothing moves along with its value. -/
theorem moves_pure {v' v : α} (hv : v' = move m v) : Moves m tokens (pure v') (pure v) :=
  fun _ _ h => ⟨hv, h⟩

/-- One more item on a list that was read. -/
theorem moves_push (list : List α) (a : α) (b : β) :
    Moves m tokens (pure (move m list ++ [move m a], move m b)) (pure (list ++ [a], b)) :=
  moves_pure (by simp)

/-- An action and what goes on with its outcome. -/
theorem Moves.bind {a' a : Reading α} {k' k : α → Reading β} (h : Moves m tokens a' a)
    (hk : ∀ v, Moves m tokens (k' (move m v)) (k v)) : Moves m tokens (a' >>= k') (a >>= k) := by
  intro r' r hr
  obtain ⟨hv, hn⟩ := h r' r hr
  have hs := hk (a.run r).1 _ _ hn
  rw [← hv] at hs
  exact hs

/-- What goes on with the place of the cursor. -/
theorem moves_cursor {k' k : Cursor → Reading β} (hk : ∀ c, c.Over tokens → Moves m tokens (k' (move m c)) (k c)) :
    Moves m tokens (cursor >>= k') (cursor >>= k) := by
  intro r' r hr
  have hs := hk r.cursor hr.amid r' r hr
  rw [← hr.cursor] at hs
  exact hs

/-- A report leaves the reader where it is, whatever places it is told with. -/
theorem moves_report (fault' fault : DeclFault) (span' span : Option Span) :
    Moves m tokens (report fault' span') (report fault span) :=
  fun _ _ h => ⟨rfl, h.cursor, h.amid, by
    show hasErrors (Sink.pushError _ _ _).found = hasErrors (Sink.pushError _ _ _).found
    rw [hasErrors_pushError, hasErrors_pushError]⟩

/-- A report at the next token is one in both texts. -/
theorem moves_reportHere (fault' fault : DeclFault) : Moves m tokens (reportHere fault') (reportHere fault) :=
  moves_cursor fun _ _ => moves_report _ _ _ _

/-- What a function of cursors reads is read from relocated tokens, relocated, if the function does not depend on places. -/
theorem moves_pass {read : (c : Cursor) → Option (Parsed α c)}
    (hm : ∀ c, c.Over tokens → read (move m c) = (read c).map (Parsed.move m))
    (hp : ∀ c p, read c = some p → ∃ ts, c.Passes ts p.next) : Moves m tokens (pass read) (pass read) := by
  rintro ⟨cursor, sink, skipped⟩ r hr
  obtain rfl : cursor = move m r.cursor := hr.cursor
  unfold pass
  simp only [ofStep, hm r.cursor hr.amid]
  cases h : read r.cursor with
  | none => exact ⟨rfl, hr⟩
  | some p => exact ⟨rfl, hr.passes (hp r.cursor p h).choose_spec⟩

/-- A token of a kind is accepted in both texts or in neither. -/
theorem moves_accept? (kind : TokenKind) : Moves m tokens (accept? kind) (accept? kind) :=
  moves_pass (fun c _ => Cursor.accept?_move m c kind) fun _ _ h => ⟨_, Cursor.passes_accept? h⟩

/-- Whether a token was accepted is the same in both texts. -/
theorem moves_accept (kind : TokenKind) : Moves m tokens (accept kind) (accept kind) :=
  (moves_accept? kind).bind fun o => by cases o <;> exact moves_pure rfl

/-- Whether a token of a kind is ahead is the same in both texts. -/
theorem moves_sees (kind : TokenKind) : Moves m tokens (sees kind) (sees kind) :=
  moves_cursor fun c _ => by rw [Cursor.sees_move]; exact moves_pure rfl

/-- What was found at the cursor shows in messages only. -/
theorem moves_found {k' k : Option String → Reading β} (hk : ∀ o' o, Moves m tokens (k' o') (k o)) :
    Moves m tokens (found? >>= k') (found? >>= k) :=
  fun r' r hr => hk _ _ r' r hr

/-- What was expected is not there, and something is given all the same. -/
theorem moves_missing {v' v : α} {fault' fault : Option String → DeclFault} (hv : v' = move m v) :
    Moves m tokens (do reportHere (fault' (← found?)); return v') (do reportHere (fault (← found?)); return v) :=
  moves_found fun _ _ => (moves_reportHere _ _).bind fun _ => moves_pure hv

/-- A mark that is expected is found in both texts or missed in both. -/
theorem moves_expect (mark : Punct) : Moves m tokens (expect mark) (expect mark) := by
  refine (moves_accept _).bind fun b => ?_
  cases b
  · exact moves_missing rfl
  · exact moves_pure rfl

/-- A name that is expected is found in both texts or missed in both. -/
theorem moves_expectName (what : DeclName) : Moves m tokens (expectName what) (expectName what) := by
  refine (moves_accept? _).bind fun o => ?_
  cases o
  · exact moves_missing rfl
  · exact moves_pure rfl

/-- A type that is expected is read relocated. -/
theorem moves_expectType (hm : m.Suits tokens) (place : TypePlace) :
    Moves m tokens (expectType place) (expectType place) := by
  refine (moves_pass (fun c hc => ?_) fun _ _ h => Cursor.passes_type? h).bind fun o => ?_
  · cases h : c.type? with
    | none => exact Cursor.type?_none hc hm h
    | some p => exact Cursor.type?_some hc hm h
  · cases o
    · exact moves_missing rfl
    · exact moves_pure rfl

/-- As many tokens are skipped in both texts. -/
theorem moves_skip (count : Nat) : Moves m tokens (skip count) (skip count) := by
  intro r' r hr
  refine ⟨rfl, ?_, ?_, hr.errors⟩
  · show Cursor.mk _ _ = move m (Cursor.mk _ _)
    rw [hr.cursor]
    simp [List.map_take, List.map_drop]
  · have ho := hr.amid
    unfold Cursor.Over at ho
    simp only [Cursor.Over, skip, List.reverse_append, List.reverse_reverse, List.append_assoc, List.take_append_drop, ho]

/-- A rule of recovery that looks at kinds only skips as many tokens in both texts. -/
theorem moves_skipBy {rule : List Token → Nat} (hr : ∀ ts, rule (ts.map (move m)) = rule ts) :
    Moves m tokens (skipBy rule) (skipBy rule) :=
  moves_cursor fun c _ => by
    rw [Cursor.placed_move_ahead, List.placed_move, hr]
    exact moves_skip _

/-- A loop whose round moves with its state moves with it in all its rounds. -/
theorem moves_iterate {σ : Type} [Placed σ] {round : σ → Reading (σ × Bool)}
    (h : ∀ s, Moves m tokens (round (move m s)) (round s)) (s : σ) :
    Moves m tokens (iterate round (move m s)) (iterate round s) := by
  intro r' r hr
  show (iterateFrom round (move m s) r').value = move m (iterateFrom round s r).value ∧
    Reader.Moved m tokens (iterateFrom round (move m s) r').next (iterateFrom round s r).next
  have again : ∀ {s r' r}, Reader.Moved m tokens r' r →
      ((((round (move m s)).step r').value.2 = true ∧ ((round (move m s)).step r').next.remaining < r'.remaining) ↔
        ((round s).step r).value.2 = true ∧ ((round s).step r).next.remaining < r.remaining) := by
    intro s r' r hr
    obtain ⟨hv, hn⟩ := h s r' r hr
    have hv : ((round (move m s)).step r').value = move m ((round s).step r).value := hv
    have hn : ((round (move m s)).step r').next.remaining = ((round s).step r).next.remaining := hn.remaining
    rw [hv, hn, hr.remaining]
    exact Iff.rfl
  fun_induction iterateFrom round s r generalizing r' with
  | case1 s r first hc rest ih =>
    obtain ⟨hv, hn⟩ := h s r' r hr
    have hv : ((round (move m s)).step r').value.1 = move m first.value.1 := congrArg Prod.fst hv
    rw [iterateFrom.eq_def]
    dsimp only
    rw [if_pos ((again hr).2 hc)]
    dsimp only
    rw [hv]
    exact ih _ hn
  | case2 s r first hc =>
    obtain ⟨hv, hn⟩ := h s r' r hr
    rw [iterateFrom.eq_def]
    dsimp only
    rw [if_neg (mt (again hr).1 hc)]
    exact ⟨congrArg Prod.fst hv, hn⟩

/-- The items of a row are read alike when each of them is and the row ends at the same token. -/
theorem moves_many {ends : Token → Bool} (he : ∀ t, ends (move m t) = ends t) {item : Reading (Option α)}
    (h : Moves m tokens item item) : Moves m tokens (many ends item) (many ends item) := by
  refine moves_iterate (fun items => moves_cursor fun before _ => ?_) []
  have hp : (move m before).peek? = before.peek?.map (move m) := by
    simp [Cursor.peek?, List.head?_map]
  rw [hp]
  cases before.peek? with
  | none => exact moves_pure rfl
  | some token =>
    simp only [Option.map_some, he]
    split
    · exact moves_pure rfl
    · refine h.bind fun read => moves_cursor fun now _ => ?_
      have hr : (move m now).remaining = (move m before).remaining ↔ now.remaining = before.remaining := by
        simp [Cursor.remaining]
      simp only [hr]
      have last : Moves m tokens (pure (move m items ++ (move m read).toList, true)) (pure (items ++ read.toList, true)) := by
        refine moves_pure ?_
        cases read <;> simp
      split
      · exact (moves_skip 1).bind fun _ => last
      · exact last

end Reading

/-! ## Recovery -/

namespace Recovery

variable (m : Relocation)

/-- Recovery from an expression looks at kinds only. -/
theorem expression_move (depth : Nat) (ts : List Token) : expression depth (ts.map (move m)) = expression depth ts := by
  induction ts generalizing depth with
  | nil => rfl
  | cons t ts ih => simp only [List.map_cons, expression, Token.placed_move_kind, ih]

/-- Recovery from a member looks at kinds only. -/
theorem member_move (depth : Nat) (ts : List Token) : member depth (ts.map (move m)) = member depth ts := by
  induction ts generalizing depth with
  | nil => rfl
  | cons t ts ih => simp only [List.map_cons, member, Token.placed_move_kind, ih]

/-- Recovery from a type looks at kinds only. -/
theorem type_move (ts : List Token) : type (ts.map (move m)) = type ts := by
  simp only [type, List.takeWhile_map, List.length_map]
  rfl

/-- Recovery from a statement looks at kinds only. -/
theorem statement_move (ts : List Token) : statement (ts.map (move m)) = statement ts := by
  rw [statement, statement, expression_move, ← List.map_drop]
  cases ts.drop (expression 0 ts) <;> rfl

end Recovery

namespace Reading

variable {m : Relocation} {tokens : List Token}

/-- Where the cursor reads an expression, the reader gives it and goes on behind it. -/
theorem run_expr_ok {r : Reader} {p : Parsed Expr r.cursor} (h : Expr.readAssign 0 r.cursor = .ok p) :
    expr.run r = (some p.value, { r with cursor := p.next }) := by
  show (expr? >>= _).run r = _
  simp only [bind, ofStep, step, expr?, h]
  rfl

/-- Where the cursor reads no expression, the reader reports this and skips to where an expression may end. -/
theorem run_expr_error {r : Reader} {e : ExprError} (h : Expr.readAssign 0 r.cursor = .error e) :
    expr.run r = (do
      report (.expr e.fault) e.span
      skipBy (Recovery.expression 0)
      return (none : Option Expr) : Reading (Option Expr)).run r := by
  show (expr? >>= _).run r = _
  simp only [bind, ofStep, step, expr?, h]

/-- An expression is read relocated, or skipped in both texts. -/
theorem moves_expr (hm : m.Suits tokens) : Moves m tokens expr expr := by
  rintro ⟨cursor, sink, skipped⟩ r hr
  obtain rfl : cursor = move m r.cursor := hr.cursor
  have failed : ∀ e' e : ExprError, Moves m tokens
      (do
        report (.expr e'.fault) e'.span
        skipBy (Recovery.expression 0)
        return (none : Option Expr))
      (do
        report (.expr e.fault) e.span
        skipBy (Recovery.expression 0)
        return none) := fun e' e =>
    (moves_report _ _ _ _).bind fun _ => (moves_skipBy (Recovery.expression_move m 0)).bind fun _ => moves_pure rfl
  cases he : Expr.readAssign 0 r.cursor with
  | ok p =>
    have he' : Expr.readAssign 0 (⟨move m r.cursor, sink, skipped⟩ : Reader).cursor = .ok (p.move m) :=
      Expr.readAssign_ok hm hr.amid he
    rw [run_expr_ok he, run_expr_ok he']
    exact ⟨rfl, hr.passes ((reads_of_readAssign 0 _ p he).passes).choose_spec⟩
  | error e =>
    obtain ⟨e', he'⟩ := Expr.readAssign_error hm hr.amid he
    have he' : Expr.readAssign 0 (⟨move m r.cursor, sink, skipped⟩ : Reader).cursor = .error e' := he'
    rw [run_expr_error he, run_expr_error he']
    exact failed e' e _ _ hr

/-! ## Headers -/

/-- Whether a modifier is ahead is a matter of kinds. -/
theorem modifierAhead_move (m : Relocation) (ts : List Token) : modifierAhead (ts.map (move m)) = modifierAhead ts := by
  rcases ts with _ | ⟨⟨kind, _, _⟩, _ | ⟨⟨kind', _, _⟩, _⟩⟩
  · rfl
  · cases kind <;> rfl
  · cases kind <;> cases kind' <;> rfl

/-- The modifiers of a declaration are read relocated. -/
theorem moves_modifiers : Moves m tokens modifiers modifiers := by
  have one : Moves m tokens modifier? modifier? := by
    refine moves_cursor fun c _ => ?_
    rw [Cursor.placed_move_ahead, List.placed_move, modifierAhead_move]
    cases modifierAhead c.ahead
    · exact moves_pure rfl
    · refine (moves_pass (fun c _ => Cursor.next?_move m c) fun _ _ h => ⟨_, Cursor.passes_next? h⟩).bind fun o => ?_
      cases o <;> exact moves_pure rfl
  refine moves_iterate (fun list => one.bind fun o => ?_) []
  cases o with
  | none => exact moves_pure rfl
  | some w => exact moves_push list w true

/-- The names in one pair of attribute brackets are read relocated. -/
theorem moves_attributeNames (target : Option String) :
    Moves m tokens (attributeNames target) (attributeNames target) := by
  refine moves_iterate (fun list => (moves_expectName _).bind fun o => ?_) []
  cases o with
  | none => exact moves_pure rfl
  | some name => exact (moves_accept _).bind fun b => moves_push list (Attribute.mk target name.lexeme name.span) b

/-- One pair of attribute brackets is read relocated. -/
theorem moves_attributeList : Moves m tokens attributeList attributeList := by
  have target : Moves m tokens attributeTarget? attributeTarget? := by
    refine moves_cursor fun c _ => ?_
    obtain ⟨passed, ahead⟩ := c
    rcases ahead with _ | ⟨⟨kind, _, _⟩, _ | ⟨⟨kind', _, _⟩, _⟩⟩
    · exact moves_pure rfl
    · cases kind <;> exact moves_pure rfl
    · cases kind with
      | name =>
        cases kind' with
        | punct mark =>
          cases mark with
          | colon => exact (moves_accept _).bind fun _ => (moves_accept _).bind fun _ => moves_pure rfl
          | _ => exact moves_pure rfl
        | _ => exact moves_pure rfl
      | _ => exact moves_pure rfl
  refine target.bind fun target => ?_
  have ht : move m target = target := by cases target <;> rfl
  rw [ht]
  refine (moves_attributeNames target).bind fun names => (moves_expect _).bind fun b => ?_
  cases b
  · exact (moves_skipBy (Recovery.expression_move m 0)).bind fun _ => (moves_accept _).bind fun _ => moves_pure rfl
  · exact moves_pure rfl

/-- All attributes of a declaration are read relocated. -/
theorem moves_attributes : Moves m tokens attributes attributes := by
  refine moves_iterate (fun list => (moves_accept _).bind fun b => ?_) []
  cases b
  · exact moves_pure rfl
  · exact moves_attributeList.bind fun _ => moves_pure (by simp)

/-- Generic parameters are read relocated. -/
theorem moves_generics : Moves m tokens generics generics := by
  refine (moves_accept _).bind fun b => ?_
  cases b
  · exact moves_pure rfl
  refine (moves_iterate (fun list => (moves_expectName _).bind fun o => ?_) []).bind fun list =>
    (moves_accept _).bind fun b => ?_
  · cases o with
    | none => exact moves_pure rfl
    | some name =>
      have finish : Moves m tokens
          (do return (move m list ++ [⟨(move m name).lexeme, (move m name).span, none⟩], ← accept (.punct .comma)))
          (do return (list ++ [(⟨name.lexeme, name.span, none⟩ : GenericParam)], ← accept (.punct .comma))) :=
        (moves_accept _).bind fun b => moves_push list (GenericParam.mk name.lexeme name.span none) b
      have hl : (move m list).any (·.name == (move m name).lexeme) = list.any (·.name == name.lexeme) := by
        simp [List.any_map, Function.comp_def]
      dsimp only [Option.placed_move, Option.map_some]
      rw [hl]
      split
      · exact (moves_report _ _ _ _).bind fun _ => finish
      · exact finish
  · cases b
    · exact (moves_reportHere _ _).bind fun _ => moves_pure rfl
    · exact moves_pure rfl

/-- A default value is read relocated, if there is one. -/
theorem moves_default? (hm : m.Suits tokens) : Moves m tokens default? default? := by
  refine (moves_accept _).bind fun b => ?_
  cases b
  · exact moves_pure rfl
  · exact moves_expr hm

/-- A parameter of a primary constructor is read relocated. -/
theorem moves_primaryParam (hm : m.Suits tokens) : Moves m tokens primaryParam primaryParam := by
  refine moves_cursor fun start hs => moves_attributes.bind fun attributes => moves_modifiers.bind fun modifiers =>
    (moves_expectType hm _).bind fun o => ?_
  cases o with
  | none => exact moves_pure rfl
  | some type =>
    refine (moves_expectName _).bind fun o => ?_
    cases o with
    | none => exact moves_pure rfl
    | some name =>
      exact (moves_default? hm).bind fun default => moves_cursor fun c hc => moves_pure (by
        rw [hs.spanTo hc hm]; rfl)

/-- The parameters of a primary constructor are read relocated, if there are any. -/
theorem moves_primary? (hm : m.Suits tokens) : Moves m tokens primary? primary? := by
  refine (moves_accept _).bind fun b => ?_
  cases b
  · exact moves_pure rfl
  refine (moves_accept _).bind fun b => ?_
  cases b
  · refine (moves_iterate (fun list => (moves_primaryParam hm).bind fun o => ?_) []).bind fun list =>
      (moves_expect _).bind fun _ => moves_pure rfl
    have finish : ∀ list : List PrimaryParam, Moves m tokens
        (do return (move m list, ← accept (.punct .comma))) (do return (list, ← accept (.punct .comma))) := fun list =>
      (moves_accept _).bind fun b => moves_pure rfl
    cases o with
    | none => exact (moves_skipBy (Recovery.expression_move m 0)).bind fun _ => finish list
    | some param =>
      have hl : (move m list).any (·.name == (move m param).name) = list.any (·.name == param.name) := by
        simp [List.any_map, Function.comp_def]
      have hp : move m (list ++ [param]) = move m list ++ [move m param] := by simp
      have hf := finish (list ++ [param])
      rw [hp] at hf
      dsimp only [Option.placed_move, Option.map_some]
      rw [hl]
      split
      · exact (moves_report _ _ _ _).bind fun _ => hf
      · exact hf
  · exact moves_pure rfl

/-- The arguments of a base are read relocated. -/
theorem moves_arguments (hm : m.Suits tokens) : Moves m tokens arguments arguments := by
  refine (moves_accept _).bind fun b => ?_
  cases b
  · refine (moves_iterate (fun list => (moves_expr hm).bind fun arg => (moves_accept _).bind fun b => ?_) []).bind
      fun _ => (moves_expect _).bind fun _ => moves_pure rfl
    exact moves_pure (by cases arg <;> simp)
  · exact moves_pure rfl

/-- The base of a type is read relocated, if there is one. -/
theorem moves_base? (hm : m.Suits tokens) : Moves m tokens base? base? := by
  have spec : Moves m tokens baseSpec baseSpec := by
    refine moves_cursor fun start hs => (moves_expectType hm _).bind fun o => ?_
    cases o with
    | none => exact moves_pure rfl
    | some type =>
      have finish : ∀ args : Option (List Expr), Moves m tokens
          (do return some ({ type := move m type, args := move m args, span := (move m start).spanTo (← cursor) } : BaseSpec))
          (do return some ({ type, args, span := start.spanTo (← cursor) } : BaseSpec)) := fun args =>
        moves_cursor fun c hc => moves_pure (by rw [hs.spanTo hc hm]; rfl)
      have args : Moves m tokens (some <$> arguments) (some <$> arguments) :=
        (moves_arguments hm).bind fun _ => moves_pure rfl
      refine (moves_accept _).bind fun b => ?_
      cases b
      · exact finish none
      · exact args.bind finish
  refine (moves_accept _).bind fun b => ?_
  cases b
  · exact moves_pure rfl
  · exact spec

/-- The constraint of a generic parameter is read relocated. -/
theorem moves_constraint (hm : m.Suits tokens) : Moves m tokens constraint constraint := by
  refine (moves_accept _).bind fun b => ?_
  cases b
  · refine (moves_accept _).bind fun b => ?_
    cases b
    · refine (moves_expectType hm _).bind fun o => ?_
      cases o <;> exact moves_pure rfl
    · exact moves_pure rfl
  · exact moves_pure rfl

/-- Constraining a generic parameter by its name does not look at places. -/
theorem constrain_move (m : Relocation) (name : String) (constraint : Option GenericConstraint) (list : List GenericParam) :
    constrain name (move m constraint) (move m list) = move m (constrain name constraint list) := by
  induction list with
  | nil => rfl
  | cons p ps ih =>
    rw [constrain]
    show constrain name (move m constraint) (move m p :: move m ps) = _
    rw [constrain, ih]
    show (if p.name = name then _ else _) = _
    split <;> rfl

/-- One `where` clause constrains the relocated parameters as it does the parameters. -/
theorem moves_whereClause (hm : m.Suits tokens) (list : List GenericParam) :
    Moves m tokens (whereClause (move m list)) (whereClause list) := by
  refine (moves_expectName _).bind fun o => ?_
  cases o with
  | none => exact moves_pure rfl
  | some name =>
    refine (moves_expect _).bind fun b => ?_
    cases b
    · exact moves_pure rfl
    · refine (moves_constraint hm).bind fun constraint => ?_
      have hf : (move m list).find? (·.name == (move m name).lexeme) =
          (list.find? (·.name == name.lexeme)).map (move m) := List.find?_map
      dsimp only [Option.placed_move, Option.map_some]
      rw [hf]
      cases list.find? (·.name == name.lexeme) with
      | none => exact (moves_report _ _ _ _).bind fun _ => moves_pure rfl
      | some param =>
        have hc : (move m param).constraint.isSome = param.constraint.isSome := by simp
        simp only [Option.map_some, hc]
        split
        · exact (moves_report _ _ _ _).bind fun _ => moves_pure rfl
        · exact moves_pure (constrain_move m name.lexeme constraint list)

/-- All `where` clauses are read relocated. -/
theorem moves_whereClauses (hm : m.Suits tokens) (list : List GenericParam) :
    Moves m tokens (whereClauses (move m list)) (whereClauses list) := by
  refine moves_iterate (fun list => (moves_accept _).bind fun b => ?_) list
  cases b
  · exact moves_pure rfl
  · exact (moves_whereClause hm list).bind fun _ => moves_pure rfl

/-! ## Statements -/

/-- The end of a statement is found in both texts or missed in both. -/
theorem moves_endStatement : Moves m tokens endStatement endStatement := by
  refine (moves_expect _).bind fun b => ?_
  cases b
  · exact moves_skipBy (Recovery.statement_move m)
  · exact moves_pure rfl

/-- A statement that is given up. -/
theorem moves_dropStatement {α : Type} [Placed α] : Moves m tokens
    (do
      skipBy Recovery.statement
      return (none : Option α))
    (do
      skipBy Recovery.statement
      return (none : Option α)) :=
  (moves_skipBy (Recovery.statement_move m)).bind fun _ => moves_pure rfl

/-- An expression and the end of its statement are read relocated. -/
theorem moves_exprAndEnd (hm : m.Suits tokens) : Moves m tokens exprAndEnd exprAndEnd := by
  refine (moves_expr hm).bind fun o => ?_
  cases o with
  | none => exact moves_pure rfl
  | some e =>
    refine (moves_expect _).bind fun b => ?_
    cases b <;> exact moves_pure rfl

/-- The rest of a `return` is read relocated from a start that is. -/
theorem moves_returnRest (hm : m.Suits tokens) {start : Cursor} (hs : start.Over tokens) :
    Moves m tokens (returnRest (move m start)) (returnRest start) := by
  have finish : ∀ value : Option Expr, Moves m tokens
      (do
        endStatement
        return some (Statement.give (move m value) ((move m start).spanTo (← cursor))))
      (do
        endStatement
        return some (Statement.give value (start.spanTo (← cursor)))) := fun value =>
    moves_endStatement.bind fun _ => moves_cursor fun c hc => moves_pure (by rw [hs.spanTo hc hm]; rfl)
  refine (moves_sees _).bind fun b => ?_
  cases b
  · refine (moves_expr hm).bind fun o => ?_
    cases o with
    | none => exact moves_pure rfl
    | some e => exact finish (some e)
  · exact finish none

/-- The rest of a declaration of a local is read relocated from a start that is. -/
theorem moves_localRest (hm : m.Suits tokens) {start : Cursor} (hs : start.Over tokens) (type : Option TypeExpr) :
    Moves m tokens (localRest (move m start) (move m type)) (localRest start type) := by
  refine (moves_expectName _).bind fun o => ?_
  cases o with
  | none => exact moves_dropStatement
  | some name =>
    have finish : ∀ init : Option Expr, Moves m tokens
        (do
          if (move m type).isNone && (move m init).isNone then
            report (.untypedLocal (move m name).lexeme) (some (move m name).span)
          endStatement
          return some (Statement.local (move m type) (move m name).lexeme (move m name).span (move m init)
            ((move m start).spanTo (← cursor))))
        (do
          if type.isNone && init.isNone then report (.untypedLocal name.lexeme) (some name.span)
          endStatement
          return some (Statement.local type name.lexeme name.span init (start.spanTo (← cursor)))) := by
      intro init
      have rest : Moves m tokens
          (do
            endStatement
            return some (Statement.local (move m type) (move m name).lexeme (move m name).span (move m init)
              ((move m start).spanTo (← cursor))))
          (do
            endStatement
            return some (Statement.local type name.lexeme name.span init (start.spanTo (← cursor)))) :=
        moves_endStatement.bind fun _ => moves_cursor fun c hc => moves_pure (by rw [hs.spanTo hc hm]; rfl)
      have hn : ((move m type).isNone && (move m init).isNone) = (type.isNone && init.isNone) := by
        simp
      rw [hn]
      split
      · exact (moves_report _ _ _ _).bind fun _ => rest
      · exact rest
    refine (moves_accept _).bind fun b => ?_
    cases b
    · exact finish none
    · refine (moves_expr hm).bind fun o => ?_
      cases o with
      | none => exact moves_pure rfl
      | some e => exact finish (some e)

/-- The condition of an `if` is read relocated. -/
theorem moves_condition (hm : m.Suits tokens) : Moves m tokens condition condition := by
  refine (moves_expect _).bind fun b => ?_
  cases b
  · exact moves_dropStatement
  · refine (moves_expr hm).bind fun o => ?_
    cases o with
    | none => exact moves_pure rfl
    | some e =>
      refine (moves_expect _).bind fun b => ?_
      cases b
      · exact moves_dropStatement
      · exact moves_pure rfl

/-- Whether a local is declared ahead does not depend on places. -/
theorem localAhead_move (hm : m.Suits tokens) {c : Cursor} (hc : c.Over tokens) :
    localAhead (move m c).ahead = localAhead c.ahead := by
  unfold localAhead
  cases h : TypeExpr.scan? c.ahead with
  | none =>
    have hn : c.type? = none := by rw [Cursor.type?, h, Option.map_none]
    rw [Option.map_eq_none_iff.1 (Cursor.type?_none hc hm hn)]
  | some s =>
    obtain ⟨s', hs', hv⟩ := TypeExpr.scan?_move hm c.ahead (fun _ => hc.mem_ahead) s h
    have hs' : TypeExpr.scan? (move m c).ahead = some s' := hs'
    rw [hs']
    dsimp only
    rw [hv.rest]
    rcases s.rest with _ | ⟨⟨kind, _, _⟩, _ | ⟨_, _⟩⟩
    · rfl
    · cases kind <;> rfl
    · cases kind <;> rfl

/-- A statement without statements inside it is read relocated. -/
theorem moves_simpleStatement (hm : m.Suits tokens) : Moves m tokens simpleStatement simpleStatement := by
  refine moves_cursor fun start hs => (moves_accept _).bind fun b => ?_
  cases b
  · refine (moves_accept _).bind fun b => ?_
    cases b
    · show Moves m tokens (if localAhead (move m start).ahead = true then _ else _)
        (if localAhead start.ahead = true then _ else _)
      rw [localAhead_move hm hs]
      split
      · refine (moves_expectType hm _).bind fun o => ?_
        cases o with
        | none => exact moves_pure rfl
        | some type => exact moves_localRest hm hs (some type)
      · refine (moves_expr hm).bind fun o => ?_
        cases o with
        | none => exact moves_pure rfl
        | some e => exact moves_endStatement.bind fun _ => moves_pure rfl
    · exact moves_localRest hm hs none
  · exact moves_returnRest hm hs

/-- The outcome of reading relocated tokens beside that of reading the tokens. -/
def StepMoves {α : Type} [Placed α] (m : Relocation) (tokens : List Token) {r' r : Reader} (s' : Step α r')
    (s : Step α r) : Prop :=
  s'.value = move m s.value ∧ Reader.Moved m tokens s'.next s.next

mutual

/-- A statement is read relocated. The recursion is that of the reader: along the tokens that remain. -/
theorem moves_statementFrom (hm : m.Suits tokens) (r' r : Reader) (hr : Reader.Moved m tokens r' r) :
    StepMoves m tokens (statementFrom r') (statementFrom r) := by
  obtain ⟨cursor, sink, skipped⟩ := r'
  obtain rfl : cursor = move m r.cursor := hr.cursor
  rw [statementFrom, statementFrom]
  dsimp only
  cases hb : r.cursor.accept? (.punct .openBrace) with
  | some brace =>
    rw [Cursor.accept?_some hb]
    have h₁ : Reader.remaining { r with cursor := brace.next } < r.remaining := brace.shorter
    have inside := moves_statementsFrom hm ⟨move m brace.next, sink, skipped⟩ { r with cursor := brace.next }
      (hr.passes (Cursor.passes_accept? hb))
    have close := moves_expect (m := m) .closeBrace _ _ inside.2
    refine ⟨?_, close.2⟩
    show some (Statement.block _ _) = some (move m (Statement.block _ _))
    rw [Statement.move_block]
    exact congrArg some (congr (congrArg Statement.block inside.1)
      ((congrArg _ close.2.cursor).trans (hr.amid.spanTo close.2.amid hm)))
  | none =>
    rw [Cursor.accept?_none hb]
    dsimp only
    cases hw : r.cursor.accept? (.keyword .ifKw) with
    | none =>
      rw [Cursor.accept?_none hw]
      show StepMoves m tokens (simpleStatement.step _) (simpleStatement.step r)
      exact moves_simpleStatement hm _ _ hr
    | some word =>
      rw [Cursor.accept?_some hw]
      have h₁ : Reader.remaining { r with cursor := word.next } < r.remaining := word.shorter
      have h₂ := Nat.lt_of_le_of_lt (condition.step { r with cursor := word.next }).le h₁
      have head : StepMoves m tokens (condition.step ⟨move m word.next, sink, skipped⟩)
          (condition.step { r with cursor := word.next }) :=
        moves_condition hm _ _ (hr.passes (Cursor.passes_accept? hw))
      have first := moves_statementFrom hm _ _ head.2
      have h₃ := Nat.lt_of_le_of_lt (statementFrom (condition.step { r with cursor := word.next }).next).le h₂
      have other : StepMoves m tokens
          ((accept (.keyword .elseKw)).step (statementFrom (condition.step ⟨move m word.next, sink, skipped⟩).next).next)
          ((accept (.keyword .elseKw)).step (statementFrom (condition.step { r with cursor := word.next }).next).next) :=
        moves_accept _ _ _ first.2
      have h₄ := Nat.lt_of_le_of_lt ((accept (.keyword .elseKw)).step
        (statementFrom (condition.step { r with cursor := word.next }).next).next).le h₃
      have last := moves_statementFrom hm _ _ other.2
      dsimp only [Parsed.move]
      cases ht : (condition.step { r with cursor := word.next }).value with
      | none =>
        rw [none_of_map head.1 ht]
        exact ⟨rfl, head.2⟩
      | some test =>
        rw [some_of_map head.1 ht]
        dsimp only
        cases hf : (statementFrom (condition.step { r with cursor := word.next }).next).value with
        | none =>
          rw [none_of_map first.1 hf]
          exact ⟨rfl, first.2⟩
        | some thenBranch =>
          rw [some_of_map first.1 hf]
          dsimp only
          rw [other.1]
          dsimp only [Bool.placed_move]
          split
          · refine ⟨?_, last.2⟩
            dsimp only
            rw [last.1, last.2.cursor, hr.amid.spanTo last.2.amid hm]
            cases (statementFrom ((accept (.keyword .elseKw)).step
              (statementFrom (condition.step { r with cursor := word.next }).next).next).next).value <;> simp
          · refine ⟨?_, other.2⟩
            dsimp only
            rw [other.2.cursor, hr.amid.spanTo other.2.amid hm]
            simp
termination_by (r.remaining, 0)

/-- The statements of a block are read relocated. -/
theorem moves_statementsFrom (hm : m.Suits tokens) (r' r : Reader) (hr : Reader.Moved m tokens r' r) :
    StepMoves m tokens (statementsFrom r') (statementsFrom r) := by
  have hends : (r'.remaining = 0 ∨ r'.cursor.sees (.punct .closeBrace) = true) ↔
      (r.remaining = 0 ∨ r.cursor.sees (.punct .closeBrace) = true) := by
    rw [hr.remaining, hr.cursor, Cursor.sees_move]
  rw [statementsFrom, statementsFrom]
  by_cases he : r.remaining = 0 ∨ r.cursor.sees (.punct .closeBrace) = true
  · rw [dif_pos (hends.2 he), dif_pos he]
    exact ⟨rfl, hr⟩
  · rw [dif_neg (mt hends.1 he), dif_neg he]
    have first := moves_statementFrom hm r' r hr
    dsimp only
    have hlt : (statementFrom r').next.remaining < r'.remaining ↔ (statementFrom r).next.remaining < r.remaining := by
      rw [first.2.remaining, hr.remaining]
    have both : ∀ {s' s : List Statement}, s' = move m s →
        (statementFrom r').value.toList ++ s' = move m ((statementFrom r).value.toList ++ s) := by
      rintro _ s rfl
      rw [first.1]
      cases (statementFrom r).value <;> simp
    by_cases hp : (statementFrom r).next.remaining < r.remaining
    · rw [if_pos (hlt.2 hp), if_pos hp]
      have rest := moves_statementsFrom hm _ _ first.2
      exact ⟨both rest.1, rest.2⟩
    · rw [if_neg (mt hlt.1 hp), if_neg hp]
      have forced := moves_skip (m := m) 1 _ _ first.2
      have h : ((skip 1).step (statementFrom r).next).next.remaining < r.remaining := by
        have := (statementFrom r).le
        have : r.remaining ≠ 0 := fun h => he (.inl h)
        simp only [step, skip, Reader.remaining, List.length_drop] at *
        omega
      have rest := moves_statementsFrom hm _ _ forced.2
      exact ⟨both rest.1, rest.2⟩
termination_by (r.remaining, 1)

end

/-- Statements up to a closing brace are read relocated. -/
theorem moves_statements (hm : m.Suits tokens) : Moves m tokens statements statements :=
  moves_statementsFrom hm

/-- The body of a method is read relocated. -/
theorem moves_body (hm : m.Suits tokens) : Moves m tokens body body := by
  refine moves_cursor fun start hs => (moves_accept _).bind fun b => ?_
  cases b
  · refine (moves_accept _).bind fun b => ?_
    cases b
    · exact (moves_reportHere _ _).bind fun _ => moves_pure rfl
    · have block : Moves m tokens (blockRest (move m start)) (blockRest start) :=
        (moves_statements hm).bind fun _ => (moves_expect _).bind fun _ => moves_cursor fun c hc => moves_pure (by
          rw [hs.spanTo hc hm]; rfl)
      exact block.bind fun _ => moves_pure rfl
  · refine (moves_exprAndEnd hm).bind fun o => ?_
    cases o <;> exact moves_pure rfl

/-! ## Members -/

/-- The span from a start to the reader is relocated with both. -/
theorem moves_spanFrom (hm : m.Suits tokens) {start : Cursor} (hs : start.Over tokens) :
    Moves m tokens (spanFrom (move m start)) (spanFrom start) :=
  moves_cursor fun _ hc => moves_pure (hs.spanTo hc hm)

/-- A parameter of a method is read relocated behind those in front of it. -/
theorem moves_param (hm : m.Suits tokens) (earlier : List Param) :
    Moves m tokens (param (move m earlier)) (param earlier) := by
  refine moves_cursor fun start hs => (moves_expectType hm _).bind fun o => ?_
  cases o with
  | none => exact moves_pure rfl
  | some type =>
    refine (moves_expectName _).bind fun o => ?_
    cases o with
    | none => exact moves_pure rfl
    | some name =>
      have finish : Moves m tokens
          (do
            let default ← default?
            return some ({ type := move m type, name := (move m name).lexeme, nameSpan := (move m name).span, default
                           span := ← spanFrom (move m start) } : Param))
          (do
            let default ← default?
            return some ({ type, name := name.lexeme, nameSpan := name.span, default
                           span := ← spanFrom start } : Param)) :=
        (moves_default? hm).bind fun _ => (moves_spanFrom hm hs).bind fun _ => moves_pure rfl
      have hl : (move m earlier).any (·.name == (move m name).lexeme) = earlier.any (·.name == name.lexeme) := by
        simp [List.any_map, Function.comp_def]
      dsimp only [Option.placed_move, Option.map_some]
      rw [hl]
      split
      · exact (moves_report _ _ _ _).bind fun _ => finish
      · exact finish

/-- Parameters with commas between them are read relocated. -/
theorem moves_paramList (hm : m.Suits tokens) : Moves m tokens paramList paramList := by
  refine (moves_iterate (fun s => ?_) (([] : List Param), true)).bind fun s => ?_
  · obtain ⟨list, complete⟩ := s
    refine (moves_param hm list).bind fun o => ?_
    cases o with
    | none => exact moves_pure rfl
    | some p => exact (moves_accept _).bind fun b => moves_pure (by simp)
  · obtain ⟨list, complete⟩ := s
    cases complete <;> exact moves_pure rfl

/-- Parameters and the mark that closes them are read relocated. -/
theorem moves_params (hm : m.Suits tokens) (close : Punct) : Moves m tokens (params close) (params close) := by
  refine (moves_accept _).bind fun b => ?_
  cases b
  · refine (moves_paramList hm).bind fun o => ?_
    cases o with
    | none => exact moves_pure rfl
    | some list =>
      refine (moves_expect _).bind fun b => ?_
      cases b <;> exact moves_pure rfl
  · exact moves_pure rfl

/-- The kind of an accessor is read the same. -/
theorem moves_accessorKind : Moves m tokens accessorKind accessorKind := by
  refine (moves_accept _).bind fun b => ?_
  cases b
  · refine (moves_accept _).bind fun b => ?_
    cases b
    · exact moves_missing rfl
    · exact moves_pure rfl
  · exact moves_pure rfl

/-- What is behind the kind of an accessor is read relocated. -/
theorem moves_accessorRest (hm : m.Suits tokens) {start : Cursor} (hs : start.Over tokens) (kind : AccessorKind) :
    Moves m tokens
      (do
        if ← accept (.punct .semicolon) then
          return some ({ kind, body := none, span := ← spanFrom (move m start) } : Accessor)
        let some body ← body | return none
        return some { kind, body := some body, span := ← spanFrom (move m start) })
      (do
        if ← accept (.punct .semicolon) then
          return some ({ kind, body := none, span := ← spanFrom start } : Accessor)
        let some body ← body | return none
        return some { kind, body := some body, span := ← spanFrom start }) := by
  refine (moves_accept _).bind fun b => ?_
  cases b
  · refine (moves_body hm).bind fun o => ?_
    cases o with
    | none => exact moves_pure rfl
    | some b => exact (moves_spanFrom hm hs).bind fun _ => moves_pure rfl
  · exact (moves_spanFrom hm hs).bind fun _ => moves_pure rfl

/-- An accessor is read relocated behind those in front of it. -/
theorem moves_accessor (hm : m.Suits tokens) (earlier : List Accessor) :
    Moves m tokens (accessor (move m earlier)) (accessor earlier) := by
  refine moves_cursor fun start hs => moves_accessorKind.bind fun o => ?_
  cases o with
  | none => exact moves_pure rfl
  | some kind =>
    have hl : (move m earlier).any (·.kind == kind) = earlier.any (·.kind == kind) := by
      simp [List.any_map, Function.comp_def]
    dsimp only [Option.placed_move, Option.map_some, AccessorKind.placed_move]
    rw [hl]
    split
    · exact (moves_spanFrom hm hs).bind fun _ => (moves_report _ _ _ _).bind fun _ => moves_accessorRest hm hs kind
    · exact moves_accessorRest hm hs kind

/-- The accessors of a property are read relocated. -/
theorem moves_accessors (hm : m.Suits tokens) : Moves m tokens accessors accessors := by
  refine (moves_expect _).bind fun b => ?_
  cases b
  · exact moves_pure rfl
  refine (moves_iterate (fun s => ?_) (([] : List Accessor), false)).bind fun s => ?_
  · obtain ⟨list, complete⟩ := s
    refine (moves_accept _).bind fun b => ?_
    cases b
    · refine (moves_accessor hm list).bind fun o => ?_
      cases o with
      | none => exact moves_pure rfl
      | some a => exact moves_pure (by simp)
    · exact moves_pure rfl
  · obtain ⟨list, complete⟩ := s
    cases complete <;> exact moves_pure rfl

variable {head : MemberHead}

/-- The rest of a field behind its name is read relocated. -/
theorem moves_fieldRest (hm : m.Suits tokens) (hs : head.start.Over tokens) (name : Token) :
    Moves m tokens (fieldRest (move m head) (move m name)) (fieldRest head name) := by
  have finish : ∀ init : Option Expr, Moves m tokens
      (do
        if !(← expect .semicolon) then return none
        return some ({ attributes := (move m head).attributes, modifiers := (move m head).modifiers
                       type := (move m head).type, name := (move m name).lexeme, nameSpan := (move m name).span
                       init := move m init, origin := .declared
                       span := ← spanFrom (move m head).start } : FieldDecl))
      (do
        if !(← expect .semicolon) then return none
        return some ({ attributes := head.attributes, modifiers := head.modifiers, type := head.type, name := name.lexeme,
                       nameSpan := name.span, init, origin := .declared, span := ← spanFrom head.start } : FieldDecl)) := by
    intro init
    refine (moves_expect _).bind fun b => ?_
    cases b
    · exact moves_pure rfl
    · exact (moves_spanFrom hm hs).bind fun _ => moves_pure rfl
  refine (moves_accept _).bind fun b => ?_
  cases b
  · exact finish none
  · refine (moves_expr hm).bind fun o => ?_
    cases o with
    | none => exact moves_pure rfl
    | some e => exact finish (some e)

/-- The initial value of a property is read relocated. -/
theorem moves_propertyInit (hm : m.Suits tokens) : Moves m tokens propertyInit propertyInit := by
  refine (moves_accept _).bind fun b => ?_
  cases b
  · exact moves_pure rfl
  · exact (moves_exprAndEnd hm).bind fun o => moves_pure (by cases o <;> rfl)

/-- The rest of a property behind its name is read relocated. -/
theorem moves_propertyRest (hm : m.Suits tokens) (hs : head.start.Over tokens) (name : Token) :
    Moves m tokens (propertyRest (move m head) (move m name)) (propertyRest head name) := by
  have finish : ∀ (body : PropertyBody) (init : Option Expr), Moves m tokens
      (do
        return some ({ attributes := (move m head).attributes, modifiers := (move m head).modifiers
                       type := (move m head).type, name := (move m name).lexeme, nameSpan := (move m name).span
                       body := move m body, init := move m init
                       span := ← spanFrom (move m head).start } : PropertyDecl))
      (do
        return some ({ attributes := head.attributes, modifiers := head.modifiers, type := head.type, name := name.lexeme,
                       nameSpan := name.span, body, init, span := ← spanFrom head.start } : PropertyDecl)) :=
    fun body init => (moves_spanFrom hm hs).bind fun _ => moves_pure rfl
  refine (moves_accept _).bind fun b => ?_
  cases b
  · refine (moves_accessors hm).bind fun o => ?_
    cases o with
    | none => exact moves_pure rfl
    | some list =>
      refine (moves_propertyInit hm).bind fun o => ?_
      cases o with
      | none => exact moves_pure rfl
      | some init => exact finish (.accessors list) init
  · refine (moves_exprAndEnd hm).bind fun o => ?_
    cases o with
    | none => exact moves_pure rfl
    | some e => exact finish (.expr e) none

/-- The rest of a method behind its name is read relocated. -/
theorem moves_methodRest (hm : m.Suits tokens) (hs : head.start.Over tokens) (name : Token) :
    Moves m tokens (methodRest (move m head) (move m name)) (methodRest head name) := by
  refine (moves_params hm _).bind fun o => ?_
  cases o with
  | none => exact moves_pure rfl
  | some params =>
    refine (moves_body hm).bind fun o => ?_
    cases o with
    | none => exact moves_pure rfl
    | some b => exact (moves_spanFrom hm hs).bind fun _ => moves_pure rfl

/-- What is behind the name of a member tells in both texts which kind of member it is. -/
theorem moves_namedRest (hm : m.Suits tokens) (hs : head.start.Over tokens) (name : Token) :
    Moves m tokens (namedRest (move m head) (move m name)) (namedRest head name) := by
  refine (moves_accept _).bind fun b => ?_
  cases b
  · refine (moves_sees _).bind fun arrow => (moves_sees _).bind fun brace => ?_
    dsimp only [Bool.placed_move]
    split
    · exact (moves_propertyRest hm hs name).bind fun o => moves_pure (by cases o <;> rfl)
    · exact (moves_fieldRest hm hs name).bind fun o => moves_pure (by cases o <;> rfl)
  · exact (moves_methodRest hm hs name).bind fun o => moves_pure (by cases o <;> rfl)

/-- A member that cannot be read is dropped in both texts. -/
theorem moves_dropMember {α : Type} [Placed α] : Moves m tokens (dropMember : Reading (Option α)) dropMember :=
  (moves_skipBy (Recovery.member_move m 0)).bind fun _ => moves_pure rfl

/-- The rest of an indexer is read relocated. -/
theorem moves_indexerRest (hm : m.Suits tokens) (hs : head.start.Over tokens) :
    Moves m tokens (indexerRest (move m head)) (indexerRest head) := by
  have finish : ∀ (params : List Param) (body : PropertyBody), Moves m tokens
      (do
        return some ({ attributes := (move m head).attributes, modifiers := (move m head).modifiers
                       type := (move m head).type, params := move m params, body := move m body
                       span := ← spanFrom (move m head).start } : IndexerDecl))
      (do
        return some ({ attributes := head.attributes, modifiers := head.modifiers, type := head.type, params, body,
                       span := ← spanFrom head.start } : IndexerDecl)) :=
    fun params body => (moves_spanFrom hm hs).bind fun _ => moves_pure rfl
  refine (moves_expect _).bind fun b => ?_
  cases b
  · exact moves_dropMember
  refine (moves_params hm _).bind fun o => ?_
  cases o with
  | none => exact moves_dropMember
  | some params =>
    have hn : (move m params).isEmpty = params.isEmpty := by simp
    dsimp only [Option.placed_move, Option.map_some]
    rw [hn]
    split
    case' isTrue => refine moves_cursor fun _ _ => (moves_report _ _ _ _).bind fun _ => ?_
    -- behind the report of a missing parameter the indexer goes on like any other
    all_goals
      refine (moves_accept _).bind fun b => ?_
      cases b
      · refine (moves_accessors hm).bind fun o => ?_
        cases o with
        | none => exact moves_dropMember
        | some list => exact finish params (.accessors list)
      · refine (moves_expr hm).bind fun o => (moves_expect _).bind fun b => ?_
        cases b
        · exact moves_dropMember
        · cases o with
          | none => exact moves_pure rfl
          | some e => exact finish params (.expr e)

/-- A member is read relocated, or dropped in both texts. -/
theorem moves_member (hm : m.Suits tokens) : Moves m tokens member member := by
  refine moves_cursor fun start hs => moves_attributes.bind fun attributes => moves_modifiers.bind fun modifiers =>
    (moves_expectType hm _).bind fun o => ?_
  cases o with
  | none => exact moves_dropMember
  | some type =>
    let head : MemberHead := ⟨start, attributes, modifiers, type⟩
    have hs : head.start.Over tokens := hs
    refine (moves_accept _).bind fun b => ?_
    cases b
    · refine (moves_expectName _).bind fun o => ?_
      cases o with
      | none => exact moves_dropMember
      | some name =>
        refine (moves_namedRest hm hs name).bind fun o => ?_
        cases o with
        | none => exact moves_dropMember
        | some read => exact moves_pure rfl
    · exact (moves_indexerRest hm hs).bind fun o => moves_pure (by cases o <;> rfl)

/-- A type that cannot be read is dropped in both texts. -/
theorem moves_dropType {α : Type} [Placed α] {v' v : α} (hv : v' = move m v) :
    Moves m tokens (dropType v') (dropType v) :=
  (moves_skipBy (Recovery.type_move m)).bind fun _ => moves_pure hv

/-- The members of a type are read relocated. -/
theorem moves_members (hm : m.Suits tokens) : Moves m tokens members members := by
  refine (moves_expect _).bind fun b => ?_
  cases b
  · exact moves_dropType rfl
  · exact (moves_many (fun _ => rfl) (moves_member hm)).bind fun _ => (moves_expect _).bind fun _ => moves_pure rfl

/-- The kind of a type is read the same. -/
theorem moves_typeKind : Moves m tokens typeKind typeKind := by
  refine (moves_accept _).bind fun b => ?_
  cases b
  · refine (moves_accept _).bind fun b => ?_
    cases b
    · exact moves_missing rfl
    · exact moves_pure rfl
  · exact moves_pure rfl

/-- A type declaration is read relocated. -/
theorem moves_typeDecl (hm : m.Suits tokens) : Moves m tokens typeDecl typeDecl := by
  refine moves_cursor fun start hs => moves_modifiers.bind fun modifiers => moves_typeKind.bind fun o => ?_
  cases o with
  | none => exact moves_dropType rfl
  | some kind =>
    refine (moves_expectName _).bind fun o => ?_
    cases o with
    | none => exact moves_dropType rfl
    | some name =>
      exact moves_generics.bind fun generics => (moves_primary? hm).bind fun primary => (moves_base? hm).bind fun base =>
        (moves_whereClauses hm generics).bind fun generics => (moves_members hm).bind fun members =>
        (moves_spanFrom hm hs).bind fun _ => moves_pure rfl

/-- All declarations are read from relocated tokens as from the tokens. -/
theorem moves_unit (hm : m.Suits tokens) : Moves m tokens unit unit :=
  (moves_many (fun _ => rfl) (moves_typeDecl hm)).bind fun _ => moves_pure rfl

end Reading

end NavCheck
