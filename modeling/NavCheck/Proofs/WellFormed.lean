import NavCheck.Decl.Parser

/-!
# Well-formed declarations

Reading goes on behind every fault, so what is read at a fault may be odd: a local without a type, two parameters of one name.
But a text with a fault gives no unit. What the parser looks after holds of all units that it gives: `Reading.GivesIf` says
that an action gives values with a property unless an error is found, and every action that notes a fault is shown to.
-/

namespace NavCheck

/-! ## Forms of declarations -/

mutual

/-- Every local in a statement has a written type or an initializer. -/
def Statement.WellFormed : Statement → Prop
  | .block list _ => statementsWellFormed list
  | .give _ _ | .expr _ => True
  | .branch _ thenBranch elseBranch _ =>
    thenBranch.WellFormed ∧
      match elseBranch with
      | some s => s.WellFormed
      | none => True
  | .local type _ _ init _ => type.isSome ∨ init.isSome

/-- Every local in statements has a written type or an initializer. -/
def statementsWellFormed : List Statement → Prop
  | [] => True
  | s :: rest => s.WellFormed ∧ statementsWellFormed rest

end

/-- Every local in a body has a written type or an initializer. -/
def Body.WellFormed : Body → Prop
  | .expr _ => True
  | .block b => statementsWellFormed b.statements

/-- There is at most one accessor of a kind. -/
def PropertyBody.WellFormed : PropertyBody → Prop
  | .expr _ => True
  | .accessors list => (list.map (·.kind)).Nodup ∧ ∀ a ∈ list, ∀ b ∈ a.body, b.WellFormed

/-- No two parameters have the same name. -/
def DistinctParams (params : List Param) : Prop :=
  (params.map (·.name)).Nodup

/-- The bodies of a member are well formed, its parameters have different names, and an indexer has a parameter. -/
def Member.WellFormed : Member → Prop
  | .field _ => True
  | .property p => p.body.WellFormed
  | .method d => DistinctParams d.params ∧ d.body.WellFormed
  | .indexer i => i.params ≠ [] ∧ DistinctParams i.params ∧ i.body.WellFormed

/-- The form of a declaration that is written out: generic parameters and parameters have different names, no field keeps a
parameter yet, and the members are well formed. -/
structure TypeDecl.WellFormed (d : TypeDecl) : Prop where
  generics : (d.generics.map (·.name)).Nodup
  params : (d.params.map (·.name)).Nodup
  captured : ∀ m ∈ d.members, m.capturedField? = none
  members : ∀ m ∈ d.members, m.WellFormed

/-- A well-formed `if` has well-formed branches. -/
theorem Statement.wellFormed_branch {condition : Expr} {thenBranch : Statement} {elseBranch : Option Statement} {span : Span} :
    (Statement.branch condition thenBranch elseBranch span).WellFormed ↔
      thenBranch.WellFormed ∧ ∀ s ∈ elseBranch, s.WellFormed := by
  cases elseBranch <;> simp [Statement.WellFormed]

/-- Statements in a row are well formed part by part. -/
theorem statementsWellFormed_append (a b : List Statement) :
    statementsWellFormed (a ++ b) ↔ statementsWellFormed a ∧ statementsWellFormed b := by
  induction a with
  | nil => simp [statementsWellFormed]
  | cons s a ih => simp [statementsWellFormed, ih, and_assoc]

/-- A name that does not occur yet keeps names different. -/
theorem nodup_map_append {α β : Type} [BEq β] [LawfulBEq β] {f : α → β} {l : List α} (h : (l.map f).Nodup) {a : α}
    (ha : ¬ (l.any (f · == f a)) = true) : ((l ++ [a]).map f).Nodup := by
  rw [List.map_append, List.map_singleton, List.nodup_append]
  refine ⟨h, by simp, fun x hx y hy => ?_⟩
  rintro rfl
  obtain ⟨b, hb, rfl⟩ := List.mem_map.1 hx
  exact ha (List.any_eq_true.2 ⟨b, hb, beq_iff_eq.2 (List.mem_singleton.1 hy)⟩)

/-! ## Actions -/

/-- No error is found so far. -/
def Reader.Clean (r : Reader) : Prop :=
  hasErrors r.sink.found = false

namespace Reading

variable {α β : Type} {c e : Prop} {a : Reading α} {p q : α → Prop} {k : α → Reading β} {s : β → Prop}

/-- If no error is found behind an action, none was found before it, and in the case of `c` its outcome has a property. -/
def GivesIf (c : Prop) (a : Reading α) (p : α → Prop) : Prop :=
  ∀ r, (a.run r).2.Clean → r.Clean ∧ (c → p (a.run r).1)

/-- The outcome of an action has a property unless an error is found. -/
abbrev Gives (a : Reading α) (p : α → Prop) : Prop :=
  GivesIf True a p

/-- No action takes an error back. -/
abbrev Keeps (a : Reading α) : Prop :=
  a.Gives fun _ => True

/-- An action that reads nothing gives what it is told to give. -/
theorem givesIf_pure {v : α} (h : c → p v) : GivesIf c (pure v) p :=
  fun _ hr => ⟨hr, h⟩

/-- What an action gives in one case it gives in any narrower one. -/
theorem GivesIf.mono (h : GivesIf c a p) (hc : e → c) : GivesIf e a p :=
  fun r hr => ⟨(h r hr).1, fun he => (h r hr).2 (hc he)⟩

/-- An action and what goes on with its outcome. -/
theorem GivesIf.bind (h : GivesIf c a p) (hk : ∀ v, GivesIf (c ∧ p v) (k v) s) : GivesIf c (a >>= k) s := by
  intro r hr
  obtain ⟨hm, hs⟩ := hk (a.run r).1 (a.run r).2 hr
  obtain ⟨hb, hp⟩ := h r hm
  exact ⟨hb, fun hc => hs ⟨hc, hp hc⟩⟩

/-- An action behind another that gives nothing special. -/
theorem Keeps.then (h : a.Keeps) (hk : ∀ v, GivesIf c (k v) s) : GivesIf c (a >>= k) s :=
  (h.mono fun _ => trivial).bind fun v => (hk v).mono And.left

/-- An action that gives anything at all without an error keeps readers free of errors. -/
theorem GivesIf.keeps (h : GivesIf c a p) : a.Keeps :=
  fun r hr => ⟨(h r hr).1, fun _ => trivial⟩

/-- An action that finds nothing. -/
theorem keeps_of_sink (h : ∀ r, (a.run r).2.sink = r.sink) : a.Keeps := by
  intro r hr
  unfold Reader.Clean at hr
  rw [h] at hr
  exact ⟨hr, fun _ => trivial⟩

/-- Behind a report there is an error. -/
theorem not_clean_pushError (r : Reader) (message : String) (span : Option Span) :
    ¬ Reader.Clean { r with sink := r.sink.pushError message span } := by
  intro h
  have he : (Sink.withCode r.sink.hash r.sink.area (Diagnostic.error message span)).isError = true := rfl
  simp [Reader.Clean, hasErrors, Sink.pushError, Sink.push, he] at h

/-! ## The basic actions -/

/-- An action that reads nothing takes no error back. -/
theorem keeps_pure (v : α) : Keeps (pure v : Reading α) :=
  givesIf_pure fun _ => trivial

/-- A look at the cursor takes no error back. -/
theorem keeps_cursor : Keeps cursor :=
  keeps_of_sink fun _ => rfl

/-- Behind a report nothing has to hold: there is an error. -/
theorem gives_report (fault : DeclFault) (span : Option Span) : (report fault span).Gives fun _ => False :=
  fun r hr => absurd hr (not_clean_pushError r fault.message span)

/-- Behind a report nothing has to be given any more. -/
theorem givesIf_report (fault : DeclFault) (span : Option Span) {k : Unit → Reading α} (h : GivesIf e (k ()) p) :
    GivesIf c (report fault span >>= k) q :=
  ((gives_report fault span).mono fun _ => trivial).bind fun _ r hr => ⟨(h r hr).1, fun hf => hf.2.elim⟩

/-- A report at the next token takes no error back. -/
theorem keeps_reportHere (fault : DeclFault) : Keeps (reportHere fault) :=
  keeps_cursor.then fun _ => (gives_report _ _).keeps

/-- A look at what was found takes no error back. -/
theorem keeps_found? : Keeps found? :=
  keeps_cursor.then fun _ => keeps_pure _

/-- A test of the next token takes no error back. -/
theorem keeps_sees (kind : TokenKind) : Keeps (sees kind) :=
  keeps_cursor.then fun _ => keeps_pure _

/-- A function of cursors takes no error back. -/
theorem keeps_pass {read : (c : Cursor) → Option (Parsed α c)} : Keeps (pass read) := by
  refine keeps_of_sink fun r => ?_
  unfold pass
  simp only [ofStep]
  cases read r.cursor <;> rfl

/-- An acceptance takes no error back. -/
theorem keeps_accept (kind : TokenKind) : Keeps (accept kind) :=
  keeps_pass.then fun _ => keeps_pure _

/-- Expecting a mark takes no error back. -/
theorem keeps_expect (mark : Punct) : Keeps (expect mark) := by
  refine (keeps_accept _).then fun b => ?_
  cases b
  · exact keeps_found?.then fun _ => (keeps_reportHere _).then fun _ => keeps_pure _
  · exact keeps_pure _

/-- Expecting a name takes no error back. -/
theorem keeps_expectName (what : DeclName) : Keeps (expectName what) := by
  refine keeps_pass.then fun o => ?_
  cases o
  · exact keeps_found?.then fun _ => (keeps_reportHere _).then fun _ => keeps_pure _
  · exact keeps_pure _

/-- Expecting a type takes no error back. -/
theorem keeps_expectType (place : TypePlace) : Keeps (expectType place) := by
  refine keeps_pass.then fun o => ?_
  cases o
  · exact keeps_found?.then fun _ => (keeps_reportHere _).then fun _ => keeps_pure _
  · exact keeps_pure _

/-- Skipping takes no error back. -/
theorem keeps_skip (count : Nat) : Keeps (skip count) :=
  keeps_of_sink fun _ => rfl

/-- Recovery takes no error back. -/
theorem keeps_skipBy (rule : List Token → Nat) : Keeps (skipBy rule) :=
  keeps_cursor.then fun _ => keeps_skip _

/-- What every round of a loop preserves holds of what the loop gives. -/
theorem givesIf_iterate {σ : Type} {round : σ → Reading (σ × Bool)} (inv : σ → Prop)
    (h : ∀ s, GivesIf (inv s) (round s) fun v => inv v.1) (s : σ) : GivesIf (inv s) (iterate round s) inv := by
  intro r
  show (iterateFrom round s r).next.Clean → r.Clean ∧ (inv s → inv (iterateFrom round s r).value)
  fun_induction iterateFrom round s r with
  | case1 s r first hc rest ih =>
    intro hr
    obtain ⟨hm, hs⟩ := ih hr
    obtain ⟨hb, hf⟩ := h s r hm
    exact ⟨hb, fun hi => hs (hf hi)⟩
  | case2 s r first hc => exact h s r

/-- A loop gives what each of its rounds keeps. -/
theorem gives_iterate {σ : Type} {round : σ → Reading (σ × Bool)} (inv : σ → Prop) {s : σ}
    (h : ∀ s, GivesIf (inv s) (round s) fun v => inv v.1) (hs : inv s) : (iterate round s).Gives inv :=
  (givesIf_iterate inv h s).mono fun _ => hs

/-- A loop keeps readers free of errors if each round does. -/
theorem keeps_iterate {σ : Type} {round : σ → Reading (σ × Bool)} (h : ∀ s, Keeps (round s)) (s : σ) :
    Keeps (iterate round s) :=
  gives_iterate (fun _ => True) h trivial

/-- A row of items with a property. -/
theorem gives_many {ends : Token → Bool} {item : Reading (Option α)} (h : item.Gives fun o => ∀ a ∈ o, p a) :
    (many ends item).Gives fun list => ∀ a ∈ list, p a := by
  refine gives_iterate (fun list => ∀ a ∈ list, p a) (fun items => keeps_cursor.then fun before => ?_) (List.forall_mem_nil _)
  split
  · exact givesIf_pure id
  · split
    · exact givesIf_pure id
    · refine (h.mono fun _ => trivial).bind fun read => keeps_cursor.then fun now => ?_
      have hp : (∀ a ∈ items, p a) ∧ (∀ a ∈ read, p a) → ∀ a ∈ items ++ read.toList, p a := fun h =>
        List.forall_mem_append.2 ⟨h.1, fun a ha => h.2 a (Option.mem_toList.1 ha)⟩
      split
      · exact (keeps_skip 1).then fun _ => givesIf_pure hp
      · exact givesIf_pure hp

/-- An expression takes no error back. -/
theorem keeps_expr : Keeps expr := by
  have he : Keeps expr? := by
    refine keeps_of_sink fun r => ?_
    unfold expr?
    simp only [ofStep]
    cases Expr.readAssign 0 r.cursor <;> rfl
  refine he.then fun o => ?_
  cases o with
  | ok e => exact keeps_pure _
  | error e => exact (gives_report _ _).keeps.then fun _ => (keeps_skipBy _).then fun _ => keeps_pure _


/-! ## Headers -/

/-- Modifiers take no error back. -/
theorem keeps_modifiers : Keeps modifiers := by
  have one : Keeps modifier? := by
    refine keeps_cursor.then fun c => ?_
    cases modifierAhead c.ahead
    · exact keeps_pure _
    · exact keeps_pass.then fun _ => keeps_pure _
  refine keeps_iterate (fun list => one.then fun o => ?_) []
  cases o <;> exact keeps_pure _

/-- The names in attribute brackets take no error back. -/
theorem keeps_attributeNames (target : Option String) : Keeps (attributeNames target) := by
  refine keeps_iterate (fun list => (keeps_expectName _).then fun o => ?_) []
  cases o
  · exact keeps_pure _
  · exact (keeps_accept _).then fun _ => keeps_pure _

/-- One pair of attribute brackets takes no error back. -/
theorem keeps_attributeList : Keeps attributeList := by
  have target : Keeps attributeTarget? := by
    refine keeps_cursor.then fun c => ?_
    split
    · exact (keeps_accept _).then fun _ => (keeps_accept _).then fun _ => keeps_pure _
    · exact keeps_pure _
  refine target.then fun target => (keeps_attributeNames target).then fun names => (keeps_expect _).then fun b => ?_
  cases b
  · exact (keeps_skipBy _).then fun _ => (keeps_accept _).then fun _ => keeps_pure _
  · exact keeps_pure _

/-- Attributes take no error back. -/
theorem keeps_attributes : Keeps attributes := by
  refine keeps_iterate (fun list => (keeps_accept _).then fun b => ?_) []
  cases b
  · exact keeps_pure _
  · exact keeps_attributeList.then fun _ => keeps_pure _

/-- Generic parameters with one name are reported. -/
theorem gives_generics : generics.Gives fun list => (list.map (·.name)).Nodup := by
  refine (keeps_accept _).then fun b => ?_
  cases b
  · exact givesIf_pure fun _ => List.nodup_nil
  refine GivesIf.bind (gives_iterate (fun list : List GenericParam => (list.map (·.name)).Nodup) (fun list => ?_)
    List.nodup_nil) fun list => (keeps_accept _).then fun b => ?_
  · refine (keeps_expectName _).then fun o => ?_
    cases o with
    | none => exact givesIf_pure id
    | some name =>
      dsimp only
      split
      · exact givesIf_report _ _ ((keeps_accept _).then fun _ => keeps_pure _)
      · exact (keeps_accept _).then fun _ => givesIf_pure fun h => nodup_map_append h ‹_›
  · cases b
    · exact (keeps_reportHere _).then fun _ => givesIf_pure And.right
    · exact givesIf_pure And.right

/-- A default value takes no error back. -/
theorem keeps_default? : Keeps default? := by
  refine (keeps_accept _).then fun b => ?_
  cases b
  · exact keeps_pure _
  · exact keeps_expr

/-- A parameter of a primary constructor takes no error back. -/
theorem keeps_primaryParam : Keeps primaryParam := by
  refine keeps_cursor.then fun start => keeps_attributes.then fun attributes => keeps_modifiers.then fun modifiers =>
    (keeps_expectType _).then fun o => ?_
  cases o with
  | none => exact keeps_pure _
  | some type =>
    refine (keeps_expectName _).then fun o => ?_
    cases o with
    | none => exact keeps_pure _
    | some name => exact keeps_default?.then fun _ => keeps_cursor.then fun _ => keeps_pure _

/-- Parameters with one name are reported. -/
theorem gives_primary? : primary?.Gives fun o => ((o.getD []).map (·.name)).Nodup := by
  refine (keeps_accept _).then fun b => ?_
  cases b
  · exact givesIf_pure fun _ => List.nodup_nil
  refine (keeps_accept _).then fun b => ?_
  cases b
  · refine GivesIf.bind (gives_iterate (fun list : List PrimaryParam => (list.map (·.name)).Nodup) (fun list => ?_)
      List.nodup_nil) fun list => (keeps_expect _).then fun _ => givesIf_pure And.right
    have finish : ∀ (c : Prop) (list : List PrimaryParam), (c → (list.map (·.name)).Nodup) → GivesIf c
        (do return (list, ← accept (.punct .comma))) fun v => (v.1.map (·.name)).Nodup := fun c list hn =>
      (keeps_accept _).then fun _ => givesIf_pure hn
    refine keeps_primaryParam.then fun o => ?_
    cases o with
    | none => exact (keeps_skipBy _).then fun _ => finish _ list id
    | some param =>
      dsimp only
      split
      · exact givesIf_report _ _ (finish False _ False.elim)
      · exact finish _ _ fun h => nodup_map_append h ‹_›
  · exact givesIf_pure fun _ => List.nodup_nil

/-- The arguments of a base take no error back. -/
theorem keeps_arguments : Keeps arguments := by
  refine (keeps_accept _).then fun b => ?_
  cases b
  · exact (keeps_iterate (fun list => keeps_expr.then fun _ => (keeps_accept _).then fun _ => keeps_pure _) _).then
      fun _ => (keeps_expect _).then fun _ => keeps_pure _
  · exact keeps_pure _

/-- A base takes no error back. -/
theorem keeps_base? : Keeps base? := by
  have spec : Keeps baseSpec := by
    refine keeps_cursor.then fun start => (keeps_expectType _).then fun o => ?_
    cases o with
    | none => exact keeps_pure _
    | some type =>
      have finish : ∀ args : Option (List Expr), Keeps (do
          return some ({ type, args, span := start.spanTo (← cursor) } : BaseSpec)) := fun args =>
        keeps_cursor.then fun _ => keeps_pure _
      have args : Keeps (some <$> arguments) := keeps_arguments.then fun _ => keeps_pure _
      refine (keeps_accept _).then fun b => ?_
      cases b
      · exact finish none
      · exact args.then finish
  refine (keeps_accept _).then fun b => ?_
  cases b
  · exact keeps_pure _
  · exact spec

/-- A constraint takes no error back. -/
theorem keeps_constraint : Keeps constraint := by
  refine (keeps_accept _).then fun b => ?_
  cases b
  · refine (keeps_accept _).then fun b => ?_
    cases b
    · exact (keeps_expectType _).then fun _ => keeps_pure _
    · exact keeps_pure _
  · exact keeps_pure _

/-- A constraint leaves the names as they are. -/
theorem names_constrain (name : String) (constraint : Option GenericConstraint) (list : List GenericParam) :
    (constrain name constraint list).map (·.name) = list.map (·.name) := by
  induction list with
  | nil => rfl
  | cons p ps ih =>
    rw [constrain]
    split
    · rfl
    · rw [List.map_cons, List.map_cons, ih]

/-- A `where` clause keeps the names of the generic parameters different. -/
theorem givesIf_whereClause (list : List GenericParam) :
    GivesIf (list.map (·.name)).Nodup (whereClause list) fun list => (list.map (·.name)).Nodup := by
  refine (keeps_expectName _).then fun o => ?_
  cases o with
  | none => exact givesIf_pure id
  | some name =>
    refine (keeps_expect _).then fun b => ?_
    cases b
    · exact givesIf_pure id
    · refine keeps_constraint.then fun constraint => ?_
      split
      · split
        · exact givesIf_report _ _ (keeps_pure _)
        · refine givesIf_pure fun h => ?_
          rwa [names_constrain]
      · exact givesIf_report _ _ (keeps_pure _)

/-- All `where` clauses keep the names of the generic parameters different. -/
theorem givesIf_whereClauses (list : List GenericParam) :
    GivesIf (list.map (·.name)).Nodup (whereClauses list) fun list => (list.map (·.name)).Nodup := by
  refine givesIf_iterate (fun list => (list.map (·.name)).Nodup) (fun list => (keeps_accept _).then fun b => ?_) list
  cases b
  · exact givesIf_pure id
  · exact (givesIf_whereClause list).bind fun _ => givesIf_pure And.right

/-! ## Statements -/

/-- The end of a statement takes no error back. -/
theorem keeps_endStatement : Keeps endStatement := by
  refine (keeps_expect _).then fun b => ?_
  cases b
  · exact keeps_skipBy _
  · exact keeps_pure _

/-- A value that is given has a property. -/
abbrev GivesSome (a : Reading (Option α)) (p : α → Prop) : Prop :=
  a.Gives fun o => ∀ v ∈ o, p v

/-- Where nothing is given nothing has to hold. -/
theorem givesIf_none : GivesIf c (pure none : Reading (Option α)) fun o => ∀ v ∈ o, p v :=
  givesIf_pure fun _ _ h => nomatch h

/-- What is given alone has the property if it has it in the case at hand. -/
theorem givesIf_some {v : α} (h : c → p v) : GivesIf c (pure (some v) : Reading (Option α)) fun o => ∀ v ∈ o, p v :=
  givesIf_pure fun hc _ hv => Option.mem_some.1 hv ▸ h hc

/-- An expression and the end of its statement take no error back. -/
theorem keeps_exprAndEnd : Keeps exprAndEnd := by
  refine keeps_expr.then fun o => ?_
  cases o with
  | none => exact keeps_pure _
  | some e =>
    refine (keeps_expect _).then fun b => ?_
    cases b <;> exact keeps_pure _

/-- A `return` is well formed. -/
theorem gives_returnRest (start : Cursor) : GivesSome (returnRest start) Statement.WellFormed := by
  have finish : ∀ value : Option Expr, GivesSome (do
      endStatement
      return some (.give value (start.spanTo (← cursor)))) Statement.WellFormed := fun value =>
    keeps_endStatement.then fun _ => keeps_cursor.then fun _ => givesIf_some fun _ => by trivial
  refine (keeps_sees _).then fun b => ?_
  cases b
  · refine keeps_expr.then fun o => ?_
    cases o with
    | none => exact givesIf_none
    | some e => exact finish (some e)
  · exact finish none

/-- A local without a type and an initializer is reported. -/
theorem gives_localRest (start : Cursor) (type : Option TypeExpr) :
    GivesSome (localRest start type) Statement.WellFormed := by
  refine (keeps_expectName _).then fun o => ?_
  cases o with
  | none => exact (keeps_skipBy _).then fun _ => givesIf_none
  | some name =>
    have finish : ∀ init : Option Expr, GivesSome (do
        if type.isNone && init.isNone then report (.untypedLocal name.lexeme) (some name.span)
        endStatement
        return some (.local type name.lexeme name.span init (start.spanTo (← cursor)))) Statement.WellFormed := by
      intro init
      have rest : GivesIf (type.isSome ∨ init.isSome) (do
          endStatement
          return some (.local type name.lexeme name.span init (start.spanTo (← cursor)))) fun o =>
            ∀ s ∈ o, Statement.WellFormed s :=
        keeps_endStatement.then fun _ => keeps_cursor.then fun _ => givesIf_some id
      split
      · exact givesIf_report _ _ rest
      · refine rest.mono fun _ => ?_
        cases type <;> cases init <;> simp_all
    refine (keeps_accept _).then fun b => ?_
    cases b
    · exact finish none
    · refine keeps_expr.then fun o => ?_
      cases o with
      | none => exact givesIf_none
      | some e => exact finish (some e)

/-- The condition of an `if` takes no error back. -/
theorem keeps_condition : Keeps condition := by
  refine (keeps_expect _).then fun b => ?_
  cases b
  · exact (keeps_skipBy _).then fun _ => keeps_pure _
  · refine keeps_expr.then fun o => ?_
    cases o with
    | none => exact keeps_pure _
    | some e =>
      refine (keeps_expect _).then fun b => ?_
      cases b
      · exact (keeps_skipBy _).then fun _ => keeps_pure _
      · exact keeps_pure _

/-- A statement without statements inside it is well formed. -/
theorem gives_simpleStatement : GivesSome simpleStatement Statement.WellFormed := by
  refine keeps_cursor.then fun start => (keeps_accept _).then fun b => ?_
  cases b
  · refine (keeps_accept _).then fun b => ?_
    cases b
    · show GivesIf True (if localAhead start.ahead = true then _ else _) _
      split
      · refine (keeps_expectType _).then fun o => ?_
        cases o with
        | none => exact givesIf_none
        | some type => exact gives_localRest _ _
      · refine keeps_expr.then fun o => ?_
        cases o with
        | none => exact givesIf_none
        | some e => exact keeps_endStatement.then fun _ => givesIf_some fun _ => by trivial
    · exact gives_localRest _ _
  · exact gives_returnRest _

mutual

/-- Without an error a statement is well formed. The recursion is that of the reader. -/
theorem gives_statementFrom (r : Reader) :
    (statementFrom r).next.Clean → r.Clean ∧ ∀ s ∈ (statementFrom r).value, s.WellFormed := by
  rw [statementFrom]
  cases hb : r.cursor.accept? (.punct .openBrace) with
  | some brace =>
    have := brace.shorter
    intro hr
    obtain ⟨hm, -⟩ := keeps_expect .closeBrace (statementsFrom { r with cursor := brace.next }).next hr
    obtain ⟨hc, hs⟩ := gives_statementsFrom { r with cursor := brace.next } hm
    exact ⟨hc, fun s h => Option.mem_some.1 h ▸ hs⟩
  | none =>
    dsimp only
    cases hw : r.cursor.accept? (.keyword .ifKw) with
    | none => exact fun hr => ⟨(gives_simpleStatement r hr).1, (gives_simpleStatement r hr).2 trivial⟩
    | some word =>
      have h₁ : Reader.remaining { r with cursor := word.next } < r.remaining := word.shorter
      have h₂ := Nat.lt_of_le_of_lt (condition.step { r with cursor := word.next }).le h₁
      have head : (condition.step { r with cursor := word.next }).next.Clean → r.Clean := fun hr =>
        (keeps_condition { r with cursor := word.next } hr).1
      dsimp only
      split
      · exact fun hr => ⟨head hr, fun _ h => nomatch h⟩
      · rename_i test ht
        have first := gives_statementFrom (condition.step { r with cursor := word.next }).next
        have h₃ := Nat.lt_of_le_of_lt (statementFrom (condition.step { r with cursor := word.next }).next).le h₂
        split
        · exact fun hr => ⟨head (first hr).1, fun _ h => nomatch h⟩
        · rename_i thenBranch hf
          rw [hf] at first
          have h₄ := Nat.lt_of_le_of_lt ((accept (.keyword .elseKw)).step
            (statementFrom (condition.step { r with cursor := word.next }).next).next).le h₃
          have before : ((accept (.keyword .elseKw)).step
              (statementFrom (condition.step { r with cursor := word.next }).next).next).next.Clean →
                r.Clean ∧ thenBranch.WellFormed := by
            intro hr
            obtain ⟨hc, ht⟩ := first (keeps_accept _ _ hr).1
            exact ⟨head hc, ht thenBranch rfl⟩
          split
          · intro hr
            obtain ⟨hc, he⟩ := gives_statementFrom ((accept (.keyword .elseKw)).step
              (statementFrom (condition.step { r with cursor := word.next }).next).next).next hr
            refine ⟨(before hc).1, fun s h => ?_⟩
            obtain ⟨elseBranch, hb, rfl⟩ := Option.map_eq_some_iff.1 h
            exact ⟨(before hc).2, he elseBranch hb⟩
          · exact fun hr => ⟨(before hr).1, fun s h => Option.mem_some.1 h ▸ ⟨(before hr).2, trivial⟩⟩
termination_by (r.remaining, 0)

/-- Without an error the statements of a block are well formed. -/
theorem gives_statementsFrom (r : Reader) :
    (statementsFrom r).next.Clean → r.Clean ∧ statementsWellFormed (statementsFrom r).value := by
  have both : ∀ {o : Option Statement} {list : List Statement}, (∀ s ∈ o, s.WellFormed) → statementsWellFormed list →
      statementsWellFormed (o.toList ++ list) := by
    intro o list ho hl
    refine (statementsWellFormed_append _ _).2 ⟨?_, hl⟩
    cases o with
    | none => trivial
    | some s => exact ⟨ho s rfl, trivial⟩
  rw [statementsFrom]
  split
  · exact fun hr => ⟨hr, trivial⟩
  · have first := gives_statementFrom r
    dsimp only
    split
    · intro hr
      obtain ⟨hm, hs⟩ := gives_statementsFrom (statementFrom r).next hr
      exact ⟨(first hm).1, both (first hm).2 hs⟩
    · rename_i hne hns
      have h : ((skip 1).step (statementFrom r).next).next.remaining < r.remaining := by
        have := (statementFrom r).le
        have : r.remaining ≠ 0 := fun h => hne (.inl h)
        simp only [step, skip, Reader.remaining, List.length_drop] at *
        omega
      intro hr
      obtain ⟨hm, hs⟩ := gives_statementsFrom ((skip 1).step (statementFrom r).next).next hr
      exact ⟨(first hm).1, both (first hm).2 hs⟩
termination_by (r.remaining, 1)

end

/-- Without an error a body is well formed. -/
theorem gives_body : GivesSome body Body.WellFormed := by
  refine keeps_cursor.then fun start => (keeps_accept _).then fun b => ?_
  cases b
  · refine (keeps_accept _).then fun b => ?_
    cases b
    · exact (keeps_reportHere _).then fun _ => givesIf_none
    · have list : statements.Gives statementsWellFormed := fun r hr =>
        ⟨(gives_statementsFrom r hr).1, fun _ => (gives_statementsFrom r hr).2⟩
      have block : (blockRest start).Gives fun b => statementsWellFormed b.statements :=
        list.bind fun _ => (keeps_expect _).then fun _ => keeps_cursor.then fun _ => givesIf_pure And.right
      exact block.bind fun _ => givesIf_some And.right
  · refine keeps_exprAndEnd.then fun o => ?_
    cases o with
    | none => exact givesIf_none
    | some e => exact givesIf_some fun _ => trivial

/-! ## Members -/

/-- Taking a span takes no error back. -/
theorem keeps_spanFrom (start : Cursor) : Keeps (spanFrom start) :=
  keeps_cursor.then fun _ => keeps_pure _

/-- A parameter that has the name of an earlier one is reported. -/
theorem gives_param (earlier : List Param) :
    GivesSome (param earlier) fun p => ¬ (earlier.any (·.name == p.name)) = true := by
  refine keeps_cursor.then fun start => (keeps_expectType _).then fun o => ?_
  cases o with
  | none => exact givesIf_none
  | some type =>
    refine (keeps_expectName _).then fun o => ?_
    cases o with
    | none => exact givesIf_none
    | some name =>
      have finish : GivesIf (¬ (earlier.any (·.name == name.lexeme)) = true) (do
          let default ← default?
          return some ({ type, name := name.lexeme, nameSpan := name.span, default, span := ← spanFrom start } : Param))
          fun o => ∀ p ∈ o, ¬ (earlier.any (·.name == p.name)) = true :=
        keeps_default?.then fun _ => (keeps_spanFrom _).then fun _ => givesIf_some id
      dsimp only
      split
      · exact givesIf_report _ _ finish
      · exact finish.mono fun _ => ‹_›

/-- Without an error the names of parameters are different. -/
theorem gives_paramList : GivesSome paramList DistinctParams := by
  refine GivesIf.bind (gives_iterate (fun s : List Param × Bool => DistinctParams s.1) (fun s => ?_) List.nodup_nil)
    fun s => ?_
  · obtain ⟨list, complete⟩ := s
    refine ((gives_param list).mono fun _ => trivial).bind fun o => ?_
    cases o with
    | none => exact givesIf_pure And.left
    | some p => exact (keeps_accept _).then fun _ => givesIf_pure fun h => nodup_map_append h.1 (h.2 p rfl)
  · obtain ⟨list, complete⟩ := s
    cases complete
    · exact givesIf_none
    · exact givesIf_some And.right

/-- The same with the mark that closes the parameters. -/
theorem gives_params (close : Punct) : GivesSome (params close) DistinctParams := by
  refine (keeps_accept _).then fun b => ?_
  cases b
  · refine gives_paramList.bind fun o => ?_
    cases o with
    | none => exact givesIf_none
    | some list =>
      refine (keeps_expect _).then fun b => ?_
      cases b
      · exact givesIf_none
      · exact givesIf_some fun h => h.2 list rfl
  · exact givesIf_some fun _ => List.nodup_nil

/-- The kind of an accessor takes no error back. -/
theorem keeps_accessorKind : Keeps accessorKind := by
  refine (keeps_accept _).then fun b => ?_
  cases b
  · refine (keeps_accept _).then fun b => ?_
    cases b
    · exact keeps_found?.then fun _ => (keeps_reportHere _).then fun _ => keeps_pure _
    · exact keeps_pure _
  · exact keeps_pure _

/-- A second accessor of a kind is reported. -/
theorem gives_accessor (earlier : List Accessor) : GivesSome (accessor earlier) fun a =>
    ¬ (earlier.any (·.kind == a.kind)) = true ∧ ∀ b ∈ a.body, b.WellFormed := by
  refine keeps_cursor.then fun start => keeps_accessorKind.then fun o => ?_
  cases o with
  | none => exact givesIf_none
  | some kind =>
    dsimp only
    split
    case' isTrue =>
      refine (keeps_spanFrom _).then fun _ => givesIf_report (e := ¬ (earlier.any (·.kind == kind)) = true)
        (p := fun o => ∀ a ∈ o, ¬ (earlier.any (·.kind == a.kind)) = true ∧ ∀ b ∈ a.body, b.WellFormed) _ _ ?_
    case' isFalse h => refine GivesIf.mono (c := ¬ (earlier.any (·.kind == kind)) = true) ?_ fun _ => h
    -- behind the report of a second accessor of its kind the accessor goes on like any other
    all_goals
      refine (keeps_accept _).then fun b => ?_
      cases b
      · refine (gives_body.mono fun _ => trivial).bind fun o => ?_
        cases o with
        | none => exact givesIf_none
        | some b => exact (keeps_spanFrom _).then fun _ => givesIf_some fun h => ⟨h.1, h.2⟩
      · exact (keeps_spanFrom _).then fun _ => givesIf_some fun h => ⟨h, fun _ hb => nomatch hb⟩

/-- Without an error a property has one accessor of a kind at most, and these are well formed. -/
theorem gives_accessors : GivesSome accessors fun list => (PropertyBody.accessors list).WellFormed := by
  refine (keeps_expect _).then fun b => ?_
  cases b
  · exact givesIf_none
  refine GivesIf.bind (gives_iterate (fun s : List Accessor × Bool => (PropertyBody.accessors s.1).WellFormed)
    (fun s => ?_) ⟨List.nodup_nil, List.forall_mem_nil _⟩) fun s => ?_
  · obtain ⟨list, complete⟩ := s
    refine (keeps_accept _).then fun b => ?_
    cases b
    · refine ((gives_accessor list).mono fun _ => trivial).bind fun o => ?_
      cases o with
      | none => exact givesIf_pure And.left
      | some a =>
        refine givesIf_pure fun ⟨h, ha⟩ => ⟨nodup_map_append h.1 (ha a rfl).1, ?_⟩
        exact List.forall_mem_append.2 ⟨h.2, List.forall_mem_singleton.2 (ha a rfl).2⟩
    · exact givesIf_pure id
  · obtain ⟨list, complete⟩ := s
    cases complete
    · exact givesIf_none
    · exact givesIf_some And.right

/-- A field that is written out keeps no parameter. -/
theorem gives_fieldRest (head : MemberHead) (name : Token) :
    GivesSome (fieldRest head name) fun f => (Member.field f).capturedField? = none := by
  have finish : ∀ init : Option Expr, GivesSome (do
      if !(← expect .semicolon) then return none
      return some ({ attributes := head.attributes, modifiers := head.modifiers, type := head.type, name := name.lexeme,
                     nameSpan := name.span, init, origin := .declared, span := ← spanFrom head.start } : FieldDecl))
      fun f => (Member.field f).capturedField? = none := by
    intro init
    refine (keeps_expect _).then fun b => ?_
    cases b
    · exact givesIf_none
    · exact (keeps_spanFrom _).then fun _ => givesIf_some fun _ => rfl
  refine (keeps_accept _).then fun b => ?_
  cases b
  · exact finish none
  · refine keeps_expr.then fun o => ?_
    cases o with
    | none => exact givesIf_none
    | some e => exact finish (some e)

/-- The initial value of a property takes no error back. -/
theorem keeps_propertyInit : Keeps propertyInit := by
  refine (keeps_accept _).then fun b => ?_
  cases b
  · exact keeps_pure _
  · exact keeps_exprAndEnd.then fun _ => keeps_pure _

/-- Without an error the body of a property is well formed. -/
theorem gives_propertyRest (head : MemberHead) (name : Token) :
    GivesSome (propertyRest head name) fun p => p.body.WellFormed := by
  have finish : ∀ (body : PropertyBody) (init : Option Expr), GivesIf body.WellFormed (do
      return some ({ attributes := head.attributes, modifiers := head.modifiers, type := head.type, name := name.lexeme,
                     nameSpan := name.span, body, init, span := ← spanFrom head.start } : PropertyDecl))
      fun o => ∀ p ∈ o, p.body.WellFormed := fun body init =>
    (keeps_spanFrom _).then fun _ => givesIf_some id
  refine (keeps_accept _).then fun b => ?_
  cases b
  · refine gives_accessors.bind fun o => ?_
    cases o with
    | none => exact givesIf_none
    | some list =>
      refine keeps_propertyInit.then fun o => ?_
      cases o with
      | none => exact givesIf_none
      | some init => exact (finish (.accessors list) init).mono fun h => h.2 list rfl
  · refine keeps_exprAndEnd.then fun o => ?_
    cases o with
    | none => exact givesIf_none
    | some e => exact (finish (.expr e) none).mono fun _ => trivial

/-- Without an error a method is well formed. -/
theorem gives_methodRest (head : MemberHead) (name : Token) :
    GivesSome (methodRest head name) fun d => (Member.method d).WellFormed := by
  refine (gives_params _).bind fun o => ?_
  cases o with
  | none => exact givesIf_none
  | some params =>
    refine (gives_body.mono fun _ => trivial).bind fun o => ?_
    cases o with
    | none => exact givesIf_none
    | some b => exact (keeps_spanFrom _).then fun _ => givesIf_some fun h => ⟨h.1.2 params rfl, h.2 b rfl⟩

/-- Without an error an indexer is well formed. -/
theorem gives_indexerRest (head : MemberHead) :
    GivesSome (indexerRest head) fun i => (Member.indexer i).WellFormed := by
  have drop : ∀ c : Prop, GivesIf c (dropMember : Reading (Option IndexerDecl)) fun o =>
      ∀ i ∈ o, (Member.indexer i).WellFormed := fun c =>
    (keeps_skipBy _).then fun _ => givesIf_none
  have finish : ∀ (params : List Param) (body : PropertyBody),
      GivesIf ((params ≠ [] ∧ DistinctParams params) ∧ body.WellFormed) (do
        return some ({ attributes := head.attributes, modifiers := head.modifiers, type := head.type, params, body,
                       span := ← spanFrom head.start } : IndexerDecl))
        fun o => ∀ i ∈ o, (Member.indexer i).WellFormed := fun params body =>
    (keeps_spanFrom _).then fun _ => givesIf_some fun h => ⟨h.1.1, h.1.2, h.2⟩
  refine (keeps_expect _).then fun b => ?_
  cases b
  · exact drop _
  refine (gives_params _).bind fun o => ?_
  cases o with
  | none => exact drop _
  | some params =>
    dsimp only
    split
    case' isTrue =>
      refine keeps_cursor.then fun _ => givesIf_report (e := params ≠ [] ∧ DistinctParams params)
        (p := fun o => ∀ i ∈ o, (Member.indexer i).WellFormed) _ _ ?_
    case' isFalse he =>
      refine GivesIf.mono (c := params ≠ [] ∧ DistinctParams params) ?_ fun h => ⟨fun hn => he (hn ▸ rfl), h.2 params rfl⟩
    -- behind the report of a missing parameter the indexer goes on like any other
    all_goals
      refine (keeps_accept _).then fun b => ?_
      cases b
      · refine (gives_accessors.mono fun _ => trivial).bind fun o => ?_
        cases o with
        | none => exact drop _
        | some list => exact (finish params (.accessors list)).mono fun h => ⟨h.1, h.2 list rfl⟩
      · refine keeps_expr.then fun o => (keeps_expect _).then fun b => ?_
        cases b
        · exact drop _
        · cases o with
          | none => exact givesIf_none
          | some e => exact (finish params (.expr e)).mono fun h => ⟨h, trivial⟩

/-- A member that is read is well formed and keeps no parameter. -/
def MemberRead (m : Member) : Prop :=
  m.WellFormed ∧ m.capturedField? = none

/-- Without an error a member with a name is well formed, whichever kind it is. -/
theorem gives_namedRest (head : MemberHead) (name : Token) : GivesSome (namedRest head name) MemberRead := by
  have map : ∀ {α : Type} {a : Reading (Option α)} {p : α → Prop} {f : α → Member}, GivesSome a p →
      (∀ v, p v → MemberRead (f v)) → GivesSome (do return (← a).map f) MemberRead := by
    intro α a p f h hf
    refine h.bind fun o => givesIf_pure fun ⟨_, ho⟩ m hm => ?_
    obtain ⟨v, hv, rfl⟩ := Option.map_eq_some_iff.1 hm
    exact hf v (ho v hv)
  refine (keeps_accept _).then fun b => ?_
  cases b
  · refine (keeps_sees _).then fun b => (keeps_sees _).then fun b' => ?_
    split
    · exact map (gives_propertyRest _ _) fun _ h => ⟨h, rfl⟩
    · exact map (gives_fieldRest _ _) fun _ h => ⟨trivial, h⟩
  · exact map (gives_methodRest _ _) fun _ h => ⟨h, rfl⟩

/-- Without an error a member is well formed. -/
theorem gives_member : GivesSome member MemberRead := by
  refine keeps_cursor.then fun start => keeps_attributes.then fun attributes => keeps_modifiers.then fun modifiers =>
    (keeps_expectType _).then fun o => ?_
  have drop : ∀ c : Prop, GivesIf c (dropMember : Reading (Option Member)) fun o => ∀ m ∈ o, MemberRead m := fun c =>
    (keeps_skipBy _).then fun _ => givesIf_none
  cases o with
  | none => exact drop _
  | some type =>
    refine (keeps_accept _).then fun b => ?_
    cases b
    · refine (keeps_expectName _).then fun o => ?_
      cases o with
      | none => exact drop _
      | some name =>
        refine (gives_namedRest _ _).bind fun o => ?_
        cases o with
        | none => exact drop _
        | some m => exact givesIf_some fun h => h.2 m rfl
    · refine (gives_indexerRest _).bind fun o => givesIf_pure fun ⟨_, ho⟩ m hm => ?_
      obtain ⟨i, hi, rfl⟩ := Option.map_eq_some_iff.1 hm
      exact ⟨ho i hi, rfl⟩

/-! ## Types and units -/

/-- Without an error all members of a type are well formed. -/
theorem gives_members : members.Gives fun list => ∀ m ∈ list, MemberRead m := by
  refine (keeps_expect _).then fun b => ?_
  cases b
  · exact (keeps_skipBy _).then fun _ => givesIf_pure fun _ => List.forall_mem_nil _
  · exact (gives_many gives_member).bind fun _ => (keeps_expect _).then fun _ => givesIf_pure And.right

/-- The kind of a type takes no error back. -/
theorem keeps_typeKind : Keeps typeKind := by
  refine (keeps_accept _).then fun b => ?_
  cases b
  · refine (keeps_accept _).then fun b => ?_
    cases b
    · exact keeps_found?.then fun _ => (keeps_reportHere _).then fun _ => keeps_pure _
    · exact keeps_pure _
  · exact keeps_pure _

/-- Without an error a type declaration is well formed. -/
theorem gives_typeDecl : GivesSome typeDecl TypeDecl.WellFormed := by
  have drop : GivesSome (dropType none) TypeDecl.WellFormed := (keeps_skipBy _).then fun _ => givesIf_none
  refine keeps_cursor.then fun start => keeps_modifiers.then fun modifiers => keeps_typeKind.then fun o => ?_
  cases o with
  | none => exact drop
  | some kind =>
    refine (keeps_expectName _).then fun o => ?_
    cases o with
    | none => exact drop
    | some name =>
      refine gives_generics.bind fun generics => (gives_primary?.mono fun _ => trivial).bind fun primary =>
        keeps_base?.then fun base => ((givesIf_whereClauses generics).mono fun h => h.1.2).bind fun generics =>
          (gives_members.mono fun _ => trivial).bind fun members => (keeps_spanFrom _).then fun span => givesIf_some ?_
      rintro ⟨⟨⟨-, hp⟩, hg⟩, hm⟩
      exact ⟨hg, hp, fun m h => (hm m h).2, fun m h => (hm m h).1⟩

/-- Without an error the declarations of a unit are well formed. -/
theorem gives_unit : unit.Gives fun u => ∀ d ∈ u.types, d.WellFormed :=
  (gives_many gives_typeDecl).bind fun _ => givesIf_pure And.right

end Reading

/-- The declarations of a unit that was read are well formed. -/
theorem SourceUnit.wellFormed_of_parse [Text.Hash] {source : String} {file : Option Nat} {unit : SourceUnit}
    (h : SourceUnit.parse source file = .ok unit) : ∀ d ∈ unit.types, d.WellFormed := by
  unfold SourceUnit.parse at h
  dsimp only at h
  split at h
  · cases h
  · cases h
    exact (Reading.gives_unit _ (Bool.eq_false_iff.2 ‹_›)).2 trivial

end NavCheck
