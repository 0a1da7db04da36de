import NavCheck.Proofs.Recovery
import NavCheck.Proofs.WellFormed
import NavCheck.Text.Digest

/-!
# What productions take

Every production of the parser of declarations takes the tokens of what it gives, as long as no error is found. For a whole
source text this means that recovery never passes over a token in silence: a unit is made of all significant tokens.
-/

namespace NavCheck

namespace Reading

/-! ## Headers -/

/-- A modifier that is ahead is one of the grammar. -/
theorem modifier_of_ahead {t : Token} {rest : List Token} (h : modifierAhead (t :: rest) = true) :
    [t] ∈ Grammar.modifier ⟨t.lexeme, t.span⟩ := by
  obtain ⟨kind, lexeme, span⟩ := t
  unfold modifierAhead at h
  dsimp only at h
  split at h
  · rename_i word
    exact ⟨.keyword word, .inl ⟨word, h, rfl⟩, rfl⟩
  · rw [Bool.and_eq_true] at h
    exact ⟨.name, .inr ⟨rfl, List.contains_iff_mem.1 h.1⟩, rfl⟩
  · cases h

/-- A modifier is taken, if there is one. -/
theorem takes_modifier? : modifier?.Takes (Grammar.optional Grammar.modifier) := by
  refine fun r => completesAt_cursor ?_
  split
  · exact completes_return (by rfl) r
  · rename_i hm
    refine CompletesAt.bind (f := Grammar.optional fun t => Grammar.modifier ⟨t.lexeme, t.span⟩)
      (completesAt_pass (fun p hp => ?_) rfl) (completes_return ?_ _)
    · have passed := Cursor.passes_next? hp
      rw [passed.1] at hm
      exact ⟨_, modifier_of_ahead (by simpa using hm), passed⟩
    · cases (Reading.run (pass (·.next?)) r).1 <;> rfl

/-- Modifiers are taken one behind the other. -/
theorem takes_modifiers : modifiers.Takes (Grammar.row Grammar.modifier) := by
  refine takes_row (fun list => takes_modifier?.then fun o => ?_) ?_
  · rw [one_mul]
    cases o with
    | none => exact completes_pure fun ts ht => ⟨rfl, ht⟩
    | some m => exact completes_pure fun ts ht => ⟨m, rfl, ht⟩
  · rintro m ⟨kind, -, h⟩
    cases h

/-- The target of attributes is taken with its colon, if there is one. -/
theorem takes_attributeTarget? :
    attributeTarget?.Takes (Grammar.optional fun text => Grammar.anyName text * Grammar.mark .colon) := by
  refine fun r => completesAt_cursor ?_
  obtain ⟨⟨passed, ahead⟩, sink, skipped⟩ := r
  dsimp only
  split
  · rename_i lexeme span colon colonSpan rest
    let name : Token := ⟨.name, lexeme, span⟩
    let mark : Token := ⟨.punct .colon, colon, colonSpan⟩
    have reached : Reader.Reaches ⟨⟨passed, name :: mark :: rest⟩, sink, skipped⟩
        (Grammar.anyName lexeme * Grammar.mark .colon) ⟨⟨mark :: name :: passed, rest⟩, sink, skipped⟩ :=
      ⟨rfl, [name, mark], Language.append_mem_mul (a := [name]) (b := [mark]) ⟨span, rfl⟩ ⟨mark, rfl, rfl⟩, rfl, rfl⟩
    exact ⟨⟨le_rfl, List.prefix_rfl⟩, fun _ start hs => hs.on reached⟩
  · exact completes_return (by rfl) _

/-- Names behind a target are attributes with it. -/
theorem takes_attributeNames (target : Option String) : (attributeNames target).Takes fun list =>
    {ts | (∀ a ∈ list, a.target = target) ∧ list ≠ [] ∧ ts ∈ Grammar.commas (fun a => Grammar.name a.name a.span) list} := by
  refine takes_commas id (fun list : List Attribute => ∀ a ∈ list, a.target = target)
    (fun list => (takes_expectName _).bind fun o => ?_) rfl (List.forall_mem_nil _)
  cases o with
  | none => exact (retains_pure _).completes' rfl
  | some name =>
    exact completes_comma (by rfl) (by rfl) fun h => List.forall_mem_append.2 ⟨h, by simp⟩

/-- An attribute list behind its opening bracket. -/
theorem takes_attributeList : attributeList.Takes fun list =>
    {ts | ∃ g : Grammar.AttributeGroup, g.attributes = list ∧
      ∀ us ∈ Grammar.mark .openBracket, us ++ ts ∈ Grammar.attributeGroup g} := by
  refine takes_attributeTarget?.then fun target => (takes_attributeNames target).then fun list =>
    (takes_expect _).then fun b => ?_
  cases b
  · exact ((retains_skipBy _).then fun _ => (takes_accept _).retains.then fun _ => retains_pure _).completes
  · refine completes_pure fun ts ht => ?_
    rw [one_mul] at ht
    obtain ⟨_, ⟨us, hu, vs, ⟨hl, hne, hv⟩, rfl⟩, ws, hw, rfl⟩ := ht
    refine ⟨⟨target, list, hl, hne⟩, rfl, fun os ho => ?_⟩
    have all := Language.append_mem_mul (Language.append_mem_mul (Language.append_mem_mul ho hu) hv) hw
    simp only [List.append_assoc] at all ⊢
    exact all

/-- Attributes are taken with their brackets. -/
theorem takes_attributes : attributes.Takes Grammar.attributes := by
  let step : List Attribute → List Attribute → Language Token := fun list list' =>
    {ts | ∃ g : Grammar.AttributeGroup, list' = list ++ g.attributes ∧ ts ∈ Grammar.attributeGroup g}
  refine (completes_turns step (I := Grammar.attributes) (fun list => (takes_accept _).bind fun b => ?_) ?_ ?_
    []).behind ?_
  · cases b
    · exact completes_pure fun ts ht => ⟨rfl, ht⟩
    · refine takes_attributeList.then fun more => completes_pure ?_
      rintro _ ⟨us, hu, ts, ⟨g, rfl, hg⟩, rfl⟩
      exact ⟨g, rfl, hg us hu⟩
  · rintro list list' ⟨g, -, hn⟩
    exact Grammar.nil_notMem_token _ (Grammar.nil_mem_mul.1 hn).2
  · rintro list _ _ ⟨us, ⟨groups, rfl, hu⟩, vs, ⟨g, rfl, hv⟩, rfl⟩
    refine ⟨groups ++ [g], by simp, ?_⟩
    rw [Grammar.row_append, Grammar.row_singleton]
    exact Language.append_mem_mul hu hv
  · rintro _ rfl
    exact ⟨[], rfl, rfl⟩

/-- Generic parameters have different names, and nothing is asked of them before the constraint clauses. -/
def Plain (list : List GenericParam) : Prop :=
  (list.map (·.name)).Nodup ∧ ∀ g ∈ list, g.constraint = none

/-- Generic parameters are taken with their brackets, and are without constraints yet. -/
theorem takes_generics : generics.Takes fun list => {ts | Plain list ∧ ts ∈ Grammar.generics list} := by
  refine (takes_accept _).then fun b => ?_
  rw [one_mul]
  cases b
  · exact completes_pure fun ts ht => ⟨⟨List.nodup_nil, List.forall_mem_nil _⟩, ht⟩
  refine (takes_commas id Plain (f := fun g => Grammar.name g.name g.span) (fun list => ?_) rfl
    ⟨List.nodup_nil, List.forall_mem_nil _⟩).then fun list => (takes_accept _).then fun b => ?_
  · refine (takes_expectName _).bind fun o => ?_
    cases o with
    | none => exact (retains_pure _).completes' rfl
    | some name =>
      dsimp only
      split
      · exact completes_report _ _ (retains_comma _)
      · rename_i hn
        exact completes_comma (by rfl) (by rfl) fun h =>
          ⟨nodup_map_append h.1 hn, List.forall_mem_append.2 ⟨h.2, by simp⟩⟩
  · cases b
    · exact (takes_reportHere _).then fun _ => (retains_pure _).completes
    · refine completes_pure ?_
      rintro _ ⟨_, ⟨us, hu, vs, ⟨hp, hne, hv⟩, rfl⟩, ws, hw, rfl⟩
      refine ⟨hp, ?_⟩
      rw [Grammar.generics, if_neg (by simpa using hne)]
      exact Language.append_mem_mul (Language.append_mem_mul hu hv) hw

/-- A default value is taken with its sign, if there is one. -/
theorem takes_default? : default?.Takes Grammar.initial := by
  refine (takes_accept _).bind fun b => ?_
  cases b
  · exact completes_return (by rfl)
  · exact takes_expr.given.optional

/-- A parameter of a primary constructor is taken. -/
theorem takes_primaryParam : primaryParam.Takes (Grammar.given Grammar.primaryParam) := by
  refine quiet_cursor.then fun start => takes_attributes.bind fun attributes => takes_modifiers.then fun modifiers =>
    (takes_expectType _).then fun o => ?_
  cases o with
  | none => exact (retains_pure _).completes
  | some type =>
    refine (takes_expectName _).then fun o => ?_
    cases o with
    | none => exact (retains_pure _).completes
    | some name => exact takes_default?.then fun default => quiet_cursor.then fun _ => completes_return (by rfl)

/-- The parameters of a primary constructor are taken with their parentheses, if there are any. -/
theorem takes_primary? : primary?.Takes (Grammar.optional Grammar.primary) := by
  refine (takes_accept _).bind fun b => ?_
  cases b
  · exact completes_return (by rfl)
  refine (takes_accept _).then fun b => ?_
  cases b
  · refine Takes.then (f := Grammar.commas Grammar.primaryParam) (takes_list fun list => takes_primaryParam.bind fun o => ?_)
      fun list => (takes_expect _).then fun b => ?_
    · cases o with
      | none => exact ((retains_skipBy _).then fun _ => retains_comma list).completes' rfl
      | some param =>
        exact completes_reportIf (completes_comma (by rfl) (by rfl) id)
    · cases b
      · exact (retains_pure _).completes
      · exact completes_return (by simp [Grammar.optional, Grammar.primary])
  · exact completes_return (by simp [Grammar.optional, Grammar.primary, Grammar.commas])

/-- Arguments are taken with their commas and the closing parenthesis. -/
theorem takes_arguments : arguments.Takes fun list => Grammar.commas Grammar.expr list * Grammar.mark .closeParen := by
  refine (takes_accept _).bind fun b => ?_
  cases b
  · refine Takes.then (f := Grammar.commas Grammar.expr) (takes_list fun list => takes_expr.bind fun o => ?_)
      fun list => (takes_expect _).then fun b => ?_
    · cases o with
      | none => exact (retains_comma _).completes' rfl
      | some e => exact completes_comma (by rfl) (by rfl) id
    · cases b
      · exact (retains_pure _).completes
      · exact completes_return (by simp)
  · exact completes_return (by simp [Grammar.commas])

/-- A base is taken with its colon, if there is one. -/
theorem takes_base? : base?.Takes (Grammar.optional fun b => Grammar.mark .colon * Grammar.base b) := by
  have spec : baseSpec.Takes (Grammar.given Grammar.base) := by
    refine quiet_cursor.then fun start => (takes_expectType _).bind fun o => ?_
    cases o with
    | none => exact (retains_pure _).completes' rfl
    | some type =>
      have finish (args : Option (List Expr)) : Completes (Grammar.type type * Grammar.optional Grammar.arguments args) (do
          return some ({ type, args, span := start.spanTo (← cursor) } : BaseSpec)) (Grammar.given Grammar.base) :=
        quiet_cursor.then fun _ => completes_return (by rfl)
      refine (takes_accept _).then fun b => ?_
      cases b
      · exact finish none
      · refine takes_arguments.then fun args => (finish (some args)).behind fun ts ht => ?_
        simpa only [Grammar.optional, Grammar.arguments, mul_assoc, Grammar.given, cond_true] using ht
  refine (takes_accept _).bind fun b => ?_
  cases b
  · exact completes_return (by rfl)
  · exact spec.given.optional

/-- A constraint is taken. -/
theorem takes_constraint : constraint.Takes (Grammar.given Grammar.constraint) := by
  refine (takes_accept _).bind fun b => ?_
  cases b
  · refine (takes_accept _).then fun b => ?_
    cases b
    · refine (takes_expectType _).then fun o => completes_return ?_
      cases o <;> simp [Grammar.given, Grammar.constraint]
    · exact completes_return (one_mul _)
  · exact completes_return (by rfl)

/-- A constraint clause asks something of a parameter of which nothing was asked before. -/
theorem takes_whereClause (generics : List GenericParam) : (whereClause generics).Takes fun list =>
    {ts | ∃ (param : GenericParam) (asked : GenericConstraint), generics.find? (·.name == param.name) = some param ∧
      param.constraint = none ∧ list = constrain param.name (some asked) generics ∧
      ts ∈ Grammar.anyName param.name * Grammar.mark .colon * Grammar.constraint asked} := by
  refine (takes_expectName _).bind fun o => ?_
  cases o with
  | none => exact (retains_pure _).completes' rfl
  | some name =>
    refine (takes_expect _).then fun b => ?_
    cases b
    · exact (retains_pure _).completes
    · refine takes_constraint.then fun asked => ?_
      split
      · rename_i param hf
        split
        · exact completes_report _ _ (retains_pure _)
        · rename_i hn
          refine completes_pure fun ts ht => ?_
          cases asked with
          | none => exact (Grammar.notMem_given_none ht).elim
          | some asked =>
            have he : name.lexeme = param.name := by
              have := List.find?_some hf
              exact (beq_iff_eq.1 this).symm
            refine ⟨param, asked, he ▸ hf, by simpa using hn, he ▸ rfl, he ▸ ?_⟩
            obtain ⟨_, ⟨us, hu, vs, hv, rfl⟩, ws, hw, rfl⟩ := ht
            exact Language.append_mem_mul (Language.append_mem_mul ⟨name.span, hu⟩ hv) hw
      · exact completes_report _ _ (retains_pure _)

/-- A generic parameter without what is asked of it. -/
def bare (g : GenericParam) : String × Span :=
  (g.name, g.span)

/-- A constraint leaves a generic parameter what it is without it. -/
theorem bare_constrain (name : String) (asked : Option GenericConstraint) (list : List GenericParam) :
    (constrain name asked list).map bare = list.map bare := by
  induction list with
  | nil => rfl
  | cons p ps ih =>
    rw [constrain]
    split
    · rfl
    · rw [List.map_cons, List.map_cons, ih]

/-- The constraint of the only parameter of a name changes, and no other. -/
theorem mem_constrain {name : String} {asked : Option GenericConstraint} {list : List GenericParam}
    (hd : (list.map (·.name)).Nodup) {g : GenericParam} (hg : g ∈ constrain name asked list) :
    (g.name = name ∧ g.constraint = asked) ∨ (g.name ≠ name ∧ g ∈ list) := by
  induction list with
  | nil => cases hg
  | cons p ps ih =>
    rw [List.map_cons, List.nodup_cons] at hd
    rw [constrain] at hg
    split at hg
    · rename_i hp
      obtain rfl | hg := List.mem_cons.1 hg
      · exact .inl ⟨hp, rfl⟩
      · exact .inr ⟨fun he => hd.1 (List.mem_map.2 ⟨g, hg, he.trans hp.symm⟩), List.mem_cons_of_mem _ hg⟩
    · rename_i hp
      obtain rfl | hg := List.mem_cons.1 hg
      · exact .inr ⟨hp, List.mem_cons_self⟩
      · exact (ih hd.2 hg).imp_right fun h => ⟨h.1, List.mem_cons_of_mem _ h.2⟩

/-- The tokens of generic parameters have nothing to do with their constraints. -/
theorem generics_of_bare {list list' : List GenericParam} (h : list'.map bare = list.map bare) :
    Grammar.generics list' = Grammar.generics list := by
  have written (l : List GenericParam) : Grammar.generics l = if (l.map bare).isEmpty then 1 else
      Grammar.sign .less * Grammar.commas (fun g => Grammar.name g.1 g.2) (l.map bare) * Grammar.sign .greater := by
    rw [← Grammar.commas_map, List.isEmpty_map]
    rfl
  rw [written, h, ← written]

/-- A clause asks something of one more parameter. -/
theorem clauses_constrain {list : List GenericParam} {param : GenericParam} {asked : GenericConstraint} {ts us : List Token}
    (hd : (list.map (·.name)).Nodup) (hm : param ∈ list) (hn : param.constraint = none) (ht : ts ∈ Grammar.clauses list)
    (hu : us ∈ Grammar.clause (param.name, asked)) :
    ts ++ us ∈ Grammar.clauses (constrain param.name (some asked) list) := by
  obtain ⟨earlier, hk, hs, hl, ht⟩ := ht
  have hnew : earlier.lookup param.name = none := (hl param hm).symm.trans hn
  have hfresh : ¬ earlier.any (·.1 == param.name) = true := by
    rw [List.any_eq_true]
    rintro ⟨c, hc, he⟩
    simpa [beq_iff_eq.1 he] using List.lookup_eq_none_iff.1 hnew c hc
  refine ⟨earlier ++ [(param.name, asked)], nodup_map_append hk hfresh, ?_, fun g hg => ?_, ?_⟩
  · rw [names_constrain]
    exact List.forall_mem_append.2 ⟨hs, List.forall_mem_singleton.2 (List.mem_map_of_mem hm)⟩
  · rw [List.lookup_append]
    obtain ⟨hg, hc⟩ | ⟨hg, hc⟩ := mem_constrain hd hg
    · rw [hc, hg, hnew]
      simp
    · rw [hl g hc]
      have : (g.name == param.name) = false := beq_eq_false_iff_ne.2 hg
      simp [List.lookup_cons, this]
  · rw [Grammar.row_append, Grammar.row_singleton]
    exact Language.append_mem_mul ht hu

/-- The constraint clauses behind parameters of which nothing is asked yet. -/
theorem takes_whereClauses (generics : List GenericParam) : (whereClauses generics).Takes fun list =>
    {ts | Plain generics → list.map bare = generics.map bare ∧ ts ∈ Grammar.clauses list} := by
  let I : List GenericParam → Language Token := fun list =>
    {ts | Plain generics → list.map bare = generics.map bare ∧ ts ∈ Grammar.clauses list}
  let step : List GenericParam → List GenericParam → Language Token := fun list list' =>
    {ts | ∃ (param : GenericParam) (asked : GenericConstraint), list.find? (·.name == param.name) = some param ∧
      param.constraint = none ∧ list' = constrain param.name (some asked) list ∧ ts ∈ Grammar.clause (param.name, asked)}
  refine (completes_turns step (I := I) (fun list => (takes_accept _).bind fun b => ?_) ?_ ?_ generics).behind ?_
  · cases b
    · exact completes_pure fun ts ht => ⟨rfl, ht⟩
    · refine (takes_whereClause list).then fun list' => completes_pure ?_
      rintro _ ⟨us, hu, ts, ⟨param, asked, hf, hn, he, ht⟩, rfl⟩
      refine ⟨param, asked, hf, hn, he, ?_⟩
      rw [Grammar.clause, mul_assoc, mul_assoc, ← mul_assoc (Grammar.anyName _)]
      exact Language.append_mem_mul hu ht
  · rintro list list' ⟨param, asked, -, -, -, hn⟩
    rw [Grammar.clause, Grammar.nil_mem_mul, Grammar.nil_mem_mul, Grammar.nil_mem_mul] at hn
    exact Grammar.nil_notMem_token _ hn.1.1.1
  · rintro list _ _ ⟨us, hu, vs, ⟨param, asked, hf, hn, rfl, hv⟩, rfl⟩ hp
    obtain ⟨hb, hu⟩ := hu hp
    have hd : (list.map (·.name)).Nodup := by
      have names (l : List GenericParam) : l.map (·.name) = (l.map bare).map Prod.fst := by
        rw [List.map_map]
        rfl
      rw [names, hb, ← names]
      exact hp.1
    exact ⟨(bare_constrain _ _ _).trans hb, clauses_constrain hd (List.mem_of_find?_eq_some hf) hn hu hv⟩
  · rintro _ rfl hp
    exact ⟨rfl, [], List.nodup_nil, List.forall_mem_nil _, hp.2, rfl⟩

/-! ## Statements -/

/-- The end of a statement is its semicolon. -/
theorem takes_endStatement : endStatement.Takes fun _ => Grammar.mark .semicolon := by
  refine (takes_expect _).bind fun b => ?_
  cases b
  · exact (retains_skipBy _).completes' rfl
  · exact completes_return (by rfl)

/-- An expression is taken with the semicolon behind it. -/
theorem takes_exprAndEnd : exprAndEnd.Takes (Grammar.given Grammar.exprAndEnd) := by
  refine takes_expr.bind fun o => ?_
  cases o with
  | none => exact (retains_pure _).completes' rfl
  | some e =>
    refine (takes_expect _).then fun b => ?_
    cases b
    · exact (retains_pure _).completes
    · exact completes_return (by rfl)

/-- The rest of a `return` completes the word. -/
theorem completes_returnRest (start : Cursor) :
    (returnRest start).Completes (Grammar.word .returnKw) (Grammar.given Grammar.statement) := by
  have finish (value : Option Expr) : Completes (Grammar.word .returnKw * Grammar.optional Grammar.expr value) (do
      endStatement
      return some (.give value (start.spanTo (← cursor)))) (Grammar.given Grammar.statement) :=
    takes_endStatement.then fun _ => quiet_cursor.then fun _ => completes_return (by rfl)
  refine (quiet_sees _).then fun b => ?_
  cases b
  · refine takes_expr.then fun o => ?_
    cases o with
    | none => exact (retains_pure _).completes
    | some e => exact finish (some e)
  · exact (finish none).behind fun ts ht => (mul_one (Grammar.word .returnKw)).symm ▸ ht

/-- What stands in front of the name of a local. -/
def localHead : Option TypeExpr → Language Token
  | some t => Grammar.type t
  | none => Grammar.word .varKw

/-- The rest of a local completes its type, or the word that stands for it. -/
theorem completes_localRest (start : Cursor) (type : Option TypeExpr) :
    (localRest start type).Completes (localHead type) (Grammar.given Grammar.statement) := by
  refine (takes_expectName _).then fun o => ?_
  cases o with
  | none => exact ((retains_skipBy _).then fun _ => retains_pure _).completes
  | some name =>
    have finish (init : Option Expr) : Completes (localHead type * Grammar.name name.lexeme name.span * Grammar.initial init) (do
        if type.isNone && init.isNone then report (.untypedLocal name.lexeme) (some name.span)
        endStatement
        return some (.local type name.lexeme name.span init (start.spanTo (← cursor)))) (Grammar.given Grammar.statement) := by
      refine completes_reportIf (takes_endStatement.then fun _ => quiet_cursor.then fun _ => completes_return ?_)
      cases type <;> rfl
    refine (takes_accept _).then fun b => ?_
    cases b
    · exact finish none
    · refine takes_expr.then fun o => ?_
      cases o with
      | none => exact (retains_pure _).completes
      | some e =>
        refine (finish (some e)).behind fun ts ht => ?_
        rw [mul_assoc _ _ (Grammar.given Grammar.expr (some e))] at ht
        exact ht

/-- The condition of an `if` is taken with its parentheses. -/
theorem takes_condition : condition.Takes (Grammar.given Grammar.condition) := by
  refine (takes_expect _).bind fun b => ?_
  cases b
  · exact ((retains_skipBy _).then fun _ => retains_pure _).completes' rfl
  · refine takes_expr.then fun o => ?_
    cases o with
    | none => exact (retains_pure _).completes
    | some e =>
      refine (takes_expect _).then fun b => ?_
      cases b
      · exact ((retains_skipBy _).then fun _ => retains_pure _).completes
      · exact completes_return (by rfl)

/-- A statement without statements inside it is taken. -/
theorem takes_simpleStatement : simpleStatement.Takes (Grammar.given Grammar.statement) := by
  refine quiet_cursor.then fun start => (takes_accept _).bind fun b => ?_
  cases b
  · refine (takes_accept _).bind fun b => ?_
    cases b
    · show Completes _ (if localAhead start.ahead = true then _ else _) _
      split
      · refine (takes_expectType _).bind fun o => ?_
        cases o with
        | none => exact (retains_pure _).completes' rfl
        | some type => exact completes_localRest start (some type)
      · refine takes_expr.bind fun o => ?_
        cases o with
        | none => exact (retains_pure _).completes' rfl
        | some e => exact takes_endStatement.then fun _ => completes_return (by rfl)
    · exact completes_localRest start none
  · exact completes_returnRest start

mutual

/-- A statement leads on by its tokens. The recursion is that of the reader. -/
theorem statementFrom_leads (r : Reader) :
    r.Leads (Grammar.given Grammar.statement (statementFrom r).value) (statementFrom r).next := by
  rw [statementFrom]
  cases hb : r.cursor.accept? (.punct .openBrace) with
  | some brace =>
    have := brace.shorter
    have inside := statementsFrom_leads { r with cursor := brace.next }
    have close := (takes_expect .closeBrace).leads (statementsFrom { r with cursor := brace.next }).next
    exact (((Reader.Leads.accept? hb).trans inside).trans close).mono fun ts ht => Grammar.mem_mul_of_cond ht
  | none =>
    dsimp only
    cases hw : r.cursor.accept? (.keyword .ifKw) with
    | none => exact takes_simpleStatement.leads r
    | some word =>
      have h₁ : Reader.remaining { r with cursor := word.next } < r.remaining := word.shorter
      set head := condition.step { r with cursor := word.next }
      have h₂ := Nat.lt_of_le_of_lt head.le h₁
      have test : r.Leads (Grammar.word .ifKw * Grammar.given Grammar.condition head.value) head.next :=
        (Reader.Leads.accept? hw).trans (takes_condition.leads _)
      dsimp only
      split
      · rename_i ht
        rw [ht] at test
        exact test.of_given_none
      · rename_i e ht
        set first := statementFrom head.next
        have h₃ := Nat.lt_of_le_of_lt first.le h₂
        have branch := test.trans (statementFrom_leads head.next)
        rw [ht] at branch
        split
        · rename_i hf
          change r.Leads (_ * Grammar.given Grammar.statement first.value) first.next at branch
          rw [hf] at branch
          exact branch.of_given_none
        · rename_i thenBranch hf
          set otherwise := (accept (.keyword .elseKw)).step first.next
          have h₄ := Nat.lt_of_le_of_lt otherwise.le h₃
          have before : r.Leads (Grammar.word .ifKw * Grammar.condition e * Grammar.given Grammar.statement first.value *
              cond otherwise.value (Grammar.word .elseKw) 1) otherwise.next :=
            branch.trans ((takes_accept (.keyword .elseKw)).leads first.next)
          rw [hf] at before
          split
          · rename_i he
            rw [he] at before
            refine (before.trans (statementFrom_leads otherwise.next)).mono fun ts ht => ?_
            generalize (statementFrom otherwise.next).value = elseBranch at ht ⊢
            cases elseBranch with
            | none => exact (Grammar.notMem_given_none ht).elim
            | some s =>
              rw [mul_assoc] at ht
              exact ht
          · rename_i he
            rw [Bool.eq_false_iff.2 he] at before
            exact before
termination_by (r.remaining, 0)

/-- Statements in a row lead on by their tokens. -/
theorem statementsFrom_leads (r : Reader) : r.Leads (Grammar.statements (statementsFrom r).value) (statementsFrom r).next := by
  rw [statementsFrom]
  split
  · rw [Grammar.statements]
    exact .refl r
  · have first := statementFrom_leads r
    dsimp only
    split
    · refine (first.trans (statementsFrom_leads (statementFrom r).next)).mono fun ts ht => ?_
      generalize (statementFrom r).value = o at ht ⊢
      cases o with
      | none => exact (Language.notMem_zero ts (zero_mul (Grammar.statements _) ▸ ht)).elim
      | some s => exact ht
    · rename_i hne hns
      have h : ((skip 1).step (statementFrom r).next).next.remaining < r.remaining := by
        have := (statementFrom r).le
        have : r.remaining ≠ 0 := fun h => hne (.inl h)
        simp only [step, skip, Reader.remaining, List.length_drop] at *
        omega
      have rest := (retains_skip 1 _).trans (statementsFrom_leads ((skip 1).step (statementFrom r).next).next).1
      refine ⟨first.1.trans rest, fun he => absurd ?_ hns⟩
      exact (first.2 (first.1.between rest he).1).remaining_lt (Grammar.nil_notMem_given Grammar.nil_notMem_statement _)
termination_by (r.remaining, 1)

end

/-- Statements up to a closing brace are taken. -/
theorem takes_statements : statements.Takes Grammar.statements :=
  fun r => ⟨(statementsFrom_leads r).1, fun he _ hs => hs.on ((statementsFrom_leads r).2 he)⟩

/-- A body is taken, with its arrow or its braces. -/
theorem takes_body : body.Takes (Grammar.given Grammar.body) := by
  refine quiet_cursor.then fun start => (takes_accept _).bind fun b => ?_
  cases b
  · refine (takes_accept _).bind fun b => ?_
    cases b
    · exact (takes_reportHere _).then fun _ => (retains_pure _).completes
    · have block : (blockRest start).Takes fun b => Grammar.statements b.statements * Grammar.mark .closeBrace := by
        refine takes_statements.bind fun list => (takes_expect _).then fun b => quiet_cursor.then fun _ => ?_
        exact completes_pure fun ts ht => Grammar.mem_mul_of_cond ht
      refine block.then fun b => completes_return ?_
      simp only [Grammar.given, Grammar.body, mul_assoc, cond_true]
  · refine takes_exprAndEnd.then fun o => completes_return ?_
    cases o with
    | none => exact mul_zero _
    | some e => rfl

/-! ## Members -/

/-- A parameter is taken. -/
theorem takes_param (earlier : List Param) : (param earlier).Takes (Grammar.given Grammar.param) := by
  refine quiet_cursor.then fun start => (takes_expectType _).bind fun o => ?_
  cases o with
  | none => exact (retains_pure _).completes' rfl
  | some type =>
    refine (takes_expectName _).then fun o => ?_
    cases o with
    | none => exact (retains_pure _).completes
    | some name =>
      exact completes_reportIf (takes_default?.then fun _ => (quiet_spanFrom _).then fun _ => completes_return (by rfl))

/-- Parameters are taken with their commas. -/
theorem takes_paramList : paramList.Takes (Grammar.given (Grammar.commas Grammar.param)) := by
  refine (takes_commas Prod.fst (fun s : List Param × Bool => s.2 = true) (f := Grammar.param) (fun s => ?_)
    rfl rfl).bind fun s => ?_
  · obtain ⟨list, complete⟩ := s
    refine (takes_param list).bind fun o => ?_
    cases o with
    | none => exact (retains_pure _).completes' rfl
    | some p => exact completes_comma (by rfl) (by rfl) fun _ => rfl
  · obtain ⟨list, complete⟩ := s
    cases complete
    · exact completes_pure fun ts ht => nomatch ht.1
    · exact completes_pure fun ts ht => ht.2.2

/-- Parameters are taken with the mark that closes them. -/
theorem takes_params (close : Punct) :
    (params close).Takes (Grammar.given fun list => Grammar.commas Grammar.param list * Grammar.mark close) := by
  refine (takes_accept _).bind fun b => ?_
  cases b
  · refine takes_paramList.bind fun o => ?_
    cases o with
    | none => exact (retains_pure _).completes' rfl
    | some list =>
      refine (takes_expect _).then fun b => ?_
      cases b
      · exact (retains_pure _).completes
      · exact completes_return (by rfl)
  · exact completes_return (one_mul _).symm

/-- The kind of an accessor is its word. -/
theorem takes_accessorKind : accessorKind.Takes (Grammar.given Grammar.accessorKind) := by
  refine (takes_accept _).bind fun b => ?_
  cases b
  · refine (takes_accept _).bind fun b => ?_
    cases b
    · exact quiet_found?.then fun _ => (takes_reportHere _).then fun _ => (retains_pure _).completes
    · exact completes_return (by rfl)
  · exact completes_return (by rfl)

/-- An accessor is taken. -/
theorem takes_accessor (earlier : List Accessor) : (accessor earlier).Takes (Grammar.given Grammar.accessor) := by
  refine quiet_cursor.then fun start => takes_accessorKind.bind fun o => ?_
  cases o with
  | none => exact (retains_pure _).completes' rfl
  | some kind =>
    refine completes_locatedReportIf (quiet_spanFrom _) ((takes_accept _).then fun b => ?_)
    cases b
    · refine takes_body.then fun o => ?_
      cases o with
      | none => exact (retains_pure _).completes
      | some b =>
        exact (quiet_spanFrom _).then fun _ => completes_return (by simp [Grammar.given, Grammar.accessor])
    · exact (quiet_spanFrom _).then fun _ => completes_return (by rfl)

/-- Accessors are taken with their braces. -/
theorem takes_accessors : accessors.Takes (Grammar.given fun list =>
    Grammar.mark .openBrace * Grammar.row Grammar.accessor list * Grammar.mark .closeBrace) := by
  refine (takes_expect _).bind fun b => ?_
  cases b
  · exact (retains_pure _).completes' rfl
  let L : List Accessor × Bool → (List Accessor × Bool) × Bool → Language Token := fun s v =>
    cond v.2 {ts | ∃ a, v.1.1 = s.1 ++ [a] ∧ ts ∈ Grammar.accessor a}
      {ts | v.1 = (s.1, true) ∧ ts ∈ Grammar.mark .closeBrace}
  let J : List Accessor × Bool → Language Token := fun s =>
    {ts | s.2 = true ∧ ts ∈ Grammar.row Grammar.accessor s.1 * Grammar.mark .closeBrace}
  refine Takes.then (f := J) ?_ fun s => ?_
  · refine (completes_iterate (I := fun s => Grammar.row Grammar.accessor s.1) (L := L) (fun s => ?_) ?_ ?_ ?_ _).behind
      fun ts ht => ht
    · obtain ⟨list, complete⟩ := s
      refine (takes_accept _).bind fun b => ?_
      cases b
      · refine (takes_accessor list).bind fun o => ?_
        cases o with
        | none => exact (retains_pure _).completes' rfl
        | some a => exact completes_pure fun ts ht => ⟨a, rfl, ht⟩
      · exact completes_pure fun ts ht => ⟨rfl, ht⟩
    · rintro s s' ⟨a, -, hn⟩
      exact Grammar.nil_notMem_accessor a hn
    · rintro s s' _ ⟨us, hu, vs, ⟨a, he, hv⟩, rfl⟩
      have he : s'.1 = s.1 ++ [a] := he
      rw [he, Grammar.row_append, Grammar.row_singleton]
      exact Language.append_mem_mul hu hv
    · rintro s _ _ ⟨us, hu, vs, ⟨rfl, hv⟩, rfl⟩
      exact ⟨rfl, Language.append_mem_mul hu hv⟩
  · obtain ⟨list, complete⟩ := s
    refine completes_pure ?_
    cases complete
    · rintro _ ⟨us, hu, vs, ⟨hc, -⟩, rfl⟩
      cases hc
    · rintro _ ⟨us, hu, vs, ⟨-, hv⟩, rfl⟩
      rw [if_pos rfl, Grammar.given, mul_assoc]
      exact Language.append_mem_mul hu hv

/-- What is in front of the name of a member. -/
abbrev headTokens (h : MemberHead) : Language Token :=
  Grammar.head h.attributes h.modifiers h.type

/-- The rest of a field completes its head and its name. -/
theorem completes_fieldRest (h : MemberHead) (name : Token) :
    (fieldRest h name).Completes (headTokens h * Grammar.name name.lexeme name.span)
      (Grammar.given fun f => Grammar.member (.field f)) := by
  have finish (init : Option Expr) : Completes (headTokens h * Grammar.name name.lexeme name.span * Grammar.initial init) (do
      if !(← expect .semicolon) then return none
      return some ({ attributes := h.attributes, modifiers := h.modifiers, type := h.type, name := name.lexeme,
                     nameSpan := name.span, init, origin := .declared, span := ← spanFrom h.start } : FieldDecl))
      (Grammar.given fun f => Grammar.member (.field f)) := by
    refine (takes_expect _).then fun b => ?_
    cases b
    · exact (retains_pure _).completes
    · exact (quiet_spanFrom _).then fun _ => completes_return (by rfl)
  refine (takes_accept _).then fun b => ?_
  cases b
  · exact finish none
  · refine takes_expr.then fun o => ?_
    cases o with
    | none => exact (retains_pure _).completes
    | some e =>
      refine (finish (some e)).behind fun ts ht => ?_
      rw [mul_assoc _ _ (Grammar.given Grammar.expr (some e))] at ht
      exact ht

/-- The initial value of a property is taken with its semicolon. -/
theorem takes_propertyInit : propertyInit.Takes (Grammar.given Grammar.propertyInit) := by
  refine (takes_accept _).bind fun b => ?_
  cases b
  · exact completes_return (by rfl)
  · exact Completes.map takes_exprAndEnd.given

/-- The rest of a property completes its head and its name. -/
theorem completes_propertyRest (h : MemberHead) (name : Token) :
    (propertyRest h name).Completes (headTokens h * Grammar.name name.lexeme name.span)
      (Grammar.given fun p => Grammar.member (.property p)) := by
  have finish (body : PropertyBody) (init : Option Expr) : Completes (headTokens h * Grammar.name name.lexeme name.span *
        Grammar.propertyBody body * Grammar.propertyInit init)
      (do
        return some ({ attributes := h.attributes, modifiers := h.modifiers, type := h.type, name := name.lexeme,
                       nameSpan := name.span, body, init, span := ← spanFrom h.start } : PropertyDecl))
      (Grammar.given fun p => Grammar.member (.property p)) :=
    (quiet_spanFrom _).then fun _ => completes_return (by rfl)
  refine (takes_accept _).then fun b => ?_
  cases b
  · refine takes_accessors.then fun o => ?_
    cases o with
    | none => exact (retains_pure _).completes
    | some list =>
      refine takes_propertyInit.then fun o => ?_
      cases o with
      | none => exact (retains_pure _).completes
      | some init =>
        refine (finish (.accessors list) init).behind fun ts ht => ?_
        rw [cond_false, mul_one] at ht
        exact ht
  · refine takes_exprAndEnd.then fun o => ?_
    cases o with
    | none => exact (retains_pure _).completes
    | some e =>
      refine (finish (.expr e) none).behind fun ts ht => ?_
      rw [Grammar.propertyInit, Grammar.optional, mul_one, Grammar.propertyBody, Grammar.arrow, ← mul_assoc]
      exact ht

/-- The rest of a method completes its head, its name and the parenthesis. -/
theorem completes_methodRest (h : MemberHead) (name : Token) :
    (methodRest h name).Completes (headTokens h * Grammar.name name.lexeme name.span * Grammar.mark .openParen)
      (Grammar.given fun d => Grammar.member (.method d)) := by
  refine (takes_params _).then fun o => ?_
  cases o with
  | none => exact (retains_pure _).completes
  | some params =>
    refine takes_body.then fun o => ?_
    cases o with
    | none => exact (retains_pure _).completes
    | some b =>
      refine (quiet_spanFrom _).then fun _ => completes_return ?_
      simp only [Grammar.given, Grammar.member, mul_assoc]

/-- What is behind the name of a member completes its head and its name. -/
theorem completes_namedRest (h : MemberHead) (name : Token) :
    (namedRest h name).Completes (headTokens h * Grammar.name name.lexeme name.span) (Grammar.given Grammar.member) := by
  refine (takes_accept _).then fun b => ?_
  cases b
  · rw [cond_false, mul_one]
    refine (quiet_sees _).then fun b => (quiet_sees _).then fun b' => ?_
    split
    · exact (completes_propertyRest h name).map
    · exact (completes_fieldRest h name).map
  · exact (completes_methodRest h name).map

/-- Dropping a member takes nothing back. -/
theorem retains_dropMember {α : Type} : Retains (dropMember : Reading (Option α)) :=
  (retains_skipBy _).then fun _ => retains_pure _

/-- The rest of an indexer completes its head and the word. -/
theorem completes_indexerRest (h : MemberHead) :
    (indexerRest h).Completes (headTokens h * Grammar.word .thisKw) (Grammar.given fun i => Grammar.member (.indexer i)) := by
  have finish (params : List Param) (body : PropertyBody) : Completes (headTokens h * Grammar.word .thisKw *
        Grammar.mark .openBracket * Grammar.commas Grammar.param params * Grammar.mark .closeBracket * Grammar.propertyBody body)
      (do
        return some ({ attributes := h.attributes, modifiers := h.modifiers, type := h.type, params, body,
                       span := ← spanFrom h.start } : IndexerDecl))
      (Grammar.given fun i => Grammar.member (.indexer i)) :=
    (quiet_spanFrom _).then fun _ => completes_return (by rfl)
  refine (takes_expect _).then fun b => ?_
  cases b
  · exact retains_dropMember.completes
  refine (takes_params _).then fun o => ?_
  cases o with
  | none => exact retains_dropMember.completes
  | some params =>
    rw [Grammar.given, ← mul_assoc]
    refine completes_locatedReportIf quiet_cursor ((takes_accept _).then fun b => ?_)
    cases b
    · rw [cond_false, mul_one]
      refine takes_accessors.then fun o => ?_
      cases o with
      | none => exact retains_dropMember.completes
      | some list => exact finish params (.accessors list)
    · refine takes_expr.then fun o => (takes_expect _).then fun b => ?_
      cases b
      · exact retains_dropMember.completes
      cases o with
      | none => exact (retains_pure _).completes' (by simp [Grammar.given])
      | some e =>
        refine (finish params (.expr e)).behind fun ts ht => ?_
        rw [Grammar.propertyBody, Grammar.arrow, Grammar.exprAndEnd, ← mul_assoc, ← mul_assoc]
        exact ht

/-- A member is taken. -/
theorem takes_member : member.Takes (Grammar.given Grammar.member) := by
  refine quiet_cursor.then fun start => takes_attributes.bind fun attributes => takes_modifiers.then fun modifiers =>
    (takes_expectType _).then fun o => ?_
  cases o with
  | none => exact retains_dropMember.completes
  | some type =>
    refine (takes_accept _).then fun b => ?_
    cases b
    · rw [cond_false, mul_one]
      refine (takes_expectName _).then fun o => ?_
      cases o with
      | none => exact retains_dropMember.completes
      | some name =>
        refine Completes.bind (completes_namedRest ⟨start, attributes, modifiers, type⟩ name) fun o => ?_
        cases o with
        | none => exact retains_dropMember.completes' rfl
        | some m => exact completes_return (by rfl)
    · exact (completes_indexerRest ⟨start, attributes, modifiers, type⟩).map

/-! ## Types and units -/

/-- The members of a type are taken with their braces. -/
theorem takes_members : members.Takes fun list =>
    Grammar.mark .openBrace * Grammar.row Grammar.member list * Grammar.mark .closeBrace := by
  refine (takes_expect _).bind fun b => ?_
  cases b
  · exact ((retains_skipBy _).then fun _ => retains_pure _).completes' rfl
  · refine (takes_many takes_member Grammar.nil_notMem_member).then fun list => (takes_expect _).then fun b => ?_
    exact completes_pure fun ts ht => Grammar.mem_mul_of_cond ht

/-- The kind of a type is its word. -/
theorem takes_typeKind : typeKind.Takes (Grammar.given Grammar.typeKind) := by
  refine (takes_accept _).bind fun b => ?_
  cases b
  · refine (takes_accept _).bind fun b => ?_
    cases b
    · exact quiet_found?.then fun _ => (takes_reportHere _).then fun _ => (retains_pure _).completes
    · exact completes_return (by rfl)
  · exact completes_return (by rfl)

/-- A type declaration is taken. -/
theorem takes_typeDecl : typeDecl.Takes (Grammar.given Grammar.typeDecl) := by
  have drop : Retains (dropType none : Reading (Option TypeDecl)) := (retains_skipBy _).then fun _ => retains_pure _
  refine quiet_cursor.then fun start => takes_modifiers.bind fun modifiers => takes_typeKind.then fun o => ?_
  cases o with
  | none => exact drop.completes
  | some kind =>
    refine (takes_expectName _).then fun o => ?_
    cases o with
    | none => exact drop.completes
    | some name =>
      refine takes_generics.then fun generics => takes_primary?.then fun primary => takes_base?.then fun base =>
        (takes_whereClauses generics).then fun generics' => takes_members.then fun members =>
          (quiet_spanFrom _).then fun span => completes_pure ?_
      rintro _ ⟨_, ⟨_, ⟨_, ⟨_, ⟨us, hu, gs, ⟨hp, hg⟩, rfl⟩, ps, hps, rfl⟩, bs, hbs, rfl⟩, cs, hc, rfl⟩, ms, hms, rfl⟩
      -- the clauses change what is asked of the parameters, and not how the parameters are written
      obtain ⟨hb, hcs⟩ := hc hp
      rw [← generics_of_bare hb] at hg
      have front := Language.append_mem_mul (Language.append_mem_mul (Language.append_mem_mul hu hg) hps) hbs
      exact Language.append_mem_mul (Language.append_mem_mul front hcs) hms

/-- A unit is taken: its declarations, one behind the other. -/
theorem takes_unit : unit.Takes Grammar.unit :=
  (takes_many takes_typeDecl Grammar.nil_notMem_typeDecl).bind fun _ => completes_return (by rfl)

/-- Type declarations are read until no token is ahead. -/
theorem ahead_unit (r : Reader) : (unit.run r).2.cursor.ahead = [] :=
  ahead_many typeDecl r

end Reading

/-- There are errors in the sink when their number is not zero. -/
theorem hasErrors_iff (r : Reader) : hasErrors r.sink.found = true ↔ 0 < r.errors := by
  rw [hasErrors, List.any_eq_true, Reader.errors, List.countP_pos_iff]

namespace SourceUnit

/-- The reading of a source text: the declarations, and the state of the reader behind them. -/
def reading [Text.Hash] (source : String) (file : Option Nat) : SourceUnit × Reader :=
  Reading.unit.run (reader (lex source file))

/-- The parser drops nothing in silence. When recovery passes over a token, the reading finds an error besides those of the
tokens, and there is no unit. When there is a unit, nothing was passed over, and the significant tokens, each passed once and in
order, are those that the grammar has for the declarations of the unit. -/
theorem nothing_dropped [Text.Hash] (source : String) (file : Option Nat) :
    ((reading source file).2.skipped ≠ [] →
      (reader (lex source file)).errors < (reading source file).2.errors ∧
        ∃ failure, parse source file = .error failure ∧ hasErrors failure.diagnostics = true) ∧
    ∀ unit, parse source file = .ok unit →
      unit = (reading source file).1 ∧ (reading source file).2.skipped = [] ∧
        (reading source file).2.cursor = ⟨(lex source file).significant.reverse, []⟩ ∧
        (lex source file).significant ∈ Grammar.unit unit := by
  obtain ⟨grown, reached⟩ := Reading.takes_unit.leads (reader (lex source file))
  constructor
  · intro hne
    have he : (reader (lex source file)).errors < (reading source file).2.errors :=
      lt_of_le_of_ne grown.errors fun he => hne (reached he.symm).1
    have hf := (hasErrors_iff _).2 (Nat.zero_lt_of_lt he)
    exact ⟨he, ⟨(reading source file).2.sink.found⟩, if_pos hf, hf⟩
  · intro unit h
    unfold parse at h
    dsimp only at h
    split at h
    · cases h
    · rename_i hf
      cases h
      have none : (reading source file).2.errors = 0 := by
        rw [hasErrors_iff] at hf
        exact Nat.eq_zero_of_not_pos hf
      obtain ⟨hs, ts, ht, hahead, hpassed⟩ := reached (Nat.le_antisymm (none ▸ Nat.zero_le _) grown.errors)
      have hend : (reading source file).2.cursor.ahead = [] := Reading.ahead_unit _
      have hts : (lex source file).significant = ts ++ (reading source file).2.cursor.ahead := hahead
      rw [hend, List.append_nil] at hts
      have hpassed : (reading source file).2.cursor.passed = ts.reverse ++ [] := hpassed
      rw [List.append_nil, ← hts] at hpassed
      exact ⟨rfl, hs, by rw [← hpassed, ← hend], hts ▸ ht⟩

end SourceUnit

/-- A field without a name costs the unit. With one, the unit is made of all the tokens. -/
theorem nothing_dropped_around_field :
    ((SourceUnit.reading "class A { int ; }" none).2.skipped.map (·.lexeme) = [";"] ∧
      ∃ failure, SourceUnit.parse "class A { int ; }" none = .error failure ∧ hasErrors failure.diagnostics = true) ∧
    ∃ unit, SourceUnit.parse "class A { int x; }" none = .ok unit ∧
      (SourceUnit.reading "class A { int x; }" none).2.skipped = [] ∧
      (lex "class A { int x; }" none).significant.length = 7 ∧
      (lex "class A { int x; }" none).significant ∈ Grammar.unit unit := by
  have skipped : (SourceUnit.reading "class A { int ; }" none).2.skipped.map (·.lexeme) = [";"] := by decide +kernel
  have length : (lex "class A { int x; }" none).significant.length = 7 := by decide +kernel
  have parsed : (SourceUnit.parse "class A { int x; }" none).toBool = true := by decide +kernel
  refine ⟨⟨skipped, ((SourceUnit.nothing_dropped _ _).1 fun he => ?_).2⟩, ?_⟩
  · rw [he] at skipped
    cases skipped
  · cases h : SourceUnit.parse "class A { int x; }" none with
    | error failure =>
      rw [h] at parsed
      cases parsed
    | ok unit =>
      obtain ⟨-, hs, -, ht⟩ := (SourceUnit.nothing_dropped _ _).2 unit h
      exact ⟨unit, rfl, hs, length, ht⟩

end NavCheck
