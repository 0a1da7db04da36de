import NavCheck.Proofs.Laying

/-!
# Where units lie

Headers, members and types lay their pieces on the tokens, and so does a whole unit: what was read of a text lies on its
significant tokens.
-/

namespace NavCheck

namespace Reading

variable {α : Type}

/-! ## Headers -/

/-- A loop that begins without pieces. -/
theorem lays_loop {σ : Type} {round : σ → Reading (σ × Bool)} (f : σ → List Piece)
    (h : ∀ s, LaysBehind (f s) (round s) fun v => f v.1) {s : σ} (hs : f s = []) : (iterate round s).Lays f :=
  LaysBehind.lays (hs ▸ lays_iterate h s)

/-- A loop of silent rounds is silent. -/
theorem silent_iterate {σ : Type} {round : σ → Reading (σ × Bool)} (h : ∀ s, Silent (round s)) (s : σ) :
    Silent (iterate round s) :=
  lays_loop _ (fun s => (h s).last fun _ => List.nil_sublist _) rfl

/-- A modifier is no piece. -/
theorem silent_modifier? : Silent modifier? := by
  have hp : Silent (pass (·.next?)) := Lays.silent (f := fun o => o.toList.flatMap fun _ => []) <|
    lays_pass fun c p h => ⟨_, Cursor.passes_next? h, .nothing _⟩
  refine LaysBehind.lays (silent_cursor.then fun c => ?_)
  cases modifierAhead c.ahead
  · exact laysBehind_pure (List.nil_sublist _)
  · exact hp.then fun _ => laysBehind_pure (List.nil_sublist _)

/-- Modifiers are no pieces. -/
theorem silent_modifiers : Silent modifiers := by
  refine silent_iterate (fun list => LaysBehind.lays (silent_modifier?.then fun o => ?_)) []
  cases o <;> exact laysBehind_pure (List.nil_sublist _)

/-- The target of attributes is no piece. -/
theorem silent_attributeTarget? : Silent attributeTarget? := by
  refine LaysBehind.lays (silent_cursor.then fun c => ?_)
  split
  · exact (silent_accept _).then fun _ => (silent_accept _).then fun _ => laysBehind_pure (List.nil_sublist _)
  · exact laysBehind_pure (List.nil_sublist _)

/-- The names of attributes are no pieces. -/
theorem silent_attributeNames (target : Option String) : Silent (attributeNames target) := by
  refine silent_iterate (fun list => LaysBehind.lays ((lays_expectName _).silent.then fun o => ?_)) []
  cases o
  · exact laysBehind_pure (List.nil_sublist _)
  · exact (silent_accept _).then fun _ => laysBehind_pure (List.nil_sublist _)

/-- Attribute brackets hold no pieces. -/
theorem silent_attributeList : Silent attributeList := by
  refine LaysBehind.lays (silent_attributeTarget?.then fun target => (silent_attributeNames target).then fun names =>
    (silent_expect _).then fun b => ?_)
  cases b
  · exact (silent_skipBy _).then fun _ => (silent_accept _).then fun _ => laysBehind_pure (List.nil_sublist _)
  · exact laysBehind_pure (List.nil_sublist _)

/-- Attributes hold no pieces. -/
theorem silent_attributes : Silent attributes := by
  refine silent_iterate (fun list => LaysBehind.lays ((silent_accept _).then fun b => ?_)) []
  cases b
  · exact laysBehind_pure (List.nil_sublist _)
  · exact silent_attributeList.then fun _ => laysBehind_pure (List.nil_sublist _)

/-- Generic parameters are no pieces. -/
theorem silent_generics : Silent generics := by
  refine LaysBehind.lays ((silent_accept _).then fun b => ?_)
  cases b
  · exact laysBehind_pure (List.nil_sublist _)
  · refine (silent_iterate (fun list => LaysBehind.lays ((lays_expectName _).silent.then fun o => ?_)) _).then
      fun list => (silent_accept _).then fun b => ?_
    · cases o
      · exact laysBehind_pure (List.nil_sublist _)
      · rename_i name
        dsimp only
        split
        · exact (silent_report _ _).then fun _ => (silent_accept _).then fun _ => laysBehind_pure (List.nil_sublist _)
        · exact (silent_accept _).then fun _ => laysBehind_pure (List.nil_sublist _)
    · cases b
      · exact (silent_reportHere _).then fun _ => laysBehind_pure (List.nil_sublist _)
      · exact laysBehind_pure (List.nil_sublist _)

/-- A default value lies on its tokens. -/
theorem lays_default? : default?.Lays optionPieces := by
  refine LaysBehind.lays ((silent_accept _).then fun b => ?_)
  cases b
  · exact laysBehind_pure (List.Sublist.refl _)
  · exact lays_expr.last fun _ => List.Sublist.refl _

/-- A parameter of a primary constructor lies on its name and its default value. -/
theorem lays_primaryParam : primaryParam.Lays (ofOption PrimaryParam.pieces) := by
  refine LaysBehind.lays (silent_cursor.then fun start => silent_attributes.then fun attributes =>
    silent_modifiers.then fun modifiers => (silent_expectType _).then fun o => ?_)
  cases o with
  | none => exact laysBehind_pure (List.Sublist.refl _)
  | some type =>
    refine (lays_expectName _).bind fun o => ?_
    cases o with
    | none => exact laysBehind_pure (List.Sublist.refl _)
    | some name =>
      exact lays_default?.bind fun _ => silent_cursor.then fun _ =>
        laysBehind_pure (by simp [ofOption, PrimaryParam.pieces])

/-- The parameters of a primary constructor lie on their tokens in a row. -/
theorem lays_primary? : primary?.Lays fun o => (o.getD []).flatMap PrimaryParam.pieces := by
  refine LaysBehind.lays ((silent_accept _).then fun b => ?_)
  cases b
  · exact laysBehind_pure (List.Sublist.refl _)
  refine (silent_accept _).then fun b => ?_
  cases b
  · refine Lays.bind (lays_loop (·.flatMap PrimaryParam.pieces) (fun list => ?_) rfl) fun list =>
      (silent_expect _).then fun _ => laysBehind_pure (List.Sublist.refl _)
    have finish : ∀ list : List PrimaryParam, LaysBehind (list.flatMap PrimaryParam.pieces)
        (do return (list, ← accept (.punct .comma))) fun v => v.1.flatMap PrimaryParam.pieces := fun list =>
      (silent_accept _).then fun _ => laysBehind_pure (List.Sublist.refl _)
    refine lays_primaryParam.bind fun o => ?_
    cases o with
    | none =>
      simp only [ofOption, Option.toList_none, List.flatMap_nil, List.append_nil]
      exact (silent_skipBy _).then fun _ => finish list
    | some param =>
      have hadd : list.flatMap PrimaryParam.pieces ++ ofOption PrimaryParam.pieces (some param) =
          (list ++ [param]).flatMap PrimaryParam.pieces := by
        simp [ofOption]
      rw [hadd]
      dsimp only
      split
      · exact (silent_report _ _).then fun _ => finish (list ++ [param])
      · exact finish (list ++ [param])
  · exact laysBehind_pure (List.Sublist.refl _)

/-- Arguments lie on their tokens in a row. -/
theorem lays_arguments : arguments.Lays fun list => list.map .expr := by
  refine LaysBehind.lays ((silent_accept _).then fun b => ?_)
  cases b
  · refine Lays.bind (lays_loop (·.map Piece.expr) (fun list => ?_) rfl) fun list =>
      (silent_expect _).then fun _ => laysBehind_pure (List.Sublist.refl _)
    refine lays_expr.bind fun o => (silent_accept _).then fun _ => laysBehind_pure ?_
    cases o <;> simp [optionPieces]
  · exact laysBehind_pure (List.Sublist.refl _)

/-- The arguments of a base lie on their tokens. -/
theorem lays_baseSpec : baseSpec.Lays (ofOption fun b => (b.args.getD []).map .expr) := by
  refine LaysBehind.lays (silent_cursor.then fun start => (silent_expectType _).then fun o => ?_)
  cases o with
  | none => exact laysBehind_pure (List.Sublist.refl _)
  | some type =>
    have hargs : (some <$> arguments).Lays fun args => (args.getD []).map Piece.expr :=
      LaysBehind.lays (lays_arguments.bind fun _ => laysBehind_pure (List.Sublist.refl _))
    have finish : ∀ args : Option (List Expr), LaysBehind ((args.getD []).map Piece.expr) (do
        return some ({ type, args, span := start.spanTo (← cursor) } : BaseSpec))
        (ofOption fun b => (b.args.getD []).map .expr) := fun args =>
      silent_cursor.then fun _ => laysBehind_pure (by simp [ofOption])
    refine (silent_accept _).then fun b => ?_
    cases b
    · exact finish none
    · exact hargs.bind finish

/-- So they do behind the colon. -/
theorem lays_base? : base?.Lays (ofOption fun b => (b.args.getD []).map .expr) := by
  refine LaysBehind.lays ((silent_accept _).then fun b => ?_)
  cases b
  · exact laysBehind_pure (List.Sublist.refl _)
  · exact lays_baseSpec.last fun _ => List.Sublist.refl _

/-- A constraint holds no pieces. -/
theorem silent_constraint : Silent constraint := by
  refine LaysBehind.lays ((silent_accept _).then fun b => ?_)
  cases b
  · refine (silent_accept _).then fun b => ?_
    cases b
    · exact (silent_expectType _).then fun _ => laysBehind_pure (List.nil_sublist _)
    · exact laysBehind_pure (List.nil_sublist _)
  · exact laysBehind_pure (List.nil_sublist _)

/-- A `where` clause holds no pieces. -/
theorem silent_whereClause (generics : List GenericParam) : Silent (whereClause generics) := by
  refine LaysBehind.lays ((lays_expectName _).silent.then fun o => ?_)
  cases o with
  | none => exact laysBehind_pure (List.nil_sublist _)
  | some name =>
    refine (silent_expect _).then fun b => ?_
    cases b
    · exact laysBehind_pure (List.nil_sublist _)
    · refine silent_constraint.then fun constraint => ?_
      split
      · split
        · exact (silent_report _ _).then fun _ => laysBehind_pure (List.nil_sublist _)
        · exact laysBehind_pure (List.nil_sublist _)
      · exact (silent_report _ _).then fun _ => laysBehind_pure (List.nil_sublist _)

/-- No `where` clause holds a piece. -/
theorem silent_whereClauses (generics : List GenericParam) : Silent (whereClauses generics) := by
  refine silent_iterate (fun generics => LaysBehind.lays ((silent_accept _).then fun b => ?_)) generics
  cases b
  · exact laysBehind_pure (List.nil_sublist _)
  · exact (silent_whereClause generics).then fun _ => laysBehind_pure (List.nil_sublist _)

/-! ## Members -/

/-- A span is no piece. -/
theorem silent_spanFrom (start : Cursor) : Silent (spanFrom start) :=
  LaysBehind.lays (silent_cursor.then fun _ => laysBehind_pure (List.nil_sublist _))

/-- A parameter lies on its default value. -/
theorem lays_param (earlier : List Param) : (param earlier).Lays (ofOption fun p => optionPieces p.default) := by
  refine LaysBehind.lays (silent_cursor.then fun start => (silent_expectType _).then fun o => ?_)
  cases o with
  | none => exact laysBehind_pure (List.Sublist.refl _)
  | some type =>
    refine (lays_expectName _).silent.then fun o => ?_
    cases o with
    | none => exact laysBehind_pure (List.Sublist.refl _)
    | some name =>
      have finish : LaysBehind [] (do
          let default ← default?
          return some ({ type, name := name.lexeme, nameSpan := name.span, default, span := ← spanFrom start } : Param))
          (ofOption fun p => optionPieces p.default) :=
        lays_default?.bind fun _ => (silent_spanFrom _).then fun _ => laysBehind_pure (by simp [ofOption])
      dsimp only
      split
      · exact (silent_report _ _).then fun _ => finish
      · exact finish

/-- Parameters in a row lie on their default values. -/
theorem lays_paramList : paramList.Lays fun o => paramPieces (o.getD []) := by
  refine LaysBehind.lays (Lays.bind (lays_loop (fun s => paramPieces s.1) (fun s => ?_) rfl) fun s => ?_)
  · obtain ⟨list, complete⟩ := s
    refine (lays_param list).bind fun o => ?_
    cases o with
    | none => exact laysBehind_pure (by simp)
    | some p => exact (silent_accept _).then fun _ => laysBehind_pure (by simp [ofOption, paramPieces])
  · obtain ⟨list, complete⟩ := s
    cases complete
    · exact laysBehind_pure (List.nil_sublist _)
    · exact laysBehind_pure (List.Sublist.refl _)

/-- The mark that closes them is no piece. -/
theorem lays_params (close : Punct) : (params close).Lays fun o => paramPieces (o.getD []) := by
  refine LaysBehind.lays ((silent_accept _).then fun b => ?_)
  cases b
  · refine lays_paramList.bind fun o => ?_
    cases o with
    | none => exact laysBehind_pure (List.Sublist.refl _)
    | some list =>
      refine (silent_expect _).then fun b => ?_
      cases b
      · exact laysBehind_pure (List.nil_sublist _)
      · exact laysBehind_pure (List.Sublist.refl _)
  · exact laysBehind_pure (List.Sublist.refl _)

/-- The kind of an accessor is no piece. -/
theorem silent_accessorKind : Silent accessorKind := by
  refine LaysBehind.lays ((silent_accept _).then fun b => ?_)
  cases b
  · refine (silent_accept _).then fun b => ?_
    cases b
    · exact silent_found?.then fun _ => (silent_reportHere _).then fun _ => laysBehind_pure (List.nil_sublist _)
    · exact laysBehind_pure (List.nil_sublist _)
  · exact laysBehind_pure (List.nil_sublist _)

/-- An accessor lies on its body. -/
theorem lays_accessor (earlier : List Accessor) : (accessor earlier).Lays (ofOption Accessor.pieces) := by
  refine LaysBehind.lays (silent_cursor.then fun start => silent_accessorKind.then fun o => ?_)
  cases o with
  | none => exact laysBehind_pure (List.Sublist.refl _)
  | some kind =>
    dsimp only
    split
    case' isTrue => refine (silent_spanFrom _).then fun _ => (silent_report _ _).then fun _ => ?_
    -- behind the report of a second accessor of its kind the accessor goes on like any other
    all_goals
      refine (silent_accept _).then fun b => ?_
      cases b
      · refine lays_body.bind fun o => ?_
        cases o with
        | none => exact laysBehind_pure (List.Sublist.refl _)
        | some b => exact (silent_spanFrom _).then fun _ => laysBehind_pure (List.Sublist.refl _)
      · exact (silent_spanFrom _).then fun _ => laysBehind_pure (List.Sublist.refl _)

/-- Accessors lie on their bodies, one behind the other. -/
theorem lays_accessors : accessors.Lays fun o => (o.getD []).flatMap Accessor.pieces := by
  refine LaysBehind.lays ((silent_expect _).then fun b => ?_)
  cases b
  · exact laysBehind_pure (List.Sublist.refl _)
  refine Lays.bind (lays_loop (fun s => s.1.flatMap Accessor.pieces) (fun s => ?_) rfl) fun s => ?_
  · obtain ⟨list, complete⟩ := s
    refine (silent_accept _).then fun b => ?_
    cases b
    · refine (lays_accessor list).bind fun o => ?_
      cases o with
      | none => exact laysBehind_pure (by simp)
      | some a => exact laysBehind_pure (by simp [ofOption])
    · exact laysBehind_pure (List.Sublist.refl _)
  · obtain ⟨list, complete⟩ := s
    cases complete
    · exact laysBehind_pure (List.nil_sublist _)
    · exact laysBehind_pure (List.Sublist.refl _)

/-- A field lies on its initial value. -/
theorem lays_fieldRest (head : MemberHead) (name : Token) :
    (fieldRest head name).Lays (ofOption fun f => optionPieces f.init) := by
  have finish : ∀ init : Option Expr, LaysBehind (optionPieces init) (do
      if !(← expect .semicolon) then return none
      return some ({ attributes := head.attributes, modifiers := head.modifiers, type := head.type, name := name.lexeme,
                     nameSpan := name.span, init, origin := .declared, span := ← spanFrom head.start } : FieldDecl))
      (ofOption fun f => optionPieces f.init) := by
    intro init
    refine (silent_expect _).then fun b => ?_
    cases b
    · exact laysBehind_pure (List.nil_sublist _)
    · exact (silent_spanFrom _).then fun _ => laysBehind_pure (by simp [ofOption])
  refine LaysBehind.lays ((silent_accept _).then fun b => ?_)
  cases b
  · exact finish none
  · refine lays_expr.bind fun o => ?_
    cases o with
    | none => exact laysBehind_pure (List.Sublist.refl _)
    | some e => exact finish (some e)

/-- The initial value of a property lies on its tokens. -/
theorem lays_propertyInit : propertyInit.Lays fun o => optionPieces (o.getD none) := by
  refine LaysBehind.lays ((silent_accept _).then fun b => ?_)
  cases b
  · exact laysBehind_pure (List.Sublist.refl _)
  · refine lays_exprAndEnd.bind fun o => laysBehind_pure ?_
    cases o <;> exact List.Sublist.refl _

/-- A property lies on its body and then its initial value. -/
theorem lays_propertyRest (head : MemberHead) (name : Token) :
    (propertyRest head name).Lays (ofOption fun p => p.body.pieces ++ optionPieces p.init) := by
  have finish : ∀ (body : PropertyBody) (init : Option Expr), LaysBehind (body.pieces ++ optionPieces init) (do
      return some ({ attributes := head.attributes, modifiers := head.modifiers, type := head.type, name := name.lexeme,
                     nameSpan := name.span, body, init, span := ← spanFrom head.start } : PropertyDecl))
      (ofOption fun p => p.body.pieces ++ optionPieces p.init) := fun body init =>
    (silent_spanFrom _).then fun _ => laysBehind_pure (by simp [ofOption])
  refine LaysBehind.lays ((silent_accept _).then fun b => ?_)
  cases b
  · refine lays_accessors.bind fun o => ?_
    cases o with
    | none => exact laysBehind_pure (List.Sublist.refl _)
    | some list =>
      refine lays_propertyInit.bind fun o => ?_
      cases o with
      | none => exact laysBehind_pure (List.nil_sublist _)
      | some init => exact finish (.accessors list) init
  · refine lays_exprAndEnd.bind fun o => ?_
    cases o with
    | none => exact laysBehind_pure (List.Sublist.refl _)
    | some e => exact finish (.expr e) none

/-- A method lies on its parameters and then its body. -/
theorem lays_methodRest (head : MemberHead) (name : Token) :
    (methodRest head name).Lays (ofOption fun d => paramPieces d.params ++ d.body.pieces) := by
  refine LaysBehind.lays ((lays_params _).bind fun o => ?_)
  cases o with
  | none => exact laysBehind_pure (List.Sublist.refl _)
  | some params =>
    refine lays_body.bind fun o => ?_
    cases o with
    | none => exact laysBehind_pure (List.nil_sublist _)
    | some b => exact (silent_spanFrom _).then fun _ => laysBehind_pure (by simp [ofOption])

/-- A member with a name lies on its pieces, whichever kind it is. -/
theorem lays_namedRest (head : MemberHead) (name : Token) : (namedRest head name).Lays (ofOption Member.pieces) := by
  have rest : LaysBehind [] (do
      if (← sees (.sign .arrow)) || (← sees (.punct .openBrace)) then
        return (← propertyRest head name).map Member.property
      return (← fieldRest head name).map Member.field) (ofOption Member.pieces) := by
    refine (silent_sees _).then fun b => (silent_sees _).then fun b' => ?_
    split
    · refine (lays_propertyRest _ _).bind fun o => laysBehind_pure ?_
      cases o <;> exact List.Sublist.refl _
    · refine (lays_fieldRest _ _).bind fun o => laysBehind_pure ?_
      cases o <;> exact List.Sublist.refl _
  refine LaysBehind.lays ((silent_accept _).then fun b => ?_)
  cases b
  · exact rest
  · refine (lays_methodRest _ _).bind fun o => laysBehind_pure ?_
    cases o <;> exact List.Sublist.refl _

/-- What is dropped leaves no pieces. -/
theorem lays_dropMember (f : α → List Piece) : (dropMember : Reading (Option α)).Lays (ofOption f) :=
  LaysBehind.lays ((silent_skipBy _).then fun _ => laysBehind_pure (List.Sublist.refl _))

/-- An indexer lies on its parameters and then its body. -/
theorem lays_indexerRest (head : MemberHead) :
    (indexerRest head).Lays (ofOption fun i => paramPieces i.params ++ i.body.pieces) := by
  have drop : ∀ ps : List Piece, LaysBehind ps (dropMember : Reading (Option IndexerDecl))
      (ofOption fun i => paramPieces i.params ++ i.body.pieces) := fun ps =>
    (lays_dropMember _).last fun v => List.sublist_append_right _ _
  have finish : ∀ (params : List Param) (body : PropertyBody), LaysBehind (paramPieces params ++ body.pieces) (do
      return some ({ attributes := head.attributes, modifiers := head.modifiers, type := head.type, params, body,
                     span := ← spanFrom head.start } : IndexerDecl))
      (ofOption fun i => paramPieces i.params ++ i.body.pieces) := fun params body =>
    (silent_spanFrom _).then fun _ => laysBehind_pure (by simp [ofOption])
  refine LaysBehind.lays ((silent_expect _).then fun b => ?_)
  cases b
  · exact drop _
  refine (lays_params _).bind fun o => ?_
  cases o with
  | none => exact drop _
  | some params =>
    dsimp only
    split
    case' isTrue => refine silent_cursor.then fun _ => (silent_report _ _).then fun _ => ?_
    -- behind the report of a missing parameter the indexer goes on like any other
    all_goals
      refine (silent_accept _).then fun b => ?_
      cases b
      · refine lays_accessors.bind fun o => ?_
        cases o with
        | none => exact drop _
        | some list => exact finish params (.accessors list)
      · refine lays_expr.bind fun o => (silent_expect _).then fun b => ?_
        cases b
        · exact drop _
        · cases o with
          | none => exact laysBehind_pure (List.nil_sublist _)
          | some e => exact finish params (.expr e)

/-- A member lies on its pieces. -/
theorem lays_member : member.Lays (ofOption Member.pieces) := by
  refine LaysBehind.lays (silent_cursor.then fun start => silent_attributes.then fun attributes =>
    silent_modifiers.then fun modifiers => (silent_expectType _).then fun o => ?_)
  have drop : LaysBehind [] (dropMember : Reading (Option Member)) (ofOption Member.pieces) :=
    (lays_dropMember _).last fun v => List.Sublist.refl _
  cases o with
  | none => exact drop
  | some type =>
    refine (silent_accept _).then fun b => ?_
    cases b
    · refine (lays_expectName _).silent.then fun o => ?_
      cases o with
      | none => exact drop
      | some name =>
        refine (lays_namedRest _ _).bind fun o => ?_
        cases o with
        | none => exact drop
        | some m => exact laysBehind_pure (List.Sublist.refl _)
    · refine (lays_indexerRest _).bind fun o => laysBehind_pure ?_
      cases o <;> exact List.Sublist.refl _

/-! ## Types and units -/

/-- Members lie on their pieces, one behind the other. -/
theorem lays_members : members.Lays fun list => list.flatMap Member.pieces := by
  refine LaysBehind.lays ((silent_expect _).then fun b => ?_)
  cases b
  · exact (silent_skipBy _).then fun _ => laysBehind_pure (List.Sublist.refl _)
  · exact (lays_many lays_member).bind fun _ => (silent_expect _).then fun _ => laysBehind_pure (List.Sublist.refl _)

/-- The kind of a type is no piece. -/
theorem silent_typeKind : Silent typeKind := by
  refine LaysBehind.lays ((silent_accept _).then fun b => ?_)
  cases b
  · refine (silent_accept _).then fun b => ?_
    cases b
    · exact silent_found?.then fun _ => (silent_reportHere _).then fun _ => laysBehind_pure (List.nil_sublist _)
    · exact laysBehind_pure (List.nil_sublist _)
  · exact laysBehind_pure (List.nil_sublist _)

/-- A type declaration lies on its pieces. -/
theorem lays_typeDecl : typeDecl.Lays (ofOption TypeDecl.pieces) := by
  have drop : LaysBehind [] (dropType none) (ofOption TypeDecl.pieces) :=
    (silent_skipBy _).then fun _ => laysBehind_pure (List.Sublist.refl _)
  refine LaysBehind.lays (silent_cursor.then fun start => silent_modifiers.then fun modifiers =>
    silent_typeKind.then fun o => ?_)
  cases o with
  | none => exact drop
  | some kind =>
    refine (lays_expectName _).bind fun o => ?_
    cases o with
    | none => exact drop
    | some name =>
      refine silent_generics.then fun generics => lays_primary?.bind fun primary => lays_base?.bind fun base =>
        (silent_whereClauses _).then fun generics => lays_members.bind fun members => (silent_spanFrom _).then fun span =>
          laysBehind_pure ?_
      cases base <;> simp [ofOption, TypeDecl.pieces, TypeDecl.params, TypeDecl.baseArgs?]

/-- A unit lies on its declarations, one behind the other. -/
theorem lays_unit : unit.Lays SourceUnit.pieces :=
  LaysBehind.lays ((lays_many lays_typeDecl).bind fun _ => laysBehind_pure (List.Sublist.refl _))

end Reading

/-- The pieces of a unit that was read lie on the significant tokens of its text. -/
theorem SourceUnit.laid_of_parse [Text.Hash] {source : String} {file : Option Nat} {unit : SourceUnit}
    (h : SourceUnit.parse source file = .ok unit) : Laid unit.pieces (lex source file).significant := by
  unfold SourceUnit.parse at h
  dsimp only at h
  split at h
  · cases h
  · cases h
    obtain ⟨us, hp, hl⟩ := Reading.lays_unit (reader (lex source file))
    have := hl.before (Reading.unit.run (reader (lex source file))).2.cursor.ahead
    rwa [← hp.1] at this

end NavCheck
