import NavCheck.Proofs.Layout.Relocation

/-!
# Captured parameters in another layout

What is decided about primary constructor parameters does not depend on the layout: relocated declarations get the relocated
decisions, uses and fields. Illegal references are listed by their place, so their order is kept where a relocation keeps the
order of places. Findings are compared without their places, which is all that is asked of them later.
-/

namespace NavCheck

@[simps]
instance Reference.placed : Placed Reference where
  move m r := { r with span := m.span r.span }
  move_move _ _ _ := rfl

@[simps]
instance ParamUse.placed : Placed ParamUse where
  move m u := { u with legal := move m u.legal, illegal := move m u.illegal }
  move_move m n u := by simp only [move_move]

@[simps move_name move_visibility move_readonly move_attributes move_span move_modifiers]
instance CapturedField.placed : Placed CapturedField where
  move m f :=
    { f with
      type := move m f.type, attributes := move m f.attributes, span := m.span f.span, modifiers := move m f.modifiers }
  move_move m n f := by simp only [move_move]; rfl

instance CaptureDecision.placed : Placed CaptureDecision where
  move m
    | .captured field => .captured (move m field)
    | .initializerOnly => .initializerOnly
  move_move m n d := by cases d <;> simp only [move_move]

@[simps]
instance ResolvedType.placed : Placed ResolvedType where
  move m r :=
    { decl := move m r.decl, decisions := move m r.decisions, uses := move m r.uses, diagnostics := move m r.diagnostics }
  move_move m n r := by simp only [move_move]

@[simps]
instance ResolvedUnit.placed : Placed ResolvedUnit where
  move m r := ⟨move m r.types⟩
  move_move m n r := by simp only [move_move]

variable (m : Relocation)

/-! ## References -/

section

variable (hidden : List String) (phase : Phase)

mutual

/-- The references of a relocated expression stand in the relocated places. -/
theorem Expr.references_move (hidden : List String) (phase : Phase) :
    ∀ e : Expr, (move m e).references hidden phase = (e.references hidden phase).map (move m)
  | .literal _ _ | .self _ => rfl
  | .name text span => by
    rw [Expr.move_name, Expr.references, Expr.references]
    split <;> rfl
  | .unary _ operand _ => operand.references_move hidden phase
  | .binary _ left right _ => by
    rw [Expr.move_binary, Expr.references, Expr.references, left.references_move, right.references_move, List.map_append]
  | .conditional condition thenBranch elseBranch _ => by
    rw [Expr.move_conditional, Expr.references, Expr.references, condition.references_move, thenBranch.references_move,
      elseBranch.references_move, List.map_append, List.map_append]
  | .assign target value _ => by
    rw [Expr.move_assign, Expr.references, Expr.references, target.references_move, value.references_move, List.map_append]
  | .lambda params body _ => by
    have hp : (params.map (move m)).map (·.name) = params.map (·.name) := by simp
    rw [Expr.move_lambda, Expr.references, Expr.references, hp, body.references_move]
  | .paren inner _ => inner.references_move hidden phase
  | .access base link _ _ => by
    rw [Expr.move_access, Expr.references, Expr.references, base.references_move, link.references_move, List.map_append]
  | .create _ args entries _ => by
    rw [Expr.move_create, Expr.references, Expr.references, listReferences_move hidden phase args,
      entryReferences_move hidden phase entries, List.map_append]

/-- The references in a link are relocated. -/
theorem Link.references_move (hidden : List String) (phase : Phase) :
    ∀ link : Link, (move m link).references hidden phase = (link.references hidden phase).map (move m)
  | .member _ _ => rfl
  | .element indices => by
    rw [Link.move_element, Link.references, Link.references, listReferences_move hidden phase indices]
  | .invoke args => by rw [Link.move_invoke, Link.references, Link.references, listReferences_move hidden phase args]

/-- The references in expressions in a row are relocated. -/
theorem listReferences_move (hidden : List String) (phase : Phase) :
    ∀ es : List Expr, listReferences hidden phase (es.map (move m)) = (listReferences hidden phase es).map (move m)
  | [] => rfl
  | e :: es => by
    rw [List.map_cons, listReferences, listReferences, e.references_move, listReferences_move hidden phase es,
      List.map_append]

/-- The references in the entries of an initializer are relocated. -/
theorem entryReferences_move (hidden : List String) (phase : Phase) :
    ∀ entries : List Entry, entryReferences hidden phase (entries.map (move m)) =
      (entryReferences hidden phase entries).map (move m)
  | [] => rfl
  | .member _ _ value :: entries => by
    rw [List.map_cons, Entry.move_member, entryReferences, entryReferences, value.references_move,
      entryReferences_move hidden phase entries, List.map_append]
  | .element indices _ value :: entries => by
    rw [List.map_cons, Entry.move_element, entryReferences, entryReferences, listReferences_move hidden phase indices,
      value.references_move, entryReferences_move hidden phase entries, List.map_append, List.map_append]

end

/-- The references in an expression, if there is one, are relocated. -/
theorem optionReferences_move (o : Option Expr) :
    optionReferences hidden phase (o.map (move m)) = (optionReferences hidden phase o).map (move m) := by
  cases o with
  | none => rfl
  | some e => exact e.references_move m hidden phase

end

/-- A statement declares the same names. -/
@[simp]
theorem Statement.declares_move (s : Statement) : (move m s).declares = s.declares := by
  cases s <;> simp [Statement.declares]

mutual

/-- The references in a statement are relocated, behind the same hidden names. -/
theorem Statement.references_move (hidden : List String) :
    ∀ s : Statement, (move m s).references hidden = (s.references hidden).map (move m)
  | .block list _ => by
    rw [Statement.move_block, Statement.references, Statement.references, statementReferences_move hidden list]
  | .give value _ => by
    rw [Statement.move_give, Statement.references, Statement.references, optionReferences_move]
  | .branch condition thenBranch none _ => by
    rw [Statement.move_branch, Option.map_none, Statement.references, Statement.references, condition.references_move,
      thenBranch.references_move hidden]
    simp
  | .branch condition thenBranch (some elseBranch) _ => by
    rw [Statement.move_branch, Option.map_some, Statement.references, Statement.references, condition.references_move,
      thenBranch.references_move hidden]
    simp [elseBranch.references_move hidden]
  | .local _ _ _ init _ => by
    rw [Statement.move_local, Statement.references, Statement.references, optionReferences_move]
  | .expr value => by rw [Statement.move_expr, Statement.references, Statement.references, value.references_move]

/-- The references in statements in a row are relocated. -/
theorem statementReferences_move (hidden : List String) :
    ∀ list : List Statement, statementReferences hidden (list.map (move m)) = (statementReferences hidden list).map (move m)
  | [] => rfl
  | s :: rest => by
    rw [List.map_cons, statementReferences, statementReferences, Statement.declares_move, s.references_move hidden,
      statementReferences_move _ rest, List.map_append]

end

/-- The references in a body are relocated. -/
theorem Body.references_move (hidden : List String) (b : Body) :
    (move m b).references hidden = (b.references hidden).map (move m) := by
  cases b with
  | expr e => exact e.references_move m hidden .afterwards
  | block b => exact statementReferences_move m hidden b.statements

/-- Parameters have the same names. -/
@[simp]
theorem paramNames_move (params : List Param) : paramNames (params.map (move m)) = paramNames params := by
  simp [paramNames]

/-- The references in default values are relocated. -/
theorem defaultReferences_move (params : List Param) :
    defaultReferences (params.map (move m)) = (defaultReferences params).map (move m) := by
  simp [defaultReferences, List.flatMap_map, List.map_flatMap, optionReferences_move]

/-- The references in an accessor are relocated. -/
theorem Accessor.references_move (params : List Param) (a : Accessor) :
    (move m a).references (params.map (move m)) = (a.references params).map (move m) := by
  obtain ⟨kind, _ | body, span⟩ := a
  · rfl
  · show (move m body).references _ = _
    rw [paramNames_move, body.references_move]
    rfl

/-- The references in the body of a property are relocated. -/
theorem PropertyBody.references_move (params : List Param) (b : PropertyBody) :
    (move m b).references (params.map (move m)) = (b.references params).map (move m) := by
  cases b with
  | expr e =>
    rw [PropertyBody.move_expr, PropertyBody.references, PropertyBody.references, paramNames_move, e.references_move]
  | accessors list =>
    simp [PropertyBody.references, List.flatMap_map, List.map_flatMap, Accessor.references_move]

/-! ## Modifiers -/

/-- A modifier is of the same kind. -/
@[simp] theorem Modifier.kind_move (w : Modifier) : (move m w).kind = w.kind := rfl

/-- Modifiers hold the same kinds. -/
@[simp]
theorem hasModifier_move (modifiers : List Modifier) (kind : ModifierKind) :
    hasModifier (modifiers.map (move m)) kind = hasModifier modifiers kind := by
  simp [hasModifier, List.any_map, Function.comp_def]

/-- Modifiers give the same visibility. -/
@[simp]
theorem visibilityOf_move (modifiers : List Modifier) : visibilityOf (modifiers.map (move m)) = visibilityOf modifiers := by
  rw [visibilityOf, visibilityOf, List.filterMap_map]
  rfl

/-- A member is static or not as before. -/
@[simp]
theorem Member.isStatic_move (x : Member) : (move m x).isStatic = x.isStatic := by
  cases x <;> simp [Member.isStatic, Member.modifiers]

/-- A member has the same name. -/
@[simp]
theorem Member.name?_move (x : Member) : (move m x).name? = x.name? := by
  cases x <;> rfl

/-- The initial value of a member runs in the same phase. -/
@[simp]
theorem Member.initPhase_move (x : Member) : (move m x).initPhase = x.initPhase := by
  simp [Member.initPhase]

/-- The references in a member are relocated. -/
theorem Member.references_move (x : Member) : (move m x).references = x.references.map (move m) := by
  cases x with
  | field f => simp [Member.references, Member.initPhase, Member.isStatic, Member.modifiers, optionReferences_move]
  | property p =>
    have hb : (move m p.body).references [] = (p.body.references []).map (move m) := p.body.references_move m []
    simp [Member.references, Member.initPhase, Member.isStatic, Member.modifiers, optionReferences_move, hb]
  | method d => simp [Member.references, defaultReferences_move, Body.references_move]
  | indexer i => simp [Member.references, defaultReferences_move, PropertyBody.references_move]

namespace TypeDecl

variable (d : TypeDecl)

/-- The parameters of the constructor are relocated. -/
@[simp]
theorem params_move : (move m d).params = d.params.map (move m) := by
  rw [params, params, TypeDecl.placed_move_primary]
  cases d.primary <;> rfl

/-- The references in a declaration are relocated. -/
theorem references_move : (move m d).references = d.references.map (move m) := by
  have hb : (move m d).baseArgs?.getD [] = (d.baseArgs?.getD []).map (move m) := by
    obtain ⟨_, _, _, _, _, _, _ | ⟨_, _ | _, _⟩, _, _⟩ := d <;> rfl
  rw [references, references, params_move, hb, listReferences_move]
  simp [List.flatMap_map, List.map_flatMap, optionReferences_move, Member.references_move]

end TypeDecl

/-! ## Uses -/

namespace ParamUse

/-- The use of a name holds the relocated references. -/
theorem ofReferences_move (name : String) (references : List Reference) :
    ofReferences name (references.map (move m)) = move m (ofReferences name references) := by
  rw [ofReferences, ofReferences, List.filter_map, List.filter_map, List.map_map, List.map_map]
  show _ = ParamUse.mk name (List.map m.span _) (List.map m.span _)
  rw [List.map_map, List.map_map]
  rfl

/-- The uses of several names hold the relocated references. -/
theorem list_move (references : List Reference) (names : List String) :
    list (references.map (move m)) names = (list references names).map (move m) := by
  induction names generalizing references with
  | nil => rfl
  | cons name names ih =>
    rw [list, list, List.map_cons, ofReferences_move, List.filter_map, ih]
    rfl

end ParamUse

/-- The uses of the parameters are relocated. -/
theorem TypeDecl.paramUses_move (d : TypeDecl) : (move m d).paramUses = d.paramUses.map (move m) := by
  have hp : (d.params.map (move m)).map (·.name) = d.params.map (·.name) := by simp
  rw [TypeDecl.paramUses, TypeDecl.paramUses, TypeDecl.params_move, TypeDecl.references_move, hp, ParamUse.list_move]

variable {m}

/-- Illegal references keep their order where places keep theirs. -/
theorem illegalReferences_move (hm : m.Faithful) (uses : List ParamUse) :
    illegalReferences (uses.map (move m)) = (illegalReferences uses).map (move m) := by
  rw [illegalReferences, illegalReferences,
    List.map_mergeSort (s := fun a b => a.2.before b.2) fun a _ b _ => (hm.before a.2 b.2).symm]
  simp [List.flatMap_map, List.map_flatMap, Function.comp_def]

variable (m)

/-! ## Decisions -/

namespace PrimaryParam

variable (p : PrimaryParam)

/-- A parameter asks for the same visibility. -/
@[simp] theorem visibility?_move : (move m p).visibility? = p.visibility? := visibilityOf_move m p.modifiers

/-- A parameter asks for a readonly field or not as before. -/
@[simp] theorem isReadonly_move : (move m p).isReadonly = p.isReadonly := hasModifier_move m p.modifiers .readonly

/-- A parameter asks for a field or not as before. -/
@[simp]
theorem isCaptured_move : (move m p).isCaptured = p.isCaptured := by
  simp only [isCaptured, PrimaryParam.placed_move_modifiers, List.placed_move, List.any_map]
  rfl

end PrimaryParam

/-- The field for a relocated parameter is the relocated field. -/
theorem CapturedField.ofParam_move (p : PrimaryParam) (visibility : Visibility) :
    ofParam (move m p) visibility = move m (ofParam p visibility) := by
  have ha : ((move m p).attributes.filter (·.target == some "field")).map (fun a => { a with target := none }) =
      ((p.attributes.filter (·.target == some "field")).map fun a => { a with target := none }).map (move m) := by
    simp only [PrimaryParam.placed_move_attributes, List.placed_move, List.filter_map, List.map_map]
    rfl
  rw [ofParam, PrimaryParam.isReadonly_move, ha]
  rfl

namespace TypeDecl

variable (d : TypeDecl)

/-- Members are found alike by their names. -/
theorem findMember?_move (name : String) : (move m d).findMember? name = (d.findMember? name).map (move m) := by
  refine List.find?_map.trans (congrArg (fun p => (d.members.find? p).map (move m)) (funext fun member => ?_))
  rw [Function.comp_apply, Member.name?_move]

/-- What is decided about a parameter is the same, at relocated places. -/
theorem decision_move (earlier : List String) (p : PrimaryParam) :
    (move m d).decision earlier (move m p) = move m (d.decision earlier p) := by
  simp only [decision, PrimaryParam.visibility?_move, findMember?_move, Option.isSome_map, PrimaryParam.placed_move_name]
  cases p.visibility? with
  | none => rfl
  | some visibility =>
    dsimp only
    split
    · rfl
    · exact congrArg CaptureDecision.captured (CapturedField.ofParam_move m p visibility)

/-- The decisions about parameters in a row are relocated. -/
theorem decisionsFrom_move (earlier : List String) (ps : List PrimaryParam) :
    (move m d).decisionsFrom earlier (ps.map (move m)) = (d.decisionsFrom earlier ps).map (move m) := by
  induction ps generalizing earlier with
  | nil => rfl
  | cons p ps ih => rw [List.map_cons, decisionsFrom, decisionsFrom, decision_move, ih]; rfl

/-- The decisions of a declaration are relocated. -/
theorem decisions_move : (move m d).decisions = d.decisions.map (move m) := by
  rw [decisions, decisions, params_move, decisionsFrom_move]

end TypeDecl

/-- The field that a decision adds is relocated. -/
theorem CaptureDecision.field?_move (d : CaptureDecision) : (move m d).field? = d.field?.map (move m) := by
  cases d <;> rfl

/-- The fields that are added are relocated. -/
theorem fieldsOf_move (decisions : List (String × CaptureDecision)) :
    fieldsOf (decisions.map (move m)) = (fieldsOf decisions).map (move m) := by
  rw [fieldsOf, fieldsOf, List.filterMap_map, List.map_filterMap]
  exact congrArg (List.filterMap · decisions) (funext fun d => CaptureDecision.field?_move m d.2)

/-- The same parameters are kept. -/
@[simp]
theorem keepsField_move (decisions : List (String × CaptureDecision)) (name : String) :
    keepsField (decisions.map (move m)) name = keepsField decisions name := by
  simp [keepsField, List.any_map, Function.comp_def, CaptureDecision.field?_move]

/-! ## Qualifiers -/

instance QualifierFault.placed : Placed QualifierFault where
  move m
    | .fieldTarget written => .fieldTarget (move m written)
    | fault => fault
  move_move m n fault := by cases fault <;> simp only [move_move]

/-- What is wrong with qualifiers is told in the same words. -/
@[simp]
theorem QualifierFault.message_move (fault : QualifierFault) : (move m fault).message = fault.message := by
  cases fault <;> rfl

@[simps]
instance QualifierProblem.placed : Placed QualifierProblem where
  move m p := ⟨move m p.fault, m.span p.span⟩
  move_move m n p := by simp only [move_move]; rfl

@[simps]
instance FieldWords.placed : Placed FieldWords where
  move m w := { w with readonly := move m w.readonly }
  move_move m n w := by simp only [move_move]

namespace FieldWords

variable (w : FieldWords) (owner : TypeKind) (site : FieldSite)

/-- A word for the access is noted at its relocated place. -/
theorem addAccess_move (visibility : Visibility) :
    (move m w).addAccess owner visibility = move m (w.addAccess owner visibility) := by
  have keep : ∀ w : FieldWords,
      (({ w with access := w.access ++ [visibility], readonly := move m w.readonly } : FieldWords),
        if owner = .structType ∧ visibility = .prot then some QualifierFault.protectedInStruct else none) =
      move m (({ w with access := w.access ++ [visibility] } : FieldWords),
        if owner = .structType ∧ visibility = .prot then some QualifierFault.protectedInStruct else none) := by
    intro w
    split <;> rfl
  obtain ⟨access, readonly, storage⟩ := w
  simp only [addAccess]
  show (if visibility ∈ access then _ else _) = _
  split
  · rfl
  · rcases access with _ | ⟨first, _ | ⟨second, rest⟩⟩
    · exact keep ⟨[], readonly, storage⟩
    · show (if isPair first visibility = true then _ else _) = move m (if isPair first visibility = true then _ else _)
      split
      · exact keep ⟨[first], readonly, storage⟩
      · rfl
    · rfl

/-- A word for the storage is noted at its relocated place. -/
theorem addStorage_move (word : String) : (move m w).addStorage site word = move m (w.addStorage site word) := by
  obtain ⟨access, readonly, _ | earlier⟩ := w
  · cases site <;> rfl
  · cases site
    · simp only [addStorage]
      show (_, some (if earlier = word then _ else _)) = _
      split <;> rfl
    · rfl

/-- A modifier is noted at its relocated place. -/
theorem add_move (x : Modifier) : (move m w).add owner site (move m x) = move m (w.add owner site x) := by
  rw [add, add, Modifier.kind_move]
  cases x.kind with
  | access visibility => exact addAccess_move m w owner visibility
  | readonly => obtain ⟨access, _ | readonly, storage⟩ := w <;> rfl
  | static => exact addStorage_move m w site x.text
  | const => exact addStorage_move m w site x.text
  | other => rfl

/-- What is wrong with modifiers together is relocated. -/
theorem problemsTogether_move : (move m w).problemsTogether site = (w.problemsTogether site).map (move m) := by
  obtain ⟨access, _ | readonly, storage⟩ := w
  · rfl
  · simp only [problemsTogether, FieldWords.placed_move_readonly, FieldWords.placed_move_access,
      FieldWords.placed_move_storage, Option.placed_move, Option.map_some, List.map_append]
    congr 1 <;> split <;> rfl

/-- What is wrong with modifiers in a row is relocated. -/
theorem problemsFrom_move (modifiers : List Modifier) :
    (move m w).problemsFrom owner site (modifiers.map (move m)) = (w.problemsFrom owner site modifiers).map (move m) := by
  induction modifiers generalizing w with
  | nil => exact problemsTogether_move m w site
  | cons x xs ih =>
    rw [List.map_cons, problemsFrom, problemsFrom, add_move]
    dsimp only
    rw [Prod.placed_move, ih, List.map_append]
    congr 1
    cases (w.add owner site x).2 <;> rfl

end FieldWords

/-- The problems of modifiers are relocated. -/
theorem modifierProblems_move (modifiers : List Modifier) (owner : TypeKind) (site : FieldSite) :
    modifierProblems (modifiers.map (move m)) owner site = (modifierProblems modifiers owner site).map (move m) :=
  FieldWords.problemsFrom_move m .empty owner site modifiers

/-- What is wrong with an attribute of a parameter is relocated. -/
theorem Attribute.paramFault?_move (a : Attribute) (captured : Bool) :
    (move m a).paramFault? captured = (a.paramFault? captured).map (move m) := by
  rw [Attribute.paramFault?, Attribute.paramFault?, Attribute.placed_move_target]
  split
  · rfl
  · rfl
  · cases captured <;> rfl
  · rfl

/-- The problems of the qualifiers of a parameter are relocated. -/
theorem PrimaryParam.qualifierProblems_move (p : PrimaryParam) (owner : TypeKind) :
    (move m p).qualifierProblems owner = (p.qualifierProblems owner).map (move m) := by
  rw [qualifierProblems, qualifierProblems, List.map_append]
  congr 1
  · exact modifierProblems_move m p.modifiers owner .parameter
  · rw [attributeProblems, attributeProblems, isCaptured_move, PrimaryParam.placed_move_attributes, List.placed_move,
      List.filterMap_map, List.map_filterMap]
    refine congrArg (List.filterMap · p.attributes) (funext fun a => ?_)
    rw [Function.comp_apply, Attribute.paramFault?_move]
    cases a.paramFault? p.isCaptured <;> rfl

/-! ## Findings -/

/-- Lists without their places, part by part. -/
theorem erased_append {α : Type} [Placed α] (l₁ l₂ : List α) : erased (l₁ ++ l₂) = erased l₁ ++ erased l₂ :=
  List.map_append

/-- Findings about the parts of a list without their places. -/
theorem erased_flatMap {α β : Type} [Placed β] {f g : α → List β} {l : List α} (h : ∀ a ∈ l, erased (f a) = erased (g a)) :
    erased (l.flatMap f) = erased (l.flatMap g) := by
  induction l with
  | nil => rfl
  | cons a l ih =>
    rw [List.forall_mem_cons] at h
    rw [List.flatMap_cons, List.flatMap_cons, erased_append, erased_append, h.1, ih h.2]

namespace TypeDecl

variable (d : TypeDecl)

/-- A parameter is in conflict with a member as before, up to places. -/
theorem memberConflict?_move (p : PrimaryParam) :
    erased ((move m d).memberConflict? (move m p)) = erased (d.memberConflict? p) := by
  simp only [memberConflict?, PrimaryParam.visibility?_move, findMember?_move, PrimaryParam.placed_move_name]
  cases p.visibility? with
  | none => rfl
  | some visibility => cases d.findMember? p.name <;> rfl

/-- What is found at a parameter is the same up to places. -/
theorem paramFindings_move (p : PrimaryParam) :
    erased ((move m d).paramFindings (move m p)) = erased (d.paramFindings p) := by
  rw [paramFindings, paramFindings, erased_append, erased_append]
  congr 1
  · show List.map _ _ = List.map _ _
    rw [TypeDecl.placed_move_kind, PrimaryParam.qualifierProblems_move]
    simp only [List.map_map]
    refine congrArg (List.map · _) (funext fun problem => ?_)
    simp only [Function.comp_apply, QualifierProblem.placed_move_fault, QualifierFault.message_move]
    rfl
  · have toList : ∀ o : Option Diagnostic, erased o.toList = (erased o).toList := fun o => by cases o <;> rfl
    rw [toList, toList, memberConflict?_move]

end TypeDecl

/-- What is known about a relocated declaration beside what is known about the declaration. -/
structure ResolvedType.Moved (m : Relocation) (r' r : ResolvedType) : Prop where
  decl : r'.decl = move m r.decl
  decisions : r'.decisions = r.decisions.map (move m)
  uses : r'.uses = r.uses.map (move m)
  findings : erased r'.diagnostics = erased r.diagnostics

/-- Resolved declarations that correspond are equal up to places. -/
theorem ResolvedType.Moved.erased_eq {m : Relocation} {r' r : ResolvedType} (h : Moved m r' r) : erased r' = erased r := by
  have hd : erased r'.decisions = erased r.decisions := by
    rw [h.decisions]
    exact erased_move m r.decisions
  have hu : erased r'.uses = erased r.uses := by
    rw [h.uses]
    exact erased_move m r.uses
  show ResolvedType.mk (erased r'.decl) (erased r'.decisions) (erased r'.uses) (erased r'.diagnostics) = _
  rw [h.decl, erased_move, hd, hu, h.findings]
  rfl

variable {m : Relocation}

/-- Relocated parameters are decided about as the parameters are. -/
theorem TypeDecl.moved_resolve (hm : m.Faithful) (d : TypeDecl) : ResolvedType.Moved m (move m d).resolve d.resolve where
  decl := by
    have hl : ∀ fields : List CapturedField,
        (fields.map (move m)).map (fun f => .field f.toDecl) ++ d.members.map (move m) =
          (fields.map (fun f => Member.field f.toDecl) ++ d.members).map (move m) := fun fields => by
      rw [List.map_append, List.map_map, List.map_map]
      rfl
    show (move m d).withFields (fieldsOf (move m d).decisions) = move m (d.withFields (fieldsOf d.decisions))
    rw [decisions_move, fieldsOf_move]
    exact congrArg (fun l => { move m d with members := l }) (hl (fieldsOf d.decisions))
  decisions := decisions_move m d
  uses := paramUses_move m d
  findings := by
    have illegal : ∀ name span' span captured, erased (CaptureFinding.illegalReference name span' captured) =
        erased (CaptureFinding.illegalReference name span captured) := by
      intro name span' span captured
      cases captured <;> rfl
    show erased (_ ++ List.map _ (illegalReferences (move m d).paramUses)) =
      erased (_ ++ List.map _ (illegalReferences d.paramUses))
    rw [erased_append, erased_append, params_move, paramUses_move, illegalReferences_move hm, List.flatMap_map,
      erased_flatMap fun p _ => paramFindings_move m d p]
    congr 1
    show List.map _ _ = List.map _ _
    rw [List.map_map, List.map_map, List.map_map]
    refine congrArg (List.map · _) (funext fun r => ?_)
    simp only [Function.comp_apply, decisions_move, keepsField_move]
    exact illegal _ _ _ _

namespace SourceUnit

/-- The fields that a relocated unit gets are the relocated ones. -/
theorem resolve_unit_move (hm : m.Faithful) (u : SourceUnit) : (move m u).resolve.unit = move m u.resolve.unit := by
  show SourceUnit.mk _ = SourceUnit.mk _
  simp only [resolve, ResolvedUnit.unit, SourceUnit.placed_move_types, List.placed_move, List.map_map]
  exact congrArg (fun f => SourceUnit.mk (u.types.map f)) (funext fun d => (d.moved_resolve hm).decl)

/-- The uses of the parameters of a relocated unit stand in the relocated places. -/
theorem resolve_uses_move (hm : m.Faithful) (u : SourceUnit) :
    (move m u).resolve.types.map (·.uses) = (u.resolve.types.map (·.uses)).map (move m) := by
  simp only [resolve, SourceUnit.placed_move_types, List.placed_move, List.map_map]
  exact congrArg (List.map · u.types) (funext fun d => (d.moved_resolve hm).uses)

/-- What is found out about captured parameters is the same in every layout. -/
theorem erased_resolve_move (hm : m.Faithful) (u : SourceUnit) : erased (move m u).resolve = erased u.resolve := by
  show ResolvedUnit.mk (List.map _ _) = ResolvedUnit.mk (List.map _ _)
  simp only [resolve, SourceUnit.placed_move_types, List.placed_move, List.map_map]
  exact congrArg (fun f => ResolvedUnit.mk (u.types.map f)) (funext fun d => (d.moved_resolve hm).erased_eq)

end SourceUnit

end NavCheck
