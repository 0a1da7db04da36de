import Mathlib.Data.List.Flatten
import Mathlib.Data.List.Nodup
import NavCheck.Capture.Resolve
import NavCheck.Proofs.LaidUnit

/-!
# Sites

A site is a complete expression of a declaration together with the names that are hidden there and the phase in which it is
evaluated. The references of a declaration are those of its sites, in order, and they are the names in its sites that are not
hidden. No two names of a declaration that was read have the same place.
-/

namespace NavCheck

/-- A complete expression, the names that are hidden there, and when it is evaluated. -/
structure Site where
  expr : Expr
  hidden : List String
  phase : Phase

/-- The references of a site. -/
def Site.references (s : Site) : List Reference :=
  s.expr.references s.hidden s.phase

/-! ## The sites of declarations -/

/-- The site of an expression that may be missing. -/
def optionSites (hidden : List String) (phase : Phase) : Option Expr → List Site
  | some e => [⟨e, hidden, phase⟩]
  | none => []

mutual

/-- The sites of a statement. -/
def Statement.sites (hidden : List String) : Statement → List Site
  | .block list _ => statementSites hidden list
  | .give value _ => optionSites hidden .afterwards value
  | .branch condition thenBranch elseBranch _ =>
    ⟨condition, hidden, .afterwards⟩ :: thenBranch.sites hidden ++
      match elseBranch with
      | some s => s.sites hidden
      | none => []
  | .local _ _ _ init _ => optionSites hidden .afterwards init
  | .expr value => [⟨value, hidden, .afterwards⟩]

/-- The sites of statements; a local is hidden in those behind it. -/
def statementSites (hidden : List String) : List Statement → List Site
  | [] => []
  | s :: rest => s.sites hidden ++ statementSites (s.declares ++ hidden) rest

end

/-- The sites of a body. -/
def Body.sites (hidden : List String) : Body → List Site
  | .expr value => [⟨value, hidden, .afterwards⟩]
  | .block b => statementSites hidden b.statements

/-- The sites of the default values of parameters. -/
def defaultSites (params : List Param) : List Site :=
  params.flatMap fun p => optionSites [] .afterwards p.default

/-- The sites of an accessor. -/
def Accessor.sites (params : List Param) (a : Accessor) : List Site :=
  match a.body with
  | some body => body.sites (paramNames params ++ a.kind.implicitNames)
  | none => []

/-- The sites of what a property or an indexer does. -/
def PropertyBody.sites (params : List Param) : PropertyBody → List Site
  | .expr value => [⟨value, paramNames params, .afterwards⟩]
  | .accessors list => list.flatMap (·.sites params)

/-- The sites of a member. -/
def Member.sites (m : Member) : List Site :=
  match m with
  | .field f => optionSites [] m.initPhase f.init
  | .property p => p.body.sites [] ++ optionSites [] m.initPhase p.init
  | .method d => defaultSites d.params ++ d.body.sites (paramNames d.params)
  | .indexer i => defaultSites i.params ++ i.body.sites i.params

/-- The sites of the header of a declaration. -/
def TypeDecl.headerSites (d : TypeDecl) : List Site :=
  d.params.flatMap (fun p => optionSites [] .construction p.default) ++
    (d.baseArgs?.getD []).map fun e => ⟨e, [], .construction⟩

/-- The sites of a declaration. -/
def TypeDecl.sites (d : TypeDecl) : List Site :=
  d.headerSites ++ d.members.flatMap Member.sites

/-! ## References and pieces -/

/-- The references of an expression that may be missing are those of its site. -/
theorem optionReferences_eq (hidden : List String) (phase : Phase) (o : Option Expr) :
    optionReferences hidden phase o = (optionSites hidden phase o).flatMap Site.references := by
  cases o <;> simp [optionReferences, optionSites, Site.references]

/-- The references of expressions are those of their sites. -/
theorem listReferences_eq (hidden : List String) (phase : Phase) (es : List Expr) :
    listReferences hidden phase es = (es.map fun e => ⟨e, hidden, phase⟩ : List Site).flatMap Site.references := by
  induction es with
  | nil => simp [listReferences]
  | cons e es ih => simp [listReferences, ih, Site.references]

mutual

/-- The references of a statement are those of its sites. -/
theorem Statement.references_eq (hidden : List String) :
    ∀ s : Statement, s.references hidden = (s.sites hidden).flatMap Site.references
  | .block list _ => statementReferences_eq hidden list
  | .give value _ => optionReferences_eq hidden .afterwards value
  | .branch condition thenBranch (some s) _ => by
    simp [Statement.references, Statement.sites, thenBranch.references_eq, s.references_eq, Site.references]
  | .branch condition thenBranch none _ => by
    simp [Statement.references, Statement.sites, thenBranch.references_eq, Site.references]
  | .local _ _ _ init _ => optionReferences_eq hidden .afterwards init
  | .expr value => by simp [Statement.references, Statement.sites, Site.references]

/-- The references of statements are those of their sites. -/
theorem statementReferences_eq (hidden : List String) :
    ∀ list : List Statement, statementReferences hidden list = (statementSites hidden list).flatMap Site.references
  | [] => by simp [statementReferences, statementSites]
  | s :: rest => by simp [statementReferences, statementSites, s.references_eq, statementReferences_eq _ rest]

end

/-- The references of a body are those of its sites. -/
theorem Body.references_eq (hidden : List String) (b : Body) :
    b.references hidden = (b.sites hidden).flatMap Site.references := by
  cases b with
  | expr value => simp [Body.references, Body.sites, Site.references]
  | block b => exact statementReferences_eq hidden b.statements

/-- The references of default values are those of their sites. -/
theorem defaultReferences_eq (params : List Param) :
    defaultReferences params = (defaultSites params).flatMap Site.references := by
  simp only [defaultReferences, defaultSites, List.flatMap_assoc, optionReferences_eq]

/-- The references of an accessor are those of its sites. -/
theorem Accessor.references_eq (params : List Param) (a : Accessor) :
    a.references params = (a.sites params).flatMap Site.references := by
  unfold Accessor.references Accessor.sites
  cases a.body with
  | none => rfl
  | some b => exact b.references_eq _

/-- The references of the body of a property are those of its sites. -/
theorem PropertyBody.references_eq (params : List Param) (b : PropertyBody) :
    b.references params = (b.sites params).flatMap Site.references := by
  cases b with
  | expr value => simp [PropertyBody.references, PropertyBody.sites, Site.references]
  | accessors list =>
    simp only [PropertyBody.references, PropertyBody.sites, List.flatMap_assoc, Accessor.references_eq]

/-- The references of a member are those of its sites. -/
theorem Member.references_eq (m : Member) : m.references = m.sites.flatMap Site.references := by
  cases m <;> simp only [Member.references, Member.sites, List.flatMap_append, optionReferences_eq, defaultReferences_eq,
    Body.references_eq, PropertyBody.references_eq]

/-- The references of a declaration are those of its sites. -/
theorem TypeDecl.references_eq (d : TypeDecl) : d.references = d.sites.flatMap Site.references := by
  simp only [TypeDecl.references, TypeDecl.sites, TypeDecl.headerSites, List.flatMap_append, List.flatMap_assoc,
    optionReferences_eq, listReferences_eq, funext Member.references_eq]

/-- The expression that a piece is. -/
def Piece.expr? : Piece → Option Expr
  | .name _ => none
  | .expr e => some e

/-- The piece and the site of an expression that may be missing have the same expression. -/
theorem exprs_optionPieces (hidden : List String) (phase : Phase) (o : Option Expr) :
    (optionPieces o).filterMap Piece.expr? = (optionSites hidden phase o).map Site.expr := by
  cases o <;> rfl

mutual

/-- The pieces and the sites of a statement have the same expressions, in order. -/
theorem Statement.exprs_pieces (hidden : List String) :
    ∀ s : Statement, s.pieces.filterMap Piece.expr? = (s.sites hidden).map Site.expr
  | .block list _ => exprs_statementPieces hidden list
  | .give value _ => exprs_optionPieces hidden .afterwards value
  | .branch condition thenBranch (some s) _ => by
    simp [Statement.pieces, Statement.sites, thenBranch.exprs_pieces hidden, s.exprs_pieces hidden, Piece.expr?]
  | .branch condition thenBranch none _ => by
    simp [Statement.pieces, Statement.sites, thenBranch.exprs_pieces hidden, Piece.expr?]
  | .local _ _ _ init _ => exprs_optionPieces hidden .afterwards init
  | .expr value => rfl

/-- The pieces and the sites of statements have the same expressions, in order. -/
theorem exprs_statementPieces (hidden : List String) :
    ∀ list : List Statement, (statementPieces list).filterMap Piece.expr? = (statementSites hidden list).map Site.expr
  | [] => rfl
  | s :: rest => by
    simp [statementPieces, statementSites, s.exprs_pieces hidden, exprs_statementPieces (s.declares ++ hidden) rest]

end

/-- The pieces and the sites of a body have the same expressions, in order. -/
theorem Body.exprs_pieces (hidden : List String) (b : Body) :
    b.pieces.filterMap Piece.expr? = (b.sites hidden).map Site.expr := by
  cases b with
  | expr value => rfl
  | block b => exact exprs_statementPieces hidden b.statements

/-- The pieces and the sites of default values have the same expressions, in order. -/
theorem exprs_paramPieces (params : List Param) :
    (paramPieces params).filterMap Piece.expr? = (defaultSites params).map Site.expr := by
  simp only [paramPieces, defaultSites, List.filterMap_flatMap, List.map_flatMap, exprs_optionPieces [] .afterwards]

/-- The pieces and the sites of an accessor have the same expressions, in order. -/
theorem Accessor.exprs_pieces (params : List Param) (a : Accessor) :
    a.pieces.filterMap Piece.expr? = (a.sites params).map Site.expr := by
  unfold Accessor.pieces Accessor.sites
  cases a.body with
  | none => rfl
  | some b => exact b.exprs_pieces _

/-- The pieces and the sites of the body of a property have the same expressions, in order. -/
theorem PropertyBody.exprs_pieces (params : List Param) (b : PropertyBody) :
    b.pieces.filterMap Piece.expr? = (b.sites params).map Site.expr := by
  cases b with
  | expr value => rfl
  | accessors list =>
    simp only [PropertyBody.pieces, PropertyBody.sites, List.filterMap_flatMap, List.map_flatMap,
      Accessor.exprs_pieces params]

/-- The pieces and the sites of a member have the same expressions, in order. -/
theorem Member.exprs_pieces (m : Member) : m.pieces.filterMap Piece.expr? = m.sites.map Site.expr := by
  cases m with
  | field f => exact exprs_optionPieces _ _ f.init
  | property p =>
    rw [Member.pieces, Member.sites, List.filterMap_append, List.map_append, p.body.exprs_pieces [],
      exprs_optionPieces [] (Member.property p).initPhase]
  | method d =>
    rw [Member.pieces, Member.sites, List.filterMap_append, List.map_append, exprs_paramPieces, d.body.exprs_pieces]
  | indexer i =>
    rw [Member.pieces, Member.sites, List.filterMap_append, List.map_append, exprs_paramPieces, i.body.exprs_pieces]

/-- The complete expressions of a declaration. -/
def TypeDecl.exprs (d : TypeDecl) : List Expr :=
  d.pieces.filterMap Piece.expr?

/-- The complete expressions of a declaration are those of its sites. -/
theorem TypeDecl.exprs_eq (d : TypeDecl) : d.exprs = d.sites.map Site.expr := by
  have hp : ∀ params : List PrimaryParam, (params.flatMap PrimaryParam.pieces).filterMap Piece.expr? =
      (params.flatMap fun p => optionSites [] .construction p.default).map Site.expr := by
    intro params
    induction params with
    | nil => rfl
    | cons p ps ih =>
      simp only [List.flatMap_cons, List.filterMap_append, List.map_append, ih, PrimaryParam.pieces,
        ← exprs_optionPieces [] .construction p.default]
      rfl
  have ha : ∀ es : List Expr, (es.map Piece.expr).filterMap Piece.expr? =
      (es.map fun e => (⟨e, [], .construction⟩ : Site)).map Site.expr := by
    intro es
    induction es with
    | nil => rfl
    | cons e es ih => simpa [Piece.expr?] using ih
  have hm : (d.members.flatMap Member.pieces).filterMap Piece.expr? = (d.members.flatMap Member.sites).map Site.expr := by
    simp only [List.filterMap_flatMap, List.map_flatMap, Member.exprs_pieces]
  rw [TypeDecl.exprs, TypeDecl.pieces, TypeDecl.sites, TypeDecl.headerSites, List.filterMap_cons_none rfl]
  simp only [List.filterMap_append, List.map_append, hp, ha, hm]

/-- What the sites of a resolved declaration hold is what the written expressions hold, as long as a name alone holds
nothing. -/
theorem TypeDecl.flatMap_sites_resolve {α : Type} (d : TypeDecl) (f : Expr → List α) (hf : ∀ text span, f (.name text span) = []) :
    (d.resolve.decl.sites.flatMap fun s => f s.expr) = d.exprs.flatMap f := by
  have hs : d.resolve.decl.sites = d.headerSites ++
      (((fieldsOf d.decisions).map fun f => Member.field f.toDecl) ++ d.members).flatMap Member.sites := rfl
  have hn : ∀ fields : List CapturedField,
      ((fields.map fun f => Member.field f.toDecl).flatMap Member.sites).flatMap (fun s => f s.expr) = [] := by
    intro fields
    rw [List.flatMap_map, List.flatMap_assoc, List.flatMap_eq_nil_iff]
    intro field _
    show f (.name field.name field.span) ++ [] = []
    rw [hf, List.append_nil]
  rw [d.exprs_eq, List.flatMap_map, hs, TypeDecl.sites]
  simp only [List.flatMap_append, hn, List.nil_append]

/-! ## Names -/

/-- A name that stands as an expression: when it is evaluated, and whether it is hidden. -/
structure Occurrence where
  name : String
  span : Span
  phase : Phase
  hidden : Bool

/-- The reference that an occurrence is when it is not hidden. -/
def Occurrence.reference? (o : Occurrence) : Option Reference :=
  if o.hidden then none else some ⟨o.name, o.span, o.phase⟩

mutual

/-- The names in an expression, from left to right. -/
def Expr.occurrences (hidden : List String) (phase : Phase) : Expr → List Occurrence
  | .literal _ _ => []
  | .name text span => [⟨text, span, phase, hidden.contains text⟩]
  | .self _ => []
  | .unary _ operand _ => operand.occurrences hidden phase
  | .binary _ left right _ => left.occurrences hidden phase ++ right.occurrences hidden phase
  | .conditional condition thenBranch elseBranch _ =>
    condition.occurrences hidden phase ++ thenBranch.occurrences hidden phase ++ elseBranch.occurrences hidden phase
  | .assign target value _ => target.occurrences hidden phase ++ value.occurrences hidden phase
  | .lambda params body _ => body.occurrences (params.map (·.name) ++ hidden) .afterwards
  | .paren inner _ => inner.occurrences hidden phase
  | .access base link _ _ => base.occurrences hidden phase ++ link.occurrences hidden phase
  | .create _ args entries _ => listOccurrences hidden phase args ++ entryOccurrences hidden phase entries

/-- The names in the operands of a link. -/
def Link.occurrences (hidden : List String) (phase : Phase) : Link → List Occurrence
  | .member _ _ => []
  | .element indices => listOccurrences hidden phase indices
  | .invoke args => listOccurrences hidden phase args

/-- The names in several expressions. -/
def listOccurrences (hidden : List String) (phase : Phase) : List Expr → List Occurrence
  | [] => []
  | e :: es => e.occurrences hidden phase ++ listOccurrences hidden phase es

/-- The names in the entries of an initializer. -/
def entryOccurrences (hidden : List String) (phase : Phase) : List Entry → List Occurrence
  | [] => []
  | .member _ _ value :: entries => value.occurrences hidden phase ++ entryOccurrences hidden phase entries
  | .element indices _ value :: entries =>
    listOccurrences hidden phase indices ++ value.occurrences hidden phase ++ entryOccurrences hidden phase entries

end

mutual

/-- The references of an expression are the names in it that are not hidden. -/
theorem Expr.references_eq (hidden : List String) (phase : Phase) :
    ∀ e : Expr, e.references hidden phase = (e.occurrences hidden phase).filterMap Occurrence.reference?
  | .literal _ _ | .self _ => rfl
  | .name text span => by
    rw [Expr.references, Expr.occurrences]
    cases hc : hidden.contains text <;> simp [Occurrence.reference?]
  | .unary _ operand _ => operand.references_eq hidden phase
  | .binary _ left right _ => by
    simp [Expr.references, Expr.occurrences, left.references_eq, right.references_eq]
  | .conditional condition thenBranch elseBranch _ => by
    simp [Expr.references, Expr.occurrences, condition.references_eq, thenBranch.references_eq, elseBranch.references_eq]
  | .assign target value _ => by
    simp [Expr.references, Expr.occurrences, target.references_eq, value.references_eq]
  | .lambda params body _ => body.references_eq _ _
  | .paren inner _ => inner.references_eq hidden phase
  | .access base link _ _ => by
    simp [Expr.references, Expr.occurrences, base.references_eq, link.references_eq]
  | .create _ args entries _ => by
    simp [Expr.references, Expr.occurrences, listReferences_eq_occurrences args, entryReferences_eq entries]

/-- The references of a link are the occurrences that are not hidden. -/
theorem Link.references_eq (hidden : List String) (phase : Phase) :
    ∀ link : Link, link.references hidden phase = (link.occurrences hidden phase).filterMap Occurrence.reference?
  | .member _ _ => rfl
  | .element indices => listReferences_eq_occurrences indices
  | .invoke args => listReferences_eq_occurrences args

/-- The references of expressions are the occurrences that are not hidden. -/
theorem listReferences_eq_occurrences {hidden : List String} {phase : Phase} :
    ∀ es : List Expr, listReferences hidden phase es = (listOccurrences hidden phase es).filterMap Occurrence.reference?
  | [] => rfl
  | e :: es => by
    simp [listReferences, listOccurrences, e.references_eq, listReferences_eq_occurrences es]

/-- The references of entries are the occurrences that are not hidden. -/
theorem entryReferences_eq {hidden : List String} {phase : Phase} :
    ∀ entries : List Entry,
      entryReferences hidden phase entries = (entryOccurrences hidden phase entries).filterMap Occurrence.reference?
  | [] => rfl
  | .member _ _ value :: entries => by
    simp [entryReferences, entryOccurrences, value.references_eq, entryReferences_eq entries]
  | .element indices _ value :: entries => by
    simp [entryReferences, entryOccurrences, listReferences_eq_occurrences indices, value.references_eq,
      entryReferences_eq entries]

end

mutual

/-- The names in an expression end at its marks. -/
theorem Expr.stops_occurrences (hidden : List String) (phase : Phase) :
    ∀ e : Expr, (e.occurrences hidden phase).map (·.span.stop) = e.marks.names
  | .literal _ _ | .self _ | .name _ _ => rfl
  | .unary _ operand _ => operand.stops_occurrences hidden phase
  | .binary _ left right _ => by
    simp [Expr.occurrences, Expr.marks, left.stops_occurrences, right.stops_occurrences]
  | .conditional condition thenBranch elseBranch _ => by
    simp [Expr.occurrences, Expr.marks, condition.stops_occurrences, thenBranch.stops_occurrences,
      elseBranch.stops_occurrences]
  | .assign target value _ => by
    simp [Expr.occurrences, Expr.marks, target.stops_occurrences, value.stops_occurrences]
  | .lambda params body _ => body.stops_occurrences _ _
  | .paren inner _ => inner.stops_occurrences hidden phase
  | .access base link true _ => by
    simp [Expr.occurrences, Expr.marks, Marks.guard, base.stops_occurrences, link.stops_occurrences]
  | .access base link false _ => by
    simp [Expr.occurrences, Expr.marks, base.stops_occurrences, link.stops_occurrences]
  | .create _ args entries _ => by
    simp [Expr.occurrences, Expr.marks, stops_listOccurrences args, stops_entryOccurrences entries]

/-- Occurrences in a link end where the names in it end, in order. -/
theorem Link.stops_occurrences (hidden : List String) (phase : Phase) :
    ∀ link : Link, (link.occurrences hidden phase).map (·.span.stop) = link.marks.names
  | .member _ _ => rfl
  | .element indices => stops_listOccurrences indices
  | .invoke args => stops_listOccurrences args

/-- Occurrences in expressions end where the names in them end, in order. -/
theorem stops_listOccurrences {hidden : List String} {phase : Phase} :
    ∀ es : List Expr, (listOccurrences hidden phase es).map (·.span.stop) = (listMarks es).names
  | [] => rfl
  | e :: es => by simp [listOccurrences, listMarks, e.stops_occurrences, stops_listOccurrences es]

/-- Occurrences in entries end where the names in them end, in order. -/
theorem stops_entryOccurrences {hidden : List String} {phase : Phase} :
    ∀ entries : List Entry, (entryOccurrences hidden phase entries).map (·.span.stop) = (entryMarks entries).names
  | [] => rfl
  | .member _ _ value :: entries => by
    simp [entryOccurrences, entryMarks, value.stops_occurrences, stops_entryOccurrences entries]
  | .element indices _ value :: entries => by
    simp [entryOccurrences, entryMarks, stops_listOccurrences indices, value.stops_occurrences,
      stops_entryOccurrences entries]

end

/-- The names in a site. -/
def Site.occurrences (s : Site) : List Occurrence :=
  s.expr.occurrences s.hidden s.phase

/-- The names that stand as expressions in a declaration. -/
def TypeDecl.occurrences (d : TypeDecl) : List Occurrence :=
  d.sites.flatMap Site.occurrences

/-- The references of a declaration are the names in it that are not hidden. -/
theorem TypeDecl.references_eq_occurrences (d : TypeDecl) :
    d.references = d.occurrences.filterMap Occurrence.reference? := by
  rw [d.references_eq, TypeDecl.occurrences, List.filterMap_flatMap]
  refine congrArg (d.sites.flatMap ·) (funext fun s => ?_)
  exact s.expr.references_eq s.hidden s.phase

/-! ## Marks of pieces -/

/-- The marks of a piece. -/
def Piece.marks : Piece → Marks
  | .name span => .name span
  | .expr e => e.marks

/-- The marks of pieces. -/
def pieceMarks (ps : List Piece) : Marks :=
  ⟨ps.flatMap (·.marks.names), ps.flatMap (·.marks.guards)⟩

/-- The marks of pieces stand for the tokens that the pieces lie on. -/
theorem Laid.marked {ps : List Piece} {ts : List Token} (h : Laid ps ts) (ho : InOrder ts) : Marked (pieceMarks ps) ts := by
  induction h with
  | nothing ts => exact .nothing ts
  | name t => simpa [pieceMarks, Piece.marks] using Marked.name t
  | @expr e c d ts h hp =>
    obtain ⟨us, hu, hm⟩ := h.marked
    obtain rfl := hu.unique hp
    have hm : Marked e.marks us := hm ho
    refine ⟨?_, ?_⟩
    · simpa [pieceMarks, Piece.marks] using hm.names
    · simpa [pieceMarks, Piece.marks] using hm.guards
  | append _ _ ih₁ ih₂ =>
    have hm := (ih₁ ho.left).append (ih₂ ho.right)
    refine ⟨?_, ?_⟩
    · simpa [pieceMarks] using hm.names
    · simpa [pieceMarks] using hm.guards
  | sublist _ hs ih =>
    have hm := ih ho
    exact ⟨(hs.flatMap _).trans hm.names, (hs.flatMap _).trans hm.guards⟩

/-- Two members of a list that give the same to a row without duplicates are the same. -/
theorem eq_of_nodup_flatMap {α β : Type} {f : α → List β} {l : List α} (h : (l.flatMap f).Nodup) {a b : α} (ha : a ∈ l)
    (hb : b ∈ l) {x : β} (hxa : x ∈ f a) (hxb : x ∈ f b) : a = b := by
  induction l with
  | nil => cases ha
  | cons c l ih =>
    rw [List.flatMap_cons, List.nodup_append] at h
    obtain ⟨-, hl, hd⟩ := h
    rcases List.mem_cons.1 ha with rfl | hal
    · rcases List.mem_cons.1 hb with rfl | hbl
      · rfl
      · exact absurd rfl (hd x hxa x (List.mem_flatMap.2 ⟨b, hbl, hxb⟩))
    · rcases List.mem_cons.1 hb with rfl | hbl
      · exact absurd rfl (hd x hxb x (List.mem_flatMap.2 ⟨a, hal, hxa⟩))
      · exact ih hl hal hbl

namespace SourceUnit

variable {source : String} {file : Option Nat} {unit : SourceUnit} {d : TypeDecl}

/-- No two names of a unit end in the same place. -/
theorem nodup_names [Text.Hash] (h : SourceUnit.parse source file = .ok unit) : (pieceMarks unit.pieces).names.Nodup :=
  (inOrder_significant source file).stops_nodup.sublist ((laid_of_parse h).marked (inOrder_significant source file)).names

/-- No two names of a declaration end in the same place. -/
theorem nodup_declNames [Text.Hash] (h : SourceUnit.parse source file = .ok unit) (hd : d ∈ unit.types) :
    (d.pieces.flatMap (·.marks.names)).Nodup := by
  have hn : (unit.types.flatMap fun d => d.pieces.flatMap (·.marks.names)).Nodup := by
    have hn : (unit.pieces.flatMap (·.marks.names)).Nodup := nodup_names h
    rwa [SourceUnit.pieces, List.flatMap_assoc] at hn
  exact (List.nodup_flatMap.1 hn).1 d hd

/-- A declaration of a unit is known by the place of its name. -/
theorem eq_of_nameSpan [Text.Hash] (h : SourceUnit.parse source file = .ok unit) (hd : d ∈ unit.types) {d' : TypeDecl}
    (hd' : d' ∈ unit.types) (hs : d.nameSpan = d'.nameSpan) : d = d' := by
  have hn : (unit.types.flatMap fun d => d.pieces.flatMap (·.marks.names)).Nodup := by
    have hn : (unit.pieces.flatMap (·.marks.names)).Nodup := nodup_names h
    rwa [SourceUnit.pieces, List.flatMap_assoc] at hn
  have hm : ∀ d : TypeDecl, d.nameSpan.stop ∈ d.pieces.flatMap (·.marks.names) := fun d =>
    List.mem_flatMap.2 ⟨.name d.nameSpan, List.mem_cons_self, List.mem_singleton_self _⟩
  exact eq_of_nodup_flatMap hn hd hd' (hm d) (hs ▸ hm d')

/-- No two guards of a unit begin in the same place. -/
theorem nodup_guards [Text.Hash] (h : SourceUnit.parse source file = .ok unit) : (pieceMarks unit.pieces).guards.Nodup := by
  have ho := inOrder_significant source file
  refine List.Nodup.sublist ((laid_of_parse h).marked ho).guards ?_
  exact (ho.sublist (List.dropLast_sublist _)).stops_nodup

end SourceUnit

end NavCheck
