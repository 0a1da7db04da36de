import NavCheck.Proofs.Sites

/-!
# Scoping

Where a name stands in a declaration, said without the walk that collects references: an expression stands at a place of the
declaration, below the names that are declared around it, and a name stands in an expression, below the lambdas around it. The
names that the walk finds free are those that no parameter, setter or earlier local around them declares, and the walk takes
them for uses during construction exactly at the places that run then and outside of lambdas.
-/

namespace NavCheck

/-! ## Inside expressions -/

theorem Link.sizeOf_lt_of_mem_operands {link : Link} {part : Expr} (h : part ∈ link.operands) :
    sizeOf part < sizeOf link := by
  cases link with
  | member => cases h
  | element es | invoke es =>
    have := List.sizeOf_lt_of_mem (show part ∈ es from h)
    simp
    omega

theorem Entry.sizeOf_lt_of_mem_operands {entry : Entry} {part : Expr} (h : part ∈ entry.operands) :
    sizeOf part < sizeOf entry := by
  cases entry with
  | member name span value =>
    obtain rfl := List.mem_singleton.1 h
    rw [Entry.member.sizeOf_spec]
    omega
  | element indices span value =>
    rw [Entry.element.sizeOf_spec]
    rcases List.mem_append.1 h with h | h
    · have := List.sizeOf_lt_of_mem h
      omega
    · obtain rfl := List.mem_singleton.1 h
      omega

/-- A part of an expression is smaller. -/
theorem Expr.sizeOf_lt_of_mem_children {e part : Expr} (h : part ∈ e.children) : sizeOf part < sizeOf e := by
  cases e with
  | literal | name | self => cases h
  | access base link guarded span =>
    rcases List.mem_cons.1 h with rfl | h
    · simp
      omega
    · have := Link.sizeOf_lt_of_mem_operands h
      simp
      omega
  | create type args entries span =>
    rcases List.mem_append.1 h with h | h
    · have := List.sizeOf_lt_of_mem h
      simp
      omega
    · obtain ⟨entry, hm, h⟩ := List.mem_flatMap.1 h
      have := List.sizeOf_lt_of_mem hm
      have := Entry.sizeOf_lt_of_mem_operands h
      simp
      omega
  | _ =>
    simp only [children, List.mem_cons, List.not_mem_nil, or_false] at h
    rcases h with rfl | rfl | rfl <;> simp <;> omega

/-- What holds of an expression when it holds of its parts holds of every expression. -/
theorem Expr.induction_children {P : Expr → Prop} (step : ∀ e : Expr, (∀ part ∈ e.children, P part) → P e)
    (e : Expr) : P e :=
  step e fun part _ => induction_children step part
termination_by sizeOf e
decreasing_by exact sizeOf_lt_of_mem_children ‹_›

/-- The parameters that an expression declares for its parts: those of a lambda. -/
def Expr.binders : Expr → List (List LambdaParam)
  | .lambda params _ _ => [params]
  | _ => []

/-- An expression holds another below lambdas, given by their parameters from the outermost on. -/
inductive Expr.Holds : Expr → List (List LambdaParam) → Expr → Prop where
  | here (e : Expr) : e.Holds [] e
  | part {e part inner : Expr} {lambdas : List (List LambdaParam)} (hp : part ∈ e.children) (h : part.Holds lambdas inner) :
    e.Holds (e.binders ++ lambdas) inner

/-- Lambdas declare a name when one of them has a parameter of the name. -/
def declaredBy (lambdas : List (List LambdaParam)) (name : String) : Bool :=
  lambdas.any (·.any (·.name == name))

/-- When code below lambdas runs that stands where the given phase is: the body of a lambda runs afterwards. -/
def phaseBelow (lambdas : List (List LambdaParam)) (phase : Phase) : Phase :=
  if lambdas.isEmpty then phase else .afterwards

theorem phaseBelow_append (lambdas more : List (List LambdaParam)) (phase : Phase) :
    phaseBelow (lambdas ++ more) phase = phaseBelow more (phaseBelow lambdas phase) := by
  cases lambdas <;> cases more <;> rfl

theorem declaredBy_append (lambdas more : List (List LambdaParam)) (name : String) :
    declaredBy (lambdas ++ more) name = (declaredBy lambdas name || declaredBy more name) :=
  List.any_append

theorem listOccurrences_eq (hidden : List String) (phase : Phase) (es : List Expr) :
    listOccurrences hidden phase es = es.flatMap (·.occurrences hidden phase) := by
  induction es with
  | nil => rfl
  | cons e es ih => rw [listOccurrences, ih, List.flatMap_cons]

theorem entryOccurrences_eq (hidden : List String) (phase : Phase) (entries : List Entry) :
    entryOccurrences hidden phase entries = (entries.flatMap Entry.operands).flatMap (·.occurrences hidden phase) := by
  induction entries with
  | nil => rfl
  | cons entry entries ih =>
    cases entry <;> simp [entryOccurrences, Entry.operands, ih, listOccurrences_eq]

/-- The names in an expression that is none itself are those in its parts. -/
theorem Expr.occurrences_eq (hidden : List String) (phase : Phase) {e : Expr} (hn : ∀ text span, e ≠ .name text span) :
    e.occurrences hidden phase =
      e.children.flatMap (·.occurrences ((e.binders.flatten.map (·.name)) ++ hidden) (phaseBelow e.binders phase)) := by
  cases e with
  | name text span => exact absurd rfl (hn text span)
  | literal | self => rfl
  | access base link guarded span =>
    cases link <;> simp [occurrences, Link.occurrences, children, Link.operands, binders, phaseBelow, listOccurrences_eq]
  | create type args entries span =>
    simp [occurrences, children, binders, phaseBelow, listOccurrences_eq, entryOccurrences_eq]
  | _ => simp [occurrences, children, binders, phaseBelow]

theorem contains_binders (lambdas : List (List LambdaParam)) (hidden : List String) (name : String) :
    (lambdas.flatten.map (·.name) ++ hidden).contains name = (declaredBy lambdas name || hidden.contains name) := by
  rw [List.contains_append]
  congr 1
  induction lambdas with
  | nil => rfl
  | cons params lambdas ih =>
    rw [List.flatten_cons, List.map_append, List.contains_append, ih, declaredBy, declaredBy, List.any_cons]
    congr 1
    induction params with
    | nil => rfl
    | cons param params ih =>
      rw [List.map_cons, List.contains_cons, ih, List.any_cons, Bool.beq_comm]

/-- An expression that is no name holds a name in one of its parts. -/
theorem Expr.holds_name {e : Expr} {lambdas : List (List LambdaParam)} {text : String} {span : Span}
    (hn : ∀ text span, e ≠ .name text span) :
    e.Holds lambdas (.name text span) ↔
      ∃ part ∈ e.children, ∃ inner, lambdas = e.binders ++ inner ∧ part.Holds inner (.name text span) := by
  constructor
  · intro h
    cases h with
    | here => exact absurd rfl (hn text span)
    | part hp h => exact ⟨_, hp, _, rfl, h⟩
  · rintro ⟨part, hp, inner, rfl, h⟩
    exact .part hp h

/-- The names that the walk meets in an expression are those that the expression holds. A name is hidden when it was before or
when a lambda around it declares it. -/
theorem Expr.mem_occurrences {e : Expr} {hidden : List String} {phase : Phase} {o : Occurrence} :
    o ∈ e.occurrences hidden phase ↔
      ∃ lambdas, e.Holds lambdas (.name o.name o.span) ∧ o.phase = phaseBelow lambdas phase ∧
        o.hidden = (declaredBy lambdas o.name || hidden.contains o.name) := by
  induction e using Expr.induction_children generalizing hidden phase with
  | step e ih =>
    by_cases hn : ∀ text span, e ≠ .name text span
    · rw [e.occurrences_eq hidden phase hn, List.mem_flatMap]
      simp only [holds_name hn]
      constructor
      · rintro ⟨part, hp, ho⟩
        obtain ⟨inner, hh, hphase, hhidden⟩ := (ih part hp).1 ho
        refine ⟨_, ⟨part, hp, inner, rfl, hh⟩, ?_, ?_⟩
        · rw [hphase, phaseBelow_append]
        · rw [hhidden, contains_binders, declaredBy_append, ← Bool.or_assoc, Bool.or_comm (declaredBy inner _)]
      · rintro ⟨_, ⟨part, hp, inner, rfl, hh⟩, hphase, hhidden⟩
        refine ⟨part, hp, (ih part hp).2 ⟨inner, hh, ?_, ?_⟩⟩
        · rw [hphase, phaseBelow_append]
        · rw [hhidden, contains_binders, declaredBy_append, ← Bool.or_assoc, Bool.or_comm (declaredBy inner _)]
    · push Not at hn
      obtain ⟨text, span, rfl⟩ := hn
      rw [occurrences, List.mem_singleton]
      constructor
      · rintro rfl
        exact ⟨[], .here _, rfl, rfl⟩
      · rintro ⟨lambdas, hh, hphase, hhidden⟩
        cases hh with
        | here =>
          cases o
          simp_all [phaseBelow, declaredBy]
        | part hp => cases hp

/-! ## Inside statements -/

/-- A statement holds an expression below the locals that are declared in front of it, the latest first. -/
inductive Statement.Holds : Statement → List String → Expr → Prop where
  | value {e : Expr} (span : Span) : Holds (.give (some e) span) [] e
  | condition (e : Expr) (thenBranch : Statement) (elseBranch : Option Statement) (span : Span) :
    Holds (.branch e thenBranch elseBranch span) [] e
  | thenBranch (condition : Expr) {s : Statement} (elseBranch : Option Statement) (span : Span) {locals : List String}
    {e : Expr} (h : s.Holds locals e) : Holds (.branch condition s elseBranch span) locals e
  | elseBranch (condition : Expr) (thenBranch : Statement) {s : Statement} (span : Span) {locals : List String} {e : Expr}
    (h : s.Holds locals e) : Holds (.branch condition thenBranch (some s) span) locals e
  | init (type : Option TypeExpr) (name : String) (nameSpan : Span) {e : Expr} (span : Span) :
    Holds (.local type name nameSpan (some e) span) [] e
  | expr (e : Expr) : Holds (.expr e) [] e
  | block {before : List Statement} {s : Statement} {behind : List Statement} (span : Span) {locals : List String} {e : Expr}
    (h : s.Holds locals e) :
    Holds (.block (before ++ s :: behind) span) (locals ++ before.reverse.flatMap Statement.declares) e

/-- A site is one of the expressions that `holds` tells below names, and further names are hidden there. Such code runs after
construction. -/
def Site.Below (holds : List String → Expr → Prop) (hidden : List String) (site : Site) : Prop :=
  ∃ names, holds names site.expr ∧ site.hidden = names ++ hidden ∧ site.phase = .afterwards

theorem Site.below_one {e : Expr} {holds : List String → Expr → Prop} {hidden : List String} {site : Site}
    (h : ∀ names inner, holds names inner ↔ names = [] ∧ inner = e) :
    site.Below holds hidden ↔ site = ⟨e, hidden, .afterwards⟩ := by
  constructor
  · rintro ⟨names, hh, hs, hp⟩
    obtain ⟨rfl, he⟩ := (h _ _).1 hh
    cases site
    simp_all
  · rintro rfl
    exact ⟨[], (h _ _).2 ⟨rfl, rfl⟩, rfl, rfl⟩

theorem Site.below_option {o : Option Expr} {holds : List String → Expr → Prop} {hidden : List String} {site : Site}
    (h : ∀ names inner, holds names inner ↔ names = [] ∧ o = some inner) :
    site.Below holds hidden ↔ site ∈ optionSites hidden .afterwards o := by
  cases o with
  | none =>
    constructor
    · rintro ⟨names, hh, -⟩
      cases ((h _ _).1 hh).2
    · exact fun hm => absurd hm List.not_mem_nil
  | some e =>
    rw [optionSites, List.mem_singleton]
    refine below_one fun names inner => (h names inner).trans (and_congr_right fun _ => ?_)
    rw [Option.some.injEq, eq_comm]

/-- The sites of statements in a row are those of each of them, below the locals in front of it. -/
theorem mem_statementSites {hidden : List String} {site : Site} {list : List Statement} :
    site ∈ statementSites hidden list ↔ ∃ before s behind, list = before ++ s :: behind ∧
      site ∈ s.sites (before.reverse.flatMap Statement.declares ++ hidden) := by
  induction list generalizing hidden with
  | nil => simp [statementSites]
  | cons s rest ih =>
    rw [statementSites, List.mem_append, ih]
    constructor
    · rintro (h | ⟨before, s', behind, rfl, h⟩)
      · exact ⟨[], s, rest, rfl, h⟩
      · refine ⟨s :: before, s', behind, rfl, ?_⟩
        simpa [List.flatMap_append] using h
    · rintro ⟨before, s', behind, he, h⟩
      cases before with
      | nil =>
        obtain ⟨rfl, rfl⟩ := List.cons.inj he
        exact .inl h
      | cons b before =>
        obtain ⟨rfl, rfl⟩ := List.cons.inj he
        refine .inr ⟨before, s', behind, rfl, ?_⟩
        simpa [List.flatMap_append] using h

mutual

/-- The sites of a statement are the expressions that it holds. -/
theorem Statement.mem_sites {hidden : List String} {site : Site} :
    ∀ s : Statement, site ∈ s.sites hidden ↔ site.Below s.Holds hidden
  | .block list span => by
    rw [Statement.sites, mem_statementSites]
    constructor
    · rintro ⟨before, s, behind, rfl, h⟩
      obtain ⟨locals, hs, hh, hp⟩ := (mem_sitesOf (before ++ s :: behind) s (by simp)).1 h
      exact ⟨_, .block span hs, by simp [hh], hp⟩
    · rintro ⟨_, hs, hh, hp⟩
      cases hs with
      | @block before s behind _ locals _ hs =>
        refine ⟨before, s, behind, rfl, (mem_sitesOf (before ++ s :: behind) s (by simp)).2 ⟨locals, hs, ?_, hp⟩⟩
        simpa using hh
  | .give value span => by
    refine (Site.below_option fun names inner => ?_).symm
    constructor
    · rintro ⟨⟩
      exact ⟨rfl, rfl⟩
    · rintro ⟨rfl, rfl⟩
      exact .value span
  | .branch condition thenBranch elseBranch span => by
    have hc : (Statement.branch condition thenBranch elseBranch span).sites hidden =
        ⟨condition, hidden, .afterwards⟩ :: thenBranch.sites hidden ++ elseBranch.toList.flatMap (·.sites hidden) := by
      cases elseBranch <;> simp [Statement.sites]
    rw [hc, List.mem_append, List.mem_cons, thenBranch.mem_sites]
    constructor
    · rintro ((rfl | ⟨locals, hs, hh⟩) | h)
      · exact ⟨[], .condition .., rfl, rfl⟩
      · exact ⟨locals, .thenBranch _ _ _ hs, hh⟩
      · cases elseBranch with
        | none => cases h
        | some s =>
          obtain ⟨locals, hs, hh⟩ := s.mem_sites.1 (by simpa using h)
          exact ⟨locals, .elseBranch _ _ _ hs, hh⟩
    · rintro ⟨locals, hs, hh⟩
      cases hs with
      | condition =>
        obtain ⟨e, below, phase⟩ := site
        obtain ⟨rfl, rfl⟩ := hh
        exact .inl (.inl rfl)
      | thenBranch _ _ _ hs => exact .inl (.inr ⟨locals, hs, hh⟩)
      | @elseBranch _ _ s _ _ _ hs => exact .inr (by simpa using s.mem_sites.2 ⟨locals, hs, hh⟩)
  | .local type name nameSpan init span => by
    refine (Site.below_option fun names inner => ?_).symm
    constructor
    · rintro ⟨⟩
      exact ⟨rfl, rfl⟩
    · rintro ⟨rfl, rfl⟩
      exact .init type name nameSpan span
  | .expr value => by
    rw [Statement.sites, List.mem_singleton]
    refine (Site.below_one fun names inner => ?_).symm
    constructor
    · rintro ⟨⟩
      exact ⟨rfl, rfl⟩
    · rintro ⟨rfl, rfl⟩
      exact .expr _

theorem mem_sitesOf {hidden : List String} {site : Site} :
    ∀ list : List Statement, ∀ s ∈ list, site ∈ s.sites hidden ↔ site.Below s.Holds hidden
  | [], _, h => nomatch h
  | s :: rest, s', h => by
    rcases List.mem_cons.1 h with he | h
    · rw [he]
      exact s.mem_sites
    · exact mem_sitesOf rest s' h

end

/-! ## Inside declarations -/

/-- A body holds an expression below locals. -/
inductive Body.Holds : Body → List String → Expr → Prop where
  | expr (e : Expr) : Holds (.expr e) [] e
  | block {b : Block} {locals : List String} {e : Expr} (h : (Statement.block b.statements b.span).Holds locals e) :
    Holds (.block b) locals e

/-- What a property or an indexer with the given parameters does holds an expression below names: the parameters, and in a
setter the new value. -/
inductive PropertyBody.Holds (params : List Param) : PropertyBody → List String → Expr → Prop where
  | expr (e : Expr) : Holds params (.expr e) (paramNames params) e
  | getter {list : List Accessor} {a : Accessor} {b : Body} {locals : List String} {e : Expr} (ha : a ∈ list)
    (hk : a.kind = .get) (hb : a.body = some b) (h : b.Holds locals e) :
    Holds params (.accessors list) (locals ++ paramNames params) e
  | setter {list : List Accessor} {a : Accessor} {b : Body} {locals : List String} {e : Expr} (ha : a ∈ list)
    (hk : a.kind = .set) (hb : a.body = some b) (h : b.Holds locals e) :
    Holds params (.accessors list) (locals ++ (paramNames params ++ ["value"])) e

/-- A member holds an expression below names, in its bodies or as a default value of a parameter, which sees no parameter. -/
inductive Member.Holds : Member → List String → Expr → Prop where
  | property {p : PropertyDecl} {names : List String} {e : Expr} (h : p.body.Holds [] names e) : Holds (.property p) names e
  | methodDefault {d : MethodDecl} {p : Param} {e : Expr} (hp : p ∈ d.params) (he : p.default = some e) :
    Holds (.method d) [] e
  | method {d : MethodDecl} {locals : List String} {e : Expr} (h : d.body.Holds locals e) :
    Holds (.method d) (locals ++ paramNames d.params) e
  | indexerDefault {d : IndexerDecl} {p : Param} {e : Expr} (hp : p ∈ d.params) (he : p.default = some e) :
    Holds (.indexer d) [] e
  | indexer {d : IndexerDecl} {names : List String} {e : Expr} (h : d.body.Holds d.params names e) :
    Holds (.indexer d) names e

/-- The initializer of a member. -/
def Member.init? : Member → Option Expr
  | .field f => f.init
  | .property p => p.init
  | .method _ | .indexer _ => none

/-- What an expression of a declaration is: a default value of a parameter of the constructor, an argument for the base, the
initializer of a member, or code of a member. -/
inductive CodePlace where
  | default
  | baseArgument
  | initializer (m : Member)
  | code (m : Member)

/-- Whether the code of a place runs while an instance is constructed. -/
def CodePlace.constructs : CodePlace → Bool
  | .default | .baseArgument => true
  | .initializer m => !m.isStatic
  | .code _ => false

/-- A declaration holds an expression at a place below names. -/
inductive TypeDecl.Holds (d : TypeDecl) : CodePlace → List String → Expr → Prop where
  | default {p : PrimaryParam} {e : Expr} (hp : p ∈ d.params) (he : p.default = some e) : d.Holds .default [] e
  | baseArgument {args : List Expr} {e : Expr} (ha : d.baseArgs? = some args) (he : e ∈ args) : d.Holds .baseArgument [] e
  | initializer {m : Member} {e : Expr} (hm : m ∈ d.members) (he : m.init? = some e) : d.Holds (.initializer m) [] e
  | code {m : Member} {names : List String} {e : Expr} (hm : m ∈ d.members) (h : m.Holds names e) : d.Holds (.code m) names e

/-- The sites of a body are the expressions that it holds. -/
theorem Body.mem_sites {hidden : List String} {site : Site} (b : Body) :
    site ∈ b.sites hidden ↔ site.Below b.Holds hidden := by
  cases b with
  | expr value =>
    rw [Body.sites, List.mem_singleton]
    refine (Site.below_one fun names inner => ?_).symm
    constructor
    · rintro ⟨⟩
      exact ⟨rfl, rfl⟩
    · rintro ⟨rfl, rfl⟩
      exact .expr _
  | block b =>
    refine ((Statement.block b.statements b.span).mem_sites).trans (exists_congr fun names => and_congr_left fun _ => ?_)
    exact ⟨.block, fun h => by cases h; assumption⟩

/-- The phase in which the code of a place runs. -/
def CodePlace.phase (p : CodePlace) : Phase :=
  if p.constructs then .construction else .afterwards

theorem mem_optionSites {hidden : List String} {phase : Phase} {o : Option Expr} {site : Site} :
    site ∈ optionSites hidden phase o ↔ o = some site.expr ∧ site.hidden = hidden ∧ site.phase = phase := by
  cases o with
  | none => simp [optionSites]
  | some e =>
    cases site
    rw [optionSites, List.mem_singleton, Site.mk.injEq, Option.some.injEq, @eq_comm _ e]

/-- The sites of default values are the default values. -/
theorem mem_defaultSites {params : List Param} {site : Site} :
    site ∈ defaultSites params ↔
      (∃ p ∈ params, p.default = some site.expr) ∧ site.hidden = [] ∧ site.phase = .afterwards := by
  simp only [defaultSites, List.mem_flatMap, mem_optionSites]
  grind

/-- The sites of what a property or an indexer does are the expressions that it holds. -/
theorem PropertyBody.mem_sites {params : List Param} {site : Site} (b : PropertyBody) :
    site ∈ b.sites params ↔ site.Below (b.Holds params) [] := by
  cases b with
  | expr value =>
    rw [PropertyBody.sites, List.mem_singleton]
    constructor
    · rintro rfl
      exact ⟨_, .expr value, (List.append_nil _).symm, rfl⟩
    · rintro ⟨names, hh, hs, hp⟩
      cases hh
      cases site
      simp_all
  | accessors list =>
    have ha : ∀ a : Accessor, site ∈ a.sites params ↔
        ∃ b, a.body = some b ∧ site.Below b.Holds (paramNames params ++ a.kind.implicitNames) := by
      intro a
      rw [Accessor.sites]
      cases a.body with
      | none => simp
      | some b => simp [b.mem_sites]
    simp only [PropertyBody.sites, List.mem_flatMap, ha]
    constructor
    · rintro ⟨a, hm, b, hb, locals, hh, hs, hp⟩
      cases hk : a.kind with
      | get => exact ⟨_, .getter hm hk hb hh, by simpa [hk, AccessorKind.implicitNames] using hs, hp⟩
      | set => exact ⟨_, .setter hm hk hb hh, by simpa [hk, AccessorKind.implicitNames] using hs, hp⟩
    · rintro ⟨names, hh, hs, hp⟩
      cases hh with
      | getter hm hk hb hh => exact ⟨_, hm, _, hb, _, hh, by simpa [hk, AccessorKind.implicitNames] using hs, hp⟩
      | setter hm hk hb hh => exact ⟨_, hm, _, hb, _, hh, by simpa [hk, AccessorKind.implicitNames] using hs, hp⟩

/-- The sites of a member are its initializer and the expressions that it holds. -/
theorem Member.mem_sites {site : Site} (m : Member) :
    site ∈ m.sites ↔ site.Below m.Holds [] ∨
      m.init? = some site.expr ∧ site.hidden = [] ∧ site.phase = (CodePlace.initializer m).phase := by
  have hp : (CodePlace.initializer m).phase = m.initPhase := by
    show (if (!m.isStatic) = true then Phase.construction else .afterwards) = if m.isStatic = true then .afterwards else _
    cases m.isStatic <;> rfl
  rw [hp]
  cases m with
  | field f =>
    rw [Member.sites, mem_optionSites]
    refine ⟨.inr, fun h => h.resolve_left ?_⟩
    rintro ⟨names, ⟨⟩, -⟩
  | property p =>
    rw [Member.sites, List.mem_append, p.body.mem_sites, mem_optionSites]
    refine or_congr_left (exists_congr fun names => and_congr_left fun _ => ?_)
    exact ⟨.property, fun h => by cases h; assumption⟩
  | method d =>
    rw [Member.sites, List.mem_append, mem_defaultSites, d.body.mem_sites]
    constructor
    · rintro (⟨⟨p, hp, he⟩, hs, hq⟩ | ⟨locals, hh, hs, hq⟩)
      · exact .inl ⟨[], .methodDefault hp he, hs, hq⟩
      · exact .inl ⟨_, .method hh, by rw [hs, List.append_nil], hq⟩
    · rintro (⟨names, hh, hs, hq⟩ | ⟨hi, -⟩)
      · rw [List.append_nil] at hs
        cases hh with
        | methodDefault hp he => exact .inl ⟨⟨_, hp, he⟩, hs, hq⟩
        | method hh => exact .inr ⟨_, hh, hs, hq⟩
      · cases hi
  | indexer d =>
    rw [Member.sites, List.mem_append, mem_defaultSites, d.body.mem_sites]
    constructor
    · rintro (⟨⟨p, hp, he⟩, hs, hq⟩ | ⟨names, hh, hs, hq⟩)
      · exact .inl ⟨[], .indexerDefault hp he, hs, hq⟩
      · exact .inl ⟨_, .indexer hh, hs, hq⟩
    · rintro (⟨names, hh, hs, hq⟩ | ⟨hi, -⟩)
      · cases hh with
        | indexerDefault hp he => exact .inl ⟨⟨_, hp, he⟩, hs, hq⟩
        | indexer hh => exact .inr ⟨_, hh, hs, hq⟩
      · cases hi

/-- The sites of a declaration are the expressions that it holds. -/
theorem TypeDecl.mem_sites {d : TypeDecl} {site : Site} :
    site ∈ d.sites ↔ ∃ place, d.Holds place site.hidden site.expr ∧ site.phase = place.phase := by
  rw [sites, headerSites, List.mem_append, List.mem_append, List.mem_flatMap, List.mem_flatMap, List.mem_map]
  constructor
  · rintro ((⟨p, hp, h⟩ | ⟨e, he, rfl⟩) | ⟨m, hm, h⟩)
    · obtain ⟨hd, hs, hq⟩ := mem_optionSites.1 h
      exact ⟨.default, hs ▸ .default hp hd, hq⟩
    · cases ha : d.baseArgs? with
      | none =>
        rw [ha] at he
        cases he
      | some args =>
        rw [ha] at he
        exact ⟨.baseArgument, .baseArgument ha he, rfl⟩
    · rcases m.mem_sites.1 h with ⟨names, hh, hs, hq⟩ | ⟨hi, hs, hq⟩
      · rw [List.append_nil] at hs
        exact ⟨.code m, hs ▸ .code hm hh, hq⟩
      · exact ⟨.initializer m, hs ▸ .initializer hm hi, hq⟩
  · obtain ⟨e, hidden, phase⟩ := site
    rintro ⟨place, hh, hq⟩
    cases hh with
    | default hp he => exact .inl (.inl ⟨_, hp, mem_optionSites.2 ⟨he, rfl, hq⟩⟩)
    | baseArgument ha he => exact .inl (.inr ⟨e, by rw [ha]; exact he, by rw [show phase = _ from hq]; rfl⟩)
    | initializer hm hi => exact .inr ⟨_, hm, (Member.mem_sites _).2 (.inr ⟨hi, rfl, hq⟩)⟩
    | code hm hh => exact .inr ⟨_, hm, (Member.mem_sites _).2 (.inl ⟨_, hh, (List.append_nil _).symm, hq⟩)⟩

/-! ## Names -/

/-- A name stands as an expression at a place of a declaration, below lambdas, and neither a lambda nor anything else around
it declares the name: no parameter of the member, no setter, and no local in front of it. -/
def TypeDecl.Mentions (d : TypeDecl) (name : String) (span : Span) (place : CodePlace)
    (lambdas : List (List LambdaParam)) : Prop :=
  ∃ names e, d.Holds place names e ∧ e.Holds lambdas (.name name span) ∧
    name ∉ names ∧ ∀ params ∈ lambdas, ∀ param ∈ params, param.name ≠ name

/-- The references of a site are the names in it that neither the site nor a lambda declares. -/
theorem Site.mem_references {site : Site} {name : String} {span : Span} {phase : Phase} :
    ⟨name, span, phase⟩ ∈ site.references ↔
      ∃ lambdas, site.expr.Holds lambdas (.name name span) ∧ phase = phaseBelow lambdas site.phase ∧
        name ∉ site.hidden ∧ ∀ params ∈ lambdas, ∀ param ∈ params, param.name ≠ name := by
  have hr : ⟨name, span, phase⟩ ∈ site.references ↔ ⟨name, span, phase, false⟩ ∈ site.occurrences := by
    rw [references, site.expr.references_eq, List.mem_filterMap]
    constructor
    · rintro ⟨⟨text, place, time, hidden⟩, ho, hr⟩
      cases hidden with
      | true => cases hr
      | false =>
        cases hr
        exact ho
    · exact fun ho => ⟨_, ho, rfl⟩
  rw [hr, occurrences, Expr.mem_occurrences]
  refine exists_congr fun lambdas => and_congr_right fun _ => and_congr_right fun _ => ?_
  rw [eq_comm, Bool.or_eq_false_iff, and_comm]
  simp [declaredBy]

/-- The walk finds a name free exactly where the declaration mentions it, in the phase of the place and of the lambdas around
it. -/
theorem TypeDecl.mem_references {d : TypeDecl} {name : String} {span : Span} {phase : Phase} :
    ⟨name, span, phase⟩ ∈ d.references ↔
      ∃ place lambdas, d.Mentions name span place lambdas ∧ phase = phaseBelow lambdas place.phase := by
  rw [d.references_eq, List.mem_flatMap]
  simp only [Site.mem_references, d.mem_sites]
  constructor
  · rintro ⟨site, ⟨place, hh, hq⟩, lambdas, hn, hp, hs, hl⟩
    exact ⟨place, lambdas, ⟨site.hidden, site.expr, hh, hn, hs, hl⟩, by rw [hp, hq]⟩
  · rintro ⟨place, lambdas, ⟨names, e, hh, hn, hs, hl⟩, hp⟩
    exact ⟨⟨e, names, place.phase⟩, ⟨place, hh, rfl⟩, lambdas, hn, hp, hs, hl⟩

end NavCheck
