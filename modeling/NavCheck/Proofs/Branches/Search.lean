import NavCheck.Proofs.Grammar.Soundness
import NavCheck.Proofs.Spellable

/-!
# Searching in what was read

To tell a conditional from a guarded invocation the parser searches the tokens ahead for a `:`. What an expression does to this
search can be told from its tree. Tokens that the grammar derives close each of their brackets, and nothing inside of these is
looked at; outside of them a conditional comes out even, and what does not is what `Expr.strays` says. So the tree of a then-branch
tells whether the `?` of every conditional in it is found to be one, which is what `Expr.keepsBranches` says.
-/

namespace NavCheck

open Grammar

/-! ## Then-branches -/

/-- Whether a link invokes its base. -/
def Link.invokes : Link → Bool
  | .invoke _ => true
  | _ => false

namespace Expr

/-- An access shows a stray `?` where it guards an invocation. -/
theorem strays_access (base : Expr) (link : Link) (guarded : Bool) (span : Span) :
    (access base link guarded span).strays = (base.strays || (guarded && link.invokes)) := by
  cases link <;> simp [strays, Link.invokes]

/-- Whether an expression may begin with a parenthesis. The parameter of a lambda may stand in parentheses as well. -/
def mayOpen : Expr → Bool
  | .literal _ _ | .name _ _ | .self _ | .unary _ _ _ | .create _ _ _ _ => false
  | .paren _ _ | .lambda _ _ _ => true
  | .binary _ left _ _ => left.mayOpen
  | .conditional condition _ _ _ => condition.mayOpen
  | .assign target _ _ => target.mayOpen
  | .access base _ _ _ => base.mayOpen

/-- Whether no conditional outside of brackets is taken for a guarded invocation while the `:` of a conditional around the
expression is still ahead. `later` says whether something stray stands between the expression and the last such `:`. -/
def keepsBranches (later : Bool) : Expr → Bool
  | .literal _ _ | .name _ _ | .self _ | .paren _ _ | .create _ _ _ _ => true
  | .unary _ operand _ => operand.keepsBranches later
  | .binary _ left right _ => left.keepsBranches (right.strays || later) && right.keepsBranches later
  | .conditional condition thenBranch elseBranch _ =>
    !(thenBranch.mayOpen && (thenBranch.strays || (elseBranch.strays || later))) &&
      (condition.keepsBranches (thenBranch.strays || (elseBranch.strays || later)) &&
        (thenBranch.keepsBranches (elseBranch.strays || later) && elseBranch.keepsBranches later))
  | .assign target value _ => target.keepsBranches (value.strays || later) && value.keepsBranches later
  | .lambda _ body _ => body.keepsBranches later
  | .access base link guarded _ => base.keepsBranches ((guarded && link.invokes) || later)

/-- Whether an expression may stand between the marks of a conditional: where it may begin with a parenthesis, it shows nothing
stray, and it keeps its own conditionals there. -/
def standsBetween (e : Expr) : Bool :=
  !(e.mayOpen && e.strays) && e.keepsBranches false

end Expr

/-! Places do not matter for this. -/

/-- Without its places a link invokes what it invokes with them. -/
theorem Link.invokes_erased (link : Link) : link.erased.invokes = link.invokes := by
  cases link <;> rfl

mutual

/-- Without its places a type shows the search what it shows with them. -/
theorem TypeExpr.strays_erased : ∀ t : TypeExpr, t.erased.strays = t.strays
  | ⟨name, args, suffixes, _⟩ => by
    rw [TypeExpr.erased, TypeExpr.strays, TypeExpr.strays, typesStray_erased args]

/-- Without their places types show the search what they show with them. -/
theorem typesStray_erased : ∀ ts : List TypeExpr, typesStray (erasedTypes ts) = typesStray ts
  | [] => rfl
  | [t] => t.strays_erased
  | _ :: _ :: _ => rfl

end

namespace Expr

/-- Without its places an expression shows the search what it shows with them. -/
theorem strays_erased : ∀ e : Expr, e.erased.strays = e.strays
  | .literal _ _ | .name _ _ | .self _ | .paren _ _ => rfl
  | .unary _ operand _ => operand.strays_erased
  | .binary _ left right _ => by rw [erased, strays, strays, left.strays_erased, right.strays_erased]
  | .conditional condition thenBranch elseBranch _ => by
    rw [erased, strays, strays, condition.strays_erased, thenBranch.strays_erased, elseBranch.strays_erased]
  | .assign target value _ => by rw [erased, strays, strays, target.strays_erased, value.strays_erased]
  | .lambda _ body _ => body.strays_erased
  | .access base link guarded _ => by
    rw [erased, strays_access, strays_access, base.strays_erased, link.invokes_erased]
  | .create type _ _ _ => type.strays_erased

/-- Without its places an expression may open what it may open with them. -/
theorem mayOpen_erased : ∀ e : Expr, e.erased.mayOpen = e.mayOpen
  | .literal _ _ | .name _ _ | .self _ | .unary _ _ _ | .create _ _ _ _ | .paren _ _ | .lambda _ _ _ => rfl
  | .binary _ left _ _ => left.mayOpen_erased
  | .conditional condition _ _ _ => condition.mayOpen_erased
  | .assign target _ _ => target.mayOpen_erased
  | .access base _ _ _ => base.mayOpen_erased

/-- Without its places an expression keeps the branches that it keeps with them. -/
theorem keepsBranches_erased (later : Bool) : ∀ e : Expr, e.erased.keepsBranches later = e.keepsBranches later
  | .literal _ _ | .name _ _ | .self _ | .paren _ _ | .create _ _ _ _ => rfl
  | .unary _ operand _ => operand.keepsBranches_erased later
  | .binary _ left right _ => by
    rw [erased, keepsBranches, keepsBranches, right.strays_erased, left.keepsBranches_erased, right.keepsBranches_erased]
  | .conditional condition thenBranch elseBranch _ => by
    rw [erased, keepsBranches, keepsBranches, thenBranch.mayOpen_erased, thenBranch.strays_erased, elseBranch.strays_erased,
      condition.keepsBranches_erased, thenBranch.keepsBranches_erased, elseBranch.keepsBranches_erased]
  | .assign target value _ => by
    rw [erased, keepsBranches, keepsBranches, value.strays_erased, target.keepsBranches_erased, value.keepsBranches_erased]
  | .lambda _ body _ => body.keepsBranches_erased later
  | .access base link guarded _ => by
    rw [erased, keepsBranches, keepsBranches, link.invokes_erased, base.keepsBranches_erased]

/-- Whether an expression may stand between the marks of a conditional does not depend on its places. -/
theorem standsBetween_congr {e e' : Expr} (h : e'.erased = e.erased) : e'.standsBetween = e.standsBetween := by
  have hs (e : Expr) : e.erased.standsBetween = e.standsBetween := by
    rw [standsBetween, e.mayOpen_erased, e.strays_erased, e.keepsBranches_erased, standsBetween]
  rw [← hs e', h, hs e]

end Expr

/-! ## Brackets -/

namespace Token

variable {t : Token}

/-- A mark opens a bracket as a token when it does as a mark. -/
theorem opens_of_kind {mark : Punct} (hk : t.kind = .punct mark) : t.opens = mark.opens := by
  rw [opens, hk]

/-- A mark closes a bracket as a token when it does as a mark. -/
theorem closes_of_kind {mark : Punct} (hk : t.kind = .punct mark) : t.closes = mark.closes := by
  rw [closes, hk]

/-- The search passes over names. -/
theorem isQuiet_of_name (hk : t.kind = .name) : t.isQuiet = true := by
  rw [isQuiet, hk]

/-- The search passes over signs. -/
theorem isQuiet_of_sign {sign : Sign} (hk : t.kind = .sign sign) : t.isQuiet = true := by
  rw [isQuiet, hk]

/-- The search passes over keywords. -/
theorem isQuiet_of_keyword {word : Keyword} (hk : t.kind = .keyword word) : t.isQuiet = true := by
  rw [isQuiet, hk]

/-- The search passes over literals. -/
theorem isQuiet_of_literal? {value : Literal} (h : t.kind.literal? = some value) : t.isQuiet = true := by
  unfold TokenKind.literal? at h
  unfold isQuiet
  split at h <;> simp_all

end Token

namespace Balanced

variable {ts us : List Token}

/-- A mark that is no bracket. -/
theorem mark {t : Token} {mark : Punct} (hk : t.kind = .punct mark) (h : Balanced ts) (ho : mark.opens = false := by rfl)
    (hc : mark.closes = false := by rfl) : Balanced (t :: ts) :=
  h.cons (by rw [Token.opens_of_kind hk, ho]) (by rw [Token.closes_of_kind hk, hc])

/-- Marks that are brackets, with what is between them. -/
theorem enclosed {o c : Token} {l r : Punct} (ho : o.kind = .punct l) (hc : c.kind = .punct r) (h : Balanced ts)
    (hl : l.opens = true := by rfl) (hr : r.closes = true := by rfl) : Balanced (o :: (ts ++ [c])) :=
  h.bracket (by rw [Token.opens_of_kind ho, hl]) (by rw [Token.closes_of_kind hc, hr])

end Balanced

/-- Tokens that are derived close each of their brackets. -/
theorem Grammar.Derives.balanced {construct : Construct} {ts : List Token} (h : Derives construct ts) : Balanced ts := by
  induction h with
  | tighter _ _ ih | invoke _ ih | lastExpr _ ih | lastParam _ ih | argsOnly _ ih | entriesOnly _ ih | lastEntry _ ih
  | lastType _ ih => exact ih
  | noTypeArgs | noSuffixes => exact .nil
  | assign _ hk _ ih₁ ih₂ | binary _ hk _ ih₁ ih₂ | lambda _ hk _ ih₁ ih₂ | memberEntry _ hk _ ih₁ ih₂ =>
    exact ih₁.append (ih₂.quiet (Token.isQuiet_of_sign hk))
  | conditional _ hq _ hk _ ih₁ ih₂ ih₃ => exact ih₁.append ((ih₂.append (ih₃.mark hk)).mark hq)
  | unary hk _ ih => exact ih.quiet (Token.isQuiet_of_sign hk)
  | access _ _ ih₁ ih₂ | argsAndEntries _ _ ih₁ ih₂ => exact ih₁.append ih₂
  | guarded _ hq _ ih₁ ih₂ => exact ih₁.append (ih₂.mark hq)
  | name hk | plainName hk | soleParam hk | untyped hk => exact .quiet (Token.isQuiet_of_name hk) .nil
  | literal hv => exact .quiet (Token.isQuiet_of_literal? hv) .nil
  | self hk => exact .quiet (Token.isQuiet_of_keyword hk) .nil
  | paren ho _ hc ih | element ho _ hc ih | someArgs ho _ hc ih | someParams ho _ hc ih | someEntries ho _ hc ih =>
    exact ih.enclosed ho hc
  | noArgs ho hc | noParams ho hc | noEntries ho hc => exact Balanced.nil.enclosed ho hc
  | create hk _ _ ih₁ ih₂ => exact .quiet (Token.isQuiet_of_keyword hk) (ih₁.append ih₂)
  | member hk _ ih => exact ih.mark hk
  | keyedName hd hk _ => exact .mark hd (.quiet (Token.isQuiet_of_name hk) .nil)
  | moreExprs _ hk _ ih₁ ih₂ | moreParams _ hk _ ih₁ ih₂ | moreEntries _ hk _ ih₁ ih₂ | moreTypes _ hk _ ih₁ ih₂ =>
    exact ih₁.append (ih₂.mark hk)
  | lastEntryComma _ hk ih => exact ih.append (Balanced.nil.mark hk)
  | typed _ hk ih => exact ih.append (.quiet (Token.isQuiet_of_name hk) .nil)
  | elementEntry ho _ hc hk _ ih₁ ih₂ => exact (ih₁.enclosed ho hc).append (ih₂.quiet (Token.isQuiet_of_sign hk))
  | type hk _ _ ih₁ ih₂ => exact .quiet (Token.isQuiet_of_name hk) (ih₁.append ih₂)
  | someTypeArgs ho _ hc ih =>
    exact .quiet (Token.isQuiet_of_sign ho) (ih.append (.quiet (Token.isQuiet_of_sign hc) .nil))
  | nullable hk _ ih => exact ih.mark hk
  | array ho hc _ ih => exact (Balanced.nil.enclosed ho hc).append ih

/-! ## First tokens -/

/-- What a construct begins with: an expression or a row of parameters with a token that an operand can begin with, and an
expression with a parenthesis only if it may. -/
def Grammar.Construct.Begins : Construct → List Token → Prop
  | .expr _ e, ts => ∃ t us, ts = t :: us ∧ t.startsOperand = true ∧ (t.kind = .punct .openParen → e.mayOpen = true)
  | .params _, ts => ∃ t us, ts = t :: us ∧ t.startsOperand = true
  | _, _ => True

/-- What is derived begins as its construct does. -/
theorem Grammar.Derives.begins {construct : Construct} {ts : List Token} (h : Derives construct ts) :
    construct.Begins ts := by
  induction h with
  | tighter _ _ ih => exact ih
  | assign _ _ _ ih | binary _ _ _ ih | conditional _ _ _ _ _ ih | access _ _ ih | guarded _ _ _ ih =>
    obtain ⟨t, us, rfl, hs, ho⟩ := ih
    exact ⟨t, _, List.cons_append, hs, ho⟩
  | @unary op _ _ _ hk =>
    exact ⟨_, _, rfl, by rw [Token.startsOperand, hk]; cases op <;> rfl, by simp [hk]⟩
  | name hk => exact ⟨_, _, rfl, by rw [Token.startsOperand, hk], by simp [hk]⟩
  | @literal value t hv =>
    refine ⟨_, _, rfl, ?_, fun hk => ?_⟩
    · unfold TokenKind.literal? at hv
      unfold Token.startsOperand
      split at hv <;> simp_all
    · rw [hk] at hv
      cases hv
  | self hk => exact ⟨_, _, rfl, by rw [Token.startsOperand, hk], by simp [hk]⟩
  | paren ho _ _ => exact ⟨_, _, rfl, by rw [Token.startsOperand, ho], fun _ => rfl⟩
  | lambda _ _ _ ih =>
    obtain ⟨t, us, rfl, hs⟩ := ih
    exact ⟨t, _, List.cons_append, hs, fun _ => rfl⟩
  | create hk _ _ => exact ⟨_, _, rfl, by rw [Token.startsOperand, hk], by simp [hk]⟩
  | soleParam hk => exact ⟨_, _, rfl, by rw [Token.startsOperand, hk]⟩
  | noParams ho _ | someParams ho _ _ => exact ⟨_, _, rfl, by rw [Token.startsOperand, ho]⟩
  | _ => trivial

/-- No `?` guards the access to a member or an element in front of an expression. -/
theorem Grammar.Derives.guardsLink_expr {level : Level} {e : Expr} {ts : List Token} (h : Derives (.expr level e) ts)
    (rest : List Token) : guardsLink (ts ++ rest) = false := by
  obtain ⟨t, us, rfl, hs, -⟩ := h.begins
  exact guardsLink_of_startsOperand hs (us ++ rest)

/-! ## Derived tokens in front of the search -/

namespace Skips

variable {ts us rest : List Token} {a : Bool}

/-- The search passes over a bracket. -/
theorem enclosed {o c : Token} {l r : Punct} (ho : o.kind = .punct l) (hc : c.kind = .punct r) (h : Balanced ts)
    (hl : l.opens = true := by rfl) (hr : r.closes = true := by rfl) : Skips (o :: (ts ++ [c])) rest false :=
  bracket (by rw [Token.opens_of_kind ho, hl]) (by rw [Token.closes_of_kind hc, hr]) h

end Skips

/-- What the tokens of a construct do to the search in front of all others, or in front of tokens before which no `?` guards the
access to a member or an element. -/
def Grammar.Construct.Skipped : Construct → List Token → Prop
  | .expr _ e, ts => e.Spellable → ∀ rest, Skips ts rest e.strays
  | .link l, ts => ∀ rest, Skips ts rest false ∧ guardsLink (ts ++ rest) = !l.invokes
  | .memberName _ _, ts | .params _, ts => ∀ rest, Skips ts rest false
  | .args _, ts | .initializer _, ts | .creation _ _, ts => ∀ rest, Skips ts rest false ∧ guardsLink (ts ++ rest) = false
  | .type t, ts => t.Fits → ∀ rest, guardsLink rest = false → Skips ts rest t.strays
  | .typeArgs tys, ts => TypesFit tys → ∀ rest, Skips ts rest (typesStray tys)
  | .types tys, ts => TypesFit tys → ∀ rest, guardsLink rest = false → Skips ts rest (typesStray tys)
  | .suffixes marks, ts => ArraysFirst marks → ∀ rest, guardsLink rest = false →
    Skips ts rest (marks.contains .nullable) ∧ ((∀ s ∈ marks, s = .nullable) → guardsLink (ts ++ rest) = false)
  | _, _ => True

/-- A mark guards a link when it is a dot or an opening bracket. -/
theorem guardsLink_of_mark {t : Token} {mark : Punct} (hk : t.kind = .punct mark) (rest : List Token) :
    guardsLink (t :: rest) = (mark == .dot || mark == .openBracket) := by
  rw [guardsLink, Token.isMark, Token.isMark, hk]
  cases mark <;> rfl

/-- Suffixes that are all `?` have no array suffix behind a `?`. -/
theorem arraysFirst_of_nullable {suffixes : List TypeSuffix} (h : ∀ s ∈ suffixes, s = .nullable) : ArraysFirst suffixes := by
  cases suffixes with
  | nil => trivial
  | cons s suffixes =>
    obtain ⟨rfl, hs⟩ := List.forall_mem_cons.1 h
    exact hs

/-- What is derived shows the search what its construct shows. -/
theorem Grammar.Derives.skipped {construct : Construct} {ts : List Token} (h : Derives construct ts) :
    construct.Skipped ts := by
  induction h with
  | tighter _ _ ih => exact ih
  | assign _ hk _ ih₁ ih₂ =>
    intro hs rest
    obtain ⟨-, ht, hv⟩ := hs
    exact (ih₁ ht _).append (.quiet (Token.isQuiet_of_sign hk) (ih₂ hv rest))
  | binary _ hk _ ih₁ ih₂ =>
    exact fun hs rest => (ih₁ hs.1 _).append (.quiet (Token.isQuiet_of_sign hk) (ih₂ hs.2 rest))
  | conditional _ hq h₂ hk _ ih₁ ih₂ ih₃ =>
    intro hs rest
    obtain ⟨hc, ht, he⟩ := hs
    exact (ih₁ hc _).append (.branches hq hk (h₂.guardsLink_expr _) (ih₂ ht _) (ih₃ he rest))
  | unary hk _ ih => exact fun hs rest => .quiet (Token.isQuiet_of_sign hk) (ih hs rest)
  | access _ _ ih₁ ih₂ =>
    intro hs rest
    rw [Expr.strays_access, Bool.false_and]
    exact (ih₁ hs.1 _).append (ih₂ rest).1
  | @guarded _ link _ _ _ _ hq _ ih₁ ih₂ =>
    intro hs rest
    rw [Expr.strays_access, Bool.true_and]
    refine (ih₁ hs.1 _).append ?_
    obtain ⟨hl, hg⟩ := ih₂ rest
    cases hi : link.invokes with
    | false => exact .guard hq (by rw [hg, hi]; rfl) hl
    | true => exact .question hq (by rw [hg, hi]; rfl) hl
  | name hk => exact fun _ _ => .quiet (Token.isQuiet_of_name hk) (.nil _)
  | literal hv => exact fun _ _ => .quiet (Token.isQuiet_of_literal? hv) (.nil _)
  | self hk => exact fun _ _ => .quiet (Token.isQuiet_of_keyword hk) (.nil _)
  | paren ho h hc _ => exact fun _ _ => .enclosed ho hc h.balanced
  | lambda _ hk _ ih₁ ih₂ =>
    exact fun hs rest => (ih₁ _).append (.quiet (Token.isQuiet_of_sign hk) (ih₂ hs.2 rest))
  | create hk _ _ ih₁ ih₂ =>
    intro hs rest
    have h := (ih₁ hs.1 _ (ih₂ rest).2).append (ih₂ rest).1
    rw [Bool.or_false] at h
    exact .quiet (Token.isQuiet_of_keyword hk) h
  | member hk _ ih =>
    exact fun rest => ⟨.quiet (by rw [Token.isQuiet, hk]) (ih rest), guardsLink_of_mark hk _⟩
  | element ho h hc _ => exact fun rest => ⟨.enclosed ho hc h.balanced, guardsLink_of_mark ho _⟩
  | invoke _ ih => exact ih
  | plainName hk => exact fun _ => .quiet (Token.isQuiet_of_name hk) (.nil _)
  | keyedName hd hk _ =>
    exact fun _ => .quiet (by rw [Token.isQuiet, hd]) (.quiet (Token.isQuiet_of_name hk) (.nil _))
  | noArgs ho hc | noEntries ho hc => exact fun rest => ⟨.enclosed ho hc .nil, guardsLink_of_mark ho _⟩
  | someArgs ho h hc _ | someEntries ho h hc _ =>
    exact fun rest => ⟨.enclosed ho hc h.balanced, guardsLink_of_mark ho _⟩
  | soleParam hk => exact fun _ => .quiet (Token.isQuiet_of_name hk) (.nil _)
  | noParams ho hc => exact fun _ => .enclosed ho hc .nil
  | someParams ho h hc _ => exact fun _ => .enclosed ho hc h.balanced
  | argsOnly _ ih | entriesOnly _ ih => exact ih
  | argsAndEntries _ _ ih₁ ih₂ =>
    exact fun rest => ⟨(ih₁ _).1.append (ih₂ rest).1, by rw [List.append_assoc]; exact (ih₁ _).2⟩
  | type hk _ _ ih₁ ih₂ =>
    intro hf rest hr
    obtain ⟨-, ha, hs⟩ := hf
    exact .quiet (Token.isQuiet_of_name hk) ((ih₁ ha _).append (ih₂ hs rest hr).1)
  | noTypeArgs => exact fun _ _ => .nil _
  | someTypeArgs ho _ hc ih =>
    intro hf rest
    have h := (ih hf _ (by simp [guardsLink, Token.isMark, hc])).append (.quiet (Token.isQuiet_of_sign hc) (.nil rest))
    rw [Bool.or_false] at h
    exact .quiet (Token.isQuiet_of_sign ho) h
  | lastType _ ih => exact fun hf rest hr => ih hf.1 rest hr
  | @moreTypes first more _ _ _ _ hk h ih =>
    intro hf rest _
    have hstray : typesStray (first :: more) = true := by
      cases more with
      | nil => cases h
      | cons => rfl
    rw [hstray]
    intro n _
    rw [List.append_assoc]
    exact Skips.comma hk (ih hf.1 _ (guardsLink_of_mark hk _)) n
  | noSuffixes => exact fun _ rest hr => ⟨.nil _, fun _ => hr⟩
  | @nullable suffixes _ _ hk _ ih =>
    intro hs rest hr
    obtain ⟨h, hl⟩ := ih (arraysFirst_of_nullable hs) rest hr
    refine ⟨fun n hn => ?_, fun _ => guardsLink_of_mark hk _⟩
    rw [List.cons_append, guards_question _ hk (hl hs)]
    exact h.guards hn
  | array ho hc _ ih =>
    exact fun hs rest hr => ⟨(Skips.enclosed ho hc .nil).append (ih hs rest hr).1,
      fun hn => absurd (hn .array List.mem_cons_self) (by decide)⟩
  | _ => trivial

/-! ## What was read in front of the search -/

namespace Cursor

variable {c d e : Cursor}

/-- The tokens ahead are those of a source, in its order. -/
structure FromSource (c : Cursor) : Prop where
  order : InSourceOrder c.ahead
  genuine : c.Genuine

/-- Passing tokens of a source leaves tokens of a source. -/
theorem FromSource.of_passes (h : c.FromSource) {ts : List Token} (hp : c.Passes ts d) : d.FromSource :=
  ⟨hp.inSourceOrder h.order, h.genuine.of_passes hp⟩

/-- Accepting a token of a source leaves tokens of a source. -/
theorem FromSource.accepted (h : c.FromSource) {kind : TokenKind} {p : Parsed Token c} (hp : c.accept? kind = some p) :
    p.next.FromSource :=
  h.of_passes (passes_accept? hp)

/-- The tokens between two cursors close each of their brackets, and show something stray outside of them or do not. -/
def Shows (c : Cursor) (stray : Bool) (d : Cursor) : Prop :=
  ∃ ts, c.Passes ts d ∧ Balanced ts ∧ ∀ rest, Skips ts rest stray

namespace Shows

variable {a b : Bool}

/-- Passing no tokens shows nothing stray. -/
theorem refl (c : Cursor) : c.Shows false c :=
  ⟨[], .refl c, .nil, fun _ => .nil _⟩

/-- Tokens one behind the other show something stray when one of them does. -/
theorem trans (h : c.Shows a d) (h' : d.Shows b e) : c.Shows (a || b) e := by
  obtain ⟨ts, hp, hb, hs⟩ := h
  obtain ⟨us, hp', hb', hs'⟩ := h'
  exact ⟨ts ++ us, hp.trans hp', hb.append hb', fun rest => (hs _).append (hs' rest)⟩

/-- A token that the search passes over. -/
theorem quiet {t : Token} (hp : c.Passes [t] d) (hq : t.isQuiet = true) (h : d.Shows a e) : c.Shows a e := by
  obtain ⟨ts, hts, hb, hs⟩ := h
  exact ⟨_, hp.trans hts, hb.quiet hq, fun rest => (hs rest).quiet hq⟩

end Shows

/-- What is derived from an expression shows what the expression does. -/
theorem DerivesExpr.shows {level : Level} {x : Expr} (h : c.DerivesExpr level x d) (hs : x.Spellable) (hc : c.FromSource) :
    c.Shows x.strays d := by
  obtain ⟨ts, hp, hd⟩ := h hc.order
  exact ⟨ts, hp, hd.balanced, hd.skipped hs⟩

end Cursor

/-- What an expression that was read shows to the search. -/
def Phrase.Shown : Phrase → Cursor → Cursor → Prop
  | .assign _ e, c, d | .conditional _ e, c, d | .binary _ _ e, c, d | .unary _ e, c, d | .primary _ e, c, d =>
    c.Shows e.strays d
  | _, _, _ => True

/-- The tokens of an expression that was read show the search what the form of the expression says. -/
theorem Reads.shown {phrase : Phrase} {c d : Cursor} (h : Reads phrase c d) (hc : c.FromSource) : phrase.Shown c d := by
  have hd := h.derived
  have hs := h.spellable hc.genuine
  cases phrase with
  | assign => exact hd.shows hs hc
  | conditional | binary | unary | primary => exact hd.shows hs.1 hc
  | _ => trivial

/-- The tokens that are passed for an access. -/
theorem Reads.shows_access {pending : Nat} {link : Link} {c d : Cursor} {mark : Parsed (AccessStart × Bool) c}
    (hm : c.accessStart? pending = some mark) (h : Reads (.link mark.value.1 mark.value.2 link) mark.next d)
    (hc : c.FromSource) : c.Shows (mark.value.2 && link.invokes) d := by
  obtain ⟨t, hk, hmark⟩ := Cursor.marks_of_accessStart? hm
  have hnext : mark.next.FromSource := by
    rcases hmark with ⟨-, hp⟩ | ⟨-, question, -, hp⟩ <;> exact hc.of_passes hp
  obtain ⟨ts, hp', hd⟩ := h.derived t hk hnext.order
  have hlink := hd.skipped
  rcases hmark with ⟨hg, hp⟩ | ⟨hg, question, hq, hp⟩
  · rw [hg, Bool.false_and]
    exact ⟨_, hp.trans hp', hd.balanced, fun rest => (hlink rest).1⟩
  · rw [hg, Bool.true_and]
    refine ⟨question :: t :: ts, hp.trans hp', hd.balanced.mark hq, fun rest => ?_⟩
    obtain ⟨hs, hl⟩ := hlink rest
    cases hi : link.invokes with
    | false => exact .guard hq (by rw [hl, hi]; rfl) hs
    | true => exact .question hq (by rw [hl, hi]; rfl) hs

/-- What a row of operators or accesses adds to what is in front of it: something stray or nothing, in front of which the
conditionals of the first operand or the base stand. -/
structure Cursor.Adds (c : Cursor) (first whole : Expr) (stray : Bool) (d : Cursor) : Prop where
  shows : c.Shows stray d
  strays : whole.strays = (first.strays || stray)
  keeps : ∀ later, whole.keepsBranches later = true → first.keepsBranches (stray || later) = true

/-- What a row of operators or accesses that was read adds. -/
def Phrase.Added : Phrase → Cursor → Cursor → Prop
  | .operators _ _ _ left whole, c, d | .accesses _ _ left whole, c, d => ∃ stray, c.Adds left whole stray d
  | _, _, _ => True

/-- A row that was read adds to its first operand what it shows beside it. -/
theorem Reads.added {phrase : Phrase} {c d : Cursor} (h : Reads phrase c d) : c.FromSource → phrase.Added c d := by
  induction h with
  | operatorsEnd | accessesEnd => exact fun _ => ⟨false, .refl _, (Bool.or_false _).symm, fun _ => id⟩
  | operators ho h₁ _ _ ih =>
    intro hc
    obtain ⟨t, ht, hk, -⟩ := Cursor.sign_of_binOp? ho
    have hright : Cursor.Shows _ _ _ := h₁.shown (hc.of_passes ht)
    obtain ⟨ts, hts⟩ := h₁.passes
    obtain ⟨stray, h⟩ := ih ((hc.of_passes ht).of_passes hts)
    refine ⟨_, (hright.trans h.shows).quiet ht (Token.isQuiet_of_sign hk), ?_, fun later hw => ?_⟩
    · rw [h.strays, Expr.strays, Bool.or_assoc]
    · have hl := h.keeps later hw
      rw [Expr.keepsBranches, Bool.and_eq_true] at hl
      rw [Bool.or_assoc]
      exact hl.1
  | accesses hm h₁ _ _ ih =>
    intro hc
    have hlink := h₁.shows_access hm hc
    obtain ⟨ts, hts, -⟩ := id hlink
    obtain ⟨stray, h⟩ := ih (hc.of_passes hts)
    refine ⟨_, hlink.trans h.shows, ?_, fun later hw => ?_⟩
    · rw [h.strays, Expr.strays_access, Bool.or_assoc]
    · have hl := h.keeps later hw
      rw [Expr.keepsBranches] at hl
      rw [Bool.or_assoc]
      exact hl
  | _ => exact fun _ => trivial

end NavCheck
