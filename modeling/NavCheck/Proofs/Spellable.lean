import NavCheck.Proofs.ReadBack

/-!
# Expressions that can be spelled

An expression can be spelled when its names are names, its numbers are in range, its element accesses have an index, its types
are types, and no conditional is the target of an assignment, where the printer sets no parentheses. With the parentheses that
the printer adds it then fits; and all that the parser reads can be spelled, since names and numbers come from the lexer.
-/

namespace NavCheck

mutual

/-- Whether the names, numbers, indices, types and assignments of an expression can be spelled. -/
def Expr.Spellable : Expr → Prop
  | .literal value _ => value.Fits
  | .name text _ => IsName text
  | .self _ => True
  | .unary _ operand _ => operand.Spellable
  | .binary _ left right _ => left.Spellable ∧ right.Spellable
  | .conditional condition thenBranch elseBranch _ => condition.Spellable ∧ thenBranch.Spellable ∧ elseBranch.Spellable
  | .assign target value _ => target.level ≠ levels.conditional ∧ target.Spellable ∧ value.Spellable
  | .lambda params body _ => (∀ p ∈ params, p.Fits) ∧ body.Spellable
  | .paren inner _ => inner.Spellable
  | .access base link _ _ => base.Spellable ∧ link.Spellable
  | .create type args entries _ => type.Fits ∧ ListSpellable args ∧ EntriesSpellable entries

/-- Whether a link can be spelled. -/
def Link.Spellable : Link → Prop
  | .member name _ => name.Fits
  | .element indices => indices ≠ [] ∧ ListSpellable indices
  | .invoke args => ListSpellable args

/-- Whether expressions can be spelled. -/
def ListSpellable : List Expr → Prop
  | [] => True
  | e :: es => e.Spellable ∧ ListSpellable es

/-- Whether entries can be spelled. -/
def EntriesSpellable : List Entry → Prop
  | [] => True
  | .member name _ value :: entries => name.Fits ∧ value.Spellable ∧ EntriesSpellable entries
  | .element indices _ value :: entries => indices ≠ [] ∧ ListSpellable indices ∧ value.Spellable ∧ EntriesSpellable entries

end

/-! ## Parentheses make an expression fit -/

mutual

/-- A type that fits fits without its places. -/
theorem TypeExpr.fits_erased : ∀ t : TypeExpr, t.Fits → t.erased.Fits
  | ⟨_, args, _, _⟩, ⟨hn, ha, hs⟩ => ⟨hn, typesFit_erased args ha, hs⟩

/-- Types that fit fit without their places. -/
theorem typesFit_erased : ∀ ts : List TypeExpr, TypesFit ts → TypesFit (erasedTypes ts)
  | [], _ => trivial
  | t :: ts, ⟨h, hs⟩ => ⟨t.fits_erased h, typesFit_erased ts hs⟩

end

/-- A parameter of a lambda that fits fits without its places. -/
theorem LambdaParam.fits_erased {p : LambdaParam} (h : p.Fits) : p.erased.Fits := by
  refine ⟨fun type ht => ?_, h.2⟩
  obtain ⟨original, ho, rfl⟩ := Option.map_eq_some_iff.1 (Option.mem_def.1 ht)
  exact original.fits_erased (h.1 original ho)

/-- An operand fits inside parentheses as well. -/
theorem Expr.fits_within {e : Expr} (h : e.Fits) (level : Nat) : (e.within level).Fits := by
  unfold Expr.within
  split
  · exact h
  · exact h

/-- Some expressions are some as they are written. -/
theorem writtenList_ne_nil {es : List Expr} (h : es ≠ []) : writtenList es ≠ [] := by
  cases es with
  | nil => exact absurd rfl h
  | cons e es => simp [writtenList]

mutual

/-- With the parentheses that the printer adds, an expression that can be spelled fits. -/
theorem Expr.fits_written : ∀ e : Expr, e.Spellable → e.written.Fits
  | .literal _ _, h => h
  | .name _ _, h => h
  | .self _, _ => trivial
  | .unary _ operand _, h => ⟨Expr.le_level_within _ (by decide), Expr.fits_within (operand.fits_written h) _⟩
  | .binary op left right _, ⟨hl, hr⟩ =>
    ⟨Expr.le_level_within _ op.leftLevel_le, Expr.le_level_within _ op.rightLevel_le, Expr.fits_within (left.fits_written hl) _,
      Expr.fits_within (right.fits_written hr) _⟩
  | .conditional condition thenBranch elseBranch _, ⟨hc, ht, he⟩ =>
    ⟨Expr.le_level_within _ (by decide), Expr.le_level_within _ (by decide), Expr.le_level_within _ (by decide),
      Expr.fits_within (condition.fits_written hc) _, Expr.fits_within (thenBranch.fits_written ht) _,
      Expr.fits_within (elseBranch.fits_written he) _⟩
  | .assign target value _, ⟨hl, ht, hv⟩ => by
    refine ⟨?_, Expr.le_level_within _ (by decide), Expr.fits_within (target.fits_written ht) _,
      Expr.fits_within (value.fits_written hv) _⟩
    have hw : levels.assign + 1 ≤ (target.written.within (levels.assign + 1)).level := Expr.le_level_within _ (by decide)
    refine Nat.lt_of_le_of_ne hw fun he => ?_
    unfold Expr.within at he
    split at he
    · cases he
    · rw [Expr.level_written] at he
      exact hl he.symm
  | .lambda params body _, ⟨hp, hb⟩ => by
    refine ⟨fun p hm => ?_, Expr.le_level_within _ (show levels.assign ≤ levels.primary by decide),
      Expr.fits_within (body.fits_written hb) _⟩
    obtain ⟨q, hq, rfl⟩ := List.mem_map.1 hm
    exact LambdaParam.fits_erased (hp q hq)
  | .paren inner _, h => inner.fits_written h
  | .access base link _ _, ⟨hb, hl⟩ =>
    ⟨Expr.le_level_within _ (by decide), Expr.fits_within (base.fits_written hb) _, link.fits_written hl⟩
  | .create type args entries _, ⟨ht, ha, he⟩ =>
    ⟨type.fits_erased ht, listFits_written args ha, entriesFit_written entries he⟩

/-- With the parentheses that the printer adds, a link that can be spelled fits. -/
theorem Link.fits_written : ∀ link : Link, link.Spellable → link.written.Fits
  | .member _ _, h => h
  | .element indices, ⟨hn, h⟩ => ⟨writtenList_ne_nil hn, listFits_written indices h⟩
  | .invoke args, h => listFits_written args h

/-- With the parentheses that the printer adds, expressions that can be spelled fit. -/
theorem listFits_written : ∀ es : List Expr, ListSpellable es → ListFits (writtenList es)
  | [], _ => trivial
  | e :: es, ⟨h, hs⟩ => ⟨e.fits_written h, listFits_written es hs⟩

/-- With the parentheses that the printer adds, entries that can be spelled fit. -/
theorem entriesFit_written : ∀ entries : List Entry, EntriesSpellable entries → EntriesFit (writtenEntries entries)
  | [], _ => trivial
  | .member _ _ value :: entries, ⟨hn, hv, hs⟩ =>
    ⟨hn, Expr.le_level_within _ (by decide), Expr.fits_within (value.fits_written hv) _, entriesFit_written entries hs⟩
  | .element indices _ value :: entries, ⟨hn, hi, hv, hs⟩ =>
    ⟨writtenList_ne_nil hn, listFits_written indices hi, Expr.le_level_within _ (by decide),
      Expr.fits_within (value.fits_written hv) _, entriesFit_written entries hs⟩

end

/-! ## Tokens of a text -/

/-- Whether the text of a name token is a name, and the value of a number token in range. -/
def Token.Genuine (t : Token) : Prop :=
  (t.kind = .name → IsName t.lexeme) ∧ ∀ n, t.kind = .number n → n ≤ Lexer.maxNumber

namespace Lexer

/-- A number in a text is in range. -/
theorem le_maxNumber_of_scan {c : Char} {cs : List Char} {n : Nat} (h : (scan c cs).kind = .number n) : n ≤ maxNumber := by
  rcases scan_cases c cs with ⟨-, he⟩ | ⟨-, -, he⟩ | ⟨-, -, -, he⟩ | ⟨-, he⟩ | ⟨-, hs⟩
  · rw [he] at h
    cases h
  · rw [he, scanName] at h
    split at h <;> cases h
  · rw [he, scanNumber] at h
    split at h
    · cases h
      assumption
    · cases h
      exact Nat.zero_le _
  · rw [he, scanString] at h
    cases h
  · rw [h] at hs
    cases hs

/-- The name that a text begins with is a name. -/
theorem isName_of_scan {c : Char} {cs : List Char} (h : (scan c cs).kind = .name) :
    IsName (String.ofList (c :: cs.take (scan c cs).extra)) := by
  obtain ⟨hb, hs, he⟩ := scanName_of_scan h
  have hk : Keyword.ofText? (String.ofList (c :: cs.takeWhile Text.continuesName)) = none ∧
      (scan c cs).extra = (cs.takeWhile Text.continuesName).length := by
    rw [he, scanName] at h ⊢
    split at h
    · cases h
    · rename_i hk
      rw [hk]
      exact ⟨rfl, rfl⟩
  have htake : cs.take (scan c cs).extra = cs.takeWhile Text.continuesName := by
    rw [hk.2]
    exact (List.prefix_iff_eq_take.1 (List.takeWhile_prefix _)).symm
  refine ⟨c, cs.takeWhile Text.continuesName, by rw [htake, String.toList_ofList], ?_⟩
  have hself : (cs.takeWhile Text.continuesName).takeWhile Text.continuesName = cs.takeWhile Text.continuesName := by
    have hall := @List.all_takeWhile _ Text.continuesName cs
    rw [List.all_eq_true] at hall
    simpa using @takeWhile_append_of_stop _ _ _ [] hall (by simp)
  rw [scan, if_neg (by simp [hb]), if_pos hs, scanName, hself]
  simp only [hk.1]

/-- The tokens of a text are genuine. -/
theorem genuine_tokensFrom (file : Option Nat) (offset : Nat) (cs : List Char) :
    ∀ piece ∈ tokensFrom file offset cs, piece.1.Genuine := by
  fun_induction tokensFrom file offset cs with
  | case1 => simp
  | case2 offset c cs s taken stop token ih =>
    intro piece hp
    rcases List.mem_cons.1 hp with rfl | hp
    · exact ⟨fun h => isName_of_scan h, fun n h => le_maxNumber_of_scan h⟩
    · exact ih piece hp

end Lexer

/-- The tokens that the parsers read are genuine. -/
theorem genuine_significant (source : String) (file : Option Nat) : ∀ t ∈ (lex source file).significant, t.Genuine := by
  intro t ht
  obtain ⟨piece, hp, rfl⟩ := List.mem_map.1 (List.mem_filter.1 ht).1
  exact Lexer.genuine_tokensFrom file 0 source.toList piece hp

/-! ## What is read can be spelled -/

mutual

/-- A type and all types within it. -/
def TypeExpr.parts : TypeExpr → List TypeExpr
  | ⟨name, args, suffixes, span⟩ => ⟨name, args, suffixes, span⟩ :: typeParts args

/-- Types and all types within them. -/
def typeParts : List TypeExpr → List TypeExpr
  | [] => []
  | t :: ts => t.parts ++ typeParts ts

end

mutual

/-- A type can be written when each of its parts has a name and its array suffixes first. -/
theorem TypeExpr.fits_iff : ∀ t : TypeExpr, t.Fits ↔ ∀ part ∈ t.parts, IsName part.name ∧ ArraysFirst part.suffixes
  | ⟨name, args, suffixes, span⟩ => by
    rw [TypeExpr.Fits, TypeExpr.parts, List.forall_mem_cons, typesFit_iff args]
    constructor
    · rintro ⟨hn, hargs, ha⟩
      exact ⟨⟨hn, ha⟩, hargs⟩
    · rintro ⟨⟨hn, ha⟩, hargs⟩
      exact ⟨hn, hargs, ha⟩

/-- Types fit when all their parts have names and no array suffix behind a `?`. -/
theorem typesFit_iff : ∀ ts : List TypeExpr, TypesFit ts ↔ ∀ part ∈ typeParts ts, IsName part.name ∧ ArraysFirst part.suffixes
  | [] => iff_of_true trivial (List.forall_mem_nil _)
  | t :: ts => by rw [TypesFit, typeParts, List.forall_mem_append, t.fits_iff, typesFit_iff ts]

end

namespace TypeExpr

variable {tokens : List Token}

/-- Behind a `?` that is a suffix there is no array suffix. -/
theorem arraysFirst_scanSuffixes (last : Span) (tokens : List Token) : ArraysFirst (scanSuffixes last tokens).1 := by
  have question : ∀ (last : Span) (ts : List Token), guardsAccess ts = false → ∀ s ∈ (scanSuffixes last ts).1, s = .nullable := by
    intro last ts
    fun_induction scanSuffixes last ts with
    | case1 | case2 | case5 | case6 | case7 => simp
    | case3 last t rest hq hg suffixes last₁ rest₁ heq ih =>
      intro _ s hs
      rw [heq] at ih
      rcases List.mem_cons.1 hs with rfl | hs
      · rfl
      · exact ih (by simpa using hg) s hs
    | case4 last t hq hb =>
      intro hg
      simp [guardsAccess, hb] at hg
  fun_induction scanSuffixes last tokens with
  | case1 | case2 | case5 | case6 | case7 => trivial
  | case3 last t rest hq hg suffixes last₁ rest₁ heq ih =>
    have := question t.span rest (by simpa using hg)
    rw [heq] at this
    exact this
  | case4 last t hq hb close rest' hc suffixes last₁ rest₁ heq ih =>
    rw [heq] at ih
    exact ih

/-- A part of a type has the name of one of some tokens, and no array suffix behind a `?`. -/
def ReadFrom (tokens : List Token) (part : TypeExpr) : Prop :=
  (∃ t ∈ tokens, t.kind = .name ∧ t.lexeme = part.name) ∧ ArraysFirst part.suffixes

/-- What is read from tokens is read from more tokens. -/
theorem ReadFrom.mono {tokens more : List Token} {part : TypeExpr} (h : ReadFrom tokens part) (hs : tokens ⊆ more) :
    ReadFrom more part := by
  obtain ⟨⟨t, ht, hn⟩, ha⟩ := h
  exact ⟨⟨t, hs ht, hn⟩, ha⟩

mutual

/-- Every part of a type that is read is read from its tokens. -/
theorem readFrom_scan? (tokens : List Token) (s : TypeScan TypeExpr tokens) (h : scan? tokens = some s) :
    ∀ part ∈ s.value.parts, ReadFrom tokens part := by
  cases tokens with
  | nil => rw [scan?] at h; cases h
  | cons first rest =>
    rw [scan?] at h
    dsimp only at h
    split at h
    · rename_i hname
      cases ha : scanArgs? first.span rest with
      | none => rw [ha] at h; cases h
      | some after =>
        rw [ha] at h
        cases h
        have hargs := readFrom_scanArgs? first.span rest after ha
        rw [parts]
        refine List.forall_mem_cons.2 ⟨⟨⟨first, List.mem_cons_self, ?_, rfl⟩, arraysFirst_scanSuffixes _ _⟩, ?_⟩
        · simpa [Token.is] using hname
        · intro part hp
          exact (hargs part hp).mono (List.subset_cons_self _ _)
    · cases h
termination_by 2 * tokens.length

/-- The parts of the arguments of a type are read from its tokens. -/
theorem readFrom_scanArgs? (last : Span) (tokens : List Token)
    (s : List TypeExpr × Span × { rest : List Token // rest.length ≤ tokens.length }) (h : scanArgs? last tokens = some s) :
    ∀ part ∈ typeParts s.1, ReadFrom tokens part := by
  cases tokens with
  | nil => rw [scanArgs?] at h; cases h; exact List.forall_mem_nil _
  | cons t rest =>
    rw [scanArgs?] at h
    split at h
    · rw [Option.map_eq_some_iff] at h
      obtain ⟨s, hs, rfl⟩ := h
      intro part hp
      exact (readFrom_scanArgList? rest s hs part hp).mono (List.subset_cons_self _ _)
    · cases h
      exact List.forall_mem_nil _
termination_by 2 * tokens.length + 1

/-- The parts of a row of types are read from its tokens. -/
theorem readFrom_scanArgList? (tokens : List Token) (s : TypeScan (List TypeExpr) tokens) (h : scanArgList? tokens = some s) :
    ∀ part ∈ typeParts s.value, ReadFrom tokens part := by
  rw [scanArgList?] at h
  cases ha : scan? tokens with
  | none => rw [ha] at h; cases h
  | some arg =>
    rw [ha] at h
    have harg := readFrom_scan? tokens arg ha
    have hsuffix := scan?_suffix tokens arg ha
    dsimp only at h
    split at h
    · cases h
    · rename_i t rest hr
      rw [hr] at hsuffix
      have hlt : rest.length < tokens.length := by
        have hs := arg.shorter
        rw [hr, List.length_cons] at hs
        omega
      split at h
      · rw [Option.map_eq_some_iff] at h
        obtain ⟨more, hm, rfl⟩ := h
        rw [typeParts]
        refine List.forall_mem_append.2 ⟨harg, fun part hp => ?_⟩
        have hsub : rest ⊆ tokens := ((List.suffix_cons t rest).trans hsuffix).subset
        exact (readFrom_scanArgList? rest more hm part hp).mono hsub
      · split at h
        · cases h
          rw [typeParts, typeParts, List.append_nil]
          exact harg
        · cases h
termination_by 2 * tokens.length + 1

end

/-- A type that is read from genuine tokens can be spelled. -/
theorem fits_scan? (tokens : List Token) (hg : ∀ t ∈ tokens, t.Genuine) (s : TypeScan TypeExpr tokens)
    (h : scan? tokens = some s) : s.value.Fits := by
  refine s.value.fits_iff.2 fun part hp => ?_
  obtain ⟨⟨t, ht, hk, hl⟩, ha⟩ := readFrom_scan? tokens s h part hp
  exact ⟨hl ▸ (hg t ht).1 hk, ha⟩

end TypeExpr

namespace Cursor

variable {c d : Cursor}

/-- Whether all tokens ahead are genuine. -/
def Genuine (c : Cursor) : Prop :=
  ∀ t ∈ c.ahead, t.Genuine

/-- Passing genuine tokens leaves genuine tokens. -/
theorem Genuine.of_passes (h : c.Genuine) {ts : List Token} (hp : c.Passes ts d) : d.Genuine :=
  fun t ht => h t (by rw [hp.1]; exact List.mem_append_right _ ht)

/-- Behind genuine tokens, wherever the passed ones lead, there are genuine tokens. -/
theorem Genuine.behind (h : c.Genuine) (hp : c.Leads d) : d.Genuine := by
  obtain ⟨ts, hts⟩ := hp
  exact h.of_passes hts

/-- The next of genuine tokens is genuine. -/
theorem Genuine.value (h : c.Genuine) {p : Parsed Token c} (hp : c.next? = some p) : p.value.Genuine :=
  h _ (by rw [(passes_next? hp).1]; exact List.mem_cons_self)

/-- The tokens behind the next of genuine tokens are genuine. -/
theorem Genuine.next (h : c.Genuine) {p : Parsed Token c} (hp : c.next? = some p) : p.next.Genuine :=
  h.of_passes (passes_next? hp)

/-- The tokens behind an accepted one of genuine tokens are genuine. -/
theorem Genuine.accepted (h : c.Genuine) {p : Parsed Token c} {kind : TokenKind} (hp : c.accept? kind = some p) :
    p.next.Genuine :=
  h.of_passes (passes_accept? hp)

/-- A name that was accepted is a name. -/
theorem Genuine.isName (h : c.Genuine) {p : Parsed Token c} (hp : c.accept? .name = some p) : IsName p.value.lexeme :=
  (h.value (next?_of_accept? hp).1).1 (next?_of_accept? hp).2

/-- A name behind a dollar sign that is read from genuine tokens can be spelled. -/
theorem Genuine.dollarName (h : c.Genuine) {dollar : Token} {p : Parsed (MemberName × Span) c}
    (hp : c.dollarName dollar = .ok p) : p.value.1.Fits := by
  unfold Cursor.dollarName at hp
  cases hn : c.next? with
  | none => rw [hn] at hp; cases hp
  | some q =>
    simp only [hn] at hp
    split at hp
    · cases hp
    rename_i hk
    split at hp
    · cases hp
    · cases hp
      exact (h.value hn).1 (Decidable.not_not.1 hk)

/-- A name of a member that is read from genuine tokens can be spelled. -/
theorem Genuine.memberName (h : c.Genuine) {place : NamePlace} {p : Parsed (MemberName × Span) c}
    (hp : c.PassesName place p) : p.value.1.Fits := by
  cases hp with
  | keyed hd hq => exact (h.accepted hd).dollarName hq
  | plain _ hq => exact h.isName (passes_nameAt hq)

/-- A type that is read from genuine tokens can be spelled. -/
theorem Genuine.type (h : c.Genuine) {p : Parsed TypeExpr c} (hp : c.type? = some p) : p.value.Fits := by
  unfold Cursor.type? at hp
  obtain ⟨s, hs, rfl⟩ := Option.map_eq_some_iff.1 hp
  exact TypeExpr.fits_scan? c.ahead h s hs

/-- A parameter of a lambda that is read from genuine tokens can be spelled. -/
theorem Genuine.lambdaParam (h : c.Genuine) {p : Parsed LambdaParam c} (hp : c.lambdaParam = .ok p) : p.value.Fits := by
  have plain : ∀ {q : Parsed Token c}, c.nameAt .lambdaParam = .ok q →
      (⟨none, q.value.lexeme, q.value.span⟩ : LambdaParam).Fits :=
    fun hq => ⟨by simp, h.isName (passes_nameAt hq)⟩
  unfold Cursor.lambdaParam at hp
  cases ht : c.type? with
  | none =>
    simp only [ht] at hp
    obtain ⟨q, hq, hp⟩ := of_bind_eq_ok hp
    cases hp
    exact plain hq
  | some type =>
    simp only [ht] at hp
    cases hn : type.next.accept? .name with
    | some q =>
      rw [hn] at hp
      cases hp
      obtain ⟨ts, hts⟩ := passes_type? ht
      refine ⟨fun t hmem => ?_, (h.of_passes hts).isName hn⟩
      cases hmem
      exact h.type ht
    | none =>
      rw [hn] at hp
      obtain ⟨q, hq, hp⟩ := of_bind_eq_ok hp
      cases hp
      exact plain hq

/-- Parameters of a lambda in a row that are read from genuine tokens can be spelled. -/
theorem Genuine.lambdaParamList (c : Cursor) (h : c.Genuine) (p : Parsed (List LambdaParam) c)
    (hp : c.lambdaParamList = .ok p) : ∀ q ∈ p.value, q.Fits := by
  rw [Cursor.lambdaParamList] at hp
  obtain ⟨first, hf, hp⟩ := of_bind_eq_ok hp
  have hfirst := h.lambdaParam hf
  obtain ⟨ts, hts⟩ := passes_lambdaParam hf
  cases hk : first.next.accept? (.punct .comma) with
  | none =>
    rw [hk] at hp
    cases hp
    simpa using hfirst
  | some comma =>
    rw [hk] at hp
    have := Nat.lt_trans comma.shorter first.shorter
    obtain ⟨rest, hr, hp⟩ := of_bind_eq_ok hp
    cases hp
    have ih := Genuine.lambdaParamList comma.next ((h.of_passes hts).accepted hk) rest hr
    simpa using ⟨hfirst, ih⟩
termination_by c.ahead.length

/-- Parameters of a lambda that are read from genuine tokens can be spelled. -/
theorem Genuine.lambdaParams (h : c.Genuine) {p : Parsed (List LambdaParam) c} (hp : c.lambdaParams = .ok p) :
    ∀ q ∈ p.value, q.Fits := by
  unfold Cursor.lambdaParams at hp
  cases hc : c.accept? (.punct .closeParen) with
  | some close =>
    rw [hc] at hp
    cases hp
    simp
  | none =>
    rw [hc] at hp
    obtain ⟨list, hl, hp⟩ := of_bind_eq_ok hp
    obtain ⟨close, -, hp⟩ := of_bind_eq_ok hp
    cases hp
    exact Genuine.lambdaParamList c h list hl

end Cursor

/-- A literal that a genuine token stands for can be written. -/
theorem Token.Genuine.literal {t : Token} (h : t.Genuine) {value : Literal} (hv : t.kind.literal? = some value) :
    value.Fits := by
  unfold TokenKind.literal? at hv
  split at hv
  case h_1 n hk =>
    cases hv
    exact ⟨Int.natCast_nonneg n, h.2 n hk⟩
  all_goals cases hv <;> trivial

/-- Whether what a phrase that ends at `d` stands for can be spelled. No phrase that is tighter than a conditional stands for
one, and neither does the target of an assignment. -/
def Phrase.Spellable (d : Cursor) : Phrase → Prop
  | .assign _ e | .entryValue e => e.Spellable
  | .conditional _ e => e.Spellable ∧ (d.accept? (.sign .assign) ≠ none → e.level ≠ levels.conditional)
  | .binary _ _ e | .unary _ e | .primary _ e | .creation _ e => e.Spellable ∧ e.level ≠ levels.conditional
  | .operators _ _ _ left whole => left.Spellable ∧ left.level ≠ levels.conditional →
    whole.Spellable ∧ whole.level ≠ levels.conditional
  | .accesses _ _ base whole => base.Spellable ∧ base.level ≠ levels.conditional →
    whole.Spellable ∧ whole.level ≠ levels.conditional
  | .link _ _ l => l.Spellable
  | .list es | .bracketed _ es => es ≠ [] ∧ ListSpellable es
  | .args es => ListSpellable es
  | .lambda _ _ params e => (∀ p ∈ params, p.Fits) → e.Spellable ∧ e.level ≠ levels.conditional
  | .entries es => EntriesSpellable es
  | .entry en => EntriesSpellable [en]

/-- Behind an assignment there is no further sign of one. -/
theorem Reads.accept?_assign {pending : Nat} {e : Expr} {c d : Cursor} (h : Reads (.assign pending e) c d) :
    d.accept? (.sign .assign) = none := by
  generalize hp : Phrase.assign pending e = phrase at h
  induction h generalizing pending e with
  | assignEnd _ hd _ => exact hd
  | assign _ _ _ _ ih => exact ih rfl
  | _ => cases hp

/-- No binary operator is on the level of conditionals. -/
theorem BinOp.level_ne_conditional (op : BinOp) : levels.binary + op.precedence ≠ levels.conditional := by
  cases op <;> decide

/-- All that is read from genuine tokens can be spelled. -/
theorem Reads.spellable {phrase : Phrase} {c d : Cursor} (h : Reads phrase c d) : c.Genuine → phrase.Spellable d := by
  have lambda : levels.lambda ≠ levels.conditional := by decide
  have unary : levels.unary ≠ levels.conditional := by decide
  have postfixed : levels.postfixed ≠ levels.conditional := by decide
  have primary : levels.primary ≠ levels.conditional := by decide
  induction h with
  | assignEnd _ _ ih => exact fun hg => (ih hg).1
  | assign h hd _ ih₁ ih₂ =>
    intro hg
    obtain ⟨hl, hne⟩ := ih₁ hg
    exact ⟨hne (by simp [hd]), hl, ih₂ ((hg.behind h.leads).accepted hd)⟩
  | conditionalEnd _ _ ih => exact fun hg => ⟨(ih hg).1, fun _ => (ih hg).2⟩
  | conditional h₁ hq h₂ hk h₃ ih₁ ih₂ ih₃ =>
    intro hg
    have hg₂ := (hg.behind h₁.leads).accepted hq
    have hg₃ := (hg₂.behind h₂.leads).accepted hk
    exact ⟨⟨(ih₁ hg).1, ih₂ hg₂, ih₃ hg₃⟩, fun hs => absurd h₃.accept?_assign hs⟩
  | binary h _ ih₁ ih₂ => exact fun hg => ih₂ (hg.behind h.leads) (ih₁ hg)
  | operatorsEnd _ => exact fun _ => id
  | @operators _ _ _ _ _ _ _ _ _ op ho h _ ih₁ ih₂ =>
    intro hg hl
    obtain ⟨t, ht⟩ := Cursor.passes_binOp? ho
    have hg₁ := hg.of_passes ht
    exact ih₂ (hg₁.behind h.leads) ⟨⟨hl.1, (ih₁ hg₁).1⟩, op.value.level_ne_conditional⟩
  | unary ho _ ih =>
    intro hg
    obtain ⟨t, ht⟩ := Cursor.passes_unOp? ho
    exact ⟨(ih (hg.of_passes ht)).1, unary⟩
  | postfixed _ h _ ih₁ ih₂ => exact fun hg => ih₂ (hg.behind h.leads) (ih₁ hg)
  | accessesEnd _ => exact fun _ => id
  | accesses ha h _ ih₁ ih₂ =>
    intro hg hb
    obtain ⟨t, us, ht, -⟩ := Cursor.passes_accessStart? ha
    have hg₁ := hg.of_passes ht
    exact ih₂ (hg₁.behind h.leads) ⟨⟨hb.1, ih₁ hg₁⟩, postfixed⟩
  | member hn => exact fun hg => hg.memberName (Cursor.memberName_eq_ok_iff.1 hn)
  | element _ _ ih => exact fun hg => ih hg
  | invoke _ ih => exact fun hg => ih hg
  | listEnd _ _ ih => exact fun hg => ⟨by simp, ih hg, trivial⟩
  | list h hk _ ih₁ ih₂ => exact fun hg => ⟨by simp, ih₁ hg, (ih₂ ((hg.behind h.leads).accepted hk)).2⟩
  | bracketed _ _ ih => exact fun hg => ih hg
  | argsEnd _ => exact fun _ => trivial
  | args _ _ ih => exact fun hg => (ih hg).2
  | name ht _ => exact fun hg => ⟨hg.isName ht, primary⟩
  | shortLambda ht _ _ ih =>
    intro hg
    refine ih (hg.accepted ht) fun p hp => ?_
    rw [List.mem_singleton] at hp
    subst hp
    exact ⟨by simp, hg.isName ht⟩
  | literal ht hv => exact fun hg => ⟨(hg.value ht).literal hv, primary⟩
  | self _ => exact fun _ => ⟨trivial, primary⟩
  | create ht _ ih => exact fun hg => ih (hg.accepted ht)
  | longLambda ht _ hp _ ih =>
    intro hg
    have hg₁ := hg.accepted ht
    exact ih (hg₁.behind (Cursor.passes_lambdaParams hp)) (hg₁.lambdaParams hp)
  | paren ht _ _ _ ih => exact fun hg => ⟨ih (hg.accepted ht), primary⟩
  | lambda ha _ ih => exact fun hg hp => ⟨⟨hp, ih (hg.of_passes (Cursor.passes_lambdaArrow ha))⟩, lambda⟩
  | createArgs ht ho _ _ ih =>
    exact fun hg => ⟨⟨hg.type ht, ih ((hg.behind (Cursor.passes_type? ht)).accepted ho), trivial⟩, primary⟩
  | createBoth ht ho h hb _ ih₁ ih₂ =>
    intro hg
    have hg₁ := (hg.behind (Cursor.passes_type? ht)).accepted ho
    exact ⟨⟨hg.type ht, ih₁ hg₁, ih₂ ((hg₁.behind h.leads).accepted hb)⟩, primary⟩
  | createEntries ht _ hb _ ih =>
    exact fun hg => ⟨⟨hg.type ht, trivial, ih ((hg.behind (Cursor.passes_type? ht)).accepted hb)⟩, primary⟩
  | entriesEnd _ => exact fun _ => trivial
  | entriesLast _ _ _ _ ih => exact fun hg => ih hg
  | @entries entry _ _ _ _ _ _ h hk _ ih₁ ih₂ =>
    intro hg
    have h₁ := ih₁ hg
    have h₂ := ih₂ ((hg.behind h.leads).accepted hk)
    cases entry with
    | member => exact ⟨h₁.1, h₁.2.1, h₂⟩
    | element => exact ⟨h₁.1, h₁.2.1, h₁.2.2.1, h₂⟩
  | entryElement hb _ h _ ih₁ ih₂ =>
    intro hg
    have hg₁ := hg.accepted hb
    exact ⟨(ih₁ hg₁).1, (ih₁ hg₁).2, ih₂ (hg₁.behind h.leads), trivial⟩
  | entryMember _ hn _ ih =>
    intro hg
    have hn := Cursor.entryName_eq_ok_iff.1 hn
    exact ⟨hg.memberName hn, ih (hg.behind hn.passes), trivial⟩
  | entryValue hs _ ih => exact fun hg => ih (hg.accepted hs)

/-- An expression that was parsed can be spelled. -/
theorem Expr.spellable_of_parse {source : String} {e : Expr} (h : Expr.parse source = .ok e) : e.Spellable := by
  unfold Expr.parse at h
  dsimp only at h
  split at h
  · cases h
  · obtain ⟨r, hr, h⟩ := of_bind_eq_ok h
    split at h
    · cases h
    · cases h
      exact (reads_of_readAssign 0 _ r hr).spellable (genuine_significant source none)

end NavCheck
