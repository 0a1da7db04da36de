import NavCheck.Proofs.Derivation
import NavCheck.Proofs.TokenOrder

/-!
# Passing tokens

Every function of the expression parser passes the tokens from the place where it begins up to the place where it stops, one
after the other, and an expression that was read has the span of the tokens that were passed for it.
-/

namespace NavCheck

namespace Cursor

/-- The tokens `ts` are passed from one cursor to another. -/
def Passes (c : Cursor) (ts : List Token) (d : Cursor) : Prop :=
  c.ahead = ts ++ d.ahead ∧ d.passed = ts.reverse ++ c.passed

variable {c d e : Cursor} {ts us : List Token}

/-- No tokens are passed from a cursor to itself. -/
theorem Passes.refl (c : Cursor) : c.Passes [] c :=
  ⟨rfl, rfl⟩

/-- Tokens that are passed one after the other are passed in order. -/
theorem Passes.trans (h : c.Passes ts d) (h' : d.Passes us e) : c.Passes (ts ++ us) e :=
  ⟨by rw [h.1, h'.1, List.append_assoc], by rw [h'.2, h.2, List.reverse_append, List.append_assoc]⟩

/-- The tokens between two cursors are determined by them. -/
theorem Passes.unique (h : c.Passes ts d) (h' : c.Passes us d) : ts = us :=
  List.append_cancel_right (h.1.symm.trans h'.1)

/-! ## The small steps of the parser -/

/-- The next token is passed. -/
theorem passes_next? {p : Parsed Token c} (h : c.next? = some p) : c.Passes [p.value] p.next := by
  unfold next? at h
  split at h
  · cases h
  · rename_i t rest ha
    cases h
    exact ⟨ha, rfl⟩

/-- A token that is accepted is passed. -/
theorem passes_accept? {kind : TokenKind} {p : Parsed Token c} (h : c.accept? kind = some p) :
    c.Passes [p.value] p.next :=
  passes_next? (next?_of_accept? h).1

/-- A name that is read is a name that is accepted. -/
theorem passes_nameAt {place : NamePlace} {p : Parsed Token c} (h : c.nameAt place = .ok p) :
    c.accept? .name = some p := by
  unfold nameAt at h
  cases ha : c.accept? .name with
  | none => rw [ha] at h; cases h
  | some q => rw [ha] at h; cases h; rfl

/-- A binary operator that is read is one token. -/
theorem passes_binOp? {least : Nat} {p : Parsed BinOp c} (h : c.binOp? least = some p) : ∃ t, c.Passes [t] p.next := by
  unfold binOp? at h
  cases hn : c.next? with
  | none => rw [hn] at h; cases h
  | some q =>
    simp only [hn] at h
    cases ho : q.value.binOp? with
    | none => rw [ho] at h; cases h
    | some op =>
      simp only [ho] at h
      split at h
      · cases h
      · cases h
        exact ⟨q.value, passes_next? hn⟩

/-- A unary operator that is read is one token. -/
theorem passes_unOp? {p : Parsed UnOp c} (h : c.unOp? = some p) : ∃ t, c.Passes [t] p.next := by
  unfold unOp? at h
  cases hn : c.next? with
  | none => rw [hn] at h; cases h
  | some q =>
    simp only [hn, Option.map_eq_some_iff] at h
    obtain ⟨op, -, rfl⟩ := h
    exact ⟨q.value, passes_next? hn⟩

/-- The mark of an access that is read is one token. -/
theorem passes_accessMark? {p : Parsed AccessStart c} (h : c.accessMark? = some p) : ∃ t, c.Passes [t] p.next := by
  unfold accessMark? at h
  cases hn : c.next? with
  | none => rw [hn] at h; cases h
  | some q =>
    simp only [hn] at h
    split at h
    · cases h; exact ⟨q.value, passes_next? hn⟩
    split at h
    · cases h; exact ⟨q.value, passes_next? hn⟩
    split at h
    · cases h; exact ⟨q.value, passes_next? hn⟩
    · cases h

/-- An access begins with its mark, and with a `?` in front of it when it is guarded. -/
theorem passes_accessStart? {pending : Nat} {p : Parsed (AccessStart × Bool) c} (h : c.accessStart? pending = some p) :
    ∃ t us, c.Passes (t :: us) p.next ∧ (p.value.2 = true → t.kind = .punct .question) := by
  unfold accessStart? at h
  cases hq : c.accept? (.punct .question) with
  | none =>
    simp only [hq, Option.map_eq_some_iff] at h
    obtain ⟨m, hm, rfl⟩ := h
    obtain ⟨t, ht⟩ := passes_accessMark? hm
    exact ⟨t, [], ht, by simp⟩
  | some q =>
    simp only [hq] at h
    cases hm : q.next.accessMark? with
    | none => rw [hm] at h; cases h
    | some m =>
      simp only [hm] at h
      split at h
      · cases h
      · cases h
        obtain ⟨t, ht⟩ := passes_accessMark? hm
        exact ⟨q.value, [t], (passes_accept? hq).trans ht, fun _ => (next?_of_accept? hq).2⟩

/-- Behind a dollar sign the name that is read is passed. -/
theorem passes_dollarName {dollar : Token} {p : Parsed (MemberName × Span) c} (h : c.dollarName dollar = .ok p) :
    ∃ ts, c.Passes ts p.next := by
  unfold dollarName at h
  cases hn : c.next? with
  | none => rw [hn] at h; cases h
  | some q =>
    simp only [hn] at h
    split at h
    · cases h
    split at h
    · cases h
    · cases h
      exact ⟨_, passes_next? hn⟩

/-- The tokens of a name are passed. -/
theorem PassesName.passes {place : NamePlace} {p : Parsed (MemberName × Span) c} (h : c.PassesName place p) :
    ∃ ts, c.Passes ts p.next := by
  cases h with
  | keyed hd hn =>
    obtain ⟨ts, hp⟩ := passes_dollarName hn
    exact ⟨_, (passes_accept? hd).trans hp⟩
  | plain _ hn => exact ⟨_, passes_accept? (passes_nameAt hn)⟩

/-- The arrow of a lambda is passed. -/
theorem passes_lambdaArrow {p : Parsed Token c} (h : c.lambdaArrow = .ok p) : c.Passes [p.value] p.next := by
  unfold lambdaArrow at h
  cases ha : c.accept? (.sign .arrow) with
  | none => rw [ha] at h; cases h
  | some q =>
    simp only [ha] at h
    split at h
    · cases h
    · cases h
      exact passes_accept? ha

end Cursor

namespace TypeExpr

/-- What is left behind the suffixes of a type is the end of the tokens. -/
theorem scanSuffixes_suffix (last : Span) (tokens : List Token) : (scanSuffixes last tokens).2.2 <:+ tokens := by
  fun_induction scanSuffixes last tokens <;> simp_all [List.suffix_cons_iff]

mutual

/-- What is left behind a type is the end of the tokens. -/
theorem scan?_suffix (tokens : List Token) (s : TypeScan TypeExpr tokens) (h : scan? tokens = some s) :
    s.rest <:+ tokens := by
  cases tokens with
  | nil => rw [scan?] at h; cases h
  | cons first rest =>
    rw [scan?] at h
    dsimp only at h
    split at h
    · cases ha : scanArgs? first.span rest with
      | none => rw [ha] at h; cases h
      | some after =>
        obtain ⟨args, afterArgs⟩ := after
        rw [ha] at h
        cases h
        have ih := scanArgs?_suffix first.span rest _ ha
        exact ((scanSuffixes_suffix _ _).trans ih).trans (List.suffix_cons first rest)
    · cases h
termination_by 2 * tokens.length

/-- What is left behind the arguments of a type is the end of the tokens. -/
theorem scanArgs?_suffix (last : Span) (tokens : List Token)
    (s : List TypeExpr × Span × { rest : List Token // rest.length ≤ tokens.length }) (h : scanArgs? last tokens = some s) :
    s.2.2.1 <:+ tokens := by
  cases tokens with
  | nil => rw [scanArgs?] at h; cases h; exact List.suffix_refl _
  | cons t rest =>
    rw [scanArgs?] at h
    split at h
    · rw [Option.map_eq_some_iff] at h
      obtain ⟨s, hs, rfl⟩ := h
      exact (scanArgList?_suffix rest s hs).trans (List.suffix_cons t rest)
    · cases h
      exact List.suffix_refl _
termination_by 2 * tokens.length + 1

/-- What is left behind types with commas between them is the end of the tokens. -/
theorem scanArgList?_suffix (tokens : List Token) (s : TypeScan (List TypeExpr) tokens) (h : scanArgList? tokens = some s) :
    s.rest <:+ tokens := by
  rw [scanArgList?] at h
  cases ha : scan? tokens with
  | none => rw [ha] at h; cases h
  | some arg =>
    rw [ha] at h
    have ih := scan?_suffix tokens arg ha
    dsimp only at h
    split at h
    · cases h
    · rename_i t rest hr
      rw [hr] at ih
      have hrest : rest <:+ tokens := (List.suffix_cons t rest).trans ih
      have hlt : rest.length < tokens.length := by
        have hs := arg.shorter
        rw [hr, List.length_cons] at hs
        omega
      split at h
      · rw [Option.map_eq_some_iff] at h
        obtain ⟨more, hm, rfl⟩ := h
        exact (scanArgList?_suffix rest more hm).trans hrest
      · split at h
        · cases h
          exact hrest
        · cases h
termination_by 2 * tokens.length + 1

end

end TypeExpr

namespace Cursor

variable {c : Cursor}

/-- The tokens of a type that is read are passed. -/
theorem passes_type? {p : Parsed TypeExpr c} (h : c.type? = some p) : ∃ ts, c.Passes ts p.next := by
  unfold type? at h
  rw [Option.map_eq_some_iff] at h
  obtain ⟨s, hs, rfl⟩ := h
  obtain ⟨ts, ht⟩ := TypeExpr.scan?_suffix c.ahead s hs
  refine ⟨ts, ht.symm, ?_⟩
  have hk : (ts ++ s.rest).take ts.length = ts := List.take_left
  have hl := congrArg List.length ht
  rw [List.length_append] at hl
  rw [ht] at hk
  simp only [advanceTo, show c.ahead.length - s.rest.length = ts.length by omega, hk]

/-- The tokens of a parameter of a lambda that is read are passed. -/
theorem passes_lambdaParam {p : Parsed LambdaParam c} (h : c.lambdaParam = .ok p) : ∃ ts, c.Passes ts p.next := by
  have plain : ∀ p : Parsed LambdaParam c, (do
      let p ← c.nameAt .lambdaParam
      .ok ⟨⟨none, p.value.lexeme, p.value.span⟩, p.next, p.shorter⟩ : Read LambdaParam c) = .ok p →
      ∃ ts, c.Passes ts p.next := by
    intro p h
    obtain ⟨name, hn, h⟩ := of_bind_eq_ok h
    cases h
    exact ⟨_, passes_accept? (passes_nameAt hn)⟩
  unfold lambdaParam at h
  dsimp only at h
  cases ht : c.type? with
  | none => rw [ht] at h; exact plain p h
  | some type =>
    simp only [ht] at h
    cases hn : type.next.accept? .name with
    | none => rw [hn] at h; exact plain p h
    | some name =>
      rw [hn] at h
      cases h
      obtain ⟨ts, hp⟩ := passes_type? ht
      exact ⟨_, hp.trans (passes_accept? hn)⟩

/-- The tokens of parameters of a lambda in a row that are read are passed. -/
theorem passes_lambdaParamList (c : Cursor) (p : Parsed (List LambdaParam) c) (h : c.lambdaParamList = .ok p) :
    ∃ ts, c.Passes ts p.next := by
  rw [lambdaParamList] at h
  obtain ⟨param, hp, h⟩ := of_bind_eq_ok h
  obtain ⟨ts, ht⟩ := passes_lambdaParam hp
  cases hk : param.next.accept? (.punct .comma) with
  | none =>
    rw [hk] at h
    cases h
    exact ⟨ts, ht⟩
  | some comma =>
    simp only [hk] at h
    have := Nat.lt_trans comma.shorter param.shorter
    obtain ⟨rest, hr, h⟩ := of_bind_eq_ok h
    cases h
    obtain ⟨us, hu⟩ := passes_lambdaParamList comma.next rest hr
    exact ⟨_, (ht.trans (passes_accept? hk)).trans hu⟩
termination_by c.ahead.length

/-- The tokens of parameters of a lambda that are read are passed. -/
theorem passes_lambdaParams {p : Parsed (List LambdaParam) c} (h : c.lambdaParams = .ok p) : ∃ ts, c.Passes ts p.next := by
  unfold lambdaParams at h
  cases hc : c.accept? (.punct .closeParen) with
  | some close =>
    rw [hc] at h
    cases h
    exact ⟨_, passes_accept? hc⟩
  | none =>
    rw [hc] at h
    obtain ⟨list, hl, h⟩ := of_bind_eq_ok h
    obtain ⟨close, hk, h⟩ := of_bind_eq_ok h
    cases h
    obtain ⟨ts, ht⟩ := passes_lambdaParamList c list hl
    exact ⟨_, ht.trans (passes_accept? (accept?_of_close hk))⟩

end Cursor

/-! ## Derivations -/

/-- A later cursor over the same tokens. -/
def Cursor.Leads (c d : Cursor) : Prop :=
  ∃ ts, c.Passes ts d

namespace Cursor.Leads

variable {c d e : Cursor}

/-- A cursor leads to itself. -/
theorem refl (c : Cursor) : c.Leads c :=
  ⟨[], .refl c⟩

/-- Two stretches of tokens make one. -/
theorem trans (h : c.Leads d) (h' : d.Leads e) : c.Leads e := by
  obtain ⟨ts, hp⟩ := h
  obtain ⟨us, hp'⟩ := h'
  exact ⟨ts ++ us, hp.trans hp'⟩

/-- A token that is passed leads on. -/
theorem one {t : Token} (h : c.Passes [t] d) : c.Leads d :=
  ⟨[t], h⟩

/-- A token that is accepted leads on. -/
theorem accept? {kind : TokenKind} {p : Parsed Token c} (h : c.accept? kind = some p) : c.Leads p.next :=
  .one (passes_accept? h)

end Cursor.Leads

open Cursor in
/-- A derivation leads from its first cursor to its last: the tokens of its parts are passed one after the other. -/
theorem Reads.leads {phrase : Phrase} {c d : Cursor} (h : Reads phrase c d) : c.Leads d := by
  induction h with
  | assignEnd _ _ ih | conditionalEnd _ _ ih | listEnd _ _ ih => exact ih
  | element _ _ ih | invoke _ ih | args _ _ ih => exact ih
  | operatorsEnd _ | accessesEnd _ => exact .refl _
  | assign _ hd _ ih₁ ih₂ => exact (ih₁.trans (.accept? hd)).trans ih₂
  | conditional _ hq _ hc _ ih₁ ih₂ ih₃ => exact (((ih₁.trans (.accept? hq)).trans ih₂).trans (.accept? hc)).trans ih₃
  | binary _ _ ih₁ ih₂ => exact ih₁.trans ih₂
  | postfixed _ _ _ ih₁ ih₂ => exact ih₁.trans ih₂
  | operators ho _ _ ih₁ ih₂ =>
    obtain ⟨t, h⟩ := passes_binOp? ho
    exact ((Leads.one h).trans ih₁).trans ih₂
  | unary ho _ ih =>
    obtain ⟨t, h⟩ := passes_unOp? ho
    exact (Leads.one h).trans ih
  | accesses ha _ _ ih₁ ih₂ =>
    obtain ⟨t, us, h, -⟩ := passes_accessStart? ha
    exact (Leads.trans ⟨_, h⟩ ih₁).trans ih₂
  | member hn => exact (memberName_eq_ok_iff.1 hn).passes
  | list _ hk _ ih₁ ih₂ => exact (ih₁.trans (.accept? hk)).trans ih₂
  | bracketed _ hc ih => exact ih.trans (.accept? hc)
  | argsEnd hc | entriesEnd hc => exact .accept? hc
  | name ha _ => exact .accept? ha
  | self ha => exact .accept? ha
  | literal hn _ => exact .one (passes_next? hn)
  | shortLambda ha _ _ ih => exact (Leads.accept? ha).trans ih
  | create ha _ ih => exact (Leads.accept? ha).trans ih
  | longLambda ha _ hp _ ih => exact ((Leads.accept? ha).trans (passes_lambdaParams hp)).trans ih
  | paren ha _ _ hc ih => exact ((Leads.accept? ha).trans ih).trans (.accept? hc)
  | lambda ha _ ih => exact (Leads.one (passes_lambdaArrow ha)).trans ih
  | createArgs ht ho _ _ ih => exact (Leads.trans (passes_type? ht) (.accept? ho)).trans ih
  | createBoth ht ho _ hb _ ih₁ ih₂ =>
    have hargs := (Leads.trans (passes_type? ht) (.accept? ho)).trans ih₁
    exact (hargs.trans (.accept? hb)).trans ih₂
  | createEntries ht _ hb _ ih => exact (Leads.trans (passes_type? ht) (.accept? hb)).trans ih
  | entriesLast _ _ _ hc ih => exact ih.trans (.accept? hc)
  | entries _ _ hk _ ih₁ ih₂ => exact (ih₁.trans (.accept? hk)).trans ih₂
  | entryElement hb _ _ _ ih₁ ih₂ => exact ((Leads.accept? hb).trans ih₁).trans ih₂
  | entryMember _ hn _ ih => exact Leads.trans (entryName_eq_ok_iff.1 hn).passes ih
  | entryValue hs _ ih => exact (Leads.accept? hs).trans ih

/-- A derivation passes the tokens between its cursors. -/
theorem Reads.passes {phrase : Phrase} {c d : Cursor} (h : Reads phrase c d) : ∃ ts, c.Passes ts d :=
  h.leads

/-- What reads at least one token: all but the operators behind an operand and the accesses behind a base. -/
def Phrase.isFull : Phrase → Bool
  | .operators _ _ _ _ _ | .accesses _ _ _ _ => false
  | .lambda _ _ _ _ => false
  | _ => true

/-- A phrase that is never empty passes a token. -/
theorem Reads.passes_ne_nil {phrase : Phrase} {c d : Cursor} (h : Reads phrase c d) {ts : List Token} (hp : c.Passes ts d)
    (hf : phrase.isFull = true := by rfl) : ts ≠ [] := by
  have hr := h.isRead
  intro he
  have hl : c.ahead.length = d.ahead.length := by rw [hp.1, he, List.nil_append]
  cases phrase <;> simp only [Phrase.isFull, Bool.false_eq_true] at hf <;> obtain ⟨hlt, -⟩ := hr <;> omega

/-! ## Spans -/

/-- The span of one token that was passed. -/
theorem Cursor.Passes.spanTo_singleton {c d : Cursor} {t : Token} (h : c.Passes [t] d) : c.spanTo d = t.span := by
  simp [spanTo, h.1, h.2, Span.join]

/-- The span of what a phrase stands for, where it has one. What was read in front of operators and accesses must have its
own. -/
def Phrase.SpanFits : Phrase → Cursor → Cursor → Prop
  | .assign _ e, c, d | .conditional _ e, c, d | .binary _ _ e, c, d | .unary _ e, c, d | .primary _ e, c, d =>
    e.span = c.spanTo d
  | .operators _ _ start left whole, c, d | .accesses _ start left whole, c, d =>
    left.span = start.spanTo c → whole.span = start.spanTo d
  | .lambda _ start _ e, _, d | .creation start e, _, d => e.span = start.spanTo d
  | _, _, _ => True

/-- An expression that was read has the span of the tokens that were passed for it. -/
theorem Reads.span {phrase : Phrase} {c d : Cursor} (h : Reads phrase c d) : phrase.SpanFits c d := by
  induction h with
  | assignEnd _ _ ih => exact ih
  | assign => rfl
  | conditionalEnd _ _ ih => exact ih
  | conditional => rfl
  | binary _ _ ih₁ ih₂ => exact ih₂ ih₁
  | operatorsEnd _ => exact id
  | operators _ _ _ _ ih => exact fun _ => ih rfl
  | unary => rfl
  | postfixed _ _ _ ih₁ ih₂ => exact ih₂ ih₁
  | accessesEnd _ => exact id
  | accesses _ _ _ _ ih => exact fun _ => ih rfl
  | name ha _ => exact (Cursor.passes_accept? ha).spanTo_singleton.symm
  | shortLambda _ _ _ ih => exact ih
  | literal hn _ => exact (Cursor.passes_next? hn).spanTo_singleton.symm
  | self ha => exact (Cursor.passes_accept? ha).spanTo_singleton.symm
  | create _ _ ih => exact ih
  | longLambda _ _ _ _ ih => exact ih
  | paren => rfl
  | lambda => rfl
  | createArgs => rfl
  | createBoth => rfl
  | createEntries => rfl
  | _ => trivial

end NavCheck
