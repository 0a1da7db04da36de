import NavCheck.Proofs.Layout.Expressions
import NavCheck.Proofs.Places.Syntax

/-!
# Places of expressions

Whatever the expression parser makes of tokens lies at places that are made of the places of tokens, and so does the
error when it makes nothing.
-/

namespace NavCheck

/-- What is asked of the places of tokens. Places are good when they are those of tokens, when they are joined from
good ones, and when they are the place of a `?` behind what was read from a cursor on. A finding may be placed at a
good place, at a cursor, and at the last token passed. -/
structure Places (good : Span → Prop) (placed : Option Span → Prop) (tokens : List Token) : Prop where
  token : ∀ t ∈ tokens, good t.span
  join : ∀ {a b : Span}, good a → good b → good (a.join b)
  guard : ∀ {start c d : Cursor}, start.Over tokens → start.Leads c → c.ahead.length < start.ahead.length → c.Leads d →
    d.ahead.length < c.ahead.length → good ⟨(start.spanTo d).file, (start.spanTo c).stop, (start.spanTo d).stop⟩
  at_good : ∀ {span : Span}, good span → placed (some span)
  here : ∀ {c : Cursor}, c.Over tokens → placed c.hereSpan?

/-- The tokens between two cursors with a different number of tokens ahead. -/
theorem Cursor.Passes.ne_nil {c d : Cursor} {ts : List Token} (h : c.Passes ts d) (hl : d.ahead.length < c.ahead.length) :
    ts ≠ [] := by
  rintro rfl
  rw [h.1, List.nil_append] at hl
  exact Nat.lt_irrefl _ hl

/-! ## Outcomes -/

/-- What is read has a property, or the error is placed. -/
def Brings {α : Type} (placed : Option Span → Prop) (p : α → Prop) : Except ExprError α → Prop
  | .ok a => p a
  | .error e => placed e.span

/-- What is read at a cursor has a property and was read from there on. -/
def Finds {α : Type} (placed : Option Span → Prop) (c : Cursor) (p : α → Prop) (x : Read α c) : Prop :=
  Brings placed (fun r => p r.value ∧ c.Leads r.next) x

namespace Brings

variable {placed : Option Span → Prop} {α β : Type} {p : α → Prop} {q : β → Prop}

/-- Two steps: the first one is placed, and so is the second whatever the first has brought. -/
theorem bind {x : Except ExprError α} {f : α → Except ExprError β} (h : Brings placed p x)
    (hf : ∀ a, p a → Brings placed q (f a)) : Brings placed q (x >>= f) := by
  cases x with
  | ok a => exact hf a h
  | error e => exact h

end Brings

namespace Places

variable {good : Span → Prop} {placed : Option Span → Prop} {tokens : List Token} {c d : Cursor}
  (P : Places good placed tokens) (hc : c.Over tokens)

include P hc

/-- What is read between two cursors lies at a good place. -/
theorem spanTo (h : c.Leads d) (hl : d.ahead.length < c.ahead.length) : good (c.spanTo d) := by
  obtain ⟨ts, hp⟩ := h
  have hd := hc.passes hp
  obtain ⟨first, rest, rfl⟩ := List.exists_cons_of_ne_nil (hp.ne_nil hl)
  have hfirst : good first.span := P.token _ (hc.mem_ahead (by rw [hp.1]; exact List.mem_cons_self))
  unfold Cursor.spanTo
  rw [hp.1]
  cases hpassed : d.passed with
  | nil =>
    rw [hp.2] at hpassed
    simp at hpassed
  | cons last passed => exact P.join hfirst (P.token _ (hd.mem_passed (hpassed ▸ List.mem_cons_self)))

/-- The last token passed, when there is one, is one of the tokens. -/
theorem last (h : d.Leads c) (hl : c.ahead.length < d.ahead.length) : placed (c.passed.head?.map (·.span)) := by
  obtain ⟨ts, hp⟩ := h
  cases hpassed : c.passed with
  | nil =>
    rw [hp.2] at hpassed
    exact absurd (List.reverse_eq_nil_iff.1 (List.append_eq_nil_iff.1 hpassed).1) (hp.ne_nil hl)
  | cons t passed => exact P.at_good (P.token t (hc.mem_passed (hpassed ▸ List.mem_cons_self)))

/-- The next token has its place. -/
theorem next? {p : Parsed Token c} (h : c.next? = some p) : good p.value.span :=
  P.token _ (hc.mem_ahead (by rw [(Cursor.passes_next? h).1]; exact List.mem_cons_self))

/-- A token that is accepted has its place. -/
theorem accept? {kind : TokenKind} {p : Parsed Token c} (h : c.accept? kind = some p) : good p.value.span :=
  P.next? hc (Cursor.next?_of_accept? h).1

/-- A fault is placed at the cursor. -/
theorem fail {α : Type} {p : α → Prop} (fault : ExprFault) : Brings placed p (c.fail fault) :=
  P.here hc

/-! ## Small steps -/

/-- A bracket that is not closed is reported at the cursor. -/
theorem close (place : ClosePlace) : Finds placed c (fun _ => True) (c.close place) := by
  unfold Cursor.close
  cases h : c.accept? (.punct place.mark) with
  | none => exact P.fail hc _
  | some p => exact ⟨trivial, .accept? h⟩

/-- A name has its place, and a missing one is reported at the cursor. -/
theorem nameAt (place : NamePlace) : Finds placed c (fun t => good t.span) (c.nameAt place) := by
  unfold Cursor.nameAt
  cases h : c.accept? .name with
  | none => exact P.fail hc _
  | some p => exact ⟨P.accept? hc h, .accept? h⟩

/-- The place of a `$` name runs from the dollar sign to the name. -/
theorem dollarName {dollar : Token} (hd : good dollar.span) : Finds placed c (fun n => good n.2) (c.dollarName dollar) := by
  unfold Cursor.dollarName
  cases h : c.next? with
  | none => exact P.at_good hd
  | some p =>
    have hp := P.next? hc h
    dsimp only
    split
    · exact P.at_good hp
    · split
      · exact P.at_good (P.join hd hp)
      · exact ⟨P.join hd hp, _, Cursor.passes_next? h⟩

/-- A name behind a dollar sign, or a name alone. -/
theorem keyedName (place : NamePlace) : Finds placed c (fun n => good n.2)
    (match c.accept? (.punct .dollar) with
    | some d => do
      let p ← d.next.dollarName d.value
      .ok ⟨p.value, p.next, Nat.lt_trans p.shorter d.shorter⟩
    | none => do
      let p ← c.nameAt place
      .ok ⟨(.plain p.value.lexeme, p.value.span), p.next, p.shorter⟩) := by
  cases h : c.accept? (.punct .dollar) with
  | some d =>
    refine (P.dollarName (hc.leads (.accept? h)) (P.accept? hc h)).bind fun p ⟨hp, hl⟩ => ?_
    exact ⟨hp, (Cursor.Leads.accept? h).trans hl⟩
  | none => exact (P.nameAt hc place).bind fun p ⟨hp, hl⟩ => ⟨hp, hl⟩

/-- The name of a member has its place. -/
theorem memberName (guarded : Bool) : Finds placed c (fun n => good n.2) (c.memberName guarded) :=
  P.keyedName hc _

/-- The name in front of an entry has its place. -/
theorem entryName : Finds placed c (fun n => good n.2) c.entryName :=
  P.keyedName hc _

end Places

/-! ## Written types -/

namespace TypeExpr

variable {good : Span → Prop} {placed : Option Span → Prop} {tokens : List Token}

/-- Suffixes end at a good place when what is in front of them does. -/
theorem good_scanSuffixes {last : Span} {ts : List Token} (hl : good last) (hts : ∀ t ∈ ts, good t.span) :
    good (scanSuffixes last ts).2.1 := by
  obtain h | ⟨t, ht, h⟩ := last_scanSuffixes last ts
  · rwa [h]
  · rw [← h]
    exact hts t ht

mutual

/-- A type that is read lies at the places of its tokens. -/
theorem within_scan? (P : Places good placed tokens) (ts : List Token) (hts : ∀ t ∈ ts, good t.span)
    (s : TypeScan TypeExpr ts) (h : scan? ts = some s) : s.value.Within good ∧ good s.last := by
  cases ts with
  | nil => rw [scan?] at h; cases h
  | cons first rest =>
    obtain ⟨hf, hr⟩ := List.forall_mem_cons.1 hts
    rw [scan?] at h
    dsimp only at h
    split at h
    · cases ha : scanArgs? first.span rest with
      | none => rw [ha] at h; cases h
      | some after =>
        obtain ⟨args, afterArgs⟩ := after
        rw [ha] at h
        cases h
        obtain ⟨hargs, hlast⟩ := within_scanArgs? P first.span hf rest hr _ ha
        have hsub := (scanArgs?_suffix first.span rest _ ha).subset
        have hg := good_scanSuffixes hlast fun t ht => hr t (hsub ht)
        exact ⟨⟨hargs, P.join hf hg⟩, hg⟩
    · cases h
termination_by 2 * ts.length

/-- The arguments of a type have their places, and so has the last token read. -/
theorem within_scanArgs? (P : Places good placed tokens) (last : Span) (hl : good last) (ts : List Token)
    (hts : ∀ t ∈ ts, good t.span) (s : List TypeExpr × Span × { rest : List Token // rest.length ≤ ts.length })
    (h : scanArgs? last ts = some s) :
    typesWithin good s.1 ∧ good s.2.1 := by
  cases ts with
  | nil => rw [scanArgs?] at h; cases h; exact ⟨trivial, hl⟩
  | cons t rest =>
    rw [scanArgs?] at h
    split at h
    · rw [Option.map_eq_some_iff] at h
      obtain ⟨s, hs, rfl⟩ := h
      exact within_scanArgList? P rest (List.forall_mem_cons.1 hts).2 s hs
    · cases h
      exact ⟨trivial, hl⟩
termination_by 2 * ts.length + 1

/-- Types in a row have their places, and so has the last token read. -/
theorem within_scanArgList? (P : Places good placed tokens) (ts : List Token) (hts : ∀ t ∈ ts, good t.span)
    (s : TypeScan (List TypeExpr) ts) (h : scanArgList? ts = some s) : typesWithin good s.value ∧ good s.last := by
  rw [scanArgList?] at h
  cases ha : scan? ts with
  | none => rw [ha] at h; cases h
  | some arg =>
    rw [ha] at h
    obtain ⟨harg, -⟩ := within_scan? P ts hts arg ha
    have hrest : ∀ t ∈ arg.rest, good t.span := fun t ht => hts t ((scan?_suffix ts arg ha).subset ht)
    dsimp only at h
    split at h
    · cases h
    · rename_i t rest hr
      rw [hr, List.forall_mem_cons] at hrest
      have hlt : rest.length < ts.length := by
        have hs := arg.shorter
        rw [hr, List.length_cons] at hs
        omega
      split at h
      · rw [Option.map_eq_some_iff] at h
        obtain ⟨more, hm, rfl⟩ := h
        obtain ⟨hmore, hlast⟩ := within_scanArgList? P rest hrest.2 more hm
        exact ⟨⟨harg, hmore⟩, hlast⟩
      · split at h
        · cases h
          exact ⟨⟨harg, trivial⟩, hrest.1⟩
        · cases h
termination_by 2 * ts.length + 1

end

end TypeExpr

namespace Places

variable {good : Span → Prop} {placed : Option Span → Prop} {tokens : List Token} {c d : Cursor}
  (P : Places good placed tokens)

include P

/-- A type has its places and is followed by later tokens. -/
theorem type? (hc : c.Over tokens) {p : Parsed TypeExpr c} (h : c.type? = some p) : p.value.Within good ∧ c.Leads p.next := by
  refine ⟨?_, Cursor.passes_type? h⟩
  unfold Cursor.type? at h
  rw [Option.map_eq_some_iff] at h
  obtain ⟨s, hs, rfl⟩ := h
  exact (TypeExpr.within_scan? P c.ahead (fun t ht => P.token t (hc.mem_ahead ht)) s hs).1

/-! ## Lambdas -/

/-- A parameter of a lambda has its places. -/
theorem lambdaParam (hc : c.Over tokens) : Finds placed c (·.Within good) c.lambdaParam := by
  have plain : Finds placed c (LambdaParam.Within good) (do
      let p ← c.nameAt .lambdaParam
      .ok ⟨⟨none, p.value.lexeme, p.value.span⟩, p.next, p.shorter⟩) :=
    (P.nameAt hc _).bind fun p ⟨hp, hl⟩ => ⟨⟨nofun, hp⟩, hl⟩
  unfold Cursor.lambdaParam
  cases ht : c.type? with
  | none => exact plain
  | some t =>
    obtain ⟨hw, hl⟩ := P.type? hc ht
    dsimp only
    cases hp : t.next.accept? .name with
    | none => exact plain
    | some p => exact ⟨⟨by rintro _ ⟨⟩; exact hw, P.accept? (hc.leads hl) hp⟩, hl.trans (.accept? hp)⟩

/-- Parameters of a lambda in a row have their places. -/
theorem lambdaParamList (c : Cursor) (hc : c.Over tokens) :
    Finds placed c (fun ps => ∀ p ∈ ps, p.Within good) c.lambdaParamList := by
  rw [Cursor.lambdaParamList]
  refine (P.lambdaParam hc).bind fun p h => ?_
  obtain ⟨hp, hl⟩ := h
  cases hk : p.next.accept? (.punct .comma) with
  | none => exact ⟨List.forall_mem_singleton.2 hp, hl⟩
  | some comma =>
    have := Nat.lt_trans comma.shorter p.shorter
    have hk' := hl.trans (.accept? hk)
    refine (lambdaParamList comma.next (hc.leads hk')).bind fun ps h => ?_
    exact ⟨List.forall_mem_cons.2 ⟨hp, h.1⟩, hk'.trans h.2⟩
termination_by c.ahead.length

/-- The parameters of a lambda have their places. -/
theorem lambdaParams (hc : c.Over tokens) : Finds placed c (fun ps => ∀ p ∈ ps, p.Within good) c.lambdaParams := by
  unfold Cursor.lambdaParams
  cases hp : c.accept? (.punct .closeParen) with
  | some p => exact ⟨List.forall_mem_nil _, .accept? hp⟩
  | none =>
    refine (P.lambdaParamList c hc).bind fun ps ⟨hps, hl⟩ => ?_
    exact (P.close (hc.leads hl) _).bind fun p ⟨_, hk⟩ => ⟨hps, hl.trans hk⟩

/-- The arrow of a lambda that is missing is reported at the cursor. -/
theorem lambdaArrow (hc : c.Over tokens) : Finds placed c (fun _ => True) c.lambdaArrow := by
  unfold Cursor.lambdaArrow
  cases hp : c.accept? (.sign .arrow) with
  | none => exact P.fail hc _
  | some p =>
    have hl := Cursor.Leads.accept? hp
    dsimp only
    split
    · exact P.fail (hc.leads hl) _
    · exact ⟨trivial, hl⟩

end Places

/-! ## Expressions -/

open NavCheck.Expr

section

variable {good : Span → Prop} {placed : Option Span → Prop} {tokens : List Token}

mutual

/-- An assignment has its places. The recursion in what follows is that of the parser. -/
theorem finds_readAssign (P : Places good placed tokens) (pending : Nat) (c : Cursor) (hc : c.Over tokens) :
    Finds placed c (·.Within good) (readAssign pending c) := by
  rw [readAssign]
  refine (finds_readConditional P pending c hc).bind fun left ⟨hw, hl⟩ => ?_
  cases hs : left.next.accept? (.sign .assign) with
  | none => exact ⟨hw, hl⟩
  | some sign =>
    have h := Nat.lt_trans sign.shorter left.shorter
    have hl := hl.trans (.accept? hs)
    refine (finds_readAssign P pending sign.next (hc.leads hl)).bind fun right ⟨hr, hl'⟩ => ?_
    have hl := hl.trans hl'
    exact ⟨⟨hw, hr, P.spanTo hc hl (Nat.lt_trans right.shorter h)⟩, hl⟩
termination_by 11 * c.ahead.length + 6

/-- A conditional has its places. -/
theorem finds_readConditional (P : Places good placed tokens) (pending : Nat) (c : Cursor) (hc : c.Over tokens) :
    Finds placed c (·.Within good) (readConditional pending c) := by
  rw [readConditional]
  refine (finds_readBinary P pending 0 c hc).bind fun condition ⟨hw, hl⟩ => ?_
  cases hq : condition.next.accept? (.punct .question) with
  | none => exact ⟨hw, hl⟩
  | some question =>
    have h₁ := Nat.lt_trans question.shorter condition.shorter
    have hl := hl.trans (.accept? hq)
    refine (finds_readAssign P (pending + 1) question.next (hc.leads hl)).bind fun thenBranch ⟨ht, hl'⟩ => ?_
    have h₂ := Nat.lt_trans thenBranch.shorter h₁
    have hl := hl.trans hl'
    cases hk : thenBranch.next.accept? (.punct .colon) with
    | none => exact P.fail (hc.leads hl) _
    | some colon =>
      have h₃ := Nat.lt_trans colon.shorter h₂
      have hl := hl.trans (.accept? hk)
      refine (finds_readAssign P pending colon.next (hc.leads hl)).bind fun elseBranch ⟨he, hl'⟩ => ?_
      have hl := hl.trans hl'
      exact ⟨⟨hw, ht, he, P.spanTo hc hl (Nat.lt_trans elseBranch.shorter h₃)⟩, hl⟩
termination_by 11 * c.ahead.length + 5

/-- Operands with operators between them have their places. -/
theorem finds_readBinary (P : Places good placed tokens) (pending least : Nat) (c : Cursor) (hc : c.Over tokens) :
    Finds placed c (·.Within good) (readBinary pending least c) := by
  rw [readBinary]
  refine (finds_readUnary P pending c hc).bind fun left ⟨hw, hl⟩ => ?_
  have h := left.shorter
  exact (finds_readBinaryRest P pending least c hc left.value hw left.next hl (Nat.le_of_lt h)).bind fun whole hw => hw
termination_by 11 * c.ahead.length + 4

/-- Operators go on from a left operand with its places, and the spans begin where the whole did. -/
theorem finds_readBinaryRest (P : Places good placed tokens) (pending least : Nat) (start : Cursor) (hs : start.Over tokens)
    (left : Expr) (hw : left.Within good) (c : Cursor) (hl : start.Leads c) (hle : c.ahead.length ≤ start.ahead.length) :
    Brings placed (fun r => r.value.Within good ∧ start.Leads r.next) (readBinaryRest pending least start left c) := by
  rw [readBinaryRest]
  cases ho : c.binOp? least with
  | none => exact ⟨hw, hl⟩
  | some op =>
    have h₁ := op.shorter
    obtain ⟨t, ht⟩ := Cursor.passes_binOp? ho
    have hl := hl.trans ⟨_, ht⟩
    refine (finds_readBinary P pending _ op.next (hs.leads hl)).bind fun right ⟨hr, hl'⟩ => ?_
    have h₂ := Nat.lt_trans right.shorter h₁
    have h₃ := Nat.lt_of_lt_of_le h₂ hle
    have hl := hl.trans hl'
    exact (finds_readBinaryRest P pending least start hs (.binary op.value left right.value (start.spanTo right.next))
      ⟨hw, hr, P.spanTo hs hl h₃⟩ right.next hl (Nat.le_of_lt h₃)).bind fun whole hw => hw
termination_by 11 * c.ahead.length + 4

/-- An operand has its places. -/
theorem finds_readUnary (P : Places good placed tokens) (pending : Nat) (c : Cursor) (hc : c.Over tokens) :
    Finds placed c (·.Within good) (readUnary pending c) := by
  rw [readUnary]
  cases ho : c.unOp? with
  | some op =>
    have h := op.shorter
    have hl : c.Leads op.next := (Cursor.passes_unOp? ho).elim fun _ h => ⟨_, h⟩
    refine (finds_readUnary P pending op.next (hc.leads hl)).bind fun operand ⟨hw, hl'⟩ => ?_
    have hl := hl.trans hl'
    exact ⟨⟨hw, P.spanTo hc hl (Nat.lt_trans operand.shorter h)⟩, hl⟩
  | none =>
    refine (finds_readPrimary P pending c hc).bind fun base ⟨hw, hl, he⟩ => ?_
    have h := base.shorter
    exact (finds_readAccesses P pending c hc base.value hw base.next hl h he).bind fun whole hw => hw
termination_by 11 * c.ahead.length + 3

/-- Accesses go on from a base with its places, which is what was read so far; a `?` then has a good place behind it. -/
theorem finds_readAccesses (P : Places good placed tokens) (pending : Nat) (start : Cursor) (hs : start.Over tokens)
    (base : Expr) (hw : base.Within good) (c : Cursor) (hl : start.Leads c) (hlt : c.ahead.length < start.ahead.length)
    (he : base.span = start.spanTo c) :
    Brings placed (fun r => r.value.Within good ∧ start.Leads r.next) (readAccesses pending start base c) := by
  rw [readAccesses]
  cases ha : c.accessStart? pending with
  | none => exact ⟨hw, hl⟩
  | some a =>
    have h₁ := a.shorter
    have hla : c.Leads a.next := (Cursor.passes_accessStart? ha).elim fun _ h => h.elim fun _ h => ⟨_, h.1⟩
    refine (finds_readLink P a.value.1 a.value.2 a.next (hs.leads (hl.trans hla))).bind fun link ⟨hlink, hl'⟩ => ?_
    have h₂ := Nat.lt_trans link.shorter h₁
    have h₃ := Nat.lt_trans h₂ hlt
    have hnext := hla.trans hl'
    have hguard : good (guardSpan base (start.spanTo link.next)) := by
      rw [guardSpan, he]
      exact P.guard hs hl hlt hnext h₂
    exact (finds_readAccesses P pending start hs (.access base link.value a.value.2 (start.spanTo link.next))
      ⟨hw, hlink, P.spanTo hs (hl.trans hnext) h₃, hguard⟩ link.next (hl.trans hnext) h₃ rfl).bind fun whole hw => hw
termination_by 11 * c.ahead.length + 3

/-- A link has its places. -/
theorem finds_readLink (P : Places good placed tokens) (start : AccessStart) (guarded : Bool) (c : Cursor)
    (hc : c.Over tokens) : Finds placed c (·.Within good) (readLink start guarded c) := by
  rw [readLink.eq_def]
  cases start with
  | dot => exact (P.memberName hc guarded).bind fun name ⟨hn, hl⟩ => ⟨hn, hl⟩
  | bracket =>
    dsimp only
    split
    · exact P.fail hc _
    · exact (finds_readBracketed P .indices c hc).bind fun indices ⟨hi, hl⟩ => ⟨hi, hl⟩
  | paren => exact (finds_readArgs P c hc).bind fun args ⟨ha, hl⟩ => ⟨ha, hl⟩
termination_by 11 * c.ahead.length + 10

/-- Expressions in a row have their places. -/
theorem finds_readList (P : Places good placed tokens) (c : Cursor) (hc : c.Over tokens) :
    Finds placed c (listWithin good) (readList c) := by
  rw [readList]
  refine (finds_readAssign P 0 c hc).bind fun e ⟨hw, hl⟩ => ?_
  cases hk : e.next.accept? (.punct .comma) with
  | none => exact ⟨⟨hw, trivial⟩, hl⟩
  | some comma =>
    have h := Nat.lt_trans comma.shorter e.shorter
    have hl := hl.trans (.accept? hk)
    exact (finds_readList P comma.next (hc.leads hl)).bind fun es ⟨hes, hl'⟩ => ⟨⟨hw, hes⟩, hl.trans hl'⟩
termination_by 11 * c.ahead.length + 7

/-- Expressions in brackets have their places. -/
theorem finds_readBracketed (P : Places good placed tokens) (place : ClosePlace) (c : Cursor) (hc : c.Over tokens) :
    Finds placed c (listWithin good) (readBracketed place c) := by
  rw [readBracketed]
  refine (finds_readList P c hc).bind fun es ⟨hes, hl⟩ => ?_
  exact (P.close (hc.leads hl) place).bind fun p ⟨_, hp⟩ => ⟨hes, hl.trans hp⟩
termination_by 11 * c.ahead.length + 8

/-- Arguments have their places. -/
theorem finds_readArgs (P : Places good placed tokens) (c : Cursor) (hc : c.Over tokens) :
    Finds placed c (listWithin good) (readArgs c) := by
  rw [readArgs]
  cases hp : c.accept? (.punct .closeParen) with
  | some p => exact ⟨trivial, .accept? hp⟩
  | none => exact finds_readBracketed P .args c hc
termination_by 11 * c.ahead.length + 9

/-- A primary expression has its places, and its span is that of the tokens read for it. -/
theorem finds_readPrimary (P : Places good placed tokens) (pending : Nat) (c : Cursor) (hc : c.Over tokens) :
    Brings placed (fun r => r.value.Within good ∧ c.Leads r.next ∧ r.value.span = c.spanTo r.next) (readPrimary pending c) := by
  rw [readPrimary]
  cases hn : c.next? with
  | none => exact P.fail hc _
  | some p =>
    have hp := p.shorter
    have hg := P.next? hc hn
    have hpass := Cursor.passes_next? hn
    have hl : c.Leads p.next := ⟨_, hpass⟩
    have he : p.value.span = c.spanTo p.next := hpass.spanTo_singleton.symm
    dsimp only
    split
    case h_1 =>
      split
      · exact finds_readLambdaBody P pending c hc _ (List.forall_mem_singleton.2 ⟨by rintro _ ⟨⟩, hg⟩) p.next p.shorter hl
      · exact ⟨hg, hl, he⟩
    case h_8 => exact (finds_readCreation P c hc p.next hl hp).bind fun e h => h
    case h_9 =>
      split
      · refine (P.lambdaParams (hc.leads hl)).bind fun params ⟨hps, hl'⟩ => ?_
        exact finds_readLambdaBody P pending c hc params.value hps params.next (Nat.lt_trans params.shorter hp) (hl.trans hl')
      · refine (finds_readAssign P 0 p.next (hc.leads hl)).bind fun inner ⟨hw, hl'⟩ => ?_
        have hl := hl.trans hl'
        refine (P.close (hc.leads hl) _).bind fun close ⟨_, hk⟩ => ?_
        have hl := hl.trans hk
        exact ⟨⟨hw, P.spanTo hc hl (Nat.lt_trans close.shorter (Nat.lt_trans inner.shorter hp))⟩, hl, rfl⟩
    case h_10 => exact P.at_good hg
    case h_11 => exact P.fail hc _
    all_goals exact ⟨hg, hl, he⟩
termination_by 11 * c.ahead.length + 2

/-- The body of a lambda has its places, and the span of the lambda begins with its parameters. -/
theorem finds_readLambdaBody (P : Places good placed tokens) (pending : Nat) (start : Cursor) (hs : start.Over tokens)
    (params : List LambdaParam) (hps : ∀ p ∈ params, p.Within good) (c : Cursor) (h : c.ahead.length < start.ahead.length)
    (hl : start.Leads c) :
    Brings placed (fun r => r.value.Within good ∧ start.Leads r.next ∧ r.value.span = start.spanTo r.next)
      (readLambdaBody pending start params c h) := by
  rw [readLambdaBody]
  refine (P.lambdaArrow (hs.leads hl)).bind fun arrow ⟨_, ha⟩ => ?_
  have h' := Nat.lt_trans arrow.shorter h
  have hl := hl.trans ha
  refine (finds_readAssign P pending arrow.next (hs.leads hl)).bind fun body ⟨hw, hl'⟩ => ?_
  have hl := hl.trans hl'
  exact ⟨⟨hps, hw, P.spanTo hs hl (Nat.lt_trans body.shorter h')⟩, hl, rfl⟩
termination_by 11 * start.ahead.length + 1

/-- A creation has its places, and its span begins with its word. -/
theorem finds_readCreation (P : Places good placed tokens) (start : Cursor) (hs : start.Over tokens) (c : Cursor)
    (hl : start.Leads c) (hlt : c.ahead.length < start.ahead.length) :
    Brings placed (fun r => r.value.Within good ∧ start.Leads r.next ∧ r.value.span = start.spanTo r.next)
      (readCreation start c) := by
  rw [readCreation]
  cases ht : c.type? with
  | none => exact P.fail (hs.leads hl) _
  | some type =>
    obtain ⟨hw, hl'⟩ := P.type? (hs.leads hl) ht
    have hl := hl.trans hl'
    have h₀ := type.shorter
    dsimp only
    cases ho : type.next.accept? (.punct .openParen) with
    | some opening =>
      have h₁ := Nat.lt_trans opening.shorter h₀
      have hl := hl.trans (.accept? ho)
      refine (finds_readArgs P opening.next (hs.leads hl)).bind fun args ⟨ha, hl'⟩ => ?_
      have h₂ := Nat.lt_trans args.shorter h₁
      have hl := hl.trans hl'
      cases hb : args.next.accept? (.punct .openBrace) with
      | some brace =>
        have h₃ := Nat.lt_trans brace.shorter h₂
        have hl := hl.trans (.accept? hb)
        refine (finds_readEntries P brace.next (hs.leads hl)).bind fun entries ⟨hes, hl'⟩ => ?_
        have hl := hl.trans hl'
        exact ⟨⟨hw, ha, hes, P.spanTo hs hl (Nat.lt_trans (Nat.lt_trans entries.shorter h₃) hlt)⟩, hl, rfl⟩
      | none => exact ⟨⟨hw, ha, trivial, P.spanTo hs hl (Nat.lt_trans h₂ hlt)⟩, hl, rfl⟩
    | none =>
      dsimp only
      cases hb : type.next.accept? (.punct .openBrace) with
      | some brace =>
        have h₁ := Nat.lt_trans brace.shorter h₀
        have hl := hl.trans (.accept? hb)
        refine (finds_readEntries P brace.next (hs.leads hl)).bind fun entries ⟨hes, hl'⟩ => ?_
        have hl := hl.trans hl'
        exact ⟨⟨hw, trivial, hes, P.spanTo hs hl (Nat.lt_trans (Nat.lt_trans entries.shorter h₁) hlt)⟩, hl, rfl⟩
      | none => exact P.fail (hs.leads hl) _
termination_by 11 * c.ahead.length + 2

/-- The entries of an initializer have their places. -/
theorem finds_readEntries (P : Places good placed tokens) (c : Cursor) (hc : c.Over tokens) :
    Finds placed c (entriesWithin good) (readEntries c) := by
  rw [readEntries]
  cases hp : c.accept? (.punct .closeBrace) with
  | some p => exact ⟨trivial, .accept? hp⟩
  | none =>
    refine (finds_readEntry P c hc).bind fun entry ⟨hw, hl⟩ => ?_
    cases hk : entry.next.accept? (.punct .comma) with
    | some comma =>
      have h := Nat.lt_trans comma.shorter entry.shorter
      have hl := hl.trans (.accept? hk)
      refine (finds_readEntries P comma.next (hc.leads hl)).bind fun entries ⟨hes, hl'⟩ => ?_
      exact ⟨entriesWithin_cons.2 ⟨hw, hes⟩, hl.trans hl'⟩
    | none => exact (P.close (hc.leads hl) _).bind fun p ⟨_, hp⟩ => ⟨hw, hl.trans hp⟩
termination_by 11 * c.ahead.length + 9

/-- An entry has its places. -/
theorem finds_readEntry (P : Places good placed tokens) (c : Cursor) (hc : c.Over tokens) :
    Finds placed c (fun entry => entriesWithin good [entry]) (readEntry c) := by
  rw [readEntry]
  cases hb : c.accept? (.punct .openBracket) with
  | some bracket =>
    have h := bracket.shorter
    have hl := Cursor.Leads.accept? hb
    dsimp only
    split
    · exact P.fail (hc.leads hl) _
    · refine (finds_readBracketed P .indices bracket.next (hc.leads hl)).bind fun indices ⟨hi, hl'⟩ => ?_
      have h' := Nat.lt_trans indices.shorter h
      have hl := hl.trans hl'
      refine (finds_readEntryValue P indices.next (hc.leads hl)).bind fun value ⟨hw, hl'⟩ => ?_
      exact ⟨⟨hi, P.spanTo hc hl h', hw, trivial⟩, hl.trans hl'⟩
  | none =>
    refine (P.entryName hc).bind fun name ⟨hn, hl⟩ => ?_
    have h := name.shorter
    exact (finds_readEntryValue P name.next (hc.leads hl)).bind fun value ⟨hw, hl'⟩ => ⟨⟨hn, hw, trivial⟩, hl.trans hl'⟩
termination_by 11 * c.ahead.length + 8

/-- The value of an entry has its places. -/
theorem finds_readEntryValue (P : Places good placed tokens) (c : Cursor) (hc : c.Over tokens) :
    Finds placed c (·.Within good) (readEntryValue c) := by
  rw [readEntryValue]
  cases hs : c.accept? (.sign .assign) with
  | none => exact P.fail hc _
  | some sign =>
    have h := sign.shorter
    have hl := Cursor.Leads.accept? hs
    exact (finds_readAssign P 0 sign.next (hc.leads hl)).bind fun value ⟨hw, hl'⟩ => ⟨hw, hl.trans hl'⟩
termination_by 11 * c.ahead.length + 7

end

end

end NavCheck
