import NavCheck.Proofs.Passing
import NavCheck.Proofs.Written

/-!
# Layout does not matter

Token sequences are alike when they agree in kinds and lexemes, and in whether a dollar sign touches the token behind it. What
the expression parser reads from one of them it reads from the other, up to places.
-/

namespace NavCheck

namespace Token

/-- Tokens of one kind with one text. -/
def Like (t u : Token) : Prop :=
  t.kind = u.kind ∧ t.lexeme = u.lexeme

/-- Whether a token ends where the one behind it begins. -/
def Touches (t : Token) : List Token → Prop
  | [] => True
  | u :: _ => u.span.start = t.span.stop

/-- Tokens of one kind are the same marks. -/
theorem Like.isMark {t u : Token} (h : t.Like u) (mark : Punct) : u.isMark mark = t.isMark mark := by
  rw [Token.isMark, Token.isMark, h.1]

end Token

/-- Token sequences that differ in their layout only. -/
inductive Alike : List Token → List Token → Prop
  | nil : Alike [] []
  | cons {t u ts us} : t.Like u → (t.kind = .punct .dollar → (t.Touches ts ↔ u.Touches us)) → Alike ts us →
    Alike (t :: ts) (u :: us)

namespace Alike

variable {ts us : List Token}

/-- Being alike is symmetric. -/
theorem symm (h : Alike ts us) : Alike us ts := by
  induction h with
  | nil => exact .nil
  | cons hl ht _ ih => exact .cons ⟨hl.1.symm, hl.2.symm⟩ (fun hk => (ht (hl.1.trans hk)).symm) ih

/-- Tokens are like themselves. -/
theorem refl (ts : List Token) : Alike ts ts := by
  induction ts with
  | nil => exact .nil
  | cons t ts ih => exact .cons ⟨rfl, rfl⟩ (fun _ => Iff.rfl) ih

/-- Tokens behind sequences that are alike are alike, unless a dollar sign could touch them. -/
theorem append (h : Alike ts us) (hd : ∀ u ∈ us, u.kind ≠ .punct .dollar) (more : List Token) :
    Alike (ts ++ more) (us ++ more) := by
  induction h with
  | nil => exact .refl more
  | cons hl _ _ ih =>
    rw [List.forall_mem_cons] at hd
    exact .cons hl (fun hk => absurd (hl.1.symm.trans hk) hd.1) (ih hd.2)

/-- Sequences that are alike have the same length. -/
theorem length_eq (h : Alike ts us) : ts.length = us.length := by
  induction h with
  | nil => rfl
  | cons _ _ _ ih => exact congrArg Nat.succ ih

/-- A kind of token is in both of two sequences that are alike, or in none. -/
theorem exists_kind (h : Alike ts us) {u : Token} (hu : u ∈ us) : ∃ t ∈ ts, t.kind = u.kind := by
  induction h with
  | nil => cases hu
  | cons hl _ _ ih =>
    rcases List.mem_cons.1 hu with rfl | hu
    · exact ⟨_, List.mem_cons_self, hl.1⟩
    · obtain ⟨t, ht, hk⟩ := ih hu
      exact ⟨t, List.mem_cons_of_mem _ ht, hk⟩

/-- Which mark stands first does not depend on the layout. -/
theorem guardsLink (h : Alike ts us) : guardsLink ts = NavCheck.guardsLink us := by
  cases h with
  | nil => rfl
  | cons hl => simp [NavCheck.guardsLink, hl.isMark]

/-- Of two sequences that are alike both guard an access, or none does. -/
theorem guardsAccess (h : Alike ts us) : TypeExpr.guardsAccess us = TypeExpr.guardsAccess ts := by
  cases h with
  | nil => rfl
  | cons hl => simp [TypeExpr.guardsAccess, hl.isMark]

/-- The search for the `:` of a conditional looks at kinds only. -/
theorem questionGuards (h : Alike ts us) (depth questions pending : Nat) :
    questionGuards depth questions pending ts = NavCheck.questionGuards depth questions pending us := by
  induction h generalizing depth questions pending with
  | nil => rfl
  | cons hl _ hs ih => simp only [NavCheck.questionGuards, hl.1, hs.guardsLink, ih]

/-- The search for the end of a bracket looks at kinds only. -/
theorem behindClose? (h : Alike ts us) (depth : Nat) :
    Option.Rel Alike (behindClose? depth ts) (NavCheck.behindClose? depth us) := by
  induction h generalizing depth with
  | nil => exact .none
  | @cons t u ts us hl _ hs ih =>
    simp only [NavCheck.behindClose?, hl.1]
    split
    · split
      · exact ih _
      · split
        · split
          · exact .none
          · exact .some hs
          · exact ih _
        · exact ih _
    · exact ih _

end Alike

/-! ## Types -/

section Related

variable {α β : Type} {R : α → β → Prop} {o : Option α} {o' : Option β}

/-- Related options are both empty, or hold related values. -/
theorem rel_cases (h : Option.Rel R o o') :
    (o = none ∧ o' = none) ∨ ∃ a b, o = some a ∧ o' = some b ∧ R a b := by
  cases h with
  | some hr => exact .inr ⟨_, _, rfl, rfl, hr⟩
  | none => exact .inl ⟨rfl, rfl⟩

/-- What is found has something related that is found as well. -/
theorem exists_of_rel (h : Option.Rel R o o') {a : α} (ho : o = some a) : ∃ b, o' = some b ∧ R a b := by
  cases h with
  | some hr => cases ho; exact ⟨_, rfl, hr⟩
  | none => cases ho

/-- Where nothing is found, nothing is found in what is related. -/
theorem none_of_rel (h : Option.Rel R o o') (ho : o = none) : o' = none := by
  cases h with
  | some hr => cases ho
  | none => rfl

end Related

namespace TypeExpr

/-- Suffixes are read in the same way. -/
theorem scanSuffixes_alike {ts us : List Token} (h : Alike ts us) (last last' : Span) :
    (scanSuffixes last' us).1 = (scanSuffixes last ts).1 ∧
      Alike (scanSuffixes last ts).2.2 (scanSuffixes last' us).2.2 := by
  fun_induction scanSuffixes last ts generalizing us last' with
  | case1 =>
    cases h
    exact ⟨rfl, .nil⟩
  | case2 last t rest hq hg =>
    obtain _ | ⟨hl, ht, hs⟩ := h
    rw [scanSuffixes.eq_def]
    simp only [hl.isMark, hq, hs.guardsAccess, hg, if_true]
    exact ⟨trivial, .cons hl ht hs⟩
  | case3 last t rest hq hg suffixes last₁ rest₁ heq ih =>
    obtain _ | @⟨_, u, _, us, hl, ht, hs⟩ := h
    have ih := ih hs u.span
    rw [heq] at ih
    rw [scanSuffixes.eq_def]
    simp only [hl.isMark, hq, hs.guardsAccess, hg, if_true]
    exact ⟨congrArg _ ih.1, ih.2⟩
  | case4 last t hq hb close rest' hc suffixes last₁ rest₁ heq ih =>
    obtain _ | ⟨hl, ht, _ | @⟨_, v, _, us, hl', ht', hs⟩⟩ := h
    have ih := ih hs v.span
    rw [heq] at ih
    rw [scanSuffixes.eq_def]
    simp only [hl.isMark, hl'.isMark, hq, hb, hc, if_true]
    exact ⟨congrArg _ ih.1, ih.2⟩
  | case5 last t hq hb close rest' hc =>
    obtain _ | ⟨hl, ht, _ | ⟨hl', ht', hs⟩⟩ := h
    rw [scanSuffixes.eq_def]
    simp only [hl.isMark, hl'.isMark, hq, hb, hc, if_true]
    exact ⟨rfl, .cons hl ht (.cons hl' ht' hs)⟩
  | case6 last t hq hb =>
    obtain _ | ⟨hl, ht, _ | _⟩ := h
    rw [scanSuffixes.eq_def]
    simp only [hl.isMark, hq, hb, if_true]
    exact ⟨rfl, .cons hl ht .nil⟩
  | case7 last t rest hq hb =>
    obtain _ | ⟨hl, ht, hs⟩ := h
    rw [scanSuffixes.eq_def]
    simp only [hl.isMark, hq, hb]
    exact ⟨rfl, .cons hl ht hs⟩

mutual

/-- A type that is read from one token sequence is read from any other that is alike. -/
theorem scan?_alike (ts us : List Token) (h : Alike ts us) (s : TypeScan TypeExpr ts) (hs : scan? ts = some s) :
    ∃ s', scan? us = some s' ∧ s'.value.erased = s.value.erased ∧ Alike s.rest s'.rest := by
  cases h with
  | nil => rw [scan?] at hs; cases hs
  | @cons t u ts us hl ht ha =>
    rw [scan?] at hs
    rw [scan?]
    dsimp only at hs ⊢
    have hn : u.is .name = t.is .name := by rw [Token.is, Token.is, hl.1]
    rw [hn]
    split at hs
    · rename_i hname
      rw [if_pos hname]
      cases hargs : scanArgs? t.span ts with
      | none => rw [hargs] at hs; cases hs
      | some after =>
        obtain ⟨args, last, rest⟩ := after
        rw [hargs] at hs
        cases hs
        obtain ⟨⟨args', last', rest'⟩, hargs', he, hr⟩ := scanArgs?_alike t.span u.span ts us ha _ hargs
        obtain ⟨hsuf, hrest⟩ := scanSuffixes_alike hr last last'
        rw [hargs']
        refine ⟨_, rfl, ?_, hrest⟩
        simp only [TypeExpr.erased, TypeExpr.mk.injEq, hl.2, true_and, and_true]
        exact ⟨he, hsuf⟩
    · cases hs
termination_by 2 * ts.length

/-- The arguments of a type are read in the same way. -/
theorem scanArgs?_alike (last last' : Span) (ts us : List Token) (h : Alike ts us)
    (s : List TypeExpr × Span × { rest : List Token // rest.length ≤ ts.length }) (hs : scanArgs? last ts = some s) :
    ∃ s', scanArgs? last' us = some s' ∧ erasedTypes s'.1 = erasedTypes s.1 ∧ Alike s.2.2.1 s'.2.2.1 := by
  cases h with
  | nil =>
    rw [scanArgs?] at hs
    cases hs
    exact ⟨([], last', ⟨[], Nat.le_refl _⟩), by rw [scanArgs?], rfl, .nil⟩
  | @cons t u ts us hl ht ha =>
    have hn : u.isSign .less = t.isSign .less := by rw [Token.isSign, Token.isSign, hl.1]
    rw [scanArgs?] at hs
    rw [scanArgs?, hn]
    split at hs
    · rename_i hless
      rw [Option.map_eq_some_iff] at hs
      obtain ⟨s, hs, rfl⟩ := hs
      obtain ⟨s', hs', he, hr⟩ := scanArgList?_alike ts us ha s hs
      rw [if_pos hless, hs']
      exact ⟨_, rfl, he, hr⟩
    · rename_i hless
      cases hs
      rw [if_neg hless]
      exact ⟨_, rfl, rfl, .cons hl ht ha⟩
termination_by 2 * ts.length + 1

/-- Types with commas between them are read in the same way. -/
theorem scanArgList?_alike (ts us : List Token) (h : Alike ts us) (s : TypeScan (List TypeExpr) ts)
    (hs : scanArgList? ts = some s) :
    ∃ s', scanArgList? us = some s' ∧ erasedTypes s'.value = erasedTypes s.value ∧ Alike s.rest s'.rest := by
  rw [scanArgList?] at hs
  rw [scanArgList?]
  cases ha : scan? ts with
  | none => rw [ha] at hs; cases hs
  | some arg =>
    rw [ha] at hs
    obtain ⟨arg', ha', he, hr⟩ := scan?_alike ts us h arg ha
    rw [ha']
    dsimp only at hs ⊢
    split at hs
    · cases hs
    · rename_i t rest hrest
      rw [hrest] at hr
      have hlt : rest.length < ts.length := by
        have hs := arg.shorter
        rw [hrest, List.length_cons] at hs
        omega
      split
      · rename_i hrest'
        rw [hrest'] at hr
        cases hr
      · rename_i u rest' hrest'
        rw [hrest'] at hr
        obtain _ | ⟨hl, ht, hr⟩ := hr
        have hn : u.isSign .greater = t.isSign .greater := by rw [Token.isSign, Token.isSign, hl.1]
        rw [hl.isMark, hn]
        split at hs
        · rename_i hcomma
          rw [Option.map_eq_some_iff] at hs
          obtain ⟨more, hm, rfl⟩ := hs
          obtain ⟨more', hm', he', hr'⟩ := scanArgList?_alike rest rest' hr more hm
          rw [if_pos hcomma, hm']
          exact ⟨_, rfl, by simp only [erasedTypes, he, he'], hr'⟩
        · rename_i hcomma
          rw [if_neg hcomma]
          split at hs
          · rename_i hgreater
            cases hs
            rw [if_pos hgreater]
            exact ⟨_, rfl, by simp only [erasedTypes, he], hr⟩
          · cases hs
termination_by 2 * ts.length + 1

end

end TypeExpr

/-! ## Steps of the parser -/

/-- Two steps that read related values and leave tokens that are alike. -/
def SameStep {α β : Type} (R : α → β → Prop) {c c' : Cursor} (p : Parsed α c) (p' : Parsed β c') : Prop :=
  R p.value p'.value ∧ Alike p.next.ahead p'.next.ahead

/-- A step that reads something is followed by one that reads something related. -/
def Echoes {α : Type} (R : α → α → Prop) {c c' : Cursor} (x : Read α c) (x' : Read α c') : Prop :=
  ∀ p, x = .ok p → ∃ p', x' = .ok p' ∧ SameStep R p p'

namespace Echoes

variable {α β : Type} {R : α → α → Prop} {S : β → β → Prop} {c c' d d' : Cursor}

/-- A step that succeeds is echoed by one that reads something related. -/
theorem ok {p : Parsed α c} {p' : Parsed α c'} (h : SameStep R p p') : Echoes R (.ok p) (.ok p') := by
  intro q hq
  cases hq
  exact ⟨p', rfl, h⟩

/-- A step that fails is echoed by every step. -/
theorem error {e : ExprError} {x' : Read α c'} : Echoes R (.error e : Read α c) x' := by
  intro q hq
  cases hq

/-- Steps one after the other are echoed when each of them is. -/
theorem bind {x : Read α d} {x' : Read α d'} {f : Parsed α d → Read β c} {f' : Parsed α d' → Read β c'}
    (hx : Echoes R x x') (hf : ∀ p p', SameStep R p p' → Echoes S (f p) (f' p')) : Echoes S (x >>= f) (x' >>= f') := by
  intro q hq
  obtain ⟨p, hp, hq⟩ := of_bind_eq_ok hq
  obtain ⟨p', hp', hs⟩ := hx p hp
  obtain ⟨q', hq', hs'⟩ := hf p p' hs q hq
  exact ⟨q', by rw [hp']; exact hq', hs'⟩

end Echoes

namespace Cursor

variable {c c' : Cursor}

/-- The next token is like the next token of a cursor that is alike. -/
theorem next?_alike (h : Alike c.ahead c'.ahead) : Option.Rel (SameStep Token.Like) c.next? c'.next? := by
  obtain ⟨passed, ahead⟩ := c
  obtain ⟨passed', ahead'⟩ := c'
  cases h with
  | nil => exact .none
  | cons hl _ hs => exact .some ⟨hl, hs⟩

/-- A cursor accepts a kind of token when one that is alike does. -/
theorem accept?_alike (h : Alike c.ahead c'.ahead) (kind : TokenKind) :
    Option.Rel (SameStep Token.Like) (c.accept? kind) (c'.accept? kind) := by
  unfold accept?
  obtain ⟨hn, hn'⟩ | ⟨p, p', hn, hn', hp⟩ := rel_cases (next?_alike h)
  · rw [hn, hn']
    exact .none
  · rw [hn, hn']
    dsimp only
    rw [hp.1.1]
    split
    · exact .some hp
    · exact .none

/-- A cursor sees a kind of token when one that is alike does. -/
theorem sees_alike (h : Alike c.ahead c'.ahead) (kind : TokenKind) : c'.sees kind = c.sees kind := by
  obtain ⟨passed, ahead⟩ := c
  obtain ⟨passed', ahead'⟩ := c'
  cases h with
  | nil => rfl
  | cons hl => simp only [sees, hl.1]

/-- A lambda opens at a cursor when one opens at a cursor that is alike. -/
theorem opensLambda_alike (h : Alike c.ahead c'.ahead) : c'.opensLambda = c.opensLambda := by
  unfold opensLambda
  obtain ⟨hn, hn'⟩ | ⟨ts, us, hn, hn', hr⟩ := rel_cases (h.behindClose? 0)
  · rw [hn, hn']
  · rw [hn, hn']
    cases hr with
    | nil => rfl
    | cons hl => simp only [Token.isSign, hl.1]

/-- The same binary operators are read from tokens that are alike. -/
theorem binOp?_alike (h : Alike c.ahead c'.ahead) (least : Nat) :
    Option.Rel (SameStep Eq) (c.binOp? least) (c'.binOp? least) := by
  unfold binOp?
  obtain ⟨hn, hn'⟩ | ⟨p, p', hn, hn', hp⟩ := rel_cases (next?_alike h)
  · rw [hn, hn']
    exact .none
  · rw [hn, hn']
    simp only [Token.binOp?, hp.1.1]
    split
    · exact .none
    · split
      · exact .none
      · exact .some ⟨rfl, hp.2⟩

/-- The same unary operators are read from tokens that are alike. -/
theorem unOp?_alike (h : Alike c.ahead c'.ahead) : Option.Rel (SameStep Eq) c.unOp? c'.unOp? := by
  unfold unOp?
  obtain ⟨hn, hn'⟩ | ⟨p, p', hn, hn', hp⟩ := rel_cases (next?_alike h)
  · rw [hn, hn']
    exact .none
  · have ho : p.value.unOp? = p'.value.unOp? := by simp only [Token.unOp?, hp.1.1]
    rw [hn, hn']
    dsimp only
    rw [ho]
    cases p'.value.unOp? with
    | none => exact .none
    | some op => exact .some ⟨rfl, hp.2⟩

/-- The same marks of accesses are read from tokens that are alike. -/
theorem accessMark?_alike (h : Alike c.ahead c'.ahead) : Option.Rel (SameStep Eq) c.accessMark? c'.accessMark? := by
  unfold accessMark?
  obtain ⟨hn, hn'⟩ | ⟨p, p', hn, hn', hp⟩ := rel_cases (next?_alike h)
  · rw [hn, hn']
    exact .none
  · rw [hn, hn']
    simp only [hp.1.isMark]
    split
    · exact .some ⟨rfl, hp.2⟩
    split
    · exact .some ⟨rfl, hp.2⟩
    split
    · exact .some ⟨rfl, hp.2⟩
    · exact .none

/-- The same starts of accesses are read from tokens that are alike. -/
theorem accessStart?_alike (h : Alike c.ahead c'.ahead) (pending : Nat) :
    Option.Rel (SameStep Eq) (c.accessStart? pending) (c'.accessStart? pending) := by
  unfold accessStart?
  obtain ⟨hq, hq'⟩ | ⟨q, q', hq, hq', hs⟩ := rel_cases (accept?_alike h (.punct .question))
  · rw [hq, hq']
    obtain ⟨hm, hm'⟩ | ⟨m, m', hm, hm', hs⟩ := rel_cases (accessMark?_alike h)
    · simp only [hm, hm', Option.map_none]
      exact .none
    · simp only [hm, hm', Option.map_some]
      exact .some ⟨by rw [hs.1], hs.2⟩
  · rw [hq, hq']
    dsimp only
    obtain ⟨hm, hm'⟩ | ⟨m, m', hm, hm', hm''⟩ := rel_cases (accessMark?_alike hs.2)
    · rw [hm, hm']
      exact .none
    · rw [hm, hm']
      simp only [hm''.1, hs.2.questionGuards]
      split
      · exact .none
      · exact .some ⟨rfl, hm''.2⟩

/-- Member names with one text. -/
def SameName (a b : MemberName × Span) : Prop :=
  a.1 = b.1

/-- A name that is read is echoed from tokens that are alike. -/
theorem nameAt_alike (h : Alike c.ahead c'.ahead) (place : NamePlace) :
    Echoes Token.Like (c.nameAt place) (c'.nameAt place) := by
  intro p hp
  obtain ⟨p', hp', hs⟩ := exists_of_rel (accept?_alike h .name) (passes_nameAt hp)
  exact ⟨p', by rw [nameAt, hp'], hs⟩

/-- The name behind a dollar sign is read from any text in which it touches the sign as well. -/
theorem dollarName_alike (h : Alike c.ahead c'.ahead) {dollar dollar' : Token}
    (ht : dollar.Touches c.ahead ↔ dollar'.Touches c'.ahead) :
    Echoes SameName (c.dollarName dollar) (c'.dollarName dollar') := by
  obtain ⟨passed, ahead⟩ := c
  obtain ⟨passed', ahead'⟩ := c'
  intro p hp
  cases h with
  | nil => cases hp
  | @cons t u ts us hl _ hs =>
    have hn : (Cursor.mk passed (t :: ts)).next? = some ⟨t, ⟨t :: passed, ts⟩, by simp⟩ := rfl
    have hn' : (Cursor.mk passed' (u :: us)).next? = some ⟨u, ⟨u :: passed', us⟩, by simp⟩ := rfl
    unfold dollarName at hp
    rw [hn] at hp
    dsimp only at hp
    split at hp
    · cases hp
    · rename_i hk
      split at hp
      · cases hp
      · rename_i hd
        cases hp
        have hd' : u.span.start = dollar'.span.stop := ht.1 (Decidable.not_not.1 hd : t.span.start = dollar.span.stop)
        refine ⟨⟨(.keyed u.lexeme, dollar'.span.join u.span), ⟨u :: passed', us⟩, by simp⟩, ?_,
          congrArg MemberName.keyed hl.2, hs⟩
        unfold dollarName
        rw [hn']
        dsimp only
        rw [if_neg (by rw [← hl.1]; exact hk), if_neg (by simp [hd'])]

/-- Behind a dollar sign that is passed in both texts, the name touches it in both or in neither. -/
theorem touches_alike (h : Alike c.ahead c'.ahead) {d : Parsed Token c} {d' : Parsed Token c'}
    (hd : c.accept? (.punct .dollar) = some d) (hd' : c'.accept? (.punct .dollar) = some d') :
    d.value.Touches d.next.ahead ↔ d'.value.Touches d'.next.ahead := by
  obtain ⟨hn, hk⟩ := next?_of_accept? hd
  obtain ⟨hn', -⟩ := next?_of_accept? hd'
  obtain ⟨passed, ahead⟩ := c
  obtain ⟨passed', ahead'⟩ := c'
  cases h with
  | nil => cases hn
  | cons _ ht _ =>
    cases hn
    cases hn'
    exact ht hk

/-- A name that is passed is passed in tokens that are alike: what a dollar sign touches it touches in both. -/
theorem PassesName.alike {place : NamePlace} {p : Parsed (MemberName × Span) c} (hp : c.PassesName place p)
    (h : Alike c.ahead c'.ahead) : ∃ p', c'.PassesName place p' ∧ SameStep SameName p p' := by
  obtain ⟨hd, hd'⟩ | ⟨d, d', hd, hd', hs⟩ := rel_cases (accept?_alike h (.punct .dollar))
  · cases hp with
    | keyed hd₂ _ => cases hd.symm.trans hd₂
    | plain _ hq =>
      obtain ⟨q', hq', hs⟩ := nameAt_alike h _ _ hq
      exact ⟨_, .plain hd' hq', congrArg MemberName.plain hs.1.2, hs.2⟩
  · cases hp with
    | keyed hd₂ hq =>
      cases hd.symm.trans hd₂
      obtain ⟨q', hq', hs⟩ := dollarName_alike hs.2 (touches_alike h hd hd') _ hq
      exact ⟨_, .keyed hd' hq', hs⟩
    | plain hd₂ _ => cases hd.symm.trans hd₂

/-- A closing mark that is read is echoed from tokens that are alike. -/
theorem close_alike (h : Alike c.ahead c'.ahead) (place : ClosePlace) :
    Echoes Token.Like (c.close place) (c'.close place) := by
  unfold close
  obtain ⟨hc, hc'⟩ | ⟨p, p', hc, hc', hs⟩ := rel_cases (accept?_alike h (.punct place.mark))
  · rw [hc, hc']
    exact .error
  · rw [hc, hc']
    exact .ok hs

/-- The arrow of a lambda that is read is echoed from tokens that are alike. -/
theorem lambdaArrow_alike (h : Alike c.ahead c'.ahead) : Echoes Token.Like c.lambdaArrow c'.lambdaArrow := by
  unfold lambdaArrow
  obtain ⟨ha, ha'⟩ | ⟨a, a', ha, ha', hs⟩ := rel_cases (accept?_alike h (.sign .arrow))
  · rw [ha, ha']
    exact .error
  · rw [ha, ha']
    dsimp only
    rw [sees_alike hs.2]
    split
    · exact .error
    · exact .ok hs

/-- Types that are equal up to places. -/
def SameType (t u : TypeExpr) : Prop :=
  t.erased = u.erased

/-- The same types are read from tokens that are alike, up to places. -/
theorem type?_alike (h : Alike c.ahead c'.ahead) : Option.Rel (SameStep SameType) c.type? c'.type? := by
  unfold type?
  cases hs : TypeExpr.scan? c.ahead with
  | none =>
    cases hs' : TypeExpr.scan? c'.ahead with
    | none => exact .none
    | some s' =>
      obtain ⟨s, hs₁, -⟩ := TypeExpr.scan?_alike _ _ h.symm s' hs'
      rw [hs] at hs₁
      cases hs₁
  | some s =>
    obtain ⟨s', hs', he, hr⟩ := TypeExpr.scan?_alike _ _ h s hs
    rw [hs']
    exact .some ⟨he.symm, hr⟩

/-- Parameters that are equal up to places. -/
def SameParam (p q : LambdaParam) : Prop :=
  p.erased = q.erased

/-- A parameter of a lambda that is read is echoed from tokens that are alike. -/
theorem lambdaParam_alike (h : Alike c.ahead c'.ahead) : Echoes SameParam c.lambdaParam c'.lambdaParam := by
  -- A name stands alone where no type has a name behind it.
  have plain : ∀ p p', SameStep Token.Like p p' → Echoes SameParam
      (.ok ⟨⟨none, p.value.lexeme, p.value.span⟩, p.next, p.shorter⟩ : Read LambdaParam c)
      (.ok ⟨⟨none, p'.value.lexeme, p'.value.span⟩, p'.next, p'.shorter⟩ : Read LambdaParam c') :=
    fun p p' hp => .ok ⟨by simp [SameParam, LambdaParam.erased, hp.1.2], hp.2⟩
  unfold lambdaParam
  dsimp only
  obtain ⟨ht, ht'⟩ | ⟨t, t', ht, ht', hs⟩ := rel_cases (type?_alike h)
  · rw [ht, ht']
    exact (nameAt_alike h _).bind plain
  · rw [ht, ht']
    dsimp only
    obtain ⟨hn, hn'⟩ | ⟨n, n', hn, hn', hs'⟩ := rel_cases (accept?_alike hs.2 .name)
    · rw [hn, hn']
      exact (nameAt_alike h _).bind plain
    · rw [hn, hn']
      have he : t.value.erased = t'.value.erased := hs.1
      exact .ok ⟨by simp [SameParam, LambdaParam.erased, hs'.1.2, he], hs'.2⟩

/-- Parameters in a row that are equal up to places. -/
def SameParams (ps qs : List LambdaParam) : Prop :=
  ps.map LambdaParam.erased = qs.map LambdaParam.erased

/-- Parameters of a lambda in a row that are read are echoed from tokens that are alike. -/
theorem lambdaParamList_alike (c c' : Cursor) (h : Alike c.ahead c'.ahead) :
    Echoes SameParams c.lambdaParamList c'.lambdaParamList := by
  rw [lambdaParamList, lambdaParamList]
  refine (lambdaParam_alike h).bind fun p p' hp => ?_
  have he : p.value.erased = p'.value.erased := hp.1
  obtain ⟨hk, hk'⟩ | ⟨comma, comma', hk, hk', hs⟩ := rel_cases (accept?_alike hp.2 (.punct .comma))
  · simp only [hk, hk']
    exact .ok ⟨by simp [SameParams, he], hp.2⟩
  · simp only [hk, hk']
    have := Nat.lt_trans comma.shorter p.shorter
    refine (lambdaParamList_alike comma.next comma'.next hs.2).bind fun ps ps' hps => .ok ⟨?_, hps.2⟩
    have hes : ps.value.map LambdaParam.erased = ps'.value.map LambdaParam.erased := hps.1
    simp [SameParams, he, hes]
termination_by c.ahead.length

/-- Parameters of a lambda that are read are echoed from tokens that are alike. -/
theorem lambdaParams_alike (h : Alike c.ahead c'.ahead) : Echoes SameParams c.lambdaParams c'.lambdaParams := by
  unfold lambdaParams
  obtain ⟨hc, hc'⟩ | ⟨close, close', hc, hc', hs⟩ := rel_cases (accept?_alike h (.punct .closeParen))
  · rw [hc, hc']
    exact (lambdaParamList_alike c c' h).bind fun ps ps' hps =>
      (close_alike hps.2 _).bind fun p p' hp => .ok ⟨hps.1, hp.2⟩
  · rw [hc, hc']
    exact .ok ⟨rfl, hs.2⟩

end Cursor

/-! ## Derivations -/

/-- Whether some phrase with a given property is read from `c` up to a place where the same tokens are ahead as at `d`, up to
layout. -/
def Reread {α : Type} (phrase : α → Phrase) (same : α → Prop) (c d : Cursor) : Prop :=
  ∃ x d', Reads (phrase x) c d' ∧ same x ∧ Alike d.ahead d'.ahead

/-- Whether what a phrase stands for is read from `c` as well, up to places. -/
def Phrase.IsReread : Phrase → Cursor → Cursor → Prop
  | .assign pending e => Reread (.assign pending) (·.erased = e.erased)
  | .conditional pending e => Reread (.conditional pending) (·.erased = e.erased)
  | .binary pending least e => Reread (.binary pending least) (·.erased = e.erased)
  | .operators pending least _ left whole => fun c d => ∀ start left', left'.erased = left.erased →
    Reread (.operators pending least start left') (·.erased = whole.erased) c d
  | .unary pending e => Reread (.unary pending) (·.erased = e.erased)
  | .accesses pending _ base whole => fun c d => ∀ start base', base'.erased = base.erased →
    Reread (.accesses pending start base') (·.erased = whole.erased) c d
  | .link start guarded l => Reread (.link start guarded) (·.erased = l.erased)
  | .list es => Reread .list (erasedList · = erasedList es)
  | .bracketed place es => Reread (.bracketed place) (erasedList · = erasedList es)
  | .args es => Reread .args (erasedList · = erasedList es)
  | .primary pending e => Reread (.primary pending) (·.erased = e.erased)
  | .lambda pending _ params e => fun c d => ∀ start params', Cursor.SameParams params' params →
    Reread (.lambda pending start params') (·.erased = e.erased) c d
  | .creation _ e => fun c d => ∀ start, Reread (.creation start) (·.erased = e.erased) c d
  | .entries es => Reread .entries (erasedEntries · = erasedEntries es)
  | .entry en => Reread .entry (fun en' => erasedEntries [en'] = erasedEntries [en])
  | .entryValue e => Reread .entryValue (·.erased = e.erased)

/-! ## Steps of a derivation -/

section

variable {α β : Type} {phrase : α → Phrase} {same : α → Prop} {c c' d : Cursor}

/-- A phrase that is read again is made into another phrase that is. -/
theorem Reread.map {phrase' : β → Phrase} {same' : β → Prop} (h : Reread phrase same c d)
    (hf : ∀ x d', Reads (phrase x) c d' → same x → Alike d.ahead d'.ahead → ∃ y, Reads (phrase' y) c' d' ∧ same' y) :
    Reread phrase' same' c' d :=
  let ⟨x, d', hx, hs, ha⟩ := h
  let ⟨y, hy, hs'⟩ := hf x d' hx hs ha
  ⟨y, d', hy, hs', ha⟩

/-- A step is taken in both texts, and what holds behind it in one holds behind it in the other. -/
theorem exists_behind {R : α → β → Prop} {o : Option (Parsed α c)} {o' : Option (Parsed β c')} {p : Parsed α c}
    {Q : Cursor → Prop} (h : Option.Rel (SameStep R) o o') (ho : o = some p)
    (hq : ∀ c₁ : Cursor, Alike p.next.ahead c₁.ahead → Q c₁) : ∃ p', o' = some p' ∧ R p.value p'.value ∧ Q p'.next := by
  obtain ⟨p', hp', hr, ha⟩ := exists_of_rel h ho
  exact ⟨p', hp', hr, hq p'.next ha⟩

/-- What is read up to a token that is accepted is read again up to the token in the other text. -/
theorem Reread.upTo {kind : TokenKind} {p : Parsed Token d} {d' : Cursor} (hp : d.accept? kind = some p)
    (hd : Alike d.ahead d'.ahead) (hf : ∀ p' : Parsed Token d', d'.accept? kind = some p' → p.value.Like p'.value →
      Alike p.next.ahead p'.next.ahead → ∃ x, Reads (phrase x) c p'.next ∧ same x) : Reread phrase same c p.next := by
  obtain ⟨p', hp', hl, ha⟩ := exists_of_rel (Cursor.accept?_alike hd kind) hp
  obtain ⟨x, hx, hs⟩ := hf p' hp' hl ha
  exact ⟨x, p'.next, hx, hs, ha⟩

/-- A token that is not accepted in one text is not accepted in the other. -/
theorem Cursor.accept?_none_alike {kind : TokenKind} (h : Alike c.ahead c'.ahead) (hn : c.accept? kind = none) :
    c'.accept? kind = none :=
  none_of_rel (accept?_alike h kind) hn

/-- Entries in a row are the same up to places when the first ones and the others are. -/
theorem erasedEntries_cons {entry entry' : Entry} {more more' : List Entry}
    (h : erasedEntries [entry'] = erasedEntries [entry]) (hm : erasedEntries more' = erasedEntries more) :
    erasedEntries (entry' :: more') = erasedEntries (entry :: more) := by
  cases entry' <;> cases entry <;> simp_all [erasedEntries]

end

/-- Whether what a phrase stands for is read from all tokens that are alike, up to places. -/
def Phrase.Rereads (phrase : Phrase) (c d : Cursor) : Prop :=
  ∀ c' : Cursor, Alike c.ahead c'.ahead → phrase.IsReread c' d

namespace Phrase.Rereads

open Cursor

variable {pending : Nat} {c c₁ c₂ d : Cursor}

/-- A conditional: its marks are there in both texts. -/
theorem conditional {condition thenBranch elseBranch : Expr} {question : Parsed Token c₁} {colon : Parsed Token c₂}
    (h₁ : (Phrase.binary pending 0 condition).Rereads c c₁) (hq : c₁.accept? (.punct .question) = some question)
    (h₂ : (Phrase.assign (pending + 1) thenBranch).Rereads question.next c₂) (hk : c₂.accept? (.punct .colon) = some colon)
    (h₃ : (Phrase.assign pending elseBranch).Rereads colon.next d) :
    (Phrase.conditional pending (.conditional condition thenBranch elseBranch (c.spanTo d))).Rereads c d := by
  intro c' hc
  obtain ⟨condition', c₁', r₁, he₁, ha₁⟩ := h₁ c' hc
  obtain ⟨question', hq', -, thenBranch', c₂', r₂, he₂, ha₂⟩ := exists_behind (accept?_alike ha₁ _) hq h₂
  obtain ⟨colon', hk', -, last⟩ := exists_behind (accept?_alike ha₂ _) hk h₃
  exact last.map fun _ d' r₃ he₃ _ => ⟨_, r₁.conditional hq' r₂ hk' r₃, by simp [Expr.erased, he₁, he₂, he₃]⟩

/-- One more operation, and the operators behind it. -/
theorem operators {least : Nat} {left right whole : Expr} {start : Cursor} {op : Parsed BinOp c}
    (ho : c.binOp? least = some op) (h₁ : (Phrase.binary pending op.value.rightLeast right).Rereads op.next c₁)
    (h₂ : (Phrase.operators pending least start (.binary op.value left right (start.spanTo c₁)) whole).Rereads c₁ d) :
    (Phrase.operators pending least start left whole).Rereads c d := by
  intro c' hc start' left' hl
  obtain ⟨op', ho', hv, right', c₁', r₁, he₁, ha₁⟩ := exists_behind (binOp?_alike hc _) ho h₁
  rw [hv] at r₁
  have again := h₂ c₁' ha₁ start' (.binary op'.value left' right' (start'.spanTo c₁')) (by simp [Expr.erased, hv, hl, he₁])
  exact again.map fun whole' d' r₂ he₂ _ => ⟨whole', .operators ho' r₁ r₂, he₂⟩

/-- One more access, and the accesses behind it. -/
theorem accesses {base whole : Expr} {link : Link} {start : Cursor} {mark : Parsed (AccessStart × Bool) c}
    (hm : c.accessStart? pending = some mark) (h₁ : (Phrase.link mark.value.1 mark.value.2 link).Rereads mark.next c₁)
    (h₂ : (Phrase.accesses pending start (.access base link mark.value.2 (start.spanTo c₁)) whole).Rereads c₁ d) :
    (Phrase.accesses pending start base whole).Rereads c d := by
  intro c' hc start' base' hb
  obtain ⟨mark', hm', hv, link', c₁', r₁, he₁, ha₁⟩ := exists_behind (accessStart?_alike hc _) hm h₁
  rw [hv] at r₁
  have again := h₂ c₁' ha₁ start' (.access base' link' mark'.value.2 (start'.spanTo c₁')) (by simp [Expr.erased, hv, hb, he₁])
  exact again.map fun whole' d' r₂ he₂ _ => ⟨whole', .accesses hm' r₁ r₂, he₂⟩

/-- An expression in parentheses. -/
theorem paren {inner : Expr} {token : Parsed Token c} {close : Parsed Token d}
    (ht : c.accept? (.punct .openParen) = some token) (ho : c.opensLambda = false)
    (h : (Phrase.assign 0 inner).Rereads token.next d) (hk : d.accept? (.punct .closeParen) = some close) :
    (Phrase.primary pending (.paren inner (c.spanTo close.next))).Rereads c close.next := by
  intro c' hc
  obtain ⟨token', ht', -, inner', d', r, he, ha⟩ := exists_behind (accept?_alike hc _) ht h
  exact .upTo hk ha fun close' hk' _ _ =>
    ⟨_, .paren ht' (by rw [opensLambda_alike hc, ho]) r hk', by simp [Expr.erased, he]⟩

/-- The arrow of a lambda and its body. -/
theorem lambda {params : List LambdaParam} {body : Expr} {start : Cursor} {arrow : Parsed Token c}
    (hr : c.lambdaArrow = .ok arrow) (h : (Phrase.assign pending body).Rereads arrow.next d) :
    (Phrase.lambda pending start params (.lambda params body (start.spanTo d))).Rereads c d := by
  intro c' hc start' params' hp
  obtain ⟨arrow', hr', -, ha⟩ := lambdaArrow_alike hc _ hr
  have hp : params'.map LambdaParam.erased = _ := hp
  exact (h arrow'.next ha).map fun body' d' r he _ => ⟨_, .lambda hr' r, by simp only [Expr.erased, hp, he]⟩

/-- A lambda with one parameter and no parentheses. -/
theorem shortLambda {e : Expr} {token : Parsed Token c} (ht : c.accept? .name = some token)
    (hs : token.next.sees (.sign .arrow) = true)
    (h : (Phrase.lambda pending c [⟨none, token.value.lexeme, token.value.span⟩] e).Rereads token.next d) :
    (Phrase.primary pending e).Rereads c d := by
  intro c' hc
  obtain ⟨token', ht', hv, ha⟩ := exists_of_rel (accept?_alike hc _) ht
  have body := h token'.next ha c' [⟨none, token'.value.lexeme, token'.value.span⟩]
    (by simp [SameParams, LambdaParam.erased, hv.2])
  exact body.map fun e' d' r he _ => ⟨e', .shortLambda ht' (by rw [sees_alike ha, hs]) r, he⟩

/-- A lambda with its parameters in parentheses. -/
theorem longLambda {e : Expr} {token : Parsed Token c} {params : Parsed (List LambdaParam) token.next}
    (ht : c.accept? (.punct .openParen) = some token) (ho : c.opensLambda = true) (hp : token.next.lambdaParams = .ok params)
    (h : (Phrase.lambda pending c params.value e).Rereads params.next d) : (Phrase.primary pending e).Rereads c d := by
  intro c' hc
  obtain ⟨token', ht', -, ha⟩ := exists_of_rel (accept?_alike hc _) ht
  obtain ⟨params', hp', hs, ha'⟩ := lambdaParams_alike ha _ hp
  exact (h params'.next ha' c' params'.value hs.symm).map fun e' d' r he _ =>
    ⟨e', .longLambda ht' (by rw [opensLambda_alike hc, ho]) hp' r, he⟩

section

variable {start : Cursor} {type : Parsed TypeExpr c} {args : List Expr} {entries : List Entry}

/-- The type of a creation is read again, up to places. -/
theorem createType {c' : Cursor} (hc : Alike c.ahead c'.ahead) (ht : c.type? = some type) :
    ∃ type' : Parsed TypeExpr c', c'.type? = some type' ∧ type.value.erased = type'.value.erased ∧
      Alike type.next.ahead type'.next.ahead :=
  exists_of_rel (type?_alike hc) ht

/-- A creation with arguments. -/
theorem createArgs {opening : Parsed Token type.next} (ht : c.type? = some type)
    (ho : type.next.accept? (.punct .openParen) = some opening) (h : (Phrase.args args).Rereads opening.next d)
    (hb : d.accept? (.punct .openBrace) = none) :
    (Phrase.creation start (.create type.value args [] (start.spanTo d))).Rereads c d := by
  intro c' hc start'
  obtain ⟨type', ht', hv, ha⟩ := createType hc ht
  obtain ⟨opening', ho', -, args'⟩ := exists_behind (accept?_alike ha _) ho h
  exact args'.map fun _ d' r he ha' => ⟨_, .createArgs ht' ho' r (accept?_none_alike ha' hb), by simp [Expr.erased, hv, he]⟩

/-- A creation with arguments and entries. -/
theorem createBoth {opening : Parsed Token type.next} {brace : Parsed Token c₁} (ht : c.type? = some type)
    (ho : type.next.accept? (.punct .openParen) = some opening) (h₁ : (Phrase.args args).Rereads opening.next c₁)
    (hb : c₁.accept? (.punct .openBrace) = some brace) (h₂ : (Phrase.entries entries).Rereads brace.next d) :
    (Phrase.creation start (.create type.value args entries (start.spanTo d))).Rereads c d := by
  intro c' hc start'
  obtain ⟨type', ht', hv, ha⟩ := createType hc ht
  obtain ⟨opening', ho', -, args', c₁', r₁, he₁, ha₁⟩ := exists_behind (accept?_alike ha _) ho h₁
  obtain ⟨brace', hb', -, entries'⟩ := exists_behind (accept?_alike ha₁ _) hb h₂
  exact entries'.map fun _ d' r₂ he₂ _ => ⟨_, .createBoth ht' ho' r₁ hb' r₂, by simp [Expr.erased, hv, he₁, he₂]⟩

/-- A creation with entries alone. -/
theorem createEntries {brace : Parsed Token type.next} (ht : c.type? = some type)
    (ho : type.next.accept? (.punct .openParen) = none) (hb : type.next.accept? (.punct .openBrace) = some brace)
    (h : (Phrase.entries entries).Rereads brace.next d) :
    (Phrase.creation start (.create type.value [] entries (start.spanTo d))).Rereads c d := by
  intro c' hc start'
  obtain ⟨type', ht', hv, ha⟩ := createType hc ht
  obtain ⟨brace', hb', -, entries'⟩ := exists_behind (accept?_alike ha _) hb h
  exact entries'.map fun _ d' r he _ =>
    ⟨_, .createEntries ht' (accept?_none_alike ha ho) hb' r, by simp [Expr.erased, hv, he]⟩

end

section

variable {entry : Entry} {more : List Entry}

/-- The last entry, and the brace behind it. -/
theorem entriesLast {close : Parsed Token d} (hb : c.accept? (.punct .closeBrace) = none)
    (h : (Phrase.entry entry).Rereads c d) (hd : d.accept? (.punct .comma) = none)
    (hk : d.accept? (.punct .closeBrace) = some close) : (Phrase.entries [entry]).Rereads c close.next := by
  intro c' hc
  obtain ⟨entry', d', r, he, ha⟩ := h c' hc
  exact .upTo hk ha fun close' hk' _ _ =>
    ⟨[entry'], .entriesLast (accept?_none_alike hc hb) r (accept?_none_alike ha hd) hk', he⟩

/-- An entry, and more of them behind a comma. -/
theorem entries {comma : Parsed Token c₁} (hb : c.accept? (.punct .closeBrace) = none)
    (h₁ : (Phrase.entry entry).Rereads c c₁) (hk : c₁.accept? (.punct .comma) = some comma)
    (h₂ : (Phrase.entries more).Rereads comma.next d) : (Phrase.entries (entry :: more)).Rereads c d := by
  intro c' hc
  obtain ⟨entry', c₁', r₁, he₁, ha₁⟩ := h₁ c' hc
  obtain ⟨comma', hk', -, more'⟩ := exists_behind (accept?_alike ha₁ _) hk h₂
  exact more'.map fun entries' d' r₂ he₂ _ =>
    ⟨entry' :: entries', .entries (accept?_none_alike hc hb) r₁ hk' r₂, erasedEntries_cons he₁ he₂⟩

/-- An entry of an indexer: the indices, and then the value. -/
theorem entryElement {indices : List Expr} {value : Expr} {bracket : Parsed Token c} {span : Span}
    (hb : c.accept? (.punct .openBracket) = some bracket) (hs : bracket.next.sees (.punct .closeBracket) = false)
    (h₁ : (Phrase.bracketed .indices indices).Rereads bracket.next c₁) (h₂ : (Phrase.entryValue value).Rereads c₁ d) :
    (Phrase.entry (.element indices span value)).Rereads c d := by
  intro c' hc
  obtain ⟨bracket', hb', -, hn⟩ := exists_of_rel (accept?_alike hc _) hb
  obtain ⟨indices', c₁', r₁, he₁, ha₁⟩ := h₁ bracket'.next hn
  exact (h₂ c₁' ha₁).map fun value' d' r₂ he₂ _ =>
    ⟨_, .entryElement hb' (by rw [sees_alike hn, hs]) r₁ r₂, by simp [erasedEntries, he₁, he₂]⟩

/-- An entry of a member: its name, and then the value. -/
theorem entryMember {value : Expr} {name : Parsed (MemberName × Span) c} (hb : c.accept? (.punct .openBracket) = none)
    (hn : c.entryName = .ok name) (h : (Phrase.entryValue value).Rereads name.next d) :
    (Phrase.entry (.member name.value.1 name.value.2 value)).Rereads c d := by
  intro c' hc
  obtain ⟨name', hn', hv, ha⟩ := (entryName_eq_ok_iff.1 hn).alike hc
  have hv : _ = name'.value.1 := hv
  exact (h name'.next ha).map fun value' d' r he _ =>
    ⟨_, .entryMember (accept?_none_alike hc hb) (entryName_eq_ok_iff.2 hn') r, by simp [erasedEntries, hv, he]⟩

end

end Phrase.Rereads

open Cursor in
/-- What is read from some tokens is read from all tokens that are alike, up to places. -/
theorem Reads.alike {phrase : Phrase} {c d : Cursor} (h : Reads phrase c d) : phrase.Rereads c d := by
  induction h with
  | assignEnd _ hd ih =>
    exact fun c' hc => (ih c' hc).map fun e' d' h he ha => ⟨e', h.assignEnd (accept?_none_alike ha hd), he⟩
  | assign _ hd _ ih₁ ih₂ =>
    intro c' hc
    obtain ⟨left, c₁, h₁, he₁, ha₁⟩ := ih₁ c' hc
    obtain ⟨sign, hs, -, right⟩ := exists_behind (accept?_alike ha₁ _) hd ih₂
    exact right.map fun value d' h₂ he₂ _ => ⟨_, h₁.assign hs h₂, by simp [Expr.erased, he₁, he₂]⟩
  | conditionalEnd _ hd ih =>
    exact fun c' hc => (ih c' hc).map fun e' d' h he ha => ⟨e', h.conditionalEnd (accept?_none_alike ha hd), he⟩
  | conditional _ hq _ hk _ ih₁ ih₂ ih₃ => exact .conditional ih₁ hq ih₂ hk ih₃
  | binary _ _ ih₁ ih₂ =>
    intro c' hc
    obtain ⟨left, c₁, h₁, he₁, ha₁⟩ := ih₁ c' hc
    exact (ih₂ c₁ ha₁ c' left he₁).map fun whole d' h₂ he₂ _ => ⟨whole, h₁.binary h₂, he₂⟩
  | operatorsEnd ho =>
    exact fun c' hc start left' hl => ⟨left', c', .operatorsEnd (none_of_rel (binOp?_alike hc _) ho), hl, hc⟩
  | operators ho _ _ ih₁ ih₂ => exact .operators ho ih₁ ih₂
  | unary ho _ ih =>
    intro c' hc
    obtain ⟨op, ho', hv, operand⟩ := exists_behind (unOp?_alike hc) ho ih
    exact operand.map fun _ d' h he _ => ⟨_, .unary ho' h, by simp [Expr.erased, hv, he]⟩
  | postfixed ho _ _ ih₁ ih₂ =>
    intro c' hc
    obtain ⟨base, c₁, h₁, he₁, ha₁⟩ := ih₁ c' hc
    exact (ih₂ c₁ ha₁ c' base he₁).map fun whole d' h₂ he₂ _ =>
      ⟨whole, .postfixed (none_of_rel (unOp?_alike hc) ho) h₁ h₂, he₂⟩
  | accessesEnd ha =>
    exact fun c' hc start base' hb => ⟨base', c', .accessesEnd (none_of_rel (accessStart?_alike hc _) ha), hb, hc⟩
  | accesses hm _ _ ih₁ ih₂ => exact .accesses hm ih₁ ih₂
  | member hn =>
    intro c' hc
    obtain ⟨name, hn', hv, ha⟩ := (memberName_eq_ok_iff.1 hn).alike hc
    have hv : _ = name.value.1 := hv
    exact ⟨_, name.next, .member (memberName_eq_ok_iff.2 hn'), by simp [Link.erased, hv], ha⟩
  | element hs _ ih =>
    exact fun c' hc => (ih c' hc).map fun _ d' h he _ =>
      ⟨_, .element (by rw [sees_alike hc, hs]) h, by simp [Link.erased, he]⟩
  | invoke _ ih => exact fun c' hc => (ih c' hc).map fun _ d' h he _ => ⟨_, .invoke h, by simp [Link.erased, he]⟩
  | listEnd _ hd ih =>
    exact fun c' hc => (ih c' hc).map fun e' d' h he ha =>
      ⟨[e'], h.listEnd (accept?_none_alike ha hd), by simp [erasedList, he]⟩
  | list _ hk _ ih₁ ih₂ =>
    intro c' hc
    obtain ⟨e', c₁, h₁, he₁, ha₁⟩ := ih₁ c' hc
    obtain ⟨comma, hk', -, more⟩ := exists_behind (accept?_alike ha₁ _) hk ih₂
    exact more.map fun es' d' h₂ he₂ _ => ⟨e' :: es', h₁.list hk' h₂, by simp [erasedList, he₁, he₂]⟩
  | bracketed _ hk ih =>
    intro c' hc
    obtain ⟨es', d', h, he, ha⟩ := ih c' hc
    exact .upTo hk ha fun close hk' _ _ => ⟨es', h.bracketed hk', he⟩
  | argsEnd hk => exact fun c' hc => .upTo hk hc fun close hk' _ _ => ⟨[], .argsEnd hk', rfl⟩
  | args hk _ ih =>
    exact fun c' hc => (ih c' hc).map fun es' d' h he _ => ⟨es', .args (accept?_none_alike hc hk) h, he⟩
  | name ht hs =>
    exact fun c' hc => .upTo ht hc fun token ht' hl ha =>
      ⟨_, .name ht' (by rw [sees_alike ha, hs]), by simp [Expr.erased, hl.2]⟩
  | shortLambda ht hs _ ih => exact .shortLambda ht hs ih
  | literal ht hv =>
    intro c' hc
    obtain ⟨token, ht', hl, ha⟩ := exists_of_rel (next?_alike hc) ht
    exact ⟨_, token.next, .literal ht' (by rw [← hl.1, hv]), by simp [Expr.erased], ha⟩
  | self ht => exact fun c' hc => .upTo ht hc fun token ht' _ _ => ⟨_, .self ht', by simp [Expr.erased]⟩
  | create ht _ ih =>
    intro c' hc
    obtain ⟨token, ht', -, creation⟩ := exists_behind (accept?_alike hc _) ht ih
    exact (creation c').map fun e' d' h he _ => ⟨e', .create ht' h, he⟩
  | longLambda ht ho hp _ ih => exact .longLambda ht ho hp ih
  | paren ht ho _ hk ih => exact .paren ht ho ih hk
  | lambda hr _ ih => exact .lambda hr ih
  | createArgs ht ho _ hb ih => exact .createArgs ht ho ih hb
  | createBoth ht ho _ hb _ ih₁ ih₂ => exact .createBoth ht ho ih₁ hb ih₂
  | createEntries ht ho hb _ ih => exact .createEntries ht ho hb ih
  | entriesEnd hk => exact fun c' hc => .upTo hk hc fun close hk' _ _ => ⟨[], .entriesEnd hk', rfl⟩
  | entriesLast hb _ hd hk ih => exact .entriesLast hb ih hd hk
  | entries hb _ hk _ ih₁ ih₂ => exact .entries hb ih₁ hk ih₂
  | entryElement hb hs _ _ ih₁ ih₂ => exact .entryElement hb hs ih₁ ih₂
  | entryMember hb hm _ ih => exact .entryMember hb hm ih
  | entryValue hs _ ih =>
    intro c' hc
    obtain ⟨sign, hs', -, value⟩ := exists_behind (accept?_alike hc _) hs ih
    exact value.map fun e' d' h he _ => ⟨e', .entryValue hs' h, he⟩

end NavCheck
