import NavCheck.Proofs.Grammar.Soundness
import NavCheck.Proofs.Layout.Expressions
import NavCheck.Proofs.Steps

/-!
# The parser in front of a `:`

No step of the expression parser goes on with a `:`. So what a step does in front of tokens it does when a `:` and anything else
stands behind these tokens, and where it fails it fails there as well. All that may change is what the search behind a `?` finds.
-/

namespace NavCheck

/-! ## Types -/

namespace TypeExpr

variable {k : Token} {us : List Token}

theorem guardsAccess_append (hk : k.kind = .punct .colon) (ts : List Token) :
    guardsAccess (ts ++ k :: us) = guardsAccess ts := by
  cases ts with
  | nil => simp [guardsAccess, Token.isMark, hk]
  | cons => rfl

theorem scanSuffixes_append (hk : k.kind = .punct .colon) (last : Span) (ts : List Token) :
    scanSuffixes last (ts ++ k :: us) =
      ((scanSuffixes last ts).1, (scanSuffixes last ts).2.1, (scanSuffixes last ts).2.2 ++ k :: us) := by
  fun_induction scanSuffixes last ts <;> rw [scanSuffixes.eq_def] <;>
    simp_all [guardsAccess_append hk, Token.isMark]

/-- Related options stay related when related values become related ones. -/
theorem rel_map {α β γ δ : Type} {R : α → β → Prop} {S : γ → δ → Prop} {f : α → γ} {g : β → δ} {o : Option α} {o' : Option β}
    (h : Option.Rel R o o') (hf : ∀ a b, R a b → S (f a) (g b)) : Option.Rel S (o.map f) (o'.map g) := by
  cases h with
  | none => exact .none
  | some hr => exact .some (hf _ _ hr)

/-- What a scan finds in front of more tokens beside a scan of the tokens alone. -/
structure ScanAppended {α : Type} (more : List Token) {ts us : List Token} (s : TypeScan α ts) (s' : TypeScan α us) :
    Prop where
  value : s'.value = s.value
  last : s'.last = s.last
  rest : s'.rest = s.rest ++ more

mutual

/-- A type is read in front of a `:` where it is read without it. -/
theorem scan?_append (hk : k.kind = .punct .colon) (ts : List Token) :
    Option.Rel (ScanAppended (k :: us)) (scan? ts) (scan? (ts ++ k :: us)) := by
  cases ts with
  | nil =>
    rw [List.nil_append, scan?, scan?, if_neg (by simp [Token.is, hk])]
    exact .none
  | cons t ts =>
    have ha := scanArgs?_append hk t.span ts
    rw [List.cons_append, scan?, scan?]
    dsimp only
    split
    · cases h : scanArgs? t.span ts with
      | none =>
        rw [h] at ha
        rw [none_of_rel ha rfl]
        exact .none
      | some s =>
        obtain ⟨args, last, rest⟩ := s
        obtain ⟨⟨_, _, _, _⟩, hs', hargs, hlast, hrest⟩ := exists_of_rel ha h
        have hsuf := @scanSuffixes_append k us hk last rest.1
        dsimp only at hargs hlast hrest
        subst hargs hlast hrest
        rw [hs']
        exact .some ⟨by simp only [hsuf], congrArg (·.2.1) hsuf, congrArg (·.2.2) hsuf⟩
    · exact .none
termination_by 2 * ts.length

/-- The arguments of a type are read in front of a `:` where they are read without it. -/
theorem scanArgs?_append (hk : k.kind = .punct .colon) (last : Span) (ts : List Token) :
    Option.Rel (fun s s' => s'.1 = s.1 ∧ s'.2.1 = s.2.1 ∧ s'.2.2.1 = s.2.2.1 ++ k :: us) (scanArgs? last ts)
      (scanArgs? last (ts ++ k :: us)) := by
  cases ts with
  | nil =>
    rw [List.nil_append, scanArgs?, scanArgs?, if_neg (by simp [Token.isSign, hk])]
    exact .some ⟨rfl, rfl, rfl⟩
  | cons t ts =>
    rw [List.cons_append, scanArgs?, scanArgs?]
    split
    · exact rel_map (scanArgList?_append hk ts) fun _ _ h => ⟨h.value, h.last, h.rest⟩
    · exact .some ⟨rfl, rfl, rfl⟩
termination_by 2 * ts.length + 1

/-- Types with commas between them are read in front of a `:` where they are read without it. -/
theorem scanArgList?_append (hk : k.kind = .punct .colon) (ts : List Token) :
    Option.Rel (ScanAppended (k :: us)) (scanArgList? ts) (scanArgList? (ts ++ k :: us)) := by
  have ha := scan?_append hk ts
  rw [scanArgList?, scanArgList?]
  cases h : scan? ts with
  | none =>
    rw [h] at ha
    rw [none_of_rel ha rfl]
    exact .none
  | some arg =>
    obtain ⟨value, last, rest, hlt⟩ := arg
    obtain ⟨⟨_, _, _, _⟩, hs', hvalue, hlast, hrest⟩ := exists_of_rel ha h
    dsimp only at hvalue hlast hrest
    subst hvalue hlast hrest
    rw [hs']
    cases rest with
    | nil =>
      show Option.Rel _ none (if k.isMark .comma then _ else if k.isSign .greater then _ else none)
      rw [if_neg (by simp [Token.isMark, hk]), if_neg (by simp [Token.isSign, hk])]
      exact .none
    | cons t rest =>
      have : rest.length < ts.length := Nat.lt_of_succ_lt hlt
      show Option.Rel _ (if t.isMark .comma then _ else if t.isSign .greater then _ else none)
        (if t.isMark .comma then _ else if t.isSign .greater then _ else none)
      split
      · exact rel_map (scanArgList?_append hk rest) fun _ _ h => ⟨congrArg (_ :: ·) h.value, h.last, h.rest⟩
      · split
        · exact .some ⟨rfl, rfl, rfl⟩
        · exact .none
termination_by 2 * ts.length + 1

end

end TypeExpr

/-! ## Steps of the parser -/

/-- The cursor with more tokens behind those ahead. -/
def Cursor.extend (c : Cursor) (more : List Token) : Cursor :=
  ⟨c.passed, c.ahead ++ more⟩

/-- A step of the parser with more tokens behind those ahead. -/
def Parsed.extend {α : Type} {c : Cursor} (p : Parsed α c) (more : List Token) : Parsed α (c.extend more) :=
  ⟨p.value, p.next.extend more, by
    simp only [Cursor.extend, List.length_append]
    exact Nat.add_lt_add_right p.shorter _⟩

namespace Cursor

variable {c d : Cursor} {k : Token} {us : List Token}

theorem spanTo_extend (hc : c.ahead ≠ []) (d : Cursor) (more : List Token) :
    (c.extend more).spanTo (d.extend more) = c.spanTo d := by
  obtain ⟨passed, _ | ⟨t, ahead⟩⟩ := c
  · exact absurd rfl hc
  · obtain ⟨_ | ⟨u, passed'⟩, ahead'⟩ := d <;> rfl

theorem next?_extend (more : List Token) {p : Parsed Token c} (h : c.next? = some p) :
    (c.extend more).next? = some (p.extend more) := by
  obtain ⟨passed, _ | ⟨t, ahead⟩⟩ := c
  · cases h
  · cases h
    rfl

theorem accept?_extend (more : List Token) {kind : TokenKind} {p : Parsed Token c} (h : c.accept? kind = some p) :
    (c.extend more).accept? kind = some (p.extend more) :=
  have ⟨hn, hk⟩ := next?_of_accept? h
  accept?_of_next? (next?_extend more hn) hk

theorem accept?_extend_none (hk : k.kind = .punct .colon) {kind : TokenKind} (h : c.accept? kind = none)
    (hn : kind ≠ .punct .colon) : (c.extend (k :: us)).accept? kind = none := by
  obtain ⟨passed, _ | ⟨t, ahead⟩⟩ := c
  · simp [accept?, next?, extend, hk, hn.symm]
  · have ht : t.kind ≠ kind := by
      intro ht
      simp [accept?, next?, ht] at h
    simp [accept?, next?, extend, ht]

theorem sees_extend (hk : k.kind = .punct .colon) (kind : TokenKind) (hn : kind ≠ .punct .colon) :
    (c.extend (k :: us)).sees kind = c.sees kind := by
  obtain ⟨passed, _ | ⟨t, ahead⟩⟩ := c
  · simp [sees, extend, hk, hn.symm]
  · rfl

theorem binOp?_extend (hk : k.kind = .punct .colon) (least : Nat) :
    (c.extend (k :: us)).binOp? least = (c.binOp? least).map (·.extend (k :: us)) := by
  obtain ⟨passed, _ | ⟨t, ahead⟩⟩ := c
  · show _ = none
    simp [binOp?, next?, extend, Token.binOp?, hk]
  · simp only [binOp?, next?, extend, List.cons_append]
    cases t.binOp? with
    | none => rfl
    | some op =>
      dsimp only
      split <;> rfl

theorem unOp?_extend (hk : k.kind = .punct .colon) :
    (c.extend (k :: us)).unOp? = c.unOp?.map (·.extend (k :: us)) := by
  obtain ⟨passed, _ | ⟨t, ahead⟩⟩ := c
  · show _ = none
    simp [unOp?, next?, extend, Token.unOp?, hk]
  · show Option.map _ t.unOp? = Option.map _ (Option.map _ t.unOp?)
    cases t.unOp? <;> rfl

theorem accessMark?_extend (hk : k.kind = .punct .colon) :
    (c.extend (k :: us)).accessMark? = c.accessMark?.map (·.extend (k :: us)) := by
  obtain ⟨passed, _ | ⟨t, ahead⟩⟩ := c
  · show _ = none
    simp [accessMark?, next?, extend, Token.isMark, hk]
  · simp only [accessMark?, next?, extend, List.cons_append]
    split
    · rfl
    split
    · rfl
    split <;> rfl

/-- An access begins in front of more tokens where it begins without them, if the search behind a `?` in front of a parenthesis
comes to the same. -/
theorem accessStart?_extend (hk : k.kind = .punct .colon) (pending pending' : Nat)
    (hg : ∀ q, c.accept? (.punct .question) = some q → q.next.sees (.punct .openParen) = true →
      guards pending' (q.next.ahead ++ k :: us) = guards pending q.next.ahead) :
    (c.extend (k :: us)).accessStart? pending' = (c.accessStart? pending).map (·.extend (k :: us)) := by
  rw [accessStart?, accessStart?]
  cases hq : c.accept? (.punct .question) with
  | none =>
    rw [accept?_extend_none hk hq (by decide), accessMark?_extend hk]
    dsimp only
    cases c.accessMark? <;> rfl
  | some q =>
    have hm : (q.extend (k :: us)).next.accessMark? = q.next.accessMark?.map (·.extend (k :: us)) := accessMark?_extend hk
    rw [accept?_extend _ hq]
    dsimp only
    rw [hm]
    cases hp : q.next.accessMark? with
    | none => rfl
    | some p =>
      show (if p.value = .paren ∧ guards pending' (q.next.ahead ++ k :: us) = false then none else _) =
        Option.map _ (if p.value = .paren ∧ guards pending q.next.ahead = false then none else _)
      by_cases hv : p.value = .paren
      · obtain ⟨t, ht, hkind⟩ := mark_of_accessMark? hp
        rw [hv] at hkind
        rw [hg q hq (sees_of_ahead ht.1 hkind)]
        split <;> rfl
      · rw [if_neg fun h => hv h.1, if_neg fun h => hv h.1]
        rfl

theorem nameAt_extend (more : List Token) {place : NamePlace} {p : Parsed Token c} (h : c.nameAt place = .ok p) :
    (c.extend more).nameAt place = .ok (p.extend more) := by
  rw [nameAt, accept?_extend more (passes_nameAt h)]

theorem dollarName_extend (more : List Token) {dollar : Token} {p : Parsed (MemberName × Span) c}
    (h : c.dollarName dollar = .ok p) : (c.extend more).dollarName dollar = .ok (p.extend more) := by
  unfold dollarName at h ⊢
  cases hn : c.next? with
  | none => rw [hn] at h; cases h
  | some t =>
    rw [hn] at h
    rw [next?_extend more hn]
    show (if t.value.kind ≠ .name then _ else if t.value.span.start ≠ dollar.span.stop then _ else _) = _
    dsimp only at h
    split at h
    · cases h
    rename_i hk
    split at h
    · cases h
    · rename_i hs
      cases h
      rw [if_neg hk, if_neg hs]
      rfl

theorem PassesName.extend (hk : k.kind = .punct .colon) {place : NamePlace} {p : Parsed (MemberName × Span) c}
    (h : c.PassesName place p) : (c.extend (k :: us)).PassesName place (p.extend (k :: us)) := by
  cases h with
  | keyed hd hn => exact .keyed (accept?_extend _ hd) (dollarName_extend _ hn)
  | plain hd hn => exact .plain (accept?_extend_none hk hd (by decide)) (nameAt_extend _ hn)

theorem lambdaArrow_extend (hk : k.kind = .punct .colon) {p : Parsed Token c} (h : c.lambdaArrow = .ok p) :
    (c.extend (k :: us)).lambdaArrow = .ok (p.extend (k :: us)) := by
  unfold lambdaArrow at h ⊢
  cases ha : c.accept? (.sign .arrow) with
  | none => rw [ha] at h; cases h
  | some arrow =>
    rw [ha] at h
    rw [accept?_extend _ ha]
    have hs : (arrow.extend (k :: us)).next.sees (.punct .openBrace) = arrow.next.sees (.punct .openBrace) :=
      sees_extend hk _ (by decide)
    dsimp only at h ⊢
    rw [hs]
    split at h
    · cases h
    · rename_i hb
      cases h
      rw [if_neg hb]

theorem type?_extend (hk : k.kind = .punct .colon) :
    (c.extend (k :: us)).type? = c.type?.map (·.extend (k :: us)) := by
  have hs : Option.Rel (TypeExpr.ScanAppended (k :: us)) (TypeExpr.scan? c.ahead) (TypeExpr.scan? (c.ahead ++ k :: us)) :=
    TypeExpr.scan?_append hk c.ahead
  unfold type?
  cases h : TypeExpr.scan? c.ahead with
  | none =>
    rw [h] at hs
    rw [show TypeExpr.scan? (c.extend (k :: us)).ahead = none from none_of_rel hs rfl]
    rfl
  | some s =>
    obtain ⟨s', hs', hv⟩ := exists_of_rel hs h
    rw [show TypeExpr.scan? (c.extend (k :: us)).ahead = some s' from hs']
    have hn : (c.extend (k :: us)).advanceTo s'.rest = (c.advanceTo s.rest).extend (k :: us) := by
      have hl := s.shorter
      simp only [advanceTo, extend, hv.rest, List.length_append, Nat.add_sub_add_right]
      rw [List.take_append_of_le_length (Nat.sub_le _ _)]
    show some _ = some _
    simp only [hv.value, hn]
    rfl

/-- A parameter of a lambda. -/
theorem lambdaParam_extend (hk : k.kind = .punct .colon) {p : Parsed LambdaParam c} (h : c.lambdaParam = .ok p) :
    (c.extend (k :: us)).lambdaParam = .ok (p.extend (k :: us)) := by
  -- A name stands alone where no type has a name behind it.
  have plain : ∀ p : Parsed LambdaParam c, (do
      let p ← c.nameAt .lambdaParam
      .ok ⟨⟨none, p.value.lexeme, p.value.span⟩, p.next, p.shorter⟩ : Read LambdaParam c) = .ok p →
      (do
        let p ← (c.extend (k :: us)).nameAt .lambdaParam
        .ok ⟨⟨none, p.value.lexeme, p.value.span⟩, p.next, p.shorter⟩ : Read LambdaParam (c.extend (k :: us))) =
          .ok (p.extend (k :: us)) := by
    intro p h
    obtain ⟨name, hn, h⟩ := of_bind_eq_ok h
    cases h
    rw [nameAt_extend _ hn]
    rfl
  unfold lambdaParam at h ⊢
  dsimp only at h ⊢
  rw [type?_extend hk]
  cases ht : c.type? with
  | none =>
    rw [ht] at h
    exact plain p h
  | some type =>
    rw [ht] at h
    rw [Option.map_some]
    dsimp only at h ⊢
    cases hn : type.next.accept? .name with
    | none =>
      have hn' : (type.extend (k :: us)).next.accept? .name = none := accept?_extend_none hk hn (by decide)
      rw [hn']
      rw [hn] at h
      exact plain p h
    | some name =>
      have hn' : (type.extend (k :: us)).next.accept? .name = some (name.extend (k :: us)) := accept?_extend _ hn
      rw [hn']
      rw [hn] at h
      cases h
      rfl

theorem lambdaParamList_extend (hk : k.kind = .punct .colon) (c : Cursor) (p : Parsed (List LambdaParam) c)
    (h : c.lambdaParamList = .ok p) : (c.extend (k :: us)).lambdaParamList = .ok (p.extend (k :: us)) := by
  rw [lambdaParamList] at h ⊢
  obtain ⟨param, hp, h⟩ := of_bind_eq_ok h
  rw [lambdaParam_extend hk hp]
  cases hc : param.next.accept? (.punct .comma) with
  | none =>
    have hc' : (param.extend (k :: us)).next.accept? (.punct .comma) = none := accept?_extend_none hk hc (by decide)
    simp only [hc] at h
    cases h
    simp only [bind, Except.bind, hc']
    rfl
  | some comma =>
    have hc' : (param.extend (k :: us)).next.accept? (.punct .comma) = some (comma.extend (k :: us)) :=
      accept?_extend _ hc
    simp only [hc] at h
    have := Nat.lt_trans comma.shorter param.shorter
    obtain ⟨rest, hr, h⟩ := of_bind_eq_ok h
    cases h
    have hr' : (comma.extend (k :: us)).next.lambdaParamList = .ok (rest.extend (k :: us)) :=
      lambdaParamList_extend hk comma.next rest hr
    simp only [bind, Except.bind, hc', hr']
    rfl
termination_by c.ahead.length

theorem lambdaParams_extend (hk : k.kind = .punct .colon) {p : Parsed (List LambdaParam) c} (h : c.lambdaParams = .ok p) :
    (c.extend (k :: us)).lambdaParams = .ok (p.extend (k :: us)) := by
  unfold lambdaParams at h ⊢
  cases hc : c.accept? (.punct .closeParen) with
  | some close =>
    rw [accept?_extend _ hc]
    rw [hc] at h
    cases h
    rfl
  | none =>
    rw [accept?_extend_none hk hc (by decide)]
    rw [hc] at h
    obtain ⟨list, hl, h⟩ := of_bind_eq_ok h
    obtain ⟨close, hc, h⟩ := of_bind_eq_ok h
    cases h
    have hc' : (list.extend (k :: us)).next.close .lambdaParams = .ok (close.extend (k :: us)) := by
      rw [Cursor.close, show (list.extend (k :: us)).next.accept? _ = some (close.extend (k :: us)) from
        accept?_extend _ (accept?_of_close hc)]
    simp only [lambdaParamList_extend hk c list hl, bind, Except.bind, hc']
    rfl

end Cursor

/-- The end of a bracket is found in front of more tokens as well. -/
theorem behindClose?_append {depth : Nat} {ts rest : List Token} (h : behindClose? depth ts = some rest)
    (more : List Token) : behindClose? depth (ts ++ more) = some (rest ++ more) := by
  fun_induction behindClose? depth ts with
  | case1 => cases h
  | _ => rw [List.cons_append, behindClose?.eq_def]; simp_all

/-- A lambda is told from a parenthesis as before, if the bracket ahead is closed. -/
theorem Cursor.opensLambda_extend {c : Cursor} {k : Token} {us rest : List Token} (hk : k.kind = .punct .colon)
    (h : behindClose? 0 c.ahead = some rest) : (c.extend (k :: us)).opensLambda = c.opensLambda := by
  rw [opensLambda, opensLambda, show behindClose? 0 (c.extend (k :: us)).ahead = _ from behindClose?_append h _, h]
  cases rest with
  | nil => simp [Token.isSign, hk]
  | cons => rfl

/-- The bracket ahead is closed where a lambda begins. -/
theorem Cursor.behindClose?_of_opensLambda {c : Cursor} (h : c.opensLambda = true) :
    ∃ rest, behindClose? 0 c.ahead = some rest := by
  unfold opensLambda at h
  cases hb : behindClose? 0 c.ahead with
  | none => rw [hb] at h; cases h
  | some rest => exact ⟨rest, rfl⟩

end NavCheck
