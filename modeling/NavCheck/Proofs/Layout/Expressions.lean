import NavCheck.Proofs.Alike
import NavCheck.Proofs.Layout.Relocation

/-!
# Expressions in another layout

The expression parser makes of relocated tokens what it makes of the tokens, relocated. It joins the spans of tokens and asks
whether a dollar sign touches the token behind it, so a relocation suits tokens when it respects both.
-/

namespace NavCheck

/-- What reading asks of a relocation of tokens. -/
structure Relocation.Suits (m : Relocation) (tokens : List Token) : Prop where
  span_default : m.span default = default
  span_join : ∀ t ∈ tokens, ∀ u ∈ tokens, m.span (t.span.join u.span) = (m.span t.span).join (m.span u.span)
  alike : Alike tokens (tokens.map (move m))

/-- The end of tokens is like its relocation when all of them are. -/
theorem Alike.of_map_append {m : Relocation} {ts us : List Token} (h : Alike (ts ++ us) ((ts ++ us).map (move m))) :
    Alike us (us.map (move m)) := by
  induction ts with
  | nil => exact h
  | cons t ts ih =>
    cases h with
    | cons _ _ h => exact ih h

/-- The cursor stands between tokens of a sequence. -/
def Cursor.Over (tokens : List Token) (c : Cursor) : Prop :=
  c.passed.reverse ++ c.ahead = tokens

namespace Cursor.Over

variable {tokens ts : List Token} {c d : Cursor} {m : Relocation}

/-- A cursor starts in front of its tokens. -/
theorem start (tokens : List Token) : (Cursor.start tokens).Over tokens := rfl

/-- Passing tokens keeps a cursor over the same tokens. -/
theorem passes (h : c.Over tokens) (hp : c.Passes ts d) : d.Over tokens := by
  unfold Cursor.Over at h ⊢
  rw [hp.2, List.reverse_append, List.reverse_reverse, List.append_assoc, ← hp.1, h]

/-- A later cursor is over the same tokens. -/
theorem leads (h : c.Over tokens) (hl : c.Leads d) : d.Over tokens := by
  obtain ⟨ts, hp⟩ := hl
  exact h.passes hp

/-- What a token that is accepted leaves is over the same tokens. -/
theorem accept (h : c.Over tokens) {kind : TokenKind} {p : Parsed Token c} (hp : c.accept? kind = some p) :
    p.next.Over tokens :=
  h.leads (.accept? hp)

/-- What is ahead of a cursor is among its tokens. -/
theorem mem_ahead (h : c.Over tokens) {t : Token} (ht : t ∈ c.ahead) : t ∈ tokens :=
  h ▸ List.mem_append_right _ ht

/-- What a cursor has passed is among its tokens. -/
theorem mem_passed (h : c.Over tokens) {t : Token} (ht : t ∈ c.passed) : t ∈ tokens :=
  h ▸ List.mem_append_left _ (List.mem_reverse.2 ht)

/-- What is ahead of a cursor is like its relocation, when the relocation suits the tokens. -/
theorem alike (h : c.Over tokens) (hm : m.Suits tokens) : Alike c.ahead (move m c).ahead := by
  have ha := hm.alike
  rw [← h] at ha
  exact ha.of_map_append

/-- The span of what is read between two places goes where the places go. -/
theorem spanTo (hc : c.Over tokens) (hd : d.Over tokens) (hm : m.Suits tokens) :
    (move m c).spanTo (move m d) = m.span (c.spanTo d) := by
  obtain ⟨cp, _ | ⟨t, ca⟩⟩ := c
  · exact hm.span_default.symm
  · obtain ⟨_ | ⟨u, dp⟩, da⟩ := d
    · exact hm.span_default.symm
    · exact (hm.span_join t (hc.mem_ahead List.mem_cons_self) u (hd.mem_passed List.mem_cons_self)).symm

end Cursor.Over

/-! ## Types -/

section

variable (m : Relocation) (t : Token)

/-- A relocated token has the same kind. -/
@[simp] theorem Token.is_move (kind : TokenKind) : (move m t).is kind = t.is kind := rfl

/-- A relocated token is the same mark. -/
@[simp] theorem Token.isMark_move (mark : Punct) : (move m t).isMark mark = t.isMark mark := rfl

/-- A relocated token is the same sign. -/
@[simp] theorem Token.isSign_move (sign : Sign) : (move m t).isSign sign = t.isSign sign := rfl

end

namespace TypeExpr

/-- Relocated tokens guard an access when the tokens do. -/
@[simp]
theorem guardsAccess_move (m : Relocation) (ts : List Token) : guardsAccess (ts.map (move m)) = guardsAccess ts := by
  cases ts <;> rfl

/-- Suffixes of types are scanned alike in relocated tokens, and their end is relocated. -/
theorem scanSuffixes_move (m : Relocation) (last : Span) (ts : List Token) :
    scanSuffixes (m.span last) (ts.map (move m)) =
      ((scanSuffixes last ts).1, m.span (scanSuffixes last ts).2.1, (scanSuffixes last ts).2.2.map (move m)) := by
  fun_induction scanSuffixes last ts <;> rw [scanSuffixes.eq_def] <;> simp_all

/-- The suffixes of a type end where they begin or at one of the tokens. -/
theorem last_scanSuffixes (last : Span) (ts : List Token) :
    (scanSuffixes last ts).2.1 = last ∨ ∃ t ∈ ts, t.span = (scanSuffixes last ts).2.1 := by
  fun_induction scanSuffixes last ts <;> grind

variable {m : Relocation} {tokens : List Token}

/-- What a scan of relocated tokens finds beside a scan of the tokens, which ends at one of them. -/
structure ScanMoved {α : Type} [Placed α] (m : Relocation) (tokens : List Token) {ts us : List Token} (s' : TypeScan α us)
    (s : TypeScan α ts) : Prop where
  value : s'.value = move m s.value
  last : s'.last = m.span s.last
  rest : s'.rest = s.rest.map (move m)
  known : ∃ t ∈ tokens, t.span = s.last

mutual

/-- A type is read from relocated tokens as from the tokens. -/
theorem scan?_move (hm : m.Suits tokens) (ts : List Token) (hts : ∀ t ∈ ts, t ∈ tokens) (s : TypeScan TypeExpr ts)
    (h : scan? ts = some s) : ∃ s', scan? (ts.map (move m)) = some s' ∧ ScanMoved m tokens s' s := by
  cases ts with
  | nil => rw [scan?] at h; cases h
  | cons t ts =>
    obtain ⟨ht, hts⟩ := List.forall_mem_cons.1 hts
    rw [scan?] at h
    rw [List.map_cons, scan?]
    dsimp only at h ⊢
    rw [Token.is_move]
    split at h
    · rename_i hname
      rw [if_pos hname]
      cases ha : scanArgs? t.span ts with
      | none => rw [ha] at h; cases h
      | some after =>
        obtain ⟨args, last, rest⟩ := after
        have hsub := scanArgs?_suffix t.span ts _ ha
        rw [ha] at h
        cases h
        obtain ⟨⟨_, _, rest', _⟩, ha', rfl, rfl, rfl, hin⟩ := scanArgs?_move hm t.span ⟨t, ht, rfl⟩ ts hts _ ha
        have hknown : ∃ u ∈ tokens, u.span = (scanSuffixes last rest).2.1 := by
          obtain hs | ⟨u, hu, hs⟩ := last_scanSuffixes last rest.1
          · rw [hs]
            exact hin
          · exact ⟨u, hts u (hsub.subset hu), hs⟩
        have hsuf := scanSuffixes_move m last rest.1
        rw [Token.placed_move_span, ha']
        refine ⟨_, rfl, ?_, congrArg (·.2.1) hsuf, congrArg (·.2.2) hsuf, hknown⟩
        obtain ⟨u, hu, hs⟩ := hknown
        simp only [TypeExpr.move_mk, hsuf, ← hs, hm.span_join t ht u hu, Token.placed_move_lexeme]
    · cases h
termination_by 2 * ts.length

/-- The arguments of a type are read from relocated tokens as from the tokens. -/
theorem scanArgs?_move (hm : m.Suits tokens) (last : Span) (hl : ∃ t ∈ tokens, t.span = last) (ts : List Token)
    (hts : ∀ t ∈ ts, t ∈ tokens)
    (s : List TypeExpr × Span × { rest : List Token // rest.length ≤ ts.length }) (h : scanArgs? last ts = some s) :
    ∃ s', scanArgs? (m.span last) (ts.map (move m)) = some s' ∧ s'.1 = s.1.map (move m) ∧ s'.2.1 = m.span s.2.1 ∧
      s'.2.2.1 = s.2.2.1.map (move m) ∧ ∃ t ∈ tokens, t.span = s.2.1 := by
  cases ts with
  | nil =>
    rw [scanArgs?] at h
    cases h
    exact ⟨([], m.span last, ⟨[], Nat.le_refl _⟩), by rw [scanArgs?.eq_def]; rfl, rfl, rfl, rfl, hl⟩
  | cons t ts =>
    rw [scanArgs?] at h
    rw [List.map_cons, scanArgs?, Token.isSign_move]
    split at h
    · rename_i hless
      rw [Option.map_eq_some_iff] at h
      obtain ⟨s, hs, rfl⟩ := h
      obtain ⟨s', hs', hv⟩ := scanArgList?_move hm ts (List.forall_mem_cons.1 hts).2 s hs
      rw [if_pos hless, hs']
      exact ⟨_, rfl, hv.value, hv.last, hv.rest, hv.known⟩
    · rename_i hless
      cases h
      rw [if_neg hless]
      exact ⟨_, rfl, rfl, rfl, rfl, hl⟩
termination_by 2 * ts.length + 1

/-- Types with commas between them are read from relocated tokens as from the tokens. -/
theorem scanArgList?_move (hm : m.Suits tokens) (ts : List Token) (hts : ∀ t ∈ ts, t ∈ tokens)
    (s : TypeScan (List TypeExpr) ts) (h : scanArgList? ts = some s) :
    ∃ s', scanArgList? (ts.map (move m)) = some s' ∧ ScanMoved m tokens s' s := by
  rw [scanArgList?] at h
  rw [scanArgList?]
  cases ha : scan? ts with
  | none => rw [ha] at h; cases h
  | some arg =>
    rw [ha] at h
    obtain ⟨arg', ha', hv, hl, hr, hin⟩ := scan?_move hm ts hts arg ha
    rw [ha']
    dsimp only at h ⊢
    split at h
    · cases h
    · rename_i t rest hrest
      obtain ⟨ht, hrts⟩ := List.forall_mem_cons.1 fun u hu =>
        hts u ((scan?_suffix ts arg ha).subset (hrest ▸ hu : u ∈ arg.rest))
      have hlt : rest.length < ts.length := by
        have hs := arg.shorter
        rw [hrest, List.length_cons] at hs
        omega
      rw [hrest, List.map_cons] at hr
      split
      · rename_i hrest'
        rw [hrest'] at hr
        cases hr
      · rename_i u rest' hrest'
        rw [hrest'] at hr
        cases hr
        rw [Token.isMark_move, Token.isSign_move]
        split at h
        · rename_i hcomma
          rw [Option.map_eq_some_iff] at h
          obtain ⟨more, hm', rfl⟩ := h
          obtain ⟨more', hmore, hvm⟩ := scanArgList?_move hm rest hrts more hm'
          rw [if_pos hcomma, hmore]
          exact ⟨_, rfl, congr (congrArg List.cons hv) hvm.value, hvm.last, hvm.rest, hvm.known⟩
        · rename_i hcomma
          rw [if_neg hcomma]
          split at h
          · rename_i hgreater
            cases h
            rw [if_pos hgreater]
            exact ⟨_, rfl, congrArg (· :: []) hv, rfl, rfl, t, ht, rfl⟩
          · cases h
termination_by 2 * ts.length + 1

end

end TypeExpr

/-! ## Steps of the parser -/

/-- A step of the parser, relocated. -/
def Parsed.move {α : Type} [Placed α] (m : Relocation) {c : Cursor} (p : Parsed α c) : Parsed α (NavCheck.move m c) :=
  ⟨NavCheck.move m p.value, NavCheck.move m p.next, by
    simp only [Cursor.placed_move_ahead, List.placed_move, List.length_map]
    exact p.shorter⟩

section

variable {α β : Type} {f : α → β} {o : Option α} {o' : Option β}

/-- What is found is found relocated. -/
theorem some_of_map (h : o' = o.map f) {a : α} (ho : o = some a) : o' = some (f a) := by
  rw [h, ho, Option.map_some]

/-- What is not found is not found relocated. -/
theorem none_of_map (h : o' = o.map f) (ho : o = none) : o' = none := by
  rw [h, ho, Option.map_none]

end

namespace Cursor

variable {m : Relocation} {tokens : List Token} {c : Cursor}

/-- The next token of a relocated cursor is the relocated next token. -/
theorem next?_move (m : Relocation) (c : Cursor) : (move m c).next? = c.next?.map (Parsed.move m) := by
  obtain ⟨passed, _ | ⟨t, ahead⟩⟩ := c <;> rfl

/-- A relocated cursor accepts the same kinds of tokens. -/
theorem accept?_move (m : Relocation) (c : Cursor) (kind : TokenKind) :
    (move m c).accept? kind = (c.accept? kind).map (Parsed.move m) := by
  rw [accept?, accept?, next?_move]
  cases c.next? with
  | none => rfl
  | some p =>
    show (if p.value.kind = kind then _ else _) = _
    dsimp only
    split <;> rfl

/-- A token that is accepted is accepted relocated. -/
theorem accept?_some {kind : TokenKind} {p : Parsed Token c} (h : c.accept? kind = some p) :
    (move m c).accept? kind = some (p.move m) :=
  some_of_map (accept?_move m c kind) h

/-- A token that is not accepted is not accepted relocated. -/
theorem accept?_none {kind : TokenKind} (h : c.accept? kind = none) : (move m c).accept? kind = none :=
  none_of_map (accept?_move m c kind) h

/-- A relocated cursor sees the same kinds of tokens. -/
theorem sees_move (m : Relocation) (c : Cursor) (kind : TokenKind) : (move m c).sees kind = c.sees kind := by
  obtain ⟨passed, _ | ⟨t, ahead⟩⟩ := c <;> rfl

/-- A lambda opens at a relocated cursor when one opens at the cursor. -/
theorem opensLambda_move (h : c.Over tokens) (hm : m.Suits tokens) : (move m c).opensLambda = c.opensLambda :=
  opensLambda_alike (h.alike hm)

/-- A relocated cursor reads the same binary operators. -/
theorem binOp?_move (m : Relocation) (c : Cursor) (least : Nat) :
    (move m c).binOp? least = (c.binOp? least).map (Parsed.move m) := by
  rw [binOp?, binOp?, next?_move]
  cases c.next? with
  | none => rfl
  | some p =>
    have ho : (move m p.value).binOp? = p.value.binOp? := rfl
    simp only [Option.map_some, Parsed.move, ho]
    cases p.value.binOp? with
    | none => rfl
    | some op =>
      dsimp only
      split <;> rfl

/-- A relocated cursor reads the same unary operators. -/
theorem unOp?_move (m : Relocation) (c : Cursor) : (move m c).unOp? = c.unOp?.map (Parsed.move m) := by
  rw [unOp?, unOp?, next?_move]
  cases c.next? with
  | none => rfl
  | some p =>
    have ho : (move m p.value).unOp? = p.value.unOp? := rfl
    simp only [Option.map_some, Parsed.move, ho]
    cases p.value.unOp? <;> rfl

/-- A relocated cursor reads the same marks of accesses. -/
theorem accessMark?_move (m : Relocation) (c : Cursor) :
    (move m c).accessMark? = c.accessMark?.map (Parsed.move m) := by
  rw [accessMark?, accessMark?, next?_move]
  cases c.next? with
  | none => rfl
  | some p =>
    simp only [Option.map_some, Parsed.move, Token.isMark_move]
    by_cases hd : p.value.isMark .dot = true
    · simp [hd, Parsed.move]
    by_cases hb : p.value.isMark .openBracket = true
    · simp [hd, hb, Parsed.move]
    by_cases hp : p.value.isMark .openParen = true <;> simp [hd, hb, hp, Parsed.move]

/-- A relocated cursor reads the same starts of accesses, when the relocation suits its tokens. -/
theorem accessStart?_move (h : c.Over tokens) (hm : m.Suits tokens) (pending : Nat) :
    (move m c).accessStart? pending = (c.accessStart? pending).map (Parsed.move m) := by
  rw [accessStart?, accessStart?, accept?_move]
  cases hq : c.accept? (.punct .question) with
  | none =>
    simp only [Option.map_none, accessMark?_move]
    cases c.accessMark? <;> rfl
  | some q =>
    have hg := ((h.passes (passes_accept? hq)).alike hm).questionGuards 0 0 pending
    have hn : (Parsed.move m q).next.accessMark? = q.next.accessMark?.map (Parsed.move m) := accessMark?_move m q.next
    simp only [Option.map_some, hn]
    cases q.next.accessMark? with
    | none => rfl
    | some p =>
      show (if p.value = .paren ∧ questionGuards 0 0 pending (move m q.next).ahead = false then _ else _) = _
      rw [← hg]
      dsimp only
      split <;> rfl

/-- A name that is read is read relocated. -/
theorem nameAt_ok {place : NamePlace} {p : Parsed Token c} (h : c.nameAt place = .ok p) :
    (move m c).nameAt place = .ok (p.move m) := by
  rw [nameAt, accept?_some (passes_nameAt h)]

/-- The name behind a dollar sign is read from relocated tokens in which it touches the sign as well. -/
theorem dollarName_ok (h : c.Over tokens) (hm : m.Suits tokens) {dollar : Token} (hd : dollar ∈ tokens)
    (ht : dollar.Touches c.ahead ↔ (move m dollar).Touches (move m c).ahead) {p : Parsed (MemberName × Span) c}
    (hp : c.dollarName dollar = .ok p) : (move m c).dollarName (move m dollar) = .ok (p.move m) := by
  obtain ⟨passed, _ | ⟨t, ahead⟩⟩ := c
  · cases hp
  · have hn : (Cursor.mk passed (t :: ahead)).next? = some ⟨t, ⟨t :: passed, ahead⟩, by simp⟩ := rfl
    unfold dollarName at hp ⊢
    rw [next?_move]
    rw [hn] at hp ⊢
    dsimp only [Option.map_some, Parsed.move, Token.placed_move_kind] at hp ⊢
    split at hp
    · cases hp
    · rename_i hk
      split at hp
      · cases hp
      · rename_i hs
        cases hp
        have hs' : (move m t).span.start = (move m dollar).span.stop :=
          ht.1 (Decidable.not_not.1 hs : t.span.start = dollar.span.stop)
        rw [if_neg hk, if_neg (by rw [hs']; simp)]
        have hj := hm.span_join dollar hd t (h.mem_ahead List.mem_cons_self)
        simp only [Prod.placed_move, MemberName.placed_move, Span.placed_move, hj, Token.placed_move_span,
          Token.placed_move_lexeme]

/-- A name that is passed is passed relocated: a dollar sign still touches what it touched. -/
theorem PassesName.move (h : c.Over tokens) (hm : m.Suits tokens) {place : NamePlace} {p : Parsed (MemberName × Span) c}
    (hp : c.PassesName place p) : (move m c).PassesName place (p.move m) := by
  cases hp with
  | @keyed d _ hd hn =>
    have hin : d.value ∈ tokens := h.mem_ahead (by rw [(passes_accept? hd).1]; exact List.mem_cons_self)
    have ht := touches_alike (h.alike hm) hd (accept?_some hd)
    exact .keyed (accept?_some hd) (dollarName_ok (h.passes (passes_accept? hd)) hm hin ht hn)
  | plain hd hn => exact .plain (accept?_none hd) (nameAt_ok hn)

/-- A closing mark that is read is read relocated. -/
theorem close_ok {place : ClosePlace} {p : Parsed Token c} (h : c.close place = .ok p) :
    (move m c).close place = .ok (p.move m) := by
  rw [close, accept?_some (accept?_of_close h)]

/-- The arrow of a lambda that is read is read relocated. -/
theorem lambdaArrow_ok {p : Parsed Token c} (h : c.lambdaArrow = .ok p) : (move m c).lambdaArrow = .ok (p.move m) := by
  unfold lambdaArrow at h ⊢
  cases ha : c.accept? (.sign .arrow) with
  | none => rw [ha] at h; cases h
  | some a =>
    rw [accept?_some ha]
    rw [ha] at h
    have hs : (Parsed.move m a).next.sees (.punct .openBrace) = a.next.sees (.punct .openBrace) := sees_move m a.next _
    dsimp only at h ⊢
    rw [hs]
    split at h
    · cases h
    · rename_i hb
      cases h
      rw [if_neg hb]

/-- A type that is read is read relocated. -/
theorem type?_some (h : c.Over tokens) (hm : m.Suits tokens) {p : Parsed TypeExpr c} (hp : c.type? = some p) :
    (move m c).type? = some (p.move m) := by
  unfold type? at hp ⊢
  rw [Option.map_eq_some_iff] at hp
  obtain ⟨s, hs, rfl⟩ := hp
  obtain ⟨s', hs', hv⟩ := TypeExpr.scan?_move hm c.ahead (fun _ => h.mem_ahead) s hs
  have hs' : TypeExpr.scan? (move m c).ahead = some s' := hs'
  rw [hs', Option.map_some]
  have hn : (move m c).advanceTo s'.rest = move m (c.advanceTo s.rest) := by
    rw [advanceTo, advanceTo, hv.rest]
    simp [List.map_take]
  simp only [Parsed.move, hv.value, hn]

/-- Where no type is read, none is read relocated. -/
theorem type?_none (h : c.Over tokens) (hm : m.Suits tokens) (hp : c.type? = none) : (move m c).type? = none :=
  none_of_rel (type?_alike (h.alike hm)) hp

/-- A parameter of a lambda that is read is read relocated. -/
theorem lambdaParam_ok (h : c.Over tokens) (hm : m.Suits tokens) {p : Parsed LambdaParam c} (hp : c.lambdaParam = .ok p) :
    (move m c).lambdaParam = .ok (p.move m) := by
  -- A name stands alone where no type has a name behind it.
  have plain : ∀ p : Parsed LambdaParam c, (do
      let p ← c.nameAt .lambdaParam
      .ok ⟨⟨none, p.value.lexeme, p.value.span⟩, p.next, p.shorter⟩ : Read LambdaParam c) = .ok p →
      (do
        let p ← (move m c).nameAt .lambdaParam
        .ok ⟨⟨none, p.value.lexeme, p.value.span⟩, p.next, p.shorter⟩ : Read LambdaParam (move m c)) =
          .ok (p.move m) := by
    intro p hp
    obtain ⟨name, hn, hp⟩ := of_bind_eq_ok hp
    cases hp
    rw [nameAt_ok hn]
    rfl
  unfold lambdaParam at hp ⊢
  dsimp only at hp ⊢
  cases ht : c.type? with
  | none =>
    rw [type?_none h hm ht]
    rw [ht] at hp
    exact plain p hp
  | some t =>
    rw [type?_some h hm ht]
    rw [ht] at hp
    dsimp only at hp ⊢
    cases hn : t.next.accept? .name with
    | none =>
      have hn' : (Parsed.move m t).next.accept? .name = none := accept?_none hn
      rw [hn']
      rw [hn] at hp
      exact plain p hp
    | some name =>
      have hn' : (Parsed.move m t).next.accept? .name = some (name.move m) := accept?_some hn
      rw [hn']
      rw [hn] at hp
      cases hp
      rfl

/-- Parameters of a lambda in a row that are read are read relocated. -/
theorem lambdaParamList_ok (hm : m.Suits tokens) (c : Cursor) (h : c.Over tokens) (p : Parsed (List LambdaParam) c)
    (hp : c.lambdaParamList = .ok p) : (move m c).lambdaParamList = .ok (p.move m) := by
  rw [lambdaParamList] at hp ⊢
  obtain ⟨param, hparam, hp⟩ := of_bind_eq_ok hp
  obtain ⟨ts, hts⟩ := passes_lambdaParam hparam
  rw [lambdaParam_ok h hm hparam]
  cases hk : param.next.accept? (.punct .comma) with
  | none =>
    have hk' : (Parsed.move m param).next.accept? (.punct .comma) = none := accept?_none hk
    simp only [hk] at hp
    cases hp
    simp only [bind, Except.bind, hk']
    rfl
  | some comma =>
    have hk' : (Parsed.move m param).next.accept? (.punct .comma) = some (comma.move m) := accept?_some hk
    simp only [hk] at hp
    have := Nat.lt_trans comma.shorter param.shorter
    obtain ⟨rest, hr, hp⟩ := of_bind_eq_ok hp
    cases hp
    have hr' : (Parsed.move m comma).next.lambdaParamList = .ok (rest.move m) :=
      lambdaParamList_ok hm comma.next ((h.passes hts).passes (passes_accept? hk)) rest hr
    simp only [bind, Except.bind, hk', hr']
    rfl
termination_by c.ahead.length

/-- Parameters of a lambda that are read are read relocated. -/
theorem lambdaParams_ok (h : c.Over tokens) (hm : m.Suits tokens) {p : Parsed (List LambdaParam) c}
    (hp : c.lambdaParams = .ok p) : (move m c).lambdaParams = .ok (p.move m) := by
  unfold lambdaParams at hp ⊢
  cases hc : c.accept? (.punct .closeParen) with
  | some close =>
    rw [accept?_some hc]
    rw [hc] at hp
    cases hp
    rfl
  | none =>
    rw [accept?_none hc]
    rw [hc] at hp
    obtain ⟨list, hl, hp⟩ := of_bind_eq_ok hp
    obtain ⟨close, hk, hp⟩ := of_bind_eq_ok hp
    cases hp
    have hk' : (Parsed.move m list).next.close .lambdaParams = .ok (close.move m) := close_ok hk
    simp only [lambdaParamList_ok hm c h list hl, bind, Except.bind, hk']
    rfl

end Cursor

/-! ## Derivations -/

namespace Phrase

/-- What a phrase stands for, relocated. -/
def move (m : Relocation) : Phrase → Phrase
  | .assign pending e => .assign pending (NavCheck.move m e)
  | .conditional pending e => .conditional pending (NavCheck.move m e)
  | .binary pending least e => .binary pending least (NavCheck.move m e)
  | .operators pending least start left whole =>
    .operators pending least (NavCheck.move m start) (NavCheck.move m left) (NavCheck.move m whole)
  | .unary pending e => .unary pending (NavCheck.move m e)
  | .accesses pending start base whole =>
    .accesses pending (NavCheck.move m start) (NavCheck.move m base) (NavCheck.move m whole)
  | .link start guarded l => .link start guarded (NavCheck.move m l)
  | .list es => .list (NavCheck.move m es)
  | .bracketed place es => .bracketed place (NavCheck.move m es)
  | .args es => .args (NavCheck.move m es)
  | .primary pending e => .primary pending (NavCheck.move m e)
  | .lambda pending start params e =>
    .lambda pending (NavCheck.move m start) (NavCheck.move m params) (NavCheck.move m e)
  | .creation start e => .creation (NavCheck.move m start) (NavCheck.move m e)
  | .entries es => .entries (NavCheck.move m es)
  | .entry en => .entry (NavCheck.move m en)
  | .entryValue e => .entryValue (NavCheck.move m e)

/-- The place where a phrase begins that is read from a later one on stands between tokens of a sequence. -/
def Begins (tokens : List Token) : Phrase → Prop
  | .operators _ _ start _ _ | .accesses _ start _ _ | .lambda _ start _ _ | .creation start _ => start.Over tokens
  | _ => True

end Phrase

/-- What is read leaves the cursor over the same tokens. -/
theorem Reads.over {tokens : List Token} {phrase : Phrase} {c d : Cursor} (h : Reads phrase c d) (hc : c.Over tokens) :
    d.Over tokens :=
  hc.leads h.leads

/-- What a phrase stands for is read from relocated tokens, relocated. -/
def Phrase.Moves (m : Relocation) (tokens : List Token) (phrase : Phrase) (c d : Cursor) : Prop :=
  c.Over tokens → phrase.Begins tokens → Reads (phrase.move m) (NavCheck.move m c) (NavCheck.move m d)

namespace Phrase.Moves

open Cursor

variable {m : Relocation} {tokens : List Token} (hm : m.Suits tokens) {pending : Nat} {start c c₁ c₂ d : Cursor}

include hm

/-- A conditional, whose marks are relocated with it. -/
theorem conditional {condition thenBranch elseBranch : Expr} {question : Parsed Token c₁} {colon : Parsed Token c₂}
    (h₁ : Reads (.binary pending 0 condition) c c₁) (hq : c₁.accept? (.punct .question) = some question)
    (h₂ : Reads (.assign (pending + 1) thenBranch) question.next c₂) (hk : c₂.accept? (.punct .colon) = some colon)
    (h₃ : Reads (.assign pending elseBranch) colon.next d) (ih₁ : (Phrase.binary pending 0 condition).Moves m tokens c c₁)
    (ih₂ : (Phrase.assign (pending + 1) thenBranch).Moves m tokens question.next c₂)
    (ih₃ : (Phrase.assign pending elseBranch).Moves m tokens colon.next d) :
    (Phrase.conditional pending (.conditional condition thenBranch elseBranch (c.spanTo d))).Moves m tokens c d := by
  intro hc _
  have hs := (h₁.over hc).accept hq
  have hs' := (h₂.over hs).accept hk
  have h := (ih₁ hc trivial).conditional (accept?_some hq) (ih₂ hs trivial) (accept?_some hk) (ih₃ hs' trivial)
  rwa [hc.spanTo (h₃.over hs') hm] at h

/-- One more operation, and the operators behind it. -/
theorem operators {least : Nat} {left right whole : Expr} {op : Parsed BinOp c} (ho : c.binOp? least = some op)
    (h₁ : Reads (.binary pending op.value.rightLeast right) op.next c₁)
    (ih₁ : (Phrase.binary pending op.value.rightLeast right).Moves m tokens op.next c₁)
    (ih₂ : (Phrase.operators pending least start (.binary op.value left right (start.spanTo c₁)) whole).Moves m tokens c₁ d) :
    (Phrase.operators pending least start left whole).Moves m tokens c d := by
  intro hc hs
  have hn := hc.passes (passes_binOp? ho).choose_spec
  refine .operators (some_of_map (binOp?_move m _ _) ho) (ih₁ hn trivial) ?_
  rw [Over.spanTo hs (h₁.over hn) hm]
  exact ih₂ (h₁.over hn) hs

/-- One more access, and the accesses behind it. -/
theorem accesses {base whole : Expr} {link : Link} {mark : Parsed (AccessStart × Bool) c}
    (ha : c.accessStart? pending = some mark) (h₁ : Reads (.link mark.value.1 mark.value.2 link) mark.next c₁)
    (ih₁ : (Phrase.link mark.value.1 mark.value.2 link).Moves m tokens mark.next c₁)
    (ih₂ : (Phrase.accesses pending start (.access base link mark.value.2 (start.spanTo c₁)) whole).Moves m tokens c₁ d) :
    (Phrase.accesses pending start base whole).Moves m tokens c d := by
  intro hc hs
  obtain ⟨t, us, hp, -⟩ := passes_accessStart? ha
  have hn := hc.passes hp
  refine .accesses (some_of_map (accessStart?_move hc hm _) ha) (ih₁ hn trivial) ?_
  rw [Over.spanTo hs (h₁.over hn) hm]
  exact ih₂ (h₁.over hn) hs

/-- A lambda with its parameters in parentheses. -/
theorem longLambda {e : Expr} {token : Parsed Token c} {params : Parsed (List LambdaParam) token.next}
    (ht : c.accept? (.punct .openParen) = some token) (ho : c.opensLambda = true) (hp : token.next.lambdaParams = .ok params)
    (ih : (Phrase.lambda pending c params.value e).Moves m tokens params.next d) :
    (Phrase.primary pending e).Moves m tokens c d := by
  intro hc _
  have hn := hc.accept ht
  exact .longLambda (accept?_some ht) (by rw [opensLambda_move hc hm, ho]) (lambdaParams_ok hn hm hp)
    (ih (hn.leads (passes_lambdaParams hp)) hc)

/-- An expression in parentheses. -/
theorem paren {inner : Expr} {token : Parsed Token c} {close : Parsed Token d}
    (ht : c.accept? (.punct .openParen) = some token) (ho : c.opensLambda = false) (h : Reads (.assign 0 inner) token.next d)
    (hk : d.accept? (.punct .closeParen) = some close) (ih : (Phrase.assign 0 inner).Moves m tokens token.next d) :
    (Phrase.primary pending (.paren inner (c.spanTo close.next))).Moves m tokens c close.next := by
  intro hc _
  have hn := hc.accept ht
  show Reads (.primary pending (.paren (NavCheck.move m inner) (m.span (c.spanTo close.next)))) _ _
  rw [← hc.spanTo ((h.over hn).accept hk) hm]
  exact .paren (accept?_some ht) (by rw [opensLambda_move hc hm, ho]) (ih hn trivial) (accept?_some hk)

/-- The arrow of a lambda and its body. -/
theorem lambda {params : List LambdaParam} {body : Expr} {arrow : Parsed Token c} (hr : c.lambdaArrow = .ok arrow)
    (h : Reads (.assign pending body) arrow.next d) (ih : (Phrase.assign pending body).Moves m tokens arrow.next d) :
    (Phrase.lambda pending start params (.lambda params body (start.spanTo d))).Moves m tokens c d := by
  intro hc hs
  have hn := hc.passes (passes_lambdaArrow hr)
  show Reads (.lambda pending _ (NavCheck.move m params) (.lambda (NavCheck.move m params) (NavCheck.move m body)
    (m.span (start.spanTo d)))) _ _
  rw [← Over.spanTo hs (h.over hn) hm]
  exact .lambda (lambdaArrow_ok hr) (ih hn trivial)

section

variable {args : List Expr} {entries : List Entry} {type : Parsed TypeExpr c}

/-- A creation with arguments. -/
theorem createArgs {opening : Parsed Token type.next} (ht : c.type? = some type)
    (ho : type.next.accept? (.punct .openParen) = some opening) (h : Reads (.args args) opening.next d)
    (hb : d.accept? (.punct .openBrace) = none) (ih : (Phrase.args args).Moves m tokens opening.next d) :
    (Phrase.creation start (.create type.value args [] (start.spanTo d))).Moves m tokens c d := by
  intro hc hs
  have hn := (hc.leads (passes_type? ht)).accept ho
  show Reads (.creation _ (NavCheck.move m (Expr.create type.value args [] (start.spanTo d)))) _ _
  rw [Expr.move_create, ← Over.spanTo hs (h.over hn) hm]
  exact .createArgs (type?_some hc hm ht) (accept?_some ho) (ih hn trivial) (accept?_none hb)

/-- A creation with arguments and entries. -/
theorem createBoth {opening : Parsed Token type.next} {brace : Parsed Token c₁} (ht : c.type? = some type)
    (ho : type.next.accept? (.punct .openParen) = some opening) (h₁ : Reads (.args args) opening.next c₁)
    (hb : c₁.accept? (.punct .openBrace) = some brace) (h₂ : Reads (.entries entries) brace.next d)
    (ih₁ : (Phrase.args args).Moves m tokens opening.next c₁) (ih₂ : (Phrase.entries entries).Moves m tokens brace.next d) :
    (Phrase.creation start (.create type.value args entries (start.spanTo d))).Moves m tokens c d := by
  intro hc hs
  have hn := (hc.leads (passes_type? ht)).accept ho
  have hn' := (h₁.over hn).accept hb
  show Reads (.creation _ (NavCheck.move m (Expr.create type.value args entries (start.spanTo d)))) _ _
  rw [Expr.move_create, ← Over.spanTo hs (h₂.over hn') hm]
  exact .createBoth (type?_some hc hm ht) (accept?_some ho) (ih₁ hn trivial) (accept?_some hb) (ih₂ hn' trivial)

/-- A creation with entries alone. -/
theorem createEntries {brace : Parsed Token type.next} (ht : c.type? = some type)
    (ho : type.next.accept? (.punct .openParen) = none) (hb : type.next.accept? (.punct .openBrace) = some brace)
    (h : Reads (.entries entries) brace.next d) (ih : (Phrase.entries entries).Moves m tokens brace.next d) :
    (Phrase.creation start (.create type.value [] entries (start.spanTo d))).Moves m tokens c d := by
  intro hc hs
  have hn := (hc.leads (passes_type? ht)).accept hb
  show Reads (.creation _ (NavCheck.move m (Expr.create type.value [] entries (start.spanTo d)))) _ _
  rw [Expr.move_create, ← Over.spanTo hs (h.over hn) hm]
  exact .createEntries (type?_some hc hm ht) (accept?_none ho) (accept?_some hb) (ih hn trivial)

end

/-- An entry for an element. -/
theorem entryElement {indices : List Expr} {value : Expr} {bracket : Parsed Token c}
    (hb : c.accept? (.punct .openBracket) = some bracket) (hs : bracket.next.sees (.punct .closeBracket) = false)
    (h : Reads (.bracketed .indices indices) bracket.next c₁)
    (ih₁ : (Phrase.bracketed .indices indices).Moves m tokens bracket.next c₁)
    (ih₂ : (Phrase.entryValue value).Moves m tokens c₁ d) :
    (Phrase.entry (.element indices (c.spanTo c₁) value)).Moves m tokens c d := by
  intro hc _
  have hn := hc.accept hb
  show Reads (.entry (NavCheck.move m (Entry.element indices (c.spanTo c₁) value))) _ _
  rw [Entry.move_element, ← hc.spanTo (h.over hn) hm]
  exact .entryElement (accept?_some hb) (by rw [← hs]; exact sees_move m _ _) (ih₁ hn trivial) (ih₂ (h.over hn) trivial)

/-- An entry for a member. -/
theorem entryMember {value : Expr} {name : Parsed (MemberName × Span) c} (hb : c.accept? (.punct .openBracket) = none)
    (hn : c.entryName = .ok name) (ih : (Phrase.entryValue value).Moves m tokens name.next d) :
    (Phrase.entry (.member name.value.1 name.value.2 value)).Moves m tokens c d := by
  intro hc _
  have hn := entryName_eq_ok_iff.1 hn
  exact .entryMember (accept?_none hb) (entryName_eq_ok_iff.2 (.move hc hm hn)) (ih (hc.leads hn.passes) trivial)

end Phrase.Moves

open Cursor in
/-- What is read from tokens is read from relocated tokens, relocated. -/
theorem Reads.move {m : Relocation} {tokens : List Token} (hm : m.Suits tokens) {phrase : Phrase} {c d : Cursor}
    (h : Reads phrase c d) : c.Over tokens → phrase.Begins tokens →
      Reads (phrase.move m) (NavCheck.move m c) (NavCheck.move m d) := by
  induction h with
  | assignEnd _ hd ih => exact fun hc hb => (ih hc trivial).assignEnd (accept?_none hd)
  | assign h₁ hd h₂ ih₁ ih₂ =>
    intro hc _
    have hs := (h₁.over hc).accept hd
    have h := (ih₁ hc trivial).assign (accept?_some hd) (ih₂ hs trivial)
    rwa [hc.spanTo (h₂.over hs) hm] at h
  | conditionalEnd _ hd ih => exact fun hc hb => (ih hc trivial).conditionalEnd (accept?_none hd)
  | conditional h₁ hq h₂ hk h₃ ih₁ ih₂ ih₃ => exact Phrase.Moves.conditional hm h₁ hq h₂ hk h₃ ih₁ ih₂ ih₃
  | binary h₁ _ ih₁ ih₂ => exact fun hc _ => (ih₁ hc trivial).binary (ih₂ (h₁.over hc) hc)
  | operatorsEnd ho => exact fun hc hs => .operatorsEnd (none_of_map (binOp?_move m _ _) ho)
  | operators ho h₁ _ ih₁ ih₂ => exact Phrase.Moves.operators hm ho h₁ ih₁ ih₂
  | unary ho h₁ ih =>
    intro hc _
    have hn := hc.passes (passes_unOp? ho).choose_spec
    have h := Reads.unary (some_of_map (unOp?_move m _) ho) (ih hn trivial)
    rwa [hc.spanTo (h₁.over hn) hm] at h
  | postfixed ho h₁ _ ih₁ ih₂ =>
    exact fun hc _ => .postfixed (none_of_map (unOp?_move m _) ho) (ih₁ hc trivial) (ih₂ (h₁.over hc) hc)
  | accessesEnd ha => exact fun hc hs => .accessesEnd (none_of_map (accessStart?_move hc hm _) ha)
  | accesses ha h₁ _ ih₁ ih₂ => exact Phrase.Moves.accesses hm ha h₁ ih₁ ih₂
  | member hn => exact fun hc _ => .member (memberName_eq_ok_iff.2 (.move hc hm (memberName_eq_ok_iff.1 hn)))
  | @element guarded indices c d hs _ ih =>
    intro hc _
    show Reads (.link .bracket guarded (NavCheck.move m (Link.element indices))) _ _
    rw [Link.move_element]
    exact .element (by rw [sees_move, hs]) (ih hc trivial)
  | @invoke guarded args c d _ ih =>
    intro hc _
    show Reads (.link .paren guarded (NavCheck.move m (Link.invoke args))) _ _
    rw [Link.move_invoke]
    exact .invoke (ih hc trivial)
  | listEnd _ hd ih => exact fun hc _ => (ih hc trivial).listEnd (accept?_none hd)
  | list h₁ hk _ ih₁ ih₂ =>
    exact fun hc _ => (ih₁ hc trivial).list (accept?_some hk) (ih₂ ((h₁.over hc).accept hk) trivial)
  | bracketed _ hk ih => exact fun hc _ => (ih hc trivial).bracketed (accept?_some hk)
  | argsEnd hk => exact fun hc _ => .argsEnd (accept?_some hk)
  | args hk _ ih => exact fun hc _ => .args (accept?_none hk) (ih hc trivial)
  | name ht hs => exact fun hc _ => .name (accept?_some ht) (by rw [← hs]; exact sees_move m _ _)
  | shortLambda ht hs _ ih =>
    exact fun hc _ => .shortLambda (accept?_some ht) (by rw [← hs]; exact sees_move m _ _) (ih (hc.accept ht) hc)
  | literal ht hv => exact fun hc _ => .literal (some_of_map (next?_move m _) ht) hv
  | self ht => exact fun hc _ => .self (accept?_some ht)
  | create ht _ ih => exact fun hc _ => .create (accept?_some ht) (ih (hc.accept ht) hc)
  | longLambda ht ho hp _ ih => exact Phrase.Moves.longLambda hm ht ho hp ih
  | paren ht ho h₁ hk ih => exact Phrase.Moves.paren hm ht ho h₁ hk ih
  | lambda hr h₁ ih => exact Phrase.Moves.lambda hm hr h₁ ih
  | createArgs ht ho h₁ hb ih => exact Phrase.Moves.createArgs hm ht ho h₁ hb ih
  | createBoth ht ho h₁ hb h₂ ih₁ ih₂ => exact Phrase.Moves.createBoth hm ht ho h₁ hb h₂ ih₁ ih₂
  | createEntries ht ho hb h₁ ih => exact Phrase.Moves.createEntries hm ht ho hb h₁ ih
  | entriesEnd hk => exact fun hc _ => .entriesEnd (accept?_some hk)
  | entriesLast hb _ hd hk ih =>
    exact fun hc _ => .entriesLast (accept?_none hb) (ih hc trivial) (accept?_none hd) (accept?_some hk)
  | entries hb h₁ hk _ ih₁ ih₂ =>
    exact fun hc _ => .entries (accept?_none hb) (ih₁ hc trivial) (accept?_some hk) (ih₂ ((h₁.over hc).accept hk) trivial)
  | entryElement hb hs h₁ _ ih₁ ih₂ => exact Phrase.Moves.entryElement hm hb hs h₁ ih₁ ih₂
  | entryMember hb hn _ ih => exact Phrase.Moves.entryMember hm hb hn ih
  | entryValue hs _ ih => exact fun hc _ => .entryValue (accept?_some hs) (ih (hc.accept hs) trivial)

namespace Expr

variable {m : Relocation} {tokens : List Token} {c : Cursor}

/-- An expression that is read is read from relocated tokens, relocated. -/
theorem readAssign_ok (hm : m.Suits tokens) (hc : c.Over tokens) {p : Parsed Expr c} (h : readAssign 0 c = .ok p) :
    readAssign 0 (move m c) = .ok (p.move m) := by
  obtain ⟨_, h⟩ := ((reads_of_readAssign 0 c p h).move hm hc trivial).isRead
  exact h

/-- Where no expression is read, none is read from relocated tokens. -/
theorem readAssign_error (hm : m.Suits tokens) (hc : c.Over tokens) {e : ExprError} (h : readAssign 0 c = .error e) :
    ∃ e', readAssign 0 (move m c) = .error e' := by
  cases hr : readAssign 0 (move m c) with
  | error e' => exact ⟨e', rfl⟩
  | ok p =>
    obtain ⟨x, d, hx, -⟩ := (reads_of_readAssign 0 _ p hr).alike c (hc.alike hm).symm
    obtain ⟨_, hx⟩ := hx.isRead
    rw [h] at hx
    cases hx

end Expr

end NavCheck
