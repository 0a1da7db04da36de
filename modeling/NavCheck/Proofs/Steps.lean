import NavCheck.Proofs.Derivation
import NavCheck.Proofs.Scanning

/-!
# Steps over known tokens

What the small steps of the parser do when the tokens ahead are known: marks and names are passed, types, member names and
parameters are read as they are written, and nothing is passed where the next token cannot go on with what was read.
-/

namespace NavCheck

/-- Whether the first of some tokens, if there is one, has a property. -/
def Heads (ok : Token → Bool) (tokens : List Token) : Prop :=
  ∀ t ∈ tokens.head?, ok t = true

/-- No tokens have any property at their head. -/
@[simp]
theorem heads_nil (ok : Token → Bool) : Heads ok [] := by
  simp [Heads]

/-- The head of tokens is the first of them. -/
@[simp]
theorem heads_cons (ok : Token → Bool) (t : Token) (ts : List Token) : Heads ok (t :: ts) ↔ ok t = true := by
  simp [Heads]

/-- A head with a property has the weaker ones. -/
theorem Heads.imp {ok ok' : Token → Bool} (h : ∀ t : Token, ok t = true → ok' t = true) {ts : List Token} (hs : Heads ok ts) :
    Heads ok' ts :=
  fun t ht => h t (hs t ht)

namespace Token

/-- Whether an expression ends in front of the token whatever it is: a closing bracket, a comma or a colon. -/
def ends (t : Token) : Bool :=
  match t.kind with
  | .punct mark => mark.closes || mark == .comma || mark == .colon
  | _ => false

/-- Whether the token cannot go on with a primary expression: it is neither an arrow nor an opening brace. -/
def parts (t : Token) : Bool :=
  t.kind != .sign .arrow && t.kind != .punct .openBrace

/-- Whether the token cannot go on with a type. -/
def endsType (t : Token) : Bool :=
  !(t.isMark .question || t.isMark .openBracket || t.isSign .less)

/-- A token that ends expressions is of no kind that does not. -/
theorem kind_ne_of_ends {t : Token} (h : t.ends = true) {kind : TokenKind} (hk : ∀ u : Token, u.kind = kind → u.ends = false) :
    t.kind ≠ kind := by
  intro he
  rw [hk t he] at h
  cases h

/-- A token that ends expressions goes on with no primary expression. -/
theorem parts_of_ends {t : Token} (h : t.ends = true) : t.parts = true := by
  unfold ends at h
  unfold parts
  split at h
  · rename_i mark hk
    rw [hk]
    cases mark <;> simp_all [Punct.closes]
  · cases h

end Token

namespace Cursor

variable {c : Cursor} {t : Token} {ts : List Token}

/-- The next token is the first one ahead. -/
theorem next?_of_ahead (h : c.ahead = t :: ts) : ∃ p : Parsed Token c, c.next? = some p ∧ p.value = t ∧ p.next.ahead = ts := by
  obtain ⟨passed, ahead⟩ := c
  cases h
  exact ⟨_, rfl, rfl, rfl⟩

/-- A cursor in front of a token of a kind accepts it. -/
theorem accept?_of_ahead (kind : TokenKind) (h : c.ahead = t :: ts) (hk : t.kind = kind) :
    ∃ p : Parsed Token c, c.accept? kind = some p ∧ p.value = t ∧ p.next.ahead = ts := by
  obtain ⟨p, hp, hv, ha⟩ := next?_of_ahead h
  exact ⟨p, accept?_of_next? hp (hv ▸ hk), hv, ha⟩

/-- A cursor in front of another kind of token, or of none, accepts nothing. -/
theorem accept?_eq_none {kind : TokenKind} (h : Heads (fun t => t.kind != kind) c.ahead) : c.accept? kind = none := by
  obtain ⟨passed, ahead⟩ := c
  cases ahead with
  | nil => rfl
  | cons t ts =>
    obtain ⟨p, hp, hv, -⟩ := next?_of_ahead (c := ⟨passed, t :: ts⟩) rfl
    unfold accept?
    rw [hp]
    exact if_neg (by simpa [hv] using h)

/-- A cursor in front of another kind of token, or of none, does not see the kind. -/
theorem sees_eq_false {kind : TokenKind} (h : Heads (fun t => t.kind != kind) c.ahead) : c.sees kind = false := by
  obtain ⟨passed, ahead⟩ := c
  cases ahead with
  | nil => rfl
  | cons t ts => simpa [sees] using h

/-- A cursor in front of a token of a kind sees it. -/
theorem sees_of_ahead {kind : TokenKind} (h : c.ahead = t :: ts) (hk : t.kind = kind) : c.sees kind = true := by
  simp [sees, h, hk]

/-- A cursor in front of the closing mark of a place reads it. -/
theorem close_of_ahead (place : ClosePlace) (h : c.ahead = t :: ts) (hk : t.kind = .punct place.mark) :
    ∃ p : Parsed Token c, c.close place = .ok p ∧ p.next.ahead = ts := by
  obtain ⟨p, hp, -, ha⟩ := accept?_of_ahead _ h hk
  exact ⟨p, by rw [close, hp], ha⟩

/-- A cursor in front of a name reads it. -/
theorem nameAt_of_ahead {name : String} (place : NamePlace) (h : c.ahead = .ofName name :: ts) :
    ∃ p : Parsed Token c, c.nameAt place = .ok p ∧ p.value = .ofName name ∧ p.next.ahead = ts := by
  obtain ⟨p, hp, hv, ha⟩ := accept?_of_ahead .name h rfl
  exact ⟨p, by rw [nameAt, hp], hv, ha⟩

/-! ## Operators and accesses -/

/-- A cursor in front of the sign of an operator that binds tightly enough reads the operator. -/
theorem binOp?_of_ahead {op : BinOp} {least : Nat} (h : c.ahead = .ofSign op.sign :: ts) (hl : least ≤ op.precedence) :
    ∃ p : Parsed BinOp c, c.binOp? least = some p ∧ p.value = op ∧ p.next.ahead = ts := by
  obtain ⟨p, hp, hv, ha⟩ := next?_of_ahead h
  have ho : p.value.binOp? = some op := by
    rw [hv]
    exact (BinOp.ofSign?_eq_some_iff _ _).2 rfl
  refine ⟨⟨op, p.next, p.shorter⟩, ?_, rfl, ha⟩
  unfold binOp?
  simp only [hp, ho]
  rw [if_neg (Nat.not_lt.2 hl)]

/-- A cursor in front of no operator that binds tightly enough reads none. -/
theorem binOp?_eq_none {least : Nat} (h : ∀ t ∈ c.ahead.head?, ∀ op ∈ t.binOp?, op.precedence < least) :
    c.binOp? least = none := by
  obtain ⟨passed, ahead⟩ := c
  cases ahead with
  | nil => rfl
  | cons t ts =>
    obtain ⟨p, hp, hv, -⟩ := next?_of_ahead (c := ⟨passed, t :: ts⟩) rfl
    unfold binOp?
    rw [hp]
    dsimp only
    rw [hv]
    cases ho : t.binOp? with
    | none => rfl
    | some op => exact if_pos (h t rfl op ho)

/-- A cursor in front of the sign of a unary operator reads the operator. -/
theorem unOp?_of_ahead {op : UnOp} (h : c.ahead = .ofSign op.sign :: ts) :
    ∃ p : Parsed UnOp c, c.unOp? = some p ∧ p.value = op ∧ p.next.ahead = ts := by
  obtain ⟨p, hp, hv, ha⟩ := next?_of_ahead h
  have ho : p.value.unOp? = some op := by
    rw [hv]
    exact (UnOp.ofSign?_eq_some_iff _ _).2 rfl
  refine ⟨⟨op, p.next, p.shorter⟩, ?_, rfl, ha⟩
  unfold unOp?
  simp only [hp, ho, Option.map_some]

/-- A cursor in front of no unary operator reads none. -/
theorem unOp?_eq_none (h : c.ahead = t :: ts) (ht : t.unOp? = none) : c.unOp? = none := by
  obtain ⟨p, hp, hv, -⟩ := next?_of_ahead h
  unfold unOp?
  rw [hp]
  simp [hv, ht]

/-- A cursor in front of no mark of an access reads none. -/
theorem accessMark?_eq_none
    (h : Heads (fun t => !(t.isMark .dot || t.isMark .openBracket || t.isMark .openParen)) c.ahead) : c.accessMark? = none := by
  obtain ⟨passed, ahead⟩ := c
  cases ahead with
  | nil => rfl
  | cons t ts =>
    obtain ⟨p, hp, hv, -⟩ := next?_of_ahead (c := ⟨passed, t :: ts⟩) rfl
    simp only [heads_cons, Bool.not_eq_true', Bool.or_eq_false_iff] at h
    unfold accessMark?
    rw [hp]
    simp [hv, h.1.1, h.1.2, h.2]

end Cursor

/-- Whether no access begins with the tokens. -/
def NoAccess (pending : Nat) (rest : List Token) : Prop :=
  ∀ c : Cursor, c.ahead = rest → c.accessStart? pending = none

namespace NoAccess

variable {pending : Nat} {t : Token} {rest : List Token}

/-- Where the next token begins no access, none begins. -/
theorem of_heads (h : Heads (fun t => !(t.isMark .question || t.isMark .dot || t.isMark .openBracket || t.isMark .openParen))
    rest) : NoAccess pending rest := by
  intro c hc
  subst hc
  unfold Cursor.accessStart?
  rw [Cursor.accept?_eq_none (h.imp fun t ht => by simp_all [Token.isMark])]
  dsimp only
  rw [Cursor.accessMark?_eq_none (h.imp fun t ht => by simp_all), Option.map_none]

/-- No access begins where an expression ends. -/
theorem of_ends (h : Heads Token.ends rest) : NoAccess pending rest := by
  refine of_heads (h.imp fun t ht => ?_)
  unfold Token.ends at ht
  unfold Token.isMark
  split at ht
  · rename_i mark hk
    rw [hk]
    cases mark <;> simp_all [Punct.closes]
  · cases ht

/-- No access begins with a sign. -/
theorem of_sign {sign : Sign} (hk : t.kind = .sign sign) : NoAccess pending (t :: rest) := by
  refine of_heads ?_
  simp [Token.isMark, hk]

/-- The `?` of a conditional begins no access: what follows is an operand, and no parenthesis unless a `:` pairs with it. -/
theorem of_question (hq : t.kind = .punct .question) {u : Token} {us : List Token} (hu : u.startsOperand = true)
    (hp : u.isMark .openParen = true → guards pending (u :: us) = false) : NoAccess pending (t :: u :: us) := by
  intro c hc
  obtain ⟨q, hq, -, ha⟩ := Cursor.accept?_of_ahead _ hc hq
  unfold Cursor.accessStart?
  rw [hq]
  dsimp only
  have hm : u.isMark .dot = false ∧ u.isMark .openBracket = false := by
    unfold Token.startsOperand at hu
    unfold Token.isMark
    split at hu <;> simp_all
  obtain ⟨p, hn, hv, -⟩ := Cursor.next?_of_ahead ha
  cases hparen : u.isMark .openParen with
  | false =>
    rw [Cursor.accessMark?_eq_none (by simp [ha, hm, hparen])]
  | true =>
    have hstart : q.next.accessMark? = some ⟨.paren, p.next, p.shorter⟩ := by
      unfold Cursor.accessMark?
      rw [hn]
      simp [hv, hm, hparen]
    rw [hstart]
    exact if_pos ⟨rfl, by rw [ha]; exact hp hparen⟩

end NoAccess

/-- The mark that a link begins with. -/
def Link.start : Link → AccessStart
  | .member _ _ => .dot
  | .element _ => .bracket
  | .invoke _ => .paren

/-- The tokens of a link behind the mark that it begins with. -/
def Link.innerTokens (link : Link) : List Token :=
  link.tokens.tail

namespace Cursor

/-- A cursor in front of a link reads its mark. -/
theorem accessMark?_of_link {c : Cursor} (link : Link) {rest : List Token} (h : c.ahead = link.tokens ++ rest) :
    ∃ p : Parsed AccessStart c, c.accessMark? = some p ∧ p.value = link.start ∧ p.next.ahead = link.innerTokens ++ rest := by
  have htok : ∃ mark : Punct, link.tokens = .ofMark mark :: link.innerTokens ∧
      (mark = .dot ∧ link.start = .dot ∨ mark = .openBracket ∧ link.start = .bracket ∨
        mark = .openParen ∧ link.start = .paren) := by
    cases link with
    | member name span => exact ⟨.dot, rfl, .inl ⟨rfl, rfl⟩⟩
    | element indices => exact ⟨.openBracket, rfl, .inr (.inl ⟨rfl, rfl⟩)⟩
    | invoke args => exact ⟨.openParen, rfl, .inr (.inr ⟨rfl, rfl⟩)⟩
  obtain ⟨mark, ht, hmark⟩ := htok
  rw [ht, List.cons_append] at h
  obtain ⟨p, hp, hv, ha⟩ := next?_of_ahead h
  refine ⟨⟨link.start, p.next, p.shorter⟩, ?_, rfl, ha⟩
  unfold accessMark?
  rw [hp]
  rcases hmark with ⟨rfl, hs⟩ | ⟨rfl, hs⟩ | ⟨rfl, hs⟩ <;> simp [hv, hs, Token.isMark, Token.ofMark]

/-- A written access begins with its `?`, if it has one, and its mark. -/
theorem accessStart?_of_link {c : Cursor} (guarded : Bool) (link : Link) {pending : Nat} {rest : List Token}
    (h : c.ahead = (if guarded then [.ofMark .question] else []) ++ link.tokens ++ rest)
    (hg : guarded = true → link.start = .paren → guards pending (link.tokens ++ rest) = true) :
    ∃ p : Parsed (AccessStart × Bool) c, c.accessStart? pending = some p ∧ p.value = (link.start, guarded) ∧
      p.next.ahead = link.innerTokens ++ rest := by
  unfold accessStart?
  cases guarded with
  | false =>
    obtain ⟨p, hp, hv, ha⟩ := accessMark?_of_link link (by simpa using h)
    have hn : c.accept? (.punct .question) = none := by
      refine accept?_eq_none ?_
      rw [h]
      cases link <;> simp [Link.tokens, Token.ofMark]
    rw [hn]
    simp only [hp, hv, Option.map_some]
    exact ⟨_, rfl, rfl, ha⟩
  | true =>
    have hahead : c.ahead = .ofMark .question :: (link.tokens ++ rest) := by simpa using h
    obtain ⟨q, hq, -, haq⟩ := accept?_of_ahead (.punct .question) hahead rfl
    obtain ⟨p, hp, hv, ha⟩ := accessMark?_of_link link haq
    rw [hq]
    dsimp only
    rw [hp]
    dsimp only
    rw [if_neg, hv]
    · exact ⟨_, rfl, rfl, ha⟩
    · rintro ⟨hs, hn⟩
      rw [haq] at hn
      have := hg rfl (hv ▸ hs)
      rw [guards, hn] at this
      cases this

/-! ## Names -/

/-- The name behind a dollar sign; written tokens touch each other. -/
theorem dollarName_of_ahead {c : Cursor} {name : String} {rest : List Token} (h : c.ahead = .ofName name :: rest) :
    ∃ p : Parsed (MemberName × Span) c, c.dollarName (.ofMark .dollar) = .ok p ∧ p.value.1 = .keyed name ∧
      p.next.ahead = rest := by
  obtain ⟨p, hp, hv, ha⟩ := next?_of_ahead h
  unfold dollarName
  simp only [hp, hv]
  exact ⟨_, rfl, rfl, ha⟩

/-- A written member name is read as it is. -/
theorem passesName_of_ahead {c : Cursor} (name : MemberName) (place : NamePlace) {rest : List Token}
    (h : c.ahead = name.tokens ++ rest) :
    ∃ p : Parsed (MemberName × Span) c, c.PassesName place p ∧ p.value.1 = name ∧ p.next.ahead = rest := by
  cases name with
  | plain name =>
    obtain ⟨p, hp, hv, ha⟩ := nameAt_of_ahead place h
    have hd : c.accept? (.punct .dollar) = none := accept?_eq_none (by rw [h]; simp [MemberName.tokens, Token.ofName])
    exact ⟨_, .plain hd hp, by rw [hv]; rfl, ha⟩
  | keyed name =>
    obtain ⟨d, hd, hdv, hda⟩ := accept?_of_ahead (.punct .dollar) h rfl
    obtain ⟨p, hp, hv, ha⟩ := dollarName_of_ahead hda
    exact ⟨_, .keyed hd (hdv ▸ hp), hv, ha⟩

end Cursor

/-! ## Types -/

namespace TypeExpr

/-- Suffixes that the lexer keeps apart are read as they are written. -/
theorem scanSuffixes_tokens {suffixes : List TypeSuffix} (hf : ArraysFirst suffixes)
    (hd : TypeSuffix.doubled suffixes = false) {rest : List Token} (hr : Heads Token.endsType rest)
    (hg : suffixes.getLast? = some .nullable → guardsAccess rest = false) (last : Span) :
    ∃ last', scanSuffixes last (suffixTokens suffixes ++ rest) = (suffixes, last', rest) := by
  have stop : ∀ last, scanSuffixes last rest = ([], last, rest) := by
    intro last
    cases rest with
    | nil => rfl
    | cons t ts =>
      simp only [heads_cons, Token.endsType, Bool.not_eq_true', Bool.or_eq_false_iff] at hr
      rw [scanSuffixes.eq_def]
      simp [hr.1.1, hr.1.2]
  fun_induction suffixTokens suffixes generalizing last with
  | case1 => cases hd
  | case2 suffixes hn ih =>
    have : suffixes = [] := by
      rcases suffixes with _ | ⟨s, suffixes⟩
      · rfl
      · cases hf s List.mem_cons_self
        exact absurd rfl (hn _)
    subst this
    refine ⟨default, ?_⟩
    rw [suffixTokens, List.cons_append, List.nil_append, scanSuffixes.eq_def]
    simp [Token.isMark, Token.ofMark, hg rfl, stop]
  | case3 suffixes ih =>
    have hlast : suffixes.getLast? = some .nullable → guardsAccess rest = false := by
      intro h
      refine hg ?_
      rw [List.getLast?_cons, h]
      rfl
    obtain ⟨last', h⟩ := ih hf (by simpa [TypeSuffix.doubled] using hd) hlast default
    refine ⟨last', ?_⟩
    rw [List.cons_append, List.cons_append, scanSuffixes.eq_def]
    simp only [Token.isMark, Token.ofMark]
    simp [h]
  | case4 => exact ⟨last, stop last⟩

/-- Suffixes do not begin with an angle bracket. -/
theorem isSign_less_suffixTokens (suffixes : List TypeSuffix) {rest : List Token} (hr : Heads Token.endsType rest) :
    Heads (fun t => !t.isSign .less) (suffixTokens suffixes ++ rest) := by
  have hrest : Heads (fun t => !t.isSign .less) rest := hr.imp fun t ht => by simp_all [Token.endsType]
  unfold suffixTokens
  split
  case h_4 => exact hrest
  all_goals simp [Token.isSign, Token.ofMark, Token.ofSign]

/-- Where no angle bracket stands, no arguments are read. -/
theorem scanArgs?_none (last : Span) {tokens : List Token} (h : Heads (fun t => !t.isSign .less) tokens) :
    scanArgs? last tokens = some ([], last, ⟨tokens, Nat.le_refl _⟩) := by
  cases tokens with
  | nil => rw [scanArgs?]
  | cons t ts =>
    rw [scanArgs?, if_neg]
    simpa using h

/-- Behind a comma more arguments are read. -/
theorem scanArgList?_comma {tokens : List Token} {arg : TypeScan TypeExpr tokens} (h : scan? tokens = some arg) {t : Token}
    {rest : List Token} (hr : arg.rest = t :: rest) (ht : t.isMark .comma = true) {more : TypeScan (List TypeExpr) rest}
    (hm : scanArgList? rest = some more) :
    ∃ s, scanArgList? tokens = some s ∧ s.value = arg.value :: more.value ∧ s.rest = more.rest := by
  rw [scanArgList?, h]
  dsimp only
  split
  · simp_all
  · rename_i u us hu
    cases hr.symm.trans hu
    rw [if_pos ht, hm]
    exact ⟨_, rfl, rfl, rfl⟩

/-- In front of the closing angle bracket stands the last argument. -/
theorem scanArgList?_greater {tokens : List Token} {arg : TypeScan TypeExpr tokens} (h : scan? tokens = some arg) {t : Token}
    {rest : List Token} (hr : arg.rest = t :: rest) (hc : t.isMark .comma = false) (ht : t.isSign .greater = true) :
    ∃ s, scanArgList? tokens = some s ∧ s.value = [arg.value] ∧ s.rest = rest := by
  rw [scanArgList?, h]
  dsimp only
  split
  · simp_all
  · rename_i u us hu
    cases hr.symm.trans hu
    rw [if_neg (by simp [hc]), if_pos ht]
    exact ⟨_, rfl, rfl, rfl⟩

mutual

/-- A written type is read as it is. -/
theorem scan?_tokens : ∀ t : TypeExpr, t.Fits → t.doubled = false → ∀ {rest : List Token}, Heads Token.endsType rest →
    (t.endsNullable = true → guardsAccess rest = false) → ∀ tokens, tokens = t.tokens ++ rest →
    ∃ s : TypeScan TypeExpr tokens, scan? tokens = some s ∧ s.value.erased = t.erased ∧ s.rest = rest
  | ⟨name, args, suffixes, _⟩, ⟨_, ha, hs⟩, hd, rest, hr, hg, tokens, ht => by
    simp only [TypeExpr.doubled, Bool.or_eq_false_iff] at hd
    have hargs : ∀ inner, inner = inAngles args (typeTokens args) ++ suffixTokens suffixes ++ rest →
        ∃ s : List TypeExpr × Span × { left : List Token // left.length ≤ inner.length },
          scanArgs? (Token.ofName name).span inner = some s ∧ erasedTypes s.1 = erasedTypes args ∧
            s.2.2.1 = suffixTokens suffixes ++ rest := by
      intro inner hi
      match args, ha, hd.1 with
      | [], _, _ =>
        subst hi
        exact ⟨_, scanArgs?_none _ (isSign_less_suffixTokens suffixes hr), rfl, rfl⟩
      | arg :: args, ha, hd =>
        simp only [inAngles, List.cons_append, List.append_assoc, List.nil_append] at hi
        subst hi
        obtain ⟨s, hs, he, hrest⟩ := scanArgList?_tokens (arg :: args) (by simp) ha hd
          (typeTokens (arg :: args) ++ .ofSign .greater :: (suffixTokens suffixes ++ rest)) rfl
        rw [scanArgs?, if_pos (by rfl), hs]
        exact ⟨_, rfl, he, hrest⟩
    rw [TypeExpr.tokens, List.cons_append] at ht
    subst ht
    obtain ⟨⟨args', last', rest', hle⟩, hargs, he, hrest⟩ := hargs _ rfl
    cases hrest
    obtain ⟨last, hsuf⟩ := scanSuffixes_tokens hs hd.2 hr (by simpa [endsNullable] using hg) last'
    rw [scan?, if_pos (by rfl), hargs]
    refine ⟨_, rfl, ?_, congrArg (·.2.2) hsuf⟩
    have hsuf : (scanSuffixes last' (suffixTokens suffixes ++ rest)).1 = suffixes := congrArg (·.1) hsuf
    simp only [TypeExpr.erased, TypeExpr.mk.injEq, and_true]
    exact ⟨rfl, he, hsuf⟩

/-- Written types with commas between them are read as they are. -/
theorem scanArgList?_tokens : ∀ ts : List TypeExpr, ts ≠ [] → TypesFit ts → typesDoubled ts = false →
    ∀ {rest : List Token} (tokens : List Token), tokens = typeTokens ts ++ .ofSign .greater :: rest →
    ∃ s : TypeScan (List TypeExpr) tokens, scanArgList? tokens = some s ∧ erasedTypes s.value = erasedTypes ts ∧ s.rest = rest
  | [], hn, _, _, _, _, _ => absurd rfl hn
  | [t], _, ⟨ht, _⟩, hd, rest, tokens, he => by
    simp only [typesDoubled, Bool.or_false] at hd
    simp only [typeTokens, behindComma, List.append_nil] at he
    obtain ⟨arg, harg, ha, hrest⟩ := scan?_tokens t ht hd (by rw [heads_cons]; rfl) (fun _ => rfl) tokens he
    obtain ⟨s, hs, hv, hr⟩ := scanArgList?_greater harg hrest rfl rfl
    exact ⟨s, hs, by rw [hv, erasedTypes, erasedTypes, ha]; rfl, hr⟩
  | t :: u :: ts, _, ⟨ht, hts⟩, hd, rest, tokens, he => by
    rw [typesDoubled, Bool.or_eq_false_iff] at hd
    rw [typeTokens, behindComma, List.append_assoc, List.cons_append] at he
    obtain ⟨arg, harg, ha, hrest⟩ := scan?_tokens t ht hd.1 (by rw [heads_cons]; rfl) (fun _ => rfl) tokens he
    obtain ⟨more, hm, hme, hmr⟩ := scanArgList?_tokens (u :: ts) (by simp) hts hd.2 _ rfl
    obtain ⟨s, hs, hv, hr⟩ := scanArgList?_comma harg hrest rfl hm
    exact ⟨s, hs, by rw [hv, erasedTypes, erasedTypes, ha, hme], hr.trans hmr⟩

end

end TypeExpr

namespace Cursor

variable {c : Cursor}

/-- A written type is passed where it is ahead. -/
theorem type?_of_ahead {t : TypeExpr} (hf : t.Fits) (hd : t.doubled = false) {rest : List Token}
    (hr : Heads Token.endsType rest) (hg : t.endsNullable = true → TypeExpr.guardsAccess rest = false)
    (h : c.ahead = t.tokens ++ rest) :
    ∃ p : Parsed TypeExpr c, c.type? = some p ∧ p.value.erased = t.erased ∧ p.next.ahead = rest := by
  obtain ⟨s, hs, he, hrest⟩ := TypeExpr.scan?_tokens t hf hd hr hg c.ahead h
  refine ⟨⟨s.value, c.advanceTo s.rest, s.shorter⟩, ?_, he, hrest⟩
  rw [type?, hs, Option.map_some]

end Cursor

/-! ## Parameters -/

/-- The types of parameters that are legible show no two `?` next to each other. -/
theorem doubled_of_legible {params : List LambdaParam} (h : ∀ use ∈ paramUses params, use.legible = true) {p : LambdaParam}
    (hp : p ∈ params) : ∀ type ∈ p.type, type.doubled = false := by
  intro type ht
  have hmem : QuestionUse.param type.erased ∈ paramUses params := by
    refine List.mem_filterMap.2 ⟨p, hp, ?_⟩
    rw [Option.mem_def.1 ht, Option.map_some]
  simpa [QuestionUse.legible] using h _ hmem

namespace Cursor

variable {c : Cursor}

/-- A written parameter is read as it is. -/
theorem lambdaParam_of_ahead {p : LambdaParam} (hf : p.Fits) (hd : ∀ type ∈ p.type, type.doubled = false) {t : Token}
    {rest : List Token} (ht : t.ends = true) (h : c.ahead = p.tokens ++ t :: rest) :
    ∃ q : Parsed LambdaParam c, c.lambdaParam = .ok q ∧ q.value.erased = p.erased ∧ q.next.ahead = t :: rest := by
  have hne : t.kind ≠ .name := Token.kind_ne_of_ends ht fun u hu => by simp [Token.ends, hu]
  have hends : Heads Token.endsType (t :: rest) := by
    rw [heads_cons]
    unfold Token.ends at ht
    unfold Token.endsType Token.isMark Token.isSign
    split at ht
    · rename_i mark hk
      rw [hk]
      cases mark <;> simp_all [Punct.closes]
    · cases ht
  obtain ⟨_ | type, name, span⟩ := p
  · -- A name alone reads as a type first, behind which there is no name.
    obtain ⟨q, hq, hv, ha⟩ := nameAt_of_ahead .lambdaParam h
    obtain ⟨s, hs, -, hrest⟩ := type?_of_ahead (t := ⟨name, [], [], default⟩) ⟨hf.2, trivial, trivial⟩ rfl hends
      (by simp [TypeExpr.endsNullable]) h
    have hno : s.next.accept? .name = none := accept?_eq_none (by simpa [hrest] using hne)
    unfold lambdaParam
    simp only [hs, hno, hq]
    exact ⟨_, rfl, by simp [LambdaParam.erased, hv, Token.ofName], ha⟩
  · have hn : Heads Token.endsType (Token.ofName name :: t :: rest) := by
      rw [heads_cons]
      rfl
    simp only [LambdaParam.tokens, Option.elim_some, List.append_assoc] at h
    obtain ⟨s, hs, he, hrest⟩ := type?_of_ahead (hf.1 type rfl) (hd type rfl) hn (fun _ => rfl) h
    obtain ⟨q, hq, hv, ha⟩ := accept?_of_ahead .name hrest rfl
    unfold lambdaParam
    simp only [hs, hq]
    exact ⟨_, rfl, by simp [LambdaParam.erased, hv, he, Token.ofName], ha⟩

/-- Written parameters are read as they are. -/
theorem lambdaParamList_of_ahead : ∀ (params : List LambdaParam), params ≠ [] → (∀ p ∈ params, p.Fits) →
    (∀ p ∈ params, ∀ type ∈ p.type, type.doubled = false) → ∀ {c : Cursor} {rest : List Token},
    c.ahead = paramTokens params ++ .ofMark .closeParen :: rest →
    ∃ q : Parsed (List LambdaParam) c, c.lambdaParamList = .ok q ∧
      q.value.map LambdaParam.erased = params.map LambdaParam.erased ∧ q.next.ahead = .ofMark .closeParen :: rest
  | [], hn, _, _, _, _, _ => absurd rfl hn
  | [p], _, hf, hd, c, rest, h => by
    simp only [paramTokens, behindComma, List.append_nil] at h
    obtain ⟨q, hq, he, ha⟩ := lambdaParam_of_ahead (hf p (by simp)) (hd p (by simp)) (by rfl) h
    rw [lambdaParamList, hq]
    simp only [bind, Except.bind]
    rw [accept?_eq_none (by simp [ha, Token.ofMark])]
    exact ⟨_, rfl, by simp [he], ha⟩
  | p :: p' :: params, _, hf, hd, c, rest, h => by
    rw [paramTokens, behindComma, List.append_assoc, List.cons_append] at h
    obtain ⟨q, hq, he, ha⟩ := lambdaParam_of_ahead (hf p (by simp)) (hd p (by simp)) (by rfl) h
    obtain ⟨comma, hc, -, hca⟩ := accept?_of_ahead (.punct .comma) ha rfl
    obtain ⟨qs, hqs, hes, has⟩ := lambdaParamList_of_ahead (p' :: params) (by simp)
      (fun x hx => hf x (List.mem_cons_of_mem _ hx)) (fun x hx => hd x (List.mem_cons_of_mem _ hx)) hca
    rw [lambdaParamList, hq]
    simp only [bind, Except.bind]
    rw [hc]
    simp only [hqs]
    exact ⟨_, rfl, by rw [List.map_cons, List.map_cons, he, hes], has⟩

/-- Written parameters between parentheses are read as they are. -/
theorem lambdaParams_of_ahead {params : List LambdaParam} (hf : ∀ p ∈ params, p.Fits)
    (hd : ∀ p ∈ params, ∀ type ∈ p.type, type.doubled = false) {rest : List Token}
    (h : c.ahead = paramTokens params ++ .ofMark .closeParen :: rest) :
    ∃ q : Parsed (List LambdaParam) c, c.lambdaParams = .ok q ∧
      q.value.map LambdaParam.erased = params.map LambdaParam.erased ∧ q.next.ahead = rest := by
  unfold lambdaParams
  cases params with
  | nil =>
    obtain ⟨p, hp, -, ha⟩ := accept?_of_ahead (.punct .closeParen) h rfl
    rw [hp]
    exact ⟨_, rfl, rfl, ha⟩
  | cons p params =>
    have hn : c.accept? (.punct .closeParen) = none := by
      refine accept?_eq_none ?_
      obtain ⟨_ | type, name, span⟩ := p
      · simp [h, paramTokens, LambdaParam.tokens, Token.ofName]
      · obtain ⟨u, us, hu, hs⟩ := type.head_tokens
        rw [h, paramTokens, LambdaParam.tokens, Option.elim_some, hu, List.cons_append, List.cons_append, List.cons_append,
          heads_cons]
        unfold Token.startsOperand at hs
        split at hs <;> simp_all
    obtain ⟨q, hq, he, ha⟩ := lambdaParamList_of_ahead (p :: params) (by simp) hf hd h
    obtain ⟨close, hc, hca⟩ := close_of_ahead .lambdaParams ha rfl
    rw [hn, hq]
    simp only [bind, Except.bind, hc]
    exact ⟨_, rfl, he, hca⟩

/-- Behind its parameters a written lambda has an arrow and no block. -/
theorem lambdaArrow_of_ahead {t : Token} {ts : List Token} (h : c.ahead = .ofSign .arrow :: t :: ts)
    (ht : t.startsOperand = true) : ∃ p : Parsed Token c, c.lambdaArrow = .ok p ∧ p.next.ahead = t :: ts := by
  obtain ⟨p, hp, -, ha⟩ := accept?_of_ahead (.sign .arrow) h rfl
  have hn : p.next.sees (.punct .openBrace) = false := by
    refine sees_eq_false ?_
    rw [ha, heads_cons]
    unfold Token.startsOperand at ht
    split at ht <;> simp_all
  unfold lambdaArrow
  rw [hp]
  exact ⟨p, if_neg (by simp [hn]), ha⟩

/-- Whether a parenthesis opens the parameters of a lambda is told by what stands behind it. -/
theorem opensLambda_of_ahead {ts : List Token} (hb : Balanced ts) {rest : List Token}
    (h : c.ahead = .ofMark .openParen :: (ts ++ .ofMark .closeParen :: rest)) :
    c.opensLambda = rest.head?.any (·.isSign .arrow) := by
  unfold opensLambda
  rw [h, behindClose?_open rfl, hb.behindClose?, behindClose?_close rfl, if_pos rfl]
  cases rest <;> rfl

end Cursor

end NavCheck
