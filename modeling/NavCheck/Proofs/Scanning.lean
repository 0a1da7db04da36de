import NavCheck.Proofs.Legible
import NavCheck.Proofs.Spelling

/-!
# Looking ahead over written tokens

The parser looks ahead twice: for the end of a bracket, to tell a lambda from a parenthesis, and for the `:` of a conditional,
to tell its `?` from a guard. Brackets of written expressions are balanced, so both pass over what is inside them. Outside of
them the `:` of a written conditional balances its `?`; what does not come out even is what `Expr.strays` says.
-/

namespace NavCheck

namespace Token

/-- Does the token open a bracket? -/
def opens (t : Token) : Bool :=
  match t.kind with
  | .punct mark => mark.opens
  | _ => false

/-- Does the token close a bracket? -/
def closes (t : Token) : Bool :=
  match t.kind with
  | .punct mark => mark.closes
  | _ => false

/-- Whether the search for a `:` passes over the token: it is no bracket, comma, semicolon, colon or `?`. -/
def isQuiet (t : Token) : Bool :=
  match t.kind with
  | .punct .dot | .punct .dollar => true
  | .punct _ => false
  | _ => true

end Token

/-! ## Brackets -/

/-- Tokens in which every bracket is closed. -/
inductive Balanced : List Token → Prop
  | nil : Balanced []
  | token {t} : t.opens = false → t.closes = false → Balanced [t]
  | bracket {o c ts} : o.opens = true → c.closes = true → Balanced ts → Balanced (o :: (ts ++ [c]))
  | append {ts us} : Balanced ts → Balanced us → Balanced (ts ++ us)

/-- The search for the end of a bracket passes over any other token. -/
theorem behindClose?_plain {t : Token} (ho : t.opens = false) (hc : t.closes = false) (depth : Nat) (rest : List Token) :
    behindClose? depth (t :: rest) = behindClose? depth rest := by
  rw [NavCheck.behindClose?.eq_def]
  dsimp only
  unfold Token.opens at ho
  unfold Token.closes at hc
  split
  · rename_i mark hk
    simp only [hk] at ho hc
    simp [ho, hc]
  · rfl

/-- It goes one bracket deeper at one that opens. -/
theorem behindClose?_open {t : Token} (ho : t.opens = true) (depth : Nat) (rest : List Token) :
    behindClose? depth (t :: rest) = behindClose? (depth + 1) rest := by
  rw [NavCheck.behindClose?.eq_def]
  dsimp only
  unfold Token.opens at ho
  split
  · rename_i mark hk
    simp only [hk] at ho
    simp [ho]
  · simp_all

/-- It ends with the bracket that it began with, and comes out of any other one. -/
theorem behindClose?_close {t : Token} (hc : t.closes = true) (depth : Nat) (rest : List Token) :
    behindClose? (depth + 1) (t :: rest) = if depth = 0 then some rest else behindClose? depth rest := by
  rw [NavCheck.behindClose?.eq_def]
  dsimp only
  unfold Token.closes at hc
  split
  · rename_i mark hk
    simp only [hk] at hc
    have ho : mark.opens = false := by cases mark <;> simp_all [Punct.opens, Punct.closes]
    cases depth <;> simp [ho, hc]
  · simp_all

/-- The search for the end of a bracket passes over balanced tokens. -/
theorem Balanced.behindClose? {ts : List Token} (h : Balanced ts) (depth : Nat) (rest : List Token) :
    behindClose? (depth + 1) (ts ++ rest) = NavCheck.behindClose? (depth + 1) rest := by
  induction h generalizing depth rest with
  | nil => rfl
  | token ho hc => exact behindClose?_plain ho hc _ _
  | bracket ho hc _ ih =>
    rw [List.cons_append, List.append_assoc, behindClose?_open ho, ih, List.singleton_append, behindClose?_close hc]
    simp
  | append _ _ ih₁ ih₂ => rw [List.append_assoc, ih₁, ih₂]

namespace Balanced

variable {ts us : List Token}

/-- A token that is no bracket, and balanced tokens. -/
theorem cons {t : Token} (ho : t.opens = false) (hc : t.closes = false) (h : Balanced ts) : Balanced (t :: ts) :=
  append (token ho hc) h

/-- Brackets around balanced tokens, and balanced tokens behind them. -/
theorem wrap {o c : Token} (ho : o.opens = true) (hc : c.closes = true) (h : Balanced ts) (hu : Balanced us) :
    Balanced (o :: (ts ++ c :: us)) := by
  have := append (bracket ho hc h) hu
  rwa [List.cons_append, List.append_assoc, List.singleton_append] at this

/-- A comma between balanced tokens and more of them. -/
theorem comma {α : Type} (more : List α) (h : Balanced ts) : Balanced (behindComma more ts) := by
  cases more with
  | nil => exact .nil
  | cons _ _ => exact h.cons rfl rfl

end Balanced

/-- The suffixes of a type are balanced. -/
theorem balanced_suffixTokens (suffixes : List TypeSuffix) : Balanced (suffixTokens suffixes) := by
  fun_induction suffixTokens suffixes with
  | case1 suffixes ih => exact ih.cons rfl rfl
  | case2 suffixes _ ih => exact ih.cons rfl rfl
  | case3 suffixes ih => exact .wrap rfl rfl .nil ih
  | case4 => exact .nil

mutual

/-- The tokens of a type are balanced. -/
theorem TypeExpr.balanced : ∀ t : TypeExpr, Balanced t.tokens
  | ⟨name, args, suffixes, _⟩ => by
    refine .cons rfl rfl (.append ?_ (balanced_suffixTokens suffixes))
    cases args with
    | nil => exact .nil
    | cons t args => exact .cons rfl rfl (.append (balanced_typeTokens (t :: args)) (.token rfl rfl))

/-- The tokens of types in a row are balanced. -/
theorem balanced_typeTokens : ∀ ts : List TypeExpr, Balanced (typeTokens ts)
  | [] => .nil
  | t :: ts => .append t.balanced (.comma ts (balanced_typeTokens ts))

end

/-- The tokens of a parameter of a lambda are balanced. -/
theorem LambdaParam.balanced (p : LambdaParam) : Balanced p.tokens := by
  obtain ⟨_ | type, name, span⟩ := p
  · exact .token rfl rfl
  · exact .append type.balanced (.token rfl rfl)

/-- The tokens of parameters in a row are balanced. -/
theorem balanced_paramTokens (params : List LambdaParam) : Balanced (paramTokens params) := by
  induction params with
  | nil => exact .nil
  | cons p params ih => exact .append p.balanced (.comma params ih)

/-- The tokens of the parameters of a lambda are balanced, with parentheses or without. -/
theorem balanced_lambdaParamsTokens (params : List LambdaParam) : Balanced (lambdaParamsTokens params) := by
  unfold lambdaParamsTokens
  split
  · exact .token rfl rfl
  · exact .bracket rfl rfl (balanced_paramTokens params)

/-- The tokens of a member name are balanced. -/
theorem MemberName.balanced (name : MemberName) : Balanced name.tokens := by
  cases name with
  | plain name => exact .token rfl rfl
  | keyed name => exact .cons rfl rfl (.token rfl rfl)

/-- Braces around balanced tokens are balanced. -/
theorem balanced_inBraces (entries : List Entry) {ts : List Token} (h : Balanced ts) : Balanced (inBraces entries ts) := by
  cases entries with
  | nil => exact .nil
  | cons _ _ => exact .bracket rfl rfl h

/-- The search passes over literals. -/
theorem Literal.isQuiet_token (value : Literal) : value.token.isQuiet = true := by
  cases value with
  | bool b => cases b <;> rfl
  | _ => rfl

/-- What the search passes over is no bracket. -/
theorem Token.plain_of_isQuiet {t : Token} (h : t.isQuiet = true) : t.opens = false ∧ t.closes = false := by
  unfold Token.isQuiet at h
  unfold Token.opens Token.closes
  split at h <;> simp_all [Punct.opens, Punct.closes]

/-- A token that the search passes over, and balanced tokens. -/
theorem Balanced.quiet {t : Token} (hq : t.isQuiet = true) {ts : List Token} (h : Balanced ts) : Balanced (t :: ts) :=
  h.cons (Token.plain_of_isQuiet hq).1 (Token.plain_of_isQuiet hq).2

mutual

/-- Every bracket of a written expression is closed. -/
theorem Expr.balanced : ∀ e : Expr, Balanced e.tokens
  | .literal value _ => .quiet value.isQuiet_token .nil
  | .name _ _ | .self _ => .token rfl rfl
  | .unary _ operand _ => operand.balanced.cons rfl rfl
  | .binary _ left right _ => left.balanced.append (right.balanced.cons rfl rfl)
  | .conditional condition thenBranch elseBranch _ =>
    condition.balanced.append (.cons rfl rfl (thenBranch.balanced.append (elseBranch.balanced.cons rfl rfl)))
  | .assign target value _ => target.balanced.append (value.balanced.cons rfl rfl)
  | .lambda params body _ => (balanced_lambdaParamsTokens params).append (body.balanced.cons rfl rfl)
  | .paren inner _ => inner.balanced.bracket rfl rfl
  | .access base link false _ => base.balanced.append link.balanced
  | .access base link true _ => base.balanced.append (link.balanced.cons rfl rfl)
  | .create type args entries _ =>
    .cons rfl rfl (type.balanced.append (.wrap rfl rfl (balanced_listTokens args)
      (balanced_inBraces entries (balanced_entryTokens entries))))

/-- The tokens of a link are balanced. -/
theorem Link.balanced : ∀ link : Link, Balanced link.tokens
  | .member name _ => name.balanced.cons rfl rfl
  | .element indices => (balanced_listTokens indices).bracket rfl rfl
  | .invoke args => (balanced_listTokens args).bracket rfl rfl

/-- The tokens of expressions in a row are balanced. -/
theorem balanced_listTokens : ∀ es : List Expr, Balanced (listTokens es)
  | [] => .nil
  | e :: es => e.balanced.append (.comma es (balanced_listTokens es))

/-- The tokens of entries in a row are balanced. -/
theorem balanced_entryTokens : ∀ entries : List Entry, Balanced (entryTokens entries)
  | [] => .nil
  | .member name _ value :: entries =>
    name.balanced.append (.cons rfl rfl (value.balanced.append (.comma entries (balanced_entryTokens entries))))
  | .element indices _ value :: entries =>
    .wrap rfl rfl (balanced_listTokens indices)
      (.cons rfl rfl (value.balanced.append (.comma entries (balanced_entryTokens entries))))

end

/-! ## Searching the `:` of a conditional -/

section Search

variable {t : Token} (rest : List Token)

/-- The search behind a `?` goes one bracket deeper at one that opens. -/
theorem questionGuards_open (ho : t.opens = true) (depth questions pending : Nat) :
    questionGuards depth questions pending (t :: rest) = questionGuards (depth + 1) questions pending rest := by
  rw [questionGuards.eq_def]
  dsimp only
  unfold Token.opens at ho
  split
  · rename_i mark hk
    simp only [hk] at ho
    simp [ho]
  · simp_all

/-- Inside of brackets it comes out at one that closes. -/
theorem questionGuards_close (hc : t.closes = true) (depth questions pending : Nat) :
    questionGuards (depth + 1) questions pending (t :: rest) = questionGuards depth questions pending rest := by
  rw [questionGuards.eq_def]
  dsimp only
  unfold Token.closes at hc
  split
  · rename_i mark hk
    simp only [hk] at hc
    have ho : mark.opens = false := by cases mark <;> simp_all [Punct.opens, Punct.closes]
    simp [ho, hc]
  · simp_all

/-- Inside of brackets it passes over any other token. -/
theorem questionGuards_inside (ho : t.opens = false) (hc : t.closes = false) (depth questions pending : Nat) :
    questionGuards (depth + 1) questions pending (t :: rest) = questionGuards (depth + 1) questions pending rest := by
  rw [questionGuards.eq_def]
  dsimp only
  unfold Token.opens at ho
  unfold Token.closes at hc
  split
  · rename_i mark hk
    simp only [hk] at ho hc
    simp [ho, hc]
  · rfl

/-- The search passes over brackets. -/
theorem Balanced.questionGuards {ts : List Token} (h : Balanced ts) (depth questions pending : Nat) :
    questionGuards (depth + 1) questions pending (ts ++ rest) = NavCheck.questionGuards (depth + 1) questions pending rest := by
  induction h generalizing depth rest with
  | nil => rfl
  | token ho hc => exact questionGuards_inside rest ho hc _ _ _
  | bracket ho hc _ ih =>
    rw [List.cons_append, List.append_assoc, questionGuards_open _ ho, ih, List.singleton_append, questionGuards_close _ hc]
  | append _ _ ih₁ ih₂ => rw [List.append_assoc, ih₁, ih₂]

/-- Conditionals that were opened on the way count like those around. -/
theorem questionGuards_add (depth questions pending : Nat) (ts : List Token) :
    questionGuards depth questions pending ts = questionGuards depth 0 (questions + pending) ts := by
  induction ts generalizing depth questions pending with
  | nil => rfl
  | cons t ts ih =>
    rw [questionGuards.eq_def, questionGuards.eq_def _ _ _ (t :: ts)]
    dsimp only
    split
    · rename_i mark hk
      split
      · exact ih _ _ _
      split
      · cases depth with
        | zero => rfl
        | succ d => exact ih _ _ _
      split
      · exact ih _ _ _
      cases mark with
      | question =>
        dsimp only
        split
        · exact ih _ _ _
        · rw [ih depth (questions + 1), ih depth (0 + 1)]
          congr 1
          omega
      | colon =>
        dsimp only
        cases questions with
        | zero =>
          rw [Nat.zero_add]
        | succ q =>
          rw [show q + 1 + pending = q + pending + 1 by omega]
          exact ih _ _ _
      | semicolon | comma => rfl
      | _ => exact ih _ _ _
    · exact ih _ _ _

/-- Whether a `?` in front of the tokens guards an invocation when `n` conditionals wait for their `:`. -/
def guards (n : Nat) (tokens : List Token) : Bool :=
  questionGuards 0 0 n tokens

/-- Without tokens a `?` guards. -/
@[simp]
theorem guards_nil (n : Nat) : guards n [] = true :=
  rfl

/-- Quiet tokens do not matter. -/
theorem guards_quiet (hq : t.isQuiet = true) (n : Nat) : guards n (t :: rest) = guards n rest := by
  unfold guards
  rw [questionGuards.eq_def]
  dsimp only
  unfold Token.isQuiet at hq
  split
  · rename_i mark hk
    cases mark <;> simp_all [Punct.opens, Punct.closes]
  · rfl

/-- The search ends where the brackets do. -/
theorem guards_close (hc : t.closes = true) (n : Nat) : guards n (t :: rest) = true := by
  unfold guards
  rw [questionGuards.eq_def]
  dsimp only
  unfold Token.closes at hc
  split
  · rename_i mark hk
    cases mark <;> simp_all [Punct.opens, Punct.closes]
  · simp_all

/-- A comma ends the search: the `?` guards. -/
theorem guards_comma (hk : t.kind = .punct .comma) (n : Nat) : guards n (t :: rest) = true := by
  unfold guards
  rw [questionGuards.eq_def]
  simp [hk, Punct.opens, Punct.closes]

/-- A `:` that no conditional waits for is that of the `?` itself. -/
theorem guards_colon_zero (hk : t.kind = .punct .colon) : guards 0 (t :: rest) = false := by
  unfold guards
  rw [questionGuards.eq_def]
  simp [hk, Punct.opens, Punct.closes]

/-- A `:` that a conditional waits for is its own. -/
theorem guards_colon (hk : t.kind = .punct .colon) (n : Nat) : guards (n + 1) (t :: rest) = guards n rest := by
  unfold guards
  rw [questionGuards.eq_def]
  simp [hk, Punct.opens, Punct.closes]

/-- The `?` of a conditional waits for one more `:`. -/
theorem guards_question (hk : t.kind = .punct .question) (hr : guardsLink rest = false) (n : Nat) :
    guards n (t :: rest) = guards (n + 1) rest := by
  unfold guards
  rw [questionGuards.eq_def]
  simp only [hk, Punct.opens, Punct.closes, hr]
  rw [Nat.add_comm n 1, ← questionGuards_add]
  rfl

/-- The `?` of an access waits for nothing. -/
theorem guards_guard (hk : t.kind = .punct .question) (hr : guardsLink rest = true) (n : Nat) :
    guards n (t :: rest) = guards n rest := by
  unfold guards
  rw [questionGuards.eq_def]
  simp [hk, Punct.opens, Punct.closes, hr]

/-- The search passes over a bracket with everything inside. -/
theorem guards_bracket {o c : Token} {ts : List Token} (ho : o.opens = true) (hc : c.closes = true) (hb : Balanced ts)
    (n : Nat) : guards n (o :: (ts ++ c :: rest)) = guards n rest := by
  unfold guards
  rw [questionGuards_open _ ho, hb.questionGuards, questionGuards_close _ hc]

end Search

/-- More conditionals that wait do not make a `?` the mark of one. -/
theorem questionGuards_mono (depth n : Nat) (ts : List Token) (h : questionGuards depth 0 n ts = true) :
    questionGuards depth 0 (n + 1) ts = true := by
  induction ts generalizing depth n with
  | nil => rfl
  | cons t ts ih =>
    rw [questionGuards.eq_def] at h ⊢
    dsimp only at h ⊢
    split
    · rename_i mark hk
      simp only [hk] at h
      split
      · exact ih _ _ (by simpa [*] using h)
      rename_i ho
      simp only [ho, Bool.false_eq_true, if_false] at h
      split
      · rename_i hc
        simp only [hc, if_true] at h
        cases depth with
        | zero => rfl
        | succ d => exact ih _ _ h
      rename_i hc
      simp only [hc, Bool.false_eq_true, if_false] at h
      split
      · exact ih _ _ (by simpa [*] using h)
      rename_i hd
      simp only [hd, if_false] at h
      cases mark with
      | question =>
        dsimp only at h ⊢
        rw [questionGuards_add] at h ⊢
        exact ih _ _ h
      | colon =>
        cases n with
        | zero => cases h
        | succ n => exact ih _ _ h
      | semicolon | comma => rfl
      | _ => exact ih _ _ h
    · rename_i hk
      refine ih _ _ ?_
      split at h
      · exact absurd ‹_› (hk _)
      · exact h

/-- With more conditionals that wait, a `?` that guards still does. -/
theorem guards_mono {n m : Nat} (h : n ≤ m) {ts : List Token} (hg : guards n ts = true) : guards m ts = true := by
  induction h with
  | refl => exact hg
  | step _ ih => exact questionGuards_mono 0 _ ts ih

/-! ## What written tokens do to the search -/

/-- How the search goes on behind tokens: as in front of them when they show nothing stray; otherwise one more conditional
waits, or the search has ended. -/
def Skips (ts rest : List Token) : Bool → Prop
  | false => ∀ n, guards n (ts ++ rest) = guards n rest
  | true => ∀ n, guards (n + 1) rest = true → guards n (ts ++ rest) = true

namespace Skips

variable {ts us rest : List Token} {a b : Bool}

/-- Behind no tokens the search goes on as it is. -/
theorem nil (rest : List Token) : Skips [] rest false :=
  fun _ => rfl

/-- Tokens one behind the other show something stray when one part does. -/
theorem append (h : Skips ts (us ++ rest) a) (h' : Skips us rest b) : Skips (ts ++ us) rest (a || b) := by
  cases a with
  | false =>
    cases b with
    | false => exact fun n => by rw [List.append_assoc, h n, h' n]
    | true => exact fun n hr => by rw [List.append_assoc, h n]; exact h' n hr
  | true =>
    intro n hr
    rw [List.append_assoc]
    refine h n ?_
    cases b with
    | false => rw [h' (n + 1)]; exact hr
    | true => exact h' (n + 1) (guards_mono (Nat.le_succ _) hr)

/-- A quiet token in front shows nothing. -/
theorem quiet {t : Token} (hq : t.isQuiet = true) (h : Skips ts rest a) : Skips (t :: ts) rest a := by
  cases a with
  | false => exact fun n => by rw [List.cons_append, guards_quiet _ hq, h n]
  | true => exact fun n hr => by rw [List.cons_append, guards_quiet _ hq]; exact h n hr

/-- Tokens in brackets show nothing. -/
theorem bracket {o c : Token} (ho : o.opens = true) (hc : c.closes = true) (hb : Balanced ts) :
    Skips (o :: (ts ++ [c])) rest false := by
  intro n
  rw [List.cons_append, List.append_assoc]
  exact guards_bracket rest ho hc hb n

/-- Nothing is searched for behind a comma. -/
theorem comma {t : Token} (ht : t.kind = .punct .comma) (h : Skips ts (t :: us) a) : ∀ n, guards n (ts ++ t :: us) = true := by
  intro n
  cases a with
  | false => rw [h n, guards_comma _ ht]
  | true => exact h n (guards_comma _ ht _)

end Skips

/-- Behind suffixes that the lexer keeps apart, a conditional waits for each `?`. -/
theorem skips_suffixTokens {suffixes : List TypeSuffix} (hf : ArraysFirst suffixes) (hd : TypeSuffix.doubled suffixes = false)
    {rest : List Token} (hr : guardsLink rest = false) : Skips (suffixTokens suffixes) rest (suffixes.contains .nullable) := by
  fun_induction suffixTokens suffixes with
  | case1 => cases hd
  | case2 suffixes hn ih =>
    have : suffixes = [] := by
      rcases suffixes with _ | ⟨s, suffixes⟩
      · rfl
      · cases hf s List.mem_cons_self
        exact absurd rfl (hn _)
    subst this
    exact fun n h => by rw [← h]; exact guards_question rest rfl hr n
  | case3 suffixes ih =>
    have := Skips.append (.bracket (o := .ofMark .openBracket) (c := .ofMark .closeBracket) rfl rfl .nil)
      (ih hf (by simpa [TypeSuffix.doubled] using hd))
    simpa using this
  | case4 => exact .nil rest

mutual

/-- What a type that reads back does to the search. -/
theorem TypeExpr.skips : ∀ t : TypeExpr, t.Fits → t.doubled = false → ∀ {rest : List Token}, guardsLink rest = false →
    Skips t.tokens rest t.strays
  | ⟨name, args, suffixes, _⟩, ⟨_, ha, hs⟩, hd, rest, hr => by
    simp only [TypeExpr.doubled, Bool.or_eq_false_iff] at hd
    have hsuffix := skips_suffixTokens hs hd.2 hr
    rw [TypeExpr.tokens, TypeExpr.strays]
    refine .quiet rfl (.append ?_ hsuffix)
    cases args with
    | nil => exact .nil _
    | cons t args =>
      have hlist : Skips _ (Token.ofSign .greater :: (suffixTokens suffixes ++ rest)) _ := typesSkip (t :: args) ha hd.1 rfl
      refine .quiet rfl ?_
      simpa using hlist.append (.quiet rfl (.nil _))

/-- What types with commas between them do to the search. -/
theorem typesSkip : ∀ ts : List TypeExpr, TypesFit ts → typesDoubled ts = false → ∀ {rest : List Token},
    guardsLink rest = false → Skips (typeTokens ts) rest (typesStray ts)
  | [], _, _, _, _ => .nil _
  | [t], ⟨ht, _⟩, hd, rest, hr => by
    simp only [typesDoubled, Bool.or_false] at hd
    simpa [typeTokens, behindComma, typesStray] using t.skips ht hd hr
  | t :: u :: ts, ⟨ht, _⟩, hd, rest, hr => by
    simp only [typesDoubled, Bool.or_eq_false_iff] at hd
    intro n _
    rw [typeTokens, List.append_assoc]
    exact Skips.comma rfl (t.skips ht hd.1 rfl) n

end

namespace Skips

variable {ts us rest : List Token} {a b : Bool}

/-- The `?` in front of a member or an element is passed over. -/
theorem guard {q : Token} (hq : q.kind = .punct .question) (hl : guardsLink (ts ++ rest) = true)
    (h : Skips ts rest false) : Skips (q :: ts) rest false := by
  intro n
  rw [List.cons_append, guards_guard _ hq hl, h n]

/-- For the `?` in front of an invocation one more conditional waits. -/
theorem question {q : Token} (hq : q.kind = .punct .question) (hl : guardsLink (ts ++ rest) = false)
    (h : Skips ts rest false) : Skips (q :: ts) rest true := by
  intro n hr
  rw [List.cons_append, guards_question _ hq hl, h (n + 1), hr]

/-- The `:` of a conditional balances its `?`. -/
theorem branches {q k : Token} (hq : q.kind = .punct .question) (hk : k.kind = .punct .colon)
    (hl : guardsLink (ts ++ k :: (us ++ rest)) = false) (h : Skips ts (k :: (us ++ rest)) a) (h' : Skips us rest b) :
    Skips (q :: (ts ++ k :: us)) rest (a || b) := by
  have start (n : Nat) : guards n (q :: (ts ++ k :: us) ++ rest) = guards (n + 1) (ts ++ k :: (us ++ rest)) := by
    rw [List.cons_append, List.append_assoc, List.cons_append, guards_question _ hq hl]
  have colon (n : Nat) : guards (n + 1) (k :: (us ++ rest)) = guards n (us ++ rest) := guards_colon _ hk n
  cases a with
  | false =>
    have h (n : Nat) := (h (n + 1)).trans (colon n)
    cases b with
    | false => exact fun n => by rw [start, h, h' n]
    | true => exact fun n hr => by rw [start, h]; exact h' n hr
  | true =>
    intro n hr
    rw [start]
    refine h (n + 1) ?_
    rw [colon]
    cases b with
    | false => rw [h' (n + 1)]; exact hr
    | true => exact h' (n + 1) (guards_mono (Nat.le_succ _) hr)

end Skips

/-- No operand begins with the mark of a link. -/
theorem guardsLink_of_startsOperand {t : Token} (h : t.startsOperand = true) (rest : List Token) :
    guardsLink (t :: rest) = false := by
  unfold Token.startsOperand at h
  unfold guardsLink Token.isMark
  split at h <;> simp_all

/-- No `?` guards the access to a member or an element in front of an expression. -/
theorem Expr.guardsLink_tokens (e : Expr) (rest : List Token) : guardsLink (e.tokens ++ rest) = false := by
  obtain ⟨t, ts, ht, hs, -⟩ := e.head_tokens
  rw [ht]
  exact guardsLink_of_startsOperand hs (ts ++ rest)

/-- The search passes over the parameters of a lambda. -/
theorem skips_lambdaParamsTokens (params : List LambdaParam) (rest : List Token) :
    Skips (lambdaParamsTokens params) rest false := by
  unfold lambdaParamsTokens
  split
  · exact .quiet rfl (.nil _)
  · exact .bracket rfl rfl (balanced_paramTokens params)

/-- The search passes over a link. -/
theorem Link.skips (link : Link) (rest : List Token) : Skips link.tokens rest false := by
  cases link with
  | member name span =>
    refine .quiet rfl ?_
    cases name with
    | plain name => exact .quiet rfl (.nil _)
    | keyed name => exact .quiet rfl (.quiet rfl (.nil _))
  | element indices => exact .bracket rfl rfl (balanced_listTokens indices)
  | invoke args => exact .bracket rfl rfl (balanced_listTokens args)

/-- The search passes over an initializer. -/
theorem skips_inBraces (entries : List Entry) (rest : List Token) :
    Skips (inBraces entries (entryTokens entries)) rest false := by
  cases entries with
  | nil => exact .nil _
  | cons entry entries => exact .bracket rfl rfl (balanced_entryTokens _)

/-- What an expression in which all types read back does to the search. -/
theorem Expr.skips : ∀ e : Expr, e.Fits → (∀ use ∈ e.uses, use.legible = true) → ∀ rest, Skips e.tokens rest e.strays
  | .literal value _, _, _, _ => .quiet value.isQuiet_token (.nil _)
  | .name _ _, _, _, _ | .self _, _, _, _ => .quiet rfl (.nil _)
  | .unary op operand _, ⟨_, hf⟩, hu, rest => .quiet rfl (operand.skips hf hu rest)
  | .binary op left right _, ⟨_, _, hl, hr⟩, hu, rest => by
    obtain ⟨hul, hur⟩ := List.forall_mem_append.1 hu
    exact (left.skips hl hul _).append (.quiet rfl (right.skips hr hur rest))
  | .conditional condition thenBranch elseBranch _, ⟨_, _, _, hc, ht, he⟩, hu, rest => by
    obtain ⟨huc, hu⟩ := List.forall_mem_append.1 hu
    obtain ⟨hut, hue⟩ := List.forall_mem_append.1 (List.forall_mem_cons.1 hu).2
    exact (condition.skips hc huc _).append
      (.branches rfl rfl (thenBranch.guardsLink_tokens _) (thenBranch.skips ht hut _) (elseBranch.skips he hue rest))
  | .assign target value _, ⟨_, _, ht, hv⟩, hu, rest => by
    obtain ⟨hut, huv⟩ := List.forall_mem_append.1 hu
    exact (target.skips ht hut _).append (.quiet rfl (value.skips hv huv rest))
  | .lambda params body _, ⟨_, _, hb⟩, hu, rest => by
    obtain ⟨-, hub⟩ := List.forall_mem_append.1 hu
    exact (skips_lambdaParamsTokens params _).append (.quiet rfl (body.skips hb hub rest))
  | .paren inner _, _, _, _ => .bracket rfl rfl inner.balanced
  | .access base link guarded _, ⟨_, hb, _⟩, hu, rest => by
    obtain ⟨hub, -⟩ := List.forall_mem_append.1 hu
    have base (ts : List Token) := base.skips hb hub ts
    cases guarded with
    | false =>
      cases link with
      | invoke args => exact (base _).append (Link.skips (.invoke args) rest)
      | element indices =>
        have h := (base _).append (Link.skips (.element indices) rest)
        rwa [Bool.or_false] at h
      | member name span =>
        have h := (base _).append (Link.skips (.member name span) rest)
        rwa [Bool.or_false] at h
    | true =>
      cases link with
      | invoke args => exact (base _).append (.question rfl rfl (Link.skips (.invoke args) rest))
      | element indices =>
        have h := (base _).append (.guard (q := .ofMark .question) rfl rfl (Link.skips (.element indices) rest))
        rwa [Bool.or_false] at h
      | member name span =>
        have h := (base _).append (.guard (q := .ofMark .question) rfl rfl (Link.skips (.member name span) rest))
        rwa [Bool.or_false] at h
  | .create type args entries _, ⟨ht, _, _⟩, hu, rest => by
    have hd : type.doubled = false := by
      have := (List.forall_mem_cons.1 hu).1
      simp only [QuestionUse.legible, TypeExpr.doubled_erased, Bool.and_eq_true, Bool.not_eq_true'] at this
      exact this.1
    refine .quiet rfl ?_
    rw [Expr.strays, ← Bool.or_false type.strays]
    refine (type.skips ht hd rfl).append ?_
    have := (Skips.bracket (o := .ofMark .openParen) (c := .ofMark .closeParen) rfl rfl (balanced_listTokens args)).append
      (skips_inBraces entries rest)
    simpa using this

/-! ## What waits for a `:` -/

/-- How many conditionals wait for their `:` in front of tokens: none, or some, where it is known whether one fewer would do. -/
def Awaits (later : Option Bool) (pending : Nat) (rest : List Token) : Prop :=
  guards pending rest = true ∧
    match later with
    | none => pending = 0
    | some b => ∃ n, pending = n + 1 ∧ guards n rest = b

/-- More tokens in front, as far as a `?` in front of them guards an invocation. -/
theorem Skips.guards {ts rest : List Token} {a : Bool} (h : Skips ts rest a) {n : Nat} (hr : guards n rest = true) :
    guards n (ts ++ rest) = true := by
  cases a with
  | false => rw [h n, hr]
  | true => exact h n (guards_mono (Nat.le_succ n) hr)

section Branches

variable {later : Option Bool} {pending : Nat} {rest : List Token} {t f : Expr}

/-- One more conditional waits in front of the `:` of a conditional. -/
theorem Awaits.colon (h : Awaits later pending rest) (hs : Skips f.tokens rest f.strays) :
    Awaits (some (f.straysLater later)) (pending + 1) (.ofMark .colon :: (f.tokens ++ rest)) := by
  refine ⟨by rw [guards_colon _ rfl]; exact hs.guards h.1, pending, rfl, ?_⟩
  obtain ⟨hg, hl⟩ := h
  cases later with
  | none =>
    subst hl
    exact guards_colon_zero _ rfl
  | some b =>
    obtain ⟨n, rfl, rfl⟩ := hl
    rw [guards_colon _ rfl]
    unfold Expr.straysLater
    cases hf : f.strays with
    | false =>
      rw [hf] at hs
      exact (hs n).trans rfl
    | true =>
      rw [hf] at hs
      exact (hs n hg).trans rfl

/-- When the `?` of a conditional would be the guard of an invocation. -/
theorem Awaits.guards_branches (h : Awaits later pending rest) (hf : Skips f.tokens rest f.strays)
    (ht : Skips t.tokens (.ofMark .colon :: (f.tokens ++ rest)) t.strays) :
    guards pending (t.tokens ++ .ofMark .colon :: (f.tokens ++ rest)) = (t.strays || f.straysLater later) := by
  obtain ⟨hg, n, hn, hl⟩ := h.colon hf
  cases hn
  cases hs : t.strays with
  | false =>
    rw [hs] at ht
    rw [ht, hl, Bool.false_or]
  | true =>
    rw [hs] at ht
    exact (ht _ hg).trans (Bool.true_or _).symm

end Branches

end NavCheck
