import NavCheck.Proofs.Steps

/-!
# Written expressions read back

The tokens of an expression that fits and is legible are read as the expression. The parser comes to an expression through the
levels of its grammar, and each level goes on while it can: so for each level it is said what is read, and what must not stand
behind it. `Expr.parse_text` puts this together with the cutting of texts into tokens.
-/

namespace NavCheck

/-- An expression is read from `c` on, up to places, and `rest` is left. -/
def Yields (phrase : Expr → Phrase) (e : Expr) (c : Cursor) (rest : List Token) : Prop :=
  ∃ e' d, Reads (phrase e') c d ∧ e'.erased = e.erased ∧ d.ahead = rest

/-- An expression is read from `c` on as the left part of a longer one: what is read behind it with the expression on its left
is read from `c`. -/
def YieldsLeft (behind : Expr → Expr → Phrase) (phrase : Expr → Phrase) (e : Expr) (c : Cursor) (rest : List Token) : Prop :=
  ∃ e' d, e'.erased = e.erased ∧ d.ahead = rest ∧ ∀ whole d', Reads (behind e' whole) d d' → Reads (phrase whole) c d'

/-! ## Levels of the grammar -/

namespace Expr

/-- The tokens of an expression are read as a primary expression. -/
def ReadsPrimary (e : Expr) : Prop :=
  ∀ ⦃pending : Nat⦄ ⦃c : Cursor⦄ ⦃rest : List Token⦄, c.ahead = e.tokens ++ rest → Heads Token.parts rest →
    c.unOp? = none ∧ Yields (.primary pending) e c rest

/-- The tokens of an expression are read as the beginning of a row of accesses. -/
def ReadsRow (e : Expr) : Prop :=
  ∀ ⦃pending : Nat⦄ ⦃c : Cursor⦄ ⦃rest : List Token⦄, c.ahead = e.tokens ++ rest → Heads Token.parts rest →
    guards pending rest = true → YieldsLeft (.accesses pending c) (.unary pending) e c rest

/-- The tokens of an expression are read as an operand. -/
def ReadsOperand (e : Expr) : Prop :=
  ∀ ⦃pending : Nat⦄ ⦃c : Cursor⦄ ⦃rest : List Token⦄, c.ahead = e.tokens ++ rest → Heads Token.parts rest →
    guards pending rest = true → NoAccess pending rest → Yields (.unary pending) e c rest

/-- The tokens of an expression are read as the beginning of operands with operators between them. -/
def ReadsOperators (e : Expr) : Prop :=
  ∀ ⦃pending least : Nat⦄ ⦃c : Cursor⦄ ⦃rest : List Token⦄, c.ahead = e.tokens ++ rest → Heads Token.parts rest →
    guards pending rest = true → NoAccess pending rest → levels.binary + least ≤ e.level →
    (∀ t ∈ rest.head?, ∀ op ∈ t.binOp?, op.leftLevel ≤ e.level) →
    YieldsLeft (.operators pending least c) (.binary pending least) e c rest

/-- The tokens of an expression are read where nothing can go on with it. -/
def ReadsWhole (e : Expr) (later : Option Bool) : Prop :=
  ∀ ⦃pending : Nat⦄ ⦃c : Cursor⦄ ⦃rest : List Token⦄, c.ahead = e.tokens ++ rest → Heads Token.ends rest →
    Awaits later pending rest → Yields (.assign pending) e c rest

variable {e : Expr}

/-- A primary expression begins a row of accesses. -/
theorem ReadsPrimary.row (h : e.ReadsPrimary) : e.ReadsRow := by
  intro pending c rest hc hp _
  obtain ⟨hu, e', d, hr, he, ha⟩ := @h pending c rest hc hp
  exact ⟨e', d, he, ha, fun whole d' hw => .postfixed hu hr hw⟩

/-- A row of accesses behind which no access stands is an operand. -/
theorem ReadsRow.operand (h : e.ReadsRow) : e.ReadsOperand := by
  intro pending c rest hc hp hg hn
  obtain ⟨e', d, he, ha, hr⟩ := h hc hp hg
  exact ⟨e', d, hr e' d (.accessesEnd (hn d ha)), he, ha⟩

/-- An operand begins a row of operands. -/
theorem ReadsOperand.operators (h : e.ReadsOperand) : e.ReadsOperators := by
  intro pending least c rest hc hp hg hn _ _
  obtain ⟨e', d, hr, he, ha⟩ := h hc hp hg hn
  exact ⟨e', d, he, ha, fun whole d' hw => .binary hr hw⟩

/-- Operands with operators between them end in front of an operator that binds more loosely. -/
theorem ReadsOperators.alone (h : e.ReadsOperators) (least : Nat) {pending : Nat} {c : Cursor} {rest : List Token}
    (hc : c.ahead = e.tokens ++ rest) (hp : Heads Token.parts rest) (hg : guards pending rest = true)
    (hn : NoAccess pending rest) (hl : levels.binary + least ≤ e.level)
    (ho : ∀ t ∈ rest.head?, ∀ op ∈ t.binOp?, op.leftLevel ≤ e.level ∧ op.precedence < least) :
    Yields (.binary pending least) e c rest := by
  obtain ⟨e', d, he, ha, hr⟩ := h hc hp hg hn hl fun t ht op hop => (ho t ht op hop).1
  refine ⟨e', d, hr e' d (.operatorsEnd (Cursor.binOp?_eq_none ?_)), he, ha⟩
  rw [ha]
  exact fun t ht op hop => (ho t ht op hop).2

end Expr

/-- A token that ends an expression is no binary operator. -/
theorem Token.binOp?_of_ends {t : Token} (h : t.ends = true) : t.binOp? = none := by
  unfold Token.ends at h
  unfold Token.binOp?
  split at h
  · rename_i hk
    rw [hk]
  · cases h

/-- Behind a conditional or an expression without one that is no assignment. -/
theorem Yields.assign {pending : Nat} {e : Expr} {c : Cursor} {rest : List Token} (h : Yields (.conditional pending) e c rest)
    (hr : Heads Token.ends rest) : Yields (.assign pending) e c rest := by
  obtain ⟨e', d, h, he, ha⟩ := h
  refine ⟨e', d, .assignEnd h (Cursor.accept?_eq_none ?_), he, ha⟩
  rw [ha]
  exact hr.imp fun t ht => by simpa using Token.kind_ne_of_ends ht fun u hu => by simp [Token.ends, hu]

/-- Behind operands with operators between them that are no condition. -/
theorem Yields.conditional {pending : Nat} {e : Expr} {c : Cursor} {rest : List Token} (h : Yields (.binary pending 0) e c rest)
    (hr : Heads (fun t => t.kind != .punct .question) rest) : Yields (.conditional pending) e c rest := by
  obtain ⟨e', d, h, he, ha⟩ := h
  exact ⟨e', d, .conditionalEnd h (Cursor.accept?_eq_none (ha ▸ hr)), he, ha⟩

/-- Where an expression ends, no conditional goes on. -/
theorem Heads.not_question {rest : List Token} (h : Heads Token.ends rest) :
    Heads (fun t => t.kind != .punct .question) rest :=
  h.imp fun t ht => by simpa using Token.kind_ne_of_ends ht fun u hu => by simp [Token.ends, hu, Punct.closes]

namespace Expr

variable {e : Expr}

/-- Operands with operators between them where nothing can go on with them. -/
theorem ReadsOperators.whole (h : e.ReadsOperators) (hl : levels.binary ≤ e.level) (later : Option Bool) :
    e.ReadsWhole later := by
  intro pending c rest hc hr ha
  have ho : ∀ t ∈ rest.head?, ∀ op ∈ t.binOp?, op.leftLevel ≤ e.level ∧ op.precedence < 0 := by
    intro t ht op hop
    rw [Token.binOp?_of_ends (hr t ht)] at hop
    cases hop
  exact ((h.alone 0 hc (hr.imp fun t => Token.parts_of_ends) ha.1 (.of_ends hr) hl ho).conditional hr.not_question).assign hr

/-! ## Conditionals inside operands -/

/-- What waits for a `:` behind an operand does not matter for the conditionals in it: they stand in brackets. -/
theorem clear_eq_none : ∀ e : Expr, e.Fits → levels.binary ≤ e.level → ∀ later, e.clear later = e.clear none
  | .literal _ _, _, _, _ | .name _ _, _, _, _ | .self _, _, _, _ | .paren _ _, _, _, _ | .create _ _ _ _, _, _, _ => by
    simp [Expr.clear]
  | .unary _ operand _, ⟨hl, hf⟩, _, later => by
    rw [Expr.clear, Expr.clear, operand.clear_eq_none hf (Nat.le_trans (by decide) hl) later]
  | .binary op left right _, ⟨hl, hr, hfl, hfr⟩, _, later => by
    have hop : levels.binary ≤ op.leftLevel ∧ levels.binary ≤ op.rightLevel := by cases op <;> decide
    rw [Expr.clear, Expr.clear, left.clear_eq_none hfl (Nat.le_trans hop.1 hl) later,
      right.clear_eq_none hfr (Nat.le_trans hop.2 hr) later]
  | .access base link _ _, ⟨hl, hf, _⟩, _, later => by
    rw [Expr.clear, Expr.clear, base.clear_eq_none hf (Nat.le_trans (by decide) hl) later]
  | .conditional _ _ _ _, _, hl, _ | .assign _ _ _, _, hl, _ | .lambda _ _ _, _, hl, _ => by
    simp [Expr.level, levels] at hl

/-- How the tokens of an expression are read on each level that the expression reaches. -/
structure ReadsBack (e : Expr) : Prop where
  row : levels.postfixed ≤ e.level → e.clear none = true → e.ReadsRow
  operand : levels.unary ≤ e.level → e.clear none = true → e.ReadsOperand
  operators : levels.binary ≤ e.level → e.clear none = true → e.ReadsOperators
  whole : ∀ later, e.clear later = true → e.ReadsWhole later

namespace ReadsBack

/-- An expression between the levels of operators and of operands is read back when it is read as the beginning of operands. -/
theorem of_operators (hf : e.Fits) (hl : levels.binary ≤ e.level) (hu : e.level < levels.unary)
    (h : e.clear none = true → e.ReadsOperators) : e.ReadsBack where
  row hr := absurd (Nat.le_trans (by decide) hr) (Nat.not_le.2 hu)
  operand hr := absurd hr (Nat.not_le.2 hu)
  operators _ := h
  whole later hc := (h (e.clear_eq_none hf hl later ▸ hc)).whole hl later

/-- An expression between the levels of operands and of rows is read back when it is read as an operand. -/
theorem of_operand (hf : e.Fits) (hl : levels.unary ≤ e.level) (hu : e.level < levels.postfixed)
    (h : e.clear none = true → e.ReadsOperand) : e.ReadsBack where
  row hr := absurd hr (Nat.not_le.2 hu)
  operand _ := h
  operators _ hc := (h hc).operators
  whole later hc :=
    have hb : levels.binary ≤ e.level := Nat.le_trans (by decide) hl
    (h (e.clear_eq_none hf hb later ▸ hc)).operators.whole hb later

/-- An expression on the level of rows is read back when it is read as the beginning of a row of accesses. -/
theorem of_row (hf : e.Fits) (hl : levels.postfixed ≤ e.level) (h : e.clear none = true → e.ReadsRow) : e.ReadsBack where
  row _ := h
  operand _ hc := (h hc).operand
  operators _ hc := (h hc).operand.operators
  whole later hc :=
    have hb : levels.binary ≤ e.level := Nat.le_trans (by decide) hl
    (h (e.clear_eq_none hf hb later ▸ hc)).operand.operators.whole hb later

/-- An expression below the operators is read back when it is read where nothing can go on with it. -/
theorem of_whole (hl : e.level < levels.binary) (h : ∀ later, e.clear later = true → e.ReadsWhole later) : e.ReadsBack where
  row hr := absurd (Nat.le_trans (by decide) hr) (Nat.not_le.2 hl)
  operand hr := absurd (Nat.le_trans (by decide) hr) (Nat.not_le.2 hl)
  operators hr := absurd hr (Nat.not_le.2 hl)
  whole := h

end ReadsBack

end Expr

/-! ## Lists and entries -/

/-- Expressions between brackets are read, up to places, and `rest` is left. -/
def ListReadsBack (es : List Expr) : Prop :=
  listClear es = true → es ≠ [] → ∀ ⦃c : Cursor⦄ ⦃t : Token⦄ ⦃rest : List Token⦄, c.ahead = listTokens es ++ t :: rest →
    t.closes = true → ∃ es' d, Reads (.list es') c d ∧ erasedList es' = erasedList es ∧ d.ahead = t :: rest

/-- A link is read behind its mark. -/
def Link.ReadsBack (link : Link) : Prop :=
  link.clear = true → ∀ ⦃guarded : Bool⦄ ⦃c : Cursor⦄ ⦃rest : List Token⦄, c.ahead = link.innerTokens ++ rest →
    ∃ link' d, Reads (.link link.start guarded link') c d ∧ link'.erased = link.erased ∧ d.ahead = rest

/-- The entries of an initializer are read up to the closing brace. -/
def EntriesReadBack (entries : List Entry) : Prop :=
  entriesClear entries = true → ∀ ⦃c : Cursor⦄ ⦃rest : List Token⦄,
    c.ahead = entryTokens entries ++ .ofMark .closeBrace :: rest →
    ∃ entries' d, Reads (.entries entries') c d ∧ erasedEntries entries' = erasedEntries entries ∧ d.ahead = rest

/-- In front of a closing bracket no conditional waits. -/
theorem awaits_close {t : Token} (hc : t.closes = true) (rest : List Token) : Awaits none 0 (t :: rest) :=
  ⟨guards_close rest hc 0, rfl⟩

/-- In front of a comma no conditional waits. -/
theorem awaits_comma {t : Token} (ht : t.kind = .punct .comma) (rest : List Token) : Awaits none 0 (t :: rest) :=
  ⟨guards_comma rest ht 0, rfl⟩

/-- A closing bracket ends an expression. -/
theorem Token.ends_of_closes {t : Token} (h : t.closes = true) : t.ends = true := by
  unfold Token.closes at h
  unfold Token.ends
  cases hk : t.kind with
  | punct mark =>
    rw [hk] at h
    exact Bool.or_eq_true_iff.2 (.inl (Bool.or_eq_true_iff.2 (.inl h)))
  | _ => rw [hk] at h; cases h

/-- One expression between brackets is read back when the expression is. -/
theorem listReadsBack_one {e : Expr} (h : e.ReadsBack) : ListReadsBack [e] := by
  intro hclear _ c t rest hc ht
  simp only [listClear, Bool.and_true] at hclear
  simp only [listTokens, behindComma, List.append_nil] at hc
  obtain ⟨e', d, hr, he, ha⟩ := h.whole none hclear hc (by simpa using Token.ends_of_closes ht) (awaits_close ht rest)
  have hk : t.kind ≠ .punct .comma := by
    intro hk
    simp [Token.closes, hk, Punct.closes] at ht
  exact ⟨[e'], d, .listEnd hr (Cursor.accept?_eq_none (by simpa [ha] using hk)), by simp [erasedList, he], ha⟩

/-- Several expressions between brackets are read back when the first is and the others are. -/
theorem listReadsBack_cons {e : Expr} (h : e.ReadsBack) {f : Expr} {es : List Expr} (hs : ListReadsBack (f :: es)) :
    ListReadsBack (e :: f :: es) := by
  intro hclear _ c t rest hc ht
  rw [listClear, Bool.and_eq_true] at hclear
  rw [listTokens, behindComma, List.append_assoc, List.cons_append] at hc
  obtain ⟨e', d, hr, he, ha⟩ := h.whole none hclear.1 hc (by rw [heads_cons]; rfl) (awaits_comma rfl _)
  obtain ⟨comma, hk, -, hka⟩ := Cursor.accept?_of_ahead (.punct .comma) ha rfl
  obtain ⟨es', d', hrs, hes, has⟩ := hs hclear.2 (by simp) hka ht
  exact ⟨e' :: es', d', .list hr hk hrs, by rw [erasedList, erasedList, he, hes], has⟩

/-- Expressions and the mark that closes their bracket. -/
theorem ListReadsBack.bracketed {es : List Expr} (h : ListReadsBack es) (hclear : listClear es = true) (hn : es ≠ [])
    (place : ClosePlace) (hp : place.mark.closes = true) {c : Cursor} {rest : List Token}
    (hc : c.ahead = listTokens es ++ .ofMark place.mark :: rest) :
    ∃ es' d, Reads (.bracketed place es') c d ∧ erasedList es' = erasedList es ∧ d.ahead = rest := by
  obtain ⟨es', d, hr, he, ha⟩ := h hclear hn hc hp
  obtain ⟨close, hk, -, hka⟩ := Cursor.accept?_of_ahead (.punct place.mark) ha rfl
  exact ⟨es', close.next, .bracketed hr hk, he, hka⟩

/-- Expressions begin with the first token of an operand. -/
theorem head_listTokens {es : List Expr} (hn : es ≠ []) :
    ∃ t ts, listTokens es = t :: ts ∧ t.startsOperand = true := by
  cases es with
  | nil => exact absurd rfl hn
  | cons e es =>
    obtain ⟨t, ts, ht, hs, -⟩ := e.head_tokens
    exact ⟨t, _, by rw [listTokens, ht, List.cons_append], hs⟩

/-- The first token of an operand is no mark but an opening parenthesis. -/
theorem Token.kind_ne_of_startsOperand {t : Token} (h : t.startsOperand = true) (mark : Punct) (hm : mark ≠ .openParen) :
    t.kind ≠ .punct mark := by
  intro hk
  unfold Token.startsOperand at h
  rw [hk] at h
  cases mark <;> simp_all

/-- Arguments behind the opening parenthesis. -/
theorem ListReadsBack.args {es : List Expr} (h : ListReadsBack es) (hclear : listClear es = true) {c : Cursor}
    {rest : List Token} (hc : c.ahead = listTokens es ++ .ofMark .closeParen :: rest) :
    ∃ es' d, Reads (.args es') c d ∧ erasedList es' = erasedList es ∧ d.ahead = rest := by
  cases es with
  | nil =>
    obtain ⟨close, hk, -, hka⟩ := Cursor.accept?_of_ahead (.punct .closeParen) hc rfl
    exact ⟨[], close.next, .argsEnd hk, rfl, hka⟩
  | cons e es =>
    obtain ⟨es', d, hr, he, ha⟩ := h.bracketed hclear (by simp) .args rfl hc
    obtain ⟨t, ts, ht, hs⟩ := head_listTokens (List.cons_ne_nil e es)
    refine ⟨es', d, .args (Cursor.accept?_eq_none ?_) hr, he, ha⟩
    rw [hc, ht, List.cons_append, heads_cons]
    simpa using Token.kind_ne_of_startsOperand hs .closeParen (by decide)

/-- Indices between brackets. -/
theorem ListReadsBack.indices {es : List Expr} (h : ListReadsBack es) (hclear : listClear es = true) (hn : es ≠ [])
    {c : Cursor} {rest : List Token} (hc : c.ahead = listTokens es ++ .ofMark .closeBracket :: rest) :
    c.sees (.punct .closeBracket) = false ∧
      ∃ es' d, Reads (.bracketed .indices es') c d ∧ erasedList es' = erasedList es ∧ d.ahead = rest := by
  obtain ⟨t, ts, ht, hs⟩ := head_listTokens hn
  refine ⟨Cursor.sees_eq_false ?_, h.bracketed hclear hn .indices rfl hc⟩
  rw [hc, ht, List.cons_append, heads_cons]
  simpa using Token.kind_ne_of_startsOperand hs .closeBracket (by decide)

/-- The sign `=` and the value of an entry. -/
theorem Expr.ReadsBack.entryValue {e : Expr} (h : e.ReadsBack) (hclear : e.clear none = true) {c : Cursor} {t : Token}
    {rest : List Token} (hc : c.ahead = .ofSign .assign :: (e.tokens ++ t :: rest)) (ht : t.ends = true)
    (ha : Awaits none 0 (t :: rest)) : Yields .entryValue e c (t :: rest) := by
  obtain ⟨sign, hs, -, hsa⟩ := Cursor.accept?_of_ahead (.sign .assign) hc rfl
  obtain ⟨e', d, hr, he, had⟩ := h.whole none hclear hsa (by simpa using ht) ha
  exact ⟨e', d, .entryValue hs hr, he, had⟩

/-- What stands behind the value of an entry: the closing brace, or a comma and more entries. -/
theorem EntriesReadBack.behindEntry {entries : List Entry} (h : EntriesReadBack entries)
    (hclear : entriesClear entries = true) {entry : Entry} {c : Cursor} (hn : c.accept? (.punct .closeBrace) = none)
    {rest : List Token}
    (hr : ∀ t ts, behindComma entries (entryTokens entries) ++ .ofMark .closeBrace :: rest = t :: ts → t.ends = true →
      Awaits none 0 (t :: ts) → ∃ entry' d, Reads (.entry entry') c d ∧ erasedEntries [entry'] = erasedEntries [entry] ∧
        d.ahead = t :: ts) :
    ∃ entries' d, Reads (.entries entries') c d ∧ erasedEntries entries' = erasedEntries (entry :: entries) ∧ d.ahead = rest := by
  have split : ∀ (e : Entry) (es : List Entry), erasedEntries (e :: es) = erasedEntries [e] ++ erasedEntries es := by
    intro e es
    cases e <;> rfl
  cases entries with
  | nil =>
    obtain ⟨entry', d, hd, he, ha⟩ := hr _ _ rfl rfl (awaits_close rfl rest)
    obtain ⟨close, hk, -, hka⟩ := Cursor.accept?_of_ahead (.punct .closeBrace) ha rfl
    exact ⟨[entry'], close.next, .entriesLast hn hd (Cursor.accept?_eq_none (by simp [ha, Token.ofMark])) hk, he, hka⟩
  | cons next entries =>
    obtain ⟨entry', d, hd, he, ha⟩ := hr _ _ rfl rfl (awaits_comma rfl _)
    obtain ⟨comma, hk, -, hka⟩ := Cursor.accept?_of_ahead (.punct .comma) ha rfl
    obtain ⟨entries', d', hds, hes, has⟩ := h hclear hka
    exact ⟨entry' :: entries', d', .entries hn hd hk hds, by rw [split, he, hes, ← split], has⟩

/-- An entry for a member, and the entries behind it. -/
theorem entriesReadBack_member {name : MemberName} {span : Span} {value : Expr} {entries : List Entry} (hv : value.ReadsBack)
    (h : EntriesReadBack entries) : EntriesReadBack (.member name span value :: entries) := by
  intro hclear c rest hc
  rw [entriesClear, Bool.and_eq_true] at hclear
  rw [entryTokens, List.append_assoc, List.cons_append, List.append_assoc] at hc
  have hhead : Heads (fun t => t.kind != .punct .closeBrace && t.kind != .punct .openBracket) c.ahead := by
    rw [hc]
    cases name <;> simp [MemberName.tokens, Token.ofName, Token.ofMark]
  refine h.behindEntry hclear.2 (Cursor.accept?_eq_none (hhead.imp fun t ht => by simp_all)) fun t ts ht hends ha => ?_
  rw [ht] at hc
  obtain ⟨p, hp, hpv, hpa⟩ := Cursor.passesName_of_ahead name .initializer hc
  obtain ⟨value', d, hr, he, had⟩ := hv.entryValue hclear.1 hpa hends ha
  exact ⟨_, d, .entryMember (Cursor.accept?_eq_none (hhead.imp fun t ht => by simp_all)) (Cursor.entryName_eq_ok_iff.2 hp) hr,
    by simp [erasedEntries, hpv, he], had⟩

/-- An entry for an element, and the entries behind it. -/
theorem entriesReadBack_element {indices : List Expr} {span : Span} {value : Expr} {entries : List Entry} (hn : indices ≠ [])
    (hi : ListReadsBack indices) (hv : value.ReadsBack) (h : EntriesReadBack entries) :
    EntriesReadBack (.element indices span value :: entries) := by
  intro hclear c rest hc
  rw [entriesClear, Bool.and_eq_true, Bool.and_eq_true] at hclear
  rw [entryTokens, List.cons_append, List.append_assoc, List.cons_append, List.cons_append, List.append_assoc] at hc
  refine h.behindEntry hclear.2.2 (Cursor.accept?_eq_none (by simp [hc, Token.ofMark])) fun t ts ht hends ha => ?_
  rw [ht] at hc
  obtain ⟨bracket, hb, -, hba⟩ := Cursor.accept?_of_ahead (.punct .openBracket) hc rfl
  obtain ⟨hsees, indices', d, hr, he, had⟩ := hi.indices hclear.1 hn hba
  obtain ⟨value', d', hr', he', had'⟩ := hv.entryValue hclear.2.1 had hends ha
  exact ⟨_, d', .entryElement hb hsees hr hr', by simp [erasedEntries, he, he'], had'⟩

/-- No entries are read back: the brace closes at once. -/
theorem entriesReadBack_nil : EntriesReadBack [] := by
  intro _ c rest hc
  obtain ⟨close, hk, -, hka⟩ := Cursor.accept?_of_ahead (.punct .closeBrace) hc rfl
  exact ⟨[], close.next, .entriesEnd hk, rfl, hka⟩

/-! ## The forms of expressions -/

namespace Expr

/-- A literal is read as a primary expression. -/
theorem readsPrimary_literal (value : Literal) (hv : value.Fits) (span : Span) : (Expr.literal value span).ReadsPrimary := by
  intro pending c rest hc _
  have hc : c.ahead = value.token :: rest := hc
  obtain ⟨p, hp, hpv, ha⟩ := Cursor.next?_of_ahead hc
  have hk : value.token.kind.literal? = some value := by
    cases value with
    | int value => exact congrArg (fun n => some (Literal.int n)) (Int.toNat_of_nonneg hv.1)
    | bool b => cases b <;> rfl
    | str value => rfl
    | null => rfl
  have hu : value.token.unOp? = none := by
    cases value with
    | bool b => cases b <;> rfl
    | _ => rfl
  exact ⟨Cursor.unOp?_eq_none hc hu, _, p.next, .literal hp (by rw [hpv, hk]), rfl, ha⟩

/-- A name is read as a primary expression. -/
theorem readsPrimary_name (text : String) (span : Span) : (Expr.name text span).ReadsPrimary := by
  intro pending c rest hc hr
  obtain ⟨p, hp, hpv, ha⟩ := Cursor.accept?_of_ahead .name hc rfl
  have hs : p.next.sees (.sign .arrow) = false := by
    refine Cursor.sees_eq_false ?_
    rw [ha]
    exact hr.imp fun t ht => by simp_all [Token.parts]
  exact ⟨Cursor.unOp?_eq_none hc rfl, _, p.next, .name hp hs, by simp [Expr.erased, hpv, Token.ofName], ha⟩

/-- `this` is read as a primary expression. -/
theorem readsPrimary_self (span : Span) : (Expr.self span).ReadsPrimary := by
  intro pending c rest hc _
  obtain ⟨p, hp, -, ha⟩ := Cursor.accept?_of_ahead (.keyword .thisKw) hc rfl
  exact ⟨Cursor.unOp?_eq_none hc rfl, _, p.next, .self hp, rfl, ha⟩

/-- An expression in parentheses is read as a primary expression. -/
theorem readsPrimary_paren {inner : Expr} (h : inner.ReadsBack) (hc : inner.clear none = true) (span : Span) :
    (Expr.paren inner span).ReadsPrimary := by
  intro pending c rest hca hr
  rw [Expr.tokens, List.cons_append, List.append_assoc] at hca
  obtain ⟨p, hp, -, ha⟩ := Cursor.accept?_of_ahead (.punct .openParen) hca rfl
  obtain ⟨inner', d, hd, he, had⟩ := h.whole none hc ha (by simp; rfl) (awaits_close rfl rest)
  obtain ⟨close, hk, -, hka⟩ := Cursor.accept?_of_ahead (.punct .closeParen) had rfl
  have hl : c.opensLambda = false := by
    rw [Cursor.opensLambda_of_ahead inner.balanced hca]
    cases rest with
    | nil => rfl
    | cons t ts =>
      simp only [heads_cons, Token.parts, Bool.and_eq_true] at hr
      simpa [Token.isSign] using hr.1
  exact ⟨Cursor.unOp?_eq_none hca rfl, _, close.next, .paren hp hl hd hk, by simp [Expr.erased, he], hka⟩

/-- A creation is read as a primary expression when no suffix of its type is doubled and the type does not end in `?`. -/
theorem readsPrimary_create {type : TypeExpr} {args : List Expr} {entries : List Entry} (ht : type.Fits)
    (hd : type.doubled = false) (hn : type.endsNullable = false) (ha : ListReadsBack args) (hac : listClear args = true)
    (he : EntriesReadBack entries) (hec : entriesClear entries = true) (span : Span) :
    (Expr.create type args entries span).ReadsPrimary := by
  intro pending c rest hc hr
  rw [Expr.tokens, List.cons_append, List.append_assoc, List.cons_append, List.append_assoc, List.cons_append] at hc
  refine ⟨Cursor.unOp?_eq_none hc rfl, ?_⟩
  obtain ⟨word, hw, -, hwa⟩ := Cursor.accept?_of_ahead (.keyword .newKw) hc rfl
  obtain ⟨type', ht', hte, hta⟩ := Cursor.type?_of_ahead ht hd (by rw [heads_cons]; rfl) (by simp [hn]) hwa
  obtain ⟨opening, ho, -, hoa⟩ := Cursor.accept?_of_ahead (.punct .openParen) hta rfl
  obtain ⟨args', d, hra, hae, hda⟩ := ha.args hac hoa
  cases entries with
  | nil =>
    have hb : d.accept? (.punct .openBrace) = none := by
      refine Cursor.accept?_eq_none ?_
      rw [hda]
      exact hr.imp fun t ht => by simp_all [Token.parts]
    exact ⟨_, d, .create hw (.createArgs ht' ho hra hb), by simp [Expr.erased, hte, hae, erasedEntries], hda⟩
  | cons entry entries =>
    rw [inBraces, List.cons_append, List.append_assoc] at hda
    obtain ⟨brace, hb, -, hba⟩ := Cursor.accept?_of_ahead (.punct .openBrace) hda rfl
    obtain ⟨entries', d', hre, hee, hda'⟩ := he hec hba
    exact ⟨_, d', .create hw (.createBoth ht' ho hra hb hre), by simp [Expr.erased, hte, hae, hee], hda'⟩

/-- An access goes on with the row of accesses that its base is. -/
theorem readsRow_access {base : Expr} {link : Link} {guarded : Bool} (hb : base.ReadsRow) (hl : link.ReadsBack)
    (hlc : link.clear = true) (hs : ∀ rest, Skips link.tokens rest false) (span : Span) :
    (Expr.access base link guarded span).ReadsRow := by
  intro pending c rest hc hr hg
  have hlink : guards pending (link.tokens ++ rest) = true := by rw [hs rest, hg]
  have hmark : ∃ t ts, (if guarded then [Token.ofMark .question] else []) ++ link.tokens ++ rest = t :: ts ∧
      t.parts = true := by
    cases guarded with
    | true => exact ⟨_, _, rfl, rfl⟩
    | false => cases link <;> exact ⟨_, _, rfl, rfl⟩
  have hbase : guards pending ((if guarded then [Token.ofMark .question] else []) ++ link.tokens ++ rest) = true := by
    cases guarded with
    | false => simpa using hlink
    | true =>
      cases hgl : guardsLink (link.tokens ++ rest) with
      | true =>
        have := guards_guard (link.tokens ++ rest) (t := .ofMark .question) rfl hgl pending
        simpa [this] using hlink
      | false =>
        have := guards_question (link.tokens ++ rest) (t := .ofMark .question) rfl hgl pending
        simpa [this] using guards_mono (Nat.le_succ pending) hlink
  rw [Expr.tokens, List.append_assoc] at hc
  obtain ⟨t, ts, htok, ht⟩ := hmark
  obtain ⟨base', d, hbe, hda, hcont⟩ := hb hc (by rw [htok]; simpa using ht) hbase
  obtain ⟨mark, hm, hmv, hma⟩ := Cursor.accessStart?_of_link guarded link hda fun _ _ => hlink
  obtain ⟨link', d', hrl, hle, hda'⟩ := @hl hlc guarded _ _ hma
  refine ⟨.access base' link' guarded (c.spanTo d'), d', by simp [Expr.erased, hbe, hle], hda', fun whole d'' hw => ?_⟩
  refine hcont whole d'' (.accesses hm (by rw [hmv]; exact hrl) ?_)
  rw [hmv]
  exact hw

/-- A unary operator in front of an operand is read as an operand. -/
theorem readsOperand_unary {op : UnOp} {operand : Expr} (h : operand.ReadsOperand) (span : Span) :
    (Expr.unary op operand span).ReadsOperand := by
  intro pending c rest hc hr hg hn
  rw [Expr.tokens, List.cons_append] at hc
  obtain ⟨p, hp, hpv, ha⟩ := Cursor.unOp?_of_ahead hc
  obtain ⟨operand', d, hd, he, had⟩ := h ha hr hg hn
  exact ⟨_, d, .unary hp hd, by simp [Expr.erased, hpv, he], had⟩

end Expr

/-- An operator in whose place an operand is too loose is not passed behind the right operand of another one. -/
theorem BinOp.lt_rightLeast {op op' : BinOp} (h : op'.leftLevel ≤ op.level) : op'.precedence < op.rightLeast := by
  revert h
  cases op <;> cases op' <;> decide

namespace Expr

/-- A binary operator between operands of its levels is read as the beginning of operands with operators between them. -/
theorem readsOperators_binary {op : BinOp} {left right : Expr} (hl : left.ReadsOperators) (hr : right.ReadsOperators)
    (hll : op.leftLevel ≤ left.level) (hrl : op.rightLevel ≤ right.level)
    (hs : ∀ rest, Skips right.tokens rest right.strays) (span : Span) : (Expr.binary op left right span).ReadsOperators := by
  intro pending least c rest hc hp hg hn hleast ho
  have hlevel : levels.binary + least ≤ op.level := hleast
  have hop : op.level ≤ op.leftLevel ∧ op.level ≤ op.rightLevel ∧ levels.binary + op.rightLeast ≤ op.rightLevel := by
    cases op <;> decide
  rw [Expr.tokens, List.append_assoc, List.cons_append] at hc
  have hgl : guards pending (Token.ofSign op.sign :: (right.tokens ++ rest)) = true := by
    rw [guards_quiet _ rfl]
    exact (hs rest).guards hg
  have hpl : (Token.ofSign op.sign).parts = true := by cases op <;> rfl
  have hol : ∀ t ∈ (Token.ofSign op.sign :: (right.tokens ++ rest)).head?, ∀ op' ∈ t.binOp?, op'.leftLevel ≤ left.level := by
    intro t ht op' hop'
    cases ht
    rw [Token.binOp?, Option.mem_def, show (Token.ofSign op.sign).kind = .sign op.sign from rfl,
      BinOp.ofSign?_eq_some_iff] at hop'
    have : op' = op := by
      revert hop'
      cases op <;> cases op' <;> decide
    exact this ▸ hll
  obtain ⟨left', d₁, hle, hd₁, hcont⟩ := hl hc (by simpa using hpl) hgl (.of_sign rfl)
    (Nat.le_trans hlevel (Nat.le_trans hop.1 hll)) hol
  obtain ⟨p, hpo, hpv, hpa⟩ := Cursor.binOp?_of_ahead hd₁ (Nat.le_of_add_le_add_left hlevel)
  have hor : ∀ t ∈ rest.head?, ∀ op' ∈ t.binOp?, op'.leftLevel ≤ right.level ∧ op'.precedence < op.rightLeast := by
    intro t ht op' hop'
    have hle : op'.leftLevel ≤ op.level := ho t ht op' hop'
    exact ⟨Nat.le_trans hle (Nat.le_trans hop.2.1 hrl), BinOp.lt_rightLeast hle⟩
  obtain ⟨right', d₂, hrd, hre, hd₂⟩ := hr.alone op.rightLeast hpa hp hg hn (Nat.le_trans hop.2.2 hrl) hor
  refine ⟨.binary op left' right' (c.spanTo d₂), d₂, by simp [Expr.erased, hle, hre], hd₂, fun whole d' hw => ?_⟩
  refine hcont whole d' (.operators hpo (by rw [hpv]; exact hrd) ?_)
  rw [hpv]
  exact hw

end Expr

/-- What is looser than a conditional but no operand at all is at least as tight as an operator. -/
theorem Expr.binary_le_level {e : Expr} (h : levels.conditional + 1 ≤ e.level) : levels.binary ≤ e.level := by
  cases e <;> simp_all [Expr.level, levels]

namespace Expr

/-- A conditional is read where nothing can go on with it, when its branches show nothing that is taken for an invocation. -/
theorem readsWhole_conditional {condition thenBranch elseBranch : Expr} (hcl : levels.conditional + 1 ≤ condition.level)
    (hc : condition.ReadsOperators) (ht : thenBranch.ReadsBack) (he : elseBranch.ReadsBack)
    (hst : ∀ rest, Skips thenBranch.tokens rest thenBranch.strays)
    (hse : ∀ rest, Skips elseBranch.tokens rest elseBranch.strays) (span : Span) {later : Option Bool}
    (hclear : (Expr.conditional condition thenBranch elseBranch span).clear later = true) :
    (Expr.conditional condition thenBranch elseBranch span).ReadsWhole later := by
  intro pending c rest hca hr ha
  simp only [Expr.clear, Bool.and_eq_true, Bool.not_eq_true', Bool.and_eq_false_iff] at hclear
  obtain ⟨hparen, -, htc, hec⟩ := hclear
  rw [Expr.tokens, List.append_assoc, List.cons_append, List.append_assoc, List.cons_append] at hca
  -- The `?` begins no access of the condition.
  obtain ⟨t, ts, htok, hstart, hopen⟩ := thenBranch.head_tokens
  have hguards := ha.guards_branches (t := thenBranch) (hse rest) (hst _)
  have hn : NoAccess pending
      (Token.ofMark .question :: (thenBranch.tokens ++ .ofMark .colon :: (elseBranch.tokens ++ rest))) := by
    rw [htok, List.cons_append] at hguards ⊢
    refine .of_question rfl hstart fun hp => ?_
    rw [hguards]
    rcases hparen with hf | hf
    · rw [hopen hp] at hf
      cases hf
    · exact hf
  have hg : guards pending
      (Token.ofMark .question :: (thenBranch.tokens ++ .ofMark .colon :: (elseBranch.tokens ++ rest))) = true := by
    rw [guards_question _ rfl (thenBranch.guardsLink_tokens _)]
    refine (hst _).guards ?_
    rw [guards_colon _ rfl]
    exact (hse rest).guards ha.1
  have hb := Expr.binary_le_level hcl
  obtain ⟨condition', c₁, hcd, hce, hc₁⟩ := hc.alone 0 hca (by rw [heads_cons]; rfl) hg hn hb (by
    intro t ht op hop
    cases ht
    cases hop)
  obtain ⟨question, hq, -, hqa⟩ := Cursor.accept?_of_ahead (.punct .question) hc₁ rfl
  obtain ⟨then', c₂, htd, hte, hc₂⟩ := ht.whole _ htc hqa (by rw [heads_cons]; rfl) (ha.colon (hse rest))
  obtain ⟨colon, hk, -, hka⟩ := Cursor.accept?_of_ahead (.punct .colon) hc₂ rfl
  obtain ⟨else', d, hed, hee, hd⟩ := he.whole _ hec hka hr ha
  have h : Yields (.conditional pending) (.conditional condition thenBranch elseBranch span) c rest :=
    ⟨_, d, .conditional hcd hq htd hk hed, by simp [Expr.erased, hce, hte, hee], hd⟩
  exact h.assign hr

/-- An assignment is read where nothing can go on with it. -/
theorem readsWhole_assign {target value : Expr} (htl : levels.conditional + 1 ≤ target.level)
    (ht : target.ReadsOperators) (hv : value.ReadsBack) (hsv : ∀ rest, Skips value.tokens rest value.strays) (span : Span)
    {later : Option Bool} (hvc : value.clear later = true) : (Expr.assign target value span).ReadsWhole later := by
  intro pending c rest hca hr ha
  rw [Expr.tokens, List.append_assoc, List.cons_append] at hca
  have hg : guards pending (Token.ofSign .assign :: (value.tokens ++ rest)) = true := by
    rw [guards_quiet _ rfl]
    exact (hsv rest).guards ha.1
  have htarget := (ht.alone 0 hca (by rw [heads_cons]; rfl) hg (.of_sign rfl) (Expr.binary_le_level htl) (by
    intro t ht op hop
    cases ht
    cases hop)).conditional (by rw [heads_cons]; rfl)
  obtain ⟨target', c₁, htd, hte, hc₁⟩ := htarget
  obtain ⟨sign, hs, -, hsa⟩ := Cursor.accept?_of_ahead (.sign .assign) hc₁ rfl
  obtain ⟨value', d, hvd, hve, hd⟩ := hv.whole _ hvc hsa hr ha
  exact ⟨_, d, .assign htd hs hvd, by simp [Expr.erased, hte, hve], hd⟩

/-- Where nothing can go on with it, a primary expression is all that is read. -/
theorem yields_assign_of_primary {e : Expr} {pending : Nat} {c : Cursor} {rest : List Token} (hu : c.unOp? = none)
    (h : Yields (.primary pending) e c rest) (hr : Heads Token.ends rest) : Yields (.assign pending) e c rest := by
  obtain ⟨e', d, hd, he, ha⟩ := h
  have hunary : Reads (.unary pending e') c d := .postfixed hu hd (.accessesEnd (NoAccess.of_ends hr d ha))
  have ho : d.binOp? 0 = none := by
    refine Cursor.binOp?_eq_none ?_
    rw [ha]
    intro t ht op hop
    rw [Token.binOp?_of_ends (hr t ht)] at hop
    cases hop
  have hbinary : Yields (.binary pending 0) e c rest := ⟨e', d, .binary hunary (.operatorsEnd ho), he, ha⟩
  exact (hbinary.conditional hr.not_question).assign hr

/-- A lambda is read where nothing can go on with it. -/
theorem readsWhole_lambda {params : List LambdaParam} {body : Expr} (hp : ∀ p ∈ params, p.Fits)
    (hd : ∀ p ∈ params, ∀ type ∈ p.type, type.doubled = false) (hb : body.ReadsBack) (span : Span) {later : Option Bool}
    (hc : body.clear later = true) : (Expr.lambda params body span).ReadsWhole later := by
  intro pending c rest hca hr ha
  rw [Expr.tokens, List.append_assoc, List.cons_append] at hca
  -- The arrow and the body behind parameters that were read.
  have behind {mid : Cursor} (hm : mid.ahead = .ofSign .arrow :: (body.tokens ++ rest)) {params' : List LambdaParam}
      (he : params'.map LambdaParam.erased = params.map LambdaParam.erased) :
      ∃ e' d, Reads (.lambda pending c params' e') mid d ∧ e'.erased = (Expr.lambda params body span).erased ∧
        d.ahead = rest := by
    obtain ⟨t, ts, ht, hs, -⟩ := body.head_tokens
    rw [ht, List.cons_append] at hm
    obtain ⟨arrow, har, hara⟩ := Cursor.lambdaArrow_of_ahead hm hs
    obtain ⟨body', d, hbd, hbe, hda⟩ := hb.whole _ hc (by rw [hara, ht, List.cons_append]) hr ha
    exact ⟨_, d, .lambda har hbd, by simp [Expr.erased, he, hbe], hda⟩
  cases hn : soleName? params with
  | some name =>
    rw [lambdaParamsTokens, hn] at hca
    obtain ⟨p, hpa, hpv, hpn⟩ := Cursor.accept?_of_ahead .name hca rfl
    have hparams : [(⟨none, p.value.lexeme, p.value.span⟩ : LambdaParam)].map LambdaParam.erased =
        params.map LambdaParam.erased := by
      unfold soleName? at hn
      split at hn <;> cases hn
      simp [LambdaParam.erased, hpv, Token.ofName]
    obtain ⟨e', d, hrd, he, hda⟩ := behind hpn hparams
    exact yields_assign_of_primary (Cursor.unOp?_eq_none hca rfl)
      ⟨e', d, .shortLambda hpa (Cursor.sees_of_ahead hpn rfl) hrd, he, hda⟩ hr
  | none =>
    rw [lambdaParamsTokens, hn, List.cons_append, List.append_assoc, List.singleton_append] at hca
    obtain ⟨p, hpa, -, hpn⟩ := Cursor.accept?_of_ahead (.punct .openParen) hca rfl
    obtain ⟨params', hps, hpe, hpsa⟩ := Cursor.lambdaParams_of_ahead hp hd hpn
    obtain ⟨e', d, hrd, he, hda⟩ := behind hpsa hpe
    have hl : c.opensLambda = true := Cursor.opensLambda_of_ahead (balanced_paramTokens params) hca
    exact yields_assign_of_primary (Cursor.unOp?_eq_none hca rfl) ⟨e', d, .longLambda hpa hl hps hrd, he, hda⟩ hr

end Expr

/-! ## All expressions -/

mutual

/-- An expression that fits, with types that read back, is read from its tokens as long as no conditional in it is taken for an
invocation. -/
theorem Expr.readsBack : ∀ e : Expr, e.Fits → (∀ use ∈ e.uses, use.legible = true) → e.ReadsBack
  | .literal value span, hf, _ => .of_row hf (Nat.le_of_ble_eq_true rfl) fun _ => (Expr.readsPrimary_literal value hf span).row
  | .name text span, hf, _ => .of_row hf (Nat.le_of_ble_eq_true rfl) fun _ => (Expr.readsPrimary_name text span).row
  | .self span, hf, _ => .of_row hf (Nat.le_of_ble_eq_true rfl) fun _ => (Expr.readsPrimary_self span).row
  | .unary op operand span, hf, hu => .of_operand hf (Nat.le_of_ble_eq_true rfl) (Nat.le_of_ble_eq_true rfl) fun hc =>
    Expr.readsOperand_unary ((operand.readsBack hf.2 hu).operand hf.1 hc) span
  | .binary op left right span, hf, hu => by
    obtain ⟨hul, hur⟩ := List.forall_mem_append.1 hu
    obtain ⟨hl, hr, hfl, hfr⟩ := hf
    have hop : levels.binary ≤ op.leftLevel ∧ levels.binary ≤ op.rightLevel ∧ levels.binary ≤ op.level ∧
      op.level < levels.unary := by cases op <;> decide
    refine .of_operators ⟨hl, hr, hfl, hfr⟩ hop.2.2.1 hop.2.2.2 fun hc => ?_
    rw [Expr.clear, Bool.and_eq_true] at hc
    exact Expr.readsOperators_binary ((left.readsBack hfl hul).operators (Nat.le_trans hop.1 hl) hc.1)
      ((right.readsBack hfr hur).operators (Nat.le_trans hop.2.1 hr) hc.2) hl hr (right.skips hfr hur) span
  | .conditional condition thenBranch elseBranch span, hf, hu => by
    obtain ⟨huc, hu⟩ := List.forall_mem_append.1 hu
    obtain ⟨hut, hue⟩ := List.forall_mem_append.1 (List.forall_mem_cons.1 hu).2
    obtain ⟨hl, _, _, hfc, hft, hfe⟩ := hf
    have hb := Expr.binary_le_level hl
    refine .of_whole (Nat.le_of_ble_eq_true rfl) fun later hc => ?_
    have hcc : condition.clear none = true := by
      rw [Expr.clear, Bool.and_eq_true, Bool.and_eq_true] at hc
      exact condition.clear_eq_none hfc hb later ▸ hc.2.1
    exact Expr.readsWhole_conditional hl ((condition.readsBack hfc huc).operators hb hcc) (thenBranch.readsBack hft hut)
      (elseBranch.readsBack hfe hue) (thenBranch.skips hft hut) (elseBranch.skips hfe hue) span hc
  | .assign target value span, hf, hu => by
    obtain ⟨hut, huv⟩ := List.forall_mem_append.1 hu
    obtain ⟨hl, _, hft, hfv⟩ := hf
    have hb := Expr.binary_le_level hl
    refine .of_whole (Nat.le_of_ble_eq_true rfl) fun later hc => ?_
    rw [Expr.clear, Bool.and_eq_true, target.clear_eq_none hft hb later] at hc
    exact Expr.readsWhole_assign hl ((target.readsBack hft hut).operators hb hc.1) (value.readsBack hfv huv)
      (value.skips hfv huv) span hc.2
  | .lambda params body span, hf, hu => by
    obtain ⟨hup, hub⟩ := List.forall_mem_append.1 hu
    exact .of_whole (Nat.le_of_ble_eq_true rfl) fun later hc =>
      Expr.readsWhole_lambda hf.1 (fun p hp => doubled_of_legible hup hp) (body.readsBack hf.2.2 hub) span hc
  | .paren inner span, hf, hu => .of_row hf (Nat.le_of_ble_eq_true rfl) fun hc =>
    (Expr.readsPrimary_paren (inner.readsBack hf hu) hc span).row
  | .access base link guarded span, hf, hu => by
    obtain ⟨hub, hul⟩ := List.forall_mem_append.1 hu
    obtain ⟨-, hul⟩ := List.forall_mem_append.1 hul
    refine .of_row hf (Nat.le_of_ble_eq_true rfl) fun hc => ?_
    rw [Expr.clear, Bool.and_eq_true] at hc
    exact Expr.readsRow_access ((base.readsBack hf.2.1 hub).row hf.1 hc.1) (Link.readsBack link hf.2.2 hul) hc.2 link.skips span
  | .create type args entries span, hf, hu => by
    obtain ⟨hut, hu⟩ := List.forall_mem_cons.1 hu
    obtain ⟨hua, hue⟩ := List.forall_mem_append.1 hu
    simp only [QuestionUse.legible, TypeExpr.doubled_erased, TypeExpr.endsNullable_erased, Bool.and_eq_true,
      Bool.not_eq_true'] at hut
    refine .of_row hf (Nat.le_of_ble_eq_true rfl) fun hc => ?_
    rw [Expr.clear, Bool.and_eq_true] at hc
    exact (Expr.readsPrimary_create hf.1 hut.1 hut.2 (listReadsBack args hf.2.1 hua) hc.1 (entriesReadBack entries hf.2.2 hue)
      hc.2 span).row

/-- A legible link that can be written is read back. -/
theorem Link.readsBack : ∀ link : Link, link.Fits → (∀ use ∈ link.uses, use.legible = true) → link.ReadsBack
  | .member name span, _, _ => by
    intro _ guarded c rest hc
    obtain ⟨p, hp, hpv, ha⟩ := Cursor.passesName_of_ahead name _ hc
    exact ⟨_, p.next, .member (Cursor.memberName_eq_ok_iff.2 hp), by simp [Link.erased, hpv], ha⟩
  | .element indices, hf, hu => by
    intro hclear guarded c rest hc
    simp only [Link.innerTokens, Link.tokens, List.tail_cons, List.append_assoc, List.singleton_append] at hc
    obtain ⟨hs, indices', d, hr, he, ha⟩ := (listReadsBack indices hf.2 hu).indices hclear hf.1 hc
    exact ⟨_, d, .element hs hr, by simp [Link.erased, he], ha⟩
  | .invoke args, hf, hu => by
    intro hclear guarded c rest hc
    simp only [Link.innerTokens, Link.tokens, List.tail_cons, List.append_assoc, List.singleton_append] at hc
    obtain ⟨args', d, hr, he, ha⟩ := (listReadsBack args hf hu).args hclear hc
    exact ⟨_, d, .invoke hr, by simp [Link.erased, he], ha⟩

/-- Legible expressions between brackets that can be written are read back. -/
theorem listReadsBack : ∀ es : List Expr, ListFits es → (∀ use ∈ listUses es, use.legible = true) → ListReadsBack es
  | [], _, _ => fun _ hn => absurd rfl hn
  | [e], hf, hu => listReadsBack_one (e.readsBack hf.1 (List.forall_mem_append.1 hu).1)
  | e :: f :: es, hf, hu => by
    obtain ⟨hue, hus⟩ := List.forall_mem_append.1 hu
    exact listReadsBack_cons (e.readsBack hf.1 hue) (listReadsBack (f :: es) hf.2 hus)

/-- Legible entries that can be written are read back. -/
theorem entriesReadBack : ∀ entries : List Entry, EntriesFit entries → (∀ use ∈ entryUses entries, use.legible = true) →
    EntriesReadBack entries
  | [], _, _ => entriesReadBack_nil
  | .member _ _ value :: entries, hf, hu => by
    obtain ⟨huv, hus⟩ := List.forall_mem_append.1 hu
    exact entriesReadBack_member (value.readsBack hf.2.2.1 huv) (entriesReadBack entries hf.2.2.2 hus)
  | .element indices _ value :: entries, hf, hu => by
    obtain ⟨hui, hu⟩ := List.forall_mem_append.1 hu
    obtain ⟨huv, hus⟩ := List.forall_mem_append.1 hu
    exact entriesReadBack_element hf.1 (listReadsBack indices hf.2.1 hui) (value.readsBack hf.2.2.2.1 huv)
      (entriesReadBack entries hf.2.2.2.2 hus)

end

/-! ## Texts -/

namespace Expr

/-- Parentheses around an expression without places have none. -/
theorem erased_within {e : Expr} (h : e.erased = e) (level : Nat) : (e.within level).erased = e.within level := by
  unfold within
  split
  · rw [Expr.erased, h]
  · exact h

end Expr

mutual

/-- An expression as it is written has no places. -/
theorem Expr.erased_written : ∀ e : Expr, e.written.erased = e.written
  | .literal _ _ | .name _ _ | .self _ => rfl
  | .unary _ operand _ => by rw [Expr.written, Expr.erased, Expr.erased_within operand.erased_written]
  | .binary _ left right _ => by
    rw [Expr.written, Expr.erased, Expr.erased_within left.erased_written, Expr.erased_within right.erased_written]
  | .conditional condition thenBranch elseBranch _ => by
    rw [Expr.written, Expr.erased, Expr.erased_within condition.erased_written, Expr.erased_within thenBranch.erased_written,
      Expr.erased_within elseBranch.erased_written]
  | .assign target value _ => by
    rw [Expr.written, Expr.erased, Expr.erased_within target.erased_written, Expr.erased_within value.erased_written]
  | .lambda params body _ => by
    rw [Expr.written, Expr.erased, Expr.erased_within body.erased_written]
    simp
  | .paren inner _ => by rw [Expr.written, Expr.erased, inner.erased_written]
  | .access base link _ _ => by
    rw [Expr.written, Expr.erased, Expr.erased_within base.erased_written, link.erased_written]
  | .create type args entries _ => by
    rw [Expr.written, Expr.erased, type.erased_erased, erasedList_writtenList args, erasedEntries_writtenEntries entries]

/-- A link as it is written has no places. -/
theorem Link.erased_written : ∀ link : Link, link.written.erased = link.written
  | .member _ _ => rfl
  | .element indices => by rw [Link.written, Link.erased, erasedList_writtenList indices]
  | .invoke args => by rw [Link.written, Link.erased, erasedList_writtenList args]

/-- Expressions as they are written have no places. -/
theorem erasedList_writtenList : ∀ es : List Expr, erasedList (writtenList es) = writtenList es
  | [] => rfl
  | e :: es => by rw [writtenList, erasedList, e.erased_written, erasedList_writtenList es]

/-- Entries as they are written have no places. -/
theorem erasedEntries_writtenEntries : ∀ entries : List Entry, erasedEntries (writtenEntries entries) = writtenEntries entries
  | [] => rfl
  | .member _ _ value :: entries => by
    rw [writtenEntries, erasedEntries, Expr.erased_within value.erased_written, erasedEntries_writtenEntries entries]
  | .element indices _ value :: entries => by
    rw [writtenEntries, erasedEntries, erasedList_writtenList indices, Expr.erased_within value.erased_written,
      erasedEntries_writtenEntries entries]

end

namespace Expr

/-- A text that is cut into tokens without faults is parsed as the expression that all its tokens are read as. -/
theorem parse_eq_ok {source : String} {e : Expr} {d : Cursor}
    (hf : ∀ piece ∈ Lexer.tokensFrom none 0 source.toList, piece.2 = none)
    (hr : Reads (.assign 0 e) (Cursor.start (lex source none).significant) d) (hd : d.ahead = []) :
    Expr.parse source = .ok e := by
  obtain ⟨h, hr⟩ := hr.isRead
  have hn : (Lexer.tokensFrom none 0 source.toList).find? (·.2.isSome) = none := by
    refine List.find?_eq_none.2 fun piece hp => ?_
    simp [hf piece hp]
  unfold Expr.parse
  simp only [hn, hr, bind, Except.bind, Cursor.peek?, hd, List.head?_nil]

/-- The text of an expression that fits when it is written and that is legible is parsed as it is written. -/
theorem parse_text {e : Expr} (hf : e.written.Fits) (hl : e.Legible) :
    ∃ e', Expr.parse e.text = .ok e' ∧ e'.erased = e.written := by
  obtain ⟨hu, hc⟩ := hl
  rw [← e.uses_written] at hu
  have htext : e.written.text = e.text := by rw [Expr.text, Expr.render_written, Expr.text]
  obtain ⟨hpieces, halike⟩ := Expr.lexed_text hf
  rw [htext] at hpieces halike
  obtain ⟨e', d, hr, he, hd⟩ := @Expr.ReadsBack.whole _ (e.written.readsBack hf hu) none hc 0
    (Cursor.start e.written.tokens) [] (List.append_nil _).symm (by simp) ⟨rfl, rfl⟩
  obtain ⟨e'', d', hr', he', ha⟩ := hr.alike (Cursor.start (lex e.text none).significant) halike.symm
  rw [hd] at ha
  have hd' : d'.ahead = [] := by
    cases h : d'.ahead with
    | nil => rfl
    | cons t ts =>
      rw [h] at ha
      cases ha
  exact ⟨e'', parse_eq_ok hpieces hr' hd', by rw [he', he, e.erased_written]⟩

end Expr

end NavCheck
