import NavCheck.Proofs.Branches.Extension
import NavCheck.Proofs.Branches.Search

/-!
# Then-branches in front of their `:`

What is read from the tokens of an expression is read in front of a `:` and more tokens as well, if it stands between the marks of
a conditional. In brackets the search behind a `?` finds what it found before; outside of them one more conditional waits for its
`:` now, and the tree tells what is found.
-/

namespace NavCheck

open Grammar

/-- A parenthesis is closed behind the expression in it. -/
theorem Cursor.Shows.behindClose? {c d : Cursor} {stray : Bool} {token : Parsed Token c} {close : Parsed Token d}
    (h : token.next.Shows stray d) (ht : c.accept? (.punct .openParen) = some token)
    (hk : d.accept? (.punct .closeParen) = some close) : ∃ rest, NavCheck.behindClose? 0 c.ahead = some rest := by
  obtain ⟨ts, hp, hb, -⟩ := h
  refine ⟨close.next.ahead, ?_⟩
  rw [((passes_accept? ht).trans (hp.trans (passes_accept? hk))).1, List.singleton_append, List.cons_append, List.append_assoc,
    behindClose?_open (Token.opens_of_kind (accept?_kind ht)), hb.behindClose?, List.singleton_append,
    behindClose?_close (Token.closes_of_kind (accept?_kind hk)), if_pos rfl]

/-! ## What the search finds in front of more tokens -/

theorem guardsLink_append {k : Token} {us : List Token} (hk : k.kind = .punct .colon) (rest : List Token) :
    guardsLink (rest ++ k :: us) = guardsLink rest := by
  cases rest with
  | nil => exact guardsLink_of_mark hk us
  | cons => rfl

theorem guards_semicolon {t : Token} (rest : List Token) (hk : t.kind = .punct .semicolon) (n : Nat) :
    guards n (t :: rest) = true := by
  simp [guards, questionGuards, hk, Punct.opens, Punct.closes]

/-- What the search does not pass over is a mark. -/
theorem Token.mark_of_not_isQuiet {t : Token} (h : t.isQuiet = false) : ∃ mark, t.kind = .punct mark := by
  unfold isQuiet at h
  split at h
  · cases h
  · cases h
  · exact ⟨_, ‹_›⟩
  · cases h

/-- The search comes to the same behind tokens in which every bracket is closed. -/
theorem Balanced.guards_congr {ts : List Token} (hb : Balanced ts) {rest rest' : List Token}
    (hl : guardsLink rest' = guardsLink rest) (h : ∀ n, guards n rest' = guards n rest) (n : Nat) :
    guards n (ts ++ rest') = guards n (ts ++ rest) := by
  induction hb generalizing rest rest' n with
  | nil => exact h n
  | @token t ho hc =>
    rw [List.singleton_append, List.singleton_append]
    cases hq : t.isQuiet with
    | true => rw [guards_quiet _ hq, guards_quiet _ hq, h n]
    | false =>
      obtain ⟨mark, hk⟩ := Token.mark_of_not_isQuiet hq
      rw [Token.opens_of_kind hk] at ho
      rw [Token.closes_of_kind hk] at hc
      cases mark with
      | question =>
        cases hg : guardsLink rest with
        | true => rw [guards_guard _ hk (hl.trans hg), guards_guard _ hk hg, h n]
        | false => rw [guards_question _ hk (hl.trans hg), guards_question _ hk hg, h (n + 1)]
      | colon =>
        cases n with
        | zero => rw [guards_colon_zero _ hk, guards_colon_zero _ hk]
        | succ n => rw [guards_colon _ hk, guards_colon _ hk, h n]
      | comma => rw [guards_comma _ hk, guards_comma _ hk]
      | semicolon => rw [guards_semicolon _ hk, guards_semicolon _ hk]
      | dot | dollar => simp [Token.isQuiet, hk] at hq
      | _ => simp [Punct.opens, Punct.closes] at ho hc
  | bracket ho hc hb _ =>
    rw [List.cons_append, List.append_assoc, List.singleton_append, guards_bracket _ ho hc hb, List.cons_append,
      List.append_assoc, List.singleton_append, guards_bracket _ ho hc hb, h n]
  | @append ts us _ _ ih₁ ih₂ =>
    rw [List.append_assoc, List.append_assoc]
    refine ih₁ ?_ (ih₂ hl h) n
    cases us with
    | nil => exact hl
    | cons => rfl

/-- How many conditionals wait in addition when there is a `:` behind everything. -/
def waiting : Option Bool → Nat
  | none => 0
  | some _ => 1

@[simp]
theorem waiting_map (f : Bool → Bool) (later : Option Bool) : waiting (later.map f) = waiting later := by
  cases later <;> rfl

/-- What the search finds where more tokens follow: in brackets what it found without them; outside of them one more conditional
waits for the `:` that follows, and it is known whether something stray stands in front of that. -/
def Waits (more : List Token) (pending : Nat) (rest : List Token) : Option Bool → Prop
  | none => ∀ n, guards n (rest ++ more) = guards n rest
  | some b => guards (1 + pending) (rest ++ more) = true ∧ guards pending (rest ++ more) = b

namespace Waits

variable {k : Token} {us rest : List Token} {pending : Nat} {later : Option Bool}

/-- Where a `?` guards an invocation, it does so in front of more tokens. -/
theorem guards (h : Waits us pending rest later) (hg : guards pending rest = true) :
    NavCheck.guards (waiting later + pending) (rest ++ us) = true := by
  cases later with
  | none => rw [waiting, Nat.zero_add, h, hg]
  | some b => exact h.1

/-- In front of tokens that show something stray or do not. -/
theorem through (hk : k.kind = .punct .colon) {ts : List Token} {stray : Bool} (hb : Balanced ts)
    (hs : ∀ rest, Skips ts rest stray) (h : Waits (k :: us) pending rest later) :
    Waits (k :: us) pending (ts ++ rest) (later.map (stray || ·)) := by
  cases later with
  | none =>
    intro n
    rw [List.append_assoc]
    exact hb.guards_congr (guardsLink_append hk rest) h n
  | some b =>
    obtain ⟨hg, rfl⟩ := h
    rw [Option.map_some, Waits, List.append_assoc]
    refine ⟨(hs _).guards hg, ?_⟩
    cases stray with
    | false => exact hs _ pending
    | true => exact hs _ pending (by rwa [Nat.add_comm] at hg)

/-- In front of the `:` of a conditional. -/
theorem colon {t : Token} (ht : t.kind = .punct .colon) (h : Waits us pending rest later) :
    Waits us (pending + 1) (t :: rest) later := by
  cases later with
  | none =>
    intro n
    cases n with
    | zero => rw [List.cons_append, guards_colon_zero _ ht, guards_colon_zero _ ht]
    | succ n => rw [List.cons_append, guards_colon _ ht, guards_colon _ ht, h n]
  | some b =>
    rw [Waits, List.cons_append, ← Nat.add_assoc, guards_colon _ ht, guards_colon _ ht]
    exact h

/-- In front of the `?` of a conditional. -/
theorem question (hk : k.kind = .punct .colon) {t : Token} (ht : t.kind = .punct .question) (hl : guardsLink rest = false)
    (h : Waits (k :: us) (pending + 1) rest later) : Waits (k :: us) pending (t :: rest) later := by
  have hl' : guardsLink (rest ++ k :: us) = false := by rw [guardsLink_append hk, hl]
  cases later with
  | none => exact fun n => by rw [List.cons_append, guards_question _ ht hl', guards_question _ ht hl, h]
  | some b =>
    rw [Waits, List.cons_append, guards_question _ ht hl', guards_question _ ht hl']
    exact h

/-- In front of the end of a bracket or a comma. -/
theorem closed {t : Token} {mark : Punct} (ht : t.kind = .punct mark) (hm : mark = .comma ∨ mark.closes = true) :
    Waits us pending (t :: rest) none := by
  intro n
  rcases hm with rfl | hm
  · rw [List.cons_append, guards_comma _ ht, guards_comma _ ht]
  · have hc := Token.closes_of_kind ht
    rw [List.cons_append, guards_close _ (hc.trans hm), guards_close _ (hc.trans hm)]

end Waits

/-! ## Expressions in front of more tokens -/

variable {k : Token} {us : List Token} {later : Option Bool}

namespace Cursor

/-- A comma or the end of a bracket is ahead. -/
def Closes (c : Cursor) : Prop :=
  ∃ mark, ∃ close : Parsed Token c, c.accept? (.punct mark) = some close ∧ (mark = .comma ∨ mark.closes = true)

/-- No other token is accepted. -/
theorem accept?_none_of_some {c : Cursor} {kind other : TokenKind} {p : Parsed Token c} (h : c.accept? kind = some p)
    (hn : kind ≠ other) : c.accept? other = none := by
  obtain ⟨hp, hk⟩ := next?_of_accept? h
  simp [accept?, hp, hk, hn]

/-- Where no `?` is ahead, an access begins in front of more tokens if it begins without them. -/
theorem accessStart?_extend_none (hk : k.kind = .punct .colon) {c : Cursor} (hq : c.accept? (.punct .question) = none)
    {pending : Nat} (pending' : Nat) (ha : c.accessStart? pending = none) :
    (c.extend (k :: us)).accessStart? pending' = none := by
  rw [accessStart?_extend hk pending pending' (fun q hq' => by rw [hq] at hq'; cases hq'), ha]
  rfl

end Cursor

/-- An expression that was read up to a cursor may stand in front of more tokens: it keeps its conditionals there, no access
begins behind it, and it is known what a search behind it finds. -/
structure Expr.StandsBefore (more : List Token) (later : Option Bool) (pending : Nat) (e : Expr) (d : Cursor) : Prop where
  keeps : ∀ b ∈ later, e.keepsBranches b = true
  ends : d.accessStart? pending = none → (d.extend more).accessStart? (waiting later + pending) = none
  waits : Waits more pending d.ahead later

namespace Expr.StandsBefore

variable {pending : Nat} {e whole : Expr} {c d : Cursor}

/-- What stands in brackets. -/
theorem closed (hk : k.kind = .punct .colon) (h : d.Closes) (e : Expr) : e.StandsBefore (k :: us) none 0 d := by
  obtain ⟨mark, close, hc, hm⟩ := h
  refine ⟨fun _ hb => (Option.not_mem_none _ hb).elim, Cursor.accessStart?_extend_none hk ?_ _, ?_⟩
  · refine Cursor.accept?_none_of_some hc ?_
    rintro h
    cases h
    simp [Punct.closes] at hm
  · rw [(Cursor.passes_accept? hc).1]
    exact .closed (Cursor.accept?_kind hc) hm

/-- What keeps its conditionals where another expression does. -/
theorem mono (h : whole.StandsBefore us later pending d) (hw : ∀ b, whole.keepsBranches b = true → e.keepsBranches b = true) :
    e.StandsBefore us later pending d :=
  ⟨fun b hb => hw b (h.keeps b hb), h.ends, h.waits⟩

/-- What stands in front of something that is read behind it. -/
theorem before (hk : k.kind = .punct .colon) {stray : Bool} (h : whole.StandsBefore (k :: us) later pending d)
    (hs : c.Shows stray d) (hw : ∀ b, whole.keepsBranches b = true → e.keepsBranches (stray || b) = true)
    (ha : c.accessStart? pending = none → c = d ∨ c.accept? (.punct .question) = none) :
    e.StandsBefore (k :: us) (later.map (stray || ·)) pending c := by
  refine ⟨fun b hb => ?_, fun hn => ?_, ?_⟩
  · obtain ⟨b', hb', rfl⟩ := Option.map_eq_some_iff.1 hb
    exact hw b' (h.keeps b' hb')
  · rw [waiting_map]
    rcases ha hn with rfl | hq
    · exact h.ends hn
    · exact Cursor.accessStart?_extend_none hk hq _ hn
  · obtain ⟨ts, hp, hb, hs⟩ := hs
    rw [hp.1]
    exact h.waits.through hk hb hs

end Expr.StandsBefore

/-! ### The `?` of a conditional and of a guarded invocation -/

namespace Cursor

variable {pending : Nat} {c d : Cursor} {q : Parsed Token c}

/-- A parenthesis ahead is the mark of an invocation. -/
theorem accessMark?_of_sees (h : c.sees (.punct .openParen) = true) :
    ∃ p : Parsed AccessStart c, c.accessMark? = some p ∧ p.value = .paren := by
  obtain ⟨passed, _ | ⟨t, ahead⟩⟩ := c
  · cases h
  · have hk : t.kind = .punct .openParen := by simpa [sees] using h
    exact ⟨⟨.paren, ⟨t :: passed, ahead⟩, by simp⟩, by simp [accessMark?, next?, Token.isMark, hk], rfl⟩

/-- Where no access begins, a `?` in front of a parenthesis guards nothing. -/
theorem guards_of_accessStart?_none (h : c.accessStart? pending = none) (hq : c.accept? (.punct .question) = some q)
    (ho : q.next.sees (.punct .openParen) = true) : guards pending q.next.ahead = false := by
  obtain ⟨p, hp, hv⟩ := accessMark?_of_sees ho
  simp only [accessStart?, hq, hp, hv, true_and] at h
  split at h
  · assumption
  · cases h

/-- Where an access begins, a `?` in front of a parenthesis guards the invocation that is read. -/
theorem guards_of_accessStart?_some {mark : Parsed (AccessStart × Bool) c} {link : Link}
    (h : c.accessStart? pending = some mark) (hq : c.accept? (.punct .question) = some q)
    (ho : q.next.sees (.punct .openParen) = true) (hl : Reads (.link mark.value.1 mark.value.2 link) mark.next d)
    (hc : c.FromSource) : guards pending q.next.ahead = true ∧ q.next.Shows false d := by
  obtain ⟨p, hp, hv⟩ := accessMark?_of_sees ho
  simp only [accessStart?, hq, hp] at h
  split at h
  · cases h
  · rename_i hg
    cases h
    obtain ⟨t, ht, hk⟩ := mark_of_accessMark? hp
    have hn := (hc.accepted hq).of_passes ht
    obtain ⟨ts, hts, hd⟩ := hl.derived t hk hn.order
    exact ⟨by rw [guards]; simpa [hv] using hg, _, ht.trans hts, hd.balanced, fun rest => (hd.skipped rest).1⟩

end Cursor

namespace Expr.StandsBefore

variable {pending : Nat} {x t e whole : Expr} {span : Span} {c c₁ c₂ d : Cursor}

/-- An access that begins a row is begun in front of more tokens as well: the `?` of an invocation still guards it. -/
theorem accessStart? (hk : k.kind = .punct .colon) (h : whole.StandsBefore (k :: us) later pending d)
    {mark : Parsed (AccessStart × Bool) c} {link : Link} (ha : c.accessStart? pending = some mark)
    (hl : Reads (.link mark.value.1 mark.value.2 link) mark.next c₁) (hc : c.FromSource) {stray : Bool} (hs : c₁.Shows stray d) :
    (c.extend (k :: us)).accessStart? (waiting later + pending) = some (mark.extend (k :: us)) := by
  refine some_of_map (Cursor.accessStart?_extend hk pending _ fun q hq ho => ?_) ha
  obtain ⟨hg, hshows⟩ := Cursor.guards_of_accessStart?_some ha hq ho hl hc
  obtain ⟨ts, hp, hbal, hskip⟩ := hshows.trans hs
  have hw := h.waits.through hk hbal hskip
  rw [← hp.1] at hw
  rw [hg, ← hw.guards hg, waiting_map]

/-- The then-branch of a conditional stands in front of its `:`. -/
theorem thenBranch (hk : k.kind = .punct .colon)
    (h : (conditional x t e span).StandsBefore (k :: us) later pending d) {colon : Parsed Token c₂}
    (hc : c₂.accept? (.punct .colon) = some colon) (hs : colon.next.Shows e.strays d) :
    t.StandsBefore (k :: us) (later.map (e.strays || ·)) (pending + 1) c₂ := by
  refine ⟨fun b hb => ?_, fun hn => ?_, ?_⟩
  · obtain ⟨b', hb', rfl⟩ := Option.map_eq_some_iff.1 hb
    have hkeeps := h.keeps b' hb'
    simp only [keepsBranches, Bool.and_eq_true] at hkeeps
    exact hkeeps.2.2.1
  · exact Cursor.accessStart?_extend_none hk (Cursor.accept?_none_of_some hc (by decide)) _ hn
  · obtain ⟨ts, hp, hb, hs⟩ := hs
    rw [(Cursor.passes_accept? hc).1, hp.1]
    exact (h.waits.through hk hb hs).colon (Cursor.accept?_kind hc)

/-- The condition of a conditional stands in front of its `?`: the `?` is not taken for a guard now either. -/
theorem condition (hk : k.kind = .punct .colon)
    (h : (conditional x t e span).StandsBefore (k :: us) later pending d)
    (ht : t.StandsBefore (k :: us) (later.map (e.strays || ·)) (pending + 1) c₂) {question : Parsed Token c₁}
    (hq : c₁.accept? (.punct .question) = some question) {level : Level}
    (hd : question.next.DerivesExpr level t c₂) (hs : t.Spellable) (hc : question.next.FromSource) :
    x.StandsBefore (k :: us) (later.map fun b => t.strays || (e.strays || b)) pending c₁ := by
  obtain ⟨ts, hp, hd⟩ := hd hc.order
  have hwaits : Waits (k :: us) (pending + 1) question.next.ahead
      (later.map fun b => t.strays || (e.strays || b)) := by
    have hw := ht.waits.through hk hd.balanced (hd.skipped hs)
    rwa [Option.map_map, ← hp.1] at hw
  refine ⟨fun b hb => ?_, fun hn => ?_, ?_⟩
  · obtain ⟨b', hb', rfl⟩ := Option.map_eq_some_iff.1 hb
    have hkeeps := h.keeps b' hb'
    simp only [keepsBranches, Bool.and_eq_true] at hkeeps
    exact hkeeps.2.1
  · rw [waiting_map]
    refine none_of_map (Cursor.accessStart?_extend hk pending _ fun q hq' ho => ?_) hn
    cases Option.some.inj (hq.symm.trans hq')
    rw [Cursor.guards_of_accessStart?_none hn hq ho]
    cases later with
    | none =>
      have hw := hwaits pending
      rw [waiting, Nat.zero_add, hw, Cursor.guards_of_accessStart?_none hn hq ho]
    | some b =>
      -- A then-branch in parentheses has nothing stray behind its beginning.
      have hopen : t.mayOpen = true := by
        obtain ⟨first, ts', rfl, -, hopen⟩ := hd.begins
        refine hopen ?_
        simpa [Cursor.sees, hp.1] using ho
      have hkeeps := h.keeps b rfl
      simp only [keepsBranches, hopen, Bool.true_and, Bool.and_eq_true, Bool.not_eq_true'] at hkeeps
      rw [waiting, Nat.add_comm 1]
      exact hwaits.2.trans hkeeps.1
  · rw [(Cursor.passes_accept? hq).1]
    refine hwaits.question hk (Cursor.accept?_kind hq) ?_
    rw [hp.1]
    exact hd.guardsLink_expr _

end Expr.StandsBefore

namespace Phrase

/-- The phrase in front of more tokens, where `n` more conditionals wait for their `:` outside of brackets. -/
def extend (more : List Token) (n : Nat) : Phrase → Phrase
  | .assign pending e => .assign (n + pending) e
  | .conditional pending e => .conditional (n + pending) e
  | .binary pending least e => .binary (n + pending) least e
  | .operators pending least start left whole => .operators (n + pending) least (start.extend more) left whole
  | .unary pending e => .unary (n + pending) e
  | .accesses pending start base whole => .accesses (n + pending) (start.extend more) base whole
  | .link start guarded l => .link start guarded l
  | .list es => .list es
  | .bracketed place es => .bracketed place es
  | .args es => .args es
  | .primary pending e => .primary (n + pending) e
  | .lambda pending start params e => .lambda (n + pending) (start.extend more) params e
  | .creation start e => .creation (start.extend more) e
  | .entries es => .entries es
  | .entry en => .entry en
  | .entryValue e => .entryValue e

/-- There are tokens ahead where a phrase begins that is read from a later place on. -/
def Started : Phrase → Prop
  | .operators _ _ start _ _ | .accesses _ start _ _ | .lambda _ start _ _ | .creation start _ => start.ahead ≠ []
  | _ => True

/-- A phrase that was read up to a cursor may stand in front of more tokens. -/
def StandsBefore (more : List Token) (later : Option Bool) : Phrase → Cursor → Prop
  | .assign pending e, d | .conditional pending e, d | .binary pending _ e, d | .operators pending _ _ _ e, d
  | .unary pending e, d | .accesses pending _ _ e, d | .primary pending e, d | .lambda pending _ _ e, d =>
    e.StandsBefore more later pending d
  | .list _, d | .entry _, d | .entryValue _, d => d.Closes
  | _, _ => True

end Phrase

/-- Where no access begins, none is read. -/
theorem Reads.accesses_nil {pending : Nat} {start c d : Cursor} {base whole : Expr}
    (h : Reads (.accesses pending start base whole) c d) (ha : c.accessStart? pending = none) : c = d := by
  cases h with
  | accessesEnd => rfl
  | accesses hm => rw [ha] at hm; cases hm

/-- Where operators are read, nothing is or no `?` is ahead. -/
theorem Reads.operators_nil {pending least : Nat} {start c d : Cursor} {left whole : Expr}
    (h : Reads (.operators pending least start left whole) c d) : c = d ∨ c.accept? (.punct .question) = none := by
  cases h with
  | operatorsEnd => exact .inl rfl
  | operators ho =>
    obtain ⟨t, ht, hk, -⟩ := Cursor.sign_of_binOp? ho
    refine .inr (Cursor.accept?_eq_none ?_)
    simp [ht.1, Heads, hk]

namespace Cursor.Passes

variable {c d : Cursor} {ts : List Token}

theorem ahead_ne_nil (h : c.Passes ts d) (hn : ts ≠ [] := by simp) : c.ahead ≠ [] := by
  rw [h.1]
  exact List.append_ne_nil_of_left_ne_nil hn _

end Cursor.Passes

/-- There are tokens ahead where something is read. -/
theorem Reads.ahead_ne_nil {phrase : Phrase} {c d : Cursor} (h : Reads phrase c d) (hf : phrase.isFull = true := by rfl) :
    c.ahead ≠ [] :=
  have ⟨_, hp⟩ := h.passes
  hp.ahead_ne_nil (h.passes_ne_nil hp hf)

/-! ### Single steps -/

/-- A phrase that was read, from a source, is read in front of more tokens where it may stand in front of them. -/
def Phrase.Extends (more : List Token) (phrase : Phrase) (c d : Cursor) : Prop :=
  c.FromSource → phrase.Started → ∀ later, phrase.StandsBefore more later d →
    Reads (phrase.extend more (waiting later)) (c.extend more) (d.extend more)

namespace Phrase.Extends

open Cursor

section

variable {more : List Token} {phrase : Phrase} {c d : Cursor}

/-- A part in front of what is read behind it: this does not change how many conditionals wait. -/
theorem before (h : phrase.Extends more c d) (hc : c.FromSource) (hs : phrase.Started) {f : Bool → Bool} {later : Option Bool}
    (hb : phrase.StandsBefore more (later.map f) d) :
    Reads (phrase.extend more (waiting later)) (c.extend more) (d.extend more) := by
  rw [← waiting_map f]
  exact h hc hs _ hb

/-- A part in brackets: nothing waits there. -/
theorem inside (h : phrase.Extends more c d) (hc : c.FromSource) (hs : phrase.Started) (hb : phrase.StandsBefore more none d) :
    Reads (phrase.extend more 0) (c.extend more) (d.extend more) :=
  h hc hs none hb

end

variable {pending : Nat} {e left right condition thenBranch elseBranch base whole : Expr} {start c c₁ c₂ d : Cursor}

/-- The target of an assignment stands in front of the sign and the value. -/
theorem assign (hk : k.kind = .punct .colon) (ih₁ : (Phrase.conditional pending left).Extends (k :: us) c c₁)
    (h₁ : Reads (.conditional pending left) c c₁) {sign : Parsed Token c₁} (hs : c₁.accept? (.sign .assign) = some sign)
    (h₂ : Reads (.assign pending right) sign.next d) (ih₂ : (Phrase.assign pending right).Extends (k :: us) sign.next d) :
    (Phrase.assign pending (.assign left right (c.spanTo d))).Extends (k :: us) c d := by
  intro hc _ later hb
  obtain ⟨ts, hp⟩ := h₁.passes
  have hn := (hc.of_passes hp).accepted hs
  have hright : sign.next.Shows right.strays d := h₂.shown hn
  have hleft : left.StandsBefore (k :: us) (later.map (right.strays || ·)) pending c₁ :=
    hb.before hk (hright.quiet (passes_accept? hs) (Token.isQuiet_of_sign (accept?_kind hs)))
      (fun _ h => (Bool.and_eq_true_iff.1 h).1) fun _ => .inr (accept?_none_of_some hs (by decide))
  have h := (ih₁.before hc trivial hleft).assign (accept?_extend _ hs)
    (ih₂ hn trivial later (hb.mono fun _ h => (Bool.and_eq_true_iff.1 h).2))
  rwa [spanTo_extend h₁.ahead_ne_nil] at h

/-- The condition stands in front of both branches, and the then-branch in front of the other one. -/
theorem conditional (hk : k.kind = .punct .colon) (ih₁ : (Phrase.binary pending 0 condition).Extends (k :: us) c c₁)
    (h₁ : Reads (.binary pending 0 condition) c c₁) {question : Parsed Token c₁}
    (hq : c₁.accept? (.punct .question) = some question) (h₂ : Reads (.assign (pending + 1) thenBranch) question.next c₂)
    (ih₂ : (Phrase.assign (pending + 1) thenBranch).Extends (k :: us) question.next c₂) {colon : Parsed Token c₂}
    (hcolon : c₂.accept? (.punct .colon) = some colon) (h₃ : Reads (.assign pending elseBranch) colon.next d)
    (ih₃ : (Phrase.assign pending elseBranch).Extends (k :: us) colon.next d) :
    (Phrase.conditional pending (.conditional condition thenBranch elseBranch (c.spanTo d))).Extends (k :: us) c d := by
  intro hc _ later hb
  obtain ⟨ts₁, hp₁⟩ := h₁.passes
  have hn₁ := (hc.of_passes hp₁).accepted hq
  obtain ⟨ts₂, hp₂⟩ := h₂.passes
  have hn₂ := (hn₁.of_passes hp₂).accepted hcolon
  have hthen := hb.thenBranch hk hcolon (h₃.shown hn₂)
  have h₁' := ih₁.before hc trivial (hb.condition hk hthen hq h₂.derived (h₂.spellable hn₁.genuine) hn₁)
  have helse : elseBranch.StandsBefore (k :: us) later pending d := by
    refine hb.mono fun b hkeeps => ?_
    simp only [Expr.keepsBranches, Bool.and_eq_true] at hkeeps
    exact hkeeps.2.2.2
  have h := h₁'.conditional (accept?_extend _ hq) (ih₂.before hn₁ trivial hthen) (accept?_extend _ hcolon)
    (ih₃ hn₂ trivial later helse)
  rwa [spanTo_extend h₁.ahead_ne_nil] at h

/-- An operand stands in front of the operators behind it. -/
theorem binary (hk : k.kind = .punct .colon) {least : Nat} (ih₁ : (Phrase.unary pending left).Extends (k :: us) c c₁)
    (h₁ : Reads (.unary pending left) c c₁) (h₂ : Reads (.operators pending least c left whole) c₁ d)
    (ih₂ : (Phrase.operators pending least c left whole).Extends (k :: us) c₁ d) :
    (Phrase.binary pending least whole).Extends (k :: us) c d := by
  intro hc _ later hb
  obtain ⟨ts, hp⟩ := h₁.passes
  have hn := hc.of_passes hp
  obtain ⟨stray, ha⟩ : ∃ stray, c₁.Adds left whole stray d := h₂.added hn
  have h₁' := ih₁.before hc trivial (hb.before hk ha.shows ha.keeps fun _ => h₂.operators_nil)
  exact h₁'.binary (ih₂ hn h₁.ahead_ne_nil later hb)

/-- The right operand stands in front of the operators behind it. -/
theorem operators (hk : k.kind = .punct .colon) {least : Nat} {op : Parsed BinOp c}
    (ih₁ : (Phrase.binary pending op.value.rightLeast right).Extends (k :: us) op.next c₁) (ho : c.binOp? least = some op)
    (h₁ : Reads (.binary pending op.value.rightLeast right) op.next c₁)
    (h₂ : Reads (.operators pending least start (.binary op.value left right (start.spanTo c₁)) whole) c₁ d)
    (ih₂ : (Phrase.operators pending least start (.binary op.value left right (start.spanTo c₁)) whole).Extends (k :: us) c₁ d) :
    (Phrase.operators pending least start left whole).Extends (k :: us) c d := by
  intro hc hs later hb
  have hn := hc.of_passes (passes_binOp? ho).choose_spec
  obtain ⟨ts, hp⟩ := h₁.passes
  obtain ⟨stray, ha⟩ : ∃ stray, c₁.Adds _ whole stray d := h₂.added (hn.of_passes hp)
  have hright : right.StandsBefore (k :: us) (later.map (stray || ·)) pending c₁ :=
    hb.before hk ha.shows (fun b h => (Bool.and_eq_true_iff.1 (ha.keeps b h)).2) fun _ => h₂.operators_nil
  refine .operators (some_of_map (binOp?_extend hk _) ho) (ih₁.before hn trivial hright) ?_
  rw [spanTo_extend hs]
  exact ih₂ (hn.of_passes hp) hs later hb

/-- The operand of an operator ends where the operation does. -/
theorem unary (hk : k.kind = .punct .colon) {op : Parsed UnOp c} (ih : (Phrase.unary pending e).Extends (k :: us) op.next d)
    (ho : c.unOp? = some op) : (Phrase.unary pending (.unary op.value e (c.spanTo d))).Extends (k :: us) c d := by
  intro hc _ later hb
  have hn := hc.of_passes (passes_unOp? ho).choose_spec
  have h := Reads.unary (some_of_map (unOp?_extend hk) ho) (ih hn trivial later (hb.mono fun _ h => h))
  rwa [spanTo_extend (passes_unOp? ho).choose_spec.ahead_ne_nil] at h

/-- A primary expression stands in front of the accesses to it. -/
theorem postfixed (hk : k.kind = .punct .colon) (ih₁ : (Phrase.primary pending base).Extends (k :: us) c c₁) (ho : c.unOp? = none)
    (h₁ : Reads (.primary pending base) c c₁) (h₂ : Reads (.accesses pending c base whole) c₁ d)
    (ih₂ : (Phrase.accesses pending c base whole).Extends (k :: us) c₁ d) : (Phrase.unary pending whole).Extends (k :: us) c d := by
  intro hc _ later hb
  obtain ⟨ts, hp⟩ := h₁.passes
  have hn := hc.of_passes hp
  obtain ⟨stray, ha⟩ : ∃ stray, c₁.Adds base whole stray d := h₂.added hn
  have h₁' := ih₁.before hc trivial (hb.before hk ha.shows ha.keeps fun h => .inl (h₂.accesses_nil h))
  exact .postfixed (none_of_map (unOp?_extend hk) ho) h₁' (ih₂ hn h₁.ahead_ne_nil later hb)

/-- An access is begun as before, and its link is in brackets of its own or a name. -/
theorem accesses (hk : k.kind = .punct .colon) {link : Link} {mark : Parsed (AccessStart × Bool) c}
    (ih₁ : (Phrase.link mark.value.1 mark.value.2 link).Extends (k :: us) mark.next c₁) (ha : c.accessStart? pending = some mark)
    (h₁ : Reads (.link mark.value.1 mark.value.2 link) mark.next c₁)
    (h₂ : Reads (.accesses pending start (.access base link mark.value.2 (start.spanTo c₁)) whole) c₁ d)
    (ih₂ : (Phrase.accesses pending start (.access base link mark.value.2 (start.spanTo c₁)) whole).Extends (k :: us) c₁ d) :
    (Phrase.accesses pending start base whole).Extends (k :: us) c d := by
  intro hc hs later hb
  obtain ⟨_, _, hm, -⟩ := passes_accessStart? ha
  have hn := hc.of_passes hm
  obtain ⟨ts, hp⟩ := h₁.passes
  have hn₁ := hn.of_passes hp
  obtain ⟨stray, hadd⟩ : ∃ stray, c₁.Adds _ whole stray d := h₂.added hn₁
  refine .accesses (hb.accessStart? hk ha h₁ hc hadd.shows) (ih₁.inside hn trivial trivial) ?_
  rw [spanTo_extend hs]
  exact ih₂ hn₁ hs later hb

/-- What is in parentheses is closed by them. -/
theorem paren (hk : k.kind = .punct .colon) {token : Parsed Token c} {close : Parsed Token d}
    (ih : (Phrase.assign 0 e).Extends (k :: us) token.next d) (ht : c.accept? (.punct .openParen) = some token)
    (ho : c.opensLambda = false) (h₁ : Reads (.assign 0 e) token.next d) (hm : d.accept? (.punct .closeParen) = some close) :
    (Phrase.primary pending (.paren e (c.spanTo close.next))).Extends (k :: us) c close.next := by
  intro hc _ later _
  have hn := hc.accepted ht
  have hinner : token.next.Shows e.strays d := h₁.shown hn
  show Reads (.primary (waiting later + pending) (.paren e (c.spanTo close.next))) _ _
  rw [← spanTo_extend (passes_accept? ht).ahead_ne_nil close.next (k :: us)]
  exact .paren (accept?_extend _ ht) (by rw [opensLambda_extend hk (hinner.behindClose? ht hm).choose_spec, ho])
    (ih.inside hn trivial (.closed hk ⟨_, _, hm, .inr rfl⟩ _)) (accept?_extend _ hm)

/-- The body of a lambda ends where the lambda does. -/
theorem lambda (hk : k.kind = .punct .colon) {params : List LambdaParam} {arrow : Parsed Token c}
    (ih : (Phrase.assign pending e).Extends (k :: us) arrow.next d) (hr : c.lambdaArrow = .ok arrow) :
    (Phrase.lambda pending start params (.lambda params e (start.spanTo d))).Extends (k :: us) c d := by
  intro hc hs later hb
  have hn := hc.of_passes (passes_lambdaArrow hr)
  show Reads (.lambda (waiting later + pending) _ params (.lambda params e (start.spanTo d))) _ _
  rw [← spanTo_extend hs d (k :: us)]
  exact .lambda (lambdaArrow_extend hk hr) (ih hn trivial later (hb.mono fun _ h => h))

section

variable {type : Parsed TypeExpr c} {args : List Expr} {entries : List Entry}

/-- A creation with arguments. -/
theorem createArgs (hk : k.kind = .punct .colon) {opening : Parsed Token type.next}
    (ih : (Phrase.args args).Extends (k :: us) opening.next d) (ht : c.type? = some type)
    (ho : type.next.accept? (.punct .openParen) = some opening) (hb : d.accept? (.punct .openBrace) = none) :
    (Phrase.creation start (.create type.value args [] (start.spanTo d))).Extends (k :: us) c d := by
  intro hc hs _ _
  have hn := (hc.of_passes (passes_type? ht).choose_spec).accepted ho
  show Reads (.creation _ (.create type.value args [] (start.spanTo d))) _ _
  rw [← spanTo_extend hs d (k :: us)]
  exact .createArgs (some_of_map (type?_extend hk) ht) (accept?_extend _ ho) (ih.inside hn trivial trivial)
    (accept?_extend_none hk hb (by decide))

/-- A creation with arguments and entries. -/
theorem createBoth (hk : k.kind = .punct .colon) {opening : Parsed Token type.next} {brace : Parsed Token c₁}
    (ih₁ : (Phrase.args args).Extends (k :: us) opening.next c₁) (ht : c.type? = some type)
    (ho : type.next.accept? (.punct .openParen) = some opening) (h₁ : Reads (.args args) opening.next c₁)
    (hb : c₁.accept? (.punct .openBrace) = some brace) (ih₂ : (Phrase.entries entries).Extends (k :: us) brace.next d) :
    (Phrase.creation start (.create type.value args entries (start.spanTo d))).Extends (k :: us) c d := by
  intro hc hs _ _
  have hn := (hc.of_passes (passes_type? ht).choose_spec).accepted ho
  have hn' := (hn.of_passes h₁.passes.choose_spec).accepted hb
  show Reads (.creation _ (.create type.value args entries (start.spanTo d))) _ _
  rw [← spanTo_extend hs d (k :: us)]
  exact .createBoth (some_of_map (type?_extend hk) ht) (accept?_extend _ ho) (ih₁.inside hn trivial trivial)
    (accept?_extend _ hb) (ih₂.inside hn' trivial trivial)

/-- A creation with entries alone. -/
theorem createEntries (hk : k.kind = .punct .colon) {brace : Parsed Token type.next}
    (ih : (Phrase.entries entries).Extends (k :: us) brace.next d) (ht : c.type? = some type)
    (ho : type.next.accept? (.punct .openParen) = none) (hb : type.next.accept? (.punct .openBrace) = some brace) :
    (Phrase.creation start (.create type.value [] entries (start.spanTo d))).Extends (k :: us) c d := by
  intro hc hs _ _
  have hn := (hc.of_passes (passes_type? ht).choose_spec).accepted hb
  show Reads (.creation _ (.create type.value [] entries (start.spanTo d))) _ _
  rw [← spanTo_extend hs d (k :: us)]
  exact .createEntries (some_of_map (type?_extend hk) ht) (accept?_extend_none hk ho (by decide)) (accept?_extend _ hb)
    (ih.inside hn trivial trivial)

end

/-- An entry of an indexer: its indices are in brackets. -/
theorem entryElement (hk : k.kind = .punct .colon) {indices : List Expr} {bracket : Parsed Token c}
    (ih₁ : (Phrase.bracketed .indices indices).Extends (k :: us) bracket.next c₁)
    (ho : c.accept? (.punct .openBracket) = some bracket) (hs : bracket.next.sees (.punct .closeBracket) = false)
    (h₁ : Reads (.bracketed .indices indices) bracket.next c₁) (ih₂ : (Phrase.entryValue e).Extends (k :: us) c₁ d) :
    (Phrase.entry (.element indices (c.spanTo c₁) e)).Extends (k :: us) c d := by
  intro hc _ _ hb
  have hn := hc.accepted ho
  show Reads (.entry (.element indices (c.spanTo c₁) e)) _ _
  rw [← spanTo_extend (passes_accept? ho).ahead_ne_nil c₁ (k :: us)]
  exact .entryElement (accept?_extend _ ho) (by rw [← hs]; exact sees_extend hk _ (by decide)) (ih₁.inside hn trivial trivial)
    (ih₂.inside (hn.of_passes h₁.passes.choose_spec) trivial hb)

end Phrase.Extends

open Cursor in
/-- What may stand in front of more tokens is read in front of them. -/
theorem Reads.extend (hk : k.kind = .punct .colon) {phrase : Phrase} {c d : Cursor} (h : Reads phrase c d) :
    phrase.Extends (k :: us) c d := by
  -- Along the derivation: in front of what is read behind a part, `later` grows by what that shows; inside of brackets it is `none`.
  induction h with
  | assignEnd h₁ hd ih => exact fun hc hs later hb => (ih hc trivial later hb).assignEnd (accept?_extend_none hk hd (by decide))
  | assign h₁ hd h₂ ih₁ ih₂ => exact ih₁.assign hk h₁ hd h₂ ih₂
  | conditionalEnd h₁ hd ih =>
    exact fun hc hs later hb => (ih hc trivial later hb).conditionalEnd (accept?_extend_none hk hd (by decide))
  | conditional h₁ hq h₂ hc h₃ ih₁ ih₂ ih₃ => exact ih₁.conditional hk h₁ hq h₂ ih₂ hc h₃ ih₃
  | binary h₁ h₂ ih₁ ih₂ => exact ih₁.binary hk h₁ h₂ ih₂
  | operatorsEnd ho => exact fun _ _ _ _ => .operatorsEnd (none_of_map (binOp?_extend hk _) ho)
  | operators ho h₁ h₂ ih₁ ih₂ => exact ih₁.operators hk ho h₁ h₂ ih₂
  | unary ho _ ih => exact ih.unary hk ho
  | postfixed ho h₁ h₂ ih₁ ih₂ => exact ih₁.postfixed hk ho h₁ h₂ ih₂
  | accessesEnd ha => exact fun _ _ later hb => .accessesEnd (hb.ends ha)
  | accesses ha h₁ h₂ ih₁ ih₂ => exact ih₁.accesses hk ha h₁ h₂ ih₂
  | member hn => exact fun hc _ _ _ => .member (memberName_eq_ok_iff.2 (.extend hk (memberName_eq_ok_iff.1 hn)))
  | element hs _ ih =>
    intro hc _ _ _
    exact .element ((sees_extend hk _ (by decide)).trans hs) (ih.inside hc trivial trivial)
  | invoke _ ih => exact fun hc _ _ _ => .invoke (ih.inside hc trivial trivial)
  | listEnd _ hd ih =>
    exact fun hc _ _ hb => (ih hc trivial none (.closed hk hb _)).listEnd (accept?_extend_none hk hd (by decide))
  | list h₁ hm _ ih₁ ih₂ =>
    intro hc _ _ hb
    obtain ⟨ts, hp⟩ := h₁.passes
    exact (ih₁ hc trivial none (.closed hk ⟨_, _, hm, .inl rfl⟩ _)).list (accept?_extend _ hm)
      (ih₂ ((hc.of_passes hp).accepted hm) trivial none hb)
  | @bracketed place _ _ _ _ _ hm ih =>
    exact fun hc _ _ _ =>
      (ih hc trivial none ⟨_, _, hm, .inr (by cases place <;> rfl)⟩).bracketed (accept?_extend _ hm)
  | argsEnd hm => exact fun _ _ _ _ => .argsEnd (accept?_extend _ hm)
  | args hm _ ih => exact fun hc _ _ _ => .args (accept?_extend_none hk hm (by decide)) (ih.inside hc trivial trivial)
  | name ht hs => exact fun _ _ _ _ => .name (accept?_extend _ ht) (by rw [← hs]; exact sees_extend hk _ (by decide))
  | shortLambda ht hs _ ih =>
    intro hc _ later hb
    exact .shortLambda (accept?_extend _ ht) (by rw [← hs]; exact sees_extend hk _ (by decide))
      (ih (hc.accepted ht) (passes_accept? ht).ahead_ne_nil later hb)
  | literal ht hv => exact fun _ _ _ _ => .literal (next?_extend _ ht) hv
  | self ht => exact fun _ _ _ _ => .self (accept?_extend _ ht)
  | create ht _ ih =>
    intro hc _ _ _
    exact .create (accept?_extend _ ht) (ih (hc.accepted ht) (passes_accept? ht).ahead_ne_nil none trivial)
  | longLambda ht ho hp _ ih =>
    intro hc _ later hb
    have hn := (hc.accepted ht).of_passes (passes_lambdaParams hp).choose_spec
    exact .longLambda (accept?_extend _ ht) (by rw [opensLambda_extend hk (behindClose?_of_opensLambda ho).choose_spec, ho])
      (lambdaParams_extend hk hp) (ih hn (passes_accept? ht).ahead_ne_nil later hb)
  | paren ht ho h₁ hm ih => exact ih.paren hk ht ho h₁ hm
  | lambda hr _ ih => exact ih.lambda hk hr
  | createArgs ht ho _ hb ih => exact ih.createArgs hk ht ho hb
  | createBoth ht ho h₁ hb _ ih₁ ih₂ => exact ih₁.createBoth hk ht ho h₁ hb ih₂
  | createEntries ht ho hb _ ih => exact ih.createEntries hk ht ho hb
  | entriesEnd hm => exact fun _ _ _ _ => .entriesEnd (accept?_extend _ hm)
  | entriesLast hb _ hd hm ih =>
    exact fun hc _ _ _ => .entriesLast (accept?_extend_none hk hb (by decide)) (ih hc trivial none ⟨_, _, hm, .inr rfl⟩)
      (accept?_extend_none hk hd (by decide)) (accept?_extend _ hm)
  | entries hb h₁ hm _ ih₁ ih₂ =>
    intro hc _ _ _
    have hn := (hc.of_passes h₁.passes.choose_spec).accepted hm
    exact .entries (accept?_extend_none hk hb (by decide)) (ih₁ hc trivial none ⟨_, _, hm, .inl rfl⟩) (accept?_extend _ hm)
      (ih₂ hn trivial none trivial)
  | entryElement ho hs h₁ _ ih₁ ih₂ => exact ih₁.entryElement hk ho hs h₁ ih₂
  | entryMember ho hn _ ih =>
    intro hc _ _ hb
    have hn := entryName_eq_ok_iff.1 hn
    exact .entryMember (accept?_extend_none hk ho (by decide)) (entryName_eq_ok_iff.2 (.extend hk hn))
      (ih (hc.of_passes hn.passes.choose_spec) trivial none hb)
  | entryValue hs _ ih =>
    exact fun hc _ _ hb => .entryValue (accept?_extend _ hs) (ih (hc.accepted hs) trivial none (.closed hk hb _))

/-! ## Conditionals put together -/

namespace Cursor

variable {c : Cursor} {q : Parsed Token c}

theorem accept?_cons (passed ts : List Token) {t : Token} {kind : TokenKind} (hk : t.kind = kind) :
    (Cursor.mk passed (t :: ts)).accept? kind = some ⟨t, ⟨t :: passed, ts⟩, Nat.lt_succ_self _⟩ := by
  simp [accept?, next?, hk]

/-- No access begins where the `?` of a conditional is ahead: an operand follows it, and if this is a parenthesis, the `?` is not
taken for a guard. -/
theorem accessStart?_of_branch {pending : Nat} {t : Token} {ts : List Token} (hq : c.accept? (.punct .question) = some q)
    (ha : q.next.ahead = t :: ts) (ht : t.startsOperand = true)
    (hg : t.kind = .punct .openParen → guards pending q.next.ahead = false) : c.accessStart? pending = none := by
  cases hm : q.next.accessMark? with
  | none => simp [accessStart?, hq, hm]
  | some p =>
    obtain ⟨u, hp, hk⟩ := mark_of_accessMark? hm
    obtain ⟨rfl, -⟩ := List.cons.inj (ha.symm.trans hp.1)
    cases hv : p.value with
    | dot | bracket =>
      rw [hv] at hk
      simp [Token.startsOperand, hk, AccessStart.mark] at ht
    | paren =>
      rw [hv] at hk
      have hg := hg hk
      rw [guards] at hg
      simp [accessStart?, hq, hm, hv, hg]

end Cursor

/-- What is read from a then-branch alone is read in front of its `:`. -/
theorem Reads.before_colon (hk : k.kind = .punct .colon) {x : Expr} {c d : Cursor} (h : Reads (.assign 0 x) c d)
    (hc : c.FromSource) (hd : d.ahead = []) (hg : guards 0 us = true) (hx : x.keepsBranches false = true) :
    Reads (.assign 1 x) (c.extend (k :: us)) (d.extend (k :: us)) := by
  refine h.extend hk hc trivial (some false) ⟨fun b hb => ?_, fun hn => ?_, ?_⟩
  · rwa [← Option.some.inj hb]
  · refine Cursor.accessStart?_extend_none hk (Cursor.accept?_eq_none ?_) _ hn
    rw [hd]
    exact heads_nil _
  · rw [hd, Waits, List.nil_append, guards_colon _ hk]
    exact ⟨hg, guards_colon_zero _ hk⟩

/-- A name, a `?`, what is read as a then-branch alone, a `:` and what is read as an else-branch alone are read as a conditional, if
the then-branch stands between the marks. -/
theorem Reads.branches {n q : Token} (hn : n.kind = .name) (hq : q.kind = .punct .question) (hk : k.kind = .punct .colon)
    {ts : List Token} {x y : Expr} {d d' : Cursor} (hx : Reads (.assign 0 x) ⟨[q, n], ts⟩ d) (hd : d.ahead = [])
    (hy : Reads (.assign 0 y) ⟨k :: d.passed, us⟩ d') (hd' : d'.ahead = []) (hts : (Cursor.mk [q, n] ts).FromSource)
    (hus : (Cursor.mk (k :: d.passed) us).FromSource) (hb : x.standsBetween = true) :
    ∃ span, Reads (.assign 0 (.conditional (.name n.lexeme n.span) x y span)) (Cursor.start (n :: q :: (ts ++ k :: us))) d' := by
  obtain ⟨hparen, hkeeps⟩ := Bool.and_eq_true_iff.1 hb
  obtain ⟨ts', hp, hder⟩ := hx.derived hts.order
  obtain rfl : ts = ts' := by simpa [hd] using hp.1
  obtain ⟨us', hp', -, hskips⟩ : Cursor.Shows _ y.strays d' := hy.shown hus
  obtain rfl : us = us' := by simpa [hd'] using hp'.1
  have hbehind : guards 0 us = true := by simpa using (hskips []).guards (guards_nil 0)
  have hthen := hx.before_colon hk hts hd hbehind hkeeps
  -- The `?` behind the name is not taken for a guard, and nothing else goes on with it.
  have hbranch : (Cursor.mk [n] (q :: (ts ++ k :: us))).accessStart? 0 = none := by
    obtain ⟨t, more, rfl, ht, hopen⟩ := hder.begins
    refine Cursor.accessStart?_of_branch (Cursor.accept?_cons [n] _ hq) List.cons_append ht fun hk' => ?_
    rw [hopen hk', Bool.true_and, Bool.not_eq_true'] at hparen
    have hs := hder.skipped (hx.spellable hts.genuine) (k :: us)
    rw [hparen] at hs
    exact (hs 0).trans (guards_colon_zero us hk)
  have hname : Reads (.binary 0 0 (.name n.lexeme n.span)) (Cursor.start (n :: q :: (ts ++ k :: us)))
      ⟨[n], q :: (ts ++ k :: us)⟩ := by
    refine .binary (.postfixed ?_ (.name (Cursor.accept?_cons [] _ hn) ?_) (.accessesEnd hbranch)) (.operatorsEnd ?_)
    · simp [Cursor.start, Cursor.unOp?, Cursor.next?, Token.unOp?, hn]
    · simp [Cursor.sees, hq]
    · simp [Cursor.binOp?, Cursor.next?, Token.binOp?, hq]
  have hcolon : (d.extend (k :: us)).accept? (.punct .colon) =
      some ⟨k, ⟨k :: d.passed, us⟩, by simp [Cursor.extend, hd]⟩ := by
    obtain ⟨passed, ahead⟩ := d
    obtain rfl : ahead = [] := hd
    exact Cursor.accept?_cons passed us hk
  refine ⟨_, (hname.conditional (Cursor.accept?_cons [n] _ hq) hthen hcolon hy).assignEnd (Cursor.accept?_eq_none ?_)⟩
  rw [hd']
  exact heads_nil _

end NavCheck
