import NavCheck.Proofs.Grammar

/-!
# Reading without recovery

An action that finds no error passes over nothing: it passes its tokens one by one, and they belong to the language of its
outcome. `Reading.Completes` says that of an action behind tokens that are passed already. Behind a fault the language of what
was passed is empty, so all that an action must do there is to keep the error that was found.
-/

namespace NavCheck

/-! ## Types -/

namespace Grammar

/-- A sequence of a language stands in front of the rest of tokens. -/
def Leaves (L : Language Token) (tokens rest : List Token) : Prop :=
  ∃ ts ∈ L, tokens = ts ++ rest

namespace Leaves

variable {L M : Language Token} {tokens rest last : List Token}

/-- No token stands in front of all of them. -/
theorem nothing (tokens : List Token) : Leaves 1 tokens tokens :=
  ⟨[], Language.nil_mem_one, rfl⟩

/-- Two sequences stand one behind the other in front of the rest. -/
theorem trans (h : Leaves L tokens rest) (h' : Leaves M rest last) : Leaves (L * M) tokens last := by
  obtain ⟨ts, ht, rfl⟩ := h
  obtain ⟨us, hu, rfl⟩ := h'
  exact ⟨ts ++ us, Language.append_mem_mul ht hu, (List.append_assoc ..).symm⟩

/-- A token of a kind stands in front of the others. -/
theorem single {t : Token} {kind : TokenKind} (h : t.is kind = true) (tokens : List Token) :
    Leaves (token kind) (t :: tokens) tokens :=
  ⟨[t], ⟨t, beq_iff_eq.1 h, rfl⟩, rfl⟩

end Leaves

end Grammar

namespace TypeExpr

open Grammar (Leaves)

/-- The suffixes of a type stand in front of what the scan leaves. -/
theorem scanSuffixes_leaves (last : Span) (tokens : List Token) :
    Leaves (Grammar.row Grammar.suffix (scanSuffixes last tokens).1) tokens (scanSuffixes last tokens).2.2 := by
  have more (s : TypeSuffix) (list : List TypeSuffix) : Grammar.row Grammar.suffix (s :: list) =
      Grammar.suffix s * Grammar.row Grammar.suffix list := Grammar.row_append _ [s] list ▸ by rw [Grammar.row_singleton]
  fun_induction scanSuffixes last tokens with
  | case3 last t rest hq _ suffixes last' rest' hs ih =>
    rw [hs] at ih
    exact more .nullable _ ▸ (Leaves.single hq rest).trans ih
  | case4 last t hq hb close rest' hc suffixes last' rest'' hs ih =>
    rw [hs] at ih
    exact more .array _ ▸ ((Leaves.single hb _).trans (Leaves.single hc rest')).trans ih
  | _ => exact .nothing _

mutual

/-- The tokens of a type that is read. -/
theorem scan?_leaves (tokens : List Token) (s : TypeScan TypeExpr tokens) (h : scan? tokens = some s) :
    Leaves (Grammar.type s.value) tokens s.rest := by
  cases tokens with
  | nil => rw [scan?] at h; cases h
  | cons first rest =>
    rw [scan?] at h
    dsimp only at h
    split at h
    · rename_i hname
      cases ha : scanArgs? first.span rest with
      | none => rw [ha] at h; cases h
      | some after =>
        obtain ⟨args, last, afterArgs, hl⟩ := after
        rw [ha] at h
        cases h
        have name : Leaves (Grammar.anyName first.lexeme) (first :: rest) rest := by
          obtain ⟨kind, lexeme, span⟩ := first
          cases beq_iff_eq.1 hname
          exact ⟨_, ⟨span, rfl⟩, rfl⟩
        rw [Grammar.type]
        exact (name.trans (scanArgs?_leaves first.span rest _ ha)).trans (scanSuffixes_leaves _ _)
    · cases h
termination_by 2 * tokens.length

/-- The tokens of the arguments of a type. -/
theorem scanArgs?_leaves (last : Span) (tokens : List Token)
    (s : List TypeExpr × Span × { rest : List Token // rest.length ≤ tokens.length }) (h : scanArgs? last tokens = some s) :
    Leaves (Grammar.typeArgs s.1) tokens s.2.2.1 := by
  cases tokens with
  | nil => rw [scanArgs?] at h; cases h; rw [Grammar.typeArgs]; exact .nothing _
  | cons t rest =>
    rw [scanArgs?] at h
    split at h
    · rename_i hless
      rw [Option.map_eq_some_iff] at h
      obtain ⟨s, hs, rfl⟩ := h
      obtain ⟨arg, args, hv, hl⟩ := scanArgList?_leaves rest s hs
      rw [hv, Grammar.typeArgs, mul_assoc, mul_assoc]
      rw [mul_assoc] at hl
      exact (Leaves.single hless rest).trans hl
    · cases h
      rw [Grammar.typeArgs]
      exact .nothing _
termination_by 2 * tokens.length + 1

/-- The tokens of types with commas between them and of the closing angle bracket. -/
theorem scanArgList?_leaves (tokens : List Token) (s : TypeScan (List TypeExpr) tokens) (h : scanArgList? tokens = some s) :
    ∃ arg args, s.value = arg :: args ∧
      Leaves (Grammar.type arg * Grammar.moreTypes args * Grammar.sign .greater) tokens s.rest := by
  rw [scanArgList?] at h
  cases ha : scan? tokens with
  | none => rw [ha] at h; cases h
  | some arg =>
    rw [ha] at h
    have first := scan?_leaves tokens arg ha
    dsimp only at h
    split at h
    · cases h
    · rename_i t rest hr
      rw [hr] at first
      have hlt : rest.length < tokens.length := by
        have hs := arg.shorter
        rw [hr, List.length_cons] at hs
        omega
      split at h
      · rename_i hcomma
        rw [Option.map_eq_some_iff] at h
        obtain ⟨more, hm, rfl⟩ := h
        obtain ⟨arg', args, hv, hl⟩ := scanArgList?_leaves rest more hm
        refine ⟨arg.value, more.value, rfl, ?_⟩
        rw [hv, Grammar.moreTypes]
        simp only [mul_assoc] at hl ⊢
        exact first.trans ((Leaves.single hcomma rest).trans hl)
      · split at h
        · rename_i hgreater
          cases h
          refine ⟨arg.value, [], rfl, ?_⟩
          rw [Grammar.moreTypes, mul_one]
          exact first.trans (Leaves.single hgreater rest)
        · cases h
termination_by 2 * tokens.length + 1

end

end TypeExpr

/-- The tokens that are passed for a type. -/
theorem Cursor.type?_passes {c : Cursor} {p : Parsed TypeExpr c} (h : c.type? = some p) :
    ∃ ts ∈ Grammar.type p.value, c.Passes ts p.next := by
  unfold type? at h
  rw [Option.map_eq_some_iff] at h
  obtain ⟨s, hs, rfl⟩ := h
  obtain ⟨ts, ht, he⟩ := TypeExpr.scan?_leaves c.ahead s hs
  refine ⟨ts, ht, he, ?_⟩
  have hl : c.ahead.length - s.rest.length = ts.length := by simp [he]
  simp only [advanceTo, hl]
  rw [he, List.take_left]

/-! ## Actions -/

/-- The number of errors that are found. -/
def Reader.errors (r : Reader) : Nat :=
  r.sink.found.countP (·.isError)

/-- From one state of reading to a later one: no error is taken back, and nothing that recovery passed over is forgotten. -/
structure Reader.Grows (r s : Reader) : Prop where
  errors : r.errors ≤ s.errors
  skipped : r.skipped <+: s.skipped

namespace Reader.Grows

variable {r s t : Reader}

/-- Nothing is taken back where nothing happens. -/
theorem refl (r : Reader) : r.Grows r :=
  ⟨le_rfl, List.prefix_rfl⟩

/-- What is not taken back in two stretches is not taken back in both together. -/
theorem trans (h : r.Grows s) (h' : s.Grows t) : r.Grows t :=
  ⟨h.errors.trans h'.errors, h.skipped.trans h'.skipped⟩

/-- When no error is found from the first state to the last, none is found on the way. -/
theorem between (h : r.Grows s) (h' : s.Grows t) (he : t.errors = r.errors) : s.errors = r.errors ∧ t.errors = s.errors := by
  have := h.errors
  have := h'.errors
  omega

end Reader.Grows

/-- Tokens of a language lead from one state of reading to another: they are passed, and none is passed over. -/
def Reader.Reaches (r : Reader) (L : Language Token) (s : Reader) : Prop :=
  s.skipped = r.skipped ∧ ∃ ts ∈ L, r.cursor.Passes ts s.cursor

namespace Reader.Reaches

variable {r s t : Reader} {L M : Language Token}

/-- No tokens lead nowhere. -/
theorem refl (r : Reader) : r.Reaches 1 r :=
  ⟨rfl, [], Language.nil_mem_one, .refl _⟩

/-- Tokens that lead on, and then tokens that lead on from there. -/
theorem trans (h : r.Reaches L s) (h' : s.Reaches M t) : r.Reaches (L * M) t := by
  obtain ⟨hs, ts, ht, hp⟩ := h
  obtain ⟨hs', us, hu, hp'⟩ := h'
  exact ⟨hs'.trans hs, ts ++ us, Language.append_mem_mul ht hu, hp.trans hp'⟩

/-- Tokens that lead on are tokens of any larger language. -/
theorem mono (h : r.Reaches L s) (hL : ∀ ts ∈ L, ts ∈ M) : r.Reaches M s := by
  obtain ⟨hs, ts, ht, hp⟩ := h
  exact ⟨hs, ts, hL ts ht, hp⟩

/-- From a state that is reached with nothing. -/
theorem on (h : r.Reaches 1 s) (h' : s.Reaches M t) : r.Reaches M t := by
  simpa only [one_mul] using h.trans h'

/-- Nothing is reached by tokens of no language. -/
theorem not_zero : ¬ r.Reaches 0 s := by
  rintro ⟨-, ts, ht, -⟩
  exact Language.notMem_zero ts ht

/-- A language without the empty sequence leads forward. -/
theorem remaining_lt (h : r.Reaches L s) (hL : [] ∉ L) : s.remaining < r.remaining := by
  obtain ⟨-, ts, ht, hp, -⟩ := h
  unfold remaining
  rw [hp, List.length_append]
  cases ts with
  | nil => exact absurd ht hL
  | cons t ts => simp only [List.length_cons]; omega

end Reader.Reaches

/-- One state leads to a later one, by tokens of a language when no error is found between them. -/
def Reader.Leads (r : Reader) (L : Language Token) (s : Reader) : Prop :=
  r.Grows s ∧ (s.errors = r.errors → r.Reaches L s)

namespace Reader.Leads

variable {r s t : Reader} {L M : Language Token}

/-- A state leads to itself. -/
theorem refl (r : Reader) : r.Leads 1 r :=
  ⟨.refl r, fun _ => .refl r⟩

/-- Two stretches make one. -/
theorem trans (h : r.Leads L s) (h' : s.Leads M t) : r.Leads (L * M) t := by
  refine ⟨h.1.trans h'.1, fun he => ?_⟩
  obtain ⟨hs, ht⟩ := h.1.between h'.1 he
  exact (h.2 hs).trans (h'.2 ht)

/-- A state leads to another by any larger language. -/
theorem mono (h : r.Leads L s) (hL : ∀ ts ∈ L, ts ∈ M) : r.Leads M s :=
  ⟨h.1, fun he => (h.2 he).mono hL⟩

/-- Behind something that must be there and is not, the language does not matter. -/
theorem of_given_none {α : Type} {f : α → Language Token} (h : r.Leads (L * Grammar.given f none) s) : r.Leads M s :=
  h.mono fun _ ht => (Grammar.notMem_given_none ht).elim

/-- A token that is accepted leads on by itself. -/
theorem accept? {kind : TokenKind} {p : Parsed Token r.cursor} (h : r.cursor.accept? kind = some p) :
    r.Leads (Grammar.token kind) { r with cursor := p.next } :=
  ⟨⟨le_rfl, List.prefix_rfl⟩, fun _ =>
    ⟨rfl, [p.value], ⟨p.value, (Cursor.next?_of_accept? h).2, rfl⟩, Cursor.passes_accept? h⟩⟩

end Reader.Leads

namespace Reading

variable {α β : Type} {a : Reading α} {k : α → Reading β} {P Q : Language Token} {f : α → Language Token}
  {g : β → Language Token}

/-- An action takes no error back and forgets nothing that was passed over. -/
def Retains (a : Reading α) : Prop :=
  ∀ r : Reader, r.Grows (a.run r).2

/-- Behind tokens of the language `P` that lead to the state `r`, an action that finds no error passes nothing over, and the
tokens with those that it passes belong to the language of its outcome. -/
def CompletesAt (r : Reader) (P : Language Token) (a : Reading α) (f : α → Language Token) : Prop :=
  r.Grows (a.run r).2 ∧
    ((a.run r).2.errors = r.errors → ∀ start : Reader, start.Reaches P r → start.Reaches (f (a.run r).1) (a.run r).2)

/-- An action completes tokens of `P` at every state. -/
def Completes (P : Language Token) (a : Reading α) (f : α → Language Token) : Prop :=
  ∀ r, a.CompletesAt r P f

/-- The tokens of an action that finds no error belong to the language of its outcome. -/
abbrev Takes (a : Reading α) (f : α → Language Token) : Prop :=
  a.Completes 1 f

/-- What was passed already may be known better. -/
theorem Completes.behind (h : a.Completes Q f) (hP : ∀ ts ∈ P, ts ∈ Q) : a.Completes P f :=
  fun r => ⟨(h r).1, fun he start hs => (h r).2 he start (hs.mono hP)⟩

/-- An action that reads nothing completes tokens that belong to its outcome already. -/
theorem completes_pure {v : α} (h : ∀ ts ∈ P, ts ∈ f v) : (pure v : Reading α).Completes P f :=
  fun r => ⟨.refl r, fun _ _ hs => hs.mono h⟩

/-- An outcome whose language was passed already. -/
theorem completes_return {v : α} (h : P = f v) : (pure v : Reading α).Completes P f :=
  completes_pure fun _ ht => h ▸ ht

/-- Two actions one behind the other, from one state on. -/
theorem CompletesAt.bind {r : Reader} (h : a.CompletesAt r P f)
    (hk : (k (a.run r).1).CompletesAt (a.run r).2 (f (a.run r).1) g) : (a >>= k).CompletesAt r P g := by
  refine ⟨h.1.trans hk.1, fun he start hs => ?_⟩
  obtain ⟨hm, hr⟩ := h.1.between hk.1 he
  exact hk.2 hr start (h.2 hm start hs)

/-- An action and what goes on with its outcome. -/
theorem Completes.bind (h : a.Completes P f) (hk : ∀ v, (k v).Completes (f v) g) : (a >>= k).Completes P g :=
  fun r => (h r).bind (hk _ _)

/-- What an action takes stands behind what was passed before. -/
theorem Takes.frame (h : a.Takes f) : a.Completes P fun v => P * f v :=
  fun r => ⟨(h r).1, fun he _ hs => hs.trans ((h r).2 he r (.refl r))⟩

/-- An action that takes tokens and what goes on behind them. -/
theorem Takes.then (h : a.Takes f) (hk : ∀ v, (k v).Completes (P * f v) g) : (a >>= k).Completes P g :=
  h.frame.bind hk

/-- An action completes tokens to any larger language. -/
theorem Completes.mono {f' : α → Language Token} (h : a.Completes P f) (hf : ∀ v, ∀ ts ∈ f v, ts ∈ f' v) :
    a.Completes P f' :=
  fun r => ⟨(h r).1, fun he start hs => ((h r).2 he start hs).mono (hf _)⟩

/-- An action that completes tokens takes nothing back. -/
theorem Completes.retains (h : a.Completes P f) : a.Retains :=
  fun r => (h r).1

/-- Two actions that take nothing back, one behind the other. -/
theorem Retains.then (h : a.Retains) (hk : ∀ v, (k v).Retains) : (a >>= k).Retains :=
  fun r => (h r).trans (hk _ _)

/-- Behind a fault nothing has to be taken any more. -/
theorem Retains.completes (h : a.Retains) : a.Completes (P * 0) f := by
  refine fun r => ⟨h r, fun _ start hs => ?_⟩
  rw [mul_zero] at hs
  exact absurd hs Reader.Reaches.not_zero

/-- Behind tokens of no language there is nothing to complete. -/
theorem Retains.completes' (h : a.Retains) (hP : P = 0) : a.Completes P f := by
  rw [← mul_zero 0] at hP
  exact hP ▸ h.completes

section

variable {read : Reading (Option α)}

/-- What must be there stands behind what was passed before. -/
theorem Takes.given (h : read.Takes (Grammar.given f)) : read.Completes P (Grammar.given fun v => P * f v) :=
  h.frame.mono fun o _ ht => match o with
    | none => (Grammar.notMem_given_none ht).elim
    | some _ => ht

/-- An action that gives something completes it as something optional. -/
theorem Completes.optional (h : read.Completes P (Grammar.given f)) : read.Completes P (Grammar.optional f) :=
  h.mono fun o ts ht => match o with
    | none => (Language.notMem_zero ts ht).elim
    | some _ => ht

/-- An outcome put into a larger one. -/
theorem Completes.map {wrap : α → β} (h : read.Completes P (Grammar.given fun v => g (wrap v))) :
    Completes P (do return (← read).map wrap) (Grammar.given g) := by
  refine h.bind fun o => completes_return ?_
  cases o <;> rfl

end

/-- What an action takes from the place where it begins. -/
theorem Takes.reaches (h : a.Takes f) {r : Reader} (he : (a.run r).2.errors = r.errors) :
    r.Reaches (f (a.run r).1) (a.run r).2 :=
  (h r).2 he r (.refl r)

/-- An action leads from a state to the one behind it. -/
theorem Takes.leads (h : a.Takes f) (r : Reader) : r.Leads (f (a.run r).1) (a.run r).2 :=
  ⟨(h r).1, h.reaches⟩

/-! ## The basic actions -/

/-- An action that reads nothing takes nothing back. -/
theorem retains_pure (v : α) : Retains (pure v : Reading α) :=
  fun r => .refl r

/-- An action that leaves everything as it is. -/
def Quiet (a : Reading α) : Prop :=
  ∀ r, (a.run r).2 = r

/-- An action that leaves everything as it is takes nothing back. -/
theorem Quiet.retains (h : a.Quiet) : a.Retains :=
  fun r => (h r).symm ▸ .refl r

/-- An action that leaves everything as it is does not matter in front of another one. -/
theorem Quiet.then (h : a.Quiet) (hk : ∀ v, (k v).Completes P g) : (a >>= k).Completes P g := by
  intro r
  obtain ⟨hm, hs⟩ := hk (a.run r).1 (a.run r).2
  have he : (a.run r).2.errors = r.errors := by rw [h r]
  exact ⟨(h.retains r).trans hm, fun hr start hp => hs (hr.trans he.symm) start (by rwa [h r])⟩

/-- Looking at the cursor leaves everything as it is. -/
theorem quiet_cursor : Quiet cursor :=
  fun _ => rfl

/-- What goes on with the place of the cursor. -/
theorem completesAt_cursor {r : Reader} {k : Cursor → Reading α} (h : (k r.cursor).CompletesAt r P f) :
    (cursor >>= k).CompletesAt r P f :=
  h

/-- Looking at the next token leaves everything as it is. -/
theorem quiet_found? : Quiet found? :=
  fun _ => rfl

/-- Testing the next token leaves everything as it is. -/
theorem quiet_sees (kind : TokenKind) : Quiet (sees kind) :=
  fun _ => rfl

/-- Taking the span from a start leaves everything as it is. -/
theorem quiet_spanFrom (start : Cursor) : Quiet (spanFrom start) :=
  fun _ => rfl

/-- A report adds one error. -/
theorem errors_report (fault : DeclFault) (span : Option Span) (r : Reader) :
    ((report fault span).run r).2.errors = r.errors + 1 := by
  have he : (Sink.withCode r.sink.hash r.sink.area (Diagnostic.error fault.message span)).isError = true := rfl
  simp [report, Reader.errors, Sink.pushError, Sink.push, he]

/-- A report has no tokens to take: there is an error. -/
theorem takes_report (fault : DeclFault) (span : Option Span) : (report fault span).Takes fun _ => 0 := by
  intro r
  have he := errors_report fault span r
  exact ⟨⟨by omega, List.prefix_rfl⟩, fun h => by omega⟩

/-- Behind a report there is nothing to complete, only nothing to take back. -/
theorem completes_report (fault : DeclFault) (span : Option Span) {k : Unit → Reading α} (hk : (k ()).Retains) :
    (report fault span >>= k).Completes P f :=
  (takes_report fault span).then fun _ => hk.completes

/-- A report that is made in some cases only, and what goes on in all of them. -/
theorem completes_reportIf {c : Prop} [Decidable c] {fault : DeclFault} {span : Option Span} {k : Unit → Reading α}
    (hk : (k ()).Completes P f) : (if c then report fault span >>= k else k ()).Completes P f := by
  split
  · exact completes_report _ _ hk.retains
  · exact hk

/-- The same for a report whose place is asked for first. -/
theorem completes_locatedReportIf {c : Prop} [Decidable c] {σ : Type} {here : Reading σ} (hq : here.Quiet) {fault : DeclFault}
    {span : σ → Option Span} {k : Unit → Reading α} (hk : (k ()).Completes P f) :
    (if c then here >>= fun s => report fault (span s) >>= k else k ()).Completes P f := by
  split
  · exact hq.then fun _ => completes_report _ _ hk.retains
  · exact hk

/-- A report at the next token has no tokens to take. -/
theorem takes_reportHere (fault : DeclFault) : (reportHere fault).Takes fun _ => 0 :=
  quiet_cursor.then fun _ => takes_report _ _

/-- A function of cursors takes the tokens that it passes, or none. -/
theorem completesAt_pass {r : Reader} {read : (c : Cursor) → Option (Parsed α c)} {f : Option α → Language Token}
    (hs : ∀ p, read r.cursor = some p → ∃ ts ∈ f (some p.value), r.cursor.Passes ts p.next) (hn : f none = 1) :
    (pass read).CompletesAt r 1 f := by
  unfold pass CompletesAt
  simp only [ofStep]
  cases hread : read r.cursor with
  | none => exact ⟨.refl r, fun _ start h => by rwa [hn]⟩
  | some p =>
    obtain ⟨ts, ht, hp⟩ := hs p hread
    have reached : r.Reaches (f (some p.value)) { r with cursor := p.next } := ⟨rfl, ts, ht, hp⟩
    exact ⟨⟨le_rfl, List.prefix_rfl⟩, fun _ start h => h.on reached⟩

/-- The same at every state. -/
theorem takes_pass {read : (c : Cursor) → Option (Parsed α c)} {f : Option α → Language Token}
    (hs : ∀ c p, read c = some p → ∃ ts ∈ f (some p.value), c.Passes ts p.next) (hn : f none = 1) : (pass read).Takes f :=
  fun r => completesAt_pass (hs r.cursor) hn

/-- Skipping takes no error back and keeps what was passed over. -/
theorem retains_skip (count : Nat) : Retains (skip count) :=
  fun _ => ⟨le_rfl, List.prefix_append _ _⟩

/-- So does recovery. -/
theorem retains_skipBy (rule : List Token → Nat) : Retains (skipBy rule) :=
  fun r => retains_skip _ r

/-- A token of a kind, or nothing. -/
theorem takes_accept? (kind : TokenKind) : (accept? kind).Takes (Grammar.optional fun t => {ts | t.kind = kind ∧ ts = [t]}) :=
  takes_pass (fun _ _ h => ⟨_, ⟨(Cursor.next?_of_accept? h).2, rfl⟩, Cursor.passes_accept? h⟩) rfl

/-- An acceptance takes its token, or none. -/
theorem takes_accept (kind : TokenKind) : (accept kind).Takes fun b => cond b (Grammar.token kind) 1 := by
  refine (takes_accept? kind).then fun o => completes_pure fun ts ht => ?_
  rw [one_mul] at ht
  cases o with
  | none => exact ht
  | some t => exact ⟨t, ht⟩

/-- An expected mark is taken, or missed with an error. -/
theorem takes_expect (mark : Punct) : (expect mark).Takes fun b => cond b (Grammar.mark mark) 0 := by
  refine (takes_accept _).then fun b => ?_
  cases b
  · exact quiet_found?.then fun _ => (takes_reportHere _).then fun _ => (retains_pure _).completes
  · exact completes_return (one_mul _)

/-- An expected name is taken, or missed with an error. -/
theorem takes_expectName (what : DeclName) :
    (expectName what).Takes (Grammar.given fun t => Grammar.name t.lexeme t.span) := by
  refine (takes_accept? .name).then fun o => ?_
  cases o with
  | none => exact quiet_found?.then fun _ => (takes_reportHere _).then fun _ => (retains_pure _).completes
  | some t =>
    refine completes_pure fun ts ht => ?_
    rw [one_mul] at ht
    obtain ⟨hk, rfl⟩ := ht
    obtain ⟨kind, lexeme, span⟩ := t
    cases hk
    rfl

/-- An expected type is taken, or missed with an error. -/
theorem takes_expectType (place : TypePlace) : (expectType place).Takes (Grammar.given Grammar.type) := by
  have type? : (pass Cursor.type?).Takes (Grammar.optional Grammar.type) := takes_pass (fun _ _ => Cursor.type?_passes) rfl
  refine type?.then fun o => ?_
  cases o with
  | none => exact quiet_found?.then fun _ => (takes_reportHere _).then fun _ => (retains_pure _).completes
  | some t => exact completes_return (one_mul _)

/-- An expression is taken, or missed with an error. -/
theorem takes_expr : expr.Takes (Grammar.given Grammar.expr) := by
  have read : expr?.Takes fun o => o.toOption.elim 1 Grammar.expr := by
    intro r
    unfold expr? CompletesAt
    simp only [ofStep]
    cases hread : Expr.readAssign 0 r.cursor with
    | error e => exact ⟨.refl r, fun _ _ => id⟩
    | ok p =>
      have reads := reads_of_readAssign 0 r.cursor p hread
      obtain ⟨ts, hp⟩ := reads.passes
      have reached : r.Reaches (Grammar.expr p.value) { r with cursor := p.next } := ⟨rfl, ts, ⟨_, _, reads, hp⟩, hp⟩
      exact ⟨⟨le_rfl, List.prefix_rfl⟩, fun _ start h => h.on reached⟩
  refine read.then fun o => ?_
  cases o with
  | error e => exact completes_report _ _ ((retains_skipBy _).then fun _ => retains_pure _)
  | ok e => exact completes_return (one_mul _)

/-! ## Loops -/

/-- The rounds of a loop: `I` is passed in front of a round, and `J` in the end. A round that asks for another passes a token,
so the loop does not end before its time. -/
theorem completes_iterate {σ : Type} {round : σ → Reading (σ × Bool)} {L : σ → σ × Bool → Language Token}
    {I J : σ → Language Token} (h : ∀ s, (round s).Takes (L s)) (hne : ∀ s s', [] ∉ L s (s', true))
    (hI : ∀ s s', ∀ ts ∈ I s * L s (s', true), ts ∈ I s') (hJ : ∀ s s', ∀ ts ∈ I s * L s (s', false), ts ∈ J s') (s : σ) :
    (iterate round s).Completes (I s) J := by
  intro r
  show r.Grows (iterateFrom round s r).next ∧ ((iterateFrom round s r).next.errors = r.errors → ∀ start : Reader,
    start.Reaches (I s) r → start.Reaches (J (iterateFrom round s r).value) (iterateFrom round s r).next)
  fun_induction iterateFrom round s r with
  | case1 s r first hc rest ih =>
    have hf : r.Grows first.next := (h s r).1
    refine ⟨hf.trans ih.1, fun he start hi => ?_⟩
    obtain ⟨hm, hr⟩ := hf.between ih.1 he
    have reached : r.Reaches (L s first.value) first.next := (h s).reaches hm
    refine ih.2 hr start ((hi.trans reached).mono ?_)
    rw [show first.value = (first.value.1, true) by rw [← hc.1]]
    exact hI s _
  | case2 s r first hc =>
    refine ⟨(h s r).1, fun he start hi => ?_⟩
    have reached : r.Reaches (L s first.value) first.next := (h s).reaches he
    refine (hi.trans reached).mono ?_
    have hv : first.value.2 = false := by
      by_contra hne'
      have ht : first.value.2 = true := by simpa using hne'
      rw [show first.value = (first.value.1, true) by rw [← ht]] at reached
      exact hc ⟨ht, reached.remaining_lt (hne s _)⟩
    rw [show first.value = (first.value.1, false) by rw [← hv]]
    exact hJ s _

section

variable {σ : Type}

/-- What a round takes that reads on and asks for another round, or else ends the loop and leaves everything as it is. -/
def turn (step : σ → σ → Language Token) (s : σ) (v : σ × Bool) : Language Token :=
  cond v.2 (step s v.1) {ts | v.1 = s ∧ ts = []}

/-- A loop completes what its rounds take one behind the other. No round that goes on takes nothing. -/
theorem completes_turns {round : σ → Reading (σ × Bool)} (step : σ → σ → Language Token) {I : σ → Language Token}
    (h : ∀ s, (round s).Takes (turn step s)) (hne : ∀ s s', [] ∉ step s s') (hI : ∀ s s', ∀ ts ∈ I s * step s s', ts ∈ I s')
    (s : σ) : (iterate round s).Completes (I s) I := by
  refine completes_iterate h hne hI ?_ s
  rintro s _ _ ⟨us, hu, _, ⟨rfl, rfl⟩, rfl⟩
  show us ++ [] ∈ I _
  rwa [List.append_nil]

/-- A list with one more item. -/
def oneMore (f : α → Language Token) (list list' : List α) : Language Token :=
  {ts | ∃ a, list' = list ++ [a] ∧ ts ∈ f a}

/-- Items one behind the other, none of them empty. -/
theorem takes_row {round : List α → Reading (List α × Bool)} (h : ∀ list, (round list).Takes (turn (oneMore f) list))
    (hf : ∀ a, [] ∉ f a) : (iterate round []).Takes (Grammar.row f) := by
  refine completes_turns (oneMore f) (I := Grammar.row f) h ?_ ?_ []
  · rintro list list' ⟨a, -, hn⟩
    exact hf a hn
  · rintro list _ ts ⟨us, hu, vs, ⟨a, rfl, hv⟩, rfl⟩
    rw [Grammar.row_append, Grammar.row_singleton]
    exact Language.append_mem_mul hu hv

variable (items : σ → List α) (p : σ → Prop) {s : σ}

/-- What a round of a list with commas takes: it reads an item, and asks for another when a comma is behind it. -/
def commaTurn (f : α → Language Token) (s : σ) (v : σ × Bool) : Language Token :=
  {ts | ∃ a, items v.1 = items s ++ [a] ∧ (p s → p v.1) ∧ ts ∈ f a * cond v.2 (Grammar.mark .comma) 1}

/-- Items with commas between them. The property `p` holds in front of the first item and is kept by every round. -/
theorem takes_commas {round : σ → Reading (σ × Bool)} (h : ∀ s, (round s).Takes (commaTurn items p f s)) (hs : items s = [])
    (hp : p s) : (iterate round s).Takes fun s => {ts | p s ∧ items s ≠ [] ∧ ts ∈ Grammar.commas f (items s)} := by
  let I : σ → Language Token := fun s => {ts | p s ∧ ts ∈ Grammar.row (fun a => f a * Grammar.mark .comma) (items s)}
  refine (completes_iterate (I := I) h ?_ ?_ ?_ s).behind ?_
  · rintro s s' ⟨a, -, -, hn⟩
    exact Grammar.nil_notMem_token _ (Grammar.nil_mem_mul.1 hn).2
  · rintro s s' ts ⟨us, ⟨hp, hu⟩, vs, ⟨a, he, hp', hv⟩, rfl⟩
    refine ⟨hp' hp, ?_⟩
    rw [he, Grammar.row_append, Grammar.row_singleton]
    exact Language.append_mem_mul hu hv
  · rintro s s' ts ⟨us, ⟨hp, hu⟩, vs, ⟨a, he, hp', hv⟩, rfl⟩
    refine ⟨hp' hp, by simp [he], ?_⟩
    rw [he, Grammar.commas_append]
    exact Language.append_mem_mul hu (by simpa using hv)
  · rintro ts rfl
    exact ⟨hp, by rw [hs]; rfl⟩

variable {items p}

/-- The end of a round behind its item. -/
theorem completes_comma {s' : σ} {a : α} (hs : items s' = items s ++ [a]) (ha : P = f a) (hp : p s → p s') :
    Completes P (do return (s', ← accept (.punct .comma))) (commaTurn items p f s) :=
  (takes_accept _).then fun _ => completes_pure fun _ ht => ⟨a, hs, hp, ha ▸ ht⟩

/-- Looking for a comma takes nothing back. -/
theorem retains_comma (s : σ) : Retains (do return (s, ← accept (.punct .comma))) :=
  (takes_accept _).retains.then fun _ => retains_pure _

/-- Items with commas between them, about which nothing else is known. -/
theorem takes_list {round : List α → Reading (List α × Bool)}
    (h : ∀ list, (round list).Takes (commaTurn id (fun _ => True) f list)) : (iterate round []).Takes (Grammar.commas f) :=
  (takes_commas id _ h rfl trivial).mono fun _ _ ht => ht.2.2

end

/-- A row of items up to a token that ends it. No item is empty, so no token is passed over to get on. -/
theorem takes_many {ends : Token → Bool} {item : Reading (Option α)} (h : item.Takes (Grammar.given f)) (hf : ∀ a, [] ∉ f a) :
    (many ends item).Takes (Grammar.row f) := by
  refine takes_row (fun list r => completesAt_cursor ?_) hf
  have stop : (pure (list, false) : Reading (List α × Bool)).Takes (turn (oneMore f) list) :=
    completes_pure fun ts ht => ⟨rfl, ht⟩
  cases r.cursor.peek? with
  | none => exact stop r
  | some t =>
    dsimp only
    split
    · exact stop r
    have tail (o : Option α) : Retains (do
        if (← cursor).remaining = r.cursor.remaining then skip 1
        return (list ++ o.toList, true)) := by
      refine quiet_cursor.retains.then fun now => ?_
      split
      · exact (retains_skip 1).then fun _ => retains_pure _
      · exact retains_pure _
    by_cases stuck : (item.run r).2.cursor.remaining = r.cursor.remaining
    · refine ⟨(h.retains.then tail) r, fun he => absurd stuck ?_⟩
      have hm := ((h r).1.between (tail _ _) he).1
      exact ((h.reaches hm).remaining_lt (Grammar.nil_notMem_given hf _)).ne
    · refine (h r).bind (completesAt_cursor ?_)
      rw [if_neg stuck]
      refine completes_pure ?_ _
      cases (item.run r).1 with
      | none => exact fun ts ht => (Language.notMem_zero ts ht).elim
      | some a => exact fun ts ht => ⟨a, rfl, ht⟩

/-- From a state on, a round leaves no token ahead, or it leaves fewer than `n` and asks for another round. -/
def Drains {σ : Type} (n : Nat) (r : Reader) (a : Reading (σ × Bool)) : Prop :=
  ((a.run r).1.2 = false → (a.run r).2.cursor.ahead = []) ∧ ((a.run r).1.2 = true → (a.run r).2.remaining < n)

/-- What goes on with the outcome of an action decides about the round. -/
theorem drains_bind {σ : Type} {n : Nat} {r : Reader} {k : α → Reading (σ × Bool)}
    (h : Drains n (a.run r).2 (k (a.run r).1)) : Drains n r (a >>= k) :=
  h

/-- A look at the cursor does not matter for this. -/
theorem drains_cursor {σ : Type} {n : Nat} {r : Reader} {k : Cursor → Reading (σ × Bool)} (h : Drains n r (k r.cursor)) :
    Drains n r (cursor >>= k) :=
  h

/-- A loop whose rounds leave fewer tokens or none reads to the end. -/
theorem ahead_iterate {σ : Type} {round : σ → Reading (σ × Bool)} (h : ∀ s r, Drains r.remaining r (round s)) (s : σ)
    (r : Reader) : ((iterate round s).run r).2.cursor.ahead = [] := by
  show (iterateFrom round s r).next.cursor.ahead = []
  fun_induction iterateFrom round s r with
  | case1 s r first hc rest ih => exact ih
  | case2 s r first hc => exact (h s r).1 (Bool.eq_false_iff.2 fun ht => hc ⟨ht, (h s r).2 ht⟩)

/-- A row that nothing ends goes on until no token is ahead. -/
theorem ahead_many (item : Reading (Option α)) (r : Reader) :
    ((many (fun _ => false) item).run r).2.cursor.ahead = [] := by
  refine ahead_iterate (fun list r => drains_cursor ?_) [] r
  cases hp : r.cursor.peek? with
  | none => exact ⟨fun _ => List.head?_eq_none_iff.1 hp, fun h => nomatch h⟩
  | some t =>
    have hpos : 0 < r.remaining := List.length_pos_of_ne_nil fun he => by
      rw [Cursor.peek?, he] at hp
      cases hp
    have hle : (item.run r).2.remaining ≤ r.remaining := item.forward r
    dsimp only
    rw [if_neg Bool.false_ne_true]
    refine drains_bind (drains_cursor ?_)
    split
    · refine ⟨fun h => (nomatch h), fun _ => ?_⟩
      show ((item.run r).2.cursor.ahead.drop 1).length < r.remaining
      rw [List.length_drop]
      unfold Reader.remaining at *
      omega
    · rename_i hne
      exact ⟨fun h => (nomatch h), fun _ => Nat.lt_of_le_of_ne hle hne⟩

end Reading

end NavCheck
