import NavCheck.Decl.Parser
import NavCheck.Proofs.Places.Expressions

/-!
# Places of declarations

The actions that read declarations go on over the tokens, whatever these are. What they give lies at places made of
the places of tokens, and so does every fault that they note.
-/

namespace NavCheck

namespace Cursor.Leads

variable {c d : Cursor}

/-- A later cursor has no more tokens ahead. -/
theorem le (h : c.Leads d) : d.ahead.length ≤ c.ahead.length := by
  obtain ⟨ts, hp⟩ := h
  rw [hp.1, List.length_append]
  exact Nat.le_add_left _ _

end Cursor.Leads

/-- A finding with a primary label alone, at a place that is asked for. -/
structure Diagnostic.At (placed : Option Span → Prop) (d : Diagnostic) : Prop where
  primary : placed d.span?
  secondary : d.secondary = []
  suggestions : d.suggestions = []

/-- The code that a finding gets does not move it. -/
theorem Diagnostic.At.withCode {placed : Option Span → Prop} {d : Diagnostic} (h : d.At placed) (hash : Text.Hash) (area : String) :
    (Sink.withCode hash area d).At placed := by
  unfold Sink.withCode
  split
  · exact h
  · exact ⟨h.primary, h.secondary, h.suggestions⟩

/-- An error is at a place if its span is. -/
theorem Diagnostic.at_error {placed : Option Span → Prop} {span : Option Span} (h : placed span) (message : String) :
    (Diagnostic.error message span).At placed :=
  ⟨by cases span <;> exact h, rfl, rfl⟩

/-- A state of reading amid the tokens; what was not found before is placed. -/
structure Reader.Sound (placed : Option Span → Prop) (tokens : List Token) (before : List Diagnostic) (r : Reader) : Prop where
  amid : r.cursor.Over tokens
  found : ∀ d ∈ r.sink.found, d ∈ before ∨ d.At placed

/-- The same findings at a later place. -/
theorem Reader.Sound.leads {placed : Option Span → Prop} {tokens : List Token} {before : List Diagnostic} {r : Reader}
    (h : r.Sound placed tokens before) {c : Cursor} (hl : r.cursor.Leads c) (skipped : List Token) :
    Reader.Sound placed tokens before ⟨c, r.sink, skipped⟩ :=
  ⟨h.amid.leads hl, h.found⟩

namespace Reading

variable {α β σ : Type} {good : Span → Prop} {placed : Option Span → Prop} {tokens : List Token} {r : Reader}

/-- An outcome at a sound state: it leads on over the tokens, with all new findings placed, and has a property. -/
def StepLocated (placed : Option Span → Prop) (tokens : List Token) (q : α → Reader → Prop) {r : Reader} (s : Step α r) :
    Prop :=
  ∀ ⦃before⦄, r.Sound placed tokens before →
    s.next.Sound placed tokens before ∧ r.cursor.Leads s.next.cursor ∧ q s.value s.next

/-- An action that has such an outcome at a state. -/
def LocatedAt (placed : Option Span → Prop) (tokens : List Token) (r : Reader) (a : Reading α) (q : α → Reader → Prop) : Prop :=
  StepLocated placed tokens q (a.step r)

/-- An action that has such outcomes at all states, where the property is about the value alone. -/
def Located (placed : Option Span → Prop) (tokens : List Token) (a : Reading α) (p : α → Prop) : Prop :=
  ∀ r, LocatedAt placed tokens r a fun v _ => p v

section

variable {a : Reading α} {k : α → Reading β} {p : α → Prop} {p' : β → Prop} {q : α → Reader → Prop} {q' : β → Reader → Prop}

/-! ## Sequences -/

/-- An action that reads nothing gives what it is told to give, where the reader is. -/
theorem locatedAt_pure {v : α} (h : q v r) : LocatedAt placed tokens r (pure v) q :=
  fun _ hr => ⟨hr, .refl _, h⟩

/-- An action that reads nothing has its value placed if the value is. -/
theorem located_pure {v : α} (h : p v) : Located placed tokens (pure v) p :=
  fun _ => locatedAt_pure h

/-- Where nothing is given nothing has to be placed. -/
theorem located_none : Located placed tokens (pure none) (∀ v ∈ ·, p v) :=
  located_pure nofun

/-- What is given alone is placed if it is. -/
theorem located_some {v : α} (h : p v) : Located placed tokens (pure (some v)) (∀ v ∈ ·, p v) :=
  located_pure (by rintro _ ⟨⟩; exact h)

/-- The same, with the reader known. -/
theorem locatedAt_some {v : α} (h : p v) : LocatedAt placed tokens r (pure (some v)) fun o _ => ∀ v ∈ o, p v :=
  located_some h r

/-- Two actions one behind the other: the second one is placed wherever the first one has led. -/
theorem LocatedAt.bind (h : LocatedAt placed tokens r a q)
    (hk : ∀ v s, r.cursor.Leads s.cursor → q v s → LocatedAt placed tokens s (k v) q') :
    LocatedAt placed tokens r (a >>= k) q' := by
  intro _ hr
  obtain ⟨hs, hl, hq⟩ := h hr
  obtain ⟨hs', hl', hq'⟩ := hk _ _ hl hq hs
  exact ⟨hs', hl.trans hl', hq'⟩

/-- Two actions one behind the other, when the places do not depend on where they are. -/
theorem Located.bind (h : Located placed tokens a p) (hk : ∀ v, p v → Located placed tokens (k v) p') :
    Located placed tokens (a >>= k) p' :=
  fun r => (h r).bind fun v s _ hp => hk v hp s

/-- What is placed is placed in a weaker sense. -/
theorem LocatedAt.mono (h : LocatedAt placed tokens r a q) {q' : α → Reader → Prop} (hq : ∀ v s, q v s → q' v s) :
    LocatedAt placed tokens r a q' := by
  intro _ hr
  obtain ⟨hs, hl, h⟩ := h hr
  exact ⟨hs, hl, hq _ _ h⟩

/-- What goes on with the place of the cursor. -/
theorem locatedAt_cursor {k : Cursor → Reading β} (h : r.cursor.Over tokens → LocatedAt placed tokens r (k r.cursor) q') :
    LocatedAt placed tokens r (cursor >>= k) q' :=
  fun _ hr => h hr.amid hr

/-- An action that begins at the cursor of the reader begins over the tokens. -/
theorem located_cursor {k : Cursor → Reading β} (h : ∀ c, c.Over tokens → Located placed tokens (k c) p') :
    Located placed tokens (cursor >>= k) p' :=
  fun r => locatedAt_cursor fun hc => h _ hc r

/-- What goes on with the lexeme of the next token. -/
theorem located_found {k : Option String → Reading β} (h : ∀ o, Located placed tokens (k o) p') :
    Located placed tokens (found? >>= k) p' :=
  fun r _ hr => h _ r hr

/-- A look ahead has nothing to place. -/
theorem located_sees (kind : TokenKind) : Located placed tokens (sees kind) fun _ => True :=
  fun _ _ hr => ⟨hr, .refl _, trivial⟩

/-! ## Findings and single tokens -/

/-- A report is placed if its span is. -/
theorem located_report (fault : DeclFault) {span : Option Span} (h : placed span) :
    Located placed tokens (report fault span) fun _ => True := by
  refine fun r _ hr => ⟨⟨hr.amid, fun d hd => ?_⟩, .refl _, trivial⟩
  obtain hd | hd := List.mem_append.1 hd
  · exact hr.found d hd
  · rw [List.mem_singleton.1 hd]
    exact .inr ((Diagnostic.at_error h _).withCode _ _)

/-- A report that is made in some cases only, and what goes on in all of them. -/
theorem located_reportIf {c : Prop} [Decidable c] {fault : DeclFault} {span : Option Span} (h : placed span)
    {k : Unit → Reading β} (hk : Located placed tokens (k ()) p') :
    Located placed tokens (if c then report fault span >>= k else k ()) p' := by
  split
  · exact (located_report fault h).bind fun _ _ => hk
  · exact hk

/-- What a function of cursors reads has its place, and tokens are passed for it. -/
theorem locatedAt_pass {read : (c : Cursor) → Option (Parsed α c)} {p : α → Prop}
    (h : r.cursor.Over tokens → ∀ x, read r.cursor = some x → p x.value ∧ r.cursor.Leads x.next) :
    LocatedAt placed tokens r (pass read) fun o s => ∀ v ∈ o, p v ∧ s.remaining < r.remaining := by
  intro _ hr
  unfold pass
  simp only [ofStep, step]
  cases hx : read r.cursor with
  | none => exact ⟨hr, .refl _, nofun⟩
  | some x =>
    obtain ⟨hp, hl⟩ := h hr.amid x hx
    refine ⟨hr.leads hl _, hl, ?_⟩
    rintro _ ⟨⟩
    exact ⟨hp, x.shorter⟩

/-- As many tokens are passed as are skipped, or all of them. -/
theorem locatedAt_skip (count : Nat) :
    LocatedAt placed tokens r (skip count) fun _ s => s.remaining = r.remaining - count := by
  intro _ hr
  have hl : r.cursor.Leads ((skip count).step r).next.cursor :=
    ⟨r.cursor.ahead.take count, (List.take_append_drop _ _).symm, rfl⟩
  exact ⟨hr.leads hl _, hl, List.length_drop⟩

/-- Skipping has nothing to place. -/
theorem located_skip (count : Nat) : Located placed tokens (skip count) fun _ => True :=
  fun _ => (locatedAt_skip count).mono fun _ _ _ => trivial

/-- Recovery has nothing to place. -/
theorem located_skipBy (rule : List Token → Nat) : Located placed tokens (skipBy rule) fun _ => True :=
  located_cursor fun _ _ => located_skip _

/-! ## Loops -/

/-- What one round of a loop keeps, all of them keep. -/
theorem located_iterate {round : σ → Reading (σ × Bool)} {I : σ → Prop}
    (h : ∀ s, I s → Located placed tokens (round s) fun v => I v.1) {s : σ} (hs : I s) :
    Located placed tokens (iterate round s) I := by
  intro r
  show StepLocated placed tokens (fun v _ => I v) (iterateFrom round s r)
  intro _ hr
  fun_induction iterateFrom round s r with
  | case1 s r first hc rest ih =>
    obtain ⟨hn, hl, hi⟩ := h s hs r hr
    obtain ⟨hn', hl', hi'⟩ := ih hi hn
    exact ⟨hn', hl.trans hl', hi'⟩
  | case2 s r first hc => exact h s hs r hr

/-- The items of a row are placed when each of them is. -/
theorem located_many {ends : Token → Bool} {item : Reading (Option α)} (h : Located placed tokens item (∀ v ∈ ·, p v)) :
    Located placed tokens (many ends item) (∀ v ∈ ·, p v) := by
  refine located_iterate (fun items hi => located_cursor fun before _ => ?_) (List.forall_mem_nil p)
  cases before.peek? with
  | none => exact located_pure hi
  | some token =>
    dsimp only
    split
    · exact located_pure hi
    · refine h.bind fun read hread => located_cursor fun now _ => ?_
      have last : Located placed tokens (pure (items ++ read.toList, true)) fun v => ∀ a ∈ v.1, p a :=
        located_pure (List.forall_mem_append.2 ⟨hi, fun a ha => hread a (Option.mem_toList.1 ha)⟩)
      split
      · exact (located_skip 1).bind fun _ _ => last
      · exact last

end

/-! ## Tokens, types and expressions -/

section

variable (P : Places good placed tokens)

include P

/-- A report at the next token is placed. -/
theorem located_reportHere (fault : DeclFault) : Located placed tokens (reportHere fault) fun _ => True :=
  located_cursor fun _ hc => located_report fault (P.here hc)

/-- A token that is accepted has its place, and is passed. -/
theorem locatedAt_accept? (kind : TokenKind) :
    LocatedAt placed tokens r (accept? kind) fun o s => ∀ t ∈ o, good t.span ∧ s.remaining < r.remaining :=
  locatedAt_pass fun hc _ hx => ⟨P.accept? hc hx, .accept? hx⟩

/-- Where a token was accepted one token fewer remains. -/
theorem locatedAt_accept (kind : TokenKind) :
    LocatedAt placed tokens r (accept kind) fun b s => b = true → s.remaining < r.remaining := by
  refine (locatedAt_accept? P kind).bind fun o s _ ho => locatedAt_pure fun hb => ?_
  obtain ⟨t, rfl⟩ := Option.isSome_iff_exists.1 hb
  exact (ho t rfl).2

/-- An acceptance has nothing to place. -/
theorem located_accept (kind : TokenKind) : Located placed tokens (accept kind) fun _ => True :=
  fun _ => (locatedAt_accept P kind).mono fun _ _ _ => trivial

/-- What was expected is not there, and the place is noted. -/
theorem located_missing (fault : Option String → DeclFault) {v : α} {p : α → Prop} (h : p v) :
    Located placed tokens (do reportHere (fault (← found?)); return v) p :=
  located_found fun _ => (located_reportHere P _).bind fun _ _ => located_pure h

/-- Where an expected mark was found, one token fewer remains. -/
theorem locatedAt_expect (mark : Punct) :
    LocatedAt placed tokens r (expect mark) fun b s => b = true → s.remaining < r.remaining := by
  refine (locatedAt_accept P _).bind fun b s _ hb => ?_
  cases b
  · exact (located_missing P _ (p := (· = false)) rfl s).mono fun b _ hf ht => by simp [hf] at ht
  · exact locatedAt_pure fun _ => hb rfl

/-- An expected mark that is missed is reported at a place of the tokens. -/
theorem located_expect (mark : Punct) : Located placed tokens (expect mark) fun _ => True :=
  fun _ => (locatedAt_expect P mark).mono fun _ _ _ => trivial

/-- An expected name that is found has its place, and is passed. -/
theorem locatedAt_expectName (what : DeclName) :
    LocatedAt placed tokens r (expectName what) fun o s => ∀ t ∈ o, good t.span ∧ s.remaining < r.remaining := by
  refine (locatedAt_accept? P _).bind fun o s _ ho => ?_
  cases o with
  | none => exact (located_missing P _ (p := (· = none)) rfl s).mono fun o _ hn t ht => by simp [hn] at ht
  | some t => exact locatedAt_pure ho

/-- An expected name has its place. -/
theorem located_expectName (what : DeclName) : Located placed tokens (expectName what) (∀ t ∈ ·, good t.span) :=
  fun _ => (locatedAt_expectName P what).mono fun _ _ h t ht => (h t ht).1

/-- An expected type that is found has its places, and is passed. -/
theorem locatedAt_expectType (place : TypePlace) :
    LocatedAt placed tokens r (expectType place) fun o s => ∀ t ∈ o, t.Within good ∧ s.remaining < r.remaining := by
  refine (locatedAt_pass (p := (·.Within good)) fun hc _ hx => P.type? hc hx).bind fun o s _ ho => ?_
  cases o with
  | none => exact (located_missing P _ (p := (· = none)) rfl s).mono fun o _ hn t ht => by simp [hn] at ht
  | some t => exact locatedAt_pure ho

/-- An expected type has its places. -/
theorem located_expectType (place : TypePlace) : Located placed tokens (expectType place) (∀ t ∈ ·, t.Within good) :=
  fun _ => (locatedAt_expectType P place).mono fun _ _ h t ht => (h t ht).1

/-- An expression that is read has its places, and a fault in it has one too. -/
theorem located_expr : Located placed tokens expr (∀ e ∈ ·, e.Within good) := by
  have read : Located placed tokens expr? (Brings placed (·.Within good)) := by
    intro r _ hr
    have h := finds_readAssign P 0 r.cursor hr.amid
    unfold expr?
    simp only [ofStep, step]
    cases hread : Expr.readAssign 0 r.cursor with
    | ok x =>
      rw [hread] at h
      exact ⟨hr.leads h.2 _, h.2, h.1⟩
    | error e =>
      rw [hread] at h
      exact ⟨hr, .refl _, h⟩
  refine read.bind fun o ho => ?_
  cases o with
  | error e => exact (located_report _ ho).bind fun _ _ => (located_skipBy _).bind fun _ _ => located_none
  | ok e => exact located_some ho


/-! ## Headers -/

/-- A modifier has its place, and is passed. -/
theorem locatedAt_modifier? :
    LocatedAt placed tokens r modifier? fun o s => ∀ m ∈ o, good m.span ∧ s.remaining < r.remaining := by
  refine locatedAt_cursor fun _ => ?_
  split
  · exact locatedAt_pure nofun
  · refine (locatedAt_pass (p := fun t => good t.span) fun hc _ hx => ⟨P.next? hc hx, _, Cursor.passes_next? hx⟩).bind
      fun o s _ ho => ?_
    cases o with
    | none => exact locatedAt_pure nofun
    | some t => exact locatedAt_some (ho t rfl)

/-- Modifiers have their places. -/
theorem located_modifiers : Located placed tokens modifiers (∀ m ∈ ·, good m.span) := by
  have one : Located placed tokens modifier? (∀ m ∈ ·, good m.span) := fun _ =>
    (locatedAt_modifier? P).mono fun _ _ h m hm => (h m hm).1
  refine located_iterate (fun list hl => one.bind fun o ho => ?_) (List.forall_mem_nil _)
  cases o with
  | none => exact located_pure hl
  | some m => exact located_pure (List.forall_mem_append.2 ⟨hl, List.forall_mem_singleton.2 (ho m rfl)⟩)

/-- The attributes in one pair of brackets have their places. -/
theorem located_attributeNames (target : Option String) :
    Located placed tokens (attributeNames target) (∀ a ∈ ·, good a.span) := by
  refine located_iterate (fun list hl => (located_expectName P _).bind fun o ho => ?_) (List.forall_mem_nil _)
  cases o with
  | none => exact located_pure hl
  | some name =>
    exact (located_accept P _).bind fun _ _ =>
      located_pure (List.forall_mem_append.2 ⟨hl, List.forall_mem_singleton.2 (ho name rfl)⟩)

/-- One pair of attribute brackets has its places. -/
theorem located_attributeList : Located placed tokens attributeList (∀ a ∈ ·, good a.span) := by
  have target : Located placed tokens attributeTarget? fun _ => True := by
    refine located_cursor fun c _ => ?_
    split
    · exact (located_accept P _).bind fun _ _ => (located_accept P _).bind fun _ _ => located_pure trivial
    · exact located_pure trivial
  refine target.bind fun target _ => (located_attributeNames P target).bind fun names hn =>
    (located_expect P _).bind fun b _ => ?_
  split
  · exact (located_skipBy _).bind fun _ _ => (located_accept P _).bind fun _ _ => located_pure hn
  · exact located_pure hn

/-- All attributes of a declaration have their places. -/
theorem located_attributes : Located placed tokens attributes (∀ a ∈ ·, good a.span) := by
  refine located_iterate (fun list hl => (located_accept P _).bind fun b _ => ?_) (List.forall_mem_nil _)
  split
  · exact (located_attributeList P).bind fun names hn => located_pure (List.forall_mem_append.2 ⟨hl, hn⟩)
  · exact located_pure hl

/-- Generic parameters have their places. -/
theorem located_generics : Located placed tokens generics (∀ g ∈ ·, g.Within good) := by
  refine (located_accept P _).bind fun b _ => ?_
  split
  · exact located_pure (List.forall_mem_nil _)
  refine (located_iterate (I := fun list => ∀ g ∈ list, g.Within good)
    (fun list hl => (located_expectName P _).bind fun o ho => ?_) (List.forall_mem_nil _)).bind fun list hl =>
      (located_accept P _).bind fun b _ => ?_
  · cases o with
    | none => exact located_pure hl
    | some name =>
      have hn : good name.span := ho name rfl
      exact located_reportIf (P.at_good hn) ((located_accept P _).bind fun _ _ =>
        located_pure (List.forall_mem_append.2 ⟨hl, List.forall_mem_singleton.2 ⟨hn, nofun⟩⟩))
  · split
    · exact (located_reportHere P _).bind fun _ _ => located_pure hl
    · exact located_pure hl

/-- A default value has its places. -/
theorem located_default? : Located placed tokens default? (∀ e ∈ ·, e.Within good) := by
  refine (located_accept P _).bind fun b _ => ?_
  split
  · exact located_expr P
  · exact located_none

/-- A parameter of a primary constructor has its places. -/
theorem located_primaryParam : Located placed tokens primaryParam (∀ p ∈ ·, p.Within good) := by
  refine located_cursor fun start _ => (located_attributes P).bind fun attributes ha =>
    (located_modifiers P).bind fun modifiers hm => (located_expectType P _).bind fun o ht => ?_
  cases o with
  | none => exact located_none
  | some type =>
    refine (located_expectName P _).bind fun o hn => ?_
    cases o with
    | none => exact located_none
    | some name =>
      exact (located_default? P).bind fun default hd => located_cursor fun _ _ =>
        located_some ⟨ha, hm, ht type rfl, hn name rfl, hd⟩

/-- The parameters of a primary constructor have their places. -/
theorem located_primary? : Located placed tokens primary? (∀ list ∈ ·, ∀ p ∈ list, p.Within good) := by
  refine (located_accept P _).bind fun b _ => ?_
  split
  · exact located_none
  refine (located_accept P _).bind fun b _ => ?_
  split
  · exact located_some (List.forall_mem_nil _)
  refine (located_iterate (I := fun list => ∀ p ∈ list, p.Within good)
    (fun list hl => (located_primaryParam P).bind fun o ho => ?_) (List.forall_mem_nil _)).bind fun list hl =>
      (located_expect P _).bind fun _ _ => located_some hl
  have finish : ∀ list : List PrimaryParam, (∀ p ∈ list, p.Within good) →
      Located placed tokens (do return (list, ← accept (.punct .comma))) fun v => ∀ p ∈ v.1, p.Within good := fun _ hl =>
    (located_accept P _).bind fun _ _ => located_pure hl
  cases o with
  | none => exact (located_skipBy _).bind fun _ _ => finish list hl
  | some param =>
    have hp := ho param rfl
    have more := finish (list ++ [param]) (List.forall_mem_append.2 ⟨hl, List.forall_mem_singleton.2 hp⟩)
    dsimp only
    split
    · exact (located_report _ (P.at_good hp.nameSpan)).bind fun _ _ => more
    · exact more

/-- The arguments of a base have their places. -/
theorem located_arguments : Located placed tokens arguments (∀ e ∈ ·, e.Within good) := by
  refine (located_accept P _).bind fun b _ => ?_
  split
  · exact located_pure (List.forall_mem_nil _)
  refine (located_iterate (I := fun list => ∀ e ∈ list, e.Within good)
    (fun list hl => (located_expr P).bind fun arg ha => (located_accept P _).bind fun _ _ => ?_) (List.forall_mem_nil _)).bind
      fun list hl => (located_expect P _).bind fun _ _ => located_pure hl
  exact located_pure (List.forall_mem_append.2 ⟨hl, fun e he => ha e (Option.mem_toList.1 he)⟩)

/-- The base of a type has its places. -/
theorem located_base? : Located placed tokens base? (∀ b ∈ ·, b.Within good) := by
  have spec : Located placed tokens baseSpec (∀ b ∈ ·, b.Within good) := by
    refine fun r => locatedAt_cursor fun hc => (locatedAt_expectType P _).bind fun o s hl ho => ?_
    cases o with
    | none => exact located_none s
    | some type =>
      obtain ⟨ht, hlt⟩ := ho type rfl
      have finish : ∀ (args : Option (List Expr)) (s' : Reader), (∀ e ∈ args.getD [], e.Within good) →
          s.cursor.Leads s'.cursor → LocatedAt placed tokens s'
            (do return some ({ type, args, span := r.cursor.spanTo (← cursor) } : BaseSpec))
            fun o _ => ∀ b ∈ o, b.Within good := fun args s' ha hl' =>
        locatedAt_cursor fun _ =>
          locatedAt_some ⟨ht, ha, P.spanTo hc (hl.trans hl') (Nat.lt_of_le_of_lt hl'.le hlt)⟩
      refine (located_accept P _ s).bind fun b s' hl' _ => ?_
      split
      · have args : Located placed tokens (some <$> arguments) fun args => ∀ e ∈ args.getD [], e.Within good :=
          (located_arguments P).bind fun _ ha => located_pure ha
        exact (args s').bind fun args s'' hl'' ha => finish args s'' ha (hl'.trans hl'')
      · exact finish none s' (List.forall_mem_nil _) hl'
  refine (located_accept P _).bind fun b _ => ?_
  split
  · exact spec
  · exact located_none

/-- The constraint of a generic parameter has its places. -/
theorem located_constraint : Located placed tokens constraint (∀ c ∈ ·, c.Within good) := by
  refine (located_accept P _).bind fun b _ => ?_
  split
  · exact located_some trivial
  refine (located_accept P _).bind fun b _ => ?_
  split
  · exact located_some trivial
  refine (located_expectType P _).bind fun o ho => ?_
  cases o with
  | none => exact located_none
  | some type => exact located_some (ho type rfl)

omit P in
/-- Constraining a parameter by its name keeps the places of all of them. -/
theorem constrain_within {name : String} {constraint : Option GenericConstraint} {list : List GenericParam}
    (hc : ∀ c ∈ constraint, c.Within good) (hl : ∀ g ∈ list, g.Within good) :
    ∀ g ∈ constrain name constraint list, g.Within good := by
  induction list with
  | nil => exact hl
  | cons p ps ih =>
    obtain ⟨hp, hps⟩ := List.forall_mem_cons.1 hl
    rw [constrain]
    split
    · exact List.forall_mem_cons.2 ⟨⟨hp.span, hc⟩, hps⟩
    · exact List.forall_mem_cons.2 ⟨hp, ih hps⟩

/-- `where` clauses keep the places of the parameters and add those of their constraints. -/
theorem located_whereClauses {list : List GenericParam} (hl : ∀ g ∈ list, g.Within good) :
    Located placed tokens (whereClauses list) (∀ g ∈ ·, g.Within good) := by
  refine located_iterate (fun list hl => (located_accept P _).bind fun b _ => ?_) hl
  split
  · refine Located.bind (p := (∀ g ∈ ·, g.Within good)) ((located_expectName P _).bind fun o ho => ?_)
      fun _ hl => located_pure hl
    cases o with
    | none => exact located_pure hl
    | some name =>
      have hn := P.at_good (ho name rfl)
      refine (located_expect P _).bind fun b _ => ?_
      split
      · exact located_pure hl
      refine (located_constraint P).bind fun constraint hc => ?_
      split
      · split
        · exact (located_report _ hn).bind fun _ _ => located_pure hl
        · exact located_pure (constrain_within hc hl)
      · exact (located_report _ hn).bind fun _ _ => located_pure hl
  · exact located_pure hl

/-! ## Statements -/

/-- The end of a statement that is missed is reported at a place of the tokens. -/
theorem located_endStatement : Located placed tokens endStatement fun _ => True := by
  refine (located_expect P _).bind fun b _ => ?_
  split
  · exact located_skipBy _
  · exact located_pure trivial

omit P in
/-- A statement that is given up. -/
theorem located_dropStatement {p : α → Prop} :
    Located placed tokens (do skipBy Recovery.statement; return (none : Option α)) (∀ v ∈ ·, p v) :=
  (located_skipBy _).bind fun _ _ => located_none

/-- An expression and the end of its statement have their places. -/
theorem located_exprAndEnd : Located placed tokens exprAndEnd (∀ e ∈ ·, e.Within good) := by
  refine (located_expr P).bind fun o ho => ?_
  cases o with
  | none => exact located_none
  | some e =>
    refine (located_expect P _).bind fun b _ => ?_
    split
    · exact located_some (ho e rfl)
    · exact located_none

variable {start : Cursor}

/-- What is read behind the first token of a statement; `start` is where the statement begins. -/
theorem locatedAt_returnRest (hs : start.Over tokens) (hl : start.Leads r.cursor) (hlt : r.remaining < start.ahead.length) :
    LocatedAt placed tokens r (returnRest start) fun o _ => ∀ x ∈ o, x.Within good := by
  have finish : ∀ (value : Option Expr) (s : Reader), (∀ e ∈ value, e.Within good) → r.cursor.Leads s.cursor →
      LocatedAt placed tokens s (do endStatement; return some (Statement.give value (start.spanTo (← cursor))))
        fun o _ => ∀ x ∈ o, x.Within good := fun value s hv hl' =>
    (located_endStatement P s).bind fun _ s' hl₁ _ => locatedAt_cursor fun _ =>
      have hl₂ := hl'.trans hl₁
      locatedAt_some ⟨hv, P.spanTo hs (hl.trans hl₂) (Nat.lt_of_le_of_lt hl₂.le hlt)⟩
  refine (located_sees _ r).bind fun b s hl' _ => ?_
  split
  · exact finish none s nofun hl'
  · refine (located_expr P s).bind fun o s' hl₁ ho => ?_
    cases o with
    | none => exact located_none s'
    | some e => exact finish (some e) s' ho (hl'.trans hl₁)

/-- The rest of a declaration of a local has its places; the span of the whole begins in front of the reader. -/
theorem locatedAt_localRest (hs : start.Over tokens) (hl : start.Leads r.cursor) (hlt : r.remaining < start.ahead.length)
    {type : Option TypeExpr} (ht : ∀ t ∈ type, t.Within good) :
    LocatedAt placed tokens r (localRest start type) fun o _ => ∀ x ∈ o, x.Within good := by
  refine (located_expectName P _ r).bind fun o s hl₁ ho => ?_
  cases o with
  | none => exact located_dropStatement s
  | some name =>
    have hn := ho name rfl
    have finish : ∀ (init : Option Expr) (s : Reader), (∀ e ∈ init, e.Within good) → r.cursor.Leads s.cursor →
        LocatedAt placed tokens s
          (do
            if type.isNone && init.isNone then report (.untypedLocal name.lexeme) (some name.span)
            endStatement
            return some (Statement.local type name.lexeme name.span init (start.spanTo (← cursor))))
          fun o _ => ∀ x ∈ o, x.Within good := by
      intro init s hi hl₂
      have rest : ∀ s' : Reader, r.cursor.Leads s'.cursor → LocatedAt placed tokens s'
          (do
            endStatement
            return some (Statement.local type name.lexeme name.span init (start.spanTo (← cursor))))
          fun o _ => ∀ x ∈ o, x.Within good := fun s' hl₂ =>
        (located_endStatement P s').bind fun _ s'' hl₃ _ => locatedAt_cursor fun _ =>
          have hl₄ := hl₂.trans hl₃
          locatedAt_some ⟨ht, hn, hi, P.spanTo hs (hl.trans hl₄) (Nat.lt_of_le_of_lt hl₄.le hlt)⟩
      split
      · exact (located_report _ (P.at_good hn) s).bind fun _ s' hl₃ _ => rest s' (hl₂.trans hl₃)
      · exact rest s hl₂
    refine (located_accept P _ s).bind fun b s' hl₂ _ => ?_
    split
    · refine (located_expr P s').bind fun o s'' hl₃ ho => ?_
      cases o with
      | none => exact located_none s''
      | some e => exact finish (some e) s'' ho ((hl₁.trans hl₂).trans hl₃)
    · exact finish none s' nofun (hl₁.trans hl₂)

/-- The condition of an `if` has its places. -/
theorem located_condition : Located placed tokens condition (∀ e ∈ ·, e.Within good) := by
  refine (located_expect P _).bind fun b _ => ?_
  split
  · exact located_dropStatement
  · refine (located_expr P).bind fun o ho => ?_
    cases o with
    | none => exact located_none
    | some e =>
      refine (located_expect P _).bind fun b _ => ?_
      split
      · exact located_dropStatement
      · exact located_some (ho e rfl)

/-- A statement without statements inside it has its places. -/
theorem located_simpleStatement : Located placed tokens simpleStatement (∀ x ∈ ·, x.Within good) := by
  refine fun r => locatedAt_cursor fun hc => (locatedAt_accept P _).bind fun b s hl₁ hb => ?_
  split
  case isTrue h => exact locatedAt_returnRest P hc hl₁ (hb h)
  refine (locatedAt_accept P _).bind fun b s' hl₂ hb => ?_
  have hl₂ := hl₁.trans hl₂
  split
  case isTrue h => exact locatedAt_localRest P hc hl₂ (Nat.lt_of_lt_of_le (hb h) hl₁.le) nofun
  split
  · refine (locatedAt_expectType P _).bind fun o s'' hl₃ ho => ?_
    cases o with
    | none => exact located_none s''
    | some type =>
      obtain ⟨ht, hlt⟩ := ho type rfl
      exact locatedAt_localRest P hc (hl₂.trans hl₃) (Nat.lt_of_lt_of_le hlt hl₂.le) (by rintro _ ⟨⟩; exact ht)
  · refine (located_expr P s').bind fun o s'' _ ho => ?_
    cases o with
    | none => exact located_none s''
    | some e => exact (located_endStatement P s'').bind fun _ _ _ _ => locatedAt_some (ho e rfl)

end

mutual

/-- A statement has its places. The recursion is that of the reader: along the tokens that remain. -/
theorem located_statementFrom (P : Places good placed tokens) (r : Reader) :
    StepLocated placed tokens (fun o _ => ∀ x ∈ o, x.Within good) (statementFrom r) := by
  intro _ hr
  rw [statementFrom]
  dsimp only
  cases hb : r.cursor.accept? (.punct .openBrace) with
  | some brace =>
    have h₁ : Reader.remaining { r with cursor := brace.next } < r.remaining := brace.shorter
    have hl₁ := Cursor.Leads.accept? hb
    obtain ⟨hn₂, hl₂, hw⟩ := located_statementsFrom P { r with cursor := brace.next } (hr.leads hl₁ _)
    obtain ⟨hn₃, hl₃, -⟩ := located_expect P .closeBrace _ hn₂
    have hle := Nat.le_trans hl₃.le hl₂.le
    have hl₃ := (hl₁.trans hl₂).trans hl₃
    refine ⟨hn₃, hl₃, ?_⟩
    rintro _ ⟨⟩
    exact ⟨hw, P.spanTo hr.amid hl₃ (Nat.lt_of_le_of_lt hle h₁)⟩
  | none =>
    dsimp only
    cases hw : r.cursor.accept? (.keyword .ifKw) with
    | none => exact located_simpleStatement P r hr
    | some word =>
      have h₁ : Reader.remaining { r with cursor := word.next } < r.remaining := word.shorter
      have hl₁ := Cursor.Leads.accept? hw
      obtain ⟨hn₂, hl₂, htest⟩ := located_condition P { r with cursor := word.next } (hr.leads hl₁ _)
      have hl₂ := hl₁.trans hl₂
      have h₂ := Nat.lt_of_le_of_lt (condition.step { r with cursor := word.next }).le h₁
      dsimp only
      cases ht : (condition.step { r with cursor := word.next }).value with
      | none => exact ⟨hn₂, hl₂, nofun⟩
      | some test =>
        obtain ⟨hn₃, hl₃, hfirst⟩ := located_statementFrom P _ hn₂
        have hl₃ := hl₂.trans hl₃
        have h₃ := Nat.lt_of_le_of_lt (statementFrom (condition.step { r with cursor := word.next }).next).le h₂
        dsimp only
        cases hf : (statementFrom (condition.step { r with cursor := word.next }).next).value with
        | none => exact ⟨hn₃, hl₃, nofun⟩
        | some first =>
          obtain ⟨hn₄, hl₄, -⟩ := located_accept P (.keyword .elseKw) _ hn₃
          have hl₄ := hl₃.trans hl₄
          have h₄ := Nat.lt_of_le_of_lt ((accept (.keyword .elseKw)).step
            (statementFrom (condition.step { r with cursor := word.next }).next).next).le h₃
          have hif := htest test ht
          have hthen := hfirst first hf
          dsimp only
          split
          · obtain ⟨hn₅, hl₅, hsecond⟩ := located_statementFrom P _ hn₄
            have h₅ := Nat.lt_of_le_of_lt hl₅.le h₄
            have hl₅ := hl₄.trans hl₅
            refine ⟨hn₅, hl₅, fun x hx => ?_⟩
            obtain ⟨second, hsome, rfl⟩ := Option.map_eq_some_iff.1 hx
            exact ⟨hif, hthen, hsecond second hsome, P.spanTo hr.amid hl₅ h₅⟩
          · refine ⟨hn₄, hl₄, ?_⟩
            rintro _ ⟨⟩
            exact ⟨hif, hthen, trivial, P.spanTo hr.amid hl₄ h₄⟩
termination_by (r.remaining, 0)

/-- The statements of a block have their places. -/
theorem located_statementsFrom (P : Places good placed tokens) (r : Reader) :
    StepLocated placed tokens (fun list _ => statementsWithin good list) (statementsFrom r) := by
  intro _ hr
  rw [statementsFrom]
  by_cases he : r.remaining = 0 ∨ r.cursor.sees (.punct .closeBrace) = true
  · rw [dif_pos he]
    exact ⟨hr, .refl _, trivial⟩
  · rw [dif_neg he]
    obtain ⟨hn₁, hl₁, hfirst⟩ := located_statementFrom P r hr
    have both : ∀ {list : List Statement}, statementsWithin good list →
        statementsWithin good ((statementFrom r).value.toList ++ list) := fun hlist =>
      statementsWithin_iff.2 (List.forall_mem_append.2
        ⟨fun x hx => hfirst x (Option.mem_toList.1 hx), statementsWithin_iff.1 hlist⟩)
    dsimp only
    by_cases hp : (statementFrom r).next.remaining < r.remaining
    · rw [if_pos hp]
      obtain ⟨hn₂, hl₂, hrest⟩ := located_statementsFrom P _ hn₁
      exact ⟨hn₂, hl₁.trans hl₂, both hrest⟩
    · rw [if_neg hp]
      obtain ⟨hn₂, hl₂, -⟩ := located_skip 1 _ hn₁
      have h : ((skip 1).step (statementFrom r).next).next.remaining < r.remaining := by
        have := (statementFrom r).le
        have : r.remaining ≠ 0 := fun h => he (.inl h)
        simp only [step, skip, Reader.remaining, List.length_drop] at *
        omega
      obtain ⟨hn₃, hl₃, hrest⟩ := located_statementsFrom P _ hn₂
      exact ⟨hn₃, (hl₁.trans hl₂).trans hl₃, both hrest⟩
termination_by (r.remaining, 1)

end

section

variable (P : Places good placed tokens)

include P

/-- Statements up to a closing brace have their places. -/
theorem located_statements : Located placed tokens statements (statementsWithin good) :=
  located_statementsFrom P

/-- The body of a method has its places. -/
theorem located_body : Located placed tokens body (∀ b ∈ ·, b.Within good) := by
  refine located_cursor fun start _ => (located_accept P _).bind fun b _ => ?_
  split
  · refine (located_exprAndEnd P).bind fun o ho => located_pure fun b hb => ?_
    obtain ⟨e, rfl, rfl⟩ := Option.map_eq_some_iff.1 hb
    exact ho e rfl
  refine (located_accept P _).bind fun b _ => ?_
  split
  · have block : Located placed tokens (blockRest start) fun b => statementsWithin good b.statements :=
      (located_statements P).bind fun _ hl => (located_expect P _).bind fun _ _ => located_cursor fun _ _ => located_pure hl
    exact block.bind fun _ hb => located_some hb
  · exact (located_reportHere P _).bind fun _ _ => located_none

/-! ## Members -/

omit P in
/-- Taking the span from a start has nothing to place. -/
theorem located_spanFrom (start : Cursor) : Located placed tokens (spanFrom start) fun _ => True :=
  located_cursor fun _ _ => located_pure trivial

/-- The span from a start in front of the reader is that of tokens between them. -/
theorem locatedAt_spanFrom {start : Cursor} (hs : start.Over tokens) (hl : start.Leads r.cursor)
    (hlt : r.remaining < start.ahead.length) : LocatedAt placed tokens r (spanFrom start) fun span _ => good span :=
  locatedAt_cursor fun _ => locatedAt_pure (P.spanTo hs hl hlt)

/-- A parameter of a method has its places. -/
theorem located_param (earlier : List Param) : Located placed tokens (param earlier) (∀ p ∈ ·, p.Within good) := by
  refine located_cursor fun start _ => (located_expectType P _).bind fun o ht => ?_
  cases o with
  | none => exact located_none
  | some type =>
    refine (located_expectName P _).bind fun o hn => ?_
    cases o with
    | none => exact located_none
    | some name =>
      exact located_reportIf (P.at_good (hn name rfl)) ((located_default? P).bind fun default hd =>
        (located_spanFrom start).bind fun _ _ => located_some ⟨ht type rfl, hd⟩)

/-- Parameters and the mark that closes them have their places. -/
theorem located_params (close : Punct) : Located placed tokens (params close) (∀ list ∈ ·, ∀ p ∈ list, p.Within good) := by
  have list : Located placed tokens paramList (∀ list ∈ ·, ∀ p ∈ list, p.Within good) := by
    refine (located_iterate (I := fun s => ∀ p ∈ s.1, p.Within good) (fun s hs => ?_) (List.forall_mem_nil _)).bind
      fun s hs => ?_
    · obtain ⟨list, complete⟩ := s
      refine (located_param P list).bind fun o ho => ?_
      cases o with
      | none => exact located_pure hs
      | some p =>
        exact (located_accept P _).bind fun _ _ =>
          located_pure (List.forall_mem_append.2 ⟨hs, List.forall_mem_singleton.2 (ho p rfl)⟩)
    · obtain ⟨list, complete⟩ := s
      cases complete
      · exact located_none
      · exact located_some hs
  refine (located_accept P _).bind fun b _ => ?_
  split
  · exact located_some (List.forall_mem_nil _)
  refine list.bind fun o ho => ?_
  cases o with
  | none => exact located_none
  | some list =>
    refine (located_expect P _).bind fun b _ => ?_
    split
    · exact located_some (ho list rfl)
    · exact located_none

/-- The word that begins an accessor is passed when it is there. -/
theorem locatedAt_accessorKind :
    LocatedAt placed tokens r accessorKind fun o s => o.isSome → s.remaining < r.remaining := by
  refine (locatedAt_accept P _).bind fun b s _ hb => ?_
  split
  case isTrue h => exact locatedAt_pure fun _ => hb h
  refine (locatedAt_accept P _).bind fun b s' hl hb => ?_
  split
  case isTrue h => exact locatedAt_pure fun _ => Nat.lt_of_lt_of_le (hb h) (by assumption : r.cursor.Leads s.cursor).le
  exact (located_missing P _ (p := (· = none)) rfl s').mono fun o _ hn ho => by simp [hn] at ho

/-- What stands behind the word of an accessor. -/
def accessorRest (start : Cursor) (kind : AccessorKind) : Reading (Option Accessor) := do
  if ← accept (.punct .semicolon) then return some { kind, body := none, span := ← spanFrom start }
  let some body ← body | return none
  return some { kind, body := some body, span := ← spanFrom start }

/-- What is behind the kind of an accessor has its places. -/
theorem located_accessorRest (start : Cursor) (kind : AccessorKind) :
    Located placed tokens (accessorRest start kind) (∀ a ∈ ·, ∀ b ∈ a.body, b.Within good) := by
  refine (located_accept P _).bind fun b _ => ?_
  split
  · exact (located_spanFrom _).bind fun _ _ => located_some nofun
  refine (located_body P).bind fun o ho => ?_
  cases o with
  | none => exact located_none
  | some b => exact (located_spanFrom _).bind fun _ _ => located_some (by rintro _ ⟨⟩; exact ho b rfl)

/-- An accessor has its places. -/
theorem located_accessor (earlier : List Accessor) :
    Located placed tokens (accessor earlier) (∀ a ∈ ·, ∀ b ∈ a.body, b.Within good) := by
  refine fun r => locatedAt_cursor fun hc => (locatedAt_accessorKind P).bind fun o s hl ho => ?_
  cases o with
  | none => exact located_none s
  | some kind =>
    have rest := located_accessorRest P r.cursor kind
    dsimp only
    split
    · exact (locatedAt_spanFrom P hc hl (ho rfl)).bind fun _ s _ hg =>
        ((located_report _ (P.at_good hg)).bind fun _ _ => rest) s
    · exact rest s

/-- The accessors of a property have their places. -/
theorem located_accessors :
    Located placed tokens accessors (∀ list ∈ ·, ∀ a ∈ list, ∀ b ∈ a.body, b.Within good) := by
  refine (located_expect P _).bind fun b _ => ?_
  split
  · exact located_none
  refine (located_iterate (I := fun s => ∀ a ∈ s.1, ∀ b ∈ a.body, b.Within good) (fun s hs => ?_) (List.forall_mem_nil _)).bind
    fun s hs => ?_
  · obtain ⟨list, complete⟩ := s
    refine (located_accept P _).bind fun b _ => ?_
    split
    · exact located_pure hs
    refine (located_accessor P list).bind fun o ho => ?_
    cases o with
    | none => exact located_pure hs
    | some a => exact located_pure (List.forall_mem_append.2 ⟨hs, List.forall_mem_singleton.2 (ho a rfl)⟩)
  · obtain ⟨list, complete⟩ := s
    cases complete
    · exact located_none
    · exact located_some hs

end

end Reading

/-- The places of what stands before the name of a member. -/
structure MemberHead.Within (good : Span → Prop) (head : MemberHead) : Prop where
  modifiers : ∀ m ∈ head.modifiers, good m.span
  type : head.type.Within good

namespace Reading

section

variable {α : Type} {good : Span → Prop} {placed : Option Span → Prop} {tokens : List Token} {r : Reader}
  (P : Places good placed tokens) {head : MemberHead} {name : Token}

include P

/-- A field has its places when its head and its name have theirs. -/
theorem located_fieldRest (hh : head.Within good) (hn : good name.span) :
    Located placed tokens (fieldRest head name) (∀ f ∈ ·, (Member.field f).Within good) := by
  have finish : ∀ init : Option Expr, (∀ e ∈ init, e.Within good) → Located placed tokens
      (do
        if !(← expect .semicolon) then return none
        return some ({ attributes := head.attributes, modifiers := head.modifiers, type := head.type, name := name.lexeme,
                       nameSpan := name.span, init, origin := .declared, span := ← spanFrom head.start } : FieldDecl))
      (∀ f ∈ ·, (Member.field f).Within good) := by
    intro init hi
    refine (located_expect P _).bind fun b _ => ?_
    split
    · exact located_none
    · exact (located_spanFrom _).bind fun _ _ => located_some ⟨hh.modifiers, hn, hh.type, hi⟩
  refine (located_accept P _).bind fun b _ => ?_
  split
  · refine (located_expr P).bind fun o ho => ?_
    cases o with
    | none => exact located_none
    | some e => exact finish (some e) ho
  · exact finish none nofun

/-- A property has its places when its head and its name have theirs. -/
theorem located_propertyRest (hh : head.Within good) (hn : good name.span) :
    Located placed tokens (propertyRest head name) (∀ p ∈ ·, (Member.property p).Within good) := by
  have finish : ∀ (body : PropertyBody) (init : Option Expr), body.Within good → (∀ e ∈ init, e.Within good) →
      Located placed tokens
        (do
          return some ({ attributes := head.attributes, modifiers := head.modifiers, type := head.type, name := name.lexeme,
                         nameSpan := name.span, body, init, span := ← spanFrom head.start } : PropertyDecl))
        (∀ p ∈ ·, (Member.property p).Within good) := fun body init hb hi =>
    (located_spanFrom _).bind fun _ _ => located_some ⟨hh.modifiers, hn, hh.type, hb, hi⟩
  have init : Located placed tokens propertyInit (∀ o ∈ ·, ∀ e ∈ o, e.Within good) := by
    refine (located_accept P _).bind fun b _ => ?_
    split
    · exact located_some nofun
    · refine (located_exprAndEnd P).bind fun o ho => located_pure fun o' h => ?_
      obtain ⟨e, rfl, rfl⟩ := Option.map_eq_some_iff.1 h
      exact ho
  refine (located_accept P _).bind fun b _ => ?_
  split
  · refine (located_exprAndEnd P).bind fun o ho => ?_
    cases o with
    | none => exact located_none
    | some e => exact finish (.expr e) none (ho e rfl) nofun
  · refine (located_accessors P).bind fun o ho => ?_
    cases o with
    | none => exact located_none
    | some list =>
      refine init.bind fun o hi => ?_
      cases o with
      | none => exact located_none
      | some value => exact finish (.accessors list) value (ho list rfl) (hi value rfl)

/-- A method has its places when its head and its name have theirs. -/
theorem located_methodRest (hh : head.Within good) (hn : good name.span) :
    Located placed tokens (methodRest head name) (∀ d ∈ ·, (Member.method d).Within good) := by
  refine (located_params P _).bind fun o hp => ?_
  cases o with
  | none => exact located_none
  | some params =>
    refine (located_body P).bind fun o hb => ?_
    cases o with
    | none => exact located_none
    | some body =>
      exact (located_spanFrom _).bind fun _ _ => located_some ⟨hh.modifiers, hn, hh.type, hp params rfl, hb body rfl⟩

omit P in
/-- A declaration as a member. -/
theorem located_map {β : Type} {a : Reading (Option α)} {f : α → β} {p : β → Prop}
    (h : Located placed tokens a (∀ v ∈ ·, p (f v))) :
    Located placed tokens (do return (← a).map f) (∀ v ∈ ·, p v) := by
  refine h.bind fun o ho => located_pure fun v hv => ?_
  obtain ⟨u, rfl, rfl⟩ := Option.map_eq_some_iff.1 hv
  exact ho u rfl

/-- A member with a name has its places when its head and its name have theirs. -/
theorem located_namedRest (hh : head.Within good) (hn : good name.span) :
    Located placed tokens (namedRest head name) (∀ m ∈ ·, m.Within good) := by
  refine (located_accept P _).bind fun b _ => ?_
  split
  · exact located_map (located_methodRest P hh hn)
  refine (located_sees _).bind fun arrow _ => (located_sees _).bind fun brace _ => ?_
  split
  · exact located_map (located_propertyRest P hh hn)
  · exact located_map (located_fieldRest P hh hn)

omit P in
/-- A member that is given up. -/
theorem located_dropMember {p : α → Prop} : Located placed tokens dropMember (∀ v ∈ ·, p v) :=
  (located_skipBy _).bind fun _ _ => located_none

/-- What stands behind the parameters of an indexer. -/
def indexerBody (head : MemberHead) (params : List Param) : Reading (Option IndexerDecl) := do
  let finish (body : PropertyBody) : Reading (Option IndexerDecl) := do
    return some { attributes := head.attributes, modifiers := head.modifiers, type := head.type, params, body,
                  span := ← spanFrom head.start }
  if ← accept (.sign .arrow) then
    let value ← expr
    if !(← expect .semicolon) then return ← dropMember
    let some value := value | return none
    finish (.expr value)
  else
    let some list ← accessors | dropMember
    finish (.accessors list)

/-- An indexer has no name, so its whole place counts. -/
theorem locatedAt_indexerBody (hh : head.Within good) (hs : head.start.Over tokens) (hl : head.start.Leads r.cursor)
    (hlt : r.remaining < head.start.ahead.length) {params : List Param} (hp : ∀ p ∈ params, p.Within good) :
    LocatedAt placed tokens r (indexerBody head params) fun o _ => ∀ i ∈ o, (Member.indexer i).Within good := by
  have finish : ∀ (body : PropertyBody) (s : Reader), body.Within good → r.cursor.Leads s.cursor →
      LocatedAt placed tokens s (spanFrom head.start >>= fun span =>
        pure (some (IndexerDecl.mk head.attributes head.modifiers head.type params body span)))
        fun o _ => ∀ i ∈ o, (Member.indexer i).Within good := fun body s hb hl' =>
    (locatedAt_spanFrom P hs (hl.trans hl') (Nat.lt_of_le_of_lt hl'.le hlt)).bind fun _ _ _ hg =>
      locatedAt_some ⟨hh.modifiers, hg, hh.type, hp, hb⟩
  refine (located_accept P _ r).bind fun b s₁ hl₁ _ => ?_
  split
  · refine (located_expr P s₁).bind fun o s₂ hl₂ ho => (located_expect P _ s₂).bind fun b s₃ hl₃ _ => ?_
    split
    · exact (located_dropMember s₃).bind fun _ _ _ h => locatedAt_pure h
    · cases o with
      | none => exact located_none s₃
      | some value => exact finish (.expr value) s₃ (ho value rfl) ((hl₁.trans hl₂).trans hl₃)
  · refine (located_accessors P s₁).bind fun o s₂ hl₂ ho => ?_
    cases o with
    | none => exact located_dropMember s₂
    | some list => exact finish (.accessors list) s₂ (ho list rfl) (hl₁.trans hl₂)

/-- An indexer has its places; its span begins with its head, in front of the reader. -/
theorem locatedAt_indexerRest (hh : head.Within good) (hs : head.start.Over tokens) (hl : head.start.Leads r.cursor)
    (hlt : r.remaining < head.start.ahead.length) :
    LocatedAt placed tokens r (indexerRest head) fun o _ => ∀ i ∈ o, (Member.indexer i).Within good := by
  refine (locatedAt_expect P _).bind fun b s₁ hl₁ hb => ?_
  split
  · exact located_dropMember s₁
  have hlt₁ : s₁.remaining < r.remaining := hb (by simpa using ‹¬ (!b) = true›)
  refine (located_params P _ s₁).bind fun o s₂ hl₂ hp => ?_
  cases o with
  | none => exact located_dropMember s₂
  | some params =>
    have rest : ∀ s : Reader, s₂.cursor.Leads s.cursor → LocatedAt placed tokens s (indexerBody head params) fun o _ =>
        ∀ i ∈ o, (Member.indexer i).Within good := fun s hl₃ =>
      have hl' := (hl₁.trans hl₂).trans hl₃
      locatedAt_indexerBody P hh hs (hl.trans hl') (Nat.lt_of_le_of_lt hl'.le hlt) (hp params rfl)
    dsimp only
    split
    · refine locatedAt_cursor fun hc => ?_
      have last := P.last hc (hl₁.trans hl₂) (Nat.lt_of_le_of_lt hl₂.le hlt₁)
      exact ((located_report _ last) s₂).bind fun _ s hl₃ _ => rest s hl₃
    · exact rest s₂ (.refl _)

/-- A member has its places. -/
theorem located_member : Located placed tokens member (∀ m ∈ ·, m.Within good) := by
  refine fun r => locatedAt_cursor fun hc => (located_attributes P r).bind fun attributes s₁ hl₁ _ =>
    (located_modifiers P s₁).bind fun modifiers s₂ hl₂ hm => (locatedAt_expectType P _).bind fun o s₃ hl₃ ht => ?_
  have hl₂ := hl₁.trans hl₂
  have hl₃ := hl₂.trans hl₃
  cases o with
  | none => exact located_dropMember s₃
  | some type =>
    obtain ⟨ht, hlt⟩ := ht type rfl
    have hlt := Nat.lt_of_lt_of_le hlt hl₂.le
    have hh : MemberHead.Within good ⟨r.cursor, attributes, modifiers, type⟩ := ⟨hm, ht⟩
    refine (located_accept P _ s₃).bind fun b s₄ hl₄ _ => ?_
    dsimp only
    split
    · refine (locatedAt_indexerRest P hh hc (hl₃.trans hl₄) (Nat.lt_of_le_of_lt hl₄.le hlt)).bind fun o s _ ho => ?_
      refine locatedAt_pure fun m hm => ?_
      obtain ⟨i, rfl, rfl⟩ := Option.map_eq_some_iff.1 hm
      exact ho i rfl
    refine (located_expectName P _ s₄).bind fun o s₅ _ hn => ?_
    cases o with
    | none => exact located_dropMember s₅
    | some name =>
      refine (located_namedRest P hh (hn name rfl) s₅).bind fun o s₆ _ ho => ?_
      cases o with
      | none => exact located_dropMember s₆
      | some read => exact locatedAt_some (ho read rfl)

omit P in
/-- Dropping a type places what is given instead of it. -/
theorem located_dropType {v : α} {p : α → Prop} (h : p v) : Located placed tokens (dropType v) p :=
  (located_skipBy _).bind fun _ _ => located_pure h

/-- The members of a type have their places. -/
theorem located_members : Located placed tokens members (∀ m ∈ ·, m.Within good) := by
  refine (located_expect P _).bind fun b _ => ?_
  split
  · exact located_dropType (List.forall_mem_nil _)
  · exact (located_many (located_member P)).bind fun _ hl => (located_expect P _).bind fun _ _ => located_pure hl

/-- A kind of type that is missed is reported at a place of the tokens. -/
theorem located_typeKind : Located placed tokens typeKind fun _ => True := by
  refine (located_accept P _).bind fun b _ => ?_
  split
  · exact located_pure trivial
  refine (located_accept P _).bind fun b _ => ?_
  split
  · exact located_pure trivial
  · exact located_missing P (fun o => .noDeclaration (o.getD "")) trivial

/-- A type declaration has its places. -/
theorem located_typeDecl : Located placed tokens typeDecl (∀ d ∈ ·, d.Within good) := by
  refine located_cursor fun start _ => (located_modifiers P).bind fun modifiers _ => (located_typeKind P).bind fun o _ => ?_
  cases o with
  | none => exact located_dropType nofun
  | some kind =>
    refine (located_expectName P _).bind fun o hn => ?_
    cases o with
    | none => exact located_dropType nofun
    | some name =>
      refine (located_generics P).bind fun generics hg => (located_primary? P).bind fun primary hp =>
        (located_base? P).bind fun base hb => (located_whereClauses P hg).bind fun generics hg =>
          (located_members P).bind fun members hm => (located_spanFrom start).bind fun _ _ =>
            located_some ⟨hn name rfl, hg, ?_, hb, hm⟩
      cases primary with
      | none => exact List.forall_mem_nil _
      | some list => exact hp list rfl

/-- Reading a source text leads on over its tokens, whatever they are. The unit lies at places made of theirs, and so
do all faults. -/
theorem located_unit : Located placed tokens unit (·.Within good) :=
  (located_many (located_typeDecl P)).bind fun _ h => located_pure h

end

end Reading

end NavCheck
