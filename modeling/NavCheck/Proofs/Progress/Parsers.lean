import NavCheck.Proofs.Places.Declarations
import NavCheck.Proofs.Productions
import NavCheck.Proofs.Progress.Descents

/-!
# The parsers get to the end

Whatever the tokens are, both parsers come to an end. The loops of the declaration parser end by themselves, because
each round that asks for another one passes a token. The recursive functions go down with every call, to fewer tokens
ahead or to a lower level. Everything else is a sequence of such actions, and none of them moves the cursor back or
past the last token.
-/

namespace NavCheck

namespace Reading

variable {α β σ : Type}

/-! ## Getting on -/

/-- An action that moves the cursor on over the tokens, by one token at least when its outcome has a property. -/
def Advances (a : Reading α) (p : α → Prop) : Prop :=
  ∀ r : Reader, r.cursor.Leads (a.run r).2.cursor ∧ (p (a.run r).1 → (a.run r).2.remaining < r.remaining)

section

variable {a : Reading α} {k : α → Reading β} {p q : α → Prop} {p' : β → Prop}

/-- An action that advances for an outcome does so for fewer outcomes. -/
theorem Advances.mono (h : a.Advances p) (hq : ∀ v, q v → p v) : a.Advances q :=
  fun r => ⟨(h r).1, fun hv => (h r).2 (hq _ hv)⟩

/-- A plain outcome advances when it is none that has to. -/
theorem advances_pure {v : α} (h : ¬ p v) : (pure v : Reading α).Advances p :=
  fun _ => ⟨.refl _, fun hv => (h hv).elim⟩

/-- Of two actions in a row one has to pass a token. -/
theorem Advances.bind (h : a.Advances p) (hk : ∀ v, (k v).Advances fun w => p' w ∧ ¬ p v) : (a >>= k).Advances p' := by
  refine fun r => ⟨(h r).1.trans (hk _ _).1, fun hv => ?_⟩
  by_cases hp : p (a.run r).1
  · exact Nat.lt_of_le_of_lt ((k (a.run r).1).forward _) ((h r).2 hp)
  · exact Nat.lt_of_lt_of_le ((hk _ _).2 ⟨hv, hp⟩) (a.forward r)

/-- Where nothing is asked of places, all places will do. -/
theorem places_anywhere (tokens : List Token) : Places (fun _ => True) (fun _ => True) tokens where
  token _ _ := trivial
  join _ _ := trivial
  guard _ _ _ _ _ := trivial
  at_good _ := trivial
  here _ := trivial

/-- An action whose places may lie anywhere advances when it leaves fewer tokens for the outcomes in question. -/
theorem advances_of_locatedAt (h : ∀ {tokens r}, Places (fun _ => True) (fun _ => True) tokens →
    LocatedAt (fun _ => True) tokens r a fun v s => p v → s.remaining < r.remaining) : a.Advances p := by
  intro r
  -- the tokens are those on both sides of the cursor, and all that was found before may stay
  have hs : r.Sound (fun _ => True) (r.cursor.passed.reverse ++ r.cursor.ahead) r.sink.found := ⟨rfl, fun _ => .inl⟩
  exact (h (places_anywhere _) hs).2

/-- An action that reads at places moves the cursor on. -/
theorem advances_of_located {p : α → Prop} (h : ∀ {tokens}, Places (fun _ => True) (fun _ => True) tokens →
    Located (fun _ => True) tokens a p) : a.Advances fun _ => False :=
  advances_of_locatedAt fun P => (h P _).mono fun _ _ _ => False.elim

/-- A part of the text is passed, or there is none. -/
theorem advances_of_given {a : Reading (Option α)} {p : α → Prop}
    (h : ∀ {tokens r}, Places (fun _ => True) (fun _ => True) tokens →
      LocatedAt (fun _ => True) tokens r a fun o s => ∀ v ∈ o, p v ∧ s.remaining < r.remaining) : a.Advances (·.isSome) := by
  refine advances_of_locatedAt fun P => (h P).mono fun o s ho hv => ?_
  obtain ⟨v, rfl⟩ := Option.isSome_iff_exists.1 hv
  exact (ho v rfl).2

end

/-- Asking for the cursor leaves it where it is. -/
theorem advances_cursor : cursor.Advances fun _ => False :=
  fun _ => ⟨.refl _, False.elim⟩

/-- A token is passed when it is accepted. -/
theorem advances_accept (kind : TokenKind) : (accept kind).Advances (· = true) :=
  advances_of_locatedAt fun P => locatedAt_accept P kind

/-- A token is passed when a name is there. -/
theorem advances_expectName (what : DeclName) : (expectName what).Advances (·.isSome) :=
  advances_of_given fun P => locatedAt_expectName P what

/-- A token is passed when a type is there. -/
theorem advances_expectType (place : TypePlace) : (expectType place).Advances (·.isSome) :=
  advances_of_given fun P => locatedAt_expectType P place

/-- Reporting a fault leaves the cursor where it is. -/
theorem advances_report (fault : DeclFault) (span : Option Span) : (report fault span).Advances fun _ => False :=
  advances_of_located fun _ => located_report fault trivial

/-- A report that is made in some cases only, and what goes on in all of them. -/
theorem advances_reportIf {c : Prop} [Decidable c] {fault : DeclFault} {span : Option Span} {k : Unit → Reading α}
    {p : α → Prop} (hk : (k ()).Advances p) : (if c then report fault span >>= k else k ()).Advances p := by
  split
  · exact (advances_report _ _).bind fun _ => hk.mono fun _ h => h.1
  · exact hk

/-! ## Loops -/

/-- A loop without a guard, for so many rounds at most. -/
def rounds (round : σ → Reading (σ × Bool)) : Nat → σ → Reading σ
  | 0, s => pure s
  | n + 1, s => do
    let (s, more) ← round s
    if more then rounds round n s else pure s

/-- A loop whose rounds pass a token when they ask for another round ends by itself. -/
theorem run_iterate_eq_rounds {round : σ → Reading (σ × Bool)} (h : ∀ s, (round s).Advances (·.2 = true)) :
    ∀ (n : Nat) (s : σ) (r : Reader), r.remaining < n → (iterate round s).run r = (rounds round n s).run r
  | n + 1, s, r, hr => by
    -- the guard of `iterate` is that a token was passed, and a round that asks for another one has passed one
    have passed : ((round s).step r).value.2 = true → ((round s).step r).next.remaining < r.remaining := (h s r).2
    show ((iterateFrom round s r).value, (iterateFrom round s r).next) =
      (if ((round s).step r).value.2 then rounds round n ((round s).step r).value.1
        else pure ((round s).step r).value.1).run ((round s).step r).next
    rw [iterateFrom]
    dsimp only
    by_cases hm : ((round s).step r).value.2 = true
    · rw [if_pos (And.intro hm (passed hm)), if_pos hm]
      exact run_iterate_eq_rounds h n _ _ (Nat.lt_of_lt_of_le (passed hm) (Nat.lt_succ_iff.1 hr))
    · rw [if_neg (fun hc => hm (And.left hc)), if_neg hm]
      rfl

/-- Rounds of a loop move the cursor on. -/
theorem advances_rounds {round : σ → Reading (σ × Bool)} {p : σ × Bool → Prop} (h : ∀ s, (round s).Advances p) :
    ∀ (n : Nat) (s : σ), (rounds round n s).Advances fun _ => False
  | 0, _ => advances_pure id
  | n + 1, s => by
    refine (h s).bind fun v => ?_
    obtain ⟨s', more⟩ := v
    cases more
    · exact advances_pure (by simp)
    · exact (advances_rounds h n s').mono (by simp)

/-- A loop moves the cursor on. -/
theorem advances_iterate {round : σ → Reading (σ × Bool)} (h : ∀ s, (round s).Advances (·.2 = true)) (s : σ) :
    (iterate round s).Advances fun _ => False := by
  intro r
  rw [run_iterate_eq_rounds h _ s r (Nat.lt_succ_self _)]
  exact advances_rounds h _ s r

/-- A round of a row of items, which costs one token when the item passes none. -/
def itemRound (ends : Token → Bool) (item : Reading (Option α)) (items : List α) : Reading (List α × Bool) := do
  let before ← cursor
  match before.peek? with
  | none => return (items, false)
  | some token =>
    if ends token then return (items, false)
    let read ← item
    if (← cursor).remaining = before.remaining then skip 1
    return (items ++ read.toList, true)

/-- The loops of the declaration parser. -/
inductive Loop where
  | modifiers
  | attributeNames (target : Option String)
  | attributes
  | generics
  | primary
  | arguments
  | whereClauses (list : List GenericParam)
  | params
  | accessors
  | members
  | types

namespace Loop

/-- What a loop has at the beginning of a round. -/
abbrev State : Loop → Type
  | modifiers => List Modifier
  | attributeNames _ | attributes => List Attribute
  | generics | whereClauses _ => List GenericParam
  | primary => List PrimaryParam
  | arguments => List Expr
  | params => List Param × Bool
  | accessors => List Accessor × Bool
  | members => List Member
  | types => List TypeDecl

/-- What the production with the loop gives. -/
abbrev Result : Loop → Type
  | primary => Option (List PrimaryParam)
  | params => Option (List Param)
  | accessors => Option (List Accessor)
  | types => SourceUnit
  | l => l.State

/-- Where a loop begins. -/
def start : (l : Loop) → l.State
  | modifiers | attributeNames _ | attributes | generics | primary | arguments | members | types => []
  | whereClauses list => list
  | params => ([], true)
  | accessors => ([], false)

/-- One round. -/
def round : (l : Loop) → l.State → Reading (l.State × Bool)
  | modifiers, list => do
    match ← modifier? with
    | some m => return (list ++ [m], true)
    | none => return (list, false)
  | attributeNames target, list => do
    match ← expectName .attribute with
    | some name => return (list ++ [⟨target, name.lexeme, name.span⟩], ← accept (.punct .comma))
    | none => return (list, false)
  | attributes, list => do
    if ← accept (.punct .openBracket) then return (list ++ (← attributeList), true)
    return (list, false)
  | generics, list => do
    match ← expectName .generic with
    | none => return (list, false)
    | some name =>
      if list.any (·.name == name.lexeme) then report (.duplicateGeneric name.lexeme) (some name.span)
      return (list ++ [({ name := name.lexeme, span := name.span, constraint := none } : GenericParam)],
        ← accept (.punct .comma))
  | primary, list => do
    let list ← do
      match ← primaryParam with
      | some param =>
        if list.any (·.name == param.name) then report (.duplicateParam param.name) (some param.nameSpan)
        pure (list ++ [param])
      | none =>
        skipBy (Recovery.expression 0)
        pure list
    return (list, ← accept (.punct .comma))
  | arguments, list => do
    let arg ← expr
    return (list ++ arg.toList, ← accept (.punct .comma))
  | whereClauses _, list => do
    if ← accept (.keyword .whereKw) then return (← whereClause list, true)
    return (list, false)
  | params, (list, _) => do
    match ← param list with
    | some p => return ((list ++ [p], true), ← accept (.punct .comma))
    | none => return ((list, false), false)
  | accessors, (list, _) => do
    if ← accept (.punct .closeBrace) then return ((list, true), false)
    match ← accessor list with
    | some a => return ((list ++ [a], false), true)
    | none => return ((list, false), false)
  | members, list => itemRound (·.isMark .closeBrace) member list
  | types, list => itemRound (fun _ => false) typeDecl list

/-- What stands around a loop. -/
def around : (l : Loop) → Reading l.State → Reading l.Result
  | modifiers, loop | attributeNames _, loop | attributes, loop | whereClauses _, loop => loop
  | generics, loop => do
    if !(← accept (.sign .less)) then return []
    let list ← loop
    if !(← accept (.sign .greater)) then reportHere .unclosedGenerics
    return list
  | primary, loop => do
    if !(← accept (.punct .openParen)) then return none
    if ← accept (.punct .closeParen) then return some []
    let list ← loop
    let _ ← expect .closeParen
    return some list
  | arguments, loop => do
    if ← accept (.punct .closeParen) then return []
    let list ← loop
    let _ ← expect .closeParen
    return list
  | params, loop => do
    let (list, complete) ← loop
    return if complete then some list else none
  | accessors, loop => do
    if !(← expect .openBrace) then return none
    let (list, complete) ← loop
    return if complete then some list else none
  | members, loop => do
    if !(← expect .openBrace) then return ← dropType []
    let list ← loop
    let _ ← expect .closeBrace
    return list
  | types, loop => do
    return ⟨← loop⟩

/-- The production with the loop. -/
def production : (l : Loop) → Reading l.Result
  | modifiers => Reading.modifiers
  | attributeNames target => Reading.attributeNames target
  | attributes => Reading.attributes
  | generics => Reading.generics
  | primary => primary?
  | arguments => Reading.arguments
  | whereClauses list => Reading.whereClauses list
  | params => paramList
  | accessors => Reading.accessors
  | members => Reading.members
  | types => unit

/-- A production is its loop with what stands around it. -/
theorem production_eq (l : Loop) : l.production = l.around (iterate l.round l.start) := by
  cases l <;> rfl

end Loop

/-! ## Rounds -/

/-- A round of a list passes a token when it asks for another one. -/
theorem advances_itemRound {ends : Token → Bool} {item : Reading (Option α)} {p : Option α → Prop}
    (h : ∀ {tokens}, Places (fun _ => True) (fun _ => True) tokens → Located (fun _ => True) tokens item p)
    (items : List α) : (itemRound ends item items).Advances (·.2 = true) := by
  refine advances_of_locatedAt fun {tokens r} P => locatedAt_cursor fun _ => ?_
  cases ht : r.cursor.peek? with
  | none => exact locatedAt_pure nofun
  | some token =>
    dsimp only
    split
    · exact locatedAt_pure nofun
    have ahead : 0 < r.remaining := List.length_pos_of_mem (List.mem_of_mem_head? ht)
    refine (h P r).bind fun read s hl _ => locatedAt_cursor fun _ => ?_
    split
    case isTrue hs =>
      change s.remaining = r.remaining at hs
      refine (locatedAt_skip 1).bind fun _ s' _ hskip => locatedAt_pure fun _ => ?_
      omega
    case isFalse hs => exact locatedAt_pure fun _ => Nat.lt_of_le_of_ne hl.le hs

/-- A `where` clause moves the cursor on. -/
theorem advances_whereClause (list : List GenericParam) : (whereClause list).Advances fun _ => False := by
  refine (advances_expectName _).bind fun o => ?_
  cases o with
  | none => exact advances_pure (by simp)
  | some name =>
    refine (advances_of_located fun P => located_expect P _).bind fun b => ?_
    cases b
    · exact advances_pure (by simp)
    refine (advances_of_located located_constraint).bind fun c => ?_
    split
    · split
      · exact (advances_report _ _).bind fun _ => advances_pure (by simp)
      · exact advances_pure (by simp)
    · exact (advances_report _ _).bind fun _ => advances_pure (by simp)

/-- A token is passed when a parameter is there. -/
theorem advances_param (earlier : List Param) : (param earlier).Advances (·.isSome) := by
  refine advances_cursor.bind fun start => (advances_expectType _).bind fun o => ?_
  cases o with
  | none => exact advances_pure (by simp)
  | some type =>
    refine (advances_expectName _).bind fun o => ?_
    cases o with
    | none => exact advances_pure (by simp)
    | some name =>
      exact advances_reportIf ((advances_of_located located_default?).bind fun default =>
        (advances_of_located fun _ => located_spanFrom start).bind fun span => advances_pure (by simp))

/-- A token is passed when an accessor is there. -/
theorem advances_accessor (earlier : List Accessor) : (accessor earlier).Advances (·.isSome) := by
  refine advances_cursor.bind fun start => (advances_of_locatedAt locatedAt_accessorKind).bind fun o => ?_
  cases o with
  | none => exact advances_pure (by simp)
  | some kind =>
    have here : (spanFrom start).Advances fun _ => False := advances_of_located fun _ => located_spanFrom start
    have rest := advances_of_located fun P => located_accessorRest P start kind
    dsimp only
    split
    · exact here.bind fun _ => (advances_report _ _).bind fun _ => rest.mono (by simp)
    · exact rest.mono (by simp)

namespace Loop

/-- A round of any of the loops passes a token when it asks for another one. -/
theorem advances_round : ∀ (l : Loop) (s : l.State), (l.round s).Advances (·.2 = true)
  | modifiers, list => by
    refine (advances_of_given locatedAt_modifier?).bind fun o => ?_
    cases o <;> exact advances_pure (by simp)
  | attributeNames target, list => by
    refine (advances_expectName _).bind fun o => ?_
    cases o with
    | none => exact advances_pure (by simp)
    | some name => exact (advances_accept _).bind fun b => advances_pure (by simp)
  | attributes, list => by
    refine (advances_accept _).bind fun b => ?_
    cases b
    · exact advances_pure (by simp)
    · exact (advances_of_located located_attributeList).bind fun _ => advances_pure (by simp)
  | generics, list => by
    refine (advances_expectName _).bind fun o => ?_
    cases o with
    | none => exact advances_pure (by simp)
    | some name => exact advances_reportIf ((advances_accept _).bind fun b => advances_pure (by simp))
  | primary, list => by
    have comma : ∀ list : List PrimaryParam,
        (do return (list, ← accept (.punct .comma)) : Reading (List PrimaryParam × Bool)).Advances (·.2 = true) := fun _ =>
      (advances_accept _).bind fun b => advances_pure (by simp)
    refine (advances_of_located located_primaryParam).bind fun o => ?_
    cases o with
    | none => exact (advances_of_located fun _ => located_skipBy _).bind fun _ => (comma list).mono (by simp)
    | some param => exact advances_reportIf ((comma _).mono (by simp))
  | arguments, list =>
    (advances_of_located located_expr).bind fun arg => (advances_accept _).bind fun b => advances_pure (by simp)
  | whereClauses _, list => by
    refine (advances_accept _).bind fun b => ?_
    cases b
    · exact advances_pure (by simp)
    · exact (advances_whereClause list).bind fun _ => advances_pure (by simp)
  | params, (list, _) => by
    refine (advances_param list).bind fun o => ?_
    cases o with
    | none => exact advances_pure (by simp)
    | some p => exact (advances_accept _).bind fun b => advances_pure (by simp)
  | accessors, (list, _) => by
    refine (advances_accept _).bind fun b => ?_
    cases b
    · refine (advances_accessor list).bind fun o => ?_
      cases o <;> exact advances_pure (by simp)
    · exact advances_pure (by simp)
  | members, list => advances_itemRound located_member list
  | types, list => advances_itemRound located_typeDecl list

/-- A loop in its production. Each round leads on and passes a token when it asks for another one, so the loop leads
on and needs no guard: it ends after a round for each token ahead, and one more, at the latest. -/
structure Ends (l : Loop) : Prop where
  production : l.production = l.around (iterate l.round l.start)
  round : ∀ s, (l.round s).Advances (·.2 = true)
  whole : ∀ s, (iterate l.round s).Advances fun _ => False
  unguarded : ∀ s r n, r.remaining < n → (iterate l.round s).run r = (rounds l.round n s).run r

/-- Each of the loops ends by itself. -/
theorem ends (l : Loop) : l.Ends where
  production := l.production_eq
  round := l.advances_round
  whole := advances_iterate l.advances_round
  unguarded s r n := run_iterate_eq_rounds l.advances_round n s r

end Loop

/-- Statements are read on over the tokens. -/
theorem Call.leads : ∀ c : Call, c.reader.cursor.Leads c.next.cursor
  | statement r => (located_statementFrom (places_anywhere _) r ⟨rfl, fun _ => .inl⟩).2.1
  | statements r => (advances_of_located located_statements r).1

/-- All tokens are passed, in their order. -/
theorem cursor_unit (tokens : List Token) (sink : Sink) (skipped : List Token) :
    (unit.run ⟨.start tokens, sink, skipped⟩).2.cursor = ⟨tokens.reverse, []⟩ := by
  obtain ⟨⟨ts, hahead, hpassed⟩, -⟩ := advances_of_located located_unit ⟨.start tokens, sink, skipped⟩
  have hend := ahead_unit ⟨.start tokens, sink, skipped⟩
  change tokens = ts ++ _ at hahead
  change _ = ts.reverse ++ [] at hpassed
  rw [hend, List.append_nil] at hahead
  rw [List.append_nil, ← hahead] at hpassed
  rw [← hpassed, ← hend]

end Reading

namespace Expr

/-- Expressions are read on over the tokens. -/
theorem Call.leads (c : Call) : ∀ d ∈ c.stop? c.run, c.cursor.Leads d := by
  have leads : ∀ {α : Type} {next : α → Cursor} {c : Cursor} (x : Except ExprError α),
      (∀ a, x = .ok a → ∃ ts, c.Passes ts (next a)) → ∀ d ∈ x.toOption.map next, c.Leads d := by
    intro α next c x h d hd
    cases x with
    | error e => cases hd
    | ok a => cases hd; exact h a rfl
  cases c with
  | assign pending c => exact leads _ fun r h => (reads_of_readAssign pending c r h).passes
  | conditional pending c => exact leads _ fun r h => (reads_of_readConditional pending c r h).passes
  | binary pending least c => exact leads _ fun r h => (reads_of_readBinary pending least c r h).passes
  | operators pending least start left c =>
    exact leads _ fun r h => (reads_of_readBinaryRest pending least start left c r h).passes
  | unary pending c => exact leads _ fun r h => (reads_of_readUnary pending c r h).passes
  | accesses pending start base c => exact leads _ fun r h => (reads_of_readAccesses pending start base c r h).passes
  | link start guarded c => exact leads _ fun r h => (reads_of_readLink start guarded c r h).passes
  | list c => exact leads _ fun r h => (reads_of_readList c r h).passes
  | bracketed place c => exact leads _ fun r h => (reads_of_readBracketed place c r h).passes
  | args c => exact leads _ fun r h => (reads_of_readArgs c r h).passes
  | primary pending c => exact leads _ fun r h => (reads_of_readPrimary pending c r h).passes
  | lambda pending start head =>
    exact leads _ fun r h => (reads_of_readLambdaBody pending start head.value head.next head.shorter r h).passes
  | lambdaHead c => exact leads _ fun r h => Cursor.passes_lambdaParams h
  | lambdaParams c => exact leads _ fun r h => c.passes_lambdaParamList r h
  | creation start c => exact leads _ fun r h => (reads_of_readCreation start c r h).passes
  | entries c => exact leads _ fun r h => (reads_of_readEntries c r h).passes
  | entry c => exact leads _ fun r h => (reads_of_readEntry c r h).passes
  | entryValue c => exact leads _ fun r h => (reads_of_readEntryValue c r h).passes

/-- What is read from a token on ends behind it, and not behind the last one. -/
theorem readAt_stop (tokens : List Token) (index : Nat) :
    (∃ e stop, readAt tokens index = .ok (e, stop) ∧ index < stop ∧ stop ≤ tokens.length) ∨
      ∃ fault, readAt tokens index = .error fault := by
  unfold readAt
  cases readAssign 0 (Cursor.ofIndex tokens index) with
  | error fault => exact .inr ⟨fault, rfl⟩
  | ok e =>
    have h := e.shorter
    simp only [Cursor.ofIndex, List.length_drop] at h
    refine .inl ⟨_, _, rfl, ?_, Nat.sub_le _ _⟩
    unfold Cursor.remaining
    omega

end Expr

/-- Both parsers come to an end whatever the tokens are. A unit is read up to the end of the tokens, and an expression
from its first token up to a later place, or there is an error. Each round of a loop passes a token or is the last
one; each recursive call has fewer tokens ahead or is on a lower level; and the cursor moves on over the tokens and
nowhere else. -/
theorem parsers_terminate :
    (∀ tokens sink skipped, (Reading.unit.run ⟨.start tokens, sink, skipped⟩).2.cursor = ⟨tokens.reverse, []⟩) ∧
    (∀ tokens index,
      (∃ e stop, Expr.readAt tokens index = .ok (e, stop) ∧ index < stop ∧ stop ≤ tokens.length) ∨
        ∃ fault, Expr.readAt tokens index = .error fault) ∧
    (∀ l : Reading.Loop, l.Ends) ∧
    Scan.descent.Determines Scan.Call.run ∧ Expr.descent.Determines Expr.Call.run ∧
    Reading.descent.Determines Reading.Call.run ∧
    (∀ c : Expr.Call, ∀ d ∈ c.stop? c.run, c.cursor.Leads d) ∧
    ∀ c : Reading.Call, c.reader.cursor.Leads c.next.cursor :=
  ⟨Reading.cursor_unit, Expr.readAt_stop, Reading.Loop.ends, Scan.describes.determines, Expr.describes.determines,
    Reading.describes.determines, Expr.Call.leads, Reading.Call.leads⟩

end NavCheck
