import Mathlib.Data.List.Basic
import Mathlib.Data.List.Induction
import Mathlib.Data.Nat.Digits.Defs
import NavCheck.Proofs.Cuts
import NavCheck.Proofs.Spelling
import NavCheck.Text.Digest

/-!
# Malformed tokens

What can be wrong with a token is told by its kind and by the text from the token on, without the scan: a text literal needs a
quote that is not escaped, and no line feed in front of it may be unescaped; a block comment needs its end, and a number has a
largest value. The findings about a text are one for each token with which something is wrong, in order. All other numbers have
the value that is written.
-/

namespace NavCheck

/-! ## What is said of a text -/

namespace Text

/-- Is what follows a text escaped by it? The backslashes at its end are odd in number. -/
def Escapes (front : List Char) : Prop :=
  (front.reverse.takeWhile (· == '\\')).length % 2 = 1

instance (front : List Char) : Decidable (Escapes front) :=
  inferInstanceAs (Decidable (_ = _))

/-- A text goes on to a closing quote: a quote that is not escaped, and no line feed in front of it is not escaped. -/
def ReachesQuote (cs : List Char) : Prop :=
  ∃ front rest, cs = front ++ '"' :: rest ∧ ¬ Escapes front ∧ ∀ p q, front = p ++ '\n' :: q → Escapes p

/-- A text goes on to the end of a block comment. -/
def ReachesCommentEnd (cs : List Char) : Prop :=
  ['*', '/'] <:+: cs

/-- The number with these decimal digits, the first one the highest. -/
def valueOfDigits (digits : List Char) : Nat :=
  Nat.ofDigits 10 (digits.map fun c => c.toNat - '0'.toNat).reverse

/-- The marks and signs that a token can begin with. -/
def tokenSigns : List Char :=
  ['"', '/', '{', '}', '(', ')', '[', ']', ';', ',', ':', '.', '$', '?', '=', '+', '-', '*', '%', '!', '<', '>', '&', '|']

/-- Can a token begin with the character? -/
def beginsToken (c : Char) : Bool :=
  isBlank c || startsName c || c.isDigit || tokenSigns.contains c

/-! ### Escapes -/

theorem not_escapes_nil : ¬ Escapes [] := by decide

/-- Behind a front that escapes nothing a text begins anew. -/
theorem escapes_append {lead : List Char} (h : ¬ Escapes lead) (front : List Char) : Escapes (lead ++ front) ↔ Escapes front := by
  rw [Escapes] at h
  rw [Escapes, List.reverse_append, List.takeWhile_append]
  split
  · rename_i hall
    rw [Escapes, hall, List.length_append]
    omega
  · rfl

/-- A character that is no backslash escapes nothing. -/
theorem not_escapes_singleton {c : Char} (hc : c ≠ '\\') : ¬ Escapes [c] := by
  have last : [c].takeWhile (· == '\\') = [] := List.takeWhile_cons_of_neg (by simpa using hc)
  rw [Escapes, List.reverse_singleton, last]
  decide

/-- Nor does a character that is escaped itself. -/
theorem not_escapes_pair (c : Char) : ¬ Escapes ['\\', c] := by
  by_cases hc : c = '\\'
  · subst hc
    decide
  · have last : [c, '\\'].takeWhile (· == '\\') = [] := List.takeWhile_cons_of_neg (by simpa using hc)
    show ¬ ([c, '\\'].takeWhile (· == '\\')).length % 2 = 1
    rw [last]
    decide

/-! ### Closing quotes -/

theorem reachesQuote_quote (cs : List Char) : ReachesQuote ('"' :: cs) :=
  ⟨[], cs, rfl, not_escapes_nil, fun _ _ h => absurd h.symm (List.append_ne_nil_of_right_ne_nil _ (List.cons_ne_nil _ _))⟩

theorem not_reachesQuote_nil : ¬ ReachesQuote [] := by
  rintro ⟨front, rest, h, -⟩
  exact List.append_ne_nil_of_right_ne_nil _ (List.cons_ne_nil _ _) h.symm

theorem not_reachesQuote_newline (cs : List Char) : ¬ ReachesQuote ('\n' :: cs) := by
  rintro ⟨front, rest, h, -, hl⟩
  cases front with
  | nil => cases h
  | cons c front =>
    obtain ⟨rfl, -⟩ := List.cons.inj h
    exact not_escapes_nil (hl [] front rfl)

theorem not_reachesQuote_backslash : ¬ ReachesQuote ['\\'] := by
  rintro ⟨front, rest, h, -⟩
  cases front with
  | nil => cases h
  | cons c front =>
    exact List.append_ne_nil_of_right_ne_nil _ (List.cons_ne_nil _ _) (List.cons.inj h).2.symm

/-- A front that escapes nothing, with every quote and line feed in it escaped, does not count. -/
theorem reachesQuote_append {lead : List Char} (he : ¬ Escapes lead)
    (hq : ∀ p c q, lead = p ++ c :: q → c = '"' ∨ c = '\n' → Escapes p) (cs : List Char) :
    ReachesQuote (lead ++ cs) ↔ ReachesQuote cs := by
  constructor
  · rintro ⟨front, rest, h, hf, hn⟩
    rcases List.append_eq_append_iff.1 h with ⟨more, rfl, rfl⟩ | ⟨more, rfl, hmore⟩
    · refine ⟨more, rest, rfl, fun hm => hf ((escapes_append he more).2 hm), fun p q hp => ?_⟩
      exact (escapes_append he p).1 (hn (lead ++ p) q (by rw [hp, List.append_assoc]))
    · cases more with
      | nil =>
        obtain rfl : '"' :: rest = cs := hmore
        exact reachesQuote_quote rest
      | cons c more =>
        obtain ⟨rfl, -⟩ := List.cons.inj hmore
        exact absurd (hq front '"' more rfl (.inl rfl)) hf
  · rintro ⟨front, rest, rfl, hf, hn⟩
    refine ⟨lead ++ front, rest, (List.append_assoc ..).symm, fun hm => hf ((escapes_append he front).1 hm), fun p q hp => ?_⟩
    rcases List.append_eq_append_iff.1 hp with ⟨more, rfl, hfront⟩ | ⟨more, rfl, hmore⟩
    · exact (escapes_append he more).2 (hn more q hfront)
    · cases more with
      | nil => exact absurd (hn [] q hmore.symm) not_escapes_nil
      | cons c more =>
        obtain ⟨rfl, -⟩ := List.cons.inj hmore
        exact hq p '\n' more rfl (.inr rfl)

/-- A character that is no quote, line feed or backslash does not count. -/
theorem reachesQuote_cons {c : Char} (hq : c ≠ '"') (hl : c ≠ '\n') (hb : c ≠ '\\') (cs : List Char) :
    ReachesQuote (c :: cs) ↔ ReachesQuote cs := by
  refine reachesQuote_append (not_escapes_singleton hb) (fun p d q h hd => ?_) cs
  cases p with
  | nil =>
    obtain ⟨rfl, -⟩ := List.cons.inj h
    exact absurd hd (not_or_intro hq hl)
  | cons b p => exact absurd (List.cons.inj h).2.symm (List.append_ne_nil_of_right_ne_nil _ (List.cons_ne_nil _ _))

/-- An escaped character does not count, whatever it is. -/
theorem reachesQuote_pair (c : Char) (cs : List Char) : ReachesQuote ('\\' :: c :: cs) ↔ ReachesQuote cs := by
  refine reachesQuote_append (not_escapes_pair c) (fun p d q h hd => ?_) cs
  rcases p with _ | ⟨b, _ | ⟨e, p⟩⟩
  · obtain ⟨rfl, -⟩ := List.cons.inj h
    exact absurd hd (by decide)
  · obtain ⟨rfl, -⟩ := List.cons.inj h
    decide
  · exact absurd (List.cons.inj (List.cons.inj h).2).2.symm (List.append_ne_nil_of_right_ne_nil _ (List.cons_ne_nil _ _))

end Text

/-! ## What the scan finds -/

namespace Lexer

/-- The inside of a literal is closed where the text goes on to a closing quote. -/
theorem stringBody_closed_iff (cs : List Char) : (stringBody cs).2.2 = true ↔ Text.ReachesQuote cs := by
  fun_induction stringBody cs with
  | case1 => exact iff_of_false Bool.noConfusion Text.not_reachesQuote_nil
  | case2 cs => exact iff_of_true rfl (Text.reachesQuote_quote cs)
  | case3 cs => exact iff_of_false Bool.noConfusion (Text.not_reachesQuote_newline cs)
  | case4 => exact iff_of_false Bool.noConfusion Text.not_reachesQuote_backslash
  | case5 c cs value n closed h ih =>
    rw [h] at ih
    rw [Text.reachesQuote_pair, ← ih]
  | case6 c cs hq hl hs he value n closed h ih =>
    have hc : c ≠ '\\' := by
      rintro rfl
      cases cs with
      | nil => exact hs rfl rfl
      | cons d cs => exact he d cs rfl rfl
    rw [h] at ih
    rw [Text.reachesQuote_cons hq hl hc, ← ih]

instance (cs : List Char) : Decidable (Text.ReachesQuote cs) :=
  decidable_of_iff _ (stringBody_closed_iff cs)

instance (cs : List Char) : Decidable (Text.ReachesCommentEnd cs) :=
  inferInstanceAs (Decidable (['*', '/'] <:+: cs))

/-- The inside of a block comment is closed where the text goes on to its end. -/
theorem commentBody_closed_iff (cs : List Char) : (commentBody cs).2 = true ↔ Text.ReachesCommentEnd cs := by
  fun_induction commentBody cs with
  | case1 => exact iff_of_false Bool.noConfusion (by decide)
  | case2 cs => exact iff_of_true rfl ⟨[], cs, rfl⟩
  | case3 c cs hc n closed h ih =>
    rw [h] at ih
    rw [Text.ReachesCommentEnd, List.infix_cons_iff, ← Text.ReachesCommentEnd, ← ih]
    refine (or_iff_right fun hp => ?_).symm
    obtain ⟨more, hp⟩ := hp
    obtain ⟨rfl, hend⟩ := List.cons.inj hp
    exact hc more rfl hend.symm

/-- Digits are read from the highest on. -/
theorem decimal_eq_valueOfDigits (digits : List Char) : decimal digits = Text.valueOfDigits digits := by
  induction digits using List.reverseRecOn with
  | nil => rfl
  | append_singleton digits c ih =>
    rw [decimal_append, ih, Text.valueOfDigits, Text.valueOfDigits, List.map_append, List.reverse_append, List.map_singleton,
      List.reverse_singleton, List.singleton_append, Nat.ofDigits_cons, Nat.add_comm]
    rfl

theorem mem_tokenSigns_of_scanSymbol? {c : Char} {cs : List Char} {s : Scan} (h : scanSymbol? c cs = some s) :
    c ∈ Text.tokenSigns := by
  unfold scanSymbol? at h
  split at h
  case h_20 =>
    obtain ⟨mark, hm, -⟩ := Option.map_eq_some_iff.1 h
    unfold Punct.ofChar? at hm
    split at hm
    case h_13 => cases hm
    all_goals decide
  all_goals decide

theorem scanSymbol?_ne_none {c : Char} (h : c ∈ Text.tokenSigns) (hq : c ≠ '"') (cs : List Char) :
    scanSymbol? c cs ≠ none := by
  have last : Text.tokenSigns.all (fun c => c == '"' || (scanSymbol? c []).isSome) = true := by decide
  intro hn
  have hc := List.all_eq_true.1 last c h
  rw [scanSymbol?_none hn, Option.isSome_none, Bool.or_false] at hc
  exact hq (beq_iff_eq.1 hc)

/-- A symbol that begins no comment is a mark or a sign. -/
theorem fault_scanSymbol? {c : Char} {cs : List Char} {s : Scan} (hc : c ≠ '/') (h : scanSymbol? c cs = some s) :
    s.fault = none ∧ ((∃ mark, s.kind = .punct mark) ∨ ∃ sign, s.kind = .sign sign) := by
  unfold scanSymbol? at h
  split at h
  case h_19 => exact absurd rfl hc
  case h_20 =>
    obtain ⟨mark, -, rfl⟩ := Option.map_eq_some_iff.1 h
    exact ⟨rfl, .inl ⟨mark, rfl⟩⟩
  all_goals
    cases h
    exact ⟨rfl, .inr ⟨_, rfl⟩⟩

end Lexer

/-! ## Malformed tokens -/

namespace Token

/-- The text from a token on. -/
def onward (source : String) (t : Token) : List Char :=
  (Text.dropBytes? t.span.start source.toList).getD []

/-- The digits of a number as they are written. -/
def digits (t : Token) : List Char :=
  t.lexeme.toList.filter (· != '_')

/-- What is wrong with a token, if anything is: it is an unknown character, a text literal without its closing quote, a block
comment without its end, or a number that is too large. The text is the one from the token on. -/
def malformed? (text : List Char) (t : Token) : Option LexFault :=
  match t.kind with
  | .unknown c => some (.unexpectedChar c)
  | .string _ => if Text.ReachesQuote (text.drop 1) then none else some .unterminatedString
  | .comment =>
    if ['/', '*'] <+: text ∧ ¬ Text.ReachesCommentEnd (text.drop 2) then some .unterminatedComment else none
  | .number _ =>
    if Text.valueOfDigits t.digits ≤ 9223372036854775807 then none else some (.numberOutOfRange (String.ofList t.digits))
  | _ => none

end Token

namespace Lexer

/-- The token that a text begins with. -/
def firstToken (c : Char) (cs : List Char) (span : Span) : Token :=
  ⟨(scan c cs).kind, String.ofList (c :: cs.take (scan c cs).extra), span⟩

theorem digits_firstToken {c : Char} {cs : List Char} (h : scan c cs = scanNumber c cs) (span : Span) :
    (firstToken c cs span).digits = (c :: cs.takeWhile Text.continuesNumber).filter (· != '_') := by
  have taken := List.prefix_iff_eq_take.1 (List.takeWhile_prefix (l := cs) Text.continuesNumber)
  rw [firstToken, Token.digits, h, extra_scanNumber, ← taken, String.toList_ofList]

/-- A number is as large as its digits say, or zero and wrong when this is too large. -/
theorem firstToken_number {c : Char} {cs : List Char} (h : scan c cs = scanNumber c cs) (span : Span) :
    let value := Text.valueOfDigits (firstToken c cs span).digits
    (firstToken c cs span).kind = .number (if value ≤ maxNumber then value else 0) ∧
      (scan c cs).fault =
        if value ≤ maxNumber then none else some (.numberOutOfRange (String.ofList (firstToken c cs span).digits)) := by
  intro value
  have hv : value = decimal ((c :: cs.takeWhile Text.continuesNumber).filter (· != '_')) := by
    rw [decimal_eq_valueOfDigits, ← digits_firstToken h span]
  rw [digits_firstToken h span, firstToken, h, hv, scanNumber]
  dsimp only
  split <;> exact ⟨rfl, rfl⟩

/-- Behind its first digit a number has digits and underscores. -/
theorem isDigit_of_mem_digits {c : Char} {cs : List Char} (hc : c.isDigit = true) (h : scan c cs = scanNumber c cs)
    (span : Span) : ∀ d ∈ (firstToken c cs span).digits, d.isDigit = true := by
  intro d hd
  rw [digits_firstToken h span, List.mem_filter, List.mem_cons] at hd
  obtain ⟨rfl | hm, hu⟩ := hd
  · exact hc
  · have hn : Text.continuesNumber d = true := List.mem_takeWhile_imp hm
    rw [Text.continuesNumber, Bool.or_eq_true] at hn
    exact hn.resolve_right (by simpa using hu)

theorem scanNumber_of_kind {c : Char} {cs : List Char} {value : Nat} (h : (scan c cs).kind = .number value) :
    c.isDigit = true ∧ scan c cs = scanNumber c cs := by
  rcases scan_cases c cs with ⟨-, he⟩ | ⟨-, -, he⟩ | ⟨-, -, hd, he⟩ | ⟨-, he⟩ | ⟨-, hs⟩
  · rw [he] at h
    cases h
  · rw [he, scanName] at h
    split at h <;> cases h
  · exact ⟨hd, he⟩
  · rw [he, scanString] at h
    cases h
  · rw [h] at hs
    cases hs

/-- A comment is wrong where it is a block comment without its end. -/
theorem malformed?_slash (cs : List Char) (lexeme : String) (span : Span) :
    (⟨(scanSlash cs).kind, lexeme, span⟩ : Token).malformed? ('/' :: cs) = (scanSlash cs).fault := by
  fun_cases scanSlash cs with
  | case1 cs =>
    have hn : ¬ ['/', '*'] <+: '/' :: '/' :: cs := by
      rintro ⟨more, hm⟩
      cases hm
    rw [Token.malformed?]
    exact if_neg fun h => hn h.1
  | case2 cs n closed h =>
    have hc := commentBody_closed_iff cs
    rw [h] at hc
    cases closed with
    | true => exact if_neg fun hn => hn.2 (hc.1 rfl)
    | false => exact if_pos ⟨⟨cs, rfl⟩, fun hr => Bool.noConfusion (hc.2 hr)⟩
  | case3 => rfl

/-- What the scan finds wrong with a token is what is wrong with it. -/
theorem malformed?_firstToken (c : Char) (cs : List Char) (span : Span) :
    (firstToken c cs span).malformed? (c :: cs) = (scan c cs).fault := by
  fun_cases scan c cs with
  | case1 hb =>
    have hs : scan c cs = { kind := .blank, extra := (cs.takeWhile Text.isBlank).length } := by rw [scan, if_pos hb]
    rw [Token.malformed?, firstToken, hs]
  | case2 hb ha =>
    have hs : scan c cs = scanName c cs := by rw [scan, if_neg hb, if_pos ha]
    rw [Token.malformed?, firstToken, hs, scanName]
    dsimp only
    cases Keyword.ofText? (String.ofList (c :: cs.takeWhile Text.continuesName)) <;> rfl
  | case3 hb ha hd =>
    have hs : scan c cs = scanNumber c cs := by rw [scan, if_neg hb, if_neg ha, if_pos hd]
    obtain ⟨hk, hf⟩ := firstToken_number hs span
    rw [← hs, hf, Token.malformed?, hk]
    rfl
  | case4 hb ha hd hq =>
    have hs : scan c cs = scanString cs := by rw [scan, if_neg hb, if_neg ha, if_neg hd, if_pos hq]
    have hc := stringBody_closed_iff cs
    rw [Token.malformed?, firstToken, hs, scanString]
    exact if_congr hc.symm rfl rfl
  | case5 hb ha hd hq =>
    have hs : scan c cs = (scanSymbol? c cs).getD { kind := .unknown c, extra := 0, fault := some (.unexpectedChar c) } := by
      rw [scan, if_neg hb, if_neg ha, if_neg hd, if_neg hq]
    rw [firstToken, hs]
    cases h : scanSymbol? c cs with
    | none => rfl
    | some s =>
      by_cases hc : c = '/'
      · subst hc
        obtain rfl : scanSlash cs = s := Option.some.inj h
        exact malformed?_slash cs _ span
      · obtain ⟨hf, ⟨mark, hk⟩ | ⟨sign, hk⟩⟩ := fault_scanSymbol? hc h
        all_goals
          rw [Option.getD_some, hf, Token.malformed?, hk]

/-! ## Unknown characters -/

/-- A character that can begin a token is not unknown. -/
theorem kind_ne_unknown {c d : Char} {cs : List Char} (h : Text.beginsToken c = true) : (scan c cs).kind ≠ .unknown d := by
  fun_cases scan c cs with
  | case1 hb => rintro ⟨⟩
  | case2 hb ha =>
    rw [scanName]
    split <;> rintro ⟨⟩
  | case3 hb ha hd =>
    rw [scanNumber]
    split <;> rintro ⟨⟩
  | case4 hb ha hd hq => rintro ⟨⟩
  | case5 hb ha hd hq =>
    have hc : c ∈ Text.tokenSigns := by simpa [Text.beginsToken, hb, ha, hd] using h
    obtain ⟨s, hs⟩ := Option.ne_none_iff_exists'.1 (scanSymbol?_ne_none hc hq cs)
    rw [hs, Option.getD_some]
    by_cases hl : c = '/'
    · subst hl
      obtain rfl : scanSlash cs = s := Option.some.inj hs
      unfold scanSlash
      split <;> rintro ⟨⟩
    · obtain ⟨-, ⟨mark, hk⟩ | ⟨sign, hk⟩⟩ := fault_scanSymbol? hl hs
      all_goals
        rw [hk]
        rintro ⟨⟩

/-- A character with which no token can begin is a token by itself. -/
theorem scan_of_not_beginsToken {c : Char} (h : Text.beginsToken c = false) (cs : List Char) :
    scan c cs = { kind := .unknown c, extra := 0, fault := some (.unexpectedChar c) } := by
  simp only [Text.beginsToken, Bool.or_eq_false_iff, List.contains_eq_mem, decide_eq_false_iff_not] at h
  obtain ⟨⟨⟨hb, ha⟩, hd⟩, hs⟩ := h
  have hq : c ≠ '"' := by
    rintro rfl
    exact hs (by decide)
  have hn : scanSymbol? c cs = none := by
    rw [Option.eq_none_iff_forall_not_mem]
    exact fun s h => hs (mem_tokenSigns_of_scanSymbol? h)
  rw [scan, if_neg (by simp [hb]), if_neg (by simp [ha]), if_neg (by simp [hd]), if_neg hq, hn, Option.getD_none]

/-- The unknown characters are those with which no token can begin. -/
theorem firstToken_unknown_iff (c d : Char) (cs : List Char) (span : Span) :
    (firstToken c cs span).kind = .unknown d ↔ (firstToken c cs span).lexeme.toList = [d] ∧ Text.beginsToken d = false := by
  rw [firstToken, String.toList_ofList]
  cases hb : Text.beginsToken c with
  | true =>
    refine iff_of_false (kind_ne_unknown hb) fun h => ?_
    obtain rfl := (List.cons.inj h.1).1
    rw [hb] at h
    cases h.2
  | false =>
    rw [scan_of_not_beginsToken hb, List.take_zero]
    constructor
    · rintro ⟨⟩
      exact ⟨rfl, hb⟩
    · rintro ⟨h, -⟩
      rw [(List.cons.inj h).1]

/-! ## Texts -/

/-- A token of a text is the first one of the text from it on. -/
theorem exists_firstToken {file : Option Nat} {cs : List Char} {piece : Token × Option LexFault}
    (h : piece ∈ tokensFrom file 0 cs) : ∃ front c rest span, cs = front ++ c :: rest ∧
      span.start = Text.byteLength front ∧ piece = (firstToken c rest span, (scan c rest).fault) := by
  obtain ⟨xs, ys, hxs⟩ := List.append_of_mem h
  obtain ⟨front, behind, rfl, -, hr⟩ := tokensFrom_cut hxs
  cases behind with
  | nil =>
    rw [tokensFrom] at hr
    cases hr
  | cons c rest =>
    rw [tokensFrom, Nat.zero_add] at hr
    exact ⟨front, c, rest, _, rfl, rfl, (List.cons.inj hr).1.symm⟩

end Lexer

/-- The finding about a fault at a place. -/
def LexFault.finding [hash : Text.Hash] (fault : LexFault) (span : Span) : Diagnostic :=
  Sink.withCode hash lexArea (.error fault.message (some span))

/-- Where each token adds the finding about its fault, a row of tokens adds the findings about all of them. -/
theorem found_foldl [hash : Text.Hash] {note : Sink → Token × Option LexFault → Sink}
    (hn : ∀ found piece, note ⟨hash, lexArea, found⟩ piece =
      ⟨hash, lexArea, found ++ (piece.2.map (·.finding piece.1.span)).toList⟩)
    (pieces : List (Token × Option LexFault)) (found : List Diagnostic) :
    (pieces.foldl note ⟨hash, lexArea, found⟩).found =
      found ++ pieces.filterMap fun piece => piece.2.map (·.finding piece.1.span) := by
  induction pieces generalizing found with
  | nil => exact (List.append_nil _).symm
  | cons piece pieces ih =>
    rw [List.foldl_cons, hn, ih, List.append_assoc, List.filterMap_cons]
    cases piece.2 <;> rfl

/-- The findings about a text are those about the faults of its tokens. -/
theorem diagnostics_lex [hash : Text.Hash] (source : String) (file : Option Nat) :
    (lex source file).diagnostics = (Lexer.tokensFrom file 0 source.toList).filterMap fun piece =>
      piece.2.map (·.finding piece.1.span) := by
  refine found_foldl (fun found piece => ?_) _ []
  obtain ⟨token, _ | fault⟩ := piece
  · exact congrArg (Sink.mk hash lexArea) (List.append_nil _).symm
  · rfl

/-- The text from a token on begins with the token. -/
theorem Lexer.exists_onward {source : String} {file : Option Nat} {piece : Token × Option LexFault}
    (h : piece ∈ tokensFrom file 0 source.toList) :
    ∃ c rest span, piece = (firstToken c rest span, (scan c rest).fault) ∧ piece.1.onward source = c :: rest := by
  obtain ⟨front, c, rest, span, hs, hp, rfl⟩ := exists_firstToken h
  refine ⟨c, rest, span, rfl, ?_⟩
  show (Text.dropBytes? span.start source.toList).getD [] = c :: rest
  rw [hp, hs, Text.dropBytes?_append, Option.getD_some]

/-- Exactly the malformed tokens are found. The findings about a text are, in order, one for each token that is an unknown
character, a text literal without its closing quote, a block comment without its end or a number that is too large, at the place
of the token. Every other number is as large as its digits say, and the unknown characters are those with which no token can
begin. -/
theorem lex_malformed [Text.Hash] (source : String) (file : Option Nat) :
    (lex source file).diagnostics = (lex source file).tokens.filterMap (fun t =>
        (t.malformed? (t.onward source)).map (·.finding t.span)) ∧
      ∀ t ∈ (lex source file).tokens,
        (∀ value, t.kind = .number value → (∀ c ∈ t.digits, c.isDigit = true) ∧
          value = if Text.valueOfDigits t.digits ≤ 9223372036854775807 then Text.valueOfDigits t.digits else 0) ∧
        ∀ c, t.kind = .unknown c ↔ t.lexeme.toList = [c] ∧ Text.beginsToken c = false := by
  constructor
  · rw [diagnostics_lex, Lexed.tokens, lex, List.filterMap_map]
    refine List.filterMap_congr fun piece hp => ?_
    obtain ⟨c, rest, span, rfl, ho⟩ := Lexer.exists_onward hp
    rw [Function.comp_apply, ho, Lexer.malformed?_firstToken]
  · intro t ht
    obtain ⟨piece, hp, rfl⟩ := List.mem_map.1 ht
    obtain ⟨c, rest, span, rfl, -⟩ := Lexer.exists_onward hp
    refine ⟨fun value hk => ?_, fun d => Lexer.firstToken_unknown_iff c d rest span⟩
    obtain ⟨hd, hs⟩ := Lexer.scanNumber_of_kind hk
    have hn := (Lexer.firstToken_number hs span).1
    exact ⟨Lexer.isDigit_of_mem_digits hd hs span, TokenKind.number.inj (hk.symm.trans hn)⟩

/-- A literal with an escaped quote and an escaped line feed goes on to the line feed that is not escaped, and a comment is not
closed by the sign that opens it. Zeros in front do not make a number too large. -/
theorem lex_malformed_of_open :
    let source := "é#\"\\\"\\\n\n0_09223372036854775807 9223372036854775808/*/"
    let t : Token := ⟨.number 9223372036854775807, "0_09223372036854775807", ⟨none, 9, 31⟩⟩
    (lex source none).diagnostics.map (·.span?) =
        [some ⟨none, 2, 3⟩, some ⟨none, 3, 9⟩, some ⟨none, 32, 51⟩, some ⟨none, 51, 54⟩] ∧
      t ∈ (lex source none).tokens ∧ (∀ c ∈ t.digits, c.isDigit = true) ∧
      9223372036854775807 =
        if Text.valueOfDigits t.digits ≤ 9223372036854775807 then Text.valueOfDigits t.digits else 0 := by
  intro source t
  obtain ⟨hd, ht⟩ := lex_malformed source none
  have number : t ∈ (lex source none).tokens := by decide +kernel
  exact ⟨by rw [hd]; decide +kernel, number, (ht t number).1 _ rfl⟩

end NavCheck
