import NavCheck.Proofs.Layout.Lexemes
import NavCheck.Text.Digest

/-!
# Cuts between tokens

The tokens of a text lie side by side and are slices of it. A text that is cut between two of its tokens falls into two texts
with these tokens, so nothing that is read on one side of a cut depends on the other side.
-/

namespace NavCheck

/-! ## Slices -/

namespace Text

theorem byteLength_append (p q : List Char) : byteLength (p ++ q) = byteLength p + byteLength q := by
  induction p with
  | nil => exact (Nat.zero_add _).symm
  | cons c p ih => rw [List.cons_append, byteLength, byteLength, ih, Nat.add_assoc]

theorem dropBytes?_append (p q : List Char) : dropBytes? (byteLength p) (p ++ q) = some q := by
  induction p with
  | nil => rw [byteLength, dropBytes?, List.nil_append]
  | cons c p ih =>
    obtain ⟨n, hn⟩ := Nat.exists_eq_add_of_lt (Nat.add_pos_left c.utf8Size_pos (byteLength p))
    have hs : n + 1 - c.utf8Size = byteLength p := by omega
    rw [byteLength, hn, Nat.zero_add, List.cons_append, dropBytes?, if_pos (by omega), hs, ih]

theorem takeBytes?_append (p q : List Char) : takeBytes? (byteLength p) (p ++ q) = some p := by
  induction p with
  | nil => rw [byteLength, takeBytes?]
  | cons c p ih =>
    obtain ⟨n, hn⟩ := Nat.exists_eq_add_of_lt (Nat.add_pos_left c.utf8Size_pos (byteLength p))
    have hs : n + 1 - c.utf8Size = byteLength p := by omega
    rw [byteLength, hn, Nat.zero_add, List.cons_append, takeBytes?, if_pos (by omega), hs, ih, Option.map_some]

/-- A part of a text is the slice from where it begins to where it ends. -/
theorem slice?_append (p m q : List Char) :
    slice? (byteLength p) (byteLength p + byteLength m) (p ++ (m ++ q)) = some m := by
  rw [slice?, if_pos (Nat.le_add_right _ _), dropBytes?_append, Option.bind_some, Nat.add_sub_cancel_left, takeBytes?_append]

end Text

/-! ## Tokens side by side -/

/-- Tokens of a file that lie side by side, each with at least one byte, from a first offset to a last one. -/
def Covers (file : Option Nat) : List Token → Nat → Nat → Prop
  | [], first, last => first = last
  | t :: ts, first, last => t.span.file = file ∧ t.span.start = first ∧ first < t.span.stop ∧ Covers file ts t.span.stop last

theorem Covers.stop_eq {file : Option Nat} {ts : List Token} {t : Token} {first last : Nat}
    (h : Covers file (ts ++ [t]) first last) : t.span.stop = last := by
  induction ts generalizing first with
  | nil => exact h.2.2.2
  | cons u ts ih => exact ih h.2.2.2

/-- Puts places as many bytes further back as there are in front of a text. -/
def Relocation.behind (offset : Nat) : Relocation :=
  ⟨fun s => { s with start := offset + s.start, stop := offset + s.stop },
    fun s => { s with start := offset + s.start, stop := offset + s.stop }⟩

namespace Lexer

variable {file : Option Nat} {offset : Nat} {cs : List Char}

/-- The text of tokens, put together. -/
def spelled (pieces : List (Token × Option LexFault)) : List Char :=
  pieces.flatMap fun piece => piece.1.lexeme.toList

/-- Nothing of a text is lost in its tokens. -/
theorem spelled_tokensFrom (file : Option Nat) (offset : Nat) (cs : List Char) : spelled (tokensFrom file offset cs) = cs := by
  fun_induction tokensFrom file offset cs with
  | case1 => rfl
  | case2 offset c cs s taken stop token ih =>
    rw [spelled, List.flatMap_cons]
    show (String.ofList taken).toList ++ spelled (tokensFrom file stop (cs.drop s.extra)) = c :: cs
    rw [ih, String.toList_ofList, List.cons_append, List.take_append_drop]

/-- The tokens of a text cover it. -/
theorem covers_tokensFrom (file : Option Nat) (offset : Nat) (cs : List Char) :
    Covers file ((tokensFrom file offset cs).map (·.1)) offset (offset + Text.byteLength cs) := by
  fun_induction tokensFrom file offset cs with
  | case1 => exact rfl
  | case2 offset c cs s taken stop token ih =>
    have hs : stop + Text.byteLength (cs.drop s.extra) = offset + Text.byteLength (c :: cs) := by
      rw [Nat.add_assoc, ← Text.byteLength_append, List.cons_append, List.take_append_drop]
    have hlt : offset < stop := Nat.lt_add_of_pos_right (Nat.add_pos_left c.utf8Size_pos _)
    rw [hs] at ih
    exact ⟨rfl, rfl, hlt, ih⟩

/-- Each token has a lexeme and is as long as this. -/
theorem lexeme_of_mem_tokensFrom : ∀ piece ∈ tokensFrom file offset cs,
    piece.1.lexeme ≠ "" ∧ piece.1.span.stop = piece.1.span.start + Text.byteLength piece.1.lexeme.toList := by
  fun_induction tokensFrom file offset cs with
  | case1 => exact List.forall_mem_nil _
  | case2 offset c cs s taken stop token ih =>
    refine List.forall_mem_cons.2 ⟨⟨?_, ?_⟩, ih⟩
    · exact fun he => List.cons_ne_nil c _ (String.ofList_eq_empty_iff.1 he)
    · show stop = offset + Text.byteLength (String.ofList taken).toList
      rw [String.toList_ofList]

/-- Behind other text the tokens of a text are the same, only further back. -/
theorem tokensFrom_behind (file : Option Nat) (front offset : Nat) (cs : List Char) :
    tokensFrom file (front + offset) cs =
      (tokensFrom file offset cs).map fun piece => (move (.behind front) piece.1, piece.2) := by
  fun_induction tokensFrom file offset cs with
  | case1 => rw [tokensFrom, List.map_nil]
  | case2 offset c cs s taken stop token ih =>
    rw [tokensFrom, List.map_cons, ← ih, Nat.add_assoc]
    rfl

/-- A text that is cut between two tokens falls into the texts of the tokens on both sides. -/
theorem tokensFrom_cut {xs ys : List (Token × Option LexFault)} (h : tokensFrom file offset cs = xs ++ ys) :
    ∃ p q, cs = p ++ q ∧ tokensFrom file offset p = xs ∧ tokensFrom file (offset + Text.byteLength p) q = ys := by
  induction xs generalizing offset cs with
  | nil => exact ⟨[], cs, rfl, by rw [tokensFrom], h⟩
  | cons x xs ih =>
    cases cs with
    | nil =>
      rw [tokensFrom] at h
      cases h
    | cons c cs =>
      rw [tokensFrom, List.cons_append] at h
      obtain ⟨hx, hr⟩ := List.cons.inj h
      obtain ⟨p, q, hpq, hp, hq⟩ := ih hr
      -- what is taken from the text in front of the cut is taken from the whole text
      have hcut : cs.take (scan c cs).extra ++ p = cs.take ((scan c cs).extra + p.length) := by
        rw [List.take_add, hpq, List.take_left]
      have hs : scan c (cs.take (scan c cs).extra ++ p) = scan c cs := by
        rw [hcut, scan_take (Nat.le_add_right _ _)]
      have htake : (cs.take (scan c cs).extra ++ p).take (scan c cs).extra = cs.take (scan c cs).extra := by
        rw [hcut, List.take_take, Nat.min_eq_left (Nat.le_add_right _ _)]
      have hdrop : (cs.take (scan c cs).extra ++ p).drop (scan c cs).extra = p := by
        rw [hcut, List.drop_take, Nat.add_sub_cancel_left, hpq, List.take_left]
      refine ⟨c :: (cs.take (scan c cs).extra ++ p), q, ?_, ?_, ?_⟩
      · rw [List.cons_append, List.append_assoc, ← hpq, List.take_append_drop]
      · rw [tokensFrom, hs, htake, hdrop, hp, hx]
      · rw [← List.cons_append, Text.byteLength_append, ← Nat.add_assoc]
        exact hq

/-- A token stands somewhere in its text, and there its lexeme is cut out with this token. -/
theorem exists_slice {x : Token × Option LexFault} (hx : x ∈ tokensFrom file 0 cs) :
    ∃ p q, cs = p ++ (x.1.lexeme.toList ++ q) ∧ x.1.span.start = Text.byteLength p ∧
      tokensFrom file (Text.byteLength p) x.1.lexeme.toList = [x] := by
  obtain ⟨xs, ys, hxs⟩ := List.append_of_mem hx
  obtain ⟨p, rest, rfl, -, hr⟩ := tokensFrom_cut hxs
  have hr : tokensFrom file (0 + Text.byteLength p) rest = [x] ++ ys := hr
  obtain ⟨m, q, rfl, hm, -⟩ := tokensFrom_cut hr
  rw [Nat.zero_add] at hm
  have hl : m = x.1.lexeme.toList := by
    rw [← spelled_tokensFrom file (Text.byteLength p) m, hm]
    exact List.append_nil _
  have hc := covers_tokensFrom file (Text.byteLength p) m
  rw [hm] at hc
  exact ⟨p, q, hl ▸ rfl, hc.2.1, hl ▸ hm⟩

end Lexer

/-! ## Findings -/

/-- What a finding says, and of which place. -/
def Diagnostic.said (d : Diagnostic) : String × Option Span :=
  (d.message, d.span?)

/-- What the finding about a token says, if the token has a fault. -/
def Lexer.said? (piece : Token × Option LexFault) : Option (String × Option Span) :=
  piece.2.map fun fault => (fault.message, some piece.1.span)

/-- Where each token adds what is said of it, a row of tokens adds what is said of all of them. -/
theorem said_foldl {note : Sink → Token × Option LexFault → Sink}
    (hn : ∀ sink piece, (note sink piece).found.map (·.said) = sink.found.map (·.said) ++ (Lexer.said? piece).toList)
    (pieces : List (Token × Option LexFault)) (sink : Sink) :
    (pieces.foldl note sink).found.map (·.said) = sink.found.map (·.said) ++ pieces.filterMap Lexer.said? := by
  induction pieces generalizing sink with
  | nil => exact (List.append_nil _).symm
  | cons piece pieces ih =>
    rw [List.foldl_cons, ih, hn, List.append_assoc, List.filterMap_cons]
    cases Lexer.said? piece <;> rfl

/-- The findings about a text are those about its tokens. -/
theorem said_lex [Text.Hash] (source : String) (file : Option Nat) :
    (lex source file).diagnostics.map (·.said) = (Lexer.tokensFrom file 0 source.toList).filterMap Lexer.said? := by
  refine said_foldl (fun sink piece => ?_) _ (Sink.empty lexArea)
  obtain ⟨token, _ | fault⟩ := piece
  · exact (List.append_nil _).symm
  · dsimp only
    rw [Sink.pushError, Sink.push, List.map_append]
    rfl

/-! ## Cuts -/

/-- The offset lies between two tokens, or at an end of the text. -/
def Lexed.IsBoundary (l : Lexed) (k : Nat) : Prop :=
  k = 0 ∨ ∃ t ∈ l.tokens, t.span.stop = k

/-- At a boundary a text is cut between two of its tokens. -/
theorem Lexed.IsBoundary.exists_cut {source : String} {file : Option Nat} {k : Nat} (h : (lex source file).IsBoundary k) :
    ∃ p q : List Char, source.toList = p ++ q ∧ Text.byteLength p = k ∧
      Lexer.tokensFrom file 0 source.toList = Lexer.tokensFrom file 0 p ++ Lexer.tokensFrom file k q := by
  rcases h with rfl | ⟨t, ht, rfl⟩
  · exact ⟨[], source.toList, rfl, rfl, by rw [Lexer.tokensFrom.eq_def file 0 [], List.nil_append]⟩
  · obtain ⟨x, hx, rfl⟩ : ∃ x ∈ Lexer.tokensFrom file 0 source.toList, x.1 = t := List.mem_map.1 ht
    obtain ⟨xs, ys, hxs⟩ := List.append_of_mem hx
    rw [List.append_cons] at hxs
    obtain ⟨p, q, hpq, hp, hq⟩ := Lexer.tokensFrom_cut hxs
    have hc := Lexer.covers_tokensFrom file 0 p
    rw [hp, List.map_append, Nat.zero_add] at hc
    have hk : Text.byteLength p = x.1.span.stop := hc.stop_eq.symm
    rw [Nat.zero_add, hk] at hq
    exact ⟨p, q, hpq, hk, by rw [hxs, hp, hq]⟩

/-- A token that is cut out of its text is the only token of its lexeme. -/
theorem lex_lexeme {source : String} {file : Option Nat} {t : Token} (ht : t ∈ (lex source file).tokens) :
    ∃ u, (lex t.lexeme file).tokens = [u] ∧ move (.behind t.span.start) u = t := by
  obtain ⟨x, hx, rfl⟩ := List.mem_map.1 ht
  obtain ⟨p, q, -, hp, hm⟩ := Lexer.exists_slice hx
  rw [← Nat.add_zero (Text.byteLength p), Lexer.tokensFrom_behind, ← hp] at hm
  obtain ⟨y, hy, hyx⟩ := List.map_eq_singleton_iff.1 hm
  exact ⟨y.1, congrArg (List.map Prod.fst) hy, congrArg Prod.fst hyx⟩

/-- A text is cut into tokens without a loss, and none of them depends on what is behind it or in front of it: the tokens are
slices of the text side by side, a text that is cut between two of them falls into texts with the same tokens and the same
findings, and each is the only token of its lexeme. -/
theorem lex_cut [Text.Hash] (source : String) (file : Option Nat) :
    (∀ t ∈ (lex source file).tokens,
        t.lexeme ≠ "" ∧ Text.slice? t.span.start t.span.stop source.toList = some t.lexeme.toList) ∧
      Covers file (lex source file).tokens 0 (Text.byteLength source.toList) ∧
      (∀ k, (lex source file).IsBoundary k → ∃ p q : String, source = p ++ q ∧ Text.byteLength p.toList = k ∧
        (lex source file).tokens = (lex p file).tokens ++ (lex q file).tokens.map (move (.behind k)) ∧
        (lex source file).diagnostics.map (·.said) =
          (lex p file).diagnostics.map (·.said) ++ ((lex q file).diagnostics.map (·.said)).map (move (.behind k))) ∧
      ∀ t ∈ (lex source file).tokens, ∃ u, (lex t.lexeme file).tokens = [u] ∧ move (.behind t.span.start) u = t := by
  refine ⟨fun t ht => ?_, ?_, fun k hk => ?_, fun t ht => lex_lexeme ht⟩
  · obtain ⟨x, hx, rfl⟩ := List.mem_map.1 ht
    obtain ⟨hne, hstop⟩ := Lexer.lexeme_of_mem_tokensFrom x hx
    obtain ⟨p, q, hs, hp, -⟩ := Lexer.exists_slice hx
    refine ⟨hne, ?_⟩
    rw [hstop, hp, hs]
    exact Text.slice?_append p _ q
  · have hc := Lexer.covers_tokensFrom file 0 source.toList
    rwa [Nat.zero_add] at hc
  · obtain ⟨p, q, hs, hp, hcut⟩ := hk.exists_cut
    rw [← Nat.add_zero k, Lexer.tokensFrom_behind] at hcut
    refine ⟨String.ofList p, String.ofList q, ?_, by rwa [String.toList_ofList], ?_, ?_⟩
    · rw [← String.ofList_append, ← hs, String.ofList_toList]
    · simp only [lex, Lexed.tokens, hcut, String.toList_ofList, List.map_append, List.map_map]
      rfl
    · rw [said_lex, said_lex, said_lex, hcut, String.toList_ofList, String.toList_ofList, List.filterMap_append,
        List.filterMap_map, List.map_filterMap]
      refine congrArg (_ ++ List.filterMap · _) (funext fun piece => ?_)
      obtain ⟨token, _ | fault⟩ := piece <;> rfl

/-- A text is cut behind a comment, which has a letter of two bytes. -/
theorem lex_cut_of_comment : (lex "x/*é*/y" none).IsBoundary 7 ∧ ∃ p q : String,
    "x/*é*/y" = p ++ q ∧ Text.byteLength p.toList = 7 ∧
      (lex "x/*é*/y" none).tokens = (lex p none).tokens ++ (lex q none).tokens.map (move (.behind 7)) := by
  have h : (lex "x/*é*/y" none).IsBoundary 7 := .inr (by decide +kernel)
  obtain ⟨p, q, hs, hp, ht, -⟩ := (lex_cut "x/*é*/y" none).2.2.1 7 h
  exact ⟨h, p, q, hs, hp, ht⟩

end NavCheck
