import NavCheck.Token.Lexer

/-!
# Tokens in order

The tokens of a text stand one behind the other: each has at least one byte, and none begins before the one in front of it
ends. So the place where a token ends tells it apart from all others.
-/

namespace NavCheck

/-- Tokens that stand one behind the other, none of them empty. -/
structure InOrder (tokens : List Token) : Prop where
  apart : tokens.Pairwise fun a b => a.span.stop ≤ b.span.start
  proper : ∀ t ∈ tokens, t.span.start < t.span.stop

namespace InOrder

variable {tokens more : List Token}

/-- Tokens that are left when others are taken out stay in order. -/
theorem sublist (h : InOrder more) (hs : tokens.Sublist more) : InOrder tokens :=
  ⟨h.apart.sublist hs, fun t ht => h.proper t (hs.subset ht)⟩

/-- The tokens in front of others. -/
theorem left (h : InOrder (tokens ++ more)) : InOrder tokens :=
  h.sublist (List.sublist_append_left tokens more)

/-- The tokens behind others. -/
theorem right (h : InOrder (tokens ++ more)) : InOrder more :=
  h.sublist (List.sublist_append_right tokens more)

/-- The ends of tokens in order increase. -/
theorem stops_increase (h : InOrder tokens) : (tokens.map (·.span.stop)).Pairwise (· < ·) := by
  rw [List.pairwise_map]
  refine h.apart.imp_of_mem fun {a b} _ hb hab => ?_
  exact Nat.lt_of_le_of_lt hab (h.proper b hb)

/-- No two tokens in order end in the same place. -/
theorem stops_nodup (h : InOrder tokens) : (tokens.map (·.span.stop)).Nodup :=
  h.stops_increase.imp Nat.ne_of_lt

/-- The first token of several does not end behind the last. -/
theorem head_stop_le {first last : Token} {passed : List Token} (h : InOrder (first :: passed ++ [last])) :
    first.span.stop ≤ last.span.stop := by
  have hab := List.pairwise_append.1 h.apart
  have hl := h.proper last (by simp)
  have := hab.2.2 first (by simp) last (by simp)
  omega

end InOrder

namespace Lexer

/-- The tokens of a text that begins at an offset are in order, and none begins before the offset. -/
theorem inOrder_tokensFrom (file : Option Nat) (offset : Nat) (cs : List Char) :
    InOrder ((tokensFrom file offset cs).map (·.1)) ∧ ∀ t ∈ (tokensFrom file offset cs).map (·.1), offset ≤ t.span.start := by
  fun_induction tokensFrom file offset cs with
  | case1 offset => exact ⟨⟨List.Pairwise.nil, by simp⟩, by simp⟩
  | case2 offset c cs s taken stop token ih =>
    obtain ⟨⟨hp, hr⟩, ho⟩ := ih
    have hs : offset < stop := by
      have hc := c.utf8Size_pos
      simp only [stop, taken, Text.byteLength]
      omega
    refine ⟨⟨?_, ?_⟩, ?_⟩
    · exact List.Pairwise.cons (fun t ht => ho t ht) hp
    · intro t ht
      rcases List.mem_cons.1 ht with rfl | ht
      · exact hs
      · exact hr t ht
    · intro t ht
      rcases List.mem_cons.1 ht with rfl | ht
      · exact Nat.le_refl _
      · exact Nat.le_trans (Nat.le_of_lt hs) (ho t ht)

end Lexer

/-- The tokens of a text are in order. -/
theorem inOrder_lex (source : String) (file : Option Nat) : InOrder (lex source file).tokens :=
  (Lexer.inOrder_tokensFrom file 0 source.toList).1

/-- The tokens that the parsers read are in order. -/
theorem inOrder_significant (source : String) (file : Option Nat) : InOrder (lex source file).significant :=
  (inOrder_lex source file).sublist List.filter_sublist

end NavCheck
