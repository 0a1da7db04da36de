import NavCheck.Proofs.Cuts
import NavCheck.Proofs.Spelling

/-!
# Quoted texts read back

Quoting and lexing have tables of their own for what a backslash stands for. Whatever a text holds and whatever is written
behind it, the lexer stops at the quote that was put behind the text, and what it has read is the text.
-/

namespace NavCheck

/-- The token of a quoted text at an offset of a file. -/
def Token.ofQuoted (file : Option Nat) (offset : Nat) (value : String) : Token :=
  ⟨.string value, Text.quote value, ⟨file, offset, offset + Text.byteLength (Text.quote value).toList⟩⟩

/-- A quoted text in front of a text is cut off as a whole and without a fault. -/
theorem Lexer.tokensFrom_quoted (file : Option Nat) (offset : Nat) (value : String) (cs : List Char) :
    tokensFrom file offset ((Text.quote value).toList ++ cs) =
      (.ofQuoted file offset value, none) ::
        tokensFrom file (offset + Text.byteLength (Text.quote value).toList) cs := by
  have he := toList_quote value
  have hp := tokensFrom_scanned file offset _ _ cs (scan_quoted value cs)
  rw [← List.cons_append, ← he, String.ofList_toList] at hp
  exact hp

/-- A quoted text is read as one literal of its value, whatever follows it, and nothing is found wrong with it: what is found is
what is found in the text behind it, as far back as this is. -/
theorem lex_quote_append [Text.Hash] (value rest : String) (file : Option Nat) :
    (lex (Text.quote value ++ rest) file).tokens = .ofQuoted file 0 value ::
        (lex rest file).tokens.map (move (.behind (Text.byteLength (Text.quote value).toList))) ∧
      (lex (Text.quote value ++ rest) file).diagnostics.map (·.said) =
        ((lex rest file).diagnostics.map (·.said)).map (move (.behind (Text.byteLength (Text.quote value).toList))) ∧
      (lex (Text.quote value) file).tokens = [.ofQuoted file 0 value] ∧ (lex (Text.quote value) file).diagnostics = [] := by
  have behind := Lexer.tokensFrom_quoted file 0 value rest.toList
  have alone := Lexer.tokensFrom_quoted file 0 value []
  rw [Nat.zero_add, ← Nat.add_zero (Text.byteLength _), Lexer.tokensFrom_behind, ← String.toList_append] at behind
  rw [List.append_nil, Lexer.tokensFrom.eq_def _ _ []] at alone
  refine ⟨?_, ?_, ?_, ?_⟩
  · simp only [lex, Lexed.tokens, behind, List.map_cons, List.map_map]
    rfl
  · rw [said_lex, said_lex, behind, List.filterMap_cons, List.filterMap_map, List.map_filterMap]
    refine congrArg (List.filterMap · _) (funext fun piece => ?_)
    obtain ⟨token, _ | fault⟩ := piece <;> rfl
  · simp only [lex, Lexed.tokens, alone, List.map_cons, List.map_nil]
  · simp only [lex, Lexed.diagnostics, alone, List.foldl_cons, List.foldl_nil]
    rfl

end NavCheck
