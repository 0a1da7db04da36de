import Mathlib.Data.List.TakeWhile
import NavCheck.Proofs.Alike
import NavCheck.Proofs.Layout.Relocation

/-!
# What a lexeme says about its token

A piece of a text is scanned by itself as it is scanned in the text. So a token that the parsers read is malformed because of
its lexeme, and whether a text without an open comment is malformed can be told from the lexemes of these tokens. The file of
a text shows in places only.
-/

namespace NavCheck

namespace Lexer

/-! ## Pieces by themselves

The end of a piece shows at its last character or the one behind it. So a piece stays what it is wherever the text is cut behind
its end.
-/

section

variable {c : Char} {cs : List Char} {n : Nat}

/-- Nothing begins in a text that is cut but what begins in the text. -/
theorem eq_cons_of_take {more : List Char} (h : cs.take n = c :: more) : cs = c :: (more ++ cs.drop n) := by
  rw [← List.cons_append, ← h, List.take_append_drop]

theorem takeWhile_take (p : Char → Bool) (hn : (cs.takeWhile p).length ≤ n) : (cs.take n).takeWhile p = cs.takeWhile p := by
  rw [← List.take_takeWhile, List.take_of_length_le hn]

theorem stringBody_take (hn : (stringBody cs).2.1 ≤ n) : stringBody (cs.take n) = stringBody cs := by
  fun_induction stringBody cs generalizing n with
  | case1 => rw [List.take_nil, stringBody]
  | case2 | case3 | case4 =>
    obtain ⟨n, rfl⟩ := Nat.exists_eq_add_of_le' hn
    simp only [List.take_succ_cons, List.take_nil, stringBody]
  | case5 c cs value k closed h ih =>
    obtain ⟨n, rfl⟩ := Nat.exists_eq_add_of_le' (Nat.le_of_add_left_le hn)
    rw [h] at ih
    show stringBody ('\\' :: c :: cs.take n) = _
    rw [stringBody, ih (Nat.le_of_add_le_add_right hn)]
  | case6 c cs hq hl hs he value k closed h ih =>
    obtain ⟨n, rfl⟩ := Nat.exists_eq_add_of_le' (Nat.le_of_add_left_le hn)
    rw [h] at ih
    have hc : c ≠ '\\' := by
      rintro rfl
      cases cs with
      | nil => exact hs rfl rfl
      | cons d cs => exact he d cs rfl rfl
    show stringBody (c :: cs.take n) = _
    rw [stringBody, ih (Nat.le_of_add_le_add_right hn)]
    · exact hq
    · exact hl
    · exact fun h _ => hc h
    · exact fun _ _ h _ => hc h

theorem commentBody_take (hn : (commentBody cs).1 ≤ n) : commentBody (cs.take n) = commentBody cs := by
  fun_induction commentBody cs generalizing n with
  | case1 => rw [List.take_nil, commentBody]
  | case2 cs =>
    obtain ⟨n, rfl⟩ := Nat.exists_eq_add_of_le' hn
    rfl
  | case3 c cs hc k closed h ih =>
    obtain ⟨n, rfl⟩ := Nat.exists_eq_add_of_le' (Nat.le_of_add_left_le hn)
    rw [h] at ih
    show commentBody (c :: cs.take n) = _
    rw [commentBody, ih (Nat.le_of_add_le_add_right hn)]
    exact fun more hs hm => hc _ hs (eq_cons_of_take hm)

theorem scanSlash_take (hn : (scanSlash cs).extra ≤ n) : scanSlash (cs.take n) = scanSlash cs := by
  fun_cases scanSlash cs with
  | case1 cs =>
    have hn : 1 + (cs.takeWhile (· != '\n')).length ≤ n := hn
    obtain ⟨n, rfl⟩ := Nat.exists_eq_add_of_le hn
    rw [Nat.add_assoc, Nat.add_comm 1, List.take_succ_cons, scanSlash, takeWhile_take _ (Nat.le_add_right _ _)]
  | case2 cs k closed h =>
    have hn : 1 + (commentBody cs).1 ≤ n := hn
    obtain ⟨n, rfl⟩ := Nat.exists_eq_add_of_le hn
    rw [Nat.add_assoc, Nat.add_comm 1, List.take_succ_cons, scanSlash, commentBody_take (Nat.le_add_right _ _), h]
  | case3 =>
    rename_i hl hs
    rw [scanSlash]
    · exact fun more hm => hl _ (eq_cons_of_take hm)
    · exact fun more hm => hs _ (eq_cons_of_take hm)

/-- Of what stands behind a sign that begins no comment, the first character decides. -/
theorem scanSymbol?_cons (hc : c ≠ '/') (d : Char) (ds es : List Char) :
    scanSymbol? c (d :: ds) = scanSymbol? c (d :: es) := by
  rw [scanSymbol?.eq_def, scanSymbol?.eq_def]
  grind

/-- A symbol of one character that begins no comment is one at the end of a text. -/
theorem scanSymbol?_last (hc : c ≠ '/') {s : Scan} (h : scanSymbol? c cs = some s) (hs : s.extra = 0) :
    scanSymbol? c [] = some s := by
  rw [scanSymbol?.eq_def] at h ⊢
  grind [operator]

theorem scanSymbol?_take {s : Scan} (h : scanSymbol? c cs = some s) (hn : s.extra ≤ n) :
    scanSymbol? c (cs.take n) = some s := by
  by_cases hc : c = '/'
  · subst hc
    obtain rfl : scanSlash cs = s := Option.some.inj h
    exact congrArg some (scanSlash_take hn)
  · rcases cs with _ | ⟨d, ds⟩
    · rwa [List.take_nil]
    rcases n with _ | n
    · exact scanSymbol?_last hc h (Nat.le_zero.1 hn)
    · rwa [List.take_succ_cons, scanSymbol?_cons hc d _ ds]

/-- A character that begins no symbol in a text begins none in another. -/
theorem scanSymbol?_none (h : scanSymbol? c cs = none) (es : List Char) : scanSymbol? c es = none := by
  rw [scanSymbol?.eq_def] at h ⊢
  grind [Punct.ofChar?]

theorem extra_scanName : (scanName c cs).extra = (cs.takeWhile Text.continuesName).length := by
  unfold scanName
  dsimp only
  split <;> rfl

theorem extra_scanNumber : (scanNumber c cs).extra = (cs.takeWhile Text.continuesNumber).length := by
  unfold scanNumber
  dsimp only
  split <;> rfl

/-- A piece of a text is scanned as in the text when the text is cut behind it. -/
theorem scan_take (hn : (scan c cs).extra ≤ n) : scan c (cs.take n) = scan c cs := by
  fun_cases scan c cs with
  | case1 hb =>
    rw [scan, if_pos hb] at hn
    rw [scan, if_pos hb, takeWhile_take _ hn]
  | case2 hb ha =>
    rw [scan, if_neg hb, if_pos ha, extra_scanName] at hn
    rw [scan, if_neg hb, if_pos ha, scanName, takeWhile_take _ hn, scanName]
  | case3 hb ha hd =>
    rw [scan, if_neg hb, if_neg ha, if_pos hd, extra_scanNumber] at hn
    rw [scan, if_neg hb, if_neg ha, if_pos hd, scanNumber, takeWhile_take _ hn, scanNumber]
  | case4 hb ha hd hq =>
    rw [scan, if_neg hb, if_neg ha, if_neg hd, if_pos hq] at hn
    rw [scan, if_neg hb, if_neg ha, if_neg hd, if_pos hq, scanString, stringBody_take hn, scanString]
  | case5 hb ha hd hq =>
    rw [scan, if_neg hb, if_neg ha, if_neg hd, if_neg hq] at hn
    rw [scan, if_neg hb, if_neg ha, if_neg hd, if_neg hq]
    cases h : scanSymbol? c cs with
    | none => rw [scanSymbol?_none h]
    | some s =>
      rw [h] at hn
      rw [scanSymbol?_take h hn]

end

/-! ## Faults -/

/-- What is wrong with a lexeme by itself. -/
def faultOf (lexeme : String) : Option LexFault :=
  match lexeme.toList with
  | [] => none
  | c :: cs => (scan c cs).fault

/-- What is wrong with a token can be told from its lexeme. -/
theorem fault_tokensFrom (file : Option Nat) (offset : Nat) (cs : List Char) :
    ∀ piece ∈ tokensFrom file offset cs, piece.2 = faultOf piece.1.lexeme := by
  fun_induction tokensFrom file offset cs with
  | case1 => exact List.forall_mem_nil _
  | case2 offset c cs s taken stop token ih =>
    refine List.forall_mem_cons.2 ⟨?_, ih⟩
    show s.fault = faultOf (String.ofList taken)
    rw [faultOf, String.toList_ofList]
    exact congrArg Scan.fault (scan_take (Nat.le_refl s.extra)).symm

theorem fault_of_scanSlash {cs : List Char} (hf : (scanSlash cs).fault ≠ some .unterminatedComment) :
    (scanSlash cs).fault = none := by
  fun_cases scanSlash cs with
  | case1 | case3 => rfl
  | case2 cs n closed h =>
    rw [scanSlash, h] at hf
    cases closed with
    | false => exact absurd rfl hf
    | true => rfl

/-- Among marks, signs and comments only a comment that is not closed is malformed. -/
theorem fault_of_scanSymbol? {c : Char} {cs : List Char} {s : Scan} (h : scanSymbol? c cs = some s)
    (hf : s.fault ≠ some .unterminatedComment) : s.fault = none := by
  unfold scanSymbol? at h
  split at h
  case h_19 =>
    cases h
    exact fault_of_scanSlash hf
  case h_20 =>
    rw [Option.map_eq_some_iff] at h
    obtain ⟨mark, -, rfl⟩ := h
    rfl
  all_goals
    cases h
    rfl

/-- A blank or a comment is well formed if it is not a comment that is not closed. -/
theorem fault_of_isTrivia {c : Char} {cs : List Char} (h : (scan c cs).kind.isTrivia = true)
    (hf : (scan c cs).fault ≠ some .unterminatedComment) : (scan c cs).fault = none := by
  fun_cases scan c cs with
  | case1 => rfl
  | case2 hb hn =>
    rw [scan, if_neg hb, if_pos hn, scanName] at h
    split at h <;> cases h
  | case3 hb hn hd =>
    rw [scan, if_neg hb, if_neg hn, if_pos hd, scanNumber] at h
    split at h <;> cases h
  | case4 hb hn hd hq =>
    rw [scan, if_neg hb, if_neg hn, if_neg hd, if_pos hq] at h
    cases h
  | case5 hb hn hd hq =>
    rw [scan, if_neg hb, if_neg hn, if_neg hd, if_neg hq] at h hf
    cases hs : scanSymbol? c cs with
    | none =>
      rw [hs] at h
      cases h
    | some s =>
      rw [hs] at hf
      exact fault_of_scanSymbol? hs hf

theorem fault_of_mem_tokensFrom {file : Option Nat} {offset : Nat} {cs : List Char} : ∀ piece ∈ tokensFrom file offset cs,
    piece.1.kind.isTrivia = true → piece.2 ≠ some .unterminatedComment → piece.2 = none := by
  fun_induction tokensFrom file offset cs with
  | case1 => exact List.forall_mem_nil _
  | case2 offset c cs s taken stop token ih => exact List.forall_mem_cons.2 ⟨fault_of_isTrivia, ih⟩

end Lexer

/-- Whether a text ends inside of a block comment. -/
def leavesComment (source : String) : Bool :=
  (Lexer.tokensFrom none 0 source.toList).any fun piece => piece.2 == some .unterminatedComment

/-! ## Files -/

/-- Puts all places into a file. -/
def Relocation.into (file : Option Nat) : Relocation :=
  ⟨fun s => { s with file }, fun s => { s with file }⟩

/-- A text is cut into the same pieces in every file. -/
theorem Lexer.tokensFrom_file (file : Option Nat) (offset : Nat) (cs : List Char) :
    tokensFrom file offset cs = (tokensFrom none offset cs).map fun piece => (move (.into file) piece.1, piece.2) := by
  fun_induction tokensFrom file offset cs with
  | case1 => rw [tokensFrom]; rfl
  | case2 offset c cs s taken stop token ih =>
    rw [tokensFrom, List.map_cons, ih]
    rfl

theorem significant_file (source : String) (file : Option Nat) :
    (lex source file).significant = (lex source none).significant.map (move (.into file)) := by
  simp only [Lexed.significant, Lexed.tokens, lex, Lexer.tokensFrom_file file, List.map_map, List.filter_map]
  rfl

/-- The tokens of a text stand in its file. -/
theorem file_of_mem_significant {source : String} {file : Option Nat} :
    ∀ t ∈ (lex source file).significant, t.span.file = file := by
  rw [significant_file]
  intro t ht
  obtain ⟨u, -, rfl⟩ := List.mem_map.1 ht
  rfl

/-- The file does not show in the layout. -/
theorem Alike.into {ts us : List Token} (h : Alike ts us) (file : Option Nat) :
    Alike (ts.map (move (.into file))) (us.map (move (.into file))) := by
  induction h with
  | nil => exact .nil
  | @cons t u ts us hl ht _ ih =>
    refine .cons hl (fun hk => ?_) ih
    have touches (t : Token) (ts : List Token) :
        (move (.into file) t).Touches (ts.map (move (.into file))) ↔ t.Touches ts := by
      cases ts <;> exact Iff.rfl
    rw [touches, touches]
    exact ht hk

end NavCheck
