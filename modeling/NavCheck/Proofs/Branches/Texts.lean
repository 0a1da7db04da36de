import NavCheck.Proofs.Branches.Behind
import NavCheck.Proofs.Cuts
import NavCheck.Proofs.Layout.Lexemes
import NavCheck.Proofs.Outcomes

/-!
# Conditionals put together from texts

Blanks keep texts apart: what stands in front of a blank is cut into tokens as it is alone, if it is well formed and without
comments. So a name, a then-branch and an else-branch that are read alone are read as a conditional when they are put together, if
the then-branch stands between the marks. Any other may be read differently: the search behind a `?` counts a guarded invocation
further on as one more conditional that waits for its `:`.
-/

namespace NavCheck

/-- Tokens stay alike when all of them are put further back. -/
theorem Alike.behind (offset : Nat) (ts : List Token) : Alike ts (ts.map (move (.behind offset))) := by
  induction ts with
  | nil => exact .nil
  | cons t ts ih =>
    refine .cons ⟨rfl, rfl⟩ (fun _ => ?_) ih
    cases ts with
    | nil => exact Iff.rfl
    | cons u ts => exact (Nat.add_right_inj (n := offset)).symm

namespace Lexer

/-! ## Blanks between texts -/

/-- The pieces of a text that are not blank. -/
def solid (pieces : List (Token × Option LexFault)) : List (Token × Option LexFault) :=
  pieces.filter fun piece => piece.1.kind != .blank

section

variable {file : Option Nat} {offset : Nat} {c : Char} {cs : List Char}

theorem scan_of_isBlank (hb : Text.isBlank c = true) (cs : List Char) :
    scan c cs = { kind := .blank, extra := (cs.takeWhile Text.isBlank).length } := by
  rw [scan, if_pos hb]

theorem tokensFrom_cons (file : Option Nat) (offset : Nat) (c : Char) (cs : List Char) :
    tokensFrom file offset (c :: cs) =
      (⟨(scan c cs).kind, String.ofList (c :: cs.take (scan c cs).extra),
        ⟨file, offset, offset + Text.byteLength (c :: cs.take (scan c cs).extra)⟩⟩, (scan c cs).fault) ::
        tokensFrom file (offset + Text.byteLength (c :: cs.take (scan c cs).extra)) (cs.drop (scan c cs).extra) := by
  rw [tokensFrom]

theorem solid_cons (piece : Token × Option LexFault) (pieces : List (Token × Option LexFault)) :
    solid (piece :: pieces) = solid [piece] ++ solid pieces :=
  List.filter_append [piece] pieces

/-- The first piece of a text that does not begin with a blank is solid. -/
theorem kind_ne_blank (hb : Text.isBlank c = false) (cs : List Char) : (scan c cs).kind ≠ .blank := by
  rcases scan_cases c cs with ⟨hb', -⟩ | ⟨-, -, he⟩ | ⟨-, -, -, he⟩ | ⟨-, he⟩ | ⟨-, hs⟩
  · rw [hb] at hb'
    cases hb'
  · rw [he, scanName]
    split <;> simp
  · rw [he, scanNumber]
    split <;> simp
  · rw [he, scanString]
    simp
  · intro hk
    rw [hk] at hs
    cases hs

/-- A run of blanks in front of a text is one piece, which is not solid. -/
theorem solid_run (hb : Text.isBlank c = true) (offset : Nat) (cs : List Char) :
    solid (tokensFrom file offset (c :: cs)) =
      solid (tokensFrom file (offset + Text.byteLength (c :: cs.takeWhile Text.isBlank)) (cs.dropWhile Text.isBlank)) := by
  have htake : cs.take (cs.takeWhile Text.isBlank).length = cs.takeWhile Text.isBlank :=
    (List.prefix_iff_eq_take.1 (List.takeWhile_prefix _)).symm
  have hdrop : cs.drop (cs.takeWhile Text.isBlank).length = cs.dropWhile Text.isBlank := by
    have h := List.take_append_drop (cs.takeWhile Text.isBlank).length cs
    rw [htake] at h
    exact List.append_cancel_left (h.trans List.takeWhile_append_dropWhile.symm)
  rw [tokensFrom.eq_def file offset (c :: cs)]
  simp only [scan_of_isBlank hb, htake, hdrop]
  rfl

/-- A blank in front of a text only moves its solid pieces. -/
theorem solid_blank (hb : Text.isBlank c = true) (offset : Nat) (cs : List Char) :
    solid (tokensFrom file offset (c :: cs)) = solid (tokensFrom file (offset + Text.byteLength [c]) cs) := by
  rw [solid_run hb]
  cases cs with
  | nil => rfl
  | cons d cs =>
    cases hd : Text.isBlank d with
    | false => rw [List.takeWhile_cons_of_neg (by simp [hd]), List.dropWhile_cons_of_neg (by simp [hd])]
    | true =>
      rw [List.takeWhile_cons_of_pos hd, List.dropWhile_cons_of_pos hd, solid_run hd, Nat.add_assoc,
        ← Text.byteLength_append]
      rfl

/-- Blanks in front of a text only move its solid pieces. -/
theorem solid_blanks (hb : ∀ c ∈ cs, Text.isBlank c = true) (offset : Nat) (more : List Char) :
    solid (tokensFrom file offset (cs ++ more)) = solid (tokensFrom file (offset + Text.byteLength cs) more) := by
  induction cs generalizing offset with
  | nil => rfl
  | cons c cs ih =>
    obtain ⟨hc, hcs⟩ := List.forall_mem_cons.1 hb
    rw [List.cons_append, solid_blank hc, ih hcs, Nat.add_assoc, ← Text.byteLength_append]
    rfl

/-! ## Pieces in front of a blank -/

theorem takeWhile_append_blank {p : Char → Bool} (hp : p ' ' = false) (cs more : List Char) :
    (cs ++ ' ' :: more).takeWhile p = cs.takeWhile p := by
  rw [List.takeWhile_append]
  split
  · rename_i h
    rw [List.takeWhile_cons_of_neg (by simp [hp]), List.append_nil]
    exact ((List.takeWhile_prefix p).eq_of_length h).symm
  · rfl

theorem stringBody_append (more : List Char) (h : (stringBody cs).2.2 = true) :
    stringBody (cs ++ more) = stringBody cs ∧ (stringBody cs).2.1 ≤ cs.length := by
  fun_induction stringBody cs with
  | case1 => cases h
  | case2 cs => exact ⟨rfl, by simp⟩
  | case3 => cases h
  | case4 => cases h
  | case5 c cs value k closed he ih =>
    rw [he] at ih
    obtain ⟨ha, hl⟩ := ih h
    refine ⟨?_, by simpa using hl⟩
    show stringBody ('\\' :: c :: (cs ++ more)) = _
    rw [stringBody, ha]
  | case6 c cs hq hl hs he value k closed hk ih =>
    rw [hk] at ih
    obtain ⟨ha, hle⟩ := ih h
    have hc : c ≠ '\\' := by
      rintro rfl
      cases cs with
      | nil => exact hs rfl rfl
      | cons d cs => exact he d cs rfl rfl
    refine ⟨?_, by simpa using hle⟩
    show stringBody (c :: (cs ++ more)) = _
    rw [stringBody, ha]
    · exact hq
    · exact hl
    · exact fun h _ => hc h
    · exact fun _ _ h _ => hc h

theorem scanString_append (more : List Char) (h : (scanString cs).fault = none) :
    scanString (cs ++ more) = scanString cs ∧ (scanString cs).extra ≤ cs.length := by
  have hclosed : (stringBody cs).2.2 = true := by
    by_contra hc
    simp [scanString, hc] at h
  obtain ⟨he, hl⟩ := stringBody_append more hclosed
  exact ⟨by rw [scanString, he, scanString], hl⟩

/-- A symbol that begins no comment lies in the text. -/
theorem extra_scanSymbol? {s : Scan} (hc : c ≠ '/') (hs : scanSymbol? c cs = some s) : s.extra ≤ cs.length := by
  unfold scanSymbol? at hs
  split at hs
  case h_19 => exact absurd rfl hc
  case h_20 =>
    rw [Option.map_eq_some_iff] at hs
    obtain ⟨mark, -, rfl⟩ := hs
    exact Nat.zero_le _
  all_goals
    cases hs
    simp [operator]

theorem scanSymbol?_append {s : Scan} (hs : scanSymbol? c cs = some s) (hk : s.kind ≠ .comment) (more : List Char) :
    scanSymbol? c (cs ++ ' ' :: more) = some s ∧ s.extra ≤ cs.length := by
  by_cases hc : c = '/'
  · subst hc
    obtain rfl : scanSlash cs = s := Option.some.inj hs
    fun_cases scanSlash cs with
    | case1 | case2 => exact absurd rfl hk
    | case3 =>
      rename_i hl hs
      refine ⟨?_, Nat.zero_le _⟩
      show some (scanSlash (cs ++ ' ' :: more)) = _
      cases cs with
      | nil => rfl
      | cons d ds =>
        rw [List.cons_append, scanSlash]
        · exact fun cs h => hl ds (by rw [(List.cons.inj h).1])
        · exact fun cs h => hs ds (by rw [(List.cons.inj h).1])
  · refine ⟨?_, extra_scanSymbol? hc hs⟩
    cases cs with
    | nil =>
      rw [scanSymbol?.eq_def] at hs ⊢
      grind
    | cons d ds => rwa [List.cons_append, scanSymbol?_cons hc d _ ds]

/-- A well-formed piece in front of a blank is what it is without it, unless it is a comment, or a blank itself that goes on up to
there. -/
theorem scan_append (hf : (scan c cs).fault = none) (hk : (scan c cs).kind ≠ .comment) (more : List Char) :
    (∀ d ∈ c :: cs, Text.isBlank d = true) ∨
      (scan c (cs ++ ' ' :: more) = scan c cs ∧ (scan c cs).extra ≤ cs.length) := by
  fun_cases scan c cs with
  | case1 hb =>
    rw [scan, if_pos hb, List.takeWhile_append]
    split
    · rename_i hl
      refine .inl (List.forall_mem_cons.2 ⟨hb, List.takeWhile_eq_self_iff.1 ?_⟩)
      exact (List.takeWhile_prefix _).eq_of_length hl
    · exact .inr ⟨rfl, (List.takeWhile_prefix _).length_le⟩
  | case2 hb ha =>
    refine .inr ⟨?_, by rw [extra_scanName]; exact (List.takeWhile_prefix _).length_le⟩
    rw [scan, if_neg hb, if_pos ha, scanName, takeWhile_append_blank rfl, scanName]
  | case3 hb ha hd =>
    refine .inr ⟨?_, by rw [extra_scanNumber]; exact (List.takeWhile_prefix _).length_le⟩
    rw [scan, if_neg hb, if_neg ha, if_pos hd, scanNumber, takeWhile_append_blank rfl, scanNumber]
  | case4 hb ha hd hq =>
    rw [scan, if_neg hb, if_neg ha, if_neg hd, if_pos hq] at hf
    rw [scan, if_neg hb, if_neg ha, if_neg hd, if_pos hq]
    exact .inr (scanString_append _ hf)
  | case5 hb ha hd hq =>
    rw [scan, if_neg hb, if_neg ha, if_neg hd, if_neg hq] at hf hk
    rw [scan, if_neg hb, if_neg ha, if_neg hd, if_neg hq]
    cases h : scanSymbol? c cs with
    | none => rw [scanSymbol?_none h]; exact .inr ⟨rfl, Nat.zero_le _⟩
    | some s =>
      rw [h] at hk
      obtain ⟨he, hl⟩ := scanSymbol?_append h hk more
      rw [he]
      exact .inr ⟨rfl, hl⟩

/-- A text of whole pieces without comments. -/
def Whole (file : Option Nat) (offset : Nat) (cs : List Char) : Prop :=
  ∀ piece ∈ tokensFrom file offset cs, piece.2 = none ∧ piece.1.kind ≠ .comment

/-- What stands in front of a blank is cut into the solid pieces that it is cut into alone. -/
theorem solid_append (hw : Whole file offset cs) (more : List Char) :
    solid (tokensFrom file offset (cs ++ ' ' :: more)) =
      solid (tokensFrom file offset cs) ++ solid (tokensFrom file (offset + Text.byteLength cs) (' ' :: more)) := by
  unfold Whole at hw
  fun_induction tokensFrom file offset cs with
  | case1 => rfl
  | case2 offset c cs s taken stop token ih =>
    obtain ⟨⟨hf, hk⟩, hw⟩ := List.forall_mem_cons.1 hw
    rcases scan_append hf hk more with hb | ⟨hs, hl⟩
    · have hnil : solid (tokensFrom file offset (c :: cs ++ [])) = _ := solid_blanks hb offset []
      rw [List.append_nil, tokensFrom.eq_def _ _ []] at hnil
      rw [solid_blanks hb offset, ← tokensFrom_cons, hnil]
      rfl
    · have hstop : stop + Text.byteLength (cs.drop s.extra) = offset + Text.byteLength (c :: cs) := by
        rw [Nat.add_assoc, ← Text.byteLength_append, List.cons_append, List.take_append_drop]
      rw [List.cons_append, tokensFrom_cons, hs, List.take_append_of_le_length hl, List.drop_append_of_le_length hl]
      rw [← hstop]
      show solid ((token, s.fault) :: _) = _
      rw [solid_cons, ih hw, ← List.append_assoc, ← solid_cons]

/-- The kinds and faults of the pieces of a text do not depend on where the text begins. -/
theorem exists_piece_at_zero {piece : Token × Option LexFault} (hp : piece ∈ tokensFrom file offset cs) :
    ∃ p ∈ tokensFrom file 0 cs, piece.1.kind = p.1.kind ∧ piece.2 = p.2 := by
  rw [← Nat.add_zero offset, tokensFrom_behind] at hp
  obtain ⟨p, hm, rfl⟩ := List.mem_map.1 hp
  exact ⟨p, hm, rfl, rfl⟩

/-- A text is whole wherever it begins. -/
theorem Whole.shift (hw : Whole file 0 cs) (offset : Nat) : Whole file offset cs := by
  intro piece hp
  obtain ⟨p, hm, hk, hf⟩ := exists_piece_at_zero hp
  rw [hk, hf]
  exact hw p hm

/-- A piece that is not solid is well formed. -/
theorem fault_of_blank (file : Option Nat) (offset : Nat) (cs : List Char) :
    ∀ piece ∈ tokensFrom file offset cs, piece.1.kind = .blank → piece.2 = none := by
  fun_induction tokensFrom file offset cs with
  | case1 => exact List.forall_mem_nil _
  | case2 offset c cs s taken stop token ih =>
    refine List.forall_mem_cons.2 ⟨fun hk => ?_, ih⟩
    cases hb : Text.isBlank c with
    | true => exact congrArg Scan.fault (scan_of_isBlank hb cs)
    | false => exact absurd hk (kind_ne_blank hb cs)

/-- A text is well formed if its solid pieces are. -/
theorem forall_of_solid (h : ∀ piece ∈ solid (tokensFrom file offset cs), piece.2 = none) :
    ∀ piece ∈ tokensFrom file offset cs, piece.2 = none := by
  intro piece hp
  by_cases hk : piece.1.kind = .blank
  · exact fault_of_blank file offset cs piece hp hk
  · exact h piece (List.mem_filter.2 ⟨hp, by simpa using hk⟩)

/-- The parsers read solid pieces only. -/
theorem significantOf_solid (pieces : List (Token × Option LexFault)) :
    significantOf (solid pieces) = significantOf pieces := by
  unfold significantOf solid
  rw [List.filter_map, List.filter_map, List.filter_filter]
  congr 1
  refine List.filter_congr fun piece _ => ?_
  cases hk : piece.1.kind <;> simp [TokenKind.isTrivia, hk]

/-! ## The pieces of a conditional -/

/-- A mark in front of a text is one piece of it. -/
theorem solid_mark {mark : Punct} (hs : scan c cs = single mark) (file : Option Nat) (offset : Nat) :
    ∃ t stop, t.kind = .punct mark ∧
      solid (tokensFrom file offset (c :: cs)) = (t, none) :: solid (tokensFrom file stop cs) := by
  rw [tokensFrom_cons, hs]
  exact ⟨_, _, rfl, rfl⟩

/-- The solid pieces of a conditional are those of its branches, with a name and two marks in front of and between them. -/
theorem solid_conditional {name t e : String} (hn : IsName name) (ht : Whole none 0 t.toList) :
    ∃ n q k : Token, ∃ i j, n.kind = .name ∧ n.lexeme = name ∧ q.kind = .punct .question ∧ k.kind = .punct .colon ∧
      solid (tokensFrom none 0 (name ++ " ? " ++ t ++ " : " ++ e).toList) =
        (n, none) :: (q, none) :: (solid (tokensFrom none i t.toList) ++ (k, none) :: solid (tokensFrom none j e.toList)) := by
  have hblank : Text.isBlank ' ' = true := rfl
  have htext : (name ++ " ? " ++ t ++ " : " ++ e).toList =
      name.toList ++ (' ' :: '?' :: ' ' :: (t.toList ++ ' ' :: ':' :: ' ' :: e.toList)) := by
    simp
  obtain ⟨c, more, hname, -, hs⟩ := hn.scan (stops_blank ('?' :: ' ' :: (t.toList ++ ' ' :: ':' :: ' ' :: e.toList)))
  obtain ⟨stop, hfirst⟩ := tokensFrom_append none 0 c more _ hs
  have hscan : scan '?' (' ' :: (t.toList ++ ' ' :: ':' :: ' ' :: e.toList)) = single .question := rfl
  have hscan' : scan ':' (' ' :: e.toList) = single .colon := rfl
  obtain ⟨q, stop₁, hq, hquestion⟩ := solid_mark hscan none (stop + Text.byteLength [' '])
  obtain ⟨k, stop₂, hk, hcolon⟩ := solid_mark hscan' none
    (stop₁ + Text.byteLength [' '] + Text.byteLength t.toList + Text.byteLength [' '])
  refine ⟨⟨.name, String.ofList (c :: more), ⟨none, 0, stop⟩⟩, q, k, stop₁ + Text.byteLength [' '],
    stop₂ + Text.byteLength [' '], rfl, ?_, hq, hk, ?_⟩
  · rw [← hname, String.ofList_toList]
  · rw [htext, hname, List.cons_append, hfirst, solid_cons, solid_blank hblank, hquestion, solid_blank hblank,
      solid_append (ht.shift _), solid_blank hblank, hcolon, solid_blank hblank]
    rfl

end

theorem significantOf_behind (offset : Nat) (pieces : List (Token × Option LexFault)) :
    significantOf (pieces.map fun piece => (move (.behind offset) piece.1, piece.2)) =
      (significantOf pieces).map (move (.behind offset)) := by
  unfold significantOf
  rw [List.map_map, List.filter_map, List.filter_map, List.map_map]
  rfl

/-- The tokens of a text wherever it begins are those at the beginning, up to layout. -/
theorem alike_significantOf (offset : Nat) (cs : List Char) :
    Alike (significantOf (tokensFrom none 0 cs)) (significantOf (tokensFrom none offset cs)) := by
  rw [← Nat.add_zero offset, tokensFrom_behind, significantOf_behind]
  exact .behind offset _

end Lexer

/-! ## Reading what was put together -/

/-- The tokens of a text are in order and genuine wherever it begins. -/
theorem Cursor.fromSource_significantOf (passed : List Token) (file : Option Nat) (offset : Nat) (cs : List Char) :
    (Cursor.mk passed (significantOf (Lexer.tokensFrom file offset cs))).FromSource where
  order := ((Lexer.inOrder_tokensFrom file offset cs).1.sublist List.filter_sublist).inSourceOrder
  genuine := by
    intro t ht
    obtain ⟨piece, hp, rfl⟩ := List.mem_map.1 (List.mem_filter.1 ht).1
    exact Lexer.genuine_tokensFrom file offset cs piece hp

namespace Expr

/-- A text that is parsed is well formed, and all its tokens are read. -/
theorem reads_of_parse {source : String} {e : Expr} (h : Expr.parse source = .ok e) :
    (∀ piece ∈ Lexer.tokensFrom none 0 source.toList, piece.2 = none) ∧
      ∃ d, Reads (.assign 0 e) (Cursor.start (lex source none).significant) d ∧ d.ahead = [] := by
  unfold Expr.parse at h
  dsimp only at h
  split at h
  · cases h
  rename_i hf
  obtain ⟨r, hr, h⟩ := of_bind_eq_ok h
  split at h
  · cases h
  rename_i hp
  cases h
  refine ⟨fun piece hm => ?_, r.next, reads_of_readAssign 0 _ r hr, List.head?_eq_none_iff.1 hp⟩
  cases hfind : (Lexer.tokensFrom none 0 source.toList).find? (·.2.isSome) with
  | none => simpa using List.find?_eq_none.1 hfind piece hm
  | some found =>
    obtain ⟨token, _ | fault⟩ := found
    · exact absurd (List.find?_some hfind) (by simp)
    · exact absurd hfind (hf token fault)

/-- What is parsed is read from its tokens wherever the text begins, up to places. -/
theorem reads_of_parse_at {source : String} {e : Expr} (h : Expr.parse source = .ok e) (passed : List Token) (offset : Nat) :
    ∃ e' d, Reads (.assign 0 e') ⟨passed, significantOf (Lexer.tokensFrom none offset source.toList)⟩ d ∧
      e'.erased = e.erased ∧ d.ahead = [] := by
  obtain ⟨-, d, hr, hd⟩ := reads_of_parse h
  obtain ⟨e', d', hr', he, ha⟩ := hr.alike ⟨passed, _⟩ (Lexer.alike_significantOf offset source.toList)
  rw [hd] at ha
  refine ⟨e', d', hr', he, ?_⟩
  cases hd' : d'.ahead with
  | nil => rfl
  | cons t ts =>
    rw [hd'] at ha
    cases ha

/-- Conditionals compose: a text of a then-branch without comments that is parsed and may stand between the marks of a conditional,
and a text of an else-branch that is parsed, are parsed as a conditional with a name in front. -/
theorem parse_conditional {name t e : String} {x y : Expr} (hn : IsName name) (ht : Expr.parse t = .ok x)
    (he : Expr.parse e = .ok y) (hc : ∀ u ∈ (lex t none).tokens, u.kind ≠ .comment) (hb : x.standsBetween = true) :
    ∃ z, Expr.parse (name ++ " ? " ++ t ++ " : " ++ e) = .ok z ∧
      z.erased = (conditional (.name name default) x y default).erased := by
  have hwhole : Lexer.Whole none 0 t.toList := fun piece hp =>
    ⟨(reads_of_parse ht).1 piece hp, hc _ (List.mem_map_of_mem hp)⟩
  obtain ⟨n, q, k, i, j, hname, hlexeme, hq, hk, hsolid⟩ := Lexer.solid_conditional (e := e) hn hwhole
  obtain ⟨x', d, hx, hex, hd⟩ := reads_of_parse_at ht [q, n] i
  obtain ⟨y', d', hy, hey, hd'⟩ := reads_of_parse_at he (k :: d.passed) j
  obtain ⟨span, hread⟩ := Reads.branches hname hq hk hx hd hy hd' (Cursor.fromSource_significantOf _ _ _ _)
    (Cursor.fromSource_significantOf _ _ _ _) (by rwa [standsBetween_congr hex])
  have hpieces : ∀ piece ∈ Lexer.tokensFrom none 0 (name ++ " ? " ++ t ++ " : " ++ e).toList, piece.2 = none := by
    refine Lexer.forall_of_solid fun piece hp => ?_
    rw [hsolid] at hp
    simp only [List.mem_cons, List.mem_append, Lexer.solid, List.mem_filter] at hp
    rcases hp with rfl | rfl | ⟨hp, -⟩ | rfl | ⟨hp, -⟩
    · rfl
    · rfl
    · exact (hwhole.shift i piece hp).1
    · rfl
    · obtain ⟨p, hm, -, hf⟩ := Lexer.exists_piece_at_zero hp
      rw [hf]
      exact (reads_of_parse he).1 p hm
  have htokens : (lex (name ++ " ? " ++ t ++ " : " ++ e) none).significant =
      n :: q :: (significantOf (Lexer.tokensFrom none i t.toList) ++ k :: significantOf (Lexer.tokensFrom none j e.toList)) := by
    show significantOf (Lexer.tokensFrom none 0 _) = _
    rw [← Lexer.significantOf_solid, hsolid, ← Lexer.significantOf_solid (Lexer.tokensFrom none i _),
      ← Lexer.significantOf_solid (Lexer.tokensFrom none j _)]
    simp [significantOf, TokenKind.isTrivia, hname, hq, hk]
  refine ⟨_, parse_eq_ok hpieces (by rw [htokens]; exact hread) hd', ?_⟩
  simp [erased, hlexeme, hex, hey]

example : (Expr.parse "(x ? (y) : f(1)) ?? z?.w").toOption.map standsBetween = some true := by
  decide +kernel

/-- The `?` of a guarded invocation counts as one more conditional: in front of it and of a `:` behind it, the `?` in front of a
parenthesis is taken for a guard, though the branches are parsed alone. -/
theorem branches_taken_for_invocation :
    ∃ x y z, Expr.parse "(a) + f?(1)" = .ok x ∧ Expr.parse "e" = .ok y ∧ Expr.parse "c ? (a) + f?(1) : e" = .ok z ∧
      z.text = "c?(a) + f ? (1) : e" ∧ z.erased ≠ (conditional (.name "c" default) x y default).erased := by
  have evaluated : ∃ x, Expr.parse "(a) + f?(1)" = .ok x ∧ ∃ y, Expr.parse "e" = .ok y ∧
      ∃ z, Expr.parse "c ? (a) + f?(1) : e" = .ok z ∧ z.text = "c?(a) + f ? (1) : e" ∧
        (conditional (.name "c" default) x y default).text = "c ? (a) + f?(1) : e" := by
    decide +kernel
  obtain ⟨x, hx, y, hy, z, hz, htext, hcomposed⟩ := evaluated
  refine ⟨x, y, z, hx, hy, hz, htext, fun h => ?_⟩
  have hr := congrArg (·.render.text) h
  simp only [render_erased] at hr
  rw [← Expr.text, ← Expr.text, htext, hcomposed] at hr
  revert hr
  decide

end Expr

end NavCheck
