import NavCheck.Proofs.Layout.Bodies
import NavCheck.Proofs.Layout.Declarations
import NavCheck.Proofs.Layout.Lexemes
import NavCheck.Proofs.Layout.Packing
import NavCheck.Text.Digest

/-!
# The report does not depend on the layout

Two texts whose tokens differ in layout only have the same packed tokens, and a unit is read from these of which the units of
both texts are relocations. So both are read or neither is, and what is found out about them is the same but for places.
-/

namespace NavCheck

/-! ## Malformed texts -/

theorem hasErrors_foldl {α : Type} {f : Sink → α → Sink} {p : α → Bool}
    (h : ∀ s a, hasErrors (f s a).found = (hasErrors s.found || p a)) (l : List α) (s : Sink) :
    hasErrors (l.foldl f s).found = (hasErrors s.found || l.any p) := by
  induction l generalizing s with
  | nil => exact (Bool.or_false _).symm
  | cons a l ih => rw [List.foldl_cons, ih, h, List.any_cons, Bool.or_assoc]

theorem hasErrors_extend (s : Sink) (ds : List Diagnostic) :
    hasErrors (s.extend ds).found = (hasErrors s.found || hasErrors ds) :=
  hasErrors_foldl hasErrors_push ds s

/-- The findings about a text tell whether a piece of it is malformed. -/
theorem hasErrors_lex [Text.Hash] (source : String) (file : Option Nat) :
    hasErrors (lex source file).diagnostics = (Lexer.tokensFrom file 0 source.toList).any (·.2.isSome) := by
  refine (hasErrors_foldl (fun s piece => ?_) _ _).trans (Bool.false_or _)
  obtain ⟨token, _ | fault⟩ := piece
  · exact (Bool.or_false _).symm
  · exact (hasErrors_pushError _ _ _).trans (Bool.or_true _).symm

/-- A text without an open comment is malformed when the lexeme of a token is. -/
theorem hasErrors_of_closed [Text.Hash] {source : String} (hc : leavesComment source = false) (file : Option Nat) :
    hasErrors (lex source file).diagnostics =
      (lex source none).significant.any fun t => (Lexer.faultOf t.lexeme).isSome := by
  have piece : ∀ piece ∈ Lexer.tokensFrom none 0 source.toList,
      piece.2.isSome = (!piece.1.kind.isTrivia && (Lexer.faultOf piece.1.lexeme).isSome) := by
    intro piece hp
    rw [← Lexer.fault_tokensFrom none 0 source.toList piece hp]
    cases ht : piece.1.kind.isTrivia with
    | false => rfl
    | true =>
      have hf : piece.2 ≠ some .unterminatedComment := by
        simpa using List.any_eq_false.1 hc piece hp
      rw [Lexer.fault_of_mem_tokensFrom piece hp ht hf]
      rfl
  rw [hasErrors_lex, Lexer.tokensFrom_file, List.any_map]
  show List.any _ _ = (((Lexer.tokensFrom none 0 source.toList).map (·.1)).filter _).any _
  rw [List.any_filter, List.any_map, Bool.eq_iff_iff, List.any_eq_true, List.any_eq_true]
  exact exists_congr fun p => and_congr_right fun hp => Bool.eq_iff_iff.1 (piece p hp)

theorem Alike.any_lexeme {ts us : List Token} (h : Alike ts us) (p : String → Bool) :
    (ts.any fun t => p t.lexeme) = us.any fun t => p t.lexeme := by
  induction h with
  | nil => rfl
  | cons hl _ _ ih => rw [List.any_cons, List.any_cons, hl.2, ih]

/-- Texts that differ in layout only are malformed together. -/
theorem hasErrors_of_alike [Text.Hash] {s s' : String} (hs : leavesComment s = false) (hs' : leavesComment s' = false)
    (h : Alike (lex s none).significant (lex s' none).significant) (file : Option Nat) :
    hasErrors (lex s file).diagnostics = hasErrors (lex s' file).diagnostics := by
  rw [hasErrors_of_closed hs, hasErrors_of_closed hs']
  exact h.any_lexeme fun lexeme => (Lexer.faultOf lexeme).isSome

/-! ## Reading -/

namespace SourceUnit

/-- A text gives a relocation of the unit that its packed tokens give, or it is rejected when these are. -/
theorem parse_packed [Text.Hash] (source : String) (file : Option Nat) {r : Reader}
    (hc : r.cursor = .start (packed file 0 (lex source file).significant))
    (he : hasErrors r.sink.found = hasErrors (lex source file).diagnostics) :
    (hasErrors (Reading.unit.run r).2.sink.found = true ∧ ∃ failure, parse source file = .error failure) ∨
      (hasErrors (Reading.unit.run r).2.sink.found = false ∧
        parse source file = .ok (move (unpack file (lex source file).significant) (Reading.unit.run r).1)) := by
  have ho := inOrder_significant source file
  have hr : Reader.Moved (unpack file (lex source file).significant) (packed file 0 (lex source file).significant)
      (reader (lex source file)) r := by
    refine ⟨?_, ?_, ?_⟩
    · rw [hc]
      exact congrArg (Cursor.mk []) (map_unpack ho file_of_mem_significant).symm
    · rw [hc]
      exact .start _
    · rw [he]
      exact (hasErrors_extend _ _).trans (Bool.false_or _)
  obtain ⟨hv, hn⟩ := Reading.moves_unit (suits_unpack ho file_of_mem_significant) _ _ hr
  unfold parse
  dsimp only
  rw [hn.errors, hv]
  cases h : hasErrors (Reading.unit.run r).2.sink.found with
  | false => exact .inr ⟨rfl, rfl⟩
  | true => exact .inl ⟨rfl, _, rfl⟩

/-- Texts that differ in layout only are both rejected, or they give relocations of one unit by which the tokens of the texts
are relocations of the same tokens. -/
theorem parse_of_alike [Text.Hash] {s s' : String} (hs : leavesComment s = false) (hs' : leavesComment s' = false)
    (h : Alike (lex s none).significant (lex s' none).significant) (file : Option Nat) :
    ((∃ failure, parse s file = .error failure) ∧ ∃ failure, parse s' file = .error failure) ∨
      ∃ (u : SourceUnit) (tokens : List Token) (m m' : Relocation), m.Faithful ∧ m'.Faithful ∧
        (lex s file).significant = tokens.map (move m) ∧ (lex s' file).significant = tokens.map (move m') ∧
        parse s file = .ok (move m u) ∧ parse s' file = .ok (move m' u) := by
  have hp : packed file 0 (lex s file).significant = packed file 0 (lex s' file).significant := by
    rw [significant_file s, significant_file s']
    exact (h.into file).packed_eq file 0
  let r : Reader := ⟨.start (packed file 0 (lex s file).significant), (reader (lex s file)).sink, []⟩
  have hr : hasErrors r.sink.found = hasErrors (lex s file).diagnostics :=
    (hasErrors_extend _ _).trans (Bool.false_or _)
  have hr' : hasErrors r.sink.found = hasErrors (lex s' file).diagnostics := hr.trans (hasErrors_of_alike hs hs' h file)
  rcases parse_packed s file (r := r) rfl hr with ⟨he, hf⟩ | ⟨he, hu⟩ <;>
    rcases parse_packed s' file (r := r) (congrArg Cursor.start hp) hr' with ⟨he', hf'⟩ | ⟨he', hu'⟩
  · exact .inl ⟨hf, hf'⟩
  · cases he.symm.trans he'
  · cases he.symm.trans he'
  · refine .inr ⟨_, packed file 0 (lex s file).significant, _, _, faithful_unpack _ _, faithful_unpack _ _, ?_, ?_, hu, hu'⟩
    · exact (map_unpack (inOrder_significant s file) file_of_mem_significant).symm
    · rw [hp]
      exact (map_unpack (inOrder_significant s' file) file_of_mem_significant).symm

end SourceUnit

/-! ## Checking -/

/-- The place of a token counted in tokens. -/
def ordinal? (tokens : List Token) (span : Span) : Option Nat :=
  tokens.findIdx? (·.span == span)

/-- A parameter with the tokens of its legal and its illegal references, each counted in tokens. -/
def ParamUse.ordinals (tokens : List Token) (u : ParamUse) : String × List (Option Nat) × List (Option Nat) :=
  (u.name, u.legal.map (ordinal? tokens), u.illegal.map (ordinal? tokens))

/-- Reports about texts of the given tokens that say the same but for places: what became of the declarations and their
parameters, the findings in order, and what is known about the code. The references to a parameter stand at the same tokens,
in the same order. -/
structure CheckReport.Agrees (tokens' tokens : List Token) (r' r : CheckReport) : Prop where
  resolved : erased r'.resolved = erased r.resolved
  findings : erased r'.diagnostics = erased r.diagnostics
  typing : erased r'.typing = erased r.typing
  uses : r'.resolved.types.map (·.uses.map (·.ordinals tokens')) = r.resolved.types.map (·.uses.map (·.ordinals tokens))

namespace CheckReport.Agrees

variable {ts us vs : List Token} {r s t : CheckReport}

theorem symm (h : Agrees ts us r s) : Agrees us ts s r :=
  ⟨h.resolved.symm, h.findings.symm, h.typing.symm, h.uses.symm⟩

theorem trans (h : Agrees ts us r s) (h' : Agrees us vs s t) : Agrees ts vs r t :=
  ⟨h.resolved.trans h'.resolved, h.findings.trans h'.findings, h.typing.trans h'.typing, h.uses.trans h'.uses⟩

end CheckReport.Agrees

section

variable {m : Relocation}

theorem ordinal?_move (hm : m.Faithful) (tokens : List Token) (span : Span) :
    ordinal? (tokens.map (move m)) (m.span span) = ordinal? tokens span := by
  rw [ordinal?, ordinal?, List.findIdx?_map]
  congr 1
  funext t
  rw [Function.comp_apply, Bool.eq_iff_iff, beq_iff_eq, beq_iff_eq]
  exact hm.span_injective.eq_iff

theorem ParamUse.ordinals_move (hm : m.Faithful) (tokens : List Token) (u : ParamUse) :
    (move m u).ordinals (tokens.map (move m)) = u.ordinals tokens := by
  simp [ParamUse.ordinals, ordinal?_move hm]

namespace SourceUnit

/-- The report about a unit that was read from a text. -/
def report (u : SourceUnit) (path : String) (files : SourceFiles) : CheckReport where
  path
  files
  resolved := u.resolve
  tableFindings := (TypeTable.build u.resolve.unit).notes
  typing := u.resolve.unit.check (TypeTable.build u.resolve.unit).value

theorem checkSource_of_parse [Text.Hash] {path source : String} {u : SourceUnit} (h : parse source (some 0) = .ok u) :
    checkSource path source = .ok (u.report path ⟨[⟨path, source⟩]⟩) := by
  unfold checkSource
  have hf : SourceFiles.empty.add path source = (⟨[⟨path, source⟩]⟩, 0) := rfl
  rw [hf]
  dsimp only
  rw [h]
  rfl

theorem erased_resolvedDiagnostics (r : ResolvedUnit) : erased r.diagnostics = (erased r).diagnostics := by
  show List.map _ (r.types.flatMap _) = (r.types.map _).flatMap _
  rw [List.map_flatMap, List.flatMap_map]
  rfl

/-- What is found out about a relocated unit is what is found out about the unit, but for places. -/
theorem agrees_report (hm : m.Faithful) (u : SourceUnit) (tokens : List Token) (path' path : String)
    (files' files : SourceFiles) :
    ((move m u).report path' files').Agrees (tokens.map (move m)) tokens (u.report path files) := by
  have hr := u.erased_resolve_move hm
  have hb := TypeTable.moves_build m u.resolve.unit
  have hc := moved_check hm u.resolve.unit (TypeTable.build u.resolve.unit).value
  rw [← resolve_unit_move hm u] at hb hc
  rw [← hb.1] at hc
  refine ⟨hr, ?_, hc.erased_eq, ?_⟩
  · show erased (_ ++ _ ++ _) = erased (_ ++ _ ++ _)
    rw [erased_append, erased_append, erased_append, erased_append]
    refine congr (congrArg _ (congr (congrArg _ ?_) ?_)) hc.findings
    · rw [erased_resolvedDiagnostics, erased_resolvedDiagnostics]
      exact congrArg _ hr
    · exact Diagnostic.erased_of_matches hb.2
  · have moved (uses : List ParamUse) :
        (move m uses).map (·.ordinals (tokens.map (move m))) = uses.map (·.ordinals tokens) := by
      rw [List.placed_move, List.map_map]
      exact List.map_congr_left fun use _ => use.ordinals_move hm tokens
    calc (move m u).resolve.types.map (·.uses.map (·.ordinals (tokens.map (move m))))
      _ = ((move m u).resolve.types.map (·.uses)).map (List.map (·.ordinals (tokens.map (move m)))) := by
        rw [List.map_map]
        rfl
      _ = (u.resolve.types.map (·.uses)).map (List.map (·.ordinals tokens)) := by
        rw [resolve_uses_move hm, List.map_map]
        exact List.map_congr_left fun uses _ => moved uses
      _ = u.resolve.types.map (·.uses.map (·.ordinals tokens)) := by
        rw [List.map_map]
        rfl

end SourceUnit

end

/-- Layout does not matter. Texts without an open comment whose tokens differ in layout only are both read or both rejected,
and the reports about them say the same but for places. -/
theorem checkSource_of_alike [Text.Hash] {s s' : String} (hs : leavesComment s = false) (hs' : leavesComment s' = false)
    (h : Alike (lex s none).significant (lex s' none).significant) :
    (∀ file, (SourceUnit.parse s file).isOk = (SourceUnit.parse s' file).isOk) ∧
      ∀ path path', (SourceUnit.parse s (some 0)).isOk = true → ∃ r r', checkSource path s = .ok r ∧
        checkSource path' s' = .ok r' ∧ r'.Agrees (lex s' (some 0)).significant (lex s (some 0)).significant r := by
  constructor
  · intro file
    rcases SourceUnit.parse_of_alike hs hs' h file with ⟨⟨_, hf⟩, _, hf'⟩ | ⟨_, _, _, _, -, -, -, -, hu, hu'⟩
    · rw [hf, hf']
      rfl
    · rw [hu, hu']
      rfl
  · intro path path' ha
    rcases SourceUnit.parse_of_alike hs hs' h (some 0) with ⟨⟨_, hf⟩, -⟩ | ⟨u, tokens, m, m', hm, hm', ht, ht', hu, hu'⟩
    · rw [hf] at ha
      cases ha
    · refine ⟨_, _, SourceUnit.checkSource_of_parse hu, SourceUnit.checkSource_of_parse hu', ?_⟩
      rw [ht, ht']
      exact (SourceUnit.agrees_report hm' u tokens path' "" _ .empty).trans
        (SourceUnit.agrees_report hm u tokens path "" _ .empty).symm

/-- A class on one line and on several. -/
theorem checkSource_of_alike_lines :
    leavesComment "class A(B b)\x7bint F()=>b?.$k;\x7d" = false ∧
      leavesComment "class A ( B b )\n\x7b\n  int F() => b?.$k; // late\n\x7d" = false ∧
      Alike (lex "class A(B b)\x7bint F()=>b?.$k;\x7d" none).significant
        (lex "class A ( B b )\n\x7b\n  int F() => b?.$k; // late\n\x7d" none).significant ∧
      (SourceUnit.parse "class A(B b)\x7bint F()=>b?.$k;\x7d" (some 0)).isOk = true ∧
      ∃ r r', checkSource "a" "class A(B b)\x7bint F()=>b?.$k;\x7d" = .ok r ∧
        checkSource "b" "class A ( B b )\n\x7b\n  int F() => b?.$k; // late\n\x7d" = .ok r' ∧
        r'.Agrees (lex "class A ( B b )\n\x7b\n  int F() => b?.$k; // late\n\x7d" (some 0)).significant
          (lex "class A(B b)\x7bint F()=>b?.$k;\x7d" (some 0)).significant r := by
  have hs : leavesComment "class A(B b)\x7bint F()=>b?.$k;\x7d" = false := by decide +kernel
  have hs' : leavesComment "class A ( B b )\n\x7b\n  int F() => b?.$k; // late\n\x7d" = false := by decide +kernel
  have h : Alike (lex "class A(B b)\x7bint F()=>b?.$k;\x7d" none).significant
      (lex "class A ( B b )\n\x7b\n  int F() => b?.$k; // late\n\x7d" none).significant := by decide +kernel
  have ha : (SourceUnit.parse "class A(B b)\x7bint F()=>b?.$k;\x7d" (some 0)).isOk = true := by decide +kernel
  exact ⟨hs, hs', h, ha, (checkSource_of_alike hs hs' h).2 "a" "b" ha⟩

/-- The parameter is named too late in the token of index twelve. -/
example : ((checkSource "b" "class A ( B b )\n\x7b\n  int F() => b?.$k; // late\n\x7d").toOption.bind (·.paramUses? "A")).map
    (·.map fun u => (u.ordinals
      (lex "class A ( B b )\n\x7b\n  int F() => b?.$k; // late\n\x7d" (some 0)).significant).2.2) = some [[some 12]] := by
  decide +kernel

end NavCheck
