import NavCheck.Proofs.Recovery
import NavCheck.Proofs.Spellable

/-!
# Written types read back

The text of a type is cut into tokens, and a type is read from these. The lexer joins two `?` that touch, and in front of a `[`
the reader leaves a `?` to an access. So of all types with proper names, exactly those are read back in which every `?` is the
last suffix of its type.
-/

namespace NavCheck

/-! ## Suffixes -/

/-- Whether a `?` can only be the last of some suffixes. -/
def QuestionLast (suffixes : List TypeSuffix) : Prop :=
  .nullable ∉ suffixes.dropLast

/-- A `?` that is not the last suffix stands in front of a `[]` or of another `?`. -/
theorem questionLast_iff (suffixes : List TypeSuffix) :
    QuestionLast suffixes ↔ ArraysFirst suffixes ∧ TypeSuffix.doubled suffixes = false := by
  induction suffixes with
  | nil => exact iff_of_true List.not_mem_nil ⟨trivial, rfl⟩
  | cons s suffixes ih =>
    cases s with
    | array =>
      have hdrop : QuestionLast (.array :: suffixes) ↔ QuestionLast suffixes := by
        cases suffixes <;> simp [QuestionLast]
      rw [hdrop, ih]
      rfl
    | nullable =>
      rcases suffixes with _ | ⟨next, suffixes⟩
      · exact iff_of_true List.not_mem_nil ⟨List.forall_mem_nil _, rfl⟩
      · refine iff_of_false (fun hq => hq List.mem_cons_self) ?_
        rintro ⟨ha, hd⟩
        rw [ha next List.mem_cons_self] at hd
        cases hd

theorem coalesce_mem_suffixTokens {suffixes : List TypeSuffix} (hd : TypeSuffix.doubled suffixes = true) :
    .ofSign .coalesce ∈ suffixTokens suffixes := by
  fun_induction suffixTokens suffixes with
  | case1 => exact List.mem_cons_self
  | case2 suffixes hn ih =>
    refine List.mem_cons_of_mem _ (ih ?_)
    rcases suffixes with _ | ⟨_ | _, suffixes⟩
    · cases hd
    · exact absurd rfl (hn _)
    · exact hd
  | case3 suffixes ih => exact List.mem_cons_of_mem _ (List.mem_cons_of_mem _ (ih hd))
  | case4 => cases hd

theorem ne_dollar_of_mem_suffixTokens (suffixes : List TypeSuffix) : ∀ t ∈ suffixTokens suffixes, t.kind ≠ .punct .dollar := by
  fun_induction suffixTokens suffixes <;> simp_all [Token.ofMark, Token.ofSign]

/-! ## Tokens of a type -/

theorem mem_inAngles {α : Type} {args : List α} {tokens : List Token} {t : Token} (h : t ∈ inAngles args tokens) :
    t = .ofSign .less ∨ t ∈ tokens ∨ t = .ofSign .greater := by
  cases args with
  | nil => cases h
  | cons => simpa [inAngles] using h

theorem mem_behindComma {α : Type} {more : List α} {tokens : List Token} {t : Token} (h : t ∈ behindComma more tokens) :
    t = .ofMark .comma ∨ t ∈ tokens := by
  cases more with
  | nil => cases h
  | cons => simpa [behindComma] using h

mutual

/-- No dollar sign stands in a type. -/
theorem TypeExpr.ne_dollar_of_mem_tokens : ∀ t : TypeExpr, ∀ u ∈ t.tokens, u.kind ≠ .punct .dollar
  | ⟨name, args, suffixes, _⟩, u, hu => by
    rw [TypeExpr.tokens] at hu
    rcases List.mem_cons.1 hu with rfl | hu
    · simp [Token.ofName]
    rcases List.mem_append.1 hu with hu | hu
    · rcases mem_inAngles hu with rfl | hu | rfl
      · simp [Token.ofSign]
      · exact ne_dollar_of_mem_typeTokens args u hu
      · simp [Token.ofSign]
    · exact ne_dollar_of_mem_suffixTokens suffixes u hu

theorem ne_dollar_of_mem_typeTokens : ∀ ts : List TypeExpr, ∀ u ∈ typeTokens ts, u.kind ≠ .punct .dollar
  | [], _, hu => by cases hu
  | t :: ts, u, hu => by
    rw [typeTokens] at hu
    rcases List.mem_append.1 hu with hu | hu
    · exact t.ne_dollar_of_mem_tokens u hu
    rcases mem_behindComma hu with rfl | hu
    · simp [Token.ofMark]
    · exact ne_dollar_of_mem_typeTokens ts u hu

end

mutual

/-- Two `?` next to each other in a type are one sign. -/
theorem TypeExpr.coalesce_mem_tokens : ∀ t : TypeExpr, t.doubled = true → .ofSign .coalesce ∈ t.tokens
  | ⟨name, args, suffixes, _⟩, hd => by
    rw [TypeExpr.doubled, Bool.or_eq_true] at hd
    rw [TypeExpr.tokens]
    refine List.mem_cons_of_mem _ (List.mem_append.2 ?_)
    rcases hd with hd | hd
    · refine .inl ?_
      have hargs := coalesce_mem_typeTokens args hd
      cases args with
      | nil => cases hargs
      | cons => exact List.mem_cons_of_mem _ (List.mem_append_left _ hargs)
    · exact .inr (coalesce_mem_suffixTokens hd)

theorem coalesce_mem_typeTokens : ∀ ts : List TypeExpr, typesDoubled ts = true → .ofSign .coalesce ∈ typeTokens ts
  | [], hd => by cases hd
  | t :: ts, hd => by
    rw [typesDoubled, Bool.or_eq_true] at hd
    rw [typeTokens]
    refine List.mem_append.2 ?_
    rcases hd with hd | hd
    · exact .inl (t.coalesce_mem_tokens hd)
    · refine .inr ?_
      have hrest := coalesce_mem_typeTokens ts hd
      cases ts with
      | nil => cases hrest
      | cons => exact List.mem_cons_of_mem _ hrest

end

/-! ## Tokens that are read as a type -/

namespace Grammar

/-- Whether no token of a kind stands in the sequences of a language. -/
def Without (kind : TokenKind) (L : Language Token) : Prop :=
  ∀ ts ∈ L, ∀ t ∈ ts, t.kind ≠ kind

section

variable {kind : TokenKind} {L M : Language Token}

theorem without_one : Without kind 1 := by
  intro ts hts
  rw [(Language.mem_one ts).1 hts]
  exact List.forall_mem_nil _

theorem Without.mul (h : Without kind L) (h' : Without kind M) : Without kind (L * M) := by
  intro ts hts
  obtain ⟨us, hu, vs, hv, rfl⟩ := Language.mem_mul.1 hts
  exact List.forall_mem_append.2 ⟨h us hu, h' vs hv⟩

theorem without_token {other : TokenKind} (h : other ≠ kind) : Without kind (token other) := by
  rintro ts ⟨t, hk, rfl⟩
  rw [List.forall_mem_singleton, hk]
  exact h

theorem without_row {α : Type} {f : α → Language Token} (h : ∀ a, Without kind (f a)) (list : List α) :
    Without kind (row f list) := by
  induction list with
  | nil => exact without_one
  | cons a list ih =>
    rw [row, List.map_cons, List.prod_cons]
    exact (h a).mul ih

end

mutual

/-- No sign that joins two `?` is read as part of a type. -/
theorem without_type : ∀ t : TypeExpr, Without (.sign .coalesce) (type t)
  | ⟨name, args, suffixes, _⟩ => by
    have hname : Without (.sign .coalesce) (anyName name) := by
      rintro ts ⟨span, rfl⟩
      rw [List.forall_mem_singleton]
      simp
    have hsuffix (s : TypeSuffix) : Without (.sign .coalesce) (suffix s) := by
      cases s with
      | nullable => exact without_token (by decide)
      | array => exact (without_token (by decide)).mul (without_token (by decide))
    rw [type]
    exact (hname.mul (without_typeArgs args)).mul (without_row hsuffix suffixes)

theorem without_typeArgs : ∀ ts : List TypeExpr, Without (.sign .coalesce) (typeArgs ts)
  | [] => by
    rw [typeArgs]
    exact without_one
  | t :: ts => by
    rw [typeArgs]
    exact (((without_token (by decide)).mul (without_type t)).mul (without_moreTypes ts)).mul (without_token (by decide))

theorem without_moreTypes : ∀ ts : List TypeExpr, Without (.sign .coalesce) (moreTypes ts)
  | [] => by
    rw [moreTypes]
    exact without_one
  | t :: ts => by
    rw [moreTypes]
    exact ((without_token (by decide)).mul (without_type t)).mul (without_moreTypes ts)

end

end Grammar

/-! ## Parts -/

mutual

theorem TypeExpr.doubled_eq_false_iff : ∀ t : TypeExpr,
    t.doubled = false ↔ ∀ part ∈ t.parts, TypeSuffix.doubled part.suffixes = false
  | ⟨name, args, suffixes, span⟩ => by
    rw [TypeExpr.doubled, Bool.or_eq_false_iff, TypeExpr.parts, List.forall_mem_cons, typesDoubled_eq_false_iff args, and_comm]

theorem typesDoubled_eq_false_iff : ∀ ts : List TypeExpr,
    typesDoubled ts = false ↔ ∀ part ∈ typeParts ts, TypeSuffix.doubled part.suffixes = false
  | [] => iff_of_true rfl (List.forall_mem_nil _)
  | t :: ts => by
    rw [typesDoubled, Bool.or_eq_false_iff, typeParts, List.forall_mem_append, t.doubled_eq_false_iff,
      typesDoubled_eq_false_iff ts]

end

mutual

theorem TypeExpr.parts_erased : ∀ t : TypeExpr, t.erased.parts = t.parts.map TypeExpr.erased
  | ⟨name, args, suffixes, span⟩ => by
    rw [TypeExpr.erased, TypeExpr.parts, TypeExpr.parts, List.map_cons, typeParts_erasedTypes args, TypeExpr.erased]

theorem typeParts_erasedTypes : ∀ ts : List TypeExpr, typeParts (erasedTypes ts) = (typeParts ts).map TypeExpr.erased
  | [] => rfl
  | t :: ts => by
    rw [erasedTypes, typeParts, typeParts, List.map_append, t.parts_erased, typeParts_erasedTypes ts]

end

namespace TypeExpr

theorem suffixes_erased (t : TypeExpr) : t.erased.suffixes = t.suffixes := by
  cases t
  rw [erased]

/-- Types that are equal up to places have the same suffixes in their parts. -/
theorem forall_suffixes_congr {t u : TypeExpr} (h : t.erased = u.erased) {p : List TypeSuffix → Prop} :
    (∀ part ∈ t.parts, p part.suffixes) → ∀ part ∈ u.parts, p part.suffixes := by
  intro ht part hp
  have hmem : part.erased ∈ t.parts.map TypeExpr.erased := by
    rw [← t.parts_erased, h, u.parts_erased]
    exact List.mem_map_of_mem hp
  obtain ⟨same, hs, he⟩ := List.mem_map.1 hmem
  rw [← part.suffixes_erased, ← he, same.suffixes_erased]
  exact ht same hs

/-! ## Reading back -/

/-- The text of a type that fits is not malformed, and it is cut into the tokens of the type. -/
theorem lexed_text {t : TypeExpr} (hf : t.Fits) (file : Option Nat) :
    (∀ piece ∈ Lexer.tokensFrom file 0 t.text.toList, piece.2 = none) ∧ Alike (lex t.text file).significant t.tokens := by
  have hs := t.spells hf (by simp [StopsType]) .nil
  rw [List.append_nil, List.append_nil] at hs
  exact hs.alike file 0

/-- A type with proper names is read back from its text, up to a name behind it, exactly when every `?` is the last suffix of its
type. -/
theorem reads_back_iff (t : TypeExpr) (hn : ∀ part ∈ t.parts, IsName part.name) (file : Option Nat) (ident : Token)
    (hi : ident.kind = .name) :
    (∃ s, scan? ((lex t.text file).significant ++ [ident]) = some s ∧ s.value.erased = t.erased ∧ s.rest = [ident]) ↔
      ∀ part ∈ t.parts, QuestionLast part.suffixes := by
  have fits (ha : ∀ part ∈ t.parts, ArraysFirst part.suffixes) : t.Fits := t.fits_iff.2 fun part hp => ⟨hn part hp, ha part hp⟩
  constructor
  · rintro ⟨s, hs, he, hrest⟩
    have ha : ∀ part ∈ t.parts, ArraysFirst part.suffixes :=
      forall_suffixes_congr he fun part hp => (readFrom_scan? _ s hs part hp).2
    have hd : t.doubled = false := by
      -- a sign that joins two `?` cannot be part of what was read
      by_contra hd
      rw [Bool.not_eq_false] at hd
      obtain ⟨u, hu, hk⟩ := (lexed_text (fits ha) file).2.exists_kind (t.coalesce_mem_tokens hd)
      obtain ⟨read, hread, hsplit⟩ := scan?_leaves _ s hs
      rw [hrest] at hsplit
      rw [List.append_cancel_right hsplit] at hu
      exact Grammar.without_type s.value read hread u hu hk
    intro part hp
    exact (questionLast_iff _).2 ⟨ha part hp, t.doubled_eq_false_iff.1 hd part hp⟩
  · intro hq
    have hf : t.Fits := fits fun part hp => ((questionLast_iff _).1 (hq part hp)).1
    have hd : t.doubled = false := t.doubled_eq_false_iff.2 fun part hp => ((questionLast_iff _).1 (hq part hp)).2
    have halike := (lexed_text hf file).2.append t.ne_dollar_of_mem_tokens [ident]
    have hends : Heads Token.endsType [ident] := by simp [Token.endsType, Token.isMark, Token.isSign, hi]
    have hguards : guardsAccess [ident] = false := by simp [guardsAccess, Token.isMark, hi]
    obtain ⟨s, hs, he, hrest⟩ := scan?_tokens t hf hd hends (fun _ => hguards) _ rfl
    obtain ⟨s', hs', he', hrest'⟩ := scan?_alike _ _ halike.symm s hs
    refine ⟨s', hs', he'.trans he, ?_⟩
    -- what is left is as long as the name, and it is the end of the tokens
    rw [hrest] at hrest'
    obtain ⟨read, hread⟩ := scan?_suffix _ s' hs'
    exact (List.append_inj' hread hrest'.length_eq.symm).2

/-- A type with arguments that have suffixes of their own is read back. -/
theorem reads_back_dictionary :
    ∃ t : TypeExpr, t.text = "Dictionary<string, List<int?>[]>[]?" ∧ (∀ part ∈ t.parts, IsName part.name) ∧
      ∃ s, scan? ((lex "Dictionary<string, List<int?>[]>[]?" none).significant ++ [⟨.name, "x", {}⟩]) = some s ∧
        s.value.erased = t.erased ∧ s.rest = [⟨.name, "x", {}⟩] := by
  have hname : ∀ s ∈ ["Dictionary", "string", "List", "int"], IsName s := by
    intro s hs
    simp only [List.mem_cons, List.not_mem_nil, or_false] at hs
    rcases hs with rfl | rfl | rfl | rfl <;> exact ⟨_, _, rfl, by rfl⟩
  have hn : ∀ part ∈ (TypeExpr.mk "Dictionary" [⟨"string", [], [], {}⟩, ⟨"List", [⟨"int", [], [.nullable], {}⟩], [.array], {}⟩]
      [.array, .nullable] {}).parts, IsName part.name := by
    simp [parts, typeParts, hname]
  exact ⟨_, by decide +kernel, hn, (reads_back_iff _ hn none ⟨.name, "x", {}⟩ rfl).2 (by
    simp [parts, typeParts, QuestionLast])⟩

/-- Of `int??` the lexer makes one sign of both `?`, and of `int?[]` the `?` is left to an access, so neither is read back. -/
theorem not_read_back_behind_question :
    (∀ part ∈ (TypeExpr.mk "int" [] [.nullable, .nullable] {}).parts, IsName part.name) ∧
      (TypeExpr.mk "int" [] [.nullable, .nullable] {}).text = "int??" ∧
      (¬ ∃ s, scan? ((lex "int??" none).significant ++ [⟨.name, "x", {}⟩]) = some s ∧
        s.value.erased = (TypeExpr.mk "int" [] [.nullable, .nullable] {}).erased ∧ s.rest = [⟨.name, "x", {}⟩]) ∧
      (TypeExpr.mk "int" [] [.nullable, .array] {}).text = "int?[]" ∧
      ¬ ∃ s, scan? ((lex "int?[]" none).significant ++ [⟨.name, "x", {}⟩]) = some s ∧
        s.value.erased = (TypeExpr.mk "int" [] [.nullable, .array] {}).erased ∧ s.rest = [⟨.name, "x", {}⟩] := by
  have left (text : String)
      (h : (scan? ((lex text none).significant ++ [⟨.name, "x", {}⟩])).all (fun s => s.rest.length != 1) = true)
      {e : TypeExpr} : ¬ ∃ s, scan? ((lex text none).significant ++ [⟨.name, "x", {}⟩]) = some s ∧
        s.value.erased = e ∧ s.rest = [⟨.name, "x", {}⟩] := by
    rintro ⟨s, hs, -, hr⟩
    rw [hs, Option.all_some, hr] at h
    cases h
  refine ⟨?_, by decide +kernel, left "int??" (by decide +kernel), by decide +kernel, left "int?[]" (by decide +kernel)⟩
  have hint : IsName "int" := ⟨_, _, rfl, by rfl⟩
  simp [parts, typeParts, hint]

end TypeExpr

end NavCheck
