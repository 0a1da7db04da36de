import NavCheck.Proofs.WrittenTokens

/-!
# Texts and their tokens

The text of an expression that fits is cut into the tokens of the expression, whatever follows it, as long as what follows
does not go on with a name. The lexer takes the longest token each time, so every lemma says what must not come next.
-/

namespace NavCheck

open Lexer

/-! ## Cutting a text -/

/-- The tokens that a text is cut into, without their places. A dollar sign stands in front of a name that it touches. -/
inductive Spells : List Char → List Token → Prop
  | nil : Spells [] []
  | trivia {c more cs ts kind} : scan c (more ++ cs) = { kind, extra := more.length } → kind.isTrivia = true →
    Spells cs ts → Spells (c :: (more ++ cs)) ts
  | token {c more cs ts kind} : scan c (more ++ cs) = { kind, extra := more.length } → kind.isTrivia = false →
    kind ≠ .punct .dollar → Spells cs ts → Spells (c :: (more ++ cs)) (⟨kind, String.ofList (c :: more), default⟩ :: ts)
  | keyed {c more cs ts} : scan c (more ++ cs) = { kind := .name, extra := more.length } → Spells cs ts →
    Spells ('$' :: c :: (more ++ cs)) (.ofMark .dollar :: .ofName (String.ofList (c :: more)) :: ts)

/-- The tokens among pieces of a text that carry a meaning. -/
def significantOf (pieces : List (Token × Option LexFault)) : List Token :=
  (pieces.map (·.1)).filter fun token => !token.kind.isTrivia

/-- The first piece of a text and what is left behind it. -/
theorem tokensFrom_scanned (file : Option Nat) (offset : Nat) (c : Char) (more cs : List Char) {kind : TokenKind}
    (h : scan c (more ++ cs) = { kind, extra := more.length }) :
    tokensFrom file offset (c :: (more ++ cs)) =
      (⟨kind, String.ofList (c :: more), ⟨file, offset, offset + Text.byteLength (c :: more)⟩⟩, none) ::
        tokensFrom file (offset + Text.byteLength (c :: more)) cs := by
  rw [tokensFrom, h]
  simp only [List.take_left, List.drop_left]

/-- A text whose first token has a given kind and given characters is that token and the tokens of the rest. -/
theorem tokensFrom_append (file : Option Nat) (offset : Nat) (c : Char) (more cs : List Char) {kind : TokenKind}
    (h : scan c (more ++ cs) = { kind, extra := more.length }) :
    ∃ stop, tokensFrom file offset (c :: (more ++ cs)) =
      (⟨kind, String.ofList (c :: more), ⟨file, offset, stop⟩⟩, none) :: tokensFrom file stop cs :=
  ⟨_, tokensFrom_scanned file offset c more cs h⟩

/-- A text that is cut into tokens is not malformed, and its tokens are these. -/
theorem Spells.alike {cs : List Char} {ts : List Token} (h : Spells cs ts) (file : Option Nat) (offset : Nat) :
    (∀ piece ∈ tokensFrom file offset cs, piece.2 = none) ∧ Alike (significantOf (tokensFrom file offset cs)) ts := by
  induction h generalizing offset with
  | nil =>
    rw [tokensFrom]
    exact ⟨by simp, .nil⟩
  | trivia hs ht _ ih =>
    obtain ⟨stop, he⟩ := tokensFrom_append file offset _ _ _ hs
    obtain ⟨hf, ha⟩ := ih stop
    rw [he]
    refine ⟨by simpa using hf, ?_⟩
    rw [significantOf, List.map_cons, List.filter_cons_of_neg (by simp [ht])]
    exact ha
  | token hs ht hd _ ih =>
    obtain ⟨stop, he⟩ := tokensFrom_append file offset _ _ _ hs
    obtain ⟨hf, ha⟩ := ih stop
    rw [he]
    refine ⟨by simpa using hf, ?_⟩
    rw [significantOf, List.map_cons, List.filter_cons_of_pos (by simp [ht])]
    exact .cons ⟨rfl, rfl⟩ (fun hk => absurd hk hd) ha
  | @keyed c more cs ts hs _ ih =>
    have hd : scan '$' ([] ++ c :: (more ++ cs)) = { kind := .punct .dollar, extra := ([] : List Char).length } := rfl
    obtain ⟨middle, he₁⟩ := tokensFrom_append file offset _ _ _ hd
    obtain ⟨stop, he₂⟩ := tokensFrom_append file middle _ _ _ hs
    obtain ⟨hf, ha⟩ := ih stop
    rw [List.nil_append] at he₁
    rw [he₁, he₂]
    refine ⟨by simpa using hf, ?_⟩
    rw [significantOf, List.map_cons, List.map_cons, List.filter_cons_of_pos rfl, List.filter_cons_of_pos rfl]
    exact .cons ⟨rfl, rfl⟩ (fun _ => ⟨fun _ => rfl, fun _ => rfl⟩) (.cons ⟨rfl, rfl⟩ (by simp) ha)

/-- A token of one character. -/
theorem Spells.one {c : Char} {cs : List Char} {ts : List Token} {kind : TokenKind} (hs : scan c cs = { kind, extra := 0 })
    (ht : kind.isTrivia = false) (hd : kind ≠ .punct .dollar) (h : Spells cs ts) :
    Spells (c :: cs) (⟨kind, String.ofList [c], default⟩ :: ts) :=
  @Spells.token c [] cs ts kind hs ht hd h

/-- A token of two characters. -/
theorem Spells.two {c d : Char} {cs : List Char} {ts : List Token} {kind : TokenKind}
    (hs : scan c (d :: cs) = { kind, extra := 1 }) (ht : kind.isTrivia = false) (hd : kind ≠ .punct .dollar)
    (h : Spells cs ts) : Spells (c :: d :: cs) (⟨kind, String.ofList [c, d], default⟩ :: ts) :=
  @Spells.token c [d] cs ts kind hs ht hd h

/-! ## Words -/

/-- Whether a text does not go on with a name or number that stands in front of it. -/
def Stops (cs : List Char) : Prop :=
  ∀ c ∈ cs.head?, Text.continuesName c = false

/-- The end of a text goes on with no name. -/
@[simp]
theorem stops_nil : Stops [] := by
  simp [Stops]

/-- A text goes on with no name when its first character does not. -/
@[simp]
theorem stops_cons (c : Char) (cs : List Char) : Stops (c :: cs) ↔ Text.continuesName c = false := by
  simp [Stops]

/-- The characters that are taken while a property holds end where it fails. -/
theorem takeWhile_append_of_stop {α : Type} {p : α → Bool} {more cs : List α} (hm : ∀ c ∈ more, p c = true)
    (hs : ∀ c ∈ cs.head?, p c = false) : (more ++ cs).takeWhile p = more := by
  rw [List.takeWhile_append_of_pos hm]
  cases cs with
  | nil => simp
  | cons c cs => simp [hs c rfl]

/-- Kinds of tokens that are written with marks: all but names, keywords, literals and blanks. -/
def TokenKind.isSymbol : TokenKind → Bool
  | .punct _ | .sign _ | .comment | .unknown _ => true
  | _ => false

/-- A symbol has a kind that is written with marks. -/
theorem isSymbol_scanSymbol? {c : Char} {cs : List Char} {s : Scan} (h : scanSymbol? c cs = some s) :
    s.kind.isSymbol = true := by
  unfold scanSymbol? at h
  split at h
  case h_19 =>
    cases h
    unfold scanSlash
    split <;> rfl
  case h_20 =>
    rw [Option.map_eq_some_iff] at h
    obtain ⟨mark, -, rfl⟩ := h
    rfl
  all_goals
    cases h
    rfl

/-- The first character of a text decides what is cut off it. -/
theorem scan_cases (c : Char) (cs : List Char) :
    (Text.isBlank c = true ∧ scan c cs = { kind := .blank, extra := (cs.takeWhile Text.isBlank).length }) ∨
    (Text.isBlank c = false ∧ Text.startsName c = true ∧ scan c cs = scanName c cs) ∨
    (Text.isBlank c = false ∧ Text.startsName c = false ∧ c.isDigit = true ∧ scan c cs = scanNumber c cs) ∨
    (c = '"' ∧ scan c cs = scanString cs) ∨
    (Text.isBlank c = false ∧ (scan c cs).kind.isSymbol = true) := by
  unfold scan
  split
  · exact .inl ⟨‹_›, rfl⟩
  rename_i hb
  rw [Bool.not_eq_true] at hb
  split
  · exact .inr (.inl ⟨hb, ‹_›, rfl⟩)
  rename_i hn
  rw [Bool.not_eq_true] at hn
  split
  · exact .inr (.inr (.inl ⟨hb, hn, ‹_›, rfl⟩))
  split
  · exact .inr (.inr (.inr (.inl ⟨‹_›, rfl⟩)))
  refine .inr (.inr (.inr (.inr ⟨hb, ?_⟩)))
  cases h : scanSymbol? c cs with
  | none => rfl
  | some s => exact isSymbol_scanSymbol? h

/-- A name is cut off by its first character. -/
theorem scanName_of_scan {c : Char} {cs : List Char} (h : (scan c cs).kind = .name) :
    Text.isBlank c = false ∧ Text.startsName c = true ∧ scan c cs = scanName c cs := by
  rcases scan_cases c cs with ⟨-, he⟩ | hn | ⟨-, -, -, he⟩ | ⟨-, he⟩ | ⟨-, hs⟩
  · rw [he] at h
    cases h
  · exact hn
  · rw [he, scanNumber] at h
    split at h <;> cases h
  · rw [he, scanString] at h
    cases h
  · rw [h] at hs
    cases hs

/-- A blank in front of a text. -/
theorem Spells.blank {cs : List Char} {ts : List Token} (h : Spells cs ts) : Spells (' ' :: cs) ts := by
  have alone : ∀ {c : Char} {more : List Char}, Text.isBlank c = false → Spells (c :: more) ts →
      Spells (' ' :: c :: more) ts := by
    intro c more hb h
    refine @Spells.trivia _ [] _ _ .blank ?_ rfl h
    simp [scan, show Text.isBlank ' ' = true from rfl, hb]
  cases h with
  | nil => exact @Spells.trivia _ [] _ _ .blank rfl rfl .nil
  | @trivia c more cs ts kind hs ht h =>
    cases hb : Text.isBlank c with
    | false => exact alone hb (.trivia hs ht h)
    | true =>
      -- The blank grows by the one in front of it.
      refine @Spells.trivia _ (c :: more) _ _ .blank ?_ rfl h
      have hl : (List.takeWhile Text.isBlank (more ++ cs)).length = more.length := by
        simpa [scan, hb] using congrArg Scan.extra hs
      simp [scan, show Text.isBlank ' ' = true from rfl, hb, hl]
  | @token c more cs ts kind hs ht hd h =>
    refine alone ?_ (.token hs ht hd h)
    cases hb : Text.isBlank c with
    | false => rfl
    | true =>
      have hk : kind = .blank := by simpa [scan, hb] using (congrArg Scan.kind hs).symm
      rw [hk] at ht
      cases ht
  | keyed hs h => exact alone rfl (.keyed hs h)

/-- A name does not change when something follows that does not go on with it. -/
theorem IsName.scan {name : String} (h : IsName name) {cs : List Char} (hc : Stops cs) :
    ∃ c more, name.toList = c :: more ∧ Text.startsName c = true ∧
      Lexer.scan c (more ++ cs) = { kind := .name, extra := more.length } := by
  obtain ⟨c, more, hn, hs⟩ := h
  obtain ⟨hb, hst, he⟩ := scanName_of_scan (congrArg Scan.kind hs)
  have hall : more.takeWhile Text.continuesName = more := by
    rw [he, scanName] at hs
    have hl : (more.takeWhile Text.continuesName).length = more.length := by
      split at hs
      · cases hs
      · exact congrArg Scan.extra hs
    exact List.IsPrefix.eq_of_length (List.takeWhile_prefix _) hl
  have htake : (more ++ cs).takeWhile Text.continuesName = more := by
    have := @List.all_takeWhile _ Text.continuesName more
    rw [hall, List.all_eq_true] at this
    exact takeWhile_append_of_stop this hc
  refine ⟨c, more, hn, hst, ?_⟩
  rw [he, scanName, hall] at hs
  rw [Lexer.scan, if_neg (by simp [hb]), if_pos hst, scanName, htake]
  exact hs

/-- A name in front of a text that does not go on with it is one token more. -/
theorem Spells.name {name : String} {cs : List Char} {ts : List Token} (h : Spells cs ts) (hn : IsName name)
    (hc : Stops cs) : Spells (name.toList ++ cs) (.ofName name :: ts) := by
  obtain ⟨c, more, he, -, hs⟩ := hn.scan hc
  have := Spells.token hs rfl (by simp) h
  rw [he, List.cons_append]
  rwa [← he, String.ofList_toList] at this

/-- A dollar sign and a name in front of a text that does not go on with the name are two tokens more. -/
theorem Spells.keyedName {name : String} {cs : List Char} {ts : List Token} (h : Spells cs ts) (hn : IsName name)
    (hc : Stops cs) : Spells ('$' :: (name.toList ++ cs)) (.ofMark .dollar :: .ofName name :: ts) := by
  obtain ⟨c, more, he, -, hs⟩ := hn.scan hc
  have := Spells.keyed hs h
  rw [he, List.cons_append]
  rwa [← he, String.ofList_toList] at this

/-- A keyword in front of a text. -/
theorem Spells.keyword {cs : List Char} {ts : List Token} (h : Spells cs ts) (word : Keyword) (hc : Stops cs) :
    Spells (word.text.toList ++ cs) (.ofKeyword word :: ts) := by
  have hw : ∃ c more, word.text.toList = c :: more ∧ Text.isBlank c = false ∧ Text.startsName c = true ∧
      (∀ x ∈ more, Text.continuesName x = true) ∧ Keyword.ofText? (String.ofList (c :: more)) = some word := by
    cases word <;> exact ⟨_, _, rfl, by decide, by decide, List.all_eq_true.1 (by decide), by decide⟩
  obtain ⟨c, more, he, hb, hst, hm, hk⟩ := hw
  have hs : scan c (more ++ cs) = { kind := .keyword word, extra := more.length } := by
    rw [Lexer.scan, if_neg (by simp [hb]), if_pos hst, scanName, takeWhile_append_of_stop hm hc, hk]
  have := Spells.token hs rfl (by simp) h
  rw [he, List.cons_append]
  rwa [← he, String.ofList_toList] at this

/-! ## Numbers and texts -/

/-- The code of a digit is between those of zero and nine. -/
theorem toNat_of_isDigit {c : Char} (h : c.isDigit = true) : 48 ≤ c.toNat ∧ c.toNat ≤ 57 := by
  simp only [Char.isDigit, Bool.and_eq_true, decide_eq_true_eq] at h
  exact ⟨h.1, h.2⟩

/-- A digit begins neither a blank nor a name. -/
theorem scan_of_isDigit {c : Char} (h : c.isDigit = true) (cs : List Char) : scan c cs = scanNumber c cs := by
  obtain ⟨hl, hu⟩ := toNat_of_isDigit h
  have hb : ∀ k : Fin 10, Text.isBlank (Char.ofNat (48 + k)) = false ∧ Text.startsName (Char.ofNat (48 + k)) = false := by
    decide
  have hk := hb ⟨c.toNat - 48, by omega⟩
  simp only [show 48 + (c.toNat - 48) = c.toNat by omega, Char.ofNat_toNat] at hk
  rw [scan, if_neg (by simp [hk.1]), if_neg (by simp [hk.2]), if_pos h]

/-- The value of digits with one more digit behind them. -/
theorem decimal_append (ds : List Char) (d : Char) : decimal (ds ++ [d]) = 10 * decimal ds + (d.toNat - 48) := by
  simp [decimal, List.foldl_append]

/-- The digits of a number are read as the number. -/
theorem decimal_toDigits (n : Nat) : decimal (Nat.toDigits 10 n) = n := by
  have hd : ∀ k : Fin 10, (Nat.digitChar k).toNat - 48 = k := by decide
  induction n using Nat.strongRecOn with
  | ind n ih =>
    rcases Nat.lt_or_ge n 10 with hn | hn
    · rw [Nat.toDigits_of_lt_base hn]
      simpa [decimal] using hd ⟨n, hn⟩
    · rw [Nat.toDigits_of_base_le (by decide) hn, decimal_append, ih (n / 10) (by omega)]
      have := hd ⟨n % 10, by omega⟩
      simp only at this
      omega

/-- A character that goes on with no name goes on with no number. -/
theorem continuesNumber_of_stop {c : Char} (h : Text.continuesName c = false) : Text.continuesNumber c = false := by
  simp only [Text.continuesName, Text.continuesNumber, Bool.or_eq_false_iff] at h ⊢
  refine ⟨?_, h.2⟩
  cases hd : c.isDigit with
  | false => rfl
  | true =>
    have := toNat_of_isDigit hd
    have hn : Text.isNumeral c = true := by rw [Text.isNumeral, if_pos (by omega), hd]
    rw [hn] at h
    exact absurd h.1.2 (by simp)

/-- A number in range in front of a text. -/
theorem Spells.number {n : Nat} {cs : List Char} {ts : List Token} (h : Spells cs ts) (hn : n ≤ maxNumber)
    (hc : Stops cs) : Spells ((toString n).toList ++ cs) (⟨.number n, toString n, default⟩ :: ts) := by
  have he : (toString n).toList = Nat.toDigits 10 n := by rw [Nat.toString_eq_repr, Nat.toList_repr]
  have hdig : ∀ c ∈ Nat.toDigits 10 n, c.isDigit = true := fun c hc => Nat.isDigit_of_mem_toDigits (by decide) (by decide) hc
  obtain ⟨c, more, hm⟩ := List.exists_cons_of_ne_nil (@Nat.toDigits_ne_nil n 10)
  rw [hm] at hdig
  have htake : (more ++ cs).takeWhile Text.continuesNumber = more := by
    refine takeWhile_append_of_stop (fun x hx => ?_) fun x hx => continuesNumber_of_stop (hc x hx)
    simp [Text.continuesNumber, hdig x (List.mem_cons_of_mem _ hx)]
  have hfilter : (c :: more).filter (· != '_') = c :: more := by
    refine List.filter_eq_self.2 fun x hx => ?_
    have := toNat_of_isDigit (hdig x hx)
    simp only [bne_iff_ne, ne_eq]
    rintro rfl
    exact absurd this.2 (by decide)
  have hs : scan c (more ++ cs) = { kind := .number n, extra := more.length } := by
    rw [scan_of_isDigit (hdig c List.mem_cons_self), scanNumber, htake]
    rw [hfilter, ← hm, decimal_toDigits, if_pos hn]
  have := Spells.token hs rfl (by simp) h
  rw [he, hm, List.cons_append]
  rwa [← hm, ← he, String.ofList_toList] at this

/-- What a text literal shows is read as its value. -/
theorem stringBody_escaped (value cs : List Char) :
    stringBody (value.flatMap Text.escapeChar ++ '"' :: cs) = (value, (value.flatMap Text.escapeChar).length + 1, true) := by
  induction value with
  | nil => rfl
  | cons c value ih =>
    have escaped : ∀ d : Char, Text.unescapeChar d = c → Text.escapeChar c = ['\\', d] →
        stringBody ((c :: value).flatMap Text.escapeChar ++ '"' :: cs) =
          (c :: value, ((c :: value).flatMap Text.escapeChar).length + 1, true) := by
      intro d hd he
      rw [List.flatMap_cons, he, List.cons_append, List.singleton_append, List.cons_append, List.cons_append, stringBody, ih]
      simp [hd]
    by_cases hq : c = '"'
    · exact escaped '"' (by rw [hq]; decide) (by rw [hq]; decide)
    by_cases hs : c = '\\'
    · exact escaped '\\' (by rw [hs]; decide) (by rw [hs]; decide)
    by_cases hn : c = '\n'
    · exact escaped 'n' (by rw [hn]; decide) (by rw [hn]; decide)
    by_cases ht : c = '\t'
    · exact escaped 't' (by rw [ht]; decide) (by rw [ht]; decide)
    by_cases hz : c.toNat = 0
    · have hz : c = Char.ofNat 0 := by rw [← hz, Char.ofNat_toNat]
      exact escaped '0' (by rw [hz]; decide) (by rw [hz]; decide)
    have he : Text.escapeChar c = [c] := by simp [Text.escapeChar, hq, hs, hn, ht, hz]
    rw [List.flatMap_cons, he, List.singleton_append, List.cons_append, stringBody, ih]
    · simp
    all_goals simp_all

/-- A quoted text is its escaped characters between quotes. -/
theorem toList_quote (value : String) :
    (Text.quote value).toList = '"' :: (value.toList.flatMap Text.escapeChar ++ ['"']) := by
  rw [Text.quote, String.toList_ofList, Text.quoteChars]

/-- A quoted text is scanned up to its closing quote. -/
theorem scan_quoted (value : String) (cs : List Char) :
    scan '"' (value.toList.flatMap Text.escapeChar ++ ['"'] ++ cs) =
      { kind := .string value, extra := (value.toList.flatMap Text.escapeChar ++ ['"']).length } := by
  rw [List.append_assoc, List.singleton_append]
  show scanString _ = _
  rw [scanString, stringBody_escaped]
  simp

/-- A text literal in front of a text. -/
theorem Spells.string {cs : List Char} {ts : List Token} (h : Spells cs ts) (value : String) :
    Spells ((Text.quote value).toList ++ cs) (⟨.string value, Text.quote value, default⟩ :: ts) := by
  have he := toList_quote value
  have := Spells.token (scan_quoted value cs) rfl (by simp) h
  rw [he, List.cons_append]
  rwa [← he, String.ofList_toList] at this

/-! ## Marks and signs -/

/-- A mark that is not a `?` in front of a text. -/
theorem Spells.mark {cs : List Char} {ts : List Token} (h : Spells cs ts) (mark : Punct)
    (hd : mark ≠ .dollar := by decide) (hq : mark ≠ .question := by decide) :
    Spells (mark.char :: cs) (.ofMark mark :: ts) := by
  refine .one ?_ rfl (by simpa using hd) h
  cases mark with
  | dollar => exact absurd rfl hd
  | question => exact absurd rfl hq
  | _ => rfl

/-- A `?` in front of a text that does not begin with another one. -/
theorem Spells.question {cs : List Char} {ts : List Token} (h : Spells cs ts) (hc : cs.head? ≠ some '?') :
    Spells ('?' :: cs) (.ofMark .question :: ts) := by
  refine .one ?_ rfl (by simp) h
  cases cs with
  | nil => rfl
  | cons c cs =>
    have hc : c ≠ '?' := by simpa using hc
    show (scanSymbol? '?' (c :: cs)).getD _ = _
    unfold scanSymbol?
    split <;> simp_all
    rfl

/-- A sign in front of a blank. -/
theorem Spells.spacedSign {cs : List Char} {ts : List Token} (h : Spells cs ts) (sign : Sign) :
    Spells (sign.text.toList ++ ' ' :: cs) (.ofSign sign :: ts) := by
  cases sign
  all_goals first
    | exact .one rfl rfl (by simp) h.blank
    | exact .two rfl rfl (by simp) h.blank

/-- A sign in front of a text that does not make another sign of it. -/
theorem Spells.tightSign {cs : List Char} {ts : List Token} (h : Spells cs ts) (sign : Sign)
    (hs : sign ∈ [Sign.less, .greater, .bang]) (hc : cs.head? ≠ some '=') : Spells (sign.text.toList ++ cs) (.ofSign sign :: ts) := by
  have hscan : ∀ c s, c ∈ ['<', '>', '!'] → scan c [] = operator s 0 → scan c cs = operator s 0 := by
    intro c s hm he
    cases cs with
    | nil => exact he
    | cons d cs =>
      have hd : d ≠ '=' := by simpa using hc
      simp only [List.mem_cons, List.not_mem_nil, or_false] at hm
      rw [← he]
      rcases hm with rfl | rfl | rfl
      all_goals
        show (scanSymbol? _ (d :: cs)).getD _ = _
        unfold scanSymbol?
        split <;> simp_all
        exact he
  simp only [List.mem_cons, List.not_mem_nil, or_false] at hs
  rcases hs with rfl | rfl | rfl
  · exact .one (hscan '<' .less (by simp) rfl) rfl (by simp) h
  · exact .one (hscan '>' .greater (by simp) rfl) rfl (by simp) h
  · exact .one (hscan '!' .bang (by simp) rfl) rfl (by simp) h

/-- A text that begins with an equals sign begins with a sign between operands. -/
theorem scan_equals (cs : List Char) : ∃ sign extra, scan '=' cs = operator sign extra ∧
    (Token.ofSign sign).startsOperand = false := by
  show ∃ sign extra, (scanSymbol? '=' cs).getD _ = operator sign extra ∧ (Token.ofSign sign).startsOperand = false
  unfold scanSymbol?
  split
  case h_2 | h_3 | h_9 => exact ⟨_, _, rfl, rfl⟩
  all_goals simp_all

/-- No operand begins with an equals sign. -/
theorem Spells.head_ne {cs : List Char} {t : Token} {ts : List Token} (h : Spells cs (t :: ts))
    (ht : t.startsOperand = true) : cs.head? ≠ some '=' := by
  intro hc
  cases h with
  | @trivia c more _ _ kind hs hk =>
    cases hc
    obtain ⟨sign, extra, he, -⟩ := scan_equals (more ++ _)
    cases he.symm.trans hs
    cases hk
  | @token c more _ _ kind hs =>
    cases hc
    obtain ⟨sign, extra, he, hf⟩ := scan_equals (more ++ _)
    cases he.symm.trans hs
    exact absurd (ht.symm.trans hf) (by simp)
  | keyed => cases hc

/-! ## Types -/

/-- A comma, a blank and more texts, unless there are none. -/
def commaText : List String → List Char
  | [] => []
  | texts@(_ :: _) => ',' :: ' ' :: (", ".intercalate texts).toList

/-- Texts joined by commas are the first text and the others behind commas. -/
theorem toList_intercalate_cons (text : String) (texts : List String) :
    (", ".intercalate (text :: texts)).toList = text.toList ++ commaText texts := by
  cases texts with
  | nil => simp [commaText]
  | cons t ts => simp [String.intercalate_cons_cons, commaText, String.toList_append]

/-- A comma and more items in front of a text. -/
theorem Spells.comma {α : Type} (more : List α) (texts : List String) {tokens ts : List Token} {cs : List Char}
    (hl : texts.length = more.length) (h : Spells cs ts)
    (hm : Spells ((", ".intercalate texts).toList ++ cs) (tokens ++ ts)) :
    Spells (commaText texts ++ cs) (behindComma more tokens ++ ts) := by
  match texts, more, hl with
  | [], [], _ => exact h
  | _ :: _, _ :: _, _ => exact hm.blank.mark .comma

/-- Commas and texts in front of an end are an end. -/
theorem stops_commaText {texts : List String} {cs : List Char} (h : Stops cs) : Stops (commaText texts ++ cs) := by
  cases texts with
  | nil => exact h
  | cons t ts => exact (stops_cons _ _).2 (by decide)

/-- Whether a text ends a type that stands in front of it. -/
def StopsType (cs : List Char) : Prop :=
  ∀ c ∈ cs.head?, Text.continuesName c = false ∧ c ≠ '?' ∧ c ≠ '='

/-- A text ends a type when its first character goes on neither with a name nor with a suffix, and is no `=`. -/
@[simp]
theorem stopsType_cons (c : Char) (cs : List Char) :
    StopsType (c :: cs) ↔ Text.continuesName c = false ∧ c ≠ '?' ∧ c ≠ '=' := by
  simp [StopsType]

/-- What ends a type ends a name. -/
theorem StopsType.stops {cs : List Char} (h : StopsType cs) : Stops cs :=
  fun c hc => (h c hc).1

/-- What ends a type begins neither with `?` nor with `=`. -/
theorem StopsType.head_ne {cs : List Char} (h : StopsType cs) : cs.head? ≠ some '?' ∧ cs.head? ≠ some '=' :=
  ⟨fun hc => (h _ hc).2.1 rfl, fun hc => (h _ hc).2.2 rfl⟩

/-- Commas and texts in front of the end of a type end a type. -/
theorem stopsType_commaText {texts : List String} {cs : List Char} (h : StopsType cs) :
    StopsType (commaText texts ++ cs) := by
  cases texts with
  | nil => exact h
  | cons t ts => exact (stopsType_cons _ _).2 (by decide)

/-- The text of suffixes. -/
def suffixText (suffixes : List TypeSuffix) : List Char :=
  (String.join (suffixes.map TypeSuffix.text)).toList

/-- The text of suffixes is the text of the first and the text of the others. -/
@[simp]
theorem suffixText_cons (s : TypeSuffix) (suffixes : List TypeSuffix) :
    suffixText (s :: suffixes) = s.text.toList ++ suffixText suffixes := by
  simp [suffixText, String.toList_append]

/-- Suffixes in front of the end of a type end a name, and do not begin with `=`. -/
theorem stopsSuffix (suffixes : List TypeSuffix) {cs : List Char} (h : StopsType cs) :
    Stops (suffixText suffixes ++ cs) ∧ (suffixText suffixes ++ cs).head? ≠ some '=' := by
  cases suffixes with
  | nil => exact ⟨h.stops, h.head_ne.2⟩
  | cons s suffixes =>
    rw [suffixText_cons]
    cases s <;> exact ⟨(stops_cons _ _).2 (by decide), by simp [TypeSuffix.text]⟩

/-- Suffixes in front of a text. -/
theorem Spells.suffixes (suffixes : List TypeSuffix) {cs : List Char} {ts : List Token} (hc : StopsType cs)
    (h : Spells cs ts) : Spells (suffixText suffixes ++ cs) (suffixTokens suffixes ++ ts) := by
  fun_induction suffixTokens suffixes with
  | case1 suffixes ih =>
    rw [suffixText_cons, suffixText_cons]
    exact .two rfl rfl (by simp) ih
  | case2 suffixes hn ih =>
    rw [suffixText_cons]
    refine ih.question ?_
    rcases suffixes with _ | ⟨_ | _, suffixes⟩
    · exact hc.head_ne.1
    · exact absurd rfl (hn _)
    · simp [TypeSuffix.text]
  | case3 suffixes ih =>
    rw [suffixText_cons]
    exact (ih.mark .closeBracket).mark .openBracket
  | case4 => exact h

/-- The text of type arguments with the angle brackets around them. -/
def angleText (texts : List String) : List Char :=
  match texts with
  | [] => []
  | _ :: _ => '<' :: ((", ".intercalate texts).toList ++ ['>'])

/-- The text of a type is its name, its arguments in angle brackets and its suffixes. -/
theorem TypeExpr.toList_text (name : String) (args : List TypeExpr) (suffixes : List TypeSuffix) (span : Span) :
    (TypeExpr.mk name args suffixes span).text.toList =
      name.toList ++ (angleText (TypeExpr.argTexts args) ++ suffixText suffixes) := by
  cases args with
  | nil => simp [TypeExpr.text, TypeExpr.argTexts, angleText, suffixText, String.toList_append]
  | cons t ts => simp [TypeExpr.text, TypeExpr.argTexts, angleText, suffixText, String.toList_append]

/-- There is a text for each argument of a type. -/
@[simp]
theorem length_argTexts (ts : List TypeExpr) : (TypeExpr.argTexts ts).length = ts.length := by
  induction ts with
  | nil => rfl
  | cons t ts ih => simp [TypeExpr.argTexts, ih]

/-- A type begins with a token that can start an operand. -/
theorem TypeExpr.head_tokens (t : TypeExpr) : ∃ u us, t.tokens = u :: us ∧ u.startsOperand = true := by
  cases t
  exact ⟨_, _, by rw [TypeExpr.tokens], rfl⟩

mutual

/-- A type in front of a text. -/
theorem TypeExpr.spells : ∀ t : TypeExpr, t.Fits → ∀ {cs : List Char} {ts : List Token}, StopsType cs → Spells cs ts →
    Spells (t.text.toList ++ cs) (t.tokens ++ ts)
  | ⟨name, args, suffixes, span⟩, hf, cs, ts, hc, h => by
    obtain ⟨hn, ha, -⟩ := hf
    have hs := h.suffixes suffixes hc
    rw [TypeExpr.toList_text, TypeExpr.tokens]
    simp only [List.append_assoc, List.cons_append]
    refine Spells.name ?_ hn ?_
    rotate_left
    · cases args with
      | nil => exact (stopsSuffix suffixes hc).1
      | cons t args => exact (stops_cons _ _).2 (by decide)
    · cases args with
      | nil => exact hs
      | cons t args =>
        have hg := hs.tightSign .greater (by simp) (stopsSuffix suffixes hc).2
        have hstop : StopsType ('>' :: (suffixText suffixes ++ cs)) := by simp; decide
        have := typesSpell (t :: args) ha hstop hg
        simp only [angleText, inAngles, TypeExpr.argTexts, List.append_assoc, List.cons_append] at this ⊢
        refine this.tightSign .less (by simp) ?_
        obtain ⟨u, us, hu, hs⟩ := t.head_tokens
        simp only [typeTokens, hu, List.cons_append] at this
        exact this.head_ne hs

/-- Types with commas between them in front of a text. -/
theorem typesSpell : ∀ types : List TypeExpr, TypesFit types → ∀ {cs : List Char} {ts : List Token}, StopsType cs →
    Spells cs ts → Spells ((", ".intercalate (TypeExpr.argTexts types)).toList ++ cs) (typeTokens types ++ ts)
  | [], _, _, _, _, h => h
  | t :: types, ⟨ht, hts⟩, cs, ts, hc, h => by
    rw [TypeExpr.argTexts, toList_intercalate_cons, typeTokens, List.append_assoc, List.append_assoc]
    exact t.spells ht (stopsType_commaText hc) (.comma types (TypeExpr.argTexts types) (by simp) h (typesSpell types hts hc h))

end

/-! ## Expressions -/

/-- A member name in front of a text. -/
theorem MemberName.spells {name : MemberName} (hf : name.Fits) {cs : List Char} {ts : List Token} (hc : Stops cs)
    (h : Spells cs ts) : Spells (name.text.toList ++ cs) (name.tokens ++ ts) := by
  cases name with
  | plain name => exact h.name hf hc
  | keyed name =>
    have := h.keyedName hf hc
    simpa [MemberName.text, MemberName.tokens, String.toList_append] using this

/-- A literal in front of a text. -/
theorem Literal.spells {value : Literal} (hf : value.Fits) {cs : List Char} {ts : List Token} (hc : Stops cs)
    (h : Spells cs ts) : Spells (value.text.toList ++ cs) (value.token :: ts) := by
  cases value with
  | int n =>
    obtain ⟨n, rfl⟩ := Int.eq_ofNat_of_zero_le hf.1
    exact h.number hf.2 hc
  | str value => exact h.string value
  | bool b =>
    cases b with
    | true => exact h.keyword .trueKw hc
    | false => exact h.keyword .falseKw hc
  | null => exact h.keyword .nullKw hc

/-- A parameter in front of a text. -/
theorem LambdaParam.spells {p : LambdaParam} (hf : p.Fits) {cs : List Char} {ts : List Token} (hc : Stops cs)
    (h : Spells cs ts) : Spells (p.text.toList ++ cs) (p.tokens ++ ts) := by
  obtain ⟨ht, hn⟩ := hf
  have hname := h.name hn hc
  obtain ⟨_ | type, name, span⟩ := p
  · exact hname
  · have hstop : StopsType (' ' :: (name.toList ++ cs)) := by simp; decide
    have := type.spells (ht type rfl) hstop hname.blank
    simpa [LambdaParam.text, LambdaParam.tokens, String.toList_append] using this

/-- Parameters with commas between them in front of a text. -/
theorem Spells.params {params : List LambdaParam} (hf : ∀ p ∈ params, p.Fits) {cs : List Char} {ts : List Token}
    (hc : Stops cs) (h : Spells cs ts) :
    Spells ((", ".intercalate (params.map LambdaParam.text)).toList ++ cs) (paramTokens params ++ ts) := by
  induction params with
  | nil => exact h
  | cons p params ih =>
    rw [List.map_cons, toList_intercalate_cons, paramTokens, List.append_assoc, List.append_assoc]
    have hs := ih fun q hq => hf q (List.mem_cons_of_mem p hq)
    exact LambdaParam.spells (hf p List.mem_cons_self) (stops_commaText hc) (.comma params _ (by simp) h hs)

/-- The parameters of a lambda in front of a text. -/
theorem Spells.lambdaParams {params : List LambdaParam} (hf : ∀ p ∈ params, p.Fits) {cs : List Char} {ts : List Token}
    (hc : Stops cs) (h : Spells cs ts) :
    Spells ((lambdaParamsText params).toList ++ cs) (lambdaParamsTokens params ++ ts) := by
  unfold lambdaParamsText lambdaParamsTokens
  cases hs : soleName? params with
  | some name =>
    unfold soleName? at hs
    split at hs
    · cases hs
      exact h.name (hf _ List.mem_cons_self).2 hc
    · cases hs
  | none =>
    have hclose := h.mark .closeParen
    have := (hclose.params hf (by simp [Punct.char]; decide)).mark .openParen
    simpa [String.toList_append, Punct.char] using this

/-- An operand that is tight enough is printed without parentheses. -/
theorem Expr.atLeast_of_le {e : Expr} {level : Nat} (h : level ≤ e.level) : e.render.atLeast level = e.text := by
  rw [Rendered.atLeast, Expr.level_render, if_neg (Nat.not_lt.2 h), Expr.text]

/-- There is a text for each of several expressions. -/
@[simp]
theorem length_listTexts (es : List Expr) : (listTexts es).length = es.length := by
  induction es with
  | nil => rfl
  | cons e es ih => simp [listTexts, ih]

/-- There is a text for each entry. -/
@[simp]
theorem length_entryTexts (entries : List Entry) : (entryTexts entries).length = entries.length := by
  induction entries with
  | nil => rfl
  | cons entry entries ih => cases entry <;> simp [entryTexts, ih]

/-- A sign between operands, with blanks around it. -/
theorem Spells.between {cs : List Char} {ts : List Token} (h : Spells cs ts) (sign : Sign) :
    Spells (' ' :: (sign.text.toList ++ ' ' :: cs)) (.ofSign sign :: ts) :=
  (h.spacedSign sign).blank

/-- A blank ends a name. -/
theorem stops_blank (cs : List Char) : Stops (' ' :: cs) :=
  (stops_cons _ _).2 (by decide)

/-- A mark ends a name. -/
theorem stops_mark (mark : Punct) (cs : List Char) : Stops (mark.char :: cs) := by
  cases mark <;> exact (stops_cons _ _).2 (by decide)

/-- The initializer of an object in front of a text. -/
theorem Spells.braces {entries : List Entry} {cs : List Char} {ts : List Token} (h : Spells cs ts)
    (hm : ∀ {cs ts}, Stops cs → Spells cs ts →
      Spells ((", ".intercalate (entryTexts entries)).toList ++ cs) (entryTokens entries ++ ts)) :
    Spells ((if entries.isEmpty then "" else " \x7b " ++ ", ".intercalate (entryTexts entries) ++ " \x7d").toList ++ cs)
      (inBraces entries (entryTokens entries) ++ ts) := by
  cases entries with
  | nil => exact h
  | cons entry entries =>
    have hclose := (h.mark .closeBrace).blank
    have := ((hm (stops_blank _) hclose).blank.mark .openBrace).blank
    simpa [inBraces, String.toList_append, Punct.char] using this

/-- A link begins with its mark. -/
theorem Link.toList_text (link : Link) : ∃ mark more, link.text.toList = Punct.char mark :: more ∧ mark.char ≠ '?' := by
  cases link with
  | member name => exact ⟨.dot, _, by simp [Link.text, String.toList_append, Punct.char]; rfl, by decide⟩
  | element indices => exact ⟨.openBracket, _, by simp [Link.text, String.toList_append, Punct.char]; rfl, by decide⟩
  | invoke args => exact ⟨.openParen, _, by simp [Link.text, String.toList_append, Punct.char]; rfl, by decide⟩

mutual

/-- The text of an expression in front of a text. -/
theorem Expr.spells : ∀ e : Expr, e.Fits → ∀ {cs : List Char} {ts : List Token}, Stops cs → Spells cs ts →
    Spells (e.text.toList ++ cs) (e.tokens ++ ts)
  | .literal value _, hf, cs, ts, hc, h => Literal.spells hf hc h
  | .name text _, hf, cs, ts, hc, h => h.name hf hc
  | .self _, _, cs, ts, hc, h => h.keyword .thisKw hc
  | .unary op operand _, ⟨hl, hf⟩, cs, ts, hc, h => by
    have ho := operand.spells hf hc h
    rw [Expr.text, Expr.render, Expr.atLeast_of_le hl, Expr.tokens, String.toList_append, List.append_assoc]
    cases op with
    | not =>
      obtain ⟨u, us, hu, hs, -⟩ := operand.head_tokens
      rw [hu] at ho
      exact Spells.tightSign (by rwa [hu]) .bang (by simp) (ho.head_ne hs)
    | neg => exact .one rfl rfl (by simp) ho
  | .binary op left right _, ⟨hll, hlr, hfl, hfr⟩, cs, ts, hc, h => by
    have := left.spells hfl (stops_blank _) ((right.spells hfr hc h).between op.sign)
    rw [Expr.text, Expr.render_binary, Expr.atLeast_of_le hll, Expr.atLeast_of_le hlr, Expr.tokens]
    simpa [String.toList_append, BinOp.symbol] using this
  | .conditional condition thenBranch elseBranch _, ⟨hlc, hlt, hle, hfc, hft, hfe⟩, cs, ts, hc, h => by
    have he := ((elseBranch.spells hfe hc h).blank.mark .colon).blank
    have ht := ((thenBranch.spells hft (stops_blank _) he).blank.question (by simp)).blank
    have := condition.spells hfc (stops_blank _) ht
    rw [Expr.text, Expr.render, Expr.atLeast_of_le hlc, Expr.atLeast_of_le hlt, Expr.atLeast_of_le hle, Expr.tokens]
    simpa [String.toList_append, Punct.char] using this
  | .assign target value _, ⟨hlt, hlv, hft, hfv⟩, cs, ts, hc, h => by
    have := target.spells hft (stops_blank _) ((value.spells hfv hc h).between .assign)
    have hlt : levels.assign + 1 ≤ target.level := Nat.le_trans (by decide) hlt
    rw [Expr.text, Expr.render, Expr.atLeast_of_le hlt, Expr.atLeast_of_le hlv, Expr.tokens]
    simpa [String.toList_append, Sign.text] using this
  | .lambda params body _, ⟨hp, hl, hf⟩, cs, ts, hc, h => by
    have := ((body.spells hf hc h).between .arrow).lambdaParams hp (stops_blank _)
    rw [Expr.text, Expr.render, Expr.atLeast_of_le hl, Expr.tokens]
    simpa [String.toList_append, Sign.text] using this
  | .paren inner _, hf, cs, ts, hc, h => by
    have hclose := h.mark .closeParen
    have := (inner.spells hf (stops_mark _ _) hclose).mark .openParen
    rw [Expr.text, Expr.render, Expr.tokens]
    simpa [String.toList_append, Punct.char, Expr.text] using this
  | .access base link guarded _, ⟨hl, hfb, hfl⟩, cs, ts, hc, h => by
    have hlink := link.spells hfl hc h
    obtain ⟨mark, more, hm, hq⟩ := link.toList_text
    have hhead : (link.text.toList ++ cs).head? ≠ some '?' ∧ Stops (link.text.toList ++ cs) := by
      rw [hm]
      exact ⟨by simpa using hq, stops_mark mark _⟩
    rw [Expr.text, Expr.render, Expr.atLeast_of_le hl, Expr.tokens]
    cases guarded with
    | false => simpa [String.toList_append] using base.spells hfb hhead.2 hlink
    | true => simpa [String.toList_append, Punct.char] using base.spells hfb (stops_mark .question _) (hlink.question hhead.1)
  | .create type args entries _, ⟨hft, hfa, hfe⟩, cs, ts, hc, h => by
    have hb := h.braces fun hc h => entriesSpell entries hfe hc h
    have hclose := hb.mark .closeParen
    have hargs := (listSpells args hfa (stops_mark _ _) hclose).mark .openParen
    have htype := (type.spells hft (by simp [Punct.char]; decide) hargs).blank
    have := htype.keyword .newKw (stops_blank _)
    rw [Expr.text, Expr.render, Expr.tokens]
    simpa [String.toList_append, Keyword.text, Punct.char] using this

/-- The text of a link in front of a text. -/
theorem Link.spells : ∀ link : Link, link.Fits → ∀ {cs : List Char} {ts : List Token}, Stops cs → Spells cs ts →
    Spells (link.text.toList ++ cs) (link.tokens ++ ts)
  | .member name _, hf, cs, ts, hc, h => by
    have := (MemberName.spells hf hc h).mark .dot
    simpa [Link.text, Link.tokens, String.toList_append, Punct.char] using this
  | .element indices, hf, cs, ts, hc, h => by
    have hclose := h.mark .closeBracket
    have := (listSpells indices hf.2 (stops_mark _ _) hclose).mark .openBracket
    simpa [Link.text, Link.tokens, String.toList_append, Punct.char] using this
  | .invoke args, hf, cs, ts, hc, h => by
    have hclose := h.mark .closeParen
    have := (listSpells args hf (stops_mark _ _) hclose).mark .openParen
    simpa [Link.text, Link.tokens, String.toList_append, Punct.char] using this

/-- The texts of expressions with commas between them in front of a text. -/
theorem listSpells : ∀ es : List Expr, ListFits es → ∀ {cs : List Char} {ts : List Token}, Stops cs → Spells cs ts →
    Spells ((", ".intercalate (listTexts es)).toList ++ cs) (listTokens es ++ ts)
  | [], _, _, _, _, h => h
  | e :: es, ⟨he, hes⟩, cs, ts, hc, h => by
    rw [listTexts, toList_intercalate_cons, listTokens, List.append_assoc, List.append_assoc]
    exact e.spells he (stops_commaText hc) (.comma es (listTexts es) (by simp) h (listSpells es hes hc h))

/-- The texts of entries with commas between them in front of a text. -/
theorem entriesSpell : ∀ entries : List Entry, EntriesFit entries → ∀ {cs : List Char} {ts : List Token}, Stops cs →
    Spells cs ts → Spells ((", ".intercalate (entryTexts entries)).toList ++ cs) (entryTokens entries ++ ts)
  | [], _, _, _, _, h => h
  | .member name _ value :: entries, ⟨hn, hl, hv, hes⟩, cs, ts, hc, h => by
    have hvalue := value.spells hv (stops_commaText hc)
      (.comma entries (entryTexts entries) (by simp) h (entriesSpell entries hes hc h))
    have := MemberName.spells hn (stops_blank _) (hvalue.between .assign)
    rw [entryTexts, toList_intercalate_cons, entryTokens, Expr.atLeast_of_le hl]
    simpa [String.toList_append, Sign.text] using this
  | .element indices _ value :: entries, ⟨_, hi, hl, hv, hes⟩, cs, ts, hc, h => by
    have hvalue := value.spells hv (stops_commaText hc)
      (.comma entries (entryTexts entries) (by simp) h (entriesSpell entries hes hc h))
    have hclose := (hvalue.between .assign).mark .closeBracket
    have := (listSpells indices hi (stops_mark _ _) hclose).mark .openBracket
    rw [entryTexts, toList_intercalate_cons, entryTokens, Expr.atLeast_of_le hl]
    simpa [String.toList_append, Sign.text, Punct.char] using this

end

/-- The text of an expression that fits is not malformed, and it is cut into the tokens of the expression. -/
theorem Expr.lexed_text {e : Expr} (hf : e.Fits) :
    (∀ piece ∈ tokensFrom none 0 e.text.toList, piece.2 = none) ∧ Alike (lex e.text none).significant e.tokens := by
  have hs := e.spells hf stops_nil .nil
  rw [List.append_nil, List.append_nil] at hs
  exact hs.alike none 0

end NavCheck
