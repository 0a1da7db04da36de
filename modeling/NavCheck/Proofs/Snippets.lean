import NavCheck.Diagnostic.Render
import NavCheck.Proofs.Lines

/-!
# Marked lines

A finding is shown with the line that it starts in and a line of carets below. For every place that starts in the text the line is
there, and it does not start behind the place; where the place lies between characters the carets stand under its part of the line,
one for each character, and one under nothing.
-/

namespace NavCheck

namespace Text

/-! ## The line around a place -/

/-- The part of a text in front of its first line feed. -/
def lineBehind (cs : List Char) : List Char :=
  cs.takeWhile (· != '\n')

/-- The part of a text behind its last line feed. -/
def lineBefore (cs : List Char) : List Char :=
  (lineBehind cs.reverse).reverse

/-- A line without its line feed. -/
def trimNewlines (cs : List Char) : List Char :=
  (cs.reverse.dropWhile (· == '\n')).reverse

theorem newline_notMem_lineBehind (cs : List Char) : '\n' ∉ lineBehind cs := by
  intro h
  simpa using List.mem_takeWhile_imp h

theorem newline_notMem_lineBefore (cs : List Char) : '\n' ∉ lineBefore cs := by
  intro h
  rw [lineBefore, List.mem_reverse] at h
  exact newline_notMem_lineBehind _ h

theorem lineBehind_append (p q : List Char) :
    lineBehind (p ++ q) = if '\n' ∈ p then lineBehind p else p ++ lineBehind q := by
  induction p with
  | nil => simp
  | cons c p ih =>
    by_cases hc : c = '\n'
    · simp [lineBehind, hc]
    · rw [lineBehind] at ih
      have hc' : '\n' ≠ c := Ne.symm hc
      by_cases hp : '\n' ∈ p
      · simpa [lineBehind, hc, hc', hp] using ih
      · simpa [lineBehind, hc, hc', hp] using ih

theorem lineBefore_append (p q : List Char) :
    lineBefore (p ++ q) = if '\n' ∈ q then lineBefore q else lineBefore p ++ q := by
  rw [lineBefore, List.reverse_append, lineBehind_append]
  by_cases hq : '\n' ∈ q
  · rw [if_pos (List.mem_reverse.2 hq), if_pos hq, lineBefore]
  · rw [if_neg (by rwa [List.mem_reverse]), if_neg hq, List.reverse_append, List.reverse_reverse, lineBefore]

theorem trimNewlines_append {cs nl : List Char} (hcs : '\n' ∉ cs) (hnl : ∀ c ∈ nl, c = '\n') :
    trimNewlines (cs ++ nl) = cs := by
  have hall : ∀ c ∈ nl.reverse, (c == '\n') = true := by
    intro c hc
    exact beq_iff_eq.2 (hnl c (List.mem_reverse.1 hc))
  have hstop : cs.reverse.dropWhile (· == '\n') = cs.reverse := by
    rw [List.dropWhile_eq_self_iff]
    intro hl
    have hmem := List.mem_reverse.1 (List.get_mem cs.reverse ⟨0, hl⟩)
    exact fun he => hcs (beq_iff_eq.1 he ▸ hmem)
  rw [trimNewlines, List.reverse_append, List.dropWhile_append_of_pos hall, hstop, List.reverse_reverse]

theorem lineBefore_eq_self {cs : List Char} (h : '\n' ∉ cs) : lineBefore cs = cs := by
  have := lineBefore_append [] cs
  rwa [if_neg h] at this

theorem lineBefore_newline_cons (cs : List Char) : lineBefore ('\n' :: cs) = lineBefore cs := by
  have hc := lineBefore_append ['\n'] cs
  rw [List.singleton_append] at hc
  by_cases h : '\n' ∈ cs
  · rwa [if_pos h] at hc
  · rw [if_neg h] at hc
    rw [lineBefore_eq_self h, hc]
    rfl

theorem lineBefore_cons_of_mem (c : Char) {cs : List Char} (h : '\n' ∈ cs) : lineBefore (c :: cs) = lineBefore cs := by
  have hc := lineBefore_append [c] cs
  rwa [if_pos h] at hc

/-- The first line, and perhaps its line feed. -/
theorem exists_lines_eq_cons (cs : List Char) :
    ∃ nl ls, (∀ c ∈ nl, c = '\n') ∧ lines cs = (lineBehind cs ++ nl) :: ls := by
  induction cs with
  | nil => exact ⟨[], [], List.forall_mem_nil _, rfl⟩
  | cons c cs ih =>
    by_cases hc : c = '\n'
    · subst hc
      refine ⟨['\n'], lines cs, ?_, ?_⟩
      · intro c hc
        exact List.mem_singleton.1 hc
      · rw [lines_newline]
        rfl
    · obtain ⟨nl, ls, hnl, h⟩ := ih
      have hb : lineBehind (c :: cs) = c :: lineBehind cs := List.takeWhile_cons_of_pos (bne_iff_ne.2 hc)
      exact ⟨nl, ls, hnl, by rw [lines_cons hc h, hb, List.cons_append]⟩

/-- Behind as many lines as a text has line feeds stands what is left of the text, as part of a line. -/
theorem drop_lines_append (p : List Char) {q l : List Char} {ls : List (List Char)} (h : lines q = l :: ls) :
    (lines (p ++ q)).drop (p.count '\n') = (lineBefore p ++ l) :: ls := by
  induction p with
  | nil => exact h
  | cons c p ih =>
    by_cases hc : c = '\n'
    · subst hc
      rw [List.cons_append, lines_newline, List.count_cons_self, List.drop_succ_cons, lineBefore_newline_cons, ih]
    · obtain ⟨l', ls', hl⟩ := List.exists_cons_of_ne_nil (lines_ne_nil (p ++ q))
      rw [hl] at ih
      rw [List.cons_append, lines_cons hc hl, List.count_cons_of_ne hc]
      by_cases hp : '\n' ∈ p
      · obtain ⟨n, hn⟩ := Nat.exists_eq_succ_of_ne_zero (Nat.pos_iff_ne_zero.1 (List.count_pos_iff.2 hp))
        rw [hn, List.drop_succ_cons] at ih ⊢
        rw [lineBefore_cons_of_mem c hp, ih]
      · have hcp : '\n' ∉ c :: p := by
          rw [List.mem_cons, not_or]
          exact ⟨Ne.symm hc, hp⟩
        rw [List.count_eq_zero.2 hp, List.drop_zero, lineBefore_eq_self hp] at ih
        injection ih with hhead htail
        rw [List.count_eq_zero.2 hp, List.drop_zero, lineBefore_eq_self hcp, hhead, htail, List.cons_append]

/-- The line that a place lies in. -/
theorem getElem?_lines_append (p q : List Char) :
    ∃ nl, (∀ c ∈ nl, c = '\n') ∧ (lines (p ++ q))[p.count '\n']? = some (lineBefore p ++ lineBehind q ++ nl) := by
  obtain ⟨nl, ls, hnl, h⟩ := exists_lines_eq_cons q
  refine ⟨nl, hnl, ?_⟩
  have hdrop := congrArg (·[0]?) (drop_lines_append p h)
  simpa only [List.getElem?_drop, Nat.add_zero, List.getElem?_cons_zero, ← List.append_assoc] using hdrop

/-! ## Bytes in front of a place -/

theorem bytes_append (p q : List Char) : bytes (p ++ q) = bytes p ++ bytes q :=
  List.flatMap_append

theorem newlineByte_mem_bytes {cs : List Char} : newlineByte ∈ bytes cs ↔ '\n' ∈ cs := by
  rw [bytes, List.mem_flatMap]
  constructor
  · rintro ⟨c, hc, hb⟩
    rwa [← newlineByte_mem_utf8EncodeChar hb]
  · intro h
    exact ⟨'\n', h, by decide⟩

theorem count_bytes (cs : List Char) : (bytes cs).count newlineByte = cs.count '\n' := by
  induction cs with
  | nil => rfl
  | cons c cs ih =>
    have hb : bytes (c :: cs) = String.utf8EncodeChar c ++ bytes cs := rfl
    rw [hb, List.count_append, ih]
    by_cases hc : c = '\n'
    · subst hc
      rw [utf8EncodeChar_newline, List.count_cons_self, List.count_cons_self, List.count_nil]
      omega
    · rw [List.count_eq_zero.2 (mt newlineByte_mem_utf8EncodeChar hc), List.count_cons_of_ne hc, Nat.zero_add]

theorem bytesSinceNewline_bytes (cs : List Char) : bytesSinceNewline (bytes cs) = byteLength (lineBefore cs) := by
  induction cs using List.reverseRecOn with
  | nil => rfl
  | append_singleton cs c ih =>
    rw [bytes_append, lineBefore_append]
    by_cases hc : c = '\n'
    · subst hc
      have hb : bytes ['\n'] = [newlineByte] := by decide
      rw [hb, if_pos List.mem_cons_self, bytesSinceNewline, List.reverse_append]
      rfl
    · have hmem : '\n' ∉ [c] := by
        rw [List.mem_singleton]
        exact Ne.symm hc
      rw [if_neg hmem, bytesSinceNewline_append (mt newlineByte_mem_bytes.1 hmem), ih, byteLength_append, length_bytes]

end Text

/-! ## Places in a file -/

namespace SourceFile

variable (f : SourceFile)

/-- Every place in the text has its line, which starts as many bytes in front of it as its column says. -/
theorem exists_line_of_le {offset : Nat} (h : offset ≤ f.text.utf8ByteSize) :
    ∃ place line, f.lineCol? offset = some place ∧ f.line? place.line = some line ∧ place.column ≤ offset + 1 ∧
      f.lineStarts[place.line - 1]? = some (offset + 1 - place.column) := by
  have hplace := f.lineCol?_eq_some h
  have hlast := getLast_startsBehind (f.bytesBefore offset)
  have hle := bytesSinceNewline_le (f.bytesBefore offset)
  rw [f.length_bytesBefore h] at hlast hle
  obtain ⟨behind, hbehind⟩ : f.bytesBefore offset <+: Text.bytes f.text.toList := by
    rw [bytesBefore, ← Text.bytes_toList]
    exact List.take_prefix _ _
  have hcount : (f.bytesBefore offset).count newlineByte < (Text.lines f.text.toList).length := by
    rw [Text.length_lines, ← Text.count_bytes, ← hbehind, List.count_append]
    omega
  have hline : f.line? (1 + (f.bytesBefore offset).count newlineByte) =
      some (String.ofList (Text.lines f.text.toList)[(f.bytesBefore offset).count newlineByte]) := by
    rw [Nat.add_comm, line?_eq, List.getElem?_eq_getElem hcount, Option.map_some]
  refine ⟨_, _, hplace, hline, by dsimp only; omega, ?_⟩
  have hstarts : f.lineStarts = 0 :: startsBehind 0 (f.bytesBefore offset) ++ startsBehind (0 + offset) behind := by
    rw [lineStarts, laterLineStarts_eq, ← hbehind, startsBehind_append, f.length_bytesBefore h, List.cons_append]
  have hlength : (0 :: startsBehind 0 (f.bytesBefore offset)).length = 1 + (f.bytesBefore offset).count newlineByte := by
    rw [List.length_cons, length_startsBehind, Nat.add_comm]
  have hindex : 1 + (f.bytesBefore offset).count newlineByte - 1 = (0 :: startsBehind 0 (f.bytesBefore offset)).length - 1 := by
    rw [hlength]
  rw [List.getLast_eq_getElem] at hlast
  dsimp only
  rw [hindex, hstarts, List.getElem?_append_left (by rw [hlength]; omega), List.getElem?_eq_getElem (by rw [hlength]; omega),
    Option.some.injEq]
  omega

variable {f} {p q : List Char}

theorem bytesBefore_of_append (h : f.text.toList = p ++ q) : f.bytesBefore (Text.byteLength p) = Text.bytes p := by
  rw [bytesBefore, ← Text.bytes_toList, h, Text.bytes_append, ← Text.length_bytes, List.take_left]

/-- The line and the column of a place between characters. -/
theorem lineCol?_of_append (h : f.text.toList = p ++ q) :
    f.lineCol? (Text.byteLength p) = some ⟨1 + p.count '\n', 1 + Text.byteLength (Text.lineBefore p)⟩ := by
  have hle : Text.byteLength p ≤ f.text.utf8ByteSize := by
    rw [← Text.byteLength_toList, h, Text.byteLength_append]
    omega
  rw [f.lineCol?_eq_some hle, bytesBefore_of_append h, Text.count_bytes, Text.bytesSinceNewline_bytes]

/-- The line around a place between characters. -/
theorem line?_of_append (h : f.text.toList = p ++ q) :
    ∃ nl, (∀ c ∈ nl, c = '\n') ∧
      f.line? (1 + p.count '\n') = some (String.ofList (Text.lineBefore p ++ Text.lineBehind q ++ nl)) := by
  obtain ⟨nl, hnl, hline⟩ := Text.getElem?_lines_append p q
  exact ⟨nl, hnl, by rw [Nat.add_comm, line?_eq, h, hline, Option.map_some]⟩

end SourceFile

/-! ## Marked lines -/

namespace Text

theorem byteLength_lineBehind_le (cs : List Char) : byteLength (lineBehind cs) ≤ byteLength cs := by
  obtain ⟨rest, h⟩ := List.takeWhile_prefix (p := (· != '\n')) (l := cs)
  have := congrArg byteLength h
  rw [byteLength_append] at this
  rw [lineBehind]
  omega

theorem byteLength_lineBefore_le (cs : List Char) : byteLength (lineBefore cs) ≤ byteLength cs := by
  have h := bytesSinceNewline_le (bytes cs)
  rwa [bytesSinceNewline_bytes, length_bytes] at h

/-- The part of a line that a text covers ends where the text ends, or where the line ends. -/
theorem exists_lineBehind_append (m q : List Char) :
    ∃ rest, lineBehind (m ++ q) = lineBehind m ++ rest ∧
      min (byteLength m) (byteLength (lineBehind m ++ rest)) = byteLength (lineBehind m) := by
  rw [lineBehind_append]
  by_cases hm : '\n' ∈ m
  · have := byteLength_lineBehind_le m
    exact ⟨[], by rw [if_pos hm, List.append_nil], by rw [List.append_nil]; omega⟩
  · have hself : lineBehind m = m := by
      have := lineBehind_append m []
      rw [if_neg hm, List.append_nil] at this
      rw [this, lineBehind, List.takeWhile_nil, List.append_nil]
    refine ⟨lineBehind q, by rw [if_neg hm, hself], ?_⟩
    rw [hself, byteLength_append]
    omega

/-- The first bytes of a text begin it. -/
theorem prefix_of_takeBytes? {n : Nat} {cs front : List Char} (h : takeBytes? n cs = some front) : front <+: cs := by
  induction cs generalizing n front with
  | nil =>
    cases n with
    | zero =>
      rw [takeBytes?, Option.some.injEq] at h
      exact h ▸ List.prefix_rfl
    | succ n =>
      rw [takeBytes?] at h
      cases h
  | cons c cs ih =>
    cases n with
    | zero =>
      rw [takeBytes?, Option.some.injEq] at h
      exact h ▸ List.nil_prefix
    | succ n =>
      rw [takeBytes?] at h
      split at h
      · obtain ⟨rest, hrest, rfl⟩ := Option.map_eq_some_iff.1 h
        exact List.cons_prefix_cons.2 ⟨rfl, ih hrest⟩
      · cases h

theorem eq_nil_of_byteLength {cs : List Char} (h : byteLength cs = 0) : cs = [] := by
  cases cs with
  | nil => rfl
  | cons c cs =>
    have := c.utf8Size_pos
    rw [byteLength] at h
    omega

/-- A text with two boundaries between characters falls into three. -/
theorem exists_append_of_isValid {s : String} {start stop : Nat} (hstart : String.Pos.Raw.IsValid s ⟨start⟩)
    (hstop : String.Pos.Raw.IsValid s ⟨stop⟩) (hle : start ≤ stop) :
    ∃ p m q, s.toList = p ++ (m ++ q) ∧ start = byteLength p ∧ stop = byteLength p + byteLength m := by
  obtain ⟨a, b, hab, ha⟩ := String.Pos.Raw.isValid_iff_exists_append.1 hstart
  obtain ⟨c, d, hcd, hc⟩ := String.Pos.Raw.isValid_iff_exists_append.1 hstop
  have ha' : start = byteLength a.toList := by
    rw [byteLength_toList]
    exact congrArg String.Pos.Raw.byteIdx ha
  have hc' : stop = byteLength c.toList := by
    rw [byteLength_toList]
    exact congrArg String.Pos.Raw.byteIdx hc
  have hab' : s.toList = a.toList ++ b.toList := by rw [hab, String.toList_append]
  have hcd' : s.toList = c.toList ++ d.toList := by rw [hcd, String.toList_append]
  rcases List.prefix_or_prefix_of_prefix ⟨b.toList, hab'.symm⟩ ⟨d.toList, hcd'.symm⟩ with ⟨m, hm⟩ | ⟨m, hm⟩
  · refine ⟨a.toList, m, d.toList, ?_, ha', ?_⟩
    · rw [hcd', ← hm, List.append_assoc]
    · rw [hc', ← hm, byteLength_append]
  · -- The later boundary is no earlier, so it is the same one.
    have hnil : m = [] := by
      have := congrArg byteLength hm
      rw [byteLength_append] at this
      exact eq_nil_of_byteLength (by omega)
    rw [hnil, List.append_nil] at hm
    refine ⟨a.toList, [], b.toList, hab', ha', ?_⟩
    rw [hc', hm, byteLength, Nat.add_zero]

end Text

/-- A line with its number, and carets below it behind as many blanks. -/
def markedLine (number : Nat) (shown : List Char) (blanks carets : Nat) (message : String) : String :=
  Text.padLeft 4 ' ' (toString number) ++ " | " ++ String.ofList shown ++ "\n" ++
    "     | " ++ repeated blanks ' ' ++ repeated carets '^' ++ " " ++ message

theorem charsBefore_le (line : List Char) (offset : Nat) : charsBefore line offset ≤ line.length := by
  unfold charsBefore
  cases h : Text.takeBytes? offset line with
  | none => exact Nat.zero_le _
  | some cs => exact (Text.prefix_of_takeBytes? h).length_le

theorem one_le_caretCount (line : List Char) (start stop : Nat) : 1 ≤ caretCount line start stop := by
  unfold caretCount
  split <;> omega

/-- How many bytes an offset lies behind the start of a line, cut at the end of what is shown. -/
def bytesInLine (lineStart offset : Nat) (shown : List Char) : Nat :=
  min (offset - lineStart) (Text.byteLength shown)

section

variable {files : SourceFiles} {file : SourceFile} {span : Span}

/-- What is shown of a place whose line is known. -/
theorem snippet_of_line (hfile : files.fileOf? span = some file) {place : LineCol} {line : String}
    (hplace : file.lineCol? span.start = some place) (hline : file.line? place.line = some line) {shown : List Char}
    (hshown : Text.trimNewlines line.toList = shown) {lineStart : Nat} (hstart : span.start + 1 - place.column = lineStart)
    (message : String) :
    snippet span message files =
      markedLine place.line shown (charsBefore shown (bytesInLine lineStart span.start shown))
        (caretCount shown (bytesInLine lineStart span.start shown) (bytesInLine lineStart span.stop shown)) message := by
  subst hshown hstart
  rw [snippet, hfile]
  dsimp only
  rw [hplace]
  dsimp only
  rw [hline]
  rfl

/-- The carets under a part of a text, which may end in a later line. -/
theorem snippet_eq_markedLine (hfile : files.fileOf? span = some file) {p m q : List Char}
    (htext : file.text.toList = p ++ (m ++ q)) (hstart : span.start = Text.byteLength p)
    (hstop : span.stop = Text.byteLength p + Text.byteLength m) (message : String) :
    snippet span message files =
      markedLine (1 + p.count '\n') (Text.lineBefore p ++ Text.lineBehind (m ++ q)) (Text.lineBefore p).length
        (max (Text.lineBehind m).length 1) message := by
  obtain ⟨nl, hnl, hline⟩ := SourceFile.line?_of_append htext
  have hplace := SourceFile.lineCol?_of_append htext
  rw [← hstart] at hplace
  have hnone : '\n' ∉ Text.lineBefore p ++ Text.lineBehind (m ++ q) := by
    rw [List.mem_append, not_or]
    exact ⟨Text.newline_notMem_lineBefore p, Text.newline_notMem_lineBehind _⟩
  have hshown : Text.trimNewlines (String.ofList (Text.lineBefore p ++ Text.lineBehind (m ++ q) ++ nl)).toList =
      Text.lineBefore p ++ Text.lineBehind (m ++ q) := by
    rw [String.toList_ofList, Text.trimNewlines_append hnone hnl]
  have hle := Text.byteLength_lineBefore_le p
  have hlineStart : span.start + 1 - (1 + Text.byteLength (Text.lineBefore p)) =
      Text.byteLength p - Text.byteLength (Text.lineBefore p) := by
    omega
  obtain ⟨rest, hbehind, hmin⟩ := Text.exists_lineBehind_append m q
  rw [Text.byteLength_append] at hmin
  have hfrom : bytesInLine (Text.byteLength p - Text.byteLength (Text.lineBefore p)) span.start
      (Text.lineBefore p ++ (Text.lineBehind m ++ rest)) = Text.byteLength (Text.lineBefore p) := by
    rw [bytesInLine, Text.byteLength_append, hstart]
    omega
  have hto : bytesInLine (Text.byteLength p - Text.byteLength (Text.lineBefore p)) span.stop
      (Text.lineBefore p ++ (Text.lineBehind m ++ rest)) =
        Text.byteLength (Text.lineBefore p) + Text.byteLength (Text.lineBehind m) := by
    rw [bytesInLine, Text.byteLength_append, Text.byteLength_append, hstop]
    omega
  rw [snippet_of_line hfile hplace hline hshown hlineStart, hbehind, hfrom, hto, charsBefore, Text.takeBytes?_append,
    caretCount, Text.slice?_append]

/-- A place in the text is shown, and there are carets, whatever the end of it is. -/
theorem exists_snippet_eq_markedLine (hfile : files.fileOf? span = some file) (h : span.start ≤ file.text.utf8ByteSize) :
    ∃ place line, file.lineCol? span.start = some place ∧ file.line? place.line = some line ∧
      place.column ≤ span.start + 1 ∧ file.lineStarts[place.line - 1]? = some (span.start + 1 - place.column) ∧
      ∃ blanks carets, blanks ≤ (Text.trimNewlines line.toList).length ∧ 1 ≤ carets ∧ ∀ message,
        snippet span message files = markedLine place.line (Text.trimNewlines line.toList) blanks carets message := by
  obtain ⟨place, line, hplace, hline, hcolumn, hstart⟩ := file.exists_line_of_le h
  exact ⟨place, line, hplace, hline, hcolumn, hstart, _, _, charsBefore_le _ _, one_le_caretCount _ _ _,
    snippet_of_line hfile hplace hline rfl rfl⟩

/-- What is shown of a place. If the place starts in the text, its line is there, starts as many bytes in front of the place as the
column says, and is shown over at least one caret that stands no further than behind its end. If the place lies between characters,
the line is the one around its start; there is a blank for each character of the line in front of the place and a caret for each
character of the place in this line, but at least one. -/
theorem snippet_marks (hfile : files.fileOf? span = some file) (h : span.start ≤ file.text.utf8ByteSize) (message : String) :
    (∃ place line, file.lineCol? span.start = some place ∧ file.line? place.line = some line ∧
      place.column ≤ span.start + 1 ∧ file.lineStarts[place.line - 1]? = some (span.start + 1 - place.column) ∧
      ∃ blanks carets, blanks ≤ (Text.trimNewlines line.toList).length ∧ 1 ≤ carets ∧
        snippet span message files = markedLine place.line (Text.trimNewlines line.toList) blanks carets message) ∧
    (String.Pos.Raw.IsValid file.text ⟨span.start⟩ → String.Pos.Raw.IsValid file.text ⟨span.stop⟩ → span.start ≤ span.stop →
      ∃ p m q : List Char, file.text.toList = p ++ (m ++ q) ∧ span.start = Text.byteLength p ∧
        span.stop = Text.byteLength p + Text.byteLength m ∧
        snippet span message files =
          markedLine (1 + p.count '\n') (Text.lineBefore p ++ Text.lineBehind (m ++ q)) (Text.lineBefore p).length
            (max (Text.lineBehind m).length 1) message) := by
  constructor
  · obtain ⟨place, line, hplace, hline, hcolumn, hstart, blanks, carets, hblanks, hcarets, hs⟩ :=
      exists_snippet_eq_markedLine hfile h
    exact ⟨place, line, hplace, hline, hcolumn, hstart, blanks, carets, hblanks, hcarets, hs message⟩
  · intro hstart hstop hle
    obtain ⟨p, m, q, htext, hp, hm⟩ := Text.exists_append_of_isValid hstart hstop hle
    exact ⟨p, m, q, htext, hp, hm, snippet_eq_markedLine hfile htext hp hm message⟩

/-- A place that starts behind a character of two bytes and ends in the line behind its own. -/
theorem snippet_marks_accent :
    let files : SourceFiles := ⟨[⟨"main.cl", "é ab\nc"⟩]⟩
    let text : List Char := "é ab\nc".toList
    ∃ p m q : List Char, text = p ++ (m ++ q) ∧ 3 = Text.byteLength p ∧ 7 = Text.byteLength p + Text.byteLength m ∧
      snippet ⟨some 0, 3, 7⟩ "here" files =
        markedLine (1 + p.count '\n') (Text.lineBefore p ++ Text.lineBehind (m ++ q)) (Text.lineBefore p).length
          (max (Text.lineBehind m).length 1) "here" := by
  intro files text
  have hfile : files.fileOf? ⟨some 0, 3, 7⟩ = some ⟨"main.cl", "é ab\nc"⟩ := rfl
  exact (snippet_marks hfile (by decide) "here").2 (by decide) (by decide) (by decide)

/-- Two carets stand under `ab`, as far from the start of the line as there are characters in front of it. -/
example : snippet ⟨some 0, 3, 7⟩ "here" ⟨[⟨"main.cl", "é ab\nc"⟩]⟩ = "   1 | é ab\n     |   ^^ here" := by
  decide +kernel

end

end NavCheck
