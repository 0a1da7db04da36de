import Mathlib.Data.List.Induction
import NavCheck.Proofs.Places.Sources

/-!
# Lines of source files

Where the lines of a text start is found out once, and an offset is looked up among these starts. Here the same is said without
them, by the bytes in front of the offset: how many of them are line feeds, and how many stand behind the last line feed. A byte of
a line feed is never part of another character, so this holds inside of characters as well. The lines themselves are the text, cut
behind each line feed.
-/

namespace NavCheck

/-! ## Bytes of characters -/

/-- The byte of a line feed. -/
def newlineByte : UInt8 := 10

/-- The bytes of a text. -/
def Text.bytes (cs : List Char) : List UInt8 :=
  cs.flatMap String.utf8EncodeChar

namespace Text

theorem length_bytes (cs : List Char) : (bytes cs).length = byteLength cs := by
  induction cs with
  | nil => rfl
  | cons c cs ih =>
    have hc : bytes (c :: cs) = String.utf8EncodeChar c ++ bytes cs := rfl
    rw [hc, List.length_append, String.length_utf8EncodeChar, ih, byteLength]

/-- The bytes of the UTF-8 form of a text. -/
theorem bytes_toList (s : String) : bytes s.toList = s.toUTF8.data.toList := by
  have h : s.toUTF8 = s.toList.utf8Encode := by
    rw [← String.toByteArray_ofList, String.ofList_toList]
    rfl
  rw [h, List.utf8Encode, List.data_toByteArray]
  rfl

/-- A byte without the top bit is the only byte of its character. -/
theorem toNat_of_mem_utf8EncodeChar {c : Char} {b : UInt8} (h : b ∈ String.utf8EncodeChar c) (hb : b.toNat < 128) :
    b.toNat = c.toNat := by
  have value : ∀ n : Nat, b = UInt8.ofNat n → b.toNat = n % 256 := by
    intro n hn
    rw [hn, UInt8.toNat_ofNat']
  have hc : c.toNat = c.val.toNat := rfl
  unfold String.utf8EncodeChar at h
  simp only at h
  by_cases h1 : c.val.toNat ≤ 127
  · rw [if_pos h1, List.mem_singleton] at h
    have := value _ h
    omega
  rw [if_neg h1] at h
  by_cases h2 : c.val.toNat ≤ 2047
  · rw [if_pos h2] at h
    simp only [List.mem_cons, List.not_mem_nil, or_false] at h
    rcases h with h | h
    all_goals
      have := value _ h
      omega
  rw [if_neg h2] at h
  by_cases h3 : c.val.toNat ≤ 65535
  · rw [if_pos h3] at h
    simp only [List.mem_cons, List.not_mem_nil, or_false] at h
    rcases h with h | h | h
    all_goals
      have := value _ h
      omega
  · rw [if_neg h3] at h
    simp only [List.mem_cons, List.not_mem_nil, or_false] at h
    rcases h with h | h | h | h
    all_goals
      have := value _ h
      omega

/-- The byte of a line feed occurs in no other character. -/
theorem newlineByte_mem_utf8EncodeChar {c : Char} (h : newlineByte ∈ String.utf8EncodeChar c) : c = '\n' := by
  have hn : newlineByte.toNat = c.toNat := toNat_of_mem_utf8EncodeChar h (by decide)
  exact Char.ext (UInt32.toNat_inj.1 hn.symm)

theorem utf8EncodeChar_newline : String.utf8EncodeChar '\n' = [newlineByte] := by decide

end Text

/-! ## Starts of lines -/

/-- Where lines start in bytes that begin at `offset`, but for the first line. -/
def startsBehind (offset : Nat) : List UInt8 → List Nat
  | [] => []
  | b :: bs => if b = newlineByte then (offset + 1) :: startsBehind (offset + 1) bs else startsBehind (offset + 1) bs

theorem startsBehind_append (offset : Nat) (bs cs : List UInt8) :
    startsBehind offset (bs ++ cs) = startsBehind offset bs ++ startsBehind (offset + bs.length) cs := by
  induction bs generalizing offset with
  | nil => simp [startsBehind]
  | cons b bs ih =>
    have hl : offset + (b :: bs).length = offset + 1 + bs.length := by
      simp only [List.length_cons]
      omega
    rw [hl]
    by_cases hb : b = newlineByte
    · simp [startsBehind, hb, ih]
    · simp [startsBehind, hb, ih]

theorem startsBehind_eq_nil {offset : Nat} {bs : List UInt8} (h : newlineByte ∉ bs) : startsBehind offset bs = [] := by
  induction bs generalizing offset with
  | nil => rfl
  | cons b bs ih =>
    rw [List.mem_cons, not_or] at h
    rw [startsBehind, if_neg (Ne.symm h.1), ih h.2]

/-- Lines start where their bytes say. -/
theorem laterLineStarts_eq (offset : Nat) (cs : List Char) : laterLineStarts offset cs = startsBehind offset (Text.bytes cs) := by
  induction cs generalizing offset with
  | nil => rfl
  | cons c cs ih =>
    have hc : Text.bytes (c :: cs) = String.utf8EncodeChar c ++ Text.bytes cs := rfl
    rw [laterLineStarts, hc, startsBehind_append, String.length_utf8EncodeChar]
    by_cases h : c = '\n'
    · subst h
      rw [if_pos rfl, ih, Text.utf8EncodeChar_newline]
      rfl
    · rw [if_neg h, ih, startsBehind_eq_nil (mt Text.newlineByte_mem_utf8EncodeChar h), List.nil_append]

theorem length_startsBehind (offset : Nat) (bs : List UInt8) : (startsBehind offset bs).length = bs.count newlineByte := by
  induction bs generalizing offset with
  | nil => rfl
  | cons b bs ih =>
    by_cases hb : b = newlineByte
    · simp [startsBehind, hb, ih]
    · simp [startsBehind, hb, ih]

theorem lt_of_mem_startsBehind {offset start : Nat} {bs : List UInt8} (h : start ∈ startsBehind offset bs) : offset < start := by
  induction bs generalizing offset with
  | nil => simp [startsBehind] at h
  | cons b bs ih =>
    by_cases hb : b = newlineByte
    · simp only [startsBehind, hb, if_true, List.mem_cons] at h
      rcases h with rfl | h
      · omega
      · have := ih h
        omega
    · simp only [startsBehind, hb, if_false] at h
      have := ih h
      omega

/-- The lines that start no later than an offset start in the bytes in front of it. -/
theorem takeWhile_startsBehind (offset count : Nat) (bs : List UInt8) :
    (startsBehind offset bs).takeWhile (· ≤ offset + count) = startsBehind offset (bs.take count) := by
  induction bs generalizing offset count with
  | nil => simp [startsBehind]
  | cons b bs ih =>
    cases count with
    | zero =>
      rw [List.take_zero, startsBehind, List.takeWhile_eq_nil_iff]
      intro hl
      have := lt_of_mem_startsBehind (List.get_mem _ ⟨0, hl⟩)
      simp only [Nat.add_zero, decide_eq_true_eq]
      omega
    | succ count =>
      have hs : offset + (count + 1) = offset + 1 + count := by omega
      by_cases hb : b = newlineByte
      · simp [startsBehind, hb, hs, ih]
      · simp [startsBehind, hb, hs, ih]

/-- How many bytes stand behind the last line feed. -/
def bytesSinceNewline (bs : List UInt8) : Nat :=
  (bs.reverse.takeWhile (· != newlineByte)).length

/-- Bytes without a line feed put the last line feed further back. -/
theorem bytesSinceNewline_append {cs : List UInt8} (h : newlineByte ∉ cs) (bs : List UInt8) :
    bytesSinceNewline (bs ++ cs) = bytesSinceNewline bs + cs.length := by
  have hall : ∀ x ∈ cs.reverse, (x != newlineByte) = true := by
    intro x hx
    rw [List.mem_reverse] at hx
    exact bne_iff_ne.2 fun he => h (he ▸ hx)
  rw [bytesSinceNewline, List.reverse_append, List.takeWhile_append_of_pos hall, List.length_append, List.length_reverse,
    Nat.add_comm]
  rfl

theorem bytesSinceNewline_le (bs : List UInt8) : bytesSinceNewline bs ≤ bs.length := by
  have h := (List.takeWhile_prefix (p := (· != newlineByte)) (l := bs.reverse)).length_le
  rw [List.length_reverse] at h
  exact h

/-- The last line starts where the bytes behind the last line feed begin. -/
theorem getLast_startsBehind (bs : List UInt8) :
    (0 :: startsBehind 0 bs).getLast (List.cons_ne_nil _ _) + bytesSinceNewline bs = bs.length := by
  induction bs using List.reverseRecOn with
  | nil => rfl
  | append_singleton bs b ih =>
    by_cases hb : b = newlineByte
    · have hstarts : 0 :: startsBehind 0 (bs ++ [b]) = (0 :: startsBehind 0 bs) ++ [bs.length + 1] := by
        simp [startsBehind_append, startsBehind, hb]
      simp only [hstarts, List.getLast_concat]
      simp [bytesSinceNewline, hb]
    · have hone : bytesSinceNewline (bs ++ [b]) = bytesSinceNewline bs + 1 := by
        simp [bytesSinceNewline, hb]
      have hstarts : startsBehind 0 (bs ++ [b]) = startsBehind 0 bs := by
        simp [startsBehind_append, startsBehind, hb]
      simp only [hstarts, hone, List.length_append, List.length_singleton]
      omega

/-! ## Lines and columns -/

/-- One place in a text stands before another: in an earlier line, or in the same line in an earlier column. -/
def LineCol.Before (a b : LineCol) : Prop :=
  a.line < b.line ∨ a.line = b.line ∧ a.column < b.column

namespace SourceFile

variable (f : SourceFile)

/-- The bytes of the text in front of an offset. -/
def bytesBefore (offset : Nat) : List UInt8 :=
  f.text.toUTF8.data.toList.take offset

theorem length_bytesBefore {offset : Nat} (h : offset ≤ f.text.utf8ByteSize) : (f.bytesBefore offset).length = offset := by
  rw [bytesBefore, ← Text.bytes_toList, List.length_take, Text.length_bytes, Text.byteLength_toList]
  omega

theorem size_eq : f.size = f.text.utf8ByteSize :=
  Text.byteLength_toList f.text

/-- The lines that start no later than an offset. -/
theorem takeWhile_lineStarts (offset : Nat) :
    f.lineStarts.takeWhile (· ≤ offset) = 0 :: startsBehind 0 (f.bytesBefore offset) := by
  have h := takeWhile_startsBehind 0 offset (Text.bytes f.text.toList)
  rw [Nat.zero_add] at h
  rw [lineStarts, List.takeWhile_cons_of_pos (by simp), laterLineStarts_eq, h, bytesBefore, Text.bytes_toList]

theorem lineCol?_eq_none {offset : Nat} (h : f.text.utf8ByteSize < offset) : f.lineCol? offset = none := by
  rw [lineCol?, size_eq, if_pos h]

/-- The line of an offset counts the line feeds in front of it, and the column the bytes behind the last of them. -/
theorem lineCol?_eq_some {offset : Nat} (h : offset ≤ f.text.utf8ByteSize) :
    f.lineCol? offset =
      some ⟨1 + (f.bytesBefore offset).count newlineByte, 1 + bytesSinceNewline (f.bytesBefore offset)⟩ := by
  have hlast := getLast_startsBehind (f.bytesBefore offset)
  rw [f.length_bytesBefore h] at hlast
  rw [lineCol?, size_eq, if_neg (by omega), takeWhile_lineStarts]
  simp only [List.length_cons, length_startsBehind, List.getLast?_eq_some_getLast (List.cons_ne_nil _ _), Option.getD_some,
    Option.some.injEq, LineCol.mk.injEq]
  omega

/-- Further on in a text the line is later, or it is the same and the column is later. -/
theorem before_of_lt {a b : Nat} (hab : a < b) (hb : b ≤ f.text.utf8ByteSize) :
    ∃ p q, f.lineCol? a = some p ∧ f.lineCol? b = some q ∧ p.Before q := by
  refine ⟨_, _, f.lineCol?_eq_some (by omega), f.lineCol?_eq_some hb, ?_⟩
  obtain ⟨between, hbetween⟩ : ∃ between, f.bytesBefore b = f.bytesBefore a ++ between := by
    have hp : f.bytesBefore a <+: f.bytesBefore b := List.take_prefix_take_left (by omega)
    obtain ⟨between, h⟩ := hp
    exact ⟨between, h.symm⟩
  have hlength : between.length = b - a := by
    have := congrArg List.length hbetween
    rw [List.length_append, f.length_bytesBefore hb, f.length_bytesBefore (by omega)] at this
    omega
  unfold LineCol.Before
  simp only [hbetween, List.count_append]
  by_cases hn : newlineByte ∈ between
  · have := List.count_pos_iff.2 hn
    left
    omega
  · right
    have hc : between.count newlineByte = 0 := List.count_eq_zero.2 hn
    have hs := bytesSinceNewline_append hn (f.bytesBefore a)
    omega

end SourceFile

/-! ## Lines -/

/-- A text cut behind each line feed; there is always a last line, which may be empty. -/
def Text.lines : List Char → List (List Char)
  | [] => [[]]
  | c :: cs =>
    if c = '\n' then [c] :: lines cs
    else
      match lines cs with
      | [] => [[c]]
      | l :: ls => (c :: l) :: ls

namespace Text

theorem lines_newline (cs : List Char) : lines ('\n' :: cs) = ['\n'] :: lines cs := by
  rw [lines, if_pos rfl]

theorem lines_ne_nil (cs : List Char) : lines cs ≠ [] := by
  cases cs with
  | nil => simp [lines]
  | cons c cs =>
    rw [lines]
    split
    · simp
    · split <;> simp

theorem lines_cons {c : Char} (hc : c ≠ '\n') {cs l : List Char} {ls : List (List Char)} (h : lines cs = l :: ls) :
    lines (c :: cs) = (c :: l) :: ls := by
  rw [lines, if_neg hc, h]

/-- Put together the lines are the text. -/
theorem flatten_lines (cs : List Char) : (lines cs).flatten = cs := by
  induction cs with
  | nil => rfl
  | cons c cs ih =>
    by_cases hc : c = '\n'
    · subst hc
      rw [lines_newline, List.flatten_cons, ih, List.singleton_append]
    · obtain ⟨l, ls, hl⟩ := List.exists_cons_of_ne_nil (lines_ne_nil cs)
      rw [hl, List.flatten_cons] at ih
      rw [lines_cons hc hl, List.flatten_cons, List.cons_append, ih]

/-- There is one line more than there are line feeds. -/
theorem length_lines (cs : List Char) : (lines cs).length = cs.count '\n' + 1 := by
  induction cs with
  | nil => rfl
  | cons c cs ih =>
    by_cases hc : c = '\n'
    · subst hc
      simp [lines_newline, ih]
    · obtain ⟨l, ls, hl⟩ := List.exists_cons_of_ne_nil (lines_ne_nil cs)
      rw [hl, List.length_cons] at ih
      simp [lines_cons hc hl, hc, ih]

/-- A part of a text that is put together from parts. -/
theorem slice?_flatten (parts : List (List Char)) {i : Nat} (hi : i < parts.length) :
    slice? (byteLength (parts.take i).flatten) (byteLength (parts.take (i + 1)).flatten) parts.flatten = some parts[i] := by
  have hfront : (parts.take (i + 1)).flatten = (parts.take i).flatten ++ parts[i] := by
    rw [List.take_succ_eq_append_getElem hi, List.flatten_append, List.flatten_singleton]
  have hsplit : parts.flatten = (parts.take i).flatten ++ (parts[i] ++ (parts.drop (i + 1)).flatten) := by
    rw [← List.append_assoc, ← hfront, ← List.flatten_append, List.take_append_drop]
  rw [hsplit, hfront, byteLength_append, slice?_append]

end Text

/-- A line starts behind the lines in front of it. -/
theorem getElem?_lineStarts (offset : Nat) (cs : List Char) (i : Nat) :
    (offset :: laterLineStarts offset cs)[i]? =
      if i < (Text.lines cs).length then some (offset + Text.byteLength ((Text.lines cs).take i).flatten) else none := by
  induction cs generalizing offset i with
  | nil =>
    cases i with
    | zero => rfl
    | succ i => simp [laterLineStarts, Text.lines]
  | cons c cs ih =>
    by_cases hc : c = '\n'
    · subst hc
      rw [laterLineStarts, if_pos rfl, Text.lines_newline]
      cases i with
      | zero => simp [Text.byteLength]
      | succ i => simp [ih, Text.byteLength, Nat.add_assoc]
    · obtain ⟨l, ls, hl⟩ := List.exists_cons_of_ne_nil (Text.lines_ne_nil cs)
      rw [laterLineStarts, if_neg hc, Text.lines_cons hc hl]
      cases i with
      | zero => simp [Text.byteLength]
      | succ i =>
        have h := ih (offset + c.utf8Size) (i + 1)
        rw [hl, List.getElem?_cons_succ] at h
        rw [List.getElem?_cons_succ, h]
        simp [Text.byteLength, Nat.add_assoc]

namespace SourceFile

variable (f : SourceFile)

/-- The lines of the text by their numbers. -/
theorem line?_eq (i : Nat) : f.line? (i + 1) = (Text.lines f.text.toList)[i]?.map String.ofList := by
  have hstart := getElem?_lineStarts 0 f.text.toList i
  have hstop := getElem?_lineStarts 0 f.text.toList (i + 1)
  unfold line? lineStarts
  rw [Nat.add_sub_cancel, hstart, hstop]
  by_cases hi : i < (Text.lines f.text.toList).length
  · have hend : (if i + 1 < (Text.lines f.text.toList).length then
          some (0 + Text.byteLength ((Text.lines f.text.toList).take (i + 1)).flatten) else none).getD f.size =
        Text.byteLength ((Text.lines f.text.toList).take (i + 1)).flatten := by
      by_cases hnext : i + 1 < (Text.lines f.text.toList).length
      · rw [if_pos hnext, Option.getD_some, Nat.zero_add]
      · rw [if_neg hnext, Option.getD_none, size, List.take_of_length_le (by omega), Text.flatten_lines]
    have hslice := Text.slice?_flatten _ hi
    rw [Text.flatten_lines] at hslice
    rw [if_pos hi, hend, Nat.zero_add]
    dsimp only
    rw [hslice, List.getElem?_eq_getElem hi]
  · rw [if_neg hi, List.getElem?_eq_none (by omega)]
    rfl

end SourceFile

/-! ## Searching for a line -/

/-- What a search for a number among ascending numbers may answer: where the number stands, or else where it would have to be put
in. -/
def AnswersSearch (starts : List Nat) (offset : Nat) : Except Nat Nat → Prop
  | .ok i => starts[i]? = some offset
  | .error i => i ≤ starts.length ∧ (∀ start ∈ starts.take i, start < offset) ∧ ∀ start ∈ starts.drop i, offset < start

/-- Where an ascending list goes beyond a number. -/
theorem takeWhile_le_eq_take {starts : List Nat} {offset i : Nat} (hle : ∀ start ∈ starts.take i, start ≤ offset)
    (hlt : ∀ start ∈ starts.drop i, offset < start) : starts.takeWhile (· ≤ offset) = starts.take i := by
  conv_lhs => rw [← List.take_append_drop i starts]
  rw [List.takeWhile_append_of_pos (by simpa using hle)]
  have hnil : (starts.drop i).takeWhile (· ≤ offset) = [] := by
    rw [List.takeWhile_eq_nil_iff]
    intro h
    have := hlt _ (List.get_mem _ ⟨0, h⟩)
    simp only [decide_eq_true_eq]
    omega
  rw [hnil, List.append_nil]

theorem pairwise_startsBehind (offset : Nat) (bs : List UInt8) : (startsBehind offset bs).Pairwise (· < ·) := by
  induction bs generalizing offset with
  | nil => exact List.Pairwise.nil
  | cons b bs ih =>
    by_cases hb : b = newlineByte
    · simp only [startsBehind, hb, if_true, List.pairwise_cons]
      exact ⟨fun start h => lt_of_mem_startsBehind h, ih _⟩
    · simp only [startsBehind, hb, if_false]
      exact ih _

namespace SourceFile

variable (f : SourceFile)

/-- Lines start one behind the other. -/
theorem pairwise_lineStarts : f.lineStarts.Pairwise (· < ·) := by
  rw [lineStarts, laterLineStarts_eq, List.pairwise_cons]
  exact ⟨fun start h => lt_of_mem_startsBehind h, pairwise_startsBehind _ _⟩

/-- The lines up to one that starts at `start` start no later than it, and the lines behind it start later. -/
theorem lineStarts_around {index start : Nat} (h : f.lineStarts[index]? = some start) :
    (∀ s ∈ f.lineStarts.take (index + 1), s ≤ start) ∧ ∀ s ∈ f.lineStarts.drop (index + 1), start < s := by
  obtain ⟨hlt, hget⟩ := List.getElem?_eq_some_iff.1 h
  have ascending := List.pairwise_iff_getElem.1 f.pairwise_lineStarts
  constructor
  · intro s hs
    obtain ⟨i, hi, rfl⟩ := List.getElem_of_mem hs
    rw [List.length_take] at hi
    rw [List.getElem_take, ← hget]
    rcases Nat.lt_or_ge i index with hless | hmore
    · exact Nat.le_of_lt (ascending i index _ hlt hless)
    · obtain rfl : i = index := by omega
      exact Nat.le_refl _
  · intro s hs
    obtain ⟨i, hi, rfl⟩ := List.getElem_of_mem hs
    rw [List.length_drop] at hi
    rw [List.getElem_drop, ← hget]
    exact ascending _ _ _ _ (by omega)

/-- The place of an offset, when the last line that starts no later is known. -/
theorem lineCol?_of_takeWhile {offset index start : Nat} (h : offset ≤ f.text.utf8ByteSize)
    (hstart : f.lineStarts[index]? = some start) (htake : f.lineStarts.takeWhile (· ≤ offset) = f.lineStarts.take (index + 1)) :
    f.lineCol? offset = some ⟨index + 1, offset - start + 1⟩ := by
  obtain ⟨hlt, hget⟩ := List.getElem?_eq_some_iff.1 hstart
  rw [lineCol?, size_eq, if_neg (by omega), htake]
  simp only [List.take_succ_eq_append_getElem hlt, List.getLast?_concat, Option.getD_some, List.length_append,
    List.length_take, List.length_singleton, hget, Option.some.injEq, LineCol.mk.injEq, and_true]
  omega

/-- However the start of the line is searched for: an offset that is found starts its line, and one that is not found lies in the
line in front of the place where it would have to be put in. -/
theorem lineCol?_of_answersSearch {offset : Nat} (h : offset ≤ f.text.utf8ByteSize) {answer : Except Nat Nat}
    (ha : AnswersSearch f.lineStarts offset answer) :
    ∃ index start, (answer = .ok index ∨ answer = .error (index + 1)) ∧ f.lineStarts[index]? = some start ∧
      f.lineCol? offset = some ⟨index + 1, offset - start + 1⟩ := by
  cases answer with
  | ok index =>
    have hstart : f.lineStarts[index]? = some offset := ha
    obtain ⟨hle, hlt⟩ := f.lineStarts_around hstart
    exact ⟨index, offset, .inl rfl, hstart, f.lineCol?_of_takeWhile h hstart (takeWhile_le_eq_take hle hlt)⟩
  | error i =>
    obtain ⟨hi, hless, hmore⟩ := ha
    have hne : i ≠ 0 := by
      rintro rfl
      -- the first line starts at zero, which is not behind the offset
      have := hmore 0 List.mem_cons_self
      omega
    obtain ⟨index, rfl⟩ := Nat.exists_eq_succ_of_ne_zero hne
    have hlt : index < f.lineStarts.length := by omega
    have hstart : f.lineStarts[index]? = some f.lineStarts[index] := List.getElem?_eq_getElem hlt
    have htake := takeWhile_le_eq_take (fun start hs => Nat.le_of_lt (hless start hs)) hmore
    exact ⟨index, f.lineStarts[index], .inr rfl, hstart, f.lineCol?_of_takeWhile h hstart htake⟩

/-! ## The whole mapping -/

/-- The way from offsets to lines and columns and back to the text. An offset in the text, also one inside of a character, is in the
line behind as many line feeds as there are in front of it, in the column behind as many bytes as there are since the last of them;
behind the text there is nothing. Places are ordered as their offsets are, and the lines by their numbers make up the text. -/
theorem lines_mapped :
    (∀ offset, f.text.utf8ByteSize < offset → f.lineCol? offset = none) ∧
    (∀ offset, offset ≤ f.text.utf8ByteSize → f.lineCol? offset =
      some ⟨1 + (f.bytesBefore offset).count newlineByte, 1 + bytesSinceNewline (f.bytesBefore offset)⟩) ∧
    (∀ a b p q, a < b → f.lineCol? a = some p → f.lineCol? b = some q → p.Before q) ∧
    ∃ lines : List String, lines.length = f.text.toList.count '\n' + 1 ∧
      (∀ i, f.line? (i + 1) = lines[i]?) ∧ String.join lines = f.text := by
  refine ⟨fun _ => f.lineCol?_eq_none, fun _ => f.lineCol?_eq_some, ?_, ?_⟩
  · intro a b p q hab hp hq
    have hb : b ≤ f.text.utf8ByteSize := by
      by_contra hb
      rw [f.lineCol?_eq_none (by omega)] at hq
      cases hq
    obtain ⟨p', q', hp', hq', hbefore⟩ := f.before_of_lt hab hb
    rw [hp] at hp'
    rw [hq] at hq'
    cases hp'
    cases hq'
    exact hbefore
  · refine ⟨(Text.lines f.text.toList).map String.ofList, ?_, ?_, ?_⟩
    · rw [List.length_map, Text.length_lines]
    · intro i
      rw [line?_eq, List.getElem?_map]
    · rw [← String.toList_inj, String.toList_join, List.flatMap_map]
      simp only [String.toList_ofList]
      rw [List.flatMap_id', Text.flatten_lines]

/-- A text of two lines with a character of two bytes: inside of it, at the second line, and behind the end. -/
theorem lines_mapped_accent :
    let f : SourceFile := ⟨"main.cl", "é\nx"⟩
    f.text.utf8ByteSize = 4 ∧ f.lineCol? 1 = some ⟨1, 2⟩ ∧ f.lineCol? 3 = some ⟨2, 1⟩ ∧
      (⟨1, 2⟩ : LineCol).Before ⟨2, 1⟩ ∧ f.lineCol? 5 = none := by
  intro f
  obtain ⟨hnone, hsome, hbefore, -⟩ := f.lines_mapped
  have inside : f.lineCol? 1 = some ⟨1, 2⟩ := hsome 1 (by decide)
  have second : f.lineCol? 3 = some ⟨2, 1⟩ := hsome 3 (by decide)
  exact ⟨by decide, inside, second, hbefore 1 3 _ _ (by decide) inside second, hnone 5 (by decide)⟩

end SourceFile

end NavCheck
