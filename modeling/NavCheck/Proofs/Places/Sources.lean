import NavCheck.Check.Report
import NavCheck.Proofs.Cuts
import NavCheck.Proofs.Marks
import NavCheck.Proofs.Places.Declarations
import NavCheck.Proofs.Places.Typing

/-!
# Places in source texts

Whatever is said of a source text is said of a part of it: the places of tokens are real, and so is all that is made
of them. A check tells its findings with the path, the line and the column where they are.
-/

namespace NavCheck

namespace Text

theorem utf8ByteSize_ofList (cs : List Char) : (String.ofList cs).utf8ByteSize = byteLength cs := by
  induction cs with
  | nil => rfl
  | cons c cs ih => rw [String.ofList_cons, String.utf8ByteSize_append, ih, byteLength, String.utf8ByteSize_singleton]

theorem byteLength_toList (s : String) : byteLength s.toList = s.utf8ByteSize := by
  rw [← utf8ByteSize_ofList, String.ofList_toList]

/-- Where a part of a text begins there is a boundary between characters. -/
theorem isValid_of_append {s : String} {p q : List Char} (h : s.toList = p ++ q) :
    String.Pos.Raw.IsValid s ⟨byteLength p⟩ := by
  refine String.Pos.Raw.isValid_iff_exists_append.2 ⟨String.ofList p, String.ofList q, ?_, ?_⟩
  · rw [← String.ofList_append, ← h, String.ofList_toList]
  · rw [String.rawEndPos, utf8ByteSize_ofList]

end Text

/-! ## Real places -/

/-- A place in the text of a file: it does not end before it begins, and both ends are boundaries between characters
of the text or ends of it. -/
structure Span.Real (file : Nat) (text : String) (s : Span) : Prop where
  file : s.file = some file
  ordered : s.start ≤ s.stop
  start : String.Pos.Raw.IsValid text ⟨s.start⟩
  stop : String.Pos.Raw.IsValid text ⟨s.stop⟩

namespace Span.Real

variable {file : Nat} {text : String} {s t : Span}

theorem stop_le (h : s.Real file text) : s.stop ≤ text.utf8ByteSize :=
  h.stop.le_rawEndPos

theorem start_le (h : s.Real file text) : s.start ≤ text.utf8ByteSize :=
  Nat.le_trans h.ordered h.stop_le

theorem join (hs : s.Real file text) (ht : t.Real file text) : (s.join t).Real file text where
  file := hs.file
  ordered := Nat.le_trans (Nat.min_le_left _ _) (Nat.le_trans hs.ordered (Nat.le_max_left _ _))
  start := by
    rw [Span.join]
    rcases Nat.le_total s.start t.start with h | h
    · rw [Nat.min_eq_left h]
      exact hs.start
    · rw [Nat.min_eq_right h]
      exact ht.start
  stop := by
    rw [Span.join]
    rcases Nat.le_total s.stop t.stop with h | h
    · rw [Nat.max_eq_right h]
      exact ht.stop
    · rw [Nat.max_eq_left h]
      exact hs.stop

end Span.Real

/-- The tokens of a text are at real places. -/
theorem real_of_mem_lex {source : String} {file : Nat} {t : Token} (ht : t ∈ (lex source (some file)).tokens) :
    t.span.Real file source := by
  have hfile : ∀ t ∈ (lex source (some file)).tokens, t.span.file = some file := by
    simp only [lex, Lexed.tokens, Lexer.tokensFrom_file (some file), List.map_map]
    intro t ht
    obtain ⟨piece, -, rfl⟩ := List.mem_map.1 ht
    rfl
  have hproper := (inOrder_lex source (some file)).proper t ht
  have hf := hfile t ht
  obtain ⟨piece, hp, rfl⟩ := List.mem_map.1 ht
  obtain ⟨p, q, hs, hstart, -⟩ := Lexer.exists_slice hp
  have hstop := (Lexer.lexeme_of_mem_tokensFrom piece hp).2
  refine ⟨hf, Nat.le_of_lt hproper, hstart ▸ Text.isValid_of_append hs, ?_⟩
  rw [← List.append_assoc] at hs
  rw [hstop, hstart, ← Text.byteLength_append]
  exact Text.isValid_of_append hs

/-- A real place in a text, where there must be one. -/
def RealPlace (file : Nat) (source : String) (o : Option Span) : Prop :=
  ∃ s ∈ o, s.Real file source

section

variable {source : String} {file : Nat} {tokens : List Token}

/-- The place of a `?` is real: it begins where the last token of the base ends, and the link behind it has a later
token. -/
theorem real_guard (ho : InOrder tokens) (ht : ∀ t ∈ tokens, t.span.Real file source) {start c d : Cursor}
    (hs : start.Over tokens) (hc : start.Leads c) (hlt : c.ahead.length < start.ahead.length) (hd : c.Leads d)
    (hlt' : d.ahead.length < c.ahead.length) :
    Span.Real file source ⟨(start.spanTo d).file, (start.spanTo c).stop, (start.spanTo d).stop⟩ := by
  obtain ⟨ts, hts⟩ := hc
  obtain ⟨us, hus⟩ := hd
  have hne := hts.ne_nil hlt
  have hne' := hus.ne_nil hlt'
  have hall := hts.trans hus
  have hahead : start.ahead = ts ++ us ++ d.ahead := hall.1
  have hsuffix : (ts ++ us).Sublist tokens := by
    have hfull : start.passed.reverse ++ start.ahead = tokens := hs
    rw [← hfull, hahead]
    exact (List.sublist_append_left _ _).trans (List.sublist_append_right _ _)
  have horder := ho.sublist hsuffix
  have real : ∀ t ∈ ts ++ us, t.span.Real file source := fun t h => ht t (hsuffix.subset h)
  have hbase := real _ (List.mem_append_left us (List.getLast_mem hne))
  have hlink := real _ (List.mem_append_right ts (List.getLast_mem hne'))
  have hstop : (start.spanTo d).stop = (us.getLast hne').span.stop := by
    rw [hall.stop_spanTo horder (List.append_ne_nil_of_left_ne_nil hne _), List.getLast_append_of_ne_nil _ hne']
  have hfile : (start.spanTo d).file = some file := by
    obtain ⟨first, rest, rfl⟩ := List.exists_cons_of_ne_nil hne
    have hfirst := (real first (List.mem_append_left us List.mem_cons_self)).file
    unfold Cursor.spanTo
    rw [hahead]
    cases hp : d.passed with
    | nil =>
      rw [hall.2] at hp
      simp at hp
    | cons last passed => exact hfirst
  rw [hts.stop_spanTo horder.left hne, hstop, hfile]
  have hapart := (List.pairwise_append.1 horder.apart).2.2 _ (List.getLast_mem hne) _ (List.getLast_mem hne')
  exact ⟨rfl, Nat.le_trans hapart hlink.ordered, hbase.stop, hlink.stop⟩

/-- All places that are made of the tokens of a text are real, if it has tokens. -/
theorem places_real (ho : InOrder tokens) (ht : ∀ t ∈ tokens, t.span.Real file source) (hne : tokens ≠ []) :
    Places (Span.Real file source) (RealPlace file source) tokens where
  token := ht
  join := Span.Real.join
  guard := real_guard ho ht
  at_good h := ⟨_, rfl, h⟩
  here {c} hc := by
    unfold Cursor.hereSpan?
    cases ha : c.ahead with
    | cons t rest => exact ⟨_, rfl, ht t (hc.mem_ahead (ha ▸ List.mem_cons_self))⟩
    | nil =>
      cases hp : c.passed with
      | cons t passed => exact ⟨_, rfl, ht t (hc.mem_passed (hp ▸ List.mem_cons_self))⟩
      | nil =>
        have hfull : c.passed.reverse ++ c.ahead = tokens := hc
        rw [ha, hp] at hfull
        exact absurd hfull.symm hne

end

/-! ## Reading -/

/-- A finding at a real place is a finding within the real places. -/
theorem Diagnostic.At.within {file : Nat} {source : String} {d : Diagnostic} (h : d.At (RealPlace file source)) :
    d.Within (Span.Real file source) := by
  obtain ⟨span, hs, hr⟩ := h.primary
  obtain ⟨label, hl, rfl⟩ := Option.map_eq_some_iff.1 hs
  exact ⟨⟨label, hl, hr⟩, h.secondary ▸ List.forall_mem_nil _, h.suggestions ▸ List.forall_mem_nil _⟩

/-- The findings of a sink that others are added to. -/
theorem at_extend {placed : Option Span → Prop} {sink : Sink} {ds : List Diagnostic} (hs : ∀ d ∈ sink.found, d.At placed)
    (hd : ∀ d ∈ ds, d.At placed) : ∀ d ∈ (sink.extend ds).found, d.At placed :=
  List.foldlRecOn (motive := fun s : Sink => ∀ d ∈ s.found, d.At placed) ds _ hs fun _ hs d hmem =>
    List.forall_mem_append.2 ⟨hs, List.forall_mem_singleton.2 ((hd d hmem).withCode _ _)⟩

/-- Malformed tokens are reported where they are. -/
theorem at_lex [Text.Hash] (source : String) (file : Nat) :
    ∀ d ∈ (lex source (some file)).diagnostics, d.At (RealPlace file source) := by
  refine List.foldlRecOn (motive := fun s : Sink => ∀ d ∈ s.found, d.At (RealPlace file source)) _ _
    (List.forall_mem_nil _) fun sink hs piece hp => ?_
  have hr : piece.1.span.Real file source := real_of_mem_lex (List.mem_map_of_mem hp)
  dsimp only
  split
  · exact List.forall_mem_append.2 ⟨hs, List.forall_mem_singleton.2 ((Diagnostic.at_error ⟨_, rfl, hr⟩ _).withCode _ _)⟩
  · exact hs

namespace Reading

/-- A loop that ends in its first round. -/
theorem run_iterate_of_end {σ : Type} {round : σ → Reading (σ × Bool)} {s v : σ} {r : Reader}
    (h : (round s).run r = ((v, false), r)) : (iterate round s).run r = (v, r) := by
  have hs : ((round s).step r).value = (v, false) := congrArg Prod.fst h
  have hn : ((round s).step r).next = r := congrArg Prod.snd h
  show ((iterateFrom round s r).value, (iterateFrom round s r).next) = (v, r)
  rw [iterateFrom]
  dsimp only
  rw [if_neg (by simp [hs])]
  exact Prod.ext (by rw [hs]) hn

/-- Without tokens nothing is read and nothing is reported. -/
theorem run_unit_nil {r : Reader} (h : r.cursor.ahead = []) : unit.run r = (⟨[]⟩, r) := by
  obtain ⟨⟨passed, ahead⟩, sink, skipped⟩ := r
  obtain rfl : ahead = [] := h
  have hmany : (many (fun _ => false) typeDecl).run ⟨⟨passed, []⟩, sink, skipped⟩ = ([], ⟨⟨passed, []⟩, sink, skipped⟩) :=
    run_iterate_of_end rfl
  show (SourceUnit.mk ((many _ typeDecl).run _).1, ((many _ typeDecl).run _).2) = _
  rw [hmany]

end Reading

/-- A text is read to a unit with real places, or to faults at real places. -/
theorem SourceUnit.real_parse [Text.Hash] (source : String) (file : Nat) :
    (∀ unit, SourceUnit.parse source (some file) = .ok unit → unit.Within (Span.Real file source)) ∧
      ∀ failure, SourceUnit.parse source (some file) = .error failure →
        ∀ d ∈ failure.diagnostics, d.Within (Span.Real file source) := by
  have ht : ∀ t ∈ (lex source (some file)).significant, t.span.Real file source := fun t h =>
    real_of_mem_lex (List.mem_filter.1 h).1
  have hfound : ∀ d ∈ (reader (lex source (some file))).sink.found, d.At (RealPlace file source) :=
    at_extend (List.forall_mem_nil _) (at_lex source file)
  have hrun : (∀ d ∈ (Reading.unit.run (reader (lex source (some file)))).2.sink.found, d.At (RealPlace file source)) ∧
      (Reading.unit.run (reader (lex source (some file)))).1.Within (Span.Real file source) := by
    by_cases hne : (lex source (some file)).significant = []
    · rw [Reading.run_unit_nil hne]
      exact ⟨hfound, List.forall_mem_nil _⟩
    · obtain ⟨hs, -, hw⟩ := Reading.located_unit (places_real (inOrder_significant source (some file)) ht hne)
        (reader (lex source (some file))) ⟨rfl, fun d hd => .inr (hfound d hd)⟩
      exact ⟨fun d hd => (hs.found d hd).resolve_left List.not_mem_nil, hw⟩
  unfold SourceUnit.parse
  constructor
  · intro unit h
    dsimp only at h
    split at h
    · cases h
    · cases h
      exact hrun.2
  · intro failure h
    dsimp only at h
    split at h
    · cases h
      exact fun d hd => (hrun.1 d hd).within
    · cases h

/-! ## Telling findings -/

theorem Span.Real.inFile {file : Nat} {text : String} {s : Span} (h : s.Real file text) : (s.inFile file).Real file text :=
  ⟨rfl, h.ordered, h.start, h.stop⟩

theorem Diagnostic.Within.inFile {file : Nat} {text : String} {d : Diagnostic} (h : d.Within (Span.Real file text)) :
    (d.inFile file).Within (Span.Real file text) := by
  obtain ⟨label, hl, hr⟩ := h.primary
  refine ⟨⟨_, by rw [Diagnostic.inFile, hl, Option.map_some], hr.inFile⟩, fun second hm => ?_, h.suggestions⟩
  obtain ⟨before, hb, rfl⟩ := List.mem_map.1 hm
  exact (h.secondary before hb).inFile

/-- A real place in a file has a line and a column there, and an object for programs that tells them. -/
structure Span.Shown (files : SourceFiles) (file : SourceFile) (s : Span) (place : LineCol) : Prop where
  found : file.lineCol? s.start = some place
  located : files.fileOf? s = some file
  json : spanJson? s files = some (spanJson file.path s place)

theorem Span.Real.shown {files : SourceFiles} {index : Nat} {file : SourceFile} (hf : files.get? index = some file) {s : Span}
    (h : s.Real index file.text) : ∃ place, s.Shown files file place := by
  have hfile : files.fileOf? s = some file := by
    rw [SourceFiles.fileOf?, h.file, Option.bind_some, hf]
  have hsize : ¬ file.size < s.start := by
    rw [SourceFile.size, Text.byteLength_toList]
    exact Nat.not_lt.2 h.start_le
  have hplace : ∃ place, file.lineCol? s.start = some place := by
    rw [SourceFile.lineCol?, if_neg hsize]
    exact ⟨_, rfl⟩
  obtain ⟨place, hplace⟩ := hplace
  exact ⟨place, hplace, hfile, by rw [spanJson?, hfile, Option.bind_some, hplace, Option.map_some]⟩

namespace Diagnostic

variable {d : Diagnostic} {files : SourceFiles} {path : String} {place : LineCol}

theorem renderShort_of_locate (h : d.locate files = (path, some place)) :
    ∃ rest, d.renderShort files = s!"{path}:{place.line}:{place.column}: " ++ rest := by
  refine ⟨d.headline ++ (if d.notes.isEmpty then "" else s!" (notes: {d.notes.length})") ++
    String.join (d.suggestions.map fun s => "; suggestion: " ++ s.message), ?_⟩
  simp only [renderShort, h, lineColText, String.append_assoc, toString]

theorem renderHuman_of_locate (h : d.locate files = (path, some place)) :
    ∃ rest, d.renderHuman files = d.headline ++ "\n" ++ s!"  --> {path}:{place.line}:{place.column}\n   |\n" ++ rest := by
  have hplace : s!"  --> {path}:{lineColText (some place)}\n   |\n" = s!"  --> {path}:{place.line}:{place.column}\n   |\n" := by
    simp only [lineColText, String.append_assoc, toString]
  unfold renderHuman
  rw [h]
  dsimp only
  rw [hplace]
  exact ⟨_, rfl⟩

end Diagnostic

/-- A finding about a text in a file, told with its place: it has a primary label, all its labels and suggestions are
at real places of the text, and every form that it is written in gives the path, the line and the column of each. -/
structure Diagnostic.Told (files : SourceFiles) (index : Nat) (file : SourceFile) (d : Diagnostic) : Prop where
  within : d.Within (Span.Real index file.text)
  shown : ∃ label place, d.primary = some label ∧ label.span.Shown files file place ∧
    d.locate files = (file.path, some place) ∧
    (∃ rest, d.renderShort files = s!"{file.path}:{place.line}:{place.column}: " ++ rest) ∧
    ∃ rest, d.renderHuman files = d.headline ++ "\n" ++ s!"  --> {file.path}:{place.line}:{place.column}\n   |\n" ++ rest
  labels : ∀ label ∈ d.primary.toList ++ d.secondary, ∃ place, label.span.Shown files file place ∧
    labelJson label files =
      .obj [("message", .str label.message), ("span", spanJson file.path label.span place), ("is_primary", .bool label.primary)]
  suggestions : ∀ s ∈ d.suggestions, ∀ span ∈ s.span, ∃ place, span.Shown files file place ∧
    s.span.bind (spanJson? · files) = some (spanJson file.path span place)

theorem Diagnostic.Within.told {files : SourceFiles} {index : Nat} {file : SourceFile} (hf : files.get? index = some file)
    {d : Diagnostic} (h : d.Within (Span.Real index file.text)) : d.Told files index file where
  within := h
  shown := by
    obtain ⟨label, hl, hr⟩ := h.primary
    obtain ⟨place, hp⟩ := hr.shown hf
    have hlocate : d.locate files = (file.path, some place) := by
      simp only [Diagnostic.locate, hl, hp.located, hp.found]
    exact ⟨label, place, hl, hp, hlocate, Diagnostic.renderShort_of_locate hlocate, Diagnostic.renderHuman_of_locate hlocate⟩
  labels label hm := by
    have hr : label.span.Real index file.text := by
      obtain hm | hm := List.mem_append.1 hm
      · obtain ⟨label', hl, hr⟩ := h.primary
        rw [hl] at hm
        rwa [List.mem_singleton.1 hm]
      · exact h.secondary label hm
    obtain ⟨place, hp⟩ := hr.shown hf
    exact ⟨place, hp, by rw [labelJson, hp.json, Option.getD_some]⟩
  suggestions s hs span hspan := by
    obtain ⟨place, hp⟩ := (h.suggestions s hs span hspan).shown hf
    exact ⟨place, hp, by rw [hspan, Option.bind_some, hp.json]⟩

/-- Every reported location is real. Whatever text is checked, and whether it can be read or not, each finding has a
primary label, its labels and suggestions lie in the text with both ends between characters, and it is told with the
path, the line and the column of its place. -/
theorem checkSource_told [Text.Hash] (path source : String) :
    match checkSource path source with
    | .ok report => ∀ d ∈ report.diagnostics, d.Told report.files 0 ⟨path, source⟩
    | .error failure => ∀ d ∈ failure.diagnostics, d.Told failure.files 0 ⟨path, source⟩ := by
  have hf : (SourceFiles.empty.add path source).1.get? 0 = some ⟨path, source⟩ := rfl
  obtain ⟨hok, herror⟩ := SourceUnit.real_parse source 0
  unfold checkSource
  dsimp only
  cases hp : SourceUnit.parse source (some (SourceFiles.empty.add path source).2) with
  | error failure =>
    intro d hd
    obtain ⟨d, hmem, rfl⟩ := List.mem_map.1 hd
    exact (herror failure hp d hmem).inFile.told hf
  | ok unit =>
    have hunit := hok unit hp
    have hresolved := hunit.unit_resolve
    intro d hd
    refine Diagnostic.Within.told hf ?_
    obtain hd | hd := List.mem_append.1 hd
    · obtain hd | hd := List.mem_append.1 hd
      · exact hunit.diagnostics_resolve d hd
      · exact TypeTable.says_build hresolved d hd
    · exact hresolved.diagnostics_check Span.Real.join _ d hd

end NavCheck
