import NavCheck.Check.Report
import NavCheck.Proofs.Outcomes
import NavCheck.Text.Digest

/-!
# Texts of one line

The short form of a finding is meant to be one line. It has a line feed only where a text has one that it is put together from:
the path, the message or the message of a suggestion. So the short form of a list of findings has a line for each, and one more for
every line feed in these texts.
-/

namespace NavCheck

/-! ## Line feeds -/

/-- How many line feeds a text has. -/
def newlines (s : String) : Nat :=
  s.toList.count '\n'

/-- A text without a line feed. -/
def OneLine (s : String) : Prop :=
  newlines s = 0

/-- How many lines a text has; the empty text has none. -/
def lineCount (s : String) : Nat :=
  if s = "" then 0 else newlines s + 1

instance (s : String) : Decidable (OneLine s) :=
  inferInstanceAs (Decidable (newlines s = 0))

theorem oneLine_iff {s : String} : OneLine s ↔ '\n' ∉ s.toList :=
  List.count_eq_zero

@[simp] theorem newlines_append (a b : String) : newlines (a ++ b) = newlines a + newlines b := by
  rw [newlines, String.toList_append, List.count_append]
  rfl

@[simp] theorem oneLine_append {a b : String} : OneLine (a ++ b) ↔ OneLine a ∧ OneLine b := by
  rw [OneLine, newlines_append, Nat.add_eq_zero_iff]
  rfl

@[simp] theorem newlines_toString (s : String) : newlines (toString s) = newlines s := rfl

@[simp] theorem oneLine_toString {s : String} : OneLine (toString s) ↔ OneLine s := Iff.rfl

@[simp] theorem oneLine_repr (n : Nat) : OneLine n.repr := by
  rw [oneLine_iff, Nat.toList_repr]
  intro h
  have hd : Char.isDigit '\n' = true := Nat.isDigit_of_mem_toDigits (by decide) (by decide) h
  cases hd

/-! ## Texts put together -/

theorem newlines_join_cons (s : String) (parts : List String) :
    newlines (String.join (s :: parts)) = newlines s + newlines (String.join parts) := by
  rw [String.join_cons, newlines_append]

theorem newlines_join_append (parts parts' : List String) :
    newlines (String.join (parts ++ parts')) = newlines (String.join parts) + newlines (String.join parts') := by
  rw [String.join_append, newlines_append]

theorem newlines_join_map {α : Type} {f g : α → String} {as : List α} (h : ∀ a ∈ as, newlines (f a) = newlines (g a)) :
    newlines (String.join (as.map f)) = newlines (String.join (as.map g)) := by
  induction as with
  | nil => rfl
  | cons a as ih =>
    obtain ⟨ha, has⟩ := List.forall_mem_cons.1 h
    rw [List.map_cons, List.map_cons, newlines_join_cons, newlines_join_cons, ha, ih has]

theorem newlines_join_flatMap {α : Type} {f : α → String} {g : α → List String} {as : List α}
    (h : ∀ a ∈ as, newlines (f a) = newlines (String.join (g a))) :
    newlines (String.join (as.map f)) = newlines (String.join (as.flatMap g)) := by
  induction as with
  | nil => rfl
  | cons a as ih =>
    obtain ⟨ha, has⟩ := List.forall_mem_cons.1 h
    rw [List.map_cons, List.flatMap_cons, newlines_join_cons, newlines_join_append, ha, ih has]

/-- Texts that stand one below the other have a line feed between any two of them. -/
theorem newlines_intercalate (parts : List String) :
    newlines ("\n".intercalate parts) = newlines (String.join parts) + (parts.length - 1) := by
  have between : newlines "\n" = 1 := by decide
  induction parts with
  | nil => rfl
  | cons s parts ih =>
    cases parts with
    | nil => rw [String.intercalate_singleton, newlines_join_cons, String.join_nil]; rfl
    | cons t parts =>
      rw [String.intercalate_cons_cons, newlines_append, newlines_append, ih, between, newlines_join_cons s]
      simp only [List.length_cons]
      omega

/-! ## The short form -/

theorem oneLine_severity (s : Severity) : OneLine s.text := by
  cases s <;> decide

theorem oneLine_lineColText (place : Option LineCol) : OneLine (lineColText place) := by
  cases place with
  | none => decide
  | some at_ => simp +decide [lineColText]

namespace Diagnostic

/-- The texts of a finding that its short form is put together from. -/
def shortTexts (d : Diagnostic) : List String :=
  d.codeText :: d.message :: d.suggestions.map (·.message)

theorem newlines_headline (d : Diagnostic) : newlines d.headline = newlines d.codeText + newlines d.message := by
  have hs : newlines d.severity.text = 0 := oneLine_severity d.severity
  have opening : newlines "[" = 0 := by decide
  have closing : newlines "]: " = 0 := by decide
  simp only [headline, newlines_append, newlines_toString, hs, opening, closing]
  omega

/-- Under a path without a line feed the short form of a finding has the line feeds of its texts. -/
theorem newlines_renderShort (d : Diagnostic) {files : SourceFiles} (hp : ∀ file ∈ files.files, OneLine file.path) :
    newlines (d.renderShort files) = newlines (String.join d.shortTexts) := by
  have hpath : newlines (d.locate files).1 = 0 := by
    unfold locate
    split
    · decide
    · split
      · decide
      · rename_i label hl file hf
        obtain ⟨index, -, hg⟩ := Option.bind_eq_some_iff.1 hf
        exact hp file (List.mem_of_getElem? hg)
  have hplace : newlines (lineColText (d.locate files).2) = 0 := oneLine_lineColText _
  have hnotes : newlines (if d.notes.isEmpty then "" else s!" (notes: {d.notes.length})") = 0 := by
    split
    · decide
    · have h : OneLine s!" (notes: {d.notes.length})" := by simp +decide
      exact h
  have hsuggestions : newlines (String.join (d.suggestions.map fun s => "; suggestion: " ++ s.message)) =
      newlines (String.join (d.suggestions.map (·.message))) := by
    have word : newlines "; suggestion: " = 0 := by decide
    refine newlines_join_map fun s _ => ?_
    rw [newlines_append, word, Nat.zero_add]
  have colon : newlines ":" = 0 := by decide
  have before : newlines ": " = 0 := by decide
  unfold renderShort
  simp only [newlines_append, newlines_toString, hpath, hplace, hnotes, hsuggestions, newlines_headline, colon, before,
    shortTexts, newlines_join_cons]
  omega

theorem renderShort_ne_empty (d : Diagnostic) (files : SourceFiles) : d.renderShort files ≠ "" := by
  simp +decide [renderShort]

end Diagnostic

/-- Under a path without a line feed the short form of findings has a line for each, and one more for every line feed in their
texts. -/
theorem lineCount_renderAll_short (ds : List Diagnostic) {files : SourceFiles}
    (hp : ∀ file ∈ files.files, OneLine file.path) :
    lineCount (renderAll ds files .short) = ds.length + newlines (String.join (ds.flatMap (·.shortTexts))) := by
  cases ds with
  | nil => rfl
  | cons d ds =>
    have hne : renderAll (d :: ds) files .short ≠ "" := by
      intro he
      have hd := d.renderShort_ne_empty files
      cases ds with
      | nil => exact hd (by rwa [renderAll, List.map_singleton, String.intercalate_singleton] at he)
      | cons e ds =>
        rw [renderAll, List.map_cons, List.map_cons, String.intercalate_cons_cons, String.append_eq_empty_iff,
          String.append_eq_empty_iff] at he
        exact hd he.1.1
    have each : newlines (String.join ((d :: ds).map (·.render files .short))) =
        newlines (String.join ((d :: ds).flatMap (·.shortTexts))) :=
      newlines_join_flatMap fun d _ => d.newlines_renderShort hp
    rw [lineCount, if_neg hne, renderAll, newlines_intercalate, each, List.length_map, List.length_cons]
    omega

/-- A token with a line feed in it is quoted as it stands, so what is said about it is more than one line. -/
theorem lineCount_of_quoted_literal :
    ∃ failure, checkSource "a" "\"a\\\nb\"" = .error failure ∧ failure.diagnostics.length = 1 ∧
      lineCount (renderAll failure.diagnostics failure.files .short) = 2 := by
  decide +kernel

end NavCheck
