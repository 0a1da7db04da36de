import NavCheck.Proofs.Places.Capture
import NavCheck.Table.Build

/-!
# Places of findings about declarations

What is noted while the table of a unit is built is noted at places of its declarations.
-/

namespace NavCheck

/-! ## Notes -/

namespace Noted

variable {ν α β : Type} {fine : ν → Prop} {x : Noted ν α} {f : α → Noted ν β}

/-- All notes have a property, whatever the value is. -/
def Says (fine : ν → Prop) (x : Noted ν α) : Prop :=
  ∀ n ∈ x.notes, fine n

/-- A plain value comes without notes. -/
theorem says_pure (a : α) : (pure a : Noted ν α).Says fine :=
  List.forall_mem_nil fine

/-- Making a note says what holds of the note. -/
theorem says_note {n : ν} (h : fine n) : (note n).Says fine :=
  List.forall_mem_singleton.2 h

/-- Parts one after the other say what each of them says. -/
theorem Says.bind (h : x.Says fine) (hf : ∀ a, (f a).Says fine) : (x >>= f).Says fine :=
  List.forall_mem_append.2 ⟨h, hf x.value⟩

/-- What is said may be weakened. -/
theorem Says.imp {also : ν → Prop} (h : x.Says fine) (hi : ∀ n, fine n → also n) : x.Says also :=
  fun n hn => hi n (h n hn)

/-- Going through a list says what is said of each element. -/
theorem says_mapM {l : List α} (h : ∀ a ∈ l, (f a).Says fine) : (l.mapM f).Says fine := by
  induction l with
  | nil => exact says_pure _
  | cons a l ih =>
    obtain ⟨ha, hl⟩ := List.forall_mem_cons.1 h
    rw [List.mapM_cons]
    exact ha.bind fun _ => (ih hl).bind fun _ => says_pure _

/-- Going through a list for its notes says what is said of each element. -/
theorem says_forM {g : α → Noted ν PUnit} {l : List α} (h : ∀ a ∈ l, (g a).Says fine) : (l.forM g).Says fine := by
  induction l with
  | nil => exact says_pure _
  | cons a l ih =>
    obtain ⟨ha, hl⟩ := List.forall_mem_cons.1 h
    exact ha.bind fun _ => ih hl

end Noted

open Noted

variable {good : Span → Prop}

namespace TableFault

/-- A finding about a declaration by itself, which is any but one about a circle of bases. -/
def Reports (good : Span → Prop) (n : Diagnostic) : Prop :=
  ∃ (fault : TableFault) (span : Span), (∀ name, fault ≠ .circularBase name) ∧ good span ∧ n = fault.finding span

/-- A finding about a declaration by itself is at good places when it is at a good one. -/
theorem Reports.within {n : Diagnostic} (h : Reports good n) : n.Within good := by
  obtain ⟨fault, span, -, hs, rfl⟩ := h
  exact Diagnostic.within_coded _ _ _ hs

/-- A fault at a good place, if it is not a circle of bases, is a finding about a declaration by itself. -/
theorem reports_finding (fault : TableFault) {span : Span} (h : good span) (hc : ∀ name, fault ≠ .circularBase name := by simp) :
    Reports good (fault.finding span) :=
  ⟨fault, span, hc, h, rfl⟩

/-- Reporting a fault that is not a circle of bases notes a finding about a declaration by itself. -/
theorem says_report (fault : TableFault) {span : Span} (h : good span) (hc : ∀ name, fault ≠ .circularBase name := by simp) :
    (fault.report span).Says (Reports good) :=
  says_note (reports_finding fault h hc)

end TableFault

namespace TypeTable

variable {t : TypeTable} {scope : List GenericInfo} {d : TypeDecl}

mutual

/-- A written type that means nothing has its fault inside. -/
theorem within_resolve {e : TypeExpr} (h : e.Within good) {error : TypeError} (he : t.resolve scope e = .error error) :
    good error.span := by
  obtain ⟨name, args, suffixes, span⟩ := e
  obtain ⟨hargs, hspan⟩ := h
  rw [TypeTable.resolve] at he
  split at he
  · split at he
    · cases he
    · cases he
      exact hspan
  · split at he
    · cases he
    · split at he
      · cases he
        exact hspan
      · split at he
        · cases he
          exact hspan
        · cases ha : t.resolveAll scope args with
          | ok types =>
            rw [ha] at he
            cases he
          | error e =>
            rw [ha] at he
            cases he
            exact within_resolveAll hargs ha

/-- A written type that is not known is at a good place. -/
theorem within_resolveAll {es : List TypeExpr} (h : typesWithin good es) {error : TypeError}
    (he : t.resolveAll scope es = .error error) : good error.span := by
  match es, h with
  | [], _ =>
    rw [resolveAll] at he
    cases he
  | e :: es, h =>
    rw [resolveAll] at he
    cases hr : t.resolve scope e with
    | error error' =>
      rw [hr] at he
      cases he
      exact within_resolve h.1 hr
    | ok type =>
      rw [hr] at he
      cases ha : t.resolveAll scope es with
      | ok types =>
        simp only [ha] at he
        cases he
      | error error' =>
        simp only [ha] at he
        cases he
        exact within_resolveAll h.2 ha

end

/-- Reading a type reports at good places. -/
theorem says_read {e : TypeExpr} (h : e.Within good) : (t.read scope e).Says (TableFault.Reports good) := by
  unfold TypeTable.read
  split
  · exact says_pure _
  · exact (says_note (TableFault.reports_finding _ (within_resolve h ‹_›))).bind fun _ => says_pure _

/-- Reading the type of a value reports at good places. -/
theorem says_readValue {e : TypeExpr} (h : e.Within good) : (t.readValue scope e).Says (TableFault.Reports good) := by
  refine (says_read h).bind fun type => ?_
  split
  · exact (TableFault.says_report _ h.span).bind fun _ => says_pure _
  · exact says_pure _

/-- Checking a constraint reports at good places. -/
theorem says_checkConstraint {g : GenericParam} (h : g.Within good) : (t.checkConstraint scope g).Says (TableFault.Reports good) := by
  unfold checkConstraint
  split
  · rename_i e he
    have hw : e.Within good := h.constraint _ he
    refine (says_read hw).bind fun type => ?_
    split
    · exact says_pure _
    · split
      · exact says_pure _
      · exact TableFault.says_report _ hw.span
    · exact TableFault.says_report _ hw.span
  · exact says_pure _

/-- Reading a base reports at good places. -/
theorem says_readBase (h : d.Within good) : (t.readBase scope d).Says (TableFault.Reports good) := by
  unfold readBase
  split
  · rename_i base hb
    have hw := (h.base base hb).type
    split
    · exact (TableFault.says_report _ hw.span).bind fun _ => says_pure _
    · refine (says_read hw).bind fun type => ?_
      split
      · exact says_pure _
      · split
        · exact says_pure _
        · exact (TableFault.says_report _ hw.span).bind fun _ => says_pure _
  · exact says_pure _

/-- Reading a parameter reports at good places. -/
theorem says_readParam {p : Param} (h : p.Within good) : (t.readParam scope p).Says (TableFault.Reports good) :=
  (says_readValue h.type).bind fun _ => says_pure _

/-- Reading a member reports at good places. -/
theorem says_readMember {m : Member} (owner : String) (h : m.Within good) :
    (t.readMember scope owner m).Says (TableFault.Reports good) := by
  obtain ⟨-, -, h⟩ := h
  unfold readMember
  cases m with
  | field f =>
    refine Says.bind (x := t.readField scope f) ?_ fun _ => says_pure _
    unfold readField
    dsimp only
    split
    · exact says_pure _
    · exact says_readValue h.1
  | property p => exact (says_readValue h.1).bind fun _ => says_pure _
  | method d =>
    exact (says_mapM fun p hp => says_readParam (h.2.1 p hp)).bind fun _ => (says_read h.1).bind fun _ => says_pure _
  | indexer i => exact says_pure _

/-- Checking the modifiers of a member reports at good places. -/
theorem says_checkModifiers (owner : TypeKind) {m : Member} (h : m.Within good) :
    (checkModifiers owner m).Says (TableFault.Reports good) := by
  cases m with
  | field f =>
    unfold checkModifiers
    dsimp only
    split
    · exact says_pure _
    · intro n hn
      obtain ⟨p, hp, rfl⟩ := List.mem_map.1 hn
      exact TableFault.reports_finding _ (within_modifierProblems h.1 _ _ p hp)
  | _ => exact says_pure _

/-- A member with a name, in front of others. -/
theorem says_readNamed {d : TypeDecl} {names : List String} {counts : List Nat} {m : Member} (hm : m.Within good)
    {ms : List Member} (rest : ∀ names, (t.readMembers scope d names counts ms).Says (TableFault.Reports good)) :
    Says (TableFault.Reports good) (do
      match m.name? with
      | none => t.readMembers scope d names counts ms
      | some name =>
        if names.contains name then
          (TableFault.duplicateMember d.name name).report m.nameSpan
          t.readMembers scope d names counts ms
        else
          if name = d.name then (TableFault.memberNamedAsType name).report m.nameSpan
          let signature ← t.readMember scope d.name m
          let (members, indexers) ← t.readMembers scope d (name :: names) counts ms
          return (signature.toList ++ members, indexers)) := by
  split
  · exact rest _
  · split
    · exact (TableFault.says_report _ hm.2.1).bind fun _ => rest _
    · split
      · exact (TableFault.says_report _ hm.2.1).bind fun _ => (says_readMember _ hm).bind fun _ =>
          (rest _).bind fun _ => says_pure _
      · exact (says_readMember _ hm).bind fun _ => (rest _).bind fun _ => says_pure _

/-- Reading members reports at good places. -/
theorem says_readMembers (d : TypeDecl) (names : List String) (counts : List Nat) {ms : List Member}
    (h : ∀ m ∈ ms, m.Within good) : (t.readMembers scope d names counts ms).Says (TableFault.Reports good) := by
  induction ms generalizing names counts with
  | nil => exact says_pure _
  | cons m ms ih =>
    obtain ⟨hm, hms⟩ := List.forall_mem_cons.1 h
    have rest := fun names => ih names counts hms
    rw [readMembers.eq_def]
    refine (says_checkModifiers d.kind hm).bind fun _ => ?_
    cases m with
    | indexer i =>
      have hi : (t.readIndexer scope i).Says (TableFault.Reports good) :=
        (says_mapM fun p hp => says_readParam (hm.2.2.2.1 p hp)).bind fun _ =>
          (says_readValue hm.2.2.1).bind fun _ => says_pure _
      refine hi.bind fun signature => ?_
      dsimp only
      split
      · exact (TableFault.says_report _ hm.2.1).bind fun _ => ih _ _ hms
      · exact (ih _ _ hms).bind fun _ => says_pure _
    | field f => exact says_readNamed hm rest
    | property p => exact says_readNamed hm rest
    | method m => exact says_readNamed hm rest

/-- Reading the signatures of a declaration reports at good places. -/
theorem says_readSignatures (h : d.Within good) : (t.readSignatures d).Says (TableFault.Reports good) :=
  (says_forM fun g hg => says_checkConstraint (h.generics g hg)).bind fun _ => (says_readBase h).bind fun _ =>
    (says_mapM fun p hp => (says_readValue (h.params p hp).type).bind fun _ => says_pure _).bind fun _ =>
      (says_readMembers d _ _ h.members).bind fun _ => says_pure _

/-- A circle of bases is reported at a good place. -/
theorem says_checkCircle (h : d.Within good) : (t.checkCircle d).Says (·.Within good) := by
  unfold checkCircle
  split
  · refine says_note (Diagnostic.within_coded _ _ _ ?_)
    cases hb : d.base with
    | none => exact h.nameSpan
    | some base => exact (h.base base hb).type.span
  · exact says_pure _

/-- Outlines are added of declarations of the unit only. -/
theorem says_addOutlines {ds : List TypeDecl} (h : ∀ d ∈ ds, d.Within good) (t : TypeTable) :
    (t.addOutlines ds).Says (TableFault.Reports good) ∧ ∀ d ∈ (t.addOutlines ds).value.2, d.Within good := by
  induction ds generalizing t with
  | nil => exact ⟨says_pure _, List.forall_mem_nil _⟩
  | cons d ds ih =>
    obtain ⟨hd, hds⟩ := List.forall_mem_cons.1 h
    rw [addOutlines]
    split
    · obtain ⟨hs, hv⟩ := ih hds t
      refine ⟨(TableFault.says_report _ hd.nameSpan ?_).bind fun _ => hs, hv⟩
      intro name
      split <;> simp
    · obtain ⟨hs, hv⟩ := ih hds ⟨t.types ++ [d.outline]⟩
      exact ⟨hs.bind fun _ => says_pure _, List.forall_mem_cons.2 ⟨hd, hv⟩⟩

/-- What is found while outlines are added and signatures are read is about declarations by themselves. -/
theorem says_signatures {u : SourceUnit} (h : u.Within good) :
    (builtin.addOutlines u.types).Says (TableFault.Reports good) ∧
      Noted.Says (TableFault.Reports good) ((builtin.addOutlines u.types).value.2.mapM fun d =>
        return (d.name, ← (builtin.addOutlines u.types).value.1.readSignatures d)) := by
  obtain ⟨hs, hv⟩ := says_addOutlines h builtin
  exact ⟨hs, says_mapM fun d hd => (says_readSignatures (hv d hd)).bind fun _ => says_pure _⟩

/-- The findings about the declarations of a unit lie in the unit. -/
theorem says_build {u : SourceUnit} (h : u.Within good) : (build u).Says (·.Within good) := by
  obtain ⟨outlines, signatures⟩ := says_signatures h
  have hv := (says_addOutlines h builtin).2
  refine List.forall_mem_append.2 ⟨outlines.imp fun _ => TableFault.Reports.within, ?_⟩
  refine Says.bind (signatures.imp fun _ => TableFault.Reports.within) fun _ => ?_
  exact (says_forM fun d hd => says_checkCircle (hv d hd)).bind fun _ => says_pure _

end TypeTable

end NavCheck
