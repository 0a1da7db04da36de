import Mathlib.Data.List.Find
import Mathlib.Data.List.Nodup
import NavCheck.Proofs.Lineages
import NavCheck.Proofs.SameTyping

/-!
# The order of declarations

The declarations of a unit whose types have names of their own can stand in any order. Their outlines are known before any
signature is read, so the table finds the same types with the same findings, and what is found of each declaration does not
depend on those in front of it.
-/

namespace NavCheck

/-- The types of a unit have names of their own: no two have the same name, and none has the name of a built-in type. -/
structure SourceUnit.NamesApart (u : SourceUnit) : Prop where
  distinct : (u.types.map (·.name)).Nodup
  fresh : ∀ d ∈ u.types, TypeTable.builtin.find? d.name = none

/-- The notes along a list are made one behind another. -/
theorem Noted.notes_mapM {ν α β : Type} (f : α → Noted ν β) (l : List α) :
    (l.mapM f).notes = l.flatMap fun a => (f a).notes := by
  induction l with
  | nil => rfl
  | cons a l ih =>
    rw [List.mapM_cons, List.flatMap_cons, ← ih]
    exact congrArg ((f a).notes ++ ·) (List.append_nil _)

theorem Noted.notes_forM {ν α : Type} (f : α → Noted ν PUnit) (l : List α) :
    (l.forM f).notes = l.flatMap fun a => (f a).notes := by
  induction l with
  | nil => rfl
  | cons a l ih =>
    rw [List.flatMap_cons, ← ih]
    rfl

namespace TypeTable

/-- The findings about a unit are those about names, then about signatures and then about circles. -/
theorem notes_build (u : SourceUnit) :
    (build u).notes = (builtin.addOutlines u.types).notes ++
      ((builtin.addOutlines u.types).value.2.mapM fun d => (do
        return (d.name, ← (builtin.addOutlines u.types).value.1.readSignatures d) : Found _)).notes ++
      (builtin.addOutlines u.types).value.2.flatMap fun d => ((build u).value.checkCircle d).notes := by
  rw [← Noted.notes_forM]
  unfold build
  simp only [Noted.notes_bind, Noted.value_bind, Noted.notes_pure, Noted.value_pure, List.append_nil, List.append_assoc]

/-! ## Tables of types with names of their own -/

/-- Declarations with new names of their own all get their outlines, without a finding. -/
theorem addOutlines_eq {t : TypeTable} {ds : List TypeDecl} (hd : (ds.map (·.name)).Nodup)
    (hf : ∀ d ∈ ds, t.find? d.name = none) : t.addOutlines ds = ⟨(⟨t.types ++ ds.map TypeDecl.outline⟩, ds), []⟩ := by
  induction ds generalizing t with
  | nil =>
    rw [List.map_nil, List.append_nil]
    rfl
  | cons d ds ih =>
    obtain ⟨hd, hds⟩ := List.nodup_cons.1 hd
    obtain ⟨hn, hfs⟩ := List.forall_mem_cons.1 hf
    have fresh : ∀ e ∈ ds, (TypeTable.mk (t.types ++ [d.outline])).find? e.name = none := by
      intro e he
      have hne : d.outline.name ≠ e.name := fun hde => hd (List.mem_map.2 ⟨e, he, hde.symm⟩)
      have hte := hfs e he
      unfold find? at hte ⊢
      rw [List.find?_append, hte, Option.none_or, List.find?_cons_of_neg (by simpa using hne), List.find?_nil]
    rw [addOutlines, hn]
    dsimp only
    rw [ih hds fresh, List.map_cons, List.append_cons t.types d.outline (ds.map TypeDecl.outline)]
    rfl

/-- The outlines of a unit, with the built-in types in front of them. -/
def outlined (u : SourceUnit) : TypeTable :=
  ⟨builtin.types ++ u.types.map TypeDecl.outline⟩

variable {u v : SourceUnit} (h : u.NamesApart)

include h

theorem addOutlines_unit : builtin.addOutlines u.types = ⟨(outlined u, u.types), []⟩ :=
  addOutlines_eq h.distinct h.fresh

/-- The table of a unit has the signatures of its declarations, each read from the outlines. -/
theorem table_eq : (build u).value =
    (outlined u).withSignatures (u.types.map fun d => (d.name, ((outlined u).readSignatures d).value)) := by
  rw [value_build, addOutlines_unit h]

/-- The findings are those about the signatures, declaration by declaration, and then those about circles. -/
theorem findings_eq : (build u).notes =
    u.types.flatMap (fun d => ((outlined u).readSignatures d).notes) ++
      u.types.flatMap fun d => ((build u).value.checkCircle d).notes := by
  have hs := Noted.notes_mapM (fun d : TypeDecl => do return (d.name, ← (outlined u).readSignatures d)) u.types
  simp only [Noted.notes_bind, Noted.notes_pure, List.append_nil] at hs
  rw [notes_build, addOutlines_unit h, List.nil_append, ← hs]

variable (hp : v.types.Perm u.types)

include hp

/-- Of declarations with names of their own, the one of a name does not depend on their order. -/
theorem find?_perm (name : String) : v.types.find? (fun d => d.name == name) = u.types.find? (fun d => d.name == name) := by
  refine (List.find?_eq_find?_of_perm hp.symm fun d hd e he => ?_).symm
  have hn := (eq_of_beq hd.2).trans (eq_of_beq he.2).symm
  exact List.inj_on_of_nodup_map h.distinct hd.1 he.1 hn

/-- The outlines of a unit are the same in any order. -/
theorem outlined_perm : (outlined v).SameTypes (outlined u) := by
  have outlines (w : SourceUnit) (name : String) : (w.types.map TypeDecl.outline).find? (·.name == name) =
      (w.types.find? fun d => d.name == name).map TypeDecl.outline := List.find?_map
  intro name
  unfold find? outlined
  rw [List.find?_append, List.find?_append, outlines, outlines, find?_perm h hp]

end TypeTable

namespace SourceUnit.NamesApart

variable {u v : SourceUnit}

/-- Names of their own are names of their own in any order. -/
theorem perm (h : u.NamesApart) (hp : v.types.Perm u.types) : v.NamesApart where
  distinct := (hp.map _).nodup_iff.2 h.distinct
  fresh := fun d hd => h.fresh d (hp.mem_iff.1 hd)

/-- Fields for parameters do not change the names of types. -/
theorem resolve (h : u.NamesApart) : u.resolve.unit.NamesApart := by
  have names : u.resolve.unit.types.map (·.name) = u.types.map (·.name) := by
    simp only [SourceUnit.resolve, ResolvedUnit.unit, List.map_map]
    rfl
  refine ⟨names ▸ h.distinct, fun d hd => ?_⟩
  obtain ⟨r, hr, rfl⟩ := List.mem_map.1 hd
  obtain ⟨e, he, rfl⟩ := List.mem_map.1 hr
  exact h.fresh e he

end SourceUnit.NamesApart

namespace TypeTable

variable {u v : SourceUnit} (h : u.NamesApart) (hp : v.types.Perm u.types)

include h hp

/-- The table of a unit finds the same types when the declarations stand in another order. -/
theorem build_perm : (build v).value.SameTypes (build u).value := by
  have ho := outlined_perm h hp
  rw [table_eq h, table_eq (h.perm hp)]
  refine ho.withSignatures fun name => ?_
  rw [lookup_map_find? TypeDecl.name, lookup_map_find? TypeDecl.name, find?_perm h hp, ho.readSignatures]

/-- The findings about declarations are the same when these stand in another order, but for their order. -/
theorem findings_perm : (build v).notes.Perm (build u).notes := by
  rw [findings_eq h, findings_eq (h.perm hp), (outlined_perm h hp).readSignatures, (build_perm h hp).checkCircle]
  exact (hp.flatMap_right _).append (hp.flatMap_right _)

end TypeTable

/-- The declarations of a unit whose types have names of their own can stand in any order. The table finds the same types by all
names and makes the same findings, and for each declaration the parameters are decided about and the code is checked as before:
what is found of the declarations is put together in their new order. -/
theorem SourceUnit.found_of_perm {u v : SourceUnit} (h : u.NamesApart) (hp : v.types.Perm u.types) :
    (∀ name, (TypeTable.build v).value.find? name = (TypeTable.build u).value.find? name) ∧
      (TypeTable.build v).notes.Perm (TypeTable.build u).notes ∧
      ∀ w ∈ [u, v], w.resolve.types = w.types.map TypeDecl.resolve ∧
        w.resolve.unit.check (TypeTable.build w.resolve.unit).value =
          (w.types.map fun d => d.resolve.decl.check (TypeTable.build u.resolve.unit).value).foldl .append .empty := by
  refine ⟨TypeTable.build_perm h hp, TypeTable.findings_perm h hp, ?_⟩
  have resolved (w : SourceUnit) : w.resolve.unit.types = w.types.map fun d => d.resolve.decl := List.map_map
  have checked (w : SourceUnit) (table : TypeTable) :
      w.resolve.unit.check table = (w.types.map fun d => d.resolve.decl.check table).foldl .append .empty := by
    rw [SourceUnit.check, resolved, List.map_map]
    rfl
  refine List.forall_mem_cons.2 ⟨⟨rfl, checked u _⟩, List.forall_mem_singleton.2 ⟨rfl, ?_⟩⟩
  have hr : v.resolve.unit.types.Perm u.resolve.unit.types := by
    rw [resolved, resolved]
    exact hp.map _
  have same := TypeTable.build_perm h.resolve hr
  rw [checked]
  exact congrArg (List.foldl _ _) (List.map_congr_left fun d _ => same.checkDecl _)

/-- The classes of a row of three, each of which has the one before it as its base, from the last to the first. -/
theorem SourceUnit.found_of_reversed_row :
    let u : SourceUnit := ⟨(List.range 3).map rowClass⟩
    let v : SourceUnit := ⟨([2, 1, 0] : List Nat).map rowClass⟩
    (u.NamesApart ∧ v.types.Perm u.types) ∧ (TypeTable.build v).notes.Perm (TypeTable.build u).notes ∧
      (TypeTable.build v).value.find? (rowName 2) = (TypeTable.build u).value.find? (rowName 2) := by
  intro u v
  have h : u.NamesApart := ⟨by decide +kernel, by decide +kernel⟩
  have hp : v.types.Perm u.types := (by decide : ([2, 1, 0] : List Nat).Perm (List.range 3)).map rowClass
  have found := found_of_perm h hp
  exact ⟨⟨h, hp⟩, found.2.1, found.1 _⟩

end NavCheck
