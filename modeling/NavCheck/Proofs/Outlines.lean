import NavCheck.Capture.Resolve
import NavCheck.Table.Build

/-!
# Outlines

What the table of a unit knows of a type that has a place in the text: the type is one of the declarations, and its constructor
has the parameters of that declaration.
-/

namespace NavCheck

/-- The types that are written in the signature of a member. -/
def Member.written : Member → List TypeExpr
  | .field f => [f.type]
  | .property p => [p.type]
  | .method d => d.returnType :: d.params.map (·.type)
  | .indexer i => i.type :: i.params.map (·.type)

/-- The values along a list are found one by one. -/
theorem Noted.value_mapM {ν α β : Type} (f : α → Noted ν β) (l : List α) :
    (l.mapM f).value = l.map fun a => (f a).value := by
  induction l with
  | nil => rfl
  | cons a l ih =>
    rw [List.mapM_cons, List.map_cons, ← ih]
    rfl

namespace TypeTable

/-- Outlines are added behind those that are there, one for each declaration that is given. -/
theorem types_addOutlines (t : TypeTable) (ds : List TypeDecl) :
    (t.addOutlines ds).value.1.types = t.types ++ (t.addOutlines ds).value.2.map TypeDecl.outline := by
  induction ds generalizing t with
  | nil => exact (List.append_nil _).symm
  | cons d ds ih =>
    rw [addOutlines]
    split
    · exact ih t
    · show (addOutlines ⟨t.types ++ [d.outline]⟩ ds).value.1.types =
        t.types ++ (d :: (addOutlines ⟨t.types ++ [d.outline]⟩ ds).value.2).map TypeDecl.outline
      rw [ih, List.append_assoc]
      rfl

/-- The declarations whose outlines are added are among those of the unit. -/
theorem sublist_addOutlines (t : TypeTable) (ds : List TypeDecl) : (t.addOutlines ds).value.2.Sublist ds := by
  induction ds generalizing t with
  | nil => exact .slnil
  | cons d ds ih =>
    rw [addOutlines]
    split
    · exact (ih t).cons d
    · exact (ih ⟨t.types ++ [d.outline]⟩).cons_cons d

/-- Signatures change nothing about which types there are. -/
theorem find?_withSignatures (t : TypeTable) (signatures : List (String × TypeSignatures)) (name : String) :
    (t.withSignatures signatures).find? name =
      (t.find? name).map fun info => (signatures.lookup name).elim info info.withSignatures := by
  have hw : t.withSignatures signatures =
      ⟨t.types.map fun info => (signatures.lookup info.name).elim info info.withSignatures⟩ := by
    refine congrArg TypeTable.mk (List.map_congr_left fun info _ => ?_)
    cases signatures.lookup info.name <;> rfl
  rw [hw]
  unfold find?
  dsimp only
  induction t.types with
  | nil => rfl
  | cons info infos ih =>
    have hn : ((signatures.lookup info.name).elim info info.withSignatures).name = info.name := by
      cases signatures.lookup info.name <;> rfl
    rw [List.map_cons, List.find?_cons, List.find?_cons, hn]
    cases h : info.name == name with
    | false => exact ih
    | true =>
      rw [eq_of_beq h]
      rfl

/-- The built-in types have no place in the text. -/
theorem span_of_mem_builtin : ∀ info ∈ builtin.types, info.span = none := by
  decide

/-- Of several with one name, the first is found by the name and by a row of pairs. -/
theorem lookup_map_find? {α β : Type} (key : α → String) (value : α → β) (name : String) (l : List α) :
    (l.map fun a => (key a, value a)).lookup name = (l.find? fun a => key a == name).map value := by
  induction l with
  | nil => rfl
  | cons a l ih =>
    rw [List.map_cons, List.lookup_cons, List.find?_cons, BEq.comm]
    cases key a == name with
    | true => rfl
    | false => exact ih

/-- Where no key stands twice, a row of pairs can be searched from the back as well. -/
theorem lookup_reverse {α β : Type} [BEq α] [LawfulBEq α] {l : List (α × β)} (h : (l.map (·.1)).Nodup) (k : α) :
    l.reverse.lookup k = l.lookup k := by
  induction l with
  | nil => rfl
  | cons p ps ih =>
    rw [List.map_cons, List.nodup_cons] at h
    rw [List.reverse_cons, List.lookup_append, ih h.2]
    have hsplit : (p :: ps).lookup k = ([p].lookup k).or (ps.lookup k) := by
      rw [← List.lookup_append]
      rfl
    rw [hsplit]
    by_cases hk : k = p.1
    · have hn : ps.lookup k = none := by
        rw [List.lookup_eq_none_iff]
        intro q hq
        rw [bne_iff_ne]
        rintro rfl
        exact h.1 (hk ▸ List.mem_map_of_mem hq)
      rw [hn, Option.or_none]
      rfl
    · have hn : [p].lookup k = none := by
        rw [List.lookup_cons, beq_false_of_ne hk]
        rfl
      rw [hn, Option.or_none]
      rfl

variable {u : SourceUnit}

/-- The signatures of a constructor have the names of its parameters. -/
theorem names_readSignatures (t : TypeTable) (d : TypeDecl) :
    (t.readSignatures d).value.constructor.map (·.name) = d.params.map (·.name) := by
  have hc : (t.readSignatures d).value.constructor = (d.params.mapM (t.readPrimaryParam (t.genericScope d))).value := rfl
  rw [hc, Noted.value_mapM, List.map_map]
  rfl

/-- A type of the table of a unit that has a place is a declaration of the unit with this name at this place, with the signatures
that are read from it. -/
theorem signatures_of_find?_build {name : String} {info : TypeInfo} {span : Span} (h : (build u).value.find? name = some info)
    (hs : info.span = some span) :
    ∃ d ∈ u.types, d.name = name ∧ d.nameSpan = span ∧
      info = d.outline.withSignatures ((builtin.addOutlines u.types).value.1.readSignatures d).value := by
  let added := (builtin.addOutlines u.types).value.2
  let outlines := (builtin.addOutlines u.types).value.1
  have hv : (build u).value = outlines.withSignatures (added.map fun d => (d.name, (outlines.readSignatures d).value)) := by
    have hm := Noted.value_mapM (fun d : TypeDecl => do return (d.name, ← outlines.readSignatures d)) added
    exact congrArg outlines.withSignatures hm
  rw [hv, find?_withSignatures, lookup_map_find? TypeDecl.name] at h
  obtain ⟨outline, ho, rfl⟩ := Option.map_eq_some_iff.1 h
  have hk : outline.span = some span := by
    rw [← hs]
    cases (added.find? fun d => d.name == name) <;> rfl
  unfold find? at ho
  rw [types_addOutlines, List.find?_append] at ho
  rcases Option.or_eq_some_iff.1 ho with hb | ⟨-, ha⟩
  · have := span_of_mem_builtin _ (List.mem_of_find?_eq_some hb)
    rw [hk] at this
    cases this
  · rw [List.find?_map] at ha
    obtain ⟨d, hd, rfl⟩ := Option.map_eq_some_iff.1 ha
    have hd : added.find? (fun d => d.name == name) = some d := hd
    refine ⟨d, (sublist_addOutlines _ _).subset (List.mem_of_find?_eq_some hd), ?_, Option.some.inj hk, ?_⟩
    · have hn := List.find?_some hd
      exact eq_of_beq hn
    · rw [hd]
      rfl

/-- A type of the table of a unit that has a place is a declaration of the unit with this name at this place, and has a
constructor with its parameters. -/
theorem find?_build {name : String} {info : TypeInfo} {span : Span} (h : (build u).value.find? name = some info)
    (hs : info.span = some span) :
    ∃ d ∈ u.types, d.name = name ∧ d.nameSpan = span ∧ info.constructor.map (·.name) = d.params.map (·.name) := by
  obtain ⟨d, hd, hn, hp, rfl⟩ := signatures_of_find?_build h hs
  exact ⟨d, hd, hn, hp, names_readSignatures _ d⟩

end TypeTable

end NavCheck
