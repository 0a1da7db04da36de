import NavCheck.Proofs.DeclarationOrder
import NavCheck.Proofs.Instantiation

/-!
# Long rows of classes

In a row of classes each one has the class before it as its base. Nothing is reported about a row as long as its bases are few
enough for the search for circles. That search goes further than the one for members, so a unit without errors may have a class
with more bases than are looked at, on which the field of the first class is not found.
-/

namespace NavCheck

/-! ## The names of a row -/

theorem rowName_injective {k j : Nat} (h : rowName k = rowName j) : k = j := by
  have hr : k.repr = j.repr := (String.append_right_inj "C").1 h
  have hd : Nat.toDigits 10 k = Nat.toDigits 10 j := by rw [← Nat.toList_repr, ← Nat.toList_repr, hr]
  rw [← @Nat.ofDigitChars_ten_toDigits k, hd, Nat.ofDigitChars_ten_toDigits]

/-- Names that do not start with the same letter are no names of a row. -/
theorem rowName_ne {k : Nat} {name : String} (h : name.toList.head? ≠ some 'C') : rowName k ≠ name := by
  rintro rfl
  exact h (by rw [rowName, String.toList_append]; rfl)

/-- No built-in type has a name of a row. -/
theorem find?_builtin_rowName (k : Nat) : TypeTable.builtin.find? (rowName k) = none := by
  have heads : ∀ info ∈ TypeTable.builtin.types, info.name.toList.head? ≠ some 'C' := by decide
  exact List.find?_eq_none.2 fun info hi hn => rowName_ne (heads info hi) (eq_of_beq hn).symm

/-- The unit of the first classes of a row. -/
def rowUnit (n : Nat) : SourceUnit :=
  ⟨(List.range n).map rowClass⟩

theorem namesApart_row (n : Nat) : (rowUnit n).NamesApart where
  distinct := by
    rw [rowUnit, List.map_map]
    exact List.nodup_range.map fun _ _ => rowName_injective
  fresh := by
    intro d hd
    obtain ⟨k, -, rfl⟩ := List.mem_map.1 hd
    exact find?_builtin_rowName k

namespace TypeTable

variable {n k : Nat}

/-- The class of a number is found in its row. -/
theorem find?_row (h : k < n) : (rowUnit n).types.find? (fun d => d.name == rowName k) = some (rowClass k) :=
  find?_of_nodup TypeDecl.name (namesApart_row n).distinct (List.mem_map.2 ⟨k, List.mem_range.2 h, rfl⟩)

theorem find?_outlined_row (h : k < n) : (outlined (rowUnit n)).find? (rowName k) = some (rowClass k).outline := by
  have hf : ((rowUnit n).types.map TypeDecl.outline).find? (·.name == rowName k) =
      ((rowUnit n).types.find? fun d => d.name == rowName k).map TypeDecl.outline := List.find?_map
  have hb := find?_builtin_rowName k
  unfold find? at hb ⊢
  rw [outlined, List.find?_append, hb, hf, find?_row h]
  rfl

/-- What a class of a row adds to its outline. -/
def rowSignatures (k : Nat) : TypeSignatures where
  base := if k = 0 then none else some (.simple (rowName (k - 1)))
  members := if k = 0 then [⟨"M", .field false, .int, false, rowName 0⟩] else []
  indexers := []
  constructor := []

/-- The name of a class of a row means that class. -/
theorem resolve_row (h : k < n) (span : Span) :
    (outlined (rowUnit n)).resolve [] (.simple (rowName k) span) = .ok (.simple (rowName k)) := by
  have hv : rowName k ≠ "void" := rowName_ne (by decide)
  rw [TypeExpr.simple, resolve, List.find?_nil]
  dsimp only
  rw [if_neg fun he => hv he.1, find?_outlined_row h]
  rfl

/-- A class of a row can be a base. -/
theorem canBeBase_row (h : k < n) : (outlined (rowUnit n)).canBeBase (.simple (rowName k)) = true := by
  have hs : rowName k ≠ "string" := rowName_ne (by decide)
  have hc : (outlined (rowUnit n)).classify (.simple (rowName k)) = .reference := by
    rw [Ty.simple, classify, find?_outlined_row h]
    rfl
  have ht : Ty.simple (rowName k) ≠ .string := fun he => hs (Ty.named.inj he).1
  exact Bool.and_eq_true_iff.2 ⟨decide_eq_true hc, decide_eq_true ht⟩

/-- The class before another one is its base. -/
theorem readBase_row (h : k + 1 < n) :
    (outlined (rowUnit n)).readBase [] (rowClass (k + 1)) = pure (some (.simple (rowName k))) := by
  have hk := Nat.lt_of_succ_lt h
  have hr : (outlined (rowUnit n)).read [] (.simple (rowName k) default) = pure (.simple (rowName k)) := by
    rw [read, resolve_row hk]
  have hb : (rowClass (k + 1)).base = some ⟨.simple (rowName k) default, none, default⟩ := rfl
  rw [readBase, hb]
  dsimp only
  rw [hr, pure_bind, canBeBase_row hk]
  rfl

/-- Every class of a row is read without a finding. -/
theorem readSignatures_row (h : k < n) : (outlined (rowUnit n)).readSignatures (rowClass k) = pure (rowSignatures k) := by
  have scope : (outlined (rowUnit n)).genericScope (rowClass k) = [] := by
    rw [genericScope, show (rowClass k).name = rowName k from rfl, find?_outlined_row h]
    rfl
  cases k with
  | zero =>
    rw [readSignatures, scope]
    rfl
  | succ k =>
    rw [readSignatures, scope, readBase_row h]
    rfl

/-- The table of a row knows every class with what is read of it. -/
theorem find?_build_row (h : k < n) :
    (build (rowUnit n)).value.find? (rowName k) = some ((rowClass k).outline.withSignatures (rowSignatures k)) := by
  rw [table_eq (namesApart_row n), find?_withSignatures, find?_outlined_row h, lookup_map_find? TypeDecl.name, find?_row h,
    Option.map_some, Option.map_some, readSignatures_row h]
  rfl

/-! ## The bases of a row -/

theorem baseOf?_row (h : k + 1 < n) :
    (build (rowUnit n)).value.baseOf? (.simple (rowName (k + 1))) = some (.simple (rowName k)) := by
  rw [Ty.simple, baseOf?, find?_build_row h]
  rfl

/-- The bases of a class are the classes before it. -/
theorem ancestor_row {j : Nat} {x : Ty} (h : k < n) (hj : j ≤ k) :
    (build (rowUnit n)).value.Ancestor (.simple (rowName k)) j x ↔ x = .simple (rowName (k - j)) := by
  induction j generalizing k with
  | zero => exact ancestor_zero
  | succ j ih =>
    obtain ⟨k, rfl⟩ := Nat.exists_eq_add_one_of_ne_zero (Nat.ne_zero_of_lt hj)
    have hb := ih (Nat.lt_of_succ_lt h) (Nat.le_of_succ_le_succ hj)
    simp [ancestor_succ, baseOf?_row h, hb]

/-- The bases of a class do not come back to it. -/
theorem basesCircle_row {j count : Nat} (h : k < n) (hj : j ≤ k) (hc : j ≤ count) :
    (build (rowUnit n)).value.basesCircle (rowName k) count (rowSignatures j).base = false := by
  induction j generalizing count with
  | zero => cases count <;> rfl
  | succ j ih =>
    obtain ⟨count, rfl⟩ := Nat.exists_eq_add_one_of_ne_zero (Nat.ne_zero_of_lt hc)
    have hn : (rowName j == rowName k) = false := beq_false_of_ne fun he => absurd (rowName_injective he) (Nat.ne_of_lt hj)
    have hb : (rowSignatures (j + 1)).base = some (.named (rowName j) []) := rfl
    rw [hb, basesCircle, hn, find?_build_row (Nat.lt_trans hj h)]
    exact ih (Nat.le_of_lt hj) (Nat.le_of_succ_le_succ hc)

/-- Nothing is reported about a row of classes, unless it is too long for the search for circles. -/
theorem notes_build_row (hn : n ≤ maxBaseDepth + 2) : (build (rowUnit n)).notes = [] := by
  rw [findings_eq (namesApart_row n), List.append_eq_nil_iff, List.flatMap_eq_nil_iff, List.flatMap_eq_nil_iff]
  constructor
  · intro d hd
    obtain ⟨k, hk, rfl⟩ := List.mem_map.1 hd
    rw [readSignatures_row (List.mem_range.1 hk)]
    rfl
  · intro d hd
    obtain ⟨k, hk, rfl⟩ := List.mem_map.1 hd
    have hk := List.mem_range.1 hk
    have hc : (build (rowUnit n)).value.basesCircle (rowName k) (maxBaseDepth + 1) (rowSignatures k).base = false :=
      basesCircle_row hk (Nat.le_refl k) (Nat.le_of_lt_succ (Nat.lt_of_lt_of_le hk hn))
    rw [checkCircle, show (rowClass k).name = rowName k from rfl, find?_build_row hk, Option.bind_some]
    exact congrArg Noted.notes (if_neg (Bool.eq_false_iff.1 hc))

/-! ## The field of a row -/

theorem ownMember?_row_zero (h : 0 < n) :
    (build (rowUnit n)).value.ownMember? "M" (.simple (rowName 0)) = some ⟨"M", .field false, .int, false, rowName 0⟩ := by
  rw [Ty.simple, ownMember?, find?_build_row h]
  rfl

theorem ownMember?_row_succ (h : k + 1 < n) :
    (build (rowUnit n)).value.ownMember? "M" (.simple (rowName (k + 1))) = none := by
  rw [Ty.simple, ownMember?, find?_build_row h]
  rfl

/-- Behind more classes than are looked at, the field of the first one is not found. -/
theorem member?_row (h : k < n) (hk : maxBaseDepth ≤ k) :
    (build (rowUnit n)).value.member? (.simple (rowName k)) (.plain "M") = none := by
  have own {j : Nat} (hj : j < maxBaseDepth) {x : Ty} (hx : (build (rowUnit n)).value.Ancestor (.simple (rowName k)) j x) :
      (build (rowUnit n)).value.ownMember? "M" x = none := by
    have hjk := Nat.lt_of_lt_of_le hj hk
    obtain ⟨i, hi⟩ := Nat.exists_eq_add_one_of_ne_zero (Nat.sub_ne_zero_of_lt hjk)
    rw [(ancestor_row h (Nat.le_of_lt hjk)).1 hx, hi]
    exact ownMember?_row_succ (hi ▸ Nat.lt_of_le_of_lt (Nat.sub_le k j) h)
  rw [Option.eq_none_iff_forall_not_mem]
  intro m hm
  rcases member?_eq_some_iff.1 hm with ⟨j, hj, x, hx, hxm, -⟩ | ⟨-, hobject⟩
  · rw [own hj hx] at hxm
    cases hxm
  · cases hobject

end TypeTable

/-- A unit may have a class with so many bases that the field of the last one is not found, and no error. -/
theorem field_of_last_base_not_found :
    let u : SourceUnit := ⟨(List.range 65).map rowClass⟩
    (TypeTable.build u).notes = [] ∧
      (∃ x m, (TypeTable.build u).value.Ancestor (.simple (rowName 64)) 64 x ∧
        (TypeTable.build u).value.ownMember? "M" x = some m) ∧
        (TypeTable.build u).value.member? (.simple (rowName 64)) (.plain "M") = none :=
  ⟨TypeTable.notes_build_row (by decide),
    ⟨_, _, (TypeTable.ancestor_row (by decide) (Nat.le_refl 64)).2 rfl, TypeTable.ownMember?_row_zero (by decide)⟩,
    TypeTable.member?_row (by decide) (Nat.le_refl 64)⟩

end NavCheck
