import Mathlib.Data.List.Nodup
import NavCheck.Decl.Parser
import NavCheck.Capture.Resolve
import NavCheck.Proofs.ClosedUnits
import NavCheck.Proofs.Outcomes
import NavCheck.Text.Digest

/-!
# Keyed names and the elements they stand for

A keyed name is written for the element with the name as its key, but the two are looked up in different ways: the name by an
indexer that takes one text, the element by an indexer with one parameter, whatever it takes. Both walk along the same row of
types, and a type has at most one indexer with a number of parameters. So both come to the same indexer, unless a type that is
nearer than the one with the indexer for texts has an indexer for something else.
-/

namespace NavCheck

/-- At most one of the indexers has any number of parameters. -/
def IndexersApart (indexers : List IndexerSig) : Prop :=
  (indexers.map (·.params.length)).Nodup

/-- Two of the indexers with as many parameters are the same. -/
theorem IndexersApart.eq {indexers : List IndexerSig} (h : IndexersApart indexers) {i k : IndexerSig} (hi : i ∈ indexers)
    (hk : k ∈ indexers) (hl : i.params.length = k.params.length) : i = k :=
  List.inj_on_of_nodup_map h hi hk hl

/-- Arguments in place of generic parameters leave indexers apart. -/
theorem IndexersApart.substitute {indexers : List IndexerSig} (h : IndexersApart indexers) (s : Ty.Substitution) :
    IndexersApart (indexers.map (·.substitute s)) := by
  have hl : (·.params.length) ∘ IndexerSig.substitute s = (·.params.length) :=
    funext fun i => by simp [IndexerSig.substitute]
  rw [IndexersApart, List.map_map, hl]
  exact h

namespace TypeTable

/-! ## The indexers of one type -/

section

variable (t : TypeTable) (scope : List GenericInfo)

/-- No two indexers are read with as many parameters, and none with a number that was there before. -/
theorem indexersApart_readMembers (d : TypeDecl) (members : List Member) (names : List String) (counts : List Nat) :
    IndexersApart (t.readMembers scope d names counts members).value.2 ∧
      ∀ i ∈ (t.readMembers scope d names counts members).value.2, i.params.length ∉ counts := by
  induction members generalizing names counts with
  | nil => exact ⟨List.nodup_nil, List.forall_mem_nil _⟩
  | cons m ms ih =>
    unfold readMembers
    rw [Noted.value_bind]
    split
    · rename_i i
      rw [Noted.value_bind]
      dsimp only
      split
      · exact ih _ _
      · rename_i hc
        obtain ⟨apart, fresh⟩ := ih names ((t.readIndexer scope i).value.params.length :: counts)
        refine ⟨List.nodup_cons.2 ⟨fun hm => ?_, apart⟩, List.forall_mem_cons.2 ⟨by simpa using hc, fun k hk => ?_⟩⟩
        · obtain ⟨k, hk, hl⟩ := List.mem_map.1 hm
          exact fresh k hk (hl ▸ List.mem_cons_self)
        · exact fun hm => fresh k hk (List.mem_cons_of_mem _ hm)
    · split
      · exact ih _ _
      · split
        · exact ih _ _
        · dsimp only
          split <;> exact ih _ _

end

/-- The indexers of every type of a unit are apart. -/
theorem indexersApart_build (u : SourceUnit) {name : String} {info : TypeInfo}
    (h : (build u).value.find? name = some info) : IndexersApart info.indexers := by
  rw [value_build, find?_withSignatures, lookup_map_find? TypeDecl.name] at h
  have houtlines := types_addOutlines builtin u.types
  generalize (builtin.addOutlines u.types).value.2 = added at *
  generalize (builtin.addOutlines u.types).value.1 = outlines at *
  obtain ⟨outline, ho, rfl⟩ := Option.map_eq_some_iff.1 h
  cases added.find? (fun d => d.name == name) with
  | some d => exact (outlines.indexersApart_readMembers _ d d.members [] []).1
  | none =>
    have hm := List.mem_of_find?_eq_some ho
    rw [houtlines, List.mem_append] at hm
    rcases hm with hm | hm
    · have builtins : ∀ i ∈ builtin.types, (i.indexers.map (·.params.length)).Nodup := by decide +kernel
      exact builtins outline hm
    · obtain ⟨d, -, rfl⟩ := List.mem_map.1 hm
      exact List.nodup_nil

theorem indexersApart_ownIndexers (u : SourceUnit) (type : Ty) : IndexersApart ((build u).value.ownIndexers type) := by
  unfold ownIndexers
  split
  · split
    · exact (indexersApart_build u ‹_›).substitute _
    · exact List.nodup_nil
  · exact List.nodup_nil

/-! ## The two lookups -/

/-- The types that the indexers of a type come from, the nearest first. -/
def indexed (t : TypeTable) : Ty → List Ty
  | .named type args => t.lineage maxBaseDepth (.named type args)
  | .param _ (.base base) => t.lineage maxBaseDepth (.simple base)
  | _ => []

theorem length_of_takesKey {i : IndexerSig} (h : takesKey i = true) : i.params.length = 1 := by
  unfold takesKey at h
  split at h
  · rename_i hp
    rw [hp]
    rfl
  · cases h

/-- A type that has an indexer for texts has the indexers of its row of types: the elements of arrays go by numbers. -/
theorem indexers_of_takesKey {t : TypeTable} {type : Ty} {k : IndexerSig} (h : (t.indexers type).find? takesKey = some k) :
    t.indexers type = (t.indexed type).flatMap t.ownIndexers := by
  cases type with
  | named name args => rfl
  | param name constraint =>
    cases constraint with
    | base base => rfl
    | none | reference | value => cases h
  | array _ | nullable _ | delegate _ _ | null | void | error => cases h

/-- Where a row of types has an indexer for texts, it has indexers with one parameter; the first of them is that for texts or
stands on a type in front. -/
theorem find?_one_of_takesKey {t : TypeTable} (ha : ∀ type, IndexersApart (t.ownIndexers type)) {k : IndexerSig} :
    ∀ {types : List Ty}, (types.flatMap t.ownIndexers).find? takesKey = some k →
      ∃ i, (types.flatMap t.ownIndexers).find? (·.params.length == 1) = some i ∧
        (i = k ∨ takesKey i = false ∧ ∃ l₁ nearer l₂ farther l₃, types = l₁ ++ nearer :: (l₂ ++ farther :: l₃) ∧
          i ∈ t.ownIndexers nearer ∧ k ∈ t.ownIndexers farther)
  | [], h => nomatch h
  | type :: types, h => by
    rw [List.flatMap_cons, List.find?_append] at h ⊢
    cases hk : (t.ownIndexers type).find? takesKey with
    | some own =>
      rw [hk, Option.some_or] at h
      cases h
      have hmem := List.mem_of_find?_eq_some hk
      have hlen := length_of_takesKey (List.find?_some hk)
      obtain ⟨i, hi⟩ := Option.isSome_iff_exists.1
        (List.find?_isSome.2 ⟨k, hmem, beq_iff_eq.2 hlen⟩ : ((t.ownIndexers type).find? (·.params.length == 1)).isSome)
      have hone : i.params.length = 1 := beq_iff_eq.1 (List.find?_some hi :)
      have hsame := (ha type).eq (List.mem_of_find?_eq_some hi) hmem (hone.trans hlen.symm)
      exact ⟨i, by rw [hi, Option.some_or], .inl hsame⟩
    | none =>
      rw [hk, Option.none_or] at h
      cases hi : (t.ownIndexers type).find? (·.params.length == 1) with
      | some i =>
        have hmem := List.mem_of_find?_eq_some hi
        obtain ⟨farther, hf, hkf⟩ := List.mem_flatMap.1 (List.mem_of_find?_eq_some h)
        obtain ⟨l₂, l₃, rfl⟩ := List.append_of_mem hf
        exact ⟨i, Option.some_or, .inr ⟨by simpa using List.find?_eq_none.1 hk i hmem,
          [], type, l₂, farther, l₃, rfl, hmem, hkf⟩⟩
      | none =>
        obtain ⟨i, hi, hor⟩ := find?_one_of_takesKey ha h
        refine ⟨i, by rw [Option.none_or, hi], hor.imp_right ?_⟩
        rintro ⟨hn, l₁, nearer, l₂, farther, l₃, rfl, hmem, hkf⟩
        exact ⟨hn, type :: l₁, nearer, l₂, farther, l₃, rfl, hmem, hkf⟩

/-- What a keyed name means next to the element access that it is lowered to, on any type of a unit: where the name means something,
there is an indexer with one parameter. If it takes a text, the name has its type and can be stored to when it can. If not, it is on
a type in front of the one whose indexer the name reads. -/
theorem keyed_member_of_build (u : SourceUnit) {type : Ty} {name : String} {m : MemberSig}
    (h : (build u).value.member? type (.keyed name) = some m) :
    ∃ i, (build u).value.indexer? type 1 = some i ∧
      (takesKey i = true → m.type = i.type ∧ m.isSettable = i.settable) ∧
      (takesKey i = false → ∃ k, takesKey k = true ∧ m.type = k.type ∧ m.isSettable = k.settable ∧
        ∃ l₁ nearer l₂ farther l₃, (build u).value.indexed type = l₁ ++ nearer :: (l₂ ++ farther :: l₃) ∧
          i ∈ (build u).value.ownIndexers nearer ∧ k ∈ (build u).value.ownIndexers farther) := by
  obtain ⟨k, hk, rfl⟩ := Option.map_eq_some_iff.1 h
  have htext : takesKey k = true := List.find?_some hk
  have hrow := indexers_of_takesKey hk
  rw [hrow] at hk
  obtain ⟨i, hi, hor⟩ := find?_one_of_takesKey (indexersApart_ownIndexers u) hk
  refine ⟨i, by rw [indexer?, hrow, hi], fun ht => ?_, fun ht => ?_⟩
  · obtain rfl | ⟨hn, -⟩ := hor
    · exact ⟨rfl, rfl⟩
    · rw [hn] at ht
      cases ht
  · obtain rfl | ⟨-, hor⟩ := hor
    · rw [htext] at ht
      cases ht
    · exact ⟨k, htext, rfl, rfl, hor⟩

end TypeTable

/-- An indexer for numbers hides the one for texts of the base from element accesses, but not from keyed names: without an error in
the table, `$x` of `D` has another type than the element with the key `x`. -/
theorem keyed_name_passes_indexer :
    ∃ unit, SourceUnit.parse
        "class B \x7b public int this[string s] => 1; \x7d class D : B \x7b public string this[int i] => \"\"; \x7d" none = .ok unit ∧
      let table := TypeTable.build unit.resolve.unit
      table.notes = [] ∧ ∃ m i, table.value.member? (.simple "D") (.keyed "x") = some m ∧
        table.value.indexer? (.simple "D") 1 = some i ∧ TypeTable.takesKey i = false ∧ m.type = .int ∧ i.type = .string := by
  have evaluated : ∃ unit, SourceUnit.parse
      "class B \x7b public int this[string s] => 1; \x7d class D : B \x7b public string this[int i] => \"\"; \x7d" none = .ok unit ∧
        (TypeTable.build unit.resolve.unit).notes = [] ∧
        (∃ m ∈ (TypeTable.build unit.resolve.unit).value.member? (.simple "D") (.keyed "x"), m.type = .int) ∧
        ∃ i ∈ (TypeTable.build unit.resolve.unit).value.indexer? (.simple "D") 1,
          TypeTable.takesKey i = false ∧ i.type = .string := by
    decide +kernel
  obtain ⟨unit, h, hn, ⟨m, hm, ht⟩, i, hi, hk, hs⟩ := evaluated
  exact ⟨unit, h, hn, m, i, hm, hi, hk, ht, hs⟩

end NavCheck
