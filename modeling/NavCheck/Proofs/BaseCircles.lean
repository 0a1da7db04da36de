import Mathlib.Combinatorics.Pigeonhole
import NavCheck.Proofs.DeclarationOrder
import NavCheck.Proofs.Places.Tables

/-!
# Circles of bases

The search for a circle follows bases by their names. It knows only the declaration where it began, and it gives up after a fixed
number of steps. Bases that do not end go on behind any number of steps, so they are reported from each declaration, also from
one that only leads into a circle; and where nothing is reported, all bases have ended before the search gives up.
-/

namespace NavCheck

/-! ## Wordings -/

/-- A text that does not begin as the wording of a circle does. -/
def OpensOtherwise (s : String) : Prop :=
  ∃ front : List Char, front <+: s.toList ∧ ¬ front <+: ['c', 'i'] ∧ ¬ ['c', 'i'] <+: front

theorem opensOtherwise (s : String) (h : ¬ s.toList.take 2 <+: ['c', 'i'] ∧ ¬ ['c', 'i'] <+: s.toList.take 2 := by decide) :
    OpensOtherwise s :=
  ⟨_, List.take_prefix 2 _, h⟩

theorem OpensOtherwise.append {s : String} (h : OpensOtherwise s) (t : String) : OpensOtherwise (s ++ t) := by
  obtain ⟨front, hf, h⟩ := h
  refine ⟨front, ?_, h⟩
  rw [String.toList_append]
  exact hf.trans (List.prefix_append _ _)

theorem TypeFault.opensOtherwise_message (fault : TypeFault) : OpensOtherwise fault.message := by
  cases fault with
  | paramWithArgs name => exact ((opensOtherwise "generic parameter `").append name).append _
  | unknown name => exact ((opensOtherwise "unknown type `").append name).append _
  | argCount name expected found => exact (((((opensOtherwise "type `").append name).append _).append _).append _).append _

theorem QualifierFault.opensOtherwise_message (fault : QualifierFault) : OpensOtherwise fault.message := by
  cases fault with
  | duplicateAccess visibility => exact ((opensOtherwise "duplicate accessibility modifier `").append _).append _
  | conflictingAccess first second =>
    exact ((((opensOtherwise "conflicting accessibility modifiers `").append _).append _).append _).append _
  | protectedInStruct => exact opensOtherwise _
  | duplicateReadonly => exact opensOtherwise _
  | storageOnParam word => exact ((opensOtherwise "`").append word).append _
  | duplicateStorage word => exact ((opensOtherwise "duplicate `").append word).append _
  | conflictingStorage word earlier => exact ((((opensOtherwise "`").append word).append _).append earlier).append _
  | misplaced word site => exact (((opensOtherwise "`").append word).append _).append _
  | readonlyConst => exact opensOtherwise _
  | readonlyAlone => exact (opensOtherwise "`readonly` without an accessibility modifier does not capture the parameter; ").append _
  | fieldTarget written => exact ((opensOtherwise "attribute `").append _).append _
  | unknownTarget target => exact ((opensOtherwise "`").append target).append _

namespace TableFault

theorem opensOtherwise_message {fault : TableFault} (hf : ∀ name, fault ≠ .circularBase name) : OpensOtherwise fault.message := by
  cases fault with
  | writtenType fault => exact fault.opensOtherwise_message
  | voidValue => exact opensOtherwise _
  | builtinName name => exact ((opensOtherwise "type `").append name).append _
  | duplicateType name => exact ((opensOtherwise "type `").append name).append _
  | duplicateIndexer type count => exact ((((opensOtherwise "`").append type).append _).append _).append _
  | duplicateMember type name => exact ((((opensOtherwise "`").append type).append _).append name).append _
  | memberNamedAsType name => exact ((opensOtherwise "member `").append name).append _
  | modifier fault => exact fault.opensOtherwise_message
  | badConstraint type => exact ((opensOtherwise "`").append _).append _
  | structBase name => exact ((opensOtherwise "struct `").append name).append _
  | badBase base name => exact ((((opensOtherwise "base type `").append _).append _).append name).append _
  | circularBase name => exact absurd rfl (hf name)

/-- No other fault has the wording of a circle. -/
theorem message_ne_circularBase {fault : TableFault} (hf : ∀ name, fault ≠ .circularBase name) (name : String) :
    fault.message ≠ (circularBase name).message := by
  intro h
  obtain ⟨front, hfront, hne⟩ := opensOtherwise_message hf
  have circle : ['c', 'i'] <+: ("circular base type dependency involving `" ++ name ++ "`").toList := by
    rw [String.toList_append, String.toList_append, List.append_assoc]
    exact (by decide : ['c', 'i'] <+: "circular base type dependency involving `".toList).trans (List.prefix_append _ _)
  rw [h] at hfront
  rcases List.prefix_or_prefix_of_prefix hfront circle with hp | hp
  · exact hne.1 hp
  · exact hne.2 hp

/-- The wording of a circle tells the declaration. -/
theorem name_of_message_circularBase {name other : String}
    (h : (circularBase name).message = (circularBase other).message) : name = other := by
  have h : "circular base type dependency involving `" ++ name ++ "`" =
    "circular base type dependency involving `" ++ other ++ "`" := h
  exact (String.append_right_inj _).1 ((String.append_left_inj _).1 h)

end TableFault

namespace TypeTable

variable {t : TypeTable} {type x : Ty} {name : String} {args : List Ty}

/-! ## Bases without an end -/

/-- The bases of a type do not end. -/
def Endless (t : TypeTable) (type : Ty) : Prop :=
  ∀ n, ∃ x, t.Ancestor type n x

theorem Ancestor.unique {n : Nat} {y : Ty} (h : t.Ancestor type n x) (h' : t.Ancestor type n y) : x = y := by
  induction h generalizing y with
  | self => exact (ancestor_zero.1 h').symm
  | base _ hb ih =>
    cases h' with
    | base h' hb' =>
      rw [ih h', hb'] at hb
      exact (Option.some.inj hb).symm

theorem Ancestor.split {m n : Nat} (h : t.Ancestor type (m + n) x) : ∃ y, t.Ancestor type m y ∧ t.Ancestor y n x := by
  induction n generalizing x with
  | zero => exact ⟨x, h, .self⟩
  | succ n ih =>
    cases h with
    | base h hb =>
      obtain ⟨y, hy, hn⟩ := ih h
      exact ⟨y, hy, .base hn hb⟩

/-- Bases do not depend on the arguments of a type but for theirs. -/
theorem Closed.ancestor_args (h : t.Closed) {n : Nat} (ha : t.Ancestor (.named name args) n x) (args' : List Ty) :
    ∃ base as bs, x = .named base as ∧ t.Ancestor (.named name args') n (.named base bs) := by
  induction ha with
  | self => exact ⟨name, args, args', rfl, .self⟩
  | base _ hb ih =>
    obtain ⟨base, as, bs, rfl, hbs⟩ := ih
    rcases h.base_cases base with ⟨-, none⟩ | ⟨next, written, -, some⟩
    · rw [none as] at hb
      cases hb
    · obtain ⟨as', has⟩ := some as
      obtain ⟨bs', hnext⟩ := some bs
      rw [has] at hb
      exact ⟨next, as', bs', (Option.some.inj hb).symm, .base hbs hnext⟩

/-- A type that comes back to its own name does so over and over. -/
theorem Closed.endless_of_own (h : t.Closed) {n : Nat} {args' : List Ty}
    (ha : t.Ancestor (.named name args) (n + 1) (.named name args')) : t.Endless (.named name args) := by
  have again (k : Nat) : ∃ bs, t.Ancestor (.named name args) (k * (n + 1)) (.named name bs) := by
    induction k with
    | zero => exact ⟨args, (Nat.zero_mul (n + 1)).symm ▸ .self⟩
    | succ k ih =>
      obtain ⟨bs, hk⟩ := ih
      obtain ⟨base, as, cs, he, hc⟩ := h.ancestor_args ha bs
      cases he
      exact ⟨cs, Nat.succ_mul k (n + 1) ▸ hk.trans hc⟩
  intro k
  obtain ⟨bs, hk⟩ := again k
  exact hk.earlier (Nat.le_mul_of_pos_right k (Nat.succ_pos n))

/-- Bases do not end exactly when they lead into a circle. -/
theorem Closed.endless_iff (h : t.Closed) : t.Endless (.named name args) ↔
    ∃ m base as, t.Ancestor (.named name args) m (.named base as) ∧
      ∃ n bs, t.Ancestor (.named base as) (n + 1) (.named base bs) := by
  constructor
  · intro he
    have named (n : Nat) : ∃ base as, t.Ancestor (.named name args) n (.named base as) := by
      obtain ⟨x, hx⟩ := he n
      obtain ⟨base, as, bs, rfl, -⟩ := h.ancestor_args hx args
      exact ⟨base, as, hx⟩
    choose names arguments chain using named
    -- a type that has a base is one of the table, and of these there are only so many
    have known (n : Nat) : names n ∈ (t.types.map (·.name)).toFinset := by
      obtain ⟨x, hx⟩ := he (n + 1)
      cases hx with
      | base h hb =>
        rw [h.unique (chain n)] at hb
        obtain ⟨info, hf, -⟩ := by simpa [TypeTable.baseOf?, Option.bind_eq_some_iff] using hb
        rw [List.mem_toFinset, ← eq_of_beq (List.find?_some hf :)]
        exact List.mem_map_of_mem (List.mem_of_find?_eq_some hf)
    have circle {i j : Nat} (hij : i < j) (hn : names i = names j) :
        ∃ m base as, t.Ancestor (.named name args) m (.named base as) ∧
          ∃ n bs, t.Ancestor (.named base as) (n + 1) (.named base bs) := by
      obtain ⟨n, rfl⟩ := Nat.exists_eq_add_of_lt hij
      obtain ⟨y, hy, hback⟩ := Ancestor.split (n := n + 1) (chain (i + n + 1))
      rw [hy.unique (chain i), ← hn] at hback
      exact ⟨i, names i, arguments i, chain i, n, _, hback⟩
    have hcard : (t.types.map (·.name)).toFinset.card < (Finset.range ((t.types.map (·.name)).toFinset.card + 1)).card := by
      rw [Finset.card_range]
      exact Nat.lt_succ_self _
    obtain ⟨i, -, j, -, hne, hn⟩ := Finset.exists_ne_map_eq_of_card_lt_of_maps_to hcard (fun n _ => known n)
    rcases Nat.lt_or_gt_of_ne hne with hij | hij
    · exact circle hij hn
    · exact circle hij hn.symm
  · rintro ⟨m, base, as, hm, n, bs, hn⟩ k
    obtain ⟨x, hx⟩ := h.endless_of_own hn k
    exact (hm.trans hx).earlier (Nat.le_add_left k m)

/-- Where a circle is found, there is one base more than is counted, or the search is back where it began. -/
theorem Closed.ancestor_of_basesCircle (h : t.Closed) {start : String} {count : Nat}
    (hc : t.basesCircle start count ((t.find? name).bind (·.base)) = true) :
    (∃ x, t.Ancestor (.named name args) (count + 1) x) ∨ ∃ n as, t.Ancestor (.named name args) (n + 1) (.named start as) := by
  induction count generalizing name args with
  | zero =>
    rcases h.base_cases name with ⟨hbase, -⟩ | ⟨next, written, -, some⟩
    · rw [hbase] at hc
      cases hc
    · obtain ⟨as, has⟩ := some args
      exact .inl ⟨_, .base .self has⟩
  | succ count ih =>
    rcases h.base_cases name with ⟨hbase, -⟩ | ⟨next, written, hbase, some⟩
    · rw [hbase] at hc
      cases hc
    · obtain ⟨as, has⟩ := some args
      rw [hbase, basesCircle, Bool.or_eq_true, beq_iff_eq] at hc
      rcases hc with rfl | hc
      · exact .inr ⟨0, as, .base .self has⟩
      · have next : (∃ x, t.Ancestor (.named next as) (count + 1) x) ∨
            ∃ n bs, t.Ancestor (.named next as) (n + 1) (.named start bs) := ih hc
        rcases next with ⟨x, hx⟩ | ⟨n, bs, hn⟩
        · exact .inl ⟨x, ancestor_succ.2 ⟨_, has, hx⟩⟩
        · exact .inr ⟨n + 1, bs, ancestor_succ.2 ⟨_, has, hn⟩⟩

/-! ## Findings about circles -/

theorem nodup_addOutlines (t : TypeTable) (ds : List TypeDecl) : ((t.addOutlines ds).value.2.map (·.name)).Nodup := by
  induction ds generalizing t with
  | nil => exact List.nodup_nil
  | cons d ds ih =>
    rw [addOutlines]
    split
    · exact ih t
    · refine List.nodup_cons.2 ⟨fun hd => ?_, ih _⟩
      obtain ⟨e, he, hn⟩ := List.mem_map.1 hd
      have hf := find?_of_mem_addOutlines he
      unfold find? at hf
      rw [List.find?_append, Option.or_eq_none_iff, List.find?_cons_of_pos (by simpa [TypeDecl.outline] using hn.symm)] at hf
      cases hf.2

/-- Of findings along declarations with names of their own, those that only one declaration can make are those that it makes. -/
theorem flatMap_eq_of_nodup {β : Type} {f : TypeDecl → List β} {ds : List TypeDecl} {d : TypeDecl}
    (hn : (ds.map (·.name)).Nodup) (hd : d ∈ ds) (hf : ∀ e ∈ ds, e.name ≠ d.name → f e = []) : ds.flatMap f = f d := by
  induction ds with
  | nil => cases hd
  | cons e ds ih =>
    rw [List.map_cons, List.nodup_cons] at hn
    rw [List.flatMap_cons]
    rcases List.mem_cons.1 hd with rfl | hd
    · have others : ds.flatMap f = [] := by
        refine List.flatMap_eq_nil_iff.2 fun e he => hf e (List.mem_cons_of_mem d he) fun hne => ?_
        exact hn.1 (hne ▸ List.mem_map_of_mem he)
      rw [others, List.append_nil]
    · have hne : e.name ≠ d.name := fun hne => hn.1 (hne ▸ List.mem_map_of_mem hd)
      rw [hf e List.mem_cons_self hne, List.nil_append]
      exact ih hn.2 hd fun e he => hf e (List.mem_cons_of_mem _ he)

end TypeTable

/-- The declarations of a unit whose types the table has. -/
def SourceUnit.registered (u : SourceUnit) : List TypeDecl :=
  (TypeTable.builtin.addOutlines u.types).value.2

namespace TypeTable

variable {u : SourceUnit} {d : TypeDecl} {name : String} {args : List Ty}

theorem message_of_mem_checkCircle {t : TypeTable} {e : TypeDecl} {n : Diagnostic} (h : n ∈ (t.checkCircle e).notes) :
    n.message = (TableFault.circularBase e.name).message := by
  unfold checkCircle at h
  split at h
  · rw [List.mem_singleton.1 h]
    rfl
  · cases h

/-- The findings that say that the bases of a declaration lead into a circle are those of the search from there. -/
theorem circles_of_decl (hd : d ∈ u.registered) :
    (build u).notes.filter (·.message == (TableFault.circularBase d.name).message) = ((build u).value.checkCircle d).notes := by
  have others {notes : List Diagnostic} (hn : ∀ n ∈ notes, TableFault.Reports (fun _ => True) n) :
      notes.filter (·.message == (TableFault.circularBase d.name).message) = [] := by
    refine List.filter_eq_nil_iff.2 fun n hm => ?_
    obtain ⟨fault, span, hf, -, rfl⟩ := hn n hm
    rw [beq_iff_eq]
    exact TableFault.message_ne_circularBase hf d.name
  obtain ⟨outlines, signatures⟩ := says_signatures (u := u) fun d _ => d.within_of_forall fun _ => trivial
  rw [notes_build, List.filter_append, List.filter_append, others outlines, others signatures, List.nil_append, List.nil_append,
    List.filter_flatMap, flatMap_eq_of_nodup (nodup_addOutlines builtin u.types) hd]
  · refine List.filter_eq_self.2 fun n hn => ?_
    rw [beq_iff_eq]
    exact message_of_mem_checkCircle hn
  · intro e _ hne
    refine List.filter_eq_nil_iff.2 fun n hn => ?_
    rw [beq_iff_eq, message_of_mem_checkCircle hn]
    exact fun h => hne (TableFault.name_of_message_circularBase h)

/-- A circle is found from a declaration whose bases do not end. -/
theorem basesCircle_of_endless (h : (build u).value.Endless (.named name args)) (start : String) (count : Nat) :
    (build u).value.basesCircle start count (((build u).value.find? name).bind (·.base)) = true := by
  by_contra hc
  rw [Bool.not_eq_true] at hc
  obtain ⟨x, hx⟩ := h (count + 1)
  exact absurd ((closed_build u).ancestor_le hc hx) (Nat.not_succ_le_self count)

end TypeTable

/-- Bases without an end are always found. A declaration of a type whose bases do not end is reported exactly once to lead into a
circle, at its base, and one whose bases end before the search gives up is not. And where no circle is reported at all, the bases of
every type end: they are one more at most than are looked at, and no type is among its own. -/
theorem SourceUnit.circles_reported (u : SourceUnit) :
    (∀ d ∈ u.registered, ∀ args,
        ((TypeTable.build u).value.Endless (.named d.name args) →
          (TypeTable.build u).notes.filter (·.message == (TableFault.circularBase d.name).message) =
            [(TableFault.circularBase d.name).finding ((d.base.map (·.type.span)).getD d.nameSpan)]) ∧
        ((∀ x, ¬ (TypeTable.build u).value.Ancestor (.named d.name args) (TypeTable.maxBaseDepth + 2) x) →
          (TypeTable.build u).notes.filter (·.message == (TableFault.circularBase d.name).message) = [])) ∧
      ((∀ n ∈ (TypeTable.build u).notes, ∀ name, n.message ≠ (TableFault.circularBase name).message) →
        ∀ name args n x, (TypeTable.build u).value.Ancestor (.named name args) n x →
          n ≤ TypeTable.maxBaseDepth + 1 ∧ ∀ args', x = .named name args' → n = 0) := by
  constructor
  · intro d hd args
    rw [TypeTable.circles_of_decl hd, TypeTable.checkCircle]
    constructor
    · intro he
      rw [if_pos (TypeTable.basesCircle_of_endless he _ _)]
      rfl
    · intro hshort
      rw [if_neg]
      · rfl
      intro hc
      rcases (TypeTable.closed_build u).ancestor_of_basesCircle hc with ⟨x, hx⟩ | ⟨n, as, hown⟩
      · exact hshort x hx
      · obtain ⟨x, hx⟩ := (TypeTable.closed_build u).endless_of_own hown (TypeTable.maxBaseDepth + 2)
        exact hshort x hx
  · intro hq
    have circles : ∀ d ∈ u.registered, (TypeTable.build u).value.basesCircle d.name (TypeTable.maxBaseDepth + 1)
        (((TypeTable.build u).value.find? d.name).bind (·.base)) = false := by
      intro d hd
      by_contra hc
      have found := TypeTable.circles_of_decl hd
      rw [TypeTable.checkCircle, if_pos ((Bool.not_eq_false _).mp hc)] at found
      have hm : (TableFault.circularBase d.name).finding ((d.base.map (·.type.span)).getD d.nameSpan) ∈
          (TypeTable.build u).notes.filter (·.message == (TableFault.circularBase d.name).message) := by
        rw [found]
        exact List.mem_singleton_self _
      exact hq _ (List.mem_of_mem_filter hm) d.name rfl
    intro name args n x ha
    refine ⟨TypeTable.ancestor_le_of_circles circles ha, ?_⟩
    rintro args' rfl
    cases n with
    | zero => rfl
    | succ n =>
      obtain ⟨y, hy⟩ := (TypeTable.closed_build u).endless_of_own ha (TypeTable.maxBaseDepth + 2)
      exact absurd (TypeTable.ancestor_le_of_circles circles hy) (by decide)

/-- A class with a base and nothing else. -/
def classOn (name base : String) : TypeDecl where
  modifiers := []
  kind := .classType
  name := name
  nameSpan := default
  generics := []
  primary := none
  base := some ⟨.simple base default, none, default⟩
  members := []
  span := default

/-- A class outside of a circle of two that leads into it is reported, and without a circle two classes in a row are not. -/
theorem SourceUnit.circle_reported_from_outside :
    let u : SourceUnit := ⟨[classOn "A" "B", classOn "B" "A", classOn "C" "A"]⟩
    let v : SourceUnit := ⟨(List.range 2).map rowClass⟩
    (classOn "C" "A" ∈ u.registered ∧ (TypeTable.build u).value.Endless (.simple "C") ∧
        (TypeTable.build u).notes.filter (·.message == (TableFault.circularBase "C").message) =
          [(TableFault.circularBase "C").finding default]) ∧
      (TypeTable.build v).notes = [] ∧
        ∀ n x, (TypeTable.build v).value.Ancestor (.simple (rowName 1)) n x → n ≤ TypeTable.maxBaseDepth + 1 := by
  intro u v
  have hd : classOn "C" "A" ∈ u.registered := .tail _ (.tail _ (.head _))
  have hc : (TypeTable.build u).value.baseOf? (.simple "C") = some (.simple "A") := by decide +kernel
  have ha : (TypeTable.build u).value.baseOf? (.simple "A") = some (.simple "B") := by decide +kernel
  have hb : (TypeTable.build u).value.baseOf? (.simple "B") = some (.simple "A") := by decide +kernel
  have he : (TypeTable.build u).value.Endless (.simple "C") :=
    (TypeTable.closed_build u).endless_iff.2 ⟨1, "A", [], .base .self hc, 1, [], .base (.base .self ha) hb⟩
  have hv : (TypeTable.build v).notes = [] := by decide +kernel
  have found := ((circles_reported u).1 (classOn "C" "A") hd []).1 he
  refine ⟨⟨hd, he, found⟩, hv, fun n x hx => ?_⟩
  exact ((circles_reported v).2 (fun n hn => absurd hn (hv ▸ List.not_mem_nil)) _ _ n x hx).1

end NavCheck
