import NavCheck.Proofs.KnownTables
import NavCheck.Proofs.Lineages
import NavCheck.Table.Assignable

/-!
# Assignability as an order

When a value of one type may be stored where another type is expected, as rules: one for each reason why it may. On types that
are fit for values, `TypeTable.assignable` decides whether a rule applies. In the table of a unit whose bases are few enough to be
searched to the end, the types are ordered by it: what may be stored in a place may be stored wherever that place may.
-/

namespace NavCheck

/-! ## Types of values -/

namespace Ty

mutual

/-- Whether a type can be a part of others: the error type does not occur in it, nothing in it is nullable twice, and `void` is
only what delegates give. -/
def isRegular : Ty → Bool
  | .named _ args => allRegular args
  | .array element => element.isRegular
  | .nullable inner => inner.inner?.isNone && inner.isRegular
  | .param _ _ => true
  | .delegate params result => allRegular params && (result = .void || result.isRegular)
  | .null => true
  | .void => false
  | .error => false

/-- Whether several types can be parts of others. -/
def allRegular : List Ty → Bool
  | [] => true
  | t :: ts => t.isRegular && allRegular ts

end

/-- A type that something can have: `void`, or a type that can be a part of others. -/
def IsWhole (t : Ty) : Prop :=
  t = .void ∨ t.isRegular = true

/-- Whether a type can be made nullable: it is not `void`, and `null` is not among its values already by its form. -/
def isPresent : Ty → Bool
  | .null | .void | .nullable _ => false
  | _ => true

variable {a : Ty}

mutual

theorem known_of_isRegular : ∀ t : Ty, t.isRegular = true → t.Known
  | .named _ args, h => known_named.2 (known_of_allRegular args h)
  | .array element, h => known_of_isRegular element h
  | .nullable inner, h => known_of_isRegular inner (Bool.and_eq_true_iff.1 h).2
  | .param _ _, _ => known_param
  | .delegate params result, h => by
    obtain ⟨hp, hr⟩ := Bool.and_eq_true_iff.1 h
    refine known_delegate.2 ⟨known_of_allRegular params hp, ?_⟩
    rcases Bool.or_eq_true_iff.1 hr with hr | hr
    · rw [of_decide_eq_true hr]
      exact known_void
    · exact known_of_isRegular result hr
  | .null, _ => known_null

theorem known_of_allRegular : ∀ ts : List Ty, allRegular ts = true → ∀ t ∈ ts, t.Known
  | [], _ => List.forall_mem_nil _
  | t :: ts, h => by
    obtain ⟨ht, hts⟩ := Bool.and_eq_true_iff.1 h
    exact List.forall_mem_cons.2 ⟨known_of_isRegular t ht, known_of_allRegular ts hts⟩

end

theorem IsWhole.known (h : a.IsWhole) : a.Known := by
  rcases h with rfl | h
  · exact known_void
  · exact known_of_isRegular a h

/-- What is nullable in a type is there and is neither `void` nor nullable itself. -/
theorem IsWhole.of_nullable (h : (nullable a).IsWhole) : a.IsWhole ∧ a ≠ .void ∧ a.inner? = none := by
  rcases h with h | h
  · cases h
  obtain ⟨hi, hr⟩ := Bool.and_eq_true_iff.1 h
  refine ⟨.inr hr, ?_, Option.isNone_iff_eq_none.1 hi⟩
  rintro rfl
  cases hr

/-- What a delegate gives. -/
theorem IsWhole.of_delegate {params : List Ty} (h : (delegate params a).IsWhole) : a.IsWhole := by
  rcases h with h | h
  · cases h
  obtain ⟨-, hr⟩ := Bool.and_eq_true_iff.1 h
  exact (Bool.or_eq_true_iff.1 hr).imp of_decide_eq_true id

end Ty

/-! ## Tables of units -/

/-- What the table of every unit says of its types: numbers are plain values without a base, `object` is a reference without a
base, and a base is a type of references with a name. -/
structure TypeTable.Rooted (t : TypeTable) : Prop where
  number : ∀ {type rank}, Ty.numericRank? type = some rank → t.baseOf? type = none ∧ t.classify type = .value
  object : t.baseOf? .object = none ∧ t.classify .object = .reference
  base : ∀ {type base}, t.baseOf? type = some base → t.classify base = .reference ∧ ∃ name args, base = .named name args
  category : ∀ {name info}, t.find? name = some info → info.category = .reference ∨ info.category = .value

theorem Ty.eq_simple_of_numericRank? {type : Ty} {rank : Nat} (h : type.numericRank? = some rank) :
    ∃ name ∈ ["int", "long", "double"], type = .simple name := by
  unfold Ty.numericRank? at h
  split at h
  · exact ⟨"int", by simp, rfl⟩
  · exact ⟨"long", by simp, rfl⟩
  · exact ⟨"double", by simp, rfl⟩
  · cases h

namespace TypeTable

/-- A base that is read is a reference. -/
theorem reference_readBase (t : TypeTable) (scope : List GenericInfo) (d : TypeDecl) :
    ∀ b ∈ (t.readBase scope d).value, t.classify b = .reference := by
  have none : ∀ b ∈ (Option.none : Option Ty), t.classify b = .reference := fun _ hb => nomatch hb
  unfold readBase
  split
  · split
    · exact none
    rw [Noted.value_bind]
    split
    · exact none
    split
    · rename_i hb
      intro b hm
      cases hm
      unfold canBeBase at hb
      split at hb
      · exact of_decide_eq_true (Bool.and_eq_true_iff.1 hb).1
      · cases hb
    · exact none
  · exact none

/-- The bases of the types of a unit are references. -/
theorem reference_base_build {u : SourceUnit} {name : String} {info : TypeInfo}
    (hf : (build u).value.find? name = some info) : ∀ b ∈ info.base, (build u).value.classify b = .reference := by
  intro b hb
  rw [value_build] at hf ⊢
  rw [classify_withSignatures]
  rw [find?_withSignatures, lookup_map_find? TypeDecl.name] at hf
  obtain ⟨outline, ho, rfl⟩ := Option.map_eq_some_iff.1 hf
  cases hd : (builtin.addOutlines u.types).value.2.find? fun d => d.name == name with
  | some d =>
    rw [hd] at hb
    exact reference_readBase _ _ d b hb
  | none =>
    rw [hd] at hb
    exact absurd hb (base_of_find?_addOutlines ho ▸ nofun)

/-- The table of every unit is as it has to be. -/
theorem rooted_build (u : SourceUnit) : (build u).value.Rooted where
  number {type rank} h := by
    obtain ⟨name, hn, rfl⟩ := Ty.eq_simple_of_numericRank? h
    have hf : (build u).value.find? name = some (.bare name .value) := by
      refine find?_build_of_builtin u ?_
      simp only [List.mem_cons, List.not_mem_nil, or_false] at hn
      rcases hn with rfl | rfl | rfl <;> decide
    rw [Ty.simple, baseOf?, classify, hf]
    exact ⟨rfl, rfl⟩
  object := by
    have hf : (build u).value.find? "object" = some TypeInfo.objectInfo := find?_build_of_builtin u (by decide)
    rw [Ty.object, Ty.simple, baseOf?, classify, hf]
    exact ⟨rfl, rfl⟩
  base {type base} h := by
    cases type with
    | named name args =>
      obtain ⟨info, hf, written, hw, rfl⟩ := by simpa [baseOf?, Option.bind_eq_some_iff] using h
      have hr := reference_base_build hf written hw
      obtain ⟨hi, -⟩ := ((closed_build u).find? hf).base written hw
      cases hi with
      | mk _ _ =>
        obtain ⟨args, he⟩ := Ty.substitute_named (info.substitution args)
        rw [he]
        exact ⟨hr, _, _, rfl⟩
    | _ => cases h
  category {name info} h := by
    rw [value_build] at h
    obtain ⟨outline, ho, -, hc, -, -⟩ := outline_withSignatures _ _ h
    rw [hc]
    have hm := List.mem_of_find?_eq_some ho
    rw [types_addOutlines, List.mem_append] at hm
    rcases hm with hm | hm
    · have categories : ∀ info ∈ builtin.types, info.category = .reference ∨ info.category = .value := by decide
      exact categories outline hm
    · obtain ⟨d, -, rfl⟩ := List.mem_map.1 hm
      show d.kind.category = _ ∨ d.kind.category = _
      cases d.kind
      · exact .inl rfl
      · exact .inr rfl

/-! ## Rules -/

variable {t : TypeTable} {a b c : Ty}

/-- Why a value of a type with a name may be stored where another type is expected: that is `object`, or a number type that is
at least as wide, or the type itself or one of its bases. -/
inductive Widens (t : TypeTable) (a : Ty) : Ty → Prop
  | object : Widens t a .object
  | number {name : String} {args : List Ty} {i j : Nat} (ha : a.numericRank? = some i)
      (hb : (Ty.named name args).numericRank? = some j) (h : i ≤ j) : Widens t a (.named name args)
  | base {name : String} {args : List Ty} {n : Nat} (hn : n < maxBaseDepth) (h : t.Ancestor a n (.named name args)) :
      Widens t a (.named name args)

/-- Why a value of a type may be stored where another type is expected. -/
inductive Fits (t : TypeTable) : Ty → Ty → Prop
  | refl (a : Ty) : Fits t a a
  | null {b : Ty} (h : t.acceptsNull b = true) : Fits t .null b
  | nullable {a b : Ty} (h : Fits t a b) : Fits t (.nullable a) (.nullable b)
  | present {a b : Ty} (ha : a.isPresent = true) (h : Fits t a b) : Fits t a (.nullable b)
  | result {params : List Ty} {a b : Ty} (h : Fits t a b) : Fits t (.delegate params a) (.delegate params b)
  | discarded (params : List Ty) (a : Ty) : Fits t (.delegate params a) (.delegate params .void)
  | object {a : Ty} (h : a ≠ .void) : Fits t a .object
  | named {name : String} {args : List Ty} {b : Ty} (h : t.Widens (.named name args) b) : Fits t (.named name args) b
  | param {name base : String} {b : Ty} (h : t.Widens (.simple base) b) : Fits t (.param name (.base base)) b

theorem derives_iff : t.derives a b = true ↔ ∃ n < maxBaseDepth, t.Ancestor a n b := by
  rw [derives, List.contains_iff_mem]
  constructor
  · intro h
    obtain ⟨n, hlen, rfl⟩ := List.getElem_of_mem h
    exact ⟨n, getElem?_lineage.1 (List.getElem?_eq_some_iff.2 ⟨hlen, rfl⟩)⟩
  · rintro ⟨n, h⟩
    exact List.mem_of_getElem? (getElem?_lineage.2 h)

theorem sameParams_self (ps : List Ty) : sameParams ps ps = true := by
  induction ps with
  | nil => rfl
  | cons p ps ih => simp [sameParams, ih]

theorem eq_of_sameParams {ps qs : List Ty} (h : sameParams ps qs = true) (hp : ∀ p ∈ ps, p.Known) (hq : ∀ q ∈ qs, q.Known) :
    ps = qs := by
  induction ps generalizing qs with
  | nil => cases qs <;> [rfl; cases h]
  | cons p ps ih =>
    cases qs with
    | nil => cases h
    | cons q qs =>
      obtain ⟨hp₀, hp⟩ := List.forall_mem_cons.1 hp
      obtain ⟨hq₀, hq⟩ := List.forall_mem_cons.1 hq
      obtain ⟨h₀, h⟩ := Bool.and_eq_true_iff.1 h
      simp only [Bool.or_eq_true, beq_iff_eq, hp₀.ne_error, hq₀.ne_error, or_false] at h₀
      rw [h₀, ih h hp hq]

/-- A number type has no bases but itself. -/
theorem Rooted.eq_of_ancestor_number (h : t.Rooted) {i n : Nat} (ha : a.numericRank? = some i) (hab : t.Ancestor a n b) :
    b = a := by
  cases n with
  | zero => exact ancestor_zero.1 hab
  | succ n =>
    obtain ⟨base, hb, -⟩ := ancestor_succ.1 hab
    rw [(h.number ha).1] at hb
    cases hb

/-- Only a type with a name counts in place of another one. -/
theorem Widens.exists_named (h : t.Widens a b) : ∃ name args, b = .named name args := by
  cases h <;> exact ⟨_, _, rfl⟩

theorem Rooted.namedAssignable_iff (h : t.Rooted) {name : String} {args : List Ty} :
    t.namedAssignable (.named name args) b = true ↔ t.Widens (.named name args) b := by
  constructor
  · intro hn
    unfold namedAssignable at hn
    split at hn
    · rename_i ho
      exact ho ▸ .object
    · split at hn
      · split at hn
        · rename_i ha hb
          exact .number ha hb (of_decide_eq_true hn)
        · obtain ⟨n, hlt, ha⟩ := derives_iff.1 hn
          exact .base hlt ha
      · cases hn
  · intro hw
    obtain ⟨other, others, rfl⟩ := hw.exists_named
    unfold namedAssignable
    split
    · rfl
    dsimp only
    cases hw with
    | object => exact absurd rfl ‹_›
    | number ha hb hle =>
      rw [ha, hb]
      exact decide_eq_true hle
    | base hlt ha =>
      have hd := derives_iff.2 ⟨_, hlt, ha⟩
      split
      · rename_i hi hj
        rw [h.eq_of_ancestor_number hi ha] at hj
        exact decide_eq_true (Nat.le_of_eq (Option.some.inj (hi.symm.trans hj)))
      · exact hd

/-- What is found to be assignable is so for a reason. -/
theorem Rooted.fits_of_assignable (h : t.Rooted) (hf : t.assignable a b = true) (ha : a.Known) (hb : b.Known) :
    t.Fits a b := by
  fun_induction t.assignable a b with
  | case1 source target he =>
    rcases he with rfl | rfl | rfl
    · exact .refl _
    · exact absurd ha Ty.not_known_error
    · exact absurd hb Ty.not_known_error
  | case4 | case7 | case11 => exact .null hf
  | case5 inner sourceInner _ ih => exact .nullable (ih hf ha hb)
  | case6 source inner hv hn hi _ ih =>
    refine .present ?_ (ih hf ha hb)
    unfold Ty.isPresent
    split
    · exact absurd rfl hn
    · exact absurd rfl hv
    · exact absurd rfl (hi _)
    · rfl
  | case8 params result sourceParams sourceResult _ ih =>
    obtain ⟨hp, hr⟩ := Bool.and_eq_true_iff.1 hf
    obtain ⟨hpa, hra⟩ := Ty.known_delegate.1 ha
    obtain ⟨hpb, hrb⟩ := Ty.known_delegate.1 hb
    obtain rfl := eq_of_sameParams hp hpa hpb
    rcases Bool.or_eq_true_iff.1 hr with hr | hr
    · rw [of_decide_eq_true hr]
      exact .discarded _ _
    · exact .result (ih hr hra hrb)
  | case12 => exact .named (h.namedAssignable_iff.1 hf)
  | case13 target name base =>
    refine .param ?_
    rcases Bool.or_eq_true_iff.1 hf with hf | hf
    · rw [← of_decide_eq_true hf]
      exact .base (Nat.succ_pos _) .self
    · exact h.namedAssignable_iff.1 hf
  | case14 target source _ _ _ _ hv =>
    rw [of_decide_eq_true hf]
    exact .object hv
  | case2 | case3 | case9 | case10 => cases hf

theorem assignable_self (a : Ty) : t.assignable a a = true := by
  rw [assignable.eq_def]
  exact if_pos (.inl rfl)

/-- What is so for a reason is found to be assignable. -/
theorem Rooted.assignable_of_fits (h : t.Rooted) (hf : t.Fits a b) : t.assignable a b = true := by
  induction hf with
  | refl a => exact assignable_self a
  | @null b hn =>
    rw [assignable.eq_def]
    split
    · rfl
    · cases b <;> exact hn
  | nullable _ ih =>
    rw [assignable.eq_def]
    split
    · rfl
    · exact ih
  | @present a b ha _ ih =>
    rw [assignable.eq_def]
    split
    · rfl
    · cases a <;> first | exact ih | cases ha
  | @result params a b _ ih =>
    rw [assignable.eq_def]
    split
    · rfl
    · exact Bool.and_eq_true_iff.2 ⟨sameParams_self params, Bool.or_eq_true_iff.2 (.inr ih)⟩
  | discarded params a =>
    rw [assignable.eq_def]
    split
    · rfl
    · exact Bool.and_eq_true_iff.2 ⟨sameParams_self params, rfl⟩
  | @object a ha =>
    rw [assignable.eq_def]
    split
    · rfl
    · cases a with
      | void => exact absurd rfl ha
      | null => exact Bool.or_eq_true_iff.2 (.inl (decide_eq_true h.object.2))
      | named name args => exact h.namedAssignable_iff.2 .object
      | param name constraint =>
        cases constraint with
        | base base => exact Bool.or_eq_true_iff.2 (.inr (h.namedAssignable_iff.2 .object))
        | _ => rfl
      | _ => rfl
  | @named name args b hw =>
    have hn := h.namedAssignable_iff.2 hw
    obtain ⟨name', args', rfl⟩ := hw.exists_named
    rw [assignable.eq_def]
    split
    · rfl
    · exact hn
  | @param name base b hw =>
    have hn := h.namedAssignable_iff.2 hw
    obtain ⟨name', args', rfl⟩ := hw.exists_named
    rw [assignable.eq_def]
    split
    · rfl
    · exact Bool.or_eq_true_iff.2 (.inr hn)

/-! ## The order -/

/-- The bases of every type are searched to the end. -/
def Short (t : TypeTable) : Prop :=
  ∀ {a n b}, t.Ancestor a n b → n < maxBaseDepth

section

variable (h : t.Rooted)

include h

/-- A type other than a given one along its bases is a reference. -/
theorem Rooted.reference_of_ancestor {n : Nat} (ha : t.Ancestor a n b) (hne : a ≠ b) : t.classify b = .reference := by
  cases ha with
  | self => exact absurd rfl hne
  | base _ hb => exact (h.base hb).1

/-- Nothing is wider than `object`. -/
theorem Rooted.eq_of_widens_object (hw : t.Widens .object b) : b = .object := by
  cases hw with
  | object => rfl
  | number ha _ _ => cases ha
  | @base _ _ n _ ha =>
    cases n with
    | zero => exact ancestor_zero.1 ha
    | succ n =>
      obtain ⟨base, hb, -⟩ := ancestor_succ.1 ha
      rw [h.object.1] at hb
      cases hb

theorem Rooted.widens_trans (hs : t.Short) {name : String} {args : List Ty} {other : String} {others : List Ty}
    (hab : t.Widens (.named name args) (.named other others)) (hbc : t.Widens (.named other others) c) :
    t.Widens (.named name args) c := by
  cases hbc with
  | object => exact .object
  | number hb hc hle =>
    cases hab with
    | number ha hb' hle' =>
      rw [hb] at hb'
      cases hb'
      exact .number ha hc (Nat.le_trans hle' hle)
    | object => cases hb
    | base hn ha =>
      -- a number type is nobody's base but its own
      by_cases he : Ty.named name args = .named other others
      · rw [he]
        exact .number hb hc hle
      · have hr := h.reference_of_ancestor ha he
        rw [(h.number hb).2] at hr
        cases hr
  | base hn hb =>
    cases hab with
    | object =>
      rw [h.eq_of_widens_object (.base hn hb)]
      exact .object
    | number ha hb' hle =>
      rw [h.eq_of_ancestor_number hb' hb]
      exact .number ha hb' hle
    | base hm ha => exact .base (hs (ha.trans hb)) (ha.trans hb)

/-! ### Where `null` may be stored -/

theorem Rooted.acceptsNull_of_inner?_eq_none (hi : a.inner? = none) : t.acceptsNull a = true ↔ t.classify a = .reference := by
  have hn : t.classify a ≠ .nullableValue := by
    cases a with
    | named name args =>
      rw [classify]
      cases hf : t.find? name with
      | none => decide
      | some info => rcases h.category hf with hc | hc <;> simp [hc]
    | nullable => cases hi
    | param name constraint =>
      cases constraint with
      | base base =>
        rw [classify]
        split <;> [split; skip] <;> decide
      | _ => simp [classify]
    | _ => simp [classify]
  simp [acceptsNull, hn]

omit h in
theorem acceptsNull_nullable : t.acceptsNull (.nullable a) = true ↔ t.classify a = .reference ∨ t.classify a = .value := by
  rw [acceptsNull, classify]
  cases t.classify a <;> decide

omit h in
/-- A parameter is a reference when the class that it has to be of is one. -/
theorem classify_param_base {name base : String} :
    t.classify (.param name (.base base)) = if t.classify (.simple base) = .reference then .reference else .unknown := by
  rw [classify, Ty.simple, classify]
  cases t.find? base <;> rfl

theorem Rooted.reference_of_widens {name : String} {args : List Ty} (hw : t.Widens (.named name args) b)
    (hr : t.classify (.named name args) = .reference) : t.classify b = .reference := by
  cases hw with
  | object => exact h.object.2
  | number ha _ _ =>
    rw [(h.number ha).2] at hr
    cases hr
  | @base other others _ _ ha =>
    by_cases he : Ty.named name args = .named other others
    · exact he ▸ hr
    · exact h.reference_of_ancestor ha he

/-- What is a value or a reference stays one of them where it is stored. -/
theorem Rooted.classify_of_fits (hf : t.Fits a b) (ha : a.inner? = none) (hb : b.inner? = none)
    (hc : t.classify a = .reference ∨ t.classify a = .value) : t.classify b = .reference ∨ t.classify b = .value := by
  cases hf with
  | refl => exact hc
  | null hn => exact .inl ((h.acceptsNull_of_inner?_eq_none hb).1 hn)
  | nullable | present => cases hb
  | result | discarded => exact .inl rfl
  | object => exact .inl h.object.2
  | @named name args _ hw =>
    cases hw with
    | object => exact .inl h.object.2
    | number _ hn _ => exact .inr (h.number hn).2
    | @base other others _ _ hn =>
      by_cases he : Ty.named name args = .named other others
      · exact he ▸ hc
      · exact .inl (h.reference_of_ancestor hn he)
  | param hw =>
    rw [classify_param_base] at hc
    split at hc
    · exact .inl (h.reference_of_widens hw ‹_›)
    · simp at hc

/-- Where `null` may be stored, what may be stored is stored in places where `null` may be stored. -/
theorem Rooted.acceptsNull_of_fits (hf : t.Fits a b) (ha : a.IsWhole) (hb : b.IsWhole) (hn : t.acceptsNull a = true) :
    t.acceptsNull b = true := by
  cases hf with
  | refl => exact hn
  | null hn => exact hn
  | nullable hf =>
    obtain ⟨-, -, hia⟩ := ha.of_nullable
    obtain ⟨-, -, hib⟩ := hb.of_nullable
    exact acceptsNull_nullable.2 (h.classify_of_fits hf hia hib (acceptsNull_nullable.1 hn))
  | present hp hf =>
    obtain ⟨-, -, hib⟩ := hb.of_nullable
    have hia : a.inner? = none := by cases a <;> first | rfl | cases hp
    exact acceptsNull_nullable.2 (h.classify_of_fits hf hia hib (.inl ((h.acceptsNull_of_inner?_eq_none hia).1 hn)))
  | result | discarded => rfl
  | object => exact (h.acceptsNull_of_inner?_eq_none rfl).2 h.object.2
  | named hw =>
    obtain ⟨_, _, rfl⟩ := hw.exists_named
    have hr := (h.acceptsNull_of_inner?_eq_none rfl).1 hn
    exact (h.acceptsNull_of_inner?_eq_none rfl).2 (h.reference_of_widens hw hr)
  | param hw =>
    obtain ⟨_, _, rfl⟩ := hw.exists_named
    have hr := (h.acceptsNull_of_inner?_eq_none rfl).1 hn
    rw [classify_param_base] at hr
    split at hr
    · exact (h.acceptsNull_of_inner?_eq_none rfl).2 (h.reference_of_widens hw ‹_›)
    · cases hr

/-! ### Composition -/

omit h in
theorem eq_void_of_fits (hf : t.Fits .void b) : b = .void := by
  cases hf with
  | refl => rfl
  | present hp => cases hp
  | object hv => exact absurd rfl hv

/-- What may be stored in a place may be stored wherever that place may. -/
theorem Rooted.fits_trans (hs : t.Short) (hab : t.Fits a b) (hbc : t.Fits b c) (ha : a.IsWhole) (hb : b.IsWhole)
    (hc : c.IsWhole) : t.Fits a c := by
  induction hbc generalizing a with
  | refl => exact hab
  | null hn =>
    cases hab with
    | refl => exact .null hn
    | null _ => exact .null hn
    | named hw | param hw => cases hw
  | @nullable b c hbc ih =>
    cases hab with
    | refl => exact .nullable hbc
    | null hn => exact .null (h.acceptsNull_of_fits (.nullable hbc) hb hc hn)
    | nullable hab => exact .nullable (ih hab ha.of_nullable.1 hb.of_nullable.1 hc.of_nullable.1)
    | present hp hab => exact .present hp (ih hab ha hb.of_nullable.1 hc.of_nullable.1)
    | named hw | param hw => cases hw
  | @present b c hp hbc ih =>
    cases hpa : a.isPresent with
    | true => exact .present hpa (ih hab ha hb hc.of_nullable.1)
    | false =>
      cases a with
      | null => exact .null (h.acceptsNull_of_fits (.present hp hbc) hb hc (h.acceptsNull_of_fits hab ha hb rfl))
      | void =>
        cases eq_void_of_fits hab
        cases hp
      | nullable a =>
        -- only `object` is no nullable type and takes the values of one
        cases hab with
        | refl => cases hp
        | nullable => cases hp
        | present hn => cases hn
        | object =>
          obtain ⟨hwa, hva, -⟩ := ha.of_nullable
          exact .nullable (ih (.object hva) hwa hb hc.of_nullable.1)
      | _ => cases hpa
  | @result params b c hbc ih =>
    cases hab with
    | refl => exact .result hbc
    | null => exact .null rfl
    | result hab => exact .result (ih hab ha.of_delegate hb.of_delegate hc.of_delegate)
    | discarded =>
      cases eq_void_of_fits hbc
      exact .discarded _ _
    | named hw | param hw => cases hw
  | discarded =>
    cases hab with
    | refl => exact .discarded _ _
    | null => exact .null rfl
    | result => exact .discarded _ _
    | discarded => exact .discarded _ _
    | named hw | param hw => cases hw
  | object hv =>
    refine .object ?_
    rintro rfl
    exact hv (eq_void_of_fits hab)
  | named hw =>
    cases hab with
    | refl => exact .named hw
    | null hn => exact .null (h.acceptsNull_of_fits (.named hw) hb hc hn)
    | object hv =>
      rw [h.eq_of_widens_object hw]
      exact .object hv
    | named hw' => exact .named (h.widens_trans hs hw' hw)
    | param hw' => exact .param (h.widens_trans hs hw' hw)
  | param hw =>
    cases hab with
    | refl => exact .param hw
    | null hn => exact .null (h.acceptsNull_of_fits (.param hw) hb hc hn)
    | named hw | param hw => cases hw

end

/-- When the bases of every type of a closed table are fewer than what is looked at, so are those of the types with arguments. -/
theorem Closed.short (h : t.Closed)
    (hl : ∀ info ∈ t.types, (t.lineage maxBaseDepth info.selfType).length < maxBaseDepth) : t.Short := by
  intro a n b ha
  by_contra hn
  obtain ⟨x, hx⟩ := ha.earlier (k := 63) (Nat.le_trans (by decide) (Nat.le_of_not_lt hn))
  obtain ⟨base, hb, -⟩ := ancestor_succ.1 hx
  cases a with
  | named name args =>
    obtain ⟨info, hf, -⟩ := by simpa [TypeTable.baseOf?, Option.bind_eq_some_iff] using hb
    obtain rfl := find?_name hf
    obtain ⟨y, hy, -⟩ := (h.ancestor_named hf args).1 hx
    have hs := (h.ancestor_named hf (info.generics.map (·.type))).2 ⟨y, hy, rfl⟩
    have hlast : 63 < maxBaseDepth := by decide
    obtain ⟨hlen, -⟩ := List.getElem?_eq_some_iff.1 (getElem?_lineage.2 ⟨hlast, hs⟩)
    exact absurd (hl info (List.mem_of_find?_eq_some hf)) (Nat.not_lt.2 hlen)
  | _ => cases hb

/-- In the table of a unit whose bases are fewer than what is looked at, assignability orders the types that something can
have. -/
theorem assignable_preorder {u : SourceUnit}
    (short : ∀ info ∈ (build u).value.types, ((build u).value.lineage maxBaseDepth info.selfType).length < maxBaseDepth) :
    (∀ a : Ty, a.IsWhole → (build u).value.assignable a a = true) ∧
      ∀ a b c : Ty, a.IsWhole → b.IsWhole → c.IsWhole → (build u).value.assignable a b = true →
        (build u).value.assignable b c = true → (build u).value.assignable a c = true := by
  refine ⟨fun a _ => assignable_self a, fun a b c ha hb hc hab hbc => ?_⟩
  have h := rooted_build u
  have fab := h.fits_of_assignable hab ha.known hb.known
  have fbc := h.fits_of_assignable hbc hb.known hc.known
  exact h.assignable_of_fits (h.fits_trans ((closed_build u).short short) fab fbc ha hb hc)

/-- The last class of a row of three may be stored where the nullable form of the first is expected, by way of the one between. -/
theorem assignable_preorder_of_row :
    let u : SourceUnit := ⟨(List.range 3).map rowClass⟩
    (∀ info ∈ (build u).value.types, ((build u).value.lineage maxBaseDepth info.selfType).length < maxBaseDepth) ∧
      (build u).value.assignable (.simple (rowName 2)) (.simple (rowName 1)) = true ∧
        (build u).value.assignable (.simple (rowName 1)) (.nullable (.simple (rowName 0))) = true ∧
          (build u).value.assignable (.simple (rowName 2)) (.nullable (.simple (rowName 0))) = true := by
  intro u
  have short : ∀ info ∈ (build u).value.types,
      ((build u).value.lineage maxBaseDepth info.selfType).length < maxBaseDepth := by decide +kernel
  have first : (build u).value.assignable (.simple (rowName 2)) (.simple (rowName 1)) = true := by decide +kernel
  have second : (build u).value.assignable (.simple (rowName 1)) (.nullable (.simple (rowName 0))) = true := by
    decide +kernel
  exact ⟨short, first, second, (assignable_preorder short).2 _ _ _ (.inr rfl) (.inr rfl) (.inr rfl) first second⟩

end TypeTable

end NavCheck
