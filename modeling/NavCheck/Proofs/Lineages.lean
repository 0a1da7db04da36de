import NavCheck.Proofs.ClosedUnits

/-!
# Members along bases

A member that is looked up on a type is that of the nearest type along its bases that declares one, among the first types that
are looked at. Looking up on a type with arguments is looking up on the type from the inside and putting the arguments in, so the
arguments of all types on the way are put together.
-/

namespace NavCheck

/-! ## Arguments put in one after the other -/

@[simp] theorem MemberSig.substitute_nil (m : MemberSig) : m.substitute [] = m := by
  obtain ⟨name, kind, type, isStatic, owner⟩ := m
  cases kind with
  | method params =>
    have hp : params.map (ParamSig.substitute []) = params := List.map_id params
    simp [substitute, hp]
  | _ => rfl

section

variable {info : TypeInfo} {gs : List GenericInfo} {args : List Ty} (hl : args.length = info.generics.length)
  (ha : ∀ a ∈ args, a.Over gs) (s : Ty.Substitution)

include hl ha

/-- What is put in for the parameters of a type can be put into its arguments before. -/
theorem Ty.Over.substitute_substitution {type : Ty} (h : type.Over info.generics) :
    (type.substitute (info.substitution args)).substitute s =
      type.substitute (info.substitution (args.map (·.replace s))) := by
  have hm := info.maps_substitution hl ha
  rw [(h.substitute hm).substitute_eq, h.substitute_eq, h.substitute_eq, Ty.replace_replace]
  refine h.replace_congr fun g hg => ?_
  obtain ⟨found, hf, -⟩ := hm g hg
  have hz : info.substitution (args.map (·.replace s)) = (info.substitution args).map (Prod.map id (·.replace s)) := by
    rw [TypeInfo.substitution, TypeInfo.substitution, underNames, underNames, List.zip_map_right, List.map_reverse]
  rw [Ty.Substitution.lookup_followedBy, hz, Ty.Substitution.lookup_map, hf]
  rfl

theorem ParamSig.substitute_substitution {p : ParamSig} (h : p.type.Over info.generics) :
    (p.substitute (info.substitution args)).substitute s = p.substitute (info.substitution (args.map (·.replace s))) := by
  obtain ⟨name, type, hasDefault⟩ := p
  exact congrArg (ParamSig.mk name · hasDefault) (h.substitute_substitution hl ha s)

theorem MemberSig.substitute_substitution {m : MemberSig} (h : ∀ x ∈ m.types, x.Over info.generics) :
    (m.substitute (info.substitution args)).substitute s = m.substitute (info.substitution (args.map (·.replace s))) := by
  obtain ⟨name, kind, type, isStatic, owner⟩ := m
  have ht := (h type List.mem_cons_self).substitute_substitution hl ha s
  cases kind with
  | method params =>
    have hp : ∀ p ∈ params, p.type.Over info.generics := fun p hp =>
      h p.type (List.mem_cons_of_mem type (List.mem_map_of_mem hp))
    simp only [MemberSig.substitute, ht, List.map_map, MemberSig.mk.injEq, MemberKind.method.injEq, and_true, true_and]
    exact List.map_congr_left fun p hm => ParamSig.substitute_substitution hl ha s (hp p hm)
  | _ => simp only [MemberSig.substitute, ht]

end

theorem Ty.substitute_named {name : String} {args : List Ty} (s : Substitution) :
    ∃ args', (named name args).substitute s = named name args' := by
  rw [Ty.substitute]
  split
  · exact ⟨args, rfl⟩
  · exact ⟨_, replace_named⟩

namespace TypeTable

variable {t : TypeTable} {gs : List GenericInfo} {type base x : Ty} {name : String} {info : TypeInfo} {args : List Ty}

/-! ## Bases in order -/

/-- A type is reached from another one by a number of steps from a type to its base. -/
inductive Ancestor (t : TypeTable) (type : Ty) : Nat → Ty → Prop
  | self : Ancestor t type 0 type
  | base {n : Nat} {x y : Ty} (h : Ancestor t type n x) (hb : t.baseOf? x = some y) : Ancestor t type (n + 1) y

theorem ancestor_zero : t.Ancestor type 0 x ↔ x = type :=
  ⟨fun h => by cases h; rfl, fun h => h ▸ .self⟩

theorem ancestor_succ {n : Nat} : t.Ancestor type (n + 1) x ↔ ∃ base, t.baseOf? type = some base ∧ t.Ancestor base n x := by
  constructor
  · intro h
    generalize hk : n + 1 = k at h
    induction h generalizing n with
    | self => cases hk
    | base h hb ih =>
      cases hk
      cases h with
      | self => exact ⟨_, hb, .self⟩
      | base h' hb' =>
        obtain ⟨base, hbase, hn⟩ := ih rfl
        exact ⟨base, hbase, .base hn hb⟩
  · rintro ⟨base, hb, h⟩
    induction h with
    | self => exact .base .self hb
    | base _ hy ih => exact .base ih hy

theorem Ancestor.earlier {n k : Nat} (h : t.Ancestor type n x) (hk : k ≤ n) : ∃ y, t.Ancestor type k y := by
  induction h with
  | self => exact ⟨type, Nat.le_zero.1 hk ▸ .self⟩
  | base h hb ih =>
    rcases Nat.le_succ_iff.1 hk with hk | rfl
    · exact ih hk
    · exact ⟨_, .base h hb⟩

theorem Ancestor.trans {m n : Nat} {y : Ty} (h : t.Ancestor type m x) (h' : t.Ancestor x n y) : t.Ancestor type (m + n) y := by
  induction h' with
  | self => exact h
  | base _ hb ih => exact .base ih hb

/-- The types that are looked at are the first ones along the bases. -/
theorem getElem?_lineage {count n : Nat} : (t.lineage count type)[n]? = some x ↔ n < count ∧ t.Ancestor type n x := by
  induction count generalizing type n with
  | zero => simp [lineage]
  | succ count ih =>
    rw [lineage]
    cases hb : t.baseOf? type with
    | none =>
      cases n with
      | zero => simp [ancestor_zero, eq_comm]
      | succ n => simp [ancestor_succ, hb]
    | some base =>
      cases n with
      | zero => simp [ancestor_zero, eq_comm]
      | succ n => simp [ancestor_succ, hb, ih]

/-- The member of a name that the nearest type along the bases declares, among the first `limit` types. -/
def Nearest (t : TypeTable) (limit : Nat) (type : Ty) (name : String) (m : MemberSig) : Prop :=
  ∃ n < limit, ∃ x, t.Ancestor type n x ∧ t.ownMember? name x = some m ∧
    ∀ k < n, ∀ y, t.Ancestor type k y → t.ownMember? name y = none

theorem inheritedMember?_eq_some {m : MemberSig} :
    t.inheritedMember? type name = some m ↔ t.Nearest maxBaseDepth type name m := by
  rw [inheritedMember?, List.findSome?_eq_some_iff]
  constructor
  · rintro ⟨before, x, behind, hl, hm, hn⟩
    have hx : (t.lineage maxBaseDepth type)[before.length]? = some x := by simp [hl]
    obtain ⟨hlt, ha⟩ := getElem?_lineage.1 hx
    refine ⟨before.length, hlt, x, ha, hm, fun k hk y hy => hn y ?_⟩
    have hky := getElem?_lineage.2 ⟨Nat.lt_trans hk hlt, hy⟩
    rw [hl, List.getElem?_append_left hk] at hky
    exact List.mem_of_getElem? hky
  · rintro ⟨n, hlt, x, ha, hm, hn⟩
    have hx := getElem?_lineage.2 ⟨hlt, ha⟩
    obtain ⟨hlen, rfl⟩ := List.getElem?_eq_some_iff.1 hx
    refine ⟨(t.lineage maxBaseDepth type).take n, _, (t.lineage maxBaseDepth type).drop (n + 1), ?_, hm, fun y hy => ?_⟩
    · rw [← List.drop_eq_getElem_cons, List.take_append_drop]
    · obtain ⟨k, hk, rfl⟩ := List.getElem_of_mem hy
      have hkn : k < n := by
        rw [List.length_take] at hk
        omega
      refine hn k hkn _ (getElem?_lineage.1 (List.getElem?_eq_some_iff.2 ⟨Nat.lt_trans hkn hlen, ?_⟩)).2
      exact List.getElem_take.symm

/-! ## Bases of a type with arguments -/

theorem Closed.baseOf?_replace (h : t.Closed) (hi : t.Instance type) (ho : type.Over gs) (s : Ty.Substitution) :
    t.baseOf? (type.replace s) = (t.baseOf? type).map (·.replace s) := by
  obtain ⟨hf, hl⟩ := hi
  rename_i name args info
  rw [Ty.replace_named, TypeTable.baseOf?, TypeTable.baseOf?, hf]
  cases hb : info.base with
  | none => simp [hb]
  | some base =>
    have hbo := ((h.find? hf).base base hb).2
    have ha := Ty.over_named.1 ho
    have hm := (hbo.substitute (info.maps_substitution hl ha)).substitute_eq s
    simp [hb, ← hm, hbo.substitute_substitution hl ha s]

theorem Closed.ownMember?_replace (h : t.Closed) (hi : t.Instance type) (ho : type.Over gs) (s : Ty.Substitution) :
    t.ownMember? name (type.replace s) = (t.ownMember? name type).map (·.substitute s) := by
  obtain ⟨hf, hl⟩ := hi
  rename_i written args info
  rw [Ty.replace_named, TypeTable.ownMember?, TypeTable.ownMember?, hf]
  cases hm : info.member? name with
  | none => simp [hm]
  | some m =>
    have hmo := (h.find? hf).members m (List.mem_of_find?_eq_some hm)
    simp [hm, MemberSig.substitute_substitution hl (Ty.over_named.1 ho) s hmo]

/-- Arguments can be put in before or after the bases are followed. -/
theorem Closed.ancestor_replace (h : t.Closed) (hi : t.Instance type) (ho : type.Over gs) (s : Ty.Substitution) {n : Nat} :
    t.Ancestor (type.replace s) n x ↔ ∃ y, t.Ancestor type n y ∧ x = y.replace s := by
  induction n generalizing type with
  | zero => simp [ancestor_zero]
  | succ n ih =>
    simp only [ancestor_succ, h.baseOf?_replace hi ho, Option.map_eq_some_iff]
    constructor
    · rintro ⟨-, ⟨base, hb, rfl⟩, ha⟩
      obtain ⟨hbi, hbo⟩ := h.baseOf? hi ho hb
      obtain ⟨y, hy, rfl⟩ := (ih hbi hbo).1 ha
      exact ⟨y, ⟨base, hb, hy⟩, rfl⟩
    · rintro ⟨y, ⟨base, hb, hy⟩, rfl⟩
      obtain ⟨hbi, hbo⟩ := h.baseOf? hi ho hb
      exact ⟨base.replace s, ⟨base, hb, rfl⟩, (ih hbi hbo).2 ⟨y, hy, rfl⟩⟩

theorem Closed.findSome?_replace (h : t.Closed) (hi : t.Instance type) (ho : type.Over gs) (s : Ty.Substitution) (count : Nat)
    (field : String) :
    (t.lineage count (type.replace s)).findSome? (t.ownMember? field) =
      ((t.lineage count type).findSome? (t.ownMember? field)).map (·.substitute s) := by
  induction count generalizing type with
  | zero => rfl
  | succ count ih =>
    rw [TypeTable.lineage, TypeTable.lineage, h.baseOf?_replace hi ho]
    cases hb : t.baseOf? type with
    | none =>
      simp only [Option.map_none, List.findSome?_cons, h.ownMember?_replace hi ho]
      cases t.ownMember? field type <;> rfl
    | some base =>
      obtain ⟨hbi, hbo⟩ := h.baseOf? hi ho hb
      simp only [Option.map_some, List.findSome?_cons, h.ownMember?_replace hi ho, ih hbi hbo]
      cases t.ownMember? field type <;> rfl

/-- The base of a type with arguments is that of the type from the inside with the arguments put in. -/
theorem baseOf?_named (hf : t.find? name = some info) (args : List Ty) :
    t.baseOf? (.named name args) = (t.baseOf? (.simple name)).map (·.substitute (info.substitution args)) := by
  rw [Ty.simple, baseOf?, baseOf?, hf]
  cases hb : info.base <;> simp [hb]

theorem ownMember?_named (hf : t.find? name = some info) (args : List Ty) (field : String) :
    t.ownMember? field (.named name args) =
      (t.ownMember? field (.simple name)).map (·.substitute (info.substitution args)) := by
  rw [Ty.simple, ownMember?, ownMember?, hf]
  cases hm : info.member? field <;> simp [hm]

theorem Closed.base_over (h : t.Closed) (hf : t.find? name = some info) (hb : t.baseOf? (.simple name) = some base) :
    t.Instance base ∧ base.Over info.generics := by
  rw [Ty.simple, TypeTable.baseOf?, hf] at hb
  have hbase : info.base = some base := by simpa [Option.bind_eq_some_iff] using hb
  exact (h.find? hf).base base hbase

/-- What is looked up on a type with arguments is what is looked up from the inside, with the arguments put in. -/
theorem Closed.inheritedMember?_named (h : t.Closed) (hf : t.find? name = some info) (args : List Ty) (field : String) :
    t.inheritedMember? (.named name args) field =
      (t.inheritedMember? (.simple name) field).map (·.substitute (info.substitution args)) := by
  unfold TypeTable.inheritedMember? maxBaseDepth
  rw [TypeTable.lineage, TypeTable.lineage, baseOf?_named hf]
  cases hb : t.baseOf? (.simple name) with
  | none =>
    simp only [Option.map_none, List.findSome?_cons, ownMember?_named hf args]
    cases t.ownMember? field (.simple name) <;> rfl
  | some base =>
    obtain ⟨hbi, hbo⟩ := h.base_over hf hb
    simp only [Option.map_some, List.findSome?_cons, ownMember?_named hf args, hbo.substitute_eq, h.findSome?_replace hbi hbo]
    cases t.ownMember? field (.simple name) <;> rfl

/-- The bases of a type with arguments are those of the type from the inside, with the arguments put in. -/
theorem Closed.ancestor_named (h : t.Closed) (hf : t.find? name = some info) (args : List Ty) {n : Nat} :
    t.Ancestor (.named name args) (n + 1) x ↔
      ∃ y, t.Ancestor (.simple name) (n + 1) y ∧ x = y.replace (info.substitution args) := by
  simp only [ancestor_succ, baseOf?_named hf args, Option.map_eq_some_iff]
  constructor
  · rintro ⟨-, ⟨base, hb, rfl⟩, ha⟩
    obtain ⟨hbi, hbo⟩ := h.base_over hf hb
    rw [hbo.substitute_eq, h.ancestor_replace hbi hbo] at ha
    obtain ⟨y, hy, rfl⟩ := ha
    exact ⟨y, ⟨base, hb, hy⟩, rfl⟩
  · rintro ⟨y, ⟨base, hb, hy⟩, rfl⟩
    obtain ⟨hbi, hbo⟩ := h.base_over hf hb
    refine ⟨_, ⟨base, hb, rfl⟩, ?_⟩
    rw [hbo.substitute_eq, h.ancestor_replace hbi hbo]
    exact ⟨y, hy, rfl⟩

/-! ## How far bases lead -/

/-- What a base is called does not depend on the arguments of a type. -/
theorem Closed.base_cases (h : t.Closed) (name : String) :
    (t.find? name).bind (·.base) = none ∧ (∀ args, t.baseOf? (.named name args) = none) ∨
      ∃ next written, (t.find? name).bind (·.base) = some (.named next written) ∧
        ∀ args, ∃ as, t.baseOf? (.named name args) = some (.named next as) := by
  cases hf : t.find? name with
  | none => exact .inl ⟨rfl, fun args => by simp [TypeTable.baseOf?, hf]⟩
  | some info =>
    cases hb : info.base with
    | none => exact .inl ⟨hb, fun args => by simp [TypeTable.baseOf?, hf, hb]⟩
    | some base =>
      obtain ⟨⟨hbf, hbl⟩, -⟩ := (h.find? hf).base base hb
      rename_i next written _
      refine .inr ⟨next, written, hb, fun args => ?_⟩
      obtain ⟨as, has⟩ := @Ty.substitute_named next written (info.substitution args)
      exact ⟨as, by simp [TypeTable.baseOf?, hf, hb, has]⟩

/-- Where no circle is found, bases are not followed further than the search goes. -/
theorem Closed.ancestor_le (h : t.Closed) {start : String} {count n : Nat}
    (hc : t.basesCircle start count ((t.find? name).bind (·.base)) = false) (ha : t.Ancestor (.named name args) n x) :
    n ≤ count := by
  induction n generalizing count name args with
  | zero => exact Nat.zero_le _
  | succ n ih =>
    obtain ⟨base, hb, ha⟩ := ancestor_succ.1 ha
    rcases h.base_cases name with ⟨-, none⟩ | ⟨next, written, hbase, some⟩
    · rw [none args] at hb
      cases hb
    · obtain ⟨as, has⟩ := some args
      rw [has] at hb
      cases hb
      rw [hbase] at hc
      cases count with
      | zero => cases hc
      | succ count =>
        rw [basesCircle, Bool.or_eq_false_iff] at hc
        exact Nat.succ_le_succ (ih hc.2 ha)

theorem ensures_forM {ν α : Type} {fine : ν → Prop} {r : α → Prop} {f : α → Noted ν PUnit} {l : List α}
    (h : ∀ a ∈ l, Noted.Ensures fine (fun _ => r a) (f a)) : Noted.Ensures fine (fun _ => ∀ a ∈ l, r a) (l.forM f) := by
  induction l with
  | nil => exact Noted.ensures_pure (List.forall_mem_nil r)
  | cons a l ih =>
    exact (h a List.mem_cons_self).bind fun _ ha hn =>
      List.forall_mem_cons.2 ⟨ha, ih (fun b hb => h b (List.mem_cons_of_mem a hb)) hn⟩

/-- Without an error no bases lead into a circle. -/
theorem obtains_checkCircle (t : TypeTable) (d : TypeDecl) :
    Obtains (fun _ => t.basesCircle d.name (maxBaseDepth + 1) ((t.find? d.name).bind (·.base)) = false) (t.checkCircle d) := by
  unfold checkCircle
  split
  · exact Noted.ensures_bad (n := (TableFault.circularBase d.name).finding _) Bool.noConfusion pure
  · exact Noted.ensures_pure (Bool.eq_false_iff.2 ‹_›)

/-- No outline has a base. -/
theorem base_of_find?_addOutlines {ds : List TypeDecl} {outline : TypeInfo}
    (h : (builtin.addOutlines ds).value.1.find? name = some outline) : outline.base = none := by
  have hm := List.mem_of_find?_eq_some h
  rw [types_addOutlines, List.mem_append] at hm
  rcases hm with hm | hm
  · have bases : ∀ info ∈ builtin.types, info.base = none := by decide
    exact bases outline hm
  · obtain ⟨d, -, rfl⟩ := List.mem_map.1 hm
    rfl

/-- A type of the unit that has a base is a declaration of the unit. -/
theorem find?_added {u : SourceUnit} (hf : (build u).value.find? name = some info) (hb : info.base = some base) :
    ∃ d ∈ (builtin.addOutlines u.types).value.2, d.name = name := by
  rw [value_build, find?_withSignatures, lookup_map_find? TypeDecl.name] at hf
  obtain ⟨outline, ho, rfl⟩ := Option.map_eq_some_iff.1 hf
  cases hd : (builtin.addOutlines u.types).value.2.find? fun d => d.name == name with
  | some d => exact ⟨d, List.mem_of_find?_eq_some hd, eq_of_beq (List.find?_some hd :)⟩
  | none =>
    rw [hd] at hb
    exact absurd hb (base_of_find?_addOutlines ho ▸ nofun)

/-- Where no circle is found from any declaration, the bases of a type are one more at most than are looked for, when the search
for circles ends. -/
theorem ancestor_le_of_circles {u : SourceUnit} (hc : ∀ d ∈ (builtin.addOutlines u.types).value.2,
      (build u).value.basesCircle d.name (maxBaseDepth + 1) (((build u).value.find? d.name).bind (·.base)) = false) {n : Nat}
    (ha : (build u).value.Ancestor (.named name args) n x) : n ≤ maxBaseDepth + 1 := by
  cases n with
  | zero => exact Nat.zero_le _
  | succ n =>
    obtain ⟨base, hb, -⟩ := ancestor_succ.1 ha
    obtain ⟨info, hf, found, hbase, -⟩ := by simpa [TypeTable.baseOf?, Option.bind_eq_some_iff] using hb
    obtain ⟨d, hd, rfl⟩ := find?_added hf hbase
    exact (closed_build u).ancestor_le (hc d hd) ha

/-- The bases of a type of a unit without errors end. -/
theorem ancestor_le_of_build {u : SourceUnit} (hn : ∀ d ∈ (build u).notes, d.isError = false) {n : Nat}
    (ha : (build u).value.Ancestor (.named name args) n x) : n ≤ maxBaseDepth + 1 := by
  have circles : Obtains (fun t => ∀ d ∈ (builtin.addOutlines u.types).value.2,
      t.basesCircle d.name (maxBaseDepth + 1) ((t.find? d.name).bind (·.base)) = false) (build u) := by
    unfold build
    refine Noted.Ensures.bind_value (p := fun _ => True) (fun _ => trivial) fun _ => Noted.Ensures.behind fun signatures => ?_
    exact (ensures_forM fun d _ => obtains_checkCircle _ d).bind fun _ h => Noted.ensures_pure h
  exact ancestor_le_of_circles (circles hn) ha

/-! ## Members of the types of a unit -/

section

variable {u : SourceUnit} {field : String} {m : MemberSig}

theorem inheritedMember?_object : (build u).value.inheritedMember? .object field = TypeInfo.objectInfo.member? field := by
  have hf : (build u).value.find? "object" = some TypeInfo.objectInfo := find?_build_of_builtin u (by decide)
  have hb : (build u).value.baseOf? .object = none := by
    rw [Ty.object, Ty.simple, TypeTable.baseOf?, hf]
    rfl
  have ho : (build u).value.ownMember? field .object = TypeInfo.objectInfo.member? field := by
    rw [Ty.object, Ty.simple, TypeTable.ownMember?, hf]
    cases hm : TypeInfo.objectInfo.member? field <;> simp [hm]
  rw [TypeTable.inheritedMember?, maxBaseDepth, TypeTable.lineage, hb, List.findSome?_singleton, ho]

/-- A type of a unit has the member of the nearest type along its bases that declares one, among those that are looked at, and
else that of `object`. -/
theorem member?_eq_some_iff :
    (build u).value.member? (.named name args) (.plain field) = some m ↔
      (build u).value.Nearest maxBaseDepth (.named name args) field m ∨
        (∀ n < maxBaseDepth, ∀ x, (build u).value.Ancestor (.named name args) n x → (build u).value.ownMember? field x = none) ∧
          TypeInfo.objectInfo.member? field = some m := by
  have hm : (build u).value.member? (.named name args) (.plain field) =
      ((build u).value.inheritedMember? (.named name args) field).or (TypeInfo.objectInfo.member? field) := by
    rw [← inheritedMember?_object]
    rfl
  rw [hm, Option.or_eq_some_iff, inheritedMember?_eq_some]
  refine or_congr_right (and_congr_left fun _ => ?_)
  rw [TypeTable.inheritedMember?, List.findSome?_eq_none_iff]
  constructor
  · exact fun h n hn x hx => h x (List.mem_of_getElem? (getElem?_lineage.2 ⟨hn, hx⟩))
  · intro h x hx
    obtain ⟨n, hlen, rfl⟩ := List.getElem_of_mem hx
    obtain ⟨hn, ha⟩ := getElem?_lineage.1 (List.getElem?_eq_some_iff.2 ⟨hlen, rfl⟩)
    exact h n hn _ ha

/-- With fewer bases than are looked at, nothing that is declared along them is missed. -/
theorem member?_eq_some_iff_of_short (hs : ∀ x, ¬ (build u).value.Ancestor (.named name args) maxBaseDepth x) :
    (build u).value.member? (.named name args) (.plain field) = some m ↔
      (∃ n x, (build u).value.Ancestor (.named name args) n x ∧ (build u).value.ownMember? field x = some m ∧
        ∀ k < n, ∀ y, (build u).value.Ancestor (.named name args) k y → (build u).value.ownMember? field y = none) ∨
        (∀ n x, (build u).value.Ancestor (.named name args) n x → (build u).value.ownMember? field x = none) ∧
          TypeInfo.objectInfo.member? field = some m := by
  have short : ∀ {n x}, (build u).value.Ancestor (.named name args) n x → n < maxBaseDepth := by
    intro n x h
    by_contra hn
    obtain ⟨y, hy⟩ := h.earlier (Nat.le_of_not_lt hn)
    exact hs y hy
  rw [member?_eq_some_iff]
  refine or_congr ⟨?_, ?_⟩ (and_congr_left fun _ => ⟨fun h n x hx => h n (short hx) x hx, fun h n _ => h n⟩)
  · rintro ⟨n, -, x, hx⟩
    exact ⟨n, x, hx⟩
  · rintro ⟨n, x, hx, hm⟩
    exact ⟨n, short hx, x, hx, hm⟩

end

end TypeTable

/-! ## Classes in a row -/

/-- The name of a class of a long row. -/
def rowName (k : Nat) : String :=
  "C" ++ toString k

/-- A class of a long row: its base is the class before it, and the first one has a field `M`. -/
def rowClass (k : Nat) : TypeDecl where
  modifiers := []
  kind := .classType
  name := rowName k
  nameSpan := default
  generics := []
  primary := none
  base := if k = 0 then none else some ⟨.simple (rowName (k - 1)) default, none, default⟩
  members := if k = 0 then [.field ⟨[], [], .simple "int" default, "M", default, none, .declared, default⟩] else []
  span := default

end NavCheck
