import NavCheck.Check.Report
import NavCheck.Proofs.ClosedUnits
import NavCheck.Proofs.Outcomes
import NavCheck.Proofs.Outlines
import NavCheck.Text.Digest

/-!
# Hidden `void`

`void` is no type of values, and where a value is declared a `void` is refused. It is refused as a whole type only: behind a suffix
or as an argument it stays. So a type has a `void` in it exactly where one is written, and nothing but what is written brings one
into the signatures of a unit.
-/

namespace NavCheck

/-! ## `void` in types -/

namespace Ty

mutual

/-- Whether a type is `void` or has it as a part. -/
def hasVoid : Ty → Bool
  | .named _ args => anyVoid args
  | .array element => element.hasVoid
  | .nullable inner => inner.hasVoid
  | .param _ _ => false
  | .delegate params result => anyVoid params || result.hasVoid
  | .null => false
  | .void => true
  | .error => false

/-- Whether one of several types is `void` or has it as a part. -/
def anyVoid : List Ty → Bool
  | [] => false
  | t :: ts => t.hasVoid || anyVoid ts

end

@[simp] theorem hasVoid_orNull (type : Ty) : type.orNull.hasVoid = type.hasVoid := by
  cases type <;> rfl

theorem orNull_ne_void (type : Ty) : type.orNull ≠ .void := by
  cases type <;> exact nofun

end Ty

/-! ## `void` in written types -/

namespace TypeExpr

/-- Whether the name of a written type stands for `void`, where the generic parameters `scope` can be named. -/
def isVoidName (scope : List GenericInfo) (name : String) (args : List TypeExpr) : Bool :=
  (scope.find? (·.name == name)).isNone && name == "void" && args.isEmpty

/-- Whether a written type is `void` alone. -/
def isVoid (scope : List GenericInfo) (e : TypeExpr) : Bool :=
  isVoidName scope e.name e.args && e.suffixes.isEmpty

mutual

/-- Whether `void` is written in a type. -/
def writesVoid (scope : List GenericInfo) : TypeExpr → Bool
  | ⟨name, args, _, _⟩ => isVoidName scope name args || anyWritesVoid scope args

/-- Whether `void` is written in one of several types. -/
def anyWritesVoid (scope : List GenericInfo) : List TypeExpr → Bool
  | [] => false
  | e :: es => e.writesVoid scope || anyWritesVoid scope es

end

end TypeExpr

namespace TypeTable

variable (t : TypeTable) (scope : List GenericInfo)

/-! ## Meanings -/

theorem hasVoid_suffixed (type : Ty) (suffix : TypeSuffix) : (t.suffixed type suffix).hasVoid = type.hasVoid := by
  cases suffix with
  | array => rfl
  | nullable =>
    rw [suffixed]
    split
    · rfl
    · exact type.hasVoid_orNull

/-- Suffixes neither bring in a `void` nor take one away. -/
theorem hasVoid_foldl_suffixed (suffixes : List TypeSuffix) (type : Ty) :
    (suffixes.foldl t.suffixed type).hasVoid = type.hasVoid := by
  induction suffixes generalizing type with
  | nil => rfl
  | cons suffix suffixes ih => rw [List.foldl_cons, ih, hasVoid_suffixed]

theorem suffixed_ne_void (type : Ty) (suffix : TypeSuffix) : t.suffixed type suffix ≠ .void := by
  cases suffix with
  | array => exact nofun
  | nullable =>
    rw [suffixed]
    split
    · rintro rfl
      -- `void` is no reference
      rename_i hc
      cases hc
    · exact type.orNull_ne_void

/-- With a suffix nothing is `void` as a whole. -/
theorem foldl_suffixed_eq_void {suffixes : List TypeSuffix} {type : Ty} :
    suffixes.foldl t.suffixed type = .void ↔ type = .void ∧ suffixes = [] := by
  induction suffixes generalizing type with
  | nil => simp
  | cons suffix suffixes ih =>
    rw [List.foldl_cons, ih]
    constructor
    · rintro ⟨h, -⟩
      exact absurd h (t.suffixed_ne_void type suffix)
    · rintro ⟨-, h⟩
      cases h

variable {t scope} {e : TypeExpr} {type : Ty}

/-- What the name of a written type and its arguments mean is `void` when the name is that of `void`. -/
theorem Core.eq_void_iff {name : String} {args : List TypeExpr} (h : t.Core scope name args type) :
    type = .void ↔ TypeExpr.isVoidName scope name args = true := by
  unfold TypeExpr.isVoidName
  cases h with
  | param hg ha => simp [hg, GenericInfo.type]
  | void hg hn ha =>
    rw [hg, hn, ha]
    simp
  | named hg hv hf hl hr =>
    rw [hg]
    simpa using hv

/-- A written type means `void` when it is `void` alone. -/
theorem resolve_eq_void_iff (h : t.resolve scope e = .ok type) : type = .void ↔ e.isVoid scope = true := by
  obtain ⟨name, args, suffixes, span⟩ := e
  obtain ⟨core, hc, rfl⟩ := resolve_eq_ok.1 h
  rw [foldl_suffixed_eq_void, hc.eq_void_iff, TypeExpr.isVoid, Bool.and_eq_true, List.isEmpty_iff]

theorem anyVoid_eq_any (types : List Ty) : Ty.anyVoid types = types.any (·.hasVoid) := by
  induction types with
  | nil => rfl
  | cons type types ih => rw [Ty.anyVoid, List.any_cons, ih]

theorem anyWritesVoid_eq_any (es : List TypeExpr) : TypeExpr.anyWritesVoid scope es = es.any (·.writesVoid scope) := by
  induction es with
  | nil => rfl
  | cons e es ih => rw [TypeExpr.anyWritesVoid, List.any_cons, ih]

/-- A written type means a type with a `void` in it exactly when one is written. -/
theorem hasVoid_of_resolve (e : TypeExpr) : ∀ {type : Ty}, t.resolve scope e = .ok type → type.hasVoid = e.writesVoid scope := by
  induction e using TypeExpr.induction with
  | step name args suffixes span ih =>
    intro type h
    obtain ⟨core, hc, rfl⟩ := resolve_eq_ok.1 h
    have hname := hc.eq_void_iff
    rw [hasVoid_foldl_suffixed, TypeExpr.writesVoid]
    cases hc with
    | param hg ha =>
      subst ha
      have hfalse : TypeExpr.isVoidName scope name [] = false := Bool.eq_false_iff.2 (mt hname.2 nofun)
      rw [hfalse]
      rfl
    | void hg hn ha =>
      rw [hname.1 rfl]
      rfl
    | named hg hv hf hl hr =>
      have hfalse : TypeExpr.isVoidName scope name args = false := Bool.eq_false_iff.2 (mt hname.2 nofun)
      have each := resolveAll_eq_ok.1 hr
      rw [hfalse, Bool.false_or, Ty.hasVoid, anyVoid_eq_any, anyWritesVoid_eq_any]
      clear hname hfalse hv hl hr h
      induction each with
      | nil => rfl
      | cons he _ ihs =>
        obtain ⟨ha, has⟩ := List.forall_mem_cons.1 ih
        rw [List.any_cons, List.any_cons, ha he, ihs has]

/-- A `void` that is only a part of what a written type means is written as a part. -/
theorem hidden_iff (h : t.resolve scope e = .ok type) :
    type.hasVoid = true ∧ type ≠ .void ↔ e.writesVoid scope = true ∧ e.isVoid scope = false := by
  rw [hasVoid_of_resolve e h, Ne, resolve_eq_void_iff h, Bool.not_eq_true]

end TypeTable

/-! ## `void` in signatures -/

/-- The types of values that are written in the signature of a member. -/
def Member.writtenValues : Member → List TypeExpr
  | .field f => [f.type]
  | .property p => [p.type]
  | .method d => d.params.map (·.type)
  | .indexer i => i.type :: i.params.map (·.type)

/-- The types of values that are written in the signatures of a declaration. -/
def TypeDecl.writtenValues (d : TypeDecl) : List TypeExpr :=
  d.params.map (·.type) ++ d.members.flatMap Member.writtenValues

/-- The types of values in the signature of a member: what a method gives is none. -/
def MemberSig.valueTypes (m : MemberSig) : List Ty :=
  match m.kind with
  | .method params => params.map (·.type)
  | _ => [m.type]

/-- The types of values in the signatures of a type. -/
def TypeInfo.valueTypes (i : TypeInfo) : List Ty :=
  i.constructor.map (·.type) ++ i.members.flatMap (·.valueTypes) ++ i.indexers.flatMap (·.types)

namespace TypeTable

variable (t : TypeTable) (scope : List GenericInfo)

theorem mem_types_readParams {params : List Param} {type : Ty}
    (h : type ∈ (params.mapM (t.readParam scope)).value.map (·.type)) :
    ∃ e ∈ params.map (·.type), type = (t.readValue scope e).value := by
  rw [Noted.value_mapM, List.map_map] at h
  obtain ⟨p, hp, rfl⟩ := List.mem_map.1 h
  exact ⟨p.type, List.mem_map_of_mem hp, rfl⟩

/-- The signatures of members are those of single members. -/
theorem mem_readMembers (d : TypeDecl) (members : List Member) (names : List String) (counts : List Nat) :
    (∀ s ∈ (t.readMembers scope d names counts members).value.1,
        ∃ m ∈ members, (t.readMember scope d.name m).value = some s) ∧
      ∀ x ∈ (t.readMembers scope d names counts members).value.2,
        ∃ i, Member.indexer i ∈ members ∧ (t.readIndexer scope i).value = x := by
  induction members generalizing names counts with
  | nil => exact ⟨List.forall_mem_nil _, List.forall_mem_nil _⟩
  | cons m ms ih =>
    have rest : ∀ names counts,
        (∀ s ∈ (t.readMembers scope d names counts ms).value.1,
            ∃ w ∈ m :: ms, (t.readMember scope d.name w).value = some s) ∧
          ∀ x ∈ (t.readMembers scope d names counts ms).value.2,
            ∃ i, Member.indexer i ∈ m :: ms ∧ (t.readIndexer scope i).value = x := by
      intro names counts
      obtain ⟨hm, hi⟩ := ih names counts
      constructor
      · intro s hs
        obtain ⟨w, hw, he⟩ := hm s hs
        exact ⟨w, List.mem_cons_of_mem m hw, he⟩
      · intro x hx
        obtain ⟨i, hi, he⟩ := hi x hx
        exact ⟨i, List.mem_cons_of_mem m hi, he⟩
    unfold readMembers
    rw [Noted.value_bind]
    split
    · rename_i i
      rw [Noted.value_bind]
      dsimp only
      split
      · exact rest _ _
      · refine ⟨(rest _ _).1, List.forall_mem_cons.2 ⟨?_, (rest _ _).2⟩⟩
        exact ⟨i, List.mem_cons_self, rfl⟩
    · split
      · exact rest _ _
      · split
        · exact rest _ _
        · have own : ∀ s ∈ (t.readMember scope d.name m).value.toList,
              ∃ w ∈ m :: ms, (t.readMember scope d.name w).value = some s := by
            intro s hs
            exact ⟨m, List.mem_cons_self, Option.mem_toList.1 hs⟩
          dsimp only
          split <;> exact ⟨List.forall_mem_append.2 ⟨own, (rest _ _).1⟩, (rest _ _).2⟩

theorem valueTypes_readMember (owner : String) (m : Member) {s : MemberSig} (h : (t.readMember scope owner m).value = some s) :
    ∀ type ∈ s.valueTypes, ∃ e ∈ m.writtenValues, type = (t.readValue scope e).value := by
  unfold readMember at h
  cases m with
  | field f =>
    have hf : (t.readField scope f).value = (t.readValue scope f.type).value := by
      unfold readField
      dsimp only
      split <;> rfl
    cases h
    intro type ht
    rw [List.mem_singleton.1 ht]
    exact ⟨f.type, List.mem_cons_self, hf⟩
  | property p =>
    cases h
    intro type ht
    rw [List.mem_singleton.1 ht]
    exact ⟨p.type, List.mem_cons_self, rfl⟩
  | method d =>
    cases h
    intro type ht
    exact t.mem_types_readParams scope ht
  | indexer i => cases h

theorem types_readIndexer (i : IndexerDecl) :
    ∀ type ∈ (t.readIndexer scope i).value.types, ∃ e ∈ (Member.indexer i).writtenValues, type = (t.readValue scope e).value := by
  intro type ht
  rcases List.mem_cons.1 ht with rfl | ht
  · exact ⟨i.type, List.mem_cons_self, rfl⟩
  · obtain ⟨e, he, rfl⟩ := t.mem_types_readParams scope ht
    exact ⟨e, List.mem_cons_of_mem i.type he, rfl⟩

/-- Every type of values in the signatures of a declaration is read from one that is written in it. -/
theorem valueTypes_readSignatures (d : TypeDecl) (outline : TypeInfo) :
    ∀ type ∈ (outline.withSignatures (t.readSignatures d).value).valueTypes,
      ∃ e ∈ d.writtenValues, type = (t.readValue (t.genericScope d) e).value := by
  obtain ⟨hmembers, hindexers⟩ := t.mem_readMembers (t.genericScope d) d d.members [] []
  intro type ht
  rcases List.mem_append.1 ht with ht | ht
  · rcases List.mem_append.1 ht with ht | ht
    · have ht : type ∈ (d.params.mapM (t.readPrimaryParam (t.genericScope d))).value.map (·.type) := ht
      rw [Noted.value_mapM, List.map_map] at ht
      obtain ⟨p, hp, rfl⟩ := List.mem_map.1 ht
      exact ⟨p.type, List.mem_append_left _ (List.mem_map_of_mem hp), rfl⟩
    · obtain ⟨s, hs, ht⟩ := List.mem_flatMap.1 ht
      obtain ⟨m, hm, hr⟩ := hmembers s hs
      obtain ⟨e, he, rfl⟩ := t.valueTypes_readMember _ _ m hr type ht
      exact ⟨e, List.mem_append_right _ (List.mem_flatMap.2 ⟨m, hm, he⟩), rfl⟩
  · obtain ⟨x, hx, ht⟩ := List.mem_flatMap.1 ht
    obtain ⟨i, hi, rfl⟩ := hindexers x hx
    obtain ⟨e, he, rfl⟩ := t.types_readIndexer _ i type ht
    exact ⟨e, List.mem_append_right _ (List.mem_flatMap.2 ⟨_, hi, he⟩), rfl⟩

/-- A type of values is never `void` as a whole; with a `void` in it, it is what a type means in which one is written as a part. -/
theorem void_of_readValue (e : TypeExpr) :
    (t.readValue scope e).value ≠ .void ∧
      ((t.readValue scope e).value.hasVoid = true →
        t.resolve scope e = .ok (t.readValue scope e).value ∧ e.writesVoid scope = true ∧ e.isVoid scope = false) := by
  unfold readValue
  rw [Noted.value_bind, value_read, resolveOrError]
  cases h : t.resolve scope e with
  | error fault => exact ⟨Ty.noConfusion, Bool.noConfusion⟩
  | ok type =>
    cases type with
    | void => exact ⟨Ty.noConfusion, Bool.noConfusion⟩
    | _ =>
      refine ⟨Ty.noConfusion, fun hv => ⟨rfl, ?_⟩⟩
      exact (hidden_iff h).1 ⟨hv, Ty.noConfusion⟩

/-- In the signatures of a declaration no value has the type `void`, and one whose type has a `void` in it has it from a type that
is written in the declaration, and that has a `void` as a part. -/
theorem void_of_signatures {u : SourceUnit} {name : String} {info : TypeInfo} {span : Span}
    (h : (build u).value.find? name = some info) (hs : info.span = some span) :
    ∃ d ∈ u.types, d.name = name ∧ d.nameSpan = span ∧ ∀ type ∈ info.valueTypes, type ≠ .void ∧
      (type.hasVoid = true → ∃ e ∈ d.writtenValues,
        (build u).value.resolve ((build u).value.genericScope d) e = .ok type ∧
          e.writesVoid ((build u).value.genericScope d) = true ∧ e.isVoid ((build u).value.genericScope d) = false) := by
  obtain ⟨d, hd, hn, hspan, rfl⟩ := signatures_of_find?_build h hs
  refine ⟨d, hd, hn, hspan, ?_⟩
  intro type ht
  obtain ⟨e, he, rfl⟩ := valueTypes_readSignatures _ d _ type ht
  rw [value_build, genericScope_withSignatures]
  obtain ⟨hne, hvoid⟩ := void_of_readValue (builtin.addOutlines u.types).value.1
    ((builtin.addOutlines u.types).value.1.genericScope d) e
  refine ⟨hne, fun hv => ⟨e, he, ?_⟩⟩
  rw [resolve_withSignatures]
  exact hvoid hv

end TypeTable

/-- Nothing is said about an array of `void`, nor about a local that is `void`. -/
theorem void_part_unnoticed :
    ∃ report, checkSource "a" "class A { public void[] x; void F() { void y; } }" = .ok report ∧ report.diagnostics.length = 0 ∧
      ∃ info ∈ (TypeTable.build report.resolved.unit).value.find? "A", Ty.array .void ∈ info.valueTypes := by
  decide +kernel

end NavCheck
