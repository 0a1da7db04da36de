import NavCheck.Proofs.Hereditary
import NavCheck.Proofs.Outlines

/-!
# Known types

A type is known when the error type does not occur in it. Everything that is looked up in a table of known signatures is known:
written types, and the members, indexers and constructors of types along their bases with arguments put in.
-/

namespace NavCheck

/-- The error type does not occur in a type. -/
def Ty.Known (t : Ty) : Prop :=
  t.hasError = false

namespace Ty

variable {t : Ty} {ts : List Ty}

/-- The error type is in none of several types when all of them are known. -/
theorem anyError_eq_false : anyError ts = false ↔ ∀ t ∈ ts, t.Known := by
  induction ts with
  | nil => simp [anyError]
  | cons t ts ih => simp [anyError, ih, Known]

/-- A named type is known when its arguments are. -/
@[simp] theorem known_named {name : String} : (named name ts).Known ↔ ∀ t ∈ ts, t.Known := anyError_eq_false

/-- An array is known when its elements are. -/
@[simp] theorem known_array : (array t).Known ↔ t.Known := Iff.rfl

/-- A nullable type is known when what it is made of is. -/
@[simp] theorem known_nullable : (nullable t).Known ↔ t.Known := Iff.rfl

/-- A parameter is known. -/
@[simp] theorem known_param {name : String} {constraint : ParamConstraint} : (param name constraint).Known := rfl

/-- A delegate is known when its parameters and its result are. -/
@[simp] theorem known_delegate : (delegate ts t).Known ↔ (∀ p ∈ ts, p.Known) ∧ t.Known := by
  rw [Known, hasError, Bool.or_eq_false_iff, anyError_eq_false, Known]

/-- The type of `null` is known. -/
@[simp] theorem known_null : null.Known := rfl

/-- The type `void` is known. -/
@[simp] theorem known_void : void.Known := rfl

/-- The error type is not known. -/
@[simp] theorem not_known_error : ¬ error.Known := Bool.noConfusion

/-- A type without arguments is known. -/
@[simp] theorem known_simple (name : String) : (simple name).Known := rfl

/-- A known type is not the error type. -/
theorem Known.ne_error (h : t.Known) : t ≠ .error :=
  fun he => not_known_error (he ▸ h)

/-- Adding `null` to a type makes no difference to whether it is known. -/
@[simp] theorem known_orNull : t.orNull.Known ↔ t.Known := by
  cases t <;> rfl

/-- What the values of a known nullable type are is known. -/
theorem Known.inner {inner : Ty} (h : t.Known) (hi : t.inner? = some inner) : inner.Known := by
  cases t <;> cases hi
  exact h

/-- A type is known when its parts are. -/
theorem hereditary_known : Hereditary Ty.Known where
  named := known_named
  array := known_array
  inner := known_nullable.1
  orNull := known_orNull.2
  param _ _ := known_param
  delegate := known_delegate
  null := known_null
  void := known_void

end Ty

/-! ## Signatures -/

def ParamSig.Known (p : ParamSig) : Prop :=
  p.type.Known

def MemberKind.Known : MemberKind → Prop
  | .method params => ∀ p ∈ params, p.Known
  | _ => True

structure MemberSig.Known (m : MemberSig) : Prop where
  kind : m.kind.Known
  type : m.type.Known

structure IndexerSig.Known (i : IndexerSig) : Prop where
  params : ∀ p ∈ i.params, p.Known
  type : i.type.Known

/-- The signatures of a type are known, and its values are there unless its name is written with a `?`. -/
structure TypeInfo.Known (i : TypeInfo) : Prop where
  category : i.category ≠ .nullableValue
  base : ∀ b ∈ i.base, b.Known
  members : ∀ m ∈ i.members, m.Known
  indexers : ∀ x ∈ i.indexers, x.Known
  constructor : ∀ p ∈ i.constructor, p.Known

/-- All signatures of a table are known. -/
def TypeTable.Known (t : TypeTable) : Prop :=
  ∀ i ∈ t.types, i.Known

/-- A parameter without a default value is known when its type is. -/
@[simp] theorem ParamSig.known_plain {name : String} {type : Ty} : (ParamSig.plain name type).Known ↔ type.Known := Iff.rfl

/-- A property is known when its type is. -/
@[simp] theorem MemberSig.known_property {owner name : String} {type : Ty} :
    (MemberSig.property owner name type).Known ↔ type.Known :=
  ⟨fun h => h.type, fun h => ⟨trivial, h⟩⟩

/-- A method is known when its parameters and its result are. -/
@[simp] theorem MemberSig.known_method {owner name : String} {params : List ParamSig} {result : Ty} :
    (MemberSig.method owner name params result).Known ↔ (∀ p ∈ params, p.Known) ∧ result.Known :=
  ⟨fun h => ⟨h.kind, h.type⟩, fun h => ⟨h.1, h.2⟩⟩

/-- An indexer is known when its parameters and its type are. -/
@[simp] theorem IndexerSig.known_mk {params : List ParamSig} {type : Ty} {settable : Bool} :
    (IndexerSig.mk params type settable).Known ↔ (∀ p ∈ params, p.Known) ∧ type.Known :=
  ⟨fun h => ⟨h.params, h.type⟩, fun h => ⟨h.1, h.2⟩⟩

/-- A member is known when all types in its signature are. -/
theorem MemberSig.known_iff {m : MemberSig} : m.Known ↔ ∀ type ∈ m.types, type.Known := by
  obtain ⟨name, kind, type, isStatic, owner⟩ := m
  cases kind with
  | method params => exact ⟨fun h => List.forall_mem_cons.2 ⟨h.type, List.forall_mem_map.2 h.kind⟩,
      fun h => ⟨fun _ hp => h _ (List.mem_cons_of_mem _ (List.mem_map_of_mem hp)), h _ List.mem_cons_self⟩⟩
  | _ => exact ⟨fun h => List.forall_mem_singleton.2 h.type, fun h => ⟨trivial, List.forall_mem_singleton.1 h⟩⟩

/-- An indexer is known when all types in its signature are. -/
theorem IndexerSig.known_iff {i : IndexerSig} : i.Known ↔ ∀ type ∈ i.types, type.Known :=
  ⟨fun h => List.forall_mem_cons.2 ⟨h.type, List.forall_mem_map.2 h.params⟩,
    fun h => ⟨fun _ hp => h _ (List.mem_cons_of_mem _ (List.mem_map_of_mem hp)), h _ List.mem_cons_self⟩⟩

/-! ## Looking up -/

namespace TypeTable

variable {t : TypeTable} {type : Ty} {info : TypeInfo} {name : String}

/-- What a known table has for a name is known. -/
theorem Known.find? (h : t.Known) (hf : t.find? name = some info) : info.Known :=
  h info (List.mem_of_find?_eq_some hf)

/-- All types in the signatures of a known table are known. -/
theorem Known.all (h : t.Known) : t.All Ty.Known := by
  intro name info hf
  have hk := h.find? hf
  exact ⟨hk.category, hk.base, fun m hm => MemberSig.known_iff.1 (hk.members m hm),
    fun i hi => IndexerSig.known_iff.1 (hk.indexers i hi), hk.constructor⟩

/-- In a known table the parameters of a constructor with known type arguments are known. -/
theorem Known.constructorWith (h : t.Known) (hf : t.find? name = some info) {args : List Ty} (ha : ∀ a ∈ args, a.Known) :
    ∀ p ∈ info.constructorWith args, p.Known :=
  Ty.hereditary_known.constructorWith h.all hf ha

/-- What a written type means is known. -/
theorem known_of_resolve (t : TypeTable) (scope : List GenericInfo) (e : TypeExpr) (h : t.resolve scope e = .ok type) :
    type.Known :=
  Ty.hereditary_known.resolve t scope e h

end TypeTable

end NavCheck
