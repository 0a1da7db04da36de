import NavCheck.Proofs.Assignability
import NavCheck.Proofs.HereditaryTyping

/-!
# Types that are nullable once

Nothing is nullable twice in the types that a unit writes down, and so in none of the types of its expressions. What a chain gives
is a type that can hold the `null` of a chain cut short, and it is not wrapped again: a chain that gives it gives it as it is.
-/

namespace NavCheck

namespace Ty

/-- Nothing in a type is nullable twice. -/
inductive Once : Ty → Prop
  | named {name : String} {args : List Ty} (h : ∀ a ∈ args, Once a) : Once (.named name args)
  | array {element : Ty} (h : Once element) : Once (.array element)
  | nullable {inner : Ty} (h : Once inner) (once : inner.orNull = .nullable inner) : Once (.nullable inner)
  | param (name : String) (constraint : ParamConstraint) : Once (.param name constraint)
  | delegate {params : List Ty} {result : Ty} (hp : ∀ p ∈ params, Once p) (hr : Once result) : Once (.delegate params result)
  | null : Once .null
  | void : Once .void
  | error : Once .error

variable {type inner : Ty} {gs : List GenericInfo}

theorem Over.once (h : type.Over gs) : type.Once := by
  induction h with
  | named _ ih => exact .named ih
  | array _ ih => exact .array ih
  | nullable _ once ih => exact .nullable ih once
  | param _ => exact .param _ _
  | delegate _ _ ihp ihr => exact .delegate ihp ihr
  | null => exact .null
  | void => exact .void
  | error => exact .error

theorem Once.orNull (h : type.Once) : type.orNull.Once := by
  cases type with
  | nullable | error => exact h
  | named | array | param | delegate | null | void => exact .nullable h rfl

theorem Once.ne_nullable_nullable (h : type.Once) : type ≠ .nullable (.nullable inner) := by
  rintro rfl
  cases h with
  | nullable _ once => cases once

theorem hereditary_once : Hereditary Once where
  named := ⟨fun h => by cases h; assumption, .named⟩
  array := ⟨fun h => by cases h; assumption, .array⟩
  inner h := by
    cases h
    assumption
  orNull h := h.orNull
  param := .param
  delegate := ⟨fun h => by cases h; exact ⟨‹_›, ‹_›⟩, fun h => .delegate h.1 h.2⟩
  null := .null
  void := .void

/-- Typing comes to types in which nothing is nullable twice, whatever it notes. -/
theorem kept_once : Kept Once fun _ => True :=
  ⟨hereditary_once, .inl .error⟩

end Ty

namespace TypeTable

/-- Nothing in the signatures of the table of a unit is nullable twice. -/
theorem all_once_build (u : SourceUnit) : (build u).value.All Ty.Once := by
  intro name info hf
  have hc := (closed_build u).find? hf
  refine ⟨?_, fun b hb => (hc.base b hb).2.once, fun m hm x hx => (hc.members m hm x hx).once,
    fun i hi x hx => (hc.indexers i hi x hx).once, fun s hs => (hc.constructor s hs).once⟩
  intro hn
  rcases (rooted_build u).category hf with h | h
  · rw [hn] at h
    cases h
  · rw [hn] at h
    cases h

/-! ## Results of chains -/

variable {t : TypeTable} {type : Ty}

/-- The `null` literal may be stored wherever `null` may. -/
theorem assignable_null (h : t.acceptsNull type = true) : t.assignable .null type = true := by
  rw [assignable.eq_def]
  split
  · rfl
  · cases type with
    | void => cases h
    | error => cases h
    | named | array | nullable | param | delegate | null => exact h

theorem chainResult_eq_error : t.chainResult type = .error ↔ t.classify type = .unknown := by
  unfold chainResult
  cases t.classify type <;> simp

/-- Only `void` has no values at all. -/
theorem Rooted.eq_void (h : t.Rooted) (hc : t.classify type = .void) : type = .void := by
  cases type with
  | void => rfl
  | named name args =>
    rw [classify] at hc
    cases hf : t.find? name with
    | none => simp [hf] at hc
    | some info =>
      have hi : info.category = .void := by simpa [hf] using hc
      rcases h.category hf with hk | hk <;> simp [hk] at hi
  | nullable inner =>
    rw [classify] at hc
    cases hi : t.classify inner <;> simp [hi, nullableCategory] at hc
  | param name constraint =>
    cases constraint with
    | base base =>
      rw [classify] at hc
      split at hc
      · split at hc <;> cases hc
      · cases hc
    | none | reference | value => cases hc
  | array | delegate | null | error => cases hc

/-- A value that is never missing has no nullable form yet. -/
theorem orNull_of_value (h : t.classify type = .value) : type.orNull = .nullable type := by
  cases type with
  | nullable inner =>
    rw [classify] at h
    cases hi : t.classify inner <;> simp [hi, nullableCategory] at h
  | error => cases h
  | named | array | param | delegate | null | void => rfl

/-- The nullable form of a plain value is a value that may be missing. -/
theorem classify_orNull_of_value (h : t.classify type = .value) : t.classify type.orNull = .nullableValue := by
  rw [orNull_of_value h, classify, h]
  rfl

/-- What a chain gives can hold `null`, unless it gives nothing. -/
theorem acceptsNull_chainResult (he : t.chainResult type ≠ .error) (hv : t.chainResult type ≠ .void) :
    t.acceptsNull (t.chainResult type).type = true := by
  unfold chainResult at *
  cases hc : t.classify type with
  | reference => simp [acceptsNull, ChainResult.type, hc]
  | value => simp [acceptsNull, ChainResult.type, classify_orNull_of_value hc]
  | nullableValue => simp [acceptsNull, ChainResult.type, hc]
  | void => simp [hc] at hv
  | unknown => simp [hc] at he

/-- A chain whose accesses give what another chain gives does not wrap it again. -/
theorem chainResult_chainResult (he : t.chainResult type ≠ .error) :
    (t.chainResult (t.chainResult type).type).type = (t.chainResult type).type := by
  have h : ∀ c, t.classify type = c → (t.chainResult (t.chainResult type).type).type = (t.chainResult type).type := by
    intro c hc
    cases c with
    | reference => simp [chainResult, ChainResult.type, hc]
    | value => simp [chainResult, ChainResult.type, hc, classify_orNull_of_value hc]
    | nullableValue => simp [chainResult, ChainResult.type, hc]
    | void => simp [chainResult, ChainResult.type, hc, classify]
    | unknown => exact absurd (chainResult_eq_error.2 hc) he
  exact h _ rfl

/-- What a chain gives is wrapped exactly when its accesses give a plain value. -/
theorem isSome_lift?_chainResult : (t.chainResult type).lift?.isSome = true ↔ t.classify type = .value := by
  unfold chainResult
  cases t.classify type <;> simp [ChainResult.lift?]

theorem once_chainResult (h : type.Once) : (t.chainResult type).type.Once :=
  Ty.hereditary_once.chainResult h fun _ => .error

end TypeTable

end NavCheck
