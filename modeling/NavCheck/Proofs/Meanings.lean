import Mathlib.Data.List.Forall2
import NavCheck.Proofs.KnownTables
import NavCheck.Proofs.Outcomes
import NavCheck.Proofs.Substitution

/-!
# Meanings of written types

Which type a written type means, told by rules: what its name and its arguments mean together, and what the suffixes make of it.
From the rules follow the parameters that a meaning mentions and the number of its arguments.
-/

namespace NavCheck

/-- What holds of a written type when it holds of its arguments holds of every written type. -/
@[elab_as_elim] theorem TypeExpr.induction {motive : TypeExpr → Prop}
    (step : ∀ name args suffixes span, (∀ a ∈ args, motive a) → motive ⟨name, args, suffixes, span⟩) (e : TypeExpr) : motive e :=
  TypeExpr.rec (motive_1 := motive) (motive_2 := fun es => ∀ e ∈ es, motive e) step (List.forall_mem_nil motive)
    (fun _ _ he hes => List.forall_mem_cons.2 ⟨he, hes⟩) e

namespace TypeTable

variable (t : TypeTable) (scope : List GenericInfo)

/-! ## Rules -/

/-- What a name with arguments means in a scope: a parameter of the scope, nothing, or a type of the table. -/
inductive Core (name : String) (args : List TypeExpr) : Ty → Prop
  | param {g : GenericInfo} (hg : scope.find? (·.name == name) = some g) (ha : args = []) : Core name args g.type
  | void (hg : scope.find? (·.name == name) = none) (hn : name = "void") (ha : args = []) : Core name args .void
  | named {info : TypeInfo} {types : List Ty} (hg : scope.find? (·.name == name) = none) (hv : ¬ (name = "void" ∧ args = []))
      (hf : t.find? name = some info) (hl : types.length = info.generics.length) (hr : t.resolveAll scope args = .ok types) :
      Core name args (.named name types)

variable {t scope} {name : String} {args es : List TypeExpr} {suffixes : List TypeSuffix} {span : Span} {type : Ty}
  {types : List Ty}

/-- The types of a list are resolved one by one. -/
theorem resolveAll_eq_ok :
    t.resolveAll scope es = .ok types ↔ List.Forall₂ (fun e type => t.resolve scope e = .ok type) es types := by
  induction es generalizing types with
  | nil => simp [resolveAll, eq_comm]
  | cons e es ih =>
    rw [resolveAll]
    cases he : t.resolve scope e with
    | error fault =>
      refine ⟨fun h => (nomatch h), fun h => ?_⟩
      cases h with
      | cons h _ =>
        rw [he] at h
        cases h
    | ok type =>
      cases hes : t.resolveAll scope es with
      | error fault =>
        refine ⟨fun h => (nomatch h), fun h => ?_⟩
        cases h with
        | cons _ h =>
          rw [ih.2 h] at hes
          cases hes
      | ok rest =>
        constructor
        · intro h
          cases h
          exact .cons he (ih.1 hes)
        · intro h
          cases h with
          | cons h hs =>
            rw [he] at h
            rw [ih.2 hs] at hes
            cases h
            cases hes
            rfl

theorem length_of_resolveAll (h : t.resolveAll scope es = .ok types) : types.length = es.length :=
  (resolveAll_eq_ok.1 h).length_eq.symm

theorem find?_name {info : TypeInfo} (h : t.find? name = some info) : info.name = name := by
  unfold find? at h
  exact eq_of_beq (List.find?_some h :)

theorem core_of_param {g : GenericInfo} (hg : scope.find? (·.name == name) = some g) :
    t.Core scope name args type ↔ args = [] ∧ type = g.type := by
  constructor
  · rintro (⟨hg', ha⟩ | ⟨hg', -, -⟩ | ⟨hg', -, -, -, -⟩) <;> rw [hg] at hg' <;> cases hg'
    exact ⟨ha, rfl⟩
  · rintro ⟨ha, rfl⟩
    exact .param hg ha

theorem core_of_void (hg : scope.find? (·.name == name) = none) (hn : name = "void") (ha : args = []) :
    t.Core scope name args type ↔ type = .void := by
  constructor
  · rintro (⟨hg', -⟩ | - | ⟨-, hv, -, -, -⟩)
    · rw [hg] at hg'
      cases hg'
    · rfl
    · exact absurd ⟨hn, ha⟩ hv
  · rintro rfl
    exact .void hg hn ha

theorem core_of_named (hg : scope.find? (·.name == name) = none) (hv : ¬ (name = "void" ∧ args = [])) :
    t.Core scope name args type ↔ ∃ info types, t.find? name = some info ∧ types.length = info.generics.length ∧
      t.resolveAll scope args = .ok types ∧ type = .named name types := by
  constructor
  · rintro (⟨hg', -⟩ | ⟨-, hn, ha⟩ | ⟨-, -, hf, hl, hr⟩)
    · rw [hg] at hg'
      cases hg'
    · exact absurd ⟨hn, ha⟩ hv
    · exact ⟨_, _, hf, hl, hr, rfl⟩
  · rintro ⟨info, types, hf, hl, hr, rfl⟩
    exact .named hg hv hf hl hr

/-- A written type means what its suffixes make of the meaning of its name and its arguments. -/
theorem resolve_eq_ok :
    t.resolve scope ⟨name, args, suffixes, span⟩ = .ok type ↔
      ∃ core, t.Core scope name args core ∧ suffixes.foldl t.suffixed core = type := by
  rw [resolve]
  cases hg : scope.find? (·.name == name) with
  | some g =>
    simp only [core_of_param hg]
    by_cases ha : args = [] <;> simp [ha, Except.bind_eq_ok_iff]
  | none =>
    by_cases hv : name = "void" ∧ args = []
    · obtain ⟨hn, ha⟩ := hv
      simp only [core_of_void hg hn ha]
      simp [hn, ha, Except.bind_eq_ok_iff]
    · simp only [core_of_named hg hv, List.isEmpty_iff, if_neg hv]
      cases hf : t.find? name with
      | none => simp [Except.bind_eq_ok_iff]
      | some info =>
        cases hr : t.resolveAll scope args with
        | error fault => by_cases hl : info.generics.length ≠ args.length <;> simp [hl, Except.bind_eq_ok_iff, Except.map]
        | ok types =>
          have hlt := length_of_resolveAll hr
          by_cases hl : info.generics.length ≠ args.length
          · simp [hl, hlt, hl.symm, Except.bind_eq_ok_iff]
          · simp [not_not.1 hl, hlt, find?_name hf, Except.bind_eq_ok_iff, Except.map]

/-! ## Suffixes -/

/-- What suffixes make of a type mentions what the type mentions. -/
theorem over_foldl_suffixed {gs : List GenericInfo} (h : type.Over gs) (suffixes : List TypeSuffix) :
    (suffixes.foldl t.suffixed type).Over gs := by
  induction suffixes generalizing type with
  | nil => exact h
  | cons suffix suffixes ih =>
    refine ih ?_
    cases suffix with
    | array => exact .array h
    | nullable =>
      rw [suffixed]
      split
      · exact h
      · exact h.orNull

/-- No suffix makes a type with a name of another one. -/
theorem eq_of_foldl_suffixed {types : List Ty} (h : suffixes.foldl t.suffixed type = .named name types) :
    type = .named name types := by
  induction suffixes generalizing type with
  | nil => exact h
  | cons suffix suffixes ih =>
    have hs := ih h
    cases suffix with
    | array => cases hs
    | nullable =>
      rw [suffixed] at hs
      split at hs
      · exact hs
      · cases type <;> cases hs

/-! ## What a meaning mentions -/

/-- A written type means a type over the parameters of its scope. -/
theorem over_resolve (e : TypeExpr) : ∀ {type : Ty}, t.resolve scope e = .ok type → type.Over scope := by
  induction e using TypeExpr.induction with
  | step name args suffixes span ih =>
    intro type h
    obtain ⟨core, hc, rfl⟩ := resolve_eq_ok.1 h
    refine over_foldl_suffixed ?_ suffixes
    cases hc with
    | param hg _ => exact .param (List.mem_of_find?_eq_some hg)
    | void => exact .void
    | named _ _ _ _ hr =>
      refine .named fun x hx => ?_
      obtain ⟨i, hi, rfl⟩ := List.getElem_of_mem hx
      have he := resolveAll_eq_ok.1 hr
      exact ih _ (List.getElem_mem _) (he.get (he.length_eq ▸ hi) hi)

/-- A type of the table with as many arguments as it takes. -/
inductive Instance (t : TypeTable) : Ty → Prop
  | mk {name : String} {args : List Ty} {info : TypeInfo} (hf : t.find? name = some info)
      (hl : args.length = info.generics.length) : Instance t (.named name args)

/-- A written type that means a type of the table has as many arguments as that takes. -/
theorem instance_of_resolve {e : TypeExpr} (h : t.resolve scope e = .ok (.named name types)) : t.Instance (.named name types) := by
  obtain ⟨written, es, suffixes, span⟩ := e
  obtain ⟨core, hc, hs⟩ := resolve_eq_ok.1 h
  cases eq_of_foldl_suffixed hs
  cases hc with
  | named _ _ hf hl _ => exact ⟨hf, hl⟩

namespace Instance

variable {info : TypeInfo}

theorem substitute (h : t.Instance type) (s : Ty.Substitution) : t.Instance (type.substitute s) := by
  obtain ⟨hf, hl⟩ := h
  rw [Ty.substitute]
  split
  · exact ⟨hf, hl⟩
  · rw [Ty.replace_named]
    exact ⟨hf, (List.length_map _).trans hl⟩

/-- Signatures change nothing about the number of arguments. -/
theorem withSignatures (h : t.Instance type) (signatures : List (String × TypeSignatures)) :
    (t.withSignatures signatures).Instance type := by
  obtain ⟨hf, hl⟩ := h
  refine ⟨(t.find?_withSignatures signatures _).trans (congrArg _ hf), ?_⟩
  rw [hl]
  generalize signatures.lookup _ = found
  cases found <;> rfl

end Instance

end TypeTable

end NavCheck
