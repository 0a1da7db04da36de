import Mathlib.Data.List.Basic
import Mathlib.Data.List.Induction
import Mathlib.Tactic.ByContra
import Mathlib.Tactic.MkIffOfInductiveProp
import NavCheck.Capture.Qualifier

/-!
# Legal modifiers

Which modifiers may stand on a field, said without the walk along them. Those before a modifier decide whether it fits behind
them, but the rules only count words and ask which ones are there. So a list is accepted in every order or in none, and an
accepted list spells the same visibility in every order.
-/

namespace NavCheck

/-! ## The rules -/

/-- The accessibility modifiers of a list, in order. -/
def accessWords (modifiers : List Modifier) : List Visibility :=
  modifiers.filterMap Modifier.access?

/-- At most one accessibility modifier, or `protected` and `internal` in either order. -/
def AccessTogether (words : List Visibility) : Prop :=
  words.length ≤ 1 ∨ words = [.prot, .internal] ∨ words = [.internal, .prot]

/-- Whether a modifier is `static` or `const`. -/
def Modifier.isStorage (m : Modifier) : Bool :=
  m.kind == .static || m.kind == .const

/-- How many of `static` and `const` may stand at a site. -/
def FieldSite.storageLimit : FieldSite → Nat
  | .declared => 1
  | .parameter => 0

/-- Modifiers of a field of a type that each fit behind those before it. -/
@[mk_iff] structure ModifiersFit (owner : TypeKind) (site : FieldSite) (modifiers : List Modifier) : Prop where
  access : AccessTogether (accessWords modifiers)
  notInStruct : owner = .structType → .prot ∉ accessWords modifiers
  readonly : modifiers.countP (·.kind == .readonly) ≤ 1
  storage : modifiers.countP Modifier.isStorage ≤ site.storageLimit
  known : ∀ m ∈ modifiers, m.kind ≠ .other

/-- Modifiers that may stand on a field of a type. -/
structure ModifiersLegal (owner : TypeKind) (site : FieldSite) (modifiers : List Modifier) : Prop extends
    ModifiersFit owner site modifiers where
  notConst : hasModifier modifiers .readonly → ¬ hasModifier modifiers .const
  captured : site = .parameter → hasModifier modifiers .readonly → accessWords modifiers ≠ []

/-! ## Words -/

theorem accessWords_append (ms ns : List Modifier) : accessWords (ms ++ ns) = accessWords ms ++ accessWords ns :=
  List.filterMap_append

theorem accessWords_singleton {m : Modifier} {visibility : Visibility} (h : m.kind = .access visibility) :
    accessWords [m] = [visibility] := by
  simp [accessWords, Modifier.access?, h]

theorem accessWords_singleton_eq_nil {m : Modifier} (h : ∀ visibility, m.kind ≠ .access visibility) : accessWords [m] = [] := by
  have ha : m.access? = none := by
    unfold Modifier.access?
    split
    · rename_i visibility hk
      exact absurd hk (h visibility)
    · rfl
  simp [accessWords, ha]

theorem accessTogether_snoc {words : List Visibility} {visibility : Visibility} :
    AccessTogether (words ++ [visibility]) ↔
      words = [] ∨ words = [.prot] ∧ visibility = .internal ∨ words = [.internal] ∧ visibility = .prot := by
  rcases words with _ | ⟨first, _ | ⟨second, words⟩⟩
  · simp [AccessTogether]
  · simp [AccessTogether]
  · simp [AccessTogether]

/-- Accessibility modifiers that may stand together may also do so without the last ones. -/
theorem AccessTogether.left {words more : List Visibility} (h : AccessTogether (words ++ more)) : AccessTogether words := by
  rcases more with _ | ⟨visibility, more⟩
  · rwa [List.append_nil] at h
  · refine .inl ?_
    have hl : words.length + (more.length + 1) ≤ 2 := by
      rw [← List.length_cons, ← List.length_append]
      rcases h with h | h | h
      · exact Nat.le_succ_of_le h
      · exact Nat.le_of_eq (congrArg List.length h)
      · exact Nat.le_of_eq (congrArg List.length h)
    omega

theorem AccessTogether.perm {words words' : List Visibility} (h : AccessTogether words) (hp : words.Perm words') :
    AccessTogether words' := by
  rcases h with h | h
  · exact .inl (hp.length_eq ▸ h)
  · have hl : words'.length = 2 := by
      rw [← hp.length_eq]
      rcases h with rfl | rfl <;> rfl
    obtain ⟨first, second, rfl⟩ := List.length_eq_two.1 hl
    -- neither word can be a third one, nor can both be the same
    unfold AccessTogether
    rcases h with rfl | rfl <;> cases first <;> cases second <;> revert hp <;> decide

theorem kind_eq_const_iff {m : Modifier} : m.kind = .const ↔ m.text = "const" := by
  constructor
  · intro h
    unfold Modifier.kind at h
    split at h
    · cases h
    · split at h <;> simp_all
  · intro h
    rw [Modifier.kind, h]
    rfl

/-! ## One modifier behind others -/

/-- Whether a modifier fits behind others. -/
def Modifier.FitsBehind (owner : TypeKind) (site : FieldSite) (before : List Modifier) (m : Modifier) : Prop :=
  match m.kind with
  | .access visibility => AccessTogether (accessWords before ++ [visibility]) ∧ ¬ (owner = .structType ∧ visibility = .prot)
  | .readonly => before.countP (·.kind == .readonly) = 0
  | .static | .const => before.countP Modifier.isStorage < site.storageLimit
  | .other => False

section

variable {owner : TypeKind} {site : FieldSite} {before : List Modifier} {m : Modifier}

theorem countP_snoc (p : Modifier → Bool) : (before ++ [m]).countP p = before.countP p + if p m then 1 else 0 := by
  rw [List.countP_append, List.countP_singleton]

/-- The modifiers of a list fit when the last one fits behind the others and these fit. -/
theorem modifiersFit_snoc :
    ModifiersFit owner site (before ++ [m]) ↔ ModifiersFit owner site before ∧ m.FitsBehind owner site before := by
  have known : (∀ x ∈ before ++ [m], x.kind ≠ .other) ↔ (∀ x ∈ before, x.kind ≠ .other) ∧ m.kind ≠ .other := by
    rw [List.forall_mem_append, List.forall_mem_singleton]
  have plain (h : ∀ visibility, m.kind ≠ .access visibility) : accessWords (before ++ [m]) = accessWords before := by
    rw [accessWords_append, accessWords_singleton_eq_nil h, List.append_nil]
  rw [modifiersFit_iff, modifiersFit_iff, known, countP_snoc, countP_snoc]
  unfold Modifier.FitsBehind
  cases hk : m.kind with
  | access visibility =>
    have left : AccessTogether (accessWords before ++ [visibility]) → AccessTogether (accessWords before) := .left
    simp only [accessWords_append, accessWords_singleton hk, List.mem_append, List.mem_singleton, Modifier.isStorage, hk]
    grind
  | _ =>
    simp only [plain (by simp [hk]), Modifier.isStorage, hk]
    grind

theorem modifiersFit_nil : ModifiersFit owner site [] where
  access := .inl (Nat.zero_le _)
  notInStruct _ := List.not_mem_nil
  readonly := Nat.zero_le _
  storage := Nat.zero_le _
  known _ hm := absurd hm List.not_mem_nil

/-- Modifiers that fit also do so without the last ones. -/
theorem ModifiersFit.left {more : List Modifier} (h : ModifiersFit owner site (before ++ more)) :
    ModifiersFit owner site before := by
  induction more using List.reverseRecOn with
  | nil => rwa [List.append_nil] at h
  | append_singleton more m ih =>
    rw [← List.append_assoc] at h
    exact ih (modifiersFit_snoc.1 h).1

end

namespace FieldWords

variable {owner : TypeKind} {site : FieldSite} {before : List Modifier} {m : Modifier}

/-- What counts of modifiers of which each fits behind those before it. -/
def ofModifiers (modifiers : List Modifier) : FieldWords where
  access := accessWords modifiers
  readonly := (modifiers.find? (·.kind == .readonly)).map (·.span)
  storage := (modifiers.find? Modifier.isStorage).map (·.text)

/-- Nothing is found in a list where no modifier counts. -/
theorem map_find?_eq_none {α : Type} {p : Modifier → Bool} {f : Modifier → α} :
    (before.find? p).map f = none ↔ before.countP p = 0 := by
  rw [Option.map_eq_none_iff, List.find?_eq_none, List.countP_eq_zero]

/-- The first modifier that counts is the last one of a list when none counts before it. -/
theorem map_find?_snoc {α : Type} {p : Modifier → Bool} {f : Modifier → α} (h : before.countP p = 0) (hm : p m = true) :
    ((before ++ [m]).find? p).map f = some (f m) := by
  rw [List.find?_append, List.find?_eq_none.2 (List.countP_eq_zero.1 h), Option.none_or, List.find?_cons_of_pos hm]
  rfl

theorem find?_snoc_of_neg {p : Modifier → Bool} (hm : p m = false) : (before ++ [m]).find? p = before.find? p := by
  rw [List.find?_append, List.find?_cons_of_neg (by simp [hm]), List.find?_nil, Option.or_none]

theorem addAccess_fits {w : FieldWords} {visibility : Visibility} (ha : AccessTogether (w.access ++ [visibility]))
    (hs : ¬ (owner = .structType ∧ visibility = .prot)) :
    w.addAccess owner visibility = ({ w with access := w.access ++ [visibility] }, none) := by
  unfold addAccess
  simp only [if_neg hs]
  rcases accessTogether_snoc.1 ha with hw | ⟨hw, rfl⟩ | ⟨hw, rfl⟩ <;> simp [hw, isPair]

theorem addAccess_of_none {w : FieldWords} {visibility : Visibility} (h : (w.addAccess owner visibility).2 = none) :
    AccessTogether (w.access ++ [visibility]) ∧ ¬ (owner = .structType ∧ visibility = .prot) := by
  obtain ⟨words, readonly, storage⟩ := w
  rw [accessTogether_snoc]
  rcases words with _ | ⟨first, _ | ⟨second, words⟩⟩
  · simpa [addAccess] using h
  · revert h
    cases first <;> cases visibility <;> simp [addAccess, isPair]
  · revert h
    unfold addAccess
    dsimp only
    split <;> simp

/-- A modifier that fits is counted without a fault. -/
theorem add_of_fitsBehind (h : m.FitsBehind owner site before) :
    (ofModifiers before).add owner site m = (ofModifiers (before ++ [m]), none) := by
  have storage (hm : m.isStorage = true) (ha : accessWords [m] = []) (hr : (m.kind == .readonly) = false)
      (hl : before.countP Modifier.isStorage < site.storageLimit) :
      (ofModifiers before).addStorage site m.text = (ofModifiers (before ++ [m]), none) := by
    cases site with
    | parameter => exact absurd hl (Nat.not_lt_zero _)
    | declared =>
      have hn := Nat.lt_one_iff.1 hl
      have hs : (ofModifiers before).storage = none := map_find?_eq_none.2 hn
      simp only [addStorage, hs]
      simp only [ofModifiers, accessWords_append, ha, List.append_nil, find?_snoc_of_neg (p := fun x => x.kind == .readonly) hr,
        map_find?_snoc hn hm]
  unfold add
  cases hk : m.kind with
  | access visibility =>
    simp only [Modifier.FitsBehind, hk] at h
    dsimp only
    rw [addAccess_fits h.1 h.2]
    simp only [ofModifiers, accessWords_append, accessWords_singleton hk]
    rw [find?_snoc_of_neg (by rw [hk]; rfl), find?_snoc_of_neg (by rw [Modifier.isStorage, hk]; rfl)]
  | readonly =>
    simp only [Modifier.FitsBehind, hk] at h
    have hr : (ofModifiers before).readonly = none := map_find?_eq_none.2 h
    dsimp only
    rw [hr]
    simp only [ofModifiers, accessWords_append, accessWords_singleton_eq_nil (m := m) (by simp [hk]), List.append_nil]
    rw [map_find?_snoc h (by rw [hk]; rfl), find?_snoc_of_neg (by rw [Modifier.isStorage, hk]; rfl)]
  | static | const =>
    simp only [Modifier.FitsBehind, hk] at h
    exact storage (by rw [Modifier.isStorage, hk]; rfl) (accessWords_singleton_eq_nil (by simp [hk])) (by rw [hk]; rfl) h
  | other => simp [Modifier.FitsBehind, hk] at h

/-- A modifier that is counted without a fault fits. -/
theorem fitsBehind_of_add (h : ((ofModifiers before).add owner site m).2 = none) : m.FitsBehind owner site before := by
  have storage (hs : ((ofModifiers before).addStorage site m.text).2 = none) :
      before.countP Modifier.isStorage < site.storageLimit := by
    unfold addStorage at hs
    split at hs
    · cases hs
    · rename_i hn
      exact Nat.lt_one_iff.2 (map_find?_eq_none.1 hn)
    · cases hs
  unfold add at h
  unfold Modifier.FitsBehind
  cases hk : m.kind with
  | access visibility =>
    rw [hk] at h
    exact addAccess_of_none h
  | readonly =>
    rw [hk] at h
    dsimp only at h
    split at h
    · rename_i hn
      exact map_find?_eq_none.1 hn
    · cases h
  | static | const =>
    rw [hk] at h
    exact storage h
  | other =>
    rw [hk] at h
    cases h

/-- When at most one of `static` and `const` is there, the one that counts is `const` exactly when `const` is there. -/
theorem storage_eq_const_iff (h : before.countP Modifier.isStorage ≤ 1) :
    (ofModifiers before).storage = some "const" ↔ hasModifier before .const := by
  simp only [ofModifiers, Option.map_eq_some_iff, ← kind_eq_const_iff, hasModifier, List.any_eq_true, beq_iff_eq]
  constructor
  · rintro ⟨m, hm, hk⟩
    exact ⟨m, List.mem_of_find?_eq_some hm, hk⟩
  · rintro ⟨m, hm, hk⟩
    have hf : m ∈ before.filter Modifier.isStorage := List.mem_filter.2 ⟨hm, by simp [Modifier.isStorage, hk]⟩
    have hl : (before.filter Modifier.isStorage).length = 1 := by
      rw [← List.countP_eq_length_filter]
      exact Nat.le_antisymm h (List.countP_pos_iff.2 ⟨m, List.mem_filter.1 hf⟩)
    obtain ⟨first, he⟩ := List.length_eq_one_iff.1 hl
    rw [he, List.mem_singleton] at hf
    refine ⟨m, ?_, hk⟩
    rw [← List.head?_filter, he, hf]
    rfl

/-- Modifiers that fit each behind those before it are without a fault together exactly when they are legal. -/
theorem problemsTogether_eq_nil_iff (h : ModifiersFit owner site before) :
    (ofModifiers before).problemsTogether site = [] ↔ ModifiersLegal owner site before := by
  have hs : before.countP Modifier.isStorage ≤ 1 := Nat.le_trans h.storage (by cases site <;> decide)
  have hr : (ofModifiers before).readonly = none ↔ ¬ hasModifier before .readonly := by
    rw [Bool.not_eq_true, hasModifier, List.any_eq_false]
    exact map_find?_eq_none.trans List.countP_eq_zero
  unfold problemsTogether
  cases hw : (ofModifiers before).readonly with
  | none =>
    have absent := hr.1 hw
    exact iff_of_true rfl ⟨h, fun there => absurd there absent, fun _ there => absurd there absent⟩
  | some span =>
    have there : hasModifier before .readonly := by
      by_contra absent
      rw [hr.2 absent] at hw
      cases hw
    simp only [storage_eq_const_iff hs, List.append_eq_nil_iff, ite_eq_right_iff, List.cons_ne_nil, imp_false]
    constructor
    · intro hc
      exact ⟨h, fun _ => hc.1, fun hp _ he => hc.2 ⟨hp, he⟩⟩
    · intro hl
      exact ⟨hl.notConst there, fun hp => hl.captured hp.1 there hp.2⟩

/-- The walk along modifiers finds no fault exactly when the whole list is legal. -/
theorem problemsFrom_eq_nil_iff {ms : List Modifier} (h : ModifiersFit owner site before) :
    (ofModifiers before).problemsFrom owner site ms = [] ↔ ModifiersLegal owner site (before ++ ms) := by
  induction ms generalizing before with
  | nil =>
    rw [List.append_nil]
    exact problemsTogether_eq_nil_iff h
  | cons m ms ih =>
    rw [List.append_cons]
    by_cases hm : m.FitsBehind owner site before
    · rw [problemsFrom, add_of_fitsBehind hm]
      exact ih (modifiersFit_snoc.2 ⟨h, hm⟩)
    · refine iff_of_false ?_ ?_
      · intro hn
        have hf := (List.append_eq_nil_iff.1 hn).1
        exact hm (fitsBehind_of_add (Option.map_eq_none_iff.1 (Option.toList_eq_nil_iff.1 hf)))
      · intro hl
        exact hm (modifiersFit_snoc.1 hl.toModifiersFit.left).2

end FieldWords

/-! ## Order -/

section

variable {owner : TypeKind} {site : FieldSite} {ms ms' : List Modifier}

theorem accessWords_perm (h : ms.Perm ms') : (accessWords ms).Perm (accessWords ms') :=
  h.filterMap _

theorem hasModifier_perm (h : ms.Perm ms') (kind : ModifierKind) : hasModifier ms kind = hasModifier ms' kind :=
  h.any_eq

/-- The rules do not ask where a modifier stands. -/
theorem ModifiersLegal.perm (hl : ModifiersLegal owner site ms) (h : ms.Perm ms') : ModifiersLegal owner site ms' where
  access := hl.access.perm (accessWords_perm h)
  notInStruct hs hm := hl.notInStruct hs ((accessWords_perm h).mem_iff.2 hm)
  readonly := h.countP_eq _ ▸ hl.readonly
  storage := h.countP_eq _ ▸ hl.storage
  known m hm := hl.known m (h.mem_iff.2 hm)
  notConst := by
    rw [← hasModifier_perm h, ← hasModifier_perm h]
    exact hl.notConst
  captured hs hr hn := by
    rw [← hasModifier_perm h] at hr
    exact hl.captured hs hr (List.perm_nil.1 (hn ▸ accessWords_perm h))

theorem visibilityOf_of_pair (h : accessWords ms = [.prot, .internal] ∨ accessWords ms = [.internal, .prot]) :
    visibilityOf ms = some .protInternal := by
  unfold accessWords at h
  unfold visibilityOf
  rcases h with h | h <;> rw [h] <;> rfl

/-- Accessibility modifiers that may stand together spell the same visibility in every order. -/
theorem visibilityOf_perm (ha : AccessTogether (accessWords ms)) (h : ms.Perm ms') : visibilityOf ms = visibilityOf ms' := by
  have hp := accessWords_perm h
  rcases ha with hl | hpair
  · have he : accessWords ms = accessWords ms' := by
      rcases Nat.le_one_iff_eq_zero_or_eq_one.1 hl with hl | hl
      · rw [List.length_eq_zero_iff] at hl
        rw [hl] at hp ⊢
        exact hp.nil_eq
      · obtain ⟨word, hl⟩ := List.length_eq_one_iff.1 hl
        rw [hl] at hp ⊢
        exact hp.singleton_eq
    unfold accessWords at he
    unfold visibilityOf
    rw [he]
  · have hpair' : accessWords ms' = [.prot, .internal] ∨ accessWords ms' = [.internal, .prot] := by
      rcases (AccessTogether.perm (.inr hpair) hp) with hl | hpair'
      · rw [← hp.length_eq] at hl
        rcases hpair with he | he <;> simp [he] at hl
      · exact hpair'
    rw [visibilityOf_of_pair hpair, visibilityOf_of_pair hpair']

end

/-- Modifiers are accepted exactly when they are legal. So every order of them is accepted when one is, and then all orders
spell the same visibility. -/
theorem modifierProblems_eq_nil_iff (ms : List Modifier) (owner : TypeKind) (site : FieldSite) :
    (modifierProblems ms owner site = [] ↔ ModifiersLegal owner site ms) ∧
      ∀ ms', ms.Perm ms' →
        (modifierProblems ms' owner site = [] ↔ modifierProblems ms owner site = []) ∧
        (modifierProblems ms owner site = [] → visibilityOf ms' = visibilityOf ms) := by
  have legal (ms : List Modifier) : modifierProblems ms owner site = [] ↔ ModifiersLegal owner site ms :=
    FieldWords.problemsFrom_eq_nil_iff (modifiersFit_nil : ModifiersFit owner site [])
  refine ⟨legal ms, fun ms' h => ⟨?_, ?_⟩⟩
  · rw [legal, legal]
    exact ⟨fun hl => hl.perm h.symm, fun hl => hl.perm h⟩
  · intro hn
    exact (visibilityOf_perm ((legal ms).1 hn).access h).symm

/-- `protected static internal readonly` is accepted, so `readonly internal static protected` is too and spells the same. -/
theorem modifierProblems_shuffled :
    modifierProblems (["readonly", "internal", "static", "protected"].map (⟨·, {}⟩)) .classType .declared = [] ∧
      visibilityOf (["readonly", "internal", "static", "protected"].map (⟨·, {}⟩)) = some .protInternal := by
  have accepted : modifierProblems (["protected", "static", "internal", "readonly"].map (⟨·, {}⟩)) .classType .declared = [] := by
    decide
  have shuffled : List.Perm (["protected", "static", "internal", "readonly"].map (⟨·, {}⟩ : String → Modifier))
      (["readonly", "internal", "static", "protected"].map (⟨·, {}⟩)) := by
    decide
  obtain ⟨same, spelled⟩ := (modifierProblems_eq_nil_iff _ .classType .declared).2 _ shuffled
  exact ⟨same.2 accepted, (spelled accepted).trans (by decide)⟩

end NavCheck
