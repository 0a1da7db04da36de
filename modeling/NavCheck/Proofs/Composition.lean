import NavCheck.Proofs.NullableOnce

/-!
# One substitution for two

Types that are put in place of parameters one after the other can be put in at once: what is put in first gets the second ones
put in before. A nullable form is made anew at every step, and nothing is done where there is nothing to put in; neither makes a
difference to this. It does to a type whose parameters get no other types: this stays as it is if nothing in it is nullable
twice, and else only when there is nothing to put in.
-/

namespace NavCheck

namespace Ty

variable {t : Ty} {ts : List Ty} {s r m : Substitution}

/-! ## What a type is made of -/

mutual

/-- The types that a type is made of, itself first. -/
def parts : Ty → List Ty
  | .named name args => .named name args :: partsAll args
  | .array element => .array element :: element.parts
  | .nullable inner => .nullable inner :: inner.parts
  | .param name constraint => [.param name constraint]
  | .delegate params result => .delegate params result :: (partsAll params ++ result.parts)
  | .null => [.null]
  | .void => [.void]
  | .error => [.error]

/-- The types that several types are made of. -/
def partsAll : List Ty → List Ty
  | [] => []
  | t :: ts => t.parts ++ partsAll ts

end

/-- Is the type a nullable form of a nullable type or of the error type? These have no nullable form of their own. -/
def isDoubled : Ty → Bool
  | .nullable (.nullable _) => true
  | .nullable .error => true
  | _ => false

theorem orNull_eq_iff : t.orNull = .nullable t ↔ (nullable t).isDoubled = false := by
  cases t with
  | nullable inner =>
    refine iff_of_false (fun h => ?_) Bool.noConfusion
    have hs := congrArg sizeOf (nullable.inj h)
    simp at hs
  | named | array | param | delegate | null | void | error => simp [orNull, isDoubled]

mutual

/-- Nothing in a type is nullable twice when none of its parts is. -/
theorem once_iff : ∀ t : Ty, t.Once ↔ ∀ p ∈ t.parts, p.isDoubled = false
  | .named name args => by
    rw [hereditary_once.named, once_all_iff args, parts, List.forall_mem_cons]
    exact (and_iff_right rfl).symm
  | .array element => by
    rw [hereditary_once.array, once_iff element, parts, List.forall_mem_cons]
    exact (and_iff_right rfl).symm
  | .nullable inner => by
    rw [parts, List.forall_mem_cons, ← once_iff inner, ← orNull_eq_iff]
    exact ⟨fun h => by cases h; exact ⟨‹_›, ‹_›⟩, fun h => .nullable h.2 h.1⟩
  | .param name constraint => iff_of_true (.param _ _) (List.forall_mem_singleton.2 rfl)
  | .delegate params result => by
    rw [hereditary_once.delegate, once_all_iff params, once_iff result, parts, List.forall_mem_cons, List.forall_mem_append]
    exact (and_iff_right rfl).symm
  | .null => iff_of_true .null (List.forall_mem_singleton.2 rfl)
  | .void => iff_of_true .void (List.forall_mem_singleton.2 rfl)
  | .error => iff_of_true .error (List.forall_mem_singleton.2 rfl)

theorem once_all_iff : ∀ ts : List Ty, (∀ t ∈ ts, t.Once) ↔ ∀ p ∈ partsAll ts, p.isDoubled = false
  | [] => iff_of_true (List.forall_mem_nil _) (List.forall_mem_nil _)
  | t :: ts => by
    rw [List.forall_mem_cons, once_iff t, once_all_iff ts, partsAll, List.forall_mem_append]

end

/-! ## What putting in types leaves as it is -/

theorem Once.over_mentioned (h : t.Once) : t.Over t.mentioned := by
  induction h with
  | named _ ih => exact .named fun a ha => (ih a ha).mono fun g hg => mem_mentionedAll.2 ⟨a, ha, hg⟩
  | array _ ih => exact .array ih
  | nullable _ once ih => exact .nullable ih once
  | param => exact .param (List.mem_singleton_self _)
  | delegate _ _ ihp ihr =>
    refine .delegate (fun p hp => (ihp p hp).mono fun g hg => ?_) (ihr.mono (List.subset_append_right _ _))
    exact List.mem_append_left _ (mem_mentionedAll.2 ⟨p, hp, hg⟩)
  | null => exact .null
  | void => exact .void
  | error => exact .error

mutual

/-- Where types are put in that are nullable once, nothing is nullable twice any more. -/
theorem once_replace (hs : ∀ q ∈ s, q.2.Once) : ∀ t : Ty, (t.replace s).Once
  | .named _ args => .named (once_replaceAll hs args)
  | .array element => .array (once_replace hs element)
  | .nullable inner => (once_replace hs inner).orNull
  | .param name constraint => by
    rw [replace]
    cases hl : s.lookup name with
    | none => exact .param _ _
    | some u => exact Hereditary.lookup hs hl
  | .delegate params result => .delegate (once_replaceAll hs params) (once_replace hs result)
  | .null => .null
  | .void => .void
  | .error => .error

theorem once_replaceAll (hs : ∀ q ∈ s, q.2.Once) : ∀ ts : List Ty, ∀ t ∈ replaceAll s ts, t.Once
  | [] => List.forall_mem_nil _
  | t :: ts => List.forall_mem_cons.2 ⟨once_replace hs t, once_replaceAll hs ts⟩

end

/-- Replacing other parameters leaves a type as it is exactly when nothing in it is nullable twice. -/
theorem replace_eq_self_iff (h : ∀ g ∈ t.mentioned, s.lookup g.name = none) : t.replace s = t ↔ t.Once := by
  rw [t.replace_congr h (r := [])]
  constructor
  · intro he
    exact he ▸ once_replace (List.forall_mem_nil _) t
  · intro ho
    exact ho.over_mentioned.replace_self fun _ _ => rfl

/-- Putting in types for other parameters leaves a type as it is, unless there are some and something in it is nullable twice. -/
theorem substitute_eq_self_iff (h : ∀ g ∈ t.mentioned, s.lookup g.name = none) :
    t.substitute s = t ↔ s = [] ∨ t.Once := by
  cases s with
  | nil => exact iff_of_true rfl (.inl rfl)
  | cons q s =>
    show t.replace (q :: s) = t ↔ _
    rw [replace_eq_self_iff h]
    exact (or_iff_right (List.cons_ne_nil q s)).symm

/-! ## One substitution after another -/

theorem Substitution.eq_nil_of_lookup (h : ∀ name, s.lookup name = none) : s = [] := by
  cases s with
  | nil => rfl
  | cons q s =>
    have hq := h q.1
    rw [List.lookup_cons_self] at hq
    cases hq

theorem substitute_of_ne_nil (h : s ≠ []) (t : Ty) : t.substitute s = t.replace s := by
  rw [substitute, if_neg (by simpa using h)]

/-- Only what a substitution gives for the names counts. -/
theorem substitute_congr (h : ∀ name, s.lookup name = r.lookup name) (t : Ty) : t.substitute s = t.substitute r := by
  by_cases hs : s = []
  · have hr : r = [] := Substitution.eq_nil_of_lookup fun name => by rw [← h, hs, List.lookup_nil]
    rw [hs, hr]
  · have hr : r ≠ [] := by
      rintro rfl
      exact hs (Substitution.eq_nil_of_lookup fun name => by rw [h, List.lookup_nil])
    rw [substitute_of_ne_nil hs, substitute_of_ne_nil hr, t.replace_congr fun g _ => h g.name]

/-- The third substitution gives every name of the first its type there with the second put in, and every other name of the second
its type there. -/
def Substitution.Joins (s r m : Substitution) : Prop :=
  ∀ name, m.lookup name = ((s.lookup name).map (·.substitute r)).or (r.lookup name)

/-- Two substitutions put together. -/
def Substitution.join (s r : Substitution) : Substitution :=
  s.map (Prod.map id (·.substitute r)) ++ r

theorem Substitution.joins_join (s r : Substitution) : s.Joins r (s.join r) := by
  intro name
  rw [join, List.lookup_append, lookup_map]

/-- Types that are put in one after the other are put in at once. -/
theorem substitute_substitute (h : s.Joins r m) (t : Ty) : (t.substitute s).substitute r = t.substitute m := by
  rcases eq_or_ne s [] with rfl | hs
  · exact substitute_congr (fun name => (h name).symm) t
  rcases eq_or_ne r [] with rfl | hr
  · refine substitute_congr (fun name => ?_) t
    rw [h name, List.lookup_nil, Option.or_none]
    exact Option.map_id'.symm
  · have hm : ∀ name, (s.followedBy r).lookup name = m.lookup name := by
      intro name
      rw [Substitution.lookup_followedBy, h name]
      simp only [substitute_of_ne_nil hr]
    have hf : s.followedBy r ≠ [] := by
      rw [Substitution.followedBy]
      exact List.append_ne_nil_of_right_ne_nil _ hr
    rw [substitute_of_ne_nil hs, substitute_of_ne_nil hr, replace_replace, ← substitute_of_ne_nil hf, substitute_congr hm]

/-- Two substitutions are one, and a substitution for other parameters changes nothing. What any two do to a type one after the
other is done by every substitution that joins them, and there is one. A substitution with nothing for the parameters of a type
leaves it as it is when nothing in it is a nullable form of a nullable type or of the error type, and else only when it is
empty. -/
theorem substitute_composes (t : Ty) (s r : Substitution) :
    (∃ m, s.Joins r m) ∧ (∀ m, s.Joins r m → (t.substitute s).substitute r = t.substitute m) ∧
      ((∀ g ∈ t.mentioned, s.lookup g.name = none) →
        (t.substitute s = t ↔ s = [] ∨ ∀ p ∈ t.parts, p.isDoubled = false)) :=
  ⟨⟨s.join r, Substitution.joins_join s r⟩, fun _ hm => substitute_substitute hm t,
    fun h => by rw [← once_iff, substitute_eq_self_iff h]⟩

/-- A parameter gets a nullable one, and this gets a type: the nullable form of the first is not made twice. A type without
parameters stays as it is, unless it is nullable twice. -/
theorem substitute_composes_of_nullable :
    let s : Substitution := [("T", .nullable (.param "U" .value))]
    let r : Substitution := [("U", .int)]
    let t : Ty := .delegate [.nullable (.param "T" .none)] (.array (.param "U" .value))
    (t.substitute s).substitute r = t.substitute [("T", .nullable .int), ("U", .int)] ∧
      (t.substitute s).substitute r = .delegate [.nullable .int] (.array .int) ∧
      (array (nullable int)).substitute s = array (nullable int) ∧
      (nullable (nullable int)).substitute s ≠ nullable (nullable int) := by
  intro s r t
  have joined : s.Joins r [("T", .nullable .int), ("U", .int)] := Substitution.joins_join s r
  have plain := (substitute_composes (array (nullable int)) s r).2.2 (List.forall_mem_nil _)
  have doubled := (substitute_composes (nullable (nullable int)) s r).2.2 (List.forall_mem_nil _)
  exact ⟨(substitute_composes t s r).2.1 _ joined, rfl, plain.2 (.inr (by decide)), fun h => absurd (doubled.1 h) (by decide)⟩

end Ty

end NavCheck
