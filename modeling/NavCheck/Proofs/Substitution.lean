import NavCheck.Table.Signature

/-!
# Parameters and their replacement

A type is over some generic parameters when it mentions no others and nothing in it is nullable twice. Over its parameters a
type can be given arguments: what it mentions then is what the arguments mention, and arguments that are given one after the
other can be put together before.
-/

namespace NavCheck

namespace Ty

variable {gs hs : List GenericInfo} {t : Ty} {ts : List Ty} {s r : Substitution}

attribute [simp] replace replaceAll

/-! ## Parameters of a type -/

mutual

/-- The generic parameters that a type mentions. -/
def mentioned : Ty → List GenericInfo
  | .named _ args => mentionedAll args
  | .array element => element.mentioned
  | .nullable inner => inner.mentioned
  | .param name constraint => [⟨name, constraint⟩]
  | .delegate params result => mentionedAll params ++ result.mentioned
  | .null | .void | .error => []

/-- The generic parameters that several types mention. -/
def mentionedAll : List Ty → List GenericInfo
  | [] => []
  | t :: ts => t.mentioned ++ mentionedAll ts

end

/-- Several types mention what one of them mentions. -/
theorem mem_mentionedAll {g : GenericInfo} : g ∈ mentionedAll ts ↔ ∃ t ∈ ts, g ∈ t.mentioned := by
  induction ts with
  | nil => simp [mentionedAll]
  | cons t ts ih => simp [mentionedAll, ih]

/-- A type mentions only parameters of a list, and nothing in it is nullable twice. -/
inductive Over (gs : List GenericInfo) : Ty → Prop
  | named {name : String} {args : List Ty} (h : ∀ a ∈ args, Over gs a) : Over gs (.named name args)
  | array {element : Ty} (h : Over gs element) : Over gs (.array element)
  | nullable {inner : Ty} (h : Over gs inner) (once : inner.orNull = .nullable inner) : Over gs (.nullable inner)
  | param {name : String} {constraint : ParamConstraint} (h : ⟨name, constraint⟩ ∈ gs) : Over gs (.param name constraint)
  | delegate {params : List Ty} {result : Ty} (hp : ∀ p ∈ params, Over gs p) (hr : Over gs result) :
      Over gs (.delegate params result)
  | null : Over gs .null
  | void : Over gs .void
  | error : Over gs .error

/-- A named type is over parameters when its arguments are. -/
@[simp] theorem over_named {name : String} : (named name ts).Over gs ↔ ∀ t ∈ ts, t.Over gs :=
  ⟨fun h => by cases h; assumption, .named⟩

/-- A type without arguments is over any parameters. -/
@[simp] theorem over_simple (name : String) : (simple name).Over gs :=
  .named (List.forall_mem_nil _)

/-- An array is over parameters when its elements are. -/
@[simp] theorem over_array : (array t).Over gs ↔ t.Over gs :=
  ⟨fun h => by cases h; assumption, .array⟩

/-- What a nullable type is made of is over the same parameters. -/
theorem Over.of_nullable (h : (Ty.nullable t).Over gs) : t.Over gs := by
  cases h
  assumption

/-- A parameter is over parameters when it is one of them. -/
@[simp] theorem over_param {name : String} {constraint : ParamConstraint} :
    (param name constraint).Over gs ↔ ⟨name, constraint⟩ ∈ gs :=
  ⟨fun h => by cases h; assumption, .param⟩

/-- A delegate is over parameters when its parameters and its result are. -/
@[simp] theorem over_delegate : (delegate ts t).Over gs ↔ (∀ p ∈ ts, p.Over gs) ∧ t.Over gs :=
  ⟨fun h => by cases h; exact ⟨‹_›, ‹_›⟩, fun h => .delegate h.1 h.2⟩

/-- A type over parameters mentions no others. -/
theorem Over.mentioned (h : t.Over gs) : ∀ g ∈ t.mentioned, g ∈ gs := by
  induction h with
  | named _ ih =>
    intro g hg
    obtain ⟨a, ha, hg⟩ := mem_mentionedAll.1 hg
    exact ih a ha g hg
  | array _ ih => exact ih
  | nullable _ _ ih => exact ih
  | param h => exact List.forall_mem_singleton.2 h
  | delegate _ _ ihp ihr =>
    refine List.forall_mem_append.2 ⟨fun g hg => ?_, ihr⟩
    obtain ⟨p, hp, hg⟩ := mem_mentionedAll.1 hg
    exact ihp p hp g hg
  | null | void | error => exact List.forall_mem_nil _

/-- A type over parameters is over more parameters. -/
theorem Over.mono (h : t.Over gs) (hsub : gs ⊆ hs) : t.Over hs := by
  induction h with
  | named _ ih => exact .named ih
  | array _ ih => exact .array ih
  | nullable _ once ih => exact .nullable ih once
  | param h => exact .param (hsub h)
  | delegate _ _ ihp ihr => exact .delegate ihp ihr
  | null => exact .null
  | void => exact .void
  | error => exact .error

/-! ## Nullable forms -/

/-- A type with `null` already is not changed by adding it. -/
@[simp] theorem orNull_orNull (t : Ty) : t.orNull.orNull = t.orNull := by
  cases t <;> rfl

/-- Adding `null` to a type leaves it over the same parameters. -/
theorem Over.orNull (h : t.Over gs) : t.orNull.Over gs := by
  cases h with
  | nullable h once => exact .nullable h once
  | error => exact .error
  | named h => exact .nullable (.named h) rfl
  | array h => exact .nullable (.array h) rfl
  | param h => exact .nullable (.param h) rfl
  | delegate hp hr => exact .nullable (.delegate hp hr) rfl
  | null => exact .nullable .null rfl
  | void => exact .nullable .void rfl

/-! ## Replacing parameters -/

/-- Replacing in a list of types is replacing in each of them. -/
theorem replaceAll_eq_map (s : Substitution) (ts : List Ty) : replaceAll s ts = ts.map (·.replace s) := by
  induction ts with
  | nil => rfl
  | cons t ts ih => rw [replaceAll, ih, List.map_cons]

/-- Replacing in a named type is replacing in its arguments. -/
@[simp] theorem replace_named {name : String} : (named name ts).replace s = named name (ts.map (·.replace s)) := by
  rw [replace, replaceAll_eq_map]

/-- Replacing in a delegate is replacing in its parameters and its result. -/
@[simp] theorem replace_delegate : (delegate ts t).replace s = delegate (ts.map (·.replace s)) (t.replace s) := by
  rw [replace, replaceAll_eq_map]

/-- Replacing commutes with adding `null`. -/
theorem replace_orNull (s : Substitution) (t : Ty) : t.orNull.replace s = (t.replace s).orNull := by
  cases t with
  | nullable inner => rw [orNull, replace, orNull_orNull]
  | _ => rfl

mutual

/-- Only what is put in place of the parameters that a type mentions counts. -/
theorem replace_congr : ∀ t : Ty, (∀ g ∈ t.mentioned, s.lookup g.name = r.lookup g.name) → t.replace s = t.replace r
  | .named _ args, h => by
    rw [replace, replace, replaceAll_congr args h]
  | .array element, h => by
    rw [replace, replace, replace_congr element h]
  | .nullable inner, h => by
    rw [replace, replace, replace_congr inner h]
  | .param name constraint, h => by
    rw [replace, replace, h ⟨name, constraint⟩ (List.mem_singleton_self _)]
  | .delegate params result, h => by
    obtain ⟨hp, hr⟩ := List.forall_mem_append.1 h
    rw [replace, replace, replaceAll_congr params hp, replace_congr result hr]
  | .null, _ | .void, _ | .error, _ => rfl

/-- Substitutions that agree on what types mention replace alike in them. -/
theorem replaceAll_congr :
    ∀ ts : List Ty, (∀ g ∈ mentionedAll ts, s.lookup g.name = r.lookup g.name) → replaceAll s ts = replaceAll r ts
  | [], _ => rfl
  | t :: ts, h => by
    obtain ⟨ht, hts⟩ := List.forall_mem_append.1 h
    rw [replaceAll, replaceAll, replace_congr t ht, replaceAll_congr ts hts]

end

/-- Substitutions that agree on some parameters replace alike in a type over these. -/
theorem Over.replace_congr (h : t.Over gs) (hl : ∀ g ∈ gs, s.lookup g.name = r.lookup g.name) : t.replace s = t.replace r :=
  t.replace_congr fun g hg => hl g (h.mentioned g hg)

/-- With every parameter in its own place nothing changes. -/
theorem Over.replace_self (h : t.Over gs) (hl : ∀ g ∈ gs, (s.lookup g.name).getD g.type = g.type) : t.replace s = t := by
  induction h with
  | named _ ih => rw [replace_named, List.map_congr_left ih, List.map_id']
  | array _ ih => rw [replace, ih]
  | nullable _ once ih => rw [replace, ih, once]
  | param h => exact hl _ h
  | delegate _ _ ihp ihr => rw [replace_delegate, List.map_congr_left ihp, List.map_id', ihr]
  | null | void | error => rfl

/-- Over its parameters, putting in nothing is not a special case. -/
theorem Over.substitute_eq (h : t.Over gs) (s : Substitution) : t.substitute s = t.replace s := by
  rw [substitute]
  split
  · rename_i hs
    rw [List.isEmpty_iff.1 hs]
    exact (h.replace_self fun _ _ => rfl).symm
  · rfl

/-- A substitution gives every parameter of a list a type over other parameters. -/
def Substitution.Maps (gs hs : List GenericInfo) (s : Substitution) : Prop :=
  ∀ g ∈ gs, ∃ t, s.lookup g.name = some t ∧ t.Over hs

/-- Replacing each parameter by a type over others gives a type over those. -/
theorem Over.replace (h : t.Over gs) (hm : s.Maps gs hs) : (t.replace s).Over hs := by
  induction h with
  | named _ ih =>
    rw [replace_named]
    exact .named (List.forall_mem_map.2 ih)
  | array _ ih => exact .array ih
  | nullable _ _ ih => exact ih.orNull
  | param h =>
    obtain ⟨u, hu, ho⟩ := hm _ h
    rw [Ty.replace, hu]
    exact ho
  | delegate _ _ ihp ihr =>
    rw [replace_delegate]
    exact .delegate (List.forall_mem_map.2 ihp) ihr
  | null => exact .null
  | void => exact .void
  | error => exact .error

/-- Substituting for each parameter a type over others gives a type over those. -/
theorem Over.substitute (h : t.Over gs) (hm : s.Maps gs hs) : (t.substitute s).Over hs :=
  h.substitute_eq s ▸ h.replace hm

/-! ## One substitution after another -/

/-- What is looked up in the image of a substitution is the image of what is looked up. -/
theorem Substitution.lookup_map (f : Ty → Ty) (s : Substitution) (name : String) :
    (s.map (Prod.map id f)).lookup name = (s.lookup name).map f := by
  induction s with
  | nil => rfl
  | cons p s ih =>
    obtain ⟨key, value⟩ := p
    rw [List.map_cons, Prod.map_apply, List.lookup_cons, List.lookup_cons]
    cases h : name == key with
    | true => simp [h]
    | false => simp [h, ih]

/-- What puts in types where a second substitution was made, and then what the second one puts in. -/
def Substitution.followedBy (s r : Substitution) : Substitution :=
  s.map (Prod.map id (·.replace r)) ++ r

/-- Two substitutions after each other give what the first puts in, changed by the second, or else what the second puts in. -/
theorem Substitution.lookup_followedBy (s r : Substitution) (name : String) :
    (s.followedBy r).lookup name = ((s.lookup name).map (·.replace r)).or (r.lookup name) := by
  rw [followedBy, List.lookup_append, lookup_map]

mutual

/-- Two replacements are one. -/
theorem replace_replace (s r : Substitution) : ∀ t : Ty, (t.replace s).replace r = t.replace (s.followedBy r)
  | .named name args => by
    rw [replace, replace, replace, replaceAll_replaceAll s r args]
  | .array element => by
    rw [replace, replace, replace, replace_replace s r element]
  | .nullable inner => by
    rw [replace, replace_orNull, replace, replace_replace s r inner]
  | .param name constraint => by
    rw [replace, replace, Substitution.lookup_followedBy]
    cases s.lookup name <;> rfl
  | .delegate params result => by
    rw [replace, replace, replace, replaceAll_replaceAll s r params, replace_replace s r result]
  | .null | .void | .error => rfl

/-- Replacing twice in types is replacing once by both substitutions after each other. -/
theorem replaceAll_replaceAll (s r : Substitution) :
    ∀ ts : List Ty, replaceAll r (replaceAll s ts) = replaceAll (s.followedBy r) ts
  | [] => rfl
  | t :: ts => by
    rw [replaceAll, replaceAll, replaceAll, replace_replace s r t, replaceAll_replaceAll s r ts]

end

end Ty

end NavCheck
