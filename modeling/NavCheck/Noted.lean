/-!
# Notes

A value together with the notes that were made on the way to it. Nothing takes a note back, so the notes of a composite are
those of its parts in order.
-/

namespace NavCheck

/-- A value and the notes made on the way to it, in order. -/
structure Noted (ν : Type) (α : Type) where
  value : α
  notes : List ν

namespace Noted

variable {ν α β : Type}

instance : Monad (Noted ν) where
  pure a := ⟨a, []⟩
  bind a f := ⟨(f a.value).value, a.notes ++ (f a.value).notes⟩

instance : LawfulMonad (Noted ν) :=
  LawfulMonad.mk' _ (fun x => by cases x; exact congrArg _ (List.append_nil _)) (fun _ _ => rfl)
    (fun x f g => congrArg _ (List.append_assoc _ _ _))

/-- Makes a note. -/
def note (n : ν) : Noted ν Unit :=
  ⟨(), [n]⟩

/-- Makes several notes. -/
def noteAll (ns : List ν) : Noted ν Unit :=
  ⟨(), ns⟩

/-- A plain value is the value. -/
@[simp] theorem value_pure (a : α) : (pure a : Noted ν α).value = a := rfl

/-- A plain value comes without notes. -/
@[simp] theorem notes_pure (a : α) : (pure a : Noted ν α).notes = [] := rfl

/-- The value of two steps is that of the second. -/
@[simp] theorem value_bind (a : Noted ν α) (f : α → Noted ν β) : (a >>= f).value = (f a.value).value := rfl

/-- The notes of two steps are those of both, in order. -/
@[simp] theorem notes_bind (a : Noted ν α) (f : α → Noted ν β) : (a >>= f).notes = a.notes ++ (f a.value).notes := rfl

/-- What is made of a value is made of it. -/
@[simp] theorem value_map (f : α → β) (a : Noted ν α) : (f <$> a).value = f a.value := rfl

/-- What is made of a value comes with the same notes. -/
@[simp] theorem notes_map (f : α → β) (a : Noted ν α) : (f <$> a).notes = a.notes := List.append_nil _

/-- A note is the only note made by making it. -/
@[simp] theorem notes_note (n : ν) : (note n).notes = [n] := rfl

/-! ## What is there when nothing bad was noted -/

/-- The value has a property unless one of the notes is bad. -/
def Ensures (fine : ν → Prop) (p : α → Prop) (x : Noted ν α) : Prop :=
  (∀ n ∈ x.notes, fine n) → p x.value

section

variable {fine : ν → Prop} {p : α → Prop} {q : β → Prop} {x : Noted ν α} {f : α → Noted ν β}

/-- A plain value with a property has it. -/
theorem ensures_pure {a : α} (h : p a) : Ensures fine p (pure a : Noted ν α) :=
  fun _ => h

/-- What follows has to be looked at for the value that is there, and only when that has its property. -/
theorem Ensures.bind_value (h : Ensures fine p x) (hf : p x.value → Ensures fine q (f x.value)) :
    Ensures fine q (x >>= f) := by
  intro hn
  rw [notes_bind, List.forall_mem_append] at hn
  exact hf (h hn.1) hn.2

/-- What follows has to be looked at for values with the property of the first step. -/
theorem Ensures.bind (h : Ensures fine p x) (hf : ∀ a, p a → Ensures fine q (f a)) : Ensures fine q (x >>= f) :=
  h.bind_value (hf x.value)

/-- What comes behind decides alone. -/
theorem Ensures.behind (hf : ∀ a, Ensures fine q (f a)) : Ensures fine q (x >>= f) :=
  Ensures.bind (p := fun _ => True) (fun _ => trivial) fun a _ => hf a

/-- Where nothing bad is noted, the note that is made is not bad. -/
theorem ensures_note (n : ν) : Ensures fine (fun _ => fine n) (note n) :=
  fun h => h n (List.mem_singleton_self n)

/-- Behind a bad note everything holds. -/
theorem ensures_bad {n : ν} (h : ¬ fine n) (f : Unit → Noted ν β) : Ensures fine q (note n >>= f) :=
  (ensures_note n).bind fun _ hn => absurd hn h

/-- Where nothing bad is noted, all values of a list have their property. -/
theorem ensures_mapM {l : List α} (h : ∀ a ∈ l, Ensures fine q (f a)) : Ensures fine (∀ b ∈ ·, q b) (l.mapM f) := by
  induction l with
  | nil => exact ensures_pure (List.forall_mem_nil q)
  | cons a l ih =>
    rw [List.mapM_cons]
    exact (h a List.mem_cons_self).bind fun b hb =>
      (ih fun c hc => h c (List.mem_cons_of_mem a hc)).bind fun bs hbs =>
        ensures_pure (List.forall_mem_cons.2 ⟨hb, hbs⟩)

/-- What is found along a list, place by place. -/
theorem ensures_mapM_each {r : α → β → Prop} {l : List α} (h : ∀ a ∈ l, Ensures fine (r a) (f a)) :
    Ensures fine (fun _ => ∀ a ∈ l, r a (f a).value) (l.mapM f) := by
  induction l with
  | nil => exact ensures_pure (List.forall_mem_nil _)
  | cons a l ih =>
    rw [List.mapM_cons]
    exact (h a List.mem_cons_self).bind_value fun ha =>
      (ih fun b hb => h b (List.mem_cons_of_mem a hb)).bind fun _ hl => ensures_pure (List.forall_mem_cons.2 ⟨ha, hl⟩)

end

end Noted

end NavCheck
