import NavCheck.Proofs.Outcomes
import NavCheck.Proofs.Spellable

/-!
# Printing and reading again

What is read, printed and read again is the same expression, up to places and parentheses around operands, when it is legible.
Trees without assignments, lambdas, creations and guarded invocations always are, whether or not a text stands for them: the
only marks `?` outside brackets that guard no access are those of conditionals, and each of them has its `:`.
-/

namespace NavCheck

/-- A legible expression that was read is printed such that it reads back, and its text stays the same. -/
theorem Expr.parse_text_of_parse {source : String} {e : Expr} (h : Expr.parse source = .ok e) (hl : e.Legible) :
    ∃ e', Expr.parse e.text = .ok e' ∧ e.Regroups e' ∧ e'.text = e.text := by
  obtain ⟨e', hp, he⟩ := Expr.parse_text (e.fits_written (Expr.spellable_of_parse h)) hl
  exact ⟨e', hp, e.regroups_of_erased e' he, Expr.text_eq_of_erased_eq_written he⟩

/-- A creation of a nullable type is read with an initializer alone, but not with the arguments that it is printed with. -/
theorem nullable_creation_not_read_back :
    ∃ e, Expr.parse "new Foo? \x7b A = 1 \x7d" = .ok e ∧ e.text = "new Foo?() \x7b A = 1 \x7d" ∧
      ∀ e', Expr.parse e.text ≠ .ok e' := by
  have evaluated : ∃ e, Expr.parse "new Foo? \x7b A = 1 \x7d" = .ok e ∧ e.text = "new Foo?() \x7b A = 1 \x7d" ∧
      (Expr.parse e.text).isOk = false := by
    decide +kernel
  obtain ⟨e, h, htext, hfails⟩ := evaluated
  refine ⟨e, h, htext, fun e' he => ?_⟩
  rw [he] at hfails
  cases hfails

/-! ## Plain trees -/

mutual

/-- Whether a tree has no assignment, lambda, creation and guarded invocation. -/
def Expr.isPlain : Expr → Bool
  | .literal _ _ | .name _ _ | .self _ => true
  | .unary _ operand _ => operand.isPlain
  | .binary _ left right _ => left.isPlain && right.isPlain
  | .conditional condition thenBranch elseBranch _ => condition.isPlain && (thenBranch.isPlain && elseBranch.isPlain)
  | .assign _ _ _ | .lambda _ _ _ | .create _ _ _ _ => false
  | .paren inner _ => inner.isPlain
  | .access base link guarded _ => base.isPlain && link.isPlain guarded

/-- Whether a link is no guarded invocation, and the expressions in it are plain. -/
def Link.isPlain (guarded : Bool) : Link → Bool
  | .member _ _ => true
  | .element indices => listIsPlain indices
  | .invoke args => !guarded && listIsPlain args

/-- Whether expressions are plain. -/
def listIsPlain : List Expr → Bool
  | [] => true
  | e :: es => e.isPlain && listIsPlain es

end

mutual

/-- A plain tree names no types. -/
theorem Expr.legible_of_isPlain : ∀ e : Expr, e.isPlain = true → ∀ use ∈ e.uses, use.legible = true
  | .literal _ _, _ | .name _ _, _ | .self _, _ => by simp [Expr.uses]
  | .unary _ operand _, h => operand.legible_of_isPlain h
  | .binary _ left right _, h => by
    rw [Expr.isPlain, Bool.and_eq_true] at h
    exact List.forall_mem_append.2 ⟨left.legible_of_isPlain h.1, right.legible_of_isPlain h.2⟩
  | .conditional condition thenBranch elseBranch _, h => by
    rw [Expr.isPlain, Bool.and_eq_true, Bool.and_eq_true] at h
    exact List.forall_mem_append.2 ⟨condition.legible_of_isPlain h.1, List.forall_mem_cons.2 ⟨rfl,
      List.forall_mem_append.2 ⟨thenBranch.legible_of_isPlain h.2.1, elseBranch.legible_of_isPlain h.2.2⟩⟩⟩
  | .paren inner _, h => inner.legible_of_isPlain h
  | .access base link guarded _, h => by
    rw [Expr.isPlain, Bool.and_eq_true] at h
    refine List.forall_mem_append.2 ⟨base.legible_of_isPlain h.1, List.forall_mem_append.2
      ⟨?_, link.legible_of_isPlain guarded h.2⟩⟩
    cases guarded <;> simp [QuestionUse.legible]

theorem Link.legible_of_isPlain (guarded : Bool) : ∀ link : Link, link.isPlain guarded = true →
    ∀ use ∈ link.uses, use.legible = true
  | .member _ _, _ => by simp [Link.uses]
  | .element indices, h => list_legible_of_isPlain indices h
  | .invoke args, h => by
    rw [Link.isPlain, Bool.and_eq_true] at h
    exact list_legible_of_isPlain args h.2

theorem list_legible_of_isPlain : ∀ es : List Expr, listIsPlain es = true → ∀ use ∈ listUses es, use.legible = true
  | [], _ => by simp [listUses]
  | e :: es, h => by
    rw [listIsPlain, Bool.and_eq_true] at h
    exact List.forall_mem_append.2 ⟨e.legible_of_isPlain h.1, list_legible_of_isPlain es h.2⟩

end

/-- Parentheses hide what is stray. -/
theorem Expr.strays_within {e : Expr} (h : e.strays = false) (level : Nat) : (e.within level).strays = false := by
  unfold Expr.within
  split
  · rfl
  · exact h

/-- Outside its brackets a plain tree shows nothing stray. -/
theorem Expr.strays_of_isPlain : ∀ e : Expr, e.isPlain = true → e.written.strays = false
  | .literal _ _, _ | .name _ _, _ | .self _, _ | .paren _ _, _ => rfl
  | .unary _ operand _, h => Expr.strays_within (operand.strays_of_isPlain h) _
  | .binary _ left right _, h => by
    rw [Expr.isPlain, Bool.and_eq_true] at h
    exact Bool.or_eq_false_iff.2 ⟨Expr.strays_within (left.strays_of_isPlain h.1) _,
      Expr.strays_within (right.strays_of_isPlain h.2) _⟩
  | .conditional condition thenBranch elseBranch _, h => by
    rw [Expr.isPlain, Bool.and_eq_true, Bool.and_eq_true] at h
    exact Bool.or_eq_false_iff.2 ⟨Expr.strays_within (condition.strays_of_isPlain h.1) _,
      Bool.or_eq_false_iff.2 ⟨Expr.strays_within (thenBranch.strays_of_isPlain h.2.1) _,
        Expr.strays_within (elseBranch.strays_of_isPlain h.2.2) _⟩⟩
  | .access base link guarded _, h => by
    rw [Expr.isPlain, Bool.and_eq_true] at h
    have hb := Expr.strays_within (base.strays_of_isPlain h.1) levels.postfixed
    cases link with
    | member name span => exact hb
    | element indices => exact hb
    | invoke args =>
      have hg : guarded = false := by
        have := h.2
        rw [Link.isPlain, Bool.and_eq_true, Bool.not_eq_true'] at this
        exact this.1
      exact Bool.or_eq_false_iff.2 ⟨hb, hg⟩

/-- Whether nothing stray stands in front of the last `:` that is waited for. -/
def isCalm (later : Option Bool) : Bool :=
  later != some true

theorem Expr.clear_within {e : Expr} (h : ∀ later, isCalm later = true → e.clear later = true) {later : Option Bool}
    (hl : isCalm later = true) (level : Nat) : (e.within level).clear later = true := by
  unfold Expr.within
  split
  · exact h none rfl
  · exact h later hl

mutual

/-- No conditional in a plain tree is taken for an invocation. -/
theorem Expr.clear_of_isPlain : ∀ e : Expr, e.isPlain = true → ∀ later, isCalm later = true → e.written.clear later = true
  | .literal _ _, _, _, _ | .name _ _, _, _, _ | .self _, _, _, _ => rfl
  | .unary _ operand _, h, _, hl => Expr.clear_within (operand.clear_of_isPlain h) hl _
  | .binary _ left right _, h, _, hl => by
    rw [Expr.isPlain, Bool.and_eq_true] at h
    exact Bool.and_eq_true_iff.2 ⟨Expr.clear_within (left.clear_of_isPlain h.1) hl _,
      Expr.clear_within (right.clear_of_isPlain h.2) hl _⟩
  | .conditional condition thenBranch elseBranch _, h, later, hl => by
    rw [Expr.isPlain, Bool.and_eq_true, Bool.and_eq_true] at h
    have ht := Expr.strays_within (thenBranch.strays_of_isPlain h.2.1) levels.conditional
    have he := Expr.strays_within (elseBranch.strays_of_isPlain h.2.2) levels.conditional
    have hlater : (elseBranch.written.within levels.conditional).straysLater later = false := by
      cases later with
      | none => rfl
      | some b =>
        cases b with
        | false => simp [Expr.straysLater, he]
        | true => cases hl
    rw [Expr.written, Expr.clear, ht, hlater]
    simp only [Bool.or_false, Bool.and_false, Bool.not_false, Bool.true_and, Bool.and_eq_true]
    exact ⟨Expr.clear_within (condition.clear_of_isPlain h.1) hl _,
      Expr.clear_within (thenBranch.clear_of_isPlain h.2.1) rfl _,
      Expr.clear_within (elseBranch.clear_of_isPlain h.2.2) hl _⟩
  | .paren inner _, h, _, _ => inner.clear_of_isPlain h none rfl
  | .access base link guarded _, h, _, hl => by
    rw [Expr.isPlain, Bool.and_eq_true] at h
    exact Bool.and_eq_true_iff.2 ⟨Expr.clear_within (base.clear_of_isPlain h.1) hl _, link.clear_of_isPlain guarded h.2⟩

theorem Link.clear_of_isPlain (guarded : Bool) : ∀ link : Link, link.isPlain guarded = true → link.written.clear = true
  | .member _ _, _ => rfl
  | .element indices, h => list_clear_of_isPlain indices h
  | .invoke args, h => by
    rw [Link.isPlain, Bool.and_eq_true] at h
    exact list_clear_of_isPlain args h.2

theorem list_clear_of_isPlain : ∀ es : List Expr, listIsPlain es = true → listClear (writtenList es) = true
  | [], _ => rfl
  | e :: es, h => by
    rw [listIsPlain, Bool.and_eq_true] at h
    exact Bool.and_eq_true_iff.2 ⟨e.clear_of_isPlain h.1 none rfl, list_clear_of_isPlain es h.2⟩

end

/-- A plain tree that can be spelled is printed such that it reads back, and its rows of accesses stay together, also when the
printer had to add parentheses. -/
theorem Expr.parse_text_of_isPlain {e : Expr} (hp : e.isPlain = true) (hs : e.Spellable) :
    ∃ e', Expr.parse e.text = .ok e' ∧ e.Regroups e' := by
  obtain ⟨e', h, he⟩ := Expr.parse_text (e.fits_written hs) ⟨e.legible_of_isPlain hp, e.clear_of_isPlain hp none rfl⟩
  exact ⟨e', h, e.regroups_of_erased e' he⟩

/-- A sum as a factor, and a conditional as the root of a guarded access, with a parenthesis behind its `?`: no text stands for
this tree, and what its text stands for has two more parentheses. -/
theorem parse_text_of_factor_and_row :
    ∃ e : Expr, e.isPlain = true ∧ e.Spellable ∧ e.text = "(a + 7) * (b ? (c) : -d)?.$key" ∧
      ∃ e', Expr.parse e.text = .ok e' ∧ e.Regroups e' := by
  have hname : ∀ s ∈ ["a", "b", "c", "d", "key"], IsName s := by
    intro s hs
    simp only [List.mem_cons, List.not_mem_nil, or_false] at hs
    rcases hs with rfl | rfl | rfl | rfl | rfl <;> exact ⟨_, _, rfl, by rfl⟩
  have hs : (Expr.binary .mul (.binary .add (.name "a" default) (.literal (.int 7) default) default)
      (.access (.conditional (.name "b" default) (.paren (.name "c" default) default)
        (.unary .neg (.name "d" default) default) default) (.member (.keyed "key") default) true default)
      default).Spellable := by
    simp [Expr.Spellable, Link.Spellable, Literal.Fits, MemberName.Fits, hname, Lexer.maxNumber]
  exact ⟨_, by decide +kernel, hs, by decide +kernel, Expr.parse_text_of_isPlain (by decide +kernel) hs⟩

end NavCheck
