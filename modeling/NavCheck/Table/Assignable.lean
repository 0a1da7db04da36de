import NavCheck.Table.Lookup

/-!
# Assignability

When a value of one type may be stored where another type is expected: the types are the same, or the one is a wider number,
a base, `object`, or the nullable form of the other, or `null` meets a type whose values may be missing. The error type fits
everywhere.
-/

namespace NavCheck

namespace TypeTable

/-- Whether a type is another type or has it among its bases. -/
def derives (t : TypeTable) (sub base : Ty) : Bool :=
  (t.lineage maxBaseDepth sub).contains base

/-- Whether `null` may be stored where a type is expected. -/
def acceptsNull (t : TypeTable) (target : Ty) : Bool :=
  t.classify target = .reference || t.classify target = .nullableValue

/-- Whether parameter types of delegates go together. -/
def sameParams : List Ty → List Ty → Bool
  | [], [] => true
  | a :: as, b :: bs => (a == b || a == .error || b == .error) && sameParams as bs
  | _, _ => false

/-- Whether a value of a named type may be stored where another type that is not nullable is expected. -/
def namedAssignable (t : TypeTable) (source target : Ty) : Bool :=
  if target = .object then true
  else
    match target with
    | .named _ _ =>
      match source.numericRank?, target.numericRank? with
      | some a, some b => a ≤ b
      | _, _ => t.derives source target
    | _ => false

/-- Whether a value of the type `source` may be stored where the type `target` is expected. A generic parameter with a base
counts as its base. -/
def assignable (t : TypeTable) (source target : Ty) : Bool :=
  if source = target ∨ source = .error ∨ target = .error then true
  else
    match target with
    | .void => false
    | .nullable inner =>
      match source with
      | .void => false
      | .null => t.acceptsNull target
      | .nullable sourceInner => t.assignable sourceInner inner
      | _ => t.assignable source inner
    | .delegate params result =>
      match source with
      | .null => t.acceptsNull target
      | .delegate sourceParams sourceResult =>
        sameParams sourceParams params && (result = .void || t.assignable sourceResult result)
      | _ => false
    | _ =>
      match source with
      | .void => false
      | .null => t.acceptsNull target
      | .named name args => t.namedAssignable (.named name args) target
      | .param _ (.base base) => .simple base = target || t.namedAssignable (.simple base) target
      | _ => target = .object

/-- Tables that agree about `null` and about named types agree about all types. -/
theorem assignable_congr {t' t : TypeTable} (hnull : t'.acceptsNull = t.acceptsNull)
    (hnamed : t'.namedAssignable = t.namedAssignable) : t'.assignable = t.assignable := by
  funext source target
  fun_induction t.assignable source target <;> rw [assignable.eq_def] <;> simp_all

end TypeTable

end NavCheck
