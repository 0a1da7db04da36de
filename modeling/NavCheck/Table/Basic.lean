import NavCheck.Table.Fault
import NavCheck.Table.Signature
import NavCheck.TypeExpr.Basic

/-!
# Type tables

A table knows types by name. It tells of every type whether its values are references, and gives written types their meaning.
-/

namespace NavCheck

/-- The known types; of several with one name the first counts. -/
structure TypeTable where
  types : List TypeInfo

namespace TypeTable

/-- The type of a name. -/
def find? (t : TypeTable) (name : String) : Option TypeInfo :=
  t.types.find? (·.name == name)

/-- The category of the values of a nullable type. -/
def nullableCategory : TypeCategory → TypeCategory
  | .value => .nullableValue
  | .reference => .reference
  | _ => .unknown

/-- The category of the values of a type. Of a generic parameter it is known only when it is constrained. -/
def classify (t : TypeTable) : Ty → TypeCategory
  | .named name _ => (t.find? name).elim .unknown (·.category)
  | .array _ => .reference
  | .nullable inner => nullableCategory (t.classify inner)
  | .param _ .none => .unknown
  | .param _ .reference => .reference
  | .param _ .value => .value
  | .param _ (.base base) =>
    match t.find? base with
    | some info => if info.category = .reference then .reference else .unknown
    | none => .unknown
  | .delegate _ _ => .reference
  | .null => .reference
  | .void => .void
  | .error => .unknown

/-- A type with a suffix. A `?` behind a reference changes nothing, since references may be missing anyway. -/
def suffixed (t : TypeTable) (type : Ty) : TypeSuffix → Ty
  | .array => .array type
  | .nullable => if t.classify type = .reference then type else type.orNull

mutual

/-- The meaning of a written type where the generic parameters `scope` can be named. -/
def resolve (t : TypeTable) (scope : List GenericInfo) : TypeExpr → Except TypeError Ty
  | ⟨name, args, suffixes, span⟩ => do
    let core ←
      match scope.find? (·.name == name) with
      | some generic =>
        if args.isEmpty then .ok generic.type else .error ⟨.paramWithArgs name, span⟩
      | none =>
        if name = "void" ∧ args.isEmpty then .ok .void
        else
          match t.find? name with
          | none => .error ⟨.unknown name, span⟩
          | some info =>
            if info.generics.length ≠ args.length then
              .error ⟨.argCount info.name info.generics.length args.length, span⟩
            else (resolveAll t scope args).map (Ty.named info.name)
    .ok (suffixes.foldl t.suffixed core)

/-- The meanings of several written types; the first fault counts. -/
def resolveAll (t : TypeTable) (scope : List GenericInfo) : List TypeExpr → Except TypeError (List Ty)
  | [] => .ok []
  | e :: es => do
    let type ← resolve t scope e
    let types ← resolveAll t scope es
    .ok (type :: types)

end

/-- The meaning of a written type, or the error type. -/
def resolveOrError (t : TypeTable) (scope : List GenericInfo) (e : TypeExpr) : Ty :=
  match t.resolve scope e with
  | .ok type => type
  | .error _ => .error

end TypeTable

end NavCheck
