import Mathlib.Data.List.Forall2
import NavCheck.Proofs.Layout.Capture

/-!
# Tables in another layout

A table knows the place of every declared type, but nothing that it says of types depends on these places. So the table of a
relocated unit is the relocated table, and the findings on the way to it are the same without their places.
-/

namespace NavCheck

namespace Noted

variable {ν α α' β β' : Type} {R : ν → ν → Prop}

/-- A value with notes beside another: the value is the other one changed in a given way, and the notes are related one by
one. -/
def Moves (R : ν → ν → Prop) (f : α → α') (x' : Noted ν α') (x : Noted ν α) : Prop :=
  x'.value = f x.value ∧ List.Forall₂ R x'.notes x.notes

/-- A value without notes moves with nothing noted. -/
theorem moves_pure {f : α → α'} {a' : α'} {a : α} (h : a' = f a) : Moves R f (pure a') (pure a) :=
  ⟨h, .nil⟩

/-- One part of a computation and what goes on with its value. -/
theorem Moves.bind {f : α → α'} {g : β → β'} {x' : Noted ν α'} {x : Noted ν α} {k' : α' → Noted ν β'} {k : α → Noted ν β}
    (h : Moves R f x' x) (hk : ∀ a, Moves R g (k' (f a)) (k a)) : Moves R g (x' >>= k') (x >>= k) := by
  have hs := hk x.value
  rw [← h.1] at hs
  exact ⟨hs.1, List.rel_append h.2 hs.2⟩

/-- Notes that correspond. -/
theorem moves_note {n' n : ν} (h : R n' n) : Moves R id (note n') (note n) :=
  ⟨rfl, .cons h .nil⟩

/-- Several notes that correspond one by one. -/
theorem moves_noteAll {ns' ns : List ν} (h : List.Forall₂ R ns' ns) : Moves R id (noteAll ns') (noteAll ns) :=
  ⟨rfl, h⟩

/-- The same is found along a list and along a changed one. -/
theorem moves_mapM {p : α → α'} {f' : α' → Noted ν β} {f : α → Noted ν β} (h : ∀ a, Moves R id (f' (p a)) (f a))
    (l : List α) : Moves R id ((l.map p).mapM f') (l.mapM f) := by
  induction l with
  | nil => exact moves_pure rfl
  | cons a l ih =>
    rw [List.map_cons, List.mapM_cons, List.mapM_cons]
    exact (h a).bind fun _ => ih.bind fun _ => moves_pure rfl

/-- A computation for each item of a row. -/
theorem moves_forM {p : α → α'} {f' : α' → Noted ν Unit} {f : α → Noted ν Unit} (h : ∀ a, Moves R id (f' (p a)) (f a))
    (l : List α) : Moves R id ((l.map p).forM f') (l.forM f) := by
  induction l with
  | nil => exact moves_pure rfl
  | cons a l ih => exact (h a).bind fun _ => ih

end Noted

/-! ## What tables say of types -/

@[simps]
instance TypeInfo.placed : Placed TypeInfo where
  move m i := { i with span := move m i.span }
  move_move m n i := by simp only [move_move]

@[simps]
instance TypeTable.placed : Placed TypeTable where
  move m t := ⟨move m t.types⟩
  move_move m n t := by simp only [move_move]

@[simps]
instance TypeError.placed : Placed TypeError where
  move m e := { e with span := m.span e.span }
  move_move _ _ _ := rfl

namespace TypeTable

variable (m : Relocation) (t : TypeTable)

/-- Types are found by their names, and relocated. -/
theorem find?_move (name : String) : (move m t).find? name = (t.find? name).map (move m) :=
  List.find?_map

/-- Relocation does not change which values a type has. -/
theorem classify_move : ∀ type : Ty, (move m t).classify type = t.classify type
  | .named name args => by
    rw [classify, classify, find?_move]
    cases t.find? name <;> rfl
  | .nullable inner => by rw [classify, classify, classify_move inner]
  | .param _ (.base base) => by
    rw [classify, classify, find?_move]
    cases t.find? base <;> rfl
  | .array _ | .param _ .none | .param _ .reference | .param _ .value | .delegate _ _ | .null | .void | .error => rfl

/-- What a suffix makes of a type is the same. -/
theorem suffixed_move : (move m t).suffixed = t.suffixed := by
  funext type suffix
  cases suffix with
  | array => rfl
  | nullable => rw [suffixed, suffixed, classify_move]

mutual

/-- A written type means the same wherever it stands; a fault stands where the type does. -/
theorem resolve_move (scope : List GenericInfo) :
    ∀ e : TypeExpr, (move m t).resolve scope (move m e) = (t.resolve scope e).mapError (move m)
  | ⟨name, args, suffixes, span⟩ => by
    rw [TypeExpr.move_mk, resolve, resolve, suffixed_move, find?_move, List.length_map, List.isEmpty_map]
    cases scope.find? (·.name == name) with
    | some generic =>
      dsimp only
      cases args.isEmpty <;> rfl
    | none =>
      dsimp only
      split
      · rfl
      · cases t.find? name with
        | none => rfl
        | some info =>
          dsimp only [Option.map_some]
          rw [TypeInfo.placed_move_generics]
          split
          · rfl
          · rw [resolveAll_move scope args]
            cases t.resolveAll scope args <;> rfl

/-- Written types in a row mean the same, and the fault of one is relocated. -/
theorem resolveAll_move (scope : List GenericInfo) :
    ∀ es : List TypeExpr, (move m t).resolveAll scope (es.map (move m)) = (t.resolveAll scope es).mapError (move m)
  | [] => by rw [List.map_nil, resolveAll, resolveAll]; rfl
  | e :: es => by
    rw [List.map_cons, resolveAll, resolveAll, resolve_move scope e, resolveAll_move scope es]
    cases t.resolve scope e with
    | error fault => rfl
    | ok type => cases t.resolveAll scope es <;> rfl

end

/-- A written type that may be wrong means the same. -/
theorem resolveOrError_move (scope : List GenericInfo) (e : TypeExpr) :
    (move m t).resolveOrError scope (move m e) = t.resolveOrError scope e := by
  rw [resolveOrError, resolveOrError, resolve_move]
  cases t.resolve scope e <;> rfl

/-- Every type has the same base. -/
theorem baseOf?_move : (move m t).baseOf? = t.baseOf? := by
  funext type
  cases type with
  | named name args =>
    rw [baseOf?, baseOf?, find?_move]
    cases t.find? name <;> rfl
  | _ => rfl

/-- The row of bases of a type is the same. -/
theorem lineage_move (count : Nat) (type : Ty) : (move m t).lineage count type = t.lineage count type := by
  induction count generalizing type with
  | zero => rfl
  | succ count ih =>
    rw [lineage, lineage, baseOf?_move]
    cases t.baseOf? type with
    | none => rfl
    | some base => exact congrArg (type :: ·) (ih base)

/-- A type has the same members of its own. -/
theorem ownMember?_move (name : String) : (move m t).ownMember? name = t.ownMember? name := by
  funext type
  cases type with
  | named type args =>
    rw [ownMember?, ownMember?, find?_move]
    cases t.find? type <;> rfl
  | _ => rfl

/-- The same members are inherited. -/
theorem inheritedMember?_move (type : Ty) (name : String) :
    (move m t).inheritedMember? type name = t.inheritedMember? type name := by
  rw [inheritedMember?, inheritedMember?, lineage_move, ownMember?_move]

/-- Members are found alike by their names. -/
theorem plainMember?_move (type : Ty) (name : String) : (move m t).plainMember? type name = t.plainMember? type name := by
  have hs : (move m t).specificMember? name type = t.specificMember? name type := by
    cases type with
    | named type args => exact inheritedMember?_move m t _ name
    | param _ constraint =>
      cases constraint with
      | base base => exact inheritedMember?_move m t _ name
      | _ => rfl
    | _ => rfl
  rw [plainMember?, plainMember?, hs, inheritedMember?_move]

/-- A type has the same indexers of its own. -/
theorem ownIndexers_move : (move m t).ownIndexers = t.ownIndexers := by
  funext type
  cases type with
  | named type args =>
    rw [ownIndexers, ownIndexers, find?_move]
    cases t.find? type <;> rfl
  | _ => rfl

/-- The same indexers are inherited. -/
theorem indexers_move (type : Ty) : (move m t).indexers type = t.indexers type := by
  cases type with
  | named type args => rw [indexers, indexers, lineage_move, ownIndexers_move]
  | param _ constraint =>
    cases constraint with
    | base base => rw [indexers, indexers, lineage_move, ownIndexers_move]
    | _ => rfl
  | _ => rfl

/-- Indexers are found alike by the number of their indices. -/
theorem indexer?_move (type : Ty) (count : Nat) : (move m t).indexer? type count = t.indexer? type count := by
  rw [indexer?, indexer?, indexers_move]

/-- Members are found alike, by names and by keys. -/
theorem member?_move (type : Ty) (name : MemberName) : (move m t).member? type name = t.member? type name := by
  cases name with
  | plain name => exact plainMember?_move m t type name
  | keyed name => rw [member?, member?, indexers_move]

/-- The same types accept `null`. -/
theorem acceptsNull_move (target : Ty) : (move m t).acceptsNull target = t.acceptsNull target := by
  rw [acceptsNull, acceptsNull, classify_move]

/-- A named type can be assigned where it could be. -/
theorem namedAssignable_move (source target : Ty) :
    (move m t).namedAssignable source target = t.namedAssignable source target := by
  simp only [namedAssignable, derives, lineage_move]

/-- A type can be assigned where it could be. -/
theorem assignable_move (source target : Ty) : (move m t).assignable source target = t.assignable source target := by
  have hnull : (move m t).acceptsNull = t.acceptsNull := funext (acceptsNull_move m t)
  have hnamed : (move m t).namedAssignable = t.namedAssignable :=
    funext fun source => funext (namedAssignable_move m t source)
  rw [assignable_congr hnull hnamed]

/-- Chains on a type give the same. -/
theorem chainResult_move (type : Ty) : (move m t).chainResult type = t.chainResult type := by
  rw [chainResult, chainResult, classify_move]

/-- The same types can be compared. -/
theorem equatable_move (left right : Ty) : (move m t).equatable left right = t.equatable left right := by
  have hn : (move m t).meetsNull = t.meetsNull := by
    funext other
    rw [meetsNull, meetsNull, classify_move]
  simp only [equatable, hn, assignable_move]

/-- Two types have the same common type. -/
theorem unify?_move (left right : Ty) : (move m t).unify? left right = t.unify? left right := by
  have hn : (move m t).besideNull? = t.besideNull? := by
    funext other
    rw [besideNull?, besideNull?, classify_move]
  simp only [unify?, hn, assignable_move]

/-- A `??` gives the same type. -/
theorem coalesce?_move (left right : Ty) : (move m t).coalesce? left right = t.coalesce? left right := by
  simp only [coalesce?, classify_move, assignable_move]

/-- An operator gives the same type. -/
theorem binary?_move (op : BinOp) (left right : Ty) : (move m t).binary? op left right = t.binary? op left right := by
  simp only [binary?, equatable_move]

end TypeTable

/-! ## Building -/

/-- Findings that differ in their places only. -/
def Diagnostic.Matches (d' d : Diagnostic) : Prop :=
  erased d' = erased d

/-- Findings that match one by one are the same up to places. -/
theorem Diagnostic.erased_of_matches {ds' ds : List Diagnostic} (h : List.Forall₂ Matches ds' ds) :
    erased ds' = erased ds := by
  induction h with
  | nil => rfl
  | @cons d' d ds' ds hd _ ih =>
    show erased d' :: erased ds' = erased d :: erased ds
    rw [hd, ih]

/-- A table is built beside another: the same is found, and the same faults are reported, perhaps elsewhere. -/
abbrev Found.Moves {α α' : Type} (f : α → α') (x' : Found α') (x : Found α) : Prop :=
  Noted.Moves Diagnostic.Matches f x' x

/-- Faults with one message and one code give findings that match. -/
theorem TableFault.matches_finding {fault' fault : TableFault} (ht : fault'.message = fault.message)
    (hc : fault'.code = fault.code) (span' span : Span) :
    Diagnostic.Matches (fault'.finding span') (fault.finding span) := by
  rw [finding, finding, hc, ht]
  rfl

open Noted in
/-- A fault of the table is reported at both places. -/
theorem TableFault.moves_report (fault : TableFault) (span' span : Span) :
    Found.Moves id (fault.report span') (fault.report span) :=
  moves_note (matches_finding rfl rfl span' span)

/-- What the table keeps of a generic parameter has no places. -/
@[simp]
theorem GenericParam.info_move (m : Relocation) (g : GenericParam) : (move m g).info = g.info := by
  obtain ⟨name, span, _ | constraint⟩ := g
  · rfl
  · cases constraint with
    | type type =>
      show GenericInfo.mk name (.base (move m type).name) = _
      rw [TypeExpr.move_name]
      rfl
    | _ => rfl

/-- Whether a property can be set has nothing to do with places. -/
@[simp]
theorem PropertyBody.hasSetter_move (b : PropertyBody) : (move m b).hasSetter = b.hasSetter := by
  cases b with
  | expr _ => rfl
  | accessors list => simp [PropertyBody.hasSetter, List.any_map, Function.comp_def]

/-- The outline of a relocated declaration is the relocated outline. -/
theorem TypeDecl.outline_move (m : Relocation) (d : TypeDecl) : (move m d).outline = move m d.outline := by
  have hg : (move m d).generics.map (·.info) = d.generics.map (·.info) := by simp
  rw [outline, hg]
  rfl

namespace TypeTable

open Noted

section

variable (m : Relocation) (t : TypeTable) (scope : List GenericInfo)

/-- Outlines of relocated declarations are added alike, with the same ones reported. -/
theorem moves_addOutlines (ds : List TypeDecl) :
    Found.Moves (move m) ((move m t).addOutlines (ds.map (move m))) (t.addOutlines ds) := by
  induction ds generalizing t with
  | nil => exact moves_pure rfl
  | cons d ds ih =>
    rw [List.map_cons, addOutlines, addOutlines, TypeDecl.placed_move_name, find?_move]
    cases t.find? d.name with
    | some earlier => exact (TableFault.moves_report _ _ _).bind fun _ => ih t
    | none =>
      have ho : (⟨(move m t).types ++ [(move m d).outline]⟩ : TypeTable) = move m ⟨t.types ++ [d.outline]⟩ := by
        rw [TypeDecl.outline_move]
        exact congrArg TypeTable.mk (@List.map_append _ _ (move m) _ [d.outline]).symm
      dsimp only [Option.map_none]
      rw [ho]
      exact (ih _).bind fun _ => moves_pure rfl

/-- The generic parameters in scope are the same. -/
theorem genericScope_move (d : TypeDecl) : (move m t).genericScope (move m d) = t.genericScope d := by
  rw [genericScope, genericScope, TypeDecl.placed_move_name, find?_move]
  cases t.find? d.name with
  | some info => rfl
  | none => simp

/-- A written type is read alike, and reported at its relocated place. -/
theorem moves_read (e : TypeExpr) : Found.Moves id ((move m t).read scope (move m e)) (t.read scope e) := by
  rw [read, read, resolve_move]
  cases t.resolve scope e with
  | ok type => exact moves_pure rfl
  | error fault =>
    have hn : Diagnostic.Matches (move m fault).toDiagnostic fault.toDiagnostic := TableFault.matches_finding rfl rfl _ _
    exact (moves_note hn).bind fun _ => moves_pure rfl

/-- So is a written type that must have values. -/
theorem moves_readValue (e : TypeExpr) :
    Found.Moves id ((move m t).readValue scope (move m e)) (t.readValue scope e) := by
  refine (moves_read m t scope e).bind fun type => ?_
  cases type with
  | void => exact (TableFault.moves_report _ _ _).bind fun _ => moves_pure rfl
  | _ => exact moves_pure rfl

/-- So is the constraint of a generic parameter. -/
theorem moves_checkConstraint (g : GenericParam) :
    Found.Moves id ((move m t).checkConstraint scope (move m g)) (t.checkConstraint scope g) := by
  obtain ⟨name, span, _ | constraint⟩ := g
  · exact moves_pure rfl
  · cases constraint with
    | type e =>
      refine (moves_read m t scope e).bind fun type => ?_
      cases type with
      | error => exact moves_pure rfl
      | named name args =>
        show Found.Moves id (if (move m t).classify (.named name args) = _ then _ else _)
          (if t.classify (.named name args) = _ then _ else _)
        rw [classify_move]
        split
        · exact moves_pure rfl
        · exact TableFault.moves_report _ _ _
      | _ => exact TableFault.moves_report _ _ _
    | _ => exact moves_pure rfl

/-- The same types can be bases. -/
theorem canBeBase_move (type : Ty) : (move m t).canBeBase type = t.canBeBase type := by
  cases type with
  | named name args => rw [canBeBase, canBeBase, classify_move]
  | _ => rfl

/-- The base of a declaration is read alike. -/
theorem moves_readBase (d : TypeDecl) : Found.Moves id ((move m t).readBase scope (move m d)) (t.readBase scope d) := by
  obtain ⟨modifiers, kind, name, nameSpan, generics, primary, _ | base, members, span⟩ := d
  · exact moves_pure rfl
  · show Found.Moves id (if kind = .structType then _ else _) (if kind = .structType then _ else _)
    split
    · exact (TableFault.moves_report _ _ _).bind fun _ => moves_pure rfl
    · refine (moves_read m t scope base.type).bind fun type => ?_
      show Found.Moves id (if type = .error then _ else if (move m t).canBeBase type = true then _ else _)
        (if type = .error then _ else if t.canBeBase type = true then _ else _)
      rw [canBeBase_move]
      split
      · exact moves_pure rfl
      · split
        · exact moves_pure rfl
        · exact (TableFault.moves_report _ _ _).bind fun _ => moves_pure rfl

/-- A parameter of a primary constructor is read alike. -/
theorem moves_readPrimaryParam (p : PrimaryParam) :
    Found.Moves id ((move m t).readPrimaryParam scope (move m p)) (t.readPrimaryParam scope p) :=
  (moves_readValue m t scope p.type).bind fun _ => moves_pure (by simp)

/-- A parameter is read alike. -/
theorem moves_readParam (p : Param) : Found.Moves id ((move m t).readParam scope (move m p)) (t.readParam scope p) :=
  (moves_readValue m t scope p.type).bind fun _ => moves_pure (by simp)

/-- A field is read alike. -/
theorem moves_readField (f : FieldDecl) : Found.Moves id ((move m t).readField scope (move m f)) (t.readField scope f) := by
  have hv := moves_readValue m t scope f.type
  show Found.Moves id (if f.isCaptured = true then _ else _) (if f.isCaptured = true then _ else _)
  split
  · exact moves_pure hv.1
  · exact hv

/-- An indexer is read alike. -/
theorem moves_readIndexer (i : IndexerDecl) :
    Found.Moves id ((move m t).readIndexer scope (move m i)) (t.readIndexer scope i) :=
  (moves_mapM (moves_readParam m t scope) i.params).bind fun _ => (moves_readValue m t scope i.type).bind fun _ =>
    moves_pure (by simp)

/-- A member is read alike, whichever kind it is. -/
theorem moves_readMember (owner : String) (x : Member) :
    Found.Moves id ((move m t).readMember scope owner (move m x)) (t.readMember scope owner x) := by
  have hs := Member.isStatic_move m x
  cases x with
  | field f =>
    have hr : (move m f).isReadonly = f.isReadonly := hasModifier_move m f.modifiers .readonly
    rw [Member.move_field] at hs ⊢
    exact (moves_readField m t scope f).bind fun _ => moves_pure (by rw [hs, hr]; rfl)
  | property p =>
    rw [Member.move_property] at hs ⊢
    exact (moves_readValue m t scope p.type).bind fun _ => moves_pure (by rw [hs]; simp)
  | method d =>
    rw [Member.move_method] at hs ⊢
    exact (moves_mapM (moves_readParam m t scope) d.params).bind fun _ => (moves_read m t scope d.returnType).bind fun _ =>
      moves_pure (by rw [hs]; rfl)
  | indexer i => exact moves_pure rfl

/-- The modifiers of a member are checked alike. -/
theorem moves_checkModifiers (owner : TypeKind) (x : Member) :
    Found.Moves id (checkModifiers owner (move m x)) (checkModifiers owner x) := by
  cases x with
  | field f =>
    show Found.Moves id (if f.isCaptured = true then _ else _) (if f.isCaptured = true then _ else _)
    split
    · exact moves_pure rfl
    · refine moves_noteAll ?_
      rw [FieldDecl.placed_move_modifiers, List.placed_move, modifierProblems_move, List.map_map]
      refine List.forall₂_map_left_iff.2 (List.forall₂_map_right_iff.2 (List.forall₂_same.2 fun p _ => ?_))
      have ht : (TableFault.modifier (move m p).fault).message = (TableFault.modifier p.fault).message :=
        QualifierFault.message_move m p.fault
      exact TableFault.matches_finding ht rfl _ _
  | _ => exact moves_pure rfl

/-- A member with a name and the members behind it, when these are read alike. -/
theorem moves_namedMember (d : TypeDecl) (names : List String) (counts : List Nat) (x : Member) (name : String)
    (rest : List Member) (hr : ∀ names, Found.Moves id
      ((move m t).readMembers scope (move m d) names counts (rest.map (move m))) (t.readMembers scope d names counts rest)) :
    Found.Moves id
      (if names.contains name then do
        (TableFault.duplicateMember d.name name).report (move m x).nameSpan
        (move m t).readMembers scope (move m d) names counts (rest.map (move m))
      else do
        if name = d.name then (TableFault.memberNamedAsType name).report (move m x).nameSpan
        let signature ← (move m t).readMember scope d.name (move m x)
        let (members, indexers) ← (move m t).readMembers scope (move m d) (name :: names) counts (rest.map (move m))
        return (signature.toList ++ members, indexers))
      (if names.contains name then do
        (TableFault.duplicateMember d.name name).report x.nameSpan
        t.readMembers scope d names counts rest
      else do
        if name = d.name then (TableFault.memberNamedAsType name).report x.nameSpan
        let signature ← t.readMember scope d.name x
        let (members, indexers) ← t.readMembers scope d (name :: names) counts rest
        return (signature.toList ++ members, indexers)) := by
  split
  · exact (TableFault.moves_report _ _ _).bind fun _ => hr names
  · split
    · exact (TableFault.moves_report _ _ _).bind fun _ => (moves_readMember m t scope d.name x).bind fun _ =>
        (hr (name :: names)).bind fun _ => moves_pure rfl
    · exact (moves_readMember m t scope d.name x).bind fun _ => (hr (name :: names)).bind fun _ => moves_pure rfl

/-- The members of a declaration are read alike, with repetitions reported alike. -/
theorem moves_readMembers (d : TypeDecl) (names : List String) (counts : List Nat) (list : List Member) :
    Found.Moves id ((move m t).readMembers scope (move m d) names counts (list.map (move m)))
      (t.readMembers scope d names counts list) := by
  induction list generalizing names counts with
  | nil => exact moves_pure rfl
  | cons x xs ih =>
    have named (name : String) := moves_namedMember m t scope d names counts x name xs fun names => ih names counts
    refine (moves_checkModifiers m d.kind x).bind fun _ => ?_
    cases x with
    | indexer i =>
      refine (moves_readIndexer m t scope i).bind fun signature => ?_
      show Found.Moves id (if counts.contains signature.params.length = true then _ else _)
        (if counts.contains signature.params.length = true then _ else _)
      split
      · exact (TableFault.moves_report _ _ _).bind fun _ => ih names counts
      · exact (ih names _).bind fun _ => moves_pure rfl
    | field f => exact named f.name
    | property p => exact named p.name
    | method d => exact named d.name

/-- The signatures of a declaration are read alike. -/
theorem moves_readSignatures (d : TypeDecl) :
    Found.Moves id ((move m t).readSignatures (move m d)) (t.readSignatures d) := by
  rw [readSignatures, readSignatures, genericScope_move, TypeDecl.params_move]
  exact (moves_forM (moves_checkConstraint m t (t.genericScope d)) d.generics).bind fun _ =>
    (moves_readBase m t (t.genericScope d) d).bind fun _ =>
    (moves_mapM (moves_readPrimaryParam m t (t.genericScope d)) d.params).bind fun _ =>
    (moves_readMembers m t (t.genericScope d) d [] [] d.members).bind fun _ => moves_pure rfl

/-- Signatures are put into a relocated table as into the table itself. -/
theorem withSignatures_move (signatures : List (String × TypeSignatures)) :
    (move m t).withSignatures signatures = move m (t.withSignatures signatures) := by
  show TypeTable.mk _ = TypeTable.mk _
  simp only [withSignatures, TypeTable.placed_move_types, List.placed_move, List.map_map]
  refine congrArg (fun f => TypeTable.mk (t.types.map f)) (funext fun info => ?_)
  simp only [Function.comp_apply, TypeInfo.placed_move_name]
  cases signatures.lookup info.name <;> rfl

/-- The base that the table keeps for a name is the same. -/
theorem base_find?_move (name : String) : ((move m t).find? name).bind (·.base) = (t.find? name).bind (·.base) := by
  rw [find?_move]
  cases t.find? name <;> rfl

/-- Whether the bases of a type run in a circle is the same. -/
theorem basesCircle_move (name : String) (count : Nat) (base : Option Ty) :
    (move m t).basesCircle name count base = t.basesCircle name count base := by
  induction count generalizing base with
  | zero => rcases base with _ | type <;> [rfl; cases type <;> rfl]
  | succ count ih =>
    rcases base with _ | type
    · rfl
    · cases type with
      | named base args => rw [basesCircle, basesCircle, base_find?_move, ih]
      | _ => rfl

/-- A circle of bases is reported for the same declarations. -/
theorem moves_checkCircle (d : TypeDecl) : Found.Moves id ((move m t).checkCircle (move m d)) (t.checkCircle d) := by
  rw [checkCircle, checkCircle, TypeDecl.placed_move_name, base_find?_move, basesCircle_move]
  split
  · exact TableFault.moves_report _ _ _
  · exact moves_pure rfl

/-- The table of a relocated unit is the relocated table. -/
theorem moves_build (u : SourceUnit) : Found.Moves (move m) (build (move m u)) (build u) := by
  have hb : (builtin : TypeTable) = move m builtin := rfl
  have outlines := moves_addOutlines m builtin u.types
  rw [← hb] at outlines
  refine outlines.bind fun (outlines, added) => ?_
  have signatures : Found.Moves id
      ((added.map (move m)).mapM fun d => do return (d.name, ← (move m outlines).readSignatures d))
      (added.mapM fun d => do return (d.name, ← outlines.readSignatures d)) := by
    refine moves_mapM (fun d => ?_) added
    exact (moves_readSignatures m outlines d).bind fun _ => moves_pure rfl
  refine signatures.bind fun signatures => ?_
  show Found.Moves (move m)
    (do
      (added.map (move m)).forM ((move m outlines).withSignatures signatures).checkCircle
      return (move m outlines).withSignatures signatures) _
  rw [withSignatures_move]
  exact (moves_forM (moves_checkCircle m (outlines.withSignatures signatures)) added).bind fun _ => moves_pure rfl

end

end TypeTable

end NavCheck
