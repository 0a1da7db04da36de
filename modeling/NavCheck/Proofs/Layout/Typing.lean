import NavCheck.Proofs.Layout.Lowering
import NavCheck.Proofs.Layout.Tables
import NavCheck.Typing.Body

/-!
# Types in another layout

A relocated expression has the type that the expression has. What is noted on the way is noted in the same order: findings
that differ in their places only, the relocated records of the chains with the same plans, and the relocated uses of names.
-/

namespace NavCheck

open Noted

@[simps]
instance NavigationRecord.placed : Placed NavigationRecord where
  move m r := { r with span := m.span r.span, guard := m.guard r.guard, lowered := move m r.lowered }
  move_move m n r := by simp only [move_move]; rfl

@[simps]
instance NameUse.placed : Placed NameUse where
  move m u := { u with span := m.span u.span }
  move_move _ _ _ := rfl

@[simps]
instance Env.placed : Placed Env where
  move m env := { env with table := move m env.table }
  move_move m n env := by simp only [move_move]

@[simps]
instance TypedChain.placed : Placed TypedChain where
  move m c := { c with guard := m.guard c.guard }
  move_move _ _ _ := rfl

instance TypedSpine.placed : Placed TypedSpine where
  move m
    | .whole operand settable => .whole operand settable
    | .chain c => .chain (move m c)
    | .refused => .refused
  move_move m n spine := by cases spine <;> simp only [move_move]

/-- What is noted about a relocated expression beside what is noted about the expression. -/
inductive TypingNote.Moved (m : Relocation) : TypingNote → TypingNote → Prop
  | finding {d' d : Diagnostic} : d'.Matches d → Moved m (.finding d') (.finding d)
  | chain (record : NavigationRecord) (plan : Option ChainPlan) : Moved m (.chain (move m record) plan) (.chain record plan)
  | name (use : NameUse) : Moved m (.name (move m use)) (.name use)

/-- A relocated part of typing beside the part. -/
abbrev Typed.Moves {α α' : Type} (m : Relocation) (f : α → α') (x' : Typed α') (x : Typed α) : Prop :=
  Noted.Moves (TypingNote.Moved m) f x' x

variable {m : Relocation}

/-- A fault is reported at both places. -/
theorem TypingFault.moves_report (fault : TypingFault) (span' span : Span) :
    Typed.Moves m id (fault.report span') (fault.report span) := by
  refine moves_note (.finding ?_)
  cases fault <;> rfl

/-- A fault that is reported before something is given all the same. -/
theorem TypingFault.moves_giving {α α' : Type} {f : α → α'} {a' : α'} {a : α} (fault : TypingFault) (span' span : Span)
    (h : a' = f a) :
    Typed.Moves m f (do fault.report span'; return a') (do fault.report span; return a) :=
  (fault.moves_report _ _).bind fun _ => moves_pure h

/-- An operand that is used as a value has the same type. -/
theorem Operand.moves_type (operand : Operand) (span' span : Span) :
    Typed.Moves m id (operand.type span') (operand.type span) := by
  cases operand with
  | value type => exact moves_pure rfl
  | method name params result => exact TypingFault.moves_giving _ _ _ rfl

/-- What is needed as a value has the same type. -/
theorem moves_requireValue (type : Ty) (span' span : Span) :
    Typed.Moves m id (requireValue type span') (requireValue type span) := by
  cases type with
  | void => exact TypingFault.moves_giving _ _ _ rfl
  | _ => exact moves_pure rfl

/-! ## Names and links -/

namespace Env

variable (m) (env : Env)

/-- Names mean the same. -/
@[simp]
theorem meaning_move (name : String) : (move m env).meaning name = env.meaning name := by
  rw [meaning, meaning, Env.placed_move_table, TypeTable.member?_move]
  rfl

/-- The same names can be assigned to. -/
@[simp]
theorem isSettable_move (name : String) : (move m env).isSettable name = env.isSettable name := by
  rw [isSettable, isSettable, Env.placed_move_table, TypeTable.member?_move]
  rfl

/-- The same links can be assigned to. -/
theorem linkSettable_move (type : Ty) (link : Link) :
    (move m env).linkSettable type (move m link) = env.linkSettable type link := by
  cases link with
  | member name span =>
    rw [Link.move_member, linkSettable, linkSettable, Env.placed_move_table, TypeTable.member?_move]
  | element indices =>
    rw [Link.move_element, linkSettable, linkSettable, Env.placed_move_table, TypeTable.indexer?_move, List.length_map]
  | invoke args => rw [Link.move_invoke, linkSettable, linkSettable]

/-- The same accesses can be assigned to. -/
theorem accessSettable_move (operand : Operand) (link : Link) :
    (move m env).accessSettable operand (move m link) = env.accessSettable operand link := by
  cases operand with
  | value type => exact linkSettable_move m env type link
  | method _ _ _ => rfl

variable {m}

/-- A name is looked up alike, at its relocated place. -/
theorem moves_lookup (name : String) (span : Span) :
    Typed.Moves m id ((move m env).lookup name (m.span span)) (env.lookup name span) := by
  have hn : Typed.Moves m id (note (.name ⟨name, m.span span, (move m env).meaning name⟩))
      (note (.name ⟨name, span, env.meaning name⟩)) := by
    rw [meaning_move]
    exact moves_note (.name ⟨name, span, env.meaning name⟩)
  refine hn.bind fun _ => ?_
  rw [meaning_move]
  cases env.meaning name with
  | «local» type => exact moves_pure rfl
  | parameter param phase => exact moves_pure rfl
  | member sig =>
    show Typed.Moves m id (if (env.isStatic && !sig.isStatic) = true then _ else _)
      (if (env.isStatic && !sig.isStatic) = true then _ else _)
    split
    · exact TypingFault.moves_giving _ _ _ rfl
    · exact moves_pure rfl
  | unknown => exact TypingFault.moves_giving _ _ _ rfl

/-- The current object has the same type. -/
theorem moves_selfType (span' span : Span) : Typed.Moves m id ((move m env).selfType span') (env.selfType span) := by
  show Typed.Moves m id (if env.isStatic = true then _ else _) (if env.isStatic = true then _ else _)
  split
  · exact TypingFault.moves_giving _ _ _ rfl
  · exact moves_pure rfl

/-- A written type means the same, and is reported at its relocated place. -/
theorem moves_resolve (e : TypeExpr) : Typed.Moves m id ((move m env).resolve (move m e)) (env.resolve e) := by
  rw [resolve, resolve, Env.placed_move_table, Env.placed_move_generics, TypeTable.resolve_move]
  cases env.table.resolve env.generics e with
  | ok type => exact moves_pure rfl
  | error fault =>
    exact (moves_note (.finding (TableFault.matches_finding rfl rfl _ _))).bind fun _ => moves_pure rfl

/-- A written type that was reported before means the same. -/
theorem resolveDeclared_move (e : TypeExpr) : (move m env).resolveDeclared (move m e) = env.resolveDeclared e :=
  TypeTable.resolveOrError_move m env.table env.generics e

/-- A member is found alike. -/
theorem moves_memberOf (type : Ty) (name : MemberName) (span' span : Span) :
    Typed.Moves m id ((move m env).memberOf type name span') (env.memberOf type name span) := by
  rw [memberOf, memberOf, Env.placed_move_table, TypeTable.member?_move]
  split
  · exact moves_pure rfl
  · cases env.table.member? type name with
    | some found => exact moves_pure rfl
    | none => cases name <;> exact TypingFault.moves_giving _ _ _ rfl

/-- An indexer is found alike. -/
theorem moves_indexerOf (type : Ty) (count : Nat) (span' span : Span) :
    Typed.Moves m id ((move m env).indexerOf type count span') (env.indexerOf type count span) := by
  rw [indexerOf, indexerOf, Env.placed_move_table, TypeTable.indexer?_move]
  split
  · exact moves_pure rfl
  · cases env.table.indexer? type count with
    | some found => exact moves_pure rfl
    | none => exact TypingFault.moves_giving _ _ _ rfl

end Env

/-- The same operands can be invoked. -/
theorem Operand.moves_callee (operand : Operand) (span' span : Span) :
    Typed.Moves m id (operand.callee span') (operand.callee span) := by
  cases operand with
  | method name params result => exact moves_pure rfl
  | value type =>
    cases type with
    | delegate params result => exact moves_pure rfl
    | error => exact moves_pure rfl
    | _ => exact TypingFault.moves_giving _ _ _ rfl

/-- As many arguments are asked for. -/
theorem moves_checkCount (callee : String) (params : List ParamSig) (given : Nat) (span' span : Span) :
    Typed.Moves m id (checkCount callee params given span') (checkCount callee params given span) := by
  rw [checkCount, checkCount]
  split
  · exact moves_pure rfl
  · exact TypingFault.moves_report _ _ _

namespace Env

variable (env : Env)

/-- A constructor is found alike. -/
theorem moves_constructorOf (type : Ty) (span' span : Span) :
    Typed.Moves m id ((move m env).constructorOf type span') (env.constructorOf type span) := by
  cases type with
  | named name args =>
    refine moves_pure ?_
    rw [Env.placed_move_table, TypeTable.find?_move]
    cases env.table.find? name <;> rfl
  | error => exact moves_pure rfl
  | _ => exact TypingFault.moves_giving _ _ _ rfl

/-- The target of an entry is found alike. -/
theorem moves_entryTarget (type : Ty) (label : String) (found : Option (Bool × Ty)) (span' span : Span) :
    Typed.Moves m id (entryTarget type label found span') (entryTarget type label found span) := by
  rcases found with _ | ⟨_ | _, target⟩
  · exact TypingFault.moves_giving _ _ _ rfl
  · exact TypingFault.moves_giving _ _ _ rfl
  · exact moves_pure rfl

/-- A member that an initializer sets is found alike. -/
theorem moves_memberTarget (type : Ty) (name : MemberName) (span' span : Span) :
    Typed.Moves m id ((move m env).memberTarget type name span') (env.memberTarget type name span) := by
  rw [memberTarget, memberTarget, Env.placed_move_table, TypeTable.member?_move]
  split
  · exact moves_pure rfl
  · exact moves_entryTarget _ _ _ _ _

/-! ## Operators -/

/-- An operator makes the same of an operand. -/
theorem moves_unaryType (op : UnOp) (type : Ty) (span' span : Span) :
    Typed.Moves m id (unaryType op type span') (unaryType op type span) := by
  rw [unaryType, unaryType]
  split
  · exact moves_pure rfl
  · split
    · exact moves_pure rfl
    · exact TypingFault.moves_giving _ _ _ rfl

/-- What both sides of `??` have in common, if they have anything in common. -/
theorem moves_coalesced (found : Option Ty) (left right : Ty) (span' span : Span) :
    Typed.Moves m id
      (match found with
        | some type => pure type
        | none => do
          (TypingFault.coalesceMismatch left right).report span'
          return .error)
      (match found with
        | some type => pure type
        | none => do
          (TypingFault.coalesceMismatch left right).report span
          return .error) := by
  cases found with
  | some type => exact moves_pure rfl
  | none => exact TypingFault.moves_giving _ _ _ rfl

/-- A `??` has the same type. -/
theorem moves_coalesceType (left right : Ty) (leftSpan' leftSpan span' span : Span) :
    Typed.Moves m id ((move m env).coalesceType left right leftSpan' span') (env.coalesceType left right leftSpan span) := by
  rw [coalesceType, coalesceType, Env.placed_move_table, TypeTable.classify_move, TypeTable.coalesce?_move]
  split
  · exact moves_pure rfl
  · split
    · exact moves_pure rfl
    · cases env.table.classify left with
      | value => exact TypingFault.moves_giving _ _ _ rfl
      | void => exact TypingFault.moves_giving _ _ _ rfl
      | _ => exact moves_coalesced _ left right _ _

/-- An operation has the same type. -/
theorem moves_binaryType (op : BinOp) (left right : Ty) (leftSpan' leftSpan span' span : Span) :
    Typed.Moves m id ((move m env).binaryType op left right leftSpan' span')
      (env.binaryType op left right leftSpan span) := by
  rw [binaryType, binaryType, Env.placed_move_table, TypeTable.binary?_move]
  split
  · exact moves_coalesceType env left right _ _ _ _
  · split
    · exact moves_pure rfl
    · cases env.table.binary? op left right with
      | some type => exact moves_pure rfl
      | none => exact TypingFault.moves_giving _ _ _ rfl

/-- A conditional has the same type. -/
theorem moves_branchType (thenType elseType : Ty) (span' span : Span) :
    Typed.Moves m id ((move m env).branchType thenType elseType span') (env.branchType thenType elseType span) := by
  rw [branchType, branchType, Env.placed_move_table, TypeTable.unify?_move]
  cases env.table.unify? thenType elseType with
  | some type => exact moves_pure rfl
  | none => exact TypingFault.moves_giving _ _ _ rfl

end Env

/-! ## Chains -/

/-- A relocated expression is the literal `null` if it was. -/
@[simp]
theorem Expr.isNullLiteral_move : ∀ e : Expr, (move m e).isNullLiteral = e.isNullLiteral
  | .literal .null _ => rfl
  | .literal (.int _) _ | .literal (.str _) _ | .literal (.bool _) _ => rfl
  | .paren inner _ => inner.isNullLiteral_move
  | .name _ _ | .self _ | .unary _ _ _ | .binary _ _ _ _ | .conditional _ _ _ _ | .assign _ _ _ | .lambda _ _ _
  | .access _ _ _ _ => rfl
  | .create _ _ _ _ => by rw [Expr.move_create]; rfl

/-- A relocated expression ends a row with a `?` if it did. -/
@[simp]
theorem Expr.onChain_move : ∀ e : Expr, (move m e).onChain = e.onChain
  | .access base _ _ _ => by rw [Expr.move_access, Expr.onChain, Expr.onChain, base.onChain_move]
  | .literal _ _ | .paren _ _ | .name _ _ | .self _ | .unary _ _ _ | .binary _ _ _ _ | .conditional _ _ _ _
  | .assign _ _ _ | .lambda _ _ _ => rfl
  | .create _ _ _ _ => by rw [Expr.move_create]; rfl

namespace Env

variable (env : Env)

/-- A chain is opened alike, and its guard is relocated. -/
theorem moves_openChain (root : Expr) (type : Ty) (guard : Span) :
    Typed.Moves m (move m) ((move m env).openChain (move m root) type (m.guard guard)) (env.openChain root type guard) := by
  have hf : (move m env).rootFault? (move m root) type = env.rootFault? root type := by
    rw [rootFault?, rootFault?, Env.placed_move_table, TypeTable.classify_move, Expr.isNullLiteral_move]
  rw [openChain, openChain, hf, Env.placed_move_table, TypeTable.classify_move, Expr.text_move]
  cases env.rootFault? root type with
  | some fault => exact TypingFault.moves_giving _ _ _ rfl
  | none =>
    dsimp only
    split
    · exact moves_pure rfl
    · cases env.table.classify type with
      | value => exact TypingFault.moves_giving _ _ _ rfl
      | _ => exact moves_pure rfl

/-- A chain is closed alike. -/
theorem moves_closeChain (top : Expr) (c : TypedChain) :
    Typed.Moves m id ((move m env).closeChain (move m top) (move m c)) (env.closeChain top c) := by
  refine (c.operand.moves_type _ _).bind fun type => ?_
  rw [Env.placed_move_table, TypeTable.chainResult_move, Expr.text_move, Expr.move_span]
  show Typed.Moves m id (if type = .error then _ else _) (if type = .error then _ else _)
  split
  · exact moves_pure rfl
  · have rest : Typed.Moves m id
        (do
          note (.chain ⟨m.span top.span, m.guard c.guard, top.text, c.root, env.table.chainResult type, none⟩
            (planOf c (env.table.chainResult type)))
          return (env.table.chainResult type).type)
        (do
          note (.chain ⟨top.span, c.guard, top.text, c.root, env.table.chainResult type, none⟩
            (planOf c (env.table.chainResult type)))
          return (env.table.chainResult type).type) :=
      (moves_note (.chain ⟨top.span, c.guard, top.text, c.root, env.table.chainResult type, none⟩ _)).bind fun _ =>
        moves_pure rfl
    show Typed.Moves m id (if env.table.chainResult type = .error then _ else _)
      (if env.table.chainResult type = .error then _ else _)
    split
    · exact (TypingFault.moves_report _ _ _).bind fun _ => rest
    · exact rest

/-- A row of accesses is closed alike. -/
theorem moves_close (top : Expr) (spine : TypedSpine) :
    Typed.Moves m id ((move m env).close (move m top) (move m spine)) (env.close top spine) := by
  cases spine with
  | whole operand settable => exact moves_pure rfl
  | chain c => exact (moves_closeChain env top c).bind fun _ => moves_pure rfl
  | refused => exact moves_pure rfl

/-- The parameters of a lambda have the same types. -/
theorem moves_lambdaParams (params : List LambdaParam) (expected : Option (List Ty)) :
    Typed.Moves m id ((move m env).lambdaParams (params.map (move m)) expected) (env.lambdaParams params expected) := by
  induction params generalizing expected with
  | nil => exact moves_pure rfl
  | cons p ps ih =>
    obtain ⟨type, name, span⟩ := p
    have rest : ∀ type : Ty, Typed.Moves m id
        (do return (name, type) :: (← (move m env).lambdaParams (ps.map (move m)) (expected.map (·.tail))))
        (do return (name, type) :: (← env.lambdaParams ps (expected.map (·.tail)))) := fun type =>
      (ih _).bind fun _ => moves_pure rfl
    cases type with
    | none => exact rest _
    | some written => exact (moves_resolve env written).bind rest

/-- An expression that is needed as a value has the same type when its row has. -/
theorem moves_valueOf (e : Expr) {spine' spine : Typed TypedSpine} (h : Typed.Moves m (move m) spine' spine) :
    Typed.Moves m id ((move m env).valueOf (move m e) spine') (env.valueOf e spine) :=
  h.bind fun row => (moves_close env e row).bind fun operand => operand.moves_type _ _

/-- So has one that is needed as a value that is there. -/
theorem moves_presentValueOf (e : Expr) {spine' spine : Typed TypedSpine} (h : Typed.Moves m (move m) spine' spine) :
    Typed.Moves m id ((move m env).presentValueOf (move m e) spine') (env.presentValueOf e spine) :=
  (moves_valueOf env e h).bind fun type => moves_requireValue type _ _

/-- So has one that is checked against a type. -/
theorem moves_check (expected : Ty) (e : Expr) {spine' spine : Typed TypedSpine} (h : Typed.Moves m (move m) spine' spine) :
    Typed.Moves m id ((move m env).check expected (move m e) spine') (env.check expected e spine) := by
  refine (moves_presentValueOf env e h).bind fun found => ?_
  rw [Env.placed_move_table, TypeTable.assignable_move]
  show Typed.Moves m id (if (!env.table.assignable found expected) = true then _ else _)
    (if (!env.table.assignable found expected) = true then _ else _)
  split
  · exact TypingFault.moves_report _ _ _
  · exact moves_pure rfl

/-- So has the target of an assignment. -/
theorem moves_targetOf (e : Expr) {spine' spine : Typed TypedSpine} (h : Typed.Moves m (move m) spine' spine) :
    Typed.Moves m id ((move m env).targetOf (move m e) spine') (env.targetOf e spine) := by
  refine h.bind fun row => (moves_close env e row).bind fun operand => (operand.moves_type _ _).bind fun type => ?_
  rw [Expr.onChain_move]
  have refuse : Typed.Moves m id
      (do
        if type ≠ .error then TypingFault.notTarget.report (move m e).span
        return Ty.error)
      (do
        if type ≠ .error then TypingFault.notTarget.report e.span
        return .error) := by
    split
    · exact TypingFault.moves_giving _ _ _ rfl
    · exact moves_pure rfl
  show Typed.Moves m id (if e.onChain = true then _ else _) (if e.onChain = true then _ else _)
  split
  · exact TypingFault.moves_giving _ _ _ rfl
  · cases row with
    | whole operand settable =>
      cases settable
      · exact refuse
      · exact moves_pure rfl
    | chain c => exact refuse
    | refused => exact refuse

/-- A base can be accessed as before. -/
theorem moves_baseOperand (operand : Operand) (goal : Goal) (link : Link) (base : Expr) :
    Typed.Moves m id (baseOperand operand goal (move m link) (move m base)) (baseOperand operand goal link base) := by
  cases goal with
  | target =>
    cases link with
    | invoke args =>
      rw [Link.move_invoke]
      exact moves_pure rfl
    | member name span => exact (operand.moves_type _ _).bind fun _ => moves_pure rfl
    | element indices =>
      rw [Link.move_element]
      exact (operand.moves_type _ _).bind fun _ => moves_pure rfl
  | value => exact moves_pure rfl
  | against expected => exact moves_pure rfl

/-- The first access of a chain, when the spine of its base and the access are typed alike. -/
theorem moves_guarded (hm : m.Faithful) (base : Expr) (link : Link) (span : Span) {spine' spine : Typed TypedSpine}
    (hs : Typed.Moves m (move m) spine' spine)
    (hl : ∀ operand, Typed.Moves m id ((move m link).typeOnto (move m env) operand (m.span span))
      (link.typeOnto env operand span)) :
    Typed.Moves m (move m)
      (do
        let type ← (move m env).valueOf (move m base) spine'
        match ← (move m env).openChain (move m base) type (guardSpan (move m base) (m.span span)) with
        | some c => return .chain { c with operand := ← (move m link).typeOnto (move m env) c.operand (m.span span) }
        | none => return .refused)
      (do
        let type ← env.valueOf base spine
        match ← env.openChain base type (guardSpan base span) with
        | some c => return TypedSpine.chain { c with operand := ← link.typeOnto env c.operand span }
        | none => return .refused) := by
  rw [guardSpan_move hm]
  refine (moves_valueOf env base hs).bind fun type => (moves_openChain env base type _).bind fun found => ?_
  cases found with
  | some c => exact (hl c.operand).bind fun _ => moves_pure rfl
  | none => exact moves_pure rfl

end Env

/-! ## Expressions -/

mutual

/-- A relocated expression is typed as the expression is. -/
theorem Expr.moves_typeSpine (hm : m.Faithful) (env : Env) (goal : Goal) :
    ∀ e : Expr, Typed.Moves m (move m) ((move m e).typeSpine (move m env) goal) (e.typeSpine env goal)
  | .literal value _ => moves_pure rfl
  | .name text span => by
    rw [Expr.move_name, Expr.typeSpine, Expr.typeSpine, Env.isSettable_move]
    exact (Env.moves_lookup env text span).bind fun _ => moves_pure rfl
  | .self span => (Env.moves_selfType env _ _).bind fun _ => moves_pure rfl
  | .unary op operand span =>
    (Env.moves_presentValueOf env operand (operand.moves_typeSpine hm env .value)).bind fun type =>
      (Env.moves_unaryType op type _ _).bind fun _ => moves_pure rfl
  | .binary op left right span =>
    (Env.moves_presentValueOf env left (left.moves_typeSpine hm env .value)).bind fun leftType =>
      (Env.moves_presentValueOf env right (right.moves_typeSpine hm env .value)).bind fun rightType =>
      (Env.moves_binaryType env op leftType rightType _ _ _ _).bind fun _ => moves_pure rfl
  | .conditional condition thenBranch elseBranch _ =>
    (Env.moves_check env .bool condition (condition.moves_typeSpine hm env (.against .bool))).bind fun _ =>
      (Env.moves_presentValueOf env thenBranch (thenBranch.moves_typeSpine hm env .value)).bind fun thenType =>
      (Env.moves_presentValueOf env elseBranch (elseBranch.moves_typeSpine hm env .value)).bind fun elseType =>
      (Env.moves_branchType env thenType elseType _ _).bind fun _ => moves_pure rfl
  | .assign target value _ =>
    (Env.moves_targetOf env target (target.moves_typeSpine hm env .target)).bind fun type =>
      (Env.moves_check env type value (value.moves_typeSpine hm env (.against type))).bind fun _ => moves_pure rfl
  | .lambda params body _ => by
    rw [Expr.move_lambda, Expr.typeSpine, Expr.typeSpine, List.length_map]
    generalize goal.delegate? params.length = expected
    refine (Env.moves_lambdaParams env params _).bind fun types => ?_
    have free := Env.moves_valueOf (env.enterLambda types) body (body.moves_typeSpine hm (env.enterLambda types) .value)
    rcases expected with _ | ⟨expected, result⟩
    · exact free.bind fun _ => moves_pure rfl
    · have against := Env.moves_check (env.enterLambda types) result body
        (body.moves_typeSpine hm (env.enterLambda types) (.against result))
      cases result with
      | void => exact free.bind fun _ => moves_pure rfl
      | _ => exact against.bind fun _ => moves_pure rfl
  | .paren inner _ => by
    have closed : Typed.Moves m (move m)
        (do return .whole (← (move m env).close (move m inner) (← (move m inner).typeSpine (move m env) .value)) false)
        (do return TypedSpine.whole (← env.close inner (← inner.typeSpine env .value)) false) :=
      (inner.moves_typeSpine hm env .value).bind fun row => (Env.moves_close env inner row).bind fun _ => moves_pure rfl
    cases goal with
    | target =>
      exact (Env.moves_targetOf env inner (inner.moves_typeSpine hm env .target)).bind fun _ => moves_pure rfl
    | value => exact closed
    | against _ => exact closed
  | .access base (.invoke args) true span => by
    have ht : (args.map (move m)).map (·.text) = args.map (·.text) := by simp
    rw [Expr.move_access, Link.move_invoke, Expr.typeSpine, Expr.typeSpine, Expr.text_move, ht]
    refine (Env.moves_valueOf env base (base.moves_typeSpine hm env .value)).bind fun _ => ?_
    refine (moves_typeList hm env args).bind fun _ => ?_
    exact (moves_note (.finding rfl)).bind fun _ => moves_pure rfl
  | .access base (.member name nameSpan) true span =>
    Env.moves_guarded env hm base (.member name nameSpan) span (base.moves_typeSpine hm env .value) fun operand =>
      (Link.member name nameSpan).moves_typeOnto hm env operand span
  | .access base (.element indices) true span => by
    have guarded := Env.moves_guarded env hm base (.element indices) span (base.moves_typeSpine hm env .value)
      fun operand => (Link.element indices).moves_typeOnto hm env operand span
    rw [Link.move_element] at guarded
    rw [Expr.move_access, Link.move_element]
    exact guarded
  | .access base link false span => by
    rw [Expr.move_access, Expr.typeSpine, Expr.typeSpine]
    refine (base.moves_typeSpine hm env .value).bind fun row => ?_
    cases row with
    | chain c => exact (link.moves_typeOnto hm env c.operand span).bind fun _ => moves_pure rfl
    | refused => exact moves_pure rfl
    | whole operand settable =>
      refine (Env.moves_baseOperand operand goal link base).bind fun operand => ?_
      refine (link.moves_typeOnto hm env operand span).bind fun result => moves_pure ?_
      rw [Env.accessSettable_move]
      rfl
  | .create type args entries span => by
    rw [Expr.move_create, Expr.typeSpine, Expr.typeSpine, List.length_map]
    refine (Env.moves_resolve env type).bind fun created => (Env.moves_constructorOf env created _ _).bind fun found => ?_
    have rest : Typed.Moves m (move m)
        (do
          checkEntries (move m env) created (entries.map (move m))
          return .whole (.value created) false)
        (do
          checkEntries env created entries
          return TypedSpine.whole (.value created) false) :=
      (moves_checkEntries hm env created entries).bind fun _ => moves_pure rfl
    cases found with
    | some params =>
      exact (moves_checkCount _ _ _ _ _).bind fun _ => (moves_checkList hm env params args).bind fun _ => rest
    | none => exact (moves_typeList hm env args).bind fun _ => rest

/-- A relocated link is typed as the link is. -/
theorem Link.moves_typeOnto (hm : m.Faithful) (env : Env) (operand : Operand) (span : Span) :
    ∀ link : Link,
      Typed.Moves m id ((move m link).typeOnto (move m env) operand (m.span span)) (link.typeOnto env operand span)
  | .member name nameSpan =>
    (operand.moves_type _ _).bind fun type => Env.moves_memberOf env type name _ _
  | .element indices => by
    rw [Link.move_element, Link.typeOnto, Link.typeOnto, List.length_map]
    refine (operand.moves_type _ _).bind fun type => (Env.moves_indexerOf env type _ _ _).bind fun found => ?_
    cases found with
    | some indexer => exact (moves_checkList hm env indexer.params indices).bind fun _ => moves_pure rfl
    | none => exact (moves_typeList hm env indices).bind fun _ => moves_pure rfl
  | .invoke args => by
    rw [Link.move_invoke, Link.typeOnto, Link.typeOnto, List.length_map]
    refine (operand.moves_callee _ _).bind fun found => ?_
    cases found with
    | some callee =>
      exact (moves_checkCount _ _ _ _ _).bind fun _ => (moves_checkList hm env callee.params args).bind fun _ =>
        moves_pure rfl
    | none => exact (moves_typeList hm env args).bind fun _ => moves_pure rfl

/-- Expressions in a row have the same types. -/
theorem moves_typeList (hm : m.Faithful) (env : Env) :
    ∀ es : List Expr, Typed.Moves m id (typeList (move m env) (es.map (move m))) (typeList env es)
  | [] => moves_pure rfl
  | e :: es => by
    rw [List.map_cons, typeList, typeList]
    exact (Env.moves_valueOf env e (e.moves_typeSpine hm env .value)).bind fun _ => moves_typeList hm env es

/-- Arguments are checked alike. -/
theorem moves_checkList (hm : m.Faithful) (env : Env) (params : List ParamSig) :
    ∀ es : List Expr, Typed.Moves m id (checkList (move m env) params (es.map (move m))) (checkList env params es)
  | [] => by
    rw [List.map_nil, checkList, checkList]
    exact moves_pure rfl
  | e :: es => by
    cases params with
    | nil =>
      rw [List.map_cons, checkList, checkList]
      exact (Env.moves_valueOf env e (e.moves_typeSpine hm env .value)).bind fun _ => moves_checkList hm env [] es
    | cons p ps =>
      rw [List.map_cons, checkList, checkList]
      exact (Env.moves_check env p.type e (e.moves_typeSpine hm env (.against p.type))).bind fun _ =>
        moves_checkList hm env ps es

/-- The entries of an initializer are checked alike. -/
theorem moves_checkEntries (hm : m.Faithful) (env : Env) (type : Ty) :
    ∀ entries : List Entry,
      Typed.Moves m id (checkEntries (move m env) type (entries.map (move m))) (checkEntries env type entries)
  | [] => moves_pure rfl
  | .member name span value :: entries => by
    rw [List.map_cons, Entry.move_member, checkEntries, checkEntries]
    exact (Env.moves_memberTarget env type name _ _).bind fun target =>
      (Env.moves_check env target value (value.moves_typeSpine hm env (.against target))).bind fun _ =>
      moves_checkEntries hm env type entries
  | .element indices span value :: entries => by
    rw [List.map_cons, Entry.move_element, checkEntries, checkEntries, List.length_map, Env.placed_move_table,
      TypeTable.indexer?_move]
    have rest : ∀ target : Ty, Typed.Moves m id
        (do
          (move m env).check target (move m value) ((move m value).typeSpine (move m env) (.against target))
          checkEntries (move m env) type (entries.map (move m)))
        (do
          env.check target value (value.typeSpine env (.against target))
          checkEntries env type entries) := fun target =>
      (Env.moves_check env target value (value.moves_typeSpine hm env (.against target))).bind fun _ =>
        moves_checkEntries hm env type entries
    split
    · exact rest .error
    · cases env.table.indexer? type indices.length with
      | some indexer =>
        exact (moves_checkList hm env indexer.params indices).bind fun _ => (Env.moves_entryTarget _ _ _ _ _).bind rest
      | none => exact (moves_typeList hm env indices).bind fun _ => (Env.moves_entryTarget _ _ _ _ _).bind rest

end

end NavCheck
