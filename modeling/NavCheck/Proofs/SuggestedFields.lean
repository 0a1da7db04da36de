import NavCheck.Check.Report
import NavCheck.Proofs.CapturedFields
import NavCheck.Proofs.Instantiation
import NavCheck.Proofs.Lockstep
import NavCheck.Proofs.Outcomes
import NavCheck.Proofs.TypedChains
import NavCheck.Text.Digest

/-!
# Suggested fields

A parameter of the constructor that is named after construction is reported, and if it is kept, its field is suggested instead.
The field is there and has the type of the parameter, and what is suggested is typed as that wherever there is an instance.
The suggestion is made in static code as well. There is no instance there, and following the suggestion is reported.
-/

namespace NavCheck

/-! ## Types from the inside -/

section

variable {info : TypeInfo} (hn : (info.generics.map (·.name)).Nodup)

include hn

/-- From the inside each parameter of a type stands for itself. -/
theorem Ty.Over.substitute_self {type : Ty} (h : type.Over info.generics) :
    type.substitute (info.substitution (info.generics.map (·.type))) = type := by
  rw [h.substitute_eq]
  refine h.replace_self fun g hg => ?_
  have hkeys : ((info.generics.map fun g => (g.name, g.type)).map (·.1)).Nodup := by rwa [List.map_map]
  rw [TypeInfo.substitution, underNames, List.zip_map', TypeTable.lookup_reverse hkeys, TypeTable.lookup_map_find? GenericInfo.name,
    find?_of_nodup GenericInfo.name hn hg]
  rfl

/-- A field of a type as it is seen from the inside. -/
theorem TypeTable.member?_selfType {t : TypeTable} {name : String} (hf : t.find? name = some info) (hc : t.Closed)
    {m : MemberSig} {field : String} {readonly : Bool} (hm : info.member? field = some m) (hk : m.kind = .field readonly) :
    t.member? info.selfType (.plain field) = some m := by
  obtain rfl := find?_name hf
  have hover := (hc.find? hf).members m (List.mem_of_find?_eq_some hm) m.type List.mem_cons_self
  have own : t.ownMember? field info.selfType = some m := by
    obtain ⟨name, kind, type, isStatic, owner⟩ := m
    obtain rfl : kind = .field readonly := hk
    rw [TypeInfo.selfType, ownMember?, hf, Option.bind_eq_bind, Option.bind_some, hm]
    simp only [Option.bind_eq_bind, Option.bind_some, MemberSig.substitute, hover.substitute_self hn]
    rfl
  have inherited : t.inheritedMember? info.selfType field = some m := by
    rw [inheritedMember?, maxBaseDepth, lineage]
    split <;> rw [List.findSome?_cons, own]
  exact Option.or_eq_some_iff.2 (.inl inherited)

end

/-! ## Signatures by name -/

/-- The signature that is read for a name is that of the first member with it. -/
theorem TypeTable.find?_readMembers (t : TypeTable) (scope : List GenericInfo) (d : TypeDecl) {name : String}
    (members : List Member) {names : List String} (hn : name ∉ names) (counts : List Nat) :
    (t.readMembers scope d names counts members).value.1.find? (·.name == name) =
      (members.find? (·.name? == some name)).bind fun m => (t.readMember scope d.name m).value := by
  induction members generalizing names counts with
  | nil => rfl
  | cons m ms ih =>
    unfold readMembers
    rw [Noted.value_bind]
    split
    · rename_i i
      rw [Noted.value_bind, List.find?_cons_of_neg (by simp [Member.name?])]
      dsimp only
      split
      · exact ih hn _
      · exact ih hn _
    · split
      · rename_i hnone
        rw [List.find?_cons_of_neg (by simp [hnone])]
        exact ih hn _
      · rename_i other ho
        split
        · rename_i hdup
          have hne : other ≠ name := fun he => hn (he ▸ List.contains_iff_mem.1 hdup)
          rw [List.find?_cons_of_neg (by simpa [ho] using hne)]
          exact ih hn _
        · obtain ⟨s, hs, hsn, -⟩ := t.readMember_eq scope d.name ho
          have behind : other ≠ name → name ∉ other :: names := fun hne hm =>
            hn ((List.mem_cons.1 hm).resolve_left fun he => hne he.symm)
          -- whether the name is reported as that of the type makes no difference
          have read : (((t.readMember scope d.name m).value.toList ++
              (t.readMembers scope d (other :: names) counts ms).value.1).find? (·.name == name)) =
                ((m :: ms).find? (·.name? == some name)).bind fun m => (t.readMember scope d.name m).value := by
            by_cases he : other = name
            · rw [hs, List.find?_cons_of_pos (by simp [ho, he]), Option.bind_some, hs]
              exact List.find?_cons_of_pos (beq_iff_eq.2 (hsn.trans he))
            · rw [hs, List.find?_cons_of_neg (by simpa [ho] using he), ← ih (behind he) counts]
              exact List.find?_cons_of_neg (by simpa [hsn] using he)
          dsimp only
          split <;> exact read

/-! ## Captured parameters -/

namespace TypeDecl

variable {d : TypeDecl}

/-- A name of a parameter that is kept is that of a parameter with a field. -/
theorem exists_of_keepsField {name : String} (h : keepsField d.decisions name = true) :
    ∃ p ∈ d.params, p.name = name ∧ ∃ visibility, CapturedField.ofParam p visibility ∈ fieldsOf d.decisions := by
  obtain ⟨⟨found, decision⟩, hq, hk⟩ := List.any_eq_true.1 h
  obtain ⟨hn, hf⟩ := Bool.and_eq_true_iff.1 hk
  obtain rfl : found = name := eq_of_beq hn
  obtain ⟨field, hf⟩ := Option.isSome_iff_exists.1 hf
  obtain ⟨before, p, after, hp, rfl, hd⟩ := mem_decisionsFrom [] hq
  have captured : d.decision (([] ++ before).map PrimaryParam.name) p = .captured field := by
    rw [← hd]
    cases decision with
    | captured => exact congrArg _ (Option.some.inj hf)
    | initializerOnly => cases hf
  obtain ⟨visibility, -, rfl⟩ := decision_eq_captured captured
  exact ⟨p, by rw [hp]; simp, rfl, visibility, List.mem_filterMap.2 ⟨_, hq, hf⟩⟩

/-- The member of the name of a captured parameter is its field. -/
theorem findMember?_resolve {f : CapturedField} (hf : f ∈ fieldsOf d.decisions) :
    d.resolve.decl.findMember? f.name = some (.field f.toDecl) := by
  have hm : d.resolve.decl.findMember? f.name =
      ((fieldsOf d.decisions).map (fun f => Member.field f.toDecl) ++ d.members).find? (·.name? == some f.name) := rfl
  have own : (fieldsOf d.decisions).find? (fun g => (Member.field g.toDecl).name? == some f.name) = some f :=
    find?_of_nodup CapturedField.name (d.nodup_fields [] d.params) hf
  rw [hm, List.find?_append, List.find?_map, Function.comp_def, own]
  rfl

variable {source : String} {file : Option Nat} {unit : SourceUnit} {info : TypeInfo} {t : Typer}

/-- From the inside of a declaration that is checked, the member of the name of a kept parameter is a field of the type of the
parameter. -/
theorem field_of_keepsField [Text.Hash] (h : SourceUnit.parse source file = .ok unit) (hd : d ∈ unit.types)
    (ht : d.resolve.decl.typer? (TypeTable.build unit.resolve.unit).value = some (info, t)) {name : String}
    (hk : keepsField d.decisions name = true) :
    ∃ p ∈ d.params, p.name = name ∧ ∃ param, info.constructor.find? (·.name == name) = some param ∧
      ∃ m, (TypeTable.build unit.resolve.unit).value.member? info.selfType (.plain name) = some m ∧
        m.kind = .field p.isReadonly ∧ m.type = param.type := by
  obtain ⟨p, hp, rfl, visibility, hf⟩ := exists_of_keepsField hk
  have hw := SourceUnit.wellFormed_of_parse h d hd
  obtain ⟨hfound, hspan⟩ : (TypeTable.build unit.resolve.unit).value.find? d.resolve.decl.name = some info ∧
      info.span = some d.resolve.decl.nameSpan := by
    unfold typer? at ht
    split at ht
    · split at ht <;> cases ht
      exact ⟨‹_›, ‹_›⟩
    · cases ht
  obtain ⟨d', hd', -, hs, hinfo⟩ := TypeTable.signatures_of_find?_build hfound hspan
  obtain ⟨r, hr, rfl⟩ := List.mem_map.1 hd'
  obtain ⟨e, he, rfl⟩ := List.mem_map.1 hr
  obtain rfl := SourceUnit.eq_of_nameSpan h he hd hs
  generalize (TypeTable.builtin.addOutlines unit.resolve.unit.types).value.1 = outlines at hinfo
  have closed := TypeTable.closed_build unit.resolve.unit
  generalize (TypeTable.build unit.resolve.unit).value = table at *
  let scope := outlines.genericScope e.resolve.decl
  have generics : (info.generics.map (·.name)).Nodup := by
    have hg : info.generics.map (·.name) = e.generics.map (·.name) := by
      rw [hinfo]
      exact List.map_map
    exact hg ▸ hw.generics
  have constructor : info.constructor.find? (·.name == p.name) = some (outlines.readPrimaryParam scope p).value := by
    have hc : info.constructor = e.params.map fun p => (outlines.readPrimaryParam scope p).value := by
      rw [hinfo]
      exact Noted.value_mapM _ _
    rw [hc, List.find?_map]
    exact congrArg (Option.map _) (find?_of_nodup PrimaryParam.name hw.params hp)
  have member : info.member? p.name =
      (outlines.readMember scope e.resolve.decl.name (.field (CapturedField.ofParam p visibility).toDecl)).value := by
    have hm := outlines.find?_readMembers scope e.resolve.decl e.resolve.decl.members (List.not_mem_nil (a := p.name)) []
    rw [hinfo]
    exact hm.trans (congrArg (Option.bind · _) (findMember?_resolve hf))
  refine ⟨p, hp, rfl, _, constructor, ?_⟩
  refine ⟨_, TypeTable.member?_selfType generics hfound closed (member.trans rfl) rfl, rfl, ?_⟩
  exact outlines.value_readField scope _

end TypeDecl

/-! ## What is suggested -/

/-- A member of `this`, as it is written at some places. -/
def Expr.ofThis (name : String) (self nameSpan span : Span) : Expr :=
  .access (.self self) (.member (.plain name) nameSpan) false span

theorem Expr.text_ofThis (name : String) (self nameSpan span : Span) :
    (ofThis name self nameSpan span).text = s!"this.{name}" := by
  show "this" ++ "" ++ ("." ++ name) = "this." ++ name
  rw [String.append_empty, ← String.append_assoc]
  rfl

/-- What is suggested in a declaration is a member of `this` with the name of a kept parameter, for a use of it after
construction. -/
theorem TypeDecl.suggestions_resolve {d : TypeDecl} {f : Diagnostic} (hf : f ∈ d.resolve.diagnostics) {s : Suggestion}
    (hs : s ∈ f.suggestions) :
    ∃ use ∈ illegalReferences d.paramUses, keepsField d.decisions use.1 = true ∧
      s = ⟨s!"use the captured field `{use.1}`", some use.2, some s!"this.{use.1}"⟩ := by
  rcases List.mem_append.1 hf with hf | hf
  · obtain ⟨p, -, hf⟩ := List.mem_flatMap.1 hf
    rcases List.mem_append.1 hf with hf | hf
    · obtain ⟨problem, -, rfl⟩ := List.mem_map.1 hf
      cases hs
    · unfold memberConflict? at hf
      split at hf
      · obtain rfl := List.mem_singleton.1 hf
        cases hs
      · cases hf
  · obtain ⟨⟨name, span⟩, hu, rfl⟩ := List.mem_map.1 hf
    refine ⟨_, hu, ?_⟩
    unfold CaptureFinding.illegalReference at hs
    dsimp only at hs
    split at hs
    · rename_i hk
      exact ⟨hk, List.mem_singleton.1 hs⟩
    · cases hs

section

variable {env : Env} {name : String} (goal : Goal) (self nameSpan span : Span)

/-- A value as the base of an access is taken as it is. -/
theorem Env.baseOperand_value (type : Ty) (link : Link) (base : Expr) :
    Env.baseOperand (.value type) goal link base = pure (.value type) := by
  cases goal with
  | target => cases link <;> rfl
  | value | against => rfl

/-- A member of `this` is typed as the member of the type around. -/
theorem Expr.typeSpine_ofThis : (ofThis name self nameSpan span).typeSpine env goal = do
    let type ← env.selfType self
    return .whole (← env.memberOf type (.plain name) nameSpan) (env.linkSettable type (.member (.plain name) nameSpan)) := by
  rw [ofThis, typeSpine, typeSpine, bind_assoc]
  refine congrArg _ (funext fun type => ?_)
  rw [pure_bind]
  dsimp only
  rw [Env.baseOperand_value, pure_bind, Link.typeOnto]
  rfl

/-- Where there is an instance, a field of the type around is typed without a word. -/
theorem Expr.typeSpine_field {m : MemberSig} {readonly : Bool} (hs : env.isStatic = false) (hne : env.self ≠ .error)
    (hm : env.table.member? env.self (.plain name) = some m) (hk : m.kind = .field readonly) :
    (ofThis name self nameSpan span).typeSpine env goal = pure (.whole (.value m.type) (!readonly)) := by
  have type : env.selfType self = pure env.self := by rw [Env.selfType, hs]; rfl
  have member : env.memberOf env.self (.plain name) nameSpan = pure (.value m.type) := by
    rw [Env.memberOf, if_neg hne, hm]
    exact congrArg pure (by rw [Operand.ofMember, hk])
  have settable : env.linkSettable env.self (.member (.plain name) nameSpan) = !readonly := by
    rw [Env.linkSettable, hm, Option.map_some, Option.getD_some, MemberSig.isSettable, hk]
  rw [typeSpine_ofThis, type, pure_bind, member, pure_bind, settable]

/-- Where there is none, `this` is reported. -/
theorem Expr.typeSpine_field_static (hs : env.isStatic = true) :
    ((ofThis name self nameSpan span).typeSpine env goal).notes = [.finding (TypingFault.selfInStatic.finding self)] := by
  have type : env.selfType self = ⟨.error, [.finding (TypingFault.selfInStatic.finding self)]⟩ := by
    rw [Env.selfType, hs]
    rfl
  rw [typeSpine_ofThis, type]
  rfl

end

/-! ## Units -/

namespace SourceUnit

variable {source : String} {file : Option Nat} {unit : SourceUnit} {d : TypeDecl}

/-- What is suggested for uses of parameters, in a declaration that is checked, is a member of `this` with the name of a kept
parameter. At every place in the code of the declaration it has the type of the parameter and nothing is noted, if the code is not
static, and it can be assigned to unless the parameter is read only. In static code `this` is reported. -/
theorem suggested_fields [Text.Hash] (h : SourceUnit.parse source file = .ok unit) (hd : d ∈ unit.types)
    {info : TypeInfo} {t : Typer}
    (ht : d.resolve.decl.typer? (TypeTable.build unit.resolve.unit).value = some (info, t)) :
    ∃ typings t', t.Runs (fun _ => True) typings t' ∧ typings.map (·.expr) = d.resolve.decl.exprs ∧
      ∀ f ∈ d.resolve.diagnostics, ∀ s ∈ f.suggestions, ∃ use ∈ illegalReferences d.paramUses, s.span = some use.2 ∧
        ∃ p ∈ d.params, p.name = use.1 ∧ ∃ param, info.constructor.find? (·.name == p.name) = some param ∧
          ∀ self nameSpan span, s.replacement = some (Expr.ofThis p.name self nameSpan span).text ∧
            ∀ r ∈ typings, ∀ env, r.env.Inside env → ∀ goal,
              (env.isStatic = false → (Expr.ofThis p.name self nameSpan span).typeSpine env goal =
                pure (.whole (.value param.type) (!p.isReadonly))) ∧
              (env.isStatic = true → ((Expr.ofThis p.name self nameSpan span).typeSpine env goal).notes =
                [.finding (TypingFault.selfInStatic.finding self)]) := by
  obtain ⟨typings, t', hr, -, he⟩ := d.runs_of_typer h hd ht
  have hstart := (d.visits_of_typer h hd ht).2.1
  refine ⟨typings, t', hr, he, fun f hf s hs => ?_⟩
  obtain ⟨use, hu, hk, rfl⟩ := TypeDecl.suggestions_resolve hf hs
  obtain ⟨p, hp, hn, param, hparam, m, hm, hkind, htype⟩ := TypeDecl.field_of_keepsField h hd ht hk
  refine ⟨use, hu, rfl, p, hp, hn, param, hn ▸ hparam, fun self nameSpan span =>
    ⟨?_, fun r hr' env hi goal => ⟨fun hs => ?_, ?_⟩⟩⟩
  · rw [Expr.text_ofThis, hn]
  · have owner := hr.owners r hr'
    obtain ⟨phase, scopes, rfl⟩ := hi
    have self_eq : r.env.self = info.selfType := owner.self.trans (by rw [hstart]; rfl)
    have table_eq : r.env.table = (TypeTable.build unit.resolve.unit).value := owner.table.trans (by rw [hstart]; rfl)
    rw [← htype]
    refine Expr.typeSpine_field goal self nameSpan span hs ?_ ?_ hkind
    · show r.env.self ≠ .error
      rw [self_eq]
      exact nofun
    · show r.env.table.member? r.env.self _ = some m
      rw [self_eq, table_eq, hn, hm]
  · exact Expr.typeSpine_field_static goal self nameSpan span

end SourceUnit

/-- In a static method the field is suggested for the name of a kept parameter, and where the suggestion is followed there is no
`this`. -/
theorem suggestion_in_static_code :
    ∃ report, checkSource "a" "class A(private int x) { static int F() { return x; } }" = .ok report ∧
      report.codes = ["CAP001"] ∧ (∃ f ∈ report.diagnostics, ∃ s ∈ f.suggestions, s.replacement = some "this.x") ∧
        ∃ followed, checkSource "a" "class A(private int x) { static int F() { return this.x; } }" = .ok followed ∧
          followed.codes = ["TCK106"] := by
  decide +kernel

end NavCheck
