import Mathlib.Data.List.Forall2
import NavCheck.Proofs.KeptChains
import NavCheck.Proofs.Outcomes
import NavCheck.Proofs.Visits
import NavCheck.Text.Digest

/-!
# Records of chains

Typing records the chains that it understands, and lowering spells them out. The two meet in the guards of the chains: no two
chains of a unit have the same guard, so every record gets the binding of its own chain, and gets one exactly when the chain
has a result and its root can be missing.
-/

namespace NavCheck

/-! ## Plans of records -/

/-- The plans of records by their guards. -/
def recordPlans (table : TypeTable) (records : List NavigationRecord) : ChainPlans :=
  records.filterMap fun r => (r.plan? table).map (r.guard, ·)

section

variable {table : TypeTable} {records more : List NavigationRecord} {g : Span}

theorem recordPlans_append : recordPlans table (records ++ more) = recordPlans table records ++ recordPlans table more :=
  List.filterMap_append

/-- The plans are by the guards of the records. -/
theorem guards_recordPlans : ((recordPlans table records).map (·.1)).Sublist (records.map (·.guard)) := by
  induction records with
  | nil => exact .slnil
  | cons r rs ih =>
    unfold recordPlans
    rw [List.filterMap_cons]
    cases r.plan? table with
    | none => exact ih.cons _
    | some plan => exact ih.cons_cons _

theorem lookup_recordPlans_of_notMem (h : g ∉ records.map (·.guard)) : (recordPlans table records).lookup g = none := by
  rw [List.lookup_eq_none_iff]
  intro p hp
  rw [bne_iff_ne]
  rintro rfl
  exact h (guards_recordPlans.subset (List.mem_map_of_mem hp))

/-- Each record has its own plan when no two have the same guard. -/
theorem lookup_recordPlans (h : (records.map (·.guard)).Nodup) {r : NavigationRecord} (hr : r ∈ records) :
    (recordPlans table records).lookup r.guard = r.plan? table := by
  induction records with
  | nil => cases hr
  | cons q qs ih =>
    rw [List.map_cons, List.nodup_cons] at h
    have hsplit : recordPlans table ([q] ++ qs) = recordPlans table [q] ++ recordPlans table qs := recordPlans_append
    rw [← List.singleton_append, hsplit, List.lookup_append]
    rcases List.mem_cons.1 hr with rfl | hr
    · rw [lookup_recordPlans_of_notMem h.1, Option.or_none]
      rw [recordPlans, List.filterMap_cons]
      cases r.plan? table <;> simp
    · have hne : r.guard ≠ q.guard := fun he => h.1 (he ▸ List.mem_map_of_mem hr)
      rw [lookup_recordPlans_of_notMem (by simpa using hne), ih h.2 hr]
      rfl

end

/-- The plans among notes are those of the records among them. -/
theorem plansOf_eq {table : TypeTable} {notes : List TypingNote}
    (h : ∀ record plan, .chain record plan ∈ notes → plan = record.plan? table) :
    plansOf notes = (recordPlans table (recordsOf notes)).reverse := by
  refine congrArg List.reverse ?_
  induction notes with
  | nil => rfl
  | cons n ns ih =>
    have ih := ih fun record plan hm => h record plan (List.mem_cons_of_mem _ hm)
    cases n with
    | finding diagnostic => exact ih
    | name use => exact ih
    | chain record plan =>
      obtain rfl := h record plan List.mem_cons_self
      have hr : recordsOf (.chain record (record.plan? table) :: ns) = record :: recordsOf ns := rfl
      rw [hr, recordPlans, List.filterMap_cons, List.filterMap_cons]
      cases record.plan? table with
      | none => exact ih
      | some plan => exact congrArg _ ih

/-! ## Complete expressions -/

/-- What is left of a complete expression: records about outermost accesses of its chains, each with the binding of its chain
if the chain has a plan. -/
structure Settled (table : TypeTable) (e : Expr) (records : List NavigationRecord) : Prop where
  keys : (records.map (·.key)).Sublist (e.tops.filterMap Expr.key?)
  lowered : ∀ r ∈ records, (r.lowered.isSome = true ↔ (r.plan? table).isSome = true) ∧
    ∃ top ∈ e.tops, top.key? = some r.key ∧ ∀ f, r.lowered = some f → top.LowersTo (recordPlans table records) f

/-- The guards of outermost accesses are those of their keys. -/
theorem topGuards_eq (tops : List Expr) : topGuards tops = (tops.filterMap Expr.key?).map (·.guard) := by
  rw [topGuards, List.map_filterMap]
  refine congrArg (List.filterMap · tops) (funext fun e => ?_)
  simp [Expr.key?, Expr.chainGuard?, Function.comp_def]

theorem Expr.chainGuard?_of_key? {e : Expr} {k : ChainKey} (h : e.key? = some k) : e.chainGuard? = some k.guard := by
  obtain ⟨c, hc, rfl⟩ := Option.map_eq_some_iff.1 h
  rw [Expr.chainGuard?, hc]
  rfl

/-- The records of an expression are by different guards, all of the expression. -/
theorem guards_of_keys {e : Expr} {records : List NavigationRecord}
    (h : (records.map (·.key)).Sublist (e.tops.filterMap Expr.key?)) :
    (records.map (·.guard)).Sublist (topGuards e.tops) := by
  have hg : records.map (·.guard) = (records.map (·.key)).map (·.guard) := by
    rw [List.map_map]
    rfl
  rw [hg, topGuards_eq]
  exact h.map _

theorem mem_guards_of_keys {e : Expr} {records : List NavigationRecord}
    (h : (records.map (·.key)).Sublist (e.tops.filterMap Expr.key?)) {r : NavigationRecord} (hr : r ∈ records) :
    r.guard ∈ e.guards :=
  e.perm_guards.subset ((guards_of_keys h).subset (List.mem_map_of_mem hr))

namespace Typer

variable {t t' : Typer}

/-- Records with the bindings that were kept for them. -/
def withLowered (chains : LoweredChains) (records : List NavigationRecord) : List NavigationRecord :=
  records.map fun r => { r with lowered := chains.lookup r.guard }

/-- Typing a complete expression leaves its records with the bindings that lowering it keeps. -/
theorem navigation_checked (t : Typer) (e : Expr) (expectation : Expectation)
    (hn : e.hasNavigation = false → recordsOf (rootType t.env e expectation).notes = []) :
    (t.checked e expectation).report.navigation = t.report.navigation ++
      withLowered ((e.lower (plansOf (rootType t.env e expectation).notes ++ t.plans)).run ⟨0, []⟩).2.chains
        (recordsOf (rootType t.env e expectation).notes) := by
  unfold checked checkRoot
  dsimp only
  split
  · rfl
  · rename_i hnav
    have hnil := hn (by simpa using hnav)
    show t.report.navigation ++ (recordsOf _).map _ = _
    rw [hnil]
    rfl

/-- Typing a complete expression leaves its records, each with the binding of its chain. -/
theorem settled_checked {hidden : List String} (hh : t.env.Hides hidden) (e : Expr) (expectation : Expectation)
    (hn : e.guards.Nodup) (hp : ∀ g ∈ e.guards, t.plans.lookup g = none) :
    ∃ records, (t.checked e expectation).report.navigation = t.report.navigation ++ records ∧
      Settled t.env.table e records ∧ ∀ g ∉ e.guards, (t.checked e expectation).plans.lookup g = t.plans.lookup g := by
  have ht := traced_rootType hh e expectation
  have hnt : (topGuards e.tops).Nodup := e.perm_guards.nodup_iff.2 hn
  have hnr : ((recordsOf (rootType t.env e expectation).notes).map (·.guard)).Nodup :=
    hnt.sublist (guards_of_keys ht.chains)
  have hlook : ∀ g, (plansOf (rootType t.env e expectation).notes).lookup g =
      (recordPlans t.env.table (recordsOf (rootType t.env e expectation).notes)).lookup g := by
    intro g
    rw [plansOf_eq ht.plans, TypeTable.lookup_reverse (hnr.sublist guards_recordPlans)]
  generalize hnotes : (rootType t.env e expectation).notes = notes at ht hnr hlook
  let plans := plansOf notes ++ t.plans
  have hplans : ∀ g ∈ e.guards, plans.lookup g = (recordPlans t.env.table (recordsOf notes)).lookup g := by
    intro g hg
    rw [List.lookup_append, hp g hg, Option.or_none, hlook]
  have hrest : ∀ g ∉ e.guards, plans.lookup g = t.plans.lookup g := by
    intro g hg
    have hnone : (plansOf notes).lookup g = none := by
      rw [hlook]
      refine lookup_recordPlans_of_notMem fun hm => hg ?_
      obtain ⟨r, hr, rfl⟩ := List.mem_map.1 hm
      exact mem_guards_of_keys ht.chains hr
    rw [List.lookup_append, hnone, Option.none_or]
  let chains := ((e.lower plans).run ⟨0, []⟩).2.chains
  have hreport : (t.checked e expectation).report.navigation = t.report.navigation ++ withLowered chains (recordsOf notes) := by
    have hnil : e.hasNavigation = false → recordsOf notes = [] := by
      intro hnav
      have hs := ht.chains
      rw [e.tops_eq_nil hnav] at hs
      simpa using hs
    have hr := t.navigation_checked e expectation (by rwa [hnotes])
    rwa [hnotes] at hr
  have hcp : (t.checked e expectation).plans = plans := by rw [plans_checked, hnotes]
  refine ⟨withLowered chains (recordsOf notes), hreport, ⟨?_, ?_⟩, fun g hg => ?_⟩
  · rw [withLowered, List.map_map]
    exact ht.chains
  · intro r hr
    obtain ⟨q, hq, rfl⟩ := List.mem_map.1 hr
    have hk : q.key ∈ e.tops.filterMap Expr.key? := ht.chains.subset (List.mem_map_of_mem hq)
    obtain ⟨top, htop, hkey⟩ := List.mem_filterMap.1 hk
    have hgq := mem_guards_of_keys ht.chains hq
    have hq' : plans.lookup q.guard = q.plan? t.env.table := by
      rw [hplans _ hgq, lookup_recordPlans hnr hq]
    have hsame : recordPlans t.env.table (withLowered chains (recordsOf notes)) =
        recordPlans t.env.table (recordsOf notes) := List.filterMap_map ..
    have keeps := e.keeps_lower plans
    cases hplan : q.plan? t.env.table with
    | none =>
      have hnone : chains.lookup q.guard = none :=
        keeps.frame ⟨0, []⟩ q.guard fun u _ _ => hq'.trans hplan
      refine ⟨?_, top, htop, hkey, fun f hf => ?_⟩
      · show (chains.lookup q.guard).isSome = true ↔ (q.plan? t.env.table).isSome = true
        rw [hnone, hplan]
        exact Iff.rfl
      · cases hnone.symm.trans hf
    | some plan =>
      obtain ⟨l, hl, hlow⟩ := keeps.kept hnt ⟨0, []⟩ top htop q.guard (Expr.chainGuard?_of_key? hkey)
        (by rw [hq', hplan]; rfl)
      have hl : chains.lookup q.guard = some l := hl
      refine ⟨?_, top, htop, hkey, fun f hf => ?_⟩
      · show (chains.lookup q.guard).isSome = true ↔ (q.plan? t.env.table).isSome = true
        rw [hl, hplan]
        rfl
      · obtain rfl := Option.some.inj (hl.symm.trans hf)
        refine hlow.congr fun n hm g hg => ?_
        rw [hsame]
        exact hplans g (Expr.guards_subset htop (List.mem_filterMap.2 ⟨n, hm, hg⟩))
  · rw [hcp]
    exact hrest g hg

/-- The guards at sites. -/
def siteGuards (ss : List Site) : List Span :=
  ss.flatMap (·.expr.guards)

/-- A visit leaves the records of each of its sites. -/
theorem Visits.settled {ss : List Site} (h : t.Visits ss t') (hn : (siteGuards ss).Nodup)
    (hp : ∀ g ∈ siteGuards ss, t.plans.lookup g = none) :
    ∃ lists, t'.report.navigation = t.report.navigation ++ lists.flatten ∧
      List.Forall₂ (fun s => Settled t.env.table s.expr) ss lists ∧
        ∀ g ∉ siteGuards ss, t'.plans.lookup g = t.plans.lookup g := by
  induction h with
  | refl => exact ⟨[], (List.append_nil _).symm, .nil, fun _ _ => rfl⟩
  | move env _ _ _ ih => exact ih hn hp
  | @quiet u sites α part h hq ih =>
    obtain ⟨lists, hr, hs, hrest⟩ := ih hn hp
    have hx : Traced t.env.table t.env.primary [] [] (part u.env).notes := .of_quiet hq
    have hnil : recordsOf (part u.env).notes = [] := by simpa using hx.chains
    refine ⟨lists, ?_, hs, fun g hg => ?_⟩
    · show u.report.navigation ++ (recordsOf (part u.env).notes).map _ = _
      rw [hnil, hr]
      exact List.append_nil _
    · show (plansOf (part u.env).notes ++ u.plans).lookup g = _
      rw [plansOf_eq hx.plans, hnil]
      exact hrest g hg
  | @root u sites site expectation h hidden phase ih =>
    have hsplit : siteGuards (sites ++ [site]) = siteGuards sites ++ site.expr.guards := by
      simp [siteGuards]
    rw [hsplit] at hn hp ⊢
    obtain ⟨hns, hne, hd⟩ := List.nodup_append.1 hn
    obtain ⟨lists, hr, hs, hrest⟩ := ih hns fun g hg => hp g (List.mem_append_left _ hg)
    have hfree : ∀ g ∈ site.expr.guards, u.plans.lookup g = none := by
      intro g hg
      rw [hrest g fun hm => hd g hm g hg rfl]
      exact hp g (List.mem_append_right _ hg)
    obtain ⟨records, hr', hs', hrest'⟩ := settled_checked hidden site.expr expectation hne hfree
    rw [h.table] at hs'
    refine ⟨lists ++ [records], ?_, List.rel_append hs (.cons hs' .nil), fun g hg => ?_⟩
    · rw [hr', hr, List.flatten_append, List.append_assoc]
      simp
    · rw [List.mem_append, not_or] at hg
      rw [hrest' g hg.2, hrest g hg.1]

end Typer

/-! ## Units -/

/-- The records of all sites have different guards, and each has the binding of its chain by the plans of them all. -/
theorem settled_all {table : TypeTable} {ss : List Site} {lists : List (List NavigationRecord)}
    (h : List.Forall₂ (fun s => Settled table s.expr) ss lists) (hn : (Typer.siteGuards ss).Nodup) :
    (lists.flatten.map (·.guard)).Nodup ∧ (∀ r ∈ lists.flatten, r.guard ∈ Typer.siteGuards ss) ∧
      ∀ r ∈ lists.flatten, (r.lowered.isSome = true ↔ (r.plan? table).isSome = true) ∧
        ∃ s ∈ ss, ∃ top ∈ s.expr.tops, top.key? = some r.key ∧
          ∀ f, r.lowered = some f → top.LowersTo (recordPlans table lists.flatten) f := by
  induction h with
  | nil => simp
  | @cons s records ss lists hs _ ih =>
    have hsplit : Typer.siteGuards (s :: ss) = s.expr.guards ++ Typer.siteGuards ss := rfl
    rw [hsplit] at hn ⊢
    obtain ⟨hne, hns, hd⟩ := List.nodup_append.1 hn
    obtain ⟨hnr, hin, hlow⟩ := ih hns
    have hnt : (topGuards s.expr.tops).Nodup := s.expr.perm_guards.nodup_iff.2 hne
    have hfirst : ∀ r ∈ records, r.guard ∈ s.expr.guards := fun r hr => mem_guards_of_keys hs.keys hr
    rw [List.flatten_cons]
    refine ⟨?_, fun r hr => ?_, fun r hr => ?_⟩
    · rw [List.map_append, List.nodup_append]
      refine ⟨hnt.sublist (guards_of_keys hs.keys), hnr, fun g hg g' hg' => ?_⟩
      obtain ⟨r, hr, rfl⟩ := List.mem_map.1 hg
      obtain ⟨r', hr', rfl⟩ := List.mem_map.1 hg'
      exact hd _ (hfirst r hr) _ (hin r' hr')
    · rw [List.mem_append]
      exact (List.mem_append.1 hr).imp (hfirst r) (hin r)
    · rcases List.mem_append.1 hr with hr | hr
      · obtain ⟨hiff, top, htop, hkey, hl⟩ := hs.lowered r hr
        refine ⟨hiff, s, List.mem_cons_self, top, htop, hkey, fun f hf => (hl f hf).congr fun n hm g hg => ?_⟩
        have hgs := Expr.guards_subset htop (List.mem_filterMap.2 ⟨n, hm, hg⟩)
        have hnone : (recordPlans table lists.flatten).lookup g = none := by
          refine lookup_recordPlans_of_notMem fun hmem => ?_
          obtain ⟨r', hr', rfl⟩ := List.mem_map.1 hmem
          exact hd _ hgs _ (hin r' hr') rfl
        rw [recordPlans_append, List.lookup_append, hnone, Option.or_none]
      · obtain ⟨hiff, s', hs', top, htop, hkey, hl⟩ := hlow r hr
        refine ⟨hiff, s', List.mem_cons_of_mem _ hs', top, htop, hkey, fun f hf => (hl f hf).congr fun n hm g hg => ?_⟩
        have hgs : g ∈ Typer.siteGuards ss :=
          List.mem_flatMap.2 ⟨s', hs', Expr.guards_subset htop (List.mem_filterMap.2 ⟨n, hm, hg⟩)⟩
        have hnone : (recordPlans table records).lookup g = none := by
          refine lookup_recordPlans_of_notMem fun hmem => ?_
          obtain ⟨r', hr', rfl⟩ := List.mem_map.1 hmem
          exact hd _ (hfirst r' hr') _ hgs rfl
        rw [recordPlans_append, List.lookup_append, hnone, Option.none_or]

namespace TypeDecl

variable {d : TypeDecl}

/-- The sites of a resolved declaration are those that are written, and those of the added fields, which have no chains. -/
theorem mem_sites_resolve {s : Site} (hs : s ∈ d.resolve.decl.sites) : s ∈ d.sites ∨ s.expr.tops = [] := by
  have he : d.resolve.decl.sites = d.headerSites ++
      (((fieldsOf d.decisions).map fun f => Member.field f.toDecl) ++ d.members).flatMap Member.sites := rfl
  rw [he, List.flatMap_append, List.mem_append, List.mem_append] at hs
  rw [sites, List.mem_append]
  rcases hs with hs | hs | hs
  · exact .inl (.inl hs)
  · rw [List.flatMap_map] at hs
    obtain ⟨f, -, hs⟩ := List.mem_flatMap.1 hs
    obtain rfl := List.mem_singleton.1 hs
    exact .inr rfl
  · exact .inl (.inr hs)

/-- The guards of a resolved declaration are those that are written. -/
theorem siteGuards_resolve (d : TypeDecl) : Typer.siteGuards d.resolve.decl.sites = d.exprs.flatMap Expr.guards :=
  d.flatMap_sites_resolve Expr.guards fun _ _ => rfl

end TypeDecl

/-- A record has a plan when its chain has a result and its root can be missing. -/
theorem NavigationRecord.isSome_plan? (table : TypeTable) (r : NavigationRecord) :
    (r.plan? table).isSome = true ↔ r.result ≠ .error ∧ table.classify r.operand ≠ .value := by
  unfold NavigationRecord.plan?
  split
  · rename_i h
    exact ⟨fun _ => ⟨h.2, h.1⟩, fun _ => rfl⟩
  · rename_i h
    exact ⟨fun hn => (Bool.false_ne_true hn).elim, fun hn => absurd ⟨hn.2, hn.1⟩ h⟩

/-- No chain of a unit is lost or taken for another. No two null-conditional accesses have the same guard, and so neither have
two records. A record has a lowered form exactly when its chain has a result and the type of its root is not one of values
that are never missing. The lowered form is then the binding that lowering makes of the very chain, by the plans of all
records. -/
theorem SourceUnit.records_have_their_bindings [Text.Hash] {source : String} {file : Option Nat} {unit : SourceUnit}
    (h : SourceUnit.parse source file = .ok unit) :
    (((unit.types.flatMap TypeDecl.exprs).flatMap Expr.nodes).filterMap Expr.guard?).Nodup ∧
      ∀ d ∈ unit.types,
        let table := (TypeTable.build unit.resolve.unit).value
        let records := (d.resolve.decl.check table).navigation
        (records.map (·.guard)).Nodup ∧
          ∀ r ∈ records, (r.lowered.isSome = true ↔ r.result ≠ .error ∧ table.classify r.operand ≠ .value) ∧
            ∃ top ∈ d.exprs.flatMap Expr.nodes, top.key? = some r.key ∧
              ∀ f, r.lowered = some f → top.LowersTo (recordPlans table records) f := by
  have hn := nodup_nodeGuards h
  refine ⟨?_, ?_⟩
  · rw [List.filterMap_flatMap]
    exact hn
  · intro d hd table records
    have hg : (d.exprs.flatMap Expr.guards).Nodup := by
      rw [List.flatMap_assoc] at hn
      exact (List.nodup_flatMap.1 hn).1 d hd
    rcases d.visits_of_unit h hd with he | ⟨info, t, hv, -, hr⟩
    · have hrecords : records = [] := congrArg TypingReport.navigation he
      rw [hrecords]
      exact ⟨.nil, fun r hr => absurd hr List.not_mem_nil⟩
    · rw [← d.siteGuards_resolve] at hg
      obtain ⟨lists, hl, hs, -⟩ := hv.settled hg fun _ _ => rfl
      have hrecords : records = lists.flatten := (congrArg TypingReport.navigation hr).trans hl
      obtain ⟨hnr, -, hlow⟩ := settled_all hs hg
      rw [hrecords]
      refine ⟨hnr, fun r hr => ?_⟩
      obtain ⟨hiff, s, hsm, top, htop, hkey, hf⟩ := hlow r hr
      refine ⟨hiff.trans (r.isSome_plan? _), top, ?_, hkey, hf⟩
      rcases TypeDecl.mem_sites_resolve hsm with hsm | hnil
      · rw [d.exprs_eq, List.flatMap_map]
        exact List.mem_flatMap.2 ⟨s, hsm, Expr.subset_tops htop top.mem_nodes_self⟩
      · rw [hnil] at htop
        cases htop

/-- A chain inside the argument of another has its own record and its own binding. -/
theorem records_have_their_bindings_nested :
    ∃ unit, SourceUnit.parse "class A { bool F(string s) => s?.Contains(s?.Trim()); }" none = .ok unit ∧
      ∃ d ∈ unit.types, ∃ r ∈ (d.resolve.decl.check (TypeTable.build unit.resolve.unit).value).navigation,
        r.text = "s?.Trim()" ∧ r.lowered.isSome = true ∧
          ∃ top ∈ d.exprs.flatMap Expr.nodes, top.key? = some r.key := by
  have evaluated : ∃ unit, SourceUnit.parse "class A { bool F(string s) => s?.Contains(s?.Trim()); }" none = .ok unit ∧
      ∃ d ∈ unit.types, ∃ r ∈ (d.resolve.decl.check (TypeTable.build unit.resolve.unit).value).navigation,
        r.text = "s?.Trim()" ∧ r.result ≠ .error ∧ (TypeTable.build unit.resolve.unit).value.classify r.operand ≠ .value := by
    decide +kernel
  obtain ⟨unit, h, d, hd, r, hr, ht, hp⟩ := evaluated
  obtain ⟨-, records⟩ := SourceUnit.records_have_their_bindings h
  obtain ⟨hiff, top, htop, hkey, -⟩ := (records d hd).2 r hr
  exact ⟨unit, h, d, hd, r, hr, ht, hiff.2 hp, top, htop, hkey⟩

end NavCheck
