import SniGate.Startup.Served

/-!
# References that lead somewhere

A resolver may be referred to in any scope, and what a route dials through comes from the deepest
scope that says. The load-time check visits the scopes; so once the declared resolvers are built,
whatever is inherited from wherever leads to the resolver that was built under its name.

## Design choices

Whether a spec leads somewhere is a statement for all address families, since a reference stands
for a resolver with a family of its own. Each ladder of scopes is a list of tiers of which the
first that says something counts; so what the check says of the tiers one by one is said of what is
inherited by one lemma for all ladders.
-/

namespace SniGate

section References

variable {τ V C : Type} {env : StartEnv τ V C} {doc : Document} {ext : Externals}
  {parsers : PoolParsers} {registry : Registry τ V} {listener : Listener} {route : Route}
  {rtTpl lnTpl tpl : Option Template} {origin spec s : Str} {used : Option Str}

/-- If a spec is a reference, it leads to the resolver that was built under its name. -/
def Leads (env : StartEnv τ V C) (registry : Registry τ V) (spec : Str) : Prop :=
  isResolverRef spec → ∃ name resolver plan bytes, refName spec = some name ∧
    registry.lookup name = some (.named name resolver plan bytes) ∧
    ∀ family, env.getResolver registry spec family = .ok (.named name resolver plan bytes)

theorem leads_of_checkRef (hwired : Wired env doc registry)
    (hfull : ∀ name, name ∈ registry ↔ name ∈ doc.resolvers)
    (hcheck : doc.checkRef origin spec = .ok ()) : Leads env registry spec := by
  intro href
  rw [Document.checkRef, if_pos href, Document.resolveResolverRef] at hcheck
  cases hstrip : stripStart ['@'] (trim spec) with
  | none => simp [hstrip, refuse] at hcheck
  | some name =>
    cases name with
    | nil => simp [hstrip, refuse] at hcheck
    | cons c name =>
      rw [hstrip] at hcheck
      have hdeclared : c :: name ∈ doc.resolvers := by
        rw [← AList.lookup_isSome]
        cases hd : doc.resolvers.lookup (c :: name) with
        | none => simp [Config.resolverDef, doc.resolvers_eq, hd, refuse] at hcheck
        | some d => rfl
      obtain ⟨r, hr⟩ := Option.isSome_iff_exists.mp
        (AList.lookup_isSome.mpr ((hfull (c :: name)).mpr hdeclared))
      obtain ⟨d, plan, resolver, bytes, -, rfl, -⟩ := hwired (c :: name) r hr
      refine ⟨c :: name, resolver, plan, bytes, hstrip, hr, fun family ↦ ?_⟩
      rw [StartEnv.getResolver, if_pos href, refName, hstrip]
      simp only [hr]

theorem leads_of_not_ref (h : isResolverRef spec = false) : Leads env registry spec := by
  intro href
  rw [h] at href
  exact absurd href (by simp)

/-! ## What the scopes say -/

theorem exists_of_firstSome {α : Type} {tiers : List (Option α)} {a : α}
    (h : firstSome tiers = some a) : some a ∈ tiers := by
  obtain ⟨o, ho, rfl⟩ := List.exists_of_findSome?_eq_some h
  exact ho

theorem mem_commonRefs {c : CommonOpts}
    (h : c.resolver = some s ∨ c.echResolver = some s ∨ c.addrResolver = some s) :
    (origin, s) ∈ Document.commonRefs origin c := by
  rcases h with h | h | h
  · simp [Document.commonRefs, h]
  · simp [Document.commonRefs, h]
  · simp [Document.commonRefs, h]

theorem commonRefs_subset_of_template (h : doc.cfg.templateFor used = .ok tpl) {t : Template}
    (ht : t ∈ tpl) : ∃ origin, Document.commonRefs origin t.common ⊆ doc.resolverRefs ∧
      ∃ origin', Document.echRef origin' t.ech ⊆ doc.resolverRefs := by
  rw [Option.mem_def.mp ht] at h
  obtain ⟨n, hn⟩ : ∃ n, doc.cfg.templates.lookup n = some t := by
    rw [Config.templateFor.eq_def] at h
    cases used with
    | none => simp at h
    | some n =>
      cases hn : doc.cfg.templates.lookup n with
      | none => simp [hn, refuse] at h
      | some t' =>
        simp only [hn, Except.ok.injEq, Option.some.injEq] at h
        exact ⟨n, h ▸ hn⟩
  have hmem := AList.mem_lookup_iff.mp hn
  refine ⟨"[templates.".toList ++ n ++ "]".toList, fun r hr ↦ ?_,
    "[templates.".toList ++ n ++ ".ech]".toList, fun r hr ↦ ?_⟩
  · refine List.mem_append_left _ (List.mem_append_left _ (List.mem_append_right _ ?_))
    exact List.mem_flatMap.mpr ⟨_, hmem, List.mem_append_left _ hr⟩
  · refine List.mem_append_left _ (List.mem_append_left _ (List.mem_append_right _ ?_))
    exact List.mem_flatMap.mpr ⟨_, hmem, List.mem_append_right _ hr⟩

theorem listenerRefs_subset (hl : listener ∈ doc.cfg.listeners) :
    Document.listenerRefs listener ⊆ doc.resolverRefs := by
  intro r hr
  refine List.mem_append_left _ (List.mem_append_right _ ?_)
  exact List.mem_flatMap.mpr ⟨listener, hl, hr⟩

theorem exists_commonRefs (hl : listener ∈ doc.cfg.listeners) (hr : route ∈ listener.allRoutes)
    (hrt : doc.cfg.templateFor route.useTemplate = .ok rtTpl)
    (hln : doc.cfg.templateFor listener.useTemplate = .ok lnTpl) {c : CommonOpts}
    (hc : some c ∈ doc.cfg.commonTiers listener route rtTpl lnTpl) :
    ∃ origin, Document.commonRefs origin c ⊆ doc.resolverRefs := by
  simp only [Config.commonTiers, List.mem_cons, List.not_mem_nil, or_false] at hc
  rcases hc with hc | hc | hc | hc | hc
  · obtain rfl := Option.some.inj hc
    refine ⟨"route ".toList ++ route.label, fun r hr' ↦ listenerRefs_subset hl ?_⟩
    exact List.mem_append_right _
      (List.mem_flatMap.mpr ⟨route, hr, List.mem_append_left _ hr'⟩)
  · obtain ⟨t, ht, rfl⟩ := Option.map_eq_some_iff.mp hc.symm
    obtain ⟨origin, hsub, -⟩ := commonRefs_subset_of_template hrt ht
    exact ⟨origin, hsub⟩
  · obtain rfl := Option.some.inj hc
    refine ⟨"listener ".toList ++ listener.addr.toStr, fun r hr' ↦ listenerRefs_subset hl ?_⟩
    exact List.mem_append_left _ (List.mem_append_left _ hr')
  · obtain ⟨t, ht, rfl⟩ := Option.map_eq_some_iff.mp hc.symm
    obtain ⟨origin, hsub, -⟩ := commonRefs_subset_of_template hln ht
    exact ⟨origin, hsub⟩
  · obtain rfl := Option.some.inj hc
    exact ⟨"[global]".toList, fun r hr' ↦ List.mem_append_left _ (List.mem_append_left _
      (List.mem_append_left _ (List.mem_append_left _ hr')))⟩

theorem exists_echRef (hl : listener ∈ doc.cfg.listeners) (hr : route ∈ listener.allRoutes)
    (hrt : doc.cfg.templateFor route.useTemplate = .ok rtTpl)
    (hln : doc.cfg.templateFor listener.useTemplate = .ok lnTpl) {e : EchConfig}
    (he : some e ∈ doc.cfg.echTiers listener route rtTpl lnTpl) :
    ∃ origin, Document.echRef origin (some e) ⊆ doc.resolverRefs := by
  simp only [Config.echTiers, List.mem_cons, List.not_mem_nil, or_false] at he
  rcases he with he | he | he | he | he
  · rw [he]
    refine ⟨"route ".toList ++ route.label ++ " [ech]".toList, fun r hr' ↦
      listenerRefs_subset hl ?_⟩
    exact List.mem_append_right _
      (List.mem_flatMap.mpr ⟨route, hr, List.mem_append_right _ hr'⟩)
  · obtain ⟨t, ht, hech⟩ := Option.bind_eq_some_iff.mp he.symm
    obtain ⟨-, -, origin, hsub⟩ := commonRefs_subset_of_template hrt ht
    exact ⟨origin, hech ▸ hsub⟩
  · rw [he]
    refine ⟨"listener ".toList ++ listener.addr.toStr ++ " [ech]".toList, fun r hr' ↦
      listenerRefs_subset hl ?_⟩
    exact List.mem_append_left _ (List.mem_append_right _ hr')
  · obtain ⟨t, ht, hech⟩ := Option.bind_eq_some_iff.mp he.symm
    obtain ⟨-, -, origin, hsub⟩ := commonRefs_subset_of_template hln ht
    exact ⟨origin, hech ▸ hsub⟩
  · rw [he]
    exact ⟨"[global.ech]".toList, fun r hr' ↦ List.mem_append_left _ (List.mem_append_left _
      (List.mem_append_left _ (List.mem_append_right _ hr')))⟩

/-! ## What routes and pools use -/

section Used

variable (hwired : Wired env doc registry)
  (hfull : ∀ name, name ∈ registry ↔ name ∈ doc.resolvers)
  (hdoc : doc.validate ext parsers = .ok ()) (hl : listener ∈ doc.cfg.listeners)
  (hr : route ∈ listener.allRoutes) (hrt : doc.cfg.templateFor route.useTemplate = .ok rtTpl)
  (hln : doc.cfg.templateFor listener.useTemplate = .ok lnTpl)

include hwired hfull hdoc hl hr hrt hln

theorem leads_of_resolverTiers {field : CommonOpts → Option Str}
    (hfield : ∀ c, field c = some s → c.echResolver = some s ∨ c.addrResolver = some s)
    (h : some s ∈ doc.cfg.resolverTiers listener route rtTpl lnTpl field) :
    Leads env registry s := by
  obtain ⟨t, ht, hs⟩ := List.mem_flatMap.mp h
  simp only [List.mem_cons, List.not_mem_nil, or_false] at hs
  -- a tier offers its specific field, or else its `resolver`; both are visited
  obtain ⟨c, rfl, hc⟩ : ∃ c, t = some c ∧
      (c.resolver = some s ∨ c.echResolver = some s ∨ c.addrResolver = some s) := by
    rcases hs with hs | hs
    · obtain ⟨c, hc, hs⟩ := Option.bind_eq_some_iff.mp hs.symm
      exact ⟨c, hc, Or.inr (hfield c hs)⟩
    · obtain ⟨c, hc, hs⟩ := Option.bind_eq_some_iff.mp hs.symm
      exact ⟨c, hc, Or.inl hs⟩
  obtain ⟨origin, hsub⟩ := exists_commonRefs hl hr hrt hln ht
  exact leads_of_checkRef hwired hfull
    (Document.checkRef_of_validate hdoc (hsub (mem_commonRefs hc)))

theorem leads_of_echTiers
    (h : firstField (doc.cfg.echTiers listener route rtTpl lnTpl) EchConfig.echResolver = some s) :
    Leads env registry s := by
  obtain ⟨t, ht, hs⟩ := List.mem_map.mp (exists_of_firstSome h)
  obtain ⟨e, rfl, hs⟩ := Option.bind_eq_some_iff.mp hs
  obtain ⟨origin, hsub⟩ := exists_echRef hl hr hrt hln ht
  have hmem : (origin, s) ∈ Document.echRef origin (some e) := by simp [Document.echRef, hs]
  exact leads_of_checkRef hwired hfull (Document.checkRef_of_validate hdoc (hsub hmem))

theorem leads_addrResolver {inherited : Str} (hinherited : isResolverRef inherited = false) :
    Leads env registry
      ((doc.cfg.effective listener route rtTpl lnTpl).addrResolver.getD inherited) := by
  cases h : (doc.cfg.effective listener route rtTpl lnTpl).addrResolver with
  | none => exact leads_of_not_ref hinherited
  | some s =>
    exact leads_of_resolverTiers hwired hfull hdoc hl hr hrt hln (fun _ hc ↦ Or.inr hc)
      (exists_of_firstSome h)

theorem leads_echSpec :
    Leads env registry (echSpec (doc.cfg.effective listener route rtTpl lnTpl)) := by
  rw [echSpec]
  cases h : (doc.cfg.effective listener route rtTpl lnTpl).echResolver with
  | none => exact leads_addrResolver hwired hfull hdoc hl hr hrt hln (by decide)
  | some s =>
    rcases List.mem_cons.mp (exists_of_firstSome h) with hech | htiers
    · exact leads_of_echTiers hwired hfull hdoc hl hr hrt hln hech.symm
    · exact leads_of_resolverTiers hwired hfull hdoc hl hr hrt hln (fun _ hc ↦ Or.inl hc) htiers

end Used

theorem leads_of_pool (hwired : Wired env doc registry)
    (hfull : ∀ name, name ∈ registry ↔ name ∈ doc.resolvers)
    (hdoc : doc.validate ext parsers = .ok ()) {name : Str} {d : PoolDef}
    (hd : doc.pools.lookup name = some d) :
    Leads env registry (d.resolver.getD "system".toList) ∧
      ∀ spec, d.probe.validate parsers = .ok spec → ∀ block ∈ spec.ech,
        Leads env registry ((EffectiveProbeEch.resolve block doc.cfg.global).echResolver.getD
          (d.resolver.getD "system".toList)) := by
  have h := Document.validatePool_of_validate hdoc hd
  obtain ⟨_, -, h⟩ := bind_eq_ok.mp h
  obtain ⟨_, -, h⟩ := bind_eq_ok.mp h
  obtain ⟨_, -, h⟩ := bind_eq_ok.mp h
  obtain ⟨_, hprobe, h⟩ := bind_eq_ok.mp h
  obtain ⟨_, -, hresolver⟩ := bind_eq_ok.mp h
  have hown : Leads env registry (d.resolver.getD "system".toList) := by
    cases hs : d.resolver with
    | none => exact leads_of_not_ref (by decide)
    | some s =>
      rw [hs] at hresolver
      exact leads_of_checkRef hwired hfull (forM_eq_ok.mp hresolver s List.mem_cons_self)
  refine ⟨hown, fun spec hspec block hblock ↦ ?_⟩
  obtain ⟨spec', hspec', hprobe⟩ := bind_eq_ok.mp hprobe
  obtain rfl := Except.ok.inj (hspec.symm.trans (eq_ok_of_mapError hspec'))
  -- the block of a probe is never inherited, so the one that was checked is the one that is used
  rw [Option.mem_def.mp hblock] at hprobe
  obtain ⟨_, -, hprobe⟩ := bind_eq_ok.mp hprobe
  obtain ⟨_, hech, -⟩ := bind_eq_ok.mp hprobe
  cases hs : (EffectiveProbeEch.resolve block doc.cfg.global).echResolver with
  | none => exact hown
  | some s =>
    rw [hs] at hech
    exact leads_of_checkRef hwired hfull (forM_eq_ok.mp hech s List.mem_cons_self)

/-- **References lead somewhere.** Of an accepted document whose declared resolvers were built, in
whatever run: what a route dials through, what it fetches ECH configurations through, and what a
pool resolves its targets and its probe's ECH configuration through, wherever in the document it was
written, is no reference or leads to the resolver that was built under its name. -/
theorem references_lead (hdoc : doc.validate ext parsers = .ok ())
    {es : List (Exchange (@StartOp.Answer (BuiltResolver τ V)))}
    (hruns : (env.buildNamedResolvers doc).Runs es (.done registry)) :
    (∀ listener ∈ doc.cfg.listeners, ∀ route ∈ listener.allRoutes, ∀ rtTpl lnTpl,
      doc.cfg.templateFor route.useTemplate = .ok rtTpl →
      doc.cfg.templateFor listener.useTemplate = .ok lnTpl →
        Leads env registry
          ((doc.cfg.effective listener route rtTpl lnTpl).addrResolver.getD []) ∧
        Leads env registry (echSpec (doc.cfg.effective listener route rtTpl lnTpl))) ∧
    ∀ name d, doc.pools.lookup name = some d →
      Leads env registry (d.resolver.getD "system".toList) ∧
        ∀ spec, d.probe.validate parsers = .ok spec → ∀ block ∈ spec.ech,
          Leads env registry ((EffectiveProbeEch.resolve block doc.cfg.global).echResolver.getD
            (d.resolver.getD "system".toList)) := by
  obtain ⟨hwired, hfull⟩ := wired_of_runs hruns
  refine ⟨fun listener hl route hr rtTpl lnTpl hrt hln ↦ ?_, fun name d hd ↦ ?_⟩
  · exact ⟨leads_addrResolver hwired hfull hdoc hl hr hrt hln (by decide),
      leads_echSpec hwired hfull hdoc hl hr hrt hln⟩
  · exact leads_of_pool hwired hfull hdoc hd

end References

/-! ## One resolver behind another -/

theorem references_lead_chained : ∃ es registry,
    (willingStart.buildNamedResolvers chainedDocument).Runs es (.done registry) ∧
      (∃ resolver plan bytes, ∀ family, willingStart.getResolver registry "@doh".toList family =
        .ok (.named "doh".toList resolver plan bytes)) ∧
      ∃ resolver plan bytes, ∀ family, willingStart.getResolver registry "@dns".toList family =
        .ok (.named "dns".toList resolver plan bytes) := by
  obtain ⟨es, registry, hruns, -, -⟩ := exists_chained_run
  have hvalid : chainedDocument.validate .refusing .refusing = .ok () := by
    decide +kernel
  obtain ⟨hroutes, hpools⟩ := references_lead hvalid hruns
  refine ⟨es, registry, hruns, ?_, ?_⟩
  · -- the first route of the listener
    obtain ⟨hdial, -⟩ := hroutes (chainedDocument.cfg.listeners.get ⟨0, by decide⟩)
      (List.get_mem _ _) _ (List.mem_cons_self) none none rfl rfl
    obtain ⟨name, resolver, plan, bytes, hname, -, hleads⟩ := hdial (by decide +kernel)
    obtain rfl : "doh".toList = name := Option.some.inj hname
    exact ⟨resolver, plan, bytes, hleads⟩
  · obtain ⟨hresolver, -⟩ := hpools "edge".toList _ rfl
    obtain ⟨name, resolver, plan, bytes, hname, -, hleads⟩ := hresolver (by decide +kernel)
    obtain rfl : "dns".toList = name := Option.some.inj hname
    exact ⟨resolver, plan, bytes, hleads⟩

end SniGate
