import SniGate.Listener.Build
import SniGate.Pool.Selection
import SniGate.Startup.PoolTables
import SniGate.Startup.Wiring

/-!
# The pools that run

What starting up makes of the declared pools. Those that a route reads run, with one view for each
filter that they are read with; so a route that dials through a pool finds the view of its own
filter, and whatever it picks there is safe for that filter.

## Design choices

Builders are kept while routes are gone through, so what holds of them in between speaks of the
routes gone through so far (`Gathers`), and the run over all of them is one induction on the list
of routes. What a running pool is configured with does not depend on the routes, and stands in
`Startup.PoolTables`.
-/

namespace SniGate

theorem holds_of_foldlM {ε ι β : Type} {f : β → ι → Except ε β} {I : List ι → β → Prop}
    {items : List ι} {b b' : β} (hrun : items.foldlM f b = .ok b') (h : I [] b)
    (hstep : ∀ done item b b', I done b → f b item = .ok b' → I (done ++ [item]) b') :
    I items b' := by
  have hrest : ∀ rest done b, rest.foldlM f b = .ok b' → I done b → I (done ++ rest) b' := by
    intro rest
    induction rest with
    | nil =>
      intro done b hrun h
      obtain rfl := Except.ok.inj hrun
      rwa [List.append_nil]
    | cons item rest ih =>
      intro done b hrun h
      rw [List.foldlM_cons] at hrun
      obtain ⟨b₁, hitem, hrun⟩ := bind_eq_ok.mp hrun
      have hkept := ih (done ++ [item]) b₁ hrun (hstep done item b b₁ h hitem)
      rwa [List.append_assoc] at hkept
  exact hrest items [] b hrun h

/-! ## Filters and views -/

/-- A route reads a pool through this filter. -/
def Reads (cfg : Config) (lr : Listener × Route) (name : Str) (selectors : List Selector) : Prop :=
  cfg.poolRef lr.1 lr.2 = .ok (some (name, selectors))

namespace PoolBuilder

variable {ρ V : Type} {b : PoolBuilder ρ V} {p : StartedPool ρ V} {selectors sel : List Selector}

theorem mem_views_registerView :
    sel ∈ (b.registerView selectors).views ↔ sel ∈ b.views ∨ sel = selectors := by
  rw [registerView]
  split_ifs with hmem
  · refine ⟨Or.inl, ?_⟩
    rintro (h | rfl)
    · exact h
    · exact hmem
  · rw [List.mem_append, List.mem_singleton]

theorem nodup_views_registerView (h : b.views.Nodup) : (b.registerView selectors).views.Nodup := by
  rw [registerView]
  split_ifs with hmem
  · exact h
  · exact List.nodup_append.mpr ⟨h, List.nodup_singleton _, fun a ha c hc ↦ by
      rw [List.mem_singleton.mp hc]
      exact ne_of_mem_of_not_mem ha hmem⟩

theorem registerView_eq : b.registerView selectors =
    { b with views := (b.registerView selectors).views } := by
  rw [registerView]
  split_ifs
  · rfl
  · rfl

theorem isUsed_iff : b.isUsed = true ↔ ∃ sel, sel ∈ b.views := by
  rw [isUsed, decide_eq_true_iff]
  exact ⟨List.exists_mem_of_ne_nil _, fun h ↦ List.ne_nil_of_mem h.choose_spec⟩

theorem views_of_spawn (h : b.spawn = .ok p) : p.views = b.views := by
  obtain ⟨nat64, -, h⟩ := bind_eq_ok.mp h
  obtain rfl := Except.ok.inj h
  rfl

theorem fields_of_new {parsers : PoolParsers} {rand : ℕ → List ℕ} {name : Str} {d : PoolDef}
    {spec : ProbeSpec} {resolver : ρ} {ech : Option (ProbeEchSetup ρ)} {verify : V}
    (h : new parsers rand name d spec resolver ech verify = .ok b) :
    b.views = [] ∧ b.nat64 = d.nat64 := by
  obtain ⟨_, -, h⟩ := bind_eq_ok.mp h
  obtain ⟨_, -, h⟩ := bind_eq_ok.mp h
  cases hplan : buildProbePlan spec ech verify with
  | none => simp [hplan] at h
  | some plan =>
    rw [hplan] at h
    obtain rfl := Except.ok.inj h
    exact ⟨rfl, rfl⟩

end PoolBuilder

section Started

variable {τ V C : Type} {env : StartEnv τ V C} {parsers : PoolParsers} {rand : Str → ℕ → List ℕ}
  {doc : Document} {registry : Registry τ V} {routes : List (Listener × Route)} {name : Str}
  {builders builders' : Map Str (PoolBuilder (BuiltResolver τ V) V)}

theorem fields_of_buildPoolBuilder {d : PoolDef} {b : PoolBuilder (BuiltResolver τ V) V}
    (h : buildPoolBuilder env parsers rand doc registry name d = .ok b) :
    b.views = [] ∧ b.nat64 = d.nat64 := by
  obtain ⟨_, -, h⟩ := bind_eq_ok.mp h
  obtain ⟨_, -, h⟩ := bind_eq_ok.mp h
  obtain ⟨_, -, h⟩ := bind_eq_ok.mp h
  obtain ⟨_, -, h⟩ := bind_eq_ok.mp h
  exact PoolBuilder.fields_of_new (eq_ok_of_mapError h)

/-- A builder that is as its table says, with one view for each filter that one of the routes reads
the pool through. -/
structure Gathers (env : StartEnv τ V C) (parsers : PoolParsers) (rand : Str → ℕ → List ℕ)
    (doc : Document) (registry : Registry τ V) (routes : List (Listener × Route)) (name : Str)
    (b : PoolBuilder (BuiltResolver τ V) V) : Prop where
  built : ∃ d b₀, doc.pools.lookup name = some d ∧
    buildPoolBuilder env parsers rand doc registry name d = .ok b₀ ∧
    b = { b₀ with views := b.views }
  nodup : b.views.Nodup
  mem_views : ∀ sel, sel ∈ b.views ↔ ∃ lr ∈ routes, Reads doc.cfg lr name sel

/-- A pool that runs: it is as its table says, with one view for each filter that some route reads
it through. -/
structure Started (env : StartEnv τ V C) (parsers : PoolParsers) (rand : Str → ℕ → List ℕ)
    (doc : Document) (registry : Registry τ V) (name : Str)
    (p : StartedPool (BuiltResolver τ V) V) : Prop where
  configured : ∃ d, doc.pools.lookup name = some d ∧
    PoolConfigured env parsers (rand name) doc registry name d p
  nodup : p.views.Nodup
  mem_views : ∀ sel, sel ∈ p.views ↔ ∃ lr ∈ doc.cfg.routes, Reads doc.cfg lr name sel

/-- The builders of all pools, when some of the routes have registered their filters. -/
structure Gathering (env : StartEnv τ V C) (parsers : PoolParsers) (rand : Str → ℕ → List ℕ)
    (doc : Document) (registry : Registry τ V) (routes : List (Listener × Route))
    (builders : Map Str (PoolBuilder (BuiltResolver τ V) V)) : Prop where
  mem_iff : ∀ name, name ∈ builders ↔ name ∈ doc.pools
  /-- No route reads a pool that is not declared. -/
  known : ∀ lr ∈ routes, ∀ name sel, Reads doc.cfg lr name sel → name ∈ doc.pools
  gathers : ∀ name b, builders.lookup name = some b →
    Gathers env parsers rand doc registry routes name b

theorem gathering_of_tables (h : (doc.pools.keys.insertionSort (· ≤ ·)).foldlM
    (addPoolBuilder env parsers rand doc registry) ∅ = .ok builders) :
    Gathering env parsers rand doc registry [] builders := by
  have hfold := holds_of_foldlM (I := fun done builders ↦ (∀ name, name ∈ builders ↔ name ∈ done) ∧
    ∀ name b, builders.lookup name = some b → Gathers env parsers rand doc registry [] name b) h
    ⟨by simp, by simp⟩ ?_
  · refine ⟨fun name ↦ ?_, by simp, hfold.2⟩
    rw [hfold.1, List.mem_insertionSort, AList.mem_keys]
  · rintro done name builders builders' ⟨hmem, hgathers⟩ hadd
    -- the new builder has no reader yet, and replaces none
    rw [addPoolBuilder] at hadd
    cases hd : doc.pools.lookup name with
    | none => simp [hd] at hadd
    | some d =>
      rw [hd] at hadd
      obtain ⟨b, hb, hadd⟩ := bind_eq_ok.mp hadd
      obtain rfl := Except.ok.inj hadd
      obtain ⟨hviews, -⟩ := fields_of_buildPoolBuilder hb
      refine ⟨fun other ↦ ?_, fun other b' hb' ↦ ?_⟩
      · rw [AList.mem_insert, hmem, List.mem_append, List.mem_singleton, or_comm]
      · by_cases hother : other = name
        · subst hother
          rw [AList.lookup_insert] at hb'
          obtain rfl := Option.some.inj hb'
          exact ⟨⟨d, b, hd, hb, rfl⟩, by simp [hviews], by simp [hviews]⟩
        · rw [AList.lookup_insert_ne hother] at hb'
          exact hgathers other b' hb'

section Registering

variable {lr : Listener × Route} {b : PoolBuilder (BuiltResolver τ V) V} {selectors : List Selector}

theorem Gathers.skip (h : Gathers env parsers rand doc registry routes name b)
    (hnot : ∀ sel, ¬Reads doc.cfg lr name sel) :
    Gathers env parsers rand doc registry (routes ++ [lr]) name b := by
  obtain ⟨hbuilt, hnodup, hviews⟩ := h
  refine ⟨hbuilt, hnodup, fun sel ↦ ?_⟩
  simp [hviews, hnot, or_and_right, exists_or]

theorem Gathers.add (h : Gathers env parsers rand doc registry routes name b)
    (hreads : ∀ sel, Reads doc.cfg lr name sel ↔ sel = selectors) :
    Gathers env parsers rand doc registry (routes ++ [lr]) name (b.registerView selectors) := by
  obtain ⟨⟨d, b₀, hd, hb₀, heq⟩, hnodup, hviews⟩ := h
  refine ⟨⟨d, b₀, hd, hb₀, ?_⟩, PoolBuilder.nodup_views_registerView hnodup, fun sel ↦ ?_⟩
  · rw [PoolBuilder.registerView_eq]
    rw [heq]
  · rw [PoolBuilder.mem_views_registerView, hviews]
    simp [hreads, or_and_right, exists_or]

theorem Gathering.register (h : Gathering env parsers rand doc registry routes builders)
    (hregister : registerRoute doc.cfg builders lr = .ok builders') :
    Gathering env parsers rand doc registry (routes ++ [lr]) builders' := by
  obtain ⟨ref, href, hregister⟩ := bind_eq_ok.mp hregister
  have href := eq_ok_of_mapError href
  have hknown (hone : ∀ name sel, Reads doc.cfg lr name sel → name ∈ doc.pools) :
      ∀ lr' ∈ routes ++ [lr], ∀ name sel, Reads doc.cfg lr' name sel → name ∈ doc.pools := by
    intro lr' hlr' name sel hreads
    rcases List.mem_append.mp hlr' with hlr' | hlr'
    · exact h.known lr' hlr' name sel hreads
    · rw [List.mem_singleton.mp hlr'] at hreads
      exact hone name sel hreads
  cases ref with
  | none =>
    obtain rfl := Except.ok.inj hregister
    have hnone (name : Str) (sel : List Selector) : ¬Reads doc.cfg lr name sel := by
      intro hreads
      exact absurd (href.symm.trans hreads) (by simp)
    refine ⟨h.mem_iff, hknown fun name sel hreads ↦ absurd hreads (hnone name sel), ?_⟩
    exact fun name b hb ↦ (h.gathers name b hb).skip (hnone name)
  | some ref =>
    obtain ⟨pool, selectors⟩ := ref
    have hreads {name : Str} {sel : List Selector} :
        Reads doc.cfg lr name sel ↔ name = pool ∧ sel = selectors := by
      rw [Reads, href]
      simp [eq_comm]
    cases hb : builders.lookup pool with
    | none => simp [hb] at hregister
    | some b =>
      simp only [hb] at hregister
      obtain rfl := Except.ok.inj hregister
      refine ⟨fun name ↦ AList.mem_replace.trans (h.mem_iff name), hknown ?_, ?_⟩
      · intro name sel hname
        rw [(hreads.mp hname).1, ← h.mem_iff, ← AList.lookup_isSome, hb]
        rfl
      · intro name b' hb'
        -- one builder has one more reader, the others are as they were
        rw [Map.lookup_replace] at hb'
        by_cases hname : name = pool
        · subst hname
          rw [if_pos rfl, hb] at hb'
          obtain rfl := Option.some.inj hb'
          exact (h.gathers name b hb).add fun sel ↦ hreads.trans (and_iff_right rfl)
        · rw [if_neg hname] at hb'
          exact (h.gathers name b' hb').skip fun sel hsel ↦ hname (hreads.mp hsel).1

end Registering

theorem lookup_of_spawnPools {out : Map Str (StartedPool (BuiltResolver τ V) V)}
    (h : builders.entries.foldlM spawnPool ∅ = .ok out) :
    (∀ name p, out.lookup name = some p →
      ∃ b, builders.lookup name = some b ∧ b.isUsed ∧ b.spawn = .ok p) ∧
    ∀ name b, builders.lookup name = some b → b.isUsed → name ∈ out := by
  have hfold := holds_of_foldlM (I := fun done (out : Map Str (StartedPool (BuiltResolver τ V) V)) ↦
    (∀ name p, out.lookup name = some p →
      ∃ b, (⟨name, b⟩ : Σ _ : Str, PoolBuilder (BuiltResolver τ V) V) ∈ done ∧ b.isUsed ∧
        b.spawn = .ok p) ∧
    ∀ e ∈ done, e.2.isUsed → e.1 ∈ out) h ⟨by simp, by simp⟩ ?_
  · refine ⟨fun name p hp ↦ ?_, fun name b hb hused ↦ ?_⟩
    · obtain ⟨b, hb, hused, hspawn⟩ := hfold.1 name p hp
      exact ⟨b, AList.mem_lookup_iff.mpr hb, hused, hspawn⟩
    · exact hfold.2 ⟨name, b⟩ (AList.mem_lookup_iff.mp hb) hused
  · rintro done ⟨name, b⟩ out out' ⟨hfrom, hmem⟩ hspawn
    rw [spawnPool] at hspawn
    split_ifs at hspawn with hused
    · obtain ⟨p, hp, hspawn⟩ := bind_eq_ok.mp hspawn
      have hp := eq_ok_of_mapError hp
      obtain rfl := Except.ok.inj hspawn
      refine ⟨fun other p' hp' ↦ ?_, fun e he heused ↦ ?_⟩
      · by_cases hother : other = name
        · subst hother
          rw [AList.lookup_insert] at hp'
          obtain rfl := Option.some.inj hp'
          exact ⟨b, by simp, hused, hp⟩
        · rw [AList.lookup_insert_ne hother] at hp'
          obtain ⟨b', hb', hrest⟩ := hfrom other p' hp'
          exact ⟨b', List.mem_append_left _ hb', hrest⟩
      · rw [AList.mem_insert]
        rcases List.mem_append.mp he with he | he
        · exact Or.inr (hmem e he heused)
        · exact Or.inl (by rw [List.mem_singleton.mp he])
    · obtain rfl := Except.ok.inj hspawn
      refine ⟨fun other p' hp' ↦ ?_, fun e he heused ↦ ?_⟩
      · obtain ⟨b', hb', hrest⟩ := hfrom other p' hp'
        exact ⟨b', List.mem_append_left _ hb', hrest⟩
      · rcases List.mem_append.mp he with he | he
        · exact hmem e he heused
        · rw [List.mem_singleton.mp he] at heused
          exact absurd heused hused

variable {pools : Map Str (StartedPool (BuiltResolver τ V) V)}

theorem started_of_buildPools (h : env.buildPools parsers rand doc registry = .ok pools) :
    (∀ name, name ∈ pools ↔
      name ∈ doc.pools ∧ ∃ lr ∈ doc.cfg.routes, ∃ sel, Reads doc.cfg lr name sel) ∧
    ∀ name p, pools.lookup name = some p → Started env parsers rand doc registry name p := by
  rw [StartEnv.buildPools] at h
  split_ifs at h with hempty
  · obtain rfl := Except.ok.inj h
    -- without tables nothing runs, and routes are not even visited
    have hnone (name : Str) : name ∉ doc.pools := by
      rw [AList.mem_keys, hempty]
      exact List.not_mem_nil
    exact ⟨fun name ↦ by simp [hnone], by simp⟩
  · obtain ⟨tables, htables, h⟩ := bind_eq_ok.mp h
    obtain ⟨builders, hbuilders, h⟩ := bind_eq_ok.mp h
    have hgathering : Gathering env parsers rand doc registry doc.cfg.routes builders :=
      holds_of_foldlM (I := Gathering env parsers rand doc registry) hbuilders
        (gathering_of_tables htables) fun _ _ _ _ hdone hone ↦ hdone.register hone
    obtain ⟨hfrom, hmem⟩ := lookup_of_spawnPools h
    refine ⟨fun name ↦ ⟨fun hname ↦ ?_, ?_⟩, fun name p hp ↦ ?_⟩
    · obtain ⟨p, hp⟩ := Option.isSome_iff_exists.mp (AList.lookup_isSome.mpr hname)
      obtain ⟨b, hb, hused, -⟩ := hfrom name p hp
      obtain ⟨sel, hsel⟩ := PoolBuilder.isUsed_iff.mp hused
      obtain ⟨lr, hlr, hreads⟩ := ((hgathering.gathers name b hb).mem_views sel).mp hsel
      exact ⟨hgathering.known lr hlr name sel hreads, lr, hlr, sel, hreads⟩
    · rintro ⟨hname, lr, hlr, sel, hreads⟩
      obtain ⟨b, hb⟩ := Option.isSome_iff_exists.mp
        (AList.lookup_isSome.mpr ((hgathering.mem_iff name).mpr hname))
      refine hmem name b hb (PoolBuilder.isUsed_iff.mpr ⟨sel, ?_⟩)
      exact ((hgathering.gathers name b hb).mem_views sel).mpr ⟨lr, hlr, hreads⟩
    · obtain ⟨b, hb, -, hspawn⟩ := hfrom name p hp
      obtain ⟨⟨d, b₀, hd, hb₀, heq⟩, hnodup, hviews⟩ := hgathering.gathers name b hb
      have hsame := PoolBuilder.views_of_spawn hspawn
      refine ⟨⟨d, hd, ?_⟩, hsame ▸ hnodup, fun sel ↦ hsame ▸ hviews sel⟩
      rw [heq] at hspawn
      exact poolConfigured_of_spawn hb₀ hspawn

/-! ## What a route picks -/

/-- The views that routes are built with. -/
def servedViews (pools : Map Str (StartedPool (BuiltResolver τ V) V)) :
    Map Str (List (List Selector)) where
  entries := pools.entries.map (Sigma.map id fun _ p ↦ p.views)
  nodupKeys := pools.nodupKeys.map₂ fun _ p ↦ p.views

@[simp] theorem lookup_servedViews :
    (servedViews pools).lookup name = (pools.lookup name).map fun p ↦ p.views :=
  List.dlookup_map₂ name

/-- A route that reads a pool takes its filter from its own table or its template. -/
theorem exists_template_of_reads {lr : Listener × Route} {sel : List Selector}
    (h : Reads doc.cfg lr name sel) : ∃ tpl, doc.cfg.templateFor lr.2.useTemplate = .ok tpl ∧
      (∃ port, resolvedUpstreamFrom (lr.2.upstreamSpec tpl) lr.1.addr.port =
        some ⟨.pool name, port⟩) ∧ sel = (lr.2.selectFor tpl).getD [] := by
  obtain ⟨tpl, htpl, h⟩ := bind_eq_ok.mp h
  refine ⟨tpl, htpl, ?_⟩
  split at h
  · rename_i pool port hresolved
    have h := Except.ok.inj h
    simp only [Option.some.injEq, Prod.mk.injEq] at h
    obtain ⟨rfl, rfl⟩ := h
    exact ⟨⟨port, hresolved⟩, rfl⟩
  · exact absurd h (by simp [pure, Except.pure])

theorem validateRoutePool_of_validate {ext : Externals} {lr : Listener × Route}
    (hdoc : doc.validate ext parsers = .ok ()) (hlr : lr ∈ doc.cfg.routes) :
    ∃ tpl, doc.cfg.templateFor lr.2.useTemplate = .ok tpl ∧
      doc.cfg.validateRoutePool lr.2 tpl lr.1.addr.port = .ok () := by
  obtain ⟨l, hl, hlr⟩ := List.mem_flatMap.mp hlr
  obtain ⟨r, hr, rfl⟩ := List.mem_map.mp hlr
  obtain ⟨_, -, hroutes⟩ := bind_eq_ok.mp (Document.validatePools_of_validate hdoc)
  exact bind_eq_ok.mp (forM_eq_ok.mp (forM_eq_ok.mp hroutes l hl) r hr)

theorem declared_of_reads {ext : Externals} {lr : Listener × Route} {sel : List Selector}
    (hdoc : doc.validate ext parsers = .ok ()) (hlr : lr ∈ doc.cfg.routes)
    (hreads : Reads doc.cfg lr name sel) : name ∈ doc.pools := by
  obtain ⟨tpl, htpl, hchecked⟩ := validateRoutePool_of_validate hdoc hlr
  obtain ⟨tpl', htpl', ⟨port, hresolved⟩, -⟩ := exists_template_of_reads hreads
  obtain rfl := Except.ok.inj (htpl.symm.trans htpl')
  -- the check looks the pool up among the tables of the configuration, which are the document's
  rw [Config.validateRoutePool, hresolved] at hchecked
  cases hpool : doc.cfg.pools.lookup name with
  | none => simp [Config.poolDef, hpool, refuse] at hchecked
  | some targets =>
    rw [doc.pools_eq] at hpool
    obtain ⟨d, hd, -⟩ := Option.map_eq_some_iff.mp hpool
    exact AList.lookup_isSome.mp (hd ▸ rfl)

/-- A view has an answer in every state that its pool may come to, and what is picked from it is
safe for the filter. -/
def ServesSafely (pool : ServedPool) (view : ℕ) (sel : List Selector) : Prop :=
  ∀ (scale : LogScale) (s : PoolService),
    Reach (PoolService.step scale pool) (fun _ _ ↦ True) (.start pool) s →
      ∃ vr, s.ranking[view]? = some vr ∧ Selects pool s.published sel vr ∧
        ∀ port draw, PickOk pool s.published sel vr port (pool.pick s.ranking view port draw).1

theorem servesSafely_of_findIdx {pool : ServedPool} {view : ℕ} {sel : List Selector}
    (h : pool.views.findIdx? (· = sel) = some view) : ServesSafely pool view sel := by
  intro scale s hreach
  obtain ⟨hlt, hat, -⟩ := List.findIdx?_eq_some_iff_getElem.mp h
  have hv : pool.views[view]? = some sel := by
    rw [List.getElem?_eq_getElem hlt, of_decide_eq_true hat]
  obtain ⟨vr, hvr, hselects⟩ := (PoolService.ok_of_reach hreach).answered view sel hv
  exact ⟨vr, hvr, hselects, fun _ _ ↦ hselects.pickOk hvr⟩

/-- Of an accepted document exactly the pools run that a route reads. -/
theorem mem_pools_iff {ext : Externals} (hdoc : doc.validate ext parsers = .ok ())
    (h : env.buildPools parsers rand doc registry = .ok pools) :
    name ∈ pools ↔ ∃ lr ∈ doc.cfg.routes, ∃ sel, Reads doc.cfg lr name sel := by
  refine ((started_of_buildPools h).1 name).trans (and_iff_right_of_imp ?_)
  rintro ⟨lr, hlr, sel, hreads⟩
  exact declared_of_reads hdoc hlr hreads

theorem exists_view_of_reads {ρ P : Type} {ext : Externals} (benv : BuildEnv ρ V P)
    {lr : Listener × Route} {sel : List Selector} (hdoc : doc.validate ext parsers = .ok ())
    (h : env.buildPools parsers rand doc registry = .ok pools) (hlr : lr ∈ doc.cfg.routes)
    (hreads : Reads doc.cfg lr name sel) :
    ∃ tpl p view, doc.cfg.templateFor lr.2.useTemplate = .ok tpl ∧ pools.lookup name = some p ∧
      p.views.findIdx? (· = sel) = some view ∧ ∀ eff nat64,
        buildUpstream { benv with pools := servedViews pools } lr.2 tpl eff (.pool name) nat64 =
          .ok (.pool name view, .pool name) := by
  obtain ⟨p, hp⟩ := Option.isSome_iff_exists.mp
    (AList.lookup_isSome.mpr ((mem_pools_iff hdoc h).mpr ⟨lr, hlr, sel, hreads⟩))
  obtain ⟨tpl, htpl, -, hsel⟩ := exists_template_of_reads hreads
  have hview : sel ∈ p.views :=
    (((started_of_buildPools h).2 name p hp).mem_views sel).mpr ⟨lr, hlr, hreads⟩
  obtain ⟨view, hfound⟩ : ∃ view, p.views.findIdx? (· = sel) = some view :=
    ⟨_, List.findIdx?_eq_some_of_exists ⟨sel, hview, by simp⟩⟩
  refine ⟨tpl, p, view, htpl, hp, hfound, fun eff nat64 ↦ ?_⟩
  rw [hsel] at hfound
  simp [buildUpstream, hp, orError, hfound, bind, Except.bind, pure, Except.pure]

/-- **From the routes to what is picked.** Of an accepted document exactly those pools run, after
starting up, that a route reads, each as its table says, with one view for every filter that it is
read through. A route that reads a pool is built to the view of its own filter, which serves it
safely. -/
theorem pools_serve_routes {ρ P : Type} {ext : Externals} (benv : BuildEnv ρ V P)
    (hdoc : doc.validate ext parsers = .ok ())
    (h : env.buildPools parsers rand doc registry = .ok pools) :
    (∀ name, name ∈ pools ↔ ∃ lr ∈ doc.cfg.routes, ∃ sel, Reads doc.cfg lr name sel) ∧
    (∀ name p, pools.lookup name = some p → Started env parsers rand doc registry name p) ∧
    ∀ lr ∈ doc.cfg.routes, ∀ name sel, Reads doc.cfg lr name sel →
      ∃ tpl p view, doc.cfg.templateFor lr.2.useTemplate = .ok tpl ∧ pools.lookup name = some p ∧
        (∀ eff nat64,
          buildUpstream { benv with pools := servedViews pools } lr.2 tpl eff (.pool name) nat64 =
            .ok (.pool name view, .pool name)) ∧
        ServesSafely p.toServedPool view sel := by
  refine ⟨fun name ↦ mem_pools_iff hdoc h, (started_of_buildPools h).2, ?_⟩
  intro lr hlr name sel hreads
  obtain ⟨tpl, p, view, htpl, hp, hfound, hbuilt⟩ := exists_view_of_reads benv hdoc h hlr hreads
  exact ⟨tpl, p, view, htpl, hp, hbuilt, servesSafely_of_findIdx hfound⟩

end Started

/-! ## One pool, read twice -/

/-- A document with two routes to one pool, of which one picks out a target. -/
def pooledDocument : Document where
  cfg := {
    listeners := [{
      addr := ⟨.v4 0, 443⟩
      routes := [
        { routeType := some .raw, matchSni := ["a.test".toList]
          upstream := some "@edge".toList },
        { routeType := some .raw, matchSni := ["b.test".toList]
          upstream := some "@edge".toList, select := some [.index 0] }] }]
    pools := (∅ : Map Str ℕ).insert "edge".toList 1 }
  resolvers := ∅
  pools := (∅ : Map Str PoolDef).insert "edge".toList
    { targets := [.addr "192.0.2.1".toList], probe := { mode := "tcp".toList } }
  resolvers_eq _ := rfl
  pools_eq name := by
    by_cases hedge : name = "edge".toList
    · subst hedge
      rw [AList.lookup_insert, AList.lookup_insert]
      rfl
    · rw [AList.lookup_insert_ne hedge, AList.lookup_insert_ne hedge]
      rfl

theorem validate_pooledDocument :
    pooledDocument.validate .refusing .refusing = .ok () := by
  decide +kernel

theorem exists_pools_pooledDocument : ∃ pools,
    willingStart.buildPools .refusing (fun _ _ ↦ []) pooledDocument ∅ = .ok pools := by
  have hok : (willingStart.buildPools .refusing (fun _ _ ↦ []) pooledDocument ∅).isOk := by
    decide +kernel
  exact exists_of_isOk hok

theorem pools_serve_routes_twice : ∃ pools p,
    willingStart.buildPools .refusing (fun _ _ ↦ []) pooledDocument ∅ = .ok pools ∧
      pools.lookup "edge".toList = some p ∧
      ∃ view, ServesSafely p.toServedPool view [.index 0] := by
  obtain ⟨pools, hpools⟩ := exists_pools_pooledDocument
  obtain ⟨-, -, hroutes⟩ := pools_serve_routes BuildEnv.willing validate_pooledDocument hpools
  have hlast : ∃ lr ∈ pooledDocument.cfg.routes,
      Reads pooledDocument.cfg lr "edge".toList [.index 0] :=
    ⟨_, List.mem_of_getLast? rfl, rfl⟩
  obtain ⟨lr, hlr, hreads⟩ := hlast
  obtain ⟨-, p, view, -, hp, -, hserves⟩ := hroutes lr hlr _ _ hreads
  exact ⟨pools, p, hpools, hp, view, hserves⟩

end SniGate
