import SniGate.Startup.Readiness
import SniGate.Startup.Served

/-!
# When the pools are built

The load-time check vouches for the tables of the pools: their targets and prefixes parse, their
probes reduce to plans, and routes refer to pools that there are. What it cannot vouch for is what
comes from elsewhere, the resolvers and the verifiers; building the pools fails on those alone, also
for a pool that no route reads.
-/

namespace SniGate

theorem exists_bind {ε α β : Type} {x : Except ε α} {f : α → Except ε β}
    (hx : ∃ a, x = .ok a) (hf : ∀ a, ∃ b, f a = .ok b) : ∃ b, (x >>= f) = .ok b := by
  obtain ⟨a, ha⟩ := hx
  exact exists_bind_eq_ok.mpr ⟨a, ha, hf a⟩

theorem exists_foldlM {ε ι β : Type} {f : β → ι → Except ε β} {I : β → Prop} {items : List ι}
    {b : β} (h : I b) (hstep : ∀ item ∈ items, ∀ b, I b → ∃ b', f b item = .ok b' ∧ I b') :
    ∃ b', items.foldlM f b = .ok b' := by
  induction items generalizing b with
  | nil => exact ⟨b, rfl⟩
  | cons item items ih =>
    obtain ⟨b₁, hitem, hb₁⟩ := hstep item List.mem_cons_self b h
    rw [List.foldlM_cons, hitem]
    exact ih hb₁ fun other hother ↦ hstep other (List.mem_cons_of_mem _ hother)

theorem exists_mapM {ε α β : Type} {f : α → Except ε β} {xs : List α} :
    (∃ ys, xs.mapM f = .ok ys) ↔ ∀ x ∈ xs, ∃ y, f x = .ok y := by
  induction xs with
  | nil => exact iff_of_true ⟨[], rfl⟩ (by simp)
  | cons x xs ih =>
    rw [List.mapM_cons, exists_bind_eq_ok, List.forall_mem_cons, ← ih]
    constructor
    · rintro ⟨y, hy, zs, h⟩
      obtain ⟨ys, hys, -⟩ := bind_eq_ok.mp h
      exact ⟨⟨y, hy⟩, ys, hys⟩
    · rintro ⟨⟨y, hy⟩, hxs⟩
      exact ⟨y, hy, exists_bind hxs fun _ ↦ ⟨_, rfl⟩⟩

/-! ## Tables -/

section Tables

variable {parsers : PoolParsers} {ext : Externals} {doc : Document} {name : Str} {d : PoolDef}
  {spec : ProbeSpec}

theorem exists_buildProbePlan {ρ V : Type} {probe : ProbeDef} {ech : Option (ProbeEchSetup ρ)}
    {verify : V} (h : probe.reduce parsers = .ok spec) :
    ∃ plan, buildProbePlan spec ech verify = some plan := by
  cases spec with
  | tcp port timeout => exact ⟨_, rfl⟩
  | tls port sni timeout block policy => exact ⟨_, rfl⟩
  | http url expectStatus timeout block policy =>
    rw [ProbeDef.reduce] at h
    have hurl : probe.reduceUrl parsers = .ok url := by
      split_ifs at h
      · rw [ProbeDef.reduceTcp] at h
        simp [bind_eq_ok, pure, Except.pure] at h
      · rw [ProbeDef.reduceTls] at h
        simp only [bind_eq_ok] at h
        obtain ⟨_, -, _, -, h⟩ := h
        split at h
        · simp [reject] at h
        · simp [pure, Except.pure] at h
      · obtain ⟨_, -, h⟩ := bind_eq_ok.mp h
        obtain ⟨_, -, h⟩ := bind_eq_ok.mp h
        obtain ⟨url', hurl, h⟩ := bind_eq_ok.mp h
        simp only [bind_eq_ok] at h
        obtain ⟨_, -, _, -, _, -, _, -, h⟩ := h
        obtain ⟨rfl, -⟩ := ProbeSpec.http.inj (Except.ok.inj h)
        exact hurl
      · simp [reject] at h
    -- such a URL has a host, and a port if only that of its scheme
    rw [ProbeDef.reduceUrl] at hurl
    cases hraw : probe.url with
    | none => simp [hraw, reject] at hurl
    | some raw =>
      simp only [hraw, bind_eq_ok] at hurl
      obtain ⟨url', -, _, hscheme, _, hhost, hurl⟩ := hurl
      obtain rfl := Except.ok.inj hurl
      obtain ⟨host, hhost⟩ := Option.ne_none_iff_exists'.mp (failIf_eq_ok.mp hhost)
      have hscheme := failIf_eq_ok.mp hscheme
      obtain ⟨port, hport⟩ : ∃ port, url'.portOrKnownDefault = some port := by
        rw [Url.portOrKnownDefault]
        cases url'.port with
        | some port => exact ⟨port, rfl⟩
        | none =>
          by_cases hhttp : url'.scheme = "http".toList
          · exact ⟨80, by simp [hhttp]⟩
          · by_cases hhttps : url'.scheme = "https".toList
            · exact ⟨443, by simp [hhttps]⟩
            · exact absurd ⟨hhttp, hhttps⟩ hscheme
      exact ⟨_, by rw [buildProbePlan, hhost, hport]; rfl⟩

/-- What is vouched for of one pool. -/
structure PoolChecked (parsers : PoolParsers) (d : PoolDef) (spec : ProbeSpec) : Prop where
  reduces : d.probe.reduce parsers = .ok spec
  parameters : d.probe.validateParameters = .ok ()
  targets : ∀ t ∈ d.targets.zipIdx, ∃ target, TargetSpec.parse parsers t.1.spec = .ok target
  prefixes : ∀ n ∈ d.nat64, ∀ p ∈ n.prefixes, ∃ prefix64, Nat64Prefix.parse p = some prefix64

theorem PoolChecked.validates (h : PoolChecked parsers d spec) :
    d.probe.validate parsers = .ok spec := by
  rw [ProbeDef.validate]
  exact bind_eq_ok.mpr ⟨spec, h.reduces, bind_eq_ok.mpr ⟨(), h.parameters, rfl⟩⟩

theorem poolChecked_of_validate (hdoc : doc.validate ext parsers = .ok ())
    (hd : doc.pools.lookup name = some d) : ∃ spec, PoolChecked parsers d spec := by
  have h := Document.validatePool_of_validate hdoc hd
  obtain ⟨_, -, h⟩ := bind_eq_ok.mp h
  obtain ⟨_, htargets, h⟩ := bind_eq_ok.mp h
  obtain ⟨_, -, h⟩ := bind_eq_ok.mp h
  obtain ⟨_, hprobe, h⟩ := bind_eq_ok.mp h
  obtain ⟨_, hnat64, -⟩ := bind_eq_ok.mp h
  obtain ⟨spec, hspec, -⟩ := bind_eq_ok.mp hprobe
  obtain ⟨spec', hreduces, hspec⟩ := bind_eq_ok.mp (eq_ok_of_mapError hspec)
  obtain ⟨_, hparameters, hspec⟩ := bind_eq_ok.mp hspec
  obtain rfl := Except.ok.inj hspec
  -- a target or a prefix that did not parse would have been refused
  refine ⟨spec', hreduces, hparameters, ?_, ?_⟩
  · intro t ht
    have htarget := forM_eq_ok.mp htargets t ht
    rw [Document.validateTarget] at htarget
    cases hparse : TargetSpec.parse parsers t.1.spec with
    | error e => simp [hparse, refuse] at htarget
    | ok target => exact ⟨target, rfl⟩
  · intro n hn p hp
    have htable := forM_eq_ok.mp hnat64 n (Option.mem_toList.mpr hn)
    obtain ⟨_, -, htable⟩ := bind_eq_ok.mp htable
    obtain ⟨_, hprefixes, -⟩ := bind_eq_ok.mp htable
    exact Option.ne_none_iff_exists'.mp (failIf_eq_ok.mp (forM_eq_ok.mp hprefixes p hp))

end Tables

/-! ## Builders -/

section Builders

variable {ρ V : Type} {parsers : PoolParsers} {rand : ℕ → List ℕ} {name : Str} {d : PoolDef}
  {spec : ProbeSpec} {resolver : ρ} {ech : Option (ProbeEchSetup ρ)} {verify : V}
  {b : PoolBuilder ρ V}

theorem PoolBuilder.exists_new (h : PoolChecked parsers d spec) :
    ∃ b, new parsers rand name d spec resolver ech verify = .ok b := by
  obtain ⟨targets, htargets⟩ : ∃ targets,
      d.targets.zipIdx.mapM (readTarget parsers name) = .ok targets := by
    refine exists_mapM.mpr fun t ht ↦ ?_
    obtain ⟨target, htarget⟩ := h.targets t ht
    exact ⟨_, by rw [readTarget, htarget]; rfl⟩
  obtain ⟨plan, hplan⟩ := exists_buildProbePlan h.reduces
  exact ⟨_, by rw [new, h.parameters, htargets, hplan]; rfl⟩

theorem PoolBuilder.exists_spawn
    (h : ∀ n ∈ b.nat64, ∀ p ∈ n.prefixes, ∃ prefix64, Nat64Prefix.parse p = some prefix64) :
    ∃ p, b.spawn = .ok p := by
  have hprojection : ∀ n ∈ b.nat64, ∃ x, b.projection n = .ok x := by
    intro n hn
    rw [projection]
    refine exists_bind (exists_mapM.mpr fun p hp ↦ ?_) fun _ ↦ ⟨_, rfl⟩
    obtain ⟨prefix64, hparse⟩ := h n hn p hp
    exact ⟨prefix64, by rw [hparse]⟩
  rw [spawn]
  refine exists_bind ?_ fun _ ↦ ⟨_, rfl⟩
  cases hnat64 : b.nat64 with
  | none => exact ⟨none, rfl⟩
  | some n => exact exists_bind (hprojection n hnat64) fun _ ↦ ⟨_, rfl⟩

end Builders

/-! ## All pools -/

section All

variable {τ V C : Type} {env : StartEnv τ V C} {parsers : PoolParsers} {rand : Str → ℕ → List ℕ}
  {ext : Externals} {doc : Document} {registry : Registry τ V} {routes : List (Listener × Route)}
  {name : Str} {d : PoolDef} {builders : Map Str (PoolBuilder (BuiltResolver τ V) V)}
  {b : PoolBuilder (BuiltResolver τ V) V}

/-- What a pool needs from elsewhere: the resolver of its targets, that of the ECH configuration of
its probe, and a verifier. -/
structure PoolReady (env : StartEnv τ V C) (parsers : PoolParsers) (doc : Document)
    (registry : Registry τ V) (name : Str) (d : PoolDef) : Prop where
  resolver : ∃ r, env.getResolver registry (d.resolver.getD "system".toList) .dual = .ok r
  ech : ∀ spec, d.probe.validate parsers = .ok spec → ∀ block ∈ spec.ech,
    ∃ r, env.getResolver registry
      ((EffectiveProbeEch.resolve block doc.cfg.global).echResolver.getD
        (d.resolver.getD "system".toList)) .dual = .ok r
  verify : ∀ spec, d.probe.validate parsers = .ok spec →
    ∃ v, env.getVerifier (poolVerifyPolicy doc spec)
      ("[pools.".toList ++ name ++ ".probe]".toList) = .ok v

theorem exists_poolProbeEch {own : Str} {spec : ProbeSpec} :
    (∃ ech, poolProbeEch env doc registry name own spec = .ok ech) ↔ ∀ block ∈ spec.ech,
      ∃ r, env.getResolver registry
        ((EffectiveProbeEch.resolve block doc.cfg.global).echResolver.getD own) .dual = .ok r := by
  rw [poolProbeEch.eq_def]
  cases spec.ech with
  | none => simp
  | some block =>
    simp only [Option.mem_def, Option.some.injEq, forall_eq']
    rw [exists_bind_eq_ok, ← exists_mapError]
    exact exists_congr fun r ↦ and_iff_left ⟨_, rfl⟩

/-- A checked pool is built exactly when it has that. -/
theorem exists_buildPoolBuilder (hdoc : doc.validate ext parsers = .ok ())
    (hd : doc.pools.lookup name = some d) :
    (∃ b, buildPoolBuilder env parsers rand doc registry name d = .ok b) ↔
      PoolReady env parsers doc registry name d := by
  obtain ⟨spec, hchecked⟩ := poolChecked_of_validate hdoc hd
  have hspec {spec' : ProbeSpec} (h : d.probe.validate parsers = .ok spec') : spec' = spec :=
    Except.ok.inj (h.symm.trans hchecked.validates)
  constructor
  · rintro ⟨b, h⟩
    obtain ⟨r, hr, h⟩ := bind_eq_ok.mp h
    obtain ⟨spec', hspec', h⟩ := bind_eq_ok.mp h
    obtain ⟨ech, hech, h⟩ := bind_eq_ok.mp h
    obtain ⟨v, hv, -⟩ := bind_eq_ok.mp h
    obtain rfl := hspec (eq_ok_of_mapError hspec')
    refine ⟨⟨r, eq_ok_of_mapError hr⟩, fun other hother ↦ ?_, fun other hother ↦ ?_⟩
    · obtain rfl := hspec hother
      exact exists_poolProbeEch.mp ⟨ech, hech⟩
    · obtain rfl := hspec hother
      exact ⟨v, eq_ok_of_mapError hv⟩
  · intro h
    obtain ⟨ech, hech⟩ := exists_poolProbeEch.mpr (h.ech spec hchecked.validates)
    rw [buildPoolBuilder]
    refine exists_bind (exists_mapError.mpr h.resolver) fun r ↦ ?_
    refine exists_bind_eq_ok.mpr ⟨spec, by rw [hchecked.validates]; rfl, ?_⟩
    refine exists_bind_eq_ok.mpr ⟨ech, hech, ?_⟩
    refine exists_bind (exists_mapError.mpr (h.verify spec hchecked.validates)) fun v ↦ ?_
    exact exists_mapError.mpr (PoolBuilder.exists_new hchecked)

theorem exists_addPoolBuilder (hdoc : doc.validate ext parsers = .ok ())
    (hready : ∀ name d, doc.pools.lookup name = some d → PoolReady env parsers doc registry name d)
    (hname : name ∈ doc.pools) :
    ∃ builders', addPoolBuilder env parsers rand doc registry builders name = .ok builders' := by
  obtain ⟨d, hd⟩ := Option.isSome_iff_exists.mp (AList.lookup_isSome.mpr hname)
  rw [addPoolBuilder, hd]
  exact exists_bind ((exists_buildPoolBuilder hdoc hd).mpr (hready name d hd)) fun _ ↦ ⟨_, rfl⟩

theorem exists_poolRef {lr : Listener × Route} (hdoc : doc.validate ext parsers = .ok ())
    (hlr : lr ∈ doc.cfg.routes) : ∃ ref, doc.cfg.poolRef lr.1 lr.2 = .ok ref := by
  obtain ⟨tpl, htpl, -⟩ := validateRoutePool_of_validate hdoc hlr
  rw [Config.poolRef]
  refine exists_bind ⟨tpl, htpl⟩ fun tpl ↦ ?_
  split
  · exact ⟨_, rfl⟩
  · exact ⟨_, rfl⟩

theorem Gathering.exists_register {lr : Listener × Route}
    (h : Gathering env parsers rand doc registry routes builders)
    (hdoc : doc.validate ext parsers = .ok ()) (hlr : lr ∈ doc.cfg.routes) :
    ∃ builders', registerRoute doc.cfg builders lr = .ok builders' := by
  obtain ⟨ref, href⟩ := exists_poolRef hdoc hlr
  rw [registerRoute]
  refine exists_bind_eq_ok.mpr ⟨ref, by rw [href]; rfl, ?_⟩
  cases ref with
  | none => exact ⟨builders, rfl⟩
  | some ref =>
    obtain ⟨pool, selectors⟩ := ref
    have hmem := (h.mem_iff pool).mpr (declared_of_reads hdoc hlr href)
    obtain ⟨b, hb⟩ := Option.isSome_iff_exists.mp (AList.lookup_isSome.mpr hmem)
    exact ⟨_, by simp only [hb]; rfl⟩

theorem Gathers.exists_spawnPool (h : Gathers env parsers rand doc registry routes name b)
    (hdoc : doc.validate ext parsers = .ok ()) (out : Map Str (StartedPool (BuiltResolver τ V) V)) :
    ∃ out', spawnPool out ⟨name, b⟩ = .ok out' := by
  obtain ⟨⟨d, b₀, hd, hb₀, heq⟩, -, -⟩ := h
  obtain ⟨spec, hchecked⟩ := poolChecked_of_validate hdoc hd
  have hnat64 : b.nat64 = d.nat64 := by
    obtain ⟨-, hsame⟩ := fields_of_buildPoolBuilder hb₀
    rw [heq]
    exact hsame
  rw [spawnPool]
  split_ifs with hused
  · refine exists_bind (exists_mapError.mpr (PoolBuilder.exists_spawn ?_)) fun _ ↦ ⟨_, rfl⟩
    rw [hnat64]
    exact hchecked.prefixes
  · exact ⟨out, rfl⟩

theorem exists_gathering (hdoc : doc.validate ext parsers = .ok ())
    (hready : ∀ name d, doc.pools.lookup name = some d →
      PoolReady env parsers doc registry name d) :
    ∃ tables builders, (doc.pools.keys.insertionSort (· ≤ ·)).foldlM
        (addPoolBuilder env parsers rand doc registry) ∅ = .ok tables ∧
      doc.cfg.routes.foldlM (registerRoute doc.cfg) tables = .ok builders ∧
      Gathering env parsers rand doc registry doc.cfg.routes builders := by
  have hadd : ∃ tables, (doc.pools.keys.insertionSort (· ≤ ·)).foldlM
      (addPoolBuilder env parsers rand doc registry) ∅ = .ok tables := by
    refine exists_foldlM (I := fun _ ↦ True) trivial fun name hname builders _ ↦ ?_
    rw [List.mem_insertionSort, ← AList.mem_keys] at hname
    obtain ⟨builders', hbuilders'⟩ := exists_addPoolBuilder hdoc hready hname
    exact ⟨builders', hbuilders', trivial⟩
  obtain ⟨tables, htables⟩ := hadd
  have hgathering := gathering_of_tables htables
  have hregister : ∃ builders, doc.cfg.routes.foldlM (registerRoute doc.cfg) tables =
      .ok builders := by
    refine exists_foldlM
      (I := fun builders ↦ ∃ routes, Gathering env parsers rand doc registry routes builders)
      ⟨[], hgathering⟩ ?_
    rintro lr hlr builders ⟨routes, h⟩
    obtain ⟨builders', hbuilders'⟩ := h.exists_register hdoc hlr
    exact ⟨builders', hbuilders', _, h.register hbuilders'⟩
  obtain ⟨builders, hbuilders⟩ := hregister
  refine ⟨tables, builders, htables, hbuilders, ?_⟩
  exact holds_of_foldlM (I := Gathering env parsers rand doc registry) hbuilders hgathering
    fun _ _ _ _ hdone hone ↦ hdone.register hone

/-- **When the pools are built.** Of a document that the load-time check accepts: exactly when
every declared pool, also one that no route reads, has its resolvers and its verifier. -/
theorem pools_ready_iff (hdoc : doc.validate ext parsers = .ok ()) :
    (∃ pools, env.buildPools parsers rand doc registry = .ok pools) ↔
      ∀ name d, doc.pools.lookup name = some d → PoolReady env parsers doc registry name d := by
  rw [StartEnv.buildPools]
  split_ifs with hempty
  · refine iff_of_true ⟨∅, rfl⟩ fun name d hd ↦ ?_
    have hmem : name ∈ doc.pools.keys := AList.mem_keys.mp (AList.lookup_isSome.mp (hd ▸ rfl))
    rw [hempty] at hmem
    exact absurd hmem List.not_mem_nil
  · constructor
    · rintro ⟨pools, h⟩ name d hd
      -- the builders show it: they are made of all tables, before any route is looked at
      obtain ⟨tables, htables, -⟩ := bind_eq_ok.mp h
      have hgathering := gathering_of_tables htables
      have hmem := (hgathering.mem_iff name).mpr (AList.lookup_isSome.mp (hd ▸ rfl))
      obtain ⟨b, hb⟩ := Option.isSome_iff_exists.mp (AList.lookup_isSome.mpr hmem)
      obtain ⟨d', b₀, hd', hb₀, -⟩ := (hgathering.gathers name b hb).built
      obtain rfl := Option.some.inj (hd.symm.trans hd')
      exact (exists_buildPoolBuilder hdoc hd).mp ⟨b₀, hb₀⟩
    · intro hready
      obtain ⟨tables, builders, htables, hbuilders, hall⟩ := exists_gathering hdoc hready
      refine exists_bind_eq_ok.mpr ⟨tables, htables, ?_⟩
      refine exists_bind_eq_ok.mpr ⟨builders, hbuilders, ?_⟩
      -- what remains is starting those that are used, and the tables were checked for that
      refine exists_foldlM (I := fun _ ↦ True) trivial fun e he out _ ↦ ?_
      have hgathers := hall.gathers e.1 e.2 (AList.mem_lookup_iff.mpr he)
      obtain ⟨out', hout'⟩ := hgathers.exists_spawnPool hdoc out
      exact ⟨out', hout', trivial⟩

end All

/-! ## One pool, read twice -/

theorem pools_ready_iff_twice :
    (∃ pools, willingStart.buildPools .refusing (fun _ _ ↦ []) pooledDocument ∅ = .ok pools) ∧
      ∀ name d, pooledDocument.pools.lookup name = some d →
        PoolReady willingStart PoolParsers.refusing pooledDocument ∅ name d :=
  ⟨exists_pools_pooledDocument,
    (pools_ready_iff validate_pooledDocument).mp exists_pools_pooledDocument⟩

end SniGate
