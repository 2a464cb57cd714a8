import SniGate.Startup.Pools

/-!
# What a pool takes from its table

A pool is built from a table of the document and started from its builder. Between the two its
targets are read and sampled, its probe is reduced and planned, and its NAT64 table is projected.
`PoolConfigured` says of a running pool, field by field, what in it comes from where; and
`poolConfigured_of_spawn` that this holds of every pool that is built and started.

## Design choices

`PoolConfigured` speaks of the running pool and of its table only, and not of the builder in
between, which is gone by then. A default is given where it is used, so that what a table leaves out
can be read off. What is not the table's own, the resolvers and the verifier, is what the two
factories answer for the spec and the policy that the table writes; samples are what the given random numbers
draw.
-/

namespace SniGate

theorem getElem?_of_mapM {ε α β : Type} {f : α → Except ε β} {xs : List α} {ys : List β}
    (h : xs.mapM f = .ok ys) : ys.length = xs.length ∧
      ∀ (i : ℕ) (x : α), xs[i]? = some x → ∃ y, ys[i]? = some y ∧ f x = .ok y := by
  have hall := Config.mapM_eq_ok.mp h
  refine ⟨hall.length_eq.symm, fun i x hx ↦ ?_⟩
  obtain ⟨hi, rfl⟩ := List.getElem?_eq_some_iff.mp hx
  have hi' : i < ys.length := hall.length_eq ▸ hi
  exact ⟨ys[i], List.getElem?_eq_getElem hi', hall.get hi hi'⟩

variable {τ V C : Type}

/-! ## Probes -/

section Probes

variable (env : StartEnv τ V C) (doc : Document) (registry : Registry τ V) (name : Str)
  (d : PoolDef) (spec : ProbeSpec)

/-- Where the client configuration of a probe's handshakes comes from: its own `verify` table over
the global one, and its own `[ech]` block, whose configuration is looked up through the resolver
that the block names, or else through that of the pool. -/
def HandshakesBy (port : UInt16) (alpn : List Bytes) (source : TlsSource (BuiltResolver τ V) V) :
    Prop :=
  ∃ verify, env.getVerifier (.resolve spec.verify doc.cfg.global)
      ("[pools.".toList ++ name ++ ".probe]".toList) = .ok verify ∧
    match spec.ech with
    | none => source = .plain verify alpn
    | some block => ∃ resolver,
      env.getResolver registry (block.echResolver.getD (d.resolver.getD "system".toList)) .dual =
        .ok resolver ∧
      source = .ech { settings := block.inherit doc.cfg.global, upstreamPort := port, resolver }
        verify (EffectiveProbeEch.resolve block doc.cfg.global).echRefresh alpn
        (EffectiveProbeEch.resolve block doc.cfg.global).requireEch
        (block.inherit doc.cfg.global).maxRetries

/-- What a plan does is what its probe's mode says. -/
def KindAs (port : UInt16) : ProbeSpec → ProbeKind (BuiltResolver τ V) V → Prop
  | .tcp .., .tcp => True
  | .tls _ sni .., .tls probe =>
    probe.sni = sni ∧ HandshakesBy env doc registry name d spec port [] probe.config
  | .http url expected .., .http request expectStatus tls =>
    ∃ host, url.host = some host ∧ request = httpRequest url host.str ∧ expectStatus = expected ∧
      (tls.isSome ↔ url.scheme = "https".toList) ∧
      ∀ probe ∈ tls, probe.sni = tlsNameFromUrl host ∧
        HandshakesBy env doc registry name d spec port httpProbeAlpn probe.config
  | _, _ => False

/-- A plan is as its probe says: the port and the deadline it writes, or those of its mode. -/
structure ProbesAs (plan : ProbePlan (BuiltResolver τ V) V) : Prop where
  port : match spec with
    | .tcp port _ | .tls port .. => plan.port = port.getD 443
    | .http url .. => url.portOrKnownDefault = some plan.port
  timeout : plan.timeout = match spec with
    | .tcp _ timeout | .tls _ _ timeout .. => timeout.getD (fromSecs 3)
    | .http _ _ timeout .. => timeout.getD (fromSecs 5)
  kind : KindAs env doc registry name d spec plan.port spec plan.kind

end Probes

section BuiltProbes

variable {env : StartEnv τ V C} {doc : Document} {registry : Registry τ V} {name own : Str}
  {d : PoolDef} {spec : ProbeSpec} {ech : Option (ProbeEchSetup (BuiltResolver τ V))} {verify : V}
  {plan : ProbePlan (BuiltResolver τ V) V} {port : UInt16} {alpn : List Bytes} {sni : Str}

theorem handshakesBy_of_build
    (hech : poolProbeEch env doc registry name (d.resolver.getD "system".toList) spec = .ok ech)
    (hverify : env.getVerifier (.resolve spec.verify doc.cfg.global)
      ("[pools.".toList ++ name ++ ".probe]".toList) = .ok verify) :
    HandshakesBy env doc registry name d spec port alpn
      (buildTlsProbe sni alpn port ech verify).config := by
  refine ⟨verify, hverify, ?_⟩
  rw [poolProbeEch.eq_def] at hech
  cases hblock : spec.ech with
  | none =>
    rw [hblock] at hech
    obtain rfl := Except.ok.inj hech
    rfl
  | some block =>
    rw [hblock] at hech
    obtain ⟨resolver, hresolver, hech⟩ := bind_eq_ok.mp hech
    obtain rfl := Except.ok.inj hech
    exact ⟨resolver, eq_ok_of_mapError hresolver, rfl⟩

/-- **The plan of a probe.** -/
theorem probesAs_of_build
    (hech : poolProbeEch env doc registry name (d.resolver.getD "system".toList) spec = .ok ech)
    (hverify : env.getVerifier (poolVerifyPolicy doc spec)
      ("[pools.".toList ++ name ++ ".probe]".toList) = .ok verify)
    (hplan : buildProbePlan spec ech verify = some plan) :
    ProbesAs env doc registry name d spec plan := by
  have hby (hhandshakes : spec.handshakes) (sni : Str) (alpn : List Bytes) (port : UInt16) :
      HandshakesBy env doc registry name d spec port alpn
        (buildTlsProbe sni alpn port ech verify).config := by
    rw [poolVerifyPolicy, if_pos hhandshakes] at hverify
    exact handshakesBy_of_build hech hverify
  cases spec with
  | tcp port timeout =>
    obtain rfl := Option.some.inj hplan
    exact ⟨rfl, rfl, trivial⟩
  | tls port sni timeout block policy =>
    obtain rfl := Option.some.inj hplan
    exact ⟨rfl, rfl, rfl, hby rfl sni [] _⟩
  | http url expected timeout block policy =>
    rw [buildProbePlan] at hplan
    obtain ⟨host, hhost, hplan⟩ := Option.bind_eq_some_iff.mp hplan
    obtain ⟨port, hport, hplan⟩ := Option.bind_eq_some_iff.mp hplan
    obtain rfl := Option.some.inj hplan
    refine ⟨hport, rfl, host, hhost, rfl, rfl, ?_, fun probe hprobe ↦ ?_⟩
    · split_ifs with hscheme
      · exact iff_of_true rfl hscheme
      · exact iff_of_false (by simp) hscheme
    · split_ifs at hprobe with hscheme
      · obtain rfl := Option.some.inj hprobe
        exact ⟨rfl, hby (decide_eq_true hscheme) _ _ _⟩
      · exact absurd hprobe (by simp)

end BuiltProbes

/-! ## Pools -/

/-- A target is as it is written at its place: its specification, its own tags, and the sample that
is drawn for it. -/
structure TargetAs (parsers : PoolParsers) (rand : ℕ → List ℕ) (index : ℕ) (t : TargetDef)
    (target : Target) : Prop where
  index_eq : target.index = index
  spec : TargetSpec.parse parsers t.spec = .ok target.spec
  customTags : target.customTags = t.tags.map trim
  sampled : target.sampled = target.spec.draw (rand index)

/-- The NAT64 projection is that of the table: its prefixes, its targets, and its deadline or that
of the probe. -/
def ProjectsAs {ρ : Type} (p : StartedPool ρ V) : Option PoolNat64Def → Prop
  | none => p.nat64 = none ∧ p.nat64Timeout = none
  | some n => (∃ projection, p.nat64 = some projection ∧
      projection.prefixes.map some = n.prefixes.map Nat64Prefix.parse ∧
      projection.from_ = n.from_) ∧ p.nat64Timeout = some (n.timeout.getD p.probe.timeout)

/-- **A pool runs as its table says.** -/
structure PoolConfigured (env : StartEnv τ V C) (parsers : PoolParsers) (rand : ℕ → List ℕ)
    (doc : Document) (registry : Registry τ V) (name : Str) (d : PoolDef)
    (p : StartedPool (BuiltResolver τ V) V) : Prop where
  name_eq : p.name = name
  length_targets : p.targets.length = d.targets.length
  targets : ∀ (i : ℕ) (t : TargetDef), d.targets[i]? = some t →
    ∃ target, p.targets[i]? = some target ∧ TargetAs parsers rand i t target
  fallback : p.fallback = d.fallback
  timing : p.timing = d.probe.timing
  parameters : d.probe.validateParameters = .ok ()
  probe : ∃ spec, d.probe.validate parsers = .ok spec ∧
    ProbesAs env doc registry name d spec p.probe
  nat64 : ProjectsAs p d.nat64
  resolver : env.getResolver registry (d.resolver.getD "system".toList) .dual = .ok p.resolver

section Pools

variable {env : StartEnv τ V C} {parsers : PoolParsers} {rand : Str → ℕ → List ℕ}
  {doc : Document} {registry : Registry τ V} {name : Str} {d : PoolDef}
  {b : PoolBuilder (BuiltResolver τ V) V} {p : StartedPool (BuiltResolver τ V) V}

theorem targetAs_of_readTargets (draws : ℕ → List ℕ) {targets : List (TargetSpec × List Str)}
    (h : d.targets.zipIdx.mapM (PoolBuilder.readTarget parsers name) = .ok targets) :
    (buildTargets targets draws).length = d.targets.length ∧
      ∀ (i : ℕ) (t : TargetDef), d.targets[i]? = some t →
        ∃ target, (buildTargets targets draws)[i]? = some target ∧
          TargetAs parsers draws i t target := by
  obtain ⟨hlength, hat⟩ := getElem?_of_mapM h
  refine ⟨by rw [buildTargets, List.length_mapIdx, hlength, List.length_zipIdx], fun i t ht ↦ ?_⟩
  obtain ⟨read, hread, hok⟩ := hat i (t, i) (by rw [List.getElem?_zipIdx, ht]; simp)
  obtain ⟨spec, hspec, hok⟩ := bind_eq_ok.mp hok
  obtain rfl := Except.ok.inj hok
  refine ⟨_, by rw [buildTargets, List.getElem?_mapIdx, hread]; rfl, rfl, ?_, rfl, rfl⟩
  exact eq_ok_of_mapError hspec

theorem projectsAs_of_spawn (h : b.spawn = .ok p) : ProjectsAs p b.nat64 := by
  obtain ⟨nat64, hnat64, h⟩ := bind_eq_ok.mp h
  obtain rfl := Except.ok.inj h
  cases htable : b.nat64 with
  | none =>
    rw [htable] at hnat64
    exact ⟨(Except.ok.inj hnat64).symm, rfl⟩
  | some n =>
    rw [htable] at hnat64
    obtain ⟨projection, hprojection, hnat64⟩ := bind_eq_ok.mp hnat64
    obtain rfl := Except.ok.inj hnat64
    obtain ⟨nat64, hread, hprojection⟩ := bind_eq_ok.mp hprojection
    obtain rfl := Except.ok.inj hprojection
    refine ⟨⟨_, rfl, ?_, rfl⟩, rfl⟩
    obtain ⟨hlength, hat⟩ := getElem?_of_mapM hread
    refine List.ext_getElem? fun i ↦ ?_
    rw [List.getElem?_map, List.getElem?_map]
    cases htext : n.prefixes[i]? with
    | none =>
      rw [List.getElem?_eq_none_iff] at htext
      rw [List.getElem?_eq_none_iff.mpr (le_of_eq_of_le hlength htext)]
      rfl
    | some text =>
      obtain ⟨prefix64, hentry, hparse⟩ := hat i text htext
      rw [hentry]
      cases hp : Nat64Prefix.parse text with
      | none => simp [hp] at hparse
      | some q =>
        simp only [hp, Except.ok.injEq] at hparse
        simp [hp, hparse]

/-- A pool that is built from a table and started, whatever views it was given in between, is
configured by the table. -/
theorem poolConfigured_of_spawn
    (hbuild : buildPoolBuilder env parsers rand doc registry name d = .ok b)
    {views : List (List Selector)}
    (hspawn : ({ b with views } : PoolBuilder (BuiltResolver τ V) V).spawn = .ok p) :
    PoolConfigured env parsers (rand name) doc registry name d p := by
  obtain ⟨resolver, hresolver, hbuild⟩ := bind_eq_ok.mp hbuild
  obtain ⟨spec, hspec, hbuild⟩ := bind_eq_ok.mp hbuild
  obtain ⟨ech, hech, hbuild⟩ := bind_eq_ok.mp hbuild
  obtain ⟨verify, hverify, hbuild⟩ := bind_eq_ok.mp hbuild
  obtain ⟨_, hparameters, hbuild⟩ := bind_eq_ok.mp (eq_ok_of_mapError hbuild)
  obtain ⟨targets, htargets, hbuild⟩ := bind_eq_ok.mp hbuild
  cases hplan : buildProbePlan spec ech verify with
  | none => simp [hplan] at hbuild
  | some plan =>
    rw [hplan] at hbuild
    obtain rfl := Except.ok.inj hbuild
    have hprobes := probesAs_of_build hech (eq_ok_of_mapError hverify) hplan
    have hprojects := projectsAs_of_spawn hspawn
    obtain ⟨nat64, -, hspawn⟩ := bind_eq_ok.mp hspawn
    obtain rfl := Except.ok.inj hspawn
    obtain ⟨hlength, hat⟩ := targetAs_of_readTargets (rand name) htargets
    exact {
      name_eq := rfl
      length_targets := hlength
      targets := hat
      fallback := rfl
      timing := rfl
      parameters := eq_ok_of_mapError hparameters
      probe := ⟨spec, eq_ok_of_mapError hspec, hprobes⟩
      nat64 := hprojects
      resolver := eq_ok_of_mapError hresolver }

end Pools

end SniGate
