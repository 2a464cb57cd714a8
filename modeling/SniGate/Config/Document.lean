import SniGate.Config.Pools
import SniGate.Config.ResolverOrder
import SniGate.Config.Validate
import SniGate.Dns.Spec

/-!
# The whole document

`Config` keeps of the resolver and pool tables only what routes are checked against. A `Document`
has these tables in full, and its fields say that the two agree. `Document.validate` is the whole
load-time check: that of `Config`, with the checks of the two tables in their places.

What an accepted document vouches for is stated here as far as starting up relies on it: references
lead to declared resolvers, endpoints parse, targets parse, and probes have their shape.

## Design choices

That two tables agree is a field of the document, so one whose parts contradict each other cannot
be written. The whole check is put together from the same functions as that of `Config`, and what
it vouches for is one lemma for each table, in the order in which the check reads them.
-/

namespace SniGate

/-! ## Resolver tables -/

/-- `ResolverDef`, with every field. -/
structure FullResolverDef extends ResolverDef where
  endpoint : Str
  upstream : Option Str := none
  overrideSni : Option Str := none
  verify : Option VerifyConfig := none
  addressFamily : Option AddressFamily := none
  nat64Prefix : Option Str := none
  connectTimeout : Option Duration := none
deriving DecidableEq, Repr

/-- The fully-resolved settings for one named resolver. -/
structure EffectiveResolver where
  name : Str
  endpoint : Str
  upstream : Option Str
  sniPolicy : SniPolicy
  bootstrap : Option Str
  addressFamily : AddressFamily
  nat64Prefix : Option Str
  connectTimeout : Duration
  ech : Option EffectiveEch
  requireEch : Bool
  echRefresh : Duration
  echResolver : Option Str
  verify : EffectiveVerify
deriving DecidableEq, Repr

/-- `ResolverDef::effective`: who resolves the endpoint and who fetches its ECH configuration are
never inherited, and neither is the presence of an ECH block. -/
def FullResolverDef.effective (d : FullResolverDef) (name : Str) (global : Global) :
    EffectiveResolver :=
  { name
    endpoint := d.endpoint
    upstream := d.upstream
    sniPolicy := .resolve d.overrideSni
    bootstrap := d.bootstrap
    addressFamily := (firstSome [d.addressFamily, global.common.addressFamily]).getD .dual
    nat64Prefix := firstSome [d.nat64Prefix, global.common.nat64Prefix]
    connectTimeout :=
      (firstSome [d.connectTimeout, global.common.connectTimeout]).getD defaultConnectTimeout
    ech := d.ech.map fun e ↦ e.inherit global
    requireEch := (d.ech.bind fun e ↦ firstSome
      [firstField [some e, global.ech] EchConfig.requireEch, global.common.requireEch]).getD true
    echRefresh := (d.ech.bind fun e ↦ firstSome
      [firstField [some e, global.ech] EchConfig.echRefresh,
        global.common.echRefresh]).getD defaultEchRefresh
    echResolver := d.ech.bind EchConfig.echResolver
    verify := .resolve d.verify global }

/-- `Endpoint::is_tls`. -/
def Endpoint.isTls : Endpoint → Bool
  | doh .. | dot .. => true
  | system | plain .. => false

/-! ## Documents -/

/-- The document, with its resolver and pool tables in full. -/
structure Document where
  cfg : Config
  resolvers : Map Str FullResolverDef
  pools : Map Str PoolDef
  resolvers_eq : ∀ name,
    cfg.resolvers.lookup name = (resolvers.lookup name).map FullResolverDef.toResolverDef
  pools_eq : ∀ name, cfg.pools.lookup name = (pools.lookup name).map fun p ↦ p.targets.length

namespace Document

variable (doc : Document)

/-- `Config::resolve_resolver_ref`. -/
def resolveResolverRef (spec : Str) : Except ConfigError ResolverDef :=
  match stripStart ['@'] (trim spec) with
  | none =>
    refuse ["invalid resolver reference ".toList, debugStr spec, " (must start with @)".toList]
  | some [] => refuse ["resolver reference cannot be bare '@' (expected @<name>)".toList]
  | some name => doc.cfg.resolverDef name

/-- `Config::effective_resolver`. -/
def effectiveResolver (name : Str) : Except ConfigError EffectiveResolver :=
  match doc.resolvers.lookup name with
  | some d => .ok (d.effective name doc.cfg.global)
  | none =>
    refuse ["unknown resolver ".toList, debugStr name, " (no matching [resolvers.".toList, name,
      "])".toList]

/-- The resolver specs of generic settings. -/
def commonRefs (origin : Str) (c : CommonOpts) : List (Str × Str) :=
  [c.resolver, c.echResolver, c.addrResolver].filterMap fun s ↦ s.map fun s ↦ (origin, s)

/-- The resolver spec of an ECH block. -/
def echRef (origin : Str) (ech : Option EchConfig) : List (Str × Str) :=
  ((ech.bind EchConfig.echResolver).map fun s ↦ (origin, s)).toList

/-- The resolver specs of one listener and its routes. -/
def listenerRefs (l : Listener) : List (Str × Str) :=
  let origin := "listener ".toList ++ l.addr.toStr
  commonRefs origin l.common ++ echRef (origin ++ " [ech]".toList) l.ech ++
    l.allRoutes.flatMap fun r ↦
      let ro := "route ".toList ++ r.label
      commonRefs ro r.common ++ echRef (ro ++ " [ech]".toList) r.ech

/-- Every resolver spec of the document, with where it is written. -/
def resolverRefs : List (Str × Str) :=
  commonRefs "[global]".toList doc.cfg.global.common ++
    echRef "[global.ech]".toList doc.cfg.global.ech ++
    doc.cfg.templates.entries.flatMap (fun e ↦
      commonRefs ("[templates.".toList ++ e.1 ++ "]".toList) e.2.common ++
        echRef ("[templates.".toList ++ e.1 ++ ".ech]".toList) e.2.ech) ++
    doc.cfg.listeners.flatMap listenerRefs ++
    doc.resolvers.entries.flatMap fun e ↦
      let origin := "[resolvers.".toList ++ e.1 ++ "]".toList
      (e.2.bootstrap.map fun s ↦ (origin ++ " bootstrap".toList, s)).toList ++
        echRef (origin ++ ".ech ech_resolver".toList) e.2.ech

/-- Check that a spec, if it is a reference, names a declared resolver. -/
def checkRef (origin spec : Str) : Except ConfigError Unit :=
  if isResolverRef spec then
    match doc.resolveResolverRef spec with
    | .ok _ => .ok ()
    | .error e => refuse [origin, ": ".toList, e.display]
  else .ok ()

/-- The ECH checks of one resolver. -/
def validateResolverEch (name : Str) (eff : EffectiveResolver) : Except ConfigError Unit :=
  match eff.ech with
  | none => .ok ()
  | some ech => do
    refuseIf ((ech.mode = .static ∨ ech.mode = .dohWithFallback) ∧ ech.config = none)
      ["[resolvers.".toList, name, ".ech]: mode = \"".toList,
        if ech.mode = .static then "static".toList else "doh-with-fallback".toList,
        "\" requires a base64 \x60config\x60, resolvable from [resolvers.".toList, name,
        ".ech] or [global.ech]".toList]
    let spec := eff.echResolver.getD []
    refuseIf (isResolverRef spec ∧ stripStart ['@'] spec = some name)
      ["[resolvers.".toList, name, ".ech]: ech_resolver = ".toList, debugStr spec,
        " would have this resolver fetch its own ECHConfig through itself; name a different ".toList,
        "resolver, or omit it to use OS resolution".toList]

/-- The policy of one resolver: checked where its endpoint presents a certificate, not to be written
where it presents none. -/
def validateResolverVerify (ext : Externals) (scope : Str) (d : FullResolverDef)
    (eff : EffectiveResolver) (endpoint : Endpoint) : Except ConfigError Unit :=
  if endpoint.isTls then eff.verify.validate ext scope
  else
    refuseIf d.verify.isSome
      [scope, ": [verify] configures the certificate an endpoint must present, but ".toList,
        debugStr eff.endpoint, " performs no TLS handshake. Use an https:// (DoH) or ".toList,
        "tls:// (DoT) endpoint".toList]

/-- Check one declared resolver. -/
def validateResolver (ext : Externals) (name : Str) (d : FullResolverDef) :
    Except ConfigError Unit := do
  let scope := "[resolvers.".toList ++ name ++ "]".toList
  refuseIf (trim d.endpoint = [])
    [scope, ": \x60endpoint\x60 must not be empty (use \"system\" for the OS resolver)".toList]
  refuseIf (isResolverRef d.endpoint)
    [scope, ": \x60endpoint\x60 must be an inline spec, not a reference to another resolver (got ".toList,
      debugStr d.endpoint, "); use \x60bootstrap\x60 to say who resolves this endpoint's own address".toList]
  let eff := d.effective name doc.cfg.global
  match Endpoint.parse eff.endpoint with
  | .error e => refuse [scope, ": endpoint ".toList, debugStr eff.endpoint, ": ".toList, e]
  | .ok endpoint =>
    validateResolverVerify ext scope d eff endpoint
    validateResolverEch name eff
    let spec := eff.bootstrap.getD []
    refuseIf (isResolverRef spec ∧ stripStart ['@'] spec = some name)
      [scope, ": bootstrap = ".toList, debugStr spec,
        " would have this resolver resolve its own address through itself; name a different ".toList,
        "resolver, or omit it to use OS resolution".toList]

/-- `Config::validate_resolvers`. -/
def validateResolvers (ext : Externals) : Except ConfigError Unit := do
  doc.resolverRefs.forM fun r ↦ doc.checkRef r.1 r.2
  doc.resolvers.entries.forM fun e ↦ doc.validateResolver ext e.1 e.2
  let _ ← doc.cfg.resolverBuildOrder

/-! ## Pool tables -/

/-- `Config::validate_pool_probe`. -/
def validatePoolProbe (ext : Externals) (parsers : PoolParsers) (poolName : Str)
    (probe : ProbeDef) : Except ConfigError Unit := do
  let scope := "[pools.".toList ++ poolName ++ ".probe]".toList
  let spec ← (probe.validate parsers).mapError fun e ↦ .invalid (scope ++ ": ".toList ++ e)
  if let some ech := spec.ech then
    let eff := EffectiveProbeEch.resolve ech doc.cfg.global
    let echScope := "[pools.".toList ++ poolName ++ ".probe.ech]".toList
    refuseIf ((eff.settings.mode = .static ∨ eff.settings.mode = .dohWithFallback) ∧
        eff.settings.config = none)
      [echScope, ": mode ".toList, eff.settings.mode.debug,
        " requires an inline \x60config\x60 (set it here or in [global.ech])".toList]
    eff.echResolver.toList.forM (doc.checkRef echScope)
  if spec.handshakes then
    (EffectiveVerify.resolve spec.verify doc.cfg.global).validate ext scope

/-- Check one target. -/
def validateTarget (parsers : PoolParsers) (poolName : Str) (i : ℕ) (t : TargetDef) :
    Except ConfigError Unit := do
  let at_ := ["[pools.".toList, poolName, "]: targets[".toList, decimal i, "]".toList]
  match TargetSpec.parse parsers t.spec with
  | .error e => refuse (at_ ++ [": ".toList, e])
  | .ok _ => t.tags.forM fun tag ↦ refuseIf (trim tag = []) (at_ ++ [" has an empty tag".toList])

/-- Check the NAT64 table of a pool. -/
def validatePoolNat64 (poolName : Str) (targets : ℕ) (n : PoolNat64Def) :
    Except ConfigError Unit := do
  let scope := "[pools.".toList ++ poolName ++ ".nat64]".toList
  refuseIf (n.prefixes = []) [scope, ": \x60prefixes\x60 must not be empty".toList]
  n.prefixes.forM fun p ↦
    refuseIf (Nat64Prefix.parse p = none) [scope, ": prefix ".toList, debugStr p]
  (n.from_.getD []).forM fun i ↦
    refuseIf (targets ≤ i)
      [scope, ": from index ".toList, decimal i, " is out of bounds (targets has ".toList,
        decimal targets, " entries)".toList]
  refuseIf (n.timeout = some 0) [scope, ": timeout must be greater than zero".toList]

/-- Check one pool. -/
def validatePool (ext : Externals) (parsers : PoolParsers) (name : Str) (pool : PoolDef) :
    Except ConfigError Unit := do
  let scope := "[pools.".toList ++ name ++ "]".toList
  refuseIf (pool.targets = []) [scope, ": \x60targets\x60 must not be empty".toList]
  pool.targets.zipIdx.forM fun t ↦ validateTarget parsers name t.2 t.1
  pool.fallback.toList.forM fun f ↦
    refuseIf (pool.targets.length ≤ f)
      [scope, ": fallback = ".toList, decimal f, " is out of bounds (targets has ".toList,
        decimal pool.targets.length, " entries, so valid indices are 0..=".toList,
        decimal (pool.targets.length - 1), ")".toList]
  doc.validatePoolProbe ext parsers name pool.probe
  pool.nat64.toList.forM (validatePoolNat64 name pool.targets.length)
  pool.resolver.toList.forM (doc.checkRef scope)

/-- `Config::validate_pools`. -/
def validatePools (ext : Externals) (parsers : PoolParsers) : Except ConfigError Unit := do
  doc.pools.entries.forM fun e ↦ doc.validatePool ext parsers e.1 e.2
  doc.cfg.listeners.forM fun l ↦ l.allRoutes.forM fun r ↦ do
    let tpl ← doc.cfg.templateFor r.useTemplate
    doc.cfg.validateRoutePool r tpl l.addr.port

/-- `Config::validate`. -/
def validate (ext : Externals) (parsers : PoolParsers) : Except ConfigError Unit := do
  refuseIf (doc.cfg.listeners = []) ["at least one [[listener]] is required".toList]
  doc.cfg.validateVerifyDefaults ext
  doc.cfg.validateListeners ext doc.cfg.listeners
  doc.cfg.validateValidity
  doc.validateResolvers ext
  doc.cfg.validateRegexes ext
  doc.validatePools ext parsers

/-! ## What an accepted document vouches for -/

section Accepted

variable {doc : Document} {ext : Externals} {parsers : PoolParsers} {name : Str}
  {d : FullResolverDef} {p : PoolDef}

theorem mem_entries_of_lookup {K V : Type} [DecidableEq K] {m : Map K V} {k : K} {v : V}
    (h : m.lookup k = some v) : ⟨k, v⟩ ∈ m.entries :=
  AList.mem_lookup_iff.mp h

theorem validateResolvers_of_validate (h : doc.validate ext parsers = .ok ()) :
    doc.validateResolvers ext = .ok () := by
  obtain ⟨_, -, h⟩ := bind_eq_ok.mp h
  obtain ⟨_, -, h⟩ := bind_eq_ok.mp h
  obtain ⟨_, -, h⟩ := bind_eq_ok.mp h
  obtain ⟨_, -, h⟩ := bind_eq_ok.mp h
  obtain ⟨_, hresolvers, -⟩ := bind_eq_ok.mp h
  exact hresolvers

theorem validatePools_of_validate (h : doc.validate ext parsers = .ok ()) :
    doc.validatePools ext parsers = .ok () := by
  obtain ⟨_, -, h⟩ := bind_eq_ok.mp h
  obtain ⟨_, -, h⟩ := bind_eq_ok.mp h
  obtain ⟨_, -, h⟩ := bind_eq_ok.mp h
  obtain ⟨_, -, h⟩ := bind_eq_ok.mp h
  obtain ⟨_, -, h⟩ := bind_eq_ok.mp h
  obtain ⟨_, -, hpools⟩ := bind_eq_ok.mp h
  exact hpools

/-- The references resolve and none leads back. -/
theorem exists_order_of_validate (h : doc.validate ext parsers = .ok ()) :
    ∃ order, doc.cfg.resolverBuildOrder = .ok order := by
  obtain ⟨_, -, h⟩ := bind_eq_ok.mp (validateResolvers_of_validate h)
  obtain ⟨_, -, h⟩ := bind_eq_ok.mp h
  obtain ⟨order, horder, -⟩ := bind_eq_ok.mp h
  exact ⟨order, horder⟩

theorem checkRef_of_validate (h : doc.validate ext parsers = .ok ()) {r : Str × Str}
    (hr : r ∈ doc.resolverRefs) : doc.checkRef r.1 r.2 = .ok () := by
  obtain ⟨_, hrefs, -⟩ := bind_eq_ok.mp (validateResolvers_of_validate h)
  exact forM_eq_ok.mp hrefs r hr

theorem validateResolver_of_validate (h : doc.validate ext parsers = .ok ())
    (hd : doc.resolvers.lookup name = some d) : doc.validateResolver ext name d = .ok () := by
  obtain ⟨_, -, h⟩ := bind_eq_ok.mp (validateResolvers_of_validate h)
  obtain ⟨_, hall, -⟩ := bind_eq_ok.mp h
  exact forM_eq_ok.mp hall ⟨name, d⟩ (mem_entries_of_lookup hd)

theorem validatePool_of_validate (h : doc.validate ext parsers = .ok ())
    (hp : doc.pools.lookup name = some p) : doc.validatePool ext parsers name p = .ok () := by
  obtain ⟨_, hall, -⟩ := bind_eq_ok.mp (validatePools_of_validate h)
  exact forM_eq_ok.mp hall ⟨name, p⟩ (mem_entries_of_lookup hp)

/-- What is vouched for of one resolver. -/
structure ResolverChecked (ext : Externals) (name : Str) (d : FullResolverDef)
    (eff : EffectiveResolver) (endpoint : Endpoint) : Prop where
  parses : Endpoint.parse eff.endpoint = .ok endpoint
  verify : validateResolverVerify ext ("[resolvers.".toList ++ name ++ "]".toList) d eff endpoint =
    .ok ()
  ech : ∀ settings ∈ eff.ech, settings.mode = .static → settings.config.isSome

theorem resolverChecked_of_validate (h : doc.validate ext parsers = .ok ())
    (hd : doc.resolvers.lookup name = some d) :
    ∃ endpoint, ResolverChecked ext name d (d.effective name doc.cfg.global) endpoint := by
  have h := validateResolver_of_validate h hd
  obtain ⟨_, -, h⟩ := bind_eq_ok.mp h
  obtain ⟨_, -, h⟩ := bind_eq_ok.mp h
  cases hendpoint : Endpoint.parse (d.effective name doc.cfg.global).endpoint with
  | error e =>
    simp only [hendpoint] at h
    exact absurd h (by simp [refuse])
  | ok endpoint =>
    simp only [hendpoint] at h
    obtain ⟨_, hverify, h⟩ := bind_eq_ok.mp h
    obtain ⟨_, hech, -⟩ := bind_eq_ok.mp h
    refine ⟨endpoint, hendpoint, hverify, fun settings hsettings hmode ↦ ?_⟩
    rw [validateResolverEch, Option.mem_def.mp hsettings] at hech
    obtain ⟨_, hconfig, -⟩ := bind_eq_ok.mp hech
    have hne := failIf_eq_ok.mp hconfig
    rw [Option.isSome_iff_ne_none]
    exact fun hnone ↦ hne ⟨.inl hmode, hnone⟩

end Accepted

end Document

end SniGate
