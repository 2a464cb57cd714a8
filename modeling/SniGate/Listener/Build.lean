import SniGate.Certscope.Scope
import SniGate.Config.Validate
import SniGate.Ech.Provider

/-!
# Building routes and listeners

A route is built from its effective settings: its upstream, its verifier, its ECH provider, its
pinned certificate, and its forwarding target, which is what its certificate scope is computed from.
A listener adds the router and the scope of every route.

Resolvers, verifiers, started pools and certificate files come from the environment. Timeouts,
HTTP/2 and the connection path are left out.

## Design choices

The environment is a structure of functions, each of which may fail with a text, so that every
error path of the source is there. Its functions are those of one listener's point of view: that a
resolver is cached and shared is not visible here, and is modelled where resolvers are built.
-/

namespace SniGate

/-! ## Runtimes -/

/-- What a route dials. -/
inductive Upstream (ρ : Type)
  | direct (host : Option Str) (family : AddressFamily) (nat64 : Option Nat64Prefix) (resolver : ρ)
  | pool (name : Str) (view : ℕ)

/-- The data path of one route. -/
structure RouteRuntime (ρ V : Type) where
  name : Str
  routeType : RouteType
  upstream : Upstream ρ
  upstreamPort : UInt16
  sniPolicy : SniPolicy
  requireEch : Bool
  maxRetries : ℕ
  ech : Option (EchProvider ρ)
  verify : Option V

/-- One built route. -/
structure BuiltRoute (ρ V P : Type) where
  runtime : RouteRuntime ρ V
  forwarding : Forwarding
  /-- The certificate the operator pinned. -/
  pinned : Option P

/-- What routes are built from besides the document: `ρ` are resolvers, `V` verifiers, and `P`
loaded certificates. -/
structure BuildEnv (ρ V P : Type) where
  getResolver : Str → AddressFamily → Except Str ρ
  /-- The started pools, each with the filters its views were registered for. -/
  pools : Map Str (List (List Selector))
  getVerifier : EffectiveVerify → Str → Except Str V
  loadPinned : Str → Str → Except Str P

/-- Resolvers, verifiers and certificates that are all there, and no pool. -/
def BuildEnv.willing : BuildEnv Unit Unit Unit where
  getResolver _ _ := .ok ()
  pools := ∅
  getVerifier _ _ := .ok ()
  loadPinned _ _ := .ok ()

/-- A value, or an error text. -/
def orError {α : Type} (x : Option α) (parts : List Str) : Except Str α :=
  match x with
  | some a => .ok a
  | none => .error parts.flatten

section Build

variable {ρ V P : Type} (env : BuildEnv ρ V P) (cfg : Config) (listener : Listener) (route : Route)

/-! ## One route -/

/-- The NAT64 prefix in force: none where only IPv6 is dialed. -/
def buildNat64 (eff : Effective) : Except Str (Option Nat64Prefix) :=
  match eff.addressFamily, eff.nat64Prefix with
  | .ipv6, _ => .ok none
  | _, none => .ok none
  | _, some p =>
    (orError (Nat64Prefix.parse p)
      ["route ".toList, route.label, ": invalid nat64_prefix".toList]).map some

/-- Where a route sends connections, with the identity of that. -/
def buildUpstream (rtTpl : Option Template) (eff : Effective) (host : UpstreamHost)
    (nat64 : Option Nat64Prefix) : Except Str (Upstream ρ × UpstreamIdentity) :=
  let direct (fixedHost : Option Str) : Except Str (Upstream ρ × UpstreamIdentity) := do
    let addrSpec := eff.addrResolver.getD []
    let resolver ← env.getResolver addrSpec eff.addressFamily
    return (.direct fixedHost eff.addressFamily nat64 resolver,
      .direct fixedHost eff.addressFamily eff.nat64Prefix addrSpec)
  match host with
  | .reflect => direct none
  | .fixed h => direct (some h)
  | .pool name => do
    let views ← orError (env.pools.lookup name)
      ["route ".toList, route.label, ": unknown pool @".toList, name]
    let wanted := (route.selectFor rtTpl).getD []
    let view ← orError (views.findIdx? (· = wanted))
      ["route ".toList, route.label, ": pool @".toList, name, " has no view for this route's ".toList,
        "\x60select\x60 (internal inconsistency between view registration and route build)".toList]
    return (.pool name view, .pool name)

/-- The resolver of HTTPS records: the ECH one, else the address one, else the system's. -/
def echSpec (eff : Effective) : Str := eff.echResolver.getD (eff.addrResolver.getD "system".toList)

/-- The upstream TLS artifacts of a route: its verifier, its ECH provider, and the identity of its
ECH source. -/
def buildTls (routeType : RouteType) (eff : Effective) (effEch : EffectiveEch)
    (effVerify : EffectiveVerify) (port : UInt16) :
    Except Str (Option V × Option (EchProvider ρ) × Option EchIdentity) :=
  match routeType with
  | .http | .raw => .ok (none, none, none)
  | .tls => do
    let verify ← env.getVerifier effVerify ("route ".toList ++ route.label)
    return (some verify, none, none)
  | .ech => do
    let verify ← env.getVerifier effVerify ("route ".toList ++ route.label)
    let resolver ← env.getResolver (echSpec eff) .dual
    return (some verify, some { settings := effEch, upstreamPort := port, resolver },
      some { mode := effEch.mode, domain := effEch.echDomain, resolver := echSpec eff,
             inlineConfig := effEch.config.isSome })

/-- The certificate a route pins. -/
def buildPinned (rtTpl : Option Template) : Except Str (Option P) :=
  match route.certKey rtTpl with
  | (some cert, some key) =>
    (env.loadPinned cert key).map some |>.mapError fun _ ↦ "route ".toList ++ route.label
  | _ => .ok none

/-- `build_route`. -/
def buildRoute : Except Str (BuiltRoute ρ V P) := do
  let rtTpl ← (cfg.templateFor route.useTemplate).mapError ConfigError.display
  let lnTpl ← (cfg.templateFor listener.useTemplate).mapError ConfigError.display
  let eff := cfg.effective listener route rtTpl lnTpl
  let routeType ← orError (effectiveRouteType route rtTpl)
    ["route ".toList, route.label, ": missing type".toList]
  let resolved ← orError (resolvedUpstreamFrom (route.upstreamSpec rtTpl) listener.addr.port)
    ["route ".toList, route.label, ": invalid upstream".toList]
  let nat64 ← buildNat64 route eff
  let (upstream, identity) ← buildUpstream env route rtTpl eff resolved.host nat64
  let effEch := cfg.effectiveEch listener route rtTpl lnTpl
  let effVerify := cfg.effectiveVerify listener route rtTpl lnTpl
  let (verify, ech, echIdentity) ← buildTls env route routeType eff effEch effVerify resolved.port
  let pinned ← buildPinned env route rtTpl
  let sni := route.sniPolicy rtTpl
  return {
    runtime :=
      { name := route.label, routeType, upstream, upstreamPort := resolved.port, sniPolicy := sni,
        requireEch := eff.requireEch, maxRetries := effEch.maxRetries, ech, verify }
    forwarding :=
      { routeType, upstream := identity, port := resolved.port, sni, ech := echIdentity,
        verify := effVerify }
    pinned }

section Spec

variable {env : BuildEnv ρ V P} {cfg : Config} {listener : Listener} {route : Route}
  {b : BuiltRoute ρ V P}

/-- **What a built route consists of.** -/
theorem spec_of_buildRoute (h : buildRoute env cfg listener route = .ok b) :
    ∃ rtTpl lnTpl, cfg.templateFor route.useTemplate = .ok rtTpl ∧
      cfg.templateFor listener.useTemplate = .ok lnTpl ∧
      b.forwarding.verify = cfg.effectiveVerify listener route rtTpl lnTpl ∧
      buildTls env route b.forwarding.routeType (cfg.effective listener route rtTpl lnTpl)
        (cfg.effectiveEch listener route rtTpl lnTpl) b.forwarding.verify b.forwarding.port =
        .ok (b.runtime.verify, b.runtime.ech, b.forwarding.ech) := by
  obtain ⟨rtTpl, hrt, h⟩ := bind_eq_ok.mp h
  obtain ⟨lnTpl, hln, h⟩ := bind_eq_ok.mp h
  obtain ⟨routeType, -, h⟩ := bind_eq_ok.mp h
  obtain ⟨resolved, -, h⟩ := bind_eq_ok.mp h
  obtain ⟨nat64, -, h⟩ := bind_eq_ok.mp h
  obtain ⟨⟨upstream, identity⟩, -, h⟩ := bind_eq_ok.mp h
  obtain ⟨⟨verify, ech, echIdentity⟩, htls, h⟩ := bind_eq_ok.mp h
  obtain ⟨pinned, -, h⟩ := bind_eq_ok.mp h
  obtain rfl := Except.ok.inj h
  exact ⟨rtTpl, lnTpl, eq_ok_of_mapError hrt, eq_ok_of_mapError hln, rfl, htls⟩

theorem getResolver_of_buildRoute (h : buildRoute env cfg listener route = .ok b)
    {host : Option Str} {family : AddressFamily} {nat64 : Option Nat64Prefix} {resolver : ρ}
    (hupstream : b.runtime.upstream = .direct host family nat64 resolver) :
    ∃ spec, env.getResolver spec family = .ok resolver := by
  obtain ⟨rtTpl, -, h⟩ := bind_eq_ok.mp h
  obtain ⟨lnTpl, -, h⟩ := bind_eq_ok.mp h
  obtain ⟨routeType, -, h⟩ := bind_eq_ok.mp h
  obtain ⟨resolved, -, h⟩ := bind_eq_ok.mp h
  obtain ⟨prefix64, -, h⟩ := bind_eq_ok.mp h
  obtain ⟨⟨upstream, identity⟩, hup, h⟩ := bind_eq_ok.mp h
  obtain ⟨⟨verify, ech, echIdentity⟩, -, h⟩ := bind_eq_ok.mp h
  obtain ⟨pinned, -, h⟩ := bind_eq_ok.mp h
  obtain rfl := Except.ok.inj h
  obtain rfl : upstream = .direct host family nat64 resolver := hupstream
  cases hhost : resolved.host with
  | pool name =>
    rw [hhost] at hup
    obtain ⟨_, -, hup⟩ := bind_eq_ok.mp hup
    obtain ⟨_, -, hup⟩ := bind_eq_ok.mp hup
    exact absurd (Except.ok.inj hup) (by simp)
  | reflect =>
    rw [hhost] at hup
    obtain ⟨_, hresolver, hup⟩ := bind_eq_ok.mp hup
    simp only [pure, Except.pure, Except.ok.injEq, Prod.mk.injEq, Upstream.direct.injEq] at hup
    obtain ⟨⟨-, rfl, -, rfl⟩, -⟩ := hup
    exact ⟨_, hresolver⟩
  | fixed h' =>
    rw [hhost] at hup
    obtain ⟨_, hresolver, hup⟩ := bind_eq_ok.mp hup
    simp only [pure, Except.pure, Except.ok.injEq, Prod.mk.injEq, Upstream.direct.injEq] at hup
    obtain ⟨⟨-, rfl, -, rfl⟩, -⟩ := hup
    exact ⟨_, hresolver⟩

theorem checked_of_buildRoute {ext : Externals} (hcfg : cfg.validate ext = .ok ())
    (hl : listener ∈ cfg.listeners) (hr : route ∈ listener.allRoutes)
    (h : buildRoute env cfg listener route = .ok b) : b.forwarding.verify.Checked ext := by
  obtain ⟨rtTpl, lnTpl, hrt, hln, hverify, -⟩ := spec_of_buildRoute h
  rw [hverify]
  exact Config.checked_of_validate hcfg hl hr hrt hln

/-- **What a provider and its identity have in common.** -/
theorem echIdentity_of_buildRoute (h : buildRoute env cfg listener route = .ok b)
    {p : EchProvider ρ} (hp : b.runtime.ech = some p) :
    ∃ s, env.getResolver s .dual = .ok p.resolver ∧
      p.upstreamPort = b.forwarding.port ∧
      b.forwarding.ech =
        some ⟨p.settings.mode, p.settings.echDomain, s, p.settings.config.isSome⟩ := by
  obtain ⟨rtTpl, lnTpl, -, -, -, htls⟩ := spec_of_buildRoute h
  rw [hp] at htls
  cases htype : b.forwarding.routeType with
  | http =>
    rw [htype] at htls
    exact absurd htls (by simp [buildTls])
  | raw =>
    rw [htype] at htls
    exact absurd htls (by simp [buildTls])
  | tls =>
    rw [htype] at htls
    obtain ⟨_, -, htls⟩ := bind_eq_ok.mp htls
    exact absurd (Except.ok.inj htls) (by simp)
  | ech =>
    rw [htype] at htls
    obtain ⟨_, -, htls⟩ := bind_eq_ok.mp htls
    obtain ⟨resolver, hresolver, htls⟩ := bind_eq_ok.mp htls
    simp only [Except.ok.injEq, pure, Except.pure, Prod.mk.injEq, Option.some.injEq] at htls
    obtain ⟨-, rfl, hid⟩ := htls
    exact ⟨_, hresolver, rfl, hid.symm⟩

end Spec

/-! ## One listener -/

/-- A built listener: its router, and by route id the runtimes, the scopes and the pinned
certificates. -/
structure ListenerState (ρ V P : Type) where
  addr : SocketAddr
  router : Router
  routes : List (RouteRuntime ρ V)
  scopes : List CertScope
  pinned : List (Option P)

/-- The patterns of each route, in route order; a default route has none. -/
def Listener.patterns (l : Listener) : List (List Str) :=
  l.routes.map Route.matchSni ++ l.defaultRoute.toList.map fun _ ↦ []

/-- The id of the default route. -/
def Listener.defaultId (l : Listener) : Option RouteId := l.defaultRoute.map fun _ ↦ l.routes.length

/-- `build_listener`. -/
def buildListener (regexNew : RegexNew) : Except Str (ListenerState ρ V P) := do
  let built ← listener.allRoutes.mapM (buildRoute env cfg listener)
  let router ← (Router.build regexNew listener.patterns listener.defaultId cfg.regexes).mapError
    fun e ↦ "listener ".toList ++ listener.addr.toStr ++ ": ".toList ++ e.display
  let routerFp := routerFingerprint listener.patterns listener.defaultId cfg.regexes
  return {
    addr := listener.addr
    router
    routes := built.map BuiltRoute.runtime
    scopes := built.map fun b ↦ CertScope.new routerFp b.forwarding
    pinned := built.map BuiltRoute.pinned }

end Build

end SniGate
