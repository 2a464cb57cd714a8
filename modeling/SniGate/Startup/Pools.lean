import SniGate.Pool.Publish
import SniGate.Startup.Resolvers

/-!
# Building pools at startup

A pool is built in two halves. Its table says what to probe and how, and its builder holds that; the
routes say which filters they read it with, and each distinct filter becomes a view of it. The pools
that some route reads are started.

Samples of networks are drawn from `rand`, by pool and target. A TLS configuration is what it is
made from: a verifier and an ALPN offer, or an ECH provider that hands out such.
-/

namespace SniGate

variable {ρ V : Type}

/-! ## Probe plans -/

/-- Where a probe's client configuration comes from. -/
inductive TlsSource (ρ V : Type)
  | plain (verify : V) (alpn : List Bytes)
  | ech (provider : EchProvider ρ) (verify : V) (refresh : Duration) (alpn : List Bytes)
    (requireEch : Bool) (maxRetries : ℕ)

/-- The TLS half of a probe: the name that is sent and verified, and the configuration. -/
structure TlsProbe (ρ V : Type) where
  sni : Str
  config : TlsSource ρ V

/-- The mode-specific half of a plan. -/
inductive ProbeKind (ρ V : Type)
  | tcp
  | tls (probe : TlsProbe ρ V)
  | http (request : Str) (expectStatus : List UInt16) (tls : Option (TlsProbe ρ V))

/-- Everything a probe needs, resolved once. -/
structure ProbePlan (ρ V : Type) where
  /-- The port every candidate is dialed on. -/
  port : UInt16
  /-- Per-candidate deadline. -/
  timeout : Duration
  kind : ProbeKind ρ V

/-- The ECH settings of a probe, with the resolver they are looked up through. -/
structure ProbeEchSetup (ρ : Type) where
  ech : EffectiveProbeEch
  resolver : ρ

def defaultProbePort : UInt16 := 443
def defaultHandshakeTimeout : Duration := fromSecs 3
def defaultHttpTimeout : Duration := fromSecs 5
def httpProbeAlpn : List Bytes := [toUtf8 "http/1.1".toList]

/-- `build_tls_probe`. -/
def buildTlsProbe (sni : Str) (alpn : List Bytes) (port : UInt16) (ech : Option (ProbeEchSetup ρ))
    (verify : V) : TlsProbe ρ V :=
  { sni
    config :=
      match ech with
      | some ⟨ech, resolver⟩ =>
        .ech { settings := ech.settings, upstreamPort := port, resolver } verify ech.echRefresh alpn
          ech.requireEch ech.settings.maxRetries
      | none => .plain verify alpn }

/-- `tls_name_from_url`: an IPv6 address does not stand in brackets. -/
def tlsNameFromUrl : UrlHost → Str
  | .domain name => name
  | .ipv4 a => (IpAddr.v4 a).toStr
  | .ipv6 a => (IpAddr.v6 a).toStr

/-- `http_request`: the request, rendered once. -/
def httpRequest (url : Url) (host : Str) : Str :=
  let authority :=
    match url.port with
    | some p => host ++ ':' :: decimal p.toNat
    | none => host
  let target :=
    match url.query with
    | some q => url.path ++ '?' :: q
    | none => url.path
  "GET ".toList ++ target ++ " HTTP/1.1\r\nHost: ".toList ++ authority ++
    "\r\nUser-Agent: sni-gate-probe\r\nAccept: */*\r\nConnection: close\r\n\r\n".toList

/-- `build_probe_plan`; nothing where it would panic, on a URL without host or port. -/
def buildProbePlan (spec : ProbeSpec) (ech : Option (ProbeEchSetup ρ)) (verify : V) :
    Option (ProbePlan ρ V) :=
  match spec with
  | .tcp port timeout =>
    some { port := port.getD defaultProbePort
           timeout := timeout.getD defaultHandshakeTimeout
           kind := .tcp }
  | .tls port sni timeout _ _ =>
    let port := port.getD defaultProbePort
    some { port
           timeout := timeout.getD defaultHandshakeTimeout
           -- no ALPN: the probe stops at the handshake
           kind := .tls (buildTlsProbe sni [] port ech verify) }
  | .http url expectStatus timeout _ _ => do
    let host ← url.host
    let port ← url.portOrKnownDefault
    return {
      port
      timeout := timeout.getD defaultHttpTimeout
      kind := .http (httpRequest url host.str) expectStatus
        (if url.scheme = "https".toList then
          some (buildTlsProbe (tlsNameFromUrl host) httpProbeAlpn port ech verify)
        else none) }

/-! ## Builders -/

/-- A pool under construction. -/
structure PoolBuilder (ρ V : Type) where
  name : Str
  fallback : Option ℕ
  /-- The NAT64 table; it is read when the pool is started. -/
  nat64 : Option PoolNat64Def
  /-- The pool, without its NAT64 projection. -/
  pool : Pool
  probe : ProbePlan ρ V
  resolver : ρ
  views : List (List Selector)

/-- A pool that runs. -/
structure StartedPool (ρ V : Type) extends ServedPool where
  probe : ProbePlan ρ V
  nat64Timeout : Option Duration
  resolver : ρ

/-- The number of an `f64` setting that passed its check. -/
def F64.toRat : F64 → ℚ
  | finite q => q
  | nonFinite => 0

/-- The timing of a pool, with its defaults. -/
def ProbeDef.timing (d : ProbeDef) : ProbeTiming :=
  { interval := d.interval.getD defaultTiming.interval
    degradedInterval := d.degradedInterval.getD defaultTiming.degradedInterval
    failThreshold := d.failThreshold.getD defaultTiming.failThreshold
    scorePayloadBytes := d.scorePayloadBytes.getD defaultTiming.scorePayloadBytes
    throughputDiscount := (d.throughputDiscount.map F64.toRat).getD defaultTiming.throughputDiscount
    kalmanQ := (d.rttProcessNoise.map F64.toRat).getD defaultTiming.kalmanQ
    kalmanR := (d.rttObsNoise.map F64.toRat).getD defaultTiming.kalmanR }

/-- `tags_of`: the operator's own tags. -/
def TargetDef.customTags (t : TargetDef) : List Str := t.tags.map trim

namespace PoolBuilder

/-- Read one target. -/
def readTarget (parsers : PoolParsers) (name : Str) (t : TargetDef × ℕ) :
    Except ErrorChain (TargetSpec × List Str) := do
  let spec ← (TargetSpec.parse parsers t.1.spec).mapError fun e ↦
    [["[pools.".toList, name, "]: targets[".toList, decimal t.2, "]".toList].flatten, e]
  return (spec, t.1.customTags)

/-- `PoolBuilder::new`. -/
def new (parsers : PoolParsers) (rand : ℕ → List ℕ) (name : Str) (d : PoolDef) (spec : ProbeSpec)
    (resolver : ρ) (ech : Option (ProbeEchSetup ρ)) (verify : V) :
    Except ErrorChain (PoolBuilder ρ V) := do
  d.probe.validateParameters.mapError fun e ↦
    ["[pools.".toList ++ name ++ ".probe]: ".toList ++ e]
  let targets ← d.targets.zipIdx.mapM (readTarget parsers name)
  match buildProbePlan spec ech verify with
  | some probe =>
    return { name, fallback := d.fallback, nat64 := d.nat64
             pool := .new targets rand d.probe.timing none
             probe, resolver, views := [] }
  -- a panic
  | none => .error ["ProbeSpec::Http carries a URL with a host".toList]

variable (b : PoolBuilder ρ V)

/-- `PoolBuilder::register_view`: identical filters share a view. -/
def registerView (selectors : List Selector) : PoolBuilder ρ V :=
  if selectors ∈ b.views then b else { b with views := b.views ++ [selectors] }

/-- `PoolBuilder::is_used`. -/
def isUsed : Bool := b.views ≠ []

/-- The NAT64 projection of a pool. -/
def projection (n : PoolNat64Def) : Except ErrorChain Nat64Projection := do
  let prefixes ← n.prefixes.mapM fun p ↦
    match Nat64Prefix.parse p with
    | some prefix64 => .ok prefix64
    | none =>
      .error [["[pools.".toList, b.name, ".nat64]: prefix ".toList, debugStr p].flatten]
  return { prefixes, from_ := n.from_ }

/-- `PoolBuilder::spawn`. -/
def spawn : Except ErrorChain (StartedPool ρ V) := do
  let nat64 ← b.nat64.mapM b.projection
  return {
    b.pool with
    nat64
    name := b.name
    views := b.views
    fallback := b.fallback
    probe := b.probe
    nat64Timeout := b.nat64.map fun n ↦ n.timeout.getD b.probe.timeout
    resolver := b.resolver }

end PoolBuilder

/-! ## Building all of them -/

/-- The pool that a route dials through, with the filter it reads it with. -/
def Config.poolRef (cfg : Config) (listener : Listener) (route : Route) :
    Except ConfigError (Option (Str × List Selector)) := do
  let tpl ← cfg.templateFor route.useTemplate
  match resolvedUpstreamFrom (route.upstreamSpec tpl) listener.addr.port with
  | some ⟨.pool name, _⟩ => return some (name, (route.selectFor tpl).getD [])
  | _ => return none

/-- Every route, with its listener. -/
def Config.routes (cfg : Config) : List (Listener × Route) :=
  cfg.listeners.flatMap fun l ↦ l.allRoutes.map fun r ↦ (l, r)

/-- One route registers its filter. -/
def registerRoute (cfg : Config) (builders : Map Str (PoolBuilder ρ V)) (lr : Listener × Route) :
    Except ErrorChain (Map Str (PoolBuilder ρ V)) := do
  match ← (cfg.poolRef lr.1 lr.2).mapError fun e ↦ [e.display] with
  | none => return builders
  | some (name, selectors) =>
    match builders.lookup name with
    | none => .error [["route ".toList, lr.2.label, ": unknown pool @".toList, name].flatten]
    | some b => return builders.replace name (b.registerView selectors)

/-- Start a pool, if anyone reads it. -/
def spawnPool (out : Map Str (StartedPool ρ V)) (e : Σ _ : Str, PoolBuilder ρ V) :
    Except ErrorChain (Map Str (StartedPool ρ V)) :=
  if e.2.isUsed then do
    let pool ← e.2.spawn.mapError fun chain ↦ ("[pools.".toList ++ e.1 ++ "]".toList) :: chain
    return out.insert e.1 pool
  else .ok out

section Building

variable {τ C : Type} (env : StartEnv τ V C) (parsers : PoolParsers) (rand : Str → ℕ → List ℕ)
  (doc : Document) (registry : Registry τ V)

/-- The ECH part of a probe: its configuration is looked up through its own resolver, or else
through that of the pool. -/
def poolProbeEch (name own : Str) (spec : ProbeSpec) :
    Except ErrorChain (Option (ProbeEchSetup (BuiltResolver τ V))) :=
  match spec.ech with
  | none => .ok none
  | some block => do
    let ech := EffectiveProbeEch.resolve block doc.cfg.global
    let resolver ← (env.getResolver registry (ech.echResolver.getD own) .dual).mapError fun chain ↦
      ("[pools.".toList ++ name ++ ".probe.ech]: resolver".toList) :: chain
    return some { ech, resolver }

/-- What a probe requires of a certificate: a probe without a handshake requires nothing, and takes
the default. -/
def poolVerifyPolicy (spec : ProbeSpec) : EffectiveVerify :=
  if spec.handshakes then .resolve spec.verify doc.cfg.global else .default

/-- The builder of one pool. -/
def buildPoolBuilder (name : Str) (d : PoolDef) :
    Except ErrorChain (PoolBuilder (BuiltResolver τ V) V) := do
  let own := d.resolver.getD "system".toList
  let resolver ← (env.getResolver registry own .dual).mapError fun chain ↦
    ("[pools.".toList ++ name ++ "]: resolver".toList) :: chain
  let spec ← (d.probe.validate parsers).mapError fun e ↦
    ["[pools.".toList ++ name ++ ".probe]: ".toList ++ e]
  let ech ← poolProbeEch env doc registry name own spec
  let verify ← (env.getVerifier (poolVerifyPolicy doc spec)
    ("[pools.".toList ++ name ++ ".probe]".toList)).mapError fun e ↦ [e]
  (PoolBuilder.new parsers (rand name) name d spec resolver ech verify).mapError fun chain ↦
    ("[pools.".toList ++ name ++ "]".toList) :: chain

/-- Add the builder of one declared pool. -/
def addPoolBuilder (builders : Map Str (PoolBuilder (BuiltResolver τ V) V)) (name : Str) :
    Except ErrorChain (Map Str (PoolBuilder (BuiltResolver τ V) V)) :=
  match doc.pools.lookup name with
  | none => .error [["unknown pool ".toList, debugStr name, " (no matching [pools.".toList, name,
      "])".toList].flatten]
  | some d => do
    let b ← buildPoolBuilder env parsers rand doc registry name d
    return builders.insert name b

/-- `build_pools`. -/
def StartEnv.buildPools : Except ErrorChain (Map Str (StartedPool (BuiltResolver τ V) V)) :=
  if doc.pools.keys = [] then .ok ∅
  else do
    let builders ← (doc.pools.keys.insertionSort (· ≤ ·)).foldlM
      (addPoolBuilder env parsers rand doc registry) ∅
    let builders ← doc.cfg.routes.foldlM (registerRoute doc.cfg) builders
    builders.entries.foldlM spawnPool ∅

end Building

end SniGate
