import SniGate.Config.Document
import SniGate.Dns.Lookup
import SniGate.Ech.Provider
import SniGate.Interaction.Program

/-!
# Building resolvers at startup

Resolvers that are written inline are built where they are used. The declared ones are built once,
in dependency order, into a registry: each from a plan that says where to dial, under which name,
who resolves that, and who fetches its ECH configuration. Carrying out a plan asks DNS, and what it
asks of whom is a list of questions (`StartOp`).

The resolver library and the TLS library are given by `StartEnv`; `τ` are live resolvers, `V`
verifiers, and `C` TLS configurations.

## Design choices

A resolver that is built remembers its plan, and a plan the resolvers it nominates, as the program's
shared handles do; so a registry is a finite map to trees of `BuiltResolver`, in which a resolver
can only hold ones that were built before it.

A panic ends a start no less than an error does. The assertion of `name_servers` and the two
`expect`s on the server name are therefore failures here, whose text is that of the panic. That none
of them is met is part of what `Startup.Readiness` proves.
-/

namespace SniGate

/-! ## What is given -/

/-- What the resolver library is configured with. -/
structure ResolverConfig (C : Type) where
  servers : List NameServerConfig
  /-- Of `ip_strategy`. -/
  family : AddressFamily
  useHostsFile : Bool
  /-- The library's own when absent. -/
  timeout : Option Duration
  tls : Option C

/-- ECH mode for a resolver. -/
inductive ResolverEch
  | disabled
  | config (bytes : Bytes)
  | grease
deriving DecidableEq, Repr

/-- The libraries. -/
structure StartEnv (τ V C : Type) where
  base64 : Str → Except Str Bytes
  nameServers : NameServerLib
  toSocketAddrs : ToSocketAddrs
  /-- `ResolverBuilder::build`. -/
  construct : ResolverConfig C → Except Str τ
  resolverClientConfig : ResolverEch → Bool → V → Except Str C
  /-- `VerifierFactory::get`. -/
  getVerifier : EffectiveVerify → Str → Except Str V
  /-- `UpstreamVerify::is_default`. -/
  isDefault : V → Bool

/-! ## Handles -/

/-- ECH parameters for a resolver's own TLS handshake. -/
structure NamedEch (ρ : Type) where
  settings : EffectiveEch
  requireEch : Bool
  refresh : Duration
  /-- Performs the lookup of the ECH configuration. -/
  resolver : ρ
  maxRetries : ℕ

/-- `ResolverPlan`: everything needed to build one declared resolver. -/
structure NamedPlan (ρ V : Type) where
  label : Str
  endpoint : Endpoint
  dialHost : Str
  dialPort : UInt16
  serverName : Option Str
  enableSni : Bool
  verify : V
  family : AddressFamily
  nat64 : Option Nat64Prefix
  connectTimeout : Duration
  /-- Resolves `dialHost`. -/
  bootstrap : ρ
  ech : Option (NamedEch ρ)

/-- `DnsResolver`, as it is built. -/
inductive BuiltResolver (τ V : Type)
  | inline (label : Str) (resolver : τ)
  | named (label : Str) (resolver : τ) (plan : NamedPlan (BuiltResolver τ V) V)
    (echBytes : Option Bytes)

/-- The declared resolvers built so far. -/
abbrev Registry (τ V : Type) := Map Str (BuiltResolver τ V)

/-- `DnsResolver::label`. -/
def BuiltResolver.label {τ V : Type} : BuiltResolver τ V → Str
  | inline label _ | named label .. => label

/-! ## Inline resolvers -/

section Inline

variable {τ V C : Type} (env : StartEnv τ V C)

/-- `ResolverSpec::build`. -/
def ResolverSpec.build (spec : ResolverSpec) (family : AddressFamily) : Except Str τ :=
  env.construct
    { servers := [spec.nameServer env.nameServers], family
      useHostsFile := spec = .system, timeout := none, tls := none }

/-- The name that a reference stands for. -/
def refName (spec : Str) : Option Str := stripStart ['@'] (trim spec)

/-- `get_resolver`, as it answers on its first request for an inline spec. -/
def StartEnv.getResolver (registry : Registry τ V) (spec : Str) (family : AddressFamily) :
    Except ErrorChain (BuiltResolver τ V) :=
  if isResolverRef spec then
    match refName spec with
    | none => .error ["invalid resolver reference ".toList ++ debugStr spec]
    | some name =>
      match registry.lookup name with
      | some handle => .ok handle
      | none => .error ["unknown resolver @".toList ++ name]
  else do
    let parsed ← (ResolverSpec.parse env.toSocketAddrs spec).mapError fun e ↦
      ["resolver spec ".toList ++ debugStr spec, e]
    let resolver ← (parsed.build env family).mapError fun e ↦
      ["building resolver ".toList ++ debugStr spec, e]
    return .inline spec resolver

/-- The inline resolvers built so far, each under its spec and family. -/
abbrev ResolverCache (τ : Type) := Map (Str × AddressFamily) τ

/-- `get_resolver`: an inline spec is built once. -/
def StartEnv.getResolverCached (registry : Registry τ V) (cache : ResolverCache τ) (spec : Str)
    (family : AddressFamily) : Except ErrorChain (BuiltResolver τ V × ResolverCache τ) :=
  if isResolverRef spec then
    match refName spec with
    | none => .error ["invalid resolver reference ".toList ++ debugStr spec]
    | some name =>
      match registry.lookup name with
      | some handle => .ok (handle, cache)
      | none => .error ["unknown resolver @".toList ++ name]
  else
    match cache.lookup (spec, family) with
    | some resolver => .ok (.inline spec resolver, cache)
    | none => do
      let parsed ← (ResolverSpec.parse env.toSocketAddrs spec).mapError fun e ↦
        ["resolver spec ".toList ++ debugStr spec, e]
      let resolver ← (parsed.build env family).mapError fun e ↦
        ["building resolver ".toList ++ debugStr spec, e]
      return (.inline spec resolver, cache.insert (spec, family) resolver)

/-- What is in the cache is what building again would give. -/
def FaithfulCache (cache : ResolverCache τ) : Prop :=
  ∀ spec family resolver, cache.lookup (spec, family) = some resolver →
    ∃ parsed, ResolverSpec.parse env.toSocketAddrs spec = .ok parsed ∧
      parsed.build env family = .ok resolver

variable {env} {registry : Registry τ V} {cache : ResolverCache τ} {spec : Str}
  {family : AddressFamily}

/-- **The cache does not show**: the answer is that of a first request. -/
theorem getResolverCached_spec (h : FaithfulCache env cache) :
    (env.getResolverCached registry cache spec family).map Prod.fst =
        env.getResolver registry spec family ∧
      ∀ handle cache', env.getResolverCached registry cache spec family = .ok (handle, cache') →
        FaithfulCache env cache' := by
  rw [StartEnv.getResolverCached, StartEnv.getResolver]
  split_ifs with href
  · cases refName spec with
    | none => exact ⟨rfl, fun _ _ h ↦ absurd h (by simp)⟩
    | some name =>
      cases hlookup : registry.lookup name with
      | none => simp [hlookup, Except.map]
      | some handle =>
        simp only [hlookup]
        refine ⟨rfl, fun _ _ heq ↦ ?_⟩
        obtain ⟨-, rfl⟩ := Prod.mk.inj (Except.ok.inj heq)
        exact h
  · cases hcache : cache.lookup (spec, family) with
    | some resolver =>
      obtain ⟨parsed, hparse, hbuild⟩ := h spec family resolver hcache
      simp only [hparse, Except.mapError]
      refine ⟨?_, fun _ _ heq ↦ ?_⟩
      · simp [hbuild, Except.map, bind, Except.bind, pure, Except.pure]
      · obtain ⟨-, rfl⟩ := Prod.mk.inj (Except.ok.inj heq)
        exact h
    | none =>
      cases hparse : ResolverSpec.parse env.toSocketAddrs spec with
      | error e => simp [Except.map, bind, Except.bind, Except.mapError]
      | ok parsed =>
        cases hbuild : parsed.build env family with
        | error e => simp [hbuild, Except.map, bind, Except.bind, Except.mapError]
        | ok resolver =>
          simp only [hbuild, Except.mapError, bind, Except.bind, pure, Except.pure, Except.map]
          refine ⟨trivial, fun _ _ heq spec' family' resolver' hlookup ↦ ?_⟩
          obtain ⟨-, rfl⟩ := Prod.mk.inj (Except.ok.inj heq)
          by_cases hkey : (spec', family') = (spec, family)
          · rw [hkey, AList.lookup_insert] at hlookup
            obtain ⟨rfl, rfl⟩ := Prod.mk.inj hkey
            exact ⟨parsed, hparse, Option.some.inj hlookup ▸ hbuild⟩
          · rw [AList.lookup_insert_ne hkey] at hlookup
            exact h spec' family' resolver' hlookup

end Inline

/-! ## What is asked -/

/-- What building resolvers asks for. -/
inductive StartOp (ρ : Type)
  /-- `DnsResolver::lookup_addr`. -/
  | lookupAddr (resolver : ρ) (host : Str) (port : UInt16) (family : AddressFamily)
    (nat64 : Option Nat64Prefix)
  /-- `DnsResolver::lookup` of the HTTPS records of a name. -/
  | lookupHttps (resolver : ρ) (name : Str)
  | spawnEchRefresher (resolver : ρ) (refresh : Duration)

/-- What comes back. -/
abbrev StartOp.Answer {ρ : Type} : StartOp ρ → Type
  | lookupAddr .. => Except ErrorChain ResolvedAddrs
  | lookupHttps .. => Except ErrorChain (List DnsRecord)
  | spawnEchRefresher .. => Unit

/-- A part of starting up. -/
abbrev StartProgram (ρ α : Type) := Program (StartOp ρ) StartOp.Answer ErrorChain α

/-! ## Carrying out a plan -/

section Plan

variable {τ V C : Type} (env : StartEnv τ V C)

/-- Add to the chain of an answer that may be an error. -/
def inContext {ρ α : Type} (context : Str) (answer : Except ErrorChain α) : StartProgram ρ α :=
  .ofExcept (answer.mapError (context :: ·))

/-- `bootstrap_ips`: every address a host can be dialed at. -/
def bootstrapIps (plan : NamedPlan (BuiltResolver τ V) V) (host : Str) (what : String) :
    StartProgram (BuiltResolver τ V) (List IpAddr) := do
  let answer ← Program.query
    (StartOp.lookupAddr plan.bootstrap host plan.dialPort plan.family plan.nat64)
  let addrs ← inContext
    ["[resolvers.".toList, plan.label, "]: resolving ".toList, what.toList, " ".toList,
      debugStr host, " through bootstrap ".toList, debugStr plan.bootstrap.label].flatten answer
  return addrs.addrs.map SocketAddr.ip

/-- Where to dial; a system resolver is not dialed. -/
def dialIps (plan : NamedPlan (BuiltResolver τ V) V) :
    StartProgram (BuiltResolver τ V) (List IpAddr) :=
  match plan.endpoint with
  | .system => .done []
  | .plain target _ =>
    match parseIpAddr target with
    | some ip => .done [ip]
    | none =>
      if plan.dialHost = [] then bootstrapIps plan target "plain endpoint target"
      else bootstrapIps plan plan.dialHost "dial host"
  | .doh .. | .dot .. => bootstrapIps plan plan.dialHost "dial host"

/-- The inline ECHConfigList. -/
def inlineEch (settings : EffectiveEch) (missing : String) : Except ErrorChain Bytes :=
  match settings.config with
  | none => .error [missing.toList]
  | some cfg => (decodeEchB64 env.base64 cfg).mapError fun
    | .base64 source =>
      ["failed to base64-decode the supplied ECHConfigList: ".toList ++ source]
    | _ => []

/-- `acquire_resolver_ech`: the ECHConfigList for a resolver, honoring the mode. -/
def acquireResolverEch (settings : EffectiveEch) (name : Str) (resolver : BuiltResolver τ V) :
    StartProgram (BuiltResolver τ V) (Option Bytes) :=
  match settings.mode with
  | .static => do
    let bytes ← .ofExcept (inlineEch env settings "static ECH mode needs a config")
    return some bytes
  | .doh => do
    let answer ← Program.query (StartOp.lookupHttps resolver name)
    let records ← .ofExcept answer
    return records.findSome? DnsRecord.echConfigList
  | .dohWithFallback => do
    let answer ← Program.query (StartOp.lookupHttps resolver name)
    match (answer : Except ErrorChain (List DnsRecord)).toOption.bind
        fun records ↦ records.findSome? DnsRecord.echConfigList with
    | some bytes => return some bytes
    | none => do
      let bytes ← .ofExcept (inlineEch env settings "doh-with-fallback needs a config")
      return some bytes

/-- `ResolverPlan::ech_lookup_name`. -/
def NamedPlan.echLookupName {ρ : Type} (plan : NamedPlan ρ V) (settings : EffectiveEch) :
    Option Str :=
  (settings.echDomain.or plan.serverName).map fun base ↦ httpsLookupName base plan.dialPort

/-- The ECHConfigList of a plan, if it uses ECH. -/
def acquireEch (plan : NamedPlan (BuiltResolver τ V) V) :
    StartProgram (BuiltResolver τ V) (Option Bytes) :=
  match plan.ech with
  | none => .done none
  | some ech =>
    match plan.echLookupName ech.settings with
    | none =>
      .fail [["[resolvers.".toList, plan.label,
        ".ech]: no name to look up an ECHConfig for; set \x60ech_domain\x60".toList].flatten]
    | some name => do
      let acquired ← (acquireResolverEch env ech.settings name ech.resolver).attempt
      let bytes ← inContext
        ["[resolvers.".toList, plan.label, "]: acquiring ECHConfig".toList].flatten acquired
      if bytes = none ∧ ech.requireEch then
        .fail [["[resolvers.".toList, plan.label,
          "]: require_ech is set but no ECHConfig is published for ".toList,
          debugStr name].flatten]
      else return bytes

/-- `name_servers`, with its assertion. -/
def dialedServers (ips : List IpAddr) (port : UInt16) (build : IpAddr → NameServerConfig) :
    Except ErrorChain (List NameServerConfig) :=
  if ips = [] then
    .error ["a non-system resolver endpoint always resolves to at least one dial address".toList]
  else .ok (Endpoint.nameServersOn ips port build)

/-- The name servers of a plan, at the given addresses. -/
def planServers (plan : NamedPlan (BuiltResolver τ V) V) (ips : List IpAddr) :
    Except ErrorChain (List NameServerConfig) :=
  match plan.endpoint with
  | .system => .ok [systemNameServer env.nameServers]
  | .doh _ _ path =>
    match plan.serverName with
    | none => .error ["a DoH endpoint always has a server name".toList]
    | some name =>
      dialedServers ips plan.dialPort fun ip ↦ env.nameServers.https ip name (some path)
  | .dot .. =>
    match plan.serverName with
    | none => .error ["a DoT endpoint always has a server name".toList]
    | some name => dialedServers ips plan.dialPort fun ip ↦ env.nameServers.tls ip name
  | .plain .. => dialedServers ips plan.dialPort env.nameServers.udpAndTcp

/-- The ECH mode of a plan's handshake. -/
def planEchMode (plan : NamedPlan (BuiltResolver τ V) V) (bytes : Option Bytes) : ResolverEch :=
  match plan.ech, bytes with
  | some _, some bytes => .config bytes
  | some _, none => .grease
  | none, _ => .disabled

/-- The TLS configuration of a plan, where the library's own will not do. -/
def planTls (plan : NamedPlan (BuiltResolver τ V) V) (bytes : Option Bytes) :
    Except ErrorChain (Option C) :=
  if plan.endpoint.isTls ∧
      (plan.ech.isSome ∨ !plan.enableSni ∨ !env.isDefault plan.verify) then
    (env.resolverClientConfig (planEchMode plan bytes) plan.enableSni plan.verify).map some
      |>.mapError fun e ↦
        [["[resolvers.".toList, plan.label, "]: building the TLS config".toList].flatten, e]
  else .ok none

/-- What the resolver library makes of a plan. -/
def constructPlan (plan : NamedPlan (BuiltResolver τ V) V) (ips : List IpAddr)
    (bytes : Option Bytes) : Except ErrorChain τ := do
  let servers ← planServers env plan ips
  let tls ← planTls env plan bytes
  (env.construct
    { servers, family := plan.family
      useHostsFile := plan.endpoint = .system, timeout := some plan.connectTimeout, tls })
    |>.mapError fun e ↦
      [["[resolvers.".toList, plan.label, "]: building the resolver".toList].flatten, e]

/-- `dns_resolvers::build`: the resolver, with the ECHConfigList it was built from. -/
def buildPlan (plan : NamedPlan (BuiltResolver τ V) V) :
    StartProgram (BuiltResolver τ V) (τ × Option Bytes) := do
  let ips ← dialIps plan
  let bytes ← acquireEch env plan
  let resolver ← .ofExcept (constructPlan env plan ips bytes)
  return (resolver, bytes)

/-! ## Making a plan -/

/-- A nominated resolver: a declared one, one built inline, or that of the system. -/
def nominate (registry : Registry τ V) (spec : Option Str) (family : AddressFamily)
    (badRef missing specContext specLabel systemLabel : Str → Str) :
    Except ErrorChain (BuiltResolver τ V) :=
  match spec with
  | none => do
    let resolver ← (ResolverSpec.system.build env family).mapError fun e ↦ [e]
    return .inline (systemLabel []) resolver
  | some spec =>
    if isResolverRef spec then
      match refName spec with
      | none => .error [badRef spec]
      | some name =>
        match registry.lookup name with
        | some handle => .ok handle
        | none => .error [missing name]
    else do
      let parsed ← (ResolverSpec.parse env.toSocketAddrs spec).mapError fun e ↦
        [specContext spec, e]
      let resolver ← (parsed.build env family).mapError fun e ↦ [e]
      return .inline (specLabel spec) resolver

variable (registry : Registry τ V) (eff : EffectiveResolver) (name : Str)

/-- Who resolves the address of an endpoint. -/
def nominateBootstrap : Except ErrorChain (BuiltResolver τ V) :=
  let scope := "[resolvers.".toList ++ name ++ "]".toList
  nominate env registry eff.bootstrap eff.addressFamily
    (fun spec ↦ scope ++ ": invalid bootstrap reference ".toList ++ debugStr spec)
    (fun target ↦ scope ++ ": bootstrap @".toList ++ target ++
      " not found (build order error)".toList)
    (fun _ ↦ scope ++ " bootstrap spec".toList) (fun _ ↦ name ++ ":bootstrap".toList)
    fun _ ↦ name ++ ":system".toList

/-- Who fetches the ECH configuration of a resolver. -/
def nominateEchResolver : Except ErrorChain (BuiltResolver τ V) :=
  let scope := "[resolvers.".toList ++ name
  nominate env registry eff.echResolver .dual
    (fun spec ↦ scope ++ ".ech]: invalid ech_resolver reference ".toList ++ debugStr spec)
    (fun target ↦ scope ++ ".ech]: ech_resolver @".toList ++ target ++ " not found".toList)
    (fun _ ↦ scope ++ "] ech_resolver spec".toList) (fun _ ↦ name ++ ":ech_resolver".toList)
    fun _ ↦ name ++ ":ech:system".toList

/-- The host to dial: a resolver does not dial through a pool. -/
def dialHost (endpoint : Endpoint) (host : UpstreamHost) : Except ErrorChain Str :=
  match host with
  | .fixed h => .ok h
  | .reflect => .ok (endpoint.host.getD [])
  | .pool pool =>
    .error [["[resolvers.".toList, name, "]: upstream = \"@".toList, pool,
      "\" is not supported — a pool must resolve its own targets through a resolver, so a ".toList,
      "resolver cannot dial through a pool. Give this resolver a literal host, or a ".toList,
      "\x60bootstrap\x60".toList].flatten]

/-- The name to present. -/
def EffectiveResolver.serverName (endpoint : Endpoint) : Option Str :=
  match eff.sniPolicy with
  | .reflect | .omitted => endpoint.host
  | .fixed n => some n

/-- The NAT64 prefix of a resolver. -/
def planNat64 : Except ErrorChain (Option Nat64Prefix) :=
  match eff.nat64Prefix with
  | none => .ok none
  | some s =>
    match Nat64Prefix.parse s with
    | some p => .ok (some p)
    | none => .error ["[resolvers.".toList ++ name ++ "] nat64_prefix".toList]

/-- The ECH part of a plan. -/
def planEch : Except ErrorChain (Option (NamedEch (BuiltResolver τ V))) :=
  match eff.ech with
  | none => .ok none
  | some settings => do
    let resolver ← nominateEchResolver env registry eff name
    return some { settings, requireEch := eff.requireEch, refresh := eff.echRefresh, resolver,
                  maxRetries := settings.maxRetries }

/-- The plan of a declared resolver. -/
def planNamed : Except ErrorChain (NamedPlan (BuiltResolver τ V) V) := do
  let scope := "[resolvers.".toList ++ name ++ "]".toList
  let endpoint ← (Endpoint.parse eff.endpoint).mapError fun e ↦ [scope ++ " endpoint".toList, e]
  let bootstrap ← nominateBootstrap env registry eff name
  match resolvedUpstreamFrom eff.upstream endpoint.port with
  | none => .error [scope ++ ": invalid upstream".toList]
  | some resolved =>
    let host ← dialHost name endpoint resolved.host
    let nat64 ← planNat64 eff name
    let ech ← planEch env registry eff name
    let verify ← (env.getVerifier eff.verify scope).mapError fun e ↦ [e]
    return {
      label := eff.name, endpoint, dialHost := host, dialPort := resolved.port
      serverName := eff.serverName endpoint, enableSni := eff.sniPolicy ≠ .omitted, verify
      family := eff.addressFamily, nat64, connectTimeout := eff.connectTimeout, bootstrap, ech }

/-- Build one declared resolver. -/
def buildNamed : StartProgram (BuiltResolver τ V) (BuiltResolver τ V) := do
  let plan ← .ofExcept (planNamed env registry eff name)
  let built ← (buildPlan env plan).attempt
  let (resolver, bytes) ← inContext ("[resolvers.".toList ++ name ++ "]".toList) built
  let handle := .named name resolver plan bytes
  match plan.ech with
  | some ech => do
    let _ ← Program.query (StartOp.spawnEchRefresher handle ech.refresh)
    return handle
  | none => return handle

end Plan

section Named

variable {τ V C : Type} (env : StartEnv τ V C) (doc : Document)

/-- Build one declared resolver and register it. -/
def StartEnv.addNamedResolver (registry : Registry τ V) (name : Str) :
    StartProgram (BuiltResolver τ V) (Registry τ V) := do
  let eff ← .ofExcept ((doc.effectiveResolver name).mapError fun e ↦ [e.display])
  let handle ← buildNamed env registry eff name
  return registry.insert name handle

/-- `build_named_resolvers`: all declared resolvers, each after those it refers to. -/
def StartEnv.buildNamedResolvers : StartProgram (BuiltResolver τ V) (Registry τ V) := do
  let order ← .ofExcept (doc.cfg.resolverBuildOrder.mapError fun e ↦ [e.display])
  order.foldlM (env.addNamedResolver doc) ∅

end Named

end SniGate
