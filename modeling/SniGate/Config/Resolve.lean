import SniGate.Config.Verify
import SniGate.Config.Upstream

/-!
# Effective settings

The settings of a route, resolved along the ladder

  route → route template → listener → listener template → global

with the ECH blocks sitting deepest for the fields they share with the generic settings.
-/

namespace SniGate

/-- The settings in force for a route. -/
structure Effective where
  echResolver : Option Str
  addrResolver : Option Str
  echRefresh : Duration
  nat64Prefix : Option Str
  addressFamily : AddressFamily
  requireEch : Bool
  connectTimeout : Duration
  idleTimeout : Duration
  fail : FailPolicy
deriving DecidableEq, Repr

/-- The merged `[ech]` block. -/
structure EffectiveEch where
  mode : EchMode
  config : Option Str
  echDomain : Option Str
  maxRetries : ℕ
deriving DecidableEq, Repr

/-- The merged `[http2]` block. -/
structure EffectiveHttp2 where
  enabled : Bool
  probe : H2Probe
  probeTimeout : Duration
deriving DecidableEq, Repr

def defaultEchRefresh : Duration := fromSecs 3600
def defaultConnectTimeout : Duration := fromSecs 15
def defaultIdleTimeout : Duration := fromSecs 300
def defaultProbeTimeout : Duration := fromSecs 3

namespace Config

variable (cfg : Config) (listener : Listener) (route : Route) (rtTpl lnTpl : Option Template)

/-- The five generic tiers, deepest first. -/
def commonTiers : List (Option CommonOpts) :=
  [some route.common, rtTpl.map Template.common, some listener.common, lnTpl.map Template.common,
    some cfg.global.common]

/-- The five ECH tiers, deepest first. -/
def echTiers : List (Option EchConfig) :=
  [route.ech, rtTpl.bind Template.ech, listener.ech, lnTpl.bind Template.ech, cfg.global.ech]

/-- A resolver specification: in each tier the specific field stands before the general one. -/
def resolverTiers (field : CommonOpts → Option Str) : List (Option Str) :=
  (cfg.commonTiers listener route rtTpl lnTpl).flatMap fun t ↦
    [t.bind field, t.bind CommonOpts.resolver]

/-- `Config::effective`. -/
def effective : Effective :=
  let common := cfg.commonTiers listener route rtTpl lnTpl
  let ech := cfg.echTiers listener route rtTpl lnTpl
  { echResolver :=
      firstSome (firstField ech EchConfig.echResolver ::
        cfg.resolverTiers listener route rtTpl lnTpl CommonOpts.echResolver)
    addrResolver :=
      firstSome (cfg.resolverTiers listener route rtTpl lnTpl CommonOpts.addrResolver)
    echRefresh :=
      (firstSome [firstField ech EchConfig.echRefresh,
        firstField common CommonOpts.echRefresh]).getD defaultEchRefresh
    nat64Prefix := firstField common CommonOpts.nat64Prefix
    addressFamily := (firstField common CommonOpts.addressFamily).getD .dual
    requireEch :=
      (firstSome [firstField ech EchConfig.requireEch,
        firstField common CommonOpts.requireEch]).getD true
    connectTimeout := (firstField common CommonOpts.connectTimeout).getD defaultConnectTimeout
    idleTimeout := (firstField common CommonOpts.idleTimeout).getD defaultIdleTimeout
    fail := (firstSome [route.fail, rtTpl.bind Template.fail]).getD cfg.global.unmatched }

/-- `Config::effective_ech`. -/
def effectiveEch : EffectiveEch :=
  let tiers := cfg.echTiers listener route rtTpl lnTpl
  { mode := (firstField tiers EchConfig.mode).getD .doh
    config := firstField tiers EchConfig.config
    echDomain := firstField tiers EchConfig.echDomain
    maxRetries := (firstField tiers EchConfig.maxRetries).getD 2 }

/-- The five HTTP/2 tiers, deepest first. -/
def http2Tiers : List (Option Http2Config) :=
  [route.http2, rtTpl.bind Template.http2, listener.http2, lnTpl.bind Template.http2,
    cfg.global.http2]

/-- `Config::effective_http2`: a raw route never speaks HTTP/2. -/
def effectiveHttp2 : EffectiveHttp2 :=
  let tiers := cfg.http2Tiers listener route rtTpl lnTpl
  { enabled := effectiveRouteType route rtTpl ≠ some .raw ∧
      (firstField tiers Http2Config.enabled).getD false
    probe := (firstField tiers Http2Config.probe).getD .warn
    probeTimeout := (firstField tiers Http2Config.probeTimeout).getD defaultProbeTimeout }

/-- `Config::effective_verify`: the default policy for the types that originate no TLS. -/
def effectiveVerify : EffectiveVerify :=
  match effectiveRouteType route rtTpl with
  | some .tls | some .ech =>
    .merge [route.verify, rtTpl.bind Template.verify]
      [listener.verify, lnTpl.bind Template.verify, cfg.global.verify]
  | _ => .default

end Config

/-- A route's own resolver stands before the ECH resolver of its template. -/
example : (Config.effective { listeners := [] } { addr := ⟨.v4 0, 443⟩ }
    { common := { resolver := some "a".toList } }
    (some { common := { echResolver := some "b".toList } }) none).echResolver =
      some "a".toList := by
  decide +kernel

end SniGate
