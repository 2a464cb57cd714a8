import SniGate.Config.Resolve
import SniGate.Pool.Targets

/-!
# Pool tables

A pool table lists targets and says how they are probed. A probe is written in one table for all
modes; `ProbeDef.validate` refuses what its mode cannot act on and reduces the table to what the
mode uses, so that nothing later has to ask which fields count.

Floating-point settings are finite numbers or not numbers at all. URLs and networks are parsed by
third-party code, which enters as `PoolParsers`.
-/

namespace SniGate

/-- A refusal with the given text, its parts joined. -/
def reject {α : Type} (parts : List Str) : Except Str α := .error parts.flatten

/-- A refusal when a condition holds. -/
abbrev rejectIf (c : Prop) [Decidable c] (parts : List Str) : Except Str Unit :=
  failIf c parts.flatten

/-! ## Third-party parsers -/

/-- The host of a URL. -/
inductive UrlHost
  | domain (name : Str)
  | ipv4 (a : BitVec 32)
  | ipv6 (a : BitVec 128)
deriving DecidableEq, Repr

/-- A parsed URL. The port is absent when it is the default one of the scheme. -/
structure Url where
  scheme : Str
  host : Option UrlHost
  port : Option UInt16
  path : Str
  query : Option Str
deriving DecidableEq, Repr

/-- `Url::host_str`: an IPv6 address stands in brackets. -/
def UrlHost.str : UrlHost → Str
  | domain name => name
  | ipv4 a => (IpAddr.v4 a).toStr
  | ipv6 a => '[' :: ((IpAddr.v6 a).toStr ++ [']'])

/-- `Url::port_or_known_default`. -/
def Url.portOrKnownDefault (url : Url) : Option UInt16 :=
  url.port.or (if url.scheme = "http".toList then some 80
    else if url.scheme = "https".toList then some 443 else none)

/-- The parsers of URLs and of networks. -/
structure PoolParsers where
  /-- `Url::from_str`, or an error text. -/
  url : Str → Except Str Url
  /-- `IpNet::from_str`. -/
  ipNet : Str → Option IpNet

/-- No URL or network is accepted. -/
def PoolParsers.refusing : PoolParsers where
  url _ := .error []
  ipNet _ := none

/-! ## Targets -/

/-- One `targets` entry. -/
inductive TargetDef
  | addr (addr : Str)
  | tagged (addr : Str) (tags : List Str)
deriving DecidableEq, Repr

/-- The address specification, whichever form was written. -/
def TargetDef.spec : TargetDef → Str
  | addr a | tagged a _ => a

/-- Operator-supplied tags. -/
def TargetDef.tags : TargetDef → List Str
  | addr _ => []
  | tagged _ tags => tags

namespace TargetSpec

/-- A target without its sampling suffix, and the sample count in that. -/
def splitSample (s : Str) : Except Str (Str × Option ℕ) :=
  match stripEnd [']'] s with
  | none => .ok (s, none)
  | some head =>
    match rsplitOnce '[' head with
    | none => reject ["unmatched ']' in target ".toList, debugStr s]
    | some (base, n) =>
      match parseUnsigned (2 ^ 64) (trim n) with
      | none => reject ["sample count in ".toList, debugStr s, " must be a positive integer".toList]
      | some 0 => reject ["sample count in ".toList, debugStr s, " must be at least 1".toList]
      | some n => .ok (trim base, some n)

variable (parsers : PoolParsers)

/-- Parse one target; of an error the outermost text is kept. -/
def parse (s : Str) : Except Str TargetSpec := do
  let s := trim s
  rejectIf (s = []) ["empty target".toList]
  let (body, sample) ← splitSample s
  if '/' ∈ body then
    match parsers.ipNet body with
    | none => reject ["target ".toList, debugStr s, " is not a valid CIDR".toList]
    | some net =>
      rejectIf (sample = none ∧ maxCidrExpansion < networkSize net)
        ["target ".toList, debugStr s, " expands to ".toList, decimal (networkSize net),
          " addresses, over the limit of ".toList, decimal maxCidrExpansion,
          "; append a sample count, e.g. \"".toList, body, "[4]\"".toList]
      return .cidr net sample
  else
    rejectIf sample.isSome
      ["sample count in ".toList, debugStr s, " only applies to a CIDR target".toList]
    match parseIpAddr body with
    | some literal => return .ip literal
    | none =>
      rejectIf (':' ∈ body)
        ["target ".toList, debugStr s, " looks like an IPv6 address but does not parse as one ".toList,
          "(a domain target must not contain ':')".toList]
      return .domain body

end TargetSpec

/-! ## Probes -/

/-- An `f64` setting. -/
inductive F64
  | finite (q : ℚ)
  /-- Infinite, or not a number. -/
  | nonFinite
deriving DecidableEq, Repr

/-- Not finite, or refused by a check. -/
def F64.fails (v : F64) (check : ℚ → Bool) : Bool :=
  match v with
  | finite q => check q
  | nonFinite => true

/-- A `probe` table, as written. -/
structure ProbeDef where
  mode : Str
  port : Option UInt16 := none
  sni : Option Str := none
  url : Option Str := none
  expectStatus : List UInt16 := []
  timeout : Option Duration := none
  ech : Option EchConfig := none
  verify : Option VerifyConfig := none
  interval : Option Duration := none
  degradedInterval : Option Duration := none
  failThreshold : Option ℕ := none
  maxConcurrentProbes : Option ℕ := none
  scorePayloadBytes : Option ℕ := none
  throughputDiscount : Option F64 := none
  rttProcessNoise : Option F64 := none
  rttObsNoise : Option F64 := none
deriving DecidableEq, Repr

/-- A probe reduced to what its mode uses. -/
inductive ProbeSpec
  | tcp (port : Option UInt16) (timeout : Option Duration)
  | tls (port : Option UInt16) (sni : Str) (timeout : Option Duration) (ech : Option EchConfig)
    (verify : Option VerifyConfig)
  | http (url : Url) (expectStatus : List UInt16) (timeout : Option Duration)
    (ech : Option EchConfig) (verify : Option VerifyConfig)
deriving DecidableEq, Repr

namespace ProbeSpec

def ech : ProbeSpec → Option EchConfig
  | tcp .. => none
  | tls _ _ _ ech _ | http _ _ _ ech _ => ech

def verify : ProbeSpec → Option VerifyConfig
  | tcp .. => none
  | tls _ _ _ _ verify | http _ _ _ _ verify => verify

/-- Whether the probe performs a TLS handshake. -/
def handshakes : ProbeSpec → Bool
  | tcp .. => false
  | tls .. => true
  | http url .. => url.scheme = "https".toList

end ProbeSpec

/-- Refuse a field the mode cannot act on. -/
def meaninglessIf (c : Prop) [Decidable c] (field mode why : String) : Except Str Unit :=
  rejectIf c ["\x60".toList, field.toList, "\x60 is meaningless for ".toList, mode.toList,
    " mode (".toList, why.toList, ")".toList]

namespace ProbeDef

variable (parsers : PoolParsers) (d : ProbeDef)

/-- The reduction of a `tcp` probe. -/
def reduceTcp : Except Str ProbeSpec := do
  meaninglessIf d.sni.isSome "sni" "tcp" "no TLS handshake is performed"
  meaninglessIf d.url.isSome "url" "tcp" "no request is sent"
  meaninglessIf (d.expectStatus ≠ []) "expect_status" "tcp" "no response is read"
  meaninglessIf d.ech.isSome "ech" "tcp" "no TLS handshake is performed"
  meaninglessIf d.verify.isSome "verify" "tcp"
    "no certificate is presented, so there is nothing to verify"
  return .tcp d.port d.timeout

/-- The reduction of a `tls` probe. -/
def reduceTls : Except Str ProbeSpec := do
  meaninglessIf d.url.isSome "url" "tls" "use \x60sni\x60; no request is sent"
  meaninglessIf (d.expectStatus ≠ []) "expect_status" "tls" "the probe stops at the handshake"
  match (d.sni.map trim).filter (· ≠ []) with
  | none => reject ["tls probe mode requires a non-empty \x60sni\x60".toList]
  | some sni => return .tls d.port sni d.timeout d.ech d.verify

/-- The URL of an `http` probe. -/
def reduceUrl : Except Str Url := do
  match d.url with
  | none => reject ["http probe mode requires a \x60url\x60".toList]
  | some raw =>
    let url ← (parsers.url raw).mapError fun e ↦
      ["invalid \x60url\x60 ".toList, debugStr raw, ": ".toList, e].flatten
    rejectIf (url.scheme ≠ "http".toList ∧ url.scheme ≠ "https".toList)
      ["\x60url\x60 scheme must be http or https, not ".toList, debugStr url.scheme]
    rejectIf (url.host = none) ["\x60url\x60 ".toList, debugStr raw, " has no host".toList]
    return url

/-- The reduction of an `http` probe. -/
def reduceHttp : Except Str ProbeSpec := do
  meaninglessIf d.sni.isSome "sni" "http" "the URL's host is the server name"
  meaninglessIf d.port.isSome "port" "http" "put the port in the URL"
  let url ← d.reduceUrl parsers
  rejectIf (d.expectStatus = []) ["http probe mode requires a non-empty \x60expect_status\x60".toList]
  d.expectStatus.forM fun code ↦
    rejectIf (code < 100 ∨ 599 < code)
      [decimal code.toNat, " is not an HTTP status code in \x60expect_status\x60".toList]
  meaninglessIf (d.ech.isSome ∧ url.scheme ≠ "https".toList) "ech" "http"
    "the URL is cleartext; use an https:// URL"
  meaninglessIf (d.verify.isSome ∧ url.scheme ≠ "https".toList) "verify" "http"
    "the URL is cleartext, so no certificate is presented; use an https:// URL"
  return .http url d.expectStatus d.timeout d.ech d.verify

/-- Reduce a probe to what its mode uses. -/
def reduce : Except Str ProbeSpec :=
  if d.mode = "tcp".toList then d.reduceTcp
  else if d.mode = "tls".toList then d.reduceTls
  else if d.mode = "http".toList then d.reduceHttp parsers
  else reject ["unknown probe mode ".toList, debugStr d.mode, "; expected tcp, tls or http".toList]

/-- Check the timing and scoring parameters. -/
def validateParameters : Except Str Unit := do
  [("timeout", d.timeout), ("interval", d.interval),
    ("degraded_interval", d.degradedInterval)].forM fun p ↦
      rejectIf (p.2 = some 0)
        ["\x60".toList, p.1.toList, "\x60 must be greater than zero".toList]
  rejectIf (d.failThreshold = some 0)
    ["\x60fail_threshold\x60 must be at least 1 (0 would degrade a candidate ".toList,
      "that never failed)".toList]
  rejectIf (d.maxConcurrentProbes.any fun n ↦ n = 0 ∨ 4096 < n)
    ["\x60max_concurrent_probes\x60 must be between 1 and 4096".toList]
  rejectIf (d.throughputDiscount.any fun v ↦ v.fails fun q ↦ q ≤ 0 ∨ 1 < q)
    ["\x60throughput_discount\x60 must be finite and in (0, 1]".toList]
  rejectIf (d.rttProcessNoise.any fun v ↦ v.fails fun q ↦ q < 0)
    ["\x60rtt_process_noise\x60 must be finite and nonnegative".toList]
  rejectIf (d.rttObsNoise.any fun v ↦ v.fails fun q ↦ q ≤ 0)
    ["\x60rtt_obs_noise\x60 must be finite and positive".toList]

/-- `ProbeDef::validate`. -/
def validate : Except Str ProbeSpec := do
  let spec ← d.reduce parsers
  d.validateParameters
  return spec

end ProbeDef

/-! ## Pools -/

/-- NAT64 projection of a pool's IPv4 candidates, as written. -/
structure PoolNat64Def where
  prefixes : List Str
  /-- The participating targets; every one when not written. -/
  from_ : Option (List ℕ) := none
  timeout : Option Duration := none
deriving DecidableEq, Repr

/-- A pool, as written. -/
structure PoolDef where
  targets : List TargetDef
  fallback : Option ℕ := none
  probe : ProbeDef
  nat64 : Option PoolNat64Def := none
  resolver : Option Str := none
deriving DecidableEq, Repr

/-- The fully-resolved ECH settings for one pool probe. -/
structure EffectiveProbeEch where
  settings : EffectiveEch
  requireEch : Bool
  echRefresh : Duration
  /-- Never inherited. -/
  echResolver : Option Str
deriving DecidableEq, Repr

/-- An `[ech]` block with what it inherits from `[global.ech]`. -/
def EchConfig.inherit (ech : EchConfig) (global : Global) : EffectiveEch :=
  let tiers := [some ech, global.ech]
  { mode := (firstField tiers EchConfig.mode).getD .doh
    config := firstField tiers EchConfig.config
    echDomain := firstField tiers EchConfig.echDomain
    maxRetries := (firstField tiers EchConfig.maxRetries).getD 2 }

/-- `EffectiveProbeEch::resolve`. -/
def EffectiveProbeEch.resolve (ech : EchConfig) (global : Global) : EffectiveProbeEch :=
  let tiers := [some ech, global.ech]
  { settings := ech.inherit global
    requireEch := (firstSome [firstField tiers EchConfig.requireEch,
      global.common.requireEch]).getD true
    echRefresh := (firstSome [firstField tiers EchConfig.echRefresh,
      global.common.echRefresh]).getD defaultEchRefresh
    echResolver := ech.echResolver }

/-- `EffectiveVerify::resolve`: the ladder of the objects that stand right below `[global]`. -/
def EffectiveVerify.resolve (own : Option VerifyConfig) (global : Global) : EffectiveVerify :=
  .merge [own] [global.verify]

end SniGate
