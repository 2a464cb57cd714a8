import SniGate.Config.Error
import SniGate.Collections.Map
import SniGate.Net.Parse
import SniGate.Router.Basic

/-!
# The configuration document

The tables of the document as far as routing, upstream identity and ECH sources depend on them.
Every setting that a deeper scope may override is optional; absence means that the enclosing scope
decides. Of the tables of the CA, the store, the caches, the resolvers and the pools only what other
tables are checked against is kept; of a pool that is the number of its targets.

What the document is checked against outside this program is collected in `Externals`.

## Design choices

Strings of the document are lists of characters, as everywhere here. Tables are finite maps, and
lists stand in the order of the document. Numbers have the width they have in the source where a
check depends on it, and durations are natural numbers of nanoseconds.
-/

namespace SniGate

/-! ## Enumerations -/

/-- How an upstream connection is made. -/
inductive RouteType
  | ech
  | tls
  | http
  | raw
deriving DecidableEq, Repr

/-- The spelling of a route type. -/
def RouteType.str : RouteType → Str
  | ech => "ech".toList
  | tls => "tls".toList
  | http => "http".toList
  | raw => "raw".toList

/-- Upstream address family selection. -/
inductive AddressFamily
  | dual
  | ipv4
  | ipv6
deriving DecidableEq, Repr

/-- `Debug for AddressFamily`. -/
def AddressFamily.debug : AddressFamily → Str
  | dual => "Dual".toList
  | ipv4 => "Ipv4".toList
  | ipv6 => "Ipv6".toList

/-- How the ECHConfigList for a route is sourced. -/
inductive EchMode
  | doh
  | static
  | dohWithFallback
deriving DecidableEq, Repr

/-- `Debug for EchMode`. -/
def EchMode.debug : EchMode → Str
  | doh => "Doh".toList
  | static => "Static".toList
  | dohWithFallback => "DohWithFallback".toList

/-- What an upstream certificate must prove. -/
inductive VerifyMode
  | full
  | chain
  | none
deriving DecidableEq, Repr

/-- `VerifyMode::as_str`. -/
def VerifyMode.asStr : VerifyMode → Str
  | full => "full".toList
  | chain => "chain".toList
  | none => "none".toList

/-- A pool candidate filter entry. -/
inductive Selector
  | index (i : ℕ)
  | tag (name : Str)
deriving DecidableEq, Repr

/-- What a failed startup h2c probe does. -/
inductive H2Probe
  | off
  | warn
  | require
deriving DecidableEq, Repr

/-- A span of time, in nanoseconds. -/
abbrev Duration := ℕ

/-- `Duration::from_secs`. -/
def fromSecs (n : ℕ) : Duration := n * 10 ^ 9

/-! ## Tables -/

/-- `[ech]`, as written. -/
structure EchConfig where
  mode : Option EchMode := none
  config : Option Str := none
  echDomain : Option Str := none
  requireEch : Option Bool := none
  maxRetries : Option ℕ := none
  echRefresh : Option Duration := none
  echResolver : Option Str := none
deriving DecidableEq, Repr

/-- `[verify]`, as written. -/
structure VerifyConfig where
  mode : Option VerifyMode := none
  name : Option Str := none
  pins : Option (List Str) := none
  caFile : Option Str := none
  trustWebpki : Option Bool := none
deriving DecidableEq, Repr

/-- `[http2]`, as written. -/
structure Http2Config where
  enabled : Option Bool := none
  probe : Option H2Probe := none
  probeTimeout : Option Duration := none
deriving DecidableEq, Repr

/-- Settings that may be set at any scope and inherit outward. -/
structure CommonOpts where
  resolver : Option Str := none
  echResolver : Option Str := none
  addrResolver : Option Str := none
  echRefresh : Option Duration := none
  nat64Prefix : Option Str := none
  addressFamily : Option AddressFamily := none
  requireEch : Option Bool := none
  connectTimeout : Option Duration := none
  idleTimeout : Option Duration := none
deriving DecidableEq, Repr

/-- A socket address. -/
structure SocketAddr where
  ip : IpAddr
  port : UInt16
deriving DecidableEq, Repr

/-- `Display for SocketAddr`. -/
def SocketAddr.toStr (a : SocketAddr) : Str :=
  match a.ip with
  | .v4 _ => a.ip.toStr ++ ':' :: decimal a.port.toNat
  | .v6 _ => '[' :: (a.ip.toStr ++ "]:".toList ++ decimal a.port.toNat)

/-- What to do when a connection cannot be served. -/
inductive FailPolicy
  /-- Drop the connection. -/
  | close
  /-- Dial the real target named by the SNI/Host. -/
  | systemOutbound
  /-- Splice the raw stream to a fixed address. -/
  | passthrough (addr : SocketAddr)
deriving DecidableEq, Repr

/-- A reusable bundle of route or listener settings. -/
structure Template where
  routeType : Option RouteType := none
  upstream : Option Str := none
  overrideSni : Option Str := none
  certFile : Option Str := none
  keyFile : Option Str := none
  ech : Option EchConfig := none
  http2 : Option Http2Config := none
  verify : Option VerifyConfig := none
  select : Option (List Selector) := none
  common : CommonOpts := {}
  fail : Option FailPolicy := none
deriving DecidableEq, Repr

/-- One SNI/Host-matched forwarding rule. -/
structure Route where
  name : Option Str := none
  useTemplate : Option Str := none
  routeType : Option RouteType := none
  matchSni : List Str := []
  upstream : Option Str := none
  overrideSni : Option Str := none
  ech : Option EchConfig := none
  http2 : Option Http2Config := none
  verify : Option VerifyConfig := none
  certFile : Option Str := none
  keyFile : Option Str := none
  select : Option (List Selector) := none
  common : CommonOpts := {}
  fail : Option FailPolicy := none
deriving DecidableEq, Repr

/-- One inbound bind address and its routes. -/
structure Listener where
  addr : SocketAddr
  useTemplate : Option Str := none
  common : CommonOpts := {}
  ech : Option EchConfig := none
  http2 : Option Http2Config := none
  verify : Option VerifyConfig := none
  routes : List Route := []
  defaultRoute : Option Route := none
deriving DecidableEq, Repr

/-- The outermost fallback scope. -/
structure Global where
  common : CommonOpts := {}
  ech : Option EchConfig := none
  http2 : Option Http2Config := none
  verify : Option VerifyConfig := none
  /-- The policy for connections that match no route. -/
  unmatched : FailPolicy := .close
deriving DecidableEq, Repr

/-- `[ca]`. -/
structure CaConfig where
  leafValidityDays : UInt32 := 397
deriving DecidableEq, Repr

/-- `[store]`. -/
structure StoreConfig where
  enabled : Bool := true
  /-- The components of the directory's path. -/
  dir : List Str := ["certs".toList]
  renewMarginDays : UInt32 := 30
deriving DecidableEq, Repr

/-- `[cache]`. -/
structure CacheConfig where
  ttlSecs : UInt64 := 24 * 60 * 60
deriving DecidableEq, Repr

/-- A declared resolver: what it refers to. -/
structure ResolverDef where
  bootstrap : Option Str := none
  ech : Option EchConfig := none
deriving DecidableEq, Repr

/-- The document. -/
structure Config where
  global : Global := {}
  ca : CaConfig := {}
  store : StoreConfig := {}
  cache : CacheConfig := {}
  resolvers : Map Str ResolverDef := ∅
  templates : Map Str Template := ∅
  /-- The number of targets of each pool. -/
  pools : Map Str ℕ := ∅
  regexes : Map Str RegexDef := ∅
  listeners : List Listener

/-- Every route of a listener, the default one last. -/
def Listener.allRoutes (l : Listener) : List Route := l.routes ++ l.defaultRoute.toList

/-- What a document is checked against: the regular expression engine, the base64 decoder, and the
parser of server names. -/
structure Externals where
  regexNew : RegexNew
  /-- `base64::engine::general_purpose::STANDARD.decode`, or an error text. -/
  base64 : Str → Except Str Bytes
  /-- Whether `ServerName::try_from` accepts a text. -/
  serverName : Str → Bool

/-- No regular expression, base64 text or server name is accepted. -/
def Externals.refusing : Externals where
  regexNew _ := .error []
  base64 _ := .error []
  serverName _ := false

/-! ## Inheritance -/

/-- The value of the deepest scope that has one. -/
def firstSome {α : Type} (tiers : List (Option α)) : Option α := tiers.findSome? id

/-- The value of one field in the deepest scope that sets it; absent tables set nothing. -/
def firstField {β α : Type} (tiers : List (Option β)) (field : β → Option α) : Option α :=
  firstSome (tiers.map fun t ↦ t.bind field)

/-- The template a `use` names. -/
def Config.templateFor (cfg : Config) (name : Option Str) : Except ConfigError (Option Template) :=
  match name with
  | none => .ok none
  | some n =>
    match cfg.templates.lookup n with
    | some t => .ok (some t)
    | none =>
      refuse ["unknown template ".toList, debugStr n, " (no matching [templates.".toList, n,
        "])".toList]

/-- The protocol type, the route's own before its template's. -/
def effectiveRouteType (route : Route) (rtTpl : Option Template) : Option RouteType :=
  firstSome [route.routeType, rtTpl.bind Template.routeType]

/-- Display name for logs. -/
def Route.label (r : Route) : Str :=
  (firstSome [r.name, r.matchSni.head?, r.routeType.map RouteType.str]).getD "route".toList

/-- The upstream spec this route dials. -/
def Route.upstreamSpec (r : Route) (tpl : Option Template) : Option Str :=
  firstSome [r.upstream, tpl.bind Template.upstream]

/-- The pool candidate filter for this route. -/
def Route.selectFor (r : Route) (tpl : Option Template) : Option (List Selector) :=
  firstSome [r.select, tpl.bind Template.select]

/-- The pinned pair, from the first scope that sets either half. -/
def Route.certKey (r : Route) (tpl : Option Template) : Option Str × Option Str :=
  if r.certFile.isSome ∨ r.keyFile.isSome then (r.certFile, r.keyFile)
  else
    match tpl with
    | some t => (t.certFile, t.keyFile)
    | none => (none, none)

end SniGate
