import SniGate.Config.Types

/-!
# Upstreams and presented names

An `upstream` names a pool, a port, a host, or both of the last two; what it leaves out is defaulted
from the listener and the connection. The name presented upstream is a policy of its own.
-/

namespace SniGate

/-- What SNI to present on the upstream handshake. -/
inductive SniPolicy
  /-- Present the inbound name. -/
  | reflect
  | fixed (name : Str)
  /-- Send no `server_name` extension. -/
  | omitted
deriving DecidableEq, Repr

/-- Map a raw `override_sni` value onto a policy; a blank one withholds the extension. -/
def SniPolicy.resolve (overrideSni : Option Str) : SniPolicy :=
  match overrideSni with
  | none => .reflect
  | some s => if trim s = [] then .omitted else .fixed (trim s)

/-- The upstream SNI policy of a route, resolved on presence. -/
def Route.sniPolicy (r : Route) (tpl : Option Template) : SniPolicy :=
  .resolve (firstSome [r.overrideSni, tpl.bind Template.overrideSni])

/-- Where an `upstream` sends a connection. -/
inductive UpstreamHost
  /-- Use the matched source name. -/
  | reflect
  | fixed (host : Str)
  | pool (name : Str)
deriving DecidableEq, Repr

/-- A parsed `upstream`. -/
structure UpstreamSpec where
  host : UpstreamHost
  port : Option UInt16
deriving DecidableEq, Repr

/-- A fully resolved `upstream`. -/
structure ResolvedUpstream where
  host : UpstreamHost
  port : UInt16
deriving DecidableEq, Repr

/-- `str::rsplit_once` with a single character. -/
def rsplitOnce (c : Char) (s : Str) : Option (Str × Str) :=
  (splitOnce c s.reverse).map fun p ↦ (p.2.reverse, p.1.reverse)

/-- Parse `host:port` or `[v6]:port`. -/
def splitHostPort (s : Str) : Option (Str × UInt16) :=
  let s := trim s
  match stripStart ['['] s with
  | some rest => do
    let (host, tail) ← splitOnce ']' rest
    let _ ← parseIpv6 host
    let port ← stripStart [':'] tail
    return (host, ← parseU16 port)
  | none => do
    let (host, port) ← rsplitOnce ':' s
    if host = [] ∨ ':' ∈ host then none else return (host, ← parseU16 port)

/-- Parse a non-empty `upstream`. -/
def parseUpstream (s : Str) : Option UpstreamSpec :=
  let s := trim s
  if s = [] then none
  else
    match stripStart ['@'] s with
    | some rest => do
      let (name, port) ←
        match rsplitOnce ':' rest with
        | some (n, p) => (parseU16 p).map fun port ↦ (n, some port)
        | none => some (rest, none)
      let name := trim name
      if name = [] then none else return { host := .pool name, port }
    | none =>
      if s.all Char.isDigit then (parseU16 s).map fun port ↦ { host := .reflect, port := some port }
      else if ':' ∈ s then
        (splitHostPort s).map fun p ↦ { host := .fixed p.1, port := some p.2 }
      else some { host := .fixed s, port := none }

/-- Resolve an upstream against the listener's port. -/
def resolvedUpstreamFrom (spec : Option Str) (listenerPort : UInt16) : Option ResolvedUpstream :=
  match spec with
  | none => some { host := .reflect, port := listenerPort }
  | some spec =>
    (parseUpstream spec).map fun parsed ↦
      { host := parsed.host, port := parsed.port.getD listenerPort }

example : parseUpstream "@edge:8443".toList = some ⟨.pool "edge".toList, some 8443⟩ := by
  decide +kernel

end SniGate
