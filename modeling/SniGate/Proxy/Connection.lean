import SniGate.Dns.Lookup
import SniGate.Ech.Client
import SniGate.Interaction.Program
import SniGate.Listener.Build
import SniGate.Proxy.RoutingKey
import SniGate.Store.Sidecar

/-!
# One connection

What happens to an accepted connection is a program: it looks at the first bytes, finds the route,
and then dials, shakes hands and splices as the route says. What it asks of the sockets, of DNS, of
the TLS library, of the pool, of the ECH provider and of the certificate resolver is a `ConnOp`, and
the program branches on the answers. The race of two addresses, the splice, the provider and the
resolver have machines of their own; here each is one question.

Terminated connections come in two orders. Without HTTP/2 the inbound handshake is finished first.
With it, on a route that originates TLS, the upstream is dialed first, and what it selects decides
what the client is offered.
-/

namespace SniGate

/-! ## What is asked -/

/-- The status of ECH after a handshake. -/
inductive EchStatus
  | notOffered
  | grease
  | offered
  | accepted
  | rejected
deriving DecidableEq, Repr

def EchStatus.debug : EchStatus → Str
  | notOffered => "NotOffered".toList
  | grease => "Grease".toList
  | offered => "Offered".toList
  | accepted => "Accepted".toList
  | rejected => "Rejected".toList

/-- An upstream client configuration, with ECH or without. -/
structure UpstreamConfig (κ V : Type) where
  echMode : Option (Rustls.EchMode κ)
  verify : V
  enableSni : Bool
  alpnProtocols : List Bytes

/-- The configuration that an ECH provider hands out. -/
def ClientConfig.upstream {κ V : Type} (c : ClientConfig κ V) : UpstreamConfig κ V :=
  ⟨some c.echMode, c.verify, c.enableSni, c.alpnProtocols⟩

/-- A connected socket; its peer address may be unavailable. -/
structure TcpConn where
  peer : Option SocketAddr
deriving DecidableEq, Repr

/-- A completed upstream handshake. -/
structure TlsSession (Der : Type) where
  alpnProtocol : Option Bytes
  echStatus : EchStatus
  peerCertificates : Option (List Der)

/-- How an upstream handshake fails. -/
inductive HandshakeError
  | timedOut
  /-- The server rejected ECH. -/
  | echRejected (chain : ErrorChain)
  | other (chain : ErrorChain)

/-- The client's end of a splice: its stream as it came, or what a finished handshake made of it. -/
inductive Inner
  | tcp
  | tls (alpnProtocol : Option Bytes)
deriving DecidableEq, Repr

/-- The upstream's end of a splice. -/
inductive Outer (Der : Type)
  | tcp (conn : TcpConn)
  | tls (conn : TcpConn) (session : TlsSession Der)

/-- What is handed to a task of its own. Nobody waits for it: it may run at any time from then on,
also after the connection, and what comes of it is for later connections. -/
inductive DetachedTask
  /-- `DynamicCertResolver::record_upstream_sans`. -/
  | recordUpstreamSans (sniHost : Str) (observed : List Str)
deriving DecidableEq, Repr

/-- What a connection asks of its surroundings: `ρ` are resolvers, `κ` ECH configurations, `V`
verifiers, and `Der` certificates. -/
inductive ConnOp (ρ κ V Der : Type)
  /-- Peek until the connection is classified. -/
  | classify
  /-- Read the client's hello, without committing to a configuration. -/
  | clientHello
  /-- Finish the inbound handshake, advertising these protocols. -/
  | intoStream (alpnProtocols : List Bytes)
  | lookupAddr (resolver : ρ) (host : Str) (port : UInt16) (family : AddressFamily)
      (nat64 : Option Nat64Prefix)
  | pick (pool : Str) (view : ℕ) (port : UInt16)
  /-- Connect to one of the addresses within the time. -/
  | dial (addrs : ResolvedAddrs) (connectTimeout : Duration)
  /-- Let the system resolve a name and connect. -/
  | connectHost (host : Str) (port : UInt16)
  | handshake (config : UpstreamConfig κ V) (serverName : Str) (conn : TcpConn)
      (connectTimeout : Duration)
  | echClient (innerName : Str) (alpn : List Bytes)
  | invalidateAfterRejection (innerName : Str) (generation : ℕ)
  | mirrorIsCurrent (sniHost : Str) (observed : List Str)
  /-- Spawn a task; only that it is spawned is answered. -/
  | spawnBlocking (task : DetachedTask)
  | splice (inner : Inner) (outer : Outer Der) (idle : Duration) (observer : Option IpAddr)

/-- What comes back. -/
abbrev ConnOp.Answer {ρ κ V Der : Type} : ConnOp ρ κ V Der → Type
  | classify => Inbound
  | clientHello => Except ErrorChain (Option (List Bytes))
  | intoStream _ => Except ErrorChain (Option Bytes)
  | lookupAddr .. => Except ErrorChain ResolvedAddrs
  | pick .. => Except ErrorChain SocketAddr
  | dial .. => Except ErrorChain TcpConn
  | connectHost .. => Except ErrorChain TcpConn
  | handshake .. => Except HandshakeError (TlsSession Der)
  | echClient .. => Except ErrorChain (EchClient κ V)
  | invalidateAfterRejection .. => Bool
  | mirrorIsCurrent .. => Bool
  | spawnBlocking _ => Unit
  | splice .. => Except ErrorChain Unit

/-- An exchange of a connection with its surroundings. -/
abbrev ConnExchange (ρ κ V Der : Type) := Exchange (@ConnOp.Answer ρ κ V Der)

/-- How a connection fails: with an error that is logged, or by a panic of its task. -/
inductive ConnFailure
  | error (chain : ErrorChain)
  | panicked
deriving DecidableEq, Repr

/-- A part of what happens to a connection. -/
abbrev ConnTask (ρ κ V Der α : Type) :=
  Program (ConnOp ρ κ V Der) ConnOp.Answer ConnFailure α

/-! ## What it is done with -/

/-- The protocols that can be spliced, most preferred first. -/
def supportedAlpn : List Bytes := [toUtf8 "h2".toList, toUtf8 "http/1.1".toList]

abbrev alpnH2 : Bytes := toUtf8 "h2".toList

abbrev alpnHttp11 : Bytes := toUtf8 "http/1.1".toList

/-- The configurations of a `tls` route, one for each offer. -/
structure ClientConfigs (κ V : Type) where
  none : UpstreamConfig κ V
  h1 : UpstreamConfig κ V
  h2 : UpstreamConfig κ V
  h2h1 : UpstreamConfig κ V

/-- Build the four variants under one verification policy. -/
def ClientConfigs.new {κ V : Type} (verify : V) (enableSni : Bool) : ClientConfigs κ V :=
  let build (alpn : List Bytes) : UpstreamConfig κ V := ⟨.none, verify, enableSni, alpn⟩
  { none := build [], h1 := build [alpnHttp11], h2 := build [alpnH2],
    h2h1 := build [alpnH2, alpnHttp11] }

/-- The configuration advertising an offer. -/
def ClientConfigs.select {κ V : Type} (c : ClientConfigs κ V) (offer : List Bytes) :
    UpstreamConfig κ V :=
  match decide (alpnH2 ∈ offer), decide (alpnHttp11 ∈ offer) with
  | true, true => c.h2h1
  | true, false => c.h2
  | false, true => c.h1
  | false, false => c.none

/-- The data path of one route, whole. -/
structure DataPath (ρ κ V : Type) extends RouteRuntime ρ V where
  http2 : Bool
  connectTimeout : Duration
  idleTimeout : Duration
  fail : FailPolicy
  /-- Prebuilt upstream configurations. -/
  tls : Option (ClientConfigs κ V)

/-- What every connection of a listener shares. -/
structure Gateway (ρ κ V Der Key : Type) where
  router : Router
  routes : List (DataPath ρ κ V)
  unmatched : FailPolicy
  /-- `ServerName::try_from` accepts the name. -/
  serverName : Str → Bool
  /-- The name a verifier checks instead of the requested one. -/
  nameOverride : V → Option Str
  /-- Whether the pool of this name wants observations. -/
  observesTransfers : Str → Bool
  codec : CertCodec Der Key

/-- Narrow a client's offer to what can be spliced, in the gateway's order. -/
def negotiableAlpn (clientOffer : Option (List Bytes)) : List Bytes :=
  match clientOffer with
  | none => []
  | some offered => supportedAlpn.filter fun ours ↦ ours ∈ offered

/-- What to advertise to the client, given what the upstream selected. -/
def mirrorChoice (upstreamSelected : Option Bytes) (clientOfferedAny : Bool) : List Bytes :=
  if upstreamSelected = some alpnH2 then [alpnH2]
  else if upstreamSelected = some alpnHttp11 then [alpnHttp11]
  else if clientOfferedAny then [alpnHttp11]
  else []

section Parts

variable {ρ κ V Der Key : Type}

/-- Fail with a message. -/
def bail {α : Type} (parts : List Str) : ConnTask ρ κ V Der α := .fail (.error [parts.flatten])

/-- Go on with an answer that may be an error, whose chain is added to. -/
def withContext {α : Type} (context : List Str) (answer : Except ErrorChain α) :
    ConnTask ρ κ V Der α :=
  .ofExcept (answer.mapError fun e ↦ .error (context ++ e))

/-- The host to dial, for a direct upstream. -/
def Upstream.dialHost (u : Upstream ρ) (key : Option Str) : Option Str :=
  match u with
  | .direct (some fixed) .. => some fixed
  | .direct none .. => key.map stripPort
  | .pool .. => none

/-- Where to dial. -/
def Upstream.resolve (u : Upstream ρ) (port : UInt16) (dialHost : Option Str) (route : Str) :
    ConnTask ρ κ V Der ResolvedAddrs :=
  match u with
  | .direct _ family nat64 resolver =>
    match dialHost with
    | none =>
      bail ["route ".toList, route, " reflects the source SNI/Host upstream, but the ".toList,
        "connection presented none".toList]
    | some host => do
      let answer ← Program.query (ConnOp.lookupAddr resolver host port family nat64)
      withContext ["resolving upstream ".toList ++ host] answer
  | .pool name view => do
    let answer ← Program.query (ConnOp.pick name view port)
    let addr ←
      withContext ["route ".toList ++ route ++ ": selecting a pool endpoint".toList] answer
    return .single addr

/-- Connect to one of the addresses. -/
def dial (addrs : ResolvedAddrs) (connectTimeout : Duration) : ConnTask ρ κ V Der TcpConn := do
  let answer ← Program.query (ConnOp.dial addrs connectTimeout)
  withContext [] answer

/-- Splice two streams until they end. -/
def spliceStreams (inner : Inner) (outer : Outer Der) (idle : Duration)
    (observer : Option IpAddr) : ConnTask ρ κ V Der Unit := do
  let answer ← Program.query (ConnOp.splice inner outer idle observer)
  withContext [] answer

variable (gw : Gateway ρ κ V Der Key) (rt : DataPath ρ κ V)

/-- The address to report a transfer for, if its pool observes transfers. -/
def transferObserver (peer : Option SocketAddr) : Option IpAddr :=
  match rt.upstream with
  | .direct .. => none
  | .pool name _ => if gw.observesTransfers name then peer.map SocketAddr.ip else none

/-- The verifier's own name as a last source of a name, for a route that transmits none. -/
def silentNameOverride : Option Str :=
  if rt.sniPolicy ≠ .omitted then none else rt.verify.bind gw.nameOverride

/-- The name a `tls` route verifies the upstream certificate against. -/
def tlsVerificationName (sni dialHost : Option Str) : ConnTask ρ κ V Der Str :=
  match sni, dialHost, silentNameOverride gw rt with
  | some name, _, _ => return name
  | none, some host, _ => return host
  | none, none, some fixed => return fixed
  | none, none, none =>
    bail ["tls route ".toList, rt.name,
      ": no name to verify the upstream certificate against — the ".toList,
      "connection carried no SNI/Host, and an upstream pool selects an address ".toList,
      "rather than a name. Set \x60override_sni\x60 on this route".toList]

/-- The inner name an `ech` route puts in the encrypted hello. -/
def echInnerName (sni : Option Str) : ConnTask ρ κ V Der Str :=
  match sni, silentNameOverride gw rt with
  | some name, _ => return name
  | none, some fixed => return fixed
  | none, none =>
    bail ["ech route ".toList, rt.name,
      ": the connection carried no SNI/Host to use as the ".toList,
      "inner name, and no override_sni supplies one".toList]

/-! ## Upstream handshakes -/

/-- Dial a plain-TLS upstream. -/
def dialTls (addrs : ResolvedAddrs) (serverName : Str) (alpn : List Bytes) :
    ConnTask ρ κ V Der (TcpConn × TlsSession Der) :=
  match rt.tls with
  | none => bail ["tls route ".toList, rt.name, " missing its upstream TLS configs".toList]
  | some configs =>
    if ¬gw.serverName serverName then bail ["invalid upstream SNI ".toList, debugStr serverName]
    else do
      let conn ← dial addrs rt.connectTimeout
      match ← Program.query
        (ConnOp.handshake (configs.select alpn) serverName conn rt.connectTimeout) with
      | .ok session => return (conn, session)
      | .error .timedOut => bail ["upstream TLS handshake timed out".toList]
      | .error (.echRejected e) | .error (.other e) =>
        .fail (.error ("upstream TLS handshake".toList :: e))

/-- One attempt to dial an ECH upstream. A rejection is a value, with the generation rejected. -/
def echAttempt (addrs : ResolvedAddrs) (inner : Str) (alpn : List Bytes) :
    ConnTask ρ κ V Der (Except (ErrorChain × ℕ) (TcpConn × TlsSession Der)) := do
  let answer ← Program.query (ConnOp.echClient inner alpn)
  let client ← withContext ["assembling ECH client config".toList] answer
  let conn ← dial addrs rt.connectTimeout
  match ← Program.query
    (ConnOp.handshake client.clientConfig.upstream inner conn rt.connectTimeout) with
  | .ok session =>
    if rt.requireEch ∧ session.echStatus ≠ .accepted then
      bail ["ECH required but status was ".toList, session.echStatus.debug]
    else return .ok (conn, session)
  | .error (.echRejected e) => return .error (e, client.generation)
  | .error (.other e) => .fail (.error ("upstream ECH handshake".toList :: e))
  | .error .timedOut => bail ["upstream ECH handshake timed out".toList]

/-- The attempts, when so many may still be retried. -/
def dialEchFrom (addrs : ResolvedAddrs) (inner : Str) (alpn : List Bytes) :
    ℕ → ConnTask ρ κ V Der (TcpConn × TlsSession Der)
  | 0 => do
    match ← echAttempt rt addrs inner alpn with
    | .ok up => return up
    | .error (e, _) => .fail (.error ("upstream ECH handshake".toList :: e))
  | retries + 1 => do
    match ← echAttempt rt addrs inner alpn with
    | .ok up => return up
    | .error (_, generation) =>
      let _ ← Program.query (ConnOp.invalidateAfterRejection inner generation)
      dialEchFrom addrs inner alpn retries

/-- Dial an ECH upstream, with retry on ECH rejection. -/
def dialEch (addrs : ResolvedAddrs) (inner : Str) (alpn : List Bytes) :
    ConnTask ρ κ V Der (TcpConn × TlsSession Der) :=
  if rt.ech.isNone then bail ["ech route ".toList, rt.name, " missing ECH provider".toList]
  else if ¬gw.serverName inner then bail ["invalid inner SNI ".toList, debugStr inner]
  else dialEchFrom rt addrs inner alpn rt.maxRetries

/-- Hand the names of the upstream's certificate to a task that records them, where they say
something about the inbound name and are not mirrored yet. -/
def recordUpstreamCoverage (sni : Option Str) (session : TlsSession Der) :
    ConnTask ρ κ V Der Unit :=
  if rt.sniPolicy ≠ .reflect then return
  else
    match sni, session.peerCertificates with
    | some sni, some chain => do
      let observed := observedDnsSans gw.codec chain
      match ← Program.query (ConnOp.mirrorIsCurrent sni observed) with
      | true => return
      | false => Program.query (ConnOp.spawnBlocking (.recordUpstreamSans sni observed))
    | _, _ => return

/-! ## Serving -/

/-- Dial the upstream per route type and splice. -/
def forward (inner : Inner) (sni dialHost : Option Str) : ConnTask ρ κ V Der Unit := do
  let addrs ← rt.upstream.resolve rt.upstreamPort dialHost rt.name
  match rt.routeType with
  | .http => do
    let up ← dial addrs rt.connectTimeout
    spliceStreams inner (.tcp up) rt.idleTimeout (transferObserver gw rt up.peer)
  | .tls => do
    let name ← tlsVerificationName gw rt sni dialHost
    let (conn, session) ← dialTls gw rt addrs name []
    recordUpstreamCoverage gw rt sni session
    spliceStreams inner (.tls conn session) rt.idleTimeout (transferObserver gw rt conn.peer)
  | .ech => do
    let name ← echInnerName gw rt sni
    let (conn, session) ← dialEch gw rt addrs name []
    recordUpstreamCoverage gw rt sni session
    spliceStreams inner (.tls conn session) rt.idleTimeout (transferObserver gw rt conn.peer)
  | .raw => .fail .panicked

/-- Terminate inbound TLS, then re-originate. -/
def serveTerminated (sni dialHost : Option Str) : ConnTask ρ κ V Der Unit := do
  let config := if rt.http2 ∧ rt.routeType = .http then [alpnH2, alpnHttp11] else [alpnHttp11]
  let hello ← Program.query ConnOp.clientHello
  let _ ← withContext [] hello
  let answer ← Program.query (ConnOp.intoStream config)
  let alpn ← withContext [] answer
  forward gw rt (.tls alpn) sni dialHost

/-- The upstream handshake of a route that originates TLS, offering what can be mirrored. -/
def dialMirrored (addrs : ResolvedAddrs) (sni dialHost : Option Str) (offer : List Bytes) :
    ConnTask ρ κ V Der (TcpConn × TlsSession Der) :=
  match rt.routeType with
  | .tls => do
    let name ← tlsVerificationName gw rt sni dialHost
    dialTls gw rt addrs name offer
  | .ech => do
    let name ← echInnerName gw rt sni
    dialEch gw rt addrs name offer
  | .http | .raw => .fail .panicked

/-- Terminate inbound TLS after dialing the upstream, advertising what the upstream selected. -/
def serveMirrored (sni dialHost : Option Str) : ConnTask ρ κ V Der Unit := do
  let hello ← Program.query ConnOp.clientHello
  let offered ← withContext [] hello
  let clientOffer := negotiableAlpn offered
  let addrs ← rt.upstream.resolve rt.upstreamPort dialHost rt.name
  let (conn, session) ← dialMirrored gw rt addrs sni dialHost clientOffer
  recordUpstreamCoverage gw rt sni session
  let answer ← Program.query
    (ConnOp.intoStream (mirrorChoice session.alpnProtocol (¬clientOffer.isEmpty)))
  let alpn ← withContext [] answer
  spliceStreams (.tls alpn) (.tls conn session) rt.idleTimeout (transferObserver gw rt conn.peer)

/-- Apply a fail policy to a stream that was never decrypted. -/
def applyFail (inbound : Inbound) (ctx : Str) : FailPolicy → ConnTask ρ κ V Der Unit
  | .close => return
  | .passthrough addr => do
    let up ← dial (.single addr) (fromSecs 10)
    spliceStreams .tcp (.tcp up) (fromSecs 120) none
  | .systemOutbound =>
    match inbound.key with
    | none => bail [ctx, ": no SNI/Host for system-outbound".toList]
    | some key => do
      let answer ← Program.query
        (ConnOp.connectHost (stripPort key) (if inbound.isTls then 443 else 80))
      let up ← withContext [] answer
      spliceStreams .tcp (.tcp up) (fromSecs 120) none

/-- Pass the untouched stream on; the fail policy applies if the upstream is unreachable. -/
def rawPassthrough (inbound : Inbound) (dialHost : Option Str) : ConnTask ρ κ V Der Unit := do
  let dialing : ConnTask ρ κ V Der TcpConn := do
    let addrs ← rt.upstream.resolve rt.upstreamPort dialHost rt.name
    dial addrs rt.connectTimeout
  let dialed ← dialing.attempt
  match dialed with
  | .ok up => spliceStreams .tcp (.tcp up) rt.idleTimeout (transferObserver gw rt up.peer)
  | .error (.error _) => applyFail inbound "raw-fail".toList rt.fail
  | .error .panicked => .fail .panicked

/-- Serve a connection on its route. -/
def serveRoute (inbound : Inbound) : ConnTask ρ κ V Der Unit :=
  let sni := rt.sniPolicy.upstreamName inbound.key
  let dialHost := rt.upstream.dialHost inbound.key
  if rt.routeType = .raw then rawPassthrough gw rt inbound dialHost
  else if inbound.isTls then
    if rt.http2 ∧ (rt.routeType = .tls ∨ rt.routeType = .ech) then serveMirrored gw rt sni dialHost
    else serveTerminated gw rt sni dialHost
  -- cleartext inbound: there is no TLS to terminate
  else forward gw rt .tcp sni dialHost

/-- What happens to an accepted connection. -/
def dispatch : ConnTask ρ κ V Der Unit := do
  let inbound ← Program.query ConnOp.classify
  match dispatchRoute gw.router inbound with
  | none => applyFail inbound "unmatched".toList gw.unmatched
  | some id =>
    match gw.routes[id]? with
    | none => .fail .panicked
    | some rt => serveRoute gw rt inbound

end Parts

end SniGate
