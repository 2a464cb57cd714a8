import SniGate.Proxy.Connection

/-!
# How far a connection has come

What a connection may ask next depends on what it has been answered, and little of that matters
later: `Progress` is that little, and `Permitted` says for every question what it takes to be asked.
The programs are walked through once, here (`keeps_dispatch`); what is said elsewhere about every
run of a connection is read off `Permitted`.

## Design choices

The state has what was established and not the questions and answers themselves, and each field is
one that some question depends on. What may be asked is a relation on states (`Permitted`) and not
part of the programs, so a change of a program is a change of its own `keeps_` lemma, while what is
proved about runs stays as it is.
-/

namespace SniGate

variable {ρ κ V Der Key : Type}

/-! ## The summary -/

/-- What the answers about the upstream come to. -/
structure Dialing (κ V Der : Type) where
  /-- The addresses found last. -/
  addrs : Option ResolvedAddrs := none
  /-- The socket connected last, unless the last attempt failed. -/
  conn : Option TcpConn := none
  /-- The ECH client handed out last. -/
  client : Option (EchClient κ V) := none
  handshakes : ℕ := 0
  /-- The last handshake was rejected. -/
  rejected : Bool := false
  /-- The rejection of that client, once it is reported. -/
  reported : Option (Str × ℕ) := none
  /-- The completed handshake: its configuration, the name asked for, and the session. -/
  session : Option (UpstreamConfig κ V × Str × TlsSession Der) := none

/-- What the answers so far come to. -/
structure Progress (κ V Der : Type) where
  inbound : Option Inbound := none
  /-- The offer of the client, once its hello has been read. -/
  offered : Option (Option (List Bytes)) := none
  /-- What was advertised in the inbound handshake, and what the client took, once it is done. -/
  terminated : Option (List Bytes × Option Bytes) := none
  up : Dialing κ V Der := {}
  /-- The observation compared with the certificate in the cache, and whether that mirrors it. -/
  compared : Option (Str × List Str × Bool) := none
  /-- The observation handed over last. -/
  handed : Option (Str × List Str) := none
  spliced : Bool := false

/-- The summary after one more exchange. -/
def Progress.next (s : Progress κ V Der) :
    ConnExchange ρ κ V Der → Progress κ V Der
  | ⟨.classify, inbound⟩ => { s with inbound := some inbound }
  | ⟨.clientHello, answer⟩ => { s with offered := answer.toOption }
  | ⟨.intoStream protocols, answer⟩ =>
    { s with terminated := answer.toOption.map fun alpn ↦ (protocols, alpn) }
  | ⟨.lookupAddr .., answer⟩ => { s with up := { s.up with addrs := answer.toOption } }
  | ⟨.pick .., answer⟩ => { s with up := { s.up with addrs := answer.toOption.map .single } }
  | ⟨.dial .., answer⟩ => { s with up := { s.up with conn := answer.toOption } }
  | ⟨.connectHost .., answer⟩ => { s with up := { s.up with conn := answer.toOption } }
  | ⟨.handshake config serverName _ _, answer⟩ =>
    let rejected := match answer with
      | .error (.echRejected _) => true
      | _ => false
    let session := answer.toOption.map fun session ↦ (config, serverName, session)
    { s with up := { s.up with handshakes := s.up.handshakes + 1, rejected, session } }
  | ⟨.echClient .., .ok client⟩ =>
    { s with up := { s.up with client := some client, reported := none } }
  | ⟨.echClient .., .error _⟩ => s
  | ⟨.invalidateAfterRejection innerName generation, _⟩ =>
    { s with up := { s.up with reported := some (innerName, generation) } }
  | ⟨.mirrorIsCurrent host observed, current⟩ =>
    { s with compared := some (host, observed, current) }
  | ⟨.spawnBlocking (.recordUpstreamSans host observed), _⟩ =>
    { s with handed := some (host, observed) }
  | ⟨.splice .., _⟩ => { s with spliced := true }

/-! ## What a route asks for -/

section Route

variable (gw : Gateway ρ κ V Der Key) (rt : DataPath ρ κ V) (inbound : Inbound)

/-- The data path of a connection. -/
def Gateway.routed : Option (DataPath ρ κ V) :=
  (dispatchRoute gw.router inbound).bind fun id ↦ gw.routes[id]?

/-- The route originates TLS. -/
def DataPath.Originates : Prop := rt.routeType = .tls ∨ rt.routeType = .ech

instance : Decidable rt.Originates := inferInstanceAs (Decidable (_ ∨ _))

/-- What the upstream selects decides what the client is offered. -/
def DataPath.Mirrors : Prop := inbound.isTls ∧ rt.http2 ∧ rt.Originates

instance : Decidable (rt.Mirrors inbound) := inferInstanceAs (Decidable (_ ∧ _ ∧ _))

/-- The protocols offered upstream, given what the client offered. -/
def DataPath.offer (offered : Option (Option (List Bytes))) : List Bytes :=
  if rt.Mirrors inbound then negotiableAlpn (offered.getD none) else []

/-- The name an upstream handshake asks for: the one the route presents; the dial host, on a `tls`
route; or the verifier's own, on a route that transmits no name. -/
def requestedName : Option Str :=
  (rt.sniPolicy.upstreamName inbound.key).or
    ((if rt.routeType = .tls then rt.upstream.dialHost inbound.key else none).or
      (silentNameOverride gw rt))

/-- A configuration of an upstream handshake: the prebuilt one for the offer, or that of the last
ECH client. -/
def Configured (offer : List Bytes) (client : Option (EchClient κ V))
    (config : UpstreamConfig κ V) : Prop :=
  (rt.routeType = .tls ∧ ∃ configs, rt.tls = some configs ∧ config = configs.select offer) ∨
    (rt.routeType = .ech ∧ ∃ c, client = some c ∧ config = c.clientConfig.upstream)

/-- The policy for a connection that cannot be served. -/
inductive FailsBy : FailPolicy → Prop
  | unmatched (h : dispatchRoute gw.router inbound = none) : FailsBy gw.unmatched
  | raw {rt : DataPath ρ κ V} (h : gw.routed inbound = some rt) (hraw : rt.routeType = .raw) :
    FailsBy rt.fail

end Route

/-! ## What may be asked -/

namespace Progress

variable (gw : Gateway ρ κ V Der Key) (s : Progress κ V Der)

/-- The connection is on a route that is not passed through raw. -/
structure Served (inbound : Inbound) (rt : DataPath ρ κ V) : Prop where
  classified : s.inbound = some inbound
  routed : gw.routed inbound = some rt
  notRaw : rt.routeType ≠ .raw

/-- What the inbound handshake advertises. -/
def Advertised (rt : DataPath ρ κ V) (inbound : Inbound) (protocols : List Bytes) : Prop :=
  if rt.Mirrors inbound then ∃ config name session, s.up.session = some (config, name, session) ∧
    protocols = mirrorChoice session.alpnProtocol (¬(rt.offer inbound s.offered).isEmpty)
  else protocols = if rt.http2 ∧ rt.routeType = .http then [alpnH2, alpnHttp11] else [alpnHttp11]

/-- The client's end: a finished handshake if the connection came with TLS, and its stream as it
is otherwise. -/
def ClientSide (rt : DataPath ρ κ V) (inbound : Inbound) (inner : Inner) : Prop :=
  if inbound.isTls then ∃ protocols alpn, s.terminated = some (protocols, alpn) ∧
    s.Advertised rt inbound protocols ∧ inner = .tls alpn
  else inner = .tcp

/-- What the upstream's certificate says about the inbound name has been compared with what is in
the cache, and handed over if that differs. -/
def Covered (inbound : Inbound) (rt : DataPath ρ κ V) (session : TlsSession Der) : Prop :=
  rt.sniPolicy = .reflect → ∀ key chain, inbound.key = some key →
    session.peerCertificates = some chain → ∃ current,
      s.compared = some (stripPort key, observedDnsSans gw.codec chain, current) ∧
        (current = false → s.handed = some (stripPort key, observedDnsSans gw.codec chain))

/-- An upstream handshake that is good enough for the route. -/
structure Established (inbound : Inbound) (rt : DataPath ρ κ V) (conn : TcpConn)
    (session : TlsSession Der) : Prop where
  connected : s.up.conn = some conn
  completed : ∃ config name, s.up.session = some (config, name, session) ∧
    requestedName gw rt inbound = some name ∧
    Configured rt (rt.offer inbound s.offered) s.up.client config
  accepted : rt.routeType = .ech → rt.requireEch → session.echStatus = .accepted

/-- What may be spliced. -/
inductive Spliceable (inbound : Inbound) : Inner → Outer Der → Duration → Option IpAddr → Prop
  | raw {rt : DataPath ρ κ V} {conn : TcpConn} (h : gw.routed inbound = some rt)
      (hraw : rt.routeType = .raw) (hconn : s.up.conn = some conn) :
    Spliceable inbound .tcp (.tcp conn) rt.idleTimeout (transferObserver gw rt conn.peer)
  | failed {policy : FailPolicy} {conn : TcpConn} (h : FailsBy gw inbound policy)
      (hpolicy : policy ≠ .close) (hconn : s.up.conn = some conn) :
    Spliceable inbound .tcp (.tcp conn) (fromSecs 120) none
  | http {rt : DataPath ρ κ V} {inner : Inner} {conn : TcpConn} (h : s.Served gw inbound rt)
      (htype : rt.routeType = .http) (hinner : s.ClientSide rt inbound inner)
      (hconn : s.up.conn = some conn) :
    Spliceable inbound inner (.tcp conn) rt.idleTimeout (transferObserver gw rt conn.peer)
  | tls {rt : DataPath ρ κ V} {inner : Inner} {conn : TcpConn} {session : TlsSession Der}
      (h : s.Served gw inbound rt) (htype : rt.Originates)
      (hinner : s.ClientSide rt inbound inner) (hup : s.Established gw inbound rt conn session)
      (hcovered : s.Covered gw inbound rt session) :
    Spliceable inbound inner (.tls conn session) rt.idleTimeout (transferObserver gw rt conn.peer)

/-- The names are those of the certificate that the upstream presented for the inbound name, on a
route that asks upstreams for it. -/
def Observed (host : Str) (observed : List Str) : Prop :=
  ∃ inbound rt key conn session chain, s.Served gw inbound rt ∧ rt.sniPolicy = .reflect ∧
    inbound.key = some key ∧ host = stripPort key ∧ s.Established gw inbound rt conn session ∧
    session.peerCertificates = some chain ∧ observed = observedDnsSans gw.codec chain

/-- What it takes for a question to be asked. -/
def Permitted : ConnOp ρ κ V Der → Prop
  | .classify => s.inbound = none
  | .clientHello => ∃ inbound rt, s.Served gw inbound rt ∧ inbound.isTls ∧ s.offered = none ∧
      s.terminated = none ∧ s.up = {}
  | .intoStream protocols => ∃ inbound rt, s.Served gw inbound rt ∧ inbound.isTls ∧
      s.offered.isSome ∧ s.terminated = none ∧ s.Advertised rt inbound protocols ∧
      (¬rt.Mirrors inbound → s.up = {})
  | .lookupAddr resolver host port family nat64 => ∃ inbound rt fixed,
      s.inbound = some inbound ∧ gw.routed inbound = some rt ∧ port = rt.upstreamPort ∧
      rt.upstream = .direct fixed family nat64 resolver ∧
      rt.upstream.dialHost inbound.key = some host
  | .pick pool view port => ∃ inbound rt, s.inbound = some inbound ∧ gw.routed inbound = some rt ∧
      port = rt.upstreamPort ∧ rt.upstream = .pool pool view
  | .dial addrs connectTimeout => ∃ inbound, s.inbound = some inbound ∧
      ((∃ rt, gw.routed inbound = some rt ∧ s.up.addrs = some addrs ∧
          connectTimeout = rt.connectTimeout) ∨
        ∃ addr, FailsBy gw inbound (.passthrough addr) ∧ s.up.conn = none ∧
          addrs = .single addr ∧ connectTimeout = fromSecs 10)
  | .connectHost host port => ∃ inbound key, s.inbound = some inbound ∧
      FailsBy gw inbound .systemOutbound ∧ s.up.conn = none ∧ inbound.key = some key ∧
      host = stripPort key ∧ port = if inbound.isTls then 443 else 80
  | .handshake config serverName conn connectTimeout => ∃ inbound rt, s.Served gw inbound rt ∧
      s.up.conn = some conn ∧ connectTimeout = rt.connectTimeout ∧
      requestedName gw rt inbound = some serverName ∧
      Configured rt (rt.offer inbound s.offered) s.up.client config ∧
      s.up.handshakes ≤ if rt.routeType = .ech then rt.maxRetries else 0
  | .echClient innerName alpn => ∃ inbound rt, s.Served gw inbound rt ∧ rt.routeType = .ech ∧
      requestedName gw rt inbound = some innerName ∧ alpn = rt.offer inbound s.offered ∧
      ∀ c, s.up.client = some c → s.up.reported = some (innerName, c.generation)
  | .invalidateAfterRejection innerName generation => ∃ inbound rt c, s.Served gw inbound rt ∧
      rt.routeType = .ech ∧ requestedName gw rt inbound = some innerName ∧
      s.up.client = some c ∧ generation = c.generation ∧ s.up.rejected ∧
      s.up.handshakes ≤ rt.maxRetries
  | .mirrorIsCurrent host observed => s.Observed gw host observed
  | .spawnBlocking (.recordUpstreamSans host observed) => s.Observed gw host observed ∧
      s.compared = some (host, observed, false)
  | .splice inner outer idle observer => ∃ inbound, s.inbound = some inbound ∧
      s.Spliceable gw inbound inner outer idle observer

end Progress

/-- The contract of a connection, whatever is relied on. A splice ends it. -/
def Gateway.contract (gw : Gateway ρ κ V Der Key)
    (rely : Progress κ V Der → (op : ConnOp ρ κ V Der) → op.Answer → Prop) :
    Contract (@ConnOp.Answer ρ κ V Der) (Progress κ V Der) where
  next := Progress.next
  rely
  guarantee s op := s.spliced = false ∧ s.Permitted gw op

/-! ## The walk -/

section Walk

variable {gw : Gateway ρ κ V Der Key} {rt : DataPath ρ κ V} {inbound : Inbound}
  {s : Progress κ V Der} {rely : Progress κ V Der → (op : ConnOp ρ κ V Der) → op.Answer → Prop}

section Generic

variable {α : Type} {post : Progress κ V Der → Except ConnFailure α → Prop}

theorem keeps_withContext {context : List Str} {answer : Except ErrorChain α}
    (hok : ∀ a, answer = .ok a → post s (.ok a))
    (herror : ∀ e chain, answer = .error e → post s (.error (.error chain))) :
    (gw.contract rely).Keeps post s (withContext context answer) := by
  cases answer with
  | ok a => exact hok a rfl
  | error e => exact herror e _ rfl

end Generic

theorem keeps_resolve {post : Progress κ V Der → Except ConnFailure ResolvedAddrs → Prop}
    (hinbound : s.inbound = some inbound) (hrouted : gw.routed inbound = some rt)
    (hopen : s.spliced = false)
    (hok : ∀ addrs, post { s with up := { s.up with addrs := some addrs } } (.ok addrs))
    (herror : ∀ addrs chain, post { s with up := { s.up with addrs } } (.error (.error chain))) :
    (gw.contract rely).Keeps post s
      (rt.upstream.resolve rt.upstreamPort (rt.upstream.dialHost inbound.key) rt.name) := by
  cases hup : rt.upstream with
  | pool name view =>
    refine Contract.keeps_query_bind.mpr
      ⟨⟨hopen, inbound, rt, hinbound, hrouted, rfl, hup⟩, fun answer _ ↦ ?_⟩
    rw [Contract.keeps_bind]
    refine keeps_withContext ?_ ?_
    · rintro addr rfl
      exact hok _
    · rintro e chain rfl
      exact herror none chain
  | direct fixed family nat64 resolver =>
    rw [← hup]
    cases hhost : rt.upstream.dialHost inbound.key with
    | none =>
      rw [hup]
      exact herror s.up.addrs _
    | some host =>
      rw [hup]
      refine Contract.keeps_query_bind.mpr
        ⟨⟨hopen, inbound, rt, fixed, hinbound, hrouted, rfl, hup, hhost⟩, fun answer _ ↦ ?_⟩
      refine keeps_withContext ?_ ?_
      · rintro addrs rfl
        exact hok _
      · rintro e chain rfl
        exact herror none chain

theorem keeps_dial {post : Progress κ V Der → Except ConnFailure TcpConn → Prop}
    {addrs : ResolvedAddrs} {connectTimeout : Duration} (hopen : s.spliced = false)
    (hmay : s.Permitted gw (.dial addrs connectTimeout))
    (hok : ∀ conn, post { s with up := { s.up with conn := some conn } } (.ok conn))
    (herror : ∀ chain, post { s with up := { s.up with conn := none } } (.error (.error chain))) :
    (gw.contract rely).Keeps post s (dial addrs connectTimeout) := by
  refine Contract.keeps_query_bind.mpr ⟨⟨hopen, hmay⟩, fun answer _ ↦ ?_⟩
  refine keeps_withContext ?_ ?_
  · rintro conn rfl
    exact hok conn
  · rintro e chain rfl
    exact herror chain

theorem keeps_spliceStreams {post : Progress κ V Der → Except ConnFailure Unit → Prop}
    {inner : Inner} {outer : Outer Der} {idle : Duration} {observer : Option IpAddr}
    (hopen : s.spliced = false) (hinbound : s.inbound = some inbound)
    (hmay : s.Spliceable gw inbound inner outer idle observer)
    (hpost : ∀ s' x, x ≠ .error .panicked → post s' x) :
    (gw.contract rely).Keeps post s (spliceStreams inner outer idle observer) := by
  refine Contract.keeps_query_bind.mpr ⟨⟨hopen, inbound, hinbound, hmay⟩, fun answer _ ↦ ?_⟩
  refine keeps_withContext ?_ ?_
  · rintro a rfl
    exact hpost _ _ nofun
  · rintro e chain rfl
    exact hpost _ _ nofun

/-! ### Names -/

theorem keeps_tlsVerificationName {post : Progress κ V Der → Except ConnFailure Str → Prop}
    (htype : rt.routeType = .tls)
    (hok : ∀ name, requestedName gw rt inbound = some name → post s (.ok name))
    (herror : ∀ chain, post s (.error (.error chain))) :
    (gw.contract rely).Keeps post s
      (tlsVerificationName gw rt (rt.sniPolicy.upstreamName inbound.key)
        (rt.upstream.dialHost inbound.key)) := by
  unfold requestedName at hok
  rw [if_pos htype] at hok
  cases hsni : rt.sniPolicy.upstreamName inbound.key with
  | some name => exact hok name (by rw [hsni]; rfl)
  | none =>
    cases hhost : rt.upstream.dialHost inbound.key with
    | some host => exact hok host (by rw [hsni, hhost]; rfl)
    | none =>
      unfold tlsVerificationName
      cases hname : silentNameOverride gw rt with
      | some fixed => exact hok fixed (by rw [hsni, hhost, hname]; rfl)
      | none => exact herror _

theorem keeps_echInnerName {post : Progress κ V Der → Except ConnFailure Str → Prop}
    (htype : rt.routeType = .ech)
    (hok : ∀ name, requestedName gw rt inbound = some name → post s (.ok name))
    (herror : ∀ chain, post s (.error (.error chain))) :
    (gw.contract rely).Keeps post s
      (echInnerName gw rt (rt.sniPolicy.upstreamName inbound.key)) := by
  unfold requestedName at hok
  rw [if_neg (by rw [htype]; nofun)] at hok
  cases hsni : rt.sniPolicy.upstreamName inbound.key with
  | some name => exact hok name (by rw [hsni]; rfl)
  | none =>
    unfold echInnerName
    cases hname : silentNameOverride gw rt with
    | some fixed => exact hok fixed (by rw [hsni, hname]; rfl)
    | none => exact herror _

/-! ### Upstream handshakes -/

theorem Progress.Served.up (h : s.Served gw inbound rt) (up : Dialing κ V Der) :
    { s with up }.Served gw inbound rt :=
  ⟨h.classified, h.routed, h.notRaw⟩

/-- What holds when an upstream handshake is over: it went well, and is all that changed. -/
def Dialed (gw : Gateway ρ κ V Der Key) (s : Progress κ V Der) (inbound : Inbound)
    (rt : DataPath ρ κ V) (s' : Progress κ V Der) :
    Except ConnFailure (TcpConn × TlsSession Der) → Prop
  | .ok (conn, session) => ∃ up, s' = { s with up } ∧ s'.Established gw inbound rt conn session
  | .error e => e ≠ .panicked

theorem Progress.Served.permitted_dial {addrs : ResolvedAddrs} (h : s.Served gw inbound rt)
    (haddrs : s.up.addrs = some addrs) :
    s.Permitted (ρ := ρ) gw (.dial addrs rt.connectTimeout) :=
  ⟨inbound, h.classified, .inl ⟨rt, h.routed, haddrs, rfl⟩⟩

theorem keeps_dialTls {addrs : ResolvedAddrs} {name : Str} (hopen : s.spliced = false)
    (h : s.Served gw inbound rt) (htype : rt.routeType = .tls) (haddrs : s.up.addrs = some addrs)
    (hname : requestedName gw rt inbound = some name) (hfirst : s.up.handshakes = 0) :
    (gw.contract rely).Keeps (Dialed gw s inbound rt) s
      (dialTls gw rt addrs name (rt.offer inbound s.offered)) := by
  unfold dialTls
  cases hconfigs : rt.tls with
  | none => exact nofun
  | some configs =>
    dsimp only
    by_cases hvalid : gw.serverName name
    · rw [if_neg (not_not_intro hvalid), Contract.keeps_bind]
      refine keeps_dial hopen (h.permitted_dial haddrs) (fun conn ↦ ?_) fun chain ↦ nofun
      have hconfigured : Configured rt (rt.offer inbound s.offered) s.up.client
          (configs.select (rt.offer inbound s.offered)) := .inl ⟨htype, configs, hconfigs, rfl⟩
      refine Contract.keeps_query_bind.mpr ⟨⟨hopen, inbound, rt, h.up _, rfl, rfl, hname,
        hconfigured, hfirst.le.trans (Nat.zero_le _)⟩, fun answer _ ↦ ?_⟩
      cases answer with
      | ok session =>
        refine ⟨_, rfl, rfl, ⟨_, name, rfl, hname, hconfigured⟩, fun hech ↦ ?_⟩
        rw [htype] at hech
        cases hech
      | error e => cases e <;> exact nofun
    · rw [if_pos hvalid]
      exact nofun

/-- What holds after one attempt at an ECH upstream. A rejection is of the client handed out
last. -/
def Attempted (gw : Gateway ρ κ V Der Key) (s : Progress κ V Der) (inbound : Inbound)
    (rt : DataPath ρ κ V) (s' : Progress κ V Der) :
    Except ConnFailure (Except (ErrorChain × ℕ) (TcpConn × TlsSession Der)) → Prop
  | .ok (.ok up) => Dialed gw s inbound rt s' (.ok up)
  | .ok (.error (_, generation)) => ∃ up c, s' = { s with up } ∧ up.addrs = s.up.addrs ∧
      up.client = some c ∧ c.generation = generation ∧ up.rejected = true ∧
      up.handshakes = s.up.handshakes + 1
  | .error e => e ≠ .panicked

theorem keeps_echAttempt {addrs : ResolvedAddrs} {inner : Str} (hopen : s.spliced = false)
    (h : s.Served gw inbound rt) (htype : rt.routeType = .ech) (haddrs : s.up.addrs = some addrs)
    (hname : requestedName gw rt inbound = some inner) (hleft : s.up.handshakes ≤ rt.maxRetries)
    (hreported : ∀ c, s.up.client = some c → s.up.reported = some (inner, c.generation)) :
    (gw.contract rely).Keeps (Attempted gw s inbound rt) s
      (echAttempt rt addrs inner (rt.offer inbound s.offered)) := by
  refine Contract.keeps_query_bind.mpr
    ⟨⟨hopen, inbound, rt, h, htype, hname, rfl, hreported⟩, fun answer _ ↦ ?_⟩
  rw [Contract.keeps_bind]
  refine keeps_withContext ?_ fun e chain _ ↦ nofun
  rintro client rfl
  dsimp only
  rw [Contract.keeps_bind]
  refine keeps_dial hopen ((h.up _).permitted_dial haddrs) (fun conn ↦ ?_) fun chain ↦ nofun
  have hconfigured : Configured rt (rt.offer inbound s.offered) (some client)
      client.clientConfig.upstream := .inr ⟨htype, client, rfl, rfl⟩
  refine Contract.keeps_query_bind.mpr ⟨⟨hopen, inbound, rt, (h.up _).up _, rfl, rfl, hname,
    hconfigured, by rwa [if_pos htype]⟩, fun answer _ ↦ ?_⟩
  cases answer with
  | ok session =>
    dsimp only
    by_cases hstatus : rt.requireEch ∧ session.echStatus ≠ .accepted
    · rw [if_pos hstatus]
      exact nofun
    · rw [if_neg hstatus]
      refine ⟨_, rfl, rfl, ⟨_, inner, rfl, hname, hconfigured⟩, fun _ hrequire ↦ ?_⟩
      exact not_not.mp fun hne ↦ hstatus ⟨hrequire, hne⟩
  | error e =>
    cases e with
    | timedOut => exact nofun
    | echRejected e => exact ⟨_, client, rfl, rfl, rfl, rfl, rfl, rfl⟩
    | other e => exact nofun

/-- The attempts. Each retry has been counted, and each rejection reported before it. -/
theorem keeps_dialEchFrom {addrs : ResolvedAddrs} {inner : Str} (retries : ℕ)
    (hopen : s.spliced = false) (h : s.Served gw inbound rt) (htype : rt.routeType = .ech)
    (haddrs : s.up.addrs = some addrs) (hname : requestedName gw rt inbound = some inner)
    (hleft : s.up.handshakes + retries ≤ rt.maxRetries)
    (hreported : ∀ c, s.up.client = some c → s.up.reported = some (inner, c.generation)) :
    (gw.contract rely).Keeps (Dialed gw s inbound rt) s
      (dialEchFrom rt addrs inner (rt.offer inbound s.offered) retries) := by
  induction retries generalizing s with
  | zero =>
    unfold dialEchFrom
    rw [Contract.keeps_bind]
    refine (keeps_echAttempt hopen h htype haddrs hname hleft hreported).mono fun s' x hx ↦ ?_
    match x, hx with
    | .ok (.ok up), hx => exact hx
    | .ok (.error _), _ => exact nofun
    | .error e, he => exact he
  | succ retries ih =>
    unfold dialEchFrom
    rw [Contract.keeps_bind]
    refine (keeps_echAttempt hopen h htype haddrs hname
      ((Nat.le_add_right _ _).trans hleft) hreported).mono fun s' x hx ↦ ?_
    match x, hx with
    | .ok (.ok up), hx => exact hx
    | .error e, he => exact he
    | .ok (.error (e, generation)), hx =>
      obtain ⟨up, c, rfl, hsame, hclient, rfl, hrejected, hcount⟩ := hx
      have hcount' : up.handshakes + retries ≤ rt.maxRetries := by omega
      refine Contract.keeps_query_bind.mpr ⟨⟨hopen, inbound, rt, c, h.up up, htype, hname, hclient,
        rfl, hrejected, (Nat.le_add_right _ _).trans hcount'⟩, fun _ _ ↦ ?_⟩
      refine (ih (s := { s with up := { up with reported := some (inner, c.generation) } }) hopen
        (h.up _) (hsame.trans haddrs) hcount' fun c' hc' ↦ ?_).mono fun s'' y hy ↦ ?_
      · have heq : c = c' := Option.some.inj (hclient.symm.trans hc')
        rw [← heq]
      · match y, hy with
        | .error e, he => exact he
        | .ok _, ⟨up', heq, hestablished⟩ => exact ⟨up', heq, hestablished⟩

theorem keeps_dialEch {addrs : ResolvedAddrs} {inner : Str} (hopen : s.spliced = false)
    (h : s.Served gw inbound rt) (htype : rt.routeType = .ech) (haddrs : s.up.addrs = some addrs)
    (hname : requestedName gw rt inbound = some inner) (hfirst : s.up.handshakes = 0)
    (hclient : s.up.client = none) :
    (gw.contract rely).Keeps (Dialed gw s inbound rt) s
      (dialEch gw rt addrs inner (rt.offer inbound s.offered)) := by
  unfold dialEch
  by_cases hmissing : rt.ech.isNone
  · rw [if_pos hmissing]
    exact nofun
  · rw [if_neg hmissing]
    by_cases hvalid : gw.serverName inner
    · rw [if_neg (not_not_intro hvalid)]
      refine keeps_dialEchFrom rt.maxRetries hopen h htype haddrs hname ?_ ?_
      · rw [hfirst, Nat.zero_add]
      · intro c hc
        rw [hclient] at hc
        cases hc
    · rw [if_pos hvalid]
      exact nofun

/-! ### Coverage -/

theorem keeps_recordUpstreamCoverage {conn : TcpConn} {session : TlsSession Der}
    {post : Progress κ V Der → Except ConnFailure Unit → Prop} (hopen : s.spliced = false)
    (h : s.Served gw inbound rt) (hup : s.Established gw inbound rt conn session)
    (hpost : ∀ compared handed, { s with compared, handed }.Covered gw inbound rt session →
      post { s with compared, handed } (.ok ())) :
    (gw.contract rely).Keeps post s
      (recordUpstreamCoverage gw rt (rt.sniPolicy.upstreamName inbound.key) session) := by
  unfold recordUpstreamCoverage
  by_cases hreflect : rt.sniPolicy = .reflect
  · rw [if_neg (not_not_intro hreflect), hreflect]
    cases hkey : inbound.key with
    | none =>
      refine hpost s.compared s.handed fun _ key chain hkey' ↦ ?_
      rw [hkey] at hkey'
      cases hkey'
    | some key =>
      cases hchain : session.peerCertificates with
      | none =>
        refine hpost s.compared s.handed fun _ key chain _ hchain' ↦ ?_
        rw [hchain] at hchain'
        cases hchain'
      | some chain =>
        have hobserved (compared : Option (Str × List Str × Bool)) :
            { s with compared }.Observed gw (stripPort key) (observedDnsSans gw.codec chain) :=
          ⟨inbound, rt, key, conn, session, chain, ⟨h.classified, h.routed, h.notRaw⟩, hreflect,
            hkey, rfl, ⟨hup.connected, hup.completed, hup.accepted⟩, hchain, rfl⟩
        refine Contract.keeps_query_bind.mpr ⟨⟨hopen, hobserved _⟩, fun current _ ↦ ?_⟩
        cases current with
        | true =>
          refine hpost _ s.handed fun _ key' chain' hkey' hchain' ↦ ?_
          cases hkey.symm.trans hkey'
          cases hchain.symm.trans hchain'
          exact ⟨true, rfl, nofun⟩
        | false =>
          refine Contract.keeps_query.mpr ⟨⟨hopen, hobserved _, rfl⟩, fun _ _ ↦ ?_⟩
          refine hpost _ _ fun _ key' chain' hkey' hchain' ↦ ?_
          cases hkey.symm.trans hkey'
          cases hchain.symm.trans hchain'
          exact ⟨false, rfl, fun _ ↦ rfl⟩
  · rw [if_pos hreflect]
    exact hpost s.compared s.handed fun hreflect' ↦ absurd hreflect' hreflect

/-! ### Serving -/

/-- The task did not panic. -/
def Unpanicked {α : Type} (_ : Progress κ V Der) (x : Except ConnFailure α) : Prop :=
  x ≠ .error .panicked

theorem DataPath.offer_of_not_mirrors (hmirrors : ¬rt.Mirrors inbound)
    (offered : Option (Option (List Bytes))) : rt.offer inbound offered = [] :=
  if_neg hmirrors

theorem Progress.ClientSide.frame {s' : Progress κ V Der} {inner : Inner}
    (h : s.ClientSide rt inbound inner) (hmirrors : ¬rt.Mirrors inbound)
    (heq : s'.terminated = s.terminated) : s'.ClientSide rt inbound inner := by
  unfold ClientSide Advertised at *
  simp only [if_neg hmirrors, heq] at *
  exact h

theorem keeps_coverAndSplice {inner : Inner} {conn : TcpConn} {session : TlsSession Der}
    (hopen : s.spliced = false) (h : s.Served gw inbound rt) (htype : rt.Originates)
    (hmirrors : ¬rt.Mirrors inbound) (hinner : s.ClientSide rt inbound inner)
    (hup : s.Established gw inbound rt conn session) :
    (gw.contract rely).Keeps Unpanicked s (do
      recordUpstreamCoverage gw rt (rt.sniPolicy.upstreamName inbound.key) session
      spliceStreams inner (.tls conn session) rt.idleTimeout
        (transferObserver gw rt conn.peer)) := by
  rw [Contract.keeps_bind]
  refine keeps_recordUpstreamCoverage hopen h hup fun compared handed hcovered ↦ ?_
  exact keeps_spliceStreams hopen h.classified
    (.tls ⟨h.classified, h.routed, h.notRaw⟩ htype (hinner.frame hmirrors rfl)
      ⟨hup.connected, hup.completed, hup.accepted⟩ hcovered) fun _ _ h ↦ h

theorem keeps_forward {inner : Inner} (hopen : s.spliced = false) (h : s.Served gw inbound rt)
    (hmirrors : ¬rt.Mirrors inbound) (hinner : s.ClientSide rt inbound inner) (hup : s.up = {}) :
    (gw.contract rely).Keeps Unpanicked s
      (forward gw rt inner (rt.sniPolicy.upstreamName inbound.key)
        (rt.upstream.dialHost inbound.key)) := by
  unfold forward
  rw [Contract.keeps_bind]
  refine keeps_resolve h.classified h.routed hopen (fun addrs ↦ ?_) fun addrs chain ↦ nofun
  have hserved := h.up { s.up with addrs := some addrs }
  have hfirst := congrArg Dialing.handshakes hup
  dsimp only
  cases htype : rt.routeType with
  | raw => exact absurd htype h.notRaw
  | http =>
    dsimp only
    rw [Contract.keeps_bind]
    refine keeps_dial hopen (hserved.permitted_dial rfl) (fun conn ↦ ?_) fun chain ↦ nofun
    exact keeps_spliceStreams hopen h.classified
      (.http (hserved.up _) htype (hinner.frame hmirrors rfl) rfl) fun _ _ h ↦ h
  | tls =>
    dsimp only
    rw [Contract.keeps_bind]
    refine keeps_tlsVerificationName htype (fun name hname ↦ ?_) fun chain ↦ nofun
    dsimp only
    rw [Contract.keeps_bind, ← rt.offer_of_not_mirrors hmirrors s.offered]
    refine (keeps_dialTls (s := { s with up := { s.up with addrs := some addrs } })
      hopen hserved htype rfl hname hfirst).mono fun s' x hx ↦ ?_
    match x, hx with
    | .error e, he => exact fun heq ↦ he (Except.error.inj heq)
    | .ok (conn, session), ⟨up, heq, hup⟩ =>
      subst heq
      exact keeps_coverAndSplice hopen (hserved.up up) (.inl htype) hmirrors
        (hinner.frame hmirrors rfl) hup
  | ech =>
    dsimp only
    rw [Contract.keeps_bind]
    refine keeps_echInnerName htype (fun name hname ↦ ?_) fun chain ↦ nofun
    dsimp only
    rw [Contract.keeps_bind, ← rt.offer_of_not_mirrors hmirrors s.offered]
    refine (keeps_dialEch (s := { s with up := { s.up with addrs := some addrs } })
      hopen hserved htype rfl hname hfirst (congrArg Dialing.client hup)).mono fun s' x hx ↦ ?_
    match x, hx with
    | .error e, he => exact fun heq ↦ he (Except.error.inj heq)
    | .ok (conn, session), ⟨up, heq, hup⟩ =>
      subst heq
      exact keeps_coverAndSplice hopen (hserved.up up) (.inr htype) hmirrors
        (hinner.frame hmirrors rfl) hup

theorem keeps_serveTerminated (hopen : s.spliced = false) (h : s.Served gw inbound rt)
    (htls : inbound.isTls) (hmirrors : ¬rt.Mirrors inbound) (hoffered : s.offered = none)
    (hterminated : s.terminated = none) (hup : s.up = {}) :
    (gw.contract rely).Keeps Unpanicked s
      (serveTerminated gw rt (rt.sniPolicy.upstreamName inbound.key)
        (rt.upstream.dialHost inbound.key)) := by
  unfold serveTerminated
  refine Contract.keeps_query_bind.mpr
    ⟨⟨hopen, inbound, rt, h, htls, hoffered, hterminated, hup⟩, fun hello _ ↦ ?_⟩
  rw [Contract.keeps_bind]
  refine keeps_withContext ?_ fun e chain _ ↦ nofun
  rintro offered rfl
  have hadvertised (s' : Progress κ V Der) : s'.Advertised rt inbound
      (if rt.http2 ∧ rt.routeType = .http then [alpnH2, alpnHttp11] else [alpnHttp11]) :=
    (if_neg hmirrors).mpr rfl
  refine Contract.keeps_query_bind.mpr
    ⟨⟨hopen, inbound, rt, ⟨h.classified, h.routed, h.notRaw⟩, htls, rfl, hterminated,
      hadvertised _, fun _ ↦ hup⟩, fun answer _ ↦ ?_⟩
  rw [Contract.keeps_bind]
  refine keeps_withContext ?_ fun e chain _ ↦ nofun
  rintro alpn rfl
  refine keeps_forward hopen ⟨h.classified, h.routed, h.notRaw⟩ hmirrors ?_ hup
  exact (if_pos htls).mpr ⟨_, alpn, rfl, hadvertised _, rfl⟩

theorem keeps_dialMirrored {addrs : ResolvedAddrs} (hopen : s.spliced = false)
    (h : s.Served gw inbound rt) (htype : rt.Originates) (haddrs : s.up.addrs = some addrs)
    (hfirst : s.up.handshakes = 0) (hclient : s.up.client = none) :
    (gw.contract rely).Keeps (Dialed gw s inbound rt) s
      (dialMirrored gw rt addrs (rt.sniPolicy.upstreamName inbound.key)
        (rt.upstream.dialHost inbound.key) (rt.offer inbound s.offered)) := by
  unfold dialMirrored
  rcases htype with htype | htype
  · rw [htype]
    dsimp only
    rw [Contract.keeps_bind]
    refine keeps_tlsVerificationName htype (fun name hname ↦ ?_) fun chain ↦ nofun
    exact keeps_dialTls hopen h htype haddrs hname hfirst
  · rw [htype]
    dsimp only
    rw [Contract.keeps_bind]
    refine keeps_echInnerName htype (fun name hname ↦ ?_) fun chain ↦ nofun
    exact keeps_dialEch hopen h htype haddrs hname hfirst hclient

theorem keeps_serveMirrored (hopen : s.spliced = false) (h : s.Served gw inbound rt)
    (hmirrors : rt.Mirrors inbound) (hoffered : s.offered = none)
    (hterminated : s.terminated = none) (hup : s.up = {}) :
    (gw.contract rely).Keeps Unpanicked s
      (serveMirrored gw rt (rt.sniPolicy.upstreamName inbound.key)
        (rt.upstream.dialHost inbound.key)) := by
  unfold serveMirrored
  refine Contract.keeps_query_bind.mpr
    ⟨⟨hopen, inbound, rt, h, hmirrors.1, hoffered, hterminated, hup⟩, fun hello _ ↦ ?_⟩
  rw [Contract.keeps_bind]
  refine keeps_withContext ?_ fun e chain _ ↦ nofun
  rintro offered rfl
  have hoffer : rt.offer inbound (some offered) = negotiableAlpn offered := if_pos hmirrors
  dsimp only
  rw [← hoffer, Contract.keeps_bind]
  refine keeps_resolve h.classified h.routed hopen (fun addrs ↦ ?_) fun addrs chain ↦ nofun
  have hserved (s' : Progress κ V Der) (heq : s'.inbound = s.inbound) :
      s'.Served gw inbound rt := ⟨heq.trans h.classified, h.routed, h.notRaw⟩
  dsimp only
  rw [Contract.keeps_bind]
  refine (keeps_dialMirrored
    (s := { s with offered := some offered, up := { s.up with addrs := some addrs } })
    hopen (hserved _ rfl) hmirrors.2.2 rfl (congrArg Dialing.handshakes hup)
    (congrArg Dialing.client hup)).mono fun s' x hx ↦ ?_
  match x, hx with
  | .error e, he => exact fun heq ↦ he (Except.error.inj heq)
  | .ok (conn, session), ⟨up, heq, hestablished⟩ =>
    subst heq
    dsimp only
    rw [Contract.keeps_bind]
    refine keeps_recordUpstreamCoverage hopen (hserved _ rfl) hestablished
      fun compared handed hcovered ↦ ?_
    obtain ⟨config, name, hsession, -⟩ := hestablished.completed
    have hadvertised (s' : Progress κ V Der) (heq : s'.up = up) (heq' : s'.offered = some offered) :
        s'.Advertised rt inbound
          (mirrorChoice session.alpnProtocol (¬(rt.offer inbound (some offered)).isEmpty)) := by
      refine (if_pos hmirrors).mpr ⟨config, name, session, ?_, ?_⟩
      · rw [heq]
        exact hsession
      · rw [heq']
    refine Contract.keeps_query_bind.mpr
      ⟨⟨hopen, inbound, rt, hserved _ rfl, hmirrors.1, rfl, hterminated, hadvertised _ rfl rfl,
        absurd hmirrors⟩, fun answer _ ↦ ?_⟩
    rw [Contract.keeps_bind]
    refine keeps_withContext ?_ fun e chain _ ↦ nofun
    rintro alpn rfl
    exact keeps_spliceStreams hopen h.classified
      (.tls (hserved _ rfl) hmirrors.2.2
        ((if_pos hmirrors.1).mpr ⟨_, alpn, rfl, hadvertised _ rfl rfl, rfl⟩)
        ⟨hestablished.connected, hestablished.completed, hestablished.accepted⟩ hcovered)
      fun _ _ h ↦ h

/-! ### Passing through -/

/-- A policy for a connection of which nothing was consumed. -/
theorem keeps_applyFail {policy : FailPolicy} {ctx : Str} (hopen : s.spliced = false)
    (hinbound : s.inbound = some inbound) (hpolicy : FailsBy gw inbound policy)
    (hconn : s.up.conn = none) :
    (gw.contract rely).Keeps Unpanicked s (applyFail inbound ctx policy) := by
  cases policy with
  | close => exact nofun
  | passthrough addr =>
    unfold applyFail
    rw [Contract.keeps_bind]
    refine keeps_dial hopen ⟨inbound, hinbound, .inr ⟨addr, hpolicy, hconn, rfl, rfl⟩⟩
      (fun conn ↦ ?_) fun chain ↦ nofun
    exact keeps_spliceStreams hopen hinbound (.failed hpolicy nofun rfl) fun _ _ h ↦ h
  | systemOutbound =>
    unfold applyFail
    cases hkey : inbound.key with
    | none => exact nofun
    | some key =>
      refine Contract.keeps_query_bind.mpr ⟨⟨hopen, inbound, key, hinbound, hpolicy, hconn, hkey,
        rfl, rfl⟩, fun answer _ ↦ ?_⟩
      rw [Contract.keeps_bind]
      refine keeps_withContext ?_ fun e chain _ ↦ nofun
      rintro conn rfl
      exact keeps_spliceStreams hopen hinbound (.failed hpolicy nofun rfl) fun _ _ h ↦ h

theorem keeps_rawPassthrough (hopen : s.spliced = false) (hinbound : s.inbound = some inbound)
    (hrouted : gw.routed inbound = some rt) (hraw : rt.routeType = .raw) (hup : s.up = {}) :
    (gw.contract rely).Keeps Unpanicked s
      (rawPassthrough gw rt inbound (rt.upstream.dialHost inbound.key)) := by
  have hfails (s' : Progress κ V Der) (chain : ErrorChain) (hopen' : s'.spliced = false)
      (hinbound' : s'.inbound = some inbound) (hconn : s'.up.conn = none) :
      (gw.contract rely).Keeps Unpanicked s' (applyFail inbound "raw-fail".toList rt.fail) :=
    keeps_applyFail hopen' hinbound' (.raw hrouted hraw) hconn
  unfold rawPassthrough
  rw [Contract.keeps_bind, Contract.keeps_attempt, Contract.keeps_bind]
  refine keeps_resolve hinbound hrouted hopen (fun addrs ↦ ?_) fun addrs chain ↦
    hfails _ chain hopen hinbound (congrArg Dialing.conn hup)
  refine keeps_dial hopen ⟨inbound, hinbound, .inl ⟨rt, hrouted, rfl, rfl⟩⟩ (fun conn ↦ ?_)
    fun chain ↦ hfails _ chain hopen hinbound rfl
  exact keeps_spliceStreams hopen hinbound (.raw hrouted hraw rfl) fun _ _ h ↦ h

/-! ### A connection -/

theorem keeps_serveRoute (hrouted : gw.routed inbound = some rt) :
    (gw.contract rely).Keeps Unpanicked { inbound := some inbound } (serveRoute gw rt inbound) := by
  unfold serveRoute
  by_cases hraw : rt.routeType = .raw
  · rw [if_pos hraw]
    exact keeps_rawPassthrough rfl rfl hrouted hraw rfl
  · rw [if_neg hraw]
    by_cases htls : inbound.isTls
    · rw [if_pos htls]
      by_cases hmirrors : rt.http2 ∧ (rt.routeType = .tls ∨ rt.routeType = .ech)
      · rw [if_pos hmirrors]
        exact keeps_serveMirrored rfl ⟨rfl, hrouted, hraw⟩ ⟨htls, hmirrors⟩ rfl rfl rfl
      · rw [if_neg hmirrors]
        exact keeps_serveTerminated rfl ⟨rfl, hrouted, hraw⟩ htls (fun h ↦ hmirrors h.2) rfl rfl rfl
    · rw [if_neg htls]
      exact keeps_forward rfl ⟨rfl, hrouted, hraw⟩ (fun h ↦ htls h.1) ((if_neg htls).mpr rfl) rfl

/-- **A connection asks for what it may ask for.** And it panics only if its route is missing. -/
theorem keeps_dispatch (gw : Gateway ρ κ V Der Key)
    (rely : Progress κ V Der → (op : ConnOp ρ κ V Der) → op.Answer → Prop) :
    (gw.contract rely).Keeps (fun s x ↦ x = .error .panicked → ∃ inbound id,
      s.inbound = some inbound ∧ dispatchRoute gw.router inbound = some id ∧ gw.routes[id]? = none)
      {} (dispatch gw) := by
  refine Contract.keeps_query_bind.mpr ⟨⟨rfl, rfl⟩, fun inbound _ ↦ ?_⟩
  cases hroute : dispatchRoute gw.router inbound with
  | none =>
    exact (keeps_applyFail rfl rfl (.unmatched hroute) rfl).mono fun _ _ h h' ↦ absurd h' h
  | some id =>
    dsimp only
    cases hrt : gw.routes[id]? with
    | none => exact fun _ ↦ ⟨inbound, id, rfl, hroute, hrt⟩
    | some rt =>
      have hrouted : gw.routed inbound = some rt := by
        rw [Gateway.routed, hroute]
        exact hrt
      refine (keeps_serveRoute hrouted).mono fun s x h ↦ ?_
      exact fun h' ↦ absurd h' h

end Walk

/-! ## What the summary recalls -/

section Recall

variable {gw : Gateway ρ κ V Der Key} {inbound : Inbound} {s : Progress κ V Der}
  {es : List (ConnExchange ρ κ V Der)} {r : ConnTask ρ κ V Der Unit}

/-- What is in the summary was answered. -/
structure Progress.Recalls (s : Progress κ V Der) (es : List (ConnExchange ρ κ V Der)) : Prop where
  inbound : ∀ inbound, s.inbound = some inbound → ⟨.classify, inbound⟩ ∈ es
  addrs : ∀ addrs, s.up.addrs = some addrs →
    (∃ resolver host port family nat64,
      ⟨.lookupAddr resolver host port family nat64, .ok addrs⟩ ∈ es) ∨
    ∃ pool view port addr, ⟨.pick pool view port, .ok addr⟩ ∈ es ∧ addrs = .single addr
  conn : ∀ conn, s.up.conn = some conn →
    (∃ addrs connectTimeout, ⟨.dial addrs connectTimeout, .ok conn⟩ ∈ es) ∨
    ∃ host port, ⟨.connectHost host port, .ok conn⟩ ∈ es
  session : ∀ config name session, s.up.session = some (config, name, session) →
    ∃ conn connectTimeout, ⟨.handshake config name conn connectTimeout, .ok session⟩ ∈ es
  compared : ∀ host observed current, s.compared = some (host, observed, current) →
    ⟨.mirrorIsCurrent host observed, current⟩ ∈ es
  handed : ∀ host observed, s.handed = some (host, observed) →
    ⟨.spawnBlocking (.recordUpstreamSans host observed), ()⟩ ∈ es

theorem Progress.Recalls.mono {es' : List (ConnExchange ρ κ V Der)} (h : s.Recalls es)
    (hsub : es ⊆ es') : s.Recalls es' where
  inbound i hi := hsub (h.inbound i hi)
  addrs addrs haddrs := by
    refine (h.addrs addrs haddrs).imp ?_ ?_
    · rintro ⟨resolver, host, port, family, nat64, hmem⟩
      exact ⟨resolver, host, port, family, nat64, hsub hmem⟩
    · rintro ⟨pool, view, port, addr, hmem, heq⟩
      exact ⟨pool, view, port, addr, hsub hmem, heq⟩
  conn conn hconn := by
    refine (h.conn conn hconn).imp ?_ ?_
    · rintro ⟨addrs, connectTimeout, hmem⟩
      exact ⟨addrs, connectTimeout, hsub hmem⟩
    · rintro ⟨host, port, hmem⟩
      exact ⟨host, port, hsub hmem⟩
  session config name session hsession := by
    obtain ⟨conn, connectTimeout, hmem⟩ := h.session config name session hsession
    exact ⟨conn, connectTimeout, hsub hmem⟩
  compared host observed current hcompared := hsub (h.compared host observed current hcompared)
  handed host observed hhanded := hsub (h.handed host observed hhanded)

theorem Progress.Recalls.next {op : ConnOp ρ κ V Der} {answer : op.Answer} (h : s.Recalls es) :
    (s.next ⟨op, answer⟩).Recalls (es ++ [⟨op, answer⟩]) := by
  have hlast : (⟨op, answer⟩ : ConnExchange ρ κ V Der) ∈ es ++ [⟨op, answer⟩] :=
    List.mem_append_right _ (List.mem_singleton_self _)
  have hkept := h.mono (List.subset_append_left es [⟨op, answer⟩])
  obtain ⟨hinbound, haddrs, hconn, hsession, hcompared, hhanded⟩ := hkept
  cases op with
  | classify =>
    refine ⟨fun i hi ↦ ?_, haddrs, hconn, hsession, hcompared, hhanded⟩
    cases Option.some.inj hi
    exact hlast
  | lookupAddr resolver host port family nat64 =>
    refine ⟨hinbound, fun addrs heq ↦ ?_, hconn, hsession, hcompared, hhanded⟩
    cases answer with
    | error e => exact absurd heq nofun
    | ok addrs' =>
      cases Option.some.inj heq
      exact .inl ⟨resolver, host, port, family, nat64, hlast⟩
  | pick pool view port =>
    refine ⟨hinbound, fun addrs heq ↦ ?_, hconn, hsession, hcompared, hhanded⟩
    cases answer with
    | error e => exact absurd heq nofun
    | ok addr => exact .inr ⟨pool, view, port, addr, hlast, (Option.some.inj heq).symm⟩
  | dial addrs connectTimeout =>
    refine ⟨hinbound, haddrs, fun conn heq ↦ ?_, hsession, hcompared, hhanded⟩
    cases answer with
    | error e => exact absurd heq nofun
    | ok conn' =>
      cases Option.some.inj heq
      exact .inl ⟨addrs, connectTimeout, hlast⟩
  | connectHost host port =>
    refine ⟨hinbound, haddrs, fun conn heq ↦ ?_, hsession, hcompared, hhanded⟩
    cases answer with
    | error e => exact absurd heq nofun
    | ok conn' =>
      cases Option.some.inj heq
      exact .inr ⟨host, port, hlast⟩
  | handshake config serverName conn connectTimeout =>
    refine ⟨hinbound, haddrs, hconn, fun config' name session heq ↦ ?_, hcompared, hhanded⟩
    cases answer with
    | error e => exact absurd heq nofun
    | ok session' =>
      cases Option.some.inj heq
      exact ⟨conn, connectTimeout, hlast⟩
  | mirrorIsCurrent host observed =>
    refine ⟨hinbound, haddrs, hconn, hsession, fun host' observed' current heq ↦ ?_, hhanded⟩
    cases Option.some.inj heq
    exact hlast
  | spawnBlocking task =>
    obtain ⟨host, observed⟩ := task
    refine ⟨hinbound, haddrs, hconn, hsession, hcompared, fun host' observed' heq ↦ ?_⟩
    cases Option.some.inj heq
    exact hlast
  | echClient innerName alpn =>
    cases answer <;> exact ⟨hinbound, haddrs, hconn, hsession, hcompared, hhanded⟩
  | clientHello | intoStream | invalidateAfterRejection | splice =>
    exact ⟨hinbound, haddrs, hconn, hsession, hcompared, hhanded⟩

/-- **The summary recalls what was answered.** -/
theorem recalls_after (gw : Gateway ρ κ V Der Key)
    (rely : Progress κ V Der → (op : ConnOp ρ κ V Der) → op.Answer → Prop)
    (es : List (ConnExchange ρ κ V Der)) : ((gw.contract rely).after {} es).Recalls es := by
  induction es using List.reverseRecOn with
  | nil => exact ⟨nofun, nofun, nofun, nofun, nofun, nofun⟩
  | append_singleton es e ih =>
    rw [Contract.after_append]
    exact ih.next

theorem inbound_settled {p : ConnTask ρ κ V Der Unit}
    {post : Progress κ V Der → Except ConnFailure Unit → Prop}
    (hkept : (gw.contract fun _ _ _ ↦ True).Keeps post s p) (hs : s.inbound = some inbound)
    (hruns : p.Runs es r) :
    ((gw.contract fun _ _ _ ↦ True).after s es).inbound = some inbound := by
  refine hkept.invariant (I := fun s ↦ s.inbound = some inbound) hs (fun s op a hs hmay _ ↦ ?_)
    hruns (Contract.relied_of_forall fun _ _ _ ↦ trivial)
  cases op with
  | classify => exact absurd (hs.symm.trans hmay.2) nofun
  | echClient => cases a <;> exact hs
  | _ => exact hs

/-- **A connection is classified once.** -/
theorem inbound_of_runs (rely : Progress κ V Der → (op : ConnOp ρ κ V Der) → op.Answer → Prop)
    (hruns : (dispatch gw).Runs es r) (hmem : ⟨.classify, inbound⟩ ∈ es) :
    ((gw.contract rely).after {} es).inbound = some inbound := by
  have hkept := keeps_dispatch gw fun _ _ _ ↦ True
  cases hruns with
  | here => exact absurd hmem List.not_mem_nil
  | @ask _ _ i es _ hrest =>
    have hserve := hkept.2 i trivial
    rcases List.mem_cons.mp hmem with heq | hmem
    · cases heq
      have hsettled := inbound_settled hserve rfl hrest
      exact hsettled
    · obtain ⟨front, back, rfl⟩ := List.append_of_mem hmem
      obtain ⟨r', hfront, -⟩ := hrest.front
      have hmay := hserve.guarantee hrest (Contract.relied_of_forall fun _ _ _ ↦ trivial)
      exact absurd ((inbound_settled hserve rfl hfront).symm.trans hmay.2) nofun

end Recall

end SniGate
