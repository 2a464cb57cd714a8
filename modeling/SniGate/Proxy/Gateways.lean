import SniGate.Config.ResolverOrder
import SniGate.Proxy.Progress
import SniGate.Router.Precedence

/-!
# Gateways that are built

The data path of a route has more to it than where it goes: timeouts, the HTTP/2 switch, the fail
policy, and the prebuilt client configurations of a `tls` route. A gateway is built from a listener
with these. What a connection takes for granted of its route is there (`DataPath.Prepared`), every
id that the router answers is that of a route, and no connection panics (`never_panics`).

## Design choices

A data path has its facts beside it and not in it (`DataPath.Prepared`), for it is built by the
functions of the source, which know of no proofs. The table of client configurations is kept as
what each entry is made from, an ALPN offer and a verifier, since the library's own configurations
are opaque.
-/

namespace SniGate

variable {ρ κ V P Der Key : Type}

/-! ## Building -/

/-- The rest of `build_route`: the settings of the data path, and its prebuilt configurations. -/
def buildDataPath (env : BuildEnv ρ V P) (cfg : Config) (listener : Listener) (route : Route) :
    Except Str (DataPath ρ κ V) := do
  let built ← buildRoute env cfg listener route
  let rtTpl ← (cfg.templateFor route.useTemplate).mapError ConfigError.display
  let lnTpl ← (cfg.templateFor listener.useTemplate).mapError ConfigError.display
  let eff := cfg.effective listener route rtTpl lnTpl
  let rt := built.runtime
  return { rt with
    http2 := (cfg.effectiveHttp2 listener route rtTpl lnTpl).enabled
    connectTimeout := eff.connectTimeout
    idleTimeout := eff.idleTimeout
    fail := eff.fail
    tls := if rt.routeType = .tls then
        rt.verify.map fun verify ↦ ClientConfigs.new verify (rt.sniPolicy ≠ .omitted)
      else none }

/-- What a gateway is built with besides its routes. -/
structure GatewayEnv (V Der Key : Type) where
  serverName : Str → Bool
  nameOverride : V → Option Str
  observesTransfers : Str → Bool
  codec : CertCodec Der Key

/-- What the connections of a listener share. -/
def buildGateway (env : BuildEnv ρ V P) (shared : GatewayEnv V Der Key) (regexNew : RegexNew)
    (cfg : Config) (listener : Listener) : Except Str (Gateway ρ κ V Der Key) := do
  let state ← buildListener env cfg listener regexNew
  let routes ← listener.allRoutes.mapM (buildDataPath env cfg listener)
  return {
    router := state.router
    routes
    unmatched := cfg.global.unmatched
    serverName := shared.serverName
    nameOverride := shared.nameOverride
    observesTransfers := shared.observesTransfers
    codec := shared.codec }

/-! ## Routes -/

/-- What a connection takes for granted of its route. -/
structure DataPath.Prepared (rt : DataPath ρ κ V) : Prop where
  /-- A `tls` route has the four configurations, under its own verifier, and they transmit a name
  unless the route is to transmit none. -/
  configs : rt.routeType = .tls → ∃ verify, rt.verify = some verify ∧
    rt.tls = some (ClientConfigs.new verify (rt.sniPolicy ≠ .omitted))
  provider : rt.routeType = .ech → rt.ech.isSome
  /-- A raw route never speaks HTTP/2. -/
  raw : rt.routeType = .raw → rt.http2 = false

section Routes

variable {env : BuildEnv ρ V P} {cfg : Config} {listener : Listener} {route : Route}
  {rt : DataPath ρ κ V} {regexNew : RegexNew} {shared : GatewayEnv V Der Key}
  {gw : Gateway ρ κ V Der Key}

theorem buildTls_eq_ok {routeType : RouteType} {eff : Effective} {effEch : EffectiveEch}
    {effVerify : EffectiveVerify} {port : UInt16} {verify : Option V}
    {ech : Option (EchProvider ρ)} {identity : Option EchIdentity}
    (h : buildTls env route routeType eff effEch effVerify port = .ok (verify, ech, identity)) :
    (routeType = .tls → verify.isSome) ∧ (routeType = .ech → ech.isSome) := by
  cases routeType with
  | http => exact ⟨nofun, nofun⟩
  | raw => exact ⟨nofun, nofun⟩
  | tls =>
    obtain ⟨v, -, h⟩ := bind_eq_ok.mp h
    cases Except.ok.inj h
    exact ⟨fun _ ↦ rfl, nofun⟩
  | ech =>
    obtain ⟨v, -, h⟩ := bind_eq_ok.mp h
    obtain ⟨resolver, -, h⟩ := bind_eq_ok.mp h
    cases Except.ok.inj h
    exact ⟨nofun, fun _ ↦ rfl⟩

theorem type_of_buildRoute {b : BuiltRoute ρ V P} (h : buildRoute env cfg listener route = .ok b)
    {rtTpl : Option Template}
    (htpl : (cfg.templateFor route.useTemplate).mapError ConfigError.display = .ok rtTpl) :
    effectiveRouteType route rtTpl = some b.runtime.routeType ∧
      (b.runtime.routeType = .tls → b.runtime.verify.isSome) ∧
      (b.runtime.routeType = .ech → b.runtime.ech.isSome) := by
  obtain ⟨rtTpl', hrt, h⟩ := bind_eq_ok.mp h
  cases hrt.symm.trans htpl
  obtain ⟨lnTpl, -, h⟩ := bind_eq_ok.mp h
  obtain ⟨routeType, htype, h⟩ := bind_eq_ok.mp h
  obtain ⟨resolved, -, h⟩ := bind_eq_ok.mp h
  obtain ⟨nat64, -, h⟩ := bind_eq_ok.mp h
  obtain ⟨⟨upstream, identity⟩, -, h⟩ := bind_eq_ok.mp h
  obtain ⟨⟨verify, ech, echIdentity⟩, htls, h⟩ := bind_eq_ok.mp h
  obtain ⟨pinned, -, h⟩ := bind_eq_ok.mp h
  cases Except.ok.inj h
  refine ⟨?_, buildTls_eq_ok htls⟩
  cases heff : effectiveRouteType route rtTpl with
  | none =>
    rw [heff] at htype
    exact absurd htype nofun
  | some t =>
    rw [heff] at htype
    exact congrArg some (Except.ok.inj htype)

theorem prepared_of_buildDataPath
    (h : buildDataPath (κ := κ) env cfg listener route = .ok rt) : rt.Prepared := by
  obtain ⟨b, hb, h⟩ := bind_eq_ok.mp h
  obtain ⟨rtTpl, htpl, h⟩ := bind_eq_ok.mp h
  obtain ⟨lnTpl, -, h⟩ := bind_eq_ok.mp h
  obtain ⟨htype, hverify, hech⟩ := type_of_buildRoute hb htpl
  cases Except.ok.inj h
  refine ⟨fun htls ↦ ?_, hech, fun hraw ↦ ?_⟩
  · obtain ⟨verify, hsome⟩ := Option.isSome_iff_exists.mp (hverify htls)
    refine ⟨verify, hsome, ?_⟩
    dsimp only at htls ⊢
    rw [if_pos htls, hsome]
    rfl
  · have hraw' : effectiveRouteType route rtTpl = some .raw := htype.trans (congrArg some hraw)
    dsimp only [Config.effectiveHttp2]
    rw [hraw']
    rfl

/-- **Every route of a built gateway is prepared.** -/
theorem prepared_of_buildGateway
    (h : buildGateway env shared regexNew cfg listener = .ok gw) (hrt : rt ∈ gw.routes) :
    rt.Prepared := by
  obtain ⟨state, -, h⟩ := bind_eq_ok.mp h
  obtain ⟨routes, hroutes, h⟩ := bind_eq_ok.mp h
  cases Except.ok.inj h
  obtain ⟨route, -, hroute⟩ := Config.exists_of_mapM hroutes hrt
  exact prepared_of_buildDataPath hroute

theorem prepared_of_routed (h : buildGateway env shared regexNew cfg listener = .ok gw)
    {inbound : Inbound} (hrt : gw.routed inbound = some rt) : rt.Prepared := by
  obtain ⟨id, -, hid⟩ := Option.bind_eq_some_iff.mp hrt
  exact prepared_of_buildGateway h (List.mem_of_getElem? hid)

end Routes

/-! ## Route ids -/

theorem FirstTier.eq_or_exists {ι : Type} {default : Option ι} {tiers : List (ι → Prop)} {id : ι}
    (h : FirstTier default tiers (some id)) : default = some id ∨ ∃ tier ∈ tiers, tier id := by
  induction tiers with
  | nil =>
    cases h
    exact .inl rfl
  | cons tier tiers ih =>
    cases h with
    | here hid => exact .inr ⟨tier, List.mem_cons_self, hid⟩
    | later _ h =>
      refine (ih h).imp_right ?_
      rintro ⟨tier', htier, hid⟩
      exact ⟨tier', List.mem_cons_of_mem _ htier, hid⟩

namespace Router

variable {regexNew : RegexNew} {regexes : Map Str RegexDef} {patterns : List (List Str)}
  {default : Option RouteId} {r : Router} {id : RouteId}

theorem lt_of_mem_entries {e : Str × RouteId} (h : e ∈ entries patterns) :
    e.2 < patterns.length := by
  obtain ⟨pats, hpats, -⟩ := mem_entries.mp h
  exact (List.getElem?_eq_some_iff.mp hpats).1

theorem KeyIn.lt {kind : Str → Pattern} {key : Str} (h : KeyIn (entries patterns) kind key id) :
    id < patterns.length := by
  obtain ⟨e, he, -, rfl⟩ := h
  exact lt_of_mem_entries he

theorem routeId_of_entryRegex {e : Str × RouteId} {route : RegexRoute}
    (h : entryRegex regexNew regexes e = some route) : route.routeId = e.2 := by
  unfold entryRegex at h
  split at h
  · have hok := eq_ok_of_toOption h
    unfold regexRoute at hok
    split at hok
    · exact absurd hok nofun
    · split at hok
      · exact absurd hok nofun
      · cases Except.ok.inj hok
        rfl
  · exact absurd h nofun

/-- **A built router answers with the id of a route**, or with the default. -/
theorem lt_or_default (h : build regexNew patterns default regexes = .ok r) {host : Str}
    (hid : r.matchHost host = some id) : id < patterns.length ∨ default = some id := by
  have hresolves := (matchHost_eq_iff_resolves h host (some id)).mp hid
  unfold Table.Resolves at hresolves
  split at hresolves
  · exact .inr hresolves.symm
  · obtain hdefault | ⟨tier, htier, hmatch⟩ := hresolves.eq_or_exists
    · exact .inr hdefault
    · refine .inl ?_
      simp only [List.mem_cons, List.not_mem_nil, or_false] at htier
      obtain rfl | rfl | rfl | rfl := htier
      · exact hmatch.lt
      · obtain ⟨_, _, -, -, hkey⟩ := hmatch
        exact hkey.lt
      · obtain ⟨_, -, hkey, -⟩ := hmatch
        exact hkey.lt
      · obtain ⟨before, route, after, hsplit, -, -, rfl⟩ := hmatch
        have hroute : route ∈ (tableOf regexNew regexes patterns default).regex := by
          rw [hsplit]
          exact List.mem_append_right _ List.mem_cons_self
        obtain ⟨e, he, hentry⟩ := List.mem_filterMap.mp hroute
        rw [routeId_of_entryRegex hentry]
        exact lt_of_mem_entries he

end Router

/-! ## Connections of a built gateway -/

section Gateways

variable {env : BuildEnv ρ V P} {cfg : Config} {listener : Listener} {regexNew : RegexNew}
  {shared : GatewayEnv V Der Key} {gw : Gateway ρ κ V Der Key}

theorem Listener.length_patterns (l : Listener) : l.patterns.length = l.allRoutes.length := by
  unfold patterns allRoutes
  rw [List.length_append, List.length_append, List.length_map, List.length_map]

theorem Listener.defaultId_lt {l : Listener} {id : RouteId} (h : l.defaultId = some id) :
    id < l.allRoutes.length := by
  obtain ⟨d, hd, rfl⟩ := Option.map_eq_some_iff.mp h
  rw [allRoutes, hd, List.length_append]
  exact Nat.lt_succ_self _

theorem routed_of_dispatchRoute
    (h : buildGateway env shared regexNew cfg listener = .ok gw) {inbound : Inbound} {id : RouteId}
    (hid : dispatchRoute gw.router inbound = some id) : ∃ rt, gw.routes[id]? = some rt := by
  obtain ⟨state, hstate, h⟩ := bind_eq_ok.mp h
  obtain ⟨routes, hroutes, h⟩ := bind_eq_ok.mp h
  cases Except.ok.inj h
  obtain ⟨built, -, hstate⟩ := bind_eq_ok.mp hstate
  obtain ⟨router, hrouter, hstate⟩ := bind_eq_ok.mp hstate
  cases Except.ok.inj hstate
  have hlength : listener.allRoutes.length = routes.length :=
    (Config.mapM_eq_ok.mp hroutes).length_eq
  have hmatch : ∃ host, router.matchHost host = some id := by
    unfold dispatchRoute at hid
    split at hid
    · exact ⟨_, hid⟩
    · exact ⟨_, hid⟩
  obtain ⟨host, hmatch⟩ := hmatch
  have hlt : id < routes.length := by
    rw [← hlength]
    rcases Router.lt_or_default (eq_ok_of_mapError hrouter) hmatch with hlt | hdefault
    · rwa [← listener.length_patterns]
    · exact Listener.defaultId_lt hdefault
  exact ⟨routes[id], List.getElem?_eq_getElem hlt⟩

/-- **No connection panics.** Neither the lookup of the route nor an arm that is said to be
unreachable fails, whatever the sockets, DNS, the TLS library and the pools answer. -/
theorem never_panics (h : buildGateway env shared regexNew cfg listener = .ok gw)
    {es : List (ConnExchange ρ κ V Der)} {x : Except ConnFailure Unit}
    (hruns : (dispatch gw).Runs es (.ofExcept x)) : x ≠ .error .panicked := by
  rintro rfl
  have hends := (keeps_dispatch gw fun _ _ _ ↦ True).ends hruns
    (Contract.relied_of_forall fun _ _ _ ↦ trivial)
  obtain ⟨inbound, id, -, hid, hmissing⟩ := hends rfl
  obtain ⟨rt, hrt⟩ := routed_of_dispatchRoute h hid
  rw [hrt] at hmissing
  exact absurd hmissing nofun

end Gateways

/-! ## One gateway -/

/-- A listener with a `tls` route that may speak HTTP/2. -/
def mirroredListener : Listener where
  addr := ⟨.v4 0, 443⟩
  http2 := some { enabled := some true }
  routes := [{ routeType := some .tls, matchSni := ["a.test".toList],
               upstream := some "backend.test".toList }]

def plainShared : GatewayEnv Unit Unit Unit where
  serverName _ := true
  nameOverride _ := none
  observesTransfers _ := false
  codec := { certs _ := none, privateKey _ := none, parse _ := none, timestampInRange _ := true }

def mirroredGateway : Except Str (Gateway Unit Unit Unit Unit Unit) :=
  buildGateway BuildEnv.willing plainShared (fun _ ↦ .error []) { listeners := [mirroredListener] }
    mirroredListener

/-- What a server selects: the first of its protocols that the client offered. -/
def selectAlpn (offered : Option (List Bytes)) (protocols : List Bytes) :
    Except ErrorChain (Option Bytes) :=
  match protocols.find? fun p ↦ p ∈ offered.getD [] with
  | some p => .ok (some p)
  | none => if protocols = [] ∨ offered = none then .ok none else .error []

/-- Surroundings in which everything goes well: the client speaks `h2`, and each end of a handshake
selects the first protocol it can. -/
def obliging (s : Progress Unit Unit Unit) : (op : ConnOp Unit Unit Unit Unit) → op.Answer
  | .classify => .tls (some "a.test".toList)
  | .clientHello => .ok (some [alpnH2])
  | .intoStream protocols => selectAlpn (s.offered.getD none) protocols
  | .lookupAddr _ _ port _ _ => .ok (.single ⟨.v4 0x0a000001, port⟩)
  | .pick .. => .error []
  | .dial addrs _ => .ok ⟨some addrs.primary⟩
  | .connectHost .. => .ok ⟨none⟩
  | .handshake config .. => .ok ⟨config.alpnProtocols.head?, .notOffered, some [()]⟩
  | .echClient .. => .error []
  | .invalidateAfterRejection .. => false
  | .mirrorIsCurrent .. => false
  | .spawnBlocking _ => ()
  | .splice .. => .ok ()

/-- The conversation of a connection with them. -/
def obliged (gw : Gateway Unit Unit Unit Unit Unit) :
    List (ConnExchange Unit Unit Unit Unit) × Except ConnFailure Unit :=
  (dispatch gw).converse (fun past ↦ obliging (past.foldl Progress.next {})) []

theorem isOk_mirroredGateway : mirroredGateway.toOption.isSome = true := by decide +kernel

theorem never_panics_obliged : ∃ gw es, mirroredGateway = .ok gw ∧
    (dispatch gw).Runs es (.ofExcept (obliged gw).2) ∧ (obliged gw).2 ≠ .error .panicked := by
  obtain ⟨gw, hgw⟩ := Option.isSome_iff_exists.mp isOk_mirroredGateway
  obtain ⟨es, -, hruns, -⟩ := Contract.runs_converse (c := gw.contract fun _ _ _ ↦ True) (s := {})
    (fun past ↦ obliging (past.foldl Progress.next {})) (fun _ _ ↦ trivial) (dispatch gw) []
  have hbuilt := eq_ok_of_toOption hgw
  exact ⟨gw, es, hbuilt, hruns, never_panics hbuilt hruns⟩

end SniGate
