import SniGate.Router.Precedence
import SniGate.Startup.PoolReadiness

/-!
# When the listeners are built

The last part of starting up: every route of a listener is built over the pools that run, and the
listener's router from all patterns. What the load-time check has accepted does not fail again. What
may fail is what it left open: the NAT64 prefix of a route, the syntax of a routing table, and what
comes from elsewhere, which is resolvers, verifiers and pinned certificates.

## Design choices

What a route needs is stated on its effective settings, after inheritance, because that is what the
program reads; that the load-time check has gone over the same settings is a lemma. The pools are
those of `Startup.Served`, with the views that the routes of all listeners have registered.
-/

namespace SniGate

/-! ## The two checks -/

theorem Document.validate_cfg {doc : Document} {ext : Externals} {parsers : PoolParsers}
    (h : doc.validate ext parsers = .ok ()) : doc.cfg.validate ext = .ok () := by
  have hpools := validatePools_of_validate h
  have hall {name : Str} {d : PoolDef} (hd : doc.pools.lookup name = some d) :=
    validatePool_of_validate h hd
  obtain ⟨_, hlisteners, h⟩ := bind_eq_ok.mp h
  obtain ⟨_, hdefaults, h⟩ := bind_eq_ok.mp h
  obtain ⟨_, heach, h⟩ := bind_eq_ok.mp h
  obtain ⟨_, hvalidity, h⟩ := bind_eq_ok.mp h
  obtain ⟨_, -, h⟩ := bind_eq_ok.mp h
  obtain ⟨_, hregexes, -⟩ := bind_eq_ok.mp h
  obtain ⟨_, -, hroutes⟩ := bind_eq_ok.mp hpools
  have hcfg : doc.cfg.validatePools = .ok () := by
    refine bind_eq_ok.mpr ⟨(), forM_eq_ok.mpr fun e he ↦ failIf_eq_ok.mpr ?_, hroutes⟩
    have he := AList.mem_lookup_iff.mpr he
    rw [Option.mem_def, doc.pools_eq] at he
    obtain ⟨d, hd, hlength⟩ := Option.map_eq_some_iff.mp he
    obtain ⟨_, hne, -⟩ := bind_eq_ok.mp (hall hd)
    rw [← hlength, List.length_eq_zero_iff]
    exact failIf_eq_ok.mp hne
  refine bind_eq_ok.mpr ⟨(), hlisteners, bind_eq_ok.mpr ⟨(), hdefaults, ?_⟩⟩
  refine bind_eq_ok.mpr ⟨(), heach, bind_eq_ok.mpr ⟨(), hvalidity, ?_⟩⟩
  exact bind_eq_ok.mpr ⟨(), hregexes, hcfg⟩

/-! ## One route -/

section Route

variable {ρ V P : Type} {benv : BuildEnv ρ V P} {cfg : Config} {listener : Listener} {route : Route}
  {rtTpl lnTpl : Option Template} {eff : Effective} {effEch : EffectiveEch}
  {effVerify : EffectiveVerify} {type : RouteType} {port : UInt16}

theorem exists_buildNat64 : (∃ p, buildNat64 route eff = .ok p) ↔
    (eff.addressFamily ≠ .ipv6 → ∀ s ∈ eff.nat64Prefix, ∃ p, Nat64Prefix.parse s = some p) := by
  rw [buildNat64.eq_def]
  cases hprefix : eff.nat64Prefix with
  | none => cases eff.addressFamily <;> simp
  | some s =>
    have hmap {parts : List Str} :
        (∃ p, (orError (Nat64Prefix.parse s) parts).map some = .ok p) ↔
          ∃ p, Nat64Prefix.parse s = some p := by
      cases Nat64Prefix.parse s with
      | none => simp [orError, Except.map]
      | some p => simp [orError, Except.map]
    cases eff.addressFamily with
    | ipv6 => simp
    | ipv4 => simpa using hmap
    | dual => simpa using hmap

theorem exists_buildTls : (∃ x, buildTls benv route type eff effEch effVerify port = .ok x) ↔
    (type = .tls ∨ type = .ech →
      ∃ v, benv.getVerifier effVerify ("route ".toList ++ route.label) = .ok v) ∧
    (type = .ech → ∃ r, benv.getResolver (echSpec eff) .dual = .ok r) := by
  cases type with
  | http => simp [buildTls]
  | raw => simp [buildTls]
  | tls =>
    rw [buildTls, exists_bind_eq_ok]
    simp [pure, Except.pure]
  | ech =>
    rw [buildTls, exists_bind_eq_ok]
    simp only [exists_bind_eq_ok]
    simp [pure, Except.pure]

theorem exists_buildPinned : (∃ p, buildPinned benv route rtTpl = .ok p) ↔
    ∀ cert key, route.certKey rtTpl = (some cert, some key) →
      ∃ p, benv.loadPinned cert key = .ok p := by
  rw [buildPinned.eq_def]
  obtain ⟨cert, key⟩ := route.certKey rtTpl
  cases cert with
  | none => simp
  | some cert =>
    cases key with
    | none => simp
    | some key =>
      rw [exists_mapError]
      cases hload : benv.loadPinned cert key with
      | ok p => simp [hload, Except.map]
      | error e => simp [hload, Except.map]

theorem exists_buildUpstream {host : UpstreamHost} {nat64 : Option Nat64Prefix}
    (hhost : ∀ name, host ≠ .pool name) :
    (∃ x, buildUpstream benv route rtTpl eff host nat64 = .ok x) ↔
      ∃ r, benv.getResolver (eff.addrResolver.getD []) eff.addressFamily = .ok r := by
  have hdirect {α : Type} {f : ρ → α} :
      (∃ x, (benv.getResolver (eff.addrResolver.getD []) eff.addressFamily >>=
        fun r ↦ (.ok (f r) : Except Str α)) = .ok x) ↔
        ∃ r, benv.getResolver (eff.addrResolver.getD []) eff.addressFamily = .ok r := by
    rw [exists_bind_eq_ok]
    exact exists_congr fun r ↦ and_iff_left ⟨_, rfl⟩
  cases host with
  | pool name => exact absurd rfl (hhost name)
  | reflect => exact hdirect
  | fixed h => exact hdirect

/-- Over a pool, the route's own resolver is never asked for. -/
theorem exists_buildUpstream_iff {host : UpstreamHost} {nat64 : Option Nat64Prefix}
    (hpool : ∀ name, host = .pool name →
      ∃ x, buildUpstream benv route rtTpl eff (.pool name) nat64 = .ok x) :
    (∃ x, buildUpstream benv route rtTpl eff host nat64 = .ok x) ↔
      ((∀ name, host ≠ .pool name) →
        ∃ r, benv.getResolver (eff.addrResolver.getD []) eff.addressFamily = .ok r) := by
  by_cases hhost : ∃ name, host = .pool name
  · obtain ⟨name, rfl⟩ := hhost
    exact iff_of_true (hpool name rfl) fun hno ↦ absurd rfl (hno name)
  · have hhost := not_exists.mp hhost
    rw [exists_buildUpstream hhost]
    exact ⟨fun h _ ↦ h, fun h ↦ h hhost⟩

theorem forall_ne_pool_iff {x : Option ResolvedUpstream} {resolved : ResolvedUpstream}
    (hx : x = some resolved) : (∀ name port, x ≠ some ⟨.pool name, port⟩) ↔
      ∀ name, resolved.host ≠ .pool name := by
  rw [hx]
  refine forall_congr' fun name ↦ ⟨fun h hname ↦ h resolved.port (by rw [← hname]), ?_⟩
  intro h port hsome
  exact h (by rw [Option.some.inj hsome])

/-- What a route needs from elsewhere, and of its NAT64 prefix. -/
structure RouteHas (benv : BuildEnv ρ V P) (cfg : Config) (listener : Listener) (route : Route)
    (rtTpl lnTpl : Option Template) : Prop where
  nat64 : (cfg.effective listener route rtTpl lnTpl).addressFamily ≠ .ipv6 →
    ∀ s ∈ (cfg.effective listener route rtTpl lnTpl).nat64Prefix, ∃ p, Nat64Prefix.parse s = some p
  resolver : (∀ name port, resolvedUpstreamFrom (route.upstreamSpec rtTpl) listener.addr.port ≠
      some ⟨.pool name, port⟩) →
    ∃ r, benv.getResolver ((cfg.effective listener route rtTpl lnTpl).addrResolver.getD [])
      (cfg.effective listener route rtTpl lnTpl).addressFamily = .ok r
  verify : effectiveRouteType route rtTpl = some .tls ∨ effectiveRouteType route rtTpl = some .ech →
    ∃ v, benv.getVerifier (cfg.effectiveVerify listener route rtTpl lnTpl)
      ("route ".toList ++ route.label) = .ok v
  ech : effectiveRouteType route rtTpl = some .ech →
    ∃ r, benv.getResolver (echSpec (cfg.effective listener route rtTpl lnTpl)) .dual = .ok r
  pinned : ∀ cert key, route.certKey rtTpl = (some cert, some key) →
    ∃ p, benv.loadPinned cert key = .ok p

/-- The same with the templates that the route and the listener use. -/
def RouteReady (benv : BuildEnv ρ V P) (cfg : Config) (listener : Listener) (route : Route) :
    Prop :=
  ∀ rtTpl lnTpl, cfg.templateFor route.useTemplate = .ok rtTpl →
    cfg.templateFor listener.useTemplate = .ok lnTpl → RouteHas benv cfg listener route rtTpl lnTpl

theorem exists_buildRoute {resolved : ResolvedUpstream}
    (hrt : cfg.templateFor route.useTemplate = .ok rtTpl)
    (hln : cfg.templateFor listener.useTemplate = .ok lnTpl)
    (htype : effectiveRouteType route rtTpl = some type)
    (hresolved : resolvedUpstreamFrom (route.upstreamSpec rtTpl) listener.addr.port = some resolved)
    (hpool : ∀ name, resolved.host = .pool name → ∀ eff nat64,
      ∃ x, buildUpstream benv route rtTpl eff (.pool name) nat64 = .ok x) :
    (∃ b, buildRoute benv cfg listener route = .ok b) ↔
      RouteHas benv cfg listener route rtTpl lnTpl := by
  have hupstream {nat64 : Option Nat64Prefix} :=
    exists_buildUpstream_iff fun name hname ↦
      hpool name hname (cfg.effective listener route rtTpl lnTpl) nat64
  have hdirect := forall_ne_pool_iff hresolved
  constructor
  · rintro ⟨b, h⟩
    obtain ⟨rtTpl', hrt', h⟩ := bind_eq_ok.mp h
    obtain rfl := Except.ok.inj (hrt.symm.trans (eq_ok_of_mapError hrt'))
    obtain ⟨lnTpl', hln', h⟩ := bind_eq_ok.mp h
    obtain rfl := Except.ok.inj (hln.symm.trans (eq_ok_of_mapError hln'))
    rw [htype, hresolved] at h
    obtain ⟨type', htype', h⟩ := bind_eq_ok.mp h
    obtain rfl := Except.ok.inj htype'
    obtain ⟨resolved', hresolved', h⟩ := bind_eq_ok.mp h
    obtain rfl := Except.ok.inj hresolved'
    obtain ⟨nat64, hnat64, h⟩ := bind_eq_ok.mp h
    obtain ⟨⟨upstream, identity⟩, hup, h⟩ := bind_eq_ok.mp h
    obtain ⟨⟨verify, ech, echIdentity⟩, htls, h⟩ := bind_eq_ok.mp h
    obtain ⟨pinned, hpinned, -⟩ := bind_eq_ok.mp h
    obtain ⟨hverify, hech⟩ := exists_buildTls.mp ⟨_, htls⟩
    exact {
      nat64 := exists_buildNat64.mp ⟨nat64, hnat64⟩
      resolver := fun hno ↦ hupstream.mp ⟨_, hup⟩ (hdirect.mp hno)
      verify := by simpa [htype] using hverify
      ech := by simpa [htype] using hech
      pinned := exists_buildPinned.mp ⟨pinned, hpinned⟩ }
  · intro h
    obtain ⟨nat64, hnat64⟩ := exists_buildNat64.mpr h.nat64
    obtain ⟨⟨upstream, identity⟩, hup⟩ := hupstream.mpr fun hno ↦ h.resolver (hdirect.mpr hno)
    obtain ⟨⟨verify, ech, echIdentity⟩, htls⟩ := exists_buildTls.mpr
      ⟨by simpa [htype] using h.verify, by simpa [htype] using h.ech⟩
    obtain ⟨pinned, hpinned⟩ := exists_buildPinned.mpr h.pinned
    rw [buildRoute]
    refine exists_bind_eq_ok.mpr ⟨rtTpl, by rw [hrt]; rfl, ?_⟩
    refine exists_bind_eq_ok.mpr ⟨lnTpl, by rw [hln]; rfl, ?_⟩
    refine exists_bind_eq_ok.mpr ⟨type, by rw [htype]; rfl, ?_⟩
    refine exists_bind_eq_ok.mpr ⟨resolved, by rw [hresolved]; rfl, ?_⟩
    refine exists_bind_eq_ok.mpr ⟨nat64, hnat64, ?_⟩
    refine exists_bind_eq_ok.mpr ⟨(upstream, identity), hup, ?_⟩
    refine exists_bind_eq_ok.mpr ⟨(verify, ech, echIdentity), htls, ?_⟩
    exact exists_bind_eq_ok.mpr ⟨pinned, hpinned, _, rfl⟩

end Route

/-! ## The routing table -/

section Table

variable {cfg : Config} {ext : Externals} {listener : Listener} {pat name : Str}

theorem trim_of_regexRef (h : Router.Pattern.of pat = .regexRef name) : trim pat = '@' :: name := by
  have hne : trim pat ≠ [] := by
    intro hempty
    simp [Router.Pattern.of, hempty] at h
  simp only [Router.Pattern.of, if_neg hne] at h
  cases hstrip : stripStart ['@'] (trim pat) with
  | some rest =>
    simp only [hstrip] at h
    obtain rfl := Router.Pattern.regexRef.inj h
    exact (stripStart_eq_some.mp hstrip).symm
  | none => grind

theorem head_of_inlineRegex (h : Router.Pattern.of pat = .inlineRegex) :
    (trim pat).head? = some '~' := by
  simp only [Router.Pattern.of] at h
  grind

theorem exists_route_of_mem_entries {e : Str × RouteId}
    (he : e ∈ Router.entries listener.patterns) :
    ∃ route ∈ listener.allRoutes, e.1 ∈ route.matchSni := by
  obtain ⟨p, hp, he⟩ := List.mem_flatMap.mp he
  obtain ⟨pat, hpat, rfl⟩ := List.mem_map.mp he
  rcases List.mem_append.mp (List.fst_mem_of_mem_zipIdx hp) with hroute | hdefault
  · obtain ⟨route, hroute, heq⟩ := List.mem_map.mp hroute
    exact ⟨route, List.mem_append_left _ hroute, heq ▸ hpat⟩
  · obtain ⟨_, -, heq⟩ := List.mem_map.mp hdefault
    rw [← heq] at hpat
    exact absurd hpat List.not_mem_nil

/-- An accepted configuration leaves one thing open about a routing table: whether it has a key
twice. -/
theorem acceptable_iff_of_validate (hcfg : cfg.validate ext = .ok ())
    (hl : listener ∈ cfg.listeners) :
    Router.Acceptable ext.regexNew cfg.regexes (Router.entries listener.patterns) ↔
      (Router.entries listener.patterns).Pairwise fun e e' ↦
        (Router.Pattern.of e.1).IsKey → Router.Pattern.of e.1 ≠ Router.Pattern.of e'.1 := by
  obtain ⟨_, -, h⟩ := bind_eq_ok.mp hcfg
  obtain ⟨_, -, h⟩ := bind_eq_ok.mp h
  obtain ⟨_, -, h⟩ := bind_eq_ok.mp h
  obtain ⟨_, -, h⟩ := bind_eq_ok.mp h
  obtain ⟨_, hregexes, -⟩ := bind_eq_ok.mp h
  obtain ⟨_, hdeclared, hrefs⟩ := bind_eq_ok.mp hregexes
  have hroutes : ∀ e ∈ Router.entries listener.patterns, ∃ route : Route, e.1 ∈ route.matchSni ∧
      cfg.validateRegexRefs route = .ok () := by
    intro e he
    obtain ⟨route, hroute, hpat⟩ := exists_route_of_mem_entries he
    exact ⟨route, hpat, forM_eq_ok.mp (forM_eq_ok.mp hrefs listener hl) route hroute⟩
  refine ⟨fun h ↦ h.unique, fun hunique ↦ ⟨?_, ?_, hunique⟩⟩
  · intro e he hinline
    obtain ⟨route, hpat, hroute⟩ := hroutes e he
    have hchecked := forM_eq_ok.mp hroute e.1 hpat
    have hhead := head_of_inlineRegex hinline
    simp [isRegexRef, hhead, refuse] at hchecked
  · intro e he name hname
    -- a reference names a declared expression, and those that are declared compile
    obtain ⟨route, hpat, hroute⟩ := hroutes e he
    have hchecked := forM_eq_ok.mp hroute e.1 hpat
    have htrim := trim_of_regexRef hname
    have hstrip : stripStart ['@'] (trim e.1) = some name := by
      rw [stripStart_eq_some, htrim]
      rfl
    simp only [isRegexRef, htrim, List.head?_cons, decide_true, if_true] at hchecked
    obtain ⟨d, hd, -⟩ := bind_eq_ok.mp hchecked
    rw [Config.resolveRegexRef, hstrip] at hd
    cases name with
    | nil => simp [refuse] at hd
    | cons c name =>
      cases hlookup : cfg.regexes.lookup (c :: name) with
      | none => simp [hlookup, refuse] at hd
      | some d' =>
        have hvalid := forM_eq_ok.mp hdeclared ⟨_, d'⟩ (AList.mem_lookup_iff.mp hlookup)
        obtain ⟨_, hcompiles, -⟩ := bind_eq_ok.mp hvalid
        rw [checkRegexPattern] at hcompiles
        rw [Router.regexRoute, hlookup]
        cases hregex : ext.regexNew d'.pattern with
        | error e => simp [hregex, refuse] at hcompiles
        | ok pattern => simp [hregex, Except.isOk, Except.toBool]

end Table

/-! ## One listener -/

section Listener

variable {τ V C ρ P : Type} {env : StartEnv τ V C} {parsers : PoolParsers} {rand : Str → ℕ → List ℕ}
  {ext : Externals} {doc : Document} {registry : Registry τ V} {listener : Listener} {route : Route}
  {pools : Map Str (StartedPool (BuiltResolver τ V) V)} {benv : BuildEnv ρ V P}

/-- A route of an accepted document is built, over the pools that run, exactly when it has what it
needs. -/
theorem buildRoute_iff_ready (hdoc : doc.validate ext parsers = .ok ())
    (h : env.buildPools parsers rand doc registry = .ok pools) (hl : listener ∈ doc.cfg.listeners)
    (hroute : route ∈ listener.allRoutes) :
    (∃ b, buildRoute { benv with pools := servedViews pools } doc.cfg listener route = .ok b) ↔
      RouteReady benv doc.cfg listener route := by
  have hcfg := Document.validate_cfg hdoc
  obtain ⟨later, hlistener⟩ := Config.validateListener_of_validate hcfg hl
  obtain ⟨_, -, hlistener⟩ := bind_eq_ok.mp hlistener
  obtain ⟨lnTpl, hln, -⟩ := bind_eq_ok.mp hlistener
  obtain ⟨isDefault, hchecked⟩ := Config.validateRoute_of_validate hcfg hl hroute hln
  obtain ⟨rtTpl, hrt, hchecked⟩ := bind_eq_ok.mp hchecked
  obtain ⟨_, hvalid, -⟩ := bind_eq_ok.mp hchecked
  obtain ⟨_, -, hvalid⟩ := bind_eq_ok.mp hvalid
  obtain ⟨_, hupstream, hvalid⟩ := bind_eq_ok.mp hvalid
  obtain ⟨_, -, hvalid⟩ := bind_eq_ok.mp hvalid
  obtain ⟨_, htype, -⟩ := bind_eq_ok.mp hvalid
  have hupstream := failIf_eq_ok.mp hupstream
  have htype := failIf_eq_ok.mp htype
  rw [Option.isNone_iff_eq_none] at hupstream htype
  obtain ⟨resolved, hresolved⟩ := Option.ne_none_iff_exists'.mp hupstream
  obtain ⟨type, htype⟩ := Option.ne_none_iff_exists'.mp htype
  have hpool : ∀ name, resolved.host = .pool name → ∀ eff nat64, ∃ x,
      buildUpstream { benv with pools := servedViews pools } route rtTpl eff (.pool name) nat64 =
        .ok x := by
    intro name hname eff nat64
    have hlr : (listener, route) ∈ doc.cfg.routes :=
      List.mem_flatMap.mpr ⟨listener, hl, List.mem_map_of_mem hroute⟩
    have hreads : Reads doc.cfg (listener, route) name ((route.selectFor rtTpl).getD []) := by
      have hshape : resolved = ⟨.pool name, resolved.port⟩ := by rw [← hname]
      refine bind_eq_ok.mpr ⟨rtTpl, hrt, ?_⟩
      rw [hresolved, hshape]
      rfl
    obtain ⟨tpl, p, view, htpl, -, -, hbuilt⟩ := exists_view_of_reads benv hdoc h hlr hreads
    obtain rfl := Except.ok.inj (hrt.symm.trans htpl)
    exact ⟨_, hbuilt eff nat64⟩
  rw [exists_buildRoute hrt hln htype hresolved hpool]
  constructor
  · intro hhas rtTpl' lnTpl' hrt' hln'
    -- the templates are determined by the names that are used
    obtain rfl := Except.ok.inj (hrt.symm.trans hrt')
    obtain rfl := Except.ok.inj (hln.symm.trans hln')
    exact ⟨hhas.nat64, hhas.resolver, hhas.verify, hhas.ech, hhas.pinned⟩
  · intro hready
    have hhas := hready rtTpl lnTpl hrt hln
    exact ⟨hhas.nat64, hhas.resolver, hhas.verify, hhas.ech, hhas.pinned⟩

/-- **When a listener is built.** Of an accepted document whose pools run: exactly when each of its
routes has what it needs from elsewhere, with a NAT64 prefix that parses, and no two of its patterns
are one key. -/
theorem listener_ready_iff (benv : BuildEnv ρ V P) (hdoc : doc.validate ext parsers = .ok ())
    (h : env.buildPools parsers rand doc registry = .ok pools) (hl : listener ∈ doc.cfg.listeners) :
    (∃ state, buildListener { benv with pools := servedViews pools } doc.cfg listener
      ext.regexNew = .ok state) ↔
      (∀ route ∈ listener.allRoutes, RouteReady benv doc.cfg listener route) ∧
        (Router.entries listener.patterns).Pairwise fun e e' ↦
          (Router.Pattern.of e.1).IsKey → Router.Pattern.of e.1 ≠ Router.Pattern.of e'.1 := by
  have htable := acceptable_iff_of_validate (Document.validate_cfg hdoc) hl
  rw [buildListener, exists_bind_eq_ok, ← htable]
  constructor
  · rintro ⟨built, hbuilt, state, hstate⟩
    obtain ⟨router, hrouter, -⟩ := bind_eq_ok.mp hstate
    refine ⟨fun route hroute ↦ ?_, ?_⟩
    · exact (buildRoute_iff_ready hdoc h hl hroute).mp (exists_mapM.mp ⟨built, hbuilt⟩ route hroute)
    · have hok : (Router.build ext.regexNew listener.patterns listener.defaultId
          doc.cfg.regexes).isOk := by
        rw [eq_ok_of_mapError hrouter]
        rfl
      exact Router.build_isOk_iff.mp hok
  · rintro ⟨hroutes, hacceptable⟩
    obtain ⟨built, hbuilt⟩ := exists_mapM.mpr fun route hroute ↦
      (buildRoute_iff_ready hdoc h hl hroute).mpr (hroutes route hroute)
    have hok : (Router.build ext.regexNew listener.patterns listener.defaultId
        doc.cfg.regexes).isOk := Router.build_isOk_iff.mpr hacceptable
    exact ⟨built, hbuilt, exists_bind (exists_mapError.mpr (exists_of_isOk hok)) fun _ ↦ ⟨_, rfl⟩⟩

end Listener

/-! ## One pool, read twice -/

theorem listener_ready_iff_twice : ∃ pools, ∃ listener ∈ pooledDocument.cfg.listeners,
    willingStart.buildPools .refusing (fun _ _ ↦ []) pooledDocument ∅ = .ok pools ∧
      ∃ state, buildListener { BuildEnv.willing with pools := servedViews pools } pooledDocument.cfg
        listener Externals.refusing.regexNew = .ok state := by
  obtain ⟨pools, hpools⟩ := exists_pools_pooledDocument
  have hlistener : ∃ listener ∈ pooledDocument.cfg.listeners,
      (∀ route ∈ listener.allRoutes, route.useTemplate = none ∧
        (pooledDocument.cfg.effective listener route none none).nat64Prefix = none) ∧
      listener.useTemplate = none ∧
      (Router.entries listener.patterns).Pairwise fun e e' ↦
        Router.Pattern.of e.1 ≠ Router.Pattern.of e'.1 := by
    decide +kernel
  obtain ⟨listener, hl, hroutes, htemplate, hapart⟩ := hlistener
  refine ⟨pools, listener, hl, hpools, ?_⟩
  refine (listener_ready_iff BuildEnv.willing validate_pooledDocument hpools hl).mpr ⟨?_, ?_⟩
  · intro route hroute rtTpl lnTpl hrt hln
    obtain ⟨hnone, hnat64⟩ := hroutes route hroute
    rw [hnone] at hrt
    rw [htemplate] at hln
    obtain rfl := Except.ok.inj hrt
    obtain rfl := Except.ok.inj hln
    refine ⟨fun _ s hs ↦ ?_, fun _ ↦ ⟨(), rfl⟩, fun _ ↦ ⟨(), rfl⟩, fun _ ↦ ⟨(), rfl⟩,
      fun _ _ _ ↦ ⟨(), rfl⟩⟩
    rw [hnat64] at hs
    exact absurd hs (by simp)
  · refine hapart.imp ?_
    intro e e' hne _
    exact hne

end SniGate
