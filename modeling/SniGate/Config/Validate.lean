import SniGate.Config.Resolve

/-!
# Checking a document

What `Config::validate` checks of the tables modelled here, in its order: the listeners, their
addresses, each route with its upstream, its ECH source, its HTTP/2 opt-in and its verification
policy, the validity of certificates, the declared regular expressions, and the pool references.

An accepted document vouches for every route of every listener; in particular the policy each of
them resolves to has passed its checks (`checked_of_validate`).

## Design choices

Each check is a function of its own that refuses with the text of the source or succeeds with
nothing, and `validate` is their sequence. What a successful check says is obtained by taking the
sequence apart, never by unfolding the checks beside it.
-/

namespace SniGate

/-! ## Routes -/

/-- `Route::validate`. -/
def Route.validate (r : Route) (isDefault : Bool) (listenerPort : UInt16) (tpl : Option Template) :
    Except ConfigError Unit := do
  let spec := r.upstreamSpec tpl
  refuseIf (spec.any fun s ↦ trim s = [])
    ["route ".toList, r.label, ": upstream, when set, must not be empty (omit it to ".toList,
      "reflect the source SNI/Host to this listener's port)".toList]
  refuseIf (resolvedUpstreamFrom spec listenerPort).isNone
    ["route ".toList, r.label, ": invalid upstream ".toList, debugStr (spec.getD [])]
  refuseIf (!isDefault ∧ r.matchSni = [])
    ["route ".toList, r.label,
      ": match_sni needs at least one pattern (or use default_route)".toList]
  refuseIf (effectiveRouteType r tpl).isNone
    ["route ".toList, r.label,
      ": missing type (set \x60type\x60 or a template that provides it)".toList]
  let (cert, key) := r.certKey tpl
  refuseIf (cert.isSome ≠ key.isSome)
    ["route ".toList, r.label, ": cert_file and key_file must be set together".toList]
  refuseIf (cert.isSome ∧ effectiveRouteType r tpl = some .raw)
    ["route ".toList, r.label, ": cert_file/key_file cannot be used on a \x60raw\x60 route (raw ".toList,
      "splices the TCP stream without terminating TLS, so the client sees the upstream's own ".toList,
      "certificate). Use type = \"tls\", \"ech\" or \"http\" to terminate here".toList]

/-! ## Regular expressions -/

/-- Whether a pattern is a `[regexes.<name>]` reference. -/
def isRegexRef (pattern : Str) : Bool := (trim pattern).head? = some '@'

/-- Check one label of the domain part of a scope. -/
def validateScopeLabel (regexName scope label : Str) : Except ConfigError Unit :=
  if label = [] then
    refuse ["[regexes.".toList, regexName, "]: scope_suffix ".toList, debugStr scope,
      " contains empty label (consecutive dots or leading/trailing dot)".toList]
  else if label.head? = some '-' ∨ label.getLast? = some '-' then
    refuse ["[regexes.".toList, regexName, "]: scope_suffix ".toList, debugStr scope,
      " contains invalid label ".toList, debugStr label,
      " (hyphens cannot be at the start or end)".toList]
  else if !label.all fun c ↦ isAsciiAlphanumeric c ∨ c = '-' then
    refuse ["[regexes.".toList, regexName, "]: scope_suffix ".toList, debugStr scope,
      " contains invalid characters in label ".toList, debugStr label,
      " (only alphanumeric and hyphen allowed)".toList]
  else .ok ()

/-- The domain part of a scope. -/
def scopeDomain (scope : Str) : Str :=
  match stripStart "*.".toList scope with
  | some rest => rest
  | none => (stripStart ['.'] scope).getD scope

/-- `validate_scope_pattern`. -/
def validateScopePattern (regexName scope : Str) : Except ConfigError Unit := do
  let scope := trim scope
  refuseIf (scope = [])
    ["[regexes.".toList, regexName, "]: scope_suffix contains empty entry".toList]
  let domain := scopeDomain scope
  refuseIf (domain = [])
    ["[regexes.".toList, regexName, "]: invalid scope_suffix ".toList, debugStr scope,
      " (pattern prefix with no domain)".toList]
  refuseIf ('.' ∉ domain)
    ["[regexes.".toList, regexName, "]: scope_suffix ".toList, debugStr scope,
      " must be a multi-level domain (e.g., \"*.example.com\", \".example.com\", or ".toList,
        "\"example.com\"); bare TLDs are not allowed".toList]
  (domain.splitOn '.').forM (validateScopeLabel regexName scope)

/-- Check that a pattern compiles. -/
def checkRegexPattern (ext : Externals) (name pattern : Str) : Except ConfigError Unit :=
  match ext.regexNew pattern with
  | .ok _ => .ok ()
  | .error e => refuse ["[regexes.".toList, name, "]: invalid pattern: ".toList, e]

/-- Check one declared regular expression. -/
def RegexDef.validate (ext : Externals) (name : Str) (d : RegexDef) : Except ConfigError Unit := do
  checkRegexPattern ext name d.pattern
  refuseIf (d.scopeSuffix = [])
    ["[regexes.".toList, name, "]: scope_suffix must not be empty (declare at least one ".toList,
      "domain suffix this pattern may match, e.g., [\"*.example.com\"])".toList]
  d.scopeSuffix.forM (validateScopePattern name)

namespace Config

/-- `Config::resolve_regex_ref`. -/
def resolveRegexRef (cfg : Config) (pattern : Str) : Except ConfigError RegexDef :=
  match stripStart ['@'] (trim pattern) with
  | none =>
    refuse ["invalid regex reference ".toList, debugStr pattern, " (must start with @)".toList]
  | some [] => refuse ["regex reference cannot be bare '@' (expected @<name>)".toList]
  | some name =>
    match cfg.regexes.lookup name with
    | some d => .ok d
    | none =>
      refuse ["unknown regex ".toList, debugStr name, " (no matching [regexes.".toList, name,
        "])".toList]

/-- Check that a route's patterns refer to declared regular expressions. -/
def validateRegexRefs (cfg : Config) (r : Route) : Except ConfigError Unit :=
  r.matchSni.forM fun pattern ↦
    if isRegexRef pattern then do
      let _ ← cfg.resolveRegexRef pattern
    else if (trim pattern).head? = some '~' then
      refuse ["route ".toList, r.label, ": inline regex ".toList, debugStr pattern,
        " is no longer supported; declare it in [regexes.<name>] with a scope_suffix, then ".toList,
          "reference it as @<name>".toList]
    else .ok ()

/-- `Config::validate_regexes`. -/
def validateRegexes (cfg : Config) (ext : Externals) : Except ConfigError Unit := do
  cfg.regexes.entries.forM fun e ↦ e.2.validate ext e.1
  cfg.listeners.forM fun l ↦ l.allRoutes.forM cfg.validateRegexRefs

/-- `Config::pool_def`, of which only the number of targets is kept. -/
def poolDef (cfg : Config) (name : Str) : Except ConfigError ℕ :=
  match cfg.pools.lookup name with
  | some targets => .ok targets
  | none =>
    refuse ["unknown pool ".toList, debugStr name, " (no matching [pools.".toList, name,
      "])".toList]

/-! ## ECH and verification -/

variable (cfg : Config) (listener : Listener) (route : Route) (rtTpl lnTpl : Option Template)

/-- `Config::validate_ech`: an ECH route needs a source. -/
def validateEch : Except ConfigError Unit :=
  let eff := cfg.effectiveEch listener route rtTpl lnTpl
  refuseIf (effectiveRouteType route rtTpl = some .ech ∧
      (eff.mode = .static ∨ eff.mode = .dohWithFallback) ∧
      eff.config.isNone)
    ["route ".toList, route.label, ": ech mode ".toList, eff.mode.debug,
      " requires an inline \x60config\x60 (set it on the route, its template, or a ".toList,
        "[listener.ech]/[global.ech] default)".toList]

/-- `Config::validate_http2`: only an explicit opt-in of the route or its template counts. -/
def validateHttp2 : Except ConfigError Unit :=
  refuseIf (effectiveRouteType route rtTpl = some .raw ∧
      [route.http2, rtTpl.bind Template.http2].any fun h ↦ h.bind Http2Config.enabled = some true)
    ["route ".toList, route.label, ": http2 cannot be enabled on a \x60raw\x60 route (raw never ".toList,
      "terminates TLS, so there is no ALPN to negotiate)".toList]

/-- `Config::validate_verify`. -/
def validateVerify (ext : Externals) : Except ConfigError Unit :=
  let scope := "route ".toList ++ route.label
  let rejected (why : Str) : Except ConfigError Unit :=
    refuseIf (firstSome [route.verify, rtTpl.bind Template.verify]).isSome
      [scope, ": [verify] configures the certificate an upstream must present, but a \x60".toList,
        ((effectiveRouteType route rtTpl).map RouteType.str).getD [],
        "\x60 route never verifies one (".toList, why,
        "). Use type = \"tls\" or \"ech\" to re-originate over TLS".toList]
  match effectiveRouteType route rtTpl with
  | some .tls | some .ech =>
    (cfg.effectiveVerify listener route rtTpl lnTpl).validate ext scope
  | none => .ok ()
  | some .http => rejected "the upstream is cleartext, so it presents no certificate".toList
  | some .raw =>
    rejected ("the TCP stream is spliced untouched, so the client — not this gateway — sees ".toList ++
      "the upstream's certificate".toList)

/-! ## Pools -/

/-- The first setting written at route scope that a pool makes inoperative. -/
def explicitConflict : Option Str :=
  let names (c : CommonOpts) : List (Option Str) :=
    [c.addressFamily.map fun _ ↦ "address_family".toList,
      c.nat64Prefix.map fun _ ↦ "nat64_prefix".toList,
      c.addrResolver.map fun _ ↦ "addr_resolver".toList]
  firstSome (names route.common ++ (rtTpl.map fun t ↦ names t.common).getD [])

/-- `Config::validate_route_pool`. -/
def validateRoutePool (listenerPort : UInt16) : Except ConfigError Unit := do
  let spec := route.upstreamSpec rtTpl
  let select := route.selectFor rtTpl
  match resolvedUpstreamFrom spec listenerPort with
  | none =>
    refuse ["route ".toList, route.label, ": invalid upstream ".toList, debugStr (spec.getD [])]
  | some ⟨.pool name, _⟩ =>
    match cfg.poolDef name with
    | .error e => refuse ["route ".toList, route.label, ": ".toList, e.display]
    | .ok targets =>
      (select.getD []).forM fun sel ↦
        match sel with
        | .index i =>
          refuseIf (targets ≤ i)
            ["route ".toList, route.label, ": select index ".toList, decimal i,
              " is out of bounds for pool @".toList, name, " (targets has ".toList, decimal targets,
              " entries)".toList]
        | .tag _ => .ok ()
      match explicitConflict route rtTpl with
      | none => return ()
      | some field =>
        refuse ["route ".toList, route.label, ": \x60".toList, field,
          "\x60 has no effect when upstream is a pool (@".toList, name,
          " resolves its own targets, decides its own address families, and applies its own NAT64 ".toList,
            "projection). Set it on [pools.".toList, name, "] instead, or drop it here".toList]
  | some _ =>
    refuseIf select.isSome
      ["route ".toList, route.label, ": \x60select\x60 filters pool candidates, but this route's ".toList,
        "upstream is not a pool reference; remove \x60select\x60, or point \x60upstream\x60 at a @pool".toList]

/-- `Config::validate_pools`: the pools' own checks beyond their number of targets are left out. -/
def validatePools : Except ConfigError Unit := do
  cfg.pools.entries.forM fun e ↦
    refuseIf (e.2 = 0) ["[pools.".toList, e.1, "]: \x60targets\x60 must not be empty".toList]
  cfg.listeners.forM fun l ↦ l.allRoutes.forM fun r ↦ do
    let tpl ← cfg.templateFor r.useTemplate
    cfg.validateRoutePool r tpl l.addr.port

/-! ## The document -/

/-- Check one route of a listener. -/
def validateRoute (ext : Externals) (isDefault : Bool) : Except ConfigError Unit := do
  let rtTpl ← cfg.templateFor route.useTemplate
  route.validate isDefault listener.addr.port rtTpl
  cfg.validateEch listener route rtTpl lnTpl
  validateHttp2 route rtTpl
  cfg.validateVerify listener route rtTpl lnTpl ext

/-- Check a listener: that no later one has its address, and each of its routes. -/
def validateListener (ext : Externals) (later : List Listener) : Except ConfigError Unit := do
  refuseIf (later.any fun b ↦ listener.addr = b.addr)
    ["duplicate listener address ".toList, listener.addr.toStr]
  let lnTpl ← cfg.templateFor listener.useTemplate
  listener.routes.forM fun r ↦ cfg.validateRoute listener r lnTpl ext false
  listener.defaultRoute.toList.forM fun d ↦ cfg.validateRoute listener d lnTpl ext true

/-- Check each listener against those after it. -/
def validateListeners (ext : Externals) : List Listener → Except ConfigError Unit
  | [] => .ok ()
  | l :: later => do
    cfg.validateListener l ext later
    validateListeners ext later

/-- Check the policies that only supply defaults. -/
def validateVerifyDefaults (ext : Externals) : Except ConfigError Unit := do
  cfg.global.verify.toList.forM fun v ↦ do
    v.validateSyntax ext "[global]".toList
    v.rejectName "[global]".toList
  cfg.templates.entries.forM fun e ↦ e.2.verify.toList.forM fun v ↦
    v.validateSyntax ext ("[templates.".toList ++ e.1 ++ "]".toList)
  cfg.listeners.forM fun l ↦ l.verify.toList.forM fun v ↦ do
    v.validateSyntax ext ("listener ".toList ++ l.addr.toStr)
    v.rejectName ("listener ".toList ++ l.addr.toStr)

/-- Check that leaf certificates outlive the renewal margin. -/
def validateValidity : Except ConfigError Unit := do
  refuseIf (cfg.ca.leafValidityDays < 1) ["ca.leaf_validity_days must be >= 1".toList]
  refuseIf (cfg.ca.leafValidityDays ≤ cfg.store.renewMarginDays)
    ["store.renew_margin_days must be < ca.leaf_validity_days".toList]

/-- `Config::validate`. -/
def validate (ext : Externals) : Except ConfigError Unit := do
  refuseIf (cfg.listeners = [])
    ["at least one [[listener]] is required".toList]
  cfg.validateVerifyDefaults ext
  cfg.validateListeners ext cfg.listeners
  cfg.validateValidity
  cfg.validateRegexes ext
  cfg.validatePools

/-! ## What an accepted document vouches for -/

section Checked

variable {cfg : Config} {ext : Externals} {listener : Listener} {route : Route}
  {rtTpl lnTpl : Option Template}

theorem validateListener_of_validate (h : cfg.validate ext = .ok ())
    (hl : listener ∈ cfg.listeners) :
    ∃ later, cfg.validateListener listener ext later = .ok () := by
  have hall : ∀ ls : List Listener, cfg.validateListeners ext ls = .ok () → listener ∈ ls →
      ∃ later, cfg.validateListener listener ext later = .ok () := by
    intro ls
    induction ls with
    | nil => exact fun _ hin ↦ absurd hin (by simp)
    | cons l ls ih =>
      intro hrun hin
      obtain ⟨_, hone, hrest⟩ := bind_eq_ok.mp hrun
      rcases List.mem_cons.mp hin with rfl | hin
      · exact ⟨ls, hone⟩
      · exact ih hrest hin
  obtain ⟨_, -, h⟩ := bind_eq_ok.mp h
  obtain ⟨_, -, h⟩ := bind_eq_ok.mp h
  obtain ⟨_, hls, -⟩ := bind_eq_ok.mp h
  exact hall cfg.listeners hls hl

theorem validateRoute_of_validate (h : cfg.validate ext = .ok ()) (hl : listener ∈ cfg.listeners)
    (hr : route ∈ listener.allRoutes) (hln : cfg.templateFor listener.useTemplate = .ok lnTpl) :
    ∃ isDefault, cfg.validateRoute listener route lnTpl ext isDefault = .ok () := by
  obtain ⟨later, h⟩ := validateListener_of_validate h hl
  obtain ⟨_, -, h⟩ := bind_eq_ok.mp h
  obtain ⟨tpl, htpl, h⟩ := bind_eq_ok.mp h
  obtain rfl : tpl = lnTpl := Except.ok.inj (htpl.symm.trans hln)
  obtain ⟨_, hroutes, hdefault⟩ := bind_eq_ok.mp h
  rcases List.mem_append.mp hr with hr | hr
  · exact ⟨false, forM_eq_ok.mp hroutes route hr⟩
  · exact ⟨true, forM_eq_ok.mp hdefault route hr⟩

/-- **Resolved policies are checked.** -/
theorem checked_of_validate (h : cfg.validate ext = .ok ()) (hl : listener ∈ cfg.listeners)
    (hr : route ∈ listener.allRoutes) (hrt : cfg.templateFor route.useTemplate = .ok rtTpl)
    (hln : cfg.templateFor listener.useTemplate = .ok lnTpl) :
    (cfg.effectiveVerify listener route rtTpl lnTpl).Checked ext := by
  obtain ⟨isDefault, h⟩ := validateRoute_of_validate h hl hr hln
  obtain ⟨tpl, htpl, h⟩ := bind_eq_ok.mp h
  obtain rfl : tpl = rtTpl := Except.ok.inj (htpl.symm.trans hrt)
  obtain ⟨_, -, h⟩ := bind_eq_ok.mp h
  obtain ⟨_, -, h⟩ := bind_eq_ok.mp h
  obtain ⟨_, -, h⟩ := bind_eq_ok.mp h
  rw [validateVerify] at h
  cases htype : effectiveRouteType route tpl with
  | none =>
    rw [effectiveVerify, htype]
    exact EffectiveVerify.checked_default
  | some type =>
    rw [htype] at h
    cases type with
    | tls => exact EffectiveVerify.checked_of_validate h
    | ech => exact EffectiveVerify.checked_of_validate h
    | http =>
      rw [effectiveVerify, htype]
      exact EffectiveVerify.checked_default
    | raw =>
      rw [effectiveVerify, htype]
      exact EffectiveVerify.checked_default

end Checked

end Config

end SniGate
