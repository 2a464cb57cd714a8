import SniGate.Startup.Wiring
import SniGate.Text.Trim
import SniGate.Verify.Verifier

/-!
# What can still keep resolvers from being built

Of a resolver's definition the load-time check reads the endpoint, the references and the policy of
an endpoint that presents a certificate. The rest is read when the resolver is built: the inline
specs, the `upstream`, the NAT64 prefix, an inline ECHConfigList, and the policies that were not
checked. `Buildable` lists exactly this (`startup_ready_iff`).

DNS is taken to answer (`Obliges`), and the libraries to build what they are given (`Dependable`).

## Design choices

What the libraries must do is asked of them once and by name; what DNS must answer is the rely
condition of a contract, and runs in which it does not are left to `Startup.Wiring`. Each function
on the way to a resolver has a lemma that says when it succeeds, and `Ready` collects what these
leave open. Errors are not told apart here: which of two defects is reported first is not part of
readiness.
-/

namespace SniGate

variable {τ V C : Type}

/-! ## What is relied on -/

/-- The libraries build what they are given, as long as it holds no ECHConfigList. -/
structure StartEnv.Dependable (env : StartEnv τ V C) : Prop where
  construct : ∀ config, ∃ r, env.construct config = .ok r
  disabled : ∀ sni v, ∃ tls, env.resolverClientConfig .disabled sni v = .ok tls

/-- DNS answers, and what it publishes can be used. -/
def StartEnv.Obliges {ρ : Type} (env : StartEnv τ V C) : (q : StartOp ρ) → q.Answer → Prop
  | .lookupAddr .., answer => ∃ addrs, answer = .ok addrs
  | .lookupHttps .., answer => ∃ records bytes, answer = .ok records ∧
      records.findSome? DnsRecord.echConfigList = some bytes ∧
      ∀ sni v, ∃ tls, env.resolverClientConfig (.config bytes) sni v = .ok tls
  | .spawnEchRefresher .., _ => True

/-- DNS is relied on, and anything may be asked. -/
def StartEnv.obliging (env : StartEnv τ V C) :
    Contract (@StartOp.Answer (BuiltResolver τ V)) Unit where
  next _ _ := ()
  rely _ q answer := env.Obliges q answer
  guarantee _ _ := True

/-! ## What a definition must say -/

/-- An inline spec is one that a resolver can be built from. -/
def InlineBuilds (env : StartEnv τ V C) (spec : Option Str) (family : AddressFamily) : Prop :=
  match spec with
  | none => ∃ r, ResolverSpec.system.build env family = .ok r
  | some spec => isResolverRef spec = false →
    ∃ parsed r, ResolverSpec.parse env.toSocketAddrs spec = .ok parsed ∧
      parsed.build env family = .ok r

/-- The inline ECHConfigList. -/
def InlineList (env : StartEnv τ V C) (settings : EffectiveEch) (bytes : Bytes) : Prop :=
  ∃ cfg, settings.config = some cfg ∧ decodeEchB64 env.base64 cfg = .ok bytes

/-- What a plan can be made of. -/
structure Plannable (env : StartEnv τ V C) (name : Str) (eff : EffectiveResolver)
    (endpoint : Endpoint) : Prop where
  bootstrap : InlineBuilds env eff.bootstrap eff.addressFamily
  upstream : ∃ resolved, resolvedUpstreamFrom eff.upstream endpoint.port = some resolved ∧
    ∀ pool, resolved.host ≠ .pool pool
  nat64 : ∀ s ∈ eff.nat64Prefix, ∃ p, Nat64Prefix.parse s = some p
  echResolver : eff.ech.isSome → InlineBuilds env eff.echResolver .dual
  verify : ∃ v, env.getVerifier eff.verify ("[resolvers.".toList ++ name ++ "]".toList) = .ok v

/-- The ECH settings of a plan can be acted on: there is a name to look up, and the list of a static
configuration can be used. -/
def NamedPlan.EchUsable (env : StartEnv τ V C) {ρ : Type} (plan : NamedPlan ρ V) : Prop :=
  ∀ e ∈ plan.ech, (plan.echLookupName e.settings).isSome ∧
    (e.settings.mode = .static → ∃ bytes, InlineList env e.settings bytes ∧
      (plan.endpoint.isTls →
        ∃ tls, env.resolverClientConfig (.config bytes) plan.enableSni plan.verify = .ok tls))

/-- Whoever a nomination refers to is in the registry. -/
def RefBuilt (registry : Registry τ V) (spec : Option Str) : Prop :=
  ∀ s ∈ spec, isResolverRef s → ∃ name, refName s = some name ∧ name ∈ registry

/-- What holds at an end that decides something. -/
abbrev Decides {α : Type} (P : Prop) : Unit → Except ErrorChain α → Prop :=
  Contract.ends (fun _ _ ↦ P) fun _ _ ↦ ¬P

/-! ## Making a plan -/

section Planning

variable {env : StartEnv τ V C} {registry : Registry τ V} {spec : Option Str}
  {family : AddressFamily} {eff : EffectiveResolver} {name : Str} {endpoint : Endpoint}

theorem exists_mapError {ε ε' α : Type} {x : Except ε α} {f : ε → ε'} :
    (∃ a, x.mapError f = .ok a) ↔ ∃ a, x = .ok a := by
  cases x with
  | ok a => simp [Except.mapError]
  | error e => simp [Except.mapError]

theorem exists_bind_eq_ok {ε α β : Type} {x : Except ε α} {f : α → Except ε β} :
    (∃ b, (x >>= f) = .ok b) ↔ ∃ a, x = .ok a ∧ ∃ b, f a = .ok b := by
  simp only [bind_eq_ok]
  exact ⟨fun ⟨b, a, ha, hb⟩ ↦ ⟨a, ha, b, hb⟩, fun ⟨a, ha, b, hb⟩ ↦ ⟨b, a, ha, hb⟩⟩

theorem exists_nominate {badRef missing specContext specLabel systemLabel : Str → Str}
    (hspec : RefBuilt registry spec) :
    (∃ r, nominate env registry spec family badRef missing specContext specLabel systemLabel =
      .ok r) ↔ InlineBuilds env spec family := by
  rw [nominate.eq_def, InlineBuilds.eq_def]
  cases spec with
  | none =>
    simp only [bind_eq_ok]
    constructor
    · rintro ⟨_, r, hr, -⟩
      exact ⟨r, eq_ok_of_mapError hr⟩
    · rintro ⟨r, hr⟩
      exact ⟨_, r, by rw [hr]; rfl, rfl⟩
  | some spec =>
    simp only
    split_ifs with href
    · obtain ⟨name, hname, hmem⟩ := hspec spec rfl href
      obtain ⟨r, hr⟩ := Option.isSome_iff_exists.mp (AList.lookup_isSome.mpr hmem)
      simp [hname, hr, href]
    · simp only [bind_eq_ok]
      constructor
      · rintro ⟨_, parsed, hparsed, r, hr, -⟩ -
        exact ⟨parsed, r, eq_ok_of_mapError hparsed, eq_ok_of_mapError hr⟩
      · intro h
        obtain ⟨parsed, r, hparsed, hr⟩ := h (by simpa using href)
        exact ⟨_, parsed, by rw [hparsed]; rfl, r, by rw [hr]; rfl, rfl⟩

theorem exists_nominateBootstrap (hbootstrap : RefBuilt registry eff.bootstrap) :
    (∃ r, nominateBootstrap env registry eff name = .ok r) ↔
      InlineBuilds env eff.bootstrap eff.addressFamily := by
  rw [nominateBootstrap]
  exact exists_nominate hbootstrap

theorem exists_dialHost {host : UpstreamHost} :
    (∃ h, dialHost name endpoint host = .ok h) ↔ ∀ pool, host ≠ .pool pool := by
  cases host with
  | reflect => simp [dialHost]
  | fixed h => simp [dialHost]
  | pool p => simp [dialHost]

theorem exists_planNat64 :
    (∃ p, planNat64 eff name = .ok p) ↔
      ∀ s ∈ eff.nat64Prefix, ∃ p, Nat64Prefix.parse s = some p := by
  rw [planNat64]
  cases eff.nat64Prefix with
  | none => simp
  | some s =>
    cases hparse : Nat64Prefix.parse s with
    | none => simp [hparse]
    | some p => simp [hparse]

theorem exists_planEch (hech : eff.ech.isSome → RefBuilt registry eff.echResolver) :
    (∃ e, planEch env registry eff name = .ok e) ↔
      (eff.ech.isSome → InlineBuilds env eff.echResolver .dual) := by
  rw [planEch]
  cases heff : eff.ech with
  | none => simp
  | some settings =>
    rw [heff] at hech
    simp only [bind_eq_ok, Option.isSome_some, forall_const]
    rw [nominateEchResolver, ← exists_nominate (hech rfl)]
    constructor
    · rintro ⟨_, r, hr, -⟩
      exact ⟨r, hr⟩
    · rintro ⟨r, hr⟩
      exact ⟨_, r, hr, rfl⟩

/-- **When a plan is made.** -/
theorem exists_planNamed (hendpoint : Endpoint.parse eff.endpoint = .ok endpoint)
    (hbootstrap : RefBuilt registry eff.bootstrap)
    (hech : eff.ech.isSome → RefBuilt registry eff.echResolver) :
    (∃ plan, planNamed env registry eff name = .ok plan) ↔ Plannable env name eff endpoint := by
  constructor
  · rintro ⟨plan, h⟩
    obtain ⟨endpoint', hendpoint', h⟩ := bind_eq_ok.mp h
    obtain rfl : endpoint = endpoint' :=
      Except.ok.inj (hendpoint.symm.trans (eq_ok_of_mapError hendpoint'))
    obtain ⟨bootstrap, hboot, h⟩ := bind_eq_ok.mp h
    cases hresolved : resolvedUpstreamFrom eff.upstream endpoint.port with
    | none => simp [hresolved] at h
    | some resolved =>
      simp only [hresolved] at h
      obtain ⟨host, hhost, h⟩ := bind_eq_ok.mp h
      obtain ⟨nat64, hnat64, h⟩ := bind_eq_ok.mp h
      obtain ⟨ech, hplanEch, h⟩ := bind_eq_ok.mp h
      obtain ⟨verify, hverify, h⟩ := bind_eq_ok.mp h
      exact {
        bootstrap := (exists_nominateBootstrap hbootstrap).mp ⟨bootstrap, hboot⟩
        upstream := ⟨resolved, hresolved, exists_dialHost.mp ⟨host, hhost⟩⟩
        nat64 := exists_planNat64.mp ⟨nat64, hnat64⟩
        echResolver := (exists_planEch hech).mp ⟨ech, hplanEch⟩
        verify := ⟨verify, eq_ok_of_mapError hverify⟩ }
  · intro h
    obtain ⟨bootstrap, hboot⟩ : ∃ r, nominateBootstrap env registry eff name = .ok r :=
      (exists_nominateBootstrap hbootstrap).mpr h.bootstrap
    obtain ⟨resolved, hresolved, hpool⟩ := h.upstream
    obtain ⟨host, hhost⟩ : ∃ host, dialHost name endpoint resolved.host = .ok host :=
      exists_dialHost.mpr hpool
    obtain ⟨nat64, hnat64⟩ : ∃ p, planNat64 eff name = .ok p := exists_planNat64.mpr h.nat64
    obtain ⟨ech, hplanEch⟩ : ∃ e, planEch env registry eff name = .ok e :=
      (exists_planEch hech).mpr h.echResolver
    obtain ⟨verify, hverify⟩ := h.verify
    refine exists_bind_eq_ok.mpr ⟨endpoint, mapError_eq_ok_iff.mpr hendpoint,
      exists_bind_eq_ok.mpr ⟨bootstrap, hboot, ?_⟩⟩
    simp only [hresolved]
    exact exists_bind_eq_ok.mpr ⟨host, hhost, exists_bind_eq_ok.mpr ⟨nat64, hnat64,
      exists_bind_eq_ok.mpr ⟨ech, hplanEch,
        exists_bind_eq_ok.mpr ⟨verify, mapError_eq_ok_iff.mpr hverify, _, rfl⟩⟩⟩⟩

end Planning

/-! ## Carrying it out -/

section Carrying

variable {env : StartEnv τ V C} {plan : NamedPlan (BuiltResolver τ V) V} {s : Unit}

theorem keeps_dialIps {onFailure : Unit → ErrorChain → Prop} :
    env.obliging.Keeps
      (Contract.ends (fun _ ips ↦ plan.endpoint ≠ .system → ips ≠ []) onFailure) s
      (dialIps plan) := by
  have hasked (P : Prop) (host : Str) (what : String) : env.obliging.Keeps
      (Contract.ends (fun _ ips ↦ P → ips ≠ []) onFailure) s (bootstrapIps plan host what) := by
    refine Contract.keeps_query_bind.mpr ⟨trivial, ?_⟩
    rintro answer ⟨addrs, hanswer⟩
    rw [hanswer]
    exact fun _ ↦ by simp [ResolvedAddrs.addrs]
  rw [dialIps]
  cases hendpoint : plan.endpoint with
  | system => exact fun h ↦ absurd rfl h
  | plain target port =>
    cases hip : parseIpAddr target with
    | some ip =>
      simp only [hip]
      exact fun _ ↦ by simp
    | none =>
      simp only [hip]
      split_ifs
      · exact hasked _ _ _
      · exact hasked _ _ _
  | doh host port path => exact hasked _ _ _
  | dot host port => exact hasked _ _ _

/-- A list that a TLS configuration can be made of. -/
def ListUsable (env : StartEnv τ V C) (bytes : Bytes) : Prop :=
  ∀ sni v, ∃ tls, env.resolverClientConfig (.config bytes) sni v = .ok tls

theorem inlineEch_eq_ok {settings : EffectiveEch} {missing : String} {bytes : Bytes} :
    inlineEch env settings missing = .ok bytes ↔ InlineList env settings bytes := by
  rw [inlineEch, InlineList]
  cases settings.config with
  | none => simp
  | some cfg => simp [mapError_eq_ok_iff]

theorem InlineList.unique {settings : EffectiveEch} {bytes bytes' : Bytes}
    (h : InlineList env settings bytes) (h' : InlineList env settings bytes') : bytes = bytes' := by
  obtain ⟨cfg, hcfg, hbytes⟩ := h
  obtain ⟨cfg', hcfg', hbytes'⟩ := h'
  obtain rfl := Option.some.inj (hcfg.symm.trans hcfg')
  exact Except.ok.inj (hbytes.symm.trans hbytes')

/-- Where DNS answers, only an inline list can be missing. -/
theorem keeps_acquireResolverEch {settings : EffectiveEch} {host : Str} {r : BuiltResolver τ V} :
    env.obliging.Keeps (Contract.ends
      (fun _ x ↦ ∃ bytes, x = some bytes ∧
        (settings.mode = .static → InlineList env settings bytes) ∧
        (settings.mode ≠ .static → ListUsable env bytes))
      fun _ _ ↦ settings.mode = .static ∧ ∀ bytes, ¬InlineList env settings bytes) s
      (acquireResolverEch env settings host r) := by
  rw [acquireResolverEch.eq_def]
  cases hmode : settings.mode with
  | static =>
    cases hinline : inlineEch env settings "static ECH mode needs a config" with
    | ok bytes =>
      exact ⟨bytes, rfl, fun _ ↦ inlineEch_eq_ok.mp hinline, fun h ↦ absurd rfl h⟩
    | error e =>
      refine ⟨rfl, fun bytes hbytes ↦ ?_⟩
      rw [inlineEch_eq_ok.mpr hbytes] at hinline
      exact absurd hinline (by simp)
  | doh =>
    refine Contract.keeps_query_bind.mpr ⟨trivial, ?_⟩
    rintro answer ⟨records, bytes, hanswer, hb, husable⟩
    rw [hanswer]
    exact ⟨bytes, hb, fun h ↦ absurd h (by simp), fun _ ↦ husable⟩
  | dohWithFallback =>
    refine Contract.keeps_query_bind.mpr ⟨trivial, ?_⟩
    rintro answer ⟨records, bytes, hanswer, hb, husable⟩
    simp only [hanswer, Except.toOption, Option.bind_some, hb]
    exact ⟨bytes, rfl, fun h ↦ absurd h (by simp), fun _ ↦ husable⟩

/-- What a plan is constructed with: no list without ECH, and else one that can be used, if it does
not stand in the definition. -/
def Acquired (env : StartEnv τ V C) (plan : NamedPlan (BuiltResolver τ V) V) (x : Option Bytes) :
    Prop :=
  (plan.ech = none ∧ x = none) ∨
    ∃ e bytes, plan.ech = some e ∧ (plan.echLookupName e.settings).isSome ∧ x = some bytes ∧
      (e.settings.mode = .static → InlineList env e.settings bytes) ∧
      (e.settings.mode ≠ .static → ListUsable env bytes)

theorem keeps_acquireEch : env.obliging.Keeps
    (Contract.ends (fun _ x ↦ Acquired env plan x) fun _ _ ↦ ¬plan.EchUsable env) s
    (acquireEch env plan) := by
  rw [acquireEch]
  cases hech : plan.ech with
  | none => exact .inl ⟨hech, rfl⟩
  | some e =>
    cases hname : plan.echLookupName e.settings with
    | none =>
      simp only [hname]
      intro husable
      exact absurd (husable e hech).1 (by simp [hname])
    | some host =>
      simp only [hname]
      rw [Contract.keeps_bind, Contract.keeps_attempt]
      refine keeps_acquireResolverEch.mono fun s' x hx ↦ ?_
      cases x with
      | error err =>
        intro husable
        obtain ⟨bytes, hbytes, -⟩ := (husable e hech).2 hx.1
        exact hx.2 bytes hbytes
      | ok x =>
        obtain ⟨bytes, rfl, hstatic, hother⟩ := hx
        simp only [inContext, Except.mapError, Program.ofExcept_ok, Program.done_bind, reduceCtorEq,
          false_and, if_false]
        exact .inr ⟨e, bytes, hech, by rw [hname]; rfl, rfl, hstatic, hother⟩

theorem exists_planTls_of_ech {e : NamedEch (BuiltResolver τ V)} {bytes : Bytes}
    (hech : plan.ech = some e) :
    (∃ tls, planTls env plan (some bytes) = .ok tls) ↔ (plan.endpoint.isTls →
      ∃ tls, env.resolverClientConfig (.config bytes) plan.enableSni plan.verify = .ok tls) := by
  have hmode : planEchMode plan (some bytes) = .config bytes := by simp [planEchMode, hech]
  rw [planTls, hmode]
  by_cases htls : plan.endpoint.isTls
  · rw [if_pos ⟨htls, .inl (by rw [hech]; rfl)⟩, exists_mapError]
    cases env.resolverClientConfig (.config bytes) plan.enableSni plan.verify with
    | ok tls => simp [Except.map]
    | error err => simp [Except.map, htls]
  · rw [if_neg fun h ↦ htls h.1]
    exact iff_of_true ⟨none, rfl⟩ fun h ↦ absurd h htls

theorem exists_planServers {ips : List IpAddr} (hips : plan.endpoint ≠ .system → ips ≠ [])
    (hname : plan.endpoint.isTls → plan.serverName.isSome) :
    ∃ servers, planServers env plan ips = .ok servers := by
  have hdialed (port : UInt16) (build : IpAddr → NameServerConfig) (h : ips ≠ []) :
      dialedServers ips port build = .ok (Endpoint.nameServersOn ips port build) := if_neg h
  rw [planServers.eq_def]
  cases hendpoint : plan.endpoint with
  | system => exact ⟨_, rfl⟩
  | plain target port => exact ⟨_, hdialed _ _ (hips (by simp [hendpoint]))⟩
  | doh host port path =>
    obtain ⟨name, hsome⟩ := Option.isSome_iff_exists.mp (hname (by rw [hendpoint]; rfl))
    simp only [hsome]
    exact ⟨_, hdialed _ _ (hips (by simp [hendpoint]))⟩
  | dot host port =>
    obtain ⟨name, hsome⟩ := Option.isSome_iff_exists.mp (hname (by rw [hendpoint]; rfl))
    simp only [hsome]
    exact ⟨_, hdialed _ _ (hips (by simp [hendpoint]))⟩

/-- **When a plan is constructed.** -/
theorem exists_constructPlan (henv : env.Dependable) {ips : List IpAddr} {x : Option Bytes}
    (hips : plan.endpoint ≠ .system → ips ≠ [])
    (hserver : plan.endpoint.isTls → plan.serverName.isSome) (hx : Acquired env plan x) :
    (∃ r, constructPlan env plan ips x = .ok r) ↔ plan.EchUsable env := by
  have htls : (∃ r, constructPlan env plan ips x = .ok r) ↔
      ∃ tls, planTls env plan x = .ok tls := by
    rw [constructPlan, exists_bind_eq_ok]
    obtain ⟨servers, hservers⟩ : ∃ servers, planServers env plan ips = .ok servers :=
      exists_planServers hips hserver
    constructor
    · rintro ⟨_, -, h⟩
      obtain ⟨tls, htls, -⟩ := exists_bind_eq_ok.mp h
      exact ⟨tls, htls⟩
    · rintro ⟨tls, htls⟩
      exact ⟨servers, hservers, exists_bind_eq_ok.mpr
        ⟨tls, htls, exists_mapError.mpr (henv.construct _)⟩⟩
  rw [htls]
  rcases hx with ⟨hech, rfl⟩ | ⟨e, bytes, hech, hname, rfl, hstatic, hother⟩
  · have husable : plan.EchUsable env := fun e he ↦ absurd (he.symm.trans hech) (by simp)
    obtain ⟨tls, htls⟩ := henv.disabled plan.enableSni plan.verify
    refine iff_of_true ?_ husable
    rw [planTls]
    split_ifs
    · simp [planEchMode, hech, htls, Except.map, Except.mapError]
    · exact ⟨none, rfl⟩
  · rw [exists_planTls_of_ech hech]
    constructor
    · intro h e' he'
      obtain rfl := Option.some.inj (hech.symm.trans he')
      exact ⟨hname, fun hmode ↦ ⟨bytes, hstatic hmode, h⟩⟩
    · intro husable htls
      by_cases hmode : e.settings.mode = .static
      · obtain ⟨bytes', hbytes', h⟩ := (husable e hech).2 hmode
        rw [(hstatic hmode).unique hbytes']
        exact h htls
      · exact hother hmode _ _

/-- **When a plan is carried out.** -/
theorem keeps_buildPlan (henv : env.Dependable)
    (hserver : plan.endpoint.isTls → plan.serverName.isSome) :
    env.obliging.Keeps (Decides (plan.EchUsable env)) s (buildPlan env plan) := by
  rw [buildPlan]
  refine keeps_dialIps.bind fun s' ips hips ↦ ?_
  refine keeps_acquireEch.bind fun s' x hx ↦ ?_
  have hiff : (∃ r, constructPlan env plan ips x = .ok r) ↔ plan.EchUsable env :=
    exists_constructPlan henv hips hserver hx
  cases hconstruct : constructPlan env plan ips x with
  | ok r => exact hiff.mp ⟨r, hconstruct⟩
  | error e =>
    refine fun husable ↦ ?_
    obtain ⟨r, hr⟩ := hiff.mpr husable
    rw [hconstruct] at hr
    exact absurd hr (by simp)

end Carrying

/-! ## One resolver -/

/-- **What the definition of a resolver must say for it to be built.** -/
structure Buildable (env : StartEnv τ V C) (name : Str) (eff : EffectiveResolver)
    (endpoint : Endpoint) : Prop extends Plannable env name eff endpoint where
  echUsable : ∀ settings ∈ eff.ech, (settings.echDomain.or (eff.serverName endpoint)).isSome ∧
    (settings.mode = .static → ∃ bytes, InlineList env settings bytes ∧
      (endpoint.isTls → ∀ v,
        env.getVerifier eff.verify ("[resolvers.".toList ++ name ++ "]".toList) = .ok v →
        ∃ tls, env.resolverClientConfig (.config bytes) (eff.sniPolicy ≠ .omitted) v = .ok tls))

section One

variable {env : StartEnv τ V C} {registry : Registry τ V} {eff : EffectiveResolver} {name : Str}
  {endpoint : Endpoint} {plan : NamedPlan (BuiltResolver τ V) V} {s : Unit}

theorem PlannedFrom.echUsable_iff (h : PlannedFrom env registry name eff plan)
    (hendpoint : Endpoint.parse eff.endpoint = .ok endpoint)
    (hplan : Plannable env name eff endpoint) :
    plan.EchUsable env ↔ Buildable env name eff endpoint := by
  obtain rfl : endpoint = plan.endpoint := Except.ok.inj (hendpoint.symm.trans h.endpoint)
  have hsni : (decide (eff.sniPolicy ≠ .omitted)) = plan.enableSni := by
    rw [Bool.eq_iff_iff, h.enableSni, decide_eq_true_iff]
  have hname (settings : EffectiveEch) : (plan.echLookupName settings).isSome ↔
      (settings.echDomain.or (eff.serverName plan.endpoint)).isSome := by
    rw [NamedPlan.echLookupName, h.serverName, Option.isSome_map]
  constructor
  · intro husable
    refine ⟨hplan, fun settings hsettings ↦ ?_⟩
    rw [← h.ech] at hsettings
    obtain ⟨e, he, rfl⟩ := Option.map_eq_some_iff.mp hsettings
    refine ⟨(hname _).mp (husable e he).1, fun hmode ↦ ?_⟩
    obtain ⟨bytes, hbytes, htls⟩ := (husable e he).2 hmode
    refine ⟨bytes, hbytes, fun hisTls v hv ↦ ?_⟩
    obtain rfl := Except.ok.inj (h.verify.symm.trans hv)
    rw [hsni]
    exact htls hisTls
  · intro hbuildable e he
    have hsettings : e.settings ∈ eff.ech := by
      rw [← h.ech]
      exact Option.mem_map_of_mem _ he
    obtain ⟨hisSome, hstatic⟩ := hbuildable.echUsable _ hsettings
    refine ⟨(hname _).mpr hisSome, fun hmode ↦ ?_⟩
    obtain ⟨bytes, hbytes, htls⟩ := hstatic hmode
    refine ⟨bytes, hbytes, fun hisTls ↦ ?_⟩
    rw [← hsni]
    exact htls hisTls _ h.verify

theorem PlannedFrom.isSome_serverName (h : PlannedFrom env registry name eff plan)
    (htls : plan.endpoint.isTls) : plan.serverName.isSome := by
  have hhost : plan.endpoint.host.isSome := by
    cases hendpoint : plan.endpoint with
    | doh host port path => rfl
    | dot host port => rfl
    | system => rw [hendpoint] at htls; exact absurd htls (by decide)
    | plain target port => rw [hendpoint] at htls; exact absurd htls (by simp [Endpoint.isTls])
  rw [h.serverName, EffectiveResolver.serverName.eq_def]
  cases eff.sniPolicy with
  | reflect => exact hhost
  | omitted => exact hhost
  | fixed n => rfl

/-- **When a declared resolver is built.** -/
theorem keeps_buildNamed_obliging (henv : env.Dependable)
    (hendpoint : Endpoint.parse eff.endpoint = .ok endpoint)
    (hbootstrap : RefBuilt registry eff.bootstrap)
    (hech : eff.ech.isSome → RefBuilt registry eff.echResolver) :
    env.obliging.Keeps (Decides (Buildable env name eff endpoint)) s
      (buildNamed env registry eff name) := by
  have hplannable : (∃ plan, planNamed env registry eff name = .ok plan) ↔
      Plannable env name eff endpoint :=
    exists_planNamed hendpoint hbootstrap hech
  rw [buildNamed]
  cases hplan : planNamed env registry eff name with
  | error e =>
    refine fun hbuildable ↦ ?_
    obtain ⟨plan, h⟩ := hplannable.mpr hbuildable.toPlannable
    rw [hplan] at h
    exact absurd h (by simp)
  | ok plan =>
    have hplanned := plannedFrom_of_planNamed hplan
    have hiff := hplanned.echUsable_iff hendpoint (hplannable.mp ⟨plan, hplan⟩)
    simp only [Program.ofExcept_ok, Program.done_bind]
    rw [Contract.keeps_bind, Contract.keeps_attempt]
    refine (keeps_buildPlan henv hplanned.isSome_serverName).mono fun s' x hx ↦ ?_
    cases x with
    | error e => exact fun hbuildable ↦ hx (hiff.mpr hbuildable)
    | ok built =>
      have hbuildable := hiff.mp hx
      simp only [inContext, Except.mapError, Program.ofExcept_ok, Program.done_bind]
      cases hplanEch : plan.ech with
      | none => exact hbuildable
      | some e => exact Contract.keeps_query_bind.mpr ⟨trivial, fun _ _ ↦ hbuildable⟩

end One

/-! ## All of them -/

/-- A resolver is declared as it must be. -/
def StartEnv.Ready (env : StartEnv τ V C) (doc : Document) (name : Str) : Prop :=
  ∃ d endpoint, doc.resolvers.lookup name = some d ∧ Endpoint.parse d.endpoint = .ok endpoint ∧
    Buildable env name (d.effective name doc.cfg.global) endpoint

/-- No declared resolver has white space around its name. -/
def Document.NamesTrimmed (doc : Document) : Prop := ∀ name ∈ doc.resolvers, trim name = name

section All

variable {env : StartEnv τ V C} {doc : Document} {ext : Externals} {parsers : PoolParsers}
  {registry : Registry τ V} {name : Str} {order done rest : List Str} {d : FullResolverDef}
  {spec : Option Str} {s : Unit}

theorem refName_cons {b : Str} (h : trim b = b) : refName ('@' :: b) = some b := by
  have hb : b.rdropWhile isWhitespace = b := by
    rw [List.rdropWhile_eq_self_iff]
    exact fun hne ↦ (trim_eq_self_iff.mp h).2 _ (List.getLast_mem_getLast? hne)
  have htrim : trim ('@' :: b) = '@' :: b := by
    have := trim_append_cons (s := []) (t := b) (c := '@') (by decide)
    simpa [hb] using this
  rw [refName, htrim]
  exact stripStart_eq_some.mpr rfl

theorem refBuilt_of_order (hnames : doc.NamesTrimmed)
    (horder : doc.cfg.resolverBuildOrder = .ok order) (hitems : order = done ++ name :: rest)
    (hkeys : ∀ other, other ∈ registry ↔ other ∈ done) (hd : doc.resolvers.lookup name = some d)
    (hspec : ∀ r ∈ spec, r ∈ d.toResolverDef.references) : RefBuilt registry spec := by
  intro r hr href
  have hcfg : doc.cfg.resolvers.lookup name = some d.toResolverDef := by
    rw [doc.resolvers_eq, hd]
    rfl
  have hresolve := Config.referencesResolve_of_order horder
  obtain ⟨b, hb, rfl⟩ := hresolve name _ hcfg r (hspec r hr) href
  have hbefore := (Config.lists_of_order horder).2.2 done name rest hitems b
    ⟨_, hcfg, hspec _ hr⟩
  have hdeclared : b ∈ doc.resolvers := by
    rw [← AList.lookup_isSome] at hb ⊢
    rwa [doc.resolvers_eq, Option.isSome_map] at hb
  exact ⟨b, refName_cons (hnames b hdeclared), (hkeys b).mpr hbefore⟩

/-- A registry of the given names, all of which are declared as they must be. -/
def ReadyAll (env : StartEnv τ V C) (doc : Document) (names : List Str) (_ : Unit)
    (registry : Registry τ V) : Prop :=
  (∀ name, name ∈ registry ↔ name ∈ names) ∧ ∀ name ∈ names, env.Ready doc name

theorem keeps_addNamedResolver_obliging (henv : env.Dependable)
    (hdoc : doc.validate ext parsers = .ok ()) (hnames : doc.NamesTrimmed)
    (horder : doc.cfg.resolverBuildOrder = .ok order) (hitems : order = done ++ name :: rest)
    (h : ReadyAll env doc done s registry) :
    env.obliging.Keeps (Contract.ends (ReadyAll env doc (done ++ [name]))
      fun _ _ ↦ ∃ name ∈ order, ¬env.Ready doc name) s
      (env.addNamedResolver doc registry name) := by
  have hmem : name ∈ order := by simp [hitems]
  obtain ⟨d, hd⟩ : ∃ d, doc.resolvers.lookup name = some d := by
    have hdeclared := ((Config.lists_of_order horder).2.1 name).mp hmem
    rw [← AList.lookup_isSome, doc.resolvers_eq, Option.isSome_map] at hdeclared
    exact Option.isSome_iff_exists.mp hdeclared
  obtain ⟨endpoint, hchecked⟩ := Document.resolverChecked_of_validate hdoc hd
  have hready : env.Ready doc name ↔
      Buildable env name (d.effective name doc.cfg.global) endpoint := by
    constructor
    · rintro ⟨d', endpoint', hd', hendpoint', h⟩
      obtain rfl := Option.some.inj (hd.symm.trans hd')
      obtain rfl := Except.ok.inj (hchecked.parses.symm.trans hendpoint')
      exact h
    · exact fun h ↦ ⟨d, endpoint, hd, hchecked.parses, h⟩
  have hrefs (spec : Option Str) (hspec : ∀ r ∈ spec, r ∈ d.toResolverDef.references) :
      RefBuilt registry spec :=
    refBuilt_of_order hnames horder hitems h.1 hd hspec
  have hbuild : env.obliging.Keeps
      (Decides (Buildable env name (d.effective name doc.cfg.global) endpoint)) s
      (buildNamed env registry (d.effective name doc.cfg.global) name) :=
    keeps_buildNamed_obliging henv hchecked.parses
      (hrefs _ fun r hr ↦ List.mem_append_left _ (Option.mem_toList.mpr hr))
      fun _ ↦ hrefs _ fun r hr ↦ List.mem_append_right _ (Option.mem_toList.mpr hr)
  rw [StartEnv.addNamedResolver, Document.effectiveResolver]
  simp only [hd, Except.mapError, Program.ofExcept_ok, Program.done_bind]
  rw [Contract.keeps_bind]
  refine hbuild.mono fun s' x hx ↦ ?_
  cases x with
  | error e => exact ⟨name, hmem, fun hr ↦ hx (hready.mp hr)⟩
  | ok r =>
    refine ⟨fun other ↦ ?_, fun other hother ↦ ?_⟩
    · rw [AList.mem_insert, h.1, List.mem_append, List.mem_singleton, or_comm]
    · rcases List.mem_append.mp hother with hdone | hself
      · exact h.2 other hdone
      · obtain rfl := List.mem_singleton.mp hself
        exact hready.mpr hx

/-- **When the declared resolvers are built.** Of a document that the load-time check accepts, as
long as DNS answers: exactly when each is declared as it must be. Nothing else can go wrong; the
order has a place for each reference, endpoints parse, and a name server has an address. -/
theorem startup_ready_iff (henv : env.Dependable) (hdoc : doc.validate ext parsers = .ok ())
    (hnames : doc.NamesTrimmed) {es : List (Exchange (@StartOp.Answer (BuiltResolver τ V)))}
    {x : Except ErrorChain (Registry τ V)}
    (hruns : (env.buildNamedResolvers doc).Runs es (.ofExcept x))
    (hrely : env.obliging.Relied () es) :
    (∃ registry, x = .ok registry) ↔ ∀ name ∈ doc.resolvers, env.Ready doc name := by
  obtain ⟨order, horder⟩ := Document.exists_order_of_validate hdoc
  have hdeclared (name : Str) : name ∈ order ↔ name ∈ doc.resolvers := by
    rw [(Config.lists_of_order horder).2.1, ← AList.lookup_isSome,
      ← AList.lookup_isSome, doc.resolvers_eq, Option.isSome_map]
  have hkeeps : env.obliging.Keeps (Contract.ends (ReadyAll env doc order)
      fun _ _ ↦ ∃ name ∈ order, ¬env.Ready doc name) () (env.buildNamedResolvers doc) := by
    rw [StartEnv.buildNamedResolvers]
    simp only [horder, Except.mapError, Program.ofExcept_ok, Program.done_bind]
    exact Contract.keeps_foldlM ⟨by simp, by simp⟩ fun done name rest s registry hitems h ↦
      keeps_addNamedResolver_obliging henv hdoc hnames horder hitems h
  have hends := hkeeps.ends hruns hrely
  simp only [← hdeclared]
  cases x with
  | ok registry => exact iff_of_true ⟨registry, rfl⟩ hends.2
  | error e =>
    obtain ⟨name, hname, hnot⟩ := hends
    exact iff_of_false (by simp) fun hall ↦ hnot (hall name hname)

end All

/-! ## One resolver behind another -/

theorem startup_ready_iff_chained : ∃ es registry,
    (willingStart.buildNamedResolvers chainedDocument).Runs es (.ofExcept (.ok registry)) ∧
      es.length = 3 ∧
        ∀ name ∈ chainedDocument.resolvers, willingStart.Ready chainedDocument name := by
  obtain ⟨es, registry, hruns, hconverse, hlength⟩ := exists_chained_run
  have hanswers : ∀ past q, willingStart.obliging.rely (willingStart.obliging.after () past) q
      (oneAddress past q) := by
    intro past q
    cases q with
    | lookupAddr => exact ⟨_, rfl⟩
    | lookupHttps => exact ⟨_, [0], rfl, rfl, fun _ _ ↦ ⟨(), rfl⟩⟩
    | spawnEchRefresher => trivial
  obtain ⟨es', hes, -, hrely⟩ := Contract.runs_converse oneAddress hanswers
    (willingStart.buildNamedResolvers chainedDocument) []
  obtain rfl : es = es' := by simpa [hconverse] using hes
  have hruns : (willingStart.buildNamedResolvers chainedDocument).Runs es
      (.ofExcept (.ok registry)) := hruns
  have hvalid : chainedDocument.validate .refusing .refusing = .ok () := by decide +kernel
  have hnames : chainedDocument.NamesTrimmed := by
    rw [Document.NamesTrimmed]
    decide +kernel
  have henv : willingStart.Dependable := ⟨fun _ ↦ ⟨(), rfl⟩, fun _ _ ↦ ⟨(), rfl⟩⟩
  have hready := startup_ready_iff henv hvalid hnames hruns hrely
  exact ⟨es, registry, hruns, hlength, hready.mp ⟨registry, rfl⟩⟩

end SniGate
