import SniGate.Startup.Resolvers

/-!
# Who is asked while resolvers are built

A declared resolver may be reached by name, and its ECH configuration may have to be fetched; who is
asked for either is nominated by its definition, or the system. `StartEnv.wiring` is the contract of
`build_named_resolvers`: whoever is asked anything was nominated for it, by a definition whose
resolver has not been built, and which has no part in the one that is asked. The registry that is
built refers to itself only (`Wired`).

## Design choices

Nothing is relied on: whoever is asked may answer anything, so what is said holds of every run, and
of one that fails up to where it fails. A plan is compared with its definition field by field
(`PlannedFrom`), and so one that dials another host or port is no plan of it. That a resolver has a
part in another one is an inductive relation on the trees that a registry holds (`Involves`).
-/

namespace SniGate

variable {τ V C : Type}

/-! ## Nominations -/

/-- Who a nomination leads to, given a registry. -/
def Nominates (env : StartEnv τ V C) (registry : Registry τ V) (spec : Option Str)
    (family : AddressFamily) (r : BuiltResolver τ V) : Prop :=
  match spec with
  | none => ∃ label resolver, ResolverSpec.system.build env family = .ok resolver ∧
      r = .inline label resolver
  | some spec =>
    if isResolverRef spec then ∃ name, refName spec = some name ∧ registry.lookup name = some r
    else ∃ label parsed resolver, ResolverSpec.parse env.toSocketAddrs spec = .ok parsed ∧
      parsed.build env family = .ok resolver ∧ r = .inline label resolver

/-- Where a definition has its resolver dialed: at the host and on the port of its `upstream`, and
at the endpoint's own where that names none. -/
def DialsAt (upstream : Option Str) (endpoint : Endpoint) (host : Str) (port : UInt16) : Prop :=
  match upstream with
  | none => host = endpoint.host.getD [] ∧ port = endpoint.port
  | some text => ∃ parsed, parseUpstream text = some parsed ∧
      port = parsed.port.getD endpoint.port ∧
      (parsed.host = .fixed host ∨ parsed.host = .reflect ∧ host = endpoint.host.getD [])

/-- What a plan takes from a definition. -/
structure PlannedFrom (env : StartEnv τ V C) (registry : Registry τ V) (name : Str)
    (eff : EffectiveResolver) (plan : NamedPlan (BuiltResolver τ V) V) : Prop where
  label : plan.label = eff.name
  endpoint : Endpoint.parse eff.endpoint = .ok plan.endpoint
  dial : DialsAt eff.upstream plan.endpoint plan.dialHost plan.dialPort
  family : plan.family = eff.addressFamily
  nat64 : plan.nat64.map some = eff.nat64Prefix.map Nat64Prefix.parse
  connectTimeout : plan.connectTimeout = eff.connectTimeout
  bootstrap : Nominates env registry eff.bootstrap eff.addressFamily plan.bootstrap
  ech : plan.ech.map NamedEch.settings = eff.ech
  echOf : ∀ e ∈ plan.ech, Nominates env registry eff.echResolver .dual e.resolver ∧
    e.requireEch = eff.requireEch ∧ e.refresh = eff.echRefresh ∧
    e.maxRetries = e.settings.maxRetries
  serverName : plan.serverName = eff.serverName plan.endpoint
  enableSni : plan.enableSni ↔ eff.sniPolicy ≠ .omitted
  verify : env.getVerifier eff.verify ("[resolvers.".toList ++ name ++ "]".toList) = .ok plan.verify

/-- A declared resolver as it is built from its definition: what the library makes of the plan, at
the addresses the dial host has. -/
structure BuiltFrom (env : StartEnv τ V C) (registry : Registry τ V) (name : Str)
    (eff : EffectiveResolver) (resolver : τ) (plan : NamedPlan (BuiltResolver τ V) V)
    (bytes : Option Bytes) : Prop where
  planned : PlannedFrom env registry name eff plan
  constructed : ∃ ips, constructPlan env plan ips bytes = .ok resolver

/-- Every resolver of a registry is built from its definition, and nominates within the registry. -/
def Wired (env : StartEnv τ V C) (doc : Document) (registry : Registry τ V) : Prop :=
  ∀ name r, registry.lookup name = some r →
    ∃ d plan resolver bytes, doc.resolvers.lookup name = some d ∧
      r = .named name resolver plan bytes ∧
      BuiltFrom env registry name (d.effective name doc.cfg.global) resolver plan bytes

/-- A declared resolver has a part in one that is, or that relies on, it. -/
inductive Involves (name : Str) : BuiltResolver τ V → Prop
  | itself (resolver : τ) (plan : NamedPlan (BuiltResolver τ V) V) (bytes : Option Bytes) :
    Involves name (.named name resolver plan bytes)
  | bootstrap (other : Str) (resolver : τ) {plan : NamedPlan (BuiltResolver τ V) V}
    (bytes : Option Bytes) (h : Involves name plan.bootstrap) :
    Involves name (.named other resolver plan bytes)
  | ech (other : Str) (resolver : τ) {plan : NamedPlan (BuiltResolver τ V) V}
    (bytes : Option Bytes) {e : NamedEch (BuiltResolver τ V)} (he : e ∈ plan.ech)
    (h : Involves name e.resolver) : Involves name (.named other resolver plan bytes)

/-! ## What is warranted -/

/-- A host that the addresses of a plan are asked for under. -/
def NamedPlan.Dials {ρ : Type} (plan : NamedPlan ρ V) (host : Str) : Prop :=
  match plan.endpoint with
  | .system => False
  | .plain target _ =>
    parseIpAddr target = none ∧ host = if plan.dialHost = [] then target else plan.dialHost
  | .doh .. | .dot .. => host = plan.dialHost

/-- A plan that is being carried out for a declared resolver, which is not built yet. -/
structure Carried (env : StartEnv τ V C) (doc : Document) (name : Str)
    (plan : NamedPlan (BuiltResolver τ V) V) : Prop where
  planned : ∃ d registry, doc.resolvers.lookup name = some d ∧
    Wired env doc registry ∧ name ∉ registry ∧
    PlannedFrom env registry name (d.effective name doc.cfg.global) plan
  bootstrap : ¬Involves name plan.bootstrap
  ech : ∀ e ∈ plan.ech, ¬Involves name e.resolver

/-- A question that the plan of some declared resolver calls for. -/
def Warranted (env : StartEnv τ V C) (doc : Document) (q : StartOp (BuiltResolver τ V)) : Prop :=
  ∃ name plan, Carried env doc name plan ∧
    match q with
    | .lookupAddr r host port family nat64 => r = plan.bootstrap ∧ plan.Dials host ∧
        port = plan.dialPort ∧ family = plan.family ∧ nat64 = plan.nat64
    | .lookupHttps r host => ∃ e ∈ plan.ech, r = e.resolver ∧ e.settings.mode ≠ .static ∧
        plan.echLookupName e.settings = some host
    | .spawnEchRefresher r refresh => ∃ e ∈ plan.ech, refresh = e.refresh ∧
        ∃ resolver bytes, r = .named name resolver plan bytes

/-- Only warranted questions are asked; nothing is relied on. -/
def StartEnv.wiring (env : StartEnv τ V C) (doc : Document) :
    Contract (@StartOp.Answer (BuiltResolver τ V)) Unit where
  next _ _ := ()
  rely _ _ _ := True
  guarantee _ q := Warranted env doc q

/-! ## Plans -/

section Plans

variable {env : StartEnv τ V C} {doc : Document} {registry : Registry τ V} {spec : Option Str}
  {family : AddressFamily} {r : BuiltResolver τ V} {eff : EffectiveResolver} {name other : Str}
  {plan : NamedPlan (BuiltResolver τ V) V}

theorem nominates_of_nominate {badRef missing specContext specLabel systemLabel : Str → Str}
    (h : nominate env registry spec family badRef missing specContext specLabel systemLabel =
      .ok r) : Nominates env registry spec family r := by
  rw [nominate.eq_def] at h
  rw [Nominates.eq_def]
  cases spec with
  | none =>
    obtain ⟨resolver, hresolver, h⟩ := bind_eq_ok.mp h
    exact ⟨_, resolver, eq_ok_of_mapError hresolver, (Except.ok.inj h).symm⟩
  | some spec =>
    simp only at h ⊢
    split_ifs at h ⊢ with href
    · cases hname : refName spec with
      | none => simp [hname] at h
      | some name =>
        cases hlookup : registry.lookup name with
        | none => simp [hname, hlookup] at h
        | some handle =>
          simp only [hname, hlookup] at h
          exact ⟨name, rfl, by rw [hlookup, Except.ok.inj h]⟩
    · obtain ⟨parsed, hparsed, h⟩ := bind_eq_ok.mp h
      obtain ⟨resolver, hresolver, h⟩ := bind_eq_ok.mp h
      exact ⟨_, parsed, resolver, eq_ok_of_mapError hparsed, eq_ok_of_mapError hresolver,
        (Except.ok.inj h).symm⟩

theorem Nominates.insert (h : Nominates env registry spec family r) (hname : name ∉ registry)
    (s : BuiltResolver τ V) : Nominates env (registry.insert name s) spec family r := by
  rw [Nominates.eq_def] at h ⊢
  cases spec with
  | none => exact h
  | some spec =>
    simp only at h ⊢
    split_ifs at h ⊢ with href
    · obtain ⟨other, hother, hlookup⟩ := h
      refine ⟨other, hother, ?_⟩
      rw [AList.lookup_insert_ne, hlookup]
      rintro rfl
      exact hname (AList.lookup_isSome.mp (by rw [hlookup]; rfl))
    · exact h

theorem PlannedFrom.insert (h : PlannedFrom env registry other eff plan) (hname : name ∉ registry)
    (s : BuiltResolver τ V) : PlannedFrom env (registry.insert name s) other eff plan :=
  { h with
    bootstrap := h.bootstrap.insert hname s
    echOf := fun e he ↦ ⟨(h.echOf e he).1.insert hname s, (h.echOf e he).2⟩ }

theorem BuiltFrom.insert {resolver : τ} {bytes : Option Bytes}
    (h : BuiltFrom env registry other eff resolver plan bytes) (hname : name ∉ registry)
    (s : BuiltResolver τ V) :
    BuiltFrom env (registry.insert name s) other eff resolver plan bytes :=
  ⟨h.planned.insert hname s, h.constructed⟩

theorem dialsAt_of_dialHost {endpoint : Endpoint} {resolved : ResolvedUpstream} {host : Str}
    (hresolved : resolvedUpstreamFrom eff.upstream endpoint.port = some resolved)
    (hhost : dialHost name endpoint resolved.host = .ok host) :
    DialsAt eff.upstream endpoint host resolved.port := by
  have hfrom : resolved.host = .fixed host ∨
      resolved.host = .reflect ∧ host = endpoint.host.getD [] := by
    cases hkind : resolved.host with
    | fixed h =>
      rw [hkind] at hhost
      exact .inl (by rw [Except.ok.inj hhost])
    | reflect =>
      rw [hkind] at hhost
      exact .inr ⟨rfl, (Except.ok.inj hhost).symm⟩
    | pool p =>
      rw [hkind] at hhost
      exact absurd hhost (by simp [dialHost])
  rw [DialsAt.eq_def]
  cases hupstream : eff.upstream with
  | none =>
    rw [hupstream] at hresolved
    obtain rfl := Option.some.inj hresolved
    exact ⟨(hfrom.resolve_left (by simp)).2, rfl⟩
  | some text =>
    rw [hupstream] at hresolved
    obtain ⟨parsed, hparsed, rfl⟩ := Option.map_eq_some_iff.mp hresolved
    exact ⟨parsed, hparsed, rfl, hfrom⟩

theorem nat64_of_planNat64 {nat64 : Option Nat64Prefix} (h : planNat64 eff name = .ok nat64) :
    nat64.map some = eff.nat64Prefix.map Nat64Prefix.parse := by
  rw [planNat64] at h
  cases htext : eff.nat64Prefix with
  | none =>
    rw [htext] at h
    rw [← Except.ok.inj h]
    rfl
  | some s =>
    rw [htext] at h
    cases hparse : Nat64Prefix.parse s with
    | none => simp [hparse] at h
    | some p =>
      simp only [hparse, Except.ok.injEq] at h
      simp [← h, hparse]

/-- **What a plan is made of.** -/
theorem plannedFrom_of_planNamed (h : planNamed env registry eff name = .ok plan) :
    PlannedFrom env registry name eff plan := by
  obtain ⟨endpoint, hendpoint, h⟩ := bind_eq_ok.mp h
  obtain ⟨bootstrap, hbootstrap, h⟩ := bind_eq_ok.mp h
  cases hresolved : resolvedUpstreamFrom eff.upstream endpoint.port with
  | none => simp [hresolved] at h
  | some resolved =>
    simp only [hresolved] at h
    obtain ⟨host, hhost, h⟩ := bind_eq_ok.mp h
    obtain ⟨nat64, hnat64, h⟩ := bind_eq_ok.mp h
    obtain ⟨ech, hech, h⟩ := bind_eq_ok.mp h
    obtain ⟨verify, hverify, h⟩ := bind_eq_ok.mp h
    rw [nominateBootstrap] at hbootstrap
    obtain rfl := Except.ok.inj h
    have hechOf : ech.map NamedEch.settings = eff.ech ∧
        ∀ e ∈ ech, Nominates env registry eff.echResolver .dual e.resolver ∧
          e.requireEch = eff.requireEch ∧ e.refresh = eff.echRefresh ∧
          e.maxRetries = e.settings.maxRetries := by
      rw [planEch] at hech
      cases heff : eff.ech with
      | none =>
        simp only [heff, Except.ok.injEq] at hech
        simp [← hech]
      | some settings =>
        simp only [heff] at hech
        obtain ⟨resolver, hresolver, hech⟩ := bind_eq_ok.mp hech
        rw [nominateEchResolver] at hresolver
        obtain rfl := Except.ok.inj hech
        refine ⟨rfl, fun e he ↦ ?_⟩
        obtain rfl := Option.some.inj he
        exact ⟨nominates_of_nominate hresolver, rfl, rfl, rfl⟩
    exact {
      label := rfl
      endpoint := eq_ok_of_mapError hendpoint
      dial := dialsAt_of_dialHost hresolved hhost
      family := rfl
      nat64 := nat64_of_planNat64 hnat64
      connectTimeout := rfl
      bootstrap := nominates_of_nominate hbootstrap
      ech := hechOf.1
      echOf := hechOf.2
      serverName := rfl
      enableSni := by simp
      verify := eq_ok_of_mapError hverify }

/-- What is nominated within a registry involves only what is in it. -/
theorem Nominates.not_involves (hwired : Wired env doc registry) (hname : name ∉ registry)
    (h : Nominates env registry spec family r) : ¬Involves name r := by
  intro hinv
  -- whatever is nominated and not inline is in the registry, and so is what it nominates
  have hlookup {spec : Option Str} {family : AddressFamily} {other : Str} {resolver : τ}
      {plan : NamedPlan (BuiltResolver τ V) V} {bytes : Option Bytes}
      (h : Nominates env registry spec family (.named other resolver plan bytes)) :
      ∃ d, registry.lookup other = some (.named other resolver plan bytes) ∧
        PlannedFrom env registry other (FullResolverDef.effective d other doc.cfg.global)
          plan := by
    rw [Nominates.eq_def] at h
    cases spec with
    | none =>
      obtain ⟨_, _, -, h⟩ := h
      exact absurd h (by simp)
    | some spec =>
      simp only at h
      split_ifs at h with href
      · obtain ⟨key, -, hkey⟩ := h
        obtain ⟨d, plan', resolver', bytes', -, heq, hbuilt⟩ := hwired key _ hkey
        injection heq with h₁ h₂ h₃ h₄
        subst h₁ h₂ h₃ h₄
        exact ⟨d, hkey, hbuilt.planned⟩
      · obtain ⟨_, _, _, -, -, h⟩ := h
        exact absurd h (by simp)
  induction hinv generalizing spec family with
  | itself resolver plan bytes =>
    obtain ⟨d, hself, -⟩ := hlookup h
    exact hname (AList.lookup_isSome.mp (by rw [hself]; rfl))
  | bootstrap other resolver bytes _ ih =>
    obtain ⟨d, -, hplanned⟩ := hlookup h
    exact ih hplanned.bootstrap
  | ech other resolver bytes he _ ih =>
    obtain ⟨d, -, hplanned⟩ := hlookup h
    exact ih (hplanned.echOf _ he).1

/-- A plan that was made is carried out for a resolver that has no part in those it asks. -/
theorem carried_of_planNamed {d : FullResolverDef} (hd : doc.resolvers.lookup name = some d)
    (hwired : Wired env doc registry) (hname : name ∉ registry)
    (h : planNamed env registry (d.effective name doc.cfg.global) name = .ok plan) :
    Carried env doc name plan :=
  have hplanned := plannedFrom_of_planNamed h
  { planned := ⟨d, registry, hd, hwired, hname, hplanned⟩
    bootstrap := hplanned.bootstrap.not_involves hwired hname
    ech := fun e he ↦ (hplanned.echOf e he).1.not_involves hwired hname }

theorem Wired.insert (h : Wired env doc registry) {d : FullResolverDef}
    (hd : doc.resolvers.lookup name = some d) (hname : name ∉ registry) {resolver : τ}
    {bytes : Option Bytes}
    (hbuilt : BuiltFrom env registry name (d.effective name doc.cfg.global) resolver plan bytes) :
    Wired env doc (registry.insert name (.named name resolver plan bytes)) := by
  intro other r hother
  by_cases hne : other = name
  · subst hne
    rw [AList.lookup_insert] at hother
    exact ⟨d, plan, resolver, bytes, hd, (Option.some.inj hother).symm, hbuilt.insert hname _⟩
  · rw [AList.lookup_insert_ne hne] at hother
    obtain ⟨d', plan', resolver', bytes', hd', hr, hbuilt'⟩ := h other r hother
    exact ⟨d', plan', resolver', bytes', hd', hr, hbuilt'.insert hname _⟩

end Plans

/-! ## Programs -/

section Programs

variable {env : StartEnv τ V C} {plan : NamedPlan (BuiltResolver τ V) V} {σ : Type}
  {c : Contract (@StartOp.Answer (BuiltResolver τ V)) σ} {s : σ}

theorem asks_inContext {ρ α : Type} {c : Contract (@StartOp.Answer ρ) σ} {context : Str}
    {answer : Except ErrorChain α} : c.Asks s (inContext context answer) :=
  Contract.asks_ofExcept _

theorem asks_bootstrapIps {host : Str} {what : String}
    (haddr : c.guarantee s
      (.lookupAddr plan.bootstrap host plan.dialPort plan.family plan.nat64)) :
    c.Asks s (bootstrapIps plan host what) :=
  Contract.keeps_query_bind.mpr ⟨haddr, fun _ _ ↦ asks_inContext.bind fun _ _ ↦ trivial⟩

theorem asks_dialIps
    (haddr : ∀ s host, plan.Dials host → c.guarantee s
      (.lookupAddr plan.bootstrap host plan.dialPort plan.family plan.nat64)) :
    c.Asks s (dialIps plan) := by
  rw [dialIps]
  cases hendpoint : plan.endpoint with
  | system => trivial
  | plain target port =>
    cases hip : parseIpAddr target with
    | some ip =>
      simp only [hip]
      trivial
    | none =>
      simp only [hip]
      split_ifs with hhost
      · exact asks_bootstrapIps (haddr s _ (by simp [NamedPlan.Dials, hendpoint, hip, hhost]))
      · exact asks_bootstrapIps (haddr s _ (by simp [NamedPlan.Dials, hendpoint, hip, hhost]))
  | doh host port path =>
    exact asks_bootstrapIps (haddr s _ (by simp [NamedPlan.Dials, hendpoint]))
  | dot host port => exact asks_bootstrapIps (haddr s _ (by simp [NamedPlan.Dials, hendpoint]))

theorem asks_acquireResolverEch {settings : EffectiveEch} {host : Str} {r : BuiltResolver τ V}
    (hhttps : settings.mode ≠ .static → c.guarantee s (.lookupHttps r host)) :
    c.Asks s (acquireResolverEch env settings host r) := by
  rw [acquireResolverEch.eq_def]
  cases hmode : settings.mode with
  | static => exact (Contract.asks_ofExcept _).bind fun _ _ ↦ trivial
  | doh =>
    refine Contract.keeps_query_bind.mpr ⟨hhttps (by simp [hmode]), fun answer _ ↦ ?_⟩
    exact (Contract.asks_ofExcept _).bind fun _ _ ↦ trivial
  | dohWithFallback =>
    refine Contract.keeps_query_bind.mpr ⟨hhttps (by simp [hmode]), fun answer _ ↦ ?_⟩
    split
    · trivial
    · exact (Contract.asks_ofExcept _).bind fun _ _ ↦ trivial

theorem asks_acquireEch
    (hhttps : ∀ s, ∀ e ∈ plan.ech, ∀ host, e.settings.mode ≠ .static →
      plan.echLookupName e.settings = some host → c.guarantee s (.lookupHttps e.resolver host)) :
    c.Asks s (acquireEch env plan) := by
  rw [acquireEch]
  cases hech : plan.ech with
  | none => trivial
  | some e =>
    cases hname : plan.echLookupName e.settings with
    | none =>
      simp only [hname]
      trivial
    | some host =>
      simp only [hname]
      refine (asks_acquireResolverEch fun hmode ↦ ?_).attempt.bind fun s' acquired ↦ ?_
      · exact hhttps s e (by simp [hech]) host hmode hname
      · refine asks_inContext.bind fun s' bytes ↦ ?_
        split_ifs
        · trivial
        · trivial

/-- Carrying out a plan asks its own resolvers, at startup and whenever it is carried out again, and
ends with what the library makes of it. -/
theorem keeps_buildPlan_constructed
    (haddr : ∀ s host, plan.Dials host → c.guarantee s
      (.lookupAddr plan.bootstrap host plan.dialPort plan.family plan.nat64))
    (hhttps : ∀ s, ∀ e ∈ plan.ech, ∀ host, e.settings.mode ≠ .static →
      plan.echLookupName e.settings = some host → c.guarantee s (.lookupHttps e.resolver host)) :
    c.Keeps (Contract.ends (fun _ built ↦ ∃ ips, constructPlan env plan ips built.2 = .ok built.1)
      fun _ _ ↦ True) s (buildPlan env plan) := by
  rw [buildPlan]
  refine (asks_dialIps haddr).keeps_bind (fun s ips ↦ ?_) fun _ _ ↦ trivial
  refine (asks_acquireEch hhttps).keeps_bind (fun s bytes ↦ ?_) fun _ _ ↦ trivial
  cases hconstruct : constructPlan env plan ips bytes with
  | error e => trivial
  | ok resolver => exact ⟨ips, hconstruct⟩

end Programs

/-! ## The registry -/

section Registry

variable {env : StartEnv τ V C} {doc : Document} {registry : Registry τ V} {name : Str} {s : Unit}

/-- Nothing is said of a failure. -/
abbrev Unsaid (_ : Unit) (_ : ErrorChain) : Prop := True

/-- A registry of the given names, that is wired. -/
def Registered (env : StartEnv τ V C) (doc : Document) (names : List Str) (_ : Unit)
    (registry : Registry τ V) : Prop :=
  Wired env doc registry ∧ ∀ name, name ∈ registry ↔ name ∈ names

theorem keeps_buildNamed {d : FullResolverDef} (hd : doc.resolvers.lookup name = some d)
    (hwired : Wired env doc registry) (hname : name ∉ registry) :
    (env.wiring doc).Keeps (Contract.ends (fun _ r ↦ ∃ plan resolver bytes,
        r = .named name resolver plan bytes ∧
        BuiltFrom env registry name (d.effective name doc.cfg.global) resolver plan bytes) Unsaid) s
      (buildNamed env registry (d.effective name doc.cfg.global) name) := by
  rw [buildNamed]
  cases hplan : planNamed env registry (d.effective name doc.cfg.global) name with
  | error e => trivial
  | ok plan =>
    have hcarried := carried_of_planNamed hd hwired hname hplan
    have hplanned := plannedFrom_of_planNamed hplan
    have hbuild : (env.wiring doc).Keeps (Contract.ends
        (fun _ built ↦ ∃ ips, constructPlan env plan ips built.2 = .ok built.1) Unsaid) s
        (buildPlan env plan) := by
      refine keeps_buildPlan_constructed (fun s host hhost ↦ ?_) fun s e he host hmode hhost ↦ ?_
      · exact ⟨name, plan, hcarried, rfl, hhost, rfl, rfl, rfl⟩
      · exact ⟨name, plan, hcarried, e, he, rfl, hmode, hhost⟩
    simp only [Program.ofExcept_ok, Program.done_bind]
    rw [Contract.keeps_bind, Contract.keeps_attempt]
    refine hbuild.mono fun s' x hx ↦ ?_
    cases x with
    | error e => trivial
    | ok built =>
      have hbuilt : BuiltFrom env registry name (d.effective name doc.cfg.global) built.1 plan
          built.2 := ⟨hplanned, hx⟩
      simp only [inContext, Except.mapError, Program.ofExcept_ok, Program.done_bind]
      cases hech : plan.ech with
      | none => exact ⟨plan, _, _, rfl, hbuilt⟩
      | some e =>
        refine Contract.keeps_query_bind.mpr ⟨?_, fun _ _ ↦ ⟨plan, _, _, rfl, hbuilt⟩⟩
        exact ⟨name, plan, hcarried, e, hech, rfl, _, _, rfl⟩

theorem keeps_addNamedResolver {done : List Str} (h : Registered env doc done s registry)
    (hname : name ∉ done) :
    (env.wiring doc).Keeps (Contract.ends (Registered env doc (done ++ [name])) Unsaid) s
      (env.addNamedResolver doc registry name) := by
  rw [StartEnv.addNamedResolver, Document.effectiveResolver]
  cases hd : doc.resolvers.lookup name with
  | none => trivial
  | some d =>
    have hnew : name ∉ registry := fun hmem ↦ hname ((h.2 name).mp hmem)
    refine (keeps_buildNamed hd h.1 hnew).bind fun s' r ⟨plan, resolver, bytes, hr, hbuilt⟩ ↦ ?_
    subst hr
    refine ⟨h.1.insert hd hnew hbuilt, fun other ↦ ?_⟩
    rw [AList.mem_insert, h.2, List.mem_append, List.mem_singleton, or_comm]

theorem keeps_buildNamedResolvers :
    (env.wiring doc).Keeps (Contract.ends (fun s registry ↦
      ∃ order, doc.cfg.resolverBuildOrder = .ok order ∧ Registered env doc order s registry)
      Unsaid) s (env.buildNamedResolvers doc) := by
  rw [StartEnv.buildNamedResolvers]
  cases horder : doc.cfg.resolverBuildOrder with
  | error e => trivial
  | ok order =>
    obtain ⟨hnodup, -⟩ := Config.lists_of_order horder
    have hfold : (env.wiring doc).Keeps (Contract.ends (Registered env doc order) Unsaid) s
        (order.foldlM (env.addNamedResolver doc) ∅) := by
      refine Contract.keeps_foldlM ⟨fun name r h ↦ absurd h (by simp), fun name ↦ by simp⟩
        fun done name rest s registry hitems h ↦ keeps_addNamedResolver h fun hdone ↦ ?_
      rw [hitems] at hnodup
      exact List.disjoint_of_nodup_append hnodup hdone List.mem_cons_self
    refine hfold.mono fun s x hx ↦ ?_
    cases x with
    | ok registry => exact ⟨order, rfl, hx⟩
    | error e => trivial

theorem registered_of_runs {es : List (Exchange (@StartOp.Answer (BuiltResolver τ V)))}
    (hruns : (env.buildNamedResolvers doc).Runs es (.done registry)) :
    ∃ order, doc.cfg.resolverBuildOrder = .ok order ∧ Registered env doc order () registry := by
  have hkeeps : (env.wiring doc).Keeps (Contract.ends (fun s registry ↦
      ∃ order, doc.cfg.resolverBuildOrder = .ok order ∧ Registered env doc order s registry)
      Unsaid) () (env.buildNamedResolvers doc) :=
    keeps_buildNamedResolvers
  exact hkeeps.runs hruns (Contract.relied_of_forall fun _ _ _ ↦ trivial)

theorem wired_of_runs {es : List (Exchange (@StartOp.Answer (BuiltResolver τ V)))}
    (hruns : (env.buildNamedResolvers doc).Runs es (.done registry)) :
    Wired env doc registry ∧ ∀ name, name ∈ registry ↔ name ∈ doc.resolvers := by
  obtain ⟨order, horder, hwired, hkeys⟩ := registered_of_runs hruns
  obtain ⟨-, hmem, -⟩ := Config.lists_of_order horder
  refine ⟨hwired, fun name ↦ ?_⟩
  rw [hkeys, hmem, ← AList.lookup_isSome, ← AList.lookup_isSome, doc.resolvers_eq,
    Option.isSome_map]

end Registry

/-! ## The result -/

/-- **Resolvers are built through those nominated for it.** Whatever DNS answers and wherever the
run ends: an address is asked for of the bootstrap that the definition of the resolver to be
reached nominates, an ECH configuration of its `ech_resolver`, each under the name, on the port, of
the family and with the NAT64 prefix that the definition says, and neither of a resolver that the
one to be built has a part in. A run that ends well has built every declared resolver, once, from
the plan of its definition, and each refers to the others that were built. -/
theorem startup_wired (env : StartEnv τ V C) (doc : Document)
    {es : List (Exchange (@StartOp.Answer (BuiltResolver τ V)))}
    {rest : StartProgram (BuiltResolver τ V) (Registry τ V)}
    (hruns : (env.buildNamedResolvers doc).Runs es rest) :
    (∀ e ∈ es, Warranted env doc e.1) ∧
      (∀ q next, rest = .ask q next → Warranted env doc q) ∧
      ∀ registry, rest = .done registry → Wired env doc registry ∧
        ∀ name, name ∈ registry ↔ name ∈ doc.resolvers := by
  have hkeeps : (env.wiring doc).Keeps (Contract.ends (fun s registry ↦
      ∃ order, doc.cfg.resolverBuildOrder = .ok order ∧ Registered env doc order s registry)
      Unsaid) () (env.buildNamedResolvers doc) :=
    keeps_buildNamedResolvers
  refine ⟨fun e he ↦ ?_, fun q next hrest ↦ ?_, fun registry hrest ↦ ?_⟩
  · obtain ⟨front, back, rfl⟩ := List.mem_iff_append.mp he
    exact hkeeps.guarantee hruns (Contract.relied_of_forall fun _ _ _ ↦ trivial)
  · subst hrest
    exact (hkeeps.runs hruns (Contract.relied_of_forall fun _ _ _ ↦ trivial)).1
  · subst hrest
    exact wired_of_runs hruns

/-! ## One resolver behind another -/

/-- A document whose second resolver is reached through the first, and fetches its ECH configuration
through it. A route dials through the second one, a pool resolves through the first. -/
def chainedDocument : Document where
  cfg := {
    listeners := [{
      addr := ⟨.v4 0, 443⟩
      routes := [
        { routeType := some .raw, matchSni := ["a.test".toList]
          upstream := some "a.test".toList
          common := { addrResolver := some "@doh".toList } },
        { routeType := some .raw, matchSni := ["b.test".toList]
          upstream := some "@edge".toList }] }]
    resolvers := ((∅ : Map Str ResolverDef).insert "dns".toList {}).insert "doh".toList
      { bootstrap := some "@dns".toList, ech := some { echResolver := some "@dns".toList } }
    pools := (∅ : Map Str ℕ).insert "edge".toList 1 }
  resolvers := ((∅ : Map Str FullResolverDef).insert "dns".toList
    { endpoint := "9.9.9.9".toList }).insert "doh".toList
      { endpoint := "https://dns.test/dns-query".toList, bootstrap := some "@dns".toList
        ech := some { echResolver := some "@dns".toList } }
  pools := (∅ : Map Str PoolDef).insert "edge".toList
    { targets := [.addr "192.0.2.1".toList], probe := { mode := "tcp".toList }
      resolver := some "@dns".toList }
  resolvers_eq name := by
    by_cases hdoh : name = "doh".toList
    · subst hdoh
      rw [AList.lookup_insert, AList.lookup_insert]
      rfl
    · rw [AList.lookup_insert_ne hdoh, AList.lookup_insert_ne hdoh]
      by_cases hdns : name = "dns".toList
      · subst hdns
        rw [AList.lookup_insert, AList.lookup_insert]
        rfl
      · rw [AList.lookup_insert_ne hdns, AList.lookup_insert_ne hdns]
        rfl
  pools_eq name := by
    by_cases hedge : name = "edge".toList
    · subst hedge
      rw [AList.lookup_insert, AList.lookup_insert]
      rfl
    · rw [AList.lookup_insert_ne hedge, AList.lookup_insert_ne hedge]
      rfl

/-- Libraries that build whatever they are given. -/
def willingStart : StartEnv Unit Unit Unit where
  base64 _ := .error []
  nameServers := documentedLib
  toSocketAddrs _ _ := .error []
  construct _ := .ok ()
  resolverClientConfig _ _ _ := .ok ()
  getVerifier _ _ := .ok ()
  isDefault _ := true

/-- Every name has one address and publishes one ECH configuration. -/
def oneAddress {τ V : Type} (_ : List (Exchange (@StartOp.Answer (BuiltResolver τ V))))
    (q : StartOp (BuiltResolver τ V)) : q.Answer :=
  match q with
  | .lookupAddr _ _ port _ _ => .ok (.single ⟨.v4 0x09090909, port⟩)
  | .lookupHttps .. => .ok [⟨0, .https [.echConfigList [0]]⟩]
  | .spawnEchRefresher .. => ()

theorem exists_of_isOk {ε α : Type} {x : Except ε α} (h : x.isOk) : ∃ a, x = .ok a := by
  cases x with
  | ok a => exact ⟨a, rfl⟩
  | error e => exact absurd h (by simp [Except.isOk, Except.toBool])

/-- The run in which DNS answers so: for the second resolver an address, an ECH configuration, and
its refresher. -/
theorem exists_chained_run : ∃ es registry,
    (willingStart.buildNamedResolvers chainedDocument).Runs es (.done registry) ∧
      (willingStart.buildNamedResolvers chainedDocument).converse oneAddress [] =
        (es, .ok registry) ∧ es.length = 3 := by
  have hlength : ((willingStart.buildNamedResolvers chainedDocument).converse
      oneAddress []).1.length = 3 := by decide +kernel
  have hok : ((willingStart.buildNamedResolvers chainedDocument).converse
      oneAddress []).2.isOk := by decide +kernel
  obtain ⟨es, hes, hruns, -⟩ := Contract.runs_converse
    (c := willingStart.wiring chainedDocument) (s := ()) oneAddress (fun _ _ ↦ trivial)
    (willingStart.buildNamedResolvers chainedDocument) []
  rw [List.nil_append] at hes
  obtain ⟨registry, hout⟩ := exists_of_isOk hok
  rw [hout] at hruns
  exact ⟨es, registry, hruns, Prod.ext hes hout, hes ▸ hlength⟩

theorem startup_wired_chained : ∃ es registry,
    (willingStart.buildNamedResolvers chainedDocument).Runs es (.done registry) ∧
      es.length = 3 ∧ (∀ e ∈ es, Warranted willingStart chainedDocument e.1) ∧
      Wired willingStart chainedDocument registry ∧ "doh".toList ∈ registry := by
  obtain ⟨es, registry, hruns, -, hlength⟩ := exists_chained_run
  obtain ⟨hwarranted, -, hends⟩ := startup_wired willingStart chainedDocument hruns
  obtain ⟨hwired, hmem⟩ := hends registry rfl
  exact ⟨es, registry, hruns, hlength, hwarranted, hwired, (hmem _).mpr (by decide +kernel)⟩

end SniGate
