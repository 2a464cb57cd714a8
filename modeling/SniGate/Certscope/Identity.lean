import SniGate.Listener.Build

/-!
# What a scope tells apart

Two routes of accepted configurations get one scope when they forward identically under one routing
table; the scope is meant to tell every other two apart.

For targets that their rendering cannot confuse it does (`canonical_inj_of_producible`). It does not
for a reflecting route and one that dials a host named `reflect`, nor for texts that carry the
separators of the rendering.

Of an inline ECH value the target keeps only whether there is one. So two ECH routes with one scope
draw their keys from one source exactly when, besides, their inline values decode alike or are not
used (`echSource_of_scope_iff`).
-/

namespace SniGate

/-- `build_route` produces the target `f` from an accepted configuration. -/
def Producible (ext : Externals) (f : Forwarding) : Prop :=
  ∃ (ρ V P : Type) (env : BuildEnv ρ V P) (cfg : Config) (listener : Listener) (route : Route)
    (b : BuiltRoute ρ V P), cfg.validate ext = .ok () ∧ listener ∈ cfg.listeners ∧
      route ∈ listener.allRoutes ∧ buildRoute env cfg listener route = .ok b ∧ b.forwarding = f

/-- No other text than these two has their digest. -/
def NoCollision (x y : Str) : Prop :=
  fnv1a (toUtf8 x) = fnv1a (toUtf8 y) → toUtf8 x = toUtf8 y

/-! ## Targets -/

theorem checked_of_producible {ext : Externals} {f : Forwarding} (hf : Producible ext f) :
    f.verify.Checked ext := by
  obtain ⟨ρ, V, P, env, cfg, listener, route, b, hcfg, hl, hr, hb, rfl⟩ := hf
  exact checked_of_buildRoute hcfg hl hr hb

/-- **Scopes tell targets apart.** For targets of accepted configurations that the rendering cannot
confuse, it determines the fingerprint and the target; without a collision of digests, so does the
scope. -/
theorem canonical_inj_of_producible {ext : Externals} (hext : ext.Sound) {f g : Forwarding}
    (hf : Producible ext f) (hg : Producible ext g) (hd : Distinguishable f g) (a b : UInt64) :
    (canonical a f = canonical b g → a = b ∧ SameTarget f g) ∧
      (NoCollision (canonical a f) (canonical b g) →
        CertScope.new a f = CertScope.new b g → a = b ∧ SameTarget f g) := by
  have hinj : canonical a f = canonical b g → a = b ∧ SameTarget f g :=
    canonical_inj hext (checked_of_producible hf) (checked_of_producible hg) hd
  exact ⟨hinj, fun hfnv hscope ↦ hinj (canonical_eq_of_scope_eq hfnv hscope)⟩

/-! ## ECH sources -/

section Ech

variable {ρ V P : Type} {ext : Externals} {env : BuildEnv ρ V P} {cfg : Config}
  {listener : Listener} {route route' : Route} {b b' : BuiltRoute ρ V P} {p q : EchProvider ρ}

/-- Providers of routes with one target differ at most in their inline values. -/
theorem sameSource_iff_of_sameTarget (hb : buildRoute env cfg listener route = .ok b)
    (hb' : buildRoute env cfg listener route' = .ok b') (hp : b.runtime.ech = some p)
    (hq : b'.runtime.ech = some q) (h : SameTarget b.forwarding b'.forwarding) :
    EchProvider.SameSource ext.base64 p q ↔ p.settings.mode = .doh ∨
      (p.inlineConfig ext.base64).toOption = (q.inlineConfig ext.base64).toOption := by
  obtain ⟨s, hresolver, hport, hid⟩ := echIdentity_of_buildRoute hb hp
  obtain ⟨s', hresolver', hport', hid'⟩ := echIdentity_of_buildRoute hb' hq
  have heq := Option.some.inj (hid.symm.trans (h.ech.trans hid'))
  have hmode : p.settings.mode = q.settings.mode := congrArg EchIdentity.mode heq
  have hdomain : p.settings.echDomain = q.settings.echDomain := congrArg EchIdentity.domain heq
  have hspec : s = s' := congrArg EchIdentity.resolver heq
  have hres : p.resolver = q.resolver := Except.ok.inj (hresolver.symm.trans (hspec ▸ hresolver'))
  have hlookup : ∀ innerName, p.lookupName innerName = q.lookupName innerName := by
    intro innerName
    rw [EchProvider.lookupName, EchProvider.lookupName, hdomain, hport, hport', h.port]
  constructor
  · rintro ⟨-, -, hinline⟩
    exact or_iff_not_imp_left.mpr hinline
  · intro hor
    exact ⟨hmode, fun _ ↦ ⟨hres, hlookup⟩, fun hdoh ↦ hor.resolve_left hdoh⟩

/-- **Scopes and ECH sources.** Two ECH routes that get one scope yield the same bytes for every
inner name and every state of DNS exactly when their providers have one source. Where scopes tell
targets apart, this leaves the inline values: they decode alike, or are not used. -/
theorem echSource_of_scope_iff (hext : ext.Sound) (hcfg : cfg.validate ext = .ok ())
    (hl : listener ∈ cfg.listeners) (hr : route ∈ listener.allRoutes)
    (hr' : route' ∈ listener.allRoutes) (hb : buildRoute env cfg listener route = .ok b)
    (hb' : buildRoute env cfg listener route' = .ok b') (hp : b.runtime.ech = some p)
    (hq : b'.runtime.ech = some q) (a : UInt64) :
    ((CertScope.new a b.forwarding = CertScope.new a b'.forwarding → ∀ dns innerName,
        p.acquiredBytes ext.base64 dns innerName = q.acquiredBytes ext.base64 dns innerName) ↔
      (CertScope.new a b.forwarding = CertScope.new a b'.forwarding →
        EchProvider.SameSource ext.base64 p q)) ∧
    (NoCollision (canonical a b.forwarding) (canonical a b'.forwarding) →
      Distinguishable b.forwarding b'.forwarding →
      CertScope.new a b.forwarding = CertScope.new a b'.forwarding →
      (EchProvider.SameSource ext.base64 p q ↔ p.settings.mode = .doh ∨
        (p.inlineConfig ext.base64).toOption = (q.inlineConfig ext.base64).toOption)) := by
  constructor
  · rw [EchProvider.sameBytes_iff]
  · intro hfnv hd hscope
    have hf : Producible ext b.forwarding :=
      ⟨ρ, V, P, env, cfg, listener, route, b, hcfg, hl, hr, hb, rfl⟩
    have hg : Producible ext b'.forwarding :=
      ⟨ρ, V, P, env, cfg, listener, route', b', hcfg, hl, hr', hb', rfl⟩
    obtain ⟨-, hsame⟩ := canonical_inj hext (checked_of_producible hf) (checked_of_producible hg)
      hd (canonical_eq_of_scope_eq hfnv hscope)
    exact sameSource_iff_of_sameTarget hb hb' hp hq hsame

end Ech

section Examples

private def listen (routes : List Route) : Listener := { addr := ⟨.v4 0, 443⟩, routes }

/-- A `tls` route for `a.test` with the given upstream. -/
private def tlsRoute (upstream : Option Str) : Route :=
  { routeType := some .tls, matchSni := ["a.test".toList], upstream }

/-- The target of such a route. -/
private def tlsTarget (host : Option Str) : Forwarding :=
  { routeType := .tls, upstream := .direct host .dual none [], port := 443, sni := .reflect,
    ech := none, verify := .default }

private theorem producible_of_run {ext : Externals} {ρ V P : Type} (env : BuildEnv ρ V P)
    (listener : Listener) (route : Route) {f : Forwarding}
    (hcfg : ({ listeners := [listener] } : Config).validate ext = .ok ())
    (hr : route ∈ listener.allRoutes)
    (hb : ((buildRoute env { listeners := [listener] } listener route).toOption.map
      BuiltRoute.forwarding) = some f) : Producible ext f := by
  cases hbuild : buildRoute env { listeners := [listener] } listener route with
  | error e =>
    rw [hbuild] at hb
    exact absurd hb (by simp [Except.toOption])
  | ok b =>
    rw [hbuild] at hb
    exact ⟨ρ, V, P, env, _, listener, route, b, hcfg, List.mem_singleton_self _, hr, hbuild,
      Option.some.inj hb⟩

private theorem producible_reflect : Producible Externals.refusing (tlsTarget none) :=
  producible_of_run BuildEnv.willing (listen [tlsRoute none]) (tlsRoute none)
    (by decide +kernel) (by decide +kernel) (by decide +kernel)

private theorem producible_fixed :
    Producible Externals.refusing (tlsTarget (some "reflect".toList)) :=
  producible_of_run BuildEnv.willing (listen [tlsRoute (some "reflect".toList)])
    (tlsRoute (some "reflect".toList))
    (by decide +kernel) (by decide +kernel) (by decide +kernel)

private theorem producible_edge :
    Producible Externals.refusing (tlsTarget (some "edge.test".toList)) :=
  producible_of_run BuildEnv.willing (listen [tlsRoute (some "edge.test".toList)])
    (tlsRoute (some "edge.test".toList))
    (by decide +kernel) (by decide +kernel) (by decide +kernel)

/-- Two targets under one fingerprint get two scopes. -/
theorem scope_ne_of_target_ne :
    CertScope.new 7 (tlsTarget none) ≠ CertScope.new 7 (tlsTarget (some "edge.test".toList)) := by
  intro h
  have hcollision : NoCollision (canonical 7 (tlsTarget none))
      (canonical 7 (tlsTarget (some "edge.test".toList))) :=
    fun hdigest ↦ absurd hdigest (by decide +kernel)
  have hapart : Distinguishable (tlsTarget none) (tlsTarget (some "edge.test".toList)) :=
    ⟨⟨by decide, by decide, by decide⟩, trivial, fun _ he ↦ absurd he (by simp [tlsTarget]),
      by decide⟩
  obtain ⟨-, hsame⟩ := (canonical_inj_of_producible Externals.refusing_sound producible_reflect
    producible_edge hapart 7 7).2 hcollision h
  exact absurd hsame.upstream (by decide)

/-- A route that reflects the requested name is rendered like one that dials the host `reflect`. -/
theorem canonical_not_injective :
    ¬∀ (ext : Externals) (f g : Forwarding) (a b : UInt64), ext.Sound → Producible ext f →
      Producible ext g → canonical a f = canonical b g → a = b ∧ SameTarget f g := by
  intro h
  obtain ⟨-, hsame⟩ := h Externals.refusing (tlsTarget none) (tlsTarget (some "reflect".toList)) 0 0
    Externals.refusing_sound producible_reflect producible_fixed rfl
  exact absurd hsame.upstream (by decide)

/-- Base64 on two texts of three bytes each. -/
private def twoTexts : Externals where
  regexNew _ := .error []
  base64 s :=
    if s = "AAAA".toList then .ok [0, 0, 0]
    else if s = "AAAB".toList then .ok [0, 0, 1]
    else .error []
  serverName _ := false

private theorem twoTexts_sound : twoTexts.Sound := by
  refine ⟨fun _ h ↦ absurd h (by simp [twoTexts]), fun s raw h ↦ ?_⟩
  simp only [twoTexts] at h
  split_ifs at h with h₁ h₂
  · subst h₁
    exact base64_chars_of_all (by decide)
  · subst h₂
    exact base64_chars_of_all (by decide)

/-- An `ech` route to one host with the given source. -/
private def echRoute (host : Str) (ech : EchConfig) : Route :=
  { routeType := some .ech, matchSni := [host], upstream := some "edge.test".toList,
    ech := some ech }

private def echDocument (ech ech' : EchConfig) : Config :=
  { listeners := [listen [echRoute "a.test".toList ech, echRoute "b.test".toList ech']] }

private theorem exists_of_buildRoute {env : BuildEnv Unit Unit Unit} {cfg : Config}
    {listener : Listener} {route : Route} {f : Forwarding} {p : EchProvider Unit}
    (h : ((buildRoute env cfg listener route).toOption.map fun b ↦ (b.forwarding, b.runtime.ech)) =
      some (f, some p)) :
    ∃ b, buildRoute env cfg listener route = .ok b ∧ b.forwarding = f ∧ b.runtime.ech = some p := by
  cases hb : buildRoute env cfg listener route with
  | error e =>
    rw [hb] at h
    exact absurd h (by simp [Except.toOption])
  | ok b =>
    rw [hb] at h
    have heq := Prod.mk.inj (Option.some.inj h)
    exact ⟨b, rfl, heq.1, heq.2⟩

/-- The target of such a route. -/
private def echTarget (mode : EchMode) (inlineConfig : Bool) : Forwarding :=
  { routeType := .ech, upstream := .direct (some "edge.test".toList) .dual none [], port := 443,
    sni := .reflect, ech := some ⟨mode, none, "system".toList, inlineConfig⟩, verify := .default }

/-- A route with an inline value of its own. -/
private def staticEch (config : Str) : EchConfig := { mode := some .static, config := some config }

/-- Two routes with inline values that decode alike yield the same bytes. -/
theorem echSource_of_scope_iff_of_decodedAlike :
    ∃ cfg listener b b' p q, listener ∈ cfg.listeners ∧
      buildRoute BuildEnv.willing cfg listener (echRoute "a.test".toList (staticEch "AAAA".toList)) =
        .ok b ∧
      buildRoute BuildEnv.willing cfg listener (echRoute "b.test".toList (staticEch " AAAA".toList)) =
        .ok b' ∧ b.runtime.ech = some p ∧ b'.runtime.ech = some q ∧
      p.settings.config ≠ q.settings.config ∧
      ∀ dns innerName, p.acquiredBytes twoTexts.base64 dns innerName =
        q.acquiredBytes twoTexts.base64 dns innerName := by
  let ech := staticEch "AAAA".toList
  let ech' := staticEch " AAAA".toList
  let l := listen [echRoute "a.test".toList ech, echRoute "b.test".toList ech']
  have hrun : ((buildRoute BuildEnv.willing (echDocument ech ech') l
      (echRoute "a.test".toList ech)).toOption.map fun b ↦ (b.forwarding, b.runtime.ech)) =
      some (echTarget .static true, some ⟨⟨.static, some "AAAA".toList, none, 2⟩, 443, ()⟩) := by
    decide +kernel
  have hrun' : ((buildRoute BuildEnv.willing (echDocument ech ech') l
      (echRoute "b.test".toList ech')).toOption.map fun b ↦ (b.forwarding, b.runtime.ech)) =
      some (echTarget .static true, some ⟨⟨.static, some " AAAA".toList, none, 2⟩, 443, ()⟩) := by
    decide +kernel
  obtain ⟨b, hb, hf, hp⟩ := exists_of_buildRoute hrun
  obtain ⟨b', hb', hf', hq⟩ := exists_of_buildRoute hrun'
  obtain ⟨hbytes, hsource⟩ := echSource_of_scope_iff twoTexts_sound (by decide +kernel)
    (List.mem_singleton_self _) (by decide +kernel) (by decide +kernel) hb hb' hp hq 0
  have hscope : CertScope.new 0 b.forwarding = CertScope.new 0 b'.forwarding := by rw [hf, hf']
  have hcollision : NoCollision (canonical 0 b.forwarding) (canonical 0 b'.forwarding) := by
    rw [hf, hf']
    exact fun _ ↦ rfl
  have hapart : Distinguishable b.forwarding b'.forwarding := by
    rw [hf, hf']
    refine ⟨⟨by decide, by decide, by decide⟩, trivial, fun e he e' he' ↦ ?_, by decide⟩
    obtain rfl := Option.some.inj he
    obtain rfl := Option.some.inj he'
    exact ⟨by decide, by decide⟩
  refine ⟨_, l, b, b', _, _, List.mem_singleton_self _, hb, hb', hp, hq, by decide, ?_⟩
  have hsource := (hsource hcollision hapart hscope).mpr (.inr (by decide +kernel))
  exact hbytes.mpr (fun _ ↦ hsource) hscope

/-- Two routes with different inline values have one scope and yield different bytes. -/
theorem scope_not_faithful_to_echSource :
    ¬∀ (ext : Externals) (env : BuildEnv Unit Unit Unit) (cfg : Config) (listener : Listener)
      (route route' : Route) (b b' : BuiltRoute Unit Unit Unit) (p q : EchProvider Unit)
      (a : UInt64), ext.Sound → cfg.validate ext = .ok () → listener ∈ cfg.listeners →
      route ∈ listener.allRoutes → route' ∈ listener.allRoutes →
      buildRoute env cfg listener route = .ok b → buildRoute env cfg listener route' = .ok b' →
      b.runtime.ech = some p → b'.runtime.ech = some q →
      CertScope.new a b.forwarding = CertScope.new a b'.forwarding → ∀ dns innerName,
        p.acquiredBytes ext.base64 dns innerName = q.acquiredBytes ext.base64 dns innerName := by
  intro h
  let ech := staticEch "AAAA".toList
  let ech' := staticEch "AAAB".toList
  let l := listen [echRoute "a.test".toList ech, echRoute "b.test".toList ech']
  have hrun : ((buildRoute BuildEnv.willing (echDocument ech ech') l
      (echRoute "a.test".toList ech)).toOption.map fun b ↦ (b.forwarding, b.runtime.ech)) =
      some (echTarget .static true, some ⟨⟨.static, some "AAAA".toList, none, 2⟩, 443, ()⟩) := by
    decide +kernel
  have hrun' : ((buildRoute BuildEnv.willing (echDocument ech ech') l
      (echRoute "b.test".toList ech')).toOption.map fun b ↦ (b.forwarding, b.runtime.ech)) =
      some (echTarget .static true, some ⟨⟨.static, some "AAAB".toList, none, 2⟩, 443, ()⟩) := by
    decide +kernel
  obtain ⟨b, hb, hf, hp⟩ := exists_of_buildRoute hrun
  obtain ⟨b', hb', hf', hq⟩ := exists_of_buildRoute hrun'
  have heq := h twoTexts BuildEnv.willing (echDocument ech ech') l _ _ b b' _ _ 0 twoTexts_sound
    (by decide +kernel) (List.mem_singleton_self _) (by decide +kernel) (by decide +kernel) hb hb'
    hp hq (by rw [hf, hf']) EchProvider.deafDns []
  exact absurd heq (by decide +kernel)

end Examples

end SniGate
