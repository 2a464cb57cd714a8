import SniGate.Config.Resolve

/-!
# The ladder of scopes

Every setting that may be written at several scopes is meant to come from the most specific one that
writes it:

  route → route template → listener → listener template → global

with a scope's `[ech]` block before its plain keys, and its specific resolver keys before the
general one (`DeepestWins`).

Three settings have both spellings, and they are resolved differently: the `[ech]` blocks of all
scopes come before the plain keys of any. An outer block then overtakes a plain key further in, and
the setting comes from the deepest scope exactly when none does with another value (`NotOvertaken`).
The failure policy of a listener's template is not looked at. Everything else does come from the
deepest scope (`deepestWins_iff`).
-/

namespace SniGate

/-! ## Two spellings of one setting -/

section TwoSpellings

variable {β α : Type} {deep plain : β → Option α} {x : β} {xs : List β}

/-- The first scope that writes a setting writes it deep, or no scope after it writes another value
deep. -/
def NotOvertaken (deep plain : β → Option α) (xs : List β) : Prop :=
  ∀ front x back v, xs = front ++ x :: back → (∀ y ∈ front, deep y = none ∧ plain y = none) →
    deep x = none → plain x = some v → ∀ w, back.findSome? deep = some w → w = v

theorem notOvertaken_nil : NotOvertaken deep plain [] := fun _ _ _ _ h ↦ absurd h (by simp)

/-- A scope that writes nothing hides nothing. -/
theorem notOvertaken_cons_iff_of_eq_none (hdeep : deep x = none) (hplain : plain x = none) :
    NotOvertaken deep plain (x :: xs) ↔ NotOvertaken deep plain xs := by
  constructor
  · intro h front y back v hxs hfront
    refine h (x :: front) y back v (by rw [hxs, List.cons_append]) ?_
    rintro z hz
    rcases List.mem_cons.mp hz with rfl | hz
    · exact ⟨hdeep, hplain⟩
    · exact hfront z hz
  · intro h front y back v hxs hfront hy hv
    cases front with
    | nil =>
      obtain ⟨rfl, -⟩ := List.cons.inj hxs
      rw [hplain] at hv
      exact absurd hv (by simp)
    | cons z front =>
      obtain ⟨-, hxs⟩ := List.cons.inj hxs
      exact h front y back v hxs (fun u hu ↦ hfront u (List.mem_cons_of_mem z hu)) hy hv

/-- The scope that writes plainly is overtaken only by another value. -/
theorem notOvertaken_cons_iff_of_plain {v : α} (hdeep : deep x = none) (hplain : plain x = some v) :
    NotOvertaken deep plain (x :: xs) ↔ ∀ w, xs.findSome? deep = some w → w = v := by
  constructor
  · exact fun h ↦ h [] x xs v rfl (by simp) hdeep hplain
  · intro h front y back v' hxs hfront _ hv'
    cases front with
    | nil =>
      obtain ⟨rfl, rfl⟩ := List.cons.inj hxs
      obtain rfl := Option.some.inj (hplain.symm.trans hv')
      exact h
    | cons z front =>
      obtain ⟨rfl, -⟩ := List.cons.inj hxs
      have hnone := (hfront x List.mem_cons_self).2
      rw [hplain] at hnone
      exact absurd hnone (by simp)

theorem notOvertaken_cons_of_deep {v : α} (hdeep : deep x = some v) :
    NotOvertaken deep plain (x :: xs) := by
  intro front y back v' hxs hfront hy
  cases front with
  | nil =>
    obtain ⟨rfl, -⟩ := List.cons.inj hxs
    rw [hdeep] at hy
    exact absurd hy (by simp)
  | cons z front =>
    obtain ⟨rfl, -⟩ := List.cons.inj hxs
    have hnone := (hfront x List.mem_cons_self).1
    rw [hdeep] at hnone
    exact absurd hnone (by simp)

/-- **When the order of the spellings does not matter.** Looking for the deep spelling in all scopes
first finds what looking for either, scope by scope, does. -/
theorem findSome?_or_eq_iff :
    (xs.findSome? deep).or (xs.findSome? plain) = xs.findSome? (fun x ↦ (deep x).or (plain x)) ↔
      NotOvertaken deep plain xs := by
  induction xs with
  | nil => exact iff_of_true rfl notOvertaken_nil
  | cons x xs ih =>
    cases hdeep : deep x with
    | some v =>
      refine iff_of_true ?_ (notOvertaken_cons_of_deep hdeep)
      simp [hdeep]
    | none =>
      cases hplain : plain x with
      | none =>
        rw [notOvertaken_cons_iff_of_eq_none hdeep hplain, ← ih]
        simp [hdeep, hplain]
      | some v =>
        rw [notOvertaken_cons_iff_of_plain hdeep hplain]
        simp only [List.findSome?_cons, hdeep, hplain, Option.none_or]
        cases xs.findSome? deep <;> simp

/-- The same where a setting that no scope writes has a default. -/
theorem getD_findSome?_or_eq_iff (default : α) :
    ((xs.findSome? deep).or (xs.findSome? plain)).getD default =
        (xs.findSome? fun x ↦ (deep x).or (plain x)).getD default ↔ NotOvertaken deep plain xs := by
  rw [← findSome?_or_eq_iff]
  constructor
  · intro h
    cases heither : xs.findSome? fun x ↦ (deep x).or (plain x) with
    | none =>
      have hnone : ∀ x ∈ xs, deep x = none ∧ plain x = none := fun x hx ↦
        Option.or_eq_none_iff.mp (List.findSome?_eq_none_iff.mp heither x hx)
      rw [List.findSome?_eq_none_iff.mpr fun x hx ↦ (hnone x hx).1,
        List.findSome?_eq_none_iff.mpr fun x hx ↦ (hnone x hx).2, Option.or_none]
    | some v =>
      cases hseparate : (xs.findSome? deep).or (xs.findSome? plain) with
      | none =>
        obtain ⟨hdeep, hplain⟩ := Option.or_eq_none_iff.mp hseparate
        obtain ⟨x, hx, hv⟩ := List.exists_of_findSome?_eq_some heither
        rw [List.findSome?_eq_none_iff.mp hdeep x hx,
          List.findSome?_eq_none_iff.mp hplain x hx] at hv
        exact absurd hv (by simp)
      | some w =>
        rw [heither, hseparate] at h
        exact congrArg some h
  · exact congrArg (Option.getD · default)

theorem firstField_map {γ : Type} (table : β → Option γ) (xs : List β) {field : γ → Option α} :
    firstField (xs.map table) field = xs.findSome? fun x ↦ (table x).bind field := by
  rw [firstField, firstSome, List.map_map, List.findSome?_map]
  rfl

theorem firstSome_cons {o : Option α} {os : List (Option α)} :
    firstSome (o :: os) = o.or (firstSome os) := by
  cases o <;> rfl

theorem firstSome_pair {o o' : Option α} : firstSome [o, o'] = o.or o' := by
  cases o <;> cases o' <;> rfl

theorem firstSome_flatMap_pair :
    firstSome (xs.flatMap fun x ↦ [deep x, plain x]) =
      xs.findSome? fun x ↦ (deep x).or (plain x) := by
  induction xs with
  | nil => rfl
  | cons x xs ih =>
    rw [firstSome] at ih
    rw [firstSome, List.flatMap_cons, List.findSome?_append, ih]
    cases hdeep : deep x <;> cases hplain : plain x <;> simp [hdeep, hplain]

end TwoSpellings

/-! ## Scopes -/

/-- What one scope writes; a template that is not used writes nothing. -/
structure ScopeTables where
  common : Option CommonOpts
  ech : Option EchConfig
  http2 : Option Http2Config
  verify : Option VerifyConfig
  fail : Option FailPolicy

/-- A setting with two spellings, as one scope writes it. -/
def ScopeTables.either {α : Type} (s : ScopeTables) (deep : EchConfig → Option α)
    (plain : CommonOpts → Option α) : Option α :=
  (s.ech.bind deep).or (s.common.bind plain)

/-- The scopes of a template. -/
def Template.tables (t : Option Template) : ScopeTables :=
  { common := t.map Template.common
    ech := t.bind Template.ech
    http2 := t.bind Template.http2
    verify := t.bind Template.verify
    fail := t.bind Template.fail }

def Route.tables (r : Route) : ScopeTables :=
  { common := some r.common, ech := r.ech, http2 := r.http2, verify := r.verify, fail := r.fail }

def Listener.tables (l : Listener) : ScopeTables :=
  { common := some l.common, ech := l.ech, http2 := l.http2, verify := l.verify, fail := none }

/-- The outermost scope's failure policy is the one for connections that match no route. -/
def Global.tables (g : Global) : ScopeTables :=
  { common := some g.common, ech := g.ech, http2 := g.http2, verify := g.verify,
    fail := some g.unmatched }

/-- A resolver key of a scope: the specific one before the general one. -/
def CommonOpts.specificResolver (field : CommonOpts → Option Str) (c : CommonOpts) : Option Str :=
  (field c).or c.resolver

namespace Config

variable (cfg : Config) (listener : Listener) (route : Route) (rtTpl lnTpl : Option Template)

/-- The scopes that choose the upstream. -/
def routeScopes : List ScopeTables := [route.tables, Template.tables rtTpl]

/-- The five scopes, deepest first. -/
def scopes : List ScopeTables :=
  routeScopes route rtTpl ++ [listener.tables, Template.tables lnTpl, cfg.global.tables]

/-- What the deepest scope that writes a setting writes. -/
def deepest {α : Type} (write : ScopeTables → Option α) : Option α :=
  (cfg.scopes listener route rtTpl lnTpl).findSome? write

/-- Whether a route originates TLS. -/
def OriginatesTls : Prop :=
  effectiveRouteType route rtTpl = some .tls ∨ effectiveRouteType route rtTpl = some .ech

/-- **The ladder.** Every setting comes from the deepest scope that writes it. -/
structure DeepestWins : Prop where
  echResolver : (cfg.effective listener route rtTpl lnTpl).echResolver =
    cfg.deepest listener route rtTpl lnTpl fun s ↦
      s.either EchConfig.echResolver (CommonOpts.specificResolver CommonOpts.echResolver)
  addrResolver : (cfg.effective listener route rtTpl lnTpl).addrResolver =
    cfg.deepest listener route rtTpl lnTpl fun s ↦
      s.common.bind (CommonOpts.specificResolver CommonOpts.addrResolver)
  echRefresh : (cfg.effective listener route rtTpl lnTpl).echRefresh =
    (cfg.deepest listener route rtTpl lnTpl fun s ↦
      s.either EchConfig.echRefresh CommonOpts.echRefresh).getD defaultEchRefresh
  requireEch : (cfg.effective listener route rtTpl lnTpl).requireEch =
    (cfg.deepest listener route rtTpl lnTpl fun s ↦
      s.either EchConfig.requireEch CommonOpts.requireEch).getD true
  nat64Prefix : (cfg.effective listener route rtTpl lnTpl).nat64Prefix =
    cfg.deepest listener route rtTpl lnTpl fun s ↦ s.common.bind CommonOpts.nat64Prefix
  addressFamily : (cfg.effective listener route rtTpl lnTpl).addressFamily =
    (cfg.deepest listener route rtTpl lnTpl fun s ↦
      s.common.bind CommonOpts.addressFamily).getD .dual
  connectTimeout : (cfg.effective listener route rtTpl lnTpl).connectTimeout =
    (cfg.deepest listener route rtTpl lnTpl fun s ↦
      s.common.bind CommonOpts.connectTimeout).getD defaultConnectTimeout
  idleTimeout : (cfg.effective listener route rtTpl lnTpl).idleTimeout =
    (cfg.deepest listener route rtTpl lnTpl fun s ↦
      s.common.bind CommonOpts.idleTimeout).getD defaultIdleTimeout
  fail : some (cfg.effective listener route rtTpl lnTpl).fail =
    cfg.deepest listener route rtTpl lnTpl ScopeTables.fail
  ech : cfg.effectiveEch listener route rtTpl lnTpl =
    { mode := (cfg.deepest listener route rtTpl lnTpl fun s ↦ s.ech.bind EchConfig.mode).getD .doh
      config := cfg.deepest listener route rtTpl lnTpl fun s ↦ s.ech.bind EchConfig.config
      echDomain := cfg.deepest listener route rtTpl lnTpl fun s ↦ s.ech.bind EchConfig.echDomain
      maxRetries :=
        (cfg.deepest listener route rtTpl lnTpl fun s ↦ s.ech.bind EchConfig.maxRetries).getD 2 }
  http2 : cfg.effectiveHttp2 listener route rtTpl lnTpl =
    { enabled :=
        if effectiveRouteType route rtTpl = some .raw then false
        else (cfg.deepest listener route rtTpl lnTpl fun s ↦
          s.http2.bind Http2Config.enabled).getD false
      probe :=
        (cfg.deepest listener route rtTpl lnTpl fun s ↦ s.http2.bind Http2Config.probe).getD .warn
      probeTimeout := (cfg.deepest listener route rtTpl lnTpl fun s ↦
        s.http2.bind Http2Config.probeTimeout).getD defaultProbeTimeout }
  verify : OriginatesTls route rtTpl → cfg.effectiveVerify listener route rtTpl lnTpl =
    { mode :=
        (cfg.deepest listener route rtTpl lnTpl fun s ↦ s.verify.bind VerifyConfig.mode).getD .full
      name := (routeScopes route rtTpl).findSome? fun s ↦ s.verify.bind VerifyConfig.name
      pins :=
        (cfg.deepest listener route rtTpl lnTpl fun s ↦ s.verify.bind VerifyConfig.pins).getD []
      caFile := cfg.deepest listener route rtTpl lnTpl fun s ↦ s.verify.bind VerifyConfig.caFile
      trustWebpki := (cfg.deepest listener route rtTpl lnTpl fun s ↦
        s.verify.bind VerifyConfig.trustWebpki).getD true }
  noVerify : ¬OriginatesTls route rtTpl →
    cfg.effectiveVerify listener route rtTpl lnTpl = .default

/-! ## When the deepest scope wins -/

/-- No `[ech]` block overtakes a plain key further in with another value. -/
def EchNotOvertaken {α : Type} (deep : EchConfig → Option α) (plain : CommonOpts → Option α) :
    Prop :=
  NotOvertaken (fun s : ScopeTables ↦ s.ech.bind deep) (fun s ↦ s.common.bind plain)
    (cfg.scopes listener route rtTpl lnTpl)

/-- The failure policy of the listener's template, where nothing deeper writes one, is the global
one. -/
def FailNotLost : Prop :=
  route.fail = none → rtTpl.bind Template.fail = none →
    ∀ p, lnTpl.bind Template.fail = some p → p = cfg.global.unmatched

section DeepestWins

variable {cfg listener route rtTpl lnTpl}

theorem commonTiers_eq : cfg.commonTiers listener route rtTpl lnTpl =
    (cfg.scopes listener route rtTpl lnTpl).map ScopeTables.common := rfl

theorem echTiers_eq : cfg.echTiers listener route rtTpl lnTpl =
    (cfg.scopes listener route rtTpl lnTpl).map ScopeTables.ech := rfl

theorem http2Tiers_eq : cfg.http2Tiers listener route rtTpl lnTpl =
    (cfg.scopes listener route rtTpl lnTpl).map ScopeTables.http2 := rfl

theorem firstField_commonTiers {α : Type} {field : CommonOpts → Option α} :
    firstField (cfg.commonTiers listener route rtTpl lnTpl) field =
      cfg.deepest listener route rtTpl lnTpl fun s ↦ s.common.bind field := by
  rw [commonTiers_eq, firstField_map, deepest]

theorem firstField_echTiers {α : Type} {field : EchConfig → Option α} :
    firstField (cfg.echTiers listener route rtTpl lnTpl) field =
      cfg.deepest listener route rtTpl lnTpl fun s ↦ s.ech.bind field := by
  rw [echTiers_eq, firstField_map, deepest]

theorem firstField_http2Tiers {α : Type} {field : Http2Config → Option α} :
    firstField (cfg.http2Tiers listener route rtTpl lnTpl) field =
      cfg.deepest listener route rtTpl lnTpl fun s ↦ s.http2.bind field := by
  rw [http2Tiers_eq, firstField_map, deepest]

/-- In each scope the specific resolver stands before the general one. -/
theorem firstSome_resolverTiers {field : CommonOpts → Option Str} :
    firstSome (cfg.resolverTiers listener route rtTpl lnTpl field) =
      cfg.deepest listener route rtTpl lnTpl fun s ↦
        s.common.bind (CommonOpts.specificResolver field) := by
  rw [resolverTiers, firstSome_flatMap_pair, commonTiers_eq, List.findSome?_map, deepest]
  congr 1
  funext s
  rw [Function.comp]
  cases s.common <;> rfl

theorem effectiveHttp2_eq_deepest : cfg.effectiveHttp2 listener route rtTpl lnTpl =
    { enabled :=
        if effectiveRouteType route rtTpl = some .raw then false
        else (cfg.deepest listener route rtTpl lnTpl fun s ↦
          s.http2.bind Http2Config.enabled).getD false
      probe :=
        (cfg.deepest listener route rtTpl lnTpl fun s ↦ s.http2.bind Http2Config.probe).getD .warn
      probeTimeout := (cfg.deepest listener route rtTpl lnTpl fun s ↦
        s.http2.bind Http2Config.probeTimeout).getD defaultProbeTimeout } := by
  simp only [effectiveHttp2, firstField_http2Tiers]
  by_cases hraw : effectiveRouteType route rtTpl = some .raw <;> simp [hraw]

theorem effectiveVerify_eq_deepest (h : OriginatesTls route rtTpl) :
    cfg.effectiveVerify listener route rtTpl lnTpl =
    { mode :=
        (cfg.deepest listener route rtTpl lnTpl fun s ↦ s.verify.bind VerifyConfig.mode).getD .full
      name := (routeScopes route rtTpl).findSome? fun s ↦ s.verify.bind VerifyConfig.name
      pins :=
        (cfg.deepest listener route rtTpl lnTpl fun s ↦ s.verify.bind VerifyConfig.pins).getD []
      caFile := cfg.deepest listener route rtTpl lnTpl fun s ↦ s.verify.bind VerifyConfig.caFile
      trustWebpki := (cfg.deepest listener route rtTpl lnTpl fun s ↦
        s.verify.bind VerifyConfig.trustWebpki).getD true } := by
  have hall {α : Type} {field : VerifyConfig → Option α} :
      firstField ([route.verify, rtTpl.bind Template.verify] ++
        [listener.verify, lnTpl.bind Template.verify, cfg.global.verify]) field =
      cfg.deepest listener route rtTpl lnTpl fun s ↦ s.verify.bind field :=
    firstField_map ScopeTables.verify (cfg.scopes listener route rtTpl lnTpl)
  have hown : firstField [route.verify, rtTpl.bind Template.verify] VerifyConfig.name =
      (routeScopes route rtTpl).findSome? fun s ↦ s.verify.bind VerifyConfig.name :=
    firstField_map ScopeTables.verify (routeScopes route rtTpl)
  have hmerge : cfg.effectiveVerify listener route rtTpl lnTpl =
      .merge [route.verify, rtTpl.bind Template.verify]
        [listener.verify, lnTpl.bind Template.verify, cfg.global.verify] := by
    rcases h with h | h <;> rw [effectiveVerify, h]
  rw [hmerge]
  simp only [EffectiveVerify.merge, hall, hown]
  rfl

theorem effectiveVerify_eq_default (h : ¬OriginatesTls route rtTpl) :
    cfg.effectiveVerify listener route rtTpl lnTpl = .default := by
  rw [effectiveVerify]
  cases htype : effectiveRouteType route rtTpl with
  | none => rfl
  | some t =>
    cases t with
    | http => rfl
    | raw => rfl
    | tls => exact absurd (.inl htype) h
    | ech => exact absurd (.inr htype) h

theorem echRefresh_eq_deepest_iff : (cfg.effective listener route rtTpl lnTpl).echRefresh =
      (cfg.deepest listener route rtTpl lnTpl fun s ↦
        s.either EchConfig.echRefresh CommonOpts.echRefresh).getD defaultEchRefresh ↔
    cfg.EchNotOvertaken listener route rtTpl lnTpl EchConfig.echRefresh CommonOpts.echRefresh := by
  rw [EchNotOvertaken, ← getD_findSome?_or_eq_iff defaultEchRefresh]
  simp only [effective, firstField_echTiers, firstField_commonTiers, firstSome_pair]
  rfl

theorem requireEch_eq_deepest_iff : (cfg.effective listener route rtTpl lnTpl).requireEch =
      (cfg.deepest listener route rtTpl lnTpl fun s ↦
        s.either EchConfig.requireEch CommonOpts.requireEch).getD true ↔
    cfg.EchNotOvertaken listener route rtTpl lnTpl EchConfig.requireEch CommonOpts.requireEch := by
  rw [EchNotOvertaken, ← getD_findSome?_or_eq_iff true]
  simp only [effective, firstField_echTiers, firstField_commonTiers, firstSome_pair]
  rfl

theorem echResolver_eq_deepest_iff : (cfg.effective listener route rtTpl lnTpl).echResolver =
      (cfg.deepest listener route rtTpl lnTpl fun s ↦
        s.either EchConfig.echResolver (CommonOpts.specificResolver CommonOpts.echResolver)) ↔
    cfg.EchNotOvertaken listener route rtTpl lnTpl EchConfig.echResolver
      (CommonOpts.specificResolver CommonOpts.echResolver) := by
  rw [EchNotOvertaken, ← findSome?_or_eq_iff]
  simp only [effective, firstField_echTiers, firstSome_cons, firstSome_resolverTiers]
  rfl

theorem fail_eq_deepest_iff : some (cfg.effective listener route rtTpl lnTpl).fail =
      cfg.deepest listener route rtTpl lnTpl ScopeTables.fail ↔
    cfg.FailNotLost route rtTpl lnTpl := by
  have hscopes : cfg.deepest listener route rtTpl lnTpl ScopeTables.fail =
      some (((route.fail.or (rtTpl.bind Template.fail)).or (lnTpl.bind Template.fail)).getD
        cfg.global.unmatched) := by
    simp only [deepest, scopes, routeScopes, List.cons_append, List.nil_append, List.findSome?_cons,
      Route.tables, Template.tables, Listener.tables, Global.tables]
    cases route.fail <;> cases rtTpl.bind Template.fail <;> cases lnTpl.bind Template.fail <;> rfl
  have hcode : (cfg.effective listener route rtTpl lnTpl).fail =
      (route.fail.or (rtTpl.bind Template.fail)).getD cfg.global.unmatched := by
    simp only [effective, firstSome_pair]
  rw [hscopes, hcode, Option.some_inj, FailNotLost]
  cases route.fail <;> cases rtTpl.bind Template.fail <;> cases lnTpl.bind Template.fail <;>
    simp [eq_comm]

/-- **Exactly when the deepest scope wins.** Only the three settings with two spellings and the
failure policy can come from elsewhere. -/
theorem deepestWins_iff : cfg.DeepestWins listener route rtTpl lnTpl ↔
    cfg.EchNotOvertaken listener route rtTpl lnTpl EchConfig.requireEch CommonOpts.requireEch ∧
    cfg.EchNotOvertaken listener route rtTpl lnTpl EchConfig.echRefresh CommonOpts.echRefresh ∧
    cfg.EchNotOvertaken listener route rtTpl lnTpl EchConfig.echResolver
      (CommonOpts.specificResolver CommonOpts.echResolver) ∧
    cfg.FailNotLost route rtTpl lnTpl := by
  constructor
  · exact fun h ↦ ⟨requireEch_eq_deepest_iff.mp h.requireEch,
      echRefresh_eq_deepest_iff.mp h.echRefresh,
      echResolver_eq_deepest_iff.mp h.echResolver, fail_eq_deepest_iff.mp h.fail⟩
  · rintro ⟨hrequire, hrefresh, hresolver, hfail⟩
    exact {
      echResolver := echResolver_eq_deepest_iff.mpr hresolver
      addrResolver := firstSome_resolverTiers
      echRefresh := echRefresh_eq_deepest_iff.mpr hrefresh
      requireEch := requireEch_eq_deepest_iff.mpr hrequire
      nat64Prefix := firstField_commonTiers
      addressFamily := congrArg (Option.getD · _) firstField_commonTiers
      connectTimeout := congrArg (Option.getD · _) firstField_commonTiers
      idleTimeout := congrArg (Option.getD · _) firstField_commonTiers
      fail := fail_eq_deepest_iff.mpr hfail
      ech := by simp only [effectiveEch, firstField_echTiers]
      http2 := effectiveHttp2_eq_deepest
      verify := effectiveVerify_eq_deepest
      noVerify := effectiveVerify_eq_default }

end DeepestWins

/-- A plain `require_ech` at the route, and one in `[global.ech]`. -/
theorem not_deepestWins :
    let route : Route :=
      { matchSni := ["a.test".toList], routeType := some .ech, upstream := some "up.test".toList,
        common := { requireEch := some true } }
    let listener : Listener := { addr := ⟨.v4 0, 443⟩, routes := [route] }
    let cfg : Config :=
      { global := { ech := some { requireEch := some false } }, listeners := [listener] }
    ¬cfg.DeepestWins listener route none none := by
  intro route listener cfg h
  have heq := h.requireEch
  revert heq
  decide

end Config

end SniGate
