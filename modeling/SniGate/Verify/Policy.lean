import SniGate.Verify.Verifier

/-!
# What a verifier checks

A certificate meets a policy when it has what the policy asks for as it is written: a pinned key, a
chain to the trusted roots, a name. For a policy that passed its checks, the verifier that is built
for it accepts exactly the certificates that meet it (`accepts_iff_metBy`), part by part: the pins,
the roots and the name of the verifier are those of the policy.

## Design choices

Meeting a policy is stated on the policy as it is written and with the library's checks as
predicates, without the verifier (`MetBy`). The three parts are compared one at a time, each by an
equivalence, and none of them mentions the others.
-/

namespace SniGate

section Accepted

variable {Der Parsed Anchor Name Time TlsError : Type} {ext : Externals}
  {lib : TlsLib ext Der Parsed Anchor Name Time TlsError} {factory : VerifierFactory Anchor}
  {policy : EffectiveVerify} {endEntity : Der} {intermediates : List Der} {serverName : Name}
  {now : Time}

/-! ## Policies -/

/-- The fields of a policy fit together. -/
structure EffectiveVerify.Coherent (v : EffectiveVerify) : Prop where
  ca : v.mode = .none → v.caFile = none
  trust : v.mode ≠ .none → v.trustWebpki ∨ v.caFile ≠ none

open EffectiveVerify in
theorem EffectiveVerify.coherent_of_validate {scope : Str} {v : EffectiveVerify}
    (h : v.validate ext scope = .ok ()) : v.Coherent := by
  obtain ⟨_, -, h⟩ := bind_eq_ok.mp h
  obtain ⟨_, -, h⟩ := bind_eq_ok.mp h
  obtain ⟨_, -, h⟩ := bind_eq_ok.mp h
  rcases v with ⟨mode, name, pins, caFile, trustWebpki⟩
  constructor
  · rintro rfl
    cases caFile with
    | none => rfl
    | some path =>
      cases name <;> simp [validateCoherence, verifyMeaningless, refuse, bind, Except.bind] at h
  · intro hmode
    cases trustWebpki with
    | true => exact .inl rfl
    | false =>
      cases caFile with
      | some path => exact .inr (Option.some_ne_none path)
      | none =>
        cases mode with
        | none => exact absurd rfl hmode
        | full => simp [validateCoherence, refuse] at h
        | chain =>
          cases name <;> simp [validateCoherence, verifyMeaningless, refuse, bind, Except.bind] at h

/-- The name that a policy has a certificate checked for. -/
def EffectiveVerify.checkedName (lib : TlsLib ext Der Parsed Anchor Name Time TlsError)
    (v : EffectiveVerify) (serverName : Name) : Option Name :=
  match v.name with
  | some name => lib.serverName name
  | none => some serverName

/-- A certificate, which is read as `cert`, meets a policy. -/
structure EffectiveVerify.MetBy (lib : TlsLib ext Der Parsed Anchor Name Time TlsError)
    (webpki : List Anchor) (v : EffectiveVerify) (endEntity : Der) (intermediates : List Der)
    (serverName : Name) (now : Time) (cert : Parsed) : Prop where
  parses : lib.parsedCertificate endEntity = .ok cert
  pinned : v.pins ≠ [] → ∃ raw, lib.subjectPki endEntity = some raw ∧
    ∃ pin ∈ v.pins, parseSpkiPin ext pin = .ok (lib.sha256 raw)
  chained : v.mode = .full ∨ v.mode = .chain → ∃ anchors, caAnchors lib v = .ok anchors ∧
    lib.verifyServerCertSignedByTrustAnchor cert ((if v.trustWebpki then webpki else []) ++ anchors)
      intermediates now = .ok ()
  named : v.mode = .full → ∃ name, v.checkedName lib serverName = some name ∧
    lib.verifyServerName cert name = .ok ()

/-! ## What is built -/

variable {built : UpstreamVerify Anchor Name}

theorem build_eq_ok_iff : factory.build lib policy = .ok built ↔
    ∃ pins name roots, buildPins ext [] policy.pins = .ok pins ∧
      VerifierFactory.nameCheck lib policy = .ok name ∧
      factory.chainRoots lib policy = .ok roots ∧
      ⟨⟨roots, name, pins⟩, policy = EffectiveVerify.default, policy.name, describe policy⟩ =
        built := by
  rw [VerifierFactory.build, bind_eq_ok]
  constructor
  · rintro ⟨pins, hpins, h⟩
    obtain ⟨name, hname, h⟩ := bind_eq_ok.mp h
    obtain ⟨roots, hroots, h⟩ := bind_eq_ok.mp h
    exact ⟨pins, name, roots, hpins, hname, hroots, Except.ok.inj h⟩
  · rintro ⟨pins, name, roots, hpins, hname, hroots, rfl⟩
    exact ⟨pins, hpins, bind_eq_ok.mpr ⟨name, hname, bind_eq_ok.mpr ⟨roots, hroots, rfl⟩⟩⟩

/-- The pins of a verifier are matched by the keys that match a pin of the policy. -/
theorem pinned_iff {pins : List Bytes} (hpins : buildPins ext [] policy.pins = .ok pins)
    (endEntity : Der) :
    (pins ≠ [] → ∃ raw, lib.subjectPki endEntity = some raw ∧ lib.sha256 raw ∈ pins) ↔
      (policy.pins ≠ [] → ∃ raw, lib.subjectPki endEntity = some raw ∧
        ∃ pin ∈ policy.pins, parseSpkiPin ext pin = .ok (lib.sha256 raw)) := by
  rw [buildPins_ne_nil_iff hpins]
  simp [mem_of_buildPins hpins]

theorem chainRoots_of_none (hmode : policy.mode = .none) :
    factory.chainRoots lib policy = .ok none := by
  rw [VerifierFactory.chainRoots, hmode]

theorem chainRoots_of_ne_none (hcoherent : policy.Coherent) (hmode : policy.mode ≠ .none) :
    factory.chainRoots lib policy = (caAnchors lib policy).map fun anchors ↦
      some ((if policy.trustWebpki then factory.webpki else []) ++ anchors) := by
  have hroots : factory.chainRoots lib policy = (factory.rootsFor lib policy).map some := by
    rw [VerifierFactory.chainRoots]
    cases h : policy.mode with
    | none => exact absurd h hmode
    | full => rfl
    | chain => rfl
  rw [hroots, rootsFor_eq (hcoherent.trust hmode)]
  cases caAnchors lib policy with
  | error e => rfl
  | ok anchors => rfl

theorem chained_iff {roots : Option (List Anchor)} (hcoherent : policy.Coherent)
    (hroots : factory.chainRoots lib policy = .ok roots) {accepts : List Anchor → Prop} :
    (∀ anchors ∈ roots, accepts anchors) ↔
      (policy.mode = .full ∨ policy.mode = .chain → ∃ anchors, caAnchors lib policy = .ok anchors ∧
        accepts ((if policy.trustWebpki then factory.webpki else []) ++ anchors)) := by
  have hbuilds : policy.mode = .full ∨ policy.mode = .chain ↔ policy.mode ≠ .none := by
    cases policy.mode <;> simp
  rw [hbuilds]
  by_cases hmode : policy.mode = .none
  · obtain rfl := Except.ok.inj ((chainRoots_of_none hmode).symm.trans hroots)
    exact iff_of_true nofun fun h ↦ absurd hmode h
  · rw [chainRoots_of_ne_none hcoherent hmode] at hroots
    cases hca : caAnchors lib policy with
    | error e =>
      rw [hca] at hroots
      exact absurd hroots nofun
    | ok anchors =>
      rw [hca] at hroots
      obtain rfl := Except.ok.inj hroots
      simp [hmode]

theorem nameCheck_of_ne_full (hmode : policy.mode ≠ .full) :
    VerifierFactory.nameCheck lib policy = .ok .skip := by
  unfold VerifierFactory.nameCheck
  cases h : policy.mode with
  | full => exact absurd h hmode
  | chain => cases policy.name <;> rfl
  | none => cases policy.name <;> rfl

variable (lib) in
/-- A policy for full verification has a name checked, the one it fixes or the one requested. -/
theorem nameCheck_of_full (hchecked : policy.Checked ext) (hmode : policy.mode = .full) :
    ∃ name, VerifierFactory.nameCheck lib policy = .ok name ∧
      ∀ serverName, policy.checkedName lib serverName = name.asked serverName ∧
        (name.asked serverName).isSome := by
  unfold VerifierFactory.nameCheck EffectiveVerify.checkedName
  rw [hmode]
  cases hname : policy.name with
  | none => exact ⟨.requested, rfl, fun serverName ↦ ⟨rfl, rfl⟩⟩
  | some text =>
    have hsome : (lib.serverName text).isSome := by
      rw [lib.isSome_serverName]
      exact hchecked.name text hname
    obtain ⟨fixed, hfixed⟩ := Option.isSome_iff_exists.mp hsome
    dsimp only
    rw [hfixed]
    exact ⟨.fixed fixed, rfl, fun serverName ↦ ⟨rfl, rfl⟩⟩

theorem named_iff {name : NameCheck Name} (hchecked : policy.Checked ext)
    (hname : VerifierFactory.nameCheck lib policy = .ok name) (serverName : Name)
    {accepts : Name → Prop} :
    (∀ asked ∈ name.asked serverName, accepts asked) ↔
      (policy.mode = .full →
        ∃ asked, policy.checkedName lib serverName = some asked ∧ accepts asked) := by
  by_cases hmode : policy.mode = .full
  · obtain ⟨name', hname', hasked⟩ := nameCheck_of_full lib hchecked hmode
    obtain rfl := Except.ok.inj (hname'.symm.trans hname)
    obtain ⟨hsame, hsome⟩ := hasked serverName
    obtain ⟨asked, hasked⟩ := Option.isSome_iff_exists.mp hsome
    rw [hsame, hasked]
    simp [hmode]
  · obtain rfl := Except.ok.inj ((nameCheck_of_ne_full hmode).symm.trans hname)
    exact iff_of_true nofun fun h ↦ absurd h hmode

/-- **The verifier of a policy** accepts the certificates that meet the policy. -/
theorem accepts_iff_metBy (hchecked : policy.Checked ext) (hcoherent : policy.Coherent)
    (hbuild : factory.build lib policy = .ok built) :
    built.verifier.verifyServerCert lib endEntity intermediates serverName now = .ok () ↔
      ∃ cert, policy.MetBy lib factory.webpki endEntity intermediates serverName now cert := by
  obtain ⟨pins, name, roots, hpins, hname, hroots, rfl⟩ := build_eq_ok_iff.mp hbuild
  rw [verifyServerCert_eq_ok_iff]
  refine exists_congr fun cert ↦ ?_
  rw [pinned_iff hpins, chained_iff hcoherent hroots, named_iff hchecked hname]
  exact ⟨fun ⟨hparse, hpin, hchain, hasked⟩ ↦ ⟨hparse, hpin, hchain, hasked⟩,
    fun h ↦ ⟨h.parses, h.pinned, h.chained, h.named⟩⟩

/-- A policy that passed its checks has a verifier unless its bundle cannot be used. -/
theorem exists_build_iff (hchecked : policy.Checked ext) (hcoherent : policy.Coherent) :
    (∃ built, factory.build lib policy = .ok built) ↔
      ∃ anchors, caAnchors lib policy = .ok anchors := by
  constructor
  · rintro ⟨built, hbuild⟩
    obtain ⟨pins, name, roots, -, -, hroots, -⟩ := build_eq_ok_iff.mp hbuild
    -- a policy without a chain names no bundle, by its own checks
    by_cases hmode : policy.mode = .none
    · exact ⟨[], by rw [caAnchors, hcoherent.ca hmode]⟩
    · rw [chainRoots_of_ne_none hcoherent hmode] at hroots
      cases hca : caAnchors lib policy with
      | error e =>
        rw [hca] at hroots
        exact absurd hroots (by simp [Except.map])
      | ok anchors => exact ⟨anchors, rfl⟩
  · rintro ⟨anchors, hca⟩
    obtain ⟨pins, hpins⟩ := exists_buildPins [] hchecked.pins
    have hname : ∃ name, VerifierFactory.nameCheck lib policy = .ok name := by
      by_cases hmode : policy.mode = .full
      · obtain ⟨name, hname, -⟩ := nameCheck_of_full lib hchecked hmode
        exact ⟨name, hname⟩
      · exact ⟨_, nameCheck_of_ne_full hmode⟩
    have hroots : ∃ roots, factory.chainRoots lib policy = .ok roots := by
      by_cases hmode : policy.mode = .none
      · exact ⟨none, chainRoots_of_none hmode⟩
      · rw [chainRoots_of_ne_none hcoherent hmode, hca]
        exact ⟨_, rfl⟩
    obtain ⟨name, hname⟩ := hname
    obtain ⟨roots, hroots⟩ := hroots
    exact ⟨_, build_eq_ok_iff.mpr ⟨pins, name, roots, hpins, hname, hroots, rfl⟩⟩

end Accepted

/-! ## Five tiers -/

/-- The `[verify]` blocks of a route's scopes, where they are written. -/
structure VerifyTiers where
  route : Option VerifyConfig
  routeTemplate : Option VerifyConfig
  listener : Option VerifyConfig
  listenerTemplate : Option VerifyConfig
  global : Option VerifyConfig
deriving DecidableEq, Repr

namespace VerifyTiers

/-- The merged policy. -/
def policy (tiers : VerifyTiers) : EffectiveVerify :=
  .merge [tiers.route, tiers.routeTemplate]
    [tiers.listener, tiers.listenerTemplate, tiers.global]

theorem policy_name (tiers : VerifyTiers) :
    tiers.policy.name = (tiers.route.bind VerifyConfig.name).or
      (tiers.routeTemplate.bind VerifyConfig.name) := firstSome_pair

end VerifyTiers

/-- The tiers of a route. -/
def Config.verifyTiers (cfg : Config) (listener : Listener) (route : Route)
    (rtTpl lnTpl : Option Template) : VerifyTiers where
  route := route.verify
  routeTemplate := rtTpl.bind Template.verify
  listener := listener.verify
  listenerTemplate := lnTpl.bind Template.verify
  global := cfg.global.verify

theorem Config.effectiveVerify_eq_policy {cfg : Config} {listener : Listener} {route : Route}
    {rtTpl lnTpl : Option Template} (h : OriginatesTls route rtTpl) :
    cfg.effectiveVerify listener route rtTpl lnTpl =
      (cfg.verifyTiers listener route rtTpl lnTpl).policy := by
  rcases h with h | h
  · rw [effectiveVerify, h]
    rfl
  · rw [effectiveVerify, h]
    rfl

section Policies

variable {Der Parsed Anchor Name Time TlsError : Type} {ext : Externals}

theorem EffectiveVerify.Checked.unpinned {v : EffectiveVerify} (h : v.Checked ext) :
    ({ v with pins := [] } : EffectiveVerify).Checked ext := ⟨h.name, nofun⟩

theorem EffectiveVerify.Coherent.unpinned {v : EffectiveVerify} (h : v.Coherent) :
    ({ v with pins := [] } : EffectiveVerify).Coherent := ⟨h.ca, h.trust⟩

/-- **Verification checks the resolved policy.** For tiers whose merged policy passes its checks, a
verifier is built unless the bundle of anchors cannot be used, and it accepts exactly the
certificates that meet the policy; the name it fixes is the route's or else its template's. Pins
never make a certificate accepted that is refused without them. -/
theorem verifier_checks_policy {tiers : VerifyTiers} {scope : Str}
    (hvalid : tiers.policy.validate ext scope = .ok ())
    (lib : TlsLib ext Der Parsed Anchor Name Time TlsError) (factory : VerifierFactory Anchor) :
    ((∃ built, factory.build lib tiers.policy = .ok built) ↔
      ∃ anchors, caAnchors lib tiers.policy = .ok anchors) ∧
    tiers.policy.name = (tiers.route.bind VerifyConfig.name).or
      (tiers.routeTemplate.bind VerifyConfig.name) ∧
    ∀ built, factory.build lib tiers.policy = .ok built →
      ∀ endEntity intermediates serverName now,
        (built.verifier.verifyServerCert lib endEntity intermediates serverName now = .ok () ↔
          ∃ cert, tiers.policy.MetBy lib factory.webpki endEntity intermediates serverName now
            cert) ∧
        ∀ unpinned, factory.build lib { tiers.policy with pins := [] } = .ok unpinned →
          built.verifier.verifyServerCert lib endEntity intermediates serverName now = .ok () →
            unpinned.verifier.verifyServerCert lib endEntity intermediates serverName now =
              .ok () := by
  have hchecked := EffectiveVerify.checked_of_validate hvalid
  have hcoherent := EffectiveVerify.coherent_of_validate hvalid
  refine ⟨exists_build_iff hchecked hcoherent, tiers.policy_name,
    fun built hbuild endEntity intermediates serverName now ↦ ?_⟩
  refine ⟨accepts_iff_metBy hchecked hcoherent hbuild, fun unpinned hunpinned haccepted ↦ ?_⟩
  obtain ⟨cert, hmet⟩ := (accepts_iff_metBy hchecked hcoherent hbuild).mp haccepted
  rw [accepts_iff_metBy hchecked.unpinned hcoherent.unpinned hunpinned]
  exact ⟨cert, hmet.parses, fun hpins ↦ absurd rfl hpins, hmet.chained, hmet.named⟩

end Policies

/-! ## One policy -/

/-- A base64 decoder for one text of 32 bytes, and no other parser. -/
private def onePin : Externals where
  regexNew _ := .error []
  base64 s := if s = "AA==".toList then .ok (List.replicate 32 0) else .error []
  serverName s := s = "a.example".toList

/-- Certificates are their names, every chain is good, and every key has the one digest. -/
private def nameLib : TlsLib onePin Str Str Unit Str Unit Unit where
  serverName s := if s = "a.example".toList then some s else none
  isSome_serverName s := by
    split_ifs with h
    · exact (decide_eq_true h).symm
    · exact (decide_eq_false h).symm
  parsedCertificate := .ok
  subjectPki _ := some []
  sha256 _ := List.replicate 32 0
  verifyServerCertSignedByTrustAnchor _ _ _ _ := .ok ()
  verifyServerName cert name := if cert = name then .ok () else .error ()
  readFile _ := .error []
  pemCerts _ := []
  trustAnchor _ := .error []

/-- The route fixes a name, its template a pin. -/
private def twoTiers : VerifyTiers where
  route := some { name := some "a.example".toList }
  routeTemplate := some { pins := some ["sha256/AA==".toList] }
  listener := none
  listenerTemplate := none
  global := none

/-- A certificate for the fixed name is accepted whatever name is requested. -/
theorem verifier_checks_policy_twoTiers :
    ∃ built, (⟨[()]⟩ : VerifierFactory Unit).build nameLib twoTiers.policy = .ok built ∧
      built.verifier.verifyServerCert nameLib "a.example".toList [] "b.example".toList () =
        .ok () := by
  have hvalid : twoTiers.policy.validate onePin "route r".toList = .ok () := by decide +kernel
  obtain ⟨hbuilds, -, haccepts⟩ := verifier_checks_policy hvalid nameLib ⟨[()]⟩
  obtain ⟨built, hbuild⟩ := hbuilds.mpr ⟨[], rfl⟩
  refine ⟨built, hbuild, (haccepts built hbuild _ _ _ _).1.mpr ⟨"a.example".toList, rfl, ?_, ?_, ?_⟩⟩
  · exact fun _ ↦ ⟨[], rfl, "sha256/AA==".toList, List.mem_cons_self, by decide +kernel⟩
  · exact fun _ ↦ ⟨[], rfl, rfl⟩
  · exact fun _ ↦ ⟨"a.example".toList, by decide +kernel, by decide +kernel⟩

end SniGate
