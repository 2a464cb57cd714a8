import SniGate.Startup.Wiring
import SniGate.Verify.Verifier

/-!
# A policy that nobody checked

The load-time check reads the verification policy of a resolver only where its endpoint presents a
certificate, and that of `[global]` never on its own: it supplies defaults, and what is read is what
comes of them. Starting up builds a verifier for every resolver. So one without TLS, which will
never verify anything, is built from a policy that may not make sense.
-/

namespace SniGate

variable {τ C Der Parsed Anchor Name Time TlsError : Type} {ext : Externals}

/-- `VerifierFactory::get`; of an error the outermost text. -/
def VerifierFactory.get (lib : TlsLib ext Der Parsed Anchor Name Time TlsError)
    (factory : VerifierFactory Anchor) (policy : EffectiveVerify) (scope : Str) :
    Except Str (UpstreamVerify Anchor Name) :=
  (factory.build lib policy).mapError fun _ ↦ scope ++ ": [verify]".toList

section Unchecked

variable {lib : TlsLib ext Der Parsed Anchor Name Time TlsError} {factory : VerifierFactory Anchor}
  {env : StartEnv τ (UpstreamVerify Anchor Name) C} {doc : Document} {parsers : PoolParsers}
  {name : Str} {d : FullResolverDef} {endpoint : Endpoint} {v : VerifyConfig}
  {policy : EffectiveVerify} {built : UpstreamVerify Anchor Name}

theorem anchors_of_build (h : factory.build lib policy = .ok built) (hmode : policy.mode ≠ .none) :
    policy.caFile.isSome ∨ policy.trustWebpki := by
  obtain ⟨_, -, h⟩ := bind_eq_ok.mp h
  obtain ⟨_, -, h⟩ := bind_eq_ok.mp h
  obtain ⟨roots, hroots, -⟩ := bind_eq_ok.mp h
  by_contra hnone
  obtain ⟨hca, htrust⟩ := not_or.mp hnone
  have hca : policy.caFile = none := by simpa using hca
  have hfails : ∃ e, factory.rootsFor lib policy = .error e := by
    rw [VerifierFactory.rootsFor, hca]
    simp [htrust]
  obtain ⟨e, he⟩ := hfails
  rw [VerifierFactory.chainRoots] at hroots
  cases hm : policy.mode with
  | none => exact hmode hm
  | full => simp [hm, he, Except.map] at hroots
  | chain => simp [hm, he, Except.map] at hroots

theorem resolve_none {global : Global} (h : global.verify = some v) :
    let policy := EffectiveVerify.resolve none global
    policy.mode = v.mode.getD .full ∧ policy.caFile = v.caFile ∧
      policy.trustWebpki = v.trustWebpki.getD true := by
  have hfirst {α : Type} (x : Option α) : firstSome [none, x] = x := by
    cases x with
    | none => rfl
    | some a => rfl
  simp [EffectiveVerify.resolve, EffectiveVerify.merge, firstField, h, EffectiveVerify.default,
    hfirst]

theorem verify_eq_none_of_plain (hdoc : doc.validate ext parsers = .ok ())
    (hd : doc.resolvers.lookup name = some d) (hendpoint : Endpoint.parse d.endpoint = .ok endpoint)
    (hplain : endpoint.isTls = false) : d.verify = none := by
  obtain ⟨endpoint', hchecked⟩ := Document.resolverChecked_of_validate hdoc hd
  obtain rfl := Except.ok.inj (hendpoint.symm.trans hchecked.parses)
  have hverify := hchecked.verify
  rw [Document.validateResolverVerify, hplain] at hverify
  simpa using failIf_eq_ok.mp hverify

/-- **A policy without anchors keeps the gateway from starting.** Of an accepted document that says
`trust_webpki = false` in `[global.verify]` and leaves the `ca_file` to the routes, no run builds
the declared resolvers if one of them performs no TLS handshake. -/
theorem startup_refused (henv : env.getVerifier = factory.get lib)
    (hdoc : doc.validate ext parsers = .ok ()) (hd : doc.resolvers.lookup name = some d)
    (hendpoint : Endpoint.parse d.endpoint = .ok endpoint) (hplain : endpoint.isTls = false)
    (hglobal : doc.cfg.global.verify = some v) (htrust : v.trustWebpki = some false)
    (hca : v.caFile = none) (hmode : v.mode ≠ some .none)
    {es : List (Exchange (@StartOp.Answer (BuiltResolver τ (UpstreamVerify Anchor Name))))}
    {x : Except ErrorChain (Registry τ (UpstreamVerify Anchor Name))}
    (hruns : (env.buildNamedResolvers doc).Runs es (.ofExcept x)) : ∃ e, x = .error e := by
  cases x with
  | error e => exact ⟨e, rfl⟩
  | ok registry =>
    exfalso
    obtain ⟨hwired, hfull⟩ := wired_of_runs hruns
    -- every declared resolver has been built, so this one has, and with a verifier
    have hmem : name ∈ registry := (hfull name).mpr (AList.lookup_isSome.mp (hd ▸ rfl))
    obtain ⟨r, hr⟩ := Option.isSome_iff_exists.mp (AList.lookup_isSome.mpr hmem)
    obtain ⟨d', plan, resolver, bytes, hd', -, hplanned⟩ := hwired name r hr
    obtain rfl := Option.some.inj (hd.symm.trans hd')
    have hverifier := hplanned.planned.verify
    rw [henv] at hverifier
    have hbuild := eq_ok_of_mapError hverifier
    have hpolicy : (d.effective name doc.cfg.global).verify =
        EffectiveVerify.resolve none doc.cfg.global := by
      rw [← verify_eq_none_of_plain hdoc hd hendpoint hplain]
      rfl
    rw [hpolicy] at hbuild
    obtain ⟨hmode', hca', htrust'⟩ := resolve_none hglobal
    have hanchors := anchors_of_build hbuild (by
      rw [hmode']
      cases hm : v.mode with
      | none => simp
      | some mode => simpa [hm] using hmode)
    rw [hca', htrust', hca, htrust] at hanchors
    simp at hanchors

end Unchecked

/-! ## A plain resolver -/

/-- A document with one resolver, that speaks plain DNS. -/
private def plainDocument : Document where
  cfg := {
    global := { verify := some { trustWebpki := some false } }
    listeners := [{
      addr := ⟨.v4 0, 443⟩
      routes := [
        { routeType := some .raw, matchSni := ["a.test".toList]
          upstream := some "a.test".toList }] }]
    resolvers := (∅ : Map Str ResolverDef).insert "dns".toList {} }
  resolvers := (∅ : Map Str FullResolverDef).insert "dns".toList { endpoint := "9.9.9.9".toList }
  pools := ∅
  resolvers_eq name := by
    by_cases hdns : name = "dns".toList
    · subst hdns
      rw [AList.lookup_insert, AList.lookup_insert]
      rfl
    · rw [AList.lookup_insert_ne hdns, AList.lookup_insert_ne hdns]
      rfl
  pools_eq _ := rfl

private def noCertificates : TlsLib Externals.refusing Unit Unit Unit Unit Unit Unit where
  serverName _ := none
  isSome_serverName _ := rfl
  parsedCertificate _ := .error ()
  subjectPki _ := none
  sha256 _ := []
  verifyServerCertSignedByTrustAnchor _ _ _ _ := .error ()
  verifyServerName _ _ := .error ()
  readFile _ := .error []
  pemCerts _ := []
  trustAnchor _ := .error []

private def plainStart : StartEnv Unit (UpstreamVerify Unit Unit) Unit where
  base64 _ := .error []
  nameServers := documentedLib
  toSocketAddrs _ _ := .error []
  construct _ := .ok ()
  resolverClientConfig _ _ _ := .ok ()
  getVerifier := VerifierFactory.get noCertificates ⟨[()]⟩
  isDefault _ := true

theorem startup_refused_plain : ∃ es e,
    (plainStart.buildNamedResolvers plainDocument).Runs es (.ofExcept (.error e)) := by
  obtain ⟨es, -, hruns, -⟩ := Contract.runs_converse
    (c := plainStart.wiring plainDocument) (s := ()) oneAddress (fun _ _ ↦ trivial)
    (plainStart.buildNamedResolvers plainDocument) []
  have hvalid : plainDocument.validate .refusing .refusing = .ok () := by decide +kernel
  have hd : plainDocument.resolvers.lookup "dns".toList = some { endpoint := "9.9.9.9".toList } :=
    AList.lookup_insert _
  have hendpoint : Endpoint.parse "9.9.9.9".toList = .ok (.plain "9.9.9.9".toList 53) := by
    decide +kernel
  obtain ⟨e, he⟩ := startup_refused rfl hvalid hd hendpoint rfl rfl rfl rfl (by decide) hruns
  rw [he] at hruns
  exact ⟨es, e, hruns⟩

end SniGate
