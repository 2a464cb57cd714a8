import SniGate.Config.Ladder

/-!
# The upstream certificate verifier

A resolved policy is turned into one verifier, out of three independent parts: pins, trust anchors
and a name. The verifier asks for the part that is there, one after the other, and calls the
library's two checks apart, so that a policy that drops a check does so by leaving a part out
(`verifyServerCert_eq_ok_iff`).

The library's checks and parsers, and the files with trust anchors, are given.

## Design choices

The library's two checks stay parameters (`TlsLib`), together with the parsers it exports, and
nothing is assumed of them but that parsing a name and testing it agree. Dates, algorithms and
revocation are the library's. Pins are compared by digest, and the digest is a function that is
given.
-/

namespace SniGate

/-! ## What is given -/

/-- The TLS library, the X.509 parser, and the files with trust anchors. -/
structure TlsLib (ext : Externals) (Der Parsed Anchor Name Time TlsError : Type) where
  /-- `ServerName::try_from`, the same parse that a policy is checked with. -/
  serverName : Str → Option Name
  isSome_serverName : ∀ s, (serverName s).isSome = ext.serverName s
  /-- `ParsedCertificate::try_from`. -/
  parsedCertificate : Der → Except TlsError Parsed
  /-- The DER of the subject's public key, if the certificate is read. -/
  subjectPki : Der → Option Bytes
  sha256 : Bytes → Bytes
  verifyServerCertSignedByTrustAnchor :
    Parsed → List Anchor → List Der → Time → Except TlsError Unit
  verifyServerName : Parsed → Name → Except TlsError Unit
  readFile : Str → Except Str Bytes
  /-- `rustls_pemfile::certs`. -/
  pemCerts : Bytes → List (Except Str Der)
  /-- What `RootCertStore::add` makes of a certificate. -/
  trustAnchor : Der → Except Str Anchor

/-- Why a certificate is refused. -/
inductive VerifyError (TlsError : Type)
  | tls (e : TlsError)
  | badEncoding
  | pinMismatch (presented : Bytes) (configured : ℕ)
deriving DecidableEq, Repr

/-! ## The verifier -/

/-- Which name the certificate must be valid for. -/
inductive NameCheck (Name : Type)
  /-- The name the connection asked for. -/
  | requested
  | fixed (name : Name)
  | skip
deriving DecidableEq, Repr

/-- The one server-certificate verifier there is. -/
structure UpstreamCertVerifier (Anchor Name : Type) where
  /-- Trust anchors, or none to build no chain at all. -/
  roots : Option (List Anchor)
  name : NameCheck Name
  /-- Accepted digests; empty means no pinning. -/
  pins : List Bytes
deriving DecidableEq, Repr

/-- A built policy. -/
structure UpstreamVerify (Anchor Name : Type) where
  verifier : UpstreamCertVerifier Anchor Name
  isDefault : Bool
  name : Option Str
  label : Str
deriving DecidableEq, Repr

/-- One-line rendering of a policy. -/
def describe (policy : EffectiveVerify) : Str :=
  policy.mode.asStr ++
    (match policy.name with
      | some name => " name=".toList ++ name
      | none => []) ++
    (match policy.pins.length with
      | 0 => []
      | 1 => " +1 pin".toList
      | n => " +".toList ++ decimal n ++ " pins".toList) ++
    match policy.caFile with
    | some path => " ca_file=".toList ++ path ++ if policy.trustWebpki then [] else " (only)".toList
    | none => []

section Build

variable {Der Parsed Anchor Name Time TlsError : Type} {ext : Externals}
  (lib : TlsLib ext Der Parsed Anchor Name Time TlsError)

/-- SHA-256 over the certificate's subject public key info. -/
def spkiSha256 (cert : Der) : Except (VerifyError TlsError) Bytes :=
  match lib.subjectPki cert with
  | some raw => .ok (lib.sha256 raw)
  | none => .error .badEncoding

namespace UpstreamCertVerifier

variable (v : UpstreamCertVerifier Anchor Name) (endEntity : Der) (cert : Parsed)
  (intermediates : List Der) (serverName : Name) (now : Time)

/-- Pinning: an additional requirement in every mode, never a substitute. -/
def checkPins : Except (VerifyError TlsError) Unit :=
  if v.pins = [] then .ok ()
  else
    match spkiSha256 lib endEntity with
    | .error e => .error e
    | .ok presented =>
      if presented ∈ v.pins then .ok () else .error (.pinMismatch presented v.pins.length)

/-- The chain, where there are anchors to build one to. -/
def checkChain : Except (VerifyError TlsError) Unit :=
  match v.roots with
  | some roots =>
    (lib.verifyServerCertSignedByTrustAnchor cert roots intermediates now).mapError .tls
  | none => .ok ()

/-- The name, where one is checked. -/
def checkName : Except (VerifyError TlsError) Unit :=
  match v.name with
  | .requested => (lib.verifyServerName cert serverName).mapError .tls
  | .fixed name => (lib.verifyServerName cert name).mapError .tls
  | .skip => .ok ()

/-- `UpstreamCertVerifier::verify_server_cert`. -/
def verifyServerCert : Except (VerifyError TlsError) Unit := do
  let cert ← (lib.parsedCertificate endEntity).mapError .tls
  v.checkPins lib endEntity
  v.checkChain lib cert intermediates now
  v.checkName lib cert serverName

end UpstreamCertVerifier

/-! ## Building it -/

/-- Read the pins, each distinct one once. -/
def buildPins (ext : Externals) : List Bytes → List Str → Except Str (List Bytes)
  | pins, [] => .ok pins
  | pins, pin :: rest =>
    match parseSpkiPin ext pin with
    | .error e => .error e
    | .ok parsed => buildPins ext (if parsed ∈ pins then pins else pins ++ [parsed]) rest

/-- The loop of `add_anchors`. -/
def addCerts (path : Str) : List Anchor → List (Except Str Der) → Except Str (List Anchor)
  | store, [] => .ok store
  | _, .error e :: _ =>
    .error ("reading PEM certificates from \x60ca_file\x60 ".toList ++ path ++ ": ".toList ++ e)
  | store, .ok cert :: rest =>
    match lib.trustAnchor cert with
    | .error e => .error ("adding a trust anchor from ".toList ++ path ++ ": ".toList ++ e)
    | .ok anchor => addCerts path (store ++ [anchor]) rest

/-- Add every certificate in a PEM bundle as a trust anchor. -/
def addAnchors (path : Str) (store : List Anchor) : Except Str (List Anchor) :=
  match lib.readFile path with
  | .error e => .error ("reading \x60ca_file\x60 ".toList ++ path ++ ": ".toList ++ e)
  | .ok pem =>
    match addCerts lib path store (lib.pemCerts pem) with
    | .error e => .error e
    | .ok out =>
      if (lib.pemCerts pem).length = 0 then
        .error ("\x60ca_file\x60 ".toList ++ path ++ " contains no PEM certificates".toList)
      else .ok out

/-- Builds verifiers, over the web-PKI anchors. -/
structure VerifierFactory (Anchor : Type) where
  webpki : List Anchor
deriving DecidableEq, Repr

namespace VerifierFactory

variable (factory : VerifierFactory Anchor) (policy : EffectiveVerify)

/-- The trust anchors for a chain-building policy. -/
def rootsFor : Except Str (List Anchor) :=
  match policy.caFile with
  | none =>
    if policy.trustWebpki then .ok factory.webpki
    else
      .error ("\x60trust_webpki = false\x60 leaves no trust anchors at all; supply a ".toList ++
        "\x60ca_file\x60, or keep the web-PKI roots".toList)
  | some path => addAnchors lib path (if policy.trustWebpki then factory.webpki else [])

/-- The name check of a policy. -/
def nameCheck : Except Str (NameCheck Name) :=
  match policy.name, policy.mode with
  | some name, .full =>
    match lib.serverName name with
    | some fixed => .ok (.fixed fixed)
    | none =>
      .error ("\x60name\x60 ".toList ++ debugStr name ++ " is not a valid DNS name or IP".toList)
  | none, .full => .ok .requested
  | _, .chain | _, .none => .ok .skip

/-- The roots, for the modes that build a chain. -/
def chainRoots : Except Str (Option (List Anchor)) :=
  match policy.mode with
  | .none => .ok none
  | .full | .chain => (factory.rootsFor lib policy).map some

/-- `VerifierFactory::build`. -/
def build : Except Str (UpstreamVerify Anchor Name) := do
  let pins ← buildPins ext [] policy.pins
  let name ← nameCheck lib policy
  let roots ← factory.chainRoots lib policy
  return {
    verifier := { roots, name, pins }
    isDefault := policy = EffectiveVerify.default
    name := policy.name
    label := describe policy }

end VerifierFactory

end Build

/-! ## What is accepted -/

section Accepted

variable {Der Parsed Anchor Name Time TlsError : Type} {ext : Externals}
  {lib : TlsLib ext Der Parsed Anchor Name Time TlsError}

/-- The name a check asks for, when a connection asked for `serverName`. -/
def NameCheck.asked (check : NameCheck Name) (serverName : Name) : Option Name :=
  match check with
  | .requested => some serverName
  | .fixed name => some name
  | .skip => none

variable {v : UpstreamCertVerifier Anchor Name} {endEntity : Der} {cert : Parsed}
  {intermediates : List Der} {serverName : Name} {now : Time}

theorem mapError_eq_ok_iff {ε ε' α : Type} {x : Except ε α} {f : ε → ε'} {a : α} :
    x.mapError f = .ok a ↔ x = .ok a :=
  ⟨eq_ok_of_mapError, fun h ↦ by rw [h]; rfl⟩

theorem checkPins_eq_ok_iff : v.checkPins lib endEntity = .ok () ↔
    (v.pins ≠ [] → ∃ raw, lib.subjectPki endEntity = some raw ∧ lib.sha256 raw ∈ v.pins) := by
  rw [UpstreamCertVerifier.checkPins, spkiSha256]
  split_ifs with hpins
  · exact iff_of_true rfl fun h ↦ absurd hpins h
  · cases lib.subjectPki endEntity with
    | none => simp [hpins]
    | some raw => simp [hpins]

theorem checkChain_eq_ok_iff : v.checkChain lib cert intermediates now = .ok () ↔
    ∀ roots ∈ v.roots,
      lib.verifyServerCertSignedByTrustAnchor cert roots intermediates now = .ok () := by
  rw [UpstreamCertVerifier.checkChain]
  cases v.roots with
  | none => simp
  | some roots => simp [mapError_eq_ok_iff]

theorem checkName_eq_ok_iff : v.checkName lib cert serverName = .ok () ↔
    ∀ name ∈ v.name.asked serverName, lib.verifyServerName cert name = .ok () := by
  rw [UpstreamCertVerifier.checkName]
  cases v.name with
  | requested => simp [NameCheck.asked, mapError_eq_ok_iff]
  | fixed name => simp [NameCheck.asked, mapError_eq_ok_iff]
  | skip => simp [NameCheck.asked]

/-- **The verifier** asks for the parts it has. -/
theorem verifyServerCert_eq_ok_iff :
    v.verifyServerCert lib endEntity intermediates serverName now = .ok () ↔
      ∃ cert, lib.parsedCertificate endEntity = .ok cert ∧
        (v.pins ≠ [] → ∃ raw, lib.subjectPki endEntity = some raw ∧ lib.sha256 raw ∈ v.pins) ∧
        (∀ roots ∈ v.roots,
          lib.verifyServerCertSignedByTrustAnchor cert roots intermediates now = .ok ()) ∧
        ∀ name ∈ v.name.asked serverName, lib.verifyServerName cert name = .ok () := by
  rw [UpstreamCertVerifier.verifyServerCert, bind_eq_ok]
  refine exists_congr fun cert ↦ and_congr mapError_eq_ok_iff ?_
  rw [bind_eq_ok, ← checkPins_eq_ok_iff, ← checkChain_eq_ok_iff, ← checkName_eq_ok_iff]
  constructor
  · rintro ⟨_, hpins, h⟩
    obtain ⟨_, hchain, hname⟩ := bind_eq_ok.mp h
    exact ⟨hpins, hchain, hname⟩
  · rintro ⟨hpins, hchain, hname⟩
    exact ⟨(), hpins, bind_eq_ok.mpr ⟨(), hchain, hname⟩⟩

/-! ### Pins -/

variable {pins out : List Bytes} {texts : List Str}

theorem mem_of_buildPins (h : buildPins ext pins texts = .ok out) (digest : Bytes) :
    digest ∈ out ↔ digest ∈ pins ∨ ∃ pin ∈ texts, parseSpkiPin ext pin = .ok digest := by
  induction texts generalizing pins with
  | nil =>
    obtain rfl := Except.ok.inj h
    simp
  | cons pin texts ih =>
    rw [buildPins] at h
    cases hparse : parseSpkiPin ext pin with
    | error e =>
      rw [hparse] at h
      exact absurd h nofun
    | ok parsed =>
      rw [hparse] at h
      have hadded : digest ∈ (if parsed ∈ pins then pins else pins ++ [parsed]) ↔
          digest ∈ pins ∨ parsed = digest := by
        split_ifs with hmem
        · exact ⟨.inl, fun h ↦ h.elim id fun heq ↦ heq ▸ hmem⟩
        · simp [eq_comm]
      rw [ih h, hadded]
      simp [hparse, or_assoc]

theorem exists_buildPins (pins : List Bytes)
    (h : ∀ pin ∈ texts, ∃ raw, parseSpkiPin ext pin = .ok raw) :
    ∃ out, buildPins ext pins texts = .ok out := by
  induction texts generalizing pins with
  | nil => exact ⟨pins, rfl⟩
  | cons pin texts ih =>
    obtain ⟨parsed, hparse⟩ := h pin List.mem_cons_self
    rw [buildPins, hparse]
    exact ih _ fun pin' hpin ↦ h pin' (List.mem_cons_of_mem _ hpin)

theorem buildPins_ne_nil_iff (h : buildPins ext [] texts = .ok out) : out ≠ [] ↔ texts ≠ [] := by
  cases texts with
  | nil =>
    obtain rfl := Except.ok.inj h
    simp
  | cons pin texts =>
    refine iff_of_true ?_ (List.cons_ne_nil _ _)
    cases hparse : parseSpkiPin ext pin with
    | error e =>
      rw [buildPins, hparse] at h
      exact absurd h nofun
    | ok parsed =>
      exact List.ne_nil_of_mem
        ((mem_of_buildPins h parsed).mpr (.inr ⟨pin, List.mem_cons_self, hparse⟩))

/-! ### Trust anchors -/

theorem addCerts_eq (path : Str) (store : List Anchor) (certs : List (Except Str Der)) :
    addCerts lib path store certs = (addCerts lib path [] certs).map (store ++ ·) := by
  induction certs generalizing store with
  | nil => simp [addCerts, Except.map]
  | cons cert certs ih =>
    cases cert with
    | error e => rfl
    | ok cert =>
      rw [addCerts, addCerts]
      cases lib.trustAnchor cert with
      | error e => rfl
      | ok anchor =>
        dsimp only
        rw [ih, List.nil_append, ih [anchor]]
        cases addCerts lib path [] certs with
        | error e => rfl
        | ok anchors => simp [Except.map]

theorem addAnchors_eq (path : Str) (store : List Anchor) :
    addAnchors lib path store = (addAnchors lib path []).map (store ++ ·) := by
  unfold addAnchors
  cases lib.readFile path with
  | error e => rfl
  | ok pem =>
    dsimp only
    rw [addCerts_eq]
    cases addCerts lib path [] (lib.pemCerts pem) with
    | error e => rfl
    | ok anchors =>
      dsimp only [Except.map]
      split_ifs
      · rfl
      · rfl

/-- The anchors of the bundle that a policy names. -/
def caAnchors (lib : TlsLib ext Der Parsed Anchor Name Time TlsError) (policy : EffectiveVerify) :
    Except Str (List Anchor) :=
  match policy.caFile with
  | some path => addAnchors lib path []
  | none => .ok []

variable {factory : VerifierFactory Anchor} {policy : EffectiveVerify}

/-- The roots of a policy that has some: the web-PKI ones if it trusts them, and the bundle's. -/
theorem rootsFor_eq (h : policy.trustWebpki ∨ policy.caFile ≠ none) :
    factory.rootsFor lib policy = (caAnchors lib policy).map
      ((if policy.trustWebpki then factory.webpki else []) ++ ·) := by
  rw [VerifierFactory.rootsFor, caAnchors]
  cases hca : policy.caFile with
  | none =>
    have htrust : policy.trustWebpki = true := h.resolve_right fun hne ↦ hne hca
    simp [htrust, Except.map]
  | some path => exact addAnchors_eq path _

end Accepted

end SniGate
