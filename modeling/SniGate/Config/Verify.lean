import SniGate.Config.Types
import SniGate.Text.Sorted

/-!
# Upstream verification policies

What an upstream certificate must prove is resolved field by field from the scopes of a route, and
checked twice: the syntax of each block where it is written, the coherence of the fields once they
are resolved. The resolved policy renders itself for the certificate scope.
-/

namespace SniGate

/-- The fully-resolved verification policy. -/
@[ext]
structure EffectiveVerify where
  mode : VerifyMode
  name : Option Str
  pins : List Str
  caFile : Option Str
  trustWebpki : Bool
deriving DecidableEq, Repr

/-- Full verification against the web-PKI roots. -/
def EffectiveVerify.default : EffectiveVerify :=
  { mode := .full, name := none, pins := [], caFile := none, trustWebpki := true }

def spkiPinPrefix : Str := "sha256/".toList

/-- Parse a pin into the 32 raw digest bytes, or say why it is none. -/
def parseSpkiPin (ext : Externals) (pin : Str) : Except Str Bytes :=
  let pin := trim pin
  match stripStart spkiPinPrefix pin with
  | none =>
    .error ("pin ".toList ++ debugStr pin ++ " must be written ".toList ++ spkiPinPrefix ++
      "<base64 of the SHA-256 digest of the certificate's DER SubjectPublicKeyInfo>".toList)
  | some body =>
    match ext.base64 (trim body) with
    | .error e => .error ("pin ".toList ++ debugStr pin ++ " is not valid base64: ".toList ++ e)
    | .ok raw =>
      if raw.length = 32 then .ok raw
      else
        .error ("pin ".toList ++ debugStr pin ++ " decodes to ".toList ++ decimal raw.length ++
          " bytes; a SHA-256 pin is 32".toList)

namespace EffectiveVerify

/-- Merge the ladder, deepest tier first: `name` comes from the scopes that choose the upstream
only, every other field from the outer ones as well. -/
def merge (own outer : List (Option VerifyConfig)) : EffectiveVerify :=
  let all := own ++ outer
  { mode := (firstField all VerifyConfig.mode).getD EffectiveVerify.default.mode
    name := firstField own VerifyConfig.name
    pins := (firstField all VerifyConfig.pins).getD EffectiveVerify.default.pins
    caFile := firstField all VerifyConfig.caFile
    trustWebpki :=
      (firstField all VerifyConfig.trustWebpki).getD EffectiveVerify.default.trustWebpki }

end EffectiveVerify

/-- Order-stable rendering of the whole policy: the pins are a set, so they are sorted. -/
def EffectiveVerify.canonical (v : EffectiveVerify) : Str :=
  "mode:".toList ++ (v.mode.asStr ++ (",name:".toList ++ (v.name.getD ['-'] ++
    (",pins:[".toList ++ (join [','] (sortTexts v.pins) ++ ("],ca:".toList ++
      (v.caFile.getD ['-'] ++ (",webpki:".toList ++ boolText v.trustWebpki))))))))

/-! ## Checks -/

/-- A field the resolved mode cannot act on. -/
def verifyMeaningless (scope field mode why : Str) : Except ConfigError Unit :=
  refuse [scope, " [verify]: \x60".toList, field, "\x60 is meaningless with mode = \"".toList, mode,
    "\" (".toList, why, ")".toList]

def checkVerifyName (ext : Externals) (scope : Str) (name : Option Str) : Except ConfigError Unit :=
  match name with
  | none => .ok ()
  | some name =>
    if trim name = [] then
      refuse [scope, " [verify]: \x60name\x60, when set, must not be empty (omit it to verify against ".toList,
        "the name the route requested)".toList]
    else if ext.serverName name then .ok ()
    else
      refuse [scope, " [verify]: \x60name\x60 ".toList, debugStr name,
        " is not a valid DNS name or IP address".toList]

def checkVerifyPins (ext : Externals) (scope : Str) (pins : List Str) : Except ConfigError Unit :=
  pins.forM fun pin ↦
    match parseSpkiPin ext pin with
    | .ok _ => .ok ()
    | .error e => refuse [scope, " [verify]: ".toList, e]

def checkVerifyCaFile (scope : Str) (caFile : Option Str) : Except ConfigError Unit :=
  refuseIf (caFile = some [])
    [scope, " [verify]: \x60ca_file\x60, when set, must be a path".toList]

/-- Syntax of the values written in one block. -/
def VerifyConfig.validateSyntax (ext : Externals) (scope : Str) (v : VerifyConfig) :
    Except ConfigError Unit := do
  checkVerifyName ext scope v.name
  checkVerifyPins ext scope (v.pins.getD [])
  checkVerifyCaFile scope v.caFile

/-- Refuse a `name` written in a scope that spans destinations. -/
def VerifyConfig.rejectName (scope : Str) (v : VerifyConfig) : Except ConfigError Unit :=
  refuseIf v.name.isSome
    [scope, " [verify]: \x60name\x60 states which certificate one specific upstream serves, so ".toList,
      "it belongs on the route that dials it (or on the template that route uses), not on a scope ".toList,
      "that spans several upstreams".toList]

/-- Coherence of the fields of a resolved policy. -/
def EffectiveVerify.validateCoherence (scope : Str) (v : EffectiveVerify) :
    Except ConfigError Unit := do
  let mode := v.mode.asStr
  if v.mode ≠ .full ∧ v.name.isSome then
    verifyMeaningless scope "name".toList mode
      "no name is checked in this mode; use mode = \"full\" to verify against it".toList
  if v.mode = .none then
    if v.caFile.isSome then
      verifyMeaningless scope "ca_file".toList mode
        ("no chain is built in this mode; use mode = \"chain\" to keep verifying the chain ".toList ++
        "without the name".toList)
    if !v.trustWebpki then
      verifyMeaningless scope "trust_webpki".toList mode
        "no chain is built in this mode, so there is nothing to trust".toList
    return ()
  if !v.trustWebpki ∧ v.caFile.isNone then
    refuse [scope, " [verify]: \x60trust_webpki = false\x60 leaves no trust anchors at all; supply a ".toList,
      "\x60ca_file\x60, or keep the web-PKI roots".toList]

/-- Syntax and coherence of a resolved policy. -/
def EffectiveVerify.validate (ext : Externals) (scope : Str) (v : EffectiveVerify) :
    Except ConfigError Unit := do
  checkVerifyName ext scope v.name
  checkVerifyPins ext scope v.pins
  checkVerifyCaFile scope v.caFile
  v.validateCoherence scope

/-! ## What an accepted policy consists of -/

/-- What the parsers outside accept: a server name is a DNS name or an IP address, and a base64 text
consists of its alphabet and padding. -/
structure Externals.Sound (ext : Externals) : Prop where
  serverName : ∀ s, ext.serverName s →
    s.head? ≠ some '-' ∧ ∀ c ∈ s, isAsciiAlphanumeric c ∨ c ∈ "-._:".toList
  base64 : ∀ s raw, ext.base64 s = .ok raw → ∀ c ∈ s, isAsciiAlphanumeric c ∨ c ∈ "+/=".toList

theorem Externals.refusing_sound : Externals.refusing.Sound :=
  ⟨fun _ h ↦ absurd h (by simp [refusing]), fun _ _ h ↦ absurd h (by simp [refusing])⟩

/-- Reading a text of the base64 alphabet character by character. -/
theorem base64_chars_of_all {s : Str}
    (h : s.all fun c ↦ isAsciiAlphanumeric c || "+/=".toList.contains c) :
    ∀ c ∈ s, isAsciiAlphanumeric c ∨ c ∈ "+/=".toList := by
  intro c hc
  have hc := List.all_eq_true.mp h c hc
  rwa [Bool.or_eq_true, List.contains_iff_mem] at hc

/-- A policy whose name and pins passed their checks. -/
structure EffectiveVerify.Checked (ext : Externals) (v : EffectiveVerify) : Prop where
  name : ∀ n, v.name = some n → ext.serverName n
  pins : ∀ pin ∈ v.pins, ∃ raw, parseSpkiPin ext pin = .ok raw

theorem EffectiveVerify.checked_of_validate {ext : Externals} {scope : Str} {v : EffectiveVerify}
    (h : v.validate ext scope = .ok ()) : v.Checked ext := by
  obtain ⟨_, hname, h⟩ := bind_eq_ok.mp h
  obtain ⟨_, hpins, -⟩ := bind_eq_ok.mp h
  refine ⟨fun n hn ↦ ?_, fun pin hpin ↦ ?_⟩
  · rw [hn] at hname
    simp only [checkVerifyName] at hname
    split_ifs at hname with _ hserver
    · exact absurd hname (by simp [refuse])
    · exact hserver
    · exact absurd hname (by simp [refuse])
  · have hcheck := forM_eq_ok.mp hpins pin hpin
    cases hparse : parseSpkiPin ext pin with
    | ok raw => exact ⟨raw, rfl⟩
    | error e =>
      rw [hparse] at hcheck
      exact absurd hcheck (by simp [refuse])

theorem EffectiveVerify.checked_default {ext : Externals} :
    EffectiveVerify.default.Checked ext :=
  ⟨fun _ hn ↦ absurd hn (by simp [EffectiveVerify.default]),
    fun _ hp ↦ absurd hp (by simp [EffectiveVerify.default])⟩

section Characters

variable {ext : Externals} {pin : Str} {raw : Bytes} {c : Char}

theorem pin_chars (hext : ext.Sound) (h : parseSpkiPin ext pin = .ok raw) (hc : c ∈ pin) :
    isWhitespace c ∨ isAsciiAlphanumeric c ∨ c ∈ "+/=".toList := by
  rcases isWhitespace_or_mem_trim hc with hw | hc
  · exact .inl hw
  unfold parseSpkiPin at h
  cases hstrip : stripStart spkiPinPrefix (trim pin) with
  | none =>
    simp only [hstrip] at h
    exact absurd h (by simp)
  | some body =>
    simp only [hstrip] at h
    rw [← stripStart_eq_some.mp hstrip] at hc
    rcases List.mem_append.mp hc with hc | hc
    · exact .inr (base64_chars_of_all (s := spkiPinPrefix) (by decide) c hc)
    rcases isWhitespace_or_mem_trim hc with hw | hc
    · exact .inl hw
    cases hbase : ext.base64 (trim body) with
    | error e =>
      simp only [hbase] at h
      exact absurd h (by simp)
    | ok raw' => exact .inr (hext.base64 _ raw' hbase c hc)

theorem pin_ne_nil (h : parseSpkiPin ext pin = .ok raw) : pin ≠ [] := by
  rintro rfl
  have hnone : stripStart spkiPinPrefix (trim []) = none := by decide
  unfold parseSpkiPin at h
  simp only [hnone] at h
  exact absurd h (by simp)

theorem notMem_pin (hext : ext.Sound) (h : parseSpkiPin ext pin = .ok raw) :
    ',' ∉ pin ∧ ']' ∉ pin :=
  ⟨fun hc ↦ absurd (pin_chars hext h hc) (by decide),
    fun hc ↦ absurd (pin_chars hext h hc) (by decide)⟩

/-- A checked name can be told from its placeholder, and from what follows it. -/
theorem EffectiveVerify.Checked.name_toldApart {v w : EffectiveVerify} (hext : ext.Sound)
    (hv : v.Checked ext) (hw : w.Checked ext) : ToldApart ['-'] ",pins:[".toList v.name w.name := by
  have hcomma : ∀ {u : EffectiveVerify}, u.Checked ext → ',' ∉ u.name.getD ['-'] := by
    intro u hu
    cases hn : u.name with
    | none => decide
    | some n => exact fun hc ↦ absurd ((hext.serverName n (hu.name n hn)).2 _ hc) (by decide)
  have hdash : ∀ {u : EffectiveVerify}, u.Checked ext → u.name ≠ some ['-'] := fun hu hn ↦
    (hext.serverName _ (hu.name _ hn)).1 rfl
  refine ⟨apart_of_head rfl (hcomma hv) (hcomma hw), fun heq ↦ ?_⟩
  cases hn : v.name with
  | none =>
    cases hm : w.name with
    | none => rfl
    | some m =>
      rw [hn, hm] at heq
      exact absurd (hm.trans (congrArg some heq.symm)) (hdash hw)
  | some n =>
    cases hm : w.name with
    | none =>
      rw [hn, hm] at heq
      exact absurd (hn.trans (congrArg some heq)) (hdash hv)
    | some m =>
      rw [hn, hm] at heq
      exact congrArg some heq

end Characters

end SniGate
