import SniGate.Config.Resolve

/-!
# ECH sources

A provider obtains the ECHConfigList of an `ech` route from the HTTPS record of a name, from the
inline value of the configuration, or from the first with the second as a fallback. What it obtains
depends on its mode, its resolver, the name it looks up and the decoded inline value, and on nothing
else (`EchProvider.SameSource`): for each of these there are DNS answers under which a difference
shows (`sameBytes_iff`).

DNS is a function from a resolver and a name to the answers; caching is left out.
-/

namespace SniGate

/-! ## Answers -/

/-- A service parameter of an HTTPS record. -/
inductive SvcParamValue
  | echConfigList (bytes : Bytes)
  | other
deriving DecidableEq, Repr

/-- The data of a DNS record. -/
inductive RData
  | https (svcParams : List SvcParamValue)
  | other
deriving DecidableEq, Repr

/-- A DNS record; its lifetime is in seconds. -/
structure DnsRecord where
  ttl : ℕ
  data : RData
deriving DecidableEq, Repr

/-- What each resolver answers for the HTTPS records of each name, or an error text. -/
abbrev Dns (ρ : Type) := ρ → Str → Except Str (List DnsRecord)

/-- The first ECHConfigList of a record. -/
def DnsRecord.echConfigList (r : DnsRecord) : Option Bytes :=
  match r.data with
  | .https params =>
    params.findSome? fun
      | .echConfigList bytes => some bytes
      | .other => none
  | .other => none

/-! ## Providers -/

/-- Why no ECHConfigList was obtained, or no configuration assembled. -/
inductive EchError
  | noRecord (name : Str)
  | lookup (name source : Str)
  | base64 (source : Str)
  | noCompatibleConfig
  | rustls (source : Str)
deriving DecidableEq, Repr

/-- The ECH source of one route; `ρ` is the type of resolvers. -/
structure EchProvider (ρ : Type) where
  settings : EffectiveEch
  /-- Fixed upstream port, for port-prefixed lookups. -/
  upstreamPort : UInt16
  resolver : ρ
deriving DecidableEq, Repr

/-- The name whose HTTPS record describes a service on a port. -/
def httpsLookupName (base : Str) (port : UInt16) : Str :=
  if port = 443 then base else '_' :: (decimal port.toNat ++ "._https.".toList ++ base)

/-- Decode a base64 ECHConfigList. -/
def decodeEchB64 (base64 : Str → Except Str Bytes) (s : Str) : Except EchError Bytes :=
  (base64 (trim s)).mapError .base64

namespace EchProvider

variable {ρ : Type} (p : EchProvider ρ)

/-- The DNS name whose HTTPS record carries the ECHConfigList. -/
def lookupName (innerName : Str) : Str :=
  httpsLookupName (p.settings.echDomain.getD innerName) p.upstreamPort

/-- The first ECHConfigList published for the looked-up name, with its lifetime. -/
def lookupDoh (dns : Dns ρ) (innerName : Str) : Except EchError (Option (Bytes × ℕ)) :=
  match dns p.resolver (p.lookupName innerName) with
  | .error e => .error (.lookup (p.lookupName innerName) e)
  | .ok answers => .ok (answers.findSome? fun r ↦ r.echConfigList.map fun bytes ↦ (bytes, r.ttl))

/-- The inline ECHConfigList. -/
def inlineConfig (base64 : Str → Except Str Bytes) : Except EchError Bytes :=
  match p.settings.config with
  | none => .error .noCompatibleConfig
  | some cfg => decodeEchB64 base64 cfg

/-- `EchProvider::acquire_config_list`: an ECHConfigList, if there is one, with its lifetime. -/
def acquireConfigList (base64 : Str → Except Str Bytes) (dns : Dns ρ) (innerName : Str) :
    Except EchError (Option Bytes × Option ℕ) :=
  match p.settings.mode with
  | .static => (p.inlineConfig base64).map fun bytes ↦ (some bytes, none)
  | .doh =>
    match p.lookupDoh dns innerName with
    | .ok (some (bytes, ttl)) => .ok (some bytes, some ttl)
    | .ok none => .ok (none, none)
    | .error e => .error e
  | .dohWithFallback =>
    match p.lookupDoh dns innerName with
    | .ok (some (bytes, ttl)) => .ok (some bytes, some ttl)
    | _ => (p.inlineConfig base64).map fun bytes ↦ (some bytes, none)

/-- The bytes obtained for an inner name, if it did not come to an error. -/
def acquiredBytes (base64 : Str → Except Str Bytes) (dns : Dns ρ) (innerName : Str) :
    Option (Option Bytes) :=
  ((p.acquireConfigList base64 dns innerName).toOption).map Prod.fst

/-! ## What the bytes depend on -/

/-- Two providers with one source: the same mode, the same answers where DNS is asked, and the same
decoded inline value where one is used. -/
def SameSource (base64 : Str → Except Str Bytes) (p q : EchProvider ρ) : Prop :=
  p.settings.mode = q.settings.mode ∧
    (p.settings.mode ≠ .static →
      p.resolver = q.resolver ∧ ∀ innerName, p.lookupName innerName = q.lookupName innerName) ∧
    (p.settings.mode ≠ .doh →
      (p.inlineConfig base64).toOption = (q.inlineConfig base64).toOption)

/-- Every lookup fails. -/
def deafDns : Dns ρ := fun _ _ ↦ .error []

/-- Nothing is published. -/
def silentDns : Dns ρ := fun _ _ ↦ .ok []

/-- One name of one resolver publishes `bytes`; no other publishes anything. -/
def publishes [DecidableEq ρ] (resolver : ρ) (name : Str) (bytes : Bytes) : Dns ρ :=
  fun r n ↦ if r = resolver ∧ n = name then .ok [⟨0, .https [.echConfigList bytes]⟩] else .ok []

section Bytes

variable {base64 : Str → Except Str Bytes} {dns : Dns ρ} {innerName : Str} {p q : EchProvider ρ}

theorem toOption_map_inline {x : Except EchError Bytes} :
    ((x.map fun bytes ↦ (some bytes, (none : Option ℕ))).toOption).map Prod.fst =
      x.toOption.map some := by
  cases x <;> rfl

theorem acquiredBytes_of_static (h : p.settings.mode = .static) :
    p.acquiredBytes base64 dns innerName = (p.inlineConfig base64).toOption.map some := by
  rw [acquiredBytes, acquireConfigList, h]
  exact toOption_map_inline

theorem acquiredBytes_of_doh (h : p.settings.mode = .doh) :
    p.acquiredBytes base64 dns innerName =
      (p.lookupDoh dns innerName).toOption.map (Option.map Prod.fst) := by
  rw [acquiredBytes, acquireConfigList, h]
  rcases p.lookupDoh dns innerName with e | _ | ⟨bytes, ttl⟩ <;> rfl

theorem acquiredBytes_of_fallback (h : p.settings.mode = .dohWithFallback) :
    p.acquiredBytes base64 dns innerName =
      match (p.lookupDoh dns innerName).toOption.join with
      | some published => some (some published.1)
      | none => (p.inlineConfig base64).toOption.map some := by
  rw [acquiredBytes, acquireConfigList, h]
  rcases p.lookupDoh dns innerName with e | _ | ⟨bytes, ttl⟩
  · exact toOption_map_inline
  · exact toOption_map_inline
  · rfl

theorem lookupDoh_deafDns : (p.lookupDoh deafDns innerName).toOption = none := rfl

theorem lookupDoh_publishes_self [DecidableEq ρ] {bytes : Bytes} :
    (p.lookupDoh (publishes p.resolver (p.lookupName innerName) bytes) innerName).toOption =
      some (some (bytes, 0)) := by
  rw [lookupDoh, publishes, if_pos ⟨rfl, rfl⟩]
  rfl

theorem lookupDoh_publishes_other [DecidableEq ρ] {resolver : ρ} {name : Str} {bytes : Bytes}
    (h : ¬(p.resolver = resolver ∧ p.lookupName innerName = name)) :
    (p.lookupDoh (publishes resolver name bytes) innerName).toOption = some none := by
  rw [lookupDoh, publishes, if_neg h]
  rfl

theorem lookupDoh_congr (hr : p.resolver = q.resolver)
    (hn : ∀ innerName, p.lookupName innerName = q.lookupName innerName) :
    p.lookupDoh dns innerName = q.lookupDoh dns innerName := by
  rw [lookupDoh, lookupDoh, hr, hn]

theorem acquiredBytes_of_sameSource (h : SameSource base64 p q) :
    p.acquiredBytes base64 dns innerName = q.acquiredBytes base64 dns innerName := by
  obtain ⟨hmode, hdns, hinline⟩ := h
  cases hm : p.settings.mode with
  | static =>
    rw [acquiredBytes_of_static hm, acquiredBytes_of_static (hmode ▸ hm),
      hinline (by simp [hm])]
  | doh =>
    obtain ⟨hr, hn⟩ := hdns (by simp [hm])
    rw [acquiredBytes_of_doh hm, acquiredBytes_of_doh (hmode ▸ hm), lookupDoh_congr hr hn]
  | dohWithFallback =>
    obtain ⟨hr, hn⟩ := hdns (by simp [hm])
    rw [acquiredBytes_of_fallback hm, acquiredBytes_of_fallback (hmode ▸ hm),
      lookupDoh_congr hr hn, hinline (by simp [hm])]

/-- What is published where a provider looks is what it yields. -/
theorem acquiredBytes_publishes_self [DecidableEq ρ] {bytes : Bytes}
    (h : p.settings.mode ≠ .static) :
    p.acquiredBytes base64 (publishes p.resolver (p.lookupName innerName) bytes) innerName =
      some (some bytes) := by
  cases hm : p.settings.mode with
  | static => exact absurd hm h
  | doh =>
    rw [acquiredBytes_of_doh hm, lookupDoh_publishes_self]
    rfl
  | dohWithFallback =>
    rw [acquiredBytes_of_fallback hm, lookupDoh_publishes_self]
    rfl

theorem exists_ne_inline (x : Except EchError Bytes) :
    ∃ bytes, x.toOption.map some ≠ some (some bytes) := by
  cases x with
  | error e => exact ⟨[], by simp [Except.toOption]⟩
  | ok b => exact ⟨0 :: b, by simp [Except.toOption]⟩

theorem mode_eq_of_acquiredBytes
    (h : ∀ dns innerName,
      p.acquiredBytes base64 dns innerName = q.acquiredBytes base64 dns innerName) :
    p.settings.mode = q.settings.mode := by
  classical
  -- a static source does not react to DNS
  have hstatic : ∀ {a b : EchProvider ρ}, (∀ dns innerName,
      a.acquiredBytes base64 dns innerName = b.acquiredBytes base64 dns innerName) →
      a.settings.mode = .static → b.settings.mode = .static := by
    intro a b hab ha
    by_contra hb
    obtain ⟨bytes, hne⟩ := exists_ne_inline (a.inlineConfig base64)
    have hb' := hab (publishes b.resolver (b.lookupName []) bytes) []
    rw [acquiredBytes_of_static ha, acquiredBytes_publishes_self hb] at hb'
    exact hne hb'
  -- and a fallback never comes up empty
  have hdoh : ∀ {a b : EchProvider ρ}, (∀ dns innerName,
      a.acquiredBytes base64 dns innerName = b.acquiredBytes base64 dns innerName) →
      a.settings.mode = .doh → b.settings.mode ≠ .dohWithFallback := by
    intro a b hab ha hb
    have hsilent := hab silentDns []
    rw [acquiredBytes_of_doh ha, acquiredBytes_of_fallback hb] at hsilent
    generalize (b.inlineConfig base64).toOption = inline at hsilent
    cases inline <;> simp [lookupDoh, silentDns, Except.toOption] at hsilent
  have h' := fun dns innerName ↦ (h dns innerName).symm
  cases hp : p.settings.mode with
  | static => exact (hstatic h hp).symm
  | doh =>
    cases hq : q.settings.mode with
    | static => exact absurd (hstatic h' hq) (by simp [hp])
    | doh => rfl
    | dohWithFallback => exact absurd hq (hdoh h hp)
  | dohWithFallback =>
    cases hq : q.settings.mode with
    | static => exact absurd (hstatic h' hq) (by simp [hp])
    | doh => exact absurd hp (hdoh h' hq)
    | dohWithFallback => rfl

theorem lookup_eq_of_acquiredBytes
    (h : ∀ dns innerName,
      p.acquiredBytes base64 dns innerName = q.acquiredBytes base64 dns innerName)
    (hp : p.settings.mode ≠ .static) (innerName : Str) :
    p.resolver = q.resolver ∧ p.lookupName innerName = q.lookupName innerName := by
  classical
  by_contra hne
  obtain ⟨bytes, hinline⟩ := exists_ne_inline (q.inlineConfig base64)
  have hother : (q.lookupDoh (publishes p.resolver (p.lookupName innerName) bytes)
      innerName).toOption = some none :=
    lookupDoh_publishes_other fun hq ↦ hne ⟨hq.1.symm, hq.2.symm⟩
  have hpub := h (publishes p.resolver (p.lookupName innerName) bytes) innerName
  rw [acquiredBytes_publishes_self hp] at hpub
  have hmode := mode_eq_of_acquiredBytes h
  cases hq : q.settings.mode with
  | static => exact hp (hmode.trans hq)
  | doh =>
    rw [acquiredBytes_of_doh hq, hother] at hpub
    exact absurd hpub (by simp)
  | dohWithFallback =>
    rw [acquiredBytes_of_fallback hq, hother] at hpub
    exact hinline hpub.symm

theorem inline_eq_of_acquiredBytes
    (h : ∀ dns innerName,
      p.acquiredBytes base64 dns innerName = q.acquiredBytes base64 dns innerName)
    (hp : p.settings.mode ≠ .doh) :
    (p.inlineConfig base64).toOption = (q.inlineConfig base64).toOption := by
  have hmode := mode_eq_of_acquiredBytes h
  have hdeaf := h deafDns []
  apply Option.map_injective (Option.some_injective Bytes)
  cases hm : p.settings.mode with
  | doh => exact absurd hm hp
  | static => rwa [acquiredBytes_of_static hm, acquiredBytes_of_static (hmode ▸ hm)] at hdeaf
  | dohWithFallback =>
    rwa [acquiredBytes_of_fallback hm, acquiredBytes_of_fallback (hmode ▸ hm), lookupDoh_deafDns,
      lookupDoh_deafDns] at hdeaf

/-- **Same bytes, same source.** Two providers yield the same bytes for every inner name and every
state of DNS exactly when they have one source. -/
theorem sameBytes_iff :
    (∀ dns innerName, p.acquiredBytes base64 dns innerName = q.acquiredBytes base64 dns innerName) ↔
      SameSource base64 p q := by
  constructor
  · intro h
    exact ⟨mode_eq_of_acquiredBytes h, fun hp ↦ ⟨(lookup_eq_of_acquiredBytes h hp []).1,
      fun innerName ↦ (lookup_eq_of_acquiredBytes h hp innerName).2⟩,
      inline_eq_of_acquiredBytes h⟩
  · exact fun h _ _ ↦ acquiredBytes_of_sameSource h

end Bytes

end EchProvider

end SniGate
