import SniGate.Resolver.Basic
import SniGate.Store.Sidecar

/-!
# Observations across a restart

A gateway that starts again has forgotten its cache, and takes the certificates it serves, with what
they mirror, from its store. Whether a mirrored certificate is current is then asked of what the
sidecar gave back, and the answers are the ones given before exactly when every observed name could
be read back (`observed_kept_iff`).
-/

namespace SniGate

variable {Der Key P : Type}

namespace Issuer

variable (issuer : Issuer Der Key) (key : CacheKey) (observed : List Str)

/-- An observation is the last one recorded under a key, in the cache and in the sidecar. -/
structure Recorded (store : CertStore) (c : CachedCert Der Key) (s : IssuerState Der Key) :
    Prop where
  hasStore : issuer.store = some store
  cached : s.cache.lookup key = some c
  isObserved : c.observed = some observed
  saved : s.files (store.observedPath key.scope key.sniHost) =
    some (toUtf8 (encodeObserved observed))

end Issuer

/-! ## Restarts -/

/-- A restart after an observation has been recorded, and the handshake after it that loads the
certificate. -/
structure Restart (issuer : Issuer Der Key) (r : DynamicResolver P) (observed : List Str) where
  sniHost : Str
  key : CacheKey
  isKey : Issuer.recordKey r sniHost = some key
  store : CertStore
  cached : CachedCert Der Key
  before : IssuerState Der Key
  recorded : issuer.Recorded key observed store cached before
  ctx : CallContext
  stored : StoredCertificate Der Key
  isStored : issuer.persisted key ctx.now before.files = some stored
  isLoaded : issuer.anyEcdsaType stored.key = .ok ()

namespace Restart

variable {issuer : Issuer Der Key} {r : DynamicResolver P} {observed : List Str}
  (x : Restart issuer r observed)

/-- After the handshake; before it, nothing is cached. -/
def after : IssuerState Der Key := (issuer.getOrIssue x.key x.ctx { x.before with cache := ∅ }).2

/-- While neither entry has expired, `mirror_is_current` answers alike. -/
def AnswersAlike : Prop :=
  ∀ names now now', now ≤ x.cached.insertedAt + issuer.cacheTtl →
    now' ≤ x.ctx.now + issuer.cacheTtl →
      issuer.mirrorIsCurrent r x.sniHost names now x.before =
        issuer.mirrorIsCurrent r x.sniHost names now' x.after

theorem stored_observed : x.stored.observed = some (decodeObserved (encodeObserved observed)) := by
  have hload := (Option.filter_eq_some_iff.mp x.isStored).1
  rw [x.recorded.hasStore, Option.bind_some] at hload
  obtain ⟨-, hobserved⟩ := CertStore.spec_of_load hload
  rw [hobserved, x.recorded.saved, CertStore.readObserved, Option.bind_some, fromUtf8_toUtf8]
  rfl

theorem lookup_after : x.after.cache.lookup x.key =
    some ⟨⟨x.stored.chain, x.stored.key⟩, x.stored.observed, x.ctx.now⟩ := by
  have hmiss : issuer.cacheGet (∅ : Map CacheKey (CachedCert Der Key)) x.key x.ctx.now = none := rfl
  rw [after, Issuer.getOrIssue, hmiss]
  dsimp only
  rw [x.isStored]
  dsimp only
  rw [x.isLoaded]
  exact AList.lookup_insert _

/-- An unexpired entry is current for what it was built from. -/
theorem mirrorIsCurrent_of_lookup {s : IssuerState Der Key} {c : CachedCert Der Key} {now : ℤ}
    (names : List Str) (hlookup : s.cache.lookup x.key = some c)
    (hnow : now ≤ c.insertedAt + issuer.cacheTtl) :
    issuer.mirrorIsCurrent r x.sniHost names now s = decide (c.observed = some names) := by
  have hget : issuer.cacheGet s.cache x.key now = some c := by
    rw [Issuer.cacheGet, hlookup, Option.filter_some, if_pos (decide_eq_true hnow)]
  rw [Issuer.mirrorIsCurrent, x.isKey]
  dsimp only
  rw [hget, Option.bind_some]

theorem answersAlike_iff : x.AnswersAlike ↔ decodeObserved (encodeObserved observed) = observed := by
  have hbefore (names : List Str) {now : ℤ} (hnow : now ≤ x.cached.insertedAt + issuer.cacheTtl) :
      issuer.mirrorIsCurrent r x.sniHost names now x.before = decide (observed = names) := by
    rw [x.mirrorIsCurrent_of_lookup names x.recorded.cached hnow, x.recorded.isObserved]
    simp
  have hafter (names : List Str) {now : ℤ} (hnow : now ≤ x.ctx.now + issuer.cacheTtl) :
      issuer.mirrorIsCurrent r x.sniHost names now x.after =
        decide (decodeObserved (encodeObserved observed) = names) := by
    rw [x.mirrorIsCurrent_of_lookup names x.lookup_after hnow, x.stored_observed]
    simp
  constructor
  · intro h
    have hsame := h observed _ _ le_rfl le_rfl
    rw [hbefore observed le_rfl, hafter observed le_rfl, decide_eq_true rfl] at hsame
    exact of_decide_eq_true hsame.symm
  · intro h names now now' hnow hnow'
    rw [hbefore names hnow, hafter names hnow', h]

end Restart

/-- **Observations as they are kept.** An observation is read back as it was, and a restart changes
no answer about it, exactly when each of its names is the trimmed text of a line; and two
observations are stored as one file exactly when their names make up the same lines, which different
observations of that kind do not. -/
theorem observed_kept_iff (issuer : Issuer Der Key) (r : DynamicResolver P) (observed : List Str) :
    (decodeObserved (encodeObserved observed) = observed ↔ ∀ san ∈ observed, IsLine san) ∧
      (∀ x : Restart issuer r observed, x.AnswersAlike ↔ ∀ san ∈ observed, IsLine san) ∧
      ∀ observed', (encodeObserved observed = encodeObserved observed' ↔
          observedLines observed = observedLines observed') ∧
        ((∀ san ∈ observed, IsLine san) → (∀ san ∈ observed', IsLine san) →
          encodeObserved observed = encodeObserved observed' → observed = observed') := by
  refine ⟨decodeObserved_encodeObserved_iff, fun x ↦ ?_,
    fun observed' ↦ ⟨encodeObserved_eq_iff, fun h h' heq ↦ ?_⟩⟩
  · rw [x.answersAlike_iff, decodeObserved_encodeObserved_iff]
  · rw [← decodeObserved_encodeObserved_iff.mpr h, heq, decodeObserved_encodeObserved_iff.mpr h']

/-- A name that starts with a space is read back without it, and one with a line feed is written
like two names. -/
theorem not_observed_kept :
    (¬∀ (codec : CertCodec ParsedCert Unit) (chain : List ParsedCert),
      (∀ san ∈ observedDnsSans codec chain, ∀ c ∈ san, c.toNat < 128) →
        decodeObserved (encodeObserved (observedDnsSans codec chain)) =
          observedDnsSans codec chain) ∧
    ¬∀ (codec : CertCodec ParsedCert Unit) (chain chain' : List ParsedCert),
      encodeObserved (observedDnsSans codec chain) =
          encodeObserved (observedDnsSans codec chain') →
        observedDnsSans codec chain = observedDnsSans codec chain' := by
  constructor
  · intro h
    have hsans : observedDnsSans parsedCodec [⟨0, some [.dnsName " a.example".toList]⟩] =
        [" a.example".toList] := by
      decide +kernel
    have hkept := h parsedCodec [⟨0, some [.dnsName " a.example".toList]⟩] (by rw [hsans]; simp)
    revert hkept
    decide +kernel
  · intro h
    have hsame := h parsedCodec [⟨0, some [.dnsName "a\nb".toList]⟩]
      [⟨0, some [.dnsName "a".toList, .dnsName "b".toList]⟩] (by decide +kernel)
    revert hsame
    decide +kernel

end SniGate
