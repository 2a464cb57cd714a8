import SniGate.Certscope.Scope
import SniGate.Resolver.Clip
import SniGate.Store.Atomicity

/-!
# Issuing certificates

For each key, a certificate scope and an exact host in it, a resolver serves the certificate that is
cached, else the one that is on disk, else a new one for exactly the host. When an upstream's
certificate has been observed, a new one is issued that mirrors what clipping leaves of its names,
unless the current one was built from that very observation.

The operations are functions of the state and of what a call meets outside: the clock, the
randomness of the CA, how far writing to disk comes, and the public suffix list in force. Times are
in seconds.

## Design choices

Whatever a call meets outside is an argument of the call, so that an operation is a function and a
run is a list of calls with their arguments. That signing or writing fails, or stops half way, is
one of these arguments. Certificates are what the CA returned; their content is read back by
parsers that are given.
-/

namespace SniGate

variable {Der Key P : Type}

/-! ## Certificates -/

/-- A certificate chain with its key. -/
structure CertifiedKey (Der Key : Type) where
  chain : List Der
  key : Key

/-- The metadata of the leaf, if it can be read. -/
def CertifiedKey.metadata (codec : CertCodec Der Key) (c : CertifiedKey Der Key) :
    Option (ℤ × List Str) := c.chain.head?.bind (leafMetadata codec)

/-- The names on a certificate. -/
def CertifiedKey.names (codec : CertCodec Der Key) (c : CertifiedKey Der Key) : List Str :=
  ((c.metadata codec).map Prod.snd).getD []

/-- What the CA issues. -/
structure IssuedCertificate (Der Key : Type) where
  chain : List Der
  keyDer : Key
  chainPem : Str
  keyPem : Str

/-- The CA: what it issues to a common name for some names at a time, with some randomness. -/
structure CertificateAuthority (Der Key : Type) where
  issue : Str → List Str → ℤ → ℕ → Except Str (IssuedCertificate Der Key)

/-- Cache key: a partition and the exact host within it. -/
structure CacheKey where
  scope : CertScope
  sniHost : Str
deriving DecidableEq, Repr

theorem CacheKey.eq_of_pair {key key' : CacheKey}
    (h : (key.scope, key.sniHost) = (key'.scope, key'.sniHost)) : key = key' := by
  obtain ⟨hscope, hhost⟩ := Prod.mk.inj h
  cases key
  cases key'
  exact congrArg₂ CacheKey.mk hscope hhost

/-- A cached certificate with the upstream observation it was built from. -/
structure CachedCert (Der Key : Type) where
  certified : CertifiedKey Der Key
  /-- The raw names observed, if any were. -/
  observed : Option (List Str)
  insertedAt : ℤ

/-- The issuance machinery shared by all listeners. -/
structure Issuer (Der Key : Type) where
  ca : CertificateAuthority Der Key
  codec : CertCodec Der Key
  /-- `any_ecdsa_type`: whether a key can be loaded. -/
  anyEcdsaType : Key → Except Str Unit
  store : Option CertStore
  cacheTtl : ℤ

/-- One listener's resolver: the routing context that decides which names may share a
certificate. -/
structure DynamicResolver (P : Type) where
  router : Router
  /-- The certificate scope of each route, by route id. -/
  scopes : List CertScope
  /-- The certificate the operator pinned to each route, by route id. -/
  pinned : List (Option P)

/-- The certificate scope of a route id. The ids are those of the resolver's own router. -/
def DynamicResolver.scopeOf (r : DynamicResolver P) (id : RouteId) : CertScope :=
  (r.scopes[id]?).getD []

/-- The certificate a route pins. -/
def DynamicResolver.pinnedFor (r : DynamicResolver P) (id : RouteId) : Option P :=
  (r.pinned[id]?).join

/-- What a call meets outside. -/
structure CallContext where
  now : ℤ
  /-- The randomness of the CA. -/
  seed : ℕ
  /-- How many file operations take effect, and what is left of the next one. -/
  written : ℕ
  torn : Option (Option Bytes)
  suffix : SuffixList

/-- What calls change: the cache and the files. -/
structure IssuerState (Der Key : Type) where
  cache : Map CacheKey (CachedCert Der Key)
  files : Files Path Bytes

namespace Issuer

variable (issuer : Issuer Der Key) (r : DynamicResolver P)

/-! ## Parts of the operations -/

/-- A cached certificate that is not older than the cache allows. -/
def cacheGet (cache : Map CacheKey (CachedCert Der Key)) (key : CacheKey) (now : ℤ) :
    Option (CachedCert Der Key) :=
  (cache.lookup key).filter fun c ↦ now ≤ c.insertedAt + issuer.cacheTtl

/-- A persisted certificate that may be served for `host`: one that covers it, and that covers
nothing else unless an upstream was observed to authorize that. -/
def usable (host : Str) (stored : StoredCertificate Der Key) : Bool :=
  ¬(stored.observed.isNone ∧ stored.sans ≠ [host]) ∧ hostCoveredBy stored.sans host

/-- The persisted certificate to serve, if there is one. -/
def persisted (key : CacheKey) (now : ℤ) (files : Files Path Bytes) :
    Option (StoredCertificate Der Key) :=
  (issuer.store.bind fun store ↦ store.load key.scope key.sniHost issuer.codec now files).filter
    (usable key.sniHost)

/-- The CA signs, and the key can be loaded. -/
def issue (key : CacheKey) (sans : List Str) (ctx : CallContext) :
    Except Str (IssuedCertificate Der Key) := do
  let issued ← issuer.ca.issue key.sniHost sans ctx.now ctx.seed
  (issuer.anyEcdsaType issued.keyDer).mapError fun e ↦
    "loading issued key for ".toList ++ key.sniHost ++ ": ".toList ++ e
  return issued

/-- The files after an attempt to save; one that fails is given up half way. -/
def persist (key : CacheKey) (issued : IssuedCertificate Der Key) (observed : Option (List Str))
    (ctx : CallContext) (files : Files Path Bytes) : Files Path Bytes :=
  match issuer.store with
  | some store =>
    stopAfter (store.saveOps key.scope key.sniHost issued.chainPem issued.keyPem observed)
      ctx.written ctx.torn files
  | none => files

/-- `DynamicResolver::clip` for the scope of a key. -/
def mirrored (key : CacheKey) (observed : List Str) (ctx : CallContext) : MirrorPlan :=
  clip ctx.suffix r.router (fun id ↦ r.scopeOf id = key.scope) key.sniHost observed

/-- The key of a host on a route. -/
def keyFor (sniHost : Str) (owner : RouteId) : CacheKey := ⟨r.scopeOf owner, normalizeHost sniHost⟩

/-- The key under which an observation for a host is recorded, if it is: on a route, and not a
pinned one. -/
def recordKey (sniHost : Str) : Option CacheKey :=
  (r.router.matchHost sniHost).bind fun owner ↦
    if (r.pinnedFor owner).isSome then none else some (keyFor r sniHost owner)

/-- Cache a certificate. -/
def cacheInsert (st : IssuerState Der Key) (key : CacheKey) (certified : CertifiedKey Der Key)
    (observed : Option (List Str)) (now : ℤ) : IssuerState Der Key :=
  { st with cache := st.cache.insert key ⟨certified, observed, now⟩ }

/-! ## The operations -/

/-- Sign and persist; a failure to sign persists nothing, and a failure to persist is ignored. -/
def sign (key : CacheKey) (sans : List Str) (observed : Option (List Str)) (ctx : CallContext)
    (files : Files Path Bytes) : Except Str (CertifiedKey Der Key) × Files Path Bytes :=
  match issuer.issue key sans ctx with
  | .ok issued =>
    (.ok ⟨issued.chain, issued.keyDer⟩, issuer.persist key issued observed ctx files)
  | .error e => (.error e, files)

/-- `DynamicResolver::get_or_issue`, for the key of the host. -/
def getOrIssue (key : CacheKey) (ctx : CallContext) (st : IssuerState Der Key) :
    Except Str (CertifiedKey Der Key) × IssuerState Der Key :=
  match issuer.cacheGet st.cache key ctx.now with
  | some existing => (.ok existing.certified, st)
  | none =>
    match issuer.persisted key ctx.now st.files with
    | some stored =>
      match issuer.anyEcdsaType stored.key with
      | .ok () =>
        let certified := ⟨stored.chain, stored.key⟩
        (.ok certified, cacheInsert st key certified stored.observed ctx.now)
      | .error e =>
        (.error ("loading persisted key for ".toList ++ key.sniHost ++ ": ".toList ++ e), st)
    | none =>
      match issuer.sign key [key.sniHost] none ctx st.files with
      | (.ok certified, files) =>
        (.ok certified, cacheInsert { st with files } key certified none ctx.now)
      | (.error e, files) => (.error e, { st with files })

/-- `DynamicResolver::record_upstream_sans`, from the key on. -/
def recordUpstreamSans (key : CacheKey) (observed : List Str) (ctx : CallContext)
    (st : IssuerState Der Key) : IssuerState Der Key :=
  if (issuer.cacheGet st.cache key ctx.now).bind CachedCert.observed = some observed then st
  else
    match issuer.sign key (mirrored r key observed ctx).kept (some observed) ctx st.files with
    | (.ok certified, files) =>
      cacheInsert { st with files } key certified (some observed) ctx.now
    | (.error _, files) => { st with files }

/-- `DynamicResolver::mirror_is_current`: what is not mirrored is never out of date. -/
def mirrorIsCurrent (sniHost : Str) (observed : List Str) (now : ℤ) (st : IssuerState Der Key) :
    Bool :=
  match recordKey r sniHost with
  | some key => (issuer.cacheGet st.cache key now).bind CachedCert.observed = some observed
  | none => true

end Issuer

/-! ## Calls -/

/-- A call of a resolver; the owner of a handshake's host is the route it was matched to. -/
inductive ResolverCall
  | getOrIssue (sniHost : Str) (owner : RouteId) (ctx : CallContext)
  | recordUpstreamSans (sniHost : Str) (observed : List Str) (ctx : CallContext)

/-- The key a call is about, if it is about one. -/
def ResolverCall.key (r : DynamicResolver P) : ResolverCall → Option CacheKey
  | getOrIssue sniHost owner _ => some (Issuer.keyFor r sniHost owner)
  | recordUpstreamSans sniHost _ _ => Issuer.recordKey r sniHost

/-- What a call does, and the certificate it serves, if it serves one. -/
def Issuer.call (issuer : Issuer Der Key) (r : DynamicResolver P) (st : IssuerState Der Key) :
    ResolverCall → Option (Except Str (CertifiedKey Der Key)) × IssuerState Der Key
  | .getOrIssue sniHost owner ctx =>
    (issuer.getOrIssue (Issuer.keyFor r sniHost owner) ctx st).map some id
  | .recordUpstreamSans sniHost observed ctx =>
    match Issuer.recordKey r sniHost with
    | some key => (none, issuer.recordUpstreamSans r key observed ctx st)
    | none => (none, st)

/-! ## What the operations keep -/

/-- Every cache entry has a property, and so do the files. -/
structure IssuerState.Kept (Q : CacheKey → CachedCert Der Key → Prop)
    (F : Files Path Bytes → Prop) (s : IssuerState Der Key) : Prop where
  cache : ∀ key c, s.cache.lookup key = some c → Q key c
  files : F s.files

namespace IssuerState.Kept

variable {Q : CacheKey → CachedCert Der Key → Prop} {F : Files Path Bytes → Prop}
  {s : IssuerState Der Key}

theorem evict (hs : s.Kept Q F) (key : CacheKey) :
    ({ s with cache := s.cache.erase key } : IssuerState Der Key).Kept Q F where
  cache key' c hc := by
    by_cases hkey : key' = key
    · subst hkey
      exact absurd ((AList.lookup_erase key' s.cache).symm.trans hc) (by simp)
    · exact hs.cache key' c ((AList.lookup_erase_ne hkey).symm.trans hc)
  files := hs.files

theorem restart (hs : s.Kept Q F) : ({ s with cache := ∅ } : IssuerState Der Key).Kept Q F where
  cache _ _ hc := absurd hc (by simp)
  files := hs.files

end IssuerState.Kept

namespace Issuer

variable {issuer : Issuer Der Key} {r : DynamicResolver P} {key : CacheKey} {ctx : CallContext}
  {s : IssuerState Der Key} {Q : CacheKey → CachedCert Der Key → Prop}
  {F : Files Path Bytes → Prop} {files : Files Path Bytes} {certified : CertifiedKey Der Key}
  {sans : List Str} {observed : Option (List Str)} {now : ℤ}

theorem kept_cacheInsert (hs : s.Kept Q F) (hfiles : F files)
    (hQ : Q key ⟨certified, observed, now⟩) :
    (cacheInsert { s with files } key certified observed now).Kept Q F where
  cache key' c hc := by
    by_cases hkey : key' = key
    · subst hkey
      obtain rfl := Option.some.inj ((AList.lookup_insert s.cache).symm.trans hc)
      exact hQ
    · exact hs.cache key' c ((AList.lookup_insert_ne hkey).symm.trans hc)
  files := hfiles

theorem of_cacheGet {c : CachedCert Der Key} (h : issuer.cacheGet s.cache key now = some c) :
    s.cache.lookup key = some c ∧ now ≤ c.insertedAt + issuer.cacheTtl := by
  obtain ⟨hlookup, hfresh⟩ := Option.filter_eq_some_iff.mp h
  exact ⟨hlookup, by simpa using hfresh⟩

variable (observed) in
/-- Signing, saving and caching keep what signed certificates have. -/
theorem kept_sign (hs : s.Kept Q F)
    (hsigned : ∀ issued, issuer.issue key sans ctx = .ok issued →
      Q key ⟨⟨issued.chain, issued.keyDer⟩, observed, ctx.now⟩ ∧
        F (issuer.persist key issued observed ctx s.files)) :
    match issuer.sign key sans observed ctx s.files with
    | (.ok certified, files) =>
      Q key ⟨certified, observed, ctx.now⟩ ∧
        (cacheInsert { s with files } key certified observed ctx.now).Kept Q F
    | (.error _, files) => ({ s with files } : IssuerState Der Key).Kept Q F := by
  rw [sign]
  cases hissue : issuer.issue key sans ctx with
  | error e => exact hs
  | ok issued =>
    obtain ⟨hQ, hF⟩ := hsigned issued hissue
    exact ⟨hQ, kept_cacheInsert hs hF hQ⟩

/-- **What `get_or_issue` keeps and serves.** -/
theorem kept_getOrIssue (hs : s.Kept Q F) (httl : 0 ≤ issuer.cacheTtl)
    (hstored : ∀ stored, issuer.persisted key ctx.now s.files = some stored →
      Q key ⟨⟨stored.chain, stored.key⟩, stored.observed, ctx.now⟩)
    (hsigned : ∀ issued, issuer.issue key [key.sniHost] ctx = .ok issued →
      Q key ⟨⟨issued.chain, issued.keyDer⟩, none, ctx.now⟩ ∧
        F (issuer.persist key issued none ctx s.files)) :
    (issuer.getOrIssue key ctx s).2.Kept Q F ∧
      ∀ certified, (issuer.getOrIssue key ctx s).1 = .ok certified →
        ∃ c, Q key c ∧ c.certified = certified ∧ ctx.now ≤ c.insertedAt + issuer.cacheTtl := by
  have hnow : ctx.now ≤ ctx.now + issuer.cacheTtl := le_add_of_nonneg_right httl
  rw [getOrIssue]
  cases hcache : issuer.cacheGet s.cache key ctx.now with
  | some existing =>
    obtain ⟨hlookup, hfresh⟩ := of_cacheGet hcache
    exact ⟨hs, fun certified h ↦
      ⟨existing, hs.cache key existing hlookup, Except.ok.inj h, hfresh⟩⟩
  | none =>
    dsimp only
    cases hpersisted : issuer.persisted key ctx.now s.files with
    | some stored =>
      dsimp only
      have hQ := hstored stored hpersisted
      cases issuer.anyEcdsaType stored.key with
      | error e => exact ⟨hs, fun certified h ↦ absurd h (by simp)⟩
      | ok =>
        exact ⟨kept_cacheInsert hs hs.files hQ, fun certified h ↦
          ⟨_, hQ, Except.ok.inj h, hnow⟩⟩
    | none =>
      dsimp only
      have hkept := kept_sign none hs hsigned
      generalize issuer.sign key [key.sniHost] none ctx s.files = signed at hkept ⊢
      obtain ⟨answer, files⟩ := signed
      cases answer with
      | error e => exact ⟨hkept, fun certified h ↦ absurd h (by simp)⟩
      | ok certified =>
        exact ⟨hkept.2, fun certified h ↦ ⟨_, hkept.1, Except.ok.inj h, hnow⟩⟩

/-- **What `record_upstream_sans` keeps.** -/
theorem kept_recordUpstreamSans {names : List Str} (hs : s.Kept Q F)
    (hsigned : ∀ issued, issuer.issue key (mirrored r key names ctx).kept ctx = .ok issued →
      Q key ⟨⟨issued.chain, issued.keyDer⟩, some names, ctx.now⟩ ∧
        F (issuer.persist key issued (some names) ctx s.files)) :
    (issuer.recordUpstreamSans r key names ctx s).Kept Q F := by
  rw [recordUpstreamSans]
  split_ifs
  · exact hs
  · have hkept := kept_sign (some names) hs hsigned
    generalize issuer.sign key _ (some names) ctx s.files = signed at hkept ⊢
    obtain ⟨answer, files⟩ := signed
    cases answer with
    | error e => exact hkept
    | ok certified => exact hkept.2

end Issuer

/-! ## A small issuer -/

/-- Parsers for certificates that are kept in parsed form, and never written out. -/
def parsedCodec : CertCodec ParsedCert Unit where
  certs _ := none
  privateKey _ := none
  parse cert := some cert
  timestampInRange _ := true

/-- Issue in parsed form, for a fixed time. -/
def parsedCa (validity : ℤ) : CertificateAuthority ParsedCert Unit where
  issue _ sans now _ := .ok ⟨[⟨now + validity, some (sans.map .dnsName)⟩], (), [], []⟩

/-- An issuer without a store. -/
def parsedIssuer (validity cacheTtl : ℤ) : Issuer ParsedCert Unit where
  ca := parsedCa validity
  codec := parsedCodec
  anyEcdsaType _ := .ok ()
  store := none
  cacheTtl := cacheTtl

/-- A resolver whose hosts are all on its default route. -/
def oneRoute : DynamicResolver Unit where
  router := { exact := ∅, wildcard := ∅, suffix := ∅, regex := [], default := some 0 }
  scopes := ["s".toList]
  pinned := [none]

/-- A call at a time, with a list that knows no suffix, and nothing on disk. -/
def CallContext.atTime (now : ℤ) : CallContext := ⟨now, 0, 0, none, ⟨fun _ ↦ none⟩⟩

/-- Nothing cached, nothing on disk. -/
def IssuerState.empty : IssuerState Der Key := ⟨∅, fun _ ↦ none⟩

end SniGate
