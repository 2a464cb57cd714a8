import SniGate.Config.Validate
import SniGate.Resolver.Basic
import SniGate.Transition.Run

/-!
# Certificates that are served and have not expired

Three settings decide for how long a certificate is served: the validity it is signed with, the
margin before its end within which it is not loaded from disk any more, and the age up to which the
cache returns it. The check of a document relates the first two. A certificate that is loaded just
outside the margin stays in the cache for as long as any other, and nothing looks at its end again,
so that no expired certificate is served exactly when the cache keeps none for longer than the
margin, or, without a store, for as long as the validity (`neverExpired_iff`).

A run is a sequence of calls at times that do not decrease. Between calls the cache may drop any
entry, and the program may be restarted with what is on disk.
-/

namespace SniGate

variable {Der Key P : Type}

/-! ## The issuer of a document -/

/-- The issuer that a document sets up. -/
def Config.issuer (cfg : Config) (ca : CertificateAuthority Der Key) (codec : CertCodec Der Key)
    (anyEcdsaType : Key → Except Str Unit) : Issuer Der Key where
  ca := ca
  codec := codec
  anyEcdsaType := anyEcdsaType
  store :=
    if cfg.store.enabled then some (.new cfg.store.dir cfg.store.renewMarginDays.toNat) else none
  cacheTtl := cfg.cache.ttlSecs.toNat

/-- For how long leaf certificates are signed, in seconds. -/
def Config.leafValidity (cfg : Config) : ℤ := cfg.ca.leafValidityDays.toNat * 86400

/-- The margin of the store, in seconds. -/
def Config.renewMargin (cfg : Config) : ℤ := cfg.store.renewMarginDays.toNat * 86400

/-- A certificate is valid after `t`. -/
def CertifiedKey.ValidAfter (codec : CertCodec Der Key) (t : ℤ) (c : CertifiedKey Der Key) : Prop :=
  ∃ notAfter names, c.metadata codec = some (notAfter, names) ∧ t < notAfter

/-- What the CA issues is valid for a fixed time. -/
def CertificateAuthority.IssuesFor (ca : CertificateAuthority Der Key) (codec : CertCodec Der Key)
    (validity : ℤ) : Prop :=
  ∀ name sans now seed issued, ca.issue name sans now seed = .ok issued →
    ∃ names, CertifiedKey.metadata codec ⟨issued.chain, issued.keyDer⟩ =
      some (now + validity, names)

/-- Some host has a certificate issued that can be read back from disk. -/
def Issuer.IssuesReadable (issuer : Issuer Der Key) : Prop :=
  ∃ host now seed issued notAfter, normalizeHost host = host ∧
    issuer.ca.issue host [host] now seed = .ok issued ∧
    issuer.anyEcdsaType issued.keyDer = .ok () ∧
    CertifiedKey.metadata issuer.codec ⟨issued.chain, issued.keyDer⟩ = some (notAfter, [host]) ∧
    issuer.codec.certs (toUtf8 issued.chainPem) = some issued.chain ∧
    issuer.codec.privateKey (toUtf8 issued.keyPem) = some (some issued.keyDer)

/-! ## Runs in time -/

/-- What the issuer holds, and the time of the last call. -/
structure TimedState (Der Key : Type) where
  state : IssuerState Der Key
  clock : ℤ

/-- What happens to an issuer. -/
inductive TimedEvent (P : Type)
  | call (r : DynamicResolver P) (c : ResolverCall)
  /-- The cache drops an entry. -/
  | evict (key : CacheKey)
  /-- The program is started again, with what is on disk. -/
  | restart

/-- What a call meets outside. -/
def ResolverCall.ctx : ResolverCall → CallContext
  | getOrIssue _ _ ctx => ctx
  | recordUpstreamSans _ _ ctx => ctx

namespace Issuer

variable (issuer : Issuer Der Key)

/-- What an event leads to, if it can happen. -/
def timedStep (s : TimedState Der Key) : TimedEvent P → Option (TimedState Der Key)
  | .call r c =>
    if s.clock ≤ c.ctx.now then some ⟨(issuer.call r s.state c).2, c.ctx.now⟩ else none
  | .evict key => some { s with state.cache := s.state.cache.erase key }
  | .restart => some { s with state.cache := ∅ }

variable (P) in
/-- No run leads to a call of `get_or_issue` that returns a certificate which has expired. -/
def NeverExpired : Prop :=
  ∀ files clock s,
    Reach (issuer.timedStep (P := P)) (fun _ _ ↦ True) ⟨⟨∅, files⟩, clock⟩ s →
      ∀ (r : DynamicResolver P) sniHost owner ctx certified, s.clock ≤ ctx.now →
        (issuer.getOrIssue (keyFor r sniHost owner) ctx s.state).1 = .ok certified →
          certified.ValidAfter issuer.codec ctx.now

/-- The time the cache keeps a certificate is covered: by the margin of the store, or without one by
the validity of certificates. -/
def TtlCovered (validity : ℤ) : Prop :=
  match issuer.store with
  | some store => issuer.cacheTtl ≤ store.renewMargin
  | none => issuer.cacheTtl < validity

section Covered

variable {issuer} {validity now : ℤ} {key : CacheKey} {ctx : CallContext} {sans : List Str}
  {issued : IssuedCertificate Der Key} {stored : StoredCertificate Der Key}
  {files : Files Path Bytes} {r : DynamicResolver P} {s t : TimedState Der Key} {e : TimedEvent P}

/-- What is cached outlives its time in the cache. -/
def Outlives (issuer : Issuer Der Key) (_ : CacheKey) (c : CachedCert Der Key) : Prop :=
  c.certified.ValidAfter issuer.codec (c.insertedAt + issuer.cacheTtl)

theorem issue_eq_ok (h : issuer.issue key sans ctx = .ok issued) :
    issuer.ca.issue key.sniHost sans ctx.now ctx.seed = .ok issued ∧
      issuer.anyEcdsaType issued.keyDer = .ok () := by
  obtain ⟨issued', hissue, h⟩ := bind_eq_ok.mp h
  obtain ⟨_, hkey, h⟩ := bind_eq_ok.mp h
  obtain rfl := Except.ok.inj h
  exact ⟨hissue, eq_ok_of_mapError hkey⟩

/-- A certificate that is loaded is valid for longer than the margin. -/
theorem validAfter_of_persisted (h : issuer.persisted key now files = some stored) :
    ∃ store, issuer.store = some store ∧
      CertifiedKey.ValidAfter issuer.codec (now + store.renewMargin)
        ⟨stored.chain, stored.key⟩ := by
  obtain ⟨hload, -⟩ := Option.filter_eq_some_iff.mp h
  obtain ⟨store, hstore, hload⟩ := Option.bind_eq_some_iff.mp hload
  obtain ⟨-, hmeta, hrenew⟩ := CertStore.readChain_eq_some (CertStore.spec_of_load hload).1
  exact ⟨store, hstore, stored.notAfter, stored.sans, hmeta,
    by simpa [CertStore.needsRenewal] using hrenew⟩

/-- Where the time in the cache is covered, no certificate is cached beyond its end. -/
theorem ttl_lt_of_covered (hcovered : issuer.TtlCovered validity)
    (hmargin : ∀ store, issuer.store = some store → store.renewMargin < validity) :
    issuer.cacheTtl < validity := by
  rw [TtlCovered] at hcovered
  cases hstore : issuer.store with
  | none =>
    rw [hstore] at hcovered
    exact hcovered
  | some store =>
    rw [hstore] at hcovered
    exact lt_of_le_of_lt hcovered (hmargin store hstore)

theorem outlives_of_persisted (hcovered : issuer.TtlCovered validity)
    (h : issuer.persisted key now files = some stored) :
    issuer.Outlives key ⟨⟨stored.chain, stored.key⟩, stored.observed, now⟩ := by
  obtain ⟨store, hstore, notAfter, names, hmeta, hlt⟩ := validAfter_of_persisted h
  rw [TtlCovered, hstore] at hcovered
  exact ⟨notAfter, names, hmeta, lt_of_le_of_lt (Int.add_le_add_left hcovered now) hlt⟩

theorem outlives_of_issue (hissues : issuer.ca.IssuesFor issuer.codec validity)
    (httl : issuer.cacheTtl < validity) (h : issuer.issue key sans ctx = .ok issued)
    (observed : Option (List Str)) :
    issuer.Outlives key ⟨⟨issued.chain, issued.keyDer⟩, observed, ctx.now⟩ := by
  obtain ⟨names, hmeta⟩ := hissues _ _ _ _ _ (issue_eq_ok h).1
  exact ⟨_, names, hmeta, Int.add_lt_add_left httl ctx.now⟩

/-- **Calls keep** that what is cached outlives its time in the cache. -/
theorem kept_call (hissues : issuer.ca.IssuesFor issuer.codec validity)
    (hcovered : issuer.TtlCovered validity) (httl : issuer.cacheTtl < validity)
    (h0 : 0 ≤ issuer.cacheTtl) {st : IssuerState Der Key} (c : ResolverCall)
    (hs : st.Kept issuer.Outlives fun _ ↦ True) :
    (issuer.call r st c).2.Kept issuer.Outlives fun _ ↦ True := by
  cases c with
  | getOrIssue sniHost owner ctx =>
    exact (kept_getOrIssue hs h0 (fun _ h ↦ outlives_of_persisted hcovered h)
      fun _ h ↦ ⟨outlives_of_issue hissues httl h none, trivial⟩).1
  | recordUpstreamSans sniHost observed ctx =>
    rw [call]
    cases recordKey r sniHost with
    | none => exact hs
    | some key =>
      exact kept_recordUpstreamSans hs fun _ h ↦
        ⟨outlives_of_issue hissues httl h (some observed), trivial⟩

theorem kept_timedStep (hissues : issuer.ca.IssuesFor issuer.codec validity)
    (hcovered : issuer.TtlCovered validity) (httl : issuer.cacheTtl < validity)
    (h0 : 0 ≤ issuer.cacheTtl) (hs : s.state.Kept issuer.Outlives fun _ ↦ True)
    (h : issuer.timedStep s e = some t) : t.state.Kept issuer.Outlives fun _ ↦ True := by
  cases e with
  | call r c =>
    rw [timedStep] at h
    split_ifs at h
    obtain rfl := Option.some.inj h
    exact kept_call hissues hcovered httl h0 c hs
  | evict key =>
    obtain rfl := Option.some.inj h
    exact hs.evict key
  | restart =>
    obtain rfl := Option.some.inj h
    exact hs.restart

/-- **Covered times suffice.** -/
theorem neverExpired_of_covered (hissues : issuer.ca.IssuesFor issuer.codec validity)
    (hcovered : issuer.TtlCovered validity) (httl : issuer.cacheTtl < validity)
    (h0 : 0 ≤ issuer.cacheTtl) : issuer.NeverExpired P := by
  intro files clock s hreach r sniHost owner ctx certified _ hserved
  have hkept : s.state.Kept issuer.Outlives fun _ ↦ True :=
    hreach.invariant ⟨fun key c hc ↦ absurd hc (by simp), trivial⟩
      fun _ _ _ hs _ hnext ↦ kept_timedStep hissues hcovered httl h0 hs hnext
  obtain ⟨c, ⟨notAfter, names, hmeta, hlt⟩, rfl, hnow⟩ :=
    (kept_getOrIssue hkept h0 (fun _ h ↦ outlives_of_persisted hcovered h)
      fun _ h ↦ ⟨outlives_of_issue hissues httl h none, trivial⟩).2 certified hserved
  exact ⟨notAfter, names, hmeta, lt_of_le_of_lt hnow hlt⟩

/-! ## Runs that go wrong -/

variable {st : IssuerState Der Key} {c : CachedCert Der Key}

theorem getOrIssue_of_cached (hlookup : st.cache.lookup key = some c)
    (hnow : ctx.now ≤ c.insertedAt + issuer.cacheTtl) :
    issuer.getOrIssue key ctx st = (.ok c.certified, st) := by
  have hget : issuer.cacheGet st.cache key ctx.now = some c := by
    rw [cacheGet, hlookup, Option.filter_some, if_pos (by simpa using hnow)]
  rw [getOrIssue, hget]

theorem getOrIssue_of_stored (hlookup : st.cache.lookup key = none)
    (hstored : issuer.persisted key ctx.now st.files = some stored)
    (hkey : issuer.anyEcdsaType stored.key = .ok ()) :
    issuer.getOrIssue key ctx st = (.ok ⟨stored.chain, stored.key⟩,
      cacheInsert st key ⟨stored.chain, stored.key⟩ stored.observed ctx.now) := by
  have hget : issuer.cacheGet st.cache key ctx.now = none := by
    rw [cacheGet, hlookup, Option.filter_none]
  rw [getOrIssue, hget]
  dsimp only
  rw [hstored]
  dsimp only
  rw [hkey]

theorem getOrIssue_of_issued (hlookup : st.cache.lookup key = none)
    (hstored : issuer.persisted key ctx.now st.files = none)
    (hissue : issuer.issue key [key.sniHost] ctx = .ok issued) :
    issuer.getOrIssue key ctx st = (.ok ⟨issued.chain, issued.keyDer⟩,
      cacheInsert { st with files := issuer.persist key issued none ctx st.files } key
        ⟨issued.chain, issued.keyDer⟩ none ctx.now) := by
  have hget : issuer.cacheGet st.cache key ctx.now = none := by
    rw [cacheGet, hlookup, Option.filter_none]
  rw [getOrIssue, hget]
  dsimp only
  rw [hstored]
  dsimp only
  rw [sign, hissue]

theorem persisted_empty : issuer.persisted key now (fun _ ↦ none) = none := by
  rw [persisted]
  cases hstore : issuer.store with
  | none => rfl
  | some store =>
    rw [Option.bind_some, CertStore.load_eq]
    rfl

variable (now key files) in
/-- What a completed save of an exact certificate leaves can be loaded until the margin. -/
theorem persisted_of_saved {store : CertStore} {notAfter : ℤ} (hstore : issuer.store = some store)
    (hmeta : CertifiedKey.metadata issuer.codec ⟨issued.chain, issued.keyDer⟩ =
      some (notAfter, [key.sniHost]))
    (hcerts : issuer.codec.certs (toUtf8 issued.chainPem) = some issued.chain)
    (hkey : issuer.codec.privateKey (toUtf8 issued.keyPem) = some (some issued.keyDer))
    (hnow : now + store.renewMargin < notAfter) :
    issuer.persisted key now (store.save key.scope key.sniHost issued.chainPem issued.keyPem none
      files) = some ⟨issued.chain, issued.keyDer, notAfter, [key.sniHost], none⟩ := by
  have hchain := CertStore.readChain_of_certs hcerts hmeta
    (show store.needsRenewal now notAfter = false by simpa [CertStore.needsRenewal] using hnow)
  rw [persisted, hstore, Option.bind_some, CertStore.load_save, hchain, CertStore.readKey,
    CertStore.savedObserved]
  simp [CertStore.assemble, CertStore.readObserved, hkey, usable, hostCoveredBy_self]

/-- A blank resolver: its keys have no scope. -/
def blankResolver : DynamicResolver P := ⟨⟨∅, ∅, ∅, [], none⟩, [], []⟩

theorem keyFor_blankResolver {host : Str} (hhost : normalizeHost host = host) :
    keyFor (blankResolver : DynamicResolver P) host 0 = ⟨[], host⟩ := by
  rw [keyFor, hhost]
  rfl

variable (ctx) in
theorem reach_of_getOrIssue {init : TimedState Der Key} {host : Str}
    {answer : Except Str (CertifiedKey Der Key)}
    (h : Reach (issuer.timedStep (P := P)) (fun _ _ ↦ True) init s)
    (hhost : normalizeHost host = host) (hclock : s.clock ≤ ctx.now)
    (hget : issuer.getOrIssue ⟨[], host⟩ ctx s.state = (answer, st)) :
    Reach (issuer.timedStep (P := P)) (fun _ _ ↦ True) init ⟨st, ctx.now⟩ := by
  refine h.step (e := .call blankResolver (.getOrIssue host 0 ctx)) trivial ?_
  have hstep : issuer.timedStep s (.call (blankResolver : DynamicResolver P)
      (.getOrIssue host 0 ctx)) =
      some ⟨(issuer.getOrIssue (keyFor (blankResolver : DynamicResolver P) host 0) ctx s.state).2,
        ctx.now⟩ := if_pos hclock
  rwa [keyFor_blankResolver hhost, hget] at hstep

variable (ctx) in
/-- What a run that ends with a call at the very end of the validity shows. -/
theorem false_of_served {host : Str} {clock notAfter : ℤ} {names : List Str}
    (h : issuer.NeverExpired P) (hhost : normalizeHost host = host)
    (hreach : Reach (issuer.timedStep (P := P)) (fun _ _ ↦ True) ⟨⟨∅, fun _ ↦ none⟩, clock⟩ s)
    (hclock : s.clock ≤ ctx.now) (hlookup : s.state.cache.lookup ⟨[], host⟩ = some c)
    (hnow : ctx.now ≤ c.insertedAt + issuer.cacheTtl)
    (hmeta : c.certified.metadata issuer.codec = some (notAfter, names))
    (hend : notAfter ≤ ctx.now) :
    False := by
  have hget := getOrIssue_of_cached hlookup hnow
  rw [← keyFor_blankResolver (P := P) hhost] at hget
  obtain ⟨notAfter', names', hmeta', hlt⟩ :=
    h _ _ s hreach blankResolver host 0 ctx c.certified hclock (congrArg Prod.fst hget)
  obtain ⟨rfl, -⟩ := Prod.mk.inj (Option.some.inj (hmeta.symm.trans hmeta'))
  exact absurd hlt (not_lt.mpr hend)

/-- **Covered times are needed.** A certificate that is served from the cache at the very end of its
time there has expired by then, if it was loaded as late as it could be, or without a store, even
if it was new when it was cached. -/
theorem covered_of_neverExpired (hissues : issuer.ca.IssuesFor issuer.codec validity)
    (hreadable : issuer.IssuesReadable) (hvalidity : 0 ≤ validity) (h0 : 0 ≤ issuer.cacheTtl)
    (hmargin : ∀ store, issuer.store = some store → store.renewMargin < validity)
    (h : issuer.NeverExpired P) : issuer.TtlCovered validity := by
  obtain ⟨host, t₀, seed, issued, notAfter, hhost, hissue, hload, hmeta, hcerts, hkey⟩ := hreadable
  obtain ⟨names, hmeta'⟩ := hissues _ _ _ _ _ hissue
  obtain ⟨rfl, -⟩ := Prod.mk.inj (Option.some.inj (hmeta'.symm.trans hmeta))
  -- a save consists of seven operations
  let ctx (now : ℤ) : CallContext := ⟨now, seed, 7, none, ⟨fun _ ↦ none⟩⟩
  have hissue' : issuer.issue ⟨[], host⟩ [host] (ctx t₀) = .ok issued := by
    refine bind_eq_ok.mpr ⟨issued, hissue, bind_eq_ok.mpr ⟨(), ?_, rfl⟩⟩
    rw [hload]
    rfl
  -- the host gets its first certificate
  have hfirst := reach_of_getOrIssue (ctx t₀) (.start : Reach (issuer.timedStep (P := P))
    (fun _ _ ↦ True) ⟨⟨∅, fun _ ↦ none⟩, t₀⟩ _) hhost le_rfl
    (getOrIssue_of_issued (AList.lookup_empty _) persisted_empty hissue')
  rw [TtlCovered]
  by_contra hcovered
  cases hstore : issuer.store with
  | none =>
    rw [hstore] at hcovered
    refine false_of_served (ctx (t₀ + validity)) h hhost hfirst ?_ (AList.lookup_insert _) ?_
      hmeta le_rfl
    · exact le_add_of_nonneg_right hvalidity
    · exact Int.add_le_add_left (not_lt.mp hcovered) t₀
  | some store =>
    rw [hstore] at hcovered
    have hlate : store.renewMargin + 1 ≤ issuer.cacheTtl := not_le.mp hcovered
    have hmargin' := hmargin store hstore
    -- it leaves the cache, and is loaded as late as can be
    let t₁ := t₀ + validity - store.renewMargin - 1
    have hevicted := hfirst.step (e := .evict ⟨[], host⟩) trivial rfl
    have hfiles : issuer.persist ⟨[], host⟩ issued none (ctx t₀) (fun _ ↦ none) =
        store.save [] host issued.chainPem issued.keyPem none fun _ ↦ none := by
      rw [persist, hstore]
      exact stopAfter_of_length_le (by rfl) _ _
    have hstored := persisted_of_saved t₁ ⟨[], host⟩ (fun _ ↦ none) hstore hmeta hcerts hkey
      (by dsimp only [t₁]; omega)
    rw [← hfiles] at hstored
    have hsecond := reach_of_getOrIssue (ctx t₁) hevicted hhost
      (show t₀ ≤ t₁ by dsimp only [t₁]; omega)
      (getOrIssue_of_stored (AList.lookup_erase _ _) hstored hload)
    refine false_of_served (ctx (t₁ + issuer.cacheTtl)) h hhost hsecond ?_ (AList.lookup_insert _)
      le_rfl hmeta ?_
    · exact le_add_of_nonneg_right h0
    · change t₀ + validity ≤ t₁ + issuer.cacheTtl
      dsimp only [t₁]
      omega

end Covered

end Issuer

/-! ## The settings of a document -/

namespace Config

variable {cfg : Config} {ext : Externals} {ca : CertificateAuthority Der Key}
  {codec : CertCodec Der Key} {anyEcdsaType : Key → Except Str Unit}

/-- The time the cache keeps a certificate is covered, by what a document says. -/
def TtlCovered (cfg : Config) : Prop :=
  if cfg.store.enabled then (cfg.cache.ttlSecs.toNat : ℤ) ≤ cfg.renewMargin
  else cfg.cache.ttlSecs.toNat < cfg.leafValidity

variable (cfg ca codec anyEcdsaType) in
theorem issuer_ttlCovered_iff :
    (cfg.issuer ca codec anyEcdsaType).TtlCovered cfg.leafValidity ↔ cfg.TtlCovered := by
  rw [Issuer.TtlCovered, TtlCovered]
  cases henabled : cfg.store.enabled with
  | true => simp [issuer, henabled, renewMargin, CertStore.new]
  | false => simp [issuer, henabled]

theorem renewMargin_lt_of_validate (h : cfg.validate ext = .ok ()) :
    cfg.renewMargin < cfg.leafValidity := by
  obtain ⟨_, -, h⟩ := bind_eq_ok.mp h
  obtain ⟨_, -, h⟩ := bind_eq_ok.mp h
  obtain ⟨_, -, h⟩ := bind_eq_ok.mp h
  obtain ⟨_, hvalidity, -⟩ := bind_eq_ok.mp h
  obtain ⟨_, -, hmargin⟩ := bind_eq_ok.mp hvalidity
  have hlt : cfg.store.renewMarginDays.toNat < cfg.ca.leafValidityDays.toNat :=
    UInt32.lt_iff_toNat_lt.mp (UInt32.not_le.mp (failIf_eq_ok.mp hmargin))
  rw [renewMargin, leafValidity]
  omega

theorem margin_lt_of_issuer (h : cfg.validate ext = .ok ()) (store : CertStore)
    (hstore : (cfg.issuer ca codec anyEcdsaType).store = some store) :
    store.renewMargin < cfg.leafValidity := by
  have hlt := renewMargin_lt_of_validate h
  rw [issuer] at hstore
  dsimp only at hstore
  split_ifs at hstore
  obtain rfl := Option.some.inj hstore
  exact hlt

theorem leafValidity_nonneg : 0 ≤ cfg.leafValidity := by
  rw [leafValidity]
  omega

theorem cacheTtl_nonneg : 0 ≤ (cfg.issuer ca codec anyEcdsaType).cacheTtl :=
  Int.natCast_nonneg _

/-- **When no expired certificate is served.** For an accepted document, exactly when the time the
cache keeps a certificate is covered: by the margin of the store, or without one by the validity of
certificates. -/
theorem neverExpired_iff (hcfg : cfg.validate ext = .ok ())
    (hissues : ca.IssuesFor codec cfg.leafValidity)
    (hreadable : (cfg.issuer ca codec anyEcdsaType).IssuesReadable) :
    (cfg.issuer ca codec anyEcdsaType).NeverExpired P ↔ cfg.TtlCovered := by
  rw [← issuer_ttlCovered_iff cfg ca codec anyEcdsaType]
  constructor
  · exact Issuer.covered_of_neverExpired hissues hreadable leafValidity_nonneg cacheTtl_nonneg
      (margin_lt_of_issuer hcfg)
  · intro hcovered
    exact Issuer.neverExpired_of_covered hissues hcovered
      (Issuer.ttl_lt_of_covered hcovered (margin_lt_of_issuer hcfg)) cacheTtl_nonneg

/-! ## A document that is accepted -/

/-- A document with one route and settings for the cache. -/
def cachingDocument (cache : CacheConfig) : Config where
  cache := cache
  listeners := [{
    addr := ⟨.v4 0, 443⟩
    routes := [{ routeType := some .tls, matchSni := ["a.test".toList] }] }]

/-- Parsers that take a file for the object it holds, and know one certificate. -/
private def oneCertCodec : CertCodec Bytes Bytes where
  certs pem := some [pem]
  privateKey pem := some (some pem)
  parse _ := some ⟨(cachingDocument {}).leafValidity, some [.dnsName "a.test".toList]⟩
  timestampInRange _ := true

private def oneCert : IssuedCertificate Bytes Bytes :=
  ⟨[toUtf8 "certificate".toList], toUtf8 "key".toList, "certificate".toList, "key".toList⟩

/-- A CA that issues one certificate, at the epoch. -/
private def oneCertCa : CertificateAuthority Bytes Bytes where
  issue _ sans now _ :=
    if now = 0 ∧ sans = ["a.test".toList] then .ok oneCert else .error "refused".toList

private theorem oneCertCa_issue :
    oneCertCa.issue "a.test".toList ["a.test".toList] 0 0 = .ok oneCert := by
  rw [oneCertCa]
  dsimp only
  rw [if_pos (And.intro rfl rfl)]

private theorem oneCertCa_issuesFor (cache : CacheConfig) :
    oneCertCa.IssuesFor oneCertCodec (cachingDocument cache).leafValidity := by
  intro name sans now seed issued h
  simp only [oneCertCa] at h
  split_ifs at h with hone
  obtain rfl := Except.ok.inj h
  refine ⟨["a.test".toList], ?_⟩
  rw [hone.1, zero_add]
  rfl

private theorem oneCertCa_readable (cache : CacheConfig) :
    ((cachingDocument cache).issuer oneCertCa oneCertCodec fun _ ↦ .ok ()).IssuesReadable :=
  ⟨"a.test".toList, 0, 0, oneCert, (cachingDocument {}).leafValidity, by decide +kernel,
    oneCertCa_issue, rfl, rfl, rfl, rfl⟩

/-- By default, no expired certificate is served. -/
theorem neverExpired_iff_default :
    ((cachingDocument {}).issuer oneCertCa oneCertCodec fun _ ↦ .ok ()).NeverExpired Unit :=
  (neverExpired_iff (show (cachingDocument {}).validate .refusing = .ok () by decide +kernel)
    (oneCertCa_issuesFor {}) (oneCertCa_readable {})).mpr (by rw [TtlCovered]; decide +kernel)

/-- A cache that keeps certificates for 31 days, where the store loads them up to 30 days before
their end, has one served that has expired. -/
theorem not_neverExpired :
    ¬∀ (ext : Externals) (cfg : Config) (ca : CertificateAuthority Bytes Bytes)
      (codec : CertCodec Bytes Bytes) (anyEcdsaType : Bytes → Except Str Unit),
      cfg.validate ext = .ok () → ca.IssuesFor codec cfg.leafValidity →
        (cfg.issuer ca codec anyEcdsaType).NeverExpired Unit := by
  intro h
  have hcfg : (cachingDocument ⟨2678400⟩).validate Externals.refusing = .ok () := by decide +kernel
  have hnever := h .refusing (cachingDocument ⟨2678400⟩) oneCertCa oneCertCodec (fun _ ↦ .ok ())
    hcfg (oneCertCa_issuesFor _)
  have hcovered := Issuer.covered_of_neverExpired (oneCertCa_issuesFor _) (oneCertCa_readable _)
    leafValidity_nonneg cacheTtl_nonneg (margin_lt_of_issuer hcfg) hnever
  rw [issuer_ttlCovered_iff] at hcovered
  exact absurd hcovered (by rw [TtlCovered]; decide +kernel)

end Config

end SniGate
