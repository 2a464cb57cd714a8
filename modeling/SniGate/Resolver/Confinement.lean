import SniGate.Certscope.Identity
import SniGate.Resolver.Expiry
import SniGate.Router.Confined

/-!
# Confinement of what is served

A certificate is issued for a key by a listener whose routes confine each of its names to the scope
of the key. It is served for the key by any listener that has the key, in the same process or after
a restart over the same directory. A key stands for the routing patterns of a listener and for one
forwarding target; it says nothing about where the other routes of the listener forward. So the
listener that serves may route a name of the certificate out of the scope (`not_servesConfined`).

What is served is confined when any two listeners that issue for some host in a common scope route
the same names into it (`servesConfined_of_reach`). The invariant is that every certificate that is
cached or on disk under a key was established by some listener: it covers the host of the key, for
which that listener issues in the scope, and the listener confines all its names.
-/

namespace SniGate

variable {Der Key ρ V P : Type}

/-! ## Names a listener confines -/

namespace DynamicResolver

variable (r : DynamicResolver P)

/-- A host is routed into a certificate scope. -/
def RoutesInto (scope : CertScope) (host : Str) : Prop :=
  ∃ id, r.router.matchHost host = some id ∧ r.scopeOf id = scope

/-- A host for which certificates are issued in a scope: its route pins none. -/
def IssuesIn (scope : CertScope) (host : Str) : Prop :=
  ∃ id, r.router.matchHost host = some id ∧ r.scopeOf id = scope ∧ r.pinnedFor id = none

/-- What a DNS name of a certificate covers is routed into a scope: the name itself, and for a
wildcard every host one label below its parent. -/
def Confines (scope : CertScope) (name : Str) : Prop :=
  match stripStart "*.".toList name with
  | some parent =>
    IsHostName parent → ∀ label, IsLabel label → r.RoutesInto scope (label ++ '.' :: parent)
  | none => IsHostName name → r.RoutesInto scope name

/-- Two resolvers that issue for some host in a common scope route the same names into it. -/
def Agree (r r' : DynamicResolver P) : Prop :=
  ∀ scope host, r.IssuesIn scope host → r'.IssuesIn scope host →
    ∀ name, IsHostName name → r.RoutesInto scope name → r'.RoutesInto scope name

section Confines

variable {r} {r' : DynamicResolver P} {scope : CertScope} {name host : Str}

theorem IssuesIn.routesInto (h : r.IssuesIn scope host) : r.RoutesInto scope host := by
  obtain ⟨id, hmatch, hscope, -⟩ := h
  exact ⟨id, hmatch, hscope⟩

theorem Confines.of_routesInto (h : r.Confines scope name)
    (hroutes : ∀ host, IsHostName host → r.RoutesInto scope host → r'.RoutesInto scope host) :
    r'.Confines scope name := by
  rw [Confines] at h ⊢
  cases hstrip : stripStart "*.".toList name with
  | some parent =>
    rw [hstrip] at h
    exact fun hparent label hlabel ↦
      hroutes _ (isHostName_below hlabel hparent) (h hparent label hlabel)
  | none =>
    rw [hstrip] at h
    exact fun hname ↦ hroutes name hname (h hname)

end Confines

end DynamicResolver

theorem normalizeHost_eq_normalize {s : Str} (h : IsHostName s) :
    normalizeHost s = Router.normalize s := by
  rw [normalizeHost, trim_of_isHostName h, Router.normalize_of_isHostName h]

theorem isHostName_normalizeHost {s : Str} (h : IsHostName s) : IsHostName (normalizeHost s) := by
  rw [normalizeHost_eq_normalize h, Router.normalize_of_isHostName h]
  exact isHostName_asciiLowercase (isHostName_trimEndMatches h)

theorem normalizeHost_normalizeHost {s : Str} (h : IsHostName s) :
    normalizeHost (normalizeHost s) = normalizeHost s := by
  rw [normalizeHost_eq_normalize (isHostName_normalizeHost h), normalizeHost_eq_normalize h,
    Router.normalize_normalize h]

theorem stripStart_of_isHostName {s : Str} (h : IsHostName s) :
    stripStart "*.".toList s = none := by
  cases hstrip : stripStart "*.".toList s with
  | none => rfl
  | some rest =>
    have hin : '*' ∈ s := by
      rw [← stripStart_eq_some.mp hstrip]
      exact List.mem_cons_self
    exact absurd (h _ hin) (by decide)

theorem SuffixList.ne_nil_of_wildcardIsMintable {list : SuffixList} {parent : Str}
    (h : list.wildcardIsMintable parent) : trimEndMatches '.' parent ≠ [] := by
  intro hnil
  have hnone : list.registrableIcann [] = none := by
    rw [registrableIcann]
    cases list.suffix [] with
    | none => rfl
    | some p =>
      obtain ⟨suffix, type⟩ := p
      have hlabel : ∀ s, oneLabelBelow [] s = none := by
        intro s
        rw [oneLabelBelow]
        split_ifs with hs
        · rfl
        · cases hstrip : stripEnd s [] with
          | none => rfl
          | some rest =>
            exact absurd (List.append_eq_nil_iff.mp (stripEnd_eq_some.mp hstrip)).2 (Ne.symm hs)
      dsimp only
      rw [Option.bind_eq_none_iff]
      exact fun s _ ↦ hlabel s
  rw [wildcardIsMintable, hnil, asciiLowercase, List.map_nil, hnone] at h
  simp at h

/-- **What the clipping checks establish.** -/
theorem DynamicResolver.confines_of_judgeName {r : DynamicResolver P} {scope : CertScope}
    {list : SuffixList} {name : Str} (hregex : r.router.RegexConfined)
    (h : judgeName list r.router (fun id ↦ r.scopeOf id = scope) name = none) :
    r.Confines scope name := by
  rw [Confines]
  cases hstrip : stripStart "*.".toList name with
  | some parent =>
    rw [← stripStart_eq_some.mp hstrip] at h
    obtain ⟨-, hmintable, hconfined⟩ := judgeName_wildcard h
    intro hparent label hlabel
    obtain ⟨id, hid, hscope⟩ := Router.matchHost_of_wildcardConfined hregex hlabel hparent
      (SuffixList.ne_nil_of_wildcardIsMintable hmintable) hconfined
    exact ⟨id, hid, of_decide_eq_true hscope⟩
  | none =>
    obtain ⟨id, hid, hscope⟩ := Router.matchHost_of_nameConfined (judgeName_exact hstrip h).2.2
    exact fun _ ↦ ⟨id, hid, of_decide_eq_true hscope⟩

/-! ## Runs of gateways over one directory -/

/-- The resolver of a built listener. -/
def ListenerState.resolver (b : ListenerState ρ V P) : DynamicResolver P :=
  ⟨b.router, b.scopes, b.pinned⟩

/-- A gateway: the document it runs, and what its issuer holds. -/
structure GateState (Der Key : Type) where
  cfg : Config
  state : IssuerState Der Key

/-- What happens to a gateway. -/
inductive GateEvent (P : Type)
  | call (r : DynamicResolver P) (c : ResolverCall)
  /-- The cache drops an entry. -/
  | evict (key : CacheKey)
  /-- The gateway is started again with a document, over what is on disk. -/
  | restart (cfg : Config)

/-- A call about a host name, and for a certificate, on the route of the host, where it pins
none. -/
def ResolverCall.Proper (r : DynamicResolver P) : ResolverCall → Prop
  | .getOrIssue sniHost owner _ =>
    IsHostName sniHost ∧ r.router.matchHost sniHost = some owner ∧ r.pinnedFor owner = none
  | .recordUpstreamSans sniHost _ _ => IsHostName sniHost

/-- What gateways are built from besides their documents, and the directory they share. -/
structure GateEnv (Der Key ρ V P : Type) where
  regexNew : RegexNew
  /-- What the routes of a document are built from. -/
  build : Config → BuildEnv ρ V P
  ca : CertificateAuthority Der Key
  codec : CertCodec Der Key
  anyEcdsaType : Key → Except Str Unit
  dir : Path

namespace GateEnv

variable (env : GateEnv Der Key ρ V P) (docs : Config → Prop)

/-- A resolver of a listener of a document. -/
def Serves (cfg : Config) (r : DynamicResolver P) : Prop :=
  ∃ l ∈ cfg.listeners, ∃ b, buildListener (env.build cfg) cfg l env.regexNew = .ok b ∧
    r = b.resolver

/-- The issuer of a document. -/
def issuer (cfg : Config) : Issuer Der Key := cfg.issuer env.ca env.codec env.anyEcdsaType

/-- What an event leads to. -/
def step (s : GateState Der Key) : GateEvent P → Option (GateState Der Key)
  | .call r c => some { s with state := ((env.issuer s.cfg).call r s.state c).2 }
  | .evict key => some { s with state.cache := s.state.cache.erase key }
  | .restart cfg => some ⟨cfg, { s.state with cache := ∅ }⟩

/-- Calls are made on the listeners of the running document, and the documents are among those
given. -/
def Allowed (s : GateState Der Key) : GateEvent P → Prop
  | .call r c => env.Serves s.cfg r ∧ c.Proper r
  | .evict _ => True
  | .restart cfg => docs cfg

/-- The names on what is served for a host cover it, and the listener that serves confines them to
the scope of the host's route. -/
def ServesConfined (s : GateState Der Key) : Prop :=
  ∀ r, env.Serves s.cfg r → ∀ sniHost owner ctx certified, IsHostName sniHost →
    r.router.matchHost sniHost = some owner → r.pinnedFor owner = none →
    ((env.issuer s.cfg).getOrIssue (Issuer.keyFor r sniHost owner) ctx s.state).1 = .ok certified →
      hostCoveredBy (certified.names env.codec) (normalizeHost sniHost) ∧
        ∀ name ∈ certified.names env.codec, r.Confines (r.scopeOf owner) name

end GateEnv

/-! ## The invariant -/

/-- A name that is not an IPv6 literal, the only names whose text a certificate does not keep. -/
def KeepsText (name : Str) : Prop := '*' ∈ name ∨ ':' ∉ name ∨ parseIpAddr name = none

/-- What the CA issues says what was asked for, and is read back from its PEM form. -/
structure CertificateAuthority.Faithful (ca : CertificateAuthority Der Key)
    (codec : CertCodec Der Key) : Prop where
  names : ∀ name sans now seed issued, ca.issue name sans now seed = .ok issued →
    (∀ san ∈ sans, KeepsText san) →
      ∃ notAfter, CertifiedKey.metadata codec ⟨issued.chain, issued.keyDer⟩ = some (notAfter, sans)
  pem : ∀ name sans now seed issued, ca.issue name sans now seed = .ok issued →
    codec.certs (toUtf8 issued.chainPem) = some issued.chain

namespace GateEnv

variable (env : GateEnv Der Key ρ V P) (docs : Config → Prop)

/-- Names that some listener established for a key. -/
def Established (key : CacheKey) (names : List Str) : Prop :=
  ∃ cfg, docs cfg ∧ ∃ r, env.Serves cfg r ∧ r.IssuesIn key.scope key.sniHost ∧
    hostCoveredBy names key.sniHost ∧ ∀ name ∈ names, r.Confines key.scope name

/-- The certificate file of a key. -/
def certFile (key : CacheKey) : Path :=
  (CertStore.new env.dir 0).certPath key.scope key.sniHost

/-- Every certificate file holds a certificate whose names were established for its key. -/
def FilesEstablished (files : Files Path Bytes) : Prop :=
  ∀ key pem, files (env.certFile key) = some pem → ∃ chain notAfter names,
    env.codec.certs pem = some chain ∧
      chain.head?.bind (leafMetadata env.codec) = some (notAfter, names) ∧
        env.Established docs key names

/-- Every cache entry holds a certificate whose names were established for its key. -/
def CacheEstablished (key : CacheKey) (c : CachedCert Der Key) : Prop :=
  env.Established docs key (c.certified.names env.codec)

section Established

variable {env docs} {cfg : Config} {r : DynamicResolver P} {key : CacheKey} {ctx : CallContext}
  {sniHost : Str} {owner : RouteId} {names sans : List Str} {files : Files Path Bytes}
  {issued : IssuedCertificate Der Key} {stored : StoredCertificate Der Key}
  {observed : Option (List Str)} {now : ℤ}

theorem certPath_eq (hdir : cfg.store.dir = env.dir) {store : CertStore}
    (hstore : (env.issuer cfg).store = some store) (key : CacheKey) :
    store.certPath key.scope key.sniHost = env.certFile key := by
  rw [issuer, Config.issuer] at hstore
  dsimp only at hstore
  split_ifs at hstore
  obtain rfl := Option.some.inj hstore
  rw [certFile, CertStore.certPath, CertStore.certPath, CertStore.scopeDir, CertStore.scopeDir,
    CertStore.new, CertStore.new, hdir]

theorem issuesIn_keyFor (hhost : IsHostName sniHost)
    (hmatch : r.router.matchHost sniHost = some owner) (hpinned : r.pinnedFor owner = none) :
    r.IssuesIn (Issuer.keyFor r sniHost owner).scope (Issuer.keyFor r sniHost owner).sniHost := by
  refine ⟨owner, ?_, rfl, hpinned⟩
  rw [Issuer.keyFor, normalizeHost_eq_normalize hhost, Router.matchHost_normalize r.router hhost]
  exact hmatch

theorem names_eq (h : CertifiedKey.metadata env.codec ⟨issued.chain, issued.keyDer⟩ =
    some (now, names)) : CertifiedKey.names env.codec ⟨issued.chain, issued.keyDer⟩ = names := by
  rw [CertifiedKey.names, h]
  rfl

theorem established_exact (hdocs : docs cfg) (hserves : env.Serves cfg r)
    (hname : IsHostName key.sniHost) (hissues : r.IssuesIn key.scope key.sniHost) :
    env.Established docs key [key.sniHost] := by
  refine ⟨cfg, hdocs, r, hserves, hissues, hostCoveredBy_self, fun name hin ↦ ?_⟩
  obtain rfl := List.mem_singleton.mp hin
  rw [DynamicResolver.Confines, stripStart_of_isHostName hname]
  exact fun _ ↦ hissues.routesInto

theorem established_mirrored (hdocs : docs cfg) (hserves : env.Serves cfg r)
    (hregex : r.router.RegexConfined) (hname : IsHostName key.sniHost)
    (hnorm : normalizeHost key.sniHost = key.sniHost)
    (hissues : r.IssuesIn key.scope key.sniHost) (observed : List Str) :
    env.Established docs key (Issuer.mirrored r key observed ctx).kept := by
  refine ⟨cfg, hdocs, r, hserves, hissues, ?_, fun name hin ↦ ?_⟩
  · have hcovered : hostCoveredBy (Issuer.mirrored r key observed ctx).kept
        (normalizeHost key.sniHost) := hostCoveredBy_clip
    rwa [hnorm] at hcovered
  · rcases mem_kept_clip hin with rfl | hjudge
    · rw [hnorm, DynamicResolver.Confines, stripStart_of_isHostName hname]
      exact fun _ ↦ hissues.routesInto
    · exact DynamicResolver.confines_of_judgeName hregex hjudge

theorem keepsText_of_isHostName {name : Str} (h : IsHostName name) : KeepsText name :=
  .inr (.inl fun hin ↦ absurd (h _ hin) (by decide))

theorem keepsText_of_kept {name : Str} (hname : IsHostName key.sniHost)
    (hnorm : normalizeHost key.sniHost = key.sniHost) {observed : List Str}
    (hin : name ∈ (Issuer.mirrored r key observed ctx).kept) : KeepsText name := by
  rcases mem_kept_clip hin with rfl | hjudge
  · rw [hnorm]
    exact keepsText_of_isHostName hname
  · cases hstrip : stripStart "*.".toList name with
    | some parent =>
      left
      rw [← stripStart_eq_some.mp hstrip]
      exact List.mem_cons_self
    | none => exact .inr (.inr (judgeName_exact hstrip hjudge).2.1)

/-- Saving a certificate whose names were established keeps the files established, wherever it
stops. -/
theorem filesEstablished_persist (hdir : cfg.store.dir = env.dir)
    (hcerts : env.codec.certs (toUtf8 issued.chainPem) = some issued.chain)
    (hmeta : CertifiedKey.metadata env.codec ⟨issued.chain, issued.keyDer⟩ = some (now, names))
    (hnames : env.Established docs key names) (h : env.FilesEstablished docs files) :
    env.FilesEstablished docs ((env.issuer cfg).persist key issued observed ctx files) := by
  rw [Issuer.persist]
  cases hstore : (env.issuer cfg).store with
  | none => exact h
  | some store =>
    intro key' pem hpem
    have hstop := stopsWith_stopAfter
      (store.saveOps key.scope key.sniHost issued.chainPem issued.keyPem observed) ctx.written
      ctx.torn files
    have hpath := certPath_eq hdir hstore
    dsimp only at hpem
    rw [← hpath] at hpem
    by_cases hkey : key' = key
    · subst hkey
      have hnew : ∀ {g : Files Path Bytes},
          g (store.certPath key'.scope key'.sniHost) = some (toUtf8 issued.chainPem) →
          CertStore.SameFiles store key'.scope key'.sniHost
            (stopAfter
              (store.saveOps key'.scope key'.sniHost issued.chainPem issued.keyPem observed)
              ctx.written ctx.torn files) g →
          ∃ chain notAfter names, env.codec.certs pem = some chain ∧
            chain.head?.bind (leafMetadata env.codec) = some (notAfter, names) ∧
              env.Established docs key' names := by
        intro g hg hsame
        obtain rfl := Option.some.inj ((hpem.symm.trans hsame.1).trans hg)
        exact ⟨issued.chain, now, names, hcerts, hmeta, hnames⟩
      rcases CertStore.stops_sameFiles hstop with hsame | hsame | hsame | hsame
      · exact h key' pem (by rw [← hpath, ← hsame.1]; exact hpem)
      · exact hnew (CertStore.afterChain_files _ _ _ _ _).1 hsame
      · exact hnew (CertStore.afterKey_files _ _ _ _ _ _).1 hsame
      · exact hnew (CertStore.save_files _ _ _ _ _ _ _).1 hsame
    · have hsame := CertStore.sameFiles_of_other (fun heq ↦ hkey (CacheKey.eq_of_pair heq)) hstop
      exact h key' pem (by rw [← hpath, ← hsame.1]; exact hpem)

end Established

/-! ## Runs -/

section Runs

variable {env docs} {cfg : Config} {r r' : DynamicResolver P} {key : CacheKey} {ctx : CallContext}
  {sniHost : Str} {owner : RouteId} {names : List Str} {st : IssuerState Der Key}
  {s t : GateState Der Key} {e : GateEvent P}

theorem cacheEstablished_of_persisted (hdir : cfg.store.dir = env.dir)
    {stored : StoredCertificate Der Key} {now : ℤ} {observed : Option (List Str)}
    (hfiles : env.FilesEstablished docs st.files)
    (h : (env.issuer cfg).persisted key ctx.now st.files = some stored) :
    env.CacheEstablished docs key ⟨⟨stored.chain, stored.key⟩, observed, now⟩ := by
  obtain ⟨hload, -⟩ := Option.filter_eq_some_iff.mp h
  obtain ⟨store, hstore, hload⟩ := Option.bind_eq_some_iff.mp hload
  obtain ⟨⟨pem, hfile, hcerts⟩, hmeta, -⟩ :=
    CertStore.readChain_eq_some (CertStore.spec_of_load hload).1
  rw [certPath_eq hdir hstore] at hfile
  obtain ⟨chain, notAfter, names, hcerts', hmeta', hnames⟩ := hfiles key pem hfile
  obtain rfl := Option.some.inj (hcerts'.symm.trans hcerts)
  rwa [CacheEstablished, CertifiedKey.names, CertifiedKey.metadata, hmeta']

/-- What is signed for established names is established, cached and on disk. -/
theorem established_of_issue (hdir : cfg.store.dir = env.dir) (hca : env.ca.Faithful env.codec)
    (hkeeps : ∀ name ∈ names, KeepsText name) (hnames : env.Established docs key names)
    (observed : Option (List Str)) (hfiles : env.FilesEstablished docs st.files)
    {issued : IssuedCertificate Der Key} (h : (env.issuer cfg).issue key names ctx = .ok issued) :
    env.CacheEstablished docs key ⟨⟨issued.chain, issued.keyDer⟩, observed, ctx.now⟩ ∧
      env.FilesEstablished docs ((env.issuer cfg).persist key issued observed ctx st.files) := by
  obtain ⟨hissue, -⟩ := Issuer.issue_eq_ok h
  obtain ⟨notAfter, hmeta⟩ := hca.names _ _ _ _ _ hissue hkeeps
  refine ⟨?_, filesEstablished_persist hdir (hca.pem _ _ _ _ _ hissue) hmeta hnames hfiles⟩
  rwa [CacheEstablished, names_eq hmeta]

/-- **Handshakes** keep what is established, and are served what is. -/
theorem established_getOrIssue (hdir : cfg.store.dir = env.dir) (hca : env.ca.Faithful env.codec)
    (hdocs : docs cfg) (hserves : env.Serves cfg r) (hhost : IsHostName sniHost)
    (hmatch : r.router.matchHost sniHost = some owner) (hpinned : r.pinnedFor owner = none)
    (hs : st.Kept (env.CacheEstablished docs) (env.FilesEstablished docs)) :
    ((env.issuer cfg).getOrIssue (Issuer.keyFor r sniHost owner) ctx st).2.Kept
        (env.CacheEstablished docs) (env.FilesEstablished docs) ∧
      ∀ certified,
        ((env.issuer cfg).getOrIssue (Issuer.keyFor r sniHost owner) ctx st).1 = .ok certified →
          env.Established docs (Issuer.keyFor r sniHost owner) (certified.names env.codec) := by
  have hname : IsHostName (Issuer.keyFor r sniHost owner).sniHost := isHostName_normalizeHost hhost
  obtain ⟨hkept, hanswer⟩ := Issuer.kept_getOrIssue hs Config.cacheTtl_nonneg
    (fun _ h ↦ cacheEstablished_of_persisted hdir hs.files h)
    (fun _ h ↦ established_of_issue hdir hca
      (fun name hin ↦ keepsText_of_isHostName (List.mem_singleton.mp hin ▸ hname))
      (established_exact hdocs hserves hname (issuesIn_keyFor hhost hmatch hpinned)) none
      hs.files h)
  refine ⟨hkept, fun certified h ↦ ?_⟩
  obtain ⟨c, hc, rfl, -⟩ := hanswer certified h
  exact hc

/-- **Calls** keep what is established. -/
theorem kept_call (hdir : cfg.store.dir = env.dir) (hca : env.ca.Faithful env.codec)
    (hdocs : docs cfg) (hserves : env.Serves cfg r) (hregex : r.router.RegexConfined)
    {c : ResolverCall} (hproper : c.Proper r)
    (hs : st.Kept (env.CacheEstablished docs) (env.FilesEstablished docs)) :
    ((env.issuer cfg).call r st c).2.Kept (env.CacheEstablished docs)
      (env.FilesEstablished docs) := by
  cases c with
  | getOrIssue sniHost owner ctx =>
    obtain ⟨hhost, hmatch, hpinned⟩ := hproper
    exact (established_getOrIssue hdir hca hdocs hserves hhost hmatch hpinned hs).1
  | recordUpstreamSans sniHost observed ctx =>
    rw [Issuer.call]
    cases hkey : Issuer.recordKey r sniHost with
    | none => exact hs
    | some key =>
      obtain ⟨owner, hmatch, hkey⟩ := Option.bind_eq_some_iff.mp hkey
      split_ifs at hkey with hpinned
      obtain rfl := Option.some.inj hkey
      have hhost : IsHostName sniHost := hproper
      have hname : IsHostName (Issuer.keyFor r sniHost owner).sniHost :=
        isHostName_normalizeHost hhost
      have hnorm : normalizeHost (Issuer.keyFor r sniHost owner).sniHost =
        (Issuer.keyFor r sniHost owner).sniHost := normalizeHost_normalizeHost hhost
      exact Issuer.kept_recordUpstreamSans hs fun _ h ↦
        established_of_issue hdir hca (fun _ hin ↦ keepsText_of_kept hname hnorm hin)
          (established_mirrored hdocs hserves hregex hname hnorm
            (issuesIn_keyFor hhost hmatch (Option.not_isSome_iff_eq_none.mp hpinned)) observed)
          (some observed) hs.files h

/-- **Steps** keep what is established. -/
theorem kept_step (hdir : ∀ cfg, docs cfg → cfg.store.dir = env.dir)
    (hregex : ∀ cfg, docs cfg → ∀ r, env.Serves cfg r → r.router.RegexConfined)
    (hca : env.ca.Faithful env.codec)
    (hs : docs s.cfg ∧ s.state.Kept (env.CacheEstablished docs) (env.FilesEstablished docs))
    (hallowed : env.Allowed docs s e) (h : env.step s e = some t) :
    docs t.cfg ∧ t.state.Kept (env.CacheEstablished docs) (env.FilesEstablished docs) := by
  obtain ⟨hdocs, hkept⟩ := hs
  cases e with
  | call r c =>
    obtain ⟨hserves, hproper⟩ := hallowed
    obtain rfl := Option.some.inj h
    exact ⟨hdocs,
      kept_call (hdir _ hdocs) hca hdocs hserves (hregex _ hdocs r hserves) hproper hkept⟩
  | evict key =>
    obtain rfl := Option.some.inj h
    exact ⟨hdocs, hkept.evict key⟩
  | restart cfg =>
    obtain rfl := Option.some.inj h
    exact ⟨hallowed, hkept.restart⟩

variable (docs) in
/-- **What is served is confined**, when any two listeners that issue for some host in a common
scope route the same names into it. -/
theorem servesConfined_of_reach {cfg₀ : Config}
    (hdir : ∀ cfg, docs cfg → cfg.store.dir = env.dir)
    (hregex : ∀ cfg, docs cfg → ∀ r, env.Serves cfg r → r.router.RegexConfined)
    (hca : env.ca.Faithful env.codec)
    (hagree : ∀ cfg cfg' r r', docs cfg → docs cfg' → env.Serves cfg r → env.Serves cfg' r' →
      r.Agree r')
    (hdocs : docs cfg₀) (h : Reach env.step (env.Allowed docs) ⟨cfg₀, .empty⟩ s) :
    env.ServesConfined s := by
  have hinv : docs s.cfg ∧ s.state.Kept (env.CacheEstablished docs) (env.FilesEstablished docs) :=
    h.invariant ⟨hdocs, ⟨fun _ _ hc ↦ absurd hc (by simp [IssuerState.empty]),
      fun _ _ hfile ↦ absurd hfile (by simp [IssuerState.empty])⟩⟩
      fun _ _ _ hs hallowed hnext ↦ kept_step hdir hregex hca hs hallowed hnext
  intro r hserves sniHost owner ctx certified hhost hmatch hpinned hserved
  -- `r'` is the listener that established the names, `r` the one that serves them
  obtain ⟨cfg, hdocs', r', hserves', hissues', hcovered, hconfines⟩ :=
    (established_getOrIssue (hdir _ hinv.1) hca hinv.1 hserves hhost hmatch hpinned hinv.2).2
      certified hserved
  exact ⟨hcovered, fun name hin ↦ (hconfines name hin).of_routesInto
    (hagree cfg s.cfg r' r hdocs' hinv.1 hserves' hserves _ _ hissues'
      (issuesIn_keyFor hhost hmatch hpinned))⟩

end Runs

/-! ## Two listeners -/

/-- The texts of which gateways of these documents take a digest. -/
def Digested (text : Str) : Prop :=
  ∃ cfg, docs cfg ∧ ∃ l ∈ cfg.listeners,
    text = fingerprintText l.patterns l.defaultId cfg.regexes ∨
      ∃ route ∈ l.allRoutes, ∃ b, buildRoute (env.build cfg) cfg l route = .ok b ∧
        text = canonical (routerFingerprint l.patterns l.defaultId cfg.regexes) b.forwarding

/-- No digests collide. -/
def DigestsApart : Prop :=
  ∀ x y, env.Digested docs x → env.Digested docs y → NoCollision x y

section Examples

private def pairNames : List Str := ["a.test".toList, "b.test".toList]

/-- Parsers that take a file for the object it holds, and know one certificate. -/
private def pairCodec : CertCodec Bytes Bytes where
  certs pem := some [pem]
  privateKey pem := some (some pem)
  parse _ := some ⟨8640000, some (pairNames.map .dnsName)⟩
  timestampInRange _ := true

private def pairCert : IssuedCertificate Bytes Bytes :=
  ⟨[toUtf8 "certificate".toList], toUtf8 "key".toList, "certificate".toList, "key".toList⟩

/-- A CA that issues for two names together. -/
private def pairCa : CertificateAuthority Bytes Bytes where
  issue _ sans _ _ := if sans = pairNames then .ok pairCert else .error "refused".toList

private theorem pairCa_faithful : pairCa.Faithful pairCodec := by
  have hone : ∀ {name sans now seed issued}, pairCa.issue name sans now seed = .ok issued →
      sans = pairNames ∧ issued = pairCert := by
    intro name sans now seed issued h
    simp only [pairCa] at h
    split_ifs at h with hsans
    exact ⟨hsans, (Except.ok.inj h).symm⟩
  refine ⟨fun name sans now seed issued h _ ↦ ?_, fun name sans now seed issued h ↦ ?_⟩
  · obtain ⟨rfl, rfl⟩ := hone h
    exact ⟨8640000, rfl⟩
  · obtain ⟨-, rfl⟩ := hone h
    rfl

/-- Gateways whose resolvers and verifiers are all the same, over the default directory. -/
private def pairEnv : GateEnv Bytes Bytes Unit Unit Unit where
  regexNew := Externals.refusing.regexNew
  build _ := .willing
  ca := pairCa
  codec := pairCodec
  anyEcdsaType _ := .ok ()
  dir := ["certs".toList]

private def edgeRoute (host upstream : Str) : Route :=
  { routeType := some .tls, matchSni := [host], upstream := some upstream }

/-- A listener whose two hosts are forwarded to the given upstreams. -/
private def edgeListener (addr : BitVec 32) (upstream upstream' : Str) : Listener :=
  { addr := ⟨.v4 addr, 443⟩
    routes := [edgeRoute "a.test".toList upstream, edgeRoute "b.test".toList upstream'] }

/-- Both hosts go to one upstream. -/
private def sharedListener : Listener := edgeListener 1 "x.test".toList "x.test".toList

/-- Only the first host goes there. -/
private def splitListener : Listener := edgeListener 2 "x.test".toList "y.test".toList

/-- The same routes at another address. -/
private def twinListener : Listener := edgeListener 3 "x.test".toList "x.test".toList

private def twinDocument : Config := { listeners := [sharedListener, twinListener] }

private def twoDocument : Config := { listeners := [sharedListener, splitListener] }

/-- What is held once both names have been observed for the first host. -/
private def recorded (cfg : Config) (r : DynamicResolver Unit) : IssuerState Bytes Bytes :=
  ((pairEnv.issuer cfg).call r .empty
    (.recordUpstreamSans "a.test".toList pairNames (.atTime 0))).2

/-- What one listener serves for the first host after another has observed both names: the names,
the route of the host, whether it pins no certificate, and whether the second host has the same
scope. -/
private def afterRecord (cfg : Config) (l l' : Listener) :
    Option (Option (List Str) × Option RouteId × Bool × Option Bool) := do
  let b ← (buildListener (pairEnv.build cfg) cfg l pairEnv.regexNew).toOption
  let b' ← (buildListener (pairEnv.build cfg) cfg l' pairEnv.regexNew).toOption
  let r := b'.resolver
  let answer := ((pairEnv.issuer cfg).getOrIssue (Issuer.keyFor r "a.test".toList 0) (.atTime 0)
    (recorded cfg b.resolver)).1
  return (answer.toOption.map fun c ↦ c.names pairCodec, r.router.matchHost "a.test".toList,
    (r.pinnedFor 0).isNone,
    (r.router.matchHost "b.test".toList).map fun id ↦ r.scopeOf id = r.scopeOf 0)

/-- No listener has a route for a regular expression. -/
private def regexFree (cfg : Config) : Bool :=
  cfg.listeners.all fun l ↦
    match buildListener (pairEnv.build cfg) cfg l pairEnv.regexNew with
    | .ok b => b.router.regex.isEmpty
    | .error _ => true

private theorem regexConfined_of_regexFree {cfg : Config} {r : DynamicResolver Unit}
    (h : regexFree cfg) (hserves : pairEnv.Serves cfg r) : r.router.RegexConfined := by
  obtain ⟨l, hl, b, hb, rfl⟩ := hserves
  have hl' := List.all_eq_true.mp h l hl
  rw [hb] at hl'
  intro route hroute
  rw [show b.resolver.router.regex = [] from List.isEmpty_iff.mp hl'] at hroute
  exact absurd hroute List.not_mem_nil

private theorem reach_recorded {cfg : Config} {docs : Config → Prop} {r : DynamicResolver Unit}
    (hserves : pairEnv.Serves cfg r) :
    Reach pairEnv.step (pairEnv.Allowed docs) ⟨cfg, .empty⟩ ⟨cfg, recorded cfg r⟩ :=
  Reach.start.step (e := .call r (.recordUpstreamSans "a.test".toList pairNames (.atTime 0)))
    ⟨hserves, show IsHostName "a.test".toList by decide +kernel⟩ rfl

private theorem of_afterRecord {cfg : Config} {l l' : Listener} {names : List Str} {owner : RouteId}
    {unpinned : Bool} {shared : Option Bool}
    (h : afterRecord cfg l l' = some (some names, some owner, unpinned, shared)) :
    ∃ b b', buildListener (pairEnv.build cfg) cfg l pairEnv.regexNew = .ok b ∧
      buildListener (pairEnv.build cfg) cfg l' pairEnv.regexNew = .ok b' ∧
      (∃ certified, ((pairEnv.issuer cfg).getOrIssue
          (Issuer.keyFor b'.resolver "a.test".toList 0) (.atTime 0) (recorded cfg b.resolver)).1 =
          .ok certified ∧ certified.names pairCodec = names) ∧
      b'.resolver.router.matchHost "a.test".toList = some owner ∧
      (b'.resolver.pinnedFor 0).isNone = unpinned ∧
      ((b'.resolver.router.matchHost "b.test".toList).map fun id ↦
        decide (b'.resolver.scopeOf id = b'.resolver.scopeOf 0)) = shared := by
  rw [afterRecord] at h
  obtain ⟨b, hb, h⟩ := Option.bind_eq_some_iff.mp h
  obtain ⟨b', hb', h⟩ := Option.bind_eq_some_iff.mp h
  obtain ⟨hnames, howner, hpinned, hshared⟩ : _ ∧ _ ∧ _ ∧ _ := by
    simpa only [Option.pure_def, Option.some.injEq, Prod.mk.injEq] using h
  obtain ⟨certified, hcertified, hnames⟩ := Option.map_eq_some_iff.mp hnames
  exact ⟨b, b', eq_ok_of_toOption hb, eq_ok_of_toOption hb',
    ⟨certified, eq_ok_of_toOption hcertified, hnames⟩, howner, hpinned, hshared⟩

/-- Two listeners with the same routes may serve what either of them has established. -/
theorem servesConfined_of_reach_twinListeners :
    ∃ b b', buildListener (pairEnv.build twinDocument) twinDocument sharedListener
        pairEnv.regexNew = .ok b ∧
      buildListener (pairEnv.build twinDocument) twinDocument twinListener pairEnv.regexNew =
        .ok b' ∧
      pairEnv.ServesConfined ⟨twinDocument, recorded twinDocument b.resolver⟩ := by
  obtain ⟨b, b', hb, hb', -⟩ :=
    of_afterRecord (show afterRecord twinDocument sharedListener twinListener =
      some (some pairNames, some 0, true, some true) by decide +kernel)
  have hserves : pairEnv.Serves twinDocument b.resolver := ⟨sharedListener, by decide, b, hb, rfl⟩
  -- a resolver has no part in the address of its listener
  have hsame : (buildListener (pairEnv.build twinDocument) twinDocument sharedListener
      pairEnv.regexNew).map ListenerState.resolver =
        (buildListener (pairEnv.build twinDocument) twinDocument twinListener
          pairEnv.regexNew).map ListenerState.resolver := rfl
  rw [hb, hb'] at hsame
  have honly : ∀ {r}, pairEnv.Serves twinDocument r → r = b.resolver := by
    rintro r ⟨l, hl, b'', hb'', rfl⟩
    rcases List.mem_pair.mp hl with rfl | rfl
    · rw [Except.ok.inj (hb''.symm.trans hb)]
    · rw [Except.ok.inj (hb''.symm.trans hb')]
      exact (Except.ok.inj hsame).symm
  refine ⟨b, b', hb, hb', servesConfined_of_reach (fun cfg ↦ cfg = twinDocument) ?_ ?_
    pairCa_faithful ?_ rfl (reach_recorded hserves)⟩
  · rintro cfg rfl
    rfl
  · rintro cfg rfl r hr
    exact regexConfined_of_regexFree (by decide +kernel) hr
  · rintro cfg cfg' r r' rfl rfl hr hr'
    rw [honly hr, honly hr']
    exact fun _ _ _ _ name _ hname ↦ hname

private def digestedTexts : List Str :=
  twoDocument.listeners.flatMap fun l ↦
    fingerprintText l.patterns l.defaultId twoDocument.regexes :: l.allRoutes.filterMap fun route ↦
      (buildRoute (pairEnv.build twoDocument) twoDocument l route).toOption.map fun b ↦
        canonical (routerFingerprint l.patterns l.defaultId twoDocument.regexes) b.forwarding

private theorem digestsApart_twoDocument : pairEnv.DigestsApart fun cfg ↦ cfg = twoDocument := by
  have hmem : ∀ x, pairEnv.Digested (fun cfg ↦ cfg = twoDocument) x → x ∈ digestedTexts := by
    rintro x ⟨cfg, rfl, l, hl, rfl | ⟨route, hroute, b, hb, rfl⟩⟩
    · exact List.mem_flatMap.mpr ⟨l, hl, List.mem_cons_self⟩
    · refine List.mem_flatMap.mpr ⟨l, hl, List.mem_cons_of_mem _ (List.mem_filterMap.mpr
        ⟨route, hroute, ?_⟩)⟩
      rw [hb]
      rfl
  have happart : ∀ x ∈ digestedTexts, ∀ y ∈ digestedTexts,
      fnv1a (toUtf8 x) = fnv1a (toUtf8 y) → toUtf8 x = toUtf8 y := by decide +kernel
  exact fun x y hx hy ↦ happart x (hmem x hx) y (hmem y hy)

/-- Two listeners with the same patterns, of which one forwards the second host elsewhere: it serves
what the other established for the two together. -/
theorem not_servesConfined :
    ¬∀ (ext : Externals) (env : GateEnv Bytes Bytes Unit Unit Unit) (docs : Config → Prop)
      (cfg₀ : Config) (s : GateState Bytes Bytes), ext.Sound → env.regexNew = ext.regexNew →
      (∀ cfg, docs cfg → cfg.validate ext = .ok () ∧ cfg.store.dir = env.dir) →
      (∀ cfg, docs cfg → ∀ r, env.Serves cfg r → r.router.RegexConfined) →
      env.ca.Faithful env.codec → env.DigestsApart docs → docs cfg₀ →
      Reach env.step (env.Allowed docs) ⟨cfg₀, .empty⟩ s → env.ServesConfined s := by
  intro h
  obtain ⟨b, b', hb, hb', ⟨certified, hserved, hnames⟩, hmatch, hpinned, hshared⟩ :=
    of_afterRecord (show afterRecord twoDocument sharedListener splitListener =
      some (some pairNames, some 0, true, some false) by decide +kernel)
  have hserves : pairEnv.Serves twoDocument b.resolver := ⟨sharedListener, by decide, b, hb, rfl⟩
  have hserves' : pairEnv.Serves twoDocument b'.resolver := ⟨splitListener, by decide, b', hb', rfl⟩
  have hconfined := h Externals.refusing pairEnv (fun cfg ↦ cfg = twoDocument) twoDocument
    ⟨twoDocument, recorded twoDocument b.resolver⟩ Externals.refusing_sound rfl
    (fun cfg hcfg ↦ hcfg ▸ ⟨by decide +kernel, rfl⟩)
    (fun cfg hcfg r hr ↦ regexConfined_of_regexFree (by decide +kernel) (hcfg ▸ hr))
    pairCa_faithful digestsApart_twoDocument rfl (reach_recorded hserves)
  obtain ⟨-, hconfines⟩ := hconfined b'.resolver hserves' "a.test".toList 0 (.atTime 0) certified
    (by decide +kernel) hmatch (Option.isNone_iff_eq_none.mp hpinned) hserved
  have hcarried : "b.test".toList ∈ certified.names pairCodec := by
    rw [hnames]
    decide +kernel
  have hsecond := hconfines "b.test".toList hcarried
  rw [DynamicResolver.Confines, stripStart_of_isHostName (by decide +kernel)] at hsecond
  obtain ⟨id, hid, hscope⟩ := hsecond (by decide +kernel)
  rw [hid] at hshared
  exact absurd hscope (by simpa using hshared)

end Examples

end GateEnv

end SniGate
