import SniGate.Resolver.Basic
import SniGate.Transition.Isolation

/-!
# Isolation of names

What is served for a key depends on the calls about that key, and on what its files held at the
start. Calls about other keys, and with them what upstreams answered for other names, do not matter
(`servedNames_isolated`): they neither touch the cache entry of the key nor write one of its files.
-/

namespace SniGate

namespace Issuer

variable {Der Key P : Type} (issuer : Issuer Der Key) (r : DynamicResolver P) (key : CacheKey)

/-- Files that are alike for a key. -/
def FilesAlike (files files' : Files Path Bytes) : Prop :=
  ∀ store, issuer.store = some store → CertStore.SameFiles store key.scope key.sniHost files files'

/-- States that are alike for a key: in its cache entry and in its files. -/
def Alike (s t : IssuerState Der Key) : Prop :=
  s.cache.lookup key = t.cache.lookup key ∧ issuer.FilesAlike key s.files t.files

/-- The names of the certificates served for a key along a run, in order. -/
def servedNames (s : IssuerState Der Key) (calls : List ResolverCall) : List (List Str) :=
  (observedAnswers (issuer.call r) (fun call ↦ call.key r = some key) s calls).filterMap
    fun answer ↦ (answer.bind Except.toOption).map fun c ↦ c.names issuer.codec

section

variable {issuer r key} {s t : IssuerState Der Key} {key' : CacheKey} {ctx : CallContext}
  {files files' : Files Path Bytes} {sans : List Str} {observed : Option (List Str)}
  {certified : CertifiedKey Der Key} {issued : IssuedCertificate Der Key} {now : ℤ}

theorem filesAlike_refl : issuer.FilesAlike key files files := fun _ _ ↦ ⟨rfl, rfl, rfl⟩

theorem alike_refl : issuer.Alike key s s := ⟨rfl, filesAlike_refl⟩

/-! ## Calls about another key -/

variable (sans observed ctx) in
theorem filesAlike_sign_of_ne (hkey : key' ≠ key) (h : issuer.FilesAlike key files files') :
    issuer.FilesAlike key (issuer.sign key' sans observed ctx files).2 files' := by
  intro store hstore
  rw [sign]
  cases issuer.issue key' sans ctx with
  | error e => exact h store hstore
  | ok issued =>
    refine CertStore.SameFiles.trans ?_ (h store hstore)
    dsimp only
    rw [persist, hstore]
    exact CertStore.sameFiles_of_other (fun heq ↦ hkey (CacheKey.eq_of_pair heq).symm)
      (stopsWith_stopAfter _ _ _ _)

theorem alike_cacheInsert_of_ne (hkey : key' ≠ key) (h : issuer.Alike key s t) :
    issuer.Alike key (cacheInsert s key' certified observed now) t :=
  ⟨(AList.lookup_insert_ne (Ne.symm hkey)).trans h.1, h.2⟩

theorem alike_getOrIssue_of_ne (hkey : key' ≠ key) (h : issuer.Alike key s t) :
    issuer.Alike key (issuer.getOrIssue key' ctx s).2 t := by
  rw [getOrIssue]
  cases issuer.cacheGet s.cache key' ctx.now with
  | some existing => exact h
  | none =>
    cases issuer.persisted key' ctx.now s.files with
    | some stored =>
      dsimp only
      cases issuer.anyEcdsaType stored.key with
      | error e => exact h
      | ok => exact alike_cacheInsert_of_ne hkey h
    | none =>
      dsimp only
      have hfiles := filesAlike_sign_of_ne ctx [key'.sniHost] none hkey h.2
      generalize issuer.sign key' [key'.sniHost] none ctx s.files = signed at hfiles ⊢
      obtain ⟨answer, files⟩ := signed
      cases answer with
      | error e => exact ⟨h.1, hfiles⟩
      | ok certified => exact alike_cacheInsert_of_ne hkey ⟨h.1, hfiles⟩

theorem alike_recordUpstreamSans_of_ne {names : List Str} (hkey : key' ≠ key)
    (h : issuer.Alike key s t) :
    issuer.Alike key (issuer.recordUpstreamSans r key' names ctx s) t := by
  rw [recordUpstreamSans]
  split_ifs
  · exact h
  · have hfiles := filesAlike_sign_of_ne ctx (mirrored r key' names ctx).kept (some names) hkey h.2
    generalize issuer.sign key' _ (some names) ctx s.files = signed at hfiles ⊢
    obtain ⟨answer, files⟩ := signed
    cases answer with
    | error e => exact ⟨h.1, hfiles⟩
    | ok certified => exact alike_cacheInsert_of_ne hkey ⟨h.1, hfiles⟩

/-! ## Calls about the key -/

theorem cacheGet_congr (h : s.cache.lookup key = t.cache.lookup key) :
    issuer.cacheGet s.cache key now = issuer.cacheGet t.cache key now := by
  rw [cacheGet, cacheGet, h]

theorem persisted_congr (h : issuer.FilesAlike key files files') :
    issuer.persisted key now files = issuer.persisted key now files' := by
  rw [persisted, persisted]
  cases hstore : issuer.store with
  | none => rfl
  | some store => rw [Option.bind_some, Option.bind_some, CertStore.load_congr (h store hstore)]

variable (sans observed ctx) in
/-- Signing has the same outcome, and leaves files that are alike. -/
theorem sign_congr (h : issuer.FilesAlike key files files') :
    (issuer.sign key sans observed ctx files).1 = (issuer.sign key sans observed ctx files').1 ∧
      issuer.FilesAlike key (issuer.sign key sans observed ctx files).2
        (issuer.sign key sans observed ctx files').2 := by
  rw [sign, sign]
  cases issuer.issue key sans ctx with
  | error e => exact ⟨rfl, h⟩
  | ok issued =>
    refine ⟨rfl, fun store hstore ↦ ?_⟩
    dsimp only
    rw [persist, persist, hstore]
    exact CertStore.sameFiles_stopAfter (h store hstore) _ _

theorem alike_cacheInsert (h : issuer.FilesAlike key s.files t.files) :
    issuer.Alike key (cacheInsert s key certified observed now)
      (cacheInsert t key certified observed now) :=
  ⟨(AList.lookup_insert s.cache).trans (AList.lookup_insert t.cache).symm, h⟩

theorem getOrIssue_congr (h : issuer.Alike key s t) :
    (issuer.getOrIssue key ctx s).1 = (issuer.getOrIssue key ctx t).1 ∧
      issuer.Alike key (issuer.getOrIssue key ctx s).2 (issuer.getOrIssue key ctx t).2 := by
  rw [getOrIssue, getOrIssue, cacheGet_congr h.1, persisted_congr h.2]
  cases issuer.cacheGet t.cache key ctx.now with
  | some existing => exact ⟨rfl, h⟩
  | none =>
    cases issuer.persisted key ctx.now t.files with
    | some stored =>
      dsimp only
      cases issuer.anyEcdsaType stored.key with
      | error e => exact ⟨rfl, h⟩
      | ok => exact ⟨rfl, alike_cacheInsert h.2⟩
    | none =>
      dsimp only
      obtain ⟨hanswer, hfiles⟩ := sign_congr ctx [key.sniHost] none h.2
      generalize issuer.sign key [key.sniHost] none ctx s.files = signed at hanswer hfiles ⊢
      generalize issuer.sign key [key.sniHost] none ctx t.files = signed' at hanswer hfiles ⊢
      obtain ⟨answer, files⟩ := signed
      obtain ⟨answer', files'⟩ := signed'
      obtain rfl : answer = answer' := hanswer
      cases answer with
      | error e => exact ⟨rfl, h.1, hfiles⟩
      | ok certified => exact ⟨rfl, alike_cacheInsert hfiles⟩

theorem recordUpstreamSans_congr {names : List Str} (h : issuer.Alike key s t) :
    issuer.Alike key (issuer.recordUpstreamSans r key names ctx s)
      (issuer.recordUpstreamSans r key names ctx t) := by
  rw [recordUpstreamSans, recordUpstreamSans, cacheGet_congr h.1]
  split_ifs
  · exact h
  · obtain ⟨hanswer, hfiles⟩ := sign_congr ctx (mirrored r key names ctx).kept (some names) h.2
    generalize issuer.sign key _ (some names) ctx s.files = signed at hanswer hfiles ⊢
    generalize issuer.sign key _ (some names) ctx t.files = signed' at hanswer hfiles ⊢
    obtain ⟨answer, files⟩ := signed
    obtain ⟨answer', files'⟩ := signed'
    obtain rfl : answer = answer' := hanswer
    cases answer with
    | error e => exact ⟨h.1, hfiles⟩
    | ok certified => exact alike_cacheInsert hfiles

/-! ## Runs -/

variable (issuer r key) in
theorem unwinding_alike :
    Unwinding (issuer.call r) (fun call ↦ call.key r = some key) (issuer.Alike key) where
  refl _ := alike_refl
  invisible s t call hkey h := by
    cases call with
    | getOrIssue sniHost owner ctx =>
      exact alike_getOrIssue_of_ne (fun heq ↦ hkey (congrArg some heq)) h
    | recordUpstreamSans sniHost observed ctx =>
      rw [call]
      cases hrecord : recordKey r sniHost with
      | none => exact h
      | some key' =>
        refine alike_recordUpstreamSans_of_ne (fun heq ↦ hkey ?_) h
        rw [ResolverCall.key, hrecord, heq]
  answer s t call hkey h := by
    cases call with
    | getOrIssue sniHost owner ctx =>
      obtain rfl := Option.some.inj hkey
      exact congrArg some (getOrIssue_congr h).1
    | recordUpstreamSans sniHost observed ctx =>
      have hrecord : recordKey r sniHost = some key := hkey
      rw [call, call, hrecord]
  visible s t call hkey h := by
    cases call with
    | getOrIssue sniHost owner ctx =>
      obtain rfl := Option.some.inj hkey
      exact (getOrIssue_congr h).2
    | recordUpstreamSans sniHost observed ctx =>
      have hrecord : recordKey r sniHost = some key := hkey
      rw [call, call, hrecord]
      exact recordUpstreamSans_congr h

/-- **Isolation of names.** Two runs of a resolver with the same calls about a key, from states that
are alike for it, serve certificates with the same names for that key. -/
theorem servedNames_isolated {calls calls' : List ResolverCall} (hstart : issuer.Alike key s t)
    (hcalls : (calls.filter fun call ↦ call.key r = some key) =
      calls'.filter fun call ↦ call.key r = some key) :
    issuer.servedNames r key s calls = issuer.servedNames r key t calls' := by
  rw [servedNames, servedNames, (unwinding_alike issuer r key).observed_eq hstart hcalls]

/-- What was observed for another name is not seen. -/
theorem servedNames_isolated_sibling :
    (parsedIssuer 86400 3600).servedNames oneRoute ⟨"s".toList, "a.test".toList⟩ .empty
        [.getOrIssue "a.test".toList 0 (.atTime 0),
          .recordUpstreamSans "b.test".toList ["*.test".toList, "a.test".toList] (.atTime 1),
          .getOrIssue "a.test".toList 0 (.atTime 2)] =
      (parsedIssuer 86400 3600).servedNames oneRoute ⟨"s".toList, "a.test".toList⟩ .empty
        [.getOrIssue "a.test".toList 0 (.atTime 0), .getOrIssue "a.test".toList 0 (.atTime 2)] :=
  servedNames_isolated alike_refl rfl

end

end Issuer

end SniGate
