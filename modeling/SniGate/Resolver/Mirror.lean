import SniGate.Resolver.SingleFlight

/-!
# A mirrored certificate stays

Once an observation has been recorded, the cache holds the certificate signed for what clipping left
of the last one recorded, however the calls about the key interleave (`mirror_stays`). The invariant
speaks of the cache and of the task that holds the lock: what that task is about to sign or cache is
for its own call, and the cache does not answer that call.

A first handshake that signs an exact certificate is such a task. The cache was empty when it
looked, and nothing but the task itself changes the cache, so it is still empty when the exact
certificate is cached.

That the cache keeps its entry during the run is the guard of the runs.
-/

namespace SniGate

variable {Der Key P : Type}

namespace SingleFlight

variable (issuer : Issuer Der Key) (r : DynamicResolver P) (key : CacheKey)
  (s : SingleFlight Der Key)

/-! ## The guard -/

/-- The cache entry, if there is one, has not expired. -/
def unexpired (now : ℤ) : Bool :=
  (s.state.cache.lookup key).all fun c ↦ now ≤ c.insertedAt + issuer.cacheTtl

/-- A step that looks at the cache finds the entry that is there. -/
def entryKept : FlightEvent → Bool
  | .call _ _ ctx | .recheck ctx => unexpired issuer key s ctx.now
  | _ => true

/-! ## The invariant -/

/-- The certificate was signed for a purpose. -/
def SignedFor (purpose : Purpose) (certified : CertifiedKey Der Key) : Prop :=
  ∃ ctx issued, issuer.issue key (purpose.sans r key) ctx = .ok issued ∧
    certified = ⟨issued.chain, issued.keyDer⟩

/-- The cache holds the certificate that was signed for an observation. -/
def Mirrors (last : List Str × SuffixList) : Prop :=
  ∃ c, s.state.cache.lookup key = some c ∧ c.observed = some last.1 ∧
    SignedFor issuer r key (.mirror last.1 last.2) c.certified

/-- The cache does not answer a call. -/
def Misses (call : CertCall) : Prop :=
  ((s.state.cache.lookup key).bind fun c ↦ call.answeredBy c) = none

/-- What a task with a call may be about to do. -/
def StageOk (call : CertCall) : FlightStage Der Key → Prop
  | .locked => True
  | .missed => Misses key s call
  | .sign purpose => Misses key s call ∧ call.Wants purpose
  | .save issued purpose =>
    Misses key s call ∧ call.Wants purpose ∧
      SignedFor issuer r key purpose ⟨issued.chain, issued.keyDer⟩
  | .insert certified source =>
    Misses key s call ∧
      match source with
      | .stored _ => call = .get
      | .signed purpose => call.Wants purpose ∧ SignedFor issuer r key purpose certified
  | .leave _ => True

/-- The invariant. -/
structure Inv : Prop where
  mirrors : ∀ last ∈ s.recorded.getLast?, Mirrors issuer r key s last
  flight : ∀ f ∈ s.flight, StageOk issuer r key s f.call f.stage

section Invariant

variable {issuer r key s} {t : SingleFlight Der Key} {f : Flight Der Key} {call : CertCall}
  {stage : FlightStage Der Key} {ctx : CallContext} {e : FlightEvent} {now : ℤ}

theorem cacheGet_of_unexpired (h : unexpired issuer key s now) :
    issuer.cacheGet s.state.cache key now = s.state.cache.lookup key := by
  rw [Issuer.cacheGet]
  rw [unexpired] at h
  cases hlookup : s.state.cache.lookup key with
  | none => rfl
  | some c =>
    rw [hlookup] at h
    rw [Option.filter_some, if_pos (by simpa using h)]

theorem stageOk_congr (hcache : t.state.cache = s.state.cache) :
    StageOk issuer r key t call stage ↔ StageOk issuer r key s call stage := by
  cases stage <;> simp only [StageOk, Misses, hcache]

/-- The invariant reads the cache, what has been recorded, and the task at work. -/
theorem Inv.of_eq (hinv : Inv issuer r key s) (hcache : t.state.cache = s.state.cache)
    (hrecorded : t.recorded = s.recorded)
    (hflight : ∀ f ∈ t.flight, StageOk issuer r key s f.call f.stage) : Inv issuer r key t where
  mirrors last hlast := by
    obtain ⟨c, hlookup, hc⟩ := hinv.mirrors last (hrecorded ▸ hlast)
    exact ⟨c, hcache ▸ hlookup, hc⟩
  flight f hf := (stageOk_congr hcache).mpr (hflight f hf)

theorem Inv.proceed (hinv : Inv issuer r key s) (hok : StageOk issuer r key s f.call stage) :
    Inv issuer r key (s.proceed f stage) :=
  hinv.of_eq rfl rfl fun g hg ↦ by
    obtain rfl := Option.some.inj hg
    exact hok

theorem Inv.recorded_eq_nil (hinv : Inv issuer r key s) (hmiss : Misses key s .get) :
    s.recorded = [] := by
  by_contra hne
  obtain ⟨c, hlookup, -⟩ := hinv.mirrors _ (List.getLast?_eq_getLast_of_ne_nil hne)
  rw [Misses, hlookup] at hmiss
  exact absurd hmiss (by simp [CertCall.answeredBy])

theorem Inv.recheck (hinv : Inv issuer r key s) (hkept : unexpired issuer key s ctx.now)
    (h : flightStep issuer r key s f (.recheck ctx) = some t) : Inv issuer r key t := by
  rw [flightStep] at h
  cases hstage : f.stage with
  | locked =>
    rw [hstage] at h
    dsimp only at h
    cases hlook : lookAt issuer key s f.call ctx with
    | some answer =>
      rw [hlook] at h
      exact Option.some.inj h ▸ hinv.proceed trivial
    | none =>
      rw [hlook] at h
      rw [lookAt, cacheGet_of_unexpired hkept] at hlook
      exact Option.some.inj h ▸ hinv.proceed hlook
  | _ => simp [hstage] at h

theorem Inv.load (hinv : Inv issuer r key s) (hf : s.flight = some f)
    (h : flightStep issuer r key s f (.load ctx) = some t) : Inv issuer r key t := by
  have hok := hinv.flight f hf
  rw [flightStep] at h
  cases hstage : f.stage with
  | missed =>
    cases hcall : f.call with
    | record => simp [hstage, hcall] at h
    | get =>
      simp only [hstage, hcall, Option.some.injEq] at h
      rw [hstage, hcall] at hok
      subst h
      rw [loadStep]
      cases issuer.persisted key ctx.now s.state.files with
      | none => exact hinv.proceed (hcall ▸ ⟨hok, trivial⟩)
      | some stored =>
        dsimp only
        cases issuer.anyEcdsaType stored.key with
        | ok => exact hinv.proceed (hcall ▸ ⟨hok, rfl⟩)
        | error e => exact hinv.proceed trivial
  | _ => simp [hstage] at h

theorem Inv.clip (hinv : Inv issuer r key s) (hf : s.flight = some f)
    (h : flightStep issuer r key s f (.clip ctx) = some t) : Inv issuer r key t := by
  have hok := hinv.flight f hf
  rw [flightStep] at h
  cases hstage : f.stage with
  | missed =>
    cases hcall : f.call with
    | get => simp [hstage, hcall] at h
    | record observed =>
      simp only [hstage, hcall, Option.some.injEq] at h
      rw [hstage, hcall] at hok
      exact h ▸ hinv.proceed (hcall ▸ ⟨hok, rfl⟩)
  | _ => simp [hstage] at h

theorem Inv.sign (hinv : Inv issuer r key s) (hf : s.flight = some f)
    (h : flightStep issuer r key s f (.sign ctx) = some t) : Inv issuer r key t := by
  have hok := hinv.flight f hf
  rw [flightStep] at h
  cases hstage : f.stage with
  | sign purpose =>
    rw [hstage] at h hok
    dsimp only at h
    cases hissue : issuer.issue key (purpose.sans r key) ctx with
    | error e =>
      rw [hissue] at h
      exact Option.some.inj h ▸ hinv.proceed trivial
    | ok issued =>
      rw [hissue] at h
      exact Option.some.inj h ▸ hinv.proceed ⟨hok.1, hok.2, ctx, issued, hissue, rfl⟩
  | _ => simp [hstage] at h

theorem Inv.save (hinv : Inv issuer r key s) (hf : s.flight = some f)
    (h : flightStep issuer r key s f (.save ctx) = some t) : Inv issuer r key t := by
  have hok := hinv.flight f hf
  rw [flightStep] at h
  cases hstage : f.stage with
  | save issued purpose =>
    rw [hstage] at h hok
    obtain rfl := Option.some.inj h
    refine hinv.of_eq rfl rfl fun g hg ↦ ?_
    obtain rfl := Option.some.inj hg
    exact hok
  | _ => simp [hstage] at h

/-- Caching keeps the invariant: an observation is the last one recorded from then on, and a
certificate that records nothing is cached by a task that found the cache empty. -/
theorem Inv.insert (hinv : Inv issuer r key s) (hf : s.flight = some f)
    (h : flightStep issuer r key s f (.insert ctx) = some t) : Inv issuer r key t := by
  have hok := hinv.flight f hf
  rw [flightStep] at h
  cases hstage : f.stage with
  | insert certified source =>
    rw [hstage] at h hok
    obtain rfl := Option.some.inj h
    refine ⟨fun last hlast ↦ ?_, fun g hg ↦ ?_⟩
    · obtain ⟨hmiss, hsource⟩ := hok
      cases source with
      | stored observed =>
        rw [hsource] at hmiss
        simp [Source.recorded, hinv.recorded_eq_nil hmiss] at hlast
      | signed purpose =>
        obtain ⟨hwants, hsigned⟩ := hsource
        cases purpose with
        | exact =>
          have hcall : f.call = .get := by
            cases hcall : f.call with
            | get => rfl
            | record => exact (hcall ▸ hwants : CertCall.Wants (.record _) .exact).elim
          rw [hcall] at hmiss
          simp [Source.recorded, hinv.recorded_eq_nil hmiss] at hlast
        | mirror observed list =>
          obtain rfl : (observed, list) = last := by simpa [Source.recorded] using hlast
          exact ⟨_, AList.lookup_insert _, rfl, hsigned⟩
    · obtain rfl := Option.some.inj hg
      trivial
  | _ => simp [hstage] at h

theorem Inv.release (hinv : Inv issuer r key s)
    (h : flightStep issuer r key s f .release = some t) : Inv issuer r key t := by
  rw [flightStep] at h
  cases hstage : f.stage with
  | leave answer =>
    rw [hstage] at h
    obtain rfl := Option.some.inj h
    exact hinv.of_eq rfl rfl fun g hg ↦ absurd hg (by simp)
  | _ => simp [hstage] at h

/-- **Every step keeps the invariant.** -/
theorem Inv.step (hinv : Inv issuer r key s) (hkept : entryKept issuer key s e)
    (h : step issuer r key s e = some t) : Inv issuer r key t := by
  cases e with
  | call id call ctx =>
    rw [SingleFlight.step] at h
    split_ifs at h
    cases hlook : lookAt issuer key s call ctx with
    | some answer =>
      rw [hlook] at h
      exact Option.some.inj h ▸ hinv.of_eq rfl rfl hinv.flight
    | none =>
      rw [hlook] at h
      exact Option.some.inj h ▸ hinv.of_eq rfl rfl hinv.flight
  | lock id =>
    rw [SingleFlight.step] at h
    cases htask : s.tasks.lookup id with
    | none => simp [htask] at h
    | some task =>
      cases task with
      | waiting call =>
        cases hflight : s.flight with
        | some f => simp [htask, hflight] at h
        | none =>
          simp only [htask, hflight, Option.some.injEq] at h
          subst h
          refine hinv.of_eq rfl rfl fun g hg ↦ ?_
          obtain rfl := Option.some.inj hg
          trivial
      | _ => simp [htask] at h
  | recheck ctx =>
    obtain ⟨f, -, h⟩ := Option.bind_eq_some_iff.mp h
    exact hinv.recheck hkept h
  | load ctx =>
    obtain ⟨f, hf, h⟩ := Option.bind_eq_some_iff.mp h
    exact hinv.load hf h
  | clip ctx =>
    obtain ⟨f, hf, h⟩ := Option.bind_eq_some_iff.mp h
    exact hinv.clip hf h
  | sign ctx =>
    obtain ⟨f, hf, h⟩ := Option.bind_eq_some_iff.mp h
    exact hinv.sign hf h
  | save ctx =>
    obtain ⟨f, hf, h⟩ := Option.bind_eq_some_iff.mp h
    exact hinv.save hf h
  | insert ctx =>
    obtain ⟨f, hf, h⟩ := Option.bind_eq_some_iff.mp h
    exact hinv.insert hf h
  | release =>
    obtain ⟨f, -, h⟩ := Option.bind_eq_some_iff.mp h
    exact hinv.release h

theorem inv_of_reach {state : IssuerState Der Key}
    (h : Reach (SingleFlight.step issuer r key) (fun s e ↦ entryKept issuer key s e)
      (start state) s) :
    Inv issuer r key s :=
  h.invariant ⟨fun _ h ↦ absurd h (by simp [start]), fun _ h ↦ absurd h (by simp [start])⟩
    fun _ _ _ hinv hkept hnext ↦ hinv.step hkept hnext

end Invariant

/-! ## What the invariant gives -/

section

variable (issuer : Issuer Der Key) (r : DynamicResolver P) (key : CacheKey)
  (s : SingleFlight Der Key)

/-- What holds while `last` is the last observation recorded: its certificate is cached, it alone is
current, and a call that records it again signs nothing, whether the call starts now or is at work
already. -/
structure MirrorKept (last : List Str × SuffixList) : Prop where
  cached : Mirrors issuer r key s last
  current : ∀ sniHost names now, Issuer.recordKey r sniHost = some key →
    unexpired issuer key s now →
      (issuer.mirrorIsCurrent r sniHost names now s.state ↔ names = last.1)
  silent : ∀ id ctx, id ∉ s.tasks → unexpired issuer key s ctx.now →
    step issuer r key s (.call id (.record last.1) ctx) =
      some { s with tasks := s.tasks.insert id (.done none) }
  unsigned : ∀ f ∈ s.flight, f.call = .record last.1 →
    f.stage = .locked ∨ ∃ answer, f.stage = .leave answer

/-- A task that records and whose signing fails changes neither the cache nor a file nor what has
been recorded, then or until it has released the lock, whatever other tasks do meanwhile. -/
def FailureHarmless : Prop :=
  ∀ id observed purpose ctx err, s.flight = some ⟨id, .record observed, .sign purpose⟩ →
    issuer.issue key (purpose.sans r key) ctx = .error err →
      ∃ t, step issuer r key s (.sign ctx) = some t ∧
        ∀ es u, (∀ e ∈ es, e.isRelease = false) → runFrom (step issuer r key) t es = some u →
          (u.state = s.state ∧ u.recorded = s.recorded) ∧
            ∀ v, step issuer r key u .release = some v →
              v.state = s.state ∧ v.recorded = s.recorded

end

section Kept

variable {issuer : Issuer Der Key} {r : DynamicResolver P} {key : CacheKey}
  {s t : SingleFlight Der Key} {last : List Str × SuffixList} {f : Flight Der Key}
  {answer : CertAnswer Der Key} {e : FlightEvent} {es : List FlightEvent}

theorem Mirrors.not_misses (h : Mirrors issuer r key s last) :
    ¬Misses key s (.record last.1) := by
  obtain ⟨c, hlookup, hobserved, -⟩ := h
  rw [Misses, hlookup, Option.bind_some, CertCall.answeredBy, if_pos hobserved]
  simp

/-- **What the invariant gives** once something has been recorded. -/
theorem Inv.mirrorKept (hinv : Inv issuer r key s) (hlast : last ∈ s.recorded.getLast?) :
    MirrorKept issuer r key s last where
  cached := hinv.mirrors last hlast
  current sniHost names now hkey hnow := by
    obtain ⟨c, hlookup, hobserved, -⟩ := hinv.mirrors last hlast
    rw [Issuer.mirrorIsCurrent, hkey]
    dsimp only
    rw [cacheGet_of_unexpired hnow, hlookup, Option.bind_some, hobserved, decide_eq_true_iff,
      Option.some.injEq]
    exact eq_comm
  silent id ctx hid hnow := by
    obtain ⟨c, hlookup, hobserved, -⟩ := hinv.mirrors last hlast
    have hlook : lookAt issuer key s (.record last.1) ctx = some none := by
      rw [lookAt, cacheGet_of_unexpired hnow, hlookup, Option.bind_some, CertCall.answeredBy,
        if_pos hobserved]
    rw [SingleFlight.step, if_neg hid, hlook]
  unsigned f hf hcall := by
    have hok := hinv.flight f hf
    have hmiss := (hinv.mirrors last hlast).not_misses
    rw [hcall] at hok
    cases hstage : f.stage with
    | locked => exact .inl rfl
    | leave answer => exact .inr ⟨answer, rfl⟩
    | missed =>
      rw [hstage] at hok
      exact absurd hok hmiss
    | _ =>
      rw [hstage] at hok
      exact absurd hok.1 hmiss

/-- While a task is about to release the lock, the other tasks change nothing that is shared. -/
theorem step_of_leave (hf : s.flight = some f) (hstage : f.stage = .leave answer)
    (he : e.isRelease = false) (h : step issuer r key s e = some t) :
    t.state = s.state ∧ t.recorded = s.recorded ∧ t.flight = s.flight := by
  cases e with
  | call id call ctx =>
    rw [step] at h
    split_ifs at h
    split at h
    all_goals
      obtain rfl := Option.some.inj h
      exact ⟨rfl, rfl, rfl⟩
  | lock id =>
    rw [step, hf] at h
    cases s.tasks.lookup id with
    | none => exact absurd h (by simp)
    | some task => cases task <;> exact absurd h (by simp)
  | release => exact absurd he (by simp [FlightEvent.isRelease])
  | _ =>
    obtain ⟨g, hg, h⟩ := Option.bind_eq_some_iff.mp h
    obtain rfl := Option.some.inj (hf.symm.trans hg)
    simp [flightStep, hstage] at h

theorem run_of_leave (hf : s.flight = some f) (hstage : f.stage = .leave answer)
    (hes : ∀ e ∈ es, e.isRelease = false) (h : runFrom (step issuer r key) s es = some t) :
    t.state = s.state ∧ t.recorded = s.recorded ∧ t.flight = s.flight := by
  induction es generalizing s with
  | nil =>
    obtain rfl := Option.some.inj h
    exact ⟨rfl, rfl, rfl⟩
  | cons e es ih =>
    obtain ⟨s', hnext, hrun⟩ := runFrom_cons_eq_some.mp h
    obtain ⟨hstate, hrecorded, hflight⟩ := step_of_leave hf hstage (hes e List.mem_cons_self) hnext
    rw [← hstate, ← hrecorded, ← hflight]
    exact ih (hflight.trans hf) (fun e he ↦ hes e (List.mem_cons_of_mem _ he)) hrun

theorem failureHarmless : FailureHarmless issuer r key s := by
  intro id observed purpose ctx err hflight hissue
  have hsign := flightStep_sign issuer r key s id (.record observed) ctx purpose
  rw [hissue] at hsign
  have hstep : step issuer r key s (.sign ctx) =
      s.flight.bind fun f ↦ flightStep issuer r key s f (.sign ctx) := rfl
  rw [hflight, Option.bind_some, hsign] at hstep
  refine ⟨_, hstep, fun es u hes hrun ↦ ?_⟩
  obtain ⟨hstate, hrecorded, hleave⟩ := run_of_leave rfl rfl hes hrun
  refine ⟨⟨hstate, hrecorded⟩, fun v hrelease ↦ ?_⟩
  obtain ⟨g, hg, hrelease⟩ := Option.bind_eq_some_iff.mp hrelease
  obtain rfl := Option.some.inj (hleave.symm.trans hg)
  obtain rfl := Option.some.inj hrelease
  exact ⟨hstate, hrecorded⟩

end Kept

/-- **A mirrored certificate stays.** In every state that calls about a key lead to, the certificate
of the last observation recorded is the one that is cached, and a record that cannot be signed
changes nothing. -/
theorem mirror_stays {issuer : Issuer Der Key} {r : DynamicResolver P} {key : CacheKey}
    {state : IssuerState Der Key} {s : SingleFlight Der Key}
    (h : Reach (step issuer r key) (fun s e ↦ entryKept issuer key s e) (start state) s) :
    (∀ last ∈ s.recorded.getLast?, MirrorKept issuer r key s last) ∧
      FailureHarmless issuer r key s :=
  ⟨fun _ hlast ↦ (inv_of_reach h).mirrorKept hlast, failureHarmless⟩

/-- A first handshake looks at the empty cache, and its observation, of two names, is recorded
before it takes the lock. -/
def overtakenHandshake : List FlightEvent :=
  [.call 0 .get (.atTime 0), .call 1 (.record ["a.test".toList, "b.test".toList]) (.atTime 0),
    .lock 1, .recheck (.atTime 1), .clip (.atTime 1), .sign (.atTime 1), .save (.atTime 1),
    .insert (.atTime 1), .release, .lock 0, .recheck (.atTime 2), .release]

theorem mirror_stays_overtakenHandshake :
    ∃ s : SingleFlight ParsedCert Unit,
      s.recorded.map Prod.fst = [["a.test".toList, "b.test".toList]] ∧
        (∀ last ∈ s.recorded.getLast?,
          MirrorKept (parsedIssuer 86400 3600) oneRoute ⟨"s".toList, "a.test".toList⟩ s last) ∧
        FailureHarmless (parsedIssuer 86400 3600) oneRoute ⟨"s".toList, "a.test".toList⟩ s := by
  have hrun : (runFrom (guarded (step (parsedIssuer 86400 3600) oneRoute
      ⟨"s".toList, "a.test".toList⟩) fun s e ↦ entryKept (parsedIssuer 86400 3600)
        ⟨"s".toList, "a.test".toList⟩ s e) (start .empty) overtakenHandshake).map
          (fun s ↦ s.recorded.map Prod.fst) = some [["a.test".toList, "b.test".toList]] := by
    decide +kernel
  obtain ⟨s, hs, hrecorded⟩ := Option.map_eq_some_iff.mp hrun
  exact ⟨s, hrecorded, mirror_stays (reach_of_runFrom_guarded hs .start)⟩

end SingleFlight

end SniGate
