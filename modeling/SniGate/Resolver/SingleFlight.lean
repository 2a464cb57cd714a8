import SniGate.Resolver.Basic
import SniGate.Transition.Run

/-!
# Single-flight issuance

Calls about one key run as concurrent tasks. Each looks at the cache, and when that does not answer
it, takes the lock of the key, looks at the cache again, and does its slow work: read the disk,
sign, write the disk, cache. The lock is part of the state: the one task that holds it is the
`flight`, so that no two tasks can be at work at once.

A step is one look at the cache, taking or releasing the lock, or one part of the work. What a task
does alone is what the operations of the issuer do (`alone_getOrIssue`, `alone_recordUpstreamSans`).

## Design choices

The state keeps for each task what it has left to do, so that an interleaving is a list of steps,
each with what it meets outside. The cache and the files are those of `Resolver.Basic`, and each
step is a part of one of its operations, cut where the source can be suspended.
-/

namespace SniGate

variable {Der Key P : Type}

/-! ## Tasks -/

/-- A call about the key. -/
inductive CertCall
  | get
  | record (observed : List Str)
deriving DecidableEq, Repr

/-- What a call returns: a certificate or an error, or nothing. -/
abbrev CertAnswer (Der Key : Type) := Option (Except Str (CertifiedKey Der Key))

/-- What a certificate is signed for. -/
inductive Purpose
  /-- To be served for the host alone. -/
  | exact
  /-- To mirror what was observed, as far as clipping with a list allows. -/
  | mirror (observed : List Str) (list : SuffixList)

/-- Where a certificate to be cached comes from. -/
inductive Source
  | stored (observed : Option (List Str))
  | signed (purpose : Purpose)

/-- How far the task that holds the lock is. -/
inductive FlightStage (Der Key : Type)
  | locked
  | missed
  | sign (purpose : Purpose)
  | save (issued : IssuedCertificate Der Key) (purpose : Purpose)
  | insert (certified : CertifiedKey Der Key) (source : Source)
  | leave (answer : CertAnswer Der Key)

/-- The task that holds the lock. -/
structure Flight (Der Key : Type) where
  task : ℕ
  call : CertCall
  stage : FlightStage Der Key

/-- A task. -/
inductive CertTask (Der Key : Type)
  | waiting (call : CertCall)
  | flying
  | done (answer : CertAnswer Der Key)

/-- The tasks about a key, with what they share. -/
structure SingleFlight (Der Key : Type) where
  state : IssuerState Der Key
  flight : Option (Flight Der Key)
  tasks : Map ℕ (CertTask Der Key)
  /-- What has been recorded, in the order of the lock, with the list it was clipped with. -/
  recorded : List (List Str × SuffixList)

/-- One step. -/
inductive FlightEvent
  | call (id : ℕ) (call : CertCall) (ctx : CallContext)
  | lock (id : ℕ)
  | recheck (ctx : CallContext)
  | load (ctx : CallContext)
  | clip (ctx : CallContext)
  | sign (ctx : CallContext)
  | save (ctx : CallContext)
  | insert (ctx : CallContext)
  | release

/-- Whether a step releases the lock. -/
def FlightEvent.isRelease : FlightEvent → Bool
  | release => true
  | _ => false

/-- The answer a cached certificate gives to a call, if it answers it. -/
def CertCall.answeredBy (c : CachedCert Der Key) : CertCall → Option (CertAnswer Der Key)
  | get => some (some (.ok c.certified))
  | record observed => if c.observed = some observed then some none else none

/-- The answer once a certificate has been cached. -/
def CertCall.served (certified : CertifiedKey Der Key) : CertCall → CertAnswer Der Key
  | get => some (.ok certified)
  | record _ => none

/-- The answer when no certificate could be made. -/
def CertCall.failed (e : Str) : CertCall → CertAnswer Der Key
  | get => some (.error e)
  | record _ => none

/-- The observation a certificate is signed for. -/
def Purpose.observed : Purpose → Option (List Str)
  | exact => none
  | mirror observed _ => some observed

/-- What a call may have a certificate signed for. -/
def CertCall.Wants : CertCall → Purpose → Prop
  | get, .exact => True
  | record observed, .mirror observed' _ => observed = observed'
  | _, _ => False

/-- The names a certificate is signed for. -/
def Purpose.sans (r : DynamicResolver P) (key : CacheKey) : Purpose → List Str
  | exact => [key.sniHost]
  | mirror observed list =>
    (clip list r.router (fun id ↦ r.scopeOf id = key.scope) key.sniHost observed).kept

def Source.observed : Source → Option (List Str)
  | stored observed => observed
  | signed purpose => purpose.observed

/-- What caching a certificate records. -/
def Source.recorded : Source → List (List Str × SuffixList)
  | signed (.mirror observed list) => [(observed, list)]
  | _ => []

namespace SingleFlight

/-- No call has been made. -/
def start (state : IssuerState Der Key) : SingleFlight Der Key := ⟨state, none, ∅, []⟩

variable (issuer : Issuer Der Key) (r : DynamicResolver P) (key : CacheKey)
  (s : SingleFlight Der Key)

/-- The task that holds the lock goes on. -/
def proceed (f : Flight Der Key) (stage : FlightStage Der Key) : SingleFlight Der Key :=
  { s with flight := some { f with stage } }

/-- What the cache answers to a call. -/
def lookAt (call : CertCall) (ctx : CallContext) : Option (CertAnswer Der Key) :=
  (issuer.cacheGet s.state.cache key ctx.now).bind fun c ↦ call.answeredBy c

/-- Read the disk. -/
def loadStep (f : Flight Der Key) (ctx : CallContext) : SingleFlight Der Key :=
  match issuer.persisted key ctx.now s.state.files with
  | some stored =>
    match issuer.anyEcdsaType stored.key with
    | .ok () => s.proceed f (.insert ⟨stored.chain, stored.key⟩ (.stored stored.observed))
    | .error e =>
      s.proceed f (.leave (some (.error
        ("loading persisted key for ".toList ++ key.sniHost ++ ": ".toList ++ e))))
  | none => s.proceed f (.sign .exact)

/-- What a step of the task that holds the lock leads to, if it can happen. -/
def flightStep (f : Flight Der Key) : FlightEvent → Option (SingleFlight Der Key)
  | .recheck ctx =>
    match f.stage with
    | .locked =>
      match lookAt issuer key s f.call ctx with
      | some answer => some (s.proceed f (.leave answer))
      | none => some (s.proceed f .missed)
    | _ => none
  | .load ctx =>
    match f.stage, f.call with
    | .missed, .get => some (loadStep issuer key s f ctx)
    | _, _ => none
  | .clip ctx =>
    match f.stage, f.call with
    | .missed, .record observed => some (s.proceed f (.sign (.mirror observed ctx.suffix)))
    | _, _ => none
  | .sign ctx =>
    match f.stage with
    | .sign purpose =>
      match issuer.issue key (purpose.sans r key) ctx with
      | .ok issued => some (s.proceed f (.save issued purpose))
      | .error e => some (s.proceed f (.leave (f.call.failed e)))
    | _ => none
  | .save ctx =>
    match f.stage with
    | .save issued purpose =>
      some { s.proceed f (.insert ⟨issued.chain, issued.keyDer⟩ (.signed purpose)) with
        state.files := issuer.persist key issued purpose.observed ctx s.state.files }
    | _ => none
  | .insert ctx =>
    match f.stage with
    | .insert certified source =>
      some { s.proceed f (.leave (f.call.served certified)) with
        state := Issuer.cacheInsert s.state key certified source.observed ctx.now
        recorded := s.recorded ++ source.recorded }
    | _ => none
  | .release =>
    match f.stage with
    | .leave answer => some { s with flight := none, tasks := s.tasks.insert f.task (.done answer) }
    | _ => none
  | _ => none

/-- What a step leads to, if it can happen. -/
def step : FlightEvent → Option (SingleFlight Der Key)
  | .call id call ctx =>
    if id ∈ s.tasks then none
    else
      match lookAt issuer key s call ctx with
      | some answer => some { s with tasks := s.tasks.insert id (.done answer) }
      | none => some { s with tasks := s.tasks.insert id (.waiting call) }
  | .lock id =>
    match s.tasks.lookup id, s.flight with
    | some (.waiting call), none =>
      some { s with tasks := s.tasks.insert id .flying, flight := some ⟨id, call, .locked⟩ }
    | _, _ => none
  | event => s.flight.bind fun f ↦ flightStep issuer r key s f event

/-! ## A task alone -/

/-- Steps that lead to the end of a task. -/
def Ends (id : ℕ) (answer : CertAnswer Der Key) (state : IssuerState Der Key) : Prop :=
  ∃ es s', runFrom (step issuer r key) s es = some s' ∧ s'.flight = none ∧ s'.state = state ∧
    s'.tasks.lookup id = some (.done answer)

section Alone

variable {issuer r key s} {t : SingleFlight Der Key} {id : ℕ} {call : CertCall}
  {answer : CertAnswer Der Key} {state : IssuerState Der Key} {e : FlightEvent} {ctx : CallContext}
  {stage : FlightStage Der Key} {observed : List Str}

theorem Ends.of_step (hstep : step issuer r key s e = some t)
    (h : Ends issuer r key t id answer state) :
    Ends issuer r key s id answer state := by
  obtain ⟨es, s', hrun, hend⟩ := h
  exact ⟨e :: es, s', runFrom_cons_eq_some.mpr ⟨t, hstep, hrun⟩, hend⟩

theorem Ends.of_flightStep {f : Flight Der Key} (hf : s.flight = some f)
    (hevent : step issuer r key s e = s.flight.bind fun f ↦ flightStep issuer r key s f e)
    (hstep : flightStep issuer r key s f e = some t) (h : Ends issuer r key t id answer state) :
    Ends issuer r key s id answer state := by
  rw [hf, Option.bind_some, hstep] at hevent
  exact h.of_step hevent

theorem ends_of_leave (hf : s.flight = some ⟨id, call, .leave answer⟩) :
    Ends issuer r key s id answer s.state :=
  Ends.of_step (e := .release)
    (t := { s with flight := none, tasks := s.tasks.insert id (.done answer) })
    (by rw [step, hf] <;> simp [flightStep])
    ⟨[], _, rfl, rfl, rfl, AList.lookup_insert _⟩

variable (ctx) in
theorem ends_of_insert {certified : CertifiedKey Der Key} (source : Source)
    (hf : s.flight = some ⟨id, call, .insert certified source⟩)
    (hanswer : answer = call.served certified)
    (hstate : state = Issuer.cacheInsert s.state key certified source.observed ctx.now) :
    Ends issuer r key s id answer state := by
  rw [hanswer, hstate]
  exact Ends.of_flightStep (e := .insert ctx) hf rfl rfl (ends_of_leave rfl)

variable (issuer r key s id call ctx) in
theorem flightStep_sign (purpose : Purpose) :
    flightStep issuer r key s ⟨id, call, .sign purpose⟩ (.sign ctx) =
      match issuer.issue key (purpose.sans r key) ctx with
      | .ok issued => some (s.proceed ⟨id, call, .sign purpose⟩ (.save issued purpose))
      | .error e => some (s.proceed ⟨id, call, .sign purpose⟩ (.leave (call.failed e))) := rfl

theorem ends_of_sign_ok (purpose : Purpose) {files : Files Path Bytes}
    {certified : CertifiedKey Der Key} (hf : s.flight = some ⟨id, call, .sign purpose⟩)
    (hsign : issuer.sign key (purpose.sans r key) purpose.observed ctx s.state.files =
      (.ok certified, files)) (hanswer : answer = call.served certified)
    (hstate : state =
      Issuer.cacheInsert { s.state with files } key certified purpose.observed ctx.now) :
    Ends issuer r key s id answer state := by
  rw [hanswer, hstate]
  rw [Issuer.sign] at hsign
  cases hissue : issuer.issue key (purpose.sans r key) ctx with
  | error e =>
    rw [hissue] at hsign
    exact absurd (Prod.mk.inj hsign).1 (by simp)
  | ok issued =>
    rw [hissue] at hsign
    obtain ⟨hcertified, rfl⟩ := Prod.mk.inj hsign
    obtain rfl := Except.ok.inj hcertified
    have hstep := flightStep_sign issuer r key s id call ctx purpose
    rw [hissue] at hstep
    exact Ends.of_flightStep hf rfl hstep (Ends.of_flightStep (e := .save ctx) rfl rfl rfl
      (ends_of_insert ctx (.signed purpose) rfl rfl rfl))

theorem ends_of_sign_error (purpose : Purpose) {files : Files Path Bytes} {err : Str}
    (hf : s.flight = some ⟨id, call, .sign purpose⟩)
    (hsign : issuer.sign key (purpose.sans r key) purpose.observed ctx s.state.files =
      (.error err, files)) (hanswer : answer = call.failed err)
    (hstate : state = { s.state with files }) : Ends issuer r key s id answer state := by
  rw [hanswer, hstate]
  rw [Issuer.sign] at hsign
  cases hissue : issuer.issue key (purpose.sans r key) ctx with
  | error e =>
    rw [hissue] at hsign
    obtain ⟨herror, rfl⟩ := Prod.mk.inj hsign
    obtain rfl := Except.error.inj herror
    have hstep := flightStep_sign issuer r key s id call ctx purpose
    rw [hissue] at hstep
    exact Ends.of_flightStep hf rfl hstep (ends_of_leave rfl)
  | ok issued =>
    rw [hissue] at hsign
    exact absurd (Prod.mk.inj hsign).1 (by simp)

theorem ends_of_answered (hid : id ∉ s.tasks)
    (hlook : lookAt issuer key s call ctx = some answer) (hfree : s.flight = none) :
    Ends issuer r key s id answer s.state :=
  Ends.of_step (e := .call id call ctx)
    (t := { s with tasks := s.tasks.insert id (.done answer) })
    (by rw [step, if_neg hid, hlook])
    ⟨[], _, rfl, hfree, rfl, AList.lookup_insert _⟩

theorem recheck_missed (hlook : lookAt issuer key s call ctx = none) :
    flightStep issuer r key s ⟨id, call, .locked⟩ (.recheck ctx) =
      some (s.proceed ⟨id, call, .locked⟩ .missed) := by
  rw [flightStep]
  dsimp only
  rw [hlook]

theorem ends_of_missed (hid : id ∉ s.tasks) (hlook : lookAt issuer key s call ctx = none)
    (hfree : s.flight = none)
    (h : ∀ t : SingleFlight Der Key, t.state = s.state → t.flight = some ⟨id, call, .missed⟩ →
      Ends issuer r key t id answer state) : Ends issuer r key s id answer state := by
  refine Ends.of_step (e := .call id call ctx)
    (t := { s with tasks := s.tasks.insert id (.waiting call) }) ?_ ?_
  · rw [step, if_neg hid, hlook]
  · refine Ends.of_step (e := .lock id)
      (t := { s with
        tasks := (s.tasks.insert id (.waiting call)).insert id .flying
        flight := some ⟨id, call, .locked⟩ }) ?_ ?_
    · rw [step, AList.lookup_insert, hfree]
    · exact Ends.of_flightStep rfl rfl (recheck_missed hlook) (h _ rfl rfl)

variable (ctx) in
/-- **A call of `get_or_issue` alone** does what the operation does. -/
theorem alone_getOrIssue (hid : id ∉ s.tasks) (hfree : s.flight = none) :
    Ends issuer r key s id (some (issuer.getOrIssue key ctx s.state).1)
      (issuer.getOrIssue key ctx s.state).2 := by
  rw [Issuer.getOrIssue]
  have hlook : lookAt issuer key s .get ctx =
      (issuer.cacheGet s.state.cache key ctx.now).map fun c ↦ some (.ok c.certified) := by
    rw [lookAt]
    exact (Option.map_eq_bind ..).symm
  cases hcache : issuer.cacheGet s.state.cache key ctx.now with
  | some existing =>
    rw [hcache] at hlook
    exact ends_of_answered hid hlook hfree
  | none =>
    rw [hcache] at hlook
    refine ends_of_missed hid hlook hfree fun t hstate hflight ↦ ?_
    rw [← hstate]
    have hload : flightStep issuer r key t ⟨id, .get, .missed⟩ (.load ctx) =
      some (loadStep issuer key t ⟨id, .get, .missed⟩ ctx) := rfl
    rw [loadStep] at hload
    cases hpersisted : issuer.persisted key ctx.now t.state.files with
    | some stored =>
      rw [hpersisted] at hload
      dsimp only at hload ⊢
      cases hkey : issuer.anyEcdsaType stored.key with
      | ok =>
        rw [hkey] at hload
        exact Ends.of_flightStep hflight rfl hload
          (ends_of_insert ctx (.stored stored.observed) rfl rfl rfl)
      | error e =>
        rw [hkey] at hload
        exact Ends.of_flightStep hflight rfl hload (ends_of_leave rfl)
    | none =>
      rw [hpersisted] at hload
      dsimp only at hload ⊢
      refine Ends.of_flightStep hflight rfl hload ?_
      cases hsign : issuer.sign key [key.sniHost] none ctx t.state.files with
      | mk signed files =>
        cases signed with
        | ok certified => exact ends_of_sign_ok .exact rfl hsign rfl rfl
        | error e => exact ends_of_sign_error .exact rfl hsign rfl rfl

variable (ctx) in
/-- **A call of `record_upstream_sans` alone** does what the operation does. -/
theorem alone_recordUpstreamSans (hid : id ∉ s.tasks) (hfree : s.flight = none) :
    Ends issuer r key s id none (issuer.recordUpstreamSans r key observed ctx s.state) := by
  have hlook : lookAt issuer key s (.record observed) ctx =
      if (issuer.cacheGet s.state.cache key ctx.now).bind CachedCert.observed = some observed
      then some none else none := by
    rw [lookAt]
    cases issuer.cacheGet s.state.cache key ctx.now with
    | none => rfl
    | some c => rfl
  rw [Issuer.recordUpstreamSans]
  split_ifs at hlook ⊢ with hcurrent
  · exact ends_of_answered hid hlook hfree
  · refine ends_of_missed hid hlook hfree fun t hstate hflight ↦ ?_
    rw [← hstate]
    refine Ends.of_flightStep (e := .clip ctx) hflight rfl rfl ?_
    cases hsign : issuer.sign key (Issuer.mirrored r key observed ctx).kept (some observed) ctx
        t.state.files with
    | mk signed files =>
      cases signed with
      | ok certified => exact ends_of_sign_ok (.mirror observed ctx.suffix) rfl hsign rfl rfl
      | error e => exact ends_of_sign_error (.mirror observed ctx.suffix) rfl hsign rfl rfl

end Alone

end SingleFlight

end SniGate
