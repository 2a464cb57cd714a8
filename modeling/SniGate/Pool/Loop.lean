import SniGate.Pool.State
import SniGate.Transition.Run

/-!
# The probe loop

One pass of the loop refreshes domain answers, builds the candidates, ranks them, probes those that
are due, replaces dead samples, and ranks again; passive observations may arrive at any point. The
loop is a transition system over what arrives from outside: DNS answers, probe outcomes,
observations, instants and random draws. `LoopPhase` says where in a pass it is.

## What a pass may rely on

Between building the candidates and replacing dead samples, nothing changes what the targets yield,
and every candidate has a health entry: `Current` states this, and `current_step` is why it holds.
Replacement draws avoid every address with a health entry, so this is what keeps them fresh.
-/

namespace SniGate

/-! ## Ranking -/

/-- `Duration::MAX`, in seconds, for an estimate that is no duration. -/
def durationMaxSecs : ℚ := 2 ^ 64

/-- The score of an address, in seconds, if it is healthy and measured. -/
def PoolState.score (scale : LogScale) (timing : ProbeTiming) (st : PoolState) (addr : IpAddr) :
    Option ℚ :=
  match st.health.lookup addr with
  | none => none
  | some h =>
    if h.degraded ∨ !h.hasRtt then none
    else
      let estimate := if h.kalman.meanMs < 0 then durationMaxSecs else h.kalman.meanMs / 1000
      some (estimate + timing.scorePayloadBytes / scale.exp h.nig.mu)

/-- Whether `challenger` is enough faster than `incumbent` to overtake it: by 20 % or 5 ms,
whichever is larger. -/
def beats (challenger incumbent : ℚ) : Bool :=
  challenger + max (incumbent * (20 / 100)) (5 / 1000) < incumbent

/-- Move an entry forward, past each predecessor it beats. The predecessors are given last first. -/
def moveForward (score : IpAddr → Option ℚ) (addr : IpAddr) : List IpAddr → List IpAddr
  | [] => [addr]
  | ahead :: rest =>
    match score addr, score ahead with
    | some cur, some incumbent =>
      if beats cur incumbent then ahead :: moveForward score addr rest
      else addr :: ahead :: rest
    | _, _ => addr :: ahead :: rest

/-- Rebuild the preference order from the previous one, promoting a candidate only when it beats the
one ahead of it by a margin. -/
def reorderWithHysteresis (scale : LogScale) (timing : ProbeTiming) (st : PoolState)
    (prev : List IpAddr) (candidates : List Candidate) : List IpAddr :=
  let score := st.score scale timing
  let live := candidates.map Candidate.addr
  let order := prev.filter fun a ↦ a ∈ live ∧ (score a).isSome
  let fresh := ((live.eraseDups.filter fun a ↦ a ∉ order).filterMap
    fun a ↦ (score a).map fun s ↦ (a, s)).insertionSort fun a b ↦ a.2 ≤ b.2
  let order := order ++ fresh.map Prod.fst
  (order.foldl (fun done a ↦ moveForward score a done) []).reverse

/-- Recompute the preference order and store it back on the state. -/
def recomputeOrder (scale : LogScale) (timing : ProbeTiming) (st : PoolState)
    (candidates : List Candidate) : PoolState :=
  { st with order := reorderWithHysteresis scale timing st st.order candidates }

/-! ## The loop -/

/-- Where in a pass the loop is. -/
inductive LoopPhase
  /-- Between passes, or refreshing domains. -/
  | waiting
  /-- The candidates are built and ranked. -/
  | built
  /-- Probes are out for the addresses in `left`. -/
  | probing (left : List IpAddr)
deriving DecidableEq, Repr

/-- The outcome of one probe. -/
inductive Outcome
  | ok (rtt : ℕ)
  | failed
  | panicked
deriving DecidableEq, Repr

/-- What arrives from outside. -/
inductive LoopEvent
  /-- A domain target's lookup answered. -/
  | resolved (index : ℕ) (ips : List IpAddr)
  /-- A passive observation. -/
  | observed (addr : IpAddr) (bytes elapsed now : ℕ)
  /-- The candidates are built. -/
  | build (now : ℕ)
  /-- The probes of the due candidates are started. -/
  | begin (now : ℕ)
  | probed (addr : IpAddr) (outcome : Outcome) (now : ℕ)
  /-- All probes are in: dead samples are replaced. -/
  | finish (rand : ℕ → ℕ)

/-- The probe task. -/
structure ProbeLoop where
  state : PoolState
  candidates : List Candidate
  phase : LoopPhase

namespace ProbeLoop

/-- When the task starts. -/
def start : ProbeLoop := ⟨.empty, [], .waiting⟩

/-- The addresses to probe in this pass: each once, if it is due. -/
def dueAddrs (st : PoolState) (candidates : List Candidate) (now : ℕ) : List IpAddr :=
  (candidates.map Candidate.addr).eraseDups.filter fun a ↦
    (st.health.lookup a).all fun h ↦ h.nextProbe ≤ now

/-- Fold a probe's outcome into the health of its address. -/
def recordOutcome (timing : ProbeTiming) (st : PoolState) (addr : IpAddr) (outcome : Outcome)
    (now : ℕ) : PoolState :=
  match outcome with
  | .ok rtt =>
    { st with health := st.health.modify addr fun h ↦
        h.recordSuccess now rtt timing.interval timing.degradedInterval }
  | .failed =>
    { st with health := st.health.modify addr fun h ↦
        h.recordFailure now timing.failThreshold timing.interval timing.degradedInterval }
  | .panicked => st

/-- One step of the task. -/
def step (scale : LogScale) (pool : Pool) (l : ProbeLoop) : LoopEvent → Option ProbeLoop
  | .resolved index ips =>
    match l.phase, pool.targets[index]? with
    | .waiting, some { spec := .domain _, .. } =>
      some { l with state := { l.state with resolved := l.state.resolved.insert index ips } }
    | _, _ => none
  | .observed addr bytes elapsed now =>
    some { l with
      state := l.state.observe scale addr bytes elapsed pool.timing.throughputDiscount now }
  | .build now =>
    match l.phase with
    | .waiting =>
      let built := buildCandidates scale pool l.state now
      some ⟨recomputeOrder scale pool.timing built.2 built.1, built.1, .built⟩
    | _ => none
  | .begin now =>
    match l.phase with
    | .built =>
      let due := dueAddrs l.state l.candidates now
      -- with nothing due the cycle returns early, and nothing is replaced
      if due = [] then
        some { l with
          state := recomputeOrder scale pool.timing l.state l.candidates, phase := .waiting }
      else some { l with phase := .probing due }
    | _ => none
  | .probed addr outcome now =>
    match l.phase with
    | .probing left =>
      if addr ∈ left then
        some { l with
          state := recordOutcome pool.timing l.state addr outcome now
          phase := .probing (left.erase addr) }
      else none
    | _ => none
  | .finish rand =>
    if l.phase = .probing [] then
      let state := l.state.resampleDead pool l.candidates rand
      some { l with
        state := recomputeOrder scale pool.timing state l.candidates, phase := .waiting }
    else none

/-- The branches of a step that is taken, each with the condition it is taken under. -/
inductive StepTo (scale : LogScale) (pool : Pool) (l : ProbeLoop) : LoopEvent → ProbeLoop → Prop
  | resolved (index : ℕ) (ips : List IpAddr) (t : Target) (name : Str)
      (waiting : l.phase = .waiting) (target : pool.targets[index]? = some t)
      (domain : t.spec = .domain name) :
      StepTo scale pool l (.resolved index ips)
        { l with state := { l.state with resolved := l.state.resolved.insert index ips } }
  | observed (addr : IpAddr) (bytes elapsed now : ℕ) :
      StepTo scale pool l (.observed addr bytes elapsed now) { l with
        state := l.state.observe scale addr bytes elapsed pool.timing.throughputDiscount now }
  | build (now : ℕ) (built : List Candidate × PoolState) (waiting : l.phase = .waiting)
      (candidates : buildCandidates scale pool l.state now = built) :
      StepTo scale pool l (.build now)
        ⟨recomputeOrder scale pool.timing built.2 built.1, built.1, .built⟩
  | rest (now : ℕ) (ranked : l.phase = .built)
      (nothing : dueAddrs l.state l.candidates now = []) :
      StepTo scale pool l (.begin now) { l with
        state := recomputeOrder scale pool.timing l.state l.candidates, phase := .waiting }
  | begin (now : ℕ) (ranked : l.phase = .built)
      (something : dueAddrs l.state l.candidates now ≠ []) :
      StepTo scale pool l (.begin now)
        { l with phase := .probing (dueAddrs l.state l.candidates now) }
  | probed (addr : IpAddr) (outcome : Outcome) (now : ℕ) (left : List IpAddr)
      (probing : l.phase = .probing left) (asked : addr ∈ left) :
      StepTo scale pool l (.probed addr outcome now) { l with
        state := recordOutcome pool.timing l.state addr outcome now
        phase := .probing (left.erase addr) }
  | finish (rand : ℕ → ℕ) (probing : l.phase = .probing []) :
      StepTo scale pool l (.finish rand) { l with
        state := recomputeOrder scale pool.timing (l.state.resampleDead pool l.candidates rand)
          l.candidates
        phase := .waiting }

theorem stepTo_of_step {scale : LogScale} {pool : Pool} {l l' : ProbeLoop} {e : LoopEvent}
    (h : l.step scale pool e = some l') : StepTo scale pool l e l' := by
  cases e with
  | resolved index ips =>
    rw [step] at h
    split at h
    · rename_i hphase htarget
      obtain rfl := Option.some.inj h
      exact .resolved index ips _ _ hphase htarget rfl
    · exact absurd h (by simp)
  | observed addr bytes elapsed now =>
    obtain rfl := Option.some.inj h
    exact .observed addr bytes elapsed now
  | build now =>
    rw [step] at h
    split at h
    · rename_i hphase
      obtain rfl := Option.some.inj h
      exact .build now _ hphase rfl
    · exact absurd h (by simp)
  | begin now =>
    rw [step] at h
    split at h
    · rename_i hphase
      by_cases hdue : dueAddrs l.state l.candidates now = []
      · rw [if_pos hdue] at h
        obtain rfl := Option.some.inj h
        exact .rest now hphase hdue
      · rw [if_neg hdue] at h
        obtain rfl := Option.some.inj h
        exact .begin now hphase hdue
    · exact absurd h (by simp)
  | probed addr outcome now =>
    rw [step] at h
    split at h
    · rename_i left hphase
      split_ifs at h with hasked
      obtain rfl := Option.some.inj h
      exact .probed addr outcome now left hphase hasked
    · exact absurd h (by simp)
  | finish rand =>
    rw [step] at h
    split_ifs at h with hphase
    obtain rfl := Option.some.inj h
    exact .finish rand hphase

/-! ## What a pass may rely on -/

/-- The candidates are those the state yields, and each has a health entry. -/
def Current (pool : Pool) (l : ProbeLoop) : Prop :=
  l.phase ≠ .waiting →
    l.candidates = nativeCandidates pool l.state ++
      synthesizedCandidates pool (nativeCandidates pool l.state) ∧
    ∀ c ∈ l.candidates, c.addr ∈ l.state.health

/-- Two states whose targets yield the same. -/
def SameYields (st st' : PoolState) : Prop :=
  st.resampled = st'.resampled ∧ st.replacements = st'.replacements ∧ st.resolved = st'.resolved

theorem SameYields.yields {st st' : PoolState} (h : SameYields st st') (t : Target) :
    st.yields t = st'.yields t := by
  rw [PoolState.yields, PoolState.yields, PoolState.replacementsOf, PoolState.replacementsOf,
    h.1, h.2.1, h.2.2]

theorem SameYields.nativeCandidates {st st' : PoolState} (h : SameYields st st') (pool : Pool) :
    nativeCandidates pool st = SniGate.nativeCandidates pool st' := by
  rw [SniGate.nativeCandidates, SniGate.nativeCandidates]
  simp only [h.yields]

theorem SameYields.trans {st st' st'' : PoolState} (h : SameYields st st')
    (h' : SameYields st' st'') : SameYields st st'' :=
  ⟨h.1.trans h'.1, h.2.1.trans h'.2.1, h.2.2.trans h'.2.2⟩

section Frame

variable {scale : LogScale} {pool : Pool} {st : PoolState} {a : IpAddr} {now : ℕ}

theorem observe_frame {bytes elapsed : ℕ} {discount : ℚ} :
    SameYields (st.observe scale a bytes elapsed discount now) st ∧
      ∀ b, b ∈ (st.observe scale a bytes elapsed discount now).health ↔ b ∈ st.health := by
  simp only [PoolState.observe]
  by_cases h0 : bytes = 0 ∨ elapsed = 0
  · rw [if_pos h0]
    exact ⟨⟨rfl, rfl, rfl⟩, fun _ ↦ Iff.rfl⟩
  rw [if_neg h0]
  split_ifs
  · exact ⟨⟨rfl, rfl, rfl⟩, fun _ ↦ Iff.rfl⟩
  · exact ⟨⟨rfl, rfl, rfl⟩, fun _ ↦ Map.mem_modify⟩
  · exact ⟨⟨rfl, rfl, rfl⟩, fun _ ↦ Iff.rfl⟩

theorem recordOutcome_frame {timing : ProbeTiming} {outcome : Outcome} :
    SameYields (recordOutcome timing st a outcome now) st ∧
      ∀ b, b ∈ (recordOutcome timing st a outcome now).health ↔ b ∈ st.health := by
  cases outcome <;> exact ⟨⟨rfl, rfl, rfl⟩, fun b ↦ by simp [recordOutcome]⟩

theorem pruneHistory_frame :
    SameYields (st.pruneHistory now) st ∧ (st.pruneHistory now).health = st.health := by
  rw [PoolState.pruneHistory]
  exact ⟨⟨rfl, rfl, rfl⟩, rfl⟩

theorem parkDeparting_frame {live : List IpAddr} {parkUntil : ℕ} :
    SameYields (st.parkDeparting live parkUntil) st := by
  rw [PoolState.parkDeparting]
  generalize st.health.keys.filter (fun a ↦ a ∉ live) = departing
  induction departing generalizing st with
  | nil => exact ⟨rfl, rfl, rfl⟩
  | cons b bs ih =>
    rw [List.foldl_cons]
    refine ih.trans ?_
    cases st.health.lookup b <;> exact ⟨rfl, rfl, rfl⟩

theorem giveHealth_frame {timing : ProbeTiming} :
    SameYields (st.giveHealth scale timing now a) st ∧
      ∀ b, b ∈ (st.giveHealth scale timing now a).health ↔ b = a ∨ b ∈ st.health := by
  rw [PoolState.giveHealth]
  split_ifs with ha
  · refine ⟨⟨rfl, rfl, rfl⟩, fun b ↦ ⟨.inr, ?_⟩⟩
    rintro (rfl | hb)
    · exact ha
    · exact hb
  · cases st.parked.lookup a <;>
      exact ⟨⟨rfl, rfl, rfl⟩, fun b ↦ AList.mem_insert _⟩

theorem foldl_giveHealth_frame {timing : ProbeTiming} {live : List IpAddr} :
    SameYields (live.foldl (PoolState.giveHealth scale timing now) st) st ∧
      ∀ b, b ∈ (live.foldl (PoolState.giveHealth scale timing now) st).health ↔
        b ∈ live ∨ b ∈ st.health := by
  induction live generalizing st with
  | nil => exact ⟨⟨rfl, rfl, rfl⟩, fun b ↦ by simp⟩
  | cons a live ih =>
    rw [List.foldl_cons]
    refine ⟨ih.1.trans giveHealth_frame.1, fun b ↦ ?_⟩
    rw [ih.2, giveHealth_frame.2, List.mem_cons]
    tauto

theorem recomputeOrder_frame {timing : ProbeTiming} {candidates : List Candidate} :
    SameYields (recomputeOrder scale timing st candidates) st ∧
      (recomputeOrder scale timing st candidates).health = st.health :=
  ⟨⟨rfl, rfl, rfl⟩, rfl⟩

/-- Building the candidates changes no target's yield, and gives every candidate a health entry. -/
theorem buildCandidates_frame {built : List Candidate × PoolState}
    (h : buildCandidates scale pool st now = built) :
    built.1 = nativeCandidates pool st ++ synthesizedCandidates pool (nativeCandidates pool st) ∧
      SameYields built.2 st ∧ ∀ c ∈ built.1, c.addr ∈ built.2.health := by
  rw [buildCandidates] at h
  subst h
  refine ⟨rfl, ?_, fun c hc ↦ ?_⟩
  · refine pruneHistory_frame.1.trans (foldl_giveHealth_frame.1.trans ?_)
    exact parkDeparting_frame.trans pruneHistory_frame.1
  · rw [pruneHistory_frame.2, foldl_giveHealth_frame.2]
    exact .inl (List.mem_map_of_mem hc)

end Frame

section Steps

variable {scale : LogScale} {pool : Pool} {l l' : ProbeLoop} {e : LoopEvent}

theorem Current.of_frame (hcur : Current pool l) (hphase : l.phase ≠ .waiting)
    (hcands : l'.candidates = l.candidates) (hyields : SameYields l'.state l.state)
    (hhealth : ∀ b, b ∈ l'.state.health ↔ b ∈ l.state.health) : Current pool l' := by
  obtain ⟨hbuilt, hlive⟩ := hcur hphase
  intro _
  rw [hcands, hyields.nativeCandidates]
  exact ⟨hbuilt, fun c hc ↦ (hhealth _).mpr (hlive c hc)⟩

/-- What a step can do to the yields: record a domain's answer, replace dead samples, or nothing. -/
theorem step_cases (h : l.step scale pool e = some l') :
    (∃ index ips t name, e = .resolved index ips ∧ pool.targets[index]? = some t ∧
      t.spec = .domain name ∧ l'.phase = .waiting ∧
      l'.state = { l.state with resolved := l.state.resolved.insert index ips }) ∨
    (∃ rand, e = .finish rand ∧ l.phase = .probing [] ∧ l'.phase = .waiting ∧
      SameYields l'.state (l.state.resampleDead pool l.candidates rand)) ∨
    (SameYields l'.state l.state ∧ (Current pool l → Current pool l')) := by
  cases stepTo_of_step h with
  | resolved index ips t name waiting target domain =>
    exact .inl ⟨index, ips, t, name, rfl, target, domain, waiting, rfl⟩
  | observed addr bytes elapsed now =>
    refine .inr (.inr ⟨observe_frame.1, fun hcur hphase ↦ ?_⟩)
    exact hcur.of_frame hphase rfl observe_frame.1 observe_frame.2 hphase
  | build now built waiting candidates =>
    obtain ⟨hcands, hyields, hhealth⟩ := buildCandidates_frame candidates
    have hframe : SameYields (recomputeOrder scale pool.timing built.2 built.1) l.state :=
      recomputeOrder_frame.1.trans hyields
    refine .inr (.inr ⟨hframe, fun _ _ ↦ ⟨?_, hhealth⟩⟩)
    rw [hframe.nativeCandidates]
    exact hcands
  | rest now ranked nothing =>
    exact .inr (.inr ⟨recomputeOrder_frame.1, fun _ hphase ↦ absurd rfl hphase⟩)
  | begin now ranked something =>
    have hbuilt : l.phase ≠ .waiting := by rw [ranked]; simp
    refine .inr (.inr ⟨⟨rfl, rfl, rfl⟩, fun hcur ↦ ?_⟩)
    exact hcur.of_frame hbuilt rfl ⟨rfl, rfl, rfl⟩ fun _ ↦ Iff.rfl
  | probed addr outcome now left probing asked =>
    have hprobing : l.phase ≠ .waiting := by rw [probing]; simp
    refine .inr (.inr ⟨recordOutcome_frame.1, fun hcur ↦ ?_⟩)
    exact hcur.of_frame hprobing rfl recordOutcome_frame.1 recordOutcome_frame.2
  | finish rand probing => exact .inr (.inl ⟨rand, rfl, probing, rfl, recomputeOrder_frame.1⟩)

theorem current_step (hcur : Current pool l) (hstep : l.step scale pool e = some l') :
    Current pool l' := by
  rcases step_cases hstep with ⟨_, _, _, _, -, -, -, hphase, -⟩ | ⟨_, -, -, hphase, -⟩ | ⟨-, h⟩
  · exact fun h ↦ absurd hphase h
  · exact fun h ↦ absurd hphase h
  · exact h hcur

end Steps

end ProbeLoop

end SniGate
