import SniGate.Pool.Conservation
import SniGate.Pool.History

/-!
# How long the probe loop sleeps

After a pass the loop sleeps until the earliest next probe of the candidates of that pass, or until
the answers of the domain targets are to be refreshed, and at least for 50 ms. What it then has to
do is to probe the candidates it builds next. These are the ones it has just probed, with the health
they have now, unless samples were replaced: a replacement has joined no list of candidates yet, so
the sleep does not end for it although it is due at once (`not_onTime`). Otherwise nothing becomes
due during the sleep (`onTime_of_cycle`).

The instant of the last refresh is not part of the state here. What holds, holds whenever it was.
-/

namespace SniGate

/-! ## The delay -/

/-- Whether a target is a domain. -/
def TargetSpec.isDomain : TargetSpec → Bool
  | .domain _ => true
  | _ => false

def Pool.hasDomain (pool : Pool) : Bool := pool.targets.any fun t ↦ t.spec.isDomain

/-- DNS refresh cadence: fast retry until every domain has an initial answer. -/
def dnsRefresh (pool : Pool) (st : PoolState) : ℕ :=
  if (pool.targets.filter fun t ↦ t.spec.isDomain).any fun t ↦ t.index ∉ st.resolved then
    pool.timing.degradedInterval
  else pool.timing.interval

/-- How long until the next refresh of domain answers. -/
def dnsDeadline (pool : Pool) (st : PoolState) (resolvedAt : Option ℕ) (now : ℕ) : ℕ :=
  match resolvedAt with
  | none => 0
  | some refreshed => dnsRefresh pool st - (now - refreshed)

/-- How long until the next probe of each candidate. -/
def probeDelays (st : PoolState) (candidates : List Candidate) (now : ℕ) : List ℕ :=
  candidates.filterMap fun c ↦ (st.health.lookup c.addr).map fun h ↦ h.nextProbe - now

/-- The loop never sleeps for less than 50 ms. -/
def shortestSleep : ℕ := 50 * 10 ^ 6

/-- How long until this pool next has work: the earliest due candidate, or the next domain
re-resolution, whichever comes first. -/
def nextDue (pool : Pool) (st : PoolState) (candidates : List Candidate) (resolvedAt : Option ℕ)
    (now : ℕ) : ℕ :=
  let soonestProbe := (probeDelays st candidates now).min?
  let wait :=
    match soonestProbe, pool.hasDomain with
    | some p, true => min p (dnsDeadline pool st resolvedAt now)
    | some p, false => p
    | none, true => dnsDeadline pool st resolvedAt now
    -- no candidates and nothing to resolve
    | none, false => pool.timing.interval
  max wait shortestSleep

/-! ## What is due -/

/-- How long until each piece of work: a probe of each candidate, and the next refresh. -/
def workDelays (pool : Pool) (st : PoolState) (candidates : List Candidate)
    (resolvedAt : Option ℕ) (now : ℕ) : List ℕ :=
  probeDelays st candidates now ++
    if pool.hasDomain then [dnsDeadline pool st resolvedAt now] else []

namespace ProbeLoop

/-- The loop does not sleep past anything it has to do: probes of the addresses it would build next
from the answers it has, an address without history being due at once, and the next refresh. -/
def OnTime (scale : LogScale) (pool : Pool) (l : ProbeLoop) (resolvedAt : Option ℕ) (now : ℕ) :
    Prop :=
  let built := buildCandidates scale pool l.state now
  ∀ delay ∈ probeDelays built.2 built.1 now ++
      (if pool.hasDomain then [dnsDeadline pool l.state resolvedAt now] else []),
    nextDue pool l.state l.candidates resolvedAt now ≤ max shortestSleep delay

/-- A step that ends a pass. -/
def EndsPass (l l' : ProbeLoop) : Prop := l.phase ≠ .waiting ∧ l'.phase = .waiting

/-- A step that replaces no sample. -/
def ReplacesNone (pool : Pool) (l : ProbeLoop) : LoopEvent → Prop
  | .finish rand => planReplacements pool l.state l.candidates rand = []
  | _ => True

/-- A candidate of the pass, or a refresh, is due within 50 ms. -/
def SoonBusy (pool : Pool) (l : ProbeLoop) (resolvedAt : Option ℕ) (now : ℕ) : Prop :=
  (∃ c ∈ l.candidates, ∃ h, l.state.health.lookup c.addr = some h ∧
    h.nextProbe ≤ now + shortestSleep) ∨
  pool.hasDomain ∧ dnsDeadline pool l.state resolvedAt now ≤ shortestSleep

/-- The candidates are the ones that would be built now, and each has a health entry. -/
def UpToDate (pool : Pool) (l : ProbeLoop) : Prop :=
  l.candidates = nativeCandidates pool l.state ++
    synthesizedCandidates pool (nativeCandidates pool l.state) ∧
  ∀ c ∈ l.candidates, c.addr ∈ l.state.health

section Delays

variable {scale : LogScale} {pool : Pool} {st : PoolState} {candidates : List Candidate}
  {resolvedAt : Option ℕ} {now delay : ℕ} {l l' : ProbeLoop} {e : LoopEvent} {es : List LoopEvent}

/-- **No work is slept past.** -/
theorem nextDue_le (h : delay ∈ workDelays pool st candidates resolvedAt now) :
    nextDue pool st candidates resolvedAt now ≤ max shortestSleep delay := by
  -- the floor aside, the wait is the least delay there is
  rw [max_comm shortestSleep]
  refine max_le_max_right _ ?_
  cases hprobe : (probeDelays st candidates now).min? with
  | none =>
    have hnil := List.min?_eq_none_iff.mp hprobe
    cases hdomain : pool.hasDomain with
    | true =>
      rw [workDelays, hnil, hdomain, if_pos rfl, List.nil_append, List.mem_singleton] at h
      exact h.ge
    | false =>
      rw [workDelays, hnil, hdomain, if_neg (by simp), List.append_nil] at h
      exact absurd h (by simp)
  | some p =>
    have hmin : ∀ d ∈ probeDelays st candidates now, p ≤ d :=
      (List.min?_eq_some_iff.mp hprobe).2
    cases hdomain : pool.hasDomain with
    | true =>
      rw [workDelays, hdomain, if_pos rfl, List.mem_append, List.mem_singleton] at h
      rcases h with h | h
      · exact (min_le_left _ _).trans (hmin _ h)
      · exact (min_le_right _ _).trans h.ge
    | false =>
      rw [workDelays, hdomain, if_neg (by simp), List.append_nil] at h
      exact hmin _ h

/-- The delays of an up-to-date list of candidates are those of the list built next. -/
theorem probeDelays_buildCandidates (h : UpToDate pool l) :
    probeDelays (buildCandidates scale pool l.state now).2
      (buildCandidates scale pool l.state now).1 now = probeDelays l.state l.candidates now := by
  have hbuilt : (buildCandidates scale pool l.state now).1 = l.candidates := by
    rw [(buildCandidates_frame rfl).1, h.1]
  rw [probeDelays, probeDelays, hbuilt]
  refine List.filterMap_congr fun c hc ↦ ?_
  obtain ⟨health, hhealth⟩ := Option.isSome_iff_exists.mp (AList.lookup_isSome.mpr (h.2 c hc))
  rw [lookup_health_buildCandidates, hbuilt, if_pos (List.mem_map_of_mem hc), hhealth,
    Option.some_or]

theorem onTime_of_upToDate (h : UpToDate pool l) : OnTime scale pool l resolvedAt now := by
  intro delay hdelay
  rw [probeDelays_buildCandidates h] at hdelay
  exact nextDue_le hdelay

theorem onTime_of_soonBusy (h : SoonBusy pool l resolvedAt now) :
    OnTime scale pool l resolvedAt now := by
  have hdue : ∃ d ∈ workDelays pool l.state l.candidates resolvedAt now, d ≤ shortestSleep := by
    rcases h with ⟨c, hc, health, hhealth, hsoon⟩ | ⟨hdomain, hsoon⟩
    · refine ⟨health.nextProbe - now, List.mem_append_left _ ?_, Nat.sub_le_of_le_add ?_⟩
      · exact List.mem_filterMap.mpr ⟨c, hc, by rw [hhealth]; rfl⟩
      · rwa [Nat.add_comm]
    · refine ⟨_, List.mem_append_right _ ?_, hsoon⟩
      rw [if_pos hdomain]
      exact List.mem_singleton_self _
  obtain ⟨d, hd, hsoon⟩ := hdue
  intro delay _
  calc nextDue pool l.state l.candidates resolvedAt now ≤ max shortestSleep d := nextDue_le hd
    _ = shortestSleep := max_eq_left hsoon
    _ ≤ max shortestSleep delay := le_max_left _ _

/-! ## The end of a pass -/

theorem UpToDate.of_frame (h : UpToDate pool l) (hcands : l'.candidates = l.candidates)
    (hyields : SameYields l'.state l.state)
    (hhealth : ∀ b, b ∈ l'.state.health ↔ b ∈ l.state.health) : UpToDate pool l' := by
  rw [UpToDate, hcands, hyields.nativeCandidates]
  exact ⟨h.1, fun c hc ↦ (hhealth _).mpr (h.2 c hc)⟩

theorem resampleDead_eq_self {rand : ℕ → ℕ}
    (h : planReplacements pool st candidates rand = []) :
    st.resampleDead pool candidates rand = st := by
  rw [PoolState.resampleDead, h]
  rfl

/-- **How a pass ends.** With nothing to probe, or when all probes are in. -/
theorem endsPass_cases (hstep : l.step scale pool e = some l') (hend : EndsPass l l') :
    (∃ now, e = .begin now ∧ l' = { l with
      state := recomputeOrder scale pool.timing l.state l.candidates, phase := .waiting }) ∨
    ∃ rand, e = .finish rand ∧ l' = { l with
      state := recomputeOrder scale pool.timing (l.state.resampleDead pool l.candidates rand)
        l.candidates
      phase := .waiting } := by
  cases stepTo_of_step hstep with
  | resolved _ _ _ _ waiting => exact absurd waiting hend.1
  | observed => exact absurd hend.2 hend.1
  | build _ _ waiting => exact absurd waiting hend.1
  | rest now => exact .inl ⟨now, rfl, rfl⟩
  | begin => exact absurd hend.2 (by simp)
  | probed => exact absurd hend.2 (by simp)
  | finish rand => exact .inr ⟨rand, rfl, rfl⟩

/-- What ends a pass that replaced nothing leaves its candidates up to date. -/
theorem upToDate_of_endsPass (hcur : Current pool l) (hstep : l.step scale pool e = some l')
    (hend : EndsPass l l') (hnone : ReplacesNone pool l e) : UpToDate pool l' := by
  have hnow : UpToDate pool l := hcur hend.1
  rcases endsPass_cases hstep hend with ⟨_, rfl, rfl⟩ | ⟨rand, rfl, rfl⟩
  · exact hnow.of_frame rfl recomputeOrder_frame.1 fun _ ↦ Iff.rfl
  · rw [resampleDead_eq_self hnone]
    exact hnow.of_frame rfl recomputeOrder_frame.1 fun _ ↦ Iff.rfl

theorem current_of_runFrom (hrun : runFrom (step scale pool) start es = some l) :
    Current pool l :=
  invariant_of_runFrom hrun (fun h ↦ absurd rfl h) fun _ _ _ ↦ current_step

/-- **Nothing due is slept past.** In every run, at the end of every pass that replaced no sample;
and also after one that did, if something else is due within 50 ms. -/
theorem onTime_of_cycle (hrun : runFrom (step scale pool) start es = some l)
    (hstep : l.step scale pool e = some l') (hend : EndsPass l l')
    (h : ReplacesNone pool l e ∨ SoonBusy pool l' resolvedAt now) :
    OnTime scale pool l' resolvedAt now := by
  rcases h with hnone | hsoon
  · exact onTime_of_upToDate
      (upToDate_of_endsPass (current_of_runFrom hrun) hstep hend hnone)
  · exact onTime_of_soonBusy hsoon

end Delays

/-! ## A pool of one sample -/

section OneSample

/-- The scores are not looked at here. -/
private def levelScale : LogScale := ⟨fun _ ↦ 0, fun _ ↦ 1⟩

/-- A pass in which the only probe fails. -/
private def failingPass (now : ℕ) : List LoopEvent :=
  [.build now, .begin now, .probed (.v4 0x0a000001) .failed now]

theorem onTime_oneSample : ∃ l l', runFrom (step levelScale (oneSamplePool none)) start
      (failingPass 0) = some l ∧
    l.step levelScale (oneSamplePool none) (.finish fun _ ↦ 0) = some l' ∧
    OnTime levelScale (oneSamplePool none) l' none 0 := by
  have hrun : ((runFrom (step levelScale (oneSamplePool none)) start (failingPass 0)).bind fun l ↦
      (l.step levelScale (oneSamplePool none) (.finish fun _ ↦ 0)).map fun l' ↦
        (l.phase, l'.phase, planReplacements (oneSamplePool none) l.state l.candidates fun _ ↦ 0)) =
      some (.probing [], .waiting, []) := by decide +kernel
  obtain ⟨l, hl, hrun⟩ := Option.bind_eq_some_iff.mp hrun
  obtain ⟨l', hl', hphases⟩ := Option.map_eq_some_iff.mp hrun
  simp only [Prod.mk.injEq] at hphases
  obtain ⟨hphase, hphase', hplan⟩ := hphases
  exact ⟨l, l', hl, hl', onTime_of_cycle hl hl' ⟨by rw [hphase]; simp, hphase'⟩ (.inl hplan)⟩

/-- After the second failure the sample is replaced, and the loop sleeps for 20 s although the new
address is due. -/
theorem not_onTime : ¬∀ (scale : LogScale) (pool : Pool) (es : List LoopEvent) (e : LoopEvent)
    (l l' : ProbeLoop) (resolvedAt : Option ℕ) (now : ℕ),
    runFrom (step scale pool) start es = some l → l.step scale pool e = some l' → EndsPass l l' →
      OnTime scale pool l' resolvedAt now := by
  intro h
  let pool := oneSamplePool none
  let passes := failingPass 0 ++ [.finish fun _ ↦ 0] ++ failingPass (10 * 10 ^ 9)
  have hrun : ((runFrom (step levelScale pool) start passes).bind fun l ↦
      (l.step levelScale pool (.finish fun _ ↦ 0)).map fun l' ↦
        (l.phase, l'.phase, nextDue pool l'.state l'.candidates none (10 * 10 ^ 9),
          probeDelays (buildCandidates levelScale pool l'.state (10 * 10 ^ 9)).2
            (buildCandidates levelScale pool l'.state (10 * 10 ^ 9)).1 (10 * 10 ^ 9))) =
      some (.probing [], .waiting, 20 * 10 ^ 9, [0]) := by decide +kernel
  obtain ⟨l, hl, hrun⟩ := Option.bind_eq_some_iff.mp hrun
  obtain ⟨l', hl', hvalues⟩ := Option.map_eq_some_iff.mp hrun
  simp only [Prod.mk.injEq] at hvalues
  obtain ⟨hphase, hphase', hdelay, hdue⟩ := hvalues
  have hle := h levelScale pool passes _ l l' none (10 * 10 ^ 9) hl hl'
    ⟨by rw [hphase]; simp, hphase'⟩ 0 (List.mem_append_left _ (by rw [hdue]; simp))
  rw [hdelay] at hle
  exact absurd hle (by decide)

end OneSample

end ProbeLoop

end SniGate
