import SniGate.Pool.Samples

/-!
# Sample counts over a run

A target written with a sample count should go on contributing as many native addresses as were
drawn for it. Replacing dead samples is the only step that could change the number, and it keeps it
when the pass is *fair*: no dead address that only the NAT64 projection produced is replaced from an
IPv4 network, and no network that shares a dead address can run out of fresh ones while another
replaces it. `Conserved.resampleDead` is the step, `conserved_of_reach` the run.

Both conditions can fail. A synthesized address carries the index of the target it was projected
from, so its replacement is recorded for that target although nothing of the target's own was
retired, and the target ends up with one address more than was drawn.

A pool without a NAT64 projection whose sampled networks do not overlap only has fair passes, so it
conserves every count in every run (`reach_fairStep_of_disjoint`).
-/

namespace SniGate

/-! ## What a target contributes -/

/-- The native addresses a target contributes to the candidates. -/
def contribution (pool : Pool) (st : PoolState) (t : Target) : List IpAddr :=
  ((nativeCandidates pool st).filter fun c ↦ c.target = t.index).map Candidate.addr

section Contribution

variable {pool : Pool} {st : PoolState} {t : Target}

theorem Pool.nodup_index (pool : Pool) : (pool.targets.map Target.index).Nodup := by
  have hrange : pool.targets.map Target.index = List.range pool.targets.length := by
    refine List.ext_getElem (by simp) fun i h₁ h₂ ↦ ?_
    rw [List.getElem_map, List.getElem_range]
    exact pool.index_eq i _ (List.getElem?_eq_getElem _)
  rw [hrange]
  exact List.nodup_range

theorem Pool.getElem?_index (ht : t ∈ pool.targets) : pool.targets[t.index]? = some t := by
  obtain ⟨i, hi⟩ := List.mem_iff_getElem?.mp ht
  rw [pool.index_eq i t hi, hi]

theorem contribution_eq_yields (ht : t ∈ pool.targets) : contribution pool st t = st.yields t := by
  have hindex := pool.nodup_index
  rw [contribution, nativeCandidates]
  generalize pool.targets = ts at ht hindex
  induction ts with
  | nil => exact absurd ht (by simp)
  | cons t' ts ih =>
    obtain ⟨hout, hindex⟩ := List.nodup_cons.mp hindex
    rw [List.flatMap_cons, List.filter_append, List.map_append]
    rcases List.mem_cons.mp ht with rfl | ht
    · have hself : (((st.yields t).map (pushCandidate t)).filter
          fun c ↦ c.target = t.index) = (st.yields t).map (pushCandidate t) := by
        refine List.filter_eq_self.mpr fun c hc ↦ ?_
        obtain ⟨a, -, rfl⟩ := List.mem_map.mp hc
        exact decide_eq_true rfl
      have hrest : ((ts.flatMap fun t' ↦ (st.yields t').map (pushCandidate t')).filter
          fun c ↦ c.target = t.index) = [] := by
        refine List.filter_eq_nil_iff.mpr fun c hc ↦ ?_
        obtain ⟨t', ht', hc⟩ := List.mem_flatMap.mp hc
        obtain ⟨a, -, rfl⟩ := List.mem_map.mp hc
        intro heq
        exact hout (List.mem_map.mpr ⟨t', ht', of_decide_eq_true heq⟩)
      rw [hself, hrest, List.map_nil, List.append_nil, List.map_map]
      exact List.map_id _
    · have hfirst : (((st.yields t').map (pushCandidate t')).filter
          fun c ↦ c.target = t.index) = [] := by
        refine List.filter_eq_nil_iff.mpr fun c hc ↦ ?_
        obtain ⟨a, -, rfl⟩ := List.mem_map.mp hc
        intro heq
        exact hout (List.mem_map.mpr ⟨t, ht, (of_decide_eq_true heq).symm⟩)
      rw [hfirst, List.map_nil, List.nil_append]
      exact ih ht hindex

theorem mem_nativeCandidates {c : Candidate} :
    c ∈ nativeCandidates pool st ↔
      ∃ t ∈ pool.targets, ∃ a ∈ st.yields t, pushCandidate t a = c := by
  rw [nativeCandidates, List.mem_flatMap]
  simp only [List.mem_map]

end Contribution

/-! ## Fair passes -/

section Fair

variable {pool : Pool} {st : PoolState} {candidates : List Candidate} {rand : ℕ → ℕ}

/-- A pass over the candidates is fair when a dead candidate of a sampled target is one of the
target's own addresses, or there is no address to replace it with; and when no other sampled target
still holding that address can fail to draw a replacement for it. -/
structure FairPass (pool : Pool) (st : PoolState) (candidates : List Candidate) : Prop where
  native : ∀ c ∈ candidates, ∀ net, replaceableNet pool st c = some net →
    Exhausted net (reservedAddrs st) ∨
      ∀ t, pool.targets[c.target]? = some t → c.addr ∈ st.yields t
  shared : ∀ c ∈ candidates, ∀ net, replaceableNet pool st c = some net →
    Exhausted net (reservedAddrs st) ∨
      ∀ t ∈ pool.targets, ∀ net', t.sampledNet = some net' → t.index ≠ c.target →
        c.addr ∈ t.sampled → c.addr ∉ st.resampled →
        HasRoom net' (reservedAddrs st) (deadSamples pool st candidates).length

theorem replaceableNet_eq_some {c : Candidate} {net : IpNet} :
    replaceableNet pool st c = some net ↔
      ∃ h, st.health.lookup c.addr = some h ∧ h.dead pool.timing.interval ∧
        ∃ t, pool.targets[c.target]? = some t ∧ t.sampledNet = some net := by
  rw [replaceableNet]
  cases st.health.lookup c.addr with
  | none => simp
  | some h =>
    simp only [Option.some.injEq, exists_eq_left']
    by_cases hd : h.dead pool.timing.interval
    · rw [if_pos hd, Option.bind_eq_some_iff]
      exact ⟨fun h ↦ ⟨hd, h⟩, fun h ↦ h.2⟩
    · rw [if_neg hd]
      exact ⟨fun h ↦ absurd h (by simp), fun h ↦ absurd h.1 hd⟩

/-- Every address a target yields has a candidate of that target. -/
def CoversYields (pool : Pool) (st : PoolState) (candidates : List Candidate) : Prop :=
  ∀ t ∈ pool.targets, ∀ a ∈ st.yields t, ∃ c ∈ candidates, c.target = t.index ∧ c.addr = a

theorem FairPass.fairPlan (hfair : FairPass pool st candidates)
    (hcovers : CoversYields pool st candidates) :
    FairPlan pool st (planReplacements pool st candidates rand) := by
  obtain ⟨keys, plan, hsound, hplan⟩ := planReplacements_sound pool st candidates rand
  rw [← hplan]
  have hnotExhausted : ∀ p ∈ plan.planned, ∃ c ∈ candidates, c.target = p.1 ∧ c.addr = p.2.1 ∧
      ∃ net, replaceableNet pool st c = some net ∧ ¬Exhausted net (reservedAddrs st) := by
    intro p hp
    obtain ⟨⟨c, hc, ht, ha, net, hnet, k, hk, heq⟩, hfree⟩ := hsound.planned p hp
    exact ⟨c, hc, ht, ha, net, hnet, fun hex ↦ hfree (heq ▸ hex k hk)⟩
  constructor
  · intro p hp t ht
    obtain ⟨c, hc, htarget, haddr, net, hnet, hex⟩ := hnotExhausted p hp
    rw [← haddr]
    exact (hfair.native c hc net hnet).resolve_left hex t (htarget ▸ ht)
  · intro p hp t ht hsampled hin hlive
    obtain ⟨c, hc, htarget, haddr, net, hnet, hex⟩ := hnotExhausted p hp
    by_cases hsame : p.1 = t.index
    · exact mem_deadFor.mpr ⟨p.2.2, hsame ▸ hp⟩
    obtain ⟨net', hnet'⟩ := Option.isSome_iff_exists.mp hsampled
    have hroom := (hfair.shared c hc net hnet).resolve_left hex t ht net' hnet'
      (fun h ↦ hsame (htarget.symm.trans h.symm)) (haddr ▸ hin) (haddr ▸ hlive)
    -- the other target's own candidate for the address is dead as well
    obtain ⟨n, hspec⟩ := sampledNet_eq_some hnet'
    have hyield : p.2.1 ∈ st.yields t := by
      rw [PoolState.yields, hspec]
      exact List.mem_append_left _ (List.mem_filter.mpr ⟨hin, decide_eq_true hlive⟩)
    obtain ⟨c', hc', htarget', haddr'⟩ := hcovers t ht _ hyield
    obtain ⟨h, hlookup, hdead, -⟩ := replaceableNet_eq_some.mp hnet
    have hrepl : replaceableNet pool st c' = some net' :=
      replaceableNet_eq_some.mpr ⟨h, by rw [haddr', ← haddr, hlookup], hdead, t,
        by rw [htarget', Pool.getElem?_index ht], hnet'⟩
    obtain ⟨new, hnew⟩ := hsound.covered c' hc' net' hrepl _ le_rfl hroom
    rw [htarget', haddr'] at hnew
    exact mem_deadFor.mpr ⟨new, hnew⟩

end Fair

/-! ## One pass -/

/-- A sampled target yields as many addresses as were drawn for it, distinct and in its network. -/
structure Conserved (st : PoolState) (t : Target) (net : IpNet) : Prop where
  length_eq : (st.yields t).length = t.sampled.length
  nodup : (st.yields t).Nodup
  contains : ∀ a ∈ st.yields t, net.contains a

private theorem length_filter_notMem {xs ds : List IpAddr} (hxs : xs.Nodup) (hds : ds.Nodup)
    (hsub : ds ⊆ xs) : (xs.filter fun a ↦ a ∉ ds).length + ds.length = xs.length := by
  have hperm : (xs.filter fun a ↦ a ∈ ds).Perm ds := by
    refine (List.perm_ext_iff_of_nodup (hxs.filter _) hds).mpr fun a ↦ ?_
    rw [List.mem_filter, decide_eq_true_iff]
    exact ⟨fun h ↦ h.2, fun h ↦ ⟨hsub h, h⟩⟩
  have hsplit := List.length_eq_length_filter_add (l := xs) (fun a ↦ decide (a ∈ ds))
  simp only [← decide_not] at hsplit
  rw [hsplit, hperm.length_eq, Nat.add_comm]

section Pass

variable {pool : Pool} {st : PoolState} {candidates : List Candidate} {rand : ℕ → ℕ} {t : Target}
  {net : IpNet}

/-- **A fair pass conserves.** What is replaced for a target is as much as what is drawn for it, and
nothing else leaves its yield. -/
theorem Conserved.resampleDead (h : Conserved st t net) (ht : t ∈ pool.targets)
    (hnet : t.sampledNet = some net) (hfair : FairPass pool st candidates)
    (hcovers : CoversYields pool st candidates)
    (hlive : ∀ c ∈ candidates, c.addr ∈ st.health) :
    Conserved (st.resampleDead pool candidates rand) t net := by
  have hplan : FairPlan pool st (planReplacements pool st candidates rand) :=
    hfair.fairPlan hcovers
  rw [PoolState.resampleDead]
  obtain ⟨keys, plan, hsound, hplanned⟩ := planReplacements_sound pool st candidates rand
  rw [← hplanned] at hplan ⊢
  have hreserved : ∀ c ∈ candidates, c.addr ∈ reservedAddrs st := fun c hc ↦
    Finset.mem_union_left _ (List.mem_toFinset.mpr (AList.mem_keys.mp (hlive c hc)))
  have hfree : ∀ a ∈ newFor plan.planned t.index, a ∉ reservedAddrs st := by
    intro a ha
    obtain ⟨dead, hmem⟩ := mem_newFor.mp ha
    exact (hsound.planned _ hmem).2
  have hfresh : ∀ a ∈ newFor plan.planned t.index, a ∉ st.yields t := by
    intro a ha hy
    obtain ⟨c, hc, -, rfl⟩ := hcovers t ht a hy
    exact hfree _ ha (hreserved c hc)
  have hdead : ∀ a ∈ newFor plan.planned t.index, a ∉ deadFor plan.planned t.index := by
    intro a ha hd
    obtain ⟨new, hmem⟩ := mem_deadFor.mp hd
    obtain ⟨⟨c, hc, -, rfl, -⟩, -⟩ := hsound.planned _ hmem
    exact hfree _ ha (hreserved c hc)
  have hnew : (newFor plan.planned t.index).Nodup :=
    hsound.new_nodup.sublist (List.filter_sublist.map _)
  have hdeadNodup : (deadFor plan.planned t.index).Nodup := by
    have hkeys : ((deadFor plan.planned t.index).map (Prod.mk t.index)).Nodup := by
      have heq : (deadFor plan.planned t.index).map (Prod.mk t.index) =
          (plan.planned.filter fun p ↦ p.1 = t.index).map fun p ↦ (p.1, p.2.1) := by
        rw [deadFor, List.map_map]
        refine List.map_congr_left fun p hp ↦ ?_
        rw [Function.comp_apply, of_decide_eq_true (List.mem_filter.mp hp).2]
      rw [heq]
      exact hsound.keys_nodup.sublist (List.filter_sublist.map _)
    exact hkeys.of_map
  have hsub : deadFor plan.planned t.index ⊆ st.yields t := by
    intro a ha
    obtain ⟨new, hmem⟩ := mem_deadFor.mp ha
    exact hplan.1 _ hmem t (Pool.getElem?_index ht)
  have hyields := yields_of_fairPlan hplan ht hnet hnew hfresh hdead
  refine ⟨?_, ?_, ?_⟩
  · have hcount := length_filter_notMem h.nodup hdeadNodup hsub
    have hsame : (newFor plan.planned t.index).length = (deadFor plan.planned t.index).length := by
      rw [newFor, deadFor, List.length_map, List.length_map]
    rw [hyields, List.length_append, hsame, hcount, h.length_eq]
  · rw [hyields, List.nodup_append]
    refine ⟨h.nodup.filter _, hnew, ?_⟩
    rintro a ha b hb rfl
    exact hfresh a hb (List.mem_of_mem_filter ha)
  · rw [hyields]
    intro a ha
    rcases List.mem_append.mp ha with ha | ha
    · exact h.contains a (List.mem_of_mem_filter ha)
    · obtain ⟨dead, hmem⟩ := mem_newFor.mp ha
      obtain ⟨⟨c, -, htarget, -, net', hrepl, k, hk, rfl⟩, -⟩ := hsound.planned _ hmem
      obtain ⟨-, -, -, t', ht', hnet'⟩ := replaceableNet_eq_some.mp hrepl
      rw [htarget, Pool.getElem?_index ht] at ht'
      obtain rfl := Option.some.inj ht'
      obtain rfl := Option.some.inj (hnet.symm.trans hnet')
      exact contains_offsetInto hk

theorem Conserved.of_sameYields {st' : PoolState} (h : Conserved st t net)
    (hsame : ProbeLoop.SameYields st' st) : Conserved st' t net := by
  refine ⟨?_, ?_, ?_⟩ <;> rw [hsame.yields]
  exacts [h.length_eq, h.nodup, h.contains]

end Pass

/-! ## Runs -/

namespace ProbeLoop

/-- A step of a run whose passes are all fair. -/
def FairStep (pool : Pool) (l : ProbeLoop) : LoopEvent → Prop
  | .finish _ => FairPass pool l.state l.candidates
  | _ => True

/-- What holds throughout a run whose passes are all fair. -/
def ConservedIn (pool : Pool) (l : ProbeLoop) : Prop :=
  Current pool l ∧
    ∀ t ∈ pool.targets, ∀ net, t.sampledNet = some net → Conserved l.state t net

section Runs

variable {scale : LogScale} {pool : Pool} {l l' : ProbeLoop} {e : LoopEvent}

theorem conservedIn_start (pool : Pool) : ConservedIn pool start := by
  refine ⟨fun hphase ↦ absurd rfl hphase, fun t ht net hnet ↦ ?_⟩
  obtain ⟨n, hspec⟩ := sampledNet_eq_some hnet
  obtain ⟨hnodup, hin⟩ := pool.sampled_spec ht hnet
  have hyields : start.state.yields t = t.sampled := by
    rw [PoolState.yields, hspec]
    change t.sampled.filter (fun ip ↦ ip ∉ (∅ : Finset IpAddr)) ++ [] = t.sampled
    simp
  exact ⟨by rw [hyields], hyields ▸ hnodup, hyields ▸ hin⟩

theorem Current.coversYields (h : Current pool l) (hphase : l.phase ≠ .waiting) :
    CoversYields pool l.state l.candidates := by
  intro t ht a ha
  rw [(h hphase).1]
  refine ⟨pushCandidate t a, List.mem_append_left _ ?_, rfl, rfl⟩
  exact mem_nativeCandidates.mpr ⟨t, ht, a, ha, rfl⟩

theorem conservedIn_step (h : ConservedIn pool l) (hfair : FairStep pool l e)
    (hstep : l.step scale pool e = some l') : ConservedIn pool l' := by
  obtain ⟨hcur, hcons⟩ := h
  refine ⟨current_step hcur hstep, fun t ht net hnet ↦ ?_⟩
  rcases step_cases hstep with ⟨index, ips, t', name, rfl, ht', hspec', hphase, hstate⟩ |
      ⟨rand, rfl, hprobing, hphase, hyields⟩ | ⟨hyields, -⟩
  · -- a network target's yield does not look at the answers
    obtain ⟨n, hspec⟩ := sampledNet_eq_some hnet
    have hsame : l'.state.yields t = l.state.yields t := by
      rw [hstate, PoolState.yields, PoolState.yields, hspec]
      rfl
    have h := hcons t ht net hnet
    exact ⟨hsame ▸ h.length_eq, hsame ▸ h.nodup, hsame ▸ h.contains⟩
  · have hwaiting : l.phase ≠ .waiting := by rw [hprobing]; simp
    refine Conserved.of_sameYields ?_ hyields
    exact (hcons t ht net hnet).resampleDead ht hnet hfair (hcur.coversYields hwaiting)
      (hcur hwaiting).2
  · exact (hcons t ht net hnet).of_sameYields hyields

theorem conservedIn_of_reach (h : Reach (step scale pool) (FairStep pool) start l) :
    ConservedIn pool l := by
  refine h.invariant (conservedIn_start pool) ?_
  intro _ _ _ hinv hguard hnext
  exact conservedIn_step hinv hguard hnext

/-- **Sample counts are conserved.** In every run whose passes are all fair, each target written
with a sample count contributes as many native addresses as were drawn for it, all distinct and in
its network. -/
theorem contribution_conserved {t : Target} {net : IpNet}
    (h : Reach (step scale pool) (FairStep pool) start l) (ht : t ∈ pool.targets)
    (hnet : t.sampledNet = some net) :
    (contribution pool l.state t).length = t.sampled.length ∧
      (contribution pool l.state t).Nodup ∧
      ∀ a ∈ contribution pool l.state t, net.contains a := by
  have hcons := (conservedIn_of_reach h).2 t ht net hnet
  rw [contribution_eq_yields ht]
  exact ⟨hcons.length_eq, hcons.nodup, hcons.contains⟩

end Runs

/-! ## Pools all of whose passes are fair -/

section Separate

variable {scale : LogScale} {pool : Pool} {l : ProbeLoop}

/-- No NAT64 projection, and no address in the networks of two sampled targets. -/
def Separate (pool : Pool) : Prop :=
  pool.nat64 = none ∧
    ∀ t ∈ pool.targets, ∀ t' ∈ pool.targets, t.index ≠ t'.index → ∀ net net',
      t.sampledNet = some net → t'.sampledNet = some net' →
      ∀ a, net.contains a → ¬net'.contains a

theorem ConservedIn.fairPass (hsep : Separate pool) (h : ConservedIn pool l)
    (hphase : l.phase ≠ .waiting) : FairPass pool l.state l.candidates := by
  have hcands : l.candidates = nativeCandidates pool l.state := by
    rw [(h.1 hphase).1, synthesizedCandidates, hsep.1, List.append_nil]
  rw [hcands]
  constructor
  · intro c hc net hnet
    obtain ⟨t, ht, a, ha, rfl⟩ := mem_nativeCandidates.mp hc
    refine .inr fun t' ht' ↦ ?_
    rw [show (pushCandidate t a).target = t.index from rfl, Pool.getElem?_index ht] at ht'
    obtain rfl := Option.some.inj ht'
    exact ha
  · intro c hc net hnet
    obtain ⟨t, ht, a, ha, rfl⟩ := mem_nativeCandidates.mp hc
    obtain ⟨-, -, -, t₀, ht₀, hnet₀⟩ := replaceableNet_eq_some.mp hnet
    rw [show (pushCandidate t a).target = t.index from rfl, Pool.getElem?_index ht] at ht₀
    obtain rfl := Option.some.inj ht₀
    refine .inr fun t' ht' net' hnet' hne hin _ ↦ ?_
    exact absurd ((pool.sampled_spec ht' hnet').2 _ hin)
      (hsep.2 t ht t' ht' (Ne.symm hne) net net' hnet₀ hnet' _ ((h.2 t ht net hnet₀).contains a ha))

/-- In a pool without overlapping sampled networks and without a NAT64 projection every run is one
of fair passes. -/
theorem reach_fairStep_of_separate (hsep : Separate pool)
    (h : Reach (step scale pool) (fun _ _ ↦ True) start l) :
    Reach (step scale pool) (FairStep pool) start l := by
  induction h with
  | start => exact .start
  | @step l l' e _ _ next ih =>
    refine ih.step ?_ next
    cases stepTo_of_step next with
    | finish rand probing =>
      exact (conservedIn_of_reach ih).fairPass hsep (by rw [probing]; simp)
    | _ => trivial

end Separate

/-! ## A pool of one sample -/

section OneSample

/-- A pool of the network `10.0.0.0/24`, sampled once; what was drawn is `10.0.0.1`. -/
def oneSamplePool (nat64 : Option Nat64Projection) : Pool :=
  .new [(.cidr (.v4 0x0a000000 24) (some 1), [])] (fun _ ↦ [1])
    { defaultTiming with
      interval := 20 * 10 ^ 9, degradedInterval := 10 * 10 ^ 9, failThreshold := 1 }
    nat64

/-- Two passes in which probes of `dead` fail, and those of the other address succeed. -/
def twoPasses (alive : Option IpAddr) (dead : IpAddr) : List LoopEvent :=
  [.build 0, .begin 0] ++ (alive.map fun a ↦ .probed a (.ok 5000000) 0).toList ++
    [.probed dead .failed 0, .finish fun _ ↦ 0,
      .build (10 * 10 ^ 9), .begin (10 * 10 ^ 9), .probed dead .failed (10 * 10 ^ 9),
      .finish fun _ ↦ 0]

/-- The scores are not looked at here. -/
private def flatScale : LogScale := ⟨fun _ ↦ 0, fun _ ↦ 1⟩

private theorem separate_oneSamplePool : Separate (oneSamplePool none) := by
  refine ⟨rfl, fun t ht t' ht' hne ↦ ?_⟩
  rw [List.mem_singleton.mp ht, List.mem_singleton.mp ht'] at hne
  exact absurd rfl hne

/-- Without a projection the only sample is replaced by another. -/
theorem contribution_conserved_oneSamplePool :
    ∃ l, runFrom (step flatScale (oneSamplePool none)) start (twoPasses none (.v4 0x0a000001)) =
        some l ∧
      ∃ t ∈ (oneSamplePool none).targets, t.sampled = [.v4 0x0a000001] ∧
        contribution (oneSamplePool none) l.state t = [.v4 0x0a000000] ∧
        (contribution (oneSamplePool none) l.state t).length = t.sampled.length := by
  have hrun : ((runFrom (step flatScale (oneSamplePool none)) start
      (twoPasses none (.v4 0x0a000001))).map fun l ↦
        (oneSamplePool none).targets.map (contribution (oneSamplePool none) l.state)) =
      some [[.v4 0x0a000000]] := by decide +kernel
  obtain ⟨l, hl, hcontribution⟩ := Option.map_eq_some_iff.mp hrun
  have hreach := reach_fairStep_of_separate separate_oneSamplePool (reach_of_runFrom hl .start)
  refine ⟨l, hl, _, List.mem_singleton_self _, rfl, List.singleton_inj.mp hcontribution, ?_⟩
  exact (contribution_conserved hreach (List.mem_singleton_self _) rfl).1

/-- With the projection through `64:ff9b::/96`, the synthesized address is what dies, and its
replacement is one more native address of the target. -/
theorem not_contribution_conserved :
    ¬∀ (scale : LogScale) (pool : Pool) (events : List LoopEvent) (l : ProbeLoop),
      runFrom (step scale pool) start events = some l →
      ∀ t ∈ pool.targets, ∀ net, t.sampledNet = some net →
        (contribution pool l.state t).length = t.sampled.length ∧
          (contribution pool l.state t).Nodup ∧
          ∀ a ∈ contribution pool l.state t, net.contains a := by
  intro h
  let pool := oneSamplePool (some ⟨[.fromIpv6 0x0064ff9b000000000000000000000000], none⟩)
  let events := twoPasses (some (.v4 0x0a000001)) (.v6 0x0064ff9b00000000000000000a000001)
  have hrun : ((runFrom (step flatScale pool) start events).map fun l ↦
      pool.targets.map (contribution pool l.state)) =
      some [[.v4 0x0a000001, .v4 0x0a000000]] := by decide +kernel
  obtain ⟨l, hl, hcontribution⟩ := Option.map_eq_some_iff.mp hrun
  have hlength := (h flatScale pool events l hl _ (List.mem_singleton_self _) _ rfl).1
  rw [List.singleton_inj.mp hcontribution] at hlength
  exact absurd hlength (by decide)

end OneSample

end ProbeLoop

end SniGate
