import SniGate.Pool.Conservation

/-!
# What retiring a dead sample does to the other targets

Retirement is recorded per address, in one set that the expansion of every network target consults.
Literal addresses and domains are not affected, and a target's replacements are its own. But a
network written without a sample count is expanded through the same set, and nothing is drawn for it
in return: when it shares a dead address with a sampled target, it loses that address
(`keepsUnsampled_iff`).
-/

namespace SniGate

section Frame

variable {pool : Pool} {st : PoolState} {planned : List (ℕ × IpAddr × IpAddr)} {t : Target}

/-- From an offset whose address is free, the draw takes that address. -/
theorem drawFreshSample_of_notMem {net : IpNet} {reserved : Finset IpAddr} {k : ℕ}
    (hk : k < networkSize net) (hfree : offsetInto net k ∉ reserved) :
    drawFreshSample net reserved k = some (offsetInto net k) := by
  have hsize : networkSize net ≤ 2 ^ 128 := by
    rw [networkSize]
    split_ifs with hbig
    · exact Nat.sub_le _ _
    · exact Nat.pow_le_pow_right (by decide) (not_le.mp hbig).le
  obtain ⟨n, hn⟩ : ∃ n, min (reserved.card + 1) (networkSize net) = n + 1 :=
    Nat.exists_eq_succ_of_ne_zero
      (lt_min (Nat.succ_pos _) (networkSize_pos net)).ne'
  rw [drawFreshSample]
  simp only [hn, List.range_succ_eq_map, List.map_cons]
  rw [List.find?_cons_of_pos]
  · rw [Nat.mod_eq_of_lt hk, Nat.add_zero, Nat.mod_eq_of_lt (hk.trans_le hsize),
      Nat.mod_eq_of_lt hk]
  · rw [Nat.mod_eq_of_lt hk, Nat.add_zero, Nat.mod_eq_of_lt (hk.trans_le hsize),
      Nat.mod_eq_of_lt hk]
    exact decide_eq_true hfree

/-- One dead candidate whose network has a free address is replaced by that address. -/
theorem planReplacements_singleton {c : Candidate} {net : IpNet} {k : ℕ}
    (hnet : replaceableNet pool st c = some net) (hk : k < networkSize net)
    (hfree : offsetInto net k ∉ reservedAddrs st) :
    planReplacements pool st [c] (fun _ ↦ k) = [(c.target, c.addr, offsetInto net k)] := by
  have hstep : planStep pool st (fun _ ↦ k) (⟨reservedAddrs st, []⟩, ∅) (c, 0) =
      (⟨insert (offsetInto net k) (reservedAddrs st), [(c.target, c.addr, offsetInto net k)]⟩,
        insert (c.target, c.addr) ∅) := by
    simp only [planStep, hnet, drawFreshSample_of_notMem hk hfree]
    rw [if_neg (Finset.notMem_empty _), List.nil_append]
  rw [planReplacements]
  change ([(c, 0)].foldl (planStep pool st fun _ ↦ k) (⟨reservedAddrs st, []⟩, ∅)).1.planned = _
  rw [List.foldl_cons, hstep, List.foldl_nil]

/-- Replacements are only planned for sampled targets. -/
def ForSampled (pool : Pool) (planned : List (ℕ × IpAddr × IpAddr)) : Prop :=
  ∀ p ∈ planned, ∃ t, pool.targets[p.1]? = some t ∧ t.sampledNet.isSome

theorem forSampled_planReplacements {candidates : List Candidate} {rand : ℕ → ℕ} :
    ForSampled pool (planReplacements pool st candidates rand) := by
  obtain ⟨keys, plan, hsound, hplan⟩ := planReplacements_sound pool st candidates rand
  rw [← hplan]
  intro p hp
  obtain ⟨⟨c, -, htarget, -, net, hnet, -⟩, -⟩ := hsound.planned p hp
  obtain ⟨-, -, -, t, ht, hsampled⟩ := replaceableNet_eq_some.mp hnet
  exact ⟨t, htarget ▸ ht, by rw [hsampled]; rfl⟩

theorem notFor_of_unsampled (hfor : ForSampled pool planned) (ht : t ∈ pool.targets)
    (hunsampled : t.sampledNet = none) :
    deadFor planned t.index = [] ∧ newFor planned t.index = [] := by
  have hnone : planned.filter (fun p ↦ p.1 = t.index) = [] := by
    refine List.filter_eq_nil_iff.mpr fun p hp heq ↦ ?_
    obtain ⟨t', ht', hsampled⟩ := hfor p hp
    rw [of_decide_eq_true heq, Pool.getElem?_index ht] at ht'
    obtain rfl := Option.some.inj ht'
    rw [hunsampled] at hsampled
    exact absurd hsampled (by simp)
  rw [deadFor, newFor, hnone]
  exact ⟨rfl, rfl⟩

/-- What a target that is not sampled yields after a plan is carried out. -/
theorem mem_yields_replaceAll (hfor : ForSampled pool planned) (ht : t ∈ pool.targets)
    (hunsampled : t.sampledNet = none) {a : IpAddr} :
    a ∈ (st.replaceAll planned).yields t ↔
      a ∈ st.yields t ∧
        ((∃ net, t.spec = .cidr net none) → a ∈ planned.map (fun p ↦ p.2.1) →
          a ∈ st.replacementsOf t.index) := by
  obtain ⟨hdead, hnew⟩ := notFor_of_unsampled hfor ht hunsampled
  cases hspec : t.spec with
  | domain name =>
    rw [PoolState.yields, PoolState.yields, hspec]
    simp [resolved_replaceAll]
  | ip addr =>
    rw [PoolState.yields, PoolState.yields, hspec]
    simp
  | cidr net sample =>
    cases sample with
    | some want =>
      rw [Target.sampledNet, hspec] at hunsampled
      exact absurd hunsampled (by simp)
    | none =>
      rw [yields_replaceAll hspec (by simp [hnew]) (by simp [hnew]) (by simp [hnew]), hdead, hnew,
        PoolState.yields, hspec]
      simp only [List.mem_append, List.mem_filter, decide_eq_true_eq, List.not_mem_nil,
        not_false_eq_true, and_true, or_false]
      constructor
      · rintro (⟨hin, hr, hp⟩ | hr)
        · exact ⟨.inl ⟨hin, hr⟩, fun _ h ↦ absurd h hp⟩
        · exact ⟨.inr hr, fun _ _ ↦ hr⟩
      · rintro ⟨hin | hr, hkept⟩
        · by_cases hp : a ∈ planned.map fun p ↦ p.2.1
          · exact .inr (hkept ⟨net, rfl⟩ hp)
          · exact .inl ⟨hin.1, hin.2, hp⟩
        · exact .inr hr

end Frame

/-! ## The next candidates -/

section Candidates

variable {scale : LogScale} {pool : Pool} {st : PoolState} {now : ℕ} {t : Target} {c : Candidate}

theorem mem_buildCandidates :
    c ∈ (buildCandidates scale pool st now).1 ↔
      c ∈ nativeCandidates pool st ∨
        c ∈ synthesizedCandidates pool (nativeCandidates pool st) := by
  obtain ⟨built, hbuilt⟩ : ∃ built, buildCandidates scale pool st now = built := ⟨_, rfl⟩
  rw [hbuilt, (ProbeLoop.buildCandidates_frame hbuilt).1, List.mem_append]

theorem familyTag_ne_tagNat64 (a : IpAddr) : familyTag a ≠ tagNat64 := by
  cases a with
  | v4 bits =>
    change tagIpv4 ≠ tagNat64
    decide
  | v6 bits =>
    change tagIpv6 ≠ tagNat64
    decide

/-- A synthesized candidate has the target of a native one, and is tagged. -/
theorem mem_synthesizedCandidates {natives : List Candidate}
    (h : c ∈ synthesizedCandidates pool natives) :
    c.tags.head? = some tagNat64 ∧ ∃ c' ∈ natives, c'.target = c.target ∧
      ∀ natives', c' ∈ natives' → c ∈ synthesizedCandidates pool natives' := by
  rw [synthesizedCandidates] at h
  simp only [synthesizedCandidates]
  cases hn : pool.nat64 with
  | none =>
    rw [hn] at h
    exact absurd h (by simp)
  | some n =>
    rw [hn] at h
    obtain ⟨c', hc', hmem⟩ := List.mem_flatMap.mp h
    suffices hshape : c.tags.head? = some tagNat64 ∧ c'.target = c.target from
      ⟨hshape.1, c', hc', hshape.2, fun _ hin ↦ List.mem_flatMap.mpr ⟨c', hin, hmem⟩⟩
    split at hmem
    · exact absurd hmem (by simp)
    · split_ifs at hmem with hfrom
      · obtain ⟨p, -, rfl⟩ := List.mem_map.mp hmem
        exact ⟨rfl, rfl⟩
      · exact absurd hmem (by simp)

/-- The native candidates of a target are the addresses it yields. -/
theorem mem_native_of_target (ht : t ∈ pool.targets) (hc : c.target = t.index) :
    c ∈ nativeCandidates pool st ↔ ∃ a ∈ st.yields t, pushCandidate t a = c := by
  rw [mem_nativeCandidates]
  constructor
  · rintro ⟨t', ht', a, ha, rfl⟩
    have hsame : pool.targets[t.index]? = some t' := by
      rw [← hc]
      exact Pool.getElem?_index ht'
    rw [Pool.getElem?_index ht] at hsame
    obtain rfl := Option.some.inj hsame
    exact ⟨a, ha, rfl⟩
  · rintro ⟨a, ha, rfl⟩
    exact ⟨t, ht, a, ha, rfl⟩

/-- What is there for a target that is not sampled is there still. -/
def KeepsUnsampled (pool : Pool) (before after : List Candidate) : Prop :=
  ∀ t ∈ pool.targets, t.sampledNet = none → ∀ c ∈ before, c.target = t.index → c ∈ after

/-- No dead candidate of a sampled target whose network still has a free address is in the expansion
of a network written without a sample count. -/
def Undisturbed (pool : Pool) (st : PoolState) (available : List Candidate) : Prop :=
  ∀ c ∈ available, ∀ net, replaceableNet pool st c = some net →
    ¬Exhausted net (reservedAddrs st) →
    ∀ t ∈ pool.targets, ∀ full, t.spec = .cidr full none → c.addr ∈ t.sampled →
      c.addr ∈ st.resampled ∨ c.addr ∈ st.replacementsOf t.index

theorem keepsUnsampled_of_yields {st' : PoolState} {now' : ℕ}
    (h : ∀ t ∈ pool.targets, t.sampledNet = none → st.yields t ⊆ st'.yields t) :
    KeepsUnsampled pool (buildCandidates scale pool st now).1
      (buildCandidates scale pool st' now').1 := by
  intro t ht hunsampled c hc htarget
  have hnative : ∀ c' ∈ nativeCandidates pool st, c'.target = t.index →
      c' ∈ nativeCandidates pool st' := by
    intro c' hc' htarget'
    obtain ⟨a, ha, heq⟩ := (mem_native_of_target ht htarget').mp hc'
    exact (mem_native_of_target ht htarget').mpr ⟨a, h t ht hunsampled ha, heq⟩
  rcases mem_buildCandidates.mp hc with hc | hc
  · exact mem_buildCandidates.mpr (.inl (hnative c hc htarget))
  · obtain ⟨-, c', hc', htarget', hkeep⟩ := mem_synthesizedCandidates hc
    exact mem_buildCandidates.mpr (.inr (hkeep _ (hnative c' hc' (htarget'.trans htarget))))

/-- **When retirement is confined to sampled targets.** Whatever candidates are passed, and whatever
is drawn, replacing dead samples keeps the next candidates of every target that is not sampled,
exactly when no replaceable address is in the expansion of a network written without a count. -/
theorem keepsUnsampled_iff (scale : LogScale) (pool : Pool) (st : PoolState)
    (available : List Candidate) (now now' : ℕ) :
    (∀ candidates, candidates ⊆ available → ∀ rand,
      KeepsUnsampled pool (buildCandidates scale pool st now).1
        (buildCandidates scale pool (st.resampleDead pool candidates rand) now').1) ↔
      Undisturbed pool st available := by
  constructor
  · intro h c hc net hnet hroom t ht full hspec hin
    by_contra hlost
    obtain ⟨hlive, hnotRecorded⟩ := not_or.mp hlost
    -- pass the one candidate, and draw from the free offset
    obtain ⟨k, hk, hfree⟩ : ∃ k < networkSize net, offsetInto net k ∉ reservedAddrs st := by
      by_contra hnone
      push Not at hnone
      exact hroom hnone
    have hunsampled : t.sampledNet = none := by rw [Target.sampledNet, hspec]
    have hyield : c.addr ∈ st.yields t := by
      rw [PoolState.yields, hspec]
      exact List.mem_append_left _ (List.mem_filter.mpr ⟨hin, decide_eq_true hlive⟩)
    have hkept := h [c] (List.cons_subset.mpr ⟨hc, List.nil_subset _⟩) (fun _ ↦ k) t ht hunsampled
      (pushCandidate t c.addr)
      (mem_buildCandidates.mpr (.inl ((mem_native_of_target ht rfl).mpr ⟨_, hyield, rfl⟩))) rfl
    rcases mem_buildCandidates.mp hkept with hkept | hkept
    · obtain ⟨a, ha, heq⟩ := (mem_native_of_target ht rfl).mp hkept
      obtain rfl : a = c.addr := congrArg Candidate.addr heq
      have hplan := planReplacements_singleton hnet hk hfree
      have hfor : ForSampled pool (planReplacements pool st [c] fun _ ↦ k) :=
        forSampled_planReplacements
      rw [PoolState.resampleDead] at ha
      refine hnotRecorded (((mem_yields_replaceAll hfor ht hunsampled).mp ha).2 ⟨full, hspec⟩ ?_)
      rw [hplan]
      exact List.mem_singleton_self _
    · have htag := (mem_synthesizedCandidates hkept).1
      exact familyTag_ne_tagNat64 _ (Option.some.inj htag)
  · intro h candidates hsub rand
    refine keepsUnsampled_of_yields fun t ht hunsampled a ha ↦ ?_
    rw [PoolState.resampleDead]
    refine (mem_yields_replaceAll forSampled_planReplacements ht hunsampled).mpr ⟨ha, ?_⟩
    rintro ⟨full, hspec⟩ hplanned
    obtain ⟨p, hp, rfl⟩ := List.mem_map.mp hplanned
    obtain ⟨keys, plan, hsound, hplan⟩ := planReplacements_sound pool st candidates rand
    rw [← hplan] at hp
    obtain ⟨⟨c, hc, -, haddr, net, hnet, k, hk, hdraw⟩, hfree⟩ := hsound.planned p hp
    rw [PoolState.yields, hspec] at ha
    rcases List.mem_append.mp ha with ha | ha
    · obtain ⟨hin, hlive⟩ := List.mem_filter.mp ha
      rw [← haddr] at hin hlive ⊢
      exact (h c (hsub hc) net hnet (fun hex ↦ hfree (hdraw ▸ hex k hk)) t ht full hspec
        hin).resolve_left (of_decide_eq_true hlive)
    · exact ha

end Candidates

/-! ## A pool that loses an address -/

/-- A pool of `10.0.0.0/31`, expanded, and `10.0.0.0/24`, sampled once; what was drawn is
`10.0.0.1`. -/
def overlappingPool : Pool :=
  .new [(.cidr (.v4 0x0a000000 31) none, []), (.cidr (.v4 0x0a000000 24) (some 1), [])]
    (fun _ ↦ [1])
    { defaultTiming with
      interval := 20 * 10 ^ 9, degradedInterval := 10 * 10 ^ 9, failThreshold := 1 }
    none

/-- Two passes, up to the last probe of the second, in which the shared address never answers. -/
def sharedAddrDies : List LoopEvent :=
  [.build 0, .begin 0, .probed (.v4 0x0a000000) (.ok 5000000) 0, .probed (.v4 0x0a000001) .failed 0,
    .finish fun _ ↦ 0, .build (10 * 10 ^ 9), .begin (10 * 10 ^ 9),
    .probed (.v4 0x0a000001) .failed (10 * 10 ^ 9)]

/-- The expanded network loses the address that was replaced for the sampled one. -/
theorem not_keepsUnsampled :
    ¬∀ (scale : LogScale) (pool : Pool) (events : List LoopEvent) (l : ProbeLoop),
      runFrom (ProbeLoop.step scale pool) ProbeLoop.start events = some l →
      ∀ candidates rand now now', KeepsUnsampled pool (buildCandidates scale pool l.state now).1
        (buildCandidates scale pool (l.state.resampleDead pool candidates rand) now').1 := by
  intro h
  let scale : LogScale := ⟨fun _ ↦ 0, fun _ ↦ 1⟩
  let lost : Candidate := ⟨.v4 0x0a000001, 0, [tagIpv4]⟩
  have hrun : ((runFrom (ProbeLoop.step scale overlappingPool) ProbeLoop.start
      sharedAddrDies).map fun l ↦
        (decide (lost ∈ (buildCandidates scale overlappingPool l.state 0).1),
          decide (lost ∈ (buildCandidates scale overlappingPool
            (l.state.resampleDead overlappingPool l.candidates fun _ ↦ 2) 0).1))) =
      some (true, false) := by decide +kernel
  obtain ⟨l, hl, hlost⟩ := Option.map_eq_some_iff.mp hrun
  obtain ⟨hbefore, hafter⟩ := Prod.mk.inj hlost
  have hkept := h scale overlappingPool sharedAddrDies l hl l.candidates (fun _ ↦ 2) 0 0 _
    List.mem_cons_self rfl lost (of_decide_eq_true hbefore) rfl
  exact of_decide_eq_false hafter hkept

end SniGate
