import SniGate.Pool.Selection

/-!
# What the probe loop remembers

Building the candidates prunes, parks, restores and prunes again. What it leaves (`HistoryOk`):
health for exactly the live addresses, nothing both live and parked, no expired entry, and bounded
maps.

An address that drops out is parked with its health, and gets it back if it returns in time,
together with what was observed of it meanwhile; the proof follows its parked entry from build to
build (`parked_step`). Pruning may evict an entry that has not expired when there are too many of
them (`Evicts`). An address that returns later starts afresh, from the prior of its subnet if there
still is one.
-/

namespace SniGate

/-! ## Pruning -/

section Smallest

variable {K : Type} {count : ℕ} {entries : List (K × ℕ)} {k : K}

theorem mem_of_mem_smallest (h : k ∈ PoolState.smallest count entries) :
    k ∈ entries.map Prod.fst := by
  obtain ⟨e, he, rfl⟩ := List.mem_map.mp h
  exact List.mem_map_of_mem ((List.mem_insertionSort _).mp (List.mem_of_mem_take he))

theorem nodup_smallest (h : (entries.map Prod.fst).Nodup) :
    (PoolState.smallest count entries).Nodup := by
  rw [PoolState.smallest, List.map_take]
  refine List.Nodup.sublist (List.take_sublist _ _) ?_
  exact ((List.perm_insertionSort _ _).map _).nodup_iff.mpr h

theorem length_smallest (h : count ≤ entries.length) :
    (PoolState.smallest count entries).length = count := by
  rw [PoolState.smallest, List.length_map, List.length_take, List.length_insertionSort]
  exact min_eq_left h

/-- **Capping.** Dropping the oldest ones in excess of a cap leaves no more than that. -/
theorem length_capped [DecidableEq K] {V : Type} (m : Map K V) (q : K → Bool) (age : V → ℕ)
    (cap : ℕ) :
    (((PoolState.smallest
        (((m.entries.filter fun e ↦ q e.1).map fun e ↦ (e.1, age e.2)).length - cap)
        ((m.entries.filter fun e ↦ q e.1).map fun e ↦ (e.1, age e.2))).foldl
      (fun m k ↦ m.erase k) m).keys.filter q).length ≤ cap := by
  obtain ⟨idle, hidle⟩ : ∃ idle, idle =
      (m.entries.filter fun e ↦ q e.1).map fun e ↦ (e.1, age e.2) := ⟨_, rfl⟩
  rw [← hidle]
  have hkeys : idle.map Prod.fst = m.keys.filter q := by
    rw [hidle, List.map_map, AList.keys, List.keys, List.filter_map]
    rfl
  have herase := Map.length_keys_foldl_erase m (PoolState.smallest (idle.length - cap) idle) q
    (nodup_smallest (hkeys ▸ (AList.keys_nodup _).filter _)) fun k hk ↦ by
      have hin := hkeys ▸ mem_of_mem_smallest hk
      exact ⟨AList.mem_keys.mpr (List.mem_of_mem_filter hin), (List.mem_filter.mp hin).2⟩
  rw [length_smallest (Nat.sub_le _ _), ← hkeys, List.length_map] at herase
  omega

end Smallest

namespace PoolState

variable {st : PoolState} {now : ℕ} {a : IpAddr} {p : Health × ℕ}

/-- The parked entries that have not expired. -/
def unexpired (st : PoolState) (now : ℕ) : Map IpAddr (Health × ℕ) :=
  st.parked.retain fun _ p ↦ now < p.2

/-- The excess entries pruning drops. -/
def excessParked (st : PoolState) (now : ℕ) : List IpAddr :=
  smallest ((st.unexpired now).keys.length - maxParkedCandidates)
    ((st.unexpired now).entries.map fun e ↦ (e.1, e.2.2))

theorem parked_pruneHistory : (st.pruneHistory now).parked =
    (st.excessParked now).foldl (fun m a ↦ m.erase a) (st.unexpired now) := by
  simp only [pruneHistory, excessParked, unexpired]

/-- Pruning drops an entry of `a` that has not expired, for there are too many. -/
def Evicts (st : PoolState) (now : ℕ) (a : IpAddr) : Prop :=
  maxParkedCandidates < (st.unexpired now).keys.length ∧ a ∈ st.unexpired now ∧
    a ∉ (st.pruneHistory now).parked

theorem lookup_unexpired :
    (st.unexpired now).lookup a = (st.parked.lookup a).filter fun p ↦ now < p.2 :=
  Map.lookup_retain

theorem lookup_parked_of_pruneHistory (h : (st.pruneHistory now).parked.lookup a = some p) :
    st.parked.lookup a = some p ∧ now < p.2 := by
  rw [parked_pruneHistory, Map.lookup_foldl_erase] at h
  split_ifs at h
  rw [lookup_unexpired, Option.filter_eq_some_iff] at h
  exact ⟨h.1, of_decide_eq_true h.2⟩

/-- An entry that has not expired is kept, unless it is evicted. -/
theorem lookup_pruneHistory_of_lookup (h : st.parked.lookup a = some p) (hexpires : now < p.2)
    (hevicts : ¬st.Evicts now a) : (st.pruneHistory now).parked.lookup a = some p := by
  have hunexpired : (st.unexpired now).lookup a = some p := by
    rw [lookup_unexpired, h, Option.filter_some, if_pos (decide_eq_true hexpires)]
  have hin : a ∈ st.unexpired now := AList.lookup_isSome.mp (by rw [hunexpired]; rfl)
  rw [parked_pruneHistory, Map.lookup_foldl_erase]
  split_ifs with hexcess
  · refine absurd ⟨?_, hin, ?_⟩ hevicts
    · by_contra hfew
      have hnone : st.excessParked now = [] := by
        rw [excessParked, Nat.sub_eq_zero_of_le (not_lt.mp hfew), smallest, List.take_zero]
        rfl
      rw [hnone] at hexcess
      exact List.not_mem_nil hexcess
    · rw [parked_pruneHistory, Map.mem_foldl_erase]
      exact fun hkept ↦ hkept.1 hexcess
  · exact hunexpired

theorem lookup_pruneHistory_of_expired (h : ∀ p, st.parked.lookup a = some p → p.2 ≤ now) :
    (st.pruneHistory now).parked.lookup a = none := by
  cases hlookup : (st.pruneHistory now).parked.lookup a with
  | none => rfl
  | some p =>
    obtain ⟨hp, hlt⟩ := lookup_parked_of_pruneHistory hlookup
    exact absurd hlt (not_lt.mpr (h p hp))

/-- **The cap on parked entries.** -/
theorem length_parked_pruneHistory :
    (st.pruneHistory now).parked.keys.length ≤ maxParkedCandidates := by
  rw [parked_pruneHistory, excessParked]
  generalize maxParkedCandidates = cap
  have hcap := length_capped (st.unexpired now) (fun _ ↦ true) (fun p ↦ p.2) cap
  have hlength : (st.unexpired now).keys.length = (st.unexpired now).entries.length := by
    rw [AList.keys, List.keys, List.length_map]
  simpa only [List.filter_true, List.length_map, hlength] using hcap

/-- The subnets that have a live or parked address. -/
def retainedSubnets (st : PoolState) : List SubnetKey :=
  (st.health.keys ++ st.parked.keys).map SubnetKey.of

/-- **The cap on idle priors.** -/
theorem length_idle_pruneHistory :
    ((st.pruneHistory now).subnetPriors.keys.filter
      fun k ↦ k ∉ (st.pruneHistory now).retainedSubnets).length ≤ maxIdleSubnetPriors := by
  unfold pruneHistory retainedSubnets
  -- with the caps as numerals, unification would count them down
  generalize maxIdleSubnetPriors = cap, maxParkedCandidates = cap', parkDuration = age
  exact length_capped _ _ _ _

/-! ## What building does to one address -/

variable {scale : LogScale} {timing : ProbeTiming} {live departing : List IpAddr} {parkUntil : ℕ}

/-- Move one address to the parked map. -/
def park (parkUntil : ℕ) (st : PoolState) (addr : IpAddr) : PoolState :=
  match st.health.lookup addr with
  | some h =>
    { st with health := st.health.erase addr, parked := st.parked.insert addr (h, parkUntil) }
  | none => st

variable (st departing parkUntil a) in
theorem foldl_park : (departing.foldl (park parkUntil) st).subnetPriors = st.subnetPriors ∧
    (departing.foldl (park parkUntil) st).health.lookup a =
      (if a ∈ departing then none else st.health.lookup a) ∧
    (departing.foldl (park parkUntil) st).parked.lookup a =
      if a ∈ departing then
        ((st.health.lookup a).map fun h ↦ (h, parkUntil)).or (st.parked.lookup a)
      else st.parked.lookup a := by
  induction departing generalizing st with
  | nil => exact ⟨rfl, rfl, rfl⟩
  | cons b bs ih =>
    rw [List.foldl_cons]
    obtain ⟨hpriors, hhealth, hparked⟩ := ih (park parkUntil st b)
    rw [hpriors, hhealth, hparked, park]
    cases hb : st.health.lookup b with
    | none =>
      refine ⟨rfl, ?_, ?_⟩ <;> by_cases hab : a = b
      · subst hab
        simp [hb]
      · simp [hab]
      · subst hab
        simp [hb]
      · simp [hab]
    | some h =>
      refine ⟨rfl, ?_, ?_⟩ <;> by_cases hab : a = b
      · subst hab
        simp
      · simp [hab, AList.lookup_erase_ne hab]
      · subst hab
        simp [hb]
      · simp [hab, AList.lookup_erase_ne hab, AList.lookup_insert_ne hab]

variable (st live parkUntil a) in
/-- **What parking does.** -/
theorem parkDeparting_spec : (st.parkDeparting live parkUntil).subnetPriors = st.subnetPriors ∧
    (st.parkDeparting live parkUntil).health.lookup a =
      (if a ∈ live then st.health.lookup a else none) ∧
    (st.parkDeparting live parkUntil).parked.lookup a =
      if a ∈ live then st.parked.lookup a
      else ((st.health.lookup a).map fun h ↦ (h, parkUntil)).or (st.parked.lookup a) := by
  have hfold : st.parkDeparting live parkUntil =
      (st.health.keys.filter fun a ↦ a ∉ live).foldl (park parkUntil) st := rfl
  obtain ⟨hpriors, hhealth, hparked⟩ := foldl_park st a
    (st.health.keys.filter fun a ↦ a ∉ live) parkUntil
  rw [hfold, hpriors, hhealth, hparked]
  have hdeparting : a ∈ st.health.keys.filter (fun a ↦ a ∉ live) ↔ a ∈ st.health ∧ a ∉ live := by
    rw [List.mem_filter, decide_eq_true_eq, AList.mem_keys]
  refine ⟨rfl, ?_, ?_⟩ <;> by_cases hlive : a ∈ live <;> by_cases hin : a ∈ st.health
  · rw [if_neg (by simp [hlive]), if_pos hlive]
  · rw [if_neg (by simp [hlive]), if_pos hlive]
  · rw [if_pos (hdeparting.mpr ⟨hin, hlive⟩), if_neg hlive]
  · rw [if_neg (fun h ↦ hin (hdeparting.mp h).1), if_neg hlive, AList.lookup_eq_none.mpr hin]
  · rw [if_neg (by simp [hlive]), if_pos hlive]
  · rw [if_neg (by simp [hlive]), if_pos hlive]
  · rw [if_pos (hdeparting.mpr ⟨hin, hlive⟩), if_neg hlive]
  · rw [if_neg (fun h ↦ hin (hdeparting.mp h).1), if_neg hlive, AList.lookup_eq_none.mpr hin]
    rfl

/-- The health an address starts with: the prior of its subnet is all it inherits. -/
def fresh (scale : LogScale) (timing : ProbeTiming) (st : PoolState) (now : ℕ) (addr : IpAddr) :
    Health :=
  let h := Health.new scale now timing.degradedInterval timing.kalmanQ timing.kalmanR
  match st.subnetPriors.lookup (SubnetKey.of addr) with
  | some subnet => { h with nig := subnet.model }
  | none => h

/-- The health an address arrives with. -/
def arrival (scale : LogScale) (timing : ProbeTiming) (st : PoolState) (now : ℕ) (addr : IpAddr) :
    Health :=
  match st.parked.lookup addr with
  | some p => p.1
  | none => st.fresh scale timing now addr

variable (st now a scale timing) in
/-- **What arriving does.** -/
theorem giveHealth_spec (b : IpAddr) :
    (st.giveHealth scale timing now b).subnetPriors = st.subnetPriors ∧
    (st.giveHealth scale timing now b).health.lookup a =
      (if a = b ∧ a ∉ st.health then some (st.arrival scale timing now a)
      else st.health.lookup a) ∧
    (st.giveHealth scale timing now b).parked.lookup a =
      if a = b ∧ a ∉ st.health then none else st.parked.lookup a := by
  rw [giveHealth]
  by_cases hb : b ∈ st.health
  · rw [if_pos hb]
    refine ⟨rfl, ?_, ?_⟩ <;> rw [if_neg] <;> rintro ⟨rfl, hnot⟩ <;> exact hnot hb
  rw [if_neg hb]
  by_cases hab : a = b
  · subst hab
    cases hparked : st.parked.lookup a with
    | some p => simp [hb, arrival, hparked]
    | none =>
      cases hprior : st.subnetPriors.lookup (SubnetKey.of a) <;>
        simp [hb, arrival, fresh, hparked, hprior]
  · cases st.parked.lookup b <;>
      simp [hab, AList.lookup_insert_ne hab, AList.lookup_erase_ne hab]

variable (st now a scale timing live) in
theorem foldl_giveHealth_spec :
    (live.foldl (giveHealth scale timing now) st).subnetPriors = st.subnetPriors ∧
    (live.foldl (giveHealth scale timing now) st).health.lookup a =
      (if a ∈ live ∧ a ∉ st.health then some (st.arrival scale timing now a)
      else st.health.lookup a) ∧
    (live.foldl (giveHealth scale timing now) st).parked.lookup a =
      if a ∈ live ∧ a ∉ st.health then none else st.parked.lookup a := by
  induction live generalizing st with
  | nil => exact ⟨rfl, by simp, by simp⟩
  | cons b bs ih =>
    rw [List.foldl_cons]
    obtain ⟨hpriors, hhealth, hparked⟩ := ih (st.giveHealth scale timing now b)
    obtain ⟨hpriors', hhealth', hparked'⟩ := giveHealth_spec st now a scale timing b
    rw [hpriors, hhealth, hparked, hpriors', hparked']
    have hmem : a ∈ (st.giveHealth scale timing now b).health ↔ a = b ∨ a ∈ st.health :=
      ProbeLoop.giveHealth_frame.2 a
    by_cases hin : a ∈ st.health
    · have hkept := hmem.mpr (.inr hin)
      simp [hhealth', hkept, hin]
    by_cases hab : a = b
    · subst hab
      have hkept := hmem.mpr (.inl rfl)
      simp [hhealth', hkept, hin]
    · have hnot : a ∉ (st.giveHealth scale timing now b).health := fun h ↦ (hmem.mp h).elim hab hin
      have harrival : (st.giveHealth scale timing now b).arrival scale timing now a =
          st.arrival scale timing now a := by
        rw [arrival, arrival, hparked', if_neg fun h ↦ hab h.1, fresh, fresh, hpriors']
      simp [hhealth', hnot, hin, hab, harrival]

/-- Park what has departed, and give health to what is live. -/
def restore (scale : LogScale) (timing : ProbeTiming) (live : List IpAddr) (st : PoolState)
    (now parkUntil : ℕ) : PoolState :=
  live.foldl (giveHealth scale timing now) (st.parkDeparting live parkUntil)

/-- **What restoring does.** Live addresses keep their health or arrive, the others are parked. -/
theorem restore_spec : (st.restore scale timing live now parkUntil).subnetPriors =
      st.subnetPriors ∧
    (st.restore scale timing live now parkUntil).health.lookup a =
      (if a ∈ live then (st.health.lookup a).or (some (st.arrival scale timing now a)) else none) ∧
    (st.restore scale timing live now parkUntil).parked.lookup a =
      if a ∈ live then if a ∈ st.health then st.parked.lookup a else none
      else ((st.health.lookup a).map fun h ↦ (h, parkUntil)).or (st.parked.lookup a) := by
  obtain ⟨hpriors, hhealth, hparked⟩ := parkDeparting_spec st a live parkUntil
  obtain ⟨hpriors', hhealth', hparked'⟩ := foldl_giveHealth_spec
    (st.parkDeparting live parkUntil) now a scale timing live
  have hmem : a ∈ (st.parkDeparting live parkUntil).health ↔ a ∈ live ∧ a ∈ st.health := by
    rw [← AList.lookup_isSome, hhealth, ← AList.lookup_isSome]
    split_ifs with hlive <;> simp [hlive]
  rw [restore, hpriors', hhealth', hparked', hpriors, hhealth, hparked]
  by_cases hlive : a ∈ live
  · by_cases hin : a ∈ st.health
    · obtain ⟨h, hh⟩ := Option.isSome_iff_exists.mp (AList.lookup_isSome.mpr hin)
      simp [hmem, hlive, hin, hh]
    · have harrival : (st.parkDeparting live parkUntil).arrival scale timing now a =
          st.arrival scale timing now a := by
        rw [arrival, arrival, hparked, if_pos hlive, fresh, fresh, hpriors]
      simp [hmem, hlive, hin, harrival, AList.lookup_eq_none.mpr hin]
  · simp [hlive]

end PoolState

/-! ## What building leaves -/

/-- What is known of the state after its candidates are built. -/
structure HistoryOk (now : ℕ) (candidates : List Candidate) (st : PoolState) : Prop where
  live : ∀ a, a ∈ st.health ↔ a ∈ candidates.map Candidate.addr
  disjoint : ∀ a ∈ st.health, a ∉ st.parked
  unexpired : ∀ a p, st.parked.lookup a = some p → now < p.2
  parked : st.parked.keys.length ≤ maxParkedCandidates
  idle : (st.subnetPriors.keys.filter fun k ↦ k ∉ st.retainedSubnets).length ≤ maxIdleSubnetPriors

section Build

variable {scale : LogScale} {pool : Pool} {st : PoolState} {now : ℕ} {a : IpAddr} {p : Health × ℕ}

/-- The state before the last pruning. -/
def restoredAt (scale : LogScale) (pool : Pool) (st : PoolState) (now : ℕ) : PoolState :=
  (st.pruneHistory now).restore scale pool.timing
    ((buildCandidates scale pool st now).1.map Candidate.addr) now (now + parkDuration)

theorem state_buildCandidates :
    (buildCandidates scale pool st now).2 = (restoredAt scale pool st now).pruneHistory now := rfl

theorem health_pruneHistory : (st.pruneHistory now).health = st.health :=
  ProbeLoop.pruneHistory_frame.2

theorem lookup_health_buildCandidates : (buildCandidates scale pool st now).2.health.lookup a =
    if a ∈ (buildCandidates scale pool st now).1.map Candidate.addr then
      (st.health.lookup a).or (some ((st.pruneHistory now).arrival scale pool.timing now a))
    else none := by
  rw [state_buildCandidates, health_pruneHistory, restoredAt, PoolState.restore_spec.2.1,
    health_pruneHistory]

theorem mem_health_buildCandidates : a ∈ (buildCandidates scale pool st now).2.health ↔
    a ∈ (buildCandidates scale pool st now).1.map Candidate.addr := by
  rw [← AList.lookup_isSome, lookup_health_buildCandidates]
  split_ifs with hlive
  · simp only [hlive, iff_true]
    cases st.health.lookup a <;> rfl
  · simp [hlive]

/-- The parked entry of an address that is not live, before the last pruning. -/
theorem lookup_parked_restoredAt
    (h : a ∉ (buildCandidates scale pool st now).1.map Candidate.addr) :
    (restoredAt scale pool st now).parked.lookup a =
      ((st.health.lookup a).map fun h ↦ (h, now + parkDuration)).or
        ((st.pruneHistory now).parked.lookup a) := by
  rw [restoredAt, PoolState.restore_spec.2.2, if_neg h, health_pruneHistory]

/-- **What building leaves.** -/
theorem historyOk_buildCandidates (h : ∀ a ∈ st.health, a ∉ st.parked) :
    HistoryOk now (buildCandidates scale pool st now).1 (buildCandidates scale pool st now).2 where
  live _ := mem_health_buildCandidates
  disjoint a ha := by
    have hlive := mem_health_buildCandidates.mp ha
    have hnone : (restoredAt scale pool st now).parked.lookup a = none := by
      rw [restoredAt, PoolState.restore_spec.2.2, if_pos hlive, health_pruneHistory]
      split_ifs with hin
      · refine AList.lookup_eq_none.mpr fun hparked ↦ h a hin ?_
        obtain ⟨p, hp⟩ := Option.isSome_iff_exists.mp (AList.lookup_isSome.mpr hparked)
        exact AList.lookup_isSome.mp (by rw [(PoolState.lookup_parked_of_pruneHistory hp).1]; rfl)
      · rfl
    rw [state_buildCandidates]
    intro hparked
    obtain ⟨p, hp⟩ := Option.isSome_iff_exists.mp (AList.lookup_isSome.mpr hparked)
    rw [(PoolState.lookup_parked_of_pruneHistory hp).1] at hnone
    exact absurd hnone (by simp)
  unexpired a p hp := by
    rw [state_buildCandidates] at hp
    exact (PoolState.lookup_parked_of_pruneHistory hp).2
  parked := by
    rw [state_buildCandidates]
    exact PoolState.length_parked_pruneHistory
  idle := by
    rw [state_buildCandidates]
    exact PoolState.length_idle_pruneHistory

end Build

/-! ## What other steps do -/

/-- The health of an address after an event, as far as observations go. -/
def observedHealth (scale : LogScale) (pool : Pool) (a : IpAddr) (h : Health) : LoopEvent → Health
  | .observed addr bytes elapsed _ =>
    if addr = a then h.observeThroughput scale bytes elapsed pool.timing.throughputDiscount else h
  | _ => h

/-- When an event happens. -/
def LoopEvent.time : LoopEvent → Option ℕ
  | .observed _ _ _ now | .build now | .begin now | .probed _ _ now => some now
  | .resolved .. | .finish _ => none

section Steps

variable {scale : LogScale} {pool : Pool} {st : PoolState} {now : ℕ} {a : IpAddr} {p : Health × ℕ}
  {l l' : ProbeLoop} {e : LoopEvent}

theorem observeThroughput_of_zero {h : Health} {bytes elapsed : ℕ} {discount : ℚ}
    (hzero : bytes = 0 ∨ elapsed = 0) : h.observeThroughput scale bytes elapsed discount = h := by
  rw [Health.observeThroughput, if_pos hzero.symm]

theorem expiry_observe {addr : IpAddr} {bytes elapsed : ℕ} {discount : ℚ}
    (h : (st.observe scale addr bytes elapsed discount now).parked.lookup a = some p) :
    ∃ p', st.parked.lookup a = some p' ∧ p'.2 = p.2 := by
  simp only [PoolState.observe] at h
  split_ifs at h
  · exact ⟨p, h, rfl⟩
  · exact ⟨p, h, rfl⟩
  · exact ⟨p, h, rfl⟩
  · rw [Map.lookup_modify] at h
    split_ifs at h with haddr
    · subst haddr
      obtain ⟨p', hp', rfl⟩ := Option.map_eq_some_iff.mp h
      exact ⟨p', hp', rfl⟩
    · exact ⟨p, h, rfl⟩

theorem lookup_parked_observe {addr : IpAddr} {bytes elapsed : ℕ} {discount : ℚ}
    (ha : a ∉ st.health) (hp : st.parked.lookup a = some p) (hnow : now < p.2) :
    (st.observe scale addr bytes elapsed discount now).parked.lookup a =
      some (if addr = a then p.1.observeThroughput scale bytes elapsed discount else p.1, p.2) := by
  simp only [PoolState.observe]
  by_cases hzero : bytes = 0 ∨ elapsed = 0
  · rw [if_pos hzero, observeThroughput_of_zero hzero, ite_self, hp]
  rw [if_neg hzero]
  by_cases haddr : addr = a
  · subst haddr
    simp [ha, hp, not_le.mpr hnow, Map.lookup_modify]
  · rw [if_neg haddr]
    split_ifs
    · exact hp
    · exact hp
    · rw [Map.lookup_modify, if_neg (Ne.symm haddr)]
      exact hp

variable (pool st a) in
theorem parked_resampleDead (candidates : List Candidate) (rand : ℕ → ℕ) :
    (st.resampleDead pool candidates rand).parked = st.parked ∧
      (a ∈ (st.resampleDead pool candidates rand).health → a ∈ st.health) := by
  rw [PoolState.resampleDead, PoolState.replaceAll]
  generalize ((planReplacements pool st candidates rand).map fun p ↦ p.2.1).dedup = retired
  have hretire : ∀ {st : PoolState}, (retired.foldl PoolState.retire st).parked = st.parked ∧
      (a ∈ (retired.foldl PoolState.retire st).health → a ∈ st.health) := by
    induction retired with
    | nil => exact ⟨rfl, id⟩
    | cons b retired ih =>
      intro st
      rw [List.foldl_cons]
      exact ⟨ih.1, fun h ↦ (AList.mem_erase.mp (ih.2 h)).2⟩
  exact hretire

/-- **A step other than building.** It gives no address health, parks nothing, and drops nothing
that is parked. -/
theorem history_step (h : l.step scale pool e = some l') (hbuild : ∀ now, e ≠ .build now) :
    (a ∈ l'.state.health → a ∈ l.state.health) ∧
      (∀ p, l'.state.parked.lookup a = some p →
        ∃ p', l.state.parked.lookup a = some p' ∧ p'.2 = p.2) ∧
      ∀ p, a ∉ l.state.health → l.state.parked.lookup a = some p →
        (∀ t, e.time = some t → t < p.2) →
        l'.state.parked.lookup a = some (observedHealth scale pool a p.1 e, p.2) := by
  cases ProbeLoop.stepTo_of_step h with
  | build now => exact absurd rfl (hbuild now)
  | observed addr bytes elapsed now =>
    exact ⟨(ProbeLoop.observe_frame.2 a).mp, fun _ ↦ expiry_observe, fun p ha hp ht ↦
      lookup_parked_observe ha hp (ht now rfl)⟩
  | probed addr outcome now =>
    refine ⟨(ProbeLoop.recordOutcome_frame.2 a).mp, ?_⟩
    cases outcome <;> exact ⟨fun p hp ↦ ⟨p, hp, rfl⟩, fun _ _ hp _ ↦ hp⟩
  | finish rand =>
    obtain ⟨hparked, hhealth⟩ := parked_resampleDead pool l.state a l.candidates rand
    refine ⟨hhealth, fun p hp ↦ ⟨p, ?_, rfl⟩, fun p _ hp _ ↦ ?_⟩
    · rwa [recomputeOrder, hparked] at hp
    · rw [recomputeOrder, hparked, hp]
      rfl
  | _ => exact ⟨id, fun p hp ↦ ⟨p, hp, rfl⟩, fun _ _ hp _ ↦ hp⟩

end Steps

/-! ## Runs -/

/-- Events in the order of a clock that does not go back. -/
def MonotoneClock (es : List LoopEvent) : Prop := (es.filterMap LoopEvent.time).Pairwise (· ≤ ·)

/-- A build evicts an address from the parked map, in its first or its second pruning. -/
def EvictedBy (scale : LogScale) (pool : Pool) (l : ProbeLoop) (now : ℕ) (a : IpAddr) : Prop :=
  l.state.Evicts now a ∨ (restoredAt scale pool l.state now).Evicts now a

/-- An address drops out of the candidates at `now₀`, with health `h`; no build brings it back while
`es` happens; and a build at `now₂` does. -/
structure Absence (scale : LogScale) (pool : Pool) (a : IpAddr) (h : Health) (now₀ now₂ : ℕ)
    (es : List LoopEvent) (l l₁ l₂ l₃ : ProbeLoop) : Prop where
  left : l.state.health.lookup a = some h
  leave : l.step scale pool (.build now₀) = some l₁
  out : a ∉ l₁.candidates.map Candidate.addr
  run : runFrom (ProbeLoop.step scale pool) l₁ es = some l₂
  away : ∀ front now back t, es = front ++ .build now :: back →
    runFrom (ProbeLoop.step scale pool) l₁ (front ++ [.build now]) = some t →
    a ∉ t.candidates.map Candidate.addr
  comeBack : l₂.step scale pool (.build now₂) = some l₃
  back : a ∈ l₃.candidates.map Candidate.addr
  clock : MonotoneClock (.build now₀ :: (es ++ [.build now₂]))

/-- No build along a run evicts an address. -/
def NeverEvicted (scale : LogScale) (pool : Pool) (a : IpAddr) (l : ProbeLoop)
    (es : List LoopEvent) : Prop :=
  ∀ front now back t, es = front ++ .build now :: back →
    runFrom (ProbeLoop.step scale pool) l front = some t → ¬EvictedBy scale pool t now a

section Runs

variable {scale : LogScale} {pool : Pool} {a : IpAddr} {h : Health} {now now₀ now₂ until' : ℕ}
  {l l' l₁ l₂ l₃ : ProbeLoop} {e : LoopEvent} {es : List LoopEvent}

theorem build_cases (hstep : l.step scale pool (.build now) = some l') :
    l'.candidates = (buildCandidates scale pool l.state now).1 ∧
      l'.state.health = (buildCandidates scale pool l.state now).2.health ∧
      l'.state.parked = (buildCandidates scale pool l.state now).2.parked ∧
      l'.state.subnetPriors = (buildCandidates scale pool l.state now).2.subnetPriors := by
  cases ProbeLoop.stepTo_of_step hstep with
  | build now built waiting candidates =>
    rw [candidates]
    exact ⟨rfl, rfl, rfl, rfl⟩

/-- **Nothing is both live and parked.** -/
theorem disjoint_of_reach (h : Reach (ProbeLoop.step scale pool) (fun _ _ ↦ True) .start l) :
    ∀ a ∈ l.state.health, a ∉ l.state.parked := by
  induction h with
  | start => exact fun a ha ↦ absurd ha (AList.notMem_empty a)
  | @step t t' e _ _ hnext ih =>
    intro a ha
    by_cases hbuild : ∀ now, e ≠ .build now
    · obtain ⟨hhealth, hexpiry, -⟩ := history_step (a := a) hnext hbuild
      intro hin
      obtain ⟨p, hp⟩ := Option.isSome_iff_exists.mp (AList.lookup_isSome.mpr hin)
      obtain ⟨p', hp', -⟩ := hexpiry p hp
      exact ih a (hhealth ha) (AList.lookup_isSome.mp (by rw [hp']; rfl))
    · push Not at hbuild
      obtain ⟨now, rfl⟩ := hbuild
      obtain ⟨-, hhealth, hparked, -⟩ := build_cases hnext
      rw [hhealth] at ha
      rw [hparked]
      exact (historyOk_buildCandidates ih).disjoint a ha

/-- An address that is neither live nor parked for longer than `until'`. -/
def Gone (a : IpAddr) (until' : ℕ) (l : ProbeLoop) : Prop :=
  a ∉ l.state.health ∧ ∀ p, l.state.parked.lookup a = some p → p.2 ≤ until'

/-- An address parked with a health. -/
def Parked (a : IpAddr) (until' : ℕ) (h : Health) (l : ProbeLoop) : Prop :=
  a ∉ l.state.health ∧ l.state.parked.lookup a = some (h, until')

/-- **One step while it is away.** The parked entry keeps its expiry and collects what is observed,
unless it expires or is evicted. -/
theorem parked_step (hparked : Parked a until' h l) (hstep : l.step scale pool e = some l')
    (htime : ∀ t, e.time = some t → t < until')
    (hbuild : ∀ now, e = .build now → a ∉ l'.candidates.map Candidate.addr ∧
      ¬EvictedBy scale pool l now a) :
    Parked a until' (observedHealth scale pool a h e) l' := by
  by_cases hother : ∀ now, e ≠ .build now
  · obtain ⟨hhealth, -, hlookup⟩ := history_step (a := a) hstep hother
    exact ⟨fun hin ↦ hparked.1 (hhealth hin), hlookup _ hparked.1 hparked.2 htime⟩
  · push Not at hother
    obtain ⟨now, rfl⟩ := hother
    obtain ⟨hlive, hevicted⟩ := hbuild now rfl
    obtain ⟨hcandidates, hhealth, hafter, -⟩ := build_cases hstep
    have hnow : now < until' := htime now rfl
    rw [hcandidates] at hlive
    have hpruned : (l.state.pruneHistory now).parked.lookup a = some (h, until') :=
      PoolState.lookup_pruneHistory_of_lookup hparked.2 hnow fun hev ↦ hevicted (.inl hev)
    have hrestored : (restoredAt scale pool l.state now).parked.lookup a = some (h, until') := by
      rw [lookup_parked_restoredAt hlive, AList.lookup_eq_none.mpr hparked.1, hpruned]
      rfl
    rw [Parked, hhealth, hafter, state_buildCandidates]
    refine ⟨fun hin ↦ hlive (mem_health_buildCandidates.mp hin), ?_⟩
    exact PoolState.lookup_pruneHistory_of_lookup hrestored hnow fun hev ↦ hevicted (.inr hev)

/-- **One step while it is away**, for an entry that may be dropped. -/
theorem gone_step (hgone : Gone a until' l) (hstep : l.step scale pool e = some l')
    (hbuild : ∀ now, e = .build now → a ∉ l'.candidates.map Candidate.addr) : Gone a until' l' := by
  by_cases hother : ∀ now, e ≠ .build now
  · obtain ⟨hhealth, hexpiry, -⟩ := history_step (a := a) hstep hother
    refine ⟨fun hin ↦ hgone.1 (hhealth hin), fun p hp ↦ ?_⟩
    obtain ⟨p', hp', heq⟩ := hexpiry p hp
    exact heq ▸ hgone.2 p' hp'
  · push Not at hother
    obtain ⟨now, rfl⟩ := hother
    have hlive := hbuild now rfl
    obtain ⟨hcandidates, hhealth, hafter, -⟩ := build_cases hstep
    rw [hcandidates] at hlive
    rw [Gone, hhealth, hafter]
    refine ⟨fun hin ↦ hlive (mem_health_buildCandidates.mp hin), fun p hp ↦ ?_⟩
    rw [state_buildCandidates] at hp
    have hrestored := (PoolState.lookup_parked_of_pruneHistory hp).1
    rw [lookup_parked_restoredAt hlive, AList.lookup_eq_none.mpr hgone.1, Option.map_none,
      Option.none_or] at hrestored
    exact hgone.2 p (PoolState.lookup_parked_of_pruneHistory hrestored).1

/-- The health after all events of a run, as far as observations go. -/
def observedAll (scale : LogScale) (pool : Pool) (a : IpAddr) (h : Health) (es : List LoopEvent) :
    Health :=
  es.foldl (observedHealth scale pool a) h

/-- **A run while it is away.** -/
theorem parked_run (hparked : Parked a until' h l)
    (hrun : runFrom (ProbeLoop.step scale pool) l es = some l')
    (htime : ∀ e ∈ es, ∀ t, e.time = some t → t < until')
    (haway : ∀ front now back t, es = front ++ .build now :: back →
      runFrom (ProbeLoop.step scale pool) l (front ++ [.build now]) = some t →
      a ∉ t.candidates.map Candidate.addr)
    (hevicted : NeverEvicted scale pool a l es) :
    Parked a until' (observedAll scale pool a h es) l' := by
  induction es generalizing l h with
  | nil =>
    obtain rfl := Option.some.inj hrun
    exact hparked
  | cons e es ih =>
    obtain ⟨t, ht, hrun⟩ := runFrom_cons_eq_some.mp hrun
    rw [List.forall_mem_cons] at htime
    have hstep : Parked a until' (observedHealth scale pool a h e) t := by
      refine parked_step hparked ht htime.1 fun now he ↦ ?_
      subst he
      exact ⟨haway [] now es t rfl (runFrom_cons_eq_some.mpr ⟨t, ht, rfl⟩),
        hevicted [] now es l rfl rfl⟩
    refine ih hstep hrun htime.2 (fun front now back t' hes hrun' ↦ ?_)
      fun front now back t' hes hrun' ↦ ?_
    · exact haway (e :: front) now back t' (by rw [hes, List.cons_append])
        (runFrom_cons_eq_some.mpr ⟨t, ht, hrun'⟩)
    · exact hevicted (e :: front) now back t' (by rw [hes, List.cons_append])
        (runFrom_cons_eq_some.mpr ⟨t, ht, hrun'⟩)

theorem gone_run (hgone : Gone a until' l)
    (hrun : runFrom (ProbeLoop.step scale pool) l es = some l')
    (haway : ∀ front now back t, es = front ++ .build now :: back →
      runFrom (ProbeLoop.step scale pool) l (front ++ [.build now]) = some t →
      a ∉ t.candidates.map Candidate.addr) : Gone a until' l' := by
  induction es generalizing l with
  | nil =>
    obtain rfl := Option.some.inj hrun
    exact hgone
  | cons e es ih =>
    obtain ⟨t, ht, hrun⟩ := runFrom_cons_eq_some.mp hrun
    refine ih (gone_step hgone ht fun now he ↦ ?_) hrun fun front now back t' hes hrun' ↦ ?_
    · subst he
      exact haway [] now es t rfl (runFrom_cons_eq_some.mpr ⟨t, ht, rfl⟩)
    · exact haway (e :: front) now back t' (by rw [hes, List.cons_append])
        (runFrom_cons_eq_some.mpr ⟨t, ht, hrun'⟩)

/-- Leaving the candidates, an address is parked with its health, unless it is evicted at once. -/
theorem lookup_parked_of_leave (hleft : l.state.health.lookup a = some h)
    (hstep : l.step scale pool (.build now) = some l₁)
    (hout : a ∉ l₁.candidates.map Candidate.addr) :
    Gone a (now + parkDuration) l₁ ∧
      (¬EvictedBy scale pool l now a → Parked a (now + parkDuration) h l₁) := by
  obtain ⟨hcandidates, hhealth, hafter, -⟩ := build_cases hstep
  rw [hcandidates] at hout
  have hrestored : (restoredAt scale pool l.state now).parked.lookup a =
      some (h, now + parkDuration) := by
    rw [lookup_parked_restoredAt hout, hleft]
    rfl
  rw [Gone, Parked, hhealth, hafter, state_buildCandidates]
  refine ⟨⟨fun hin ↦ hout (mem_health_buildCandidates.mp hin), fun p hp ↦ ?_⟩, fun hevicted ↦
    ⟨fun hin ↦ hout (mem_health_buildCandidates.mp hin), ?_⟩⟩
  · have hsame := (PoolState.lookup_parked_of_pruneHistory hp).1
    obtain rfl := Option.some.inj (hrestored.symm.trans hsame)
    exact le_rfl
  · refine PoolState.lookup_pruneHistory_of_lookup hrestored ?_ fun hev ↦ hevicted (.inr hev)
    exact Nat.lt_add_of_pos_right (by decide)

theorem lookup_health_of_comeBack (hnot : a ∉ l.state.health)
    (hstep : l.step scale pool (.build now) = some l')
    (hback : a ∈ l'.candidates.map Candidate.addr) :
    l'.state.health.lookup a =
      some ((l.state.pruneHistory now).arrival scale pool.timing now a) := by
  obtain ⟨hcandidates, hhealth, -⟩ := build_cases hstep
  rw [hcandidates] at hback
  rw [hhealth, lookup_health_buildCandidates, if_pos hback, AList.lookup_eq_none.mpr hnot]
  rfl

theorem arrival_of_expired (h : ∀ p, l.state.parked.lookup a = some p → p.2 ≤ now) :
    (l.state.pruneHistory now).arrival scale pool.timing now a =
      (l.state.pruneHistory now).fresh scale pool.timing now a := by
  rw [PoolState.arrival, PoolState.lookup_pruneHistory_of_expired h]

theorem Absence.time_le (habs : Absence scale pool a h now₀ now₂ es l l₁ l₂ l₃) :
    ∀ e ∈ es, ∀ t, e.time = some t → t ≤ now₂ := by
  intro e he t ht
  have hclock := habs.clock
  rw [MonotoneClock, ← List.cons_append, List.filterMap_append, List.pairwise_append] at hclock
  exact hclock.2.2 t (List.mem_filterMap.mpr ⟨e, List.mem_cons_of_mem _ he, ht⟩) now₂ (by
    simp [LoopEvent.time])

/-- **Returning in time.** -/
theorem Absence.lookup_of_lt (habs : Absence scale pool a h now₀ now₂ es l l₁ l₂ l₃)
    (htime : now₂ < now₀ + parkDuration)
    (hevicted : NeverEvicted scale pool a l (.build now₀ :: (es ++ [.build now₂]))) :
    l₃.state.health.lookup a = some (observedAll scale pool a h es) := by
  have hparked : Parked a (now₀ + parkDuration) (observedAll scale pool a h es) l₂ := by
    refine parked_run ((lookup_parked_of_leave habs.left habs.leave habs.out).2 ?_) habs.run
      (fun e he t ht ↦ (habs.time_le e he t ht).trans_lt htime) habs.away ?_
    · exact hevicted [] now₀ _ l rfl rfl
    · intro front now back t hes hrun
      exact hevicted (.build now₀ :: front) now (back ++ [.build now₂]) t (by simp [hes])
        (runFrom_cons_eq_some.mpr ⟨l₁, habs.leave, hrun⟩)
  have hnot : ¬l₂.state.Evicts now₂ a := by
    have hnot := hevicted (.build now₀ :: es) now₂ [] l₂ (by simp)
      (runFrom_cons_eq_some.mpr ⟨l₁, habs.leave, habs.run⟩)
    exact fun hev ↦ hnot (.inl hev)
  rw [lookup_health_of_comeBack hparked.1 habs.comeBack habs.back, PoolState.arrival,
    PoolState.lookup_pruneHistory_of_lookup hparked.2 htime hnot]

/-- **Returning too late.** -/
theorem Absence.lookup_of_le (habs : Absence scale pool a h now₀ now₂ es l l₁ l₂ l₃)
    (htime : now₀ + parkDuration ≤ now₂) :
    l₃.state.health.lookup a =
      some ((l₂.state.pruneHistory now₂).fresh scale pool.timing now₂ a) := by
  have hgone : Gone a (now₀ + parkDuration) l₂ :=
    gone_run (lookup_parked_of_leave habs.left habs.leave habs.out).1 habs.run habs.away
  rw [lookup_health_of_comeBack hgone.1 habs.comeBack habs.back,
    arrival_of_expired fun p hp ↦ (hgone.2 p hp).trans htime]

theorem HistoryOk.congr {candidates : List Candidate} {st st' : PoolState}
    (h : HistoryOk now candidates st) (hhealth : st'.health = st.health)
    (hparked : st'.parked = st.parked) (hpriors : st'.subnetPriors = st.subnetPriors) :
    HistoryOk now candidates st' := by
  obtain ⟨hlive, hdisjoint, hunexpired, hfew, hidle⟩ := h
  refine ⟨hhealth ▸ hlive, ?_, hparked ▸ hunexpired, hparked ▸ hfew, ?_⟩
  · rwa [hhealth, hparked]
  · rwa [PoolState.retainedSubnets, hhealth, hparked, hpriors]

/-- **History.** After each build the history is in order. An address that drops out and returns
before its parking expired, and was not evicted, has the health it left with and what was observed
of it in between; one that returns after that, or was not parked, starts afresh, from the prior of
its subnet if there is one. -/
theorem history_kept (hreach : Reach (ProbeLoop.step scale pool) (fun _ _ ↦ True) .start l) :
    (∀ now l', l.step scale pool (.build now) = some l' → HistoryOk now l'.candidates l'.state) ∧
    (∀ a h now₀ now₂ es l₁ l₂ l₃, Absence scale pool a h now₀ now₂ es l l₁ l₂ l₃ →
      (now₂ < now₀ + parkDuration →
        NeverEvicted scale pool a l (.build now₀ :: (es ++ [.build now₂])) →
        l₃.state.health.lookup a = some (observedAll scale pool a h es)) ∧
      (now₀ + parkDuration ≤ now₂ → l₃.state.health.lookup a =
        some ((l₂.state.pruneHistory now₂).fresh scale pool.timing now₂ a))) ∧
    ∀ a now l', l.step scale pool (.build now) = some l' → a ∈ l'.candidates.map Candidate.addr →
      a ∉ l.state.health → a ∉ l.state.parked → l'.state.health.lookup a =
        some ((l.state.pruneHistory now).fresh scale pool.timing now a) := by
  refine ⟨fun now l' hstep ↦ ?_, fun a h now₀ now₂ es l₁ l₂ l₃ habs ↦
    ⟨habs.lookup_of_lt, habs.lookup_of_le⟩, fun a now l' hstep hback hnot hparked ↦ ?_⟩
  · obtain ⟨hcandidates, hhealth, hparked, hpriors⟩ := build_cases hstep
    rw [hcandidates]
    exact (historyOk_buildCandidates (disjoint_of_reach hreach)).congr hhealth hparked hpriors
  · rw [lookup_health_of_comeBack hnot hstep hback, arrival_of_expired fun p hp ↦ ?_]
    rw [AList.lookup_eq_none.mpr hparked] at hp
    exact absurd hp (by simp)

end Runs

/-! ## A name whose answer rotates -/

section Rotating

open ProbeLoop

theorem neverEvicted_cons {scale : LogScale} {pool : Pool} {a : IpAddr} {l l' : ProbeLoop}
    {e : LoopEvent} {es : List LoopEvent} (hstep : l.step scale pool e = some l')
    (hevicted : ∀ now, e = .build now → ¬EvictedBy scale pool l now a)
    (h : NeverEvicted scale pool a l' es) : NeverEvicted scale pool a l (e :: es) := by
  intro front now back t hes hrun
  cases front with
  | nil =>
    obtain ⟨rfl, -⟩ := List.cons.inj hes
    obtain rfl := Option.some.inj hrun
    exact hevicted now rfl
  | cons e' front =>
    obtain ⟨rfl, htail⟩ := List.cons.inj hes
    obtain ⟨t', ht', hrun'⟩ := runFrom_cons_eq_some.mp hrun
    obtain rfl := Option.some.inj (hstep.symm.trans ht')
    exact h front now back t htail hrun'

/-- The scores are not looked at here. -/
private def unitScale : LogScale := ⟨fun _ ↦ 0, fun _ ↦ 1⟩

/-- A pool of one name. -/
def rotatingPool : Pool := .new [(.domain "up.test".toList, [])] (fun _ ↦ []) defaultTiming none

/-- The name resolves to one address, which answers; then it resolves to nothing. -/
def oneAnswer : List LoopEvent :=
  [.resolved 0 [.v4 0x0a000001], .build 0, .begin 0, .probed (.v4 0x0a000001) (.ok 5000000) 0,
    .finish fun _ ↦ 0, .resolved 0 []]

/-- While the address is away, a transfer from it is reported, and the name comes to resolve to
it. -/
def whileAway : List LoopEvent :=
  [.begin 1, .observed (.v4 0x0a000001) 1000 1000 2, .resolved 0 [.v4 0x0a000001]]

/-- The address returns with what it left with and the transfer. -/
theorem history_kept_rotatingPool :
    ∃ l l₁ l₂ l₃ h, runFrom (step unitScale rotatingPool) start oneAnswer = some l ∧
      Absence unitScale rotatingPool (.v4 0x0a000001) h 1 3 whileAway l l₁ l₂ l₃ ∧
      l₃.state.health.lookup (.v4 0x0a000001) =
        some (observedAll unitScale rotatingPool (.v4 0x0a000001) h whileAway) := by
  let a : IpAddr := .v4 0x0a000001
  let run := step unitScale rotatingPool
  let l := (runFrom run start oneAnswer).get (by decide +kernel)
  let l₁ := (run l (.build 1)).get (by decide +kernel)
  let m₁ := (run l₁ (.begin 1)).get (by decide +kernel)
  let m₂ := (run m₁ (.observed a 1000 1000 2)).get (by decide +kernel)
  let l₂ := (run m₂ (.resolved 0 [a])).get (by decide +kernel)
  let l₃ := (run l₂ (.build 3)).get (by decide +kernel)
  let h := (l.state.health.lookup a).get (by decide +kernel)
  have hl : runFrom run start oneAnswer = some l := (Option.some_get _).symm
  have hl₁ : run l (.build 1) = some l₁ := (Option.some_get _).symm
  have hm₁ : run l₁ (.begin 1) = some m₁ := (Option.some_get _).symm
  have hm₂ : run m₁ (.observed a 1000 1000 2) = some m₂ := (Option.some_get _).symm
  have hl₂ : run m₂ (.resolved 0 [a]) = some l₂ := (Option.some_get _).symm
  have hl₃ : run l₂ (.build 3) = some l₃ := (Option.some_get _).symm
  have habs : Absence unitScale rotatingPool a h 1 3 whileAway l l₁ l₂ l₃ :=
    { left := (Option.some_get _).symm
      leave := hl₁
      out := by decide +kernel
      run := runFrom_cons_eq_some.mpr ⟨m₁, hm₁, runFrom_cons_eq_some.mpr ⟨m₂, hm₂,
        runFrom_cons_eq_some.mpr ⟨l₂, hl₂, rfl⟩⟩⟩
      away := fun front now back t hes ↦ by
        have hin : LoopEvent.build now ∈ whileAway :=
          hes ▸ List.mem_append_right _ List.mem_cons_self
        exact absurd hin (by simp [whileAway])
      comeBack := hl₃
      back := by decide +kernel
      clock := by
        rw [MonotoneClock]
        decide }
  have hevicted :
      NeverEvicted unitScale rotatingPool a l (.build 1 :: (whileAway ++ [.build 3])) := by
    refine neverEvicted_cons hl₁ ?_ (neverEvicted_cons hm₁ (by simp)
      (neverEvicted_cons hm₂ (by simp) (neverEvicted_cons hl₂ (by simp)
        (neverEvicted_cons hl₃ ?_ ?_))))
    · rintro now hnow
      obtain rfl := LoopEvent.build.inj hnow
      rintro (⟨hmany, -⟩ | ⟨hmany, -⟩) <;> exact absurd hmany (by decide +kernel)
    · rintro now hnow
      obtain rfl := LoopEvent.build.inj hnow
      rintro (⟨hmany, -⟩ | ⟨hmany, -⟩) <;> exact absurd hmany (by decide +kernel)
    · exact fun front now back t hes ↦ absurd hes (by simp)
  exact ⟨l, l₁, l₂, l₃, h, hl, habs, (((history_kept (reach_of_runFrom hl .start)).2.1 a h 1 3
    whileAway l₁ l₂ l₃ habs).1 (by decide) hevicted)⟩

end Rotating

end SniGate
