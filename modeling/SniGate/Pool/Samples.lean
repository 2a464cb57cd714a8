import SniGate.Pool.Loop

/-!
# What replacing dead samples does to a target's yield

A pass plans replacements first, looking at every candidate, and carries them out afterwards: each
replacement is recorded for its target, and each replaced address is retired for all of them. The
yield of a network target then changes in three ways. Retired addresses leave its original sample,
whichever target they were retired for; the addresses replaced *for it* leave its replacements; and
the new addresses drawn for it are appended (`yields_replaceAll`).

For a target written with a sample count these cancel out when what leaves is what was replaced for
it: `FairPlan` is that condition, and `yields_of_fairPlan` the resulting yield. `PlanSound` says
what a plan is made of, and which candidates it cannot leave out.
-/

namespace SniGate

/-! ## Plans -/

/-- The addresses no replacement may be. -/
def reservedAddrs (st : PoolState) : Finset IpAddr := st.health.keys.toFinset ∪ st.resampled

/-- The candidates a pass is to replace. -/
def deadSamples (pool : Pool) (st : PoolState) (candidates : List Candidate) : List Candidate :=
  candidates.filter fun c ↦ (replaceableNet pool st c).isSome

/-- Every address of the network is reserved. -/
def Exhausted (net : IpNet) (reserved : Finset IpAddr) : Prop :=
  ∀ k < networkSize net, offsetInto net k ∈ reserved

/-- Drawing from the network succeeds, also after fewer than `n` other draws. -/
def HasRoom (net : IpNet) (reserved : Finset IpAddr) (n : ℕ) : Prop :=
  ∀ extra : Finset IpAddr, extra.card < n →
    ∀ rand, (drawFreshSample net (reserved ∪ extra) rand).isSome

section Plans

variable {pool : Pool} {st : PoolState} {seen candidates : List Candidate} {rand : ℕ → ℕ}
  {reserved : Finset IpAddr}

/-- A planned replacement is for a dead candidate, with a new address from its target's network
that is not reserved. -/
def PlannedFor (pool : Pool) (st : PoolState) (candidates : List Candidate)
    (reserved : Finset IpAddr) (p : ℕ × IpAddr × IpAddr) : Prop :=
  (∃ c ∈ candidates, c.target = p.1 ∧ c.addr = p.2.1 ∧
    ∃ net, replaceableNet pool st c = some net ∧
      ∃ k < networkSize net, offsetInto net k = p.2.2) ∧ p.2.2 ∉ reserved

/-- What holds of a plan, and of the keys considered, after the candidates `seen`. -/
structure PlanSound (pool : Pool) (st : PoolState) (reserved : Finset IpAddr)
    (seen : List Candidate) (acc : Plan × Finset (ℕ × IpAddr)) : Prop where
  planned : ∀ p ∈ acc.1.planned, PlannedFor pool st seen reserved p
  reserved_eq : acc.1.reserved = reserved ∪ (acc.1.planned.map fun p ↦ p.2.2).toFinset
  few : acc.1.planned.length ≤ (deadSamples pool st seen).length
  keyed : ∀ p ∈ acc.1.planned, (p.1, p.2.1) ∈ acc.2
  key_seen : ∀ key ∈ acc.2, ∃ c ∈ seen, c.target = key.1 ∧ c.addr = key.2
  keys_nodup : (acc.1.planned.map fun p ↦ (p.1, p.2.1)).Nodup
  new_nodup : (acc.1.planned.map fun p ↦ p.2.2).Nodup
  /-- A dead candidate is replaced when no draw can fail. -/
  covered : ∀ c ∈ seen, ∀ net, replaceableNet pool st c = some net →
    ∀ n, (deadSamples pool st seen).length ≤ n → HasRoom net reserved n →
    ∃ new, (c.target, c.addr, new) ∈ acc.1.planned

private theorem nodup_map_append_singleton {α β : Type} {f : α → β} {xs : List α} {x : α}
    (h : (xs.map f).Nodup) (hx : ∀ y ∈ xs, f y ≠ f x) : ((xs ++ [x]).map f).Nodup := by
  rw [List.map_append, List.map_singleton, List.nodup_append]
  refine ⟨h, List.nodup_singleton _, ?_⟩
  intro a ha b hb hab
  rw [List.mem_singleton] at hb
  obtain ⟨y, hy, rfl⟩ := List.mem_map.mp ha
  exact hx y hy (hab.trans hb)

theorem replaceableNet_congr {c c' : Candidate} (ht : c.target = c'.target)
    (ha : c.addr = c'.addr) : replaceableNet pool st c = replaceableNet pool st c' := by
  rw [replaceableNet, replaceableNet, ht, ha]

theorem PlannedFor.mono {p : ℕ × IpAddr × IpAddr} (h : PlannedFor pool st seen reserved p)
    (hsub : seen ⊆ candidates) : PlannedFor pool st candidates reserved p := by
  obtain ⟨⟨c, hc, hplan⟩, hfree⟩ := h
  exact ⟨⟨c, hsub hc, hplan⟩, hfree⟩

theorem deadSamples_append_singleton (c : Candidate) :
    (deadSamples pool st (seen ++ [c])).length =
      (deadSamples pool st seen).length + if (replaceableNet pool st c).isSome then 1 else 0 := by
  rw [deadSamples, List.filter_append, List.length_append, ← deadSamples]
  congr 1
  split_ifs with hc
  · simp only [List.filter_cons, if_pos hc, List.filter_nil, List.length_singleton]
  · simp only [List.filter_cons, if_neg hc, List.filter_nil, List.length_nil]

section Step

variable {acc : Plan × Finset (ℕ × IpAddr)} {c : Candidate}

/-- A candidate that leaves the plan and the keys alone. -/
theorem PlanSound.skip (h : PlanSound pool st reserved seen acc)
    (hc : ∀ net, replaceableNet pool st c = some net → (c.target, c.addr) ∈ acc.2) :
    PlanSound pool st reserved (seen ++ [c]) acc where
  planned p hp := (h.planned p hp).mono (List.subset_append_left _ _)
  reserved_eq := h.reserved_eq
  few := by
    rw [deadSamples_append_singleton]
    exact h.few.trans (Nat.le_add_right _ _)
  keyed := h.keyed
  key_seen key hkey := by
    obtain ⟨c', hc', heq⟩ := h.key_seen key hkey
    exact ⟨c', List.mem_append_left _ hc', heq⟩
  keys_nodup := h.keys_nodup
  new_nodup := h.new_nodup
  covered c' hc' net hnet n hn hroom := by
    have hn' : (deadSamples pool st seen).length ≤ n := by
      rw [deadSamples_append_singleton] at hn
      exact (Nat.le_add_right _ _).trans hn
    rcases List.mem_append.mp hc' with hc' | hc'
    · exact h.covered c' hc' net hnet n hn' hroom
    · -- considered before under the same key
      obtain rfl := List.mem_singleton.mp hc'
      obtain ⟨c₀, hc₀, ht, ha⟩ := h.key_seen _ (hc net hnet)
      rw [← replaceableNet_congr ht ha] at hnet
      obtain ⟨new, hnew⟩ := h.covered c₀ hc₀ net hnet n hn' hroom
      rw [ht, ha] at hnew
      exact ⟨new, hnew⟩

theorem PlanSound.miss (h : PlanSound pool st reserved seen acc) {net : IpNet} {r : ℕ}
    (hnet : replaceableNet pool st c = some net)
    (hdraw : drawFreshSample net acc.1.reserved r = none) :
    PlanSound pool st reserved (seen ++ [c]) (acc.1, insert (c.target, c.addr) acc.2) where
  planned p hp := (h.planned p hp).mono (List.subset_append_left _ _)
  reserved_eq := h.reserved_eq
  few := by
    rw [deadSamples_append_singleton]
    exact h.few.trans (Nat.le_add_right _ _)
  keyed p hp := Finset.mem_insert_of_mem (h.keyed p hp)
  key_seen key hkey := by
    rcases Finset.mem_insert.mp hkey with rfl | hkey
    · exact ⟨c, List.mem_append_right _ (List.mem_singleton_self _), rfl, rfl⟩
    · obtain ⟨c', hc', heq⟩ := h.key_seen key hkey
      exact ⟨c', List.mem_append_left _ hc', heq⟩
  keys_nodup := h.keys_nodup
  new_nodup := h.new_nodup
  covered c' hc' net' hnet' n hn hroom := by
    rw [deadSamples_append_singleton, hnet, Option.isSome_some, if_pos rfl] at hn
    rcases List.mem_append.mp hc' with hc' | hc'
    · exact h.covered c' hc' net' hnet' n (by omega) hroom
    · obtain rfl := List.mem_singleton.mp hc'
      obtain rfl := Option.some.inj (hnet.symm.trans hnet')
      have hcard : ((acc.1.planned.map fun p ↦ p.2.2).toFinset).card < n :=
        calc _ ≤ acc.1.planned.length := (List.toFinset_card_le _).trans (by rw [List.length_map])
          _ ≤ (deadSamples pool st seen).length := h.few
          _ < n := hn
      have hsome := hroom _ hcard r
      rw [← h.reserved_eq, hdraw] at hsome
      exact absurd hsome (by simp)

theorem PlanSound.draw (h : PlanSound pool st reserved seen acc) {net : IpNet} {r : ℕ}
    {new : IpAddr} (hnet : replaceableNet pool st c = some net)
    (hkey : (c.target, c.addr) ∉ acc.2)
    (hdraw : drawFreshSample net acc.1.reserved r = some new) :
    PlanSound pool st reserved (seen ++ [c])
      (⟨insert new acc.1.reserved, acc.1.planned ++ [(c.target, c.addr, new)]⟩,
        insert (c.target, c.addr) acc.2) := by
  obtain ⟨hfree, hin⟩ := drawFreshSample_spec hdraw
  rw [h.reserved_eq, Finset.mem_union, not_or, List.mem_toFinset] at hfree
  have hc : c ∈ seen ++ [c] := List.mem_append_right _ (List.mem_singleton_self _)
  constructor
  · intro p hp
    rcases List.mem_append.mp hp with hp | hp
    · exact (h.planned p hp).mono (List.subset_append_left _ _)
    · rw [List.mem_singleton.mp hp]
      exact ⟨⟨c, hc, rfl, rfl, net, hnet, hin⟩, hfree.1⟩
  · rw [List.map_append, List.toFinset_append, ← Finset.union_assoc, ← h.reserved_eq,
      List.map_singleton, List.toFinset_cons, List.toFinset_nil, insert_empty_eq,
      Finset.union_comm, ← Finset.insert_eq]
  · rw [deadSamples_append_singleton, hnet, Option.isSome_some, if_pos rfl, List.length_append,
      List.length_singleton]
    exact Nat.add_le_add_right h.few 1
  · intro p hp
    rcases List.mem_append.mp hp with hp | hp
    · exact Finset.mem_insert_of_mem (h.keyed p hp)
    · rw [List.mem_singleton.mp hp]
      exact Finset.mem_insert_self _ _
  · intro key hk
    rcases Finset.mem_insert.mp hk with rfl | hk
    · exact ⟨c, hc, rfl, rfl⟩
    · obtain ⟨c', hc', heq⟩ := h.key_seen key hk
      exact ⟨c', List.mem_append_left _ hc', heq⟩
  · refine nodup_map_append_singleton h.keys_nodup fun p hp heq ↦ hkey ?_
    rw [← heq]
    exact h.keyed p hp
  · refine nodup_map_append_singleton h.new_nodup fun p hp heq ↦ hfree.2 ?_
    exact List.mem_map.mpr ⟨p, hp, heq⟩
  · intro c' hc' net' hnet' n hn hroom
    rw [deadSamples_append_singleton, hnet, Option.isSome_some, if_pos rfl] at hn
    rcases List.mem_append.mp hc' with hc' | hc'
    · obtain ⟨new', hnew'⟩ := h.covered c' hc' net' hnet' n (by omega) hroom
      exact ⟨new', List.mem_append_left _ hnew'⟩
    · obtain rfl := List.mem_singleton.mp hc'
      exact ⟨new, List.mem_append_right _ (List.mem_singleton_self _)⟩

theorem planSound_step {k : ℕ} (h : PlanSound pool st reserved seen acc) :
    PlanSound pool st reserved (seen ++ [c]) (planStep pool st rand acc (c, k)) := by
  obtain ⟨plan, keys⟩ := acc
  simp only [planStep]
  cases hnet : replaceableNet pool st c with
  | none => exact h.skip (fun net h' ↦ absurd (hnet.symm.trans h') (by simp))
  | some net =>
    by_cases hkey : (c.target, c.addr) ∈ keys
    · simp only [if_pos hkey]
      exact h.skip fun _ _ ↦ hkey
    simp only [if_neg hkey]
    cases hdraw : drawFreshSample net plan.reserved (rand k) with
    | none => exact h.miss hnet hdraw
    | some new => exact h.draw hnet hkey hdraw

end Step

/-- What a pass plans: fresh addresses, one for each target and dead address at most, and exactly
one where no draw can fail. -/
theorem planReplacements_sound (pool : Pool) (st : PoolState) (candidates : List Candidate)
    (rand : ℕ → ℕ) :
    ∃ keys plan, PlanSound pool st (reservedAddrs st) candidates (plan, keys) ∧
      plan.planned = planReplacements pool st candidates rand := by
  have hfold : ∀ (cks : List (Candidate × ℕ)) (seen : List Candidate)
      (acc : Plan × Finset (ℕ × IpAddr)),
      PlanSound pool st (reservedAddrs st) seen acc →
      PlanSound pool st (reservedAddrs st) (seen ++ cks.map Prod.fst)
        (cks.foldl (planStep pool st rand) acc) := by
    intro cks
    induction cks with
    | nil =>
      intro seen acc h
      simpa using h
    | cons ck cks ih =>
      intro seen acc h
      have hstep : PlanSound pool st (reservedAddrs st) (seen ++ [ck.1])
          (planStep pool st rand acc ck) := planSound_step h
      have hrest := ih _ _ hstep
      rw [List.append_assoc, List.singleton_append, ← List.map_cons] at hrest
      exact hrest
  have h := hfold candidates.zipIdx [] (⟨reservedAddrs st, []⟩, ∅)
    ⟨by simp, by simp, by simp, by simp, by simp, by simp, by simp, by simp⟩
  rw [List.nil_append, List.zipIdx_map_fst] at h
  exact ⟨_, _, h, rfl⟩

end Plans

/-! ## Carrying a plan out -/

/-- The addresses a plan replaces for a target. -/
def deadFor (planned : List (ℕ × IpAddr × IpAddr)) (target : ℕ) : List IpAddr :=
  (planned.filter fun p ↦ p.1 = target).map fun p ↦ p.2.1

/-- The addresses a plan draws for a target. -/
def newFor (planned : List (ℕ × IpAddr × IpAddr)) (target : ℕ) : List IpAddr :=
  (planned.filter fun p ↦ p.1 = target).map fun p ↦ p.2.2

section ReplaceAll

variable {st : PoolState} {planned : List (ℕ × IpAddr × IpAddr)}

theorem foldl_retire (dead : List IpAddr) (st : PoolState) :
    (dead.foldl PoolState.retire st).resampled = st.resampled ∪ dead.toFinset ∧
    (dead.foldl PoolState.retire st).replacements = st.replacements ∧
    (dead.foldl PoolState.retire st).resolved = st.resolved := by
  induction dead generalizing st with
  | nil => simp
  | cons d ds ih =>
    rw [List.foldl_cons]
    obtain ⟨hr, hp, hs⟩ := ih (st.retire d)
    refine ⟨?_, hp, hs⟩
    rw [hr, PoolState.retire, List.toFinset_cons, Finset.insert_union, Finset.union_insert]

/-- Retirement is for everyone. -/
theorem resampled_replaceAll :
    (st.replaceAll planned).resampled =
      st.resampled ∪ (planned.map fun p ↦ p.2.1).toFinset := by
  rw [PoolState.replaceAll, (foldl_retire _ _).1]
  ext a
  simp

theorem resolved_replaceAll : (st.replaceAll planned).resolved = st.resolved := by
  rw [PoolState.replaceAll, (foldl_retire _ _).2.2]

private theorem lookup_replaceRecordedSample (m : Map ℕ (List IpAddr)) (target i : ℕ)
    (dead new : IpAddr) :
    ((replaceRecordedSample m target dead new).lookup i).getD [] =
      if i = target then
        if new ∈ ((m.lookup i).getD []).filter (fun a ↦ a ≠ dead) then
          ((m.lookup i).getD []).filter fun a ↦ a ≠ dead
        else ((m.lookup i).getD []).filter (fun a ↦ a ≠ dead) ++ [new]
      else (m.lookup i).getD [] := by
  rw [replaceRecordedSample]
  by_cases hi : i = target
  · subst hi
    rw [AList.lookup_insert, Option.getD_some, if_pos rfl]
  · rw [AList.lookup_insert_ne hi, if_neg hi]

/-- What a target's replacements become: those not replaced for it, and the new ones. -/
theorem replacementsOf_replaceAll {i : ℕ} (hnew : (newFor planned i).Nodup)
    (hfresh : ∀ a ∈ newFor planned i, a ∉ st.replacementsOf i)
    (hdead : ∀ a ∈ newFor planned i, a ∉ deadFor planned i) :
    (st.replaceAll planned).replacementsOf i =
      (st.replacementsOf i).filter (fun a ↦ a ∉ deadFor planned i) ++ newFor planned i := by
  rw [PoolState.replacementsOf, PoolState.replaceAll, (foldl_retire _ _).2.1]
  change ((planned.foldl _ st.replacements).lookup i).getD [] = _
  rw [PoolState.replacementsOf] at hfresh ⊢
  generalize st.replacements = m at hfresh ⊢
  -- the records of earlier replacements are the starting point of the later ones
  induction planned generalizing m with
  | nil => simp [deadFor, newFor]
  | cons p ps ih =>
    rw [List.foldl_cons]
    by_cases hp : p.1 = i
    · have hnewFor : newFor (p :: ps) i = p.2.2 :: newFor ps i := by simp [newFor, hp]
      have hdeadFor : deadFor (p :: ps) i = p.2.1 :: deadFor ps i := by simp [deadFor, hp]
      rw [hnewFor] at hnew hfresh hdead ⊢
      rw [hdeadFor] at hdead ⊢
      have hrec : ((replaceRecordedSample m p.1 p.2.1 p.2.2).lookup i).getD [] =
          ((m.lookup i).getD []).filter (fun a ↦ a ≠ p.2.1) ++ [p.2.2] := by
        rw [lookup_replaceRecordedSample, if_pos hp.symm, if_neg]
        exact fun h ↦ hfresh _ List.mem_cons_self (List.mem_of_mem_filter h)
      have hnotDead : p.2.2 ∉ deadFor ps i := fun h ↦
        hdead _ List.mem_cons_self (List.mem_cons_of_mem _ h)
      rw [ih (List.nodup_cons.mp hnew).2, hrec, List.filter_append, List.filter_filter]
      · have hkeep : [p.2.2].filter (fun a ↦ a ∉ deadFor ps i) = [p.2.2] := by simp [hnotDead]
        rw [hkeep, List.append_assoc, List.singleton_append]
        congr 1
        refine List.filter_congr fun a _ ↦ ?_
        simp only [List.mem_cons, not_or, Bool.decide_and, Bool.and_comm]
      · intro a ha
        exact fun h ↦ hdead a (List.mem_cons_of_mem _ ha) (List.mem_cons_of_mem _ h)
      · intro a ha
        rw [hrec, List.mem_append, not_or]
        refine ⟨fun h ↦ hfresh a (List.mem_cons_of_mem _ ha) (List.mem_of_mem_filter h), ?_⟩
        rw [List.mem_singleton]
        rintro rfl
        exact (List.nodup_cons.mp hnew).1 ha
    · have hnewFor : newFor (p :: ps) i = newFor ps i := by simp [newFor, hp]
      have hdeadFor : deadFor (p :: ps) i = deadFor ps i := by simp [deadFor, hp]
      rw [hnewFor] at hnew hfresh hdead ⊢
      rw [hdeadFor] at hdead ⊢
      have hrec : ((replaceRecordedSample m p.1 p.2.1 p.2.2).lookup i).getD [] =
          (m.lookup i).getD [] := by
        rw [lookup_replaceRecordedSample, if_neg (Ne.symm hp)]
      rw [ih hnew hdead _ (by rw [hrec]; exact hfresh), hrec]

/-- What a network target yields after a plan is carried out. -/
theorem yields_replaceAll {t : Target} {net : IpNet} {sample : Option ℕ}
    (hspec : t.spec = .cidr net sample) (hnew : (newFor planned t.index).Nodup)
    (hfresh : ∀ a ∈ newFor planned t.index, a ∉ st.replacementsOf t.index)
    (hdead : ∀ a ∈ newFor planned t.index, a ∉ deadFor planned t.index) :
    (st.replaceAll planned).yields t =
      t.sampled.filter (fun a ↦ a ∉ st.resampled ∧ a ∉ planned.map fun p ↦ p.2.1) ++
        ((st.replacementsOf t.index).filter (fun a ↦ a ∉ deadFor planned t.index) ++
          newFor planned t.index) := by
  rw [PoolState.yields, hspec]
  simp only
  rw [replacementsOf_replaceAll hnew hfresh hdead, resampled_replaceAll]
  congr 1
  refine List.filter_congr fun a _ ↦ ?_
  simp only [Finset.mem_union, List.mem_toFinset, not_or]

end ReplaceAll

/-! ## Targets written with a sample count -/

section Sampled

variable {pool : Pool} {st : PoolState} {planned : List (ℕ × IpAddr × IpAddr)} {t : Target}
  {net : IpNet}

/-- A plan is fair when it only replaces what the target itself yields, and when an address still in
the original sample of several sampled targets is replaced for each of them. -/
def FairPlan (pool : Pool) (st : PoolState) (planned : List (ℕ × IpAddr × IpAddr)) : Prop :=
  (∀ p ∈ planned, ∀ t, pool.targets[p.1]? = some t → p.2.1 ∈ st.yields t) ∧
    ∀ p ∈ planned, ∀ t ∈ pool.targets, t.sampledNet.isSome → p.2.1 ∈ t.sampled →
      p.2.1 ∉ st.resampled → p.2.1 ∈ deadFor planned t.index

theorem sampledNet_eq_some (h : t.sampledNet = some net) : ∃ n, t.spec = .cidr net (some n) := by
  rw [Target.sampledNet] at h
  split at h
  · rename_i n want hspec
    obtain rfl := Option.some.inj h
    exact ⟨want, hspec⟩
  · exact absurd h (by simp)

theorem mem_deadFor {i : ℕ} {a : IpAddr} :
    a ∈ deadFor planned i ↔ ∃ new, (i, a, new) ∈ planned := by
  rw [deadFor, List.mem_map]
  constructor
  · rintro ⟨⟨j, d, n⟩, hp, rfl⟩
    obtain ⟨hmem, hj⟩ := List.mem_filter.mp hp
    have hj' : j = i := of_decide_eq_true hj
    exact ⟨n, hj' ▸ hmem⟩
  · rintro ⟨new, hp⟩
    exact ⟨(i, a, new), List.mem_filter.mpr ⟨hp, by simp⟩, rfl⟩

theorem mem_newFor {i : ℕ} {a : IpAddr} :
    a ∈ newFor planned i ↔ ∃ dead, (i, dead, a) ∈ planned := by
  rw [newFor, List.mem_map]
  constructor
  · rintro ⟨⟨j, d, n⟩, hp, rfl⟩
    obtain ⟨hmem, hj⟩ := List.mem_filter.mp hp
    have hj' : j = i := of_decide_eq_true hj
    exact ⟨d, hj' ▸ hmem⟩
  · rintro ⟨dead, hp⟩
    exact ⟨(i, dead, a), List.mem_filter.mpr ⟨hp, by simp⟩, rfl⟩

/-- Under a fair plan a sampled target keeps what was not replaced for it, and gains what was drawn
for it. -/
theorem yields_of_fairPlan (hfair : FairPlan pool st planned) (ht : t ∈ pool.targets)
    (hnet : t.sampledNet = some net) (hnew : (newFor planned t.index).Nodup)
    (hfresh : ∀ a ∈ newFor planned t.index, a ∉ st.yields t)
    (hdead : ∀ a ∈ newFor planned t.index, a ∉ deadFor planned t.index) :
    (st.replaceAll planned).yields t =
      (st.yields t).filter (fun a ↦ a ∉ deadFor planned t.index) ++ newFor planned t.index := by
  obtain ⟨n, hspec⟩ := sampledNet_eq_some hnet
  have hyields : st.yields t =
      t.sampled.filter (fun ip ↦ ip ∉ st.resampled) ++ st.replacementsOf t.index := by
    rw [PoolState.yields, hspec]
  have hfresh' : ∀ a ∈ newFor planned t.index, a ∉ st.replacementsOf t.index := by
    intro a ha hr
    exact hfresh a ha (by rw [hyields]; exact List.mem_append_right _ hr)
  rw [yields_replaceAll hspec hnew hfresh' hdead, hyields, List.filter_append, List.append_assoc,
    List.filter_filter]
  congr 1
  refine List.filter_congr fun a ha ↦ ?_
  rw [← Bool.decide_and, decide_eq_decide]
  constructor
  · rintro ⟨hr, hp⟩
    refine ⟨fun hd ↦ hp ?_, hr⟩
    obtain ⟨new, hmem⟩ := mem_deadFor.mp hd
    exact List.mem_map.mpr ⟨_, hmem, rfl⟩
  · rintro ⟨hd, hr⟩
    refine ⟨hr, fun hp ↦ hd ?_⟩
    obtain ⟨p, hmem, rfl⟩ := List.mem_map.mp hp
    exact hfair.2 p hmem t ht (by rw [hnet]; rfl) ha hr

end Sampled

end SniGate
