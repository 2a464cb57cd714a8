import SniGate.Pool.Selection

/-!
# Ranking with hysteresis

`reorder_with_hysteresis` keeps the previous order, adds newcomers behind it, and lets every address
move ahead of those it beats by the margin, one place at a time. So it is a promotion along a
relation that is no order (`reorderWithHysteresis_eq`): a pair changes places only if one beats the
other by the margin, and ranking again changes nothing (`stableReorder`).

## The leader

That the margin is asked of each pair also keeps a faster address behind. One that does not beat the
address right ahead of it by the margin stays there, although both of them may beat the head by it
together (`not_unbeaten_leader`). What is left to say of the leader is in `leader_recomputeOrder`: an
address that beats the head stands behind one that it does not beat.
-/

namespace SniGate

/-! ## The margin -/

/-- The score that a challenger must stay below. -/
def reduced (incumbent : ℚ) : ℚ := incumbent - max (incumbent * (20 / 100)) (5 / 1000)

section Margin

variable {score : IpAddr → Option ℚ} {a b : IpAddr} {s t : ℚ} {order done : List IpAddr}

theorem beats_iff : beats s t ↔ s < reduced t := by
  rw [beats, decide_eq_true_iff, reduced, lt_sub_iff_add_lt]

theorem reduced_lt (s : ℚ) : reduced s < s := by
  have hmargin : (0 : ℚ) < max (s * (20 / 100)) (5 / 1000) := lt_max_of_lt_right (by norm_num)
  rw [reduced]
  linarith

theorem reduced_monotone : Monotone reduced := by
  have heq : reduced = fun s ↦ min (s * (80 / 100)) (s - 5 / 1000) := by
    funext s
    rw [reduced, ← min_sub_sub_left]
    ring_nf
  rw [heq]
  intro s t hst
  exact min_le_min (by linarith) (by linarith)

theorem overtakes_iff : overtakes score a b ↔
    ∃ s t, score a = some s ∧ score b = some t ∧ s < reduced t := by
  rw [overtakes]
  cases score a with
  | none => simp
  | some s =>
    cases score b with
    | none => simp
    | some t => simp [beats_iff]

theorem overtakes_asymm (h : overtakes score a b) : ¬overtakes score b a := by
  rw [overtakes_iff] at h ⊢
  obtain ⟨s, t, hs, ht, hlt⟩ := h
  rintro ⟨t', s', ht', hs', hlt'⟩
  obtain rfl := Option.some.inj (hs.symm.trans hs')
  obtain rfl := Option.some.inj (ht.symm.trans ht')
  exact lt_asymm (hlt.trans (reduced_lt t)) (hlt'.trans (reduced_lt s))

/-- Along an order in which none overtakes the one ahead of it, scores shrink by no more than the
margin from one place to the next. -/
theorem reduced_iterate_le (h : order.IsChain fun ahead behind ↦ ¬overtakes score behind ahead)
    (hscore : ∀ c ∈ order, (score c).isSome) {i : ℕ} (hi : order[i]? = some a)
    (hhead : order.head? = some b) (ha : score a = some s) (hb : score b = some t) :
    reduced^[i] t ≤ s := by
  induction i generalizing a s with
  | zero =>
    rw [← List.head?_eq_getElem?, hhead, Option.some_inj] at hi
    rw [← hi, hb, Option.some_inj] at ha
    exact ha.le
  | succ i ih =>
    obtain ⟨hlt, rfl⟩ := List.getElem?_eq_some_iff.mp hi
    have hahead : order[i]? = some order[i] := List.getElem?_eq_getElem _
    obtain ⟨u, hu⟩ := Option.isSome_iff_exists.mp (hscore order[i] (List.getElem_mem _))
    have hstep : ¬overtakes score order[i + 1] order[i] := List.isChain_iff_getElem.mp h i hlt
    rw [overtakes_iff] at hstep
    calc reduced^[i + 1] t = reduced (reduced^[i] t) := Function.iterate_succ_apply' _ _ _
      _ ≤ reduced u := reduced_monotone (ih hahead hu)
      _ ≤ s := not_lt.mp fun hlt ↦ hstep ⟨s, u, ha, hu, hlt⟩

end Margin

/-! ## Ranking -/

section Reorder

variable {scale : LogScale} {timing : ProbeTiming} {st : PoolState} {prev : List IpAddr}
  {candidates : List Candidate} {a b : IpAddr}

theorem isChain_reorderWithHysteresis :
    (reorderWithHysteresis scale timing st prev candidates).IsChain
      fun ahead behind ↦ ¬overtakes (st.score scale timing) behind ahead := by
  rw [reorderWithHysteresis_eq]
  exact isChain_promoteAll fun _ _ ↦ overtakes_asymm

/-- With every address of the order considered again, and no other, nothing moves. -/
theorem reorderWithHysteresis_self :
    reorderWithHysteresis scale timing st
        (reorderWithHysteresis scale timing st prev candidates) candidates =
      reorderWithHysteresis scale timing st prev candidates := by
  have hmem : ∀ a, a ∈ reorderWithHysteresis scale timing st prev candidates ↔
      a ∈ candidates.map Candidate.addr ∧ (st.score scale timing a).isSome := fun _ ↦
    mem_reorderWithHysteresis
  have hchain : (reorderWithHysteresis scale timing st prev candidates).IsChain
      fun ahead behind ↦ ¬overtakes (st.score scale timing) behind ahead :=
    isChain_reorderWithHysteresis
  generalize reorderWithHysteresis scale timing st prev candidates = order at hmem hchain ⊢
  have hkept : (order.filter fun a ↦ a ∈ candidates.map Candidate.addr ∧
      (st.score scale timing a).isSome) = order :=
    List.filter_eq_self.mpr fun a ha ↦ decide_eq_true ((hmem a).mp ha)
  have hconsidered : consideredOrder (st.score scale timing) order
      (candidates.map Candidate.addr) = order := by
    rw [consideredOrder, hkept, List.append_right_eq_self, List.eq_nil_iff_forall_not_mem]
    intro a ha
    obtain ⟨hlive, hnew, hscore⟩ := mem_fresh.mp ha
    exact hnew ((hmem a).mpr ⟨hlive, hscore⟩)
  rw [reorderWithHysteresis_eq, hconsidered]
  exact promoteAll_eq_self hchain

/-- A pair that changes places: the one that moves ahead beats the other. -/
theorem overtakes_of_reorderWithHysteresis (hprev : prev.Nodup)
    (hab : List.Sublist [a, b] prev)
    (hba : List.Sublist [b, a] (reorderWithHysteresis scale timing st prev candidates)) :
    overtakes (st.score scale timing) b a := by
  have hnodup : (reorderWithHysteresis scale timing st prev candidates).Nodup :=
    nodup_reorderWithHysteresis hprev
  have ha := mem_reorderWithHysteresis.mp (hba.subset (show a ∈ [b, a] by simp))
  have hb := mem_reorderWithHysteresis.mp (hba.subset (show b ∈ [b, a] by simp))
  have hkept := hab.filter fun a ↦
    a ∈ candidates.map Candidate.addr ∧ (st.score scale timing a).isSome
  have hall : ∀ c ∈ [a, b], c ∈ candidates.map Candidate.addr ∧
      (st.score scale timing c).isSome :=
    List.forall_mem_cons.mpr ⟨ha, List.forall_mem_singleton.mpr hb⟩
  rw [List.filter_eq_self.mpr fun c hc ↦ decide_eq_true (hall c hc)] at hkept
  rw [reorderWithHysteresis_eq] at hnodup hba
  exact overtakes_of_promoteAll (perm_promoteAll.nodup_iff.mp hnodup)
    (hkept.trans (List.sublist_append_left _ _)) hba

/-- What ranking promises of the new order. -/
structure StableReorder (scale : LogScale) (timing : ProbeTiming) (st : PoolState)
    (prev : List IpAddr) (candidates : List Candidate) (order : List IpAddr) : Prop where
  nodup : order.Nodup
  mem_iff : ∀ a, a ∈ order ↔ a ∈ candidates.map Candidate.addr ∧
    ∃ h, st.health.lookup a = some h ∧ h.degraded = false ∧ h.hasRtt
  swapped : ∀ a b, List.Sublist [a, b] prev → List.Sublist [b, a] order →
    overtakes (st.score scale timing) b a
  adjacent : order.IsChain fun ahead behind ↦ ¬overtakes (st.score scale timing) behind ahead
  again : reorderWithHysteresis scale timing st order candidates = order

/-- **Stability.** Each live, healthy and measured address is ranked once; only by the margin does
one move ahead of another; no margin is left between neighbours; and ranking again changes
nothing. -/
theorem stableReorder (scale : LogScale) (timing : ProbeTiming) (st : PoolState)
    (candidates : List Candidate) (hprev : prev.Nodup) :
    StableReorder scale timing st prev candidates
      (reorderWithHysteresis scale timing st prev candidates) where
  nodup := nodup_reorderWithHysteresis hprev
  mem_iff a := by rw [mem_reorderWithHysteresis, isSome_score]
  swapped _ _ hab hba := overtakes_of_reorderWithHysteresis hprev hab hba
  adjacent := isChain_reorderWithHysteresis
  again := reorderWithHysteresis_self

end Reorder

/-! ## Three addresses -/

/-- An address with one measurement, in milliseconds. -/
def measured (scale : LogScale) (ms : ℕ) : Health :=
  (Health.new scale 0 0 0 0).recordSuccess 0 (ms * 10 ^ 6) 0 0

def headAddr : IpAddr := .v4 1

def middleAddr : IpAddr := .v4 2

def lastAddr : IpAddr := .v4 3

def threeCandidates : List Candidate := [⟨headAddr, 0, []⟩, ⟨middleAddr, 0, []⟩, ⟨lastAddr, 0, []⟩]

def flatScale : LogScale := ⟨fun _ ↦ 0, fun _ ↦ 1⟩

/-- Each is faster than the one ahead of it, by less than the margin. -/
def threeState : PoolState :=
  { PoolState.empty with
    health := ((AList.insert headAddr (measured flatScale 100) ∅).insert middleAddr
      (measured flatScale 85)).insert lastAddr (measured flatScale 72)
    order := [headAddr, middleAddr, lastAddr] }

/-- Right behind the slowest, the fastest moves ahead of it. -/
theorem stableReorder_three : [headAddr, lastAddr, middleAddr].Nodup ∧
    StableReorder flatScale defaultTiming threeState [headAddr, lastAddr, middleAddr]
      threeCandidates [lastAddr, headAddr, middleAddr] := by
  have hmoved : reorderWithHysteresis flatScale defaultTiming threeState
      [headAddr, lastAddr, middleAddr] threeCandidates = [lastAddr, headAddr, middleAddr] := by
    decide +kernel
  have hnodup : [headAddr, lastAddr, middleAddr].Nodup := by decide
  exact ⟨hnodup, hmoved ▸ stableReorder flatScale defaultTiming threeState threeCandidates hnodup⟩

/-! ## The leader -/

/-- The last of three may beat the head by the margin and stay where it is. -/
theorem not_unbeaten_leader :
    ¬∀ (scale : LogScale) (timing : ProbeTiming) (st : PoolState) (candidates : List Candidate)
        (a leader : IpAddr),
      a ∈ candidates.map Candidate.addr →
      (∃ h, st.health.lookup a = some h ∧ h.degraded = false ∧ h.hasRtt) →
      (recomputeOrder scale timing st candidates).order.head? = some leader →
      ¬overtakes (st.score scale timing) a leader := by
  intro h
  exact absurd (by decide +kernel)
    (h flatScale defaultTiming threeState threeCandidates lastAddr headAddr (by decide)
      ⟨measured flatScale 72, by decide +kernel, by decide +kernel, by decide +kernel⟩
      (by decide +kernel))

section Leader

variable {scale : LogScale} {timing : ProbeTiming} {st : PoolState} {candidates : List Candidate}
  {a b : IpAddr}

theorem model_eq (h : (st.score scale timing a).isSome) :
    ∃ m, st.model a = some m ∧ m.addr = a := by
  obtain ⟨h, hlookup, hdegraded, hrtt⟩ := isSome_score.mp h
  rw [PoolState.model, hlookup, Option.bind_some, if_neg (by simp [hdegraded]), Health.rtt,
    if_pos hrtt]
  exact ⟨_, rfl, rfl⟩

/-- With no payload to score, the first address of the order that passes the view's filter is
dialed. -/
theorem chooseCandidate_publishView (pool : ServedPool) (old : Option ViewRanking)
    (sel : List Selector) (draw : Draw)
    (horder : ∀ a ∈ st.order, (st.score scale timing a).isSome) :
    (chooseCandidate (publishView pool st candidates old sel) 0 draw).map Prod.fst =
      st.order.find? fun a ↦
        decide (a ∈ (candidates.filter fun c ↦ c.matches sel).map Candidate.addr) := by
  rw [chooseCandidate, if_pos rfl, Option.map_map, publishView]
  generalize (candidates.filter fun c ↦ c.matches sel).map Candidate.addr = eligible
  generalize st.order = order at horder ⊢
  induction order with
  | nil => rfl
  | cons a order ih =>
    by_cases ha : a ∈ eligible
    · obtain ⟨m, hm, rfl⟩ := model_eq (horder a List.mem_cons_self)
      simp [ha, hm]
    · simpa [ha] using ih fun b hb ↦ horder b (List.mem_cons_of_mem _ hb)

/-- **The leader.** After ranking no address beats the one right ahead of it. So one that beats the
leader is not right behind it, and does not beat the one it is right behind; scores do not shrink by
more than the margin at each place; and it stays so while the scores do. With no payload to score,
the first address that passes the view's filter is dialed. -/
theorem leader_recomputeOrder (scale : LogScale) (timing : ProbeTiming) (st : PoolState)
    (candidates : List Candidate) :
    let ranked := recomputeOrder scale timing st candidates
    ranked.order.IsChain (fun ahead behind ↦ ¬overtakes (st.score scale timing) behind ahead) ∧
    (∀ i a leader, ranked.order[i]? = some a → ranked.order.head? = some leader →
      overtakes (st.score scale timing) a leader →
      2 ≤ i ∧ ∃ ahead, ranked.order[i - 1]? = some ahead ∧
        ¬overtakes (st.score scale timing) a ahead) ∧
    (∀ i a leader s t, ranked.order[i]? = some a → ranked.order.head? = some leader →
      st.score scale timing a = some s → st.score scale timing leader = some t →
      reduced^[i] t ≤ s) ∧
    recomputeOrder scale timing ranked candidates = ranked ∧
    ∀ pool old sel draw,
      (chooseCandidate (publishView pool ranked candidates old sel) 0 draw).map Prod.fst =
        ranked.order.find? fun a ↦
          decide (a ∈ (candidates.filter fun c ↦ c.matches sel).map Candidate.addr) := by
  intro ranked
  have hchain : ranked.order.IsChain
      fun ahead behind ↦ ¬overtakes (st.score scale timing) behind ahead :=
    isChain_reorderWithHysteresis
  have hscore : ∀ a ∈ ranked.order, (ranked.score scale timing a).isSome := fun a ha ↦
    (mem_reorderWithHysteresis.mp ha).2
  have hagain : recomputeOrder scale timing ranked candidates = ranked :=
    congrArg (fun order ↦ { st with order }) reorderWithHysteresis_self
  refine ⟨hchain, ?_, fun i a leader s t hi hhead ha hleader ↦
    reduced_iterate_le hchain hscore hi hhead ha hleader, hagain, fun pool old sel draw ↦
    chooseCandidate_publishView pool old sel draw hscore⟩
  intro i a leader hi hhead hover
  obtain ⟨hlt, rfl⟩ := List.getElem?_eq_some_iff.mp hi
  rw [List.head?_eq_getElem?] at hhead
  obtain ⟨hpos, rfl⟩ := List.getElem?_eq_some_iff.mp hhead
  have hne : i ≠ 0 := by
    rintro rfl
    exact overtakes_asymm hover hover
  obtain ⟨j, rfl⟩ := Nat.exists_eq_succ_of_ne_zero hne
  have hstep : ¬overtakes (st.score scale timing) ranked.order[j + 1] ranked.order[j] :=
    List.isChain_iff_getElem.mp hchain j hlt
  have hj : j ≠ 0 := by
    rintro rfl
    exact hstep hover
  exact ⟨by omega, ranked.order[j], List.getElem?_eq_getElem _, hstep⟩

end Leader

end SniGate
