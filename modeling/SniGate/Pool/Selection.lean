import SniGate.Collections.Promotion
import SniGate.Pool.Publish

/-!
# Picking from published rankings

The probe task publishes after each ranking, and between rankings when observations were about live
endpoints; connections pick at any time. Here publishing may happen at any time too, which is more
than the task does.

## Safety

A published list is the part of the pool order that passes the view's filter and is healthy and
measured at that moment (`Selects`). That each address stands in it once is an invariant of the
loop: the order never repeats an address (`nodup_order_step`), because ranking afresh only adds what
is not there. After ranking afresh the list is complete, and a pick returns one of its addresses, or
the fallback, or an error (`selection_safe`).

## Stickiness

Between two picks of a view its incumbent's index may change, but not the address it stands for,
unless a published list leaves that address out (`incumbentIs_step`). So a pick differs from the one
before it only when it beats it, or when the former address was left out in between
(`selection_sticky`).
-/

namespace SniGate

/-! ## The service -/

/-- One passive throughput observation reported by the proxy after a connection closes. -/
structure PassiveObs where
  addr : IpAddr
  bytes : ℕ
  elapsed : ℕ
deriving DecidableEq, Repr

def observationBatch : ℕ := 64

/-- What `observe` reports: whether it was about a live endpoint. -/
def PoolState.observesActive (st : PoolState) (obs : PassiveObs) : Bool :=
  obs.bytes ≠ 0 ∧ obs.elapsed ≠ 0 ∧ obs.addr ∈ st.health

/-- Take a batch of observations off the queue; whether the task publishes for them. -/
def processObservations (scale : LogScale) (pool : ServedPool) (st : PoolState)
    (queue : List PassiveObs) (now : ℕ) : PoolState × Bool :=
  (queue.take observationBatch).foldl (fun acc obs ↦
    (acc.1.observe scale obs.addr obs.bytes obs.elapsed pool.timing.throughputDiscount now,
      acc.2 || acc.1.observesActive obs)) (st, false)

/-- Whether a step of the loop ends by ranking afresh. -/
def LoopEvent.ranks (e : LoopEvent) (after : ProbeLoop) : Bool :=
  match e with
  | .build _ | .finish _ => true
  | .begin _ => after.phase = .waiting
  | _ => false

/-- What the probe task does. -/
inductive WorkerEvent
  /-- A step of the loop other than an observation. -/
  | loop (e : LoopEvent)
  /-- Observations are consumed. -/
  | observed (queue : List PassiveObs) (now : ℕ)
  | publish

inductive PoolEvent
  | work (w : WorkerEvent)
  | pick (view : ℕ) (port : UInt16) (draw : Draw)

/-- A pool in service: the probe task and what it has published. -/
structure PoolService where
  loop : ProbeLoop
  ranking : Ranking
  /-- The task at the last publish; no step looks at it. -/
  published : ProbeLoop

/-- The loop after what the task does, and whether it then publishes. -/
def work (scale : LogScale) (pool : ServedPool) (l : ProbeLoop) :
    WorkerEvent → Option (ProbeLoop × Bool)
  | .loop (.observed ..) => none
  | .loop e => (l.step scale pool.toPool e).map fun l' ↦ (l', e.ranks l')
  | .observed queue now =>
    let (state, changed) := processObservations scale pool l.state queue now
    some ({ l with state }, changed)
  | .publish => some (l, true)

namespace PoolService

def start (pool : ServedPool) : PoolService :=
  { loop := .start, ranking := .empty pool.views.length, published := .start }

/-- Publish what the task has. -/
def publish (pool : ServedPool) (s : PoolService) (l : ProbeLoop) : PoolService :=
  { loop := l, ranking := SniGate.publish pool s.ranking l.state l.candidates, published := l }

def step (scale : LogScale) (pool : ServedPool) (s : PoolService) : PoolEvent → Option PoolService
  | .work w =>
    (work scale pool s.loop w).map fun r ↦
      if r.2 then s.publish pool r.1 else { s with loop := r.1 }
  | .pick view port draw => some { s with ranking := (pool.pick s.ranking view port draw).2 }

end PoolService

/-! ## The order -/

/-- Whether one address beats another; both are healthy and measured. -/
def overtakes (score : IpAddr → Option ℚ) (challenger incumbent : IpAddr) : Bool :=
  match score challenger, score incumbent with
  | some cur, some ahead => beats cur ahead
  | _, _ => false

/-- The order in which addresses are considered: the previous one, as far as they are live, healthy
and measured, and then the newcomers, best first. -/
def consideredOrder (score : IpAddr → Option ℚ) (prev live : List IpAddr) : List IpAddr :=
  let kept := prev.filter fun a ↦ a ∈ live ∧ (score a).isSome
  kept ++ (((live.eraseDups.filter fun a ↦ a ∉ kept).filterMap
    fun a ↦ (score a).map fun s ↦ (a, s)).insertionSort fun a b ↦ a.2 ≤ b.2).map Prod.fst

section Order

variable {scale : LogScale} {timing : ProbeTiming} {st : PoolState} {prev done : List IpAddr}
  {candidates : List Candidate} {score : IpAddr → Option ℚ} {a : IpAddr}

theorem moveForward_eq_promote : moveForward score a done = promote (overtakes score) a done := by
  induction done with
  | nil => rfl
  | cons b rest ih =>
    rw [moveForward, promote, overtakes, ih]
    cases score a with
    | none => simp
    | some s =>
      cases score b with
      | none => simp
      | some t => rfl

/-- Ranking is promotion. -/
theorem reorderWithHysteresis_eq : reorderWithHysteresis scale timing st prev candidates =
    promoteAll (overtakes (st.score scale timing))
      (consideredOrder (st.score scale timing) prev (candidates.map Candidate.addr)) := by
  simp only [reorderWithHysteresis, promoteAll, consideredOrder, moveForward_eq_promote]

theorem nodup_eraseDups {l : List IpAddr} : l.eraseDups.Nodup := by
  induction l using List.reverseRecOn with
  | nil => exact List.nodup_nil
  | append_singleton l b ih =>
    rw [List.eraseDups_append]
    by_cases hb : b ∈ l
    · simpa [List.removeAll, hb] using ih
    · rw [List.nodup_append]
      refine ⟨ih, by simp [List.removeAll, hb, List.eraseDups_cons], ?_⟩
      rintro x hx y hy rfl
      simp [List.removeAll, hb] at hy
      exact hb (hy ▸ List.mem_eraseDups.mp hx)

theorem map_fst_filterMap {l : List IpAddr} :
    (l.filterMap fun a ↦ (score a).map fun s ↦ (a, s)).map Prod.fst =
      l.filter fun a ↦ (score a).isSome := by
  induction l with
  | nil => rfl
  | cons a l ih => cases hscore : score a <;> simp [hscore, ih]

/-- What is appended to the kept order: the measured newcomers. -/
theorem mem_fresh {live kept : List IpAddr} :
    a ∈ (((live.eraseDups.filter fun a ↦ a ∉ kept).filterMap
        fun a ↦ (score a).map fun s ↦ (a, s)).insertionSort fun a b ↦ a.2 ≤ b.2).map Prod.fst ↔
      a ∈ live ∧ a ∉ kept ∧ (score a).isSome := by
  simp only [List.mem_map, List.mem_insertionSort, List.mem_filterMap, List.mem_filter,
    List.mem_eraseDups, decide_eq_true_eq, Option.map_eq_some_iff, Option.isSome_iff_exists]
  constructor
  · rintro ⟨_, ⟨b, ⟨hlive, hkept⟩, s, hs, rfl⟩, rfl⟩
    exact ⟨hlive, hkept, s, hs⟩
  · rintro ⟨hlive, hkept, s, hs⟩
    exact ⟨(a, s), ⟨a, ⟨hlive, hkept⟩, s, hs, rfl⟩, rfl⟩

theorem mem_reorderWithHysteresis :
    a ∈ reorderWithHysteresis scale timing st prev candidates ↔
      a ∈ candidates.map Candidate.addr ∧ (st.score scale timing a).isSome := by
  rw [reorderWithHysteresis_eq, perm_promoteAll.mem_iff, consideredOrder, List.mem_append,
    mem_fresh, List.mem_filter]
  by_cases hprev : a ∈ prev <;> simp [hprev, and_comm]
  tauto

theorem nodup_reorderWithHysteresis (h : prev.Nodup) :
    (reorderWithHysteresis scale timing st prev candidates).Nodup := by
  rw [reorderWithHysteresis_eq, perm_promoteAll.nodup_iff, consideredOrder, List.nodup_append]
  refine ⟨h.filter _, ?_, ?_⟩
  · rw [((List.perm_insertionSort _ _).map _).nodup_iff, map_fst_filterMap]
    exact (nodup_eraseDups.filter _).filter _
  · rintro a ha b hb rfl
    exact (mem_fresh.mp hb).2.1 ha

end Order

/-! ## What a step does to the order -/

namespace ProbeLoop

variable {scale : LogScale} {pool : Pool} {l l' : ProbeLoop} {e : LoopEvent} {now : ℕ}
  {st : PoolState}

theorem order_observe {a : IpAddr} {bytes elapsed : ℕ} {discount : ℚ} :
    (st.observe scale a bytes elapsed discount now).order = st.order := by
  simp only [PoolState.observe]
  split_ifs <;> rfl

theorem order_recordOutcome {timing : ProbeTiming} {a : IpAddr} {outcome : Outcome} :
    (recordOutcome timing st a outcome now).order = st.order := by
  cases outcome <;> rfl

theorem order_pruneHistory : (st.pruneHistory now).order = st.order := by
  rw [PoolState.pruneHistory]

theorem order_parkDeparting {live : List IpAddr} {parkUntil : ℕ} :
    (st.parkDeparting live parkUntil).order = st.order := by
  rw [PoolState.parkDeparting]
  generalize st.health.keys.filter (fun a ↦ a ∉ live) = departing
  induction departing generalizing st with
  | nil => rfl
  | cons b bs ih =>
    rw [List.foldl_cons, ih]
    cases st.health.lookup b <;> rfl

theorem order_giveHealth {timing : ProbeTiming} {live : List IpAddr} :
    (live.foldl (PoolState.giveHealth scale timing now) st).order = st.order := by
  induction live generalizing st with
  | nil => rfl
  | cons a live ih =>
    rw [List.foldl_cons, ih, PoolState.giveHealth]
    split_ifs
    · rfl
    · cases st.parked.lookup a <;> rfl

theorem order_buildCandidates : (buildCandidates scale pool st now).2.order = st.order := by
  simp only [buildCandidates]
  rw [order_pruneHistory, order_giveHealth, order_parkDeparting, order_pruneHistory]

theorem order_resampleDead {candidates : List Candidate} {rand : ℕ → ℕ} :
    (st.resampleDead pool candidates rand).order.Sublist st.order := by
  rw [PoolState.resampleDead, PoolState.replaceAll]
  generalize ((planReplacements pool st candidates rand).map fun p ↦ p.2.1).dedup = retired
  have hretire : ∀ {st : PoolState},
      (retired.foldl PoolState.retire st).order.Sublist st.order := by
    induction retired with
    | nil => exact .refl _
    | cons a retired ih =>
      intro st
      rw [List.foldl_cons]
      exact ih.trans List.filter_sublist
  exact hretire

/-- A step leaves the order alone, or ranks afresh from a part of it. -/
theorem order_cases (h : l.step scale pool e = some l') :
    (l'.state.order = l.state.order ∧ e.ranks l' = false) ∨
      ∃ st, st.order.Sublist l.state.order ∧
        l'.state = recomputeOrder scale pool.timing st l'.candidates := by
  cases stepTo_of_step h with
  | resolved => exact .inl ⟨rfl, rfl⟩
  | observed => exact .inl ⟨order_observe, rfl⟩
  | build now built waiting candidates =>
    exact .inr ⟨built.2, by rw [← candidates, order_buildCandidates], rfl⟩
  | rest => exact .inr ⟨l.state, .refl _, rfl⟩
  | begin => exact .inl ⟨rfl, rfl⟩
  | probed => exact .inl ⟨order_recordOutcome, rfl⟩
  | finish => exact .inr ⟨_, order_resampleDead, rfl⟩

/-- **No repetition.** -/
theorem nodup_order_step (h : l.step scale pool e = some l') (hnodup : l.state.order.Nodup) :
    l'.state.order.Nodup := by
  rcases order_cases h with ⟨heq, -⟩ | ⟨st, hsub, heq⟩
  · exact heq ▸ hnodup
  · rw [heq]
    exact nodup_reorderWithHysteresis (hnodup.sublist hsub)

/-- Ranked afresh, the order is that of all healthy and measured candidates. -/
theorem mem_order_of_ranks (h : l.step scale pool e = some l') (hranks : e.ranks l') (a : IpAddr) :
    a ∈ l'.state.order ↔
      a ∈ l'.candidates.map Candidate.addr ∧ (l'.state.score scale pool.timing a).isSome := by
  rcases order_cases h with ⟨-, heq⟩ | ⟨st, -, heq⟩
  · rw [heq] at hranks
    exact absurd hranks (by simp)
  · rw [heq]
    exact mem_reorderWithHysteresis

end ProbeLoop

/-! ## What a published list is -/

/-- An address that a view may list: of a matching candidate, healthy, and measured. -/
def Selectable (l : ProbeLoop) (sel : List Selector) (a : IpAddr) : Prop :=
  (∃ c ∈ l.candidates, c.matches sel ∧ c.addr = a) ∧
    ∃ h, l.state.health.lookup a = some h ∧ h.degraded = false ∧ h.hasRtt

/-- A candidate of the fallback target that passes the filter. -/
def FallbackFor (pool : ServedPool) (l : ProbeLoop) (sel : List Selector) (c : Candidate) : Prop :=
  c ∈ l.candidates ∧ pool.fallback = some c.target ∧ c.matches sel

/-- **A safe answer.** Each address is one that the view may list; it stands there once, in the
order of the pool; and the fallback is a matching candidate of the fallback target, when there is
one. -/
structure Selects (pool : ServedPool) (l : ProbeLoop) (sel : List Selector) (vr : ViewRanking) :
    Prop where
  selectable : ∀ m ∈ vr.ordered, Selectable l sel m.addr
  nodup : (vr.ordered.map SelectionModel.addr).Nodup
  inOrder : (vr.ordered.map SelectionModel.addr).Sublist l.state.order
  fallback : ∀ a, vr.fallback = some a → ∃ c, FallbackFor pool l sel c ∧ c.addr = a
  noFallback : vr.fallback = none → ∀ c, ¬FallbackFor pool l sel c

/-- **A safe pick.** An address of the list; while that is empty, the fallback; else an error. -/
def PickOk (pool : ServedPool) (l : ProbeLoop) (sel : List Selector) (vr : ViewRanking)
    (port : UInt16) (picked : Except Str SocketAddr) : Prop :=
  (vr.ordered ≠ [] → ∃ m ∈ vr.ordered, picked = .ok ⟨m.addr, port⟩) ∧
    (vr.ordered = [] → (∃ c, FallbackFor pool l sel c ∧ picked = .ok ⟨c.addr, port⟩) ∨
      (∀ c, ¬FallbackFor pool l sel c) ∧ ∃ error, picked = .error error)

section Published

variable {scale : LogScale} {pool : ServedPool} {l : ProbeLoop} {st : PoolState}
  {candidates : List Candidate} {old : Option ViewRanking} {sel : List Selector} {vr : ViewRanking}
  {ranking : Ranking} {a : IpAddr} {view v : ℕ} {port : UInt16} {draw : Draw}

theorem model_eq_some {m : SelectionModel} (h : st.model a = some m) :
    m.addr = a ∧ ∃ h, st.health.lookup a = some h ∧ h.degraded = false ∧ h.hasRtt := by
  obtain ⟨health, hlookup, h⟩ := Option.bind_eq_some_iff.mp h
  split_ifs at h with hdegraded
  obtain ⟨rtt, hrtt, rfl⟩ := Option.map_eq_some_iff.mp h
  refine ⟨rfl, health, hlookup, Bool.eq_false_iff.mpr hdegraded, ?_⟩
  by_contra hmeasured
  rw [Health.rtt, if_neg hmeasured] at hrtt
  exact absurd hrtt (by simp)

theorem isSome_model_iff : (st.model a).isSome ↔
    ∃ h, st.health.lookup a = some h ∧ h.degraded = false ∧ h.hasRtt := by
  constructor
  · intro h
    obtain ⟨m, hm⟩ := Option.isSome_iff_exists.mp h
    exact (model_eq_some hm).2
  · rintro ⟨h, hlookup, hdegraded, hmeasured⟩
    simp [PoolState.model, hlookup, hdegraded, Health.rtt, hmeasured]

theorem isSome_score {timing : ProbeTiming} : (st.score scale timing a).isSome ↔
    ∃ h, st.health.lookup a = some h ∧ h.degraded = false ∧ h.hasRtt := by
  rw [PoolState.score]
  cases st.health.lookup a with
  | none => simp
  | some h => by_cases hdegraded : h.degraded <;> by_cases hmeasured : h.hasRtt <;>
      simp [hdegraded, hmeasured]

/-- The addresses listed are the part of the order that passes the filter and has a model. -/
theorem map_addr_ordered :
    (publishView pool st candidates old sel).ordered.map SelectionModel.addr =
      (st.order.filter fun a ↦
        a ∈ (candidates.filter fun c ↦ c.matches sel).map Candidate.addr).filter
          fun a ↦ (st.model a).isSome := by
  rw [publishView]
  generalize st.order.filter _ = order
  induction order with
  | nil => rfl
  | cons b order ih =>
    cases hmodel : st.model b with
    | none => simpa [hmodel] using ih
    | some m => simpa [hmodel, (model_eq_some hmodel).1] using ih

theorem mem_publishView : a ∈ (publishView pool l.state l.candidates old sel).ordered.map
      SelectionModel.addr ↔ a ∈ l.state.order ∧ Selectable l sel a := by
  rw [map_addr_ordered, List.mem_filter, List.mem_filter, isSome_model_iff]
  simp [Selectable, and_assoc]

/-- **What publishing gives.** -/
theorem selects_publishView (hnodup : l.state.order.Nodup) :
    Selects pool l sel (publishView pool l.state l.candidates old sel) where
  selectable m hm := (mem_publishView.mp (List.mem_map_of_mem hm)).2
  nodup := by
    rw [map_addr_ordered]
    exact (hnodup.filter _).filter _
  inOrder := by
    rw [map_addr_ordered]
    exact List.filter_sublist.trans List.filter_sublist
  fallback a ha := by
    obtain ⟨t, ht, hfind⟩ := Option.bind_eq_some_iff.mp ha
    obtain ⟨c, hc, rfl⟩ := Option.map_eq_some_iff.mp hfind
    have hfound := List.find?_some hc
    rw [decide_eq_true_eq] at hfound
    obtain ⟨htarget, hmatches⟩ := hfound
    exact ⟨c, ⟨List.mem_of_find?_eq_some hc, htarget ▸ ht, hmatches⟩, rfl⟩
  noFallback hnone c := by
    rintro ⟨hc, ht, hmatches⟩
    simp only [publishView, ht, Option.bind_some, Option.map_eq_none_iff,
    List.find?_eq_none] at hnone
    exact hnone c hc (decide_eq_true ⟨rfl, hmatches⟩)

theorem getElem?_publish : (publish pool ranking l.state l.candidates)[v]? =
    (pool.views[v]?).map (publishView pool l.state l.candidates ranking[v]?) := by
  rw [publish, List.getElem?_mapIdx]

variable (pool ranking view port draw v) in
theorem getElem?_pick :
    ((pool.pick ranking view port draw).2[v]?).map (fun vr ↦ (vr.ordered, vr.fallback)) =
      ranking[v]?.map fun vr ↦ (vr.ordered, vr.fallback) := by
  rw [ServedPool.pick]
  cases hview : ranking[view]? with
  | none => rfl
  | some vr =>
    dsimp only
    cases chooseCandidate vr pool.timing.scorePayloadBytes draw with
    | none => cases vr.fallback <;> rfl
    | some chosen =>
      rw [List.getElem?_set]
      split_ifs with hv hlt
      · subst hv
        rw [hview]
        rfl
      · subst hv
        rw [List.getElem?_eq_none (not_lt.mp hlt)]
      · rfl

theorem chooseCandidate_nil {payload : ℕ} (h : vr.ordered = []) :
    chooseCandidate vr payload draw = none := by
  rw [chooseCandidate, h]
  split_ifs <;> rfl

variable (draw) in
theorem chooseCandidate_mem (payload : ℕ) (h : vr.ordered ≠ []) :
    ∃ m ∈ vr.ordered, ∃ chosen, chooseCandidate vr payload draw = some (m.addr, chosen) := by
  rw [chooseCandidate]
  split_ifs
  · obtain ⟨m, ms, hms⟩ := List.exists_cons_of_ne_nil h
    exact ⟨m, hms ▸ List.mem_cons_self, vr.incumbent, by rw [hms]; rfl⟩
  · obtain ⟨chosen, m, hm, heq, -⟩ := chooseWith_spec (drawScore draw) vr.incumbent 0 h
    exact ⟨m, List.mem_of_getElem? hm, chosen, by rw [heq]⟩

theorem Selects.pickOk (h : Selects pool l sel vr) (hview : ranking[view]? = some vr) :
    PickOk pool l sel vr port (pool.pick ranking view port draw).1 := by
  constructor
  · intro hne
    obtain ⟨m, hm, chosen, hchoose⟩ := chooseCandidate_mem draw pool.timing.scorePayloadBytes hne
    refine ⟨m, hm, ?_⟩
    simp only [ServedPool.pick, hview, hchoose]
  · intro hnil
    cases hfallback : vr.fallback with
    | some a =>
      obtain ⟨c, hc, rfl⟩ := h.fallback a hfallback
      refine .inl ⟨c, hc, ?_⟩
      simp only [ServedPool.pick, hview, chooseCandidate_nil hnil, hfallback]
    | none =>
      refine .inr ⟨h.noFallback hfallback, ?_⟩
      simp only [ServedPool.pick, hview, chooseCandidate_nil hnil, hfallback]
      exact ⟨_, rfl⟩

end Published

/-! ## Runs of the service -/

namespace PoolService

variable {scale : LogScale} {pool : ServedPool} {s s' : PoolService} {e : PoolEvent}

/-- The invariant: the order repeats nothing, and every view's answer is a safe one for the task as
it was at the last publish. -/
structure Ok (pool : ServedPool) (s : PoolService) : Prop where
  nodup : s.loop.state.order.Nodup
  answered : ∀ (v : ℕ) sel, pool.views[v]? = some sel →
    ∃ vr, s.ranking[v]? = some vr ∧ Selects pool s.published sel vr

theorem ok_start : Ok pool (start pool) where
  nodup := List.nodup_nil
  answered v sel hv := by
    have hlt : v < pool.views.length := (List.getElem?_eq_some_iff.mp hv).1
    refine ⟨{ ordered := [], incumbent := 0, fallback := none }, ?_, by simp, List.nodup_nil,
      .refl _, by simp, ?_⟩
    · rw [start, Ranking.empty, List.getElem?_replicate, if_pos hlt]
    · rintro - c ⟨hc, -⟩
      exact List.not_mem_nil hc

theorem nodup_order_work {w : WorkerEvent} {r : ProbeLoop × Bool} {l : ProbeLoop}
    (h : work scale pool l w = some r) (hnodup : l.state.order.Nodup) : r.1.state.order.Nodup := by
  have hobserve : ∀ (queue : List PassiveObs) (st : PoolState) (changed : Bool) (now : ℕ),
      (queue.foldl (fun acc obs ↦
        (acc.1.observe scale obs.addr obs.bytes obs.elapsed pool.timing.throughputDiscount now,
          acc.2 || acc.1.observesActive obs)) (st, changed)).1.order = st.order := by
    intro queue
    induction queue with
    | nil => exact fun _ _ _ ↦ rfl
    | cons obs queue ih =>
      intro st changed now
      rw [List.foldl_cons, ih, ProbeLoop.order_observe]
  cases w with
  | loop e =>
    cases e with
    | observed => exact absurd h (by simp [work])
    | _ =>
      obtain ⟨l', hl', rfl⟩ := Option.map_eq_some_iff.mp h
      exact ProbeLoop.nodup_order_step hl' hnodup
  | observed queue now =>
    obtain rfl := Option.some.inj h
    exact (hobserve _ _ _ _).symm ▸ hnodup
  | publish =>
    obtain rfl := Option.some.inj h
    exact hnodup

theorem getElem?_ranking_publish {l : ProbeLoop} {v : ℕ} {sel : List Selector}
    (hv : pool.views[v]? = some sel) : (s.publish pool l).ranking[v]? =
      some (publishView pool l.state l.candidates s.ranking[v]? sel) := by
  change (SniGate.publish pool s.ranking l.state l.candidates)[v]? = _
  rw [getElem?_publish, hv]
  rfl

theorem ok_publish {l : ProbeLoop} (hnodup : l.state.order.Nodup) : Ok pool (s.publish pool l) where
  nodup := hnodup
  answered _ _ hv := ⟨_, getElem?_ranking_publish hv, selects_publishView hnodup⟩

theorem ok_step (h : Ok pool s) (hstep : s.step scale pool e = some s') : Ok pool s' := by
  cases e with
  | work w =>
    obtain ⟨r, hr, rfl⟩ := Option.map_eq_some_iff.mp hstep
    have hnodup := nodup_order_work hr h.nodup
    split_ifs
    · exact ok_publish hnodup
    · exact ⟨hnodup, h.answered⟩
  | pick view port draw =>
    obtain rfl := Option.some.inj hstep
    refine ⟨h.nodup, fun v sel hv ↦ ?_⟩
    obtain ⟨vr, hvr, hselects⟩ := h.answered v sel hv
    have hpick := getElem?_pick pool s.ranking view v port draw
    rw [hvr, Option.map_some] at hpick
    obtain ⟨vr', hvr', heq⟩ := Option.map_eq_some_iff.mp hpick
    obtain ⟨hordered, hfallback⟩ := Prod.mk.inj heq
    refine ⟨vr', hvr', ?_⟩
    obtain ⟨hselectable, hnodup, hinOrder, hfall, hno⟩ := hselects
    rw [← hordered] at hselectable hnodup hinOrder
    rw [← hfallback] at hfall hno
    exact ⟨hselectable, hnodup, hinOrder, hfall, hno⟩

theorem ok_of_reach (h : Reach (step scale pool) (fun _ _ ↦ True) (start pool) s) : Ok pool s :=
  h.invariant ok_start fun _ _ _ hok _ hnext ↦ ok_step hok hnext

theorem complete_of_ranks {le : LoopEvent} (hstep : s.step scale pool (.work (.loop le)) = some s')
    (hranks : le.ranks s'.loop) (v : ℕ) (sel : List Selector) (hv : pool.views[v]? = some sel) :
    ∃ vr, s'.ranking[v]? = some vr ∧
      ∀ a, Selectable s'.loop sel a → a ∈ vr.ordered.map SelectionModel.addr := by
  obtain ⟨r, hr, rfl⟩ := Option.map_eq_some_iff.mp hstep
  have hloop : s.loop.step scale pool.toPool le = some r.1 ∧ r.2 = le.ranks r.1 := by
    cases le with
    | observed => exact absurd hr (by simp [work])
    | _ =>
      obtain ⟨l', hl', rfl⟩ := Option.map_eq_some_iff.mp hr
      exact ⟨hl', rfl⟩
  obtain ⟨hloop, hpublishes⟩ := hloop
  by_cases hpublish : r.2
  · rw [if_pos hpublish] at hranks ⊢
    refine ⟨_, getElem?_ranking_publish hv, fun a ha ↦ mem_publishView.mpr ⟨?_, ha⟩⟩
    obtain ⟨⟨c, hc, -, rfl⟩, hhealthy⟩ := ha
    exact (ProbeLoop.mem_order_of_ranks hloop hranks _).mpr
      ⟨List.mem_map_of_mem hc, isSome_score.mpr hhealthy⟩
  · rw [if_neg hpublish] at hranks
    exact absurd (hpublishes.trans hranks) hpublish

/-- **Selection is safe.** Wherever a run arrives, every registered view has an answer that is safe
for the task as it was at the last publish, and picking from it is safe; and ranking afresh
publishes answers that list every address they may. -/
theorem selection_safe (h : Reach (step scale pool) (fun _ _ ↦ True) (start pool) s) {v : ℕ}
    {sel : List Selector} (hv : pool.views[v]? = some sel) :
    (∃ vr, s.ranking[v]? = some vr ∧ Selects pool s.published sel vr ∧
      ∀ port draw, PickOk pool s.published sel vr port (pool.pick s.ranking v port draw).1) ∧
    ∀ le s', s.step scale pool (.work (.loop le)) = some s' → le.ranks s'.loop →
      ∃ vr, s'.ranking[v]? = some vr ∧
        ∀ a, Selectable s'.loop sel a → a ∈ vr.ordered.map SelectionModel.addr := by
  obtain ⟨vr, hvr, hselects⟩ := (ok_of_reach h).answered v sel hv
  exact ⟨⟨vr, hvr, hselects, fun _ _ ↦ hselects.pickOk hvr⟩,
    fun _ _ hstep hranks ↦ complete_of_ranks hstep hranks v sel hv⟩

/-! ## Stickiness -/

/-- The incumbent of a view is an address. -/
def IncumbentIs (s : PoolService) (v : ℕ) (a : IpAddr) : Prop :=
  ∃ vr m, s.ranking[v]? = some vr ∧ vr.ordered[vr.incumbent]? = some m ∧ m.addr = a

/-- An event publishes a list for a view that an address is not on. -/
def LeavesOut (scale : LogScale) (pool : ServedPool) (s : PoolService) (e : PoolEvent) (v : ℕ)
    (a : IpAddr) : Prop :=
  ∃ w l, e = .work w ∧ work scale pool s.loop w = some (l, true) ∧
    ∀ vr, (s.publish pool l).ranking[v]? = some vr → a ∉ vr.ordered.map SelectionModel.addr

/-- A pick of a view chooses an address from its list. -/
def Chooses (pool : ServedPool) (s : PoolService) (v : ℕ) (port : UInt16) (draw : Draw)
    (vr : ViewRanking) (a : IpAddr) : Prop :=
  s.ranking[v]? = some vr ∧ vr.ordered ≠ [] ∧ (pool.pick s.ranking v port draw).1 = .ok ⟨a, port⟩

/-- No pick of a view along a run chooses from its list. -/
def NoChoice (scale : LogScale) (pool : ServedPool) (s : PoolService) (es : List PoolEvent)
    (v : ℕ) :
    Prop :=
  ∀ front port draw back t vr, es = front ++ .pick v port draw :: back →
    runFrom (step scale pool) s front = some t → t.ranking[v]? = some vr → vr.ordered = []

variable {v : ℕ} {a b : IpAddr} {es : List PoolEvent} {port port' : UInt16} {draw draw' : Draw}
  {vr vr' : ViewRanking}

variable (port draw) in
theorem pick_eq_of_scored (hpayload : 0 < pool.timing.scorePayloadBytes)
    (hvr : s.ranking[v]? = some vr) (hne : vr.ordered ≠ []) :
    ∃ chosen m, vr.ordered[chosen]? = some m ∧
      pool.pick s.ranking v port draw =
        (.ok ⟨m.addr, port⟩, s.ranking.set v { vr with incumbent := chosen }) ∧
      (chosen = min vr.incumbent (vr.ordered.length - 1) ∨
        ∃ m', vr.ordered[min vr.incumbent (vr.ordered.length - 1)]? = some m' ∧
          beats (draw chosen m) (draw (min vr.incumbent (vr.ordered.length - 1)) m')) := by
  obtain ⟨chosen, m, hm, hchoose, hcases⟩ := chooseWith_spec (drawScore draw) vr.incumbent 0 hne
  refine ⟨chosen, m, hm, ?_, hcases.imp_right ?_⟩
  · have hcandidate : chooseCandidate vr pool.timing.scorePayloadBytes draw =
        some (m.addr, chosen) := by
      rw [chooseCandidate, if_neg hpayload.ne', hchoose]
    simp only [ServedPool.pick, hvr, hcandidate]
  · rintro ⟨new, old, hnew, hold, hbeats⟩
    rw [scored_drawScore, List.getElem?_mapIdx] at hnew hold
    obtain ⟨m', hm', rfl⟩ := Option.map_eq_some_iff.mp hold
    rw [hm, Option.map_some, Option.some_inj] at hnew
    subst hnew
    rw [Nat.zero_add, Nat.zero_add] at hbeats
    exact ⟨m', hm', hbeats⟩

theorem incumbentIs_of_chooses (hpayload : 0 < pool.timing.scorePayloadBytes)
    (h : Chooses pool s v port draw vr a)
    (hstep : s.step scale pool (.pick v port draw) = some s') : IncumbentIs s' v a := by
  obtain ⟨hvr, hne, hpicked⟩ := h
  obtain ⟨chosen, m, hm, hpick, -⟩ := pick_eq_of_scored port draw hpayload hvr hne
  obtain rfl := Option.some.inj hstep
  rw [hpick] at hpicked
  obtain ⟨haddr, -⟩ := SocketAddr.mk.inj (Except.ok.inj hpicked)
  refine ⟨{ vr with incumbent := chosen }, m, ?_, hm, haddr⟩
  rw [hpick]
  exact List.getElem?_set_self (List.getElem?_eq_some_iff.mp hvr).1

/-- Publishing finds the incumbent again, if it is still listed. -/
theorem incumbentIs_publish {l : ProbeLoop} (h : IncumbentIs s v a) (hv : v < pool.views.length) :
    IncumbentIs (s.publish pool l) v a ∨
      ∀ vr, (s.publish pool l).ranking[v]? = some vr → a ∉ vr.ordered.map SelectionModel.addr := by
  obtain ⟨old, m, hold, hm, rfl⟩ := h
  have hranking : (s.publish pool l).ranking[v]? =
      some (publishView pool l.state l.candidates s.ranking[v]? pool.views[v]) :=
    getElem?_ranking_publish (List.getElem?_eq_getElem hv)
  obtain ⟨vr, hvr⟩ : ∃ vr, publishView pool l.state l.candidates s.ranking[v]? pool.views[v] = vr :=
    ⟨_, rfl⟩
  rw [hvr] at hranking
  by_cases hin : m.addr ∈ vr.ordered.map SelectionModel.addr
  · left
    obtain ⟨m', hm', haddr⟩ := List.mem_map.mp hin
    have hfound : (vr.ordered.findIdx? fun m' ↦ m'.addr = m.addr).isSome := by
      rw [List.findIdx?_isSome, List.any_eq_true]
      exact ⟨m', hm', decide_eq_true haddr⟩
    obtain ⟨i, hi⟩ := Option.isSome_iff_exists.mp hfound
    have hincumbent : vr.incumbent = i := by
      rw [← hvr] at hi ⊢
      simp only [publishView, hold, Option.bind_some, hm, Option.map_some] at hi ⊢
      rw [hi, Option.getD_some]
    obtain ⟨hlt, haddr, -⟩ := List.findIdx?_eq_some_iff_getElem.mp hi
    refine ⟨vr, vr.ordered[i], hranking, ?_, of_decide_eq_true haddr⟩
    rw [hincumbent, List.getElem?_eq_getElem hlt]
  · right
    intro vr' hvr'
    obtain rfl := Option.some.inj (hranking.symm.trans hvr')
    exact hin

/-- **One step.** The incumbent stays what it is, unless a published list leaves it out. -/
theorem incumbentIs_step (h : IncumbentIs s v a) (hstep : s.step scale pool e = some s')
    (hpick : ∀ port draw, e ≠ .pick v port draw) :
    IncumbentIs s' v a ∨ LeavesOut scale pool s e v a := by
  cases e with
  | work w =>
    obtain ⟨⟨l, publishes⟩, hr, rfl⟩ := Option.map_eq_some_iff.mp hstep
    cases publishes with
    | false => exact .inl h
    | true =>
      by_cases hv : v < pool.views.length
      · exact (incumbentIs_publish h hv).imp_right fun hout ↦ ⟨w, l, rfl, hr, hout⟩
      · -- an unregistered view has no list
        refine .inr ⟨w, l, rfl, hr, fun vr hvr ↦ ?_⟩
        change (SniGate.publish pool s.ranking l.state l.candidates)[v]? = some vr at hvr
        rw [getElem?_publish, List.getElem?_eq_none (not_lt.mp hv)] at hvr
        exact absurd hvr (by simp)
  | pick view port draw =>
    have hview : view ≠ v := fun heq ↦ hpick port draw (heq ▸ rfl)
    obtain rfl := Option.some.inj hstep
    obtain ⟨vr, m, hvr, hm, haddr⟩ := h
    refine .inl ⟨vr, m, ?_, hm, haddr⟩
    have hset : ∀ new : ViewRanking, (s.ranking.set view new)[v]? = some vr := fun new ↦ by
      rw [List.getElem?_set_ne hview, hvr]
    rw [ServedPool.pick]
    cases s.ranking[view]? with
    | none => exact hvr
    | some old =>
      dsimp only
      cases chooseCandidate old pool.timing.scorePayloadBytes draw with
      | some chosen => exact hset _
      | none => cases old.fallback <;> exact hvr

/-- **A run.** -/
theorem incumbentIs_run (h : IncumbentIs s v a) (hrun : runFrom (step scale pool) s es = some s')
    (hno : NoChoice scale pool s es v) :
    IncumbentIs s' v a ∨ ∃ front e back t, es = front ++ e :: back ∧
      runFrom (step scale pool) s front = some t ∧ LeavesOut scale pool t e v a := by
  induction es generalizing s with
  | nil =>
    obtain rfl := Option.some.inj hrun
    exact .inl h
  | cons e es ih =>
    obtain ⟨t, ht, hrun⟩ := runFrom_cons_eq_some.mp hrun
    have hpick : ∀ port draw, e ≠ .pick v port draw := by
      rintro port draw rfl
      obtain ⟨vr, m, hvr, hm, -⟩ := h
      rw [hno [] port draw es s vr rfl rfl hvr] at hm
      exact absurd hm (by simp)
    rcases incumbentIs_step h ht hpick with hkept | hout
    · refine (ih hkept hrun fun front port draw back t' vr hes hfront ↦ ?_).imp_right ?_
      · exact hno (e :: front) port draw back t' vr (by rw [hes, List.cons_append])
          (runFrom_cons_eq_some.mpr ⟨t, ht, hfront⟩)
      · rintro ⟨front, e', back, t', hes, hfront, hout⟩
        exact ⟨e :: front, e', back, t', by rw [hes, List.cons_append],
          runFrom_cons_eq_some.mpr ⟨t, ht, hfront⟩, hout⟩
    · exact .inr ⟨[], e, es, s, rfl, rfl, hout⟩

/-- **Selection is sticky.** Of two picks of a view that choose from its list, with no such pick
between them, the second chooses another address only when its score beats that of the first, or
when a list published in between left the first out. Each choice scores every model once, in order,
and is an address of the list. -/
theorem selection_sticky (hpayload : 0 < pool.timing.scorePayloadBytes) :
    (∀ (v : ℕ) (s s₁ s₂ : PoolService) (es : List PoolEvent) (port port' : UInt16)
        (draw draw' : Draw) (vr vr' : ViewRanking) (a b : IpAddr),
      Chooses pool s v port draw vr a → s.step scale pool (.pick v port draw) = some s₁ →
      runFrom (step scale pool) s₁ es = some s₂ → NoChoice scale pool s₁ es v →
      Chooses pool s₂ v port' draw' vr' b → b ≠ a →
      (∃ i m j m', vr'.ordered[i]? = some m ∧ m.addr = a ∧ vr'.ordered[j]? = some m' ∧ m'.addr = b ∧
        beats (draw' j m') (draw' i m)) ∨
      ∃ front e back t, es = front ++ e :: back ∧ runFrom (step scale pool) s₁ front = some t ∧
        LeavesOut scale pool t e v a) ∧
    ∀ {σ : Type} (models : List SelectionModel) (incumbent : ℕ)
        (score : σ → SelectionModel → ℚ × σ) (r : σ), models ≠ [] →
      (∃ m ∈ models, ∃ chosen, (chooseWith models incumbent score r).1 = some (m.addr, chosen)) ∧
        (chooseWith models incumbent score r).2 = models.foldl (fun r m ↦ (score r m).2) r := by
  constructor
  · intro v s s₁ s₂ es port port' draw draw' vr vr' a b hfirst hs₁ hrun hno hsecond hne
    refine (incumbentIs_run (incumbentIs_of_chooses hpayload hfirst hs₁) hrun hno).imp_left ?_
    rintro ⟨vr₂, m, hvr₂, hm, rfl⟩
    obtain ⟨hvr', hordered, hpicked⟩ := hsecond
    obtain rfl := Option.some.inj (hvr'.symm.trans hvr₂)
    obtain ⟨chosen, m', hm', hpick, hcases⟩ := pick_eq_of_scored port' draw'
      hpayload hvr' hordered
    rw [hpick] at hpicked
    obtain ⟨rfl, -⟩ := SocketAddr.mk.inj (Except.ok.inj hpicked)
    -- the incumbent is within the list
    have hmin : min vr'.incumbent (vr'.ordered.length - 1) = vr'.incumbent := by
      have hlt := (List.getElem?_eq_some_iff.mp hm).1
      omega
    rw [hmin] at hcases
    rcases hcases with rfl | ⟨m₂, hm₂, hbeats⟩
    · obtain rfl := Option.some.inj (hm.symm.trans hm')
      exact absurd rfl hne
    · obtain rfl := Option.some.inj (hm.symm.trans hm₂)
      exact ⟨_, m, chosen, m', hm, rfl, hm', rfl, hbeats⟩
  · intro σ models incumbent score r hmodels
    obtain ⟨chosen, m, hm, heq, -⟩ := chooseWith_spec score incumbent r hmodels
    rw [heq]
    exact ⟨⟨m, List.mem_of_getElem? hm, chosen, rfl⟩, scored_snd⟩

/-! ## A pool of two addresses -/

section TwoAddresses

/-- A pool of `10.0.0.1` and `10.0.0.2`, with one view of all of it. -/
def twoAddresses : ServedPool :=
  { Pool.new [(.ip (.v4 0x0a000001), []), (.ip (.v4 0x0a000002), [])] (fun _ ↦ [])
      { defaultTiming with scorePayloadBytes := 1 } none with
    name := "edge".toList
    views := [[]]
    fallback := none }

/-- One pass, in which both addresses answer, the second one faster. -/
def onePass : List PoolEvent :=
  [.work (.loop (.build 0)), .work (.loop (.begin 0)),
    .work (.loop (.probed (.v4 0x0a000001) (.ok 90000000) 0)),
    .work (.loop (.probed (.v4 0x0a000002) (.ok 5000000) 0)), .work (.loop (.finish fun _ ↦ 0))]

/-- The scores of the baseline are constant here. -/
private def constScale : LogScale := ⟨fun _ ↦ 0, fun _ ↦ 1⟩

theorem selection_safe_twoAddresses :
    ∃ s vr, runFrom (step constScale twoAddresses) (start twoAddresses) onePass = some s ∧
      s.ranking[0]? = some vr ∧
      vr.ordered.map SelectionModel.addr = [.v4 0x0a000002, .v4 0x0a000001] ∧
      Selects twoAddresses s.published [] vr := by
  have hrun : ((runFrom (step constScale twoAddresses) (start twoAddresses) onePass).map fun s ↦
      s.ranking.map fun vr ↦ vr.ordered.map SelectionModel.addr) =
      some [[.v4 0x0a000002, .v4 0x0a000001]] := by decide +kernel
  obtain ⟨s, hs, hlists⟩ := Option.map_eq_some_iff.mp hrun
  obtain ⟨⟨vr, hvr, hselects, -⟩, -⟩ :=
    selection_safe (reach_of_runFrom hs .start) (show twoAddresses.views[0]? = some [] from rfl)
  have hlist := congrArg (·[0]?) hlists
  simp only [List.getElem?_map, hvr, Option.map_some] at hlist
  exact ⟨s, vr, hs, hvr, Option.some.inj hlist, hselects⟩

/-- A draw that is short for the first, or for the second of the two listed. -/
private def shortFor (i : ℕ) : Draw := fun k _ ↦ if k = i then 1 else 2

theorem selection_sticky_twoAddresses :
    ∃ s s₁, runFrom (step constScale twoAddresses) (start twoAddresses) onePass = some s ∧
      s.step constScale twoAddresses (.pick 0 443 (shortFor 0)) = some s₁ ∧
      (twoAddresses.pick s.ranking 0 443 (shortFor 0)).1 = .ok ⟨.v4 0x0a000002, 443⟩ ∧
      (twoAddresses.pick s₁.ranking 0 443 (shortFor 1)).1 = .ok ⟨.v4 0x0a000001, 443⟩ ∧
      ∃ vr i m j m', s₁.ranking[0]? = some vr ∧
        vr.ordered[i]? = some m ∧ m.addr = .v4 0x0a000002 ∧
        vr.ordered[j]? = some m' ∧ m'.addr = .v4 0x0a000001 ∧
        beats (shortFor 1 j m') (shortFor 1 i m) := by
  have hrun : ((runFrom (step constScale twoAddresses) (start twoAddresses) onePass).map fun s ↦
      (s.ranking.map fun vr ↦ vr.ordered.map SelectionModel.addr,
        ((twoAddresses.pick s.ranking 0 443 (shortFor 0)).1.toOption,
          (twoAddresses.pick (twoAddresses.pick s.ranking 0 443 (shortFor 0)).2 0 443
            (shortFor 1)).1.toOption))) =
      some ([[.v4 0x0a000002, .v4 0x0a000001]],
        (some ⟨.v4 0x0a000002, 443⟩, some ⟨.v4 0x0a000001, 443⟩)) := by decide +kernel
  obtain ⟨s, hs, heq⟩ := Option.map_eq_some_iff.mp hrun
  obtain ⟨hlists, hpicks⟩ := Prod.mk.inj heq
  obtain ⟨hfirst, hsecond⟩ := Prod.mk.inj hpicks
  obtain ⟨vr, hvr⟩ : ∃ vr, s.ranking = [vr] := List.length_eq_one_iff.mp (by
    simpa using congrArg List.length hlists)
  have hranking : s.ranking[0]? = some vr := by rw [hvr]; rfl
  have hlist : vr.ordered.map SelectionModel.addr = [.v4 0x0a000002, .v4 0x0a000001] := by
    rw [hvr] at hlists
    exact List.singleton_inj.mp hlists
  have hne : vr.ordered ≠ [] := fun h ↦ by simp [h] at hlist
  have hkept := getElem?_pick twoAddresses s.ranking 0 0 443 (shortFor 0)
  rw [hranking, Option.map_some] at hkept
  obtain ⟨vr', hvr', hsame⟩ := Option.map_eq_some_iff.mp hkept
  have hordered : vr'.ordered = vr.ordered := (Prod.mk.inj hsame).1
  obtain ⟨i, m, j, m', hbeats⟩ | ⟨front, e, back, t, hes, -⟩ :=
    (@selection_sticky constScale twoAddresses (by decide)).1 0 s
      { s with ranking := (twoAddresses.pick s.ranking 0 443 (shortFor 0)).2 } _ [] 443 443
      (shortFor 0) (shortFor 1) vr vr' _ _ ⟨hranking, hne, eq_ok_of_toOption hfirst⟩ rfl rfl
      (fun front port draw back t vr hes ↦ absurd hes (by simp))
      ⟨hvr', hordered ▸ hne, eq_ok_of_toOption hsecond⟩ (by decide)
  · exact ⟨s, _, hs, rfl, eq_ok_of_toOption hfirst, eq_ok_of_toOption hsecond, vr', i, m, j, m',
      hvr', hbeats⟩
  · exact absurd hes (by simp)

end TwoAddresses

end PoolService

end SniGate
