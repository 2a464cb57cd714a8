import SniGate.Config.Types
import SniGate.Pool.Loop

/-!
# Published rankings

What the consumers of a pool read. For every registered view, that is, for every filter a route
selects candidates with, the probe task publishes the healthy addresses in order, and the address to
use while there are none. A connection picks from the published list: the first address, or, when
transfers are scored, the one whose randomly drawn score is best, unless it does not beat the
incumbent by a margin.

The incumbent is an index into the published list. Since lists are replaced as a whole, it is found
again by its address each time one is published.

## Scores

A score is drawn by a closure that changes the state of a random number generator, so choosing is
written for any state that scoring threads through. Scores are rational numbers: the code's are
finite.
-/

namespace SniGate

/-! ## What is published -/

/-- Whether a candidate passes a filter; the empty one passes everything. -/
def Candidate.matches (c : Candidate) (sel : List Selector) : Bool :=
  sel.isEmpty || sel.any fun
    | .index i => i = c.target
    | .tag t => t ∈ c.tags

/-- Current RTT estimate, in seconds, available after the first successful probe. -/
def Health.rtt (h : Health) : Option ℚ :=
  if h.hasRtt then
    some (if h.kalman.meanMs < 0 then durationMaxSecs else h.kalman.meanMs / 1000)
  else none

/-- What a pick knows of an address. -/
structure SelectionModel where
  addr : IpAddr
  rtt : ℚ
  throughput : NigThroughput
deriving DecidableEq

/-- A finished, ordered answer for one view. -/
structure ViewRanking where
  /-- Healthy addresses, best first. -/
  ordered : List SelectionModel
  incumbent : ℕ
  /-- The safety net, used only while `ordered` is empty. -/
  fallback : Option IpAddr
deriving DecidableEq

/-- The answers, one for each view. -/
abbrev Ranking := List ViewRanking

/-- What is there before anything is published. -/
def Ranking.empty (views : ℕ) : Ranking :=
  List.replicate views { ordered := [], incumbent := 0, fallback := none }

/-- A pool with what its consumers refer to. -/
structure ServedPool extends Pool where
  name : Str
  /-- The registered filters. -/
  views : List (List Selector)
  /-- Index of the fallback target. -/
  fallback : Option ℕ

/-- The model of an address that is healthy and measured. -/
def PoolState.model (st : PoolState) (addr : IpAddr) : Option SelectionModel :=
  (st.health.lookup addr).bind fun h ↦
    if h.degraded then none else h.rtt.map fun rtt ↦ { addr, rtt, throughput := h.nig }

/-- The answer for one filter, where `old` is the previous one. -/
def publishView (pool : ServedPool) (st : PoolState) (candidates : List Candidate)
    (old : Option ViewRanking) (sel : List Selector) : ViewRanking :=
  let eligible := (candidates.filter fun c ↦ c.matches sel).map Candidate.addr
  let ordered := (st.order.filter fun a ↦ a ∈ eligible).filterMap st.model
  let previous := (old.bind fun v ↦ v.ordered[v.incumbent]?).map SelectionModel.addr
  { ordered
    incumbent := (previous.bind fun a ↦ ordered.findIdx? fun m ↦ m.addr = a).getD 0
    fallback := pool.fallback.bind fun t ↦
      (candidates.find? fun c ↦ c.target = t ∧ c.matches sel).map Candidate.addr }

/-- Publish the current order and every view's answer. -/
def publish (pool : ServedPool) (ranking : Ranking) (st : PoolState)
    (candidates : List Candidate) : Ranking :=
  pool.views.mapIdx fun index sel ↦ publishView pool st candidates ranking[index]? sel

/-! ## Choosing -/

section Choosing

variable {σ : Type}

/-- What the scan over the models has found: the score at the incumbent's position, and the first
position with the least score, if any. -/
structure Scan where
  incumbentScore : ℚ := 0
  best : Option (ℕ × ℚ) := none

/-- Score one model. -/
def scanStep (score : σ → SelectionModel → ℚ × σ) (previous : ℕ) (acc : Scan × σ)
    (m : SelectionModel × ℕ) : Scan × σ :=
  let (model, index) := m
  let (value, s) := score acc.2 model
  ({ incumbentScore := if index = previous then value else acc.1.incumbentScore
     best :=
      match acc.1.best with
      | none => some (index, value)
      | some (best, bestScore) =>
        if value < bestScore then some (index, value) else some (best, bestScore) }, s)

/-- Score every model and choose one; the index chosen is the new incumbent. -/
def chooseWith (models : List SelectionModel) (incumbent : ℕ)
    (score : σ → SelectionModel → ℚ × σ) (s : σ) : Option (IpAddr × ℕ) × σ :=
  if models = [] then (none, s)
  else
    let previous := min incumbent (models.length - 1)
    let (scan, s) := models.zipIdx.foldl (scanStep score previous) ({}, s)
    let chosen :=
      match scan.best with
      | some (best, bestScore) =>
        if best = previous ∨ beats bestScore scan.incumbentScore then best else previous
      | none => previous
    ((models[chosen]?).map fun m ↦ (m.addr, chosen), s)

end Choosing

/-- The scores of one pick: the `k`-th one drawn, for the model it is drawn for. -/
abbrev Draw := ℕ → SelectionModel → ℚ

/-- Draw one score; the state counts the draws. -/
def drawScore (draw : Draw) (k : ℕ) (m : SelectionModel) : ℚ × ℕ := (draw k m, k + 1)

/-- Choose from a list: its first address when transfers are not scored. -/
def chooseCandidate (vr : ViewRanking) (payload : ℕ) (draw : Draw) : Option (IpAddr × ℕ) :=
  if payload = 0 then vr.ordered.head?.map fun m ↦ (m.addr, vr.incumbent)
  else (chooseWith vr.ordered vr.incumbent (drawScore draw) 0).1

/-- The address to dial for a view, and the ranking with its incumbent noted. -/
def ServedPool.pick (pool : ServedPool) (ranking : Ranking) (view : ℕ) (port : UInt16)
    (draw : Draw) : Except Str SocketAddr × Ranking :=
  match ranking[view]? with
  | none =>
    (.error ("pool ".toList ++ pool.name ++ ": unregistered view ".toList ++ decimal view), ranking)
  | some vr =>
    match chooseCandidate vr pool.timing.scorePayloadBytes draw with
    | some (ip, chosen) => (.ok ⟨ip, port⟩, ranking.set view { vr with incumbent := chosen })
    | none =>
      match vr.fallback with
      | some ip => (.ok ⟨ip, port⟩, ranking)
      | none =>
        (.error ("pool ".toList ++ pool.name ++
          ": no healthy candidate and no usable fallback".toList), ranking)

/-! ## What is chosen -/

section Chosen

variable {σ : Type} {score : σ → SelectionModel → ℚ × σ} {models ms : List SelectionModel}
  {incumbent previous : ℕ} {s : σ} {vs : List ℚ} {scan : Scan} {v : ℚ}

/-- The scores of all models, each drawn once, in order. -/
def scored (score : σ → SelectionModel → ℚ × σ) : σ → List SelectionModel → List ℚ × σ
  | s, [] => ([], s)
  | s, m :: ms =>
    let rest := scored score (score s m).2 ms
    ((score s m).1 :: rest.1, rest.2)

theorem scored_snd : (scored score s models).2 = models.foldl (fun s m ↦ (score s m).2) s := by
  induction models generalizing s with
  | nil => rfl
  | cons m ms ih => exact ih

@[simp] theorem length_scored : (scored score s models).1.length = models.length := by
  induction models generalizing s with
  | nil => rfl
  | cons m ms ih => exact congrArg (· + 1) ih

/-- What a scan over models with the scores `vs` knows. -/
structure ScanOk (vs : List ℚ) (previous : ℕ) (scan : Scan) : Prop where
  incumbentScore : ∀ v, vs[previous]? = some v → scan.incumbentScore = v
  best : ∀ b v, scan.best = some (b, v) → vs[b]? = some v
  isSome : vs ≠ [] → scan.best.isSome

theorem ScanOk.step (h : ScanOk vs previous scan) (m : SelectionModel) :
    ScanOk (vs ++ [(score s m).1]) previous
      (scanStep score previous (scan, s) (m, vs.length)).1 := by
  have hlast : (vs ++ [(score s m).1])[vs.length]? = some (score s m).1 := by simp
  have hkeep : ∀ {b v}, vs[b]? = some v → (vs ++ [(score s m).1])[b]? = some v := fun hb ↦ by
    rw [List.getElem?_append_left (List.getElem?_eq_some_iff.mp hb).1, hb]
  refine ⟨fun v hv ↦ ?_, fun b v hb ↦ ?_, fun _ ↦ ?_⟩
  · by_cases hprevious : vs.length = previous
    · rw [← hprevious, hlast] at hv
      simpa [scanStep, hprevious] using hv
    · simp only [scanStep, if_neg hprevious]
      refine h.incumbentScore v ?_
      rcases Nat.lt_or_ge previous vs.length with hlt | hge
      · rwa [List.getElem?_append_left hlt] at hv
      · rw [List.getElem?_eq_none (by simp; omega)] at hv
        exact absurd hv (by simp)
  · simp only [scanStep] at hb
    cases hbest : scan.best with
    | none =>
      rw [hbest] at hb
      obtain ⟨rfl, rfl⟩ := Prod.mk.inj (Option.some.inj hb)
      exact hlast
    | some found =>
      simp only [hbest] at hb
      split_ifs at hb
      · obtain ⟨rfl, rfl⟩ := Prod.mk.inj (Option.some.inj hb)
        exact hlast
      · exact hkeep (h.best b v (hbest.trans hb))
  · simp only [scanStep]
    cases scan.best with
    | none => rfl
    | some found =>
      dsimp only
      split_ifs <;> rfl

variable (score models s) in
theorem foldl_scanStep (h : ScanOk vs previous scan) :
    ∃ scan', (models.zipIdx vs.length).foldl (scanStep score previous) (scan, s) =
        (scan', (scored score s models).2) ∧
      ScanOk (vs ++ (scored score s models).1) previous scan' := by
  induction models generalizing vs scan s with
  | nil => exact ⟨scan, rfl, by rwa [scored, List.append_nil]⟩
  | cons m ms ih =>
    obtain ⟨scan', hfold, hok⟩ := ih (score s m).2 (h.step (s := s) m)
    refine ⟨scan', ?_, ?_⟩
    · rw [List.length_append, List.length_singleton] at hfold
      rw [List.zipIdx_cons, List.foldl_cons]
      exact hfold
    · rwa [List.append_assoc] at hok

variable (score incumbent s) in
/-- **What is chosen.** Every model is scored once, in order, and a model other than the incumbent
is chosen only when its score beats the incumbent's. -/
theorem chooseWith_spec (hmodels : models ≠ []) :
    ∃ chosen m, models[chosen]? = some m ∧
      chooseWith models incumbent score s = (some (m.addr, chosen), (scored score s models).2) ∧
      (chosen = min incumbent (models.length - 1) ∨
        ∃ new old, (scored score s models).1[chosen]? = some new ∧
          (scored score s models).1[min incumbent (models.length - 1)]? = some old ∧
          beats new old) := by
  have hlength : 0 < models.length := List.length_pos_iff.mpr hmodels
  have hprevious : min incumbent (models.length - 1) < models.length := by omega
  obtain ⟨scan, hfold, hok⟩ := foldl_scanStep score models s
    (show ScanOk [] (min incumbent (models.length - 1)) {} from ⟨by simp, by simp, by simp⟩)
  rw [List.nil_append] at hok
  rw [List.length_nil] at hfold
  have hscored : ∀ {i : ℕ}, i < models.length → ∃ v, (scored score s models).1[i]? = some v :=
    fun hi ↦ ⟨_, List.getElem?_eq_getElem (by rwa [length_scored])⟩
  obtain ⟨⟨best, bestScore⟩, hbest⟩ := Option.isSome_iff_exists.mp
    (hok.isSome fun h ↦ hmodels (List.length_eq_zero_iff.mp (by rw [← length_scored, h]; rfl)))
  have hbestScore := hok.best _ _ hbest
  have hlt : best < models.length := by
    have hlt := (List.getElem?_eq_some_iff.mp hbestScore).1
    rwa [length_scored] at hlt
  have hchoose : chooseWith models incumbent score s =
      ((models[if best = min incumbent (models.length - 1) ∨ beats bestScore scan.incumbentScore
          then best else min incumbent (models.length - 1)]?).map fun m ↦
        (m.addr, if best = min incumbent (models.length - 1) ∨ beats bestScore scan.incumbentScore
          then best else min incumbent (models.length - 1)), (scored score s models).2) := by
    simp only [chooseWith, if_neg hmodels, hfold, hbest]
  rw [hchoose]
  by_cases hcases : best = min incumbent (models.length - 1) ∨ beats bestScore scan.incumbentScore
  · rw [if_pos hcases, List.getElem?_eq_getElem hlt]
    refine ⟨best, _, List.getElem?_eq_getElem hlt, rfl, hcases.imp_right fun hbeats ↦ ?_⟩
    obtain ⟨old, hold⟩ := hscored hprevious
    exact ⟨bestScore, old, hbestScore, hold, hok.incumbentScore old hold ▸ hbeats⟩
  · rw [if_neg hcases, List.getElem?_eq_getElem hprevious]
    exact ⟨_, _, List.getElem?_eq_getElem hprevious, rfl, .inl rfl⟩

theorem scored_drawScore {draw : Draw} {k : ℕ} :
    scored (drawScore draw) k models =
      (models.mapIdx fun i m ↦ draw (k + i) m, k + models.length) := by
  induction models generalizing k with
  | nil => rfl
  | cons m ms ih =>
    rw [scored, drawScore]
    simp only [ih, List.mapIdx_cons, List.length_cons, Nat.add_zero]
    refine Prod.ext (congrArg (draw k m :: ·) ?_) (by simp only; omega)
    simp only [Nat.add_assoc, Nat.add_comm 1]

end Chosen

end SniGate
