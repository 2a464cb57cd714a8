import SniGate.Estimation.Between
import SniGate.Pool.Backoff

/-!
# The estimators stay within their data

The two filters behind an endpoint's score are recursive, with floors, resets and discounting, and a
parameter out of range would spoil every later score. Here the bounds are invariants of a run over
any sequence of observations: the gain of the Kalman filter is a fraction, so its mean moves part of
the way towards each round trip it sees, alarm or no alarm; the weight of a transfer is the inverse
of a count above one, so the centre of the posterior does the same with the logarithms it sees.
`between_foldl` turns either into a bound on the run.

No quotient of `update`, `observe` or `sample` divides by anything but a positive number, which is
what `KalmanRtt.Divides` and `NigThroughput.Divides` record.
-/

namespace SniGate

namespace KalmanRtt

variable {k : KalmanRtt} {q r : ℚ} {obs : ℕ} {rtts : List ℕ}

/-! ## One update of the round-trip filter -/

/-- An observation, in milliseconds. -/
def millis (obs : ℕ) : ℚ := (obs : ℚ) / 1000000

/-- The CUSUM statistic with an observation in it. -/
def raised (k : KalmanRtt) (obs : ℕ) : ℚ :=
  max (k.cusum + (millis obs - k.meanMs) - cusumDeltaMs / 2) 0

/-- The variance an update starts from, reset by the alarm. -/
def predicted (k : KalmanRtt) (obs : ℕ) : ℚ :=
  min ((if cusumH < k.raised obs then max k.variance wideP else k.variance) + k.q) f64Max

/-- The share of the innovation that an update takes over. -/
def gain (k : KalmanRtt) (obs : ℕ) : ℚ :=
  if k.r < k.predicted obs then 1 / (1 + k.r / k.predicted obs)
  else k.predicted obs / k.r / (1 + k.predicted obs / k.r)

theorem update_of_uninitialized (hk : k.initialized = false) (obs : ℕ) :
    (k.update obs).1 =
      { k with meanMs := millis obs, variance := k.r, initialized := true } := by
  simp [update, hk, millis]

theorem update_of_initialized (hk : k.initialized = true) (obs : ℕ) :
    (k.update obs).1 =
      { k with
          cusum := if cusumH < k.raised obs then 0 else k.raised obs
          meanMs := k.meanMs + k.gain obs * (millis obs - k.meanMs)
          variance := k.r * k.gain obs } := by
  simp [update, hk, millis, raised, predicted, gain]

/-! ## What an update keeps -/

/-- The bounds of a filter that has seen an observation. -/
structure Sound (q r : ℚ) (k : KalmanRtt) : Prop where
  initialized : k.initialized = true
  q_eq : k.q = q
  r_eq : k.r = r
  variance_nonneg : 0 ≤ k.variance
  variance_le : k.variance ≤ r
  cusum_nonneg : 0 ≤ k.cusum
  cusum_le : k.cusum ≤ cusumH

/-- The divisors of an update are positive, on either side of its test. -/
structure Divides (k : KalmanRtt) (obs : ℕ) : Prop where
  above : k.r < k.predicted obs → 0 < k.predicted obs ∧ 0 < 1 + k.r / k.predicted obs
  below : k.predicted obs ≤ k.r → 0 < k.r ∧ 0 < 1 + k.predicted obs / k.r

section Step

variable (hq : 0 ≤ q) (hr : 0 < r)

include hq in
theorem Sound.predicted_nonneg (h : Sound q r k) (obs : ℕ) : 0 ≤ k.predicted obs := by
  -- the alarm only raises the variance
  have hvariance : 0 ≤ if cusumH < k.raised obs then max k.variance wideP else k.variance := by
    split
    · exact le_max_of_le_left h.variance_nonneg
    · exact h.variance_nonneg
  have hq' : 0 ≤ k.q := by rwa [h.q_eq]
  exact le_min (add_nonneg hvariance hq') (by norm_num [f64Max])

include hq hr in
theorem Sound.divides (h : Sound q r k) (obs : ℕ) : k.Divides obs := by
  have hr' : 0 < k.r := by rwa [h.r_eq]
  have hpredicted := h.predicted_nonneg hq obs
  constructor
  · intro habove
    have hpos : 0 < k.predicted obs := hr'.trans habove
    exact ⟨hpos, by positivity⟩
  · intro _
    exact ⟨hr', by positivity⟩

include hq hr in
/-- Both branches compute the same share, `p / (p + r)` for the predicted variance `p`. -/
theorem Sound.gain_eq (h : Sound q r k) (obs : ℕ) :
    k.gain obs = k.predicted obs / (k.predicted obs + k.r) := by
  have hdivides := h.divides hq hr obs
  rw [gain]
  split
  · rename_i habove
    obtain ⟨hpos, -⟩ := hdivides.above habove
    field_simp
  · rename_i hbelow
    obtain ⟨hpos, -⟩ := hdivides.below (le_of_not_gt hbelow)
    field_simp
    rw [add_comm]

include hq hr in
theorem Sound.gain_mem (h : Sound q r k) (obs : ℕ) : k.gain obs ∈ Set.Icc (0 : ℚ) 1 := by
  have hr' : 0 < k.r := by rwa [h.r_eq]
  have hpredicted := h.predicted_nonneg hq obs
  rw [h.gain_eq hq hr]
  constructor
  · positivity
  · rw [div_le_one (by positivity)]
    exact le_add_of_nonneg_right hr'.le

include hq hr in
/-- An update keeps the bounds and moves the mean part of the way to the observation. -/
theorem Sound.update (h : Sound q r k) (obs : ℕ) :
    Sound q r (k.update obs).1 ∧
      MovesTowards k.meanMs (k.update obs).1.meanMs (some (millis obs)) := by
  have hgain := h.gain_mem hq hr obs
  rw [update_of_initialized h.initialized]
  refine ⟨⟨h.initialized, h.q_eq, h.r_eq, ?_, ?_, ?_, ?_⟩, ⟨k.gain obs, hgain, rfl⟩⟩
  · change 0 ≤ k.r * k.gain obs
    rw [h.r_eq]
    exact mul_nonneg hr.le hgain.1
  · change k.r * k.gain obs ≤ r
    rw [h.r_eq]
    exact mul_le_of_le_one_right hr.le hgain.2
  · change 0 ≤ if cusumH < k.raised obs then 0 else k.raised obs
    split
    · exact le_rfl
    · exact le_max_right _ _
  · change (if cusumH < k.raised obs then 0 else k.raised obs) ≤ cusumH
    split
    · norm_num [cusumH]
    · rename_i hquiet
      exact le_of_not_gt hquiet

end Step

/-! ## A run of the round-trip filter -/

/-- A new filter after a sequence of observations. -/
def after (q r : ℚ) (rtts : List ℕ) : KalmanRtt :=
  rtts.foldl (fun k obs ↦ (k.update obs).1) (.new q r)

/-- The first observation starts the filter with itself as the mean and the noise as the
variance. -/
theorem sound_first (hr : 0 < r) (obs : ℕ) : Sound q r ((KalmanRtt.new q r).update obs).1 := by
  rw [update_of_uninitialized rfl]
  exact ⟨rfl, rfl, rfl, hr.le, le_rfl, le_rfl, by norm_num [KalmanRtt.new, cusumH]⟩

/-- **The filter after any observations.** It keeps its bounds, and its mean is between the smallest
and the largest of them. -/
theorem sound_after (hq : 0 ≤ q) (hr : 0 < r) (hrtts : rtts ≠ []) :
    Sound q r (after q r rtts) ∧ Between (rtts.map millis) (after q r rtts).meanMs := by
  -- the run starts where the first observation has replaced the placeholder mean
  obtain ⟨first, rest, rfl⟩ := List.exists_cons_of_ne_nil hrtts
  have hrun := between_foldl (fun k obs ↦ (update k obs).1) meanMs (fun obs ↦ some (millis obs))
    (Sound q r) (fun _ obs h ↦ h.update hq hr obs) (sound_first hr first) rest
  have hmean : ((KalmanRtt.new q r).update first).1.meanMs = millis first := by
    rw [update_of_uninitialized rfl]
  rw [hmean, List.filterMap_eq_map'] at hrun
  exact hrun

end KalmanRtt

namespace NigThroughput

variable {n : NigThroughput} {scale : LogScale} {bps gamma kappa₀ alpha₀ beta₀ : ℚ}

/-! ## One observation of a rate -/

/-- The logarithm of an observed rate, brought between the clamps; what is not a rate has none. -/
def logRate (scale : LogScale) (bps : ℚ) : Option ℚ :=
  if bps ≤ 0 then none
  else some (scale.ln (max minThroughputBps (min bps maxThroughputBps)))

/-- The count an observation divides by: the discounted one, no lower than the prior's, and itself. -/
def weight (n : NigThroughput) (gamma : ℚ) : ℚ := max (n.kappa * gamma) n.kappa0 + 1

theorem observe_of_logRate_eq_none (h : logRate scale bps = none) (gamma : ℚ) :
    n.observe scale bps gamma = n := by
  rw [logRate, ite_eq_left_iff] at h
  rw [observe, if_pos (not_imp_comm.mp h (Option.some_ne_none _))]

theorem observe_of_logRate_eq_some {x : ℚ} (h : logRate scale bps = some x) (gamma : ℚ) :
    n.observe scale bps gamma =
      { n with
          mu := n.mu + (x - n.mu) / n.weight gamma
          kappa := n.weight gamma
          alpha := max (n.alpha * gamma) n.alpha0 + 1 / 2
          beta := max (n.beta * gamma) n.beta0 +
            max (n.kappa * gamma) n.kappa0 / n.weight gamma * (x - n.mu) * (x - n.mu) / 2 } := by
  rw [logRate] at h
  split at h
  · cases h
  · rename_i hbps
    obtain rfl := Option.some.inj h
    rw [observe, if_neg hbps]
    rfl

/-- Draw a rate: a variate of the Student distribution with twice the shape as its degrees of
freedom, located and scaled, brought between the logarithms of the clamps. Nothing is drawn when the
distribution rejects its degrees of freedom. -/
def sample (scale : LogScale) (sqrt variate : ℚ → ℚ) (n : NigThroughput) : Option ℚ :=
  if 0 < 2 * n.alpha then
    let width := sqrt (n.beta / n.alpha / n.kappa)
    let logBps := n.mu + width * variate (2 * n.alpha)
    some (scale.exp (max (scale.ln minThroughputBps) (min logBps (scale.ln maxThroughputBps))))
  else none

/-! ## What an observation keeps -/

/-- The parameters of a posterior are no less than those of its prior. -/
structure Sound (kappa₀ alpha₀ beta₀ : ℚ) (n : NigThroughput) : Prop where
  kappa0_eq : n.kappa0 = kappa₀
  alpha0_eq : n.alpha0 = alpha₀
  beta0_eq : n.beta0 = beta₀
  le_kappa : kappa₀ ≤ n.kappa
  le_alpha : alpha₀ ≤ n.alpha
  le_beta : beta₀ ≤ n.beta

/-- The divisors of an observation and of a draw are positive. -/
structure Divides (n : NigThroughput) (gamma : ℚ) : Prop where
  weight_pos : 0 < n.weight gamma
  alpha_pos : 0 < n.alpha
  kappa_pos : 0 < n.kappa

theorem Sound.one_le_weight (hk : 0 < kappa₀) (h : Sound kappa₀ alpha₀ beta₀ n) (gamma : ℚ) :
    1 ≤ n.weight gamma := by
  have hfloor : kappa₀ ≤ max (n.kappa * gamma) n.kappa0 := by
    rw [h.kappa0_eq]
    exact le_max_right _ _
  exact le_add_of_nonneg_left (hk.le.trans hfloor)

theorem Sound.divides (hk : 0 < kappa₀) (ha : 0 < alpha₀) (h : Sound kappa₀ alpha₀ beta₀ n)
    (gamma : ℚ) : n.Divides gamma where
  weight_pos := zero_lt_one.trans_le (h.one_le_weight hk gamma)
  alpha_pos := ha.trans_le h.le_alpha
  kappa_pos := hk.trans_le h.le_kappa

/-- The distribution of a draw accepts its degrees of freedom. -/
theorem Divides.sample_isSome (h : n.Divides gamma) (scale : LogScale) (sqrt variate : ℚ → ℚ) :
    (n.sample scale sqrt variate).isSome := by
  have hpos : 0 < 2 * n.alpha := mul_pos two_pos h.alpha_pos
  rw [sample, if_pos hpos]
  rfl

/-- An observation keeps the bounds and moves the centre part of the way to the logarithm of the
rate, if it is one. -/
theorem Sound.observe (hk : 0 < kappa₀) (h : Sound kappa₀ alpha₀ beta₀ n) (scale : LogScale)
    (bps gamma : ℚ) :
    Sound kappa₀ alpha₀ beta₀ (n.observe scale bps gamma) ∧
      MovesTowards n.mu (n.observe scale bps gamma).mu (logRate scale bps) := by
  cases hx : logRate scale bps with
  | none =>
    rw [observe_of_logRate_eq_none hx]
    exact ⟨h, rfl⟩
  | some x =>
    -- the share is the inverse of the weight, which counts the observation itself
    have hweight := h.one_le_weight hk gamma
    have hpos : 0 < n.weight gamma := zero_lt_one.trans_le hweight
    rw [observe_of_logRate_eq_some hx]
    refine ⟨⟨h.kappa0_eq, h.alpha0_eq, h.beta0_eq, ?_, ?_, ?_⟩,
      ⟨(n.weight gamma)⁻¹, ⟨(inv_pos.mpr hpos).le, inv_le_one_of_one_le₀ hweight⟩, ?_⟩⟩
    · calc kappa₀ = n.kappa0 := h.kappa0_eq.symm
        _ ≤ max (n.kappa * gamma) n.kappa0 := le_max_right _ _
        _ ≤ n.weight gamma := le_add_of_nonneg_right zero_le_one
    · calc alpha₀ = n.alpha0 := h.alpha0_eq.symm
        _ ≤ max (n.alpha * gamma) n.alpha0 := le_max_right _ _
        _ ≤ max (n.alpha * gamma) n.alpha0 + 1 / 2 := le_add_of_nonneg_right (by norm_num)
    · have hkappa : 0 ≤ max (n.kappa * gamma) n.kappa0 :=
        le_max_of_le_right (h.kappa0_eq ▸ hk.le)
      have hspread : 0 ≤
          max (n.kappa * gamma) n.kappa0 / n.weight gamma * (x - n.mu) * (x - n.mu) / 2 := by
        rw [mul_assoc]
        exact div_nonneg (mul_nonneg (div_nonneg hkappa hpos.le) (mul_self_nonneg _)) two_pos.le
      calc beta₀ = n.beta0 := h.beta0_eq.symm
        _ ≤ max (n.beta * gamma) n.beta0 := le_max_right _ _
        _ ≤ _ := le_add_of_nonneg_right hspread
    · rw [div_eq_inv_mul]

/-! ## A run of observations -/

/-- A posterior after a sequence of observations, each with the discount it came with. -/
def after (scale : LogScale) (prior : NigThroughput) (rates : List (ℚ × ℚ)) : NigThroughput :=
  rates.foldl (fun n rate ↦ n.observe scale rate.1 rate.2) prior

/-- **The posterior after any observations.** Its parameters are no less than the prior's, and its
centre is between the smallest and the largest of the prior's and the logarithms. -/
theorem sound_after (hk : 0 < kappa₀) (mu₀ alpha₀ beta₀ : ℚ) (scale : LogScale)
    (rates : List (ℚ × ℚ)) :
    Sound kappa₀ alpha₀ beta₀ (after scale (.new mu₀ kappa₀ alpha₀ beta₀) rates) ∧
      Between (mu₀ :: rates.filterMap fun rate ↦ logRate scale rate.1)
        (after scale (.new mu₀ kappa₀ alpha₀ beta₀) rates).mu :=
  between_foldl (fun n (rate : ℚ × ℚ) ↦ observe scale n rate.1 rate.2) mu
    (fun rate ↦ logRate scale rate.1) (Sound kappa₀ alpha₀ beta₀)
    (fun _ rate h ↦ h.observe hk scale rate.1 rate.2)
    (s := .new mu₀ kappa₀ alpha₀ beta₀) ⟨rfl, rfl, rfl, le_rfl, le_rfl, le_rfl⟩ rates

/-- With a logarithm between its values at the clamps, the centre is between them too. -/
theorem mu_after_mem_Icc (hk : 0 < kappa₀) (alpha₀ beta₀ : ℚ)
    (hln : ∀ x ∈ Set.Icc minThroughputBps maxThroughputBps,
      scale.ln x ∈ Set.Icc (scale.ln minThroughputBps) (scale.ln maxThroughputBps)) {mu₀ : ℚ}
    (hmu : mu₀ ∈ Set.Icc (scale.ln minThroughputBps) (scale.ln maxThroughputBps))
    (rates : List (ℚ × ℚ)) :
    (after scale (.new mu₀ kappa₀ alpha₀ beta₀) rates).mu ∈
      Set.Icc (scale.ln minThroughputBps) (scale.ln maxThroughputBps) := by
  refine (sound_after hk mu₀ alpha₀ beta₀ scale rates).2.mem_Icc fun x hx ↦ ?_
  rcases List.mem_cons.mp hx with rfl | hx
  · exact hmu
  · obtain ⟨rate, -, hrate⟩ := List.mem_filterMap.mp hx
    rw [logRate] at hrate
    split at hrate
    · cases hrate
    · obtain rfl := Option.some.inj hrate
      have hclamps : minThroughputBps ≤ maxThroughputBps := by
        norm_num [minThroughputBps, maxThroughputBps]
      exact hln _ ⟨le_max_left _ _, max_le hclamps (min_le_right _ _)⟩

end NigThroughput

/-! ## The filter of an endpoint -/

/-- The round trip a probe measured. -/
def ProbeResult.rtt : ProbeResult → Option ℕ
  | .success _ sample => some sample
  | .failure _ => none

namespace Health

variable {q r : ℚ}

theorem run_kalman (scale : LogScale) (due threshold interval base : ℕ) (q r : ℚ)
    (results : List ProbeResult) :
    (run scale due threshold interval base q r results).kalman =
      KalmanRtt.after q r (results.filterMap ProbeResult.rtt) := by
  induction results using List.reverseRecOn with
  | nil => rfl
  | append_singleton results result ih =>
    rw [run, List.foldl_concat, ← run, List.filterMap_append, KalmanRtt.after, List.foldl_append,
      ← KalmanRtt.after, ← ih]
    cases result with
    | success now sample => rfl
    | failure now => rfl

/-- The estimate of an endpoint is a duration, so its score never falls back to the longest one. -/
theorem run_meanMs_nonneg (hq : 0 ≤ q) (hr : 0 < r) (scale : LogScale)
    (due threshold interval base : ℕ) (results : List ProbeResult) :
    0 ≤ (run scale due threshold interval base q r results).kalman.meanMs := by
  rw [run_kalman]
  by_cases hrtts : results.filterMap ProbeResult.rtt = []
  · rw [hrtts]
    exact le_rfl
  · obtain ⟨-, hbetween⟩ := KalmanRtt.sound_after hq hr hrtts
    obtain ⟨⟨lo, hlo, hle⟩, -⟩ := between_iff.mp hbetween
    obtain ⟨obs, -, rfl⟩ := List.mem_map.mp hlo
    have hpos : 0 ≤ KalmanRtt.millis obs := by
      rw [KalmanRtt.millis]
      positivity
    exact hpos.trans hle

end Health

/-! ## Both estimators -/

/-- **The estimators stay within their data.** Once there is a first observation, the mean of the
round-trip filter is between the smallest and the largest of the observations and its variance is no
more than their noise; the next update, alarm or not, takes over a share of its innovation that is a
fraction. The parameters of the throughput posterior stay no less than the prior's, its centre is
between the smallest and the largest of the prior's and the clamped logarithms, and a draw from it
succeeds. All divisors on the way are positive. -/
theorem estimators_within_data {q r kappa₀ alpha₀ : ℚ} (hq : 0 ≤ q) (hr : 0 < r) (hk : 0 < kappa₀)
    (ha : 0 < alpha₀) (mu₀ beta₀ : ℚ) (scale : LogScale) :
    (∀ rtts : List ℕ, rtts ≠ [] →
      let k := KalmanRtt.after q r rtts
      (0 ≤ k.variance ∧ k.variance ≤ r ∧ Between (rtts.map KalmanRtt.millis) k.meanMs) ∧
        ∀ obs, k.Divides obs ∧ 0 ≤ k.gain obs ∧ k.gain obs ≤ 1 ∧
          (k.update obs).1.meanMs = k.meanMs + k.gain obs * (KalmanRtt.millis obs - k.meanMs) ∧
          (k.update obs).1.variance = r * k.gain obs) ∧
    ∀ rates : List (ℚ × ℚ),
      let n := NigThroughput.after scale (.new mu₀ kappa₀ alpha₀ beta₀) rates
      (kappa₀ ≤ n.kappa ∧ alpha₀ ≤ n.alpha ∧ beta₀ ≤ n.beta ∧
        Between (mu₀ :: rates.filterMap fun rate ↦ NigThroughput.logRate scale rate.1) n.mu) ∧
      (∀ gamma, n.Divides gamma) ∧ ∀ sqrt variate, (n.sample scale sqrt variate).isSome := by
  constructor
  · intro rtts hrtts
    obtain ⟨hsound, hmean⟩ := KalmanRtt.sound_after hq hr hrtts
    refine ⟨⟨hsound.variance_nonneg, hsound.variance_le, hmean⟩, fun obs ↦ ?_⟩
    have hgain := hsound.gain_mem hq hr obs
    have hupdate := KalmanRtt.update_of_initialized hsound.initialized obs
    refine ⟨hsound.divides hq hr obs, hgain.1, hgain.2, ?_, ?_⟩
    · rw [hupdate]
    · have hnoise := hsound.r_eq
      rw [hupdate]
      change (KalmanRtt.after q r rtts).r * _ = _
      rw [hnoise]
  · intro rates
    obtain ⟨hsound, hmu⟩ := NigThroughput.sound_after hk mu₀ alpha₀ beta₀ scale rates
    have hdivides := hsound.divides hk ha
    exact ⟨⟨hsound.le_kappa, hsound.le_alpha, hsound.le_beta, hmu⟩, hdivides,
      (hdivides 0).sample_isSome scale⟩

/-- A round trip of 900 ms after one of 40 ms raises the alarm, and the mean stays between them; a
transfer of no rate leaves the prior as it was. -/
theorem estimators_within_data_alarm :
    let scale : LogScale := ⟨fun x ↦ x, fun x ↦ x⟩
    ((KalmanRtt.after (1 / 100) (1 / 10) [40000000]).update 900000000).2 = true ∧
      Between ([40000000, 900000000].map KalmanRtt.millis)
        (KalmanRtt.after (1 / 100) (1 / 10) [40000000, 900000000]).meanMs ∧
      1 / 2 ≤ (NigThroughput.after scale (defaultNigPrior scale) [(1000, 1), (0, 1)]).kappa := by
  intro scale
  have h := estimators_within_data (by norm_num : (0 : ℚ) ≤ 1 / 100)
    (by norm_num : (0 : ℚ) < 1 / 10) (by norm_num : (0 : ℚ) < 1 / 2)
    (by norm_num : (0 : ℚ) < 3 / 2) (scale.ln (256 * 1024)) 1 scale
  exact ⟨by decide +kernel, (h.1 [40000000, 900000000] (List.cons_ne_nil _ _)).1.2.2,
    (h.2 [(1000, 1), (0, 1)]).1.1⟩

end SniGate
