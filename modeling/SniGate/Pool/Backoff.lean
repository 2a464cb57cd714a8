import SniGate.Pool.State
import Mathlib.Data.List.DropRight

/-!
# Backoff of one endpoint

The failure counter, the degraded flag and the backoff delay are updated from one another. What they
are after any sequence of probe results depends only on how many failures there are since the last
success (`run_closed_form`): the flag is set from the threshold on, and each failure beyond it
doubles the delay, up to the healthy interval.

The counter saturates. A threshold is a `u32` too, so this is never seen.
-/

namespace SniGate

/-- A probe result that is folded into the health of an endpoint. -/
inductive ProbeResult
  | success (now sample : ℕ)
  | failure (now : ℕ)
deriving DecidableEq, Repr

namespace ProbeResult

def isFailure : ProbeResult → Bool
  | success .. => false
  | failure _ => true

/-- How many failures there are since the last success. -/
def failuresSince (results : List ProbeResult) : ℕ := (results.rtakeWhile isFailure).length

theorem failuresSince_success (results : List ProbeResult) (now sample : ℕ) :
    failuresSince (results ++ [.success now sample]) = 0 := by
  rw [failuresSince, List.rtakeWhile_concat_neg _ _ _ (by simp [isFailure]), List.length_nil]

theorem failuresSince_failure (results : List ProbeResult) (now : ℕ) :
    failuresSince (results ++ [.failure now]) = failuresSince results + 1 := by
  rw [failuresSince, List.rtakeWhile_concat_pos _ _ _ rfl, List.length_append,
    List.length_singleton, failuresSince]

end ProbeResult

namespace Health

/-- `record_success` or `record_failure`. -/
def record (threshold interval base : ℕ) (h : Health) : ProbeResult → Health
  | .success now sample => h.recordSuccess now sample interval base
  | .failure now => h.recordFailure now threshold interval base

/-- A new endpoint after a sequence of results. -/
def run (scale : LogScale) (due threshold interval base : ℕ) (q r : ℚ)
    (results : List ProbeResult) : Health :=
  results.foldl (record threshold interval base) (.new scale due base q r)

/-- The delay after so many failures in a row. -/
def delayAfter (threshold interval base failures : ℕ) : ℕ :=
  if failures ≤ threshold then base else min (base * 2 ^ (failures - threshold)) interval

/-- What the failures since the last success make of an endpoint. -/
structure Failed (threshold interval base failures : ℕ) (h : Health) : Prop where
  count : h.consecutiveFailures = min failures (2 ^ 32 - 1)
  degraded : h.degraded = decide (threshold ≤ failures)
  backoff : h.backoff = delayAfter threshold interval base failures

section Run

variable {scale : LogScale} {due threshold interval base failures now sample : ℕ} {q r : ℚ}
  {results : List ProbeResult} {h : Health}

theorem run_concat (result : ProbeResult) :
    run scale due threshold interval base q r (results ++ [result]) =
      (run scale due threshold interval base q r results).record threshold interval base
        result := by
  rw [run, List.foldl_append]
  rfl

theorem delayAfter_succ (hf : threshold ≤ failures) :
    delayAfter threshold interval base (failures + 1) =
      min (delayAfter threshold interval base failures * 2) interval := by
  rw [delayAfter, if_neg (by omega), Nat.succ_sub hf, pow_succ, ← mul_assoc, delayAfter]
  split_ifs with heq
  · rw [Nat.sub_eq_zero_of_le heq, pow_zero, mul_one]
  · rcases le_total (base * 2 ^ (failures - threshold)) interval with hle | hle
    · rw [min_eq_left hle]
    · rw [min_eq_right hle, min_eq_right (by omega), min_eq_right (by omega)]

theorem failed_new (ht : 1 ≤ threshold) :
    Failed threshold interval base 0 (.new scale due base q r) where
  count := rfl
  degraded := (decide_eq_false (by omega)).symm
  backoff := (if_pos (Nat.zero_le _)).symm

theorem failed_recordSuccess (ht : 1 ≤ threshold) :
    Failed threshold interval base 0 (h.recordSuccess now sample interval base) where
  count := rfl
  degraded := (decide_eq_false (by omega)).symm
  backoff := (if_pos (Nat.zero_le _)).symm

theorem failed_recordFailure (ht : threshold < 2 ^ 32)
    (hf : Failed threshold interval base failures h) :
    Failed threshold interval base (failures + 1) (h.recordFailure now threshold interval base) ∧
      (h.recordFailure now threshold interval base).nextProbe =
        now + delayAfter threshold interval base (failures + 1) := by
  obtain ⟨hcount, hdegraded, hbackoff⟩ := hf
  have hcount' : min (h.consecutiveFailures + 1) (2 ^ 32 - 1) =
      min (failures + 1) (2 ^ 32 - 1) := by
    omega
  rw [recordFailure]
  by_cases hle : threshold ≤ failures
  · -- degraded before: the delay doubles
    have hd : h.degraded = true := by rw [hdegraded, decide_eq_true hle]
    have hdelay : delayAfter threshold interval base (failures + 1) =
        min (delayAfter threshold interval base failures * 2) interval := delayAfter_succ hle
    have hflag : threshold ≤ failures + 1 := by omega
    exact ⟨⟨hcount', by simp [hd, hflag], by simp [hd, hbackoff, hdelay]⟩,
      by simp [hd, hbackoff, hdelay]⟩
  · have hd : h.degraded = false := by rw [hdegraded, decide_eq_false hle]
    have hbase : delayAfter threshold interval base (failures + 1) = base := if_pos (by omega)
    have hbase' : delayAfter threshold interval base failures = base := if_pos (by omega)
    have hreach : threshold ≤ min (h.consecutiveFailures + 1) (2 ^ 32 - 1) ↔
        threshold ≤ failures + 1 := by omega
    have hflag : (recordFailure h now threshold interval base).degraded =
        decide (threshold ≤ failures + 1) := by
      rw [Bool.eq_iff_iff]
      simpa [recordFailure, hd] using hreach
    exact ⟨⟨hcount', hflag, by simp [hd, hbackoff, hbase, hbase']⟩,
      by simp [hd, hbackoff, hbase, hbase']⟩

/-- The failures since the last success decide the state of the endpoint. -/
theorem failed_run (ht : 1 ≤ threshold) (ht' : threshold < 2 ^ 32) :
    Failed threshold interval base (ProbeResult.failuresSince results)
      (run scale due threshold interval base q r results) := by
  induction results using List.reverseRecOn with
  | nil => exact failed_new ht
  | append_singleton results result ih =>
    rw [run_concat]
    cases result with
    | success now sample =>
      rw [ProbeResult.failuresSince_success]
      exact failed_recordSuccess ht
    | failure now =>
      rw [ProbeResult.failuresSince_failure]
      exact (failed_recordFailure ht' ih).1

/-- **Closed form.** For any threshold that a configuration can hold, and any results: an endpoint is
degraded exactly when the failures since its last success reach the threshold. It is next due after
the healthy interval if the last result was a success, and after the base delay if it was a failure
up to the threshold; each further failure doubles this delay, up to the interval. A success leaves
no trace of the failures before it. -/
theorem run_closed_form (scale : LogScale) (due interval base : ℕ) (q r : ℚ) (threshold : UInt32)
    (ht : 1 ≤ threshold.toNat) (results : List ProbeResult) :
    let after := run scale due threshold.toNat interval base q r
    let failures := ProbeResult.failuresSince results
    ((after results).degraded ↔ threshold.toNat ≤ failures) ∧
    (results = [] → (after results).nextProbe = due) ∧
    (∀ earlier now sample, results = earlier ++ [.success now sample] →
      (after results).nextProbe = now + interval ∧ (after results).consecutiveFailures = 0 ∧
        (after results).degraded = false ∧ (after results).backoff = base) ∧
    ∀ earlier now, results = earlier ++ [.failure now] →
      (failures ≤ threshold.toNat → (after results).nextProbe = now + base) ∧
      ∀ k, failures = threshold.toNat + k → 1 ≤ k →
        (after results).nextProbe = now + min (base * 2 ^ k) interval := by
  intro after failures
  have ht' : threshold.toNat < 2 ^ 32 := threshold.toNat_lt
  refine ⟨?_, ?_, ?_, ?_⟩
  · rw [(failed_run ht ht').degraded, decide_eq_true_iff]
  · rintro rfl
    rfl
  · rintro earlier now sample rfl
    have hrun : after (earlier ++ [.success now sample]) =
        (after earlier).recordSuccess now sample interval base := run_concat _
    exact ⟨congrArg nextProbe hrun, congrArg consecutiveFailures hrun,
      congrArg Health.degraded hrun, congrArg Health.backoff hrun⟩
  · rintro earlier now rfl
    have hlast : failures = ProbeResult.failuresSince earlier + 1 :=
      ProbeResult.failuresSince_failure earlier now
    have hnext : (after (earlier ++ [.failure now])).nextProbe =
        now + delayAfter threshold.toNat interval base failures := by
      rw [hlast, ← (failed_recordFailure ht' (failed_run ht ht')).2]
      exact congrArg nextProbe (run_concat _)
    rw [hnext, delayAfter]
    refine ⟨fun hle ↦ by rw [if_pos hle], fun k hk hpos ↦ ?_⟩
    rw [if_neg (by omega), hk, Nat.add_sub_cancel_left]

end Run

/-- One failure past a threshold of two. -/
theorem run_closed_form_three :
    1 ≤ (2 : UInt32).toNat ∧
      (run ⟨fun _ ↦ 0, fun _ ↦ 1⟩ 0 (2 : UInt32).toNat 300 30 0 0
        [.failure 5, .failure 35, .failure 65]).nextProbe = 65 + min (30 * 2 ^ 1) 300 :=
  ⟨by decide, ((run_closed_form ⟨fun _ ↦ 0, fun _ ↦ 1⟩ 0 300 30 0 0 2 (by decide)
    [.failure 5, .failure 35, .failure 65]).2.2.2 [.failure 5, .failure 35] 65 rfl).2 1 (by decide)
    le_rfl⟩

end Health

end SniGate
