import SniGate.Net.IpAddr
import Mathlib.Algebra.Order.Field.Rat
import Mathlib.Data.Rat.Defs

/-!
# Endpoint scoring

Active probes estimate the round-trip time with a one-dimensional Kalman filter whose variance is
reset by a CUSUM alarm; completed transfers update a discounted normal-inverse-gamma posterior over
the logarithm of the rate. The arithmetic is exact rational arithmetic where the code uses floating
point, and the logarithm and the exponential are given.
-/

namespace SniGate

/-- The two transcendental functions the scores use. -/
structure LogScale where
  ln : ℚ → ℚ
  exp : ℚ → ℚ

/-! ## Round-trip time -/

def wideP : ℚ := 1000

def cusumDeltaMs : ℚ := 50

def cusumH : ℚ := 200

/-- `f64::MAX`. -/
def f64Max : ℚ := (2 ^ 53 - 1) * 2 ^ 971

/-- Kalman filter over RTT, in milliseconds. -/
structure KalmanRtt where
  meanMs : ℚ
  variance : ℚ
  q : ℚ
  r : ℚ
  cusum : ℚ
  initialized : Bool
deriving DecidableEq

namespace KalmanRtt

def new (q r : ℚ) : KalmanRtt :=
  { meanMs := 0, variance := wideP, q, r, cusum := 0, initialized := false }

/-- Incorporate one observation, in nanoseconds; whether it raised the CUSUM alarm. -/
def update (k : KalmanRtt) (obs : ℕ) : KalmanRtt × Bool :=
  let obsMs : ℚ := (obs : ℚ) / 1000000
  if !k.initialized then
    ({ k with meanMs := obsMs, variance := k.r, initialized := true }, false)
  else
    let innovation := obsMs - k.meanMs
    let cusum := max (k.cusum + innovation - cusumDeltaMs / 2) 0
    let alarm := decide (cusumH < cusum)
    let variance := if alarm then max k.variance wideP else k.variance
    let predicted := min (variance + k.q) f64Max
    let gain :=
      if k.r < predicted then 1 / (1 + k.r / predicted)
      else
        let ratio := predicted / k.r
        ratio / (1 + ratio)
    ({ k with
        cusum := if alarm then 0 else cusum
        meanMs := k.meanMs + gain * innovation
        variance := k.r * gain }, alarm)

end KalmanRtt

/-! ## Throughput -/

def minThroughputBps : ℚ := 1 / 10 ^ 20

def maxThroughputBps : ℚ := 10 ^ 30

/-- NIG posterior over log transfer rate, with the prior it is discounted towards. -/
structure NigThroughput where
  mu : ℚ
  kappa : ℚ
  alpha : ℚ
  beta : ℚ
  kappa0 : ℚ
  alpha0 : ℚ
  beta0 : ℚ
deriving DecidableEq

namespace NigThroughput

def new (mu kappa alpha beta : ℚ) : NigThroughput :=
  { mu, kappa, alpha, beta, kappa0 := kappa, alpha0 := alpha, beta0 := beta }

/-- Discount, then incorporate one observed rate. -/
def observe (scale : LogScale) (n : NigThroughput) (bps gamma : ℚ) : NigThroughput :=
  if bps ≤ 0 then n
  else
    let x := scale.ln (max minThroughputBps (min bps maxThroughputBps))
    let kappa := max (n.kappa * gamma) n.kappa0
    let alpha := max (n.alpha * gamma) n.alpha0
    let beta := max (n.beta * gamma) n.beta0
    let kn := kappa + 1
    let diff := x - n.mu
    { n with
      mu := n.mu + diff / kn
      alpha := alpha + 1 / 2
      beta := beta + kappa / kn * diff * diff / 2
      kappa := kn }

end NigThroughput

def defaultNigPrior (scale : LogScale) : NigThroughput :=
  .new (scale.ln (256 * 1024)) (1 / 2) (3 / 2) 1

/-- The network a candidate shares its throughput prior with: `/24` or `/48`. -/
inductive SubnetKey
  | v4 (top : ℕ)
  | v6 (top : ℕ)
deriving DecidableEq, Repr

def SubnetKey.of : IpAddr → SubnetKey
  | .v4 a => .v4 (a.toNat / 2 ^ 8)
  | .v6 a => .v6 (a.toNat / 2 ^ 80)

end SniGate
