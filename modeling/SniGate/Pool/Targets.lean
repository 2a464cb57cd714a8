import SniGate.Net.Cidr
import SniGate.Pool.Scoring

/-!
# Pool targets and how they are sampled

A target is a literal address, a domain, or a network. A network is expanded fully, or, when it is
written with a sample count, represented by that many addresses drawn at random when the pool is
built. Randomness is an input: a draw is any number, taken modulo the range it is drawn from.
-/

namespace SniGate

/-- Hard cap on candidates produced by expanding one CIDR target without a sample count. -/
def maxCidrExpansion : ℕ := 64

/-- A parsed `targets` entry. -/
inductive TargetSpec
  /-- A DNS name, re-resolved on every probe cycle. -/
  | domain (name : Str)
  /-- A literal address. -/
  | ip (addr : IpAddr)
  /-- A network, sampled or fully expanded. -/
  | cidr (net : IpNet) (sample : Option ℕ)
deriving DecidableEq, Repr

/-! ## Drawing -/

/-- The drawing loop: draw until there are `want` addresses or the attempts are used up, skipping
addresses already drawn. -/
def drawLoop (net : IpNet) (want : ℕ) : List ℕ → List IpAddr → List IpAddr
  | [], out => out
  | r :: rand, out =>
    if out.length < want then
      let addr := offsetInto net (r % networkSize net)
      drawLoop net want rand (if addr ∈ out then out else out ++ [addr])
    else out

/-- Draw `sample` random addresses from `net`, or expand it fully when no sample count was given. -/
def drawSample (net : IpNet) (sample : Option ℕ) (rand : List ℕ) : List IpAddr :=
  match sample with
  | none => net.hosts maxCidrExpansion
  | some want =>
    let want := min want (networkSize net)
    let maxAttempts := max (want * 8) 16
    drawLoop net want (rand.take maxAttempts) []

/-- Draw an address not already present in the pool: from a random offset on, the first unreserved
one. -/
def drawFreshSample (net : IpNet) (reserved : Finset IpAddr) (rand : ℕ) : Option IpAddr :=
  let size := networkSize net
  let attempts := min (reserved.card + 1) size
  let start := rand % size
  ((List.range attempts).map fun step ↦ offsetInto net ((start + step) % 2 ^ 128 % size)).find?
    fun addr ↦ addr ∉ reserved

theorem drawLoop_spec {net : IpNet} {want : ℕ} {rand : List ℕ} {out : List IpAddr}
    (hnodup : out.Nodup) (hin : ∀ a ∈ out, net.contains a) :
    (drawLoop net want rand out).Nodup ∧ ∀ a ∈ drawLoop net want rand out, net.contains a := by
  induction rand generalizing out with
  | nil => exact ⟨hnodup, hin⟩
  | cons r rand ih =>
    rw [drawLoop]
    by_cases hw : out.length < want
    swap
    · rw [if_neg hw]
      exact ⟨hnodup, hin⟩
    rw [if_pos hw]
    have hr : r % networkSize net < networkSize net := Nat.mod_lt _ (networkSize_pos net)
    by_cases hm : offsetInto net (r % networkSize net) ∈ out
    · simp only [if_pos hm]
      exact ih hnodup hin
    · simp only [if_neg hm]
      refine ih (List.nodup_append.mpr ⟨hnodup, List.nodup_singleton _, ?_⟩) ?_
      · intro a ha b hb hab
        rw [List.mem_singleton] at hb
        exact hm (hb ▸ hab ▸ ha)
      · intro a ha
        rcases List.mem_append.mp ha with ha | ha
        · exact hin a ha
        · rw [List.mem_singleton.mp ha]
          exact contains_offsetInto hr

theorem drawSample_spec (net : IpNet) (want : ℕ) (rand : List ℕ) :
    (drawSample net (some want) rand).Nodup ∧
      ∀ a ∈ drawSample net (some want) rand, net.contains a :=
  drawLoop_spec List.nodup_nil (by simp)

/-- A fresh sample is unreserved, and counted from the base of its network. -/
theorem drawFreshSample_spec {net : IpNet} {reserved : Finset IpAddr} {rand : ℕ} {a : IpAddr}
    (h : drawFreshSample net reserved rand = some a) :
    a ∉ reserved ∧ ∃ k < networkSize net, offsetInto net k = a := by
  have hfree := List.find?_some h
  have hmem := List.mem_of_find?_eq_some h
  obtain ⟨step, -, rfl⟩ := List.mem_map.mp hmem
  exact ⟨of_decide_eq_true hfree, _, Nat.mod_lt _ (networkSize_pos net), rfl⟩

/-! ## Targets and pools -/

/-- A target after load-time parsing, with CIDR sampling already drawn. -/
structure Target where
  /-- Index in the config's `targets` array. -/
  index : ℕ
  spec : TargetSpec
  /-- Operator-supplied tags, appended to the automatic ones. -/
  customTags : List Str
  /-- For a CIDR: the addresses drawn from it. Empty for other kinds. -/
  sampled : List IpAddr
deriving DecidableEq, Repr

/-- What `sampled` holds for a specification. -/
def TargetSpec.draw (spec : TargetSpec) (rand : List ℕ) : List IpAddr :=
  match spec with
  | .cidr net sample => drawSample net sample rand
  | _ => []

/-- The cadence and scoring parameters for one pool; durations are in nanoseconds. -/
structure ProbeTiming where
  interval : ℕ
  degradedInterval : ℕ
  failThreshold : ℕ
  /-- Reference payload of the score; zero ranks by RTT alone. -/
  scorePayloadBytes : ℕ
  throughputDiscount : ℚ
  kalmanQ : ℚ
  kalmanR : ℚ

/-- The timing of a pool whose `probe` table sets none of it. -/
def defaultTiming : ProbeTiming :=
  { interval := 300 * 10 ^ 9
    degradedInterval := 30 * 10 ^ 9
    failThreshold := 2
    scorePayloadBytes := 0
    throughputDiscount := 95 / 100
    kalmanQ := 1 / 100
    kalmanR := 1 / 10 }

/-- NAT64 projection of a pool's IPv4 candidates. -/
structure Nat64Projection where
  prefixes : List Nat64Prefix
  /-- The participating targets; every one when not written. -/
  from_ : Option (List ℕ)

/-- A pool: its targets carry their own positions, and the samples drawn for them. -/
structure Pool where
  targets : List Target
  timing : ProbeTiming
  nat64 : Option Nat64Projection
  index_eq : ∀ (i : ℕ) (t : Target), targets[i]? = some t → t.index = i
  sampled_eq : ∀ t ∈ targets, ∃ rand : List ℕ, t.sampled = t.spec.draw rand

/-- Build the pool's targets from their specifications and tags, drawing each one's sample. -/
def buildTargets (defs : List (TargetSpec × List Str)) (rand : ℕ → List ℕ) : List Target :=
  defs.mapIdx fun index d ↦
    { index, spec := d.1, customTags := d.2, sampled := d.1.draw (rand index) }

/-- Build a pool. -/
def Pool.new (defs : List (TargetSpec × List Str)) (rand : ℕ → List ℕ) (timing : ProbeTiming)
    (nat64 : Option Nat64Projection) : Pool where
  targets := buildTargets defs rand
  timing := timing
  nat64 := nat64
  index_eq i t h := by
    rw [buildTargets, List.getElem?_mapIdx, Option.map_eq_some_iff] at h
    obtain ⟨d, -, rfl⟩ := h
    rfl
  sampled_eq t h := by
    obtain ⟨i, hi, rfl⟩ := List.mem_mapIdx.mp h
    exact ⟨rand i, rfl⟩

/-- The network of a target written with a sample count. -/
def Target.sampledNet (t : Target) : Option IpNet :=
  match t.spec with
  | .cidr net (some _) => some net
  | _ => none

theorem Pool.sampled_spec (pool : Pool) {t : Target} {net : IpNet} (ht : t ∈ pool.targets)
    (hnet : t.sampledNet = some net) :
    t.sampled.Nodup ∧ ∀ a ∈ t.sampled, net.contains a := by
  obtain ⟨rand, hs⟩ := pool.sampled_eq t ht
  rw [Target.sampledNet] at hnet
  split at hnet
  · rename_i n want hspec
    obtain rfl := Option.some.inj hnet
    rw [hs, hspec]
    exact drawSample_spec n want rand
  · exact absurd hnet (by simp)

end SniGate
