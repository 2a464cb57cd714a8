import SniGate.Pool.Targets
import SniGate.Collections.Map
import Mathlib.Data.Finset.Card
import Mathlib.Data.List.Sort

/-!
# The state of a pool's probe task

Health is kept per address, so that it survives a change of the candidate set; what a target
contributes is decided by three records kept by different functions: the sample drawn for it, the
set of addresses retired anywhere, and the replacements drawn for it.

Hash maps are association lists and hash sets are finite sets; where the code visits one in hash
order, the order here is that of the list. Instants and durations are nanoseconds.

## Design choices

The records are kept apart as in the source, even where one could be computed from the others,
because different functions write them and it is their disagreement that matters. Random numbers
and the time of a pass are arguments.
-/

namespace SniGate

/-- How long a candidate that has left the live set is retained in the parked map. -/
def parkDuration : ℕ := 600 * 10 ^ 9

def maxParkedCandidates : ℕ := 4096

def maxIdleSubnetPriors : ℕ := 1024

def tagIpv4 : Str := "ipv4".toList

def tagIpv6 : Str := "ipv6".toList

def tagNat64 : Str := "nat64".toList

/-! ## Health -/

/-- Health of one endpoint. -/
structure Health where
  kalman : KalmanRtt
  nig : NigThroughput
  consecutiveFailures : ℕ
  degraded : Bool
  /-- When this endpoint is next due. -/
  nextProbe : ℕ
  /-- Current backoff delay. -/
  backoff : ℕ
deriving DecidableEq

namespace Health

def new (scale : LogScale) (due backoff : ℕ) (q r : ℚ) : Health :=
  { kalman := .new q r, nig := defaultNigPrior scale, consecutiveFailures := 0, degraded := false,
    nextProbe := due, backoff }

/-- Whether there is an RTT estimate, that is, whether a probe has ever succeeded. -/
def hasRtt (h : Health) : Bool := h.kalman.initialized

def recordSuccess (h : Health) (now sample interval baseBackoff : ℕ) : Health :=
  { h with
    kalman := (h.kalman.update sample).1
    consecutiveFailures := 0
    degraded := false
    backoff := baseBackoff
    nextProbe := now + interval }

def recordFailure (h : Health) (now threshold interval baseBackoff : ℕ) : Health :=
  let consecutiveFailures := min (h.consecutiveFailures + 1) (2 ^ 32 - 1)
  let newlyDegraded := !h.degraded ∧ threshold ≤ consecutiveFailures
  let degraded := h.degraded ∨ newlyDegraded
  let backoff :=
    if newlyDegraded then baseBackoff
    else if h.degraded then min (h.backoff * 2) interval
    else h.backoff
  let delay := if degraded then backoff else baseBackoff
  { h with consecutiveFailures, degraded, backoff, nextProbe := now + delay }

/-- Incorporate one passive throughput observation: `bytes` in `elapsed` nanoseconds. -/
def observeThroughput (scale : LogScale) (h : Health) (bytes elapsed : ℕ) (discount : ℚ) : Health :=
  if elapsed = 0 ∨ bytes = 0 then h
  else { h with nig := h.nig.observe scale (bytes * 10 ^ 9 / elapsed) discount }

/-- An endpoint that has backed off to the cap without ever succeeding. -/
def dead (h : Health) (interval : ℕ) : Bool := h.degraded ∧ !h.hasRtt ∧ interval ≤ h.backoff

end Health

/-! ## The state -/

/-- The throughput prior of a subnet. -/
structure SubnetPrior where
  model : NigThroughput
  lastUsed : ℕ
deriving DecidableEq

/-- Mutable state owned solely by the probe task. -/
structure PoolState where
  /-- Health per address. -/
  health : Map IpAddr Health
  /-- The previous global order. -/
  order : List IpAddr
  /-- Candidates that recently left the live set, with their expiry. -/
  parked : Map IpAddr (Health × ℕ)
  /-- Per-subnet throughput priors. -/
  subnetPriors : Map SubnetKey SubnetPrior
  /-- Addresses replaced because they never came up. -/
  resampled : Finset IpAddr
  /-- Addresses drawn to replace dead samples, per target index. -/
  replacements : Map ℕ (List IpAddr)
  /-- Last DNS answer per domain target index. -/
  resolved : Map ℕ (List IpAddr)

/-- One probed endpoint. -/
structure Candidate where
  addr : IpAddr
  /-- Which target produced it. -/
  target : ℕ
  /-- Automatic tags plus the target's custom ones. -/
  tags : List Str
deriving DecidableEq, Repr

namespace PoolState

def empty : PoolState :=
  { health := ∅, order := [], parked := ∅, subnetPriors := ∅, resampled := ∅,
    replacements := ∅, resolved := ∅ }

/-- The replacements recorded for a target. -/
def replacementsOf (st : PoolState) (target : ℕ) : List IpAddr :=
  (st.replacements.lookup target).getD []

/-- Feed a passive observation to the endpoint it is about and to its subnet's prior. -/
def observe (scale : LogScale) (st : PoolState) (addr : IpAddr) (bytes elapsed : ℕ) (discount : ℚ)
    (now : ℕ) : PoolState :=
  if bytes = 0 ∨ elapsed = 0 then st
  else
    let active : Bool := addr ∈ st.health
    let waiting : Bool := (st.parked.lookup addr).any fun p ↦ now < p.2
    if !active ∧ !waiting then st
    else
      let observed (h : Health) := h.observeThroughput scale bytes elapsed discount
      let key := SubnetKey.of addr
      let prior := (st.subnetPriors.lookup key).getD ⟨defaultNigPrior scale, now⟩
      { st with
        health := if active then st.health.modify addr observed else st.health
        parked :=
          if active then st.parked else st.parked.modify addr fun p ↦ (observed p.1, p.2)
        subnetPriors := st.subnetPriors.insert key
          ⟨prior.model.observe scale (bytes * 10 ^ 9 / elapsed) discount, now⟩ }

/-- The keys of the `count` entries with the smallest values. -/
def smallest {K : Type} (count : ℕ) (entries : List (K × ℕ)) : List K :=
  ((entries.insertionSort fun a b ↦ a.2 ≤ b.2).take count).map Prod.fst

/-- Drop what history need not be kept: expired and excess parked entries, and priors of subnets
without live or parked addresses once they are old or too many. -/
def pruneHistory (st : PoolState) (now : ℕ) : PoolState :=
  let parked := st.parked.retain fun _ p ↦ now < p.2
  let oldest := smallest (parked.keys.length - maxParkedCandidates)
    (parked.entries.map fun e ↦ (e.1, e.2.2))
  let parked := oldest.foldl (fun m a ↦ m.erase a) parked
  let retained := (st.health.keys ++ parked.keys).map SubnetKey.of
  let priors := st.subnetPriors.retain fun key prior ↦
    key ∈ retained ∨ now - prior.lastUsed < parkDuration
  let idle := (priors.entries.filter fun e ↦ e.1 ∉ retained).map fun e ↦ (e.1, e.2.lastUsed)
  let excess := smallest (idle.length - maxIdleSubnetPriors) idle
  { st with parked, subnetPriors := excess.foldl (fun m k ↦ m.erase k) priors }

end PoolState

/-! ## Candidates -/

/-- The automatic tag of an address. -/
def familyTag : IpAddr → Str
  | .v4 _ => tagIpv4
  | .v6 _ => tagIpv6

/-- The candidate a target contributes for an address. -/
def pushCandidate (target : Target) (addr : IpAddr) : Candidate :=
  { addr, target := target.index, tags := familyTag addr :: target.customTags }

/-- The addresses a target yields, before any projection. -/
def PoolState.yields (st : PoolState) (target : Target) : List IpAddr :=
  match target.spec with
  | .ip ip => [ip]
  | .cidr _ _ =>
    target.sampled.filter (fun ip ↦ ip ∉ st.resampled) ++ st.replacementsOf target.index
  | .domain _ => (st.resolved.lookup target.index).getD []

/-- Every target expanded, using cached DNS answers. -/
def nativeCandidates (pool : Pool) (st : PoolState) : List Candidate :=
  pool.targets.flatMap fun target ↦ (st.yields target).map (pushCandidate target)

/-- NAT64 projection: for each participating IPv4 candidate and prefix, one synthesized IPv6
candidate of the same target. -/
def synthesizedCandidates (pool : Pool) (natives : List Candidate) : List Candidate :=
  match pool.nat64 with
  | none => []
  | some n =>
    natives.flatMap fun c ↦
      match c.addr with
      | .v6 _ => []
      | .v4 v4 =>
        if n.from_.all fun list ↦ c.target ∈ list then
          n.prefixes.map fun p ↦
            { addr := .v6 (p.synthesize v4)
              target := c.target
              tags := tagNat64 :: tagIpv6 ::
                ((pool.targets[c.target]?).map Target.customTags).getD [] }
        else []

/-- Move departing candidates into the parked map rather than discarding their state. -/
def PoolState.parkDeparting (st : PoolState) (live : List IpAddr) (parkUntil : ℕ) : PoolState :=
  let departing := st.health.keys.filter fun a ↦ a ∉ live
  departing.foldl (fun st addr ↦
    match st.health.lookup addr with
    | some h =>
      { st with health := st.health.erase addr, parked := st.parked.insert addr (h, parkUntil) }
    | none => st) st

/-- Give an address a health entry: its parked history, or a new one with its subnet's prior. -/
def PoolState.giveHealth (scale : LogScale) (timing : ProbeTiming) (now : ℕ) (st : PoolState)
    (addr : IpAddr) : PoolState :=
  if addr ∈ st.health then st
  else
    match st.parked.lookup addr with
    | some p => { st with health := st.health.insert addr p.1, parked := st.parked.erase addr }
    | none =>
      let h := Health.new scale now timing.degradedInterval timing.kalmanQ timing.kalmanR
      let h :=
        match st.subnetPriors.lookup (SubnetKey.of addr) with
        | some subnet => { h with nig := subnet.model }
        | none => h
      { st with health := st.health.insert addr h }

/-- Expand every target using cached DNS answers and apply the NAT64 projection; park departing
endpoints, and give every new address a health entry. -/
def buildCandidates (scale : LogScale) (pool : Pool) (st : PoolState) (now : ℕ) :
    List Candidate × PoolState :=
  let natives := nativeCandidates pool st
  let out := natives ++ synthesizedCandidates pool natives
  let live := out.map Candidate.addr
  let st := st.pruneHistory now
  let st := st.parkDeparting live (now + parkDuration)
  let st := live.foldl (PoolState.giveHealth scale pool.timing now) st
  (out, st.pruneHistory now)

/-! ## Replacing dead samples -/

/-- The replacements planned so far: the reserved addresses, and per replacement the target, the
dead address and the new one. -/
structure Plan where
  reserved : Finset IpAddr
  planned : List (ℕ × IpAddr × IpAddr)

/-- The network a dead candidate is to be replaced from: that of a target written with a sample
count, when the candidate never answered and has backed off to the cap. -/
def replaceableNet (pool : Pool) (st : PoolState) (c : Candidate) : Option IpNet :=
  match st.health.lookup c.addr with
  | none => none
  | some h =>
    if h.dead pool.timing.interval then (pool.targets[c.target]?).bind Target.sampledNet else none

/-- Consider one candidate: draw a replacement for it, unless it is not to be replaced, was
considered before, or its network has no free address. The random offset is that of the candidate's
position. -/
def planStep (pool : Pool) (st : PoolState) (rand : ℕ → ℕ)
    (acc : Plan × Finset (ℕ × IpAddr)) (ck : Candidate × ℕ) : Plan × Finset (ℕ × IpAddr) :=
  let (plan, plannedKeys) := acc
  let (c, k) := ck
  match replaceableNet pool st c with
  | none => acc
  | some net =>
    if (c.target, c.addr) ∈ plannedKeys then acc
    else
      let plannedKeys := insert (c.target, c.addr) plannedKeys
      match drawFreshSample net plan.reserved (rand k) with
      | none => (plan, plannedKeys)
      | some newAddr =>
        ({ reserved := insert newAddr plan.reserved
           planned := plan.planned ++ [(c.target, c.addr, newAddr)] }, plannedKeys)

/-- The replacements one pass over the candidates plans. -/
def planReplacements (pool : Pool) (st : PoolState) (candidates : List Candidate)
    (rand : ℕ → ℕ) : List (ℕ × IpAddr × IpAddr) :=
  let reserved := st.health.keys.toFinset ∪ st.resampled
  (candidates.zipIdx.foldl (planStep pool st rand) (⟨reserved, []⟩, ∅)).1.planned

/-- Rotate one active CIDR replacement in place rather than keeping a history. -/
def replaceRecordedSample (replacements : Map ℕ (List IpAddr)) (target : ℕ)
    (dead replacement : IpAddr) : Map ℕ (List IpAddr) :=
  let active := ((replacements.lookup target).getD []).filter fun a ↦ a ≠ dead
  replacements.insert target (if replacement ∈ active then active else active ++ [replacement])

/-- Retire a replaced address everywhere. -/
def PoolState.retire (st : PoolState) (dead : IpAddr) : PoolState :=
  { st with
    resampled := insert dead st.resampled
    health := st.health.erase dead
    order := st.order.filter fun a ↦ a ≠ dead }

/-- Carry out planned replacements: record each one, then retire the replaced addresses. -/
def PoolState.replaceAll (st : PoolState) (planned : List (ℕ × IpAddr × IpAddr)) : PoolState :=
  let replacements := planned.foldl (fun m p ↦ replaceRecordedSample m p.1 p.2.1 p.2.2)
    st.replacements
  let retired := (planned.map fun p ↦ p.2.1).dedup
  retired.foldl PoolState.retire { st with replacements }

/-- Replace a CIDR sample that has backed off to the cap without ever succeeding. -/
def PoolState.resampleDead (pool : Pool) (st : PoolState) (candidates : List Candidate)
    (rand : ℕ → ℕ) : PoolState := st.replaceAll (planReplacements pool st candidates rand)

end SniGate
