import SniGate.Bytes.Basic
import SniGate.Collections.Map
import SniGate.Transition.Run

/-!
# Live resolvers

A resolver can be replaced while queries run against it. Queries clone the resolver object out of
the handle; a replacement writes the object and the bytes of its ECHConfigList, one after the other,
and then increments a generation counter. A query whose endpoint rejects ECH asks for a replacement
and tries again, a limited number of times, and a timer asks for one from time to time. Whoever asks
names the generation it has seen, and nothing is replaced when the counter has moved on by the time
the lock of rebuilds is taken.

An event is one atomic step of one task. Resolver objects are numbered in the order in which they
are built, so that two of them are the same object exactly when their numbers are equal.

## Design choices

The two writes of a replacement and the increment are separate events, and so are the two reads of
whoever asks, for what comes in between decides whether a retry meets a new object. The generation
counter is a natural number. It grows by one at each replacement, and does not come to the end of
64 bits.
-/

namespace SniGate

/-- What a resolver needs for its own ECH, of which only the number of retries matters here. -/
structure EchPlan where
  maxRetries : ℕ
deriving DecidableEq, Repr

/-- How to build a resolver. -/
structure ResolverPlan where
  ech : Option EchPlan
deriving DecidableEq, Repr

/-- How often a rejected query is tried again. -/
def ResolverPlan.maxRetries (plan : ResolverPlan) : ℕ := (plan.ech.map EchPlan.maxRetries).getD 0

/-- Why a rebuild was triggered. -/
inductive RebuildCause
  | rejected
  | rotation
deriving DecidableEq, Repr

/-! ## Tasks -/

/-- A rejected attempt: the object that was rejected, and whether the rebuild it asked for was
attempted and failed to build. -/
structure Rejection where
  resolver : ℕ
  buildFailed : Bool
deriving DecidableEq, Repr

/-- Who asks for a rebuild: a query whose attempt on an object was rejected, or the timer. -/
inductive Caller
  | query (attempt resolver : ℕ)
  | refresher
deriving DecidableEq, Repr

/-- The cause a caller states. -/
def Caller.cause : Caller → RebuildCause
  | query .. => .rejected
  | refresher => .rotation

/-- What `rebuild` is called with. -/
structure RebuildRequest where
  seen : ℕ
  caller : Caller
deriving DecidableEq, Repr

/-- Where a task stands. A query is at the head of its loop, has read the generation, or runs on an
object; it or the timer waits for the lock of rebuilds, or holds it. -/
inductive ResolverTask
  | head (attempt : ℕ) (previous : Option Rejection)
  | seen (attempt : ℕ) (previous : Option Rejection) (generation : ℕ)
  | running (attempt seen resolver : ℕ)
  | waiting (request : RebuildRequest)
  | rebuilding
deriving DecidableEq, Repr

/-- How far a rebuild has come. -/
inductive RebuildStage
  | building
  | built (resolver : ℕ) (echBytes : Option Bytes)
  | wroteInner (echBytes : Option Bytes)
  | wroteBytes
deriving DecidableEq, Repr

/-- Whether the live object has been replaced, but the generation not yet incremented. -/
def RebuildStage.wrote : RebuildStage → Bool
  | building | built .. => false
  | wroteInner _ | wroteBytes => true

/-- The holder of the lock of rebuilds. -/
structure Rebuild where
  task : ℕ
  request : RebuildRequest
  stage : RebuildStage
deriving DecidableEq, Repr

/-- What is recorded of a run: an attempt on an object, with the rejection it is a retry after, and
a replacement, with the generation it was asked for. -/
inductive ResolverEffect
  | ran (previous : Option Rejection) (resolver : ℕ)
  | swapped (seen : ℕ)
deriving DecidableEq, Repr

/-- A live resolver with the tasks that use it. -/
structure DnsResolver where
  inner : ℕ
  generation : ℕ
  rebuilding : Option Rebuild
  echBytes : Option Bytes
  /-- The number of the next object built. -/
  nextResolver : ℕ
  tasks : Map ℕ ResolverTask
  log : List ResolverEffect

/-- One atomic step of a task. -/
inductive ResolverEvent
  | query (id : ℕ)
  | readGeneration (id : ℕ)
  | snapshot (id : ℕ)
  /-- The attempt ends, with an ECH rejection or otherwise. -/
  | answered (id : ℕ) (rejected : Bool)
  /-- The timer fires, and its task reads the generation. -/
  | tick (id : ℕ)
  /-- The lock of rebuilds is taken, and the generation checked. -/
  | lock (id : ℕ)
  /-- The build ends, with the bytes of the new object or with an error. -/
  | built (outcome : Option (Option Bytes))
  | writeInner
  | writeBytes
  | increment
  /-- A task is dropped. -/
  | drop (id : ℕ)
deriving DecidableEq, Repr

namespace DnsResolver

/-- `DnsResolver::new`. -/
def start (echBytes : Option Bytes) : DnsResolver := ⟨0, 0, none, echBytes, 1, ∅, []⟩

variable (s : DnsResolver)

/-- A task moves on. -/
def put (id : ℕ) (task : ResolverTask) : DnsResolver := { s with tasks := s.tasks.insert id task }

/-- A task ends. -/
def remove (id : ℕ) : DnsResolver := { s with tasks := s.tasks.erase id }

/-- `rebuild` returns to its caller: a query starts its next attempt, and the timer waits. -/
def returned (id : ℕ) (buildFailed : Bool) : Caller → DnsResolver
  | .query attempt resolver => s.put id (.head (attempt + 1) (some ⟨resolver, buildFailed⟩))
  | .refresher => s.remove id

/-- Take the lock of rebuilds, unless another task has rebuilt since. -/
def enterRebuild (id : ℕ) (request : RebuildRequest) : DnsResolver :=
  if s.generation ≠ request.seen then s.returned id false request.caller
  else { s.put id .rebuilding with rebuilding := some ⟨id, request, .building⟩ }

/-- The build ends. A rotation whose bytes are the live ones replaces nothing, and neither does a
failure. -/
def leaveBuild (r : Rebuild) : Option (Option Bytes) → DnsResolver
  | some echBytes =>
    let resolver := s.nextResolver
    let s := { s with nextResolver := resolver + 1 }
    if r.request.caller.cause = .rotation ∧ echBytes = s.echBytes then
      { s with rebuilding := none }.returned r.task false r.request.caller
    else { s with rebuilding := some { r with stage := .built resolver echBytes } }
  | none => { s with rebuilding := none }.returned r.task true r.request.caller

/-- What a step leads to, if it can happen. The three writes of a replacement are not interrupted by
the end of its task. -/
def step (plan : Option ResolverPlan) : ResolverEvent → Option DnsResolver
  | .query id => if id ∈ s.tasks then none else some (s.put id (.head 0 none))
  | .readGeneration id =>
    match s.tasks.lookup id with
    | some (.head attempt previous) => some (s.put id (.seen attempt previous s.generation))
    | _ => none
  | .snapshot id =>
    match s.tasks.lookup id with
    | some (.seen attempt previous generation) =>
      some { s.put id (.running attempt generation s.inner) with
        log := s.log ++ [.ran previous s.inner] }
    | _ => none
  | .answered id rejected =>
    match s.tasks.lookup id with
    | some (.running attempt seen resolver) =>
      if rejected ∧ attempt < (plan.map ResolverPlan.maxRetries).getD 0 then
        some (s.put id (.waiting ⟨seen, .query attempt resolver⟩))
      else some (s.remove id)
    | _ => none
  | .tick id =>
    if id ∈ s.tasks then none
    else if plan.isNone then some s
    else some (s.put id (.waiting ⟨s.generation, .refresher⟩))
  | .lock id =>
    match s.tasks.lookup id, s.rebuilding with
    | some (.waiting request), none => some (s.enterRebuild id request)
    | _, _ => none
  | .built outcome =>
    match s.rebuilding with
    | some ⟨task, request, .building⟩ => some (s.leaveBuild ⟨task, request, .building⟩ outcome)
    | _ => none
  | .writeInner =>
    match s.rebuilding with
    | some ⟨task, request, .built resolver echBytes⟩ =>
      some { s with
        inner := resolver
        rebuilding := some ⟨task, request, .wroteInner echBytes⟩
        log := s.log ++ [.swapped request.seen] }
    | _ => none
  | .writeBytes =>
    match s.rebuilding with
    | some ⟨task, request, .wroteInner echBytes⟩ =>
      some { s with echBytes, rebuilding := some ⟨task, request, .wroteBytes⟩ }
    | _ => none
  | .increment =>
    match s.rebuilding with
    | some ⟨task, request, .wroteBytes⟩ =>
      some ({ s with generation := s.generation + 1, rebuilding := none }.returned task false
        request.caller)
    | _ => none
  | .drop id =>
    match s.tasks.lookup id, s.rebuilding with
    | some .rebuilding, some ⟨task, _, .building⟩ =>
      if task = id then some { s.remove id with rebuilding := none } else none
    | some .rebuilding, _ => none
    | some _, _ => some (s.remove id)
    | none, _ => none

end DnsResolver

end SniGate
