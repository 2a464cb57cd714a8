import SniGate.Collections.Map
import SniGate.Ech.Provider

/-!
# ECH client configurations

A provider keeps, for every inner name, the ECH mode it resolved last and the client configurations
it assembled from it, one for each list of ALPN protocols offered upstream. An entry is resolved
again when its refresh deadline has passed, and it is dropped when a server rejects it; its
generation tells which entry a connection used.

Calls run concurrently under a lock that readers share. The state below is what the lock protects,
together with the calls in progress, and every event is what one call does between two points where
it can be suspended. The write lock is held while the source is asked, so the writer is part of the
state. The clock is read anew in every event.

## Design choices

Generations are natural numbers where the source has an `AtomicU64`: one is taken for each entry
that is installed, and they do not come to the end of 64 bits. Time is a natural number that only
the events give; nothing is said of how long a call takes.
-/

namespace SniGate

/-! ## Modes and configurations -/

/-- `rustls::client::EchMode`: a configuration that was published, or a placeholder. -/
inductive Rustls.EchMode (κ : Type)
  | enable (config : κ)
  | grease (publicKey : Bytes)

/-- A client configuration; `ν` is the type of verification policies. -/
structure ClientConfig (κ ν : Type) where
  echMode : Rustls.EchMode κ
  verify : ν
  enableSni : Bool
  alpnProtocols : List Bytes

/-- What the TLS library does with a mode. -/
structure EchExternals (κ : Type) where
  base64 : Str → Except Str Bytes
  /-- `EchConfig::new` with the supported suites, if one of the configurations listed is
  compatible. -/
  echConfig : Bytes → Option κ
  /-- `with_ech`, which accepts the mode or refuses it. -/
  withEch : Rustls.EchMode κ → Except Str Unit

/-- An ECH provider with what its client configurations consist of. -/
structure ClientProvider (ρ ν : Type) extends EchProvider ρ where
  requireEch : Bool
  /-- Whether the inner hello carries the server name. -/
  enableSni : Bool
  verify : ν
  refreshBound : Duration

/-- The entry of an inner name. -/
structure Cached (κ ν : Type) where
  echMode : Rustls.EchMode κ
  configs : Map (List Bytes) (ClientConfig κ ν)
  refreshAt : ℕ
  generation : ℕ

/-- A client configuration handed to a connection. -/
structure EchClient (κ ν : Type) where
  clientConfig : ClientConfig κ ν
  generation : ℕ

variable {κ ν ρ : Type}

/-- Select a compatible configuration. -/
def buildRealEchMode (ext : EchExternals κ) (bytes : Bytes) : Except EchError (Rustls.EchMode κ) :=
  match ext.echConfig bytes with
  | some config => .ok (.enable config)
  | none => .error .noCompatibleConfig

/-- A placeholder around a generated key. -/
def greaseMode (keyPair : Except Str Bytes) : Except EchError (Rustls.EchMode κ) :=
  (keyPair.map .grease).mapError .rustls

namespace ClientProvider

variable (p : ClientProvider ρ ν) (ext : EchExternals κ)

/-- Set up a configuration with a mode; it offers no ALPN protocol yet. -/
def assembleClientConfig (mode : Rustls.EchMode κ) : Except EchError (ClientConfig κ ν) :=
  ((ext.withEch mode).map fun _ ↦
    ⟨mode, p.verify, p.enableSni, []⟩).mapError .rustls

/-- The configuration of an entry for a list of protocols, and the entry that remembers it. -/
def configFor (c : Cached κ ν) (alpn : List Bytes) :
    Except EchError (ClientConfig κ ν × Cached κ ν) :=
  match c.configs.lookup alpn with
  | some config => .ok (config, c)
  | none =>
    match p.assembleClientConfig ext c.echMode with
    | .ok assembled =>
      let config := { assembled with alpnProtocols := alpn }
      .ok (config, { c with configs := c.configs.insert alpn config })
    | .error e => .error e

/-- The mode for what was acquired; without a configuration, a placeholder if that is allowed. -/
def resolveMode (innerName : Str) (keyPair : Except Str Bytes) :
    Option Bytes → Except EchError (Rustls.EchMode κ)
  | some bytes => buildRealEchMode ext bytes
  | none => if p.requireEch then .error (.noRecord (p.lookupName innerName)) else greaseMode keyPair

/-- How long an entry stays fresh: its lifetime within the bound, and five seconds at least. -/
def refreshAfter (ttl : Option ℕ) : Duration :=
  max ((ttl.map fun t ↦ min (fromSecs t) p.refreshBound).getD p.refreshBound)
    (fromSecs 5)

/-- `EchProvider::build`: a new entry. -/
def build (dns : Dns ρ) (keyPair : Except Str Bytes) (innerName : Str) (now generation : ℕ) :
    Except EchError (Cached κ ν) := do
  let (echBytes, ttl) ← p.acquireConfigList ext.base64 dns innerName
  let mode ← p.resolveMode ext innerName keyPair echBytes
  return ⟨mode, ∅, now + p.refreshAfter ttl, generation⟩

end ClientProvider

/-! ## Calls -/

/-- Where a call stands: before the read lock, before the write lock, or asking the source while it
holds the write lock. -/
inductive EchPhase
  | started
  | missed
  | building
deriving DecidableEq, Repr

/-- A call in progress. -/
structure EchCall where
  innerName : Str
  alpn : List Bytes
  phase : EchPhase
deriving DecidableEq, Repr

/-- What calls do for all to see. -/
inductive EchEffect (κ ν : Type)
  | installed (innerName : Str) (generation : ℕ) (mode : Rustls.EchMode κ)
  | returned (innerName : Str) (alpn : List Bytes) (client : EchClient κ ν)
  | failed (innerName : Str) (error : EchError)
  | cleared (lookupName : Str)
  | invalidated (innerName : Str) (generation : ℕ) (evicted : Bool)

/-- The answer of a call. -/
def EchEffect.answer (call : EchCall) : Except EchError (EchClient κ ν) → EchEffect κ ν
  | .ok client => .returned call.innerName call.alpn client
  | .error e => .failed call.innerName e

/-- The cache, its lock, the calls in progress, and what they have done so far. -/
structure EchState (κ ν : Type) where
  cache : Map Str (Cached κ ν)
  nextGeneration : ℕ
  writer : Option ℕ
  calls : Map ℕ EchCall
  log : List (EchEffect κ ν)

/-- What happens: a call begins, looks under the read lock, looks again under the write lock, gets
an answer from the source, or is dropped; or a rejection is reported. -/
inductive EchEvent (ρ : Type)
  | call (id : ℕ) (innerName : Str) (alpn : List Bytes)
  | read (id now : ℕ)
  | write (id now : ℕ)
  | built (id : ℕ) (dns : Dns ρ) (keyPair : Except Str Bytes) (now : ℕ)
  | drop (id : ℕ)
  | reject (innerName : Str) (generation : ℕ)

namespace EchState

/-- `EchProvider::new`. -/
def start : EchState κ ν := ⟨∅, 1, none, ∅, []⟩

variable (p : ClientProvider ρ ν) (ext : EchExternals κ) (s : EchState κ ν)

/-- The entry of a name whose refresh deadline has not passed. -/
def fresh (innerName : Str) (now : ℕ) : Option (Cached κ ν) :=
  (s.cache.lookup innerName).filter fun c ↦ now < c.refreshAt

/-- A call moves on. -/
def move (id : ℕ) (call : EchCall) (phase : EchPhase) : EchState κ ν :=
  { s with calls := s.calls.insert id { call with phase } }

/-- A call ends, and releases the lock if it holds it. -/
def finish (id : ℕ) : EchState κ ν :=
  { s with
    calls := s.calls.erase id
    writer := if s.writer = some id then none else s.writer }

/-- Effects become visible. -/
def emit (effects : List (EchEffect κ ν)) : EchState κ ν := { s with log := s.log ++ effects }

/-- Answer a call from an entry, which is left in the cache and keeps what it assembles. -/
def respond (call : EchCall) (c : Cached κ ν) : EchState κ ν :=
  match p.configFor ext c call.alpn with
  | .ok (config, c') =>
    { s with
      cache := s.cache.insert call.innerName c'
      log := s.log ++ [.answer call (.ok ⟨config, c.generation⟩)] }
  | .error e =>
    { s with
      cache := s.cache.insert call.innerName c
      log := s.log ++ [.answer call (.error e)] }

/-- The fast path: a fresh entry that has already assembled this offer. -/
def readPath (id : ℕ) (call : EchCall) (now : ℕ) : EchState κ ν :=
  match s.fresh call.innerName now with
  | some c =>
    match c.configs.lookup call.alpn with
    | some config => (s.emit [.answer call (.ok ⟨config, c.generation⟩)]).finish id
    | none => s.move id call .missed
  | none => s.move id call .missed

/-- The slow path up to the request to the source. -/
def writePath (id : ℕ) (call : EchCall) (now : ℕ) : EchState κ ν :=
  match s.fresh call.innerName now with
  | some c => (s.respond p ext call c).finish id
  | none => { s.move id call .building with writer := some id }

/-- The slow path from the answer of the source on. A stale entry is superseded; when there is no
answer, it is kept for a while. -/
def buildPath (id : ℕ) (call : EchCall) (dns : Dns ρ) (keyPair : Except Str Bytes) (now : ℕ) :
    EchState κ ν :=
  match p.build ext dns keyPair call.innerName now s.nextGeneration with
  | .ok c =>
    let s := { s with nextGeneration := s.nextGeneration + 1 }
    let s := s.emit [.installed call.innerName c.generation c.echMode]
    (s.respond p ext call c).finish id
  | .error e =>
    match s.cache.lookup call.innerName with
    | some c => (s.respond p ext call { c with refreshAt := now + fromSecs 30 }).finish id
    | none => (s.emit [.answer call (.error e)]).finish id

/-- The DNS name whose cached answer a rejection clears. -/
def clearedBy (innerName : Str) : List (EchEffect κ ν) :=
  if p.settings.mode = .static then [] else [.cleared (p.lookupName innerName)]

/-- `EchProvider::invalidate_after_rejection`. -/
def invalidateAfterRejection (innerName : Str) (generation : ℕ) : EchState κ ν :=
  if (s.cache.lookup innerName).map Cached.generation = some generation then
    { s with
      cache := s.cache.erase innerName
      log := s.log ++ (clearedBy p innerName ++ [.invalidated innerName generation true]) }
  else s.emit [.invalidated innerName generation false]

/-- What an event leads to, if it can happen: readers and writers wait for the writer. -/
def step : EchEvent ρ → Option (EchState κ ν)
  | .call id innerName alpn =>
    if id ∈ s.calls then none else some (s.move id ⟨innerName, alpn, .started⟩ .started)
  | .read id now =>
    match s.calls.lookup id with
    | some call =>
      if call.phase = .started ∧ s.writer = none then some (s.readPath id call now) else none
    | none => none
  | .write id now =>
    match s.calls.lookup id with
    | some call =>
      if call.phase = .missed ∧ s.writer = none then some (s.writePath p ext id call now) else none
    | none => none
  | .built id dns keyPair now =>
    match s.calls.lookup id with
    | some call =>
      if call.phase = .building then some (s.buildPath p ext id call dns keyPair now) else none
    | none => none
  | .drop id => if id ∈ s.calls then some (s.finish id) else none
  | .reject innerName generation =>
    if s.writer = none then some (s.invalidateAfterRejection p innerName generation) else none

end EchState

end SniGate
