import SniGate.Files.Crash
import SniGate.Net.IpAddr

/-!
# On-disk persistence of issued certificates

A certificate lives in up to three files under the directory of its scope: the PEM chain, the PEM
key, and the sidecar with the upstream names it mirrors. Saving replaces them one after the other;
loading reads whatever the three paths hold.

PEM and X.509 parsing are third-party code. They enter as a `CertCodec`, whose functions may be
anything.

## Design choices

Files are a function from paths to contents, and an absent file is none. A save is a list of file
operations (`CertStore.saveOps`), so that the rules of `Files.Crash` apply to it, and what it does
when nothing interrupts it is a lemma.
-/

namespace SniGate

/-! ## Paths -/

/-- A path, as its components. -/
abbrev Path := List Str

/-- `Path::with_file_name`. -/
def withFileName (path : Path) (name : Str) : Path := path.dropLast ++ [name]

/-- The staging path for an atomic write: the target with `.tmp` appended. -/
def stagingPath (path : Path) : Path := withFileName path (path.getLast?.getD [] ++ ".tmp".toList)

/-! ## What the parsers report -/

/-- A subject alternative name of a certificate. -/
inductive GeneralName
  | dnsName (name : Str)
  | ipAddress (bytes : Bytes)
  | other
deriving DecidableEq, Repr

/-- What is read from a parsed certificate. -/
structure ParsedCert where
  /-- `notAfter`, in seconds since the epoch. -/
  notAfter : ℤ
  /-- The names, if the certificate has the extension and it parses. -/
  generalNames : Option (List GeneralName)
deriving DecidableEq, Repr

/-- The PEM and X.509 parsers, and the range of timestamps the time library represents. -/
structure CertCodec (Der Key : Type) where
  certs : Bytes → Option (List Der)
  privateKey : Bytes → Option (Option Key)
  parse : Der → Option ParsedCert
  timestampInRange : ℤ → Bool

/-- Certificate material loaded from disk. -/
structure StoredCertificate (Der Key : Type) where
  chain : List Der
  key : Key
  notAfter : ℤ
  /-- The leaf's subject alternative names. -/
  sans : List Str
  /-- The upstream SANs this certificate was mirrored from, if it was mirrored at all. -/
  observed : Option (List Str)
deriving DecidableEq, Repr

/-- The big-endian number some octets spell. -/
def ofOctets (bytes : Bytes) : ℕ := bytes.foldl (fun n x ↦ n * 256 + x.toNat) 0

/-- Render a SAN IP-address octet string (4 or 16 bytes) back to its textual form. -/
def ipFromBytes (bytes : Bytes) : Option Str :=
  if bytes.length = 4 then some (ipv4ToString (BitVec.ofNat 32 (ofOctets bytes)))
  else if bytes.length = 16 then some (ipv6ToString (BitVec.ofNat 128 (ofOctets bytes)))
  else none

/-- The text of a name, for the kinds that have one. -/
def GeneralName.toStr : GeneralName → Option Str
  | .dnsName d => some d
  | .ipAddress bytes => ipFromBytes bytes
  | .other => none

variable {Der Key : Type}

/-- Extract the `notAfter` time and the DNS/IP subject-alternative-names from a DER-encoded
certificate. -/
def leafMetadata (codec : CertCodec Der Key) (der : Der) : Option (ℤ × List Str) :=
  match codec.parse der with
  | none => none
  | some cert =>
    if codec.timestampInRange cert.notAfter then
      some (cert.notAfter, (cert.generalNames.getD []).filterMap GeneralName.toStr)
    else none

/-! ## The sidecar -/

/-- Encode an observed upstream SAN set: one name per line, trailing newline. -/
def encodeObserved (sans : List Str) : Str := sans.flatMap fun san ↦ san ++ ['\n']

/-- Decode an observed upstream SAN set, tolerating either line ending and ignoring blank lines. -/
def decodeObserved (text : Str) : List Str := ((lines text).map trim).filter fun line ↦ line ≠ []

/-! ## The store -/

/-- Manages the certificate directory. -/
structure CertStore where
  dir : Path
  /-- Re-issue when a persisted certificate is within this margin of expiry, in seconds. -/
  renewMargin : ℤ
deriving DecidableEq, Repr

namespace CertStore

/-- A store under `dir`, given the margin in days. -/
def new (dir : Path) (renewMarginDays : ℕ) : CertStore := ⟨dir, renewMarginDays * 86400⟩

variable (store : CertStore) (scope host : Str)

/-- Directory holding one scope's certificates. -/
def scopeDir : Path := store.dir ++ [scope]

def certPath : Path := store.scopeDir scope ++ [host ++ ".crt".toList]

def keyPath : Path := store.scopeDir scope ++ [host ++ ".key".toList]

/-- Sidecar recording the upstream SANs a mirrored certificate was built from. -/
def observedPath : Path := store.scopeDir scope ++ [host ++ ".observed".toList]

def needsRenewal (now notAfter : ℤ) : Bool := notAfter ≤ now + store.renewMargin

/-- Read and parse the three files. -/
def loadInner (codec : CertCodec Der Key) (fs : Files Path Bytes)
    (certPath keyPath observedPath : Path) : Option (StoredCertificate Der Key) := do
  let certPem ← fs certPath
  let keyPem ← fs keyPath
  let chain ← codec.certs certPem
  -- an empty chain has no leaf to read, and is refused
  let leaf ← chain.head?
  let parsedKey ← codec.privateKey keyPem
  let key ← parsedKey
  let (notAfter, sans) ← leafMetadata codec leaf
  -- a missing sidecar and an unreadable one both mean "never observed"
  let observed := (fs observedPath).bind fun bytes ↦ (fromUtf8 bytes).map decodeObserved
  return { chain, key, notAfter, sans, observed }

/-- Load the persisted certificate for `host` within `scope`, if present and not within the renewal
margin of expiry. -/
def load (codec : CertCodec Der Key) (now : ℤ) (fs : Files Path Bytes) :
    Option (StoredCertificate Der Key) :=
  let certPath := store.certPath scope host
  let keyPath := store.keyPath scope host
  if (fs certPath).isNone ∨ (fs keyPath).isNone then none
  else
    match loadInner codec fs certPath keyPath (store.observedPath scope host) with
    | some stored => if store.needsRenewal now stored.notAfter then none else some stored
    | none => none

/-- Atomically write `bytes` to `path` via a temporary file and a rename. -/
def writeAtomic (path : Path) (bytes : Bytes) : List (FileOp Path Bytes) :=
  replaceOps (stagingPath path) path bytes []

/-- Atomically write a private key, restricting permissions. -/
def writeAtomicPrivate (path : Path) (bytes : Bytes) : List (FileOp Path Bytes) :=
  replaceOps (stagingPath path) path bytes [.neutral]

/-- The last part of `save`: the sidecar is written, or removed rather than left behind. -/
def observedOps : Option (List Str) → List (FileOp Path Bytes)
  | some sans => writeAtomic (store.observedPath scope host) (toUtf8 (encodeObserved sans))
  | none => [.remove (store.observedPath scope host)]

/-- The file operations of `save`, in order: create the scope directory, replace the chain, replace
the key, then the sidecar. -/
def saveOps (chainPem keyPem : Str) (observed : Option (List Str)) : List (FileOp Path Bytes) :=
  [.neutral] ++ writeAtomic (store.certPath scope host) (toUtf8 chainPem) ++
    writeAtomicPrivate (store.keyPath scope host) (toUtf8 keyPem) ++
    store.observedOps scope host observed

/-- What the files hold after a `save` that completes. -/
def save (chainPem keyPem : Str) (observed : Option (List Str)) (fs : Files Path Bytes) :
    Files Path Bytes := applyAll (store.saveOps scope host chainPem keyPem observed) fs

end CertStore

end SniGate
