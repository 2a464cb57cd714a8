import SniGate.Incremental.Window
import SniGate.Peek.Http
import SniGate.Peek.Tls

/-!
# Classifying a connection without consuming it

The routing key is read from bytes that stay in the socket buffer: each peek yields a front of the
stream, and the loop asks again for one byte more until a parser answers, the window is full, or
the peer goes quiet. That is a `WindowReader` over the stream, with the two parsers as its
decision.

## Design choices

How the network cuts the stream is a list of looks, each of which has seen a number of bytes or
found the peer quiet; so independence of the cuts is a statement about that list. What the parsers
were given on the way is `parsedFronts`.
-/

namespace SniGate

/-- Largest peek window. -/
def maxPeek : ℕ := 8 * 1024

/-- The classification result for an inbound connection. -/
inductive Inbound
  | tls (sni : Option Str)
  | http (host : Option Str)
  | unknown
deriving DecidableEq, Repr

/-- The routing key (SNI for TLS, Host for HTTP), if present. -/
def Inbound.key : Inbound → Option Str
  | .tls sni => sni
  | .http host => host
  | .unknown => none

/-- Whether the inbound stream is TLS (and therefore terminable for ECH). -/
def Inbound.isTls : Inbound → Bool
  | .tls _ => true
  | _ => false

/-- TLS handshake record content type. -/
def isTlsStart (b : Bytes) : Bool := byteAt b 0 = 0x16

/-- The answer of the parser in charge, or `none` to peek more. -/
def judgeInbound (b : Bytes) : Option Inbound :=
  if isTlsStart b then
    match parseTlsSni b with
    | .sni name => some (.tls (some name))
    | .noSni => some (.tls none)
    | .needMore => none
    | .notClientHello => some (.tls none)
  else
    match parseHttpHost b with
    | .host h => some (.http (some h))
    | .noHost => some (.http none)
    | .needMore => none
    | .notHttp => some .unknown

/-- No progress; decide with what we have. -/
def stalledInbound (b : Bytes) : Inbound := if isTlsStart b then .tls none else .http none

/-- The classifier as a reader of the peeked window. -/
def classifier : WindowReader UInt8 Inbound where
  judge := judgeInbound
  stalled := stalledInbound
  nothing := .unknown
  cap := maxPeek

/-- Peek at the connection and classify it, given what each peek finds buffered. -/
def classify (stream : Bytes) (peeks : List Look) : WindowState Inbound :=
  classifier.run stream peeks

/-- How much of the stream the parsers were given, each time they were run. -/
def parsedFronts (stream : Bytes) (peeks : List Look) : List ℕ := classifier.windows stream peeks

/-! ## TLS streams -/

/-- The name a TLS answer carries. -/
def TlsParse.name : TlsParse → Option Str
  | .sni name => some name
  | _ => none

theorem judgeInbound_tls {b : Bytes} (h : isTlsStart b) :
    judgeInbound b = if parseTlsSni b = .needMore then none
      else some (.tls (parseTlsSni b).name) := by
  rw [judgeInbound, if_pos h]
  cases parseTlsSni b <;> rfl

theorem isTlsStart_of_isPrefix {p s : Bytes} (hp : p ≠ []) (h : p <+: s) :
    isTlsStart p = isTlsStart s := by
  have hlen : 0 < p.length := List.length_pos_of_ne_nil hp
  rw [isTlsStart, isTlsStart, AgreeBelow.of_isPrefix h 1 0 (by omega) hlen]

end SniGate
