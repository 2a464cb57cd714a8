import SniGate.Bytes.Basic

/-!
# ClientHello messages on the wire

The sender's side of the parser: what a well-formed ClientHello with a `server_name` extension is,
how it is laid out in bytes, and how a TLS stack cuts its bytes into records. Each length field is
bounded where the value is built, so every value of these types has an encoding that reads back.

Offsets are counted from the start of the handshake message, the unit that survives however the
message is cut into records.

## Design choices

Values carry the bounds on their own lengths, so that encoding is a total function and no lemma has
to assume them. Offsets in a stream that begins with the message under one header are five more
than those in the message.
-/

namespace SniGate

/-! ## Messages -/

/-- One extension. -/
structure Extension where
  /-- The extension type; `0` is `server_name`. -/
  type : ℕ
  /-- The extension body. -/
  data : Bytes
  type_lt : type < 65536
  data_lt : data.length < 65536

namespace Extension

def encode (e : Extension) : Bytes := u16Bytes e.type ++ (u16Bytes e.data.length ++ e.data)

theorem length_encode (e : Extension) : e.encode.length = 4 + e.data.length := by
  rw [encode, List.length_append, List.length_append, length_u16Bytes, length_u16Bytes]
  omega

/-- The ends of the headers of consecutive extensions, the first of which is at `q`. -/
def headerEnds : List Extension → ℕ → List ℕ
  | [], _ => []
  | x :: xs, q => (q + 4) :: headerEnds xs (q + 4 + x.data.length)

end Extension

/-- One entry of a ServerNameList. -/
structure NameEntry where
  /-- The name type; `0` is `host_name`. -/
  nameType : UInt8
  /-- The name. -/
  name : Bytes
  name_lt : name.length < 65536

namespace NameEntry

def encode (e : NameEntry) : Bytes := e.nameType :: (u16Bytes e.name.length ++ e.name)

theorem length_encode (e : NameEntry) : e.encode.length = 3 + e.name.length := by
  rw [encode, List.length_cons, List.length_append, length_u16Bytes]
  omega

end NameEntry

/-- A ServerNameList whose first `host_name` entry is `host`. -/
structure ServerNames where
  /-- The entries before the host name. -/
  before : List NameEntry
  /-- The host name. -/
  host : Str
  /-- The entries after it. -/
  after : List NameEntry
  before_other : ∀ e ∈ before, e.nameType ≠ 0
  host_ne : host ≠ []
  fits : 2 + (before.flatMap NameEntry.encode).length + 3 + (toUtf8 host).length +
    (after.flatMap NameEntry.encode).length < 65536

namespace ServerNames

variable (l : ServerNames)

/-- The entries. -/
def entries : Bytes :=
  l.before.flatMap NameEntry.encode ++
    (0 :: (u16Bytes (toUtf8 l.host).length ++
      (toUtf8 l.host ++ l.after.flatMap NameEntry.encode)))

/-- The list, as the body of the extension. -/
def encode : Bytes := u16Bytes l.entries.length ++ l.entries

theorem length_entries : l.entries.length = (l.before.flatMap NameEntry.encode).length + 3 +
    (toUtf8 l.host).length + (l.after.flatMap NameEntry.encode).length := by
  simp only [entries, List.length_append, List.length_cons, length_u16Bytes]
  omega

theorem length_encode : l.encode.length = 2 + l.entries.length := by
  rw [encode, List.length_append, length_u16Bytes]

theorem length_encode_lt : l.encode.length < 65536 := by
  have := l.fits
  rw [length_encode, length_entries]
  omega

/-- The offset of the host name in the extension body. -/
def hostAt : ℕ := 2 + (l.before.flatMap NameEntry.encode).length + 3

theorem standsAt_fields {b : Bytes} {i : ℕ} (hb : StandsAt b i l.encode) :
    StandsAt b i (u16Bytes l.entries.length) ∧
    StandsAt b (i + 2) (l.before.flatMap NameEntry.encode) ∧
    StandsAt b (i + 2 + (l.before.flatMap NameEntry.encode).length) [0] ∧
    StandsAt b (i + 2 + (l.before.flatMap NameEntry.encode).length + 1)
      (u16Bytes (toUtf8 l.host).length) ∧
    StandsAt b (i + 2 + (l.before.flatMap NameEntry.encode).length + 3) (toUtf8 l.host) := by
  rw [encode, standsAt_append, length_u16Bytes] at hb
  obtain ⟨hlen, hentries⟩ := hb
  rw [entries, standsAt_append, standsAt_cons, standsAt_append, standsAt_append,
    length_u16Bytes] at hentries
  obtain ⟨hbefore, htype, hhost, hname, -⟩ := hentries
  exact ⟨hlen, hbefore, htype, hhost, hname⟩

end ServerNames

/-- A ClientHello with a `server_name` extension. -/
structure ClientHello where
  version : Bytes
  random : Bytes
  sessionId : Bytes
  suites : Bytes
  compression : Bytes
  /-- The extensions before `server_name`. -/
  before : List Extension
  /-- The body of the `server_name` extension. -/
  names : ServerNames
  /-- The extensions after it. -/
  after : List Extension
  version_len : version.length = 2
  random_len : random.length = 32
  sessionId_lt : sessionId.length < 256
  suites_lt : suites.length < 65536
  compression_lt : compression.length < 256
  before_other : ∀ e ∈ before, e.type ≠ 0
  fits : (before.flatMap Extension.encode).length + 4 + names.encode.length +
    (after.flatMap Extension.encode).length < 65536

namespace ClientHello

variable (h : ClientHello)

/-- The `server_name` extension. -/
def serverName : Extension := ⟨0, h.names.encode, by omega, h.names.length_encode_lt⟩

/-- The extension block. -/
def extensions : Bytes :=
  h.before.flatMap Extension.encode ++
    (h.serverName.encode ++ h.after.flatMap Extension.encode)

/-- The message body. -/
def body : Bytes :=
  h.version ++ (h.random ++ ([UInt8.ofNat h.sessionId.length] ++ (h.sessionId ++
    (u16Bytes h.suites.length ++ (h.suites ++ ([UInt8.ofNat h.compression.length] ++
      (h.compression ++ (u16Bytes h.extensions.length ++ h.extensions))))))))

/-- The handshake message. -/
def message : Bytes := [0x01] ++ (u24Bytes h.body.length ++ h.body)

/-! ## Offsets in the message -/

/-- The offset of the first extension. -/
def firstExtAt : ℕ := 4 + 34 + 1 + h.sessionId.length + 2 + h.suites.length + 1 +
  h.compression.length + 2

/-- The offset of the `server_name` extension. -/
def nameExtAt : ℕ := h.firstExtAt + (h.before.flatMap Extension.encode).length

/-- The end of the `server_name` extension. -/
def nameExtEnd : ℕ := h.nameExtAt + 4 + h.names.encode.length

/-- The offset of the host name. -/
def nameStart : ℕ := h.nameExtAt + 4 + h.names.hostAt

/-- The end of the host name. -/
def nameEnd : ℕ := h.nameStart + (toUtf8 h.names.host).length

/-- The ends of the fields that lead a reader to the `server_name` extension: the length of every
vector before it, and the headers of the extensions up to its own. -/
def fieldEnds : List ℕ :=
  [39, 39 + h.sessionId.length + 2, 39 + h.sessionId.length + 2 + h.suites.length + 1,
      h.firstExtAt] ++
    (Extension.headerEnds h.before h.firstExtAt ++ [h.nameExtAt + 4])

/-- A reader to whom `l` bytes of the stream are known meets these fields, as far as it gets, among
the first `n` bytes of the message. -/
def FieldsWithin (n l : ℕ) : Prop := ∀ e ∈ h.fieldEnds, 5 + e ≤ l → e ≤ n

instance (n l : ℕ) : Decidable (h.FieldsWithin n l) :=
  inferInstanceAs (Decidable (∀ e ∈ h.fieldEnds, 5 + e ≤ l → e ≤ n))

theorem length_extensions : h.extensions.length = (h.before.flatMap Extension.encode).length + 4 +
    h.names.encode.length + (h.after.flatMap Extension.encode).length := by
  simp only [extensions, List.length_append, Extension.length_encode, serverName]
  omega

theorem length_extensions_lt : h.extensions.length < 65536 := by
  rw [length_extensions]
  exact h.fits

theorem length_body : h.body.length + 4 = h.firstExtAt + h.extensions.length := by
  simp only [body, List.length_append, List.length_singleton, length_u16Bytes, h.version_len,
    h.random_len, firstExtAt]
  omega

theorem length_body_lt : h.body.length < 16777216 := by
  have hb := h.length_body
  have he := h.length_extensions_lt
  have hs := h.sessionId_lt
  have hc := h.suites_lt
  have hm := h.compression_lt
  rw [firstExtAt] at hb
  omega

theorem nameEnd_le_nameExtEnd : h.nameEnd ≤ h.nameExtEnd := by
  rw [nameEnd, nameStart, ServerNames.hostAt, nameExtEnd, ServerNames.length_encode,
    ServerNames.length_entries]
  omega

theorem nameExtEnd_le : h.nameExtEnd ≤ h.firstExtAt + h.extensions.length := by
  rw [nameExtEnd, nameExtAt, length_extensions]
  omega

end ClientHello

/-! ## Records -/

/-- A handshake record: a fragment of the message stream under a header of its own. -/
structure Record where
  version : Bytes
  fragment : Bytes
  version_len : version.length = 2
  fragment_lt : fragment.length < 65536

/-- A record header announcing `n` bytes. -/
def recordHeader (version : Bytes) (n : ℕ) : Bytes := [0x16] ++ (version ++ u16Bytes n)

theorem length_recordHeader {version : Bytes} (hv : version.length = 2) (n : ℕ) :
    (recordHeader version n).length = 5 := by
  rw [recordHeader, List.length_append, List.length_append, hv]
  rfl

def Record.encode (r : Record) : Bytes :=
  recordHeader r.version r.fragment.length ++ r.fragment

/-- What a TLS stack reassembles from consecutive handshake records. -/
def reassemble (rs : List Record) : Bytes := rs.flatMap Record.fragment

/-- The bytes of consecutive records on the wire. -/
def wire (rs : List Record) : Bytes := rs.flatMap Record.encode

/-! ## The message under one header

What the parser would see if the first record's header stood before the whole message.
-/

/-- The first record's header, followed by the uncut message. -/
def ClientHello.uncut (h : ClientHello) (r : Record) : Bytes :=
  recordHeader r.version r.fragment.length ++ h.message

namespace ClientHello

variable (h : ClientHello) (r : Record)

/-- A buffer that begins with the uncut message has each of its fields at the offset that the
fields before it add up to. -/
theorem standsAt_fields {b : Bytes} (hb : StandsAt b 0 (h.uncut r)) :
    StandsAt b 0 [0x16] ∧ StandsAt b 3 (u16Bytes r.fragment.length) ∧ StandsAt b 5 [0x01] ∧
    StandsAt b 6 (u24Bytes h.body.length) ∧
    StandsAt b 43 [UInt8.ofNat h.sessionId.length] ∧
    StandsAt b (44 + h.sessionId.length) (u16Bytes h.suites.length) ∧
    StandsAt b (44 + h.sessionId.length + 2 + h.suites.length)
      [UInt8.ofNat h.compression.length] ∧
    StandsAt b (44 + h.sessionId.length + 2 + h.suites.length + 1 + h.compression.length)
      (u16Bytes h.extensions.length) ∧
    StandsAt b (5 + h.firstExtAt) h.extensions := by
  rw [uncut, recordHeader, message] at hb
  simp only [standsAt_append, List.length_append, List.length_singleton, length_u16Bytes,
    length_u24Bytes, r.version_len, Nat.zero_add, Nat.reduceAdd] at hb
  obtain ⟨⟨h0, -, h3⟩, h5, h6, hbody⟩ := hb
  rw [body] at hbody
  simp only [standsAt_append, List.length_singleton, length_u16Bytes, h.version_len,
    h.random_len, Nat.reduceAdd] at hbody
  obtain ⟨-, -, h43, -, hs, -, hc, -, he, hx⟩ := hbody
  refine ⟨h0, h3, h5, h6, h43, hs, hc, he, ?_⟩
  have hat : 44 + h.sessionId.length + 2 + h.suites.length + 1 + h.compression.length + 2 =
      5 + h.firstExtAt := by
    rw [firstExtAt]
    omega
  rw [← hat]
  exact hx

end ClientHello

end SniGate
