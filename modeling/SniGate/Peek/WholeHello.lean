import SniGate.Peek.Records

/-!
# A ClientHello in one record

Where a ClientHello stands in one handshake record that is completely buffered, the parser inverts
the sender: its positions are those of the fields the sender wrote, its clamps do not bind before
the end of the message, and so neither the rest of the record nor the bytes behind it have a say.
The answer is the host name of the first `server_name` extension, and that there is none where no
such extension was sent (`parseTlsSni_of_wholeRecord`).
-/

namespace SniGate

/-! ## The message -/

/-- A ClientHello with any extensions, or without an extension block. -/
structure HelloMessage where
  version : Bytes
  random : Bytes
  sessionId : Bytes
  suites : Bytes
  compression : Bytes
  extensions : Option (List Extension)
  version_len : version.length = 2
  random_len : random.length = 32
  sessionId_lt : sessionId.length < 256
  suites_lt : suites.length < 65536
  compression_lt : compression.length < 256
  extensions_lt : ∀ exts ∈ extensions, (exts.flatMap Extension.encode).length < 65536

namespace HelloMessage

variable (h : HelloMessage)

/-- The extension block, with its length. -/
def block : Bytes :=
  match h.extensions with
  | none => []
  | some exts => u16Bytes (exts.flatMap Extension.encode).length ++ exts.flatMap Extension.encode

/-- The message body. -/
def body : Bytes :=
  h.version ++ (h.random ++ ([UInt8.ofNat h.sessionId.length] ++ (h.sessionId ++
    (u16Bytes h.suites.length ++ (h.suites ++ ([UInt8.ofNat h.compression.length] ++
      (h.compression ++ h.block)))))))

/-- The handshake message. -/
def encode : Bytes := [0x01] ++ (u24Bytes h.body.length ++ h.body)

/-- The offset of the extension block, counted as the parser counts. -/
def blockAt : ℕ := 44 + h.sessionId.length + 2 + h.suites.length + 1 + h.compression.length

theorem length_encode : h.encode.length = 4 + h.body.length := by
  rw [encode, List.length_append, List.length_append, length_u24Bytes, List.length_singleton]
  omega

theorem length_body : 9 + h.body.length = h.blockAt + h.block.length := by
  simp only [body, List.length_append, List.length_singleton, length_u16Bytes, h.version_len,
    h.random_len, blockAt]
  omega

end HelloMessage

/-- A handshake record that begins with a ClientHello. -/
structure WholeRecord where
  version : Bytes
  hello : HelloMessage
  /-- What else is in the record. -/
  more : Bytes
  version_len : version.length = 2
  fits : hello.encode.length + more.length < 65536

def WholeRecord.encode (r : WholeRecord) : Bytes :=
  recordHeader r.version (r.hello.encode.length + r.more.length) ++ (r.hello.encode ++ r.more)

theorem WholeRecord.length_encode (r : WholeRecord) :
    r.encode.length = 5 + (r.hello.encode.length + r.more.length) := by
  rw [encode, List.length_append, length_recordHeader r.version_len, List.length_append]

private theorem serverNameType_lt : 0 < 65536 := by omega

/-- The `server_name` extension with these names. -/
def ServerNames.extension (l : ServerNames) : Extension :=
  ⟨0, l.encode, serverNameType_lt, l.length_encode_lt⟩

/-! ## Positions -/

section Positions

variable {b : Bytes} {r : WholeRecord}

theorem WholeRecord.standsAt_fields (hb : StandsAt b 0 r.encode) :
    StandsAt b 0 [0x16] ∧ StandsAt b 3 (u16Bytes (r.hello.encode.length + r.more.length)) ∧
    StandsAt b 5 [0x01] ∧ StandsAt b 6 (u24Bytes r.hello.body.length) ∧
    StandsAt b 43 [UInt8.ofNat r.hello.sessionId.length] ∧
    StandsAt b (44 + r.hello.sessionId.length) (u16Bytes r.hello.suites.length) ∧
    StandsAt b (44 + r.hello.sessionId.length + 2 + r.hello.suites.length)
      [UInt8.ofNat r.hello.compression.length] ∧
    StandsAt b r.hello.blockAt r.hello.block := by
  rw [encode, recordHeader] at hb
  generalize r.hello.encode.length + r.more.length = n at hb ⊢
  rw [HelloMessage.encode] at hb
  simp only [standsAt_append, List.length_append, List.length_singleton, length_u16Bytes,
    length_u24Bytes, r.version_len, Nat.zero_add, Nat.reduceAdd] at hb
  obtain ⟨⟨h0, -, h3⟩, ⟨h5, h6, hbody⟩, -⟩ := hb
  rw [HelloMessage.body] at hbody
  simp only [standsAt_append, List.length_singleton, length_u16Bytes, r.hello.version_len,
    r.hello.random_len, Nat.reduceAdd] at hbody
  obtain ⟨-, -, h43, -, hs, -, hc, -, hx⟩ := hbody
  exact ⟨h0, h3, h5, h6, h43, hs, hc, hx⟩

theorem WholeRecord.positions (hb : StandsAt b 0 r.encode) :
    helloEnd b = r.hello.blockAt + r.hello.block.length ∧ extensionsAt b = r.hello.blockAt ∧
    ReachesExtensions b := by
  obtain ⟨h0, h3, h5, h6, h43, hs, hc, -⟩ := standsAt_fields hb
  have hlen := hb.le (List.ne_nil_of_length_pos (by rw [r.length_encode]; omega))
  have hmsg := r.hello.length_encode
  have hbody := r.hello.length_body
  have hblock : r.hello.blockAt = 44 + r.hello.sessionId.length + 2 + r.hello.suites.length + 1 +
    r.hello.compression.length := rfl
  have hfits := r.fits
  rw [r.length_encode] at hlen
  have hsid : byteAt b 43 = r.hello.sessionId.length := by
    rw [h43.byteAt, UInt8.toNat_ofNat']
    exact Nat.mod_eq_of_lt r.hello.sessionId_lt
  have hsuites : suitesAt b = 44 + r.hello.sessionId.length := by rw [suitesAt, hsid]
  have hcompression : compressionAt b =
      44 + r.hello.sessionId.length + 2 + r.hello.suites.length := by
    rw [compressionAt, hsuites, hs.u16At r.hello.suites_lt]
  have hext : extensionsAt b = r.hello.blockAt := by
    rw [extensionsAt, hcompression, hc.byteAt, UInt8.toNat_ofNat',
      Nat.mod_eq_of_lt r.hello.compression_lt, hblock]
  have hend : helloEnd b = r.hello.blockAt + r.hello.block.length := by
    rw [helloEnd, h6.u24At (by omega), hbody]
  refine ⟨hend, hext, ?_⟩
  have hrec : u16At b 3 = r.hello.encode.length + r.more.length := h3.u16At r.fits
  exact ⟨by rw [h0.byteAt]; rfl, by omega, by rw [h5.byteAt]; rfl, le_min (by omega) (by omega),
    by omega, le_min (by omega) (by omega), le_min (by omega) (by omega)⟩

end Positions

/-! ## Complete extensions -/

section Walk

variable {b : Bytes} {e q : ℕ}

theorem walkExtensions_of_others {exts : List Extension} (hother : ∀ x ∈ exts, x.type ≠ 0)
    (hb : StandsAt b q (exts.flatMap Extension.encode))
    (he : q + (exts.flatMap Extension.encode).length ≤ e) (hl : e ≤ b.length) :
    walkExtensions b e q = walkExtensions b e (q + (exts.flatMap Extension.encode).length) := by
  induction exts generalizing q with
  | nil => rfl
  | cons x xs ih =>
    rw [List.flatMap_cons, List.length_append, Extension.length_encode] at he ⊢
    rw [List.flatMap_cons, standsAt_append, Extension.length_encode, Extension.encode,
      standsAt_append, standsAt_append] at hb
    obtain ⟨⟨htype, hlen, -⟩, hrest⟩ := hb
    rw [length_u16Bytes] at hlen
    have ht : u16At b q ≠ 0 := by
      rw [htype.u16At x.type_lt]
      exact hother x List.mem_cons_self
    have hn : u16At b (q + 2) = x.data.length := hlen.u16At x.data_lt
    rw [← Nat.add_assoc] at hrest
    rw [walkExtensions_of_other (by omega) (by omega) ht, hn,
      ih (fun y hy ↦ hother y (List.mem_cons_of_mem _ hy)) hrest (by omega)]
    congr 1
    omega

/-- At a complete `server_name` extension the walk ends. -/
theorem walkExtensions_of_names {l : ServerNames} (hb : StandsAt b q l.extension.encode)
    (he : q + l.extension.encode.length ≤ e) (hl : e ≤ b.length) :
    walkExtensions b e q = .sni l.host := by
  rw [Extension.length_encode] at he
  rw [Extension.encode, standsAt_append, standsAt_append, length_u16Bytes, length_u16Bytes] at hb
  obtain ⟨htype, hlen, hdata⟩ := hb
  have ht : u16At b q = 0 := htype.u16At l.extension.type_lt
  have hn : u16At b (q + 2) = l.encode.length := hlen.u16At l.extension.data_lt
  have hslice : sliceAt b (q + 4) l.encode.length = l.encode := hdata.sliceAt
  have hhost : sliceAt l.encode l.hostAt (toUtf8 l.host).length = toUtf8 l.host := by
    obtain ⟨-, -, -, -, hname⟩ := l.standsAt_fields (standsAt_self _)
    rw [Nat.zero_add] at hname
    exact hname.sliceAt
  have hdatalen : l.extension.data.length = l.encode.length := rfl
  rw [walkExtensions_of_serverName (by omega) (by omega) ht, hn, hslice,
    parseSniExtension_eq_sni_iff (AgreeBelow.of_isPrefix (List.prefix_refl _) _) rfl, hhost,
    fromUtf8_toUtf8]
  exact ⟨rfl, l.host_ne⟩

end Walk

/-! ## The answer -/

section Answer

variable {b : Bytes} {r : WholeRecord} {exts : List Extension}

theorem WholeRecord.answer_of_none (hb : StandsAt b 0 r.encode) (hext : r.hello.extensions = none) :
    parseTlsSni b = .noSni := by
  obtain ⟨hend, hat, hre⟩ := positions hb
  have hlen := hb.le (List.ne_nil_of_length_pos (by rw [r.length_encode]; omega))
  have hmsg := r.hello.length_encode
  have hbody := r.hello.length_body
  rw [r.length_encode] at hlen
  have hblock : r.hello.block = [] := by rw [HelloMessage.block, hext]
  rw [hblock, List.length_nil, Nat.add_zero] at hend hbody
  have hsEnd : hsEnd b = r.hello.blockAt := by
    rw [SniGate.hsEnd, hend]
    omega
  rw [parseTlsSni_of_reaches hre, extensionsAnswer, if_pos (by omega), if_pos (by omega)]

theorem WholeRecord.answer_of_block (hb : StandsAt b 0 r.encode)
    (hext : r.hello.extensions = some exts) :
    parseTlsSni b = walkExtensions b
        (r.hello.blockAt + 2 + (exts.flatMap Extension.encode).length) (r.hello.blockAt + 2) ∧
      StandsAt b (r.hello.blockAt + 2) (exts.flatMap Extension.encode) ∧
      r.hello.blockAt + 2 + (exts.flatMap Extension.encode).length ≤ b.length := by
  obtain ⟨hend, hat, hre⟩ := positions hb
  obtain ⟨-, -, -, -, -, -, -, hblock⟩ := standsAt_fields hb
  have hlen := hb.le (List.ne_nil_of_length_pos (by rw [r.length_encode]; omega))
  have hmsg := r.hello.length_encode
  have hbody := r.hello.length_body
  rw [r.length_encode] at hlen
  have hlt := r.hello.extensions_lt exts hext
  have hwritten : r.hello.block = u16Bytes (exts.flatMap Extension.encode).length ++
      exts.flatMap Extension.encode := by rw [HelloMessage.block, hext]
  rw [hwritten, standsAt_append, length_u16Bytes] at hblock
  rw [hwritten, List.length_append, length_u16Bytes] at hend hbody
  have hsEnd : hsEnd b = r.hello.blockAt + (2 + (exts.flatMap Extension.encode).length) := by
    rw [SniGate.hsEnd, hend]
    omega
  have hextEnd : min (extensionsEnd b) b.length =
      r.hello.blockAt + 2 + (exts.flatMap Extension.encode).length := by
    rw [extensionsEnd, hend, hat, hblock.1.u16At hlt]
    omega
  refine ⟨?_, hblock.2, by omega⟩
  rw [parseTlsSni_of_reaches hre, extensionsAnswer, if_neg (by omega), hextEnd, hat]

end Answer

/-- **A complete ClientHello.** Whatever else is in the record and behind it, the parser answers
with the host name of the first `server_name` extension, and that there is none where no such
extension was sent. -/
theorem parseTlsSni_of_wholeRecord (r : WholeRecord) (trailing : Bytes) :
    (∀ before names after,
      r.hello.extensions = some (before ++ ServerNames.extension names :: after) →
      (∀ e ∈ before, e.type ≠ 0) → parseTlsSni (r.encode ++ trailing) = .sni names.host) ∧
    ((∀ exts ∈ r.hello.extensions, ∀ e ∈ exts, e.type ≠ 0) →
      parseTlsSni (r.encode ++ trailing) = .noSni) := by
  have hb : StandsAt (r.encode ++ trailing) 0 r.encode := List.prefix_append _ _
  generalize r.encode ++ trailing = b at hb
  constructor
  · intro before names after hext hother
    obtain ⟨hanswer, hblock, hlen⟩ := WholeRecord.answer_of_block hb hext
    rw [List.flatMap_append, List.flatMap_cons, List.length_append, List.length_append]
      at hanswer hlen
    rw [List.flatMap_append, List.flatMap_cons, standsAt_append, standsAt_append] at hblock
    rw [hanswer, walkExtensions_of_others hother hblock.1 (by omega) hlen,
      walkExtensions_of_names hblock.2.1 (by omega) hlen]
  · intro hother
    cases hext : r.hello.extensions with
    | none => exact WholeRecord.answer_of_none hb hext
    | some exts =>
      obtain ⟨hanswer, hblock, hlen⟩ := WholeRecord.answer_of_block hb hext
      rw [hanswer, walkExtensions_of_others (hother exts hext) hblock le_rfl hlen,
        walkExtensions_of_end (by omega), if_neg (lt_irrefl _)]

private theorem length_recordVersion : ([3, 1] : Bytes).length = 2 := rfl

/-- A record with an extension of another type before the server name `a.io`. -/
def twoExtensions : WholeRecord where
  version := [3, 1]
  hello :=
    { version := plainHello.version
      random := plainHello.random
      sessionId := [7]
      suites := plainHello.suites
      compression := plainHello.compression
      extensions := some [⟨10, [0, 2, 0, 29], by decide, by decide⟩, plainHello.names.extension]
      version_len := plainHello.version_len
      random_len := plainHello.random_len
      sessionId_lt := by decide
      suites_lt := plainHello.suites_lt
      compression_lt := plainHello.compression_lt
      extensions_lt := by
        intro exts hexts
        rw [← Option.some.inj hexts]
        decide +kernel }
  more := []
  version_len := length_recordVersion
  fits := by decide +kernel

/-- The bytes of another record behind it do not matter. -/
theorem parseTlsSni_twoExtensions :
    parseTlsSni (twoExtensions.encode ++ [0x14, 3, 3, 0, 1, 1]) = .sni "a.io".toList :=
  (parseTlsSni_of_wholeRecord twoExtensions _).1 [⟨10, [0, 2, 0, 29], by decide, by decide⟩]
    plainHello.names [] rfl (by simp)

end SniGate
