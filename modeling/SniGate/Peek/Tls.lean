import SniGate.Bytes.Basic

/-!
# Reading the server name from a ClientHello

The parser walks a buffer that may hold only the front of what the peer sent. Four lengths nest in
it (record, handshake message, extension block, extension), and each is clamped to what is
buffered, so the buffer's own length takes part in every decision.

## Positions

The parser's offset variable is a function of the bytes already read: once the guards before it
have passed, the session id ends at `suitesAt`, the cipher suites at `compressionAt`, the
compression methods at `extensionsAt`. `parseTlsSni_of_reaches` states the parser in these terms,
and it is the form every later argument uses: a buffer either does not hold the message up to its
extension block, and then only the two type bytes matter, or the answer is that of the extension
walk from a position that does not depend on how much more is buffered.
-/

namespace SniGate

/-- What the ClientHello parser concludes from a buffer. -/
inductive TlsParse
  | sni (name : Str)
  | noSni
  | needMore
  | notClientHello
deriving DecidableEq, Repr

/-! ## The parser -/

/-- The entries of a ServerNameList, from offset `p`. The list is clamped to the extension body, a
name to the whole body. -/
def walkServerNames (b : Bytes) (listEnd p : ℕ) : TlsParse :=
  if p + 3 ≤ listEnd then
    let nameType := byteAt b p
    let nameLen := u16At b (p + 1)
    if b.length < p + 3 + nameLen then .needMore
    else if nameType = 0x00 then
      match fromUtf8 (sliceAt b (p + 3) nameLen) with
      | some s => if s ≠ [] then .sni s else .noSni
      | none => .noSni
    else walkServerNames b listEnd (p + 3 + nameLen)
  else .noSni
termination_by listEnd - p

/-- Parse a server_name extension body: ServerNameList. -/
def parseSniExtension (b : Bytes) : TlsParse :=
  if b.length < 2 then .needMore
  else
    let listLen := u16At b 0
    walkServerNames b (min (2 + listLen) b.length) 2

/-- The extensions, from offset `p`. -/
def walkExtensions (b : Bytes) (extEnd p : ℕ) : TlsParse :=
  if p + 4 ≤ extEnd then
    let extType := u16At b p
    let extLen := u16At b (p + 2)
    if b.length < p + 4 + extLen then .needMore
    else if extType = 0x0000 then parseSniExtension (sliceAt b (p + 4) extLen)
    else walkExtensions b extEnd (p + 4 + extLen)
  else if extEnd < p then .needMore
  else .noSni
termination_by extEnd - p

/-- Parse the SNI (host_name) out of a TLS ClientHello. -/
def parseTlsSni (b : Bytes) : TlsParse :=
  if b.length < 5 then .needMore
  else if byteAt b 0 ≠ 0x16 then .notClientHello
  else
    let recLen := u16At b 3
    let recEnd := min (5 + recLen) b.length
    if recEnd < 9 then .needMore
    else if byteAt b 5 ≠ 0x01 then .notClientHello
    else
      -- from here on the bound is the handshake length alone; the record's is not looked at again
      let hsLen := u24At b 6
      let hsEnd := min (9 + hsLen) b.length
      let p := 43
      if hsEnd < p then .needMore
      else if b.length ≤ p then .needMore
      else
        let sidLen := byteAt b p
        let p := p + (1 + sidLen)
        if hsEnd < p + 2 then .needMore
        else
          let csLen := u16At b p
          let p := p + (2 + csLen)
          if hsEnd < p + 1 then .needMore
          else
            let compLen := byteAt b p
            let p := p + (1 + compLen)
            if hsEnd < p + 2 then
              if p ≤ hsEnd then .noSni else .needMore
            else
              let extTotal := u16At b p
              let p := p + 2
              let extEnd := min (p + extTotal) hsEnd
              walkExtensions b extEnd p

/-! ## Positions -/

/-- The end of the handshake message, as its own header declares it. -/
def helloEnd (b : Bytes) : ℕ := 9 + u24At b 6

/-- The end of the handshake message, as far as it is buffered. -/
def hsEnd (b : Bytes) : ℕ := min (helloEnd b) b.length

/-- Where the cipher suites begin. -/
def suitesAt (b : Bytes) : ℕ := 44 + byteAt b 43

/-- Where the compression methods begin. -/
def compressionAt (b : Bytes) : ℕ := suitesAt b + 2 + u16At b (suitesAt b)

/-- Where the extension block begins. -/
def extensionsAt (b : Bytes) : ℕ := compressionAt b + 1 + byteAt b (compressionAt b)

/-- The end of the extension block, as its own header and the handshake header declare it. -/
def extensionsEnd (b : Bytes) : ℕ :=
  min (extensionsAt b + 2 + u16At b (extensionsAt b)) (helloEnd b)

/-- The buffer holds a handshake record with a ClientHello in it, up to the length byte of its
compression methods. -/
structure ReachesExtensions (b : Bytes) : Prop where
  isRecord : byteAt b 0 = 0x16
  header : 9 ≤ min (5 + u16At b 3) b.length
  isHello : byteAt b 5 = 0x01
  session : 43 ≤ hsEnd b
  sessionLen : 43 < b.length
  suites : suitesAt b + 2 ≤ hsEnd b
  compression : compressionAt b + 1 ≤ hsEnd b

/-- The record's type byte, or the handshake message's, is another one. -/
def StartsOtherwise (b : Bytes) : Prop :=
  5 ≤ b.length ∧ (byteAt b 0 ≠ 0x16 ∨
    byteAt b 0 = 0x16 ∧ 9 ≤ min (5 + u16At b 3) b.length ∧ byteAt b 5 ≠ 0x01)

/-- What the parser concludes once it has reached the extension block. -/
def extensionsAnswer (b : Bytes) : TlsParse :=
  if hsEnd b < extensionsAt b + 2 then
    if extensionsAt b ≤ hsEnd b then .noSni else .needMore
  else
    walkExtensions b (min (extensionsEnd b) b.length) (extensionsAt b + 2)

theorem parseTlsSni_of_reaches {b : Bytes} (h : ReachesExtensions b) :
    parseTlsSni b = extensionsAnswer b := by
  have hs : 43 + (1 + byteAt b 43) = suitesAt b := by rw [suitesAt]; omega
  have hc : suitesAt b + (2 + u16At b (suitesAt b)) = compressionAt b := by
    rw [compressionAt]; omega
  have he : compressionAt b + (1 + byteAt b (compressionAt b)) = extensionsAt b := by
    rw [extensionsAt]; omega
  have hend : min (9 + u24At b 6) b.length = hsEnd b := rfl
  have hext : min (extensionsAt b + 2 + u16At b (extensionsAt b)) (hsEnd b) =
      min (extensionsEnd b) b.length := by
    rw [extensionsEnd, hsEnd, min_assoc]
  have hlen := h.header
  simp only [parseTlsSni, hs, hc, he, hend, hext]
  rw [if_neg (by omega), if_neg (not_not.mpr h.isRecord), if_neg (by omega),
    if_neg (not_not.mpr h.isHello), if_neg (not_lt.mpr h.session),
    if_neg (not_le.mpr h.sessionLen), if_neg (not_lt.mpr h.suites),
    if_neg (not_lt.mpr h.compression)]
  rfl

theorem parseTlsSni_of_startsOtherwise {b : Bytes} (h : StartsOtherwise b) :
    parseTlsSni b = .notClientHello := by
  obtain ⟨hlen, h0 | ⟨h0, h9, h5⟩⟩ := h
  · simp only [parseTlsSni]
    rw [if_neg (by omega), if_pos h0]
  · simp only [parseTlsSni]
    rw [if_neg (by omega), if_neg (not_not.mpr h0), if_neg (by omega), if_pos h5]

/-- Short of the extension block only the two type bytes can decide anything. -/
theorem parseTlsSni_of_not_reaches {b : Bytes} (h : ¬ ReachesExtensions b)
    (ho : ¬ StartsOtherwise b) : parseTlsSni b = .needMore := by
  have hs : 43 + (1 + byteAt b 43) = suitesAt b := by rw [suitesAt]; omega
  have hc : suitesAt b + (2 + u16At b (suitesAt b)) = compressionAt b := by
    rw [compressionAt]; omega
  have hend : min (9 + u24At b 6) b.length = hsEnd b := rfl
  by_contra hne
  simp only [parseTlsSni, hs, hc, hend] at hne
  -- each guard in turn either answers `needMore`, against `hne`, or yields a field
  by_cases h5 : b.length < 5
  · exact hne (if_pos h5)
  rw [if_neg h5] at hne
  by_cases h0 : byteAt b 0 = 0x16
  swap
  · exact ho ⟨by omega, .inl h0⟩
  rw [if_neg (not_not.mpr h0)] at hne
  by_cases h9 : min (5 + u16At b 3) b.length < 9
  · exact hne (if_pos h9)
  rw [if_neg h9] at hne
  by_cases h1 : byteAt b 5 = 0x01
  swap
  · exact ho ⟨by omega, .inr ⟨h0, by omega, h1⟩⟩
  rw [if_neg (not_not.mpr h1)] at hne
  by_cases h43 : hsEnd b < 43
  · exact hne (if_pos h43)
  rw [if_neg h43] at hne
  by_cases hl : b.length ≤ 43
  · exact hne (if_pos hl)
  rw [if_neg hl] at hne
  by_cases hcs : hsEnd b < suitesAt b + 2
  · exact hne (if_pos hcs)
  rw [if_neg hcs] at hne
  by_cases hcm : hsEnd b < compressionAt b + 1
  · exact hne (if_pos hcm)
  exact h ⟨h0, by omega, h1, by omega, by omega, by omega, by omega⟩

/-! ## Positions are read from what precedes them

So two buffers that agree up to a position compute the same one.
-/

section Agree

variable {b c : Bytes} {k : ℕ}

theorem ReachesExtensions.nine_le (h : ReachesExtensions b) : 9 ≤ b.length := by
  have := h.header
  omega

theorem ReachesExtensions.suites_le (h : ReachesExtensions b) : suitesAt b + 2 ≤ b.length :=
  le_trans h.suites (min_le_right _ _)

theorem ReachesExtensions.compression_le (h : ReachesExtensions b) :
    compressionAt b + 1 ≤ b.length := le_trans h.compression (min_le_right _ _)

theorem helloEnd_of_agree (ha : AgreeBelow b c k) (hk : 9 ≤ k) (h : ReachesExtensions b) :
    helloEnd b = helloEnd c := by
  rw [helloEnd, helloEnd, ha.u24At hk h.nine_le]

theorem suitesAt_of_agree (ha : AgreeBelow b c k) (hk : 44 ≤ k) (h : ReachesExtensions b) :
    suitesAt b = suitesAt c := by
  rw [suitesAt, suitesAt, ha 43 (by omega) h.sessionLen]

theorem compressionAt_of_agree (ha : AgreeBelow b c k) (hk : suitesAt b + 2 ≤ k)
    (h : ReachesExtensions b) : compressionAt b = compressionAt c := by
  have hs : 44 ≤ suitesAt b := Nat.le_add_right _ _
  rw [compressionAt, compressionAt, ← suitesAt_of_agree ha (by omega) h,
    ha.u16At hk h.suites_le]

theorem extensionsAt_of_agree (ha : AgreeBelow b c k) (hk : compressionAt b + 1 ≤ k)
    (h : ReachesExtensions b) : extensionsAt b = extensionsAt c := by
  have hs : suitesAt b + 2 ≤ compressionAt b := Nat.le_add_right _ _
  rw [extensionsAt, extensionsAt, ← compressionAt_of_agree ha (by omega) h,
    ha _ hk h.compression_le]

theorem extensionsEnd_of_agree (ha : AgreeBelow b c k) (hk : extensionsAt b + 2 ≤ k)
    (h : ReachesExtensions b) (hl : extensionsAt b + 2 ≤ b.length) :
    extensionsEnd b = extensionsEnd c := by
  have hc : compressionAt b + 1 ≤ extensionsAt b := Nat.le_add_right _ _
  have hs : suitesAt b + 2 ≤ compressionAt b := Nat.le_add_right _ _
  have h44 : 44 ≤ suitesAt b := Nat.le_add_right _ _
  rw [extensionsEnd, extensionsEnd, ← extensionsAt_of_agree ha (by omega) h,
    ← helloEnd_of_agree ha (by omega) h, ha.u16At hk hl]

end Agree

/-! ## One step of each walk -/

section Walks

variable {b : Bytes} {e p : ℕ}

theorem walkExtensions_of_end (h : e < p + 4) :
    walkExtensions b e p = if e < p then .needMore else .noSni := by
  rw [walkExtensions, if_neg (by omega)]

theorem walkExtensions_of_truncated (h : p + 4 ≤ e) (hl : b.length < p + 4 + u16At b (p + 2)) :
    walkExtensions b e p = .needMore := by
  rw [walkExtensions, if_pos h]
  exact if_pos hl

theorem walkExtensions_of_serverName (h : p + 4 ≤ e) (hl : p + 4 + u16At b (p + 2) ≤ b.length)
    (ht : u16At b p = 0) :
    walkExtensions b e p = parseSniExtension (sliceAt b (p + 4) (u16At b (p + 2))) := by
  rw [walkExtensions, if_pos h]
  simp only
  rw [if_neg (not_lt.mpr hl), if_pos ht]

theorem walkExtensions_of_other (h : p + 4 ≤ e) (hl : p + 4 + u16At b (p + 2) ≤ b.length)
    (ht : u16At b p ≠ 0) :
    walkExtensions b e p = walkExtensions b e (p + 4 + u16At b (p + 2)) := by
  rw [walkExtensions, if_pos h]
  simp only
  rw [if_neg (not_lt.mpr hl), if_neg ht]

theorem walkServerNames_of_end (h : e < p + 3) : walkServerNames b e p = .noSni := by
  rw [walkServerNames, if_neg (by omega)]

theorem walkServerNames_of_truncated (h : p + 3 ≤ e) (hl : b.length < p + 3 + u16At b (p + 1)) :
    walkServerNames b e p = .needMore := by
  rw [walkServerNames, if_pos h]
  exact if_pos hl

theorem walkServerNames_of_hostName (h : p + 3 ≤ e) (hl : p + 3 + u16At b (p + 1) ≤ b.length)
    (ht : byteAt b p = 0) :
    walkServerNames b e p = match fromUtf8 (sliceAt b (p + 3) (u16At b (p + 1))) with
      | some s => if s ≠ [] then .sni s else .noSni
      | none => .noSni := by
  rw [walkServerNames, if_pos h]
  simp only
  rw [if_neg (not_lt.mpr hl), if_pos ht]

theorem walkServerNames_of_other (h : p + 3 ≤ e) (hl : p + 3 + u16At b (p + 1) ≤ b.length)
    (ht : byteAt b p ≠ 0) :
    walkServerNames b e p = walkServerNames b e (p + 3 + u16At b (p + 1)) := by
  rw [walkServerNames, if_pos h]
  simp only
  rw [if_neg (not_lt.mpr hl), if_neg ht]

end Walks

end SniGate
