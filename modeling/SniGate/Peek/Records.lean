import SniGate.Peek.Hello
import SniGate.Peek.Tls

/-!
# The name a record-split ClientHello yields

A TLS stack reads a ClientHello from as many handshake records as the sender cut it into; the
parser walks the raw stream with the offsets of the message. The two agree as long as the parser
reads nothing beyond the first record, so the question is what it concludes when it does.

## The readable part

Everything the parser reads before the host name is a length or a type, and it reads one only if the
buffer goes that far (`ClientHello.FieldsWithin`). If the first record holds those it reads, they
are read correctly whatever follows, and the parser's answer is the text in the window where the
host name would stand in an uncut message (`parseTlsSni_eq_sni_iff`). The window is the host name
when the first record holds all of it. Otherwise it has the next record's header spliced in.

## Design choices

* The condition is on the lengths that the message states, on where it was cut and on how much of it
  is buffered, in offsets of the message. It says nothing of the bytes after the first record: a
  parser that reads none of them cannot depend on them.
* Bodies of other extensions, the session id and the other vectors are skipped and not read, so a
  cut inside one of them does no harm as long as nothing that is read comes after it.
* A first record of fewer than four bytes never yields a name. The parser wants the header of the
  message to be inside the record, and this is the only thing it asks of the record's length.
-/

namespace SniGate

/-! ## Walking over what the sender wrote -/

section Walks

variable {b c : Bytes} {k e q : ℕ} {m : Str}

theorem walkExtensions_ne_sni_of_end (h : e < q + 4) : walkExtensions b e q ≠ .sni m := by
  rw [walkExtensions_of_end h]
  split_ifs <;> simp

/-- Extensions of other types do not affect whether a name is found. The walked buffer only has to
agree with the written one on the headers it reads. -/
theorem walkExtensions_before {exts : List Extension} (hother : ∀ x ∈ exts, x.type ≠ 0)
    (ha : AgreeBelow b c k) (he : e ≤ b.length)
    (hread : ∀ o ∈ Extension.headerEnds exts q, 5 + o ≤ b.length → 5 + o ≤ k)
    (hc : StandsAt c (5 + q) (exts.flatMap Extension.encode)) :
    walkExtensions b e (5 + q) = .sni m ↔
      walkExtensions b e (5 + (q + (exts.flatMap Extension.encode).length)) = .sni m := by
  induction exts generalizing q with
  | nil => rfl
  | cons x xs ih =>
    rw [List.flatMap_cons, List.length_append, Extension.length_encode]
    rw [List.flatMap_cons, standsAt_append, Extension.length_encode, Extension.encode,
      standsAt_append, standsAt_append] at hc
    obtain ⟨⟨htype, hlen, -⟩, hrest⟩ := hc
    rw [length_u16Bytes] at hlen
    by_cases hin : 5 + q + 4 ≤ e
    · have hk : 5 + (q + 4) ≤ k := hread _ List.mem_cons_self (by omega)
      have ht : u16At b (5 + q) = x.type := by
        rw [ha.u16At (by omega) (by omega), htype.u16At x.type_lt]
      have hl : u16At b (5 + q + 2) = x.data.length := by
        rw [ha.u16At (by omega) (by omega), hlen.u16At x.data_lt]
      by_cases hwhole : 5 + q + 4 + x.data.length ≤ b.length
      · have h0 := hother x List.mem_cons_self
        have hnext : 5 + q + 4 + x.data.length = 5 + (q + 4 + x.data.length) := by omega
        have hend : q + (4 + x.data.length + (xs.flatMap Extension.encode).length) =
          q + 4 + x.data.length + (xs.flatMap Extension.encode).length := by omega
        rw [walkExtensions_of_other hin (by omega) (by omega), hl, hnext, hend,
          ih (fun y hy ↦ hother y (List.mem_cons_of_mem _ hy))
            (fun o ho ↦ hread o (List.mem_cons_of_mem _ ho))
            (by rw [← hnext, Nat.add_assoc (5 + q)]; exact hrest)]
      · rw [walkExtensions_of_truncated hin (by omega)]
        exact iff_of_false (by simp) (walkExtensions_ne_sni_of_end (by omega))
    · exact iff_of_false (walkExtensions_ne_sni_of_end (by omega))
        (walkExtensions_ne_sni_of_end (by omega))

theorem walkServerNames_ne_sni_of_end (h : e < q + 3) : walkServerNames b e q ≠ .sni m := by
  rw [walkServerNames_of_end h]
  simp

/-- Entries of other name types do not affect whether a name is found. -/
theorem walkServerNames_before {names : List NameEntry} (hother : ∀ x ∈ names, x.nameType ≠ 0)
    (ha : AgreeBelow b c k) (he : e ≤ b.length)
    (hk : q + (names.flatMap NameEntry.encode).length ≤ k)
    (hc : StandsAt c q (names.flatMap NameEntry.encode)) :
    walkServerNames b e q = .sni m ↔
      walkServerNames b e (q + (names.flatMap NameEntry.encode).length) = .sni m := by
  induction names generalizing q with
  | nil => rfl
  | cons x xs ih =>
    rw [List.flatMap_cons, List.length_append, NameEntry.length_encode] at hk ⊢
    rw [List.flatMap_cons, standsAt_append, NameEntry.length_encode, NameEntry.encode,
      standsAt_cons, standsAt_append] at hc
    obtain ⟨⟨htype, hlen, -⟩, hrest⟩ := hc
    by_cases hin : q + 3 ≤ e
    · have ht : byteAt b q = x.nameType.toNat := by
        rw [ha q (by omega) (by omega), htype.byteAt]
      have hl : u16At b (q + 1) = x.name.length := by
        rw [ha.u16At (by omega) (by omega), hlen.u16At x.name_lt]
      have h0 : byteAt b q ≠ 0 := by
        rw [ht]
        exact fun h ↦ hother x List.mem_cons_self (UInt8.toNat_inj.mp h)
      by_cases hwhole : q + 3 + x.name.length ≤ b.length
      · rw [walkServerNames_of_other hin (by omega) h0, hl, ← Nat.add_assoc,
          ← Nat.add_assoc, ih (fun y hy ↦ hother y (List.mem_cons_of_mem _ hy)) (by omega)
            (by rw [Nat.add_assoc]; exact hrest)]
      · rw [walkServerNames_of_truncated hin (by omega)]
        exact iff_of_false (by simp) (walkServerNames_ne_sni_of_end (by omega))
    · exact iff_of_false (walkServerNames_ne_sni_of_end (by omega))
        (walkServerNames_ne_sni_of_end (by omega))

end Walks

/-! ## The window -/

/-- The body of the extension yields the text in the window of its host name, provided everything
before the window is as written. -/
theorem parseSniExtension_eq_sni_iff {d : Bytes} {l : ServerNames} {m : Str}
    (ha : AgreeBelow d l.encode l.hostAt) (hlen : d.length = l.encode.length) :
    parseSniExtension d = .sni m ↔
      fromUtf8 (sliceAt d l.hostAt (toUtf8 l.host).length) = some m ∧ m ≠ [] := by
  obtain ⟨htotal, hbefore, htype, hhost, -⟩ := l.standsAt_fields (standsAt_self _)
  have hfits := l.fits
  have hentries := l.length_entries
  have henc := l.length_encode
  have hat : l.hostAt = 2 + (l.before.flatMap NameEntry.encode).length + 3 := rfl
  have hlist : u16At d 0 = l.entries.length := by
    rw [ha.u16At (by omega) (by omega), htotal.u16At (by omega)]
  have ht : byteAt d (0 + 2 + (l.before.flatMap NameEntry.encode).length) = 0 := by
    rw [ha _ (by omega) (by omega), htype.byteAt]
    rfl
  have hl : u16At d (0 + 2 + (l.before.flatMap NameEntry.encode).length + 1) =
      (toUtf8 l.host).length := by
    rw [ha.u16At (by omega) (by omega), hhost.u16At (by omega)]
  rw [parseSniExtension, if_neg (by omega)]
  simp only [hlist]
  rw [walkServerNames_before l.before_other ha (by omega) (by omega) hbefore,
    walkServerNames_of_hostName (by omega) (by omega) ht, hl, hat, Nat.zero_add]
  cases fromUtf8 (sliceAt d (2 + (l.before.flatMap NameEntry.encode).length + 3)
    (toUtf8 l.host).length) with
  | none => simp
  | some s =>
    by_cases hs : s = []
    · simp [hs, eq_comm]
    · simp only [if_pos hs, TlsParse.sni.injEq, Option.some.injEq, ne_eq]
      exact ⟨fun h ↦ ⟨h, h ▸ hs⟩, fun h ↦ h.1⟩

/-! ## The answer on a buffer that holds the message up to the window -/

section Uncut

variable {b : Bytes} {h : ClientHello} {r : Record} {k : ℕ} {m : Str}

theorem firstExtAt_le_nameStart (h : ClientHello) : h.firstExtAt + 9 ≤ h.nameStart := by
  rw [ClientHello.nameStart, ClientHello.nameExtAt, ServerNames.hostAt]
  omega

/-- The parser's positions on the uncut message are those of the sender. -/
theorem positions_uncut (h : ClientHello) (r : Record) :
    helloEnd (h.uncut r) = 9 + h.body.length ∧ suitesAt (h.uncut r) = 44 + h.sessionId.length ∧
    compressionAt (h.uncut r) = 44 + h.sessionId.length + 2 + h.suites.length ∧
    extensionsAt (h.uncut r) + 2 = 5 + h.firstExtAt ∧
    extensionsEnd (h.uncut r) = 5 + h.firstExtAt + h.extensions.length := by
  obtain ⟨-, -, -, hbody, hsid, hcs, hcomp, hext, -⟩ := h.standsAt_fields r (standsAt_self _)
  have hsidLen : (UInt8.ofNat h.sessionId.length).toNat = h.sessionId.length := by
    rw [UInt8.toNat_ofNat']
    exact Nat.mod_eq_of_lt h.sessionId_lt
  have hcompLen : (UInt8.ofNat h.compression.length).toNat = h.compression.length := by
    rw [UInt8.toNat_ofNat']
    exact Nat.mod_eq_of_lt h.compression_lt
  have hend : helloEnd (h.uncut r) = 9 + h.body.length := by
    rw [helloEnd, hbody.u24At h.length_body_lt]
  have hs : suitesAt (h.uncut r) = 44 + h.sessionId.length := by
    rw [suitesAt, hsid.byteAt, hsidLen]
  have hc : compressionAt (h.uncut r) = 44 + h.sessionId.length + 2 + h.suites.length := by
    rw [compressionAt, hs, hcs.u16At h.suites_lt]
  have he : extensionsAt (h.uncut r) =
      44 + h.sessionId.length + 2 + h.suites.length + 1 + h.compression.length := by
    rw [extensionsAt, hc, hcomp.byteAt, hcompLen]
  have hlen := h.length_body
  refine ⟨hend, hs, hc, ?_, ?_⟩
  · rw [he, ClientHello.firstExtAt]
    omega
  · rw [extensionsEnd, he, hext.u16At h.length_extensions_lt, hend]
    rw [ClientHello.firstExtAt] at hlen ⊢
    omega

/-- A buffer that agrees with the uncut message through the extension block's length, and reaches
that far, reaches its extension block where the sender put it. -/
theorem reaches_of_agree (hr : 4 ≤ r.fragment.length) (ha : AgreeBelow b (h.uncut r) k)
    (hk : 5 + h.firstExtAt ≤ k) (hlen : 5 + h.firstExtAt ≤ b.length) : ReachesExtensions b := by
  obtain ⟨h0, h3, h5, hbody, hsid, hcs, hcomp, -, -⟩ := h.standsAt_fields r (standsAt_self _)
  obtain ⟨hend, hs, hc, -, -⟩ := positions_uncut h r
  have hbodyLen := h.length_body
  have hfirst : h.firstExtAt = 4 + 34 + 1 + h.sessionId.length + 2 + h.suites.length + 1 +
    h.compression.length + 2 := rfl
  have hb0 : byteAt b 0 = 0x16 := by
    rw [ha 0 (by omega) (by omega), h0.byteAt]
    rfl
  have hb3 : u16At b 3 = r.fragment.length := by
    rw [ha.u16At (by omega) (by omega), h3.u16At r.fragment_lt]
  have hb5 : byteAt b 5 = 0x01 := by
    rw [ha 5 (by omega) (by omega), h5.byteAt]
    rfl
  have hbend : helloEnd b = helloEnd (h.uncut r) := by
    rw [helloEnd, helloEnd, ha.u24At (by omega) (by omega)]
  have hbs : suitesAt b = suitesAt (h.uncut r) := by
    rw [suitesAt, suitesAt, ha 43 (by omega) (by omega)]
  have hbc : compressionAt b = compressionAt (h.uncut r) := by
    rw [compressionAt, compressionAt, hbs, ha.u16At (by omega) (by omega)]
  exact ⟨hb0, by omega, hb5, le_min (by omega) (by omega), by omega, le_min (by omega) (by omega),
    le_min (by omega) (by omega)⟩

/-- Where a buffer's extension block begins and ends, once it is known to be reached. -/
theorem extensions_of_agree (hre : ReachesExtensions b) (ha : AgreeBelow b (h.uncut r) k)
    (hk : 5 + h.firstExtAt ≤ k) :
    helloEnd b = 9 + h.body.length ∧ extensionsAt b + 2 = 5 + h.firstExtAt ∧
    (5 + h.firstExtAt ≤ b.length → extensionsEnd b = 5 + h.firstExtAt + h.extensions.length) := by
  obtain ⟨hend, hs, hc, he, hX⟩ := positions_uncut h r
  have hfirst : h.firstExtAt = 4 + 34 + 1 + h.sessionId.length + 2 + h.suites.length + 1 +
    h.compression.length + 2 := rfl
  have hbs := suitesAt_of_agree ha (by omega) hre
  have hbc := compressionAt_of_agree ha (by omega) hre
  have hbe := extensionsAt_of_agree ha (by omega) hre
  refine ⟨(helloEnd_of_agree ha (by omega) hre).trans hend, by omega, fun hl ↦ ?_⟩
  exact (extensionsEnd_of_agree ha (by omega) hre (by omega)).trans hX

/-- A name is only found once the buffer holds the message up to its first extension. -/
theorem firstExtAt_le_of_sni (ha : AgreeBelow b (h.uncut r) (5 + k))
    (hfields : h.FieldsWithin k b.length) (hp : parseTlsSni b = .sni m) :
    5 + h.firstExtAt ≤ b.length := by
  by_cases ho : StartsOtherwise b
  · exact absurd hp (by rw [parseTlsSni_of_startsOtherwise ho]; simp)
  by_cases hre : ReachesExtensions b
  swap
  · exact absurd hp (by rw [parseTlsSni_of_not_reaches hre ho]; simp)
  obtain ⟨-, hs, hc, he, -⟩ := positions_uncut h r
  -- each length is read from within the first `k` bytes of the message, so the next one is where
  -- the sender put it
  have h39 : 39 ≤ k := hfields 39 (by simp [ClientHello.fieldEnds]) hre.sessionLen
  have hbs : suitesAt b = 44 + h.sessionId.length :=
    (suitesAt_of_agree ha (by omega) hre).trans hs
  have hsuites := hre.suites_le
  have hks : 39 + h.sessionId.length + 2 ≤ k :=
    hfields _ (by simp [ClientHello.fieldEnds]) (by omega)
  have hbc : compressionAt b = 44 + h.sessionId.length + 2 + h.suites.length :=
    (compressionAt_of_agree ha (by omega) hre).trans hc
  have hcompression := hre.compression_le
  have hkc : 39 + h.sessionId.length + 2 + h.suites.length + 1 ≤ k :=
    hfields _ (by simp [ClientHello.fieldEnds]) (by omega)
  have hbe := extensionsAt_of_agree ha (by omega) hre
  rw [parseTlsSni_of_reaches hre, extensionsAnswer] at hp
  by_cases hshort : hsEnd b < extensionsAt b + 2
  · rw [if_pos hshort] at hp
    split_ifs at hp
  · rw [hsEnd] at hshort
    omega

/-- **The answer is in the window.** On a buffer that agrees with the uncut message wherever it is
read before the host name, the parser finds a name exactly when the buffer holds the whole
`server_name` extension and the window of the host name decodes to one. -/
theorem parseTlsSni_eq_sni_iff (hr : 4 ≤ r.fragment.length)
    (ha : AgreeBelow b (h.uncut r) (5 + k)) (hfields : h.FieldsWithin k b.length)
    (hnames : 5 + h.nameExtEnd ≤ b.length → h.nameStart ≤ k) :
    parseTlsSni b = .sni m ↔ 5 + h.nameExtEnd ≤ b.length ∧
      fromUtf8 (sliceAt b (5 + h.nameStart) (toUtf8 h.names.host).length) = some m ∧ m ≠ [] := by
  have hfirst := firstExtAt_le_nameStart h
  have hname : h.nameStart = h.nameExtAt + 4 + h.names.hostAt := rfl
  have hextAt : h.nameExtAt = h.firstExtAt + (h.before.flatMap Extension.encode).length := rfl
  have hextEnd : h.nameExtEnd = h.nameExtAt + 4 + h.names.encode.length := rfl
  have hextLe := h.nameExtEnd_le
  have hbodyLen := h.length_body
  by_cases hl : 5 + h.firstExtAt ≤ b.length
  swap
  · exact iff_of_false (fun hp ↦ hl (firstExtAt_le_of_sni ha hfields hp))
      (fun hp ↦ hl (by omega))
  have hkfirst : h.firstExtAt ≤ k := hfields _ (by simp [ClientHello.fieldEnds]) hl
  have hre := reaches_of_agree hr ha (by omega) hl
  obtain ⟨hbend, hbe, hbX⟩ := extensions_of_agree hre ha (by omega)
  replace hbX := hbX hl
  obtain ⟨-, -, -, -, -, -, -, -, hblock⟩ := h.standsAt_fields r (standsAt_self (h.uncut r))
  rw [ClientHello.extensions, standsAt_append, standsAt_append, Extension.encode, standsAt_append,
    standsAt_append, length_u16Bytes, length_u16Bytes] at hblock
  obtain ⟨hbefore, ⟨htype, hextLen, hdata⟩, -⟩ := hblock
  have hat : 5 + h.firstExtAt + (h.before.flatMap Extension.encode).length = 5 + h.nameExtAt := by
    omega
  rw [hat] at htype hextLen hdata
  have hheaders : ∀ o ∈ Extension.headerEnds h.before h.firstExtAt,
      5 + o ≤ b.length → 5 + o ≤ 5 + k := fun o ho hob ↦
    Nat.add_le_add_left (hfields o (by simp [ClientHello.fieldEnds, ho]) hob) 5
  have hreach : extensionsAt b + 2 ≤ hsEnd b := le_min (by omega) (by omega)
  rw [parseTlsSni_of_reaches hre, extensionsAnswer, if_neg (not_lt.mpr hreach), hbe,
    walkExtensions_before h.before_other ha (min_le_right _ _) hheaders hbefore, ← hextAt]
  by_cases hin : 5 + h.nameExtAt + 4 ≤ min (extensionsEnd b) b.length
  swap
  · exact iff_of_false (walkExtensions_ne_sni_of_end (by omega)) (fun hp ↦ hin (by omega))
  have hkext : h.nameExtAt + 4 ≤ k := hfields _ (by simp [ClientHello.fieldEnds]) (by omega)
  have ht : u16At b (5 + h.nameExtAt) = 0 := by
    rw [ha.u16At (by omega) (by omega)]
    exact htype.u16At h.serverName.type_lt
  have hlen : u16At b (5 + h.nameExtAt + 2) = h.names.encode.length := by
    rw [ha.u16At (by omega) (by omega)]
    exact hextLen.u16At h.serverName.data_lt
  by_cases hwhole : 5 + h.nameExtAt + 4 + h.names.encode.length ≤ b.length
  swap
  · rw [walkExtensions_of_truncated hin (by omega)]
    exact iff_of_false (by simp) (fun hp ↦ hwhole (by omega))
  have hkname : h.nameStart ≤ k := hnames (by omega)
  -- the extension body agrees with what was written up to the host name
  have hbody : AgreeBelow (sliceAt b (5 + h.nameExtAt + 4) h.names.encode.length)
      h.names.encode h.names.hostAt := by
    have hsub : 5 + h.nameStart - (5 + h.nameExtAt + 4) = h.names.hostAt := by omega
    rw [← hsub]
    exact (ha.mono (by omega)).field hdata
  have hhost : h.names.hostAt + (toUtf8 h.names.host).length ≤ h.names.encode.length := by
    have := h.nameEnd_le_nameExtEnd
    rw [ClientHello.nameEnd] at this
    omega
  rw [walkExtensions_of_serverName hin (by omega) ht, hlen,
    parseSniExtension_eq_sni_iff hbody (length_sliceAt hwhole), sliceAt_sliceAt hhost]
  have hwin : 5 + h.nameExtAt + 4 + h.names.hostAt = 5 + h.nameStart := by omega
  rw [hwin]
  exact ⟨fun hp ↦ ⟨by omega, hp⟩, fun hp ↦ hp.2⟩

end Uncut

/-! ## Messages cut into records -/

section Records

variable {b : Bytes} {h : ClientHello} {r : Record} {rs : List Record} {m : Str}

theorem agree_uncut (hmsg : reassemble (r :: rs) = h.message) (hb : b <+: wire (r :: rs)) :
    AgreeBelow b (h.uncut r) (5 + r.fragment.length) := by
  have hlen : r.encode.length = 5 + r.fragment.length := by
    rw [Record.encode, List.length_append, length_recordHeader r.version_len]
  have hwire : r.encode <+: wire (r :: rs) := by
    rw [wire, List.flatMap_cons]
    exact List.prefix_append _ _
  have huncut : r.encode <+: h.uncut r := by
    rw [ClientHello.uncut, ← hmsg, reassemble, List.flatMap_cons, Record.encode,
      List.prefix_append_right_inj]
    exact List.prefix_append _ _
  intro i hi hib
  rw [AgreeBelow.of_isPrefix hb _ i hib hib,
    ← AgreeBelow.of_isPrefix hwire _ i hi (by omega),
    AgreeBelow.of_isPrefix huncut _ i hi (by omega)]

/-- A first record too short for a handshake header never yields a name. -/
theorem parseTlsSni_ne_sni_of_short (hmsg : reassemble (r :: rs) = h.message)
    (hb : b <+: wire (r :: rs)) (hr : r.fragment.length < 4) : parseTlsSni b ≠ .sni m := by
  have hre : ¬ ReachesExtensions b := by
    intro hre
    have hheader := hre.header
    have hagree := agree_uncut hmsg hb
    have h3 : u16At b 3 = r.fragment.length := by
      rw [hagree.u16At (by omega) (by omega)]
      exact (h.standsAt_fields r (standsAt_self _)).2.1.u16At r.fragment_lt
    omega
  by_cases ho : StartsOtherwise b
  · rw [parseTlsSni_of_startsOtherwise ho]
    simp
  · rw [parseTlsSni_of_not_reaches hre ho]
    simp

/-- Where the buffer is as if uncut through the host name, the window is the host name. -/
theorem window_eq_host {k : ℕ} (ha : AgreeBelow b (h.uncut r) k) (hk : 5 + h.nameEnd ≤ k)
    (hl : 5 + h.nameEnd ≤ b.length) :
    sliceAt b (5 + h.nameStart) (toUtf8 h.names.host).length = toUtf8 h.names.host := by
  obtain ⟨-, -, -, -, -, -, -, -, hblock⟩ := h.standsAt_fields r (standsAt_self (h.uncut r))
  rw [ClientHello.extensions, standsAt_append, standsAt_append, Extension.encode, standsAt_append,
    standsAt_append, length_u16Bytes, length_u16Bytes] at hblock
  obtain ⟨-, ⟨-, -, hdata⟩, -⟩ := hblock
  obtain ⟨-, -, -, -, hname⟩ := h.names.standsAt_fields hdata
  have hat : 5 + h.firstExtAt + (h.before.flatMap Extension.encode).length + 2 + 2 + 2 +
      (h.names.before.flatMap NameEntry.encode).length + 3 = 5 + h.nameStart := by
    rw [ClientHello.nameStart, ClientHello.nameExtAt, ServerNames.hostAt]
    omega
  rw [hat] at hname
  have hle := hname.le (toUtf8_ne_nil h.names.host_ne)
  rw [ClientHello.nameEnd] at hk hl
  rw [ha.sliceAt (by omega) (by omega) hle, hname.sliceAt]

/-- **When the routing key is the name sent.** For a ClientHello cut into handshake records in any
way, and any buffered front of them, the parser finds no other name if the first record is too short
for a handshake header, or holds all that the parser reads: each length and type up to the
`server_name` extension that the buffer reaches, and the host name once the buffer holds that
extension. If only the host name itself may go beyond the first record, the exact condition is that
its window holds the name, or no text, or that the extension is not complete in the buffer. -/
theorem parseTlsSni_name_of_records (h : ClientHello) (r : Record) (rs : List Record) (b : Bytes)
    (hmsg : reassemble (r :: rs) = h.message) (hb : b <+: wire (r :: rs)) :
    (r.fragment.length < 4 ∨ h.FieldsWithin r.fragment.length b.length ∧
        (5 + h.nameExtEnd ≤ b.length → h.nameEnd ≤ r.fragment.length) →
      ∀ m, parseTlsSni b = .sni m → m = h.names.host) ∧
    (h.FieldsWithin r.fragment.length b.length →
      (5 + h.nameExtEnd ≤ b.length → h.nameStart ≤ r.fragment.length) →
      ((∀ m, parseTlsSni b = .sni m → m = h.names.host) ↔
        r.fragment.length < 4 ∨ b.length < 5 + h.nameExtEnd ∨
          ∀ m, fromUtf8 (sliceAt b (5 + h.nameStart) (toUtf8 h.names.host).length) = some m →
            m = [] ∨ m = h.names.host)) := by
  have hagree := agree_uncut hmsg hb
  have hend := h.nameEnd_le_nameExtEnd
  have hname : h.nameEnd = h.nameStart + (toUtf8 h.names.host).length := rfl
  by_cases hr : r.fragment.length < 4
  · have hnone : ∀ m, parseTlsSni b = .sni m → m = h.names.host := fun m hm ↦
      absurd hm (parseTlsSni_ne_sni_of_short hmsg hb hr)
    exact ⟨fun _ ↦ hnone, fun _ _ ↦ iff_of_true hnone (.inl hr)⟩
  refine ⟨fun hcut m hm ↦ ?_, fun hfields hnames ↦ ?_⟩
  · obtain ⟨hfields, hwhole⟩ := hcut.resolve_left hr
    obtain ⟨hlen, hwin, -⟩ := (parseTlsSni_eq_sni_iff (by omega) hagree hfields
      (fun hl ↦ le_trans (by omega) (hwhole hl))).mp hm
    rw [window_eq_host hagree (by have := hwhole hlen; omega) (by omega), fromUtf8_toUtf8] at hwin
    exact (Option.some.inj hwin).symm
  · have hiff : ∀ m, parseTlsSni b = .sni m ↔ _ := fun m ↦
      parseTlsSni_eq_sni_iff (m := m) (by omega) hagree hfields hnames
    constructor
    · intro hsafe
      by_cases hlen : b.length < 5 + h.nameExtEnd
      · exact .inr (.inl hlen)
      · refine .inr (.inr fun m hm ↦ ?_)
        by_cases hnil : m = []
        · exact .inl hnil
        · exact .inr (hsafe m ((hiff m).mpr ⟨by omega, hm, hnil⟩))
    · rintro (hshort | hshort | hwin) m hm
      · exact absurd hshort hr
      · exact absurd ((hiff m).mp hm).1 (by omega)
      · obtain ⟨-, htext, hne⟩ := (hiff m).mp hm
        exact (hwin m htext).resolve_left hne

end Records

/-! ## A name cut in two -/

/-- A ClientHello with nothing but the server name `a.io` in its extension block. -/
def plainHello : ClientHello where
  version := [3, 3]
  random := List.replicate 32 0
  sessionId := []
  suites := [0x13, 1]
  compression := [0]
  before := []
  names :=
    { before := []
      host := "a.io".toList
      after := []
      before_other := by simp
      host_ne := by decide
      fits := by decide }
  after := []
  version_len := rfl
  random_len := rfl
  sessionId_lt := by decide
  suites_lt := by decide
  compression_lt := by decide
  before_other := by simp
  fits := by decide

/-- A record with the given fragment. -/
def plainRecord (fragment : Bytes) (h : fragment.length < 65536) : Record where
  version := [3, 1]
  fragment := fragment
  version_len := rfl
  fragment_lt := h

/-- Sent in one record, the name is found as it was sent. -/
theorem parseTlsSni_name_of_plain_record :
    parseTlsSni (wire [plainRecord plainHello.message (by decide)]) = .sni "a.io".toList ∧
      "a.io".toList = plainHello.names.host :=
  ⟨by decide +kernel, (parseTlsSni_name_of_records plainHello
    (plainRecord plainHello.message (by decide)) [] _ (by decide) (List.prefix_refl _)).1
    (.inr (by decide +kernel)) _ (by decide +kernel)⟩

/-- The two records of a sender that cuts after the first letter of the name. -/
def cutRecords : List Record :=
  [plainRecord (plainHello.message.take 57) (by decide),
    plainRecord (plainHello.message.drop 57) (by decide)]

/-- The name read from a stream cut inside the name is another one. -/
theorem parseTlsSni_name_not_record_independent :
    ¬ ∀ (h : ClientHello) (rs : List Record) (b : Bytes) (m : Str), reassemble rs = h.message →
      b <+: wire rs → parseTlsSni b = .sni m → m = h.names.host := by
  intro hall
  have hread : parseTlsSni (wire cutRecords) = .sni ['a', '\x16', '\x03', '\x01'] := by
    decide +kernel
  have heq := hall plainHello cutRecords (wire cutRecords) _ (by decide) (List.prefix_refl _) hread
  exact absurd heq (by decide)

end SniGate
