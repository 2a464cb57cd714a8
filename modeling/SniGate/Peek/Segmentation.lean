import SniGate.Peek.Classify

/-!
# Which cuts of a ClientHello the parser survives

The parser answers as soon as the buffer lets it, so the question is whether an answer given on a
front of the stream is the answer to the stream. For a name it always is, and so it is for "this is
not a ClientHello". It is `noSni` that can be premature: "no extension begins here" is concluded
from the end of the *buffered* message, and a buffer that stops in the four header bytes of an
extension, or in the two length bytes of the extension block, looks the same as a message that
ends there.

`CutInExtensions` describes exactly those buffers, in terms of the message alone. Away from them
the answer is settled (`settledAt_of_not_cut`), and at each of them it is not: sending `0xFF` bytes
next turns `noSni` into a request for more (`exists_ne_of_cut`).

## Positions do not move

Every position is computed from bytes before it, so all of them agree between a buffer that reaches
the extension block and any continuation of it. What differs is only where the buffer ends, and the
walk sees that through the minimum of the block's end and the buffer's.
-/

namespace SniGate

/-! ## Prefixes share their positions -/

section Positions

variable {p s : Bytes}

theorem helloEnd_of_isPrefix (hp : p <+: s) (h : ReachesExtensions p) : helloEnd p = helloEnd s :=
  helloEnd_of_agree (.of_isPrefix hp 9) le_rfl h

theorem extensionsAt_of_isPrefix (hp : p <+: s) (h : ReachesExtensions p) :
    extensionsAt p = extensionsAt s := extensionsAt_of_agree (.of_isPrefix hp _) le_rfl h

theorem extensionsEnd_of_isPrefix (hp : p <+: s) (h : ReachesExtensions p)
    (hl : extensionsAt p + 2 ≤ p.length) : extensionsEnd p = extensionsEnd s :=
  extensionsEnd_of_agree (.of_isPrefix hp _) le_rfl h hl

theorem hsEnd_mono (hp : p <+: s) (h : ReachesExtensions p) : hsEnd p ≤ hsEnd s := by
  rw [hsEnd, hsEnd, ← helloEnd_of_isPrefix hp h]
  exact min_le_min_left _ hp.length_le

/-- Reaching the extension block is not lost when more arrives. -/
theorem ReachesExtensions.of_isPrefix (hp : p <+: s) (h : ReachesExtensions p) :
    ReachesExtensions s := by
  have hagree := AgreeBelow.of_isPrefix hp 9
  have h9 := h.nine_le
  have hend := hsEnd_mono hp h
  have hlen := hp.length_le
  have hheader := h.header
  have hrec : u16At p 3 = u16At s 3 := hagree.u16At (by omega) (by omega)
  refine ⟨?_, ?_, ?_, le_trans h.session hend, lt_of_lt_of_le h.sessionLen hlen, ?_, ?_⟩
  · rw [← hagree 0 (by omega) (by omega)]
    exact h.isRecord
  · omega
  · rw [← hagree 5 (by omega) (by omega)]
    exact h.isHello
  · rw [← suitesAt_of_agree (.of_isPrefix hp 44) le_rfl h]
    exact le_trans h.suites hend
  · rw [← compressionAt_of_agree (.of_isPrefix hp _) le_rfl h]
    exact le_trans h.compression hend

theorem StartsOtherwise.of_isPrefix (hp : p <+: s) (h : StartsOtherwise p) : StartsOtherwise s := by
  obtain ⟨hl, h⟩ := h
  have hlen := hp.length_le
  have h0 : byteAt p 0 = byteAt s 0 := AgreeBelow.of_isPrefix hp 1 0 (by omega) (by omega)
  refine ⟨by omega, ?_⟩
  rcases h with h | ⟨hr, h9, h5⟩
  · rw [h0] at h
    exact .inl h
  · have h3 : u16At p 3 = u16At s 3 := (AgreeBelow.of_isPrefix hp 5).u16At (by omega) (by omega)
    have h5' : byteAt p 5 = byteAt s 5 := AgreeBelow.of_isPrefix hp 6 5 (by omega) (by omega)
    rw [h0] at hr
    rw [h5'] at h5
    exact .inr ⟨hr, by omega, h5⟩

end Positions

/-! ## The extensions a buffer holds whole -/

/-- An extension may begin at this offset: everything before it in the extension block is complete
in the buffer, and none of it is a `server_name` extension. -/
inductive ExtensionStart (b : Bytes) : ℕ → Prop
  | first : ExtensionStart b (extensionsAt b + 2)
  | next {q : ℕ} (start : ExtensionStart b q) (inBlock : q + 4 ≤ extensionsEnd b)
      (whole : q + 4 + u16At b (q + 2) ≤ b.length) (other : u16At b q ≠ 0) :
      ExtensionStart b (q + 4 + u16At b (q + 2))

/-- The buffer stops where the parser takes the end of the buffer for the end of the message: in
the length bytes of an extension block that could hold an extension, or in the header of an
extension. -/
def CutInExtensions (b : Bytes) : Prop :=
  ReachesExtensions b ∧
    ((extensionsAt b ≤ b.length ∧ b.length < extensionsAt b + 2 ∧
        extensionsAt b + 6 ≤ helloEnd b) ∨
      ∃ q, ExtensionStart b q ∧ q ≤ b.length ∧ b.length < q + 4 ∧ q + 4 ≤ extensionsEnd b)

section Starts

variable {p s : Bytes} {q : ℕ}

theorem ExtensionStart.le (h : ExtensionStart p q) : extensionsAt p + 2 ≤ q := by
  induction h with
  | first => exact le_rfl
  | next _ _ _ _ ih => omega

theorem ExtensionStart.of_isPrefix (hp : p <+: s) (hr : ReachesExtensions p)
    (hl : extensionsAt p + 2 ≤ p.length) (h : ExtensionStart p q) : ExtensionStart s q := by
  induction h with
  | first =>
    rw [extensionsAt_of_isPrefix hp hr]
    exact .first
  | @next q start inBlock whole other ih =>
    have hlen := hp.length_le
    have hext : u16At p (q + 2) = u16At s (q + 2) :=
      (AgreeBelow.of_isPrefix hp (q + 4)).u16At (by omega) (by omega)
    have htype : u16At p q = u16At s q :=
      (AgreeBelow.of_isPrefix hp (q + 4)).u16At (by omega) (by omega)
    rw [extensionsEnd_of_isPrefix hp hr hl] at inBlock
    rw [htype] at other
    rw [hext] at whole ⊢
    exact .next ih inBlock (by omega) other

/-- The walk passes over the extensions the buffer holds whole. -/
theorem walkExtensions_of_start (h : ExtensionStart p q) :
    walkExtensions p (min (extensionsEnd p) p.length) (extensionsAt p + 2) =
      walkExtensions p (min (extensionsEnd p) p.length) q := by
  induction h with
  | first => rfl
  | next start inBlock whole other ih =>
    rw [ih]
    exact walkExtensions_of_other (by omega) whole other

end Starts

/-! ## Away from a cut the answer is settled -/

section Settled

variable {p s : Bytes} {q : ℕ}

/-- What the walk answers on a buffer from an extension start on, it answers on every
continuation. -/
theorem walkExtensions_settled (hp : p <+: s) (hr : ReachesExtensions p)
    (hcut : ¬ CutInExtensions p) (hq : ExtensionStart p q)
    (hne : walkExtensions p (min (extensionsEnd p) p.length) q ≠ .needMore) :
    walkExtensions s (min (extensionsEnd p) s.length) q =
      walkExtensions p (min (extensionsEnd p) p.length) q := by
  have hlen := hp.length_le
  -- the walk on `p` ends because each extension moves the offset on
  induction hn : p.length - q using Nat.strong_induction_on generalizing q with
  | _ n ih =>
    by_cases hin : q + 4 ≤ min (extensionsEnd p) p.length
    · have hagree := AgreeBelow.of_isPrefix hp (q + 4)
      have htype : u16At s q = u16At p q := (hagree.u16At (by omega) (by omega)).symm
      have hext : u16At s (q + 2) = u16At p (q + 2) := (hagree.u16At (by omega) (by omega)).symm
      have hins : q + 4 ≤ min (extensionsEnd p) s.length := by omega
      by_cases hwhole : q + 4 + u16At p (q + 2) ≤ p.length
      · by_cases h0 : u16At p q = 0
        · rw [walkExtensions_of_serverName hins (by omega) (by rw [htype, h0]),
            walkExtensions_of_serverName hin hwhole h0, hext, sliceAt_of_isPrefix hp (by omega)]
        · rw [walkExtensions_of_other hin hwhole h0] at hne ⊢
          rw [walkExtensions_of_other hins (by omega) (by rw [htype]; exact h0), hext]
          exact ih _ (by omega) (.next hq (by omega) hwhole h0) hne rfl
      · exact absurd (walkExtensions_of_truncated hin (by omega)) hne
    · -- the walk on `p` is over; were `p` cut here, the block would go on beyond it
      have hends : q ≤ p.length → extensionsEnd p < q + 4 := by
        intro hle
        by_contra hX
        exact hcut ⟨hr, .inr ⟨q, hq, hle, by omega, by omega⟩⟩
      have hend := walkExtensions_of_end (b := p) (not_le.mp hin)
      by_cases hover : min (extensionsEnd p) p.length < q
      · exact absurd (hend.trans (if_pos hover)) hne
      · rw [hend, walkExtensions_of_end (by omega), if_neg hover, if_neg (by omega)]

/-- A buffer that is not cut in its extensions has a settled answer. -/
theorem parseTlsSni_eq_of_not_cut (hcut : ¬ CutInExtensions p) (hne : parseTlsSni p ≠ .needMore)
    (hp : p <+: s) : parseTlsSni s = parseTlsSni p := by
  by_cases ho : StartsOtherwise p
  · rw [parseTlsSni_of_startsOtherwise ho, parseTlsSni_of_startsOtherwise (ho.of_isPrefix hp)]
  by_cases hr : ReachesExtensions p
  swap
  · exact absurd (parseTlsSni_of_not_reaches hr ho) hne
  have hE := extensionsAt_of_isPrefix hp hr
  have hH := helloEnd_of_isPrefix hp hr
  have hlen := hp.length_le
  rw [parseTlsSni_of_reaches hr] at hne ⊢
  rw [parseTlsSni_of_reaches (hr.of_isPrefix hp)]
  rw [extensionsAnswer] at hne
  rw [extensionsAnswer, extensionsAnswer, ← hE]
  by_cases hshort : hsEnd p < extensionsAt p + 2
  · rw [if_pos hshort] at hne ⊢
    by_cases hat : extensionsAt p ≤ hsEnd p
    · rw [if_pos hat]
      by_cases hmsg : helloEnd p < extensionsAt p + 2
      · -- the message itself ends before an extension block
        rw [if_pos (by rw [hsEnd, ← hH]; omega), if_pos (le_trans hat (hsEnd_mono hp hr))]
      · -- the block is too small for an extension, or `p` would be cut in its length
        have hsmall : helloEnd p < extensionsAt p + 6 := by
          by_contra hbig
          rw [hsEnd] at hshort hat
          exact hcut ⟨hr, .inl ⟨by omega, by omega, by omega⟩⟩
        by_cases hs : hsEnd s < extensionsAt p + 2
        · rw [if_pos hs, if_pos (le_trans hat (hsEnd_mono hp hr))]
        · have hXs : extensionsEnd s ≤ helloEnd p := by
            rw [extensionsEnd, ← hH]
            exact min_le_right _ _
          have hXe : extensionsAt p + 2 ≤ extensionsEnd s := by
            rw [hsEnd, ← hH] at hs
            rw [extensionsEnd, ← hE, ← hH]
            omega
          rw [hsEnd, ← hH] at hs
          rw [if_neg (by rw [hsEnd, ← hH]; omega), walkExtensions_of_end (by omega),
            if_neg (by omega)]
    · rw [if_neg hat] at hne
      exact absurd rfl hne
  · have hl : extensionsAt p + 2 ≤ p.length := by
      rw [hsEnd] at hshort
      omega
    rw [if_neg hshort] at hne ⊢
    rw [if_neg (by have := hsEnd_mono hp hr; omega), ← extensionsEnd_of_isPrefix hp hr hl]
    exact walkExtensions_settled hp hr hcut .first hne

end Settled

/-! ## At a cut it is not -/

section Unsettled

variable {p : Bytes}

/-- Bytes that no cut survives: whatever length they complete is longer than what is there. -/
def filler : Bytes := List.replicate 6 0xff

theorem byteAt_filler {i : ℕ} (hl : p.length ≤ i) (hr : i < p.length + 6) :
    byteAt (p ++ filler) i = 255 := by
  rw [byteAt_append_right hl, byteAt, filler, List.getD_replicate _ (by omega)]
  rfl

/-- A length whose last byte is filler reaches past the filler. -/
theorem le_u16At_filler {i : ℕ} (hl : p.length ≤ i + 1) (hr : i + 1 < p.length + 6) :
    255 ≤ u16At (p ++ filler) i := by
  rw [u16At, byteAt_filler hl hr]
  omega

theorem parseTlsSni_eq_noSni_of_cut (h : CutInExtensions p) : parseTlsSni p = .noSni := by
  obtain ⟨hr, ⟨hat, hlt, hbig⟩ | ⟨q, hq, hle, hlt, hin⟩⟩ := h
  · rw [parseTlsSni_of_reaches hr, extensionsAnswer, hsEnd, if_pos (by omega), if_pos (by omega)]
  · have hE := hq.le
    have hX : extensionsEnd p ≤ helloEnd p := min_le_right _ _
    rw [parseTlsSni_of_reaches hr, extensionsAnswer, hsEnd, if_neg (by omega),
      walkExtensions_of_start hq, walkExtensions_of_end (by omega), if_neg (by omega)]

theorem parseTlsSni_filler_of_cut (h : CutInExtensions p) :
    parseTlsSni (p ++ filler) = .needMore := by
  obtain ⟨hr, hcut⟩ := h
  have hp : p <+: p ++ filler := List.prefix_append _ _
  have hrs := hr.of_isPrefix hp
  have hE := extensionsAt_of_isPrefix hp hr
  have hH := helloEnd_of_isPrefix hp hr
  have hlen : (p ++ filler).length = p.length + 6 := by rw [List.length_append]; rfl
  rw [parseTlsSni_of_reaches hrs, extensionsAnswer]
  rcases hcut with ⟨hat, hlt, hbig⟩ | ⟨q, hq, hle, hlt, hin⟩
  · -- the block's length is filler, so a first extension is announced, longer than the buffer
    have htot := le_u16At_filler (p := p) (i := extensionsAt p) (by omega) (by omega)
    have hext := le_u16At_filler (p := p) (i := extensionsAt p + 2 + 2) (by omega) (by omega)
    have hX : extensionsAt p + 6 ≤ extensionsEnd (p ++ filler) := by
      rw [extensionsEnd, ← hE, ← hH]
      omega
    rw [← hE, if_neg (by rw [hsEnd, ← hH]; omega)]
    exact walkExtensions_of_truncated (by omega) (by omega)
  · have hEq := hq.le
    have hXp := extensionsEnd_of_isPrefix hp hr (by omega)
    have hX : extensionsEnd p ≤ helloEnd p := min_le_right _ _
    have hext := le_u16At_filler (p := p) (i := q + 2) (by omega) (by omega)
    have hqs := hq.of_isPrefix hp hr (by omega)
    rw [if_neg (by rw [hsEnd, ← hE, ← hH]; omega), walkExtensions_of_start hqs]
    exact walkExtensions_of_truncated (by omega) (by omega)

/-- A cut buffer has a continuation that is answered differently. -/
theorem exists_ne_of_cut (h : CutInExtensions p) :
    parseTlsSni p ≠ .needMore ∧ ∃ s, p <+: s ∧ parseTlsSni s ≠ parseTlsSni p := by
  rw [parseTlsSni_eq_noSni_of_cut h]
  refine ⟨by simp, p ++ filler, List.prefix_append _ _, ?_⟩
  rw [parseTlsSni_filler_of_cut h]
  simp

end Unsettled

/-! ## The classifier -/

/-- The decision about a nonempty TLS window is settled away from a cut. -/
theorem settledAt_judgeInbound {p : Bytes} (htls : isTlsStart p) (hp : p ≠ [])
    (hcut : ¬ CutInExtensions p) : SettledAt judgeInbound p := by
  intro r hr s hps
  have hs : isTlsStart s := by rw [← isTlsStart_of_isPrefix hp hps]; exact htls
  rw [judgeInbound_tls htls] at hr
  rw [judgeInbound_tls hs]
  by_cases hmore : parseTlsSni p = .needMore
  · rw [if_pos hmore] at hr
    exact absurd hr (by simp)
  · rw [if_neg hmore] at hr
    rw [parseTlsSni_eq_of_not_cut hcut hmore hps, if_neg hmore]
    exact hr

section Fronts

variable {s : Bytes} {n : ℕ}

theorem isTlsStart_take (htls : isTlsStart s) (hn : s.take n ≠ []) : isTlsStart (s.take n) := by
  rwa [isTlsStart_of_isPrefix hn (List.take_prefix n s)]

theorem take_ne_nil_of_tls (htls : isTlsStart s) (hn : n ≠ 0) : s.take n ≠ [] := fun h ↦
  (List.take_eq_nil_iff.mp h).elim hn fun hs ↦ absurd htls (by rw [hs]; decide)

/-- A front of a TLS stream is undecided exactly when its ClientHello is incomplete. -/
theorem judgeInbound_take_eq_none_iff (htls : isTlsStart s) (hn : n ≠ 0) :
    judgeInbound (s.take n) = none ↔ parseTlsSni (s.take n) = .needMore := by
  rw [judgeInbound_tls (isTlsStart_take htls (take_ne_nil_of_tls htls hn))]
  by_cases hmore : parseTlsSni (s.take n) = .needMore
  · rw [if_pos hmore]
    exact iff_of_true rfl hmore
  · rw [if_neg hmore]
    exact iff_of_false (by simp) hmore

/-- What a decision about a TLS stream says of its ClientHello. -/
theorem judgeInbound_eq_some_iff {r : Inbound} (htls : isTlsStart s) : judgeInbound s = some r ↔
    parseTlsSni s ≠ .needMore ∧ r = .tls (parseTlsSni s).name := by
  rw [judgeInbound_tls htls]
  by_cases hmore : parseTlsSni s = .needMore
  · rw [if_pos hmore]
    exact iff_of_false (by simp) fun h ↦ h.1 hmore
  · rw [if_neg hmore, Option.some.injEq, eq_comm]
    exact ⟨fun h ↦ ⟨hmore, h⟩, fun h ↦ h.2⟩

end Fronts

/-- **When the cuts do not matter.** A buffer's answer is the answer to everything it may grow into
exactly when it is not cut in its extensions. So a classifier whose parsers are given no cut front
of a TLS stream answers with the name in the stream as soon as one of them answers, and otherwise
with no name, or with nothing if nothing arrived; and it gets to answer, however the stream is cut
on the way to a front that the parser can answer. -/
theorem parseTlsSni_settled_iff_not_cut (b : Bytes) :
    ((parseTlsSni b ≠ .needMore → ∀ s, b <+: s → parseTlsSni s = parseTlsSni b) ↔
      ¬ CutInExtensions b) ∧
    (isTlsStart b → ∀ peeks r, (∀ n ∈ parsedFronts b peeks, ¬ CutInExtensions (b.take n)) →
      classify b peeks = .done r →
      ((∃ n ∈ parsedFronts b peeks, parseTlsSni (b.take n) ≠ .needMore) →
        parseTlsSni b ≠ .needMore ∧ r = .tls (parseTlsSni b).name) ∧
      ((∀ n ∈ parsedFronts b peeks, parseTlsSni (b.take n) = .needMore) →
        r = if parsedFronts b peeks = [] then .unknown else .tls none)) ∧
    (isTlsStart b → ∀ (cuts : List ℕ) (n : ℕ) (more : List Look),
      0 < n → n ≤ maxPeek → (∀ m ∈ cuts, 0 < m ∧ m ≤ n) →
      (∀ m ∈ cuts ++ [n], ¬ CutInExtensions (b.take m)) → parseTlsSni (b.take n) ≠ .needMore →
      classify b (cuts.map .got ++ .got n :: more) = .done (.tls (parseTlsSni b).name)) := by
  refine ⟨⟨fun h hcut ↦ ?_, fun hcut hne s hp ↦ parseTlsSni_eq_of_not_cut hcut hne hp⟩,
    fun htls peeks r hcut hdone ↦ ?_, fun htls cuts n more h0 hmax hcuts hcut hmore ↦ ?_⟩
  · obtain ⟨hne, s, hp, hs⟩ := exists_ne_of_cut hcut
    exact hs (h hne s hp)
  · have hpos : ∀ n ∈ parsedFronts b peeks, n ≠ 0 := fun n hn ↦ classifier.ne_zero_of_windows hn
    refine ⟨fun ⟨n, hn, hmore⟩ ↦ ?_, fun hopen ↦ ?_⟩
    · have hset : ∀ n ∈ classifier.windows b peeks, SettledAt classifier.judge (b.take n) :=
        fun n hn ↦ settledAt_judgeInbound
          (isTlsStart_take htls (take_ne_nil_of_tls htls (hpos n hn)))
          (take_ne_nil_of_tls htls (hpos n hn)) (hcut n hn)
      refine (judgeInbound_eq_some_iff htls).mp
        (WindowReader.judge_eq_of_run_done hset ⟨n, hn, fun hnone ↦ hmore ?_⟩ hdone)
      exact (judgeInbound_take_eq_none_iff htls (hpos n hn)).mp hnone
    · have hnone : ∀ n ∈ classifier.windows b peeks, classifier.judge (b.take n) = none :=
        fun n hn ↦ (judgeInbound_take_eq_none_iff htls (hpos n hn)).mpr (hopen n hn)
      rcases WindowReader.run_done hdone with ⟨n, hn, hr⟩ | ⟨-, ⟨hnil, rfl⟩ | ⟨n, hn, rfl⟩⟩
      · exact absurd hr (by rw [hnone n hn]; simp)
      · exact (if_pos hnil).symm
      · rw [if_neg (List.ne_nil_of_mem (show n ∈ parsedFronts b peeks from hn))]
        exact if_pos (isTlsStart_take htls (take_ne_nil_of_tls htls (hpos n hn)))
  · have hset : ∀ m ∈ cuts ++ [n], SettledAt classifier.judge (b.take m) := by
      intro m hm
      have hm0 : m ≠ 0 := by
        rcases List.mem_append.mp hm with hm | hm
        · exact (hcuts m hm).1.ne'
        · exact (List.mem_singleton.mp hm) ▸ h0.ne'
      exact settledAt_judgeInbound (isTlsStart_take htls (take_ne_nil_of_tls htls hm0))
        (take_ne_nil_of_tls htls hm0) (hcut m hm)
    obtain ⟨r, hr⟩ := Option.ne_none_iff_exists'.mp
      (mt (judgeInbound_take_eq_none_iff htls h0.ne').mp hmore)
    obtain ⟨hall, hrun⟩ := WindowReader.run_of_growing hcuts h0 hmax hset hr more
    rw [classify, hrun, ((judgeInbound_eq_some_iff htls).mp hall).2]

/-- A ClientHello for `a.io` in one record, with nothing but its server name in the extension
block. -/
def helloForAIo : Bytes :=
  [0x16, 3, 1, 0, 60, 1, 0, 0, 56, 3, 3] ++ List.replicate 32 0 ++
    [0, 0, 2, 0x13, 1, 1, 0, 0, 13] ++
    [0, 0, 0, 9, 0, 7, 0, 0, 4, 0x61, 0x2e, 0x69, 0x6f]

/-- Cut after the length of the extension block, the ClientHello for `a.io` has no name. -/
theorem parseTlsSni_not_segmentation_independent :
    ¬ ∀ s p : Bytes, p <+: s → parseTlsSni p ≠ .needMore → parseTlsSni s = parseTlsSni p := by
  intro h
  have hcut : parseTlsSni (helloForAIo.take 52) = .noSni := by decide +kernel
  have hall : parseTlsSni helloForAIo = .sni "a.io".toList := by decide +kernel
  have heq := h helloForAIo (helloForAIo.take 52) (List.take_prefix _ _) (by rw [hcut]; decide)
  rw [hcut, hall] at heq
  exact absurd heq (by decide)

end SniGate
