import SniGate.Bytes.Utf8
import SniGate.Peek.Classify
import SniGate.Peek.Lines

/-!
# Which cuts of a request head the parser survives

The parser answers on a Host line before its line ending has arrived, and refuses a buffer that does
not begin with a whole method token. Both can be premature. A buffer that stops inside a method
token is taken for something else than HTTP; a buffer that stops inside its Host line is answered
with what has arrived of the value, and that is final only if no continuation of it is text.

`CutInHead` describes exactly those buffers. Away from them the answer is settled
(`parseHttpHost_eq_of_not_cut`), and at each of them there is a continuation that is answered
differently (`exists_ne_of_cutInHead`).
-/

namespace SniGate

/-! ## Cuts -/

/-- The buffer stops in its Host line, and what has arrived of the value may still become text. -/
def CutInHostLine (b : Bytes) : Prop :=
  ∃ done last value, b.splitOn 0x0a = done ++ [last] ∧ Quiet done ∧ hostField last = some value ∧
    FrontOfText (value.dropWhile isAsciiWhitespace)

/-- The buffer stops in a method token, or in its Host line. -/
def CutInHead (b : Bytes) : Prop :=
  if looksLikeHttp b then CutInHostLine b else ∃ m ∈ methods, b <+: m

section Values

variable {value t : Bytes}

theorem ascii_of_isAsciiWhitespace {x : UInt8} (h : isAsciiWhitespace x) : x < 0x80 := by
  rcases of_decide_eq_true h with rfl | rfl | rfl | rfl | rfl <;> decide

/-- A value that cannot become text is none, however it goes on. -/
theorem hostValue_append_of_not_front (h : ¬FrontOfText (value.dropWhile isAsciiWhitespace)) :
    hostValue (value ++ t) = .noHost := by
  have hne : value.dropWhile isAsciiWhitespace ≠ [] := fun h0 ↦ h (h0 ▸ frontOfText_nil)
  have hdrop : (value ++ t).dropWhile isAsciiWhitespace =
      value.dropWhile isAsciiWhitespace ++ t := by
    rw [List.dropWhile_append, if_neg (by simpa using hne)]
  rw [hostValue]
  cases htext : fromUtf8 (trimAscii (value ++ t)) with
  | none => rfl
  | some s =>
    -- with the whitespace that was trimmed at the end it is text still
    rw [trimAscii, hdrop] at htext
    let whole := value.dropWhile isAsciiWhitespace ++ t
    have hspace : ∀ x ∈ whole.rtakeWhile isAsciiWhitespace, x < 0x80 := fun x hx ↦
      ascii_of_isAsciiWhitespace (List.mem_rtakeWhile_imp hx)
    obtain ⟨space, hspace⟩ := exists_toUtf8_of_ascii hspace
    have hwhole : whole = toUtf8 (s ++ space) := by
      rw [toUtf8_append, toUtf8_of_fromUtf8 htext, ← hspace, List.rdropWhile_append_rtakeWhile]
    refine absurd ⟨t, ?_⟩ h
    change (fromUtf8 whole).isSome
    rw [hwhole, fromUtf8_toUtf8]
    rfl

theorem toUtf8_replicate_x (n : ℕ) :
    toUtf8 (List.replicate n 'x') = List.replicate n 0x78 := by
  induction n with
  | zero => rfl
  | succ n ih =>
    rw [List.replicate_succ, List.replicate_succ, ← ih]
    rfl

/-- A value that ends in a letter is trimmed at its start only. -/
theorem hostValue_letters {c : Bytes} {s : Str} {n : ℕ}
    (hne : c = [] ∨ value.dropWhile isAsciiWhitespace ≠ [])
    (hs : value.dropWhile isAsciiWhitespace ++ c = toUtf8 s) :
    hostValue (value ++ (c ++ List.replicate (n + 1) 0x78)) =
      .host (s ++ List.replicate (n + 1) 'x') := by
  have hdrop : (value ++ (c ++ List.replicate (n + 1) 0x78)).dropWhile isAsciiWhitespace =
      value.dropWhile isAsciiWhitespace ++ c ++ List.replicate (n + 1) 0x78 := by
    rw [List.dropWhile_append, List.append_assoc]
    split_ifs with hempty
    · rw [List.isEmpty_iff] at hempty
      rw [hempty, hne.resolve_right (not_not.mpr hempty), List.replicate_succ]
      exact List.dropWhile_cons_of_neg (by decide)
    · rfl
  have htrim : trimAscii (value ++ (c ++ List.replicate (n + 1) 0x78)) =
      toUtf8 (s ++ List.replicate (n + 1) 'x') := by
    rw [trimAscii, hdrop, List.replicate_succ', ← List.append_assoc,
      List.rdropWhile_concat_neg _ _ _ (show ¬isAsciiWhitespace 0x78 by decide),
      List.append_assoc, ← List.replicate_succ', hs, toUtf8_append, toUtf8_replicate_x]
  rw [hostValue, htrim, fromUtf8_toUtf8]
  exact if_pos (by simp)

/-- A value that may become text may become two different ones. -/
theorem exists_hostValue_ne (h : FrontOfText (value.dropWhile isAsciiWhitespace)) :
    ∃ t, 0x0a ∉ t ∧ hostValue (value ++ t) ≠ hostValue value := by
  obtain ⟨c, s, hs, hc, hne⟩ : ∃ c s, value.dropWhile isAsciiWhitespace ++ c = toUtf8 s ∧
      0x0a ∉ c ∧ (c = [] ∨ value.dropWhile isAsciiWhitespace ≠ []) := by
    by_cases hempty : value.dropWhile isAsciiWhitespace = []
    · exact ⟨[], [], by rw [hempty]; rfl, by simp, .inl rfl⟩
    · obtain ⟨c, s, hs, hc⟩ := h.exists_completion
      exact ⟨c, s, hs, fun hmem ↦ absurd (hc _ hmem) (by decide), .inr hempty⟩
  have hfree : ∀ n, 0x0a ∉ c ++ List.replicate n 0x78 := fun n hmem ↦ by
    rcases List.mem_append.mp hmem with hmem | hmem
    · exact hc hmem
    · exact absurd (List.eq_of_mem_replicate hmem) (by decide)
  -- one more letter and two more letters are two different hosts
  by_contra hall
  push Not at hall
  have hone := hall _ (hfree 1)
  have htwo := hall _ (hfree 2)
  rw [← hone, hostValue_letters hne hs, hostValue_letters hne hs, HttpParse.host.injEq] at htwo
  exact absurd (congrArg List.length htwo) (by simp)

end Values

/-! ## Away from a cut the answer is settled -/

section Cuts

variable {p s t : Bytes}

/-- A buffer comes to look like HTTP only if it stops in a method token. -/
theorem exists_method_of_looksLikeHttp (h : looksLikeHttp (p ++ t)) (hp : ¬looksLikeHttp p) :
    ∃ m ∈ methods, p <+: m := by
  obtain ⟨m, hm, hfits⟩ := List.any_eq_true.mp h
  obtain ⟨-, htake⟩ := of_decide_eq_true hfits
  refine ⟨m, hm, ?_⟩
  by_cases hlen : m.length ≤ p.length
  · rw [List.take_append_of_le_length hlen] at htake
    exact absurd (List.any_eq_true.mpr ⟨m, hm, decide_eq_true ⟨hlen, htake⟩⟩) hp
  · have hpm : p <+: (p ++ t).take m.length :=
      (List.prefix_take_iff).mpr ⟨List.prefix_append p t, by omega⟩
    rwa [htake] at hpm

theorem cutInHead_nil : CutInHead [] := by
  rw [CutInHead, if_neg (by decide)]
  exact ⟨toUtf8 "GET ".toList, by decide, List.nil_prefix⟩

theorem parseHttpHost_method : ∀ m ∈ methods, parseHttpHost m ≠ .notHttp := by decide +kernel

/-- A buffer with the whole head in it is answered from the head. -/
theorem parseHttpHost_append_of_headEnd (hhttp : looksLikeHttp p)
    (hend : (headerBlockEnd p).isSome) :
    parseHttpHost (p ++ t) = parseHttpHost p := by
  obtain ⟨e, he⟩ := Option.isSome_iff_exists.mp hend
  have he' : headerBlockEnd (p ++ t) = some e := headerBlockEndFrom_append he
  obtain ⟨n, hn, rfl, -⟩ := scanHeaderLines_take he
  rw [parseHttpHost, parseHttpHost, he, he']
  dsimp only
  rw [Nat.zero_add, List.take_append_of_le_length hn, hhttp,
    looksLikeHttp_of_isPrefix (List.prefix_append p t) hhttp]

theorem scanHeaderLines_append_of_quiet_done {done : List Bytes} {last : Bytes}
    (hsplit : p.splitOn 0x0a = done ++ [last]) (hquiet : Quiet done) :
    scanHeaderLines ((p ++ t).splitOn 0x0a) = scanHeaderLines ((last ++ t).splitOn 0x0a) := by
  rw [splitOn_append_of_splitOn hsplit, scanHeaderLines_append_of_quiet hquiet]

/-- What is answered when the scan gets to a Host line in the last piece. -/
theorem parseHttpHost_of_hostField {done : List Bytes} {last value : Bytes}
    (hhttp : looksLikeHttp p) (hsplit : p.splitOn 0x0a = done ++ [last]) (hquiet : Quiet done)
    (hfield : hostField last = some value) :
    parseHttpHost (p ++ t) = hostValue (value ++ t.takeWhile (· ≠ 0x0a)) := by
  have hlast : 0x0a ∉ last := notMem_of_mem_splitOn (s := p) (hsplit ▸ by simp)
  obtain ⟨more, hline⟩ := exists_splitOn_append hlast t
  rw [parseHttpHost_of_looksLikeHttp (looksLikeHttp_of_isPrefix (List.prefix_append p t) hhttp),
    scanHeaderLines_append_of_quiet_done hsplit hquiet, hline,
    scanHeaderLines_of_hostField (hostField_append_right hfield)]

/-- A buffer that is not cut in its head has a settled answer. -/
theorem parseHttpHost_eq_of_not_cut (hcut : ¬CutInHead p) (hne : parseHttpHost p ≠ .needMore)
    (hp : p <+: s) : parseHttpHost s = parseHttpHost p := by
  obtain ⟨t, rfl⟩ := hp
  rw [CutInHead] at hcut
  split_ifs at hcut with hhttp
  swap
  · have hhttp' : ¬looksLikeHttp (p ++ t) := fun h ↦
      hcut (exists_method_of_looksLikeHttp h hhttp)
    rw [parseHttpHost_of_not_looksLikeHttp hhttp, parseHttpHost_of_not_looksLikeHttp hhttp']
  by_cases hend : (headerBlockEnd p).isSome
  · exact parseHttpHost_append_of_headEnd hhttp hend
  obtain ⟨done, last, hsplit⟩ := exists_splitOn 0x0a p
  have hparse := parseHttpHost_of_looksLikeHttp hhttp
  rw [if_neg hend] at hparse
  by_cases hquiet : Quiet done
  · -- only a Host line in the last piece can have been answered
    cases hfield : hostField last with
    | none =>
      have hnone : scanHeaderLines (p.splitOn 0x0a) = none := by
        rw [hsplit, scanHeaderLines_append_of_quiet hquiet, scanHeaderLines_cons, hfield]
        split_ifs <;> rfl
      rw [hnone] at hparse
      exact absurd hparse hne
    | some value =>
      have hfront : ¬FrontOfText (value.dropWhile isAsciiWhitespace) := fun h ↦
        hcut ⟨done, last, value, hsplit, hquiet, hfield, h⟩
      have hself := parseHttpHost_of_hostField (t := []) hhttp hsplit hquiet hfield
      rw [List.append_nil] at hself
      rw [hself, parseHttpHost_of_hostField hhttp hsplit hquiet hfield,
        hostValue_append_of_not_front hfront, hostValue_append_of_not_front hfront]
  · -- the scan has stopped before the last piece
    have hhttp' := looksLikeHttp_of_isPrefix (List.prefix_append p t) hhttp
    rw [hsplit, scanHeaderLines_append_of_not_quiet hquiet] at hparse
    rw [hparse] at hne ⊢
    rw [parseHttpHost_of_looksLikeHttp hhttp', splitOn_append_of_splitOn hsplit,
      scanHeaderLines_append_of_not_quiet hquiet]
    cases hscan : scanHeaderLines done with
    | some answer => rfl
    | none =>
      rw [hscan] at hne
      exact absurd rfl hne

/-- A buffer that is cut in its head has a continuation that is answered differently. -/
theorem exists_ne_of_cutInHead (h : CutInHead p) :
    parseHttpHost p ≠ .needMore ∧ ∃ s, p <+: s ∧ parseHttpHost s ≠ parseHttpHost p := by
  rw [CutInHead] at h
  split_ifs at h with hhttp
  · obtain ⟨done, last, value, hsplit, hquiet, hfield, hfront⟩ := h
    obtain ⟨t, hlf, hvalue⟩ := exists_hostValue_ne hfront
    have htake : t.takeWhile (· ≠ 0x0a) = t :=
      List.takeWhile_eq_self_iff.mpr fun c hc ↦ decide_eq_true fun heq ↦ hlf (heq ▸ hc)
    have hself := parseHttpHost_of_hostField (t := []) hhttp hsplit hquiet hfield
    rw [List.append_nil, List.takeWhile_nil, List.append_nil] at hself
    refine ⟨?_, p ++ t, List.prefix_append p t, ?_⟩
    · rw [hself, hostValue]
      cases fromUtf8 (trimAscii value) with
      | none => simp
      | some s =>
        dsimp only
        split_ifs <;> simp
    · rw [hself, parseHttpHost_of_hostField hhttp hsplit hquiet hfield, htake]
      exact hvalue
  · obtain ⟨m, hm, hp⟩ := h
    rw [parseHttpHost_of_not_looksLikeHttp hhttp]
    exact ⟨by simp, m, hp, parseHttpHost_method m hm⟩

end Cuts

/-! ## The classifier -/

section Classifier

variable {p s : Bytes}

theorem judgeInbound_http (h : ¬isTlsStart p) : judgeInbound p =
    match parseHttpHost p with
    | .host host => some (.http (some host))
    | .noHost => some (.http none)
    | .needMore => none
    | .notHttp => some .unknown := by
  exact if_neg h

/-- The decision about a nonempty window that is not TLS is settled away from a cut. -/
theorem settledAt_judgeInbound_http (htls : ¬isTlsStart p) (hp : p ≠ []) (hcut : ¬CutInHead p) :
    SettledAt judgeInbound p := by
  intro r hr s hps
  have hs : ¬isTlsStart s := by rwa [← isTlsStart_of_isPrefix hp hps]
  by_cases hmore : parseHttpHost p = .needMore
  · rw [judgeInbound_http htls, hmore] at hr
    exact absurd hr (by simp)
  · rw [judgeInbound_http htls] at hr
    rw [judgeInbound_http hs, parseHttpHost_eq_of_not_cut hcut hmore hps]
    exact hr

theorem judgeInbound_http_eq_none_iff (htls : ¬isTlsStart p) :
    judgeInbound p = none ↔ parseHttpHost p = .needMore := by
  rw [judgeInbound_http htls]
  cases parseHttpHost p <;> simp

theorem take_ne_nil_of_not_cutInHead {n : ℕ} (hcut : ¬CutInHead (s.take n)) : s.take n ≠ [] :=
  fun h ↦ hcut (by rw [h]; exact cutInHead_nil)

theorem not_isTlsStart_take {n : ℕ} (htls : ¬isTlsStart s) (hn : s.take n ≠ []) :
    ¬isTlsStart (s.take n) := by
  rwa [isTlsStart_of_isPrefix hn (List.take_prefix n s)]

/-- **When the cuts do not matter.** A buffer's answer is the answer to everything it may grow into
exactly when it is not cut in its head. So a classifier whose parsers are given no cut front of a
stream that is not TLS decides as on the whole stream as soon as one of them answers, and otherwise
with no host, or with nothing if nothing arrived; and it gets to answer, however the stream is cut
on the way to a front that the parser can answer. -/
theorem parseHttpHost_settled_iff_not_cut (b : Bytes) :
    ((parseHttpHost b ≠ .needMore → ∀ s, b <+: s → parseHttpHost s = parseHttpHost b) ↔
      ¬CutInHead b) ∧
    (¬isTlsStart b → ∀ peeks r, (∀ n ∈ parsedFronts b peeks, ¬CutInHead (b.take n)) →
      classify b peeks = .done r →
      ((∃ n ∈ parsedFronts b peeks, parseHttpHost (b.take n) ≠ .needMore) →
        judgeInbound b = some r) ∧
      ((∀ n ∈ parsedFronts b peeks, parseHttpHost (b.take n) = .needMore) →
        r = if parsedFronts b peeks = [] then .unknown else .http none)) ∧
    (¬isTlsStart b → ∀ (cuts : List ℕ) (n : ℕ) (more : List Look),
      0 < n → n ≤ maxPeek → (∀ m ∈ cuts, 0 < m ∧ m ≤ n) →
      (∀ m ∈ cuts ++ [n], ¬CutInHead (b.take m)) → parseHttpHost (b.take n) ≠ .needMore →
      ∃ r, judgeInbound b = some r ∧ classify b (cuts.map .got ++ .got n :: more) = .done r) := by
  refine ⟨⟨fun h hcut ↦ ?_, fun hcut hne s hp ↦ parseHttpHost_eq_of_not_cut hcut hne hp⟩,
    fun htls peeks r hcut hdone ↦ ?_, fun htls cuts n more h0 hmax hcuts hcut hmore ↦ ?_⟩
  · obtain ⟨hne, s, hp, hs⟩ := exists_ne_of_cutInHead hcut
    exact hs (h hne s hp)
  · have hfront : ∀ n ∈ parsedFronts b peeks, ¬isTlsStart (b.take n) := fun n hn ↦
      not_isTlsStart_take htls (take_ne_nil_of_not_cutInHead (hcut n hn))
    refine ⟨fun ⟨n, hn, hmore⟩ ↦ ?_, fun hopen ↦ ?_⟩
    · have hset : ∀ n ∈ classifier.windows b peeks, SettledAt classifier.judge (b.take n) :=
        fun n hn ↦ settledAt_judgeInbound_http (hfront n hn)
          (take_ne_nil_of_not_cutInHead (hcut n hn)) (hcut n hn)
      exact WindowReader.judge_eq_of_run_done hset
        ⟨n, hn, mt (judgeInbound_http_eq_none_iff (hfront n hn)).mp hmore⟩ hdone
    · have hnone : ∀ n ∈ classifier.windows b peeks, classifier.judge (b.take n) = none :=
        fun n hn ↦ (judgeInbound_http_eq_none_iff (hfront n hn)).mpr (hopen n hn)
      rcases WindowReader.run_done hdone with ⟨n, hn, hr⟩ | ⟨-, ⟨hnil, rfl⟩ | ⟨n, hn, rfl⟩⟩
      · exact absurd hr (by rw [hnone n hn]; simp)
      · exact (if_pos hnil).symm
      · rw [if_neg (List.ne_nil_of_mem (show n ∈ parsedFronts b peeks from hn))]
        exact if_neg (hfront n hn)
  · have hset : ∀ m ∈ cuts ++ [n], SettledAt classifier.judge (b.take m) := fun m hm ↦
      settledAt_judgeInbound_http
        (not_isTlsStart_take htls (take_ne_nil_of_not_cutInHead (hcut m hm)))
        (take_ne_nil_of_not_cutInHead (hcut m hm)) (hcut m hm)
    have hn := not_isTlsStart_take htls (take_ne_nil_of_not_cutInHead
      (hcut n (List.mem_append_right _ List.mem_cons_self)))
    obtain ⟨r, hr⟩ := Option.ne_none_iff_exists'.mp
      (mt (judgeInbound_http_eq_none_iff hn).mp hmore)
    exact ⟨r, WindowReader.run_of_growing hcuts h0 hmax hset hr more⟩

/-- Cut in its Host line, a request for `a.io` is answered with `a`. -/
theorem parseHttpHost_not_segmentation_independent :
    ¬∀ s p : Bytes, p <+: s → parseHttpHost p ≠ .needMore → parseHttpHost s = parseHttpHost p := by
  intro h
  have heq := h (toUtf8 "GET / HTTP/1.1\r\nHost: a.io\r\n\r\n".toList)
    (toUtf8 "GET / HTTP/1.1\r\nHost: a".toList) (by decide +kernel) (by decide +kernel)
  revert heq
  decide +kernel

end Classifier

end SniGate
