import SniGate.Bytes.Utf8
import SniGate.Net.Parse
import SniGate.Text.Pieces

/-!
# The HTTP probe

The probe reads until its buffer has the end of the status line, and takes the status from what the
buffer then holds. Reads may end anywhere, so that can be more than the status line: any front of
what follows it, as far as the buffer goes (`readStatus_eq_take`, `exists_delivery`).

What follows is looked at in one respect. The buffer must decode as a whole, so the verdict is that
of the status line for every way to deliver the response exactly when every front of what follows
decodes, that is, when it is ASCII (`statusLineDecides_iff`).

## Design choices

A delivery is a list of non-empty chunks, of which a read takes one or a part of one, as far as the
buffer has room. The verdict is compared for all deliveries of one response. Header fields and
bodies are bytes of which nothing is known.
-/

namespace SniGate

/-- How much of an HTTP response to buffer. -/
def statusLineBuf : ℕ := 128

def crlf : Bytes := [0x0d, 0x0a]

/-- `windows(2).any(|w| w == b"\r\n")`. -/
def HasCrlf (b : Bytes) : Prop := crlf <:+: b

instance (b : Bytes) : Decidable (HasCrlf b) := inferInstanceAs (Decidable (_ <:+: _))

/-- Why a probe fails once the request is sent. -/
inductive ProbeFault
  | closed
  | notUtf8
  | empty
  | notHttp (line : Str)
  | noCode (line : Str)
  | notNumber (code : Str)
  | notAccepted (status : UInt16) (expectStatus : List UInt16)
deriving DecidableEq, Repr

/-- The text of the error. -/
def ProbeFault.message : ProbeFault → Str
  | closed => "upstream closed without sending a response".toList
  | notUtf8 => "probe response is not valid UTF-8".toList
  | empty => "empty probe response".toList
  | notHttp line =>
    "probe response does not start with an HTTP status line: ".toList ++ debugStr line
  | noCode line => "probe response has no status code: ".toList ++ debugStr line
  | notNumber code =>
    "probe response status ".toList ++ debugStr code ++ " is not a number".toList
  | notAccepted status expectStatus =>
    "probe response status ".toList ++ decimal status.toNat ++
      " is not among the accepted [".toList ++
      ", ".toList.intercalate (expectStatus.map fun s ↦ decimal s.toNat) ++ "]".toList

/-- `str::split_whitespace`. -/
def splitWhitespace (s : Str) : List Str := (s.splitOnP isWhitespace).filter (· ≠ [])

/-- Extract the status code from an HTTP response's first line. -/
def parseStatus (bytes : Bytes) : Except ProbeFault UInt16 :=
  match fromUtf8 bytes with
  | none => .error .notUtf8
  | some text =>
    let line := (lines text).head?.getD []
    match splitWhitespace line with
    | [] => .error .empty
    | version :: parts =>
      if (stripStart "HTTP/".toList version).isNone then .error (.notHttp line)
      else
        match parts with
        | [] => .error (.noCode line)
        | code :: _ =>
          match parseU16 code with
          | none => .error (.notNumber code)
          | some status => .ok status

/-- Read as far as the end of the status line, or of the buffer, or of the response. Only the new
bytes are scanned, and the one before them; what a read leaves over is not asked for again, because
then the buffer is full. -/
def readStatus : List Bytes → Bytes → Bytes
  | [], buf => buf
  | chunk :: chunks, buf =>
    if statusLineBuf ≤ buf.length then buf
    else
      let read := chunk.take (statusLineBuf - buf.length)
      if read = [] then buf
      else if HasCrlf ((buf ++ read).drop (buf.length - 1)) then buf ++ read
      else readStatus chunks (buf ++ read)

/-- Take the verdict from what was read. -/
def judgeResponse (expectStatus : List UInt16) (buf : Bytes) : Except ProbeFault Unit :=
  if buf = [] then .error .closed
  else
    match parseStatus buf with
    | .error fault => .error fault
    | .ok status =>
      if status ∈ expectStatus then .ok () else .error (.notAccepted status expectStatus)

/-- Read exactly as far as the status line, from a response that arrives in these pieces. The time
of the first one is left out. -/
def httpExchange (expectStatus : List UInt16) (chunks : List Bytes) : Except ProbeFault Unit :=
  judgeResponse expectStatus (readStatus chunks [])

/-! ## What is in the buffer -/

section Read

variable {line rest b b' buf : Bytes} {x : UInt8} {n : ℕ}

theorem HasCrlf.mono (h : HasCrlf b) (hb : b <:+: b') : HasCrlf b' := List.IsInfix.trans h hb

/-- Behind bytes without one, a line ending is in the new bytes and the one before them. -/
theorem hasCrlf_drop (hbuf : ¬HasCrlf buf) (b : Bytes) :
    HasCrlf ((buf ++ b).drop (buf.length - 1)) ↔ HasCrlf (buf ++ b) := by
  refine ⟨fun h ↦ h.mono (List.drop_suffix _ _).isInfix, ?_⟩
  rintro ⟨s, t, heq⟩
  have hlen : buf.length - 1 ≤ s.length := by
    by_contra hlt
    refine hbuf ⟨s, t.take (buf.length - (s ++ crlf).length), ?_⟩
    have hs : (s ++ crlf).length ≤ buf.length := by
      rw [List.length_append, show crlf.length = 2 from rfl]
      omega
    calc s ++ crlf ++ t.take (buf.length - (s ++ crlf).length)
      _ = (s ++ crlf ++ t).take buf.length := by
        rw [List.take_append, List.take_of_length_le hs]
      _ = buf := by rw [heq, List.take_left]
  refine ⟨s.drop (buf.length - 1), t, ?_⟩
  rw [← heq, List.append_assoc, List.append_assoc, List.drop_append_of_le_length hlen]

/-- The fronts of a response that have the end of the status line. -/
theorem hasCrlf_take (hline : ¬HasCrlf line) :
    HasCrlf ((line ++ crlf ++ rest).take n) ↔ line.length + 2 ≤ n := by
  constructor
  · intro h
    by_contra hlt
    have hfront : (line ++ crlf ++ rest).take n <+: line ++ [0x0d] := by
      have htake := List.take_prefix_take_left (l := line ++ crlf ++ rest)
        (show n ≤ line.length + 1 by omega)
      have heq : (line ++ crlf ++ rest).take (line.length + 1) = line ++ [0x0d] := by
        rw [List.append_assoc, List.take_length_add_append]
        rfl
      rwa [heq] at htake
    rcases List.infix_concat_iff.mp (h.mono hfront.isInfix) with ⟨t, ht⟩ | hinfix
    · have hlast := congrArg List.getLast? ht
      exact absurd hlast (by simp [crlf])
    · exact hline hinfix
  · intro hle
    refine ⟨line, rest.take (n - (line ++ crlf).length), ?_⟩
    rw [List.take_append, List.take_of_length_le (l := line ++ crlf)]
    rw [List.length_append]
    exact hle

theorem take_append_read {response chunk more : Bytes} {k : ℕ}
    (h : chunk ++ more = response.drop k) :
    response.take k ++ chunk.take n = response.take (k + min n chunk.length) := by
  rw [List.take_add, ← h, List.append_cancel_left_eq,
    List.take_append_of_le_length (min_le_right _ _), List.take_eq_take_min]

/-- **One read.** It ends the loop when the buffer then has the end of the status line. -/
theorem readStatus_cons (hline : ¬HasCrlf line) {chunk : Bytes} {chunks : List Bytes} {k : ℕ}
    (hne : chunk ≠ []) (hk : k < line.length + 2) (hroom : k < statusLineBuf)
    (hchunks : (chunk :: chunks).flatten = (line ++ crlf ++ rest).drop k) :
    readStatus (chunk :: chunks) ((line ++ crlf ++ rest).take k) =
      let read := k + min (statusLineBuf - k) chunk.length
      if line.length + 2 ≤ read then (line ++ crlf ++ rest).take read
      else readStatus chunks ((line ++ crlf ++ rest).take read) := by
  have hbuf : ((line ++ crlf ++ rest).take k).length = k := by
    rw [List.length_take, List.length_append, List.length_append, show crlf.length = 2 from rfl]
    have hlen := congrArg List.length hchunks
    have hpos := List.length_pos_of_ne_nil hne
    rw [List.flatten_cons, List.length_append, List.length_drop, List.length_append,
      List.length_append, show crlf.length = 2 from rfl] at hlen
    omega
  have hread : chunk.take (statusLineBuf - k) ≠ [] := by
    rw [Ne, List.take_eq_nil_iff, not_or]
    exact ⟨by omega, hne⟩
  have hquiet : ¬HasCrlf ((line ++ crlf ++ rest).take k) := by
    rw [hasCrlf_take hline]
    omega
  have hsplit := take_append_read (n := statusLineBuf - k) (List.flatten_cons ▸ hchunks)
  have hscan := hasCrlf_drop hquiet (chunk.take (statusLineBuf - k))
  rw [hbuf, hsplit, hasCrlf_take hline] at hscan
  rw [readStatus, hbuf, if_neg (by omega)]
  simp only [if_neg hread, hsplit, hscan]

theorem readStatus_of_full {chunks : List Bytes} {buf : Bytes} (h : statusLineBuf ≤ buf.length) :
    readStatus chunks buf = buf := by
  cases chunks with
  | nil => rfl
  | cons chunk chunks => rw [readStatus, if_pos h]

/-- **What is read** is a front of the response that has the end of the status line, or fills the
buffer. -/
theorem readStatus_eq_take (hline : ¬HasCrlf line) {chunks : List Bytes} {k : ℕ}
    (hne : ∀ c ∈ chunks, c ≠ []) (hk : k < line.length + 2) (hle : k ≤ statusLineBuf)
    (hchunks : chunks.flatten = (line ++ crlf ++ rest).drop k) :
    ∃ n, min (line.length + 2) statusLineBuf ≤ n ∧ n ≤ statusLineBuf ∧
      readStatus chunks ((line ++ crlf ++ rest).take k) = (line ++ crlf ++ rest).take n := by
  have hlen := congrArg List.length hchunks
  rw [List.length_drop, List.length_append, List.length_append,
    show crlf.length = 2 from rfl] at hlen
  induction chunks generalizing k with
  | nil =>
    rw [List.flatten_nil, List.length_nil] at hlen
    omega
  | cons chunk chunks ih =>
    rcases hle.eq_or_lt with rfl | hroom
    · refine ⟨statusLineBuf, min_le_right _ _, le_rfl, readStatus_of_full ?_⟩
      rw [List.length_take, List.length_append, List.length_append, show crlf.length = 2 from rfl]
      omega
    have hchunk := hne chunk List.mem_cons_self
    have hpos : 0 < chunk.length := List.length_pos_of_ne_nil hchunk
    rw [readStatus_cons hline hchunk hk hroom hchunks]
    rw [List.flatten_cons, List.length_append] at hlen
    dsimp only
    split_ifs with hend
    · exact ⟨_, by omega, by omega, rfl⟩
    by_cases hrest : statusLineBuf - k < chunk.length
    · -- the buffer is full, whatever comes next
      refine ⟨statusLineBuf, min_le_right _ _, le_rfl, ?_⟩
      rw [min_eq_left hrest.le, Nat.add_sub_cancel' hroom.le]
      refine readStatus_of_full ?_
      rw [List.length_take, List.length_append, List.length_append, show crlf.length = 2 from rfl]
      omega
    · rw [min_eq_right (Nat.not_lt.mp hrest)] at hend ⊢
      refine ih (fun c hc ↦ hne c (List.mem_cons_of_mem _ hc)) (by omega) (by omega) ?_ (by omega)
      rw [← List.drop_drop, ← hchunks, List.flatten_cons, List.drop_left]

/-- Every front that has the end of the status line and fits the buffer is what some delivery makes
of the response. -/
theorem exists_delivery (rest : Bytes) (hline : ¬HasCrlf line) (hn : line.length + 2 ≤ n)
    (hle : n ≤ statusLineBuf) : ∃ chunks : List Bytes, (∀ c ∈ chunks, c ≠ []) ∧
      chunks.flatten = line ++ crlf ++ rest ∧
      readStatus chunks [] = (line ++ crlf ++ rest).take n := by
  have hne : (line ++ crlf ++ rest).take n ≠ [] := by
    rw [Ne, List.take_eq_nil_iff, not_or]
    exact ⟨by omega, by simp [crlf]⟩
  have hfirst : ∀ more, readStatus ((line ++ crlf ++ rest).take n :: more) [] =
      (line ++ crlf ++ rest).take n := by
    intro more
    have htake : ((line ++ crlf ++ rest).take n).take statusLineBuf =
        (line ++ crlf ++ rest).take n := by rw [List.take_take, min_eq_right hle]
    rw [readStatus, if_neg (by decide)]
    simp only [List.length_nil, Nat.sub_zero, htake, if_neg hne, List.nil_append, Nat.zero_sub,
      List.drop_zero]
    rw [if_pos ((hasCrlf_take hline).mpr hn)]
  by_cases hlast : (line ++ crlf ++ rest).drop n = []
  · refine ⟨[(line ++ crlf ++ rest).take n], by simpa using hne, ?_, hfirst []⟩
    rw [List.flatten_singleton]
    conv_rhs => rw [← List.take_append_drop n (line ++ crlf ++ rest), hlast, List.append_nil]
  · refine ⟨[(line ++ crlf ++ rest).take n, (line ++ crlf ++ rest).drop n], ?_, ?_, hfirst _⟩
    · rintro c hc
      rcases List.mem_cons.mp hc with rfl | hc
      · exact hne
      · rwa [List.mem_singleton.mp hc]
    · rw [List.flatten_cons, List.flatten_singleton, List.take_append_drop]

end Read

/-! ## What is taken from it -/

section Verdict

variable {line rest b : Bytes} {s : Str} {expectStatus : List UInt16}

theorem lines_append_cons {x : Str} (hx : '\n' ∉ x) (rest : Str) :
    lines (x ++ '\n' :: rest) = stripCarriageReturn x :: lines rest := by
  obtain ⟨done, last, h⟩ := exists_splitOn '\n' rest
  rw [lines, lines, List.splitOn_append_cons_self_of_not_mem hx, h, ← List.cons_append]
  simp only [List.dropLast_concat, List.getLast?_concat]
  rfl

/-- The first line does not depend on what follows a line ending. -/
theorem head_lines (s rest : Str) :
    (lines (s ++ '\n' :: rest)).head? = (lines (s ++ ['\n'])).head? := by
  obtain ⟨x, more, hs, hx⟩ := List.eq_append_cons_of_mem (show '\n' ∈ s ++ ['\n'] by simp)
  rw [← List.singleton_append, ← List.append_assoc, hs, List.append_assoc, List.cons_append,
    lines_append_cons hx, lines_append_cons hx]
  rfl

theorem fromUtf8_crlf : fromUtf8 (line ++ crlf ++ rest) =
    (fromUtf8 line).bind fun s ↦ (fromUtf8 rest).map fun t ↦ s ++ '\r' :: '\n' :: t := by
  have hcr : fromUtf8 (line ++ 0x0d :: (0x0a :: rest)) = _ :=
    fromUtf8_append_cons (show String.utf8EncodeChar '\r' = [0x0d] by decide)
  have hlf : fromUtf8 ([] ++ 0x0a :: rest) = _ :=
    fromUtf8_append_cons (show String.utf8EncodeChar '\n' = [0x0a] by decide)
  have hnil : fromUtf8 [] = some [] := fromUtf8_eq_some.mpr rfl
  rw [List.nil_append, hnil, Option.bind_some] at hlf
  rw [List.append_assoc, show crlf ++ rest = 0x0d :: 0x0a :: rest from rfl, hcr, hlf]
  simp only [Option.map_map]
  rfl

theorem parseStatus_append {t : Str} (hrest : fromUtf8 rest = some t) :
    parseStatus (line ++ crlf ++ rest) = parseStatus (line ++ crlf) := by
  have hnil : fromUtf8 [] = some [] := fromUtf8_eq_some.mpr rfl
  have halone : fromUtf8 (line ++ crlf ++ []) = _ := fromUtf8_crlf
  rw [List.append_nil, hnil] at halone
  rw [parseStatus, parseStatus, fromUtf8_crlf, halone, hrest]
  cases fromUtf8 line with
  | none => rfl
  | some s =>
    simp only [Option.bind_some, Option.map_some]
    have hhead := head_lines (s ++ ['\r']) t
    rw [List.append_assoc, List.append_assoc] at hhead
    rw [show s ++ '\r' :: '\n' :: t = s ++ (['\r'] ++ '\n' :: t) from rfl, hhead]
    rfl

theorem parseStatus_eq_notUtf8 : parseStatus b = .error .notUtf8 ↔ fromUtf8 b = none := by
  rw [parseStatus]
  cases fromUtf8 b with
  | none => exact iff_of_true rfl rfl
  | some text =>
    refine iff_of_false ?_ (by simp)
    dsimp only
    repeat' split
    all_goals simp

theorem judgeResponse_eq_notUtf8 (hb : b ≠ []) :
    judgeResponse expectStatus b = .error .notUtf8 ↔ fromUtf8 b = none := by
  rw [judgeResponse, if_neg hb, ← parseStatus_eq_notUtf8]
  cases parseStatus b with
  | error fault => simp
  | ok status =>
    dsimp only
    split_ifs <;> simp

end Verdict

/-- However the response is delivered, its verdict is that of the status line alone. -/
def StatusLineDecides (expectStatus : List UInt16) (line rest : Bytes) : Prop :=
  ∀ chunks : List Bytes, (∀ c ∈ chunks, c ≠ []) → chunks.flatten = line ++ crlf ++ rest →
    httpExchange expectStatus chunks =
      judgeResponse expectStatus ((line ++ crlf).take statusLineBuf)

section Decides

variable {line rest : Bytes} {expectStatus : List UInt16}

theorem exchange_eq (hline : ¬HasCrlf line) {chunks : List Bytes} (hne : ∀ c ∈ chunks, c ≠ [])
    (hchunks : chunks.flatten = line ++ crlf ++ rest) :
    httpExchange expectStatus chunks =
        judgeResponse expectStatus ((line ++ crlf).take statusLineBuf) ∨
      ∃ j ≤ statusLineBuf - (line.length + 2), line.length + 2 ≤ statusLineBuf ∧
        httpExchange expectStatus chunks =
          judgeResponse expectStatus (line ++ crlf ++ rest.take j) := by
  obtain ⟨n, hmin, hn, hread⟩ := readStatus_eq_take (k := 0) hline hne (by omega) (Nat.zero_le _)
    (by rw [hchunks, List.drop_zero])
  rw [List.take_zero] at hread
  have hlen : (line ++ crlf).length = line.length + 2 := List.length_append
  rw [httpExchange, hread]
  rcases le_or_gt (line.length + 2) statusLineBuf with hfits | hlong
  · refine .inr ⟨n - (line.length + 2), by omega, hfits, ?_⟩
    rw [List.take_append, List.take_of_length_le (by omega), hlen]
  · refine .inl ?_
    rw [show n = statusLineBuf by omega, List.take_append_of_le_length (by omega)]

theorem exists_first_nonascii {b : Bytes} {x : UInt8} (hx : x ∈ b) (h : 0x80 ≤ x) :
    ∃ p y q, b = p ++ y :: q ∧ (∀ z ∈ p, z < 0x80) ∧ 0x80 ≤ y := by
  have hsplit := List.takeWhile_append_dropWhile (p := fun z : UInt8 ↦ decide (z < 0x80)) (l := b)
  have hfront : ∀ z ∈ b.takeWhile fun z ↦ decide (z < 0x80), z < 0x80 := by
    intro z hz
    simpa using List.mem_takeWhile_imp hz
  cases hdrop : b.dropWhile fun z ↦ decide (z < 0x80) with
  | nil =>
    rw [hdrop, List.append_nil] at hsplit
    exact absurd (hfront x (by rwa [hsplit])) (UInt8.not_lt.mpr h)
  | cons y q =>
    rw [hdrop] at hsplit
    have hy := List.head_dropWhile_not (fun z : UInt8 ↦ decide (z < 0x80)) (l := b)
      (by simp [hdrop])
    simp only [hdrop, List.head_cons, decide_eq_false_iff_not] at hy
    exact ⟨_, y, q, hsplit.symm, hfront, UInt8.not_lt.mp hy⟩

theorem judgeResponse_of_no_text (hline : fromUtf8 line = none) (t : Bytes) :
    judgeResponse expectStatus (line ++ crlf ++ t) = .error .notUtf8 := by
  rw [judgeResponse_eq_notUtf8 (by simp [crlf]), fromUtf8_crlf, hline]
  rfl

/-- A text behind the status line does not change the verdict. -/
theorem judgeResponse_append {t : Str} (hrest : fromUtf8 rest = some t) :
    judgeResponse expectStatus (line ++ crlf ++ rest) =
      judgeResponse expectStatus (line ++ crlf) := by
  rw [judgeResponse, judgeResponse, if_neg (by simp [crlf]), if_neg (by simp [crlf]),
    parseStatus_append hrest]

theorem statusLineDecides_of_ascii (hline : ¬HasCrlf line) (h : fromUtf8 line = none ∨
    ∀ b ∈ rest.take (statusLineBuf - (line.length + 2)), b < 0x80) :
    StatusLineDecides expectStatus line rest := by
  intro chunks hchunks hflat
  rcases exchange_eq hline hchunks hflat with heq | ⟨j, hj, hfits, heq⟩
  · exact heq
  have hlen : (line ++ crlf).length = line.length + 2 := List.length_append
  rw [heq, List.take_of_length_le (l := line ++ crlf) (by omega)]
  rcases h with hnone | hascii
  · rw [judgeResponse_of_no_text hnone, ← List.append_nil (line ++ crlf),
      judgeResponse_of_no_text hnone]
  · obtain ⟨s, hs⟩ := exists_toUtf8_of_ascii (b := rest.take j) fun b hb ↦
      hascii b ((List.take_prefix_take_left hj).subset hb)
    exact judgeResponse_append (fromUtf8_eq_some.mpr hs.symm)

variable (expectStatus) in
/-- The first byte behind the status line that is not ASCII can be where a delivery is cut. -/
theorem exists_cut_delivery (hline : ¬HasCrlf line) {x : UInt8}
    (hx : x ∈ rest.take (statusLineBuf - (line.length + 2))) (h : 0x80 ≤ x) :
    ∃ chunks : List Bytes, (∀ c ∈ chunks, c ≠ []) ∧ chunks.flatten = line ++ crlf ++ rest ∧
      httpExchange expectStatus chunks = .error .notUtf8 := by
  have hlen : (line ++ crlf).length = line.length + 2 := List.length_append
  obtain ⟨p, y, q, hsplit, hp, hy⟩ := exists_first_nonascii hx h
  have hq : p.length + 1 ≤ statusLineBuf - (line.length + 2) := by
    have hsplit := congrArg List.length hsplit
    rw [List.length_take, List.length_append, List.length_cons] at hsplit
    omega
  have hfront : rest.take (p.length + 1) = p ++ [y] := by
    rw [← min_eq_left hq, ← List.take_take, hsplit, List.take_length_add_append]
    rfl
  obtain ⟨chunks, hchunks, hflat, hread⟩ := exists_delivery rest hline
    (show line.length + 2 ≤ line.length + 2 + (p.length + 1) by omega) (by omega)
  refine ⟨chunks, hchunks, hflat, ?_⟩
  rw [httpExchange, hread, ← hlen, List.take_length_add_append, hfront,
    judgeResponse_eq_notUtf8 (by simp [crlf]), fromUtf8_crlf, fromUtf8_concat hp hy]
  cases fromUtf8 line <;> rfl

/-- **When the status line decides.** It does for every delivery exactly when it is no text itself,
or when what follows it is ASCII as far as the buffer goes. -/
theorem statusLineDecides_iff (hline : ¬HasCrlf line) :
    StatusLineDecides expectStatus line rest ↔ fromUtf8 line = none ∨
      ∀ b ∈ rest.take (statusLineBuf - (line.length + 2)), b < 0x80 := by
  refine ⟨fun hdecides ↦ ?_, statusLineDecides_of_ascii hline⟩
  by_contra hcond
  push Not at hcond
  obtain ⟨htext, b, hb, hb'⟩ := hcond
  obtain ⟨chunks, hchunks, hflat, hcut⟩ := exists_cut_delivery expectStatus hline hb
    (UInt8.not_lt.mp hb')
  have hverdict := hdecides chunks hchunks hflat
  have hfits : line.length + 2 ≤ statusLineBuf := by
    by_contra hlong
    rw [Nat.sub_eq_zero_of_le (by omega), List.take_zero] at hb
    exact absurd hb (by simp)
  have hlen : (line ++ crlf).length = line.length + 2 := List.length_append
  obtain ⟨s, hs⟩ := Option.ne_none_iff_exists'.mp htext
  have hnil : fromUtf8 [] = some [] := fromUtf8_eq_some.mpr rfl
  rw [hcut, List.take_of_length_le (by omega), eq_comm, judgeResponse_eq_notUtf8 (by simp [crlf]),
    ← List.append_nil (line ++ crlf), fromUtf8_crlf, hs, hnil] at hverdict
  exact absurd hverdict (by simp)

end Decides

/-! ## A response with a header in Latin-1 or UTF-8 -/

def okLine : Bytes := toUtf8 "HTTP/1.1 200 OK".toList

/-- A header in ASCII leaves the decision to the status line, one with a letter beyond it does
not. -/
theorem statusLineDecides_okLine : ¬HasCrlf okLine ∧
    StatusLineDecides [200] okLine (toUtf8 "X: y".toList) ∧
      ¬StatusLineDecides [200] okLine (toUtf8 "X: é".toList) := by
  have hline : ¬HasCrlf okLine := by decide +kernel
  refine ⟨hline, (statusLineDecides_iff hline).mpr (.inr (by decide +kernel)), fun h ↦ ?_⟩
  exact absurd ((statusLineDecides_iff hline).mp h) (by decide +kernel)

/-- A read that ends inside a character fails the probe. -/
theorem not_httpExchange_same :
    ¬∀ (expectStatus : List UInt16) (line rest : Bytes) (chunks chunks' : List Bytes),
      line.length + 2 ≤ statusLineBuf → ¬HasCrlf line →
      (∀ c ∈ chunks, c ≠ []) → chunks.flatten = line ++ crlf ++ rest →
      (∀ c ∈ chunks', c ≠ []) → chunks'.flatten = line ++ crlf ++ rest →
      httpExchange expectStatus chunks = httpExchange expectStatus chunks' := by
  intro h
  have hsame := h [200] okLine [0x58, 0xc3, 0xa9] [okLine ++ crlf ++ [0x58, 0xc3], [0xa9]]
    [okLine ++ crlf, [0x58, 0xc3, 0xa9]] (by decide +kernel) (by decide +kernel)
    (by decide +kernel) (by decide +kernel) (by decide +kernel) (by decide +kernel)
  exact absurd hsame (by decide +kernel)

end SniGate
