import SniGate.Peek.Lines
import SniGate.Text.Trim

/-!
# Complete request heads

The sender's side of the request parser: a request line, header lines and a blank line, each ended
by a carriage return and a line feed or by a line feed alone, and then any body. On such a buffer
the parser answers with the value of the first `Host` line of the head, and the body has no say
(`parseHttpHost_encode`).
-/

namespace SniGate

/-! ## Heads -/

/-- How a line is ended. -/
inductive LineEnd
  | crlf
  | lf
deriving DecidableEq, Repr

/-- What stands before the line feed. -/
def LineEnd.cr : LineEnd → Bytes
  | .crlf => [0x0d]
  | .lf => []

/-- One header line. -/
structure HeaderLine where
  octets : Bytes
  ending : LineEnd
  ne_nil : octets ≠ []
  noCr : 0x0d ∉ octets
  noLf : 0x0a ∉ octets

/-- The line without its line feed. -/
def HeaderLine.text (l : HeaderLine) : Bytes := l.octets ++ l.ending.cr

/-- A request head, up to its blank line. -/
structure RequestHead where
  requestLine : Bytes
  requestEnd : LineEnd
  headers : List HeaderLine
  blankEnd : LineEnd
  accepted : looksLikeHttp requestLine
  noLf : 0x0a ∉ requestLine

namespace RequestHead

variable (h : RequestHead)

/-- The lines without their line feeds. -/
def lines : List Bytes :=
  (h.requestLine ++ h.requestEnd.cr) :: (h.headers.map HeaderLine.text ++ [h.blankEnd.cr])

def encode : Bytes := h.lines.flatMap (· ++ [0x0a])

/-- The value of the first `Host` line, if there is one and it is a text that is not empty. -/
def host : Option Str :=
  (h.headers.findSome? fun l ↦ hostField l.octets).bind fun value ↦
    (fromUtf8 (trimAscii value)).filter (· ≠ [])

end RequestHead

/-! ## Lines of a head -/

section HeadLines

variable {line name : Bytes} {lines more : List Bytes} {headers : List HeaderLine} {i : ℕ}

theorem LineEnd.noLf (e : LineEnd) : 0x0a ∉ e.cr := by cases e <;> decide

theorem LineEnd.isBlank (e : LineEnd) : IsBlank e.cr := by cases e <;> decide

theorem HeaderLine.noLf_text (l : HeaderLine) : 0x0a ∉ l.text := by
  rw [text, List.mem_append, not_or]
  exact ⟨l.noLf, l.ending.noLf⟩

theorem HeaderLine.stripCr_text (l : HeaderLine) : stripCr l.text = l.octets := by
  rw [text]
  cases l.ending with
  | crlf => exact stripCr_append_cr
  | lf =>
    rw [LineEnd.cr, List.append_nil]
    exact stripCr_of_ne fun hcr ↦ l.noCr (List.mem_of_getLast? hcr)

/-- Every method token has two characters that stay in front of a name and are not those of
`host`. -/
theorem start_of_mem_methods : ∀ m ∈ methods, 0x3a ∉ m ∧ 2 ≤ m.length ∧
    isAsciiWhitespace (m.getD 0 0) = false ∧ isAsciiWhitespace (m.getD 1 0) = false ∧
    ¬(toAsciiLowercase (m.getD 0 0) = 0x68 ∧ toAsciiLowercase (m.getD 1 0) = 0x6f) := by
  decide +kernel

theorem trimAscii_cons_cons {c d : UInt8} (hc : isAsciiWhitespace c = false)
    (hd : isAsciiWhitespace d = false) :
    trimAscii (c :: d :: name) = c :: d :: name.rdropWhile isAsciiWhitespace := by
  rw [trimAscii, List.dropWhile_cons_of_neg (by simp [hc])]
  exact rdropWhile_append_cons (x := [c]) hd

/-- The name on a request line begins with the method, and so it is not `host`. -/
theorem hostField_of_looksLikeHttp (h : looksLikeHttp line) : hostField line = none := by
  rcases noColon_or_append line with hnone | ⟨name, value, hname, rfl⟩
  · exact hostField_of_noColon hnone
  obtain ⟨m, hm, hfits⟩ := List.any_eq_true.mp h
  obtain ⟨-, htake⟩ := of_decide_eq_true hfits
  obtain ⟨hcolon, hlen, hc, hd, hhost⟩ := start_of_mem_methods m hm
  -- a method token does not reach to the colon
  have hline : m <+: name ++ 0x3a :: value := List.prefix_iff_eq_take.mpr htake.symm
  have hpre : m <+: name := by
    by_cases hshort : m.length ≤ name.length
    · exact List.prefix_of_prefix_length_le hline (List.prefix_append _ _) hshort
    · have hcut : name ++ [0x3a] <+: m := by
        refine List.prefix_of_prefix_length_le ⟨value, by simp⟩ hline ?_
        rw [List.length_append, List.length_singleton]
        omega
      exact absurd (hcut.subset (List.mem_append_right _ (List.mem_singleton_self _))) hcolon
  rcases m with _ | ⟨c, _ | ⟨d, m⟩⟩
  · exact absurd hlen (by simp)
  · exact absurd hlen (by simp)
  obtain ⟨t, rfl⟩ := hpre
  have htrim : trimAscii (c :: d :: m ++ t) = c :: d :: (m ++ t).rdropWhile isAsciiWhitespace :=
    trimAscii_cons_cons hc hd
  rw [hostField_append hname, if_neg]
  intro heq
  rw [htrim] at heq
  obtain ⟨hfirst, htail⟩ := List.cons.inj (of_decide_eq_true heq)
  exact hhost ⟨hfirst.trans (by decide), (List.cons.inj htail).1.trans (by decide)⟩

/-! ## The two passes -/

theorem isSome_headerBlockEndFrom {ls : List Bytes} {body : Bytes} (hline : 0x0a ∉ line)
    (hls : ∀ l ∈ ls, 0x0a ∉ l) (hblank : IsBlank name) :
    (headerBlockEndFrom i
      (line ++ 0x0a :: (ls.flatMap (· ++ [0x0a]) ++ (name ++ 0x0a :: body)))).isSome := by
  induction ls generalizing line i with
  | nil =>
    rw [List.flatMap_nil, List.nil_append, headerBlockEndFrom_blank hline hblank]
    rfl
  | cons l ls ih =>
    by_cases hfirst : ∃ blank rest, IsBlank blank ∧
        (l :: ls).flatMap (· ++ [0x0a]) ++ (name ++ 0x0a :: body) = blank ++ 0x0a :: rest
    · obtain ⟨blank, rest, hb, heq⟩ := hfirst
      rw [heq, headerBlockEndFrom_blank hline hb]
      rfl
    · rw [headerBlockEndFrom_skip hline fun blank rest hb heq ↦ hfirst ⟨blank, rest, hb, heq⟩,
        List.flatMap_cons, List.append_assoc, List.append_assoc]
      exact ih (hls l List.mem_cons_self) fun l' hl' ↦ hls l' (List.mem_cons_of_mem _ hl')

/-- The scan stops at the first `Host` line, or at the blank line. -/
theorem scanHeaderLines_headers (hblank : IsBlank name) :
    scanHeaderLines (headers.map HeaderLine.text ++ name :: more) =
      (headers.findSome? fun l ↦ hostField l.octets).map hostValue := by
  induction headers with
  | nil => exact scanHeaderLines_of_blank hblank
  | cons l headers ih =>
    have hfull : ¬IsBlank l.text := by
      rw [IsBlank, l.stripCr_text]
      exact l.ne_nil
    have hfield : hostField l.octets = (hostField l.text).map stripCr := by
      rw [← hostField_stripCr, l.stripCr_text]
    rw [List.map_cons, List.cons_append, scanHeaderLines_cons, if_neg hfull, List.findSome?_cons,
      hfield]
    cases hostField l.text with
    | none => exact ih
    | some value => simp only [Option.map_some, hostValue_stripCr]

end HeadLines

namespace RequestHead

variable (h : RequestHead)

theorem notMem_lines : ∀ line ∈ h.lines, 0x0a ∉ line := by
  intro line hline
  rcases List.mem_cons.mp hline with rfl | hline
  · rw [List.mem_append, not_or]
    exact ⟨h.noLf, h.requestEnd.noLf⟩
  rcases List.mem_append.mp hline with hline | hline
  · obtain ⟨l, -, rfl⟩ := List.mem_map.mp hline
    exact l.noLf_text
  · rw [List.mem_singleton.mp hline]
    exact h.blankEnd.noLf

theorem encode_append (body : Bytes) : h.encode ++ body =
    (h.requestLine ++ h.requestEnd.cr) ++ 0x0a ::
      ((h.headers.map HeaderLine.text).flatMap (· ++ [0x0a]) ++
        (h.blankEnd.cr ++ 0x0a :: body)) := by
  simp [encode, lines]

theorem looksLikeHttp_lines (t : Bytes) :
    looksLikeHttp (h.requestLine ++ h.requestEnd.cr ++ t) := by
  rw [List.append_assoc]
  exact looksLikeHttp_of_isPrefix (List.prefix_append _ _) h.accepted

theorem scanHeaderLines_lines (more : List Bytes) : scanHeaderLines (h.lines ++ more) =
    (h.headers.findSome? fun l ↦ hostField l.octets).map hostValue := by
  have hhttp : looksLikeHttp (h.requestLine ++ h.requestEnd.cr) := by
    have hlines := h.looksLikeHttp_lines []
    rwa [List.append_nil] at hlines
  have hfull : ¬IsBlank (h.requestLine ++ h.requestEnd.cr) := by
    intro hblank
    rcases isBlank_iff.mp hblank with hnil | hcr
    · rw [hnil] at hhttp
      exact absurd hhttp (by decide +kernel)
    · rw [hcr] at hhttp
      exact absurd hhttp (by decide +kernel)
  rw [lines, List.cons_append, scanHeaderLines_cons, if_neg hfull,
    hostField_of_looksLikeHttp hhttp, List.append_assoc]
  exact scanHeaderLines_headers h.blankEnd.isBlank

/-- **The head decides.** On a complete head, whatever its lines and line endings and whatever the
body, the parser answers with the value of the first `Host` line of the head. -/
theorem parseHttpHost_encode (body : Bytes) : parseHttpHost (h.encode ++ body) =
    match h.host with
    | some v => .host v
    | none => .noHost := by
  have hhttp : looksLikeHttp (h.encode ++ body) := by
    rw [h.encode_append]
    exact h.looksLikeHttp_lines _
  have hend : (headerBlockEnd (h.encode ++ body)).isSome := by
    rw [h.encode_append]
    refine isSome_headerBlockEndFrom (h.notMem_lines _ List.mem_cons_self) (fun l hl ↦ ?_)
      h.blankEnd.isBlank
    exact h.notMem_lines l (List.mem_cons_of_mem _ (List.mem_append_left _ hl))
  rw [parseHttpHost_of_looksLikeHttp hhttp, hend, encode, splitOn_flatMap h.notMem_lines,
    h.scanHeaderLines_lines, host]
  cases h.headers.findSome? fun l ↦ hostField l.octets with
  | none => rfl
  | some value =>
    rw [Option.map_some, Option.bind_some, hostValue]
    cases fromUtf8 (trimAscii value) with
    | none => rfl
    | some v =>
      by_cases hv : v = []
      · simp [hv, Option.filter]
      · simp [hv, Option.filter]

end RequestHead

end SniGate
