import SniGate.Bytes.Checked
import SniGate.Peek.Lines
import SniGate.Peek.Tls

/-!
# The parsers do not fault

The parsers run on bytes that anyone can send. Here they are written again with every index, range
and sum as an operation that can fault, and with loops that fault where a pass consumes nothing.
On every slice that a program can be given they answer what the parsers of `SniGate.Peek.Tls` and
`SniGate.Peek.Http` answer (`parsers_eq_ok`), so there is no fault, and the values those take past
the end of a buffer are never looked at.

## The order of the bounds

Most reads are guarded by another bound than the length of what they read from. What makes them safe
is that the end of the extension block is not behind the end of the message, that this is not behind
the end of the buffer, and that an offset is only moved over bytes that are buffered.
-/

namespace SniGate

namespace Checked

/-! ## The ClientHello parser -/

section Tls

variable (limit : ℕ) (b : Bytes)

/-- One pass over the list of names: an answer, or the next offset. -/
def serverNameStep (listEnd p : ℕ) : Except Fault (TlsParse ⊕ ℕ) := do
  let entryEnd ← add limit p 3
  if entryEnd ≤ listEnd then
    let nameType ← index b p
    let nameLen ← u16 b (← add limit p 1) (← add limit p 2)
    let nameEnd ← add limit entryEnd nameLen
    if b.length < nameEnd then .ok (.inl .needMore)
    else if nameType = 0x00 then
      let name ← slice b entryEnd nameEnd
      .ok <| .inl <|
        match fromUtf8 name with
        | some s => if s ≠ [] then .sni s else .noSni
        | none => .noSni
    else .ok (.inr nameEnd)
  else .ok (.inl .noSni)

/-- `parse_sni_extension`. -/
def parseSniExtension : Except Fault TlsParse :=
  if b.length < 2 then .ok .needMore
  else do
    let listLen ← u16 b 0 1
    let listEnd ← add limit 2 listLen
    loop (fun p ↦ b.length - p) (serverNameStep limit b (min listEnd b.length)) 2

/-- One pass over the extensions: an answer, or the next offset. -/
def extensionStep (extEnd p : ℕ) : Except Fault (TlsParse ⊕ ℕ) := do
  let dataStart ← add limit p 4
  if dataStart ≤ extEnd then
    let extType ← u16 b p (← add limit p 1)
    let extLen ← u16 b (← add limit p 2) (← add limit p 3)
    let dataEnd ← add limit dataStart extLen
    if b.length < dataEnd then .ok (.inl .needMore)
    else if extType = 0x0000 then
      let answer ← parseSniExtension limit (← slice b dataStart dataEnd)
      .ok (.inl answer)
    else .ok (.inr dataEnd)
  else if extEnd < p then .ok (.inl .needMore)
  else .ok (.inl .noSni)

/-- The parser from the extension block on. -/
def parseExtensions (hsEnd p : ℕ) : Except Fault TlsParse := do
  let extTotal ← u16 b p (← add limit p 1)
  let p ← add limit p 2
  let extEnd ← add limit p extTotal
  loop (fun p ↦ b.length - p) (extensionStep limit b (min extEnd hsEnd)) p

/-- The parser from the cipher suites on. -/
def parseSuites (hsEnd p : ℕ) : Except Fault TlsParse := do
  if hsEnd < (← add limit p 2) then .ok .needMore
  else do
    let csLen ← u16 b p (← add limit p 1)
    let p ← add limit p (← add limit 2 csLen)
    if hsEnd < (← add limit p 1) then .ok .needMore
    else do
      let compLen ← index b p
      let p ← add limit p (← add limit 1 compLen)
      if hsEnd < (← add limit p 2) then .ok (if p ≤ hsEnd then .noSni else .needMore)
      else parseExtensions limit b hsEnd p

/-- The parser from the body of the message on. -/
def parseBody (hsEnd p : ℕ) : Except Fault TlsParse :=
  -- `checked_add`
  if limit ≤ p + 34 then .ok .notClientHello
  else if hsEnd < p + 34 then .ok .needMore
  else
    match b[p + 34]? with
    | none => .ok .needMore
    | some sidLen => do
      let p ← add limit (p + 34) (← add limit 1 sidLen.toNat)
      parseSuites limit b hsEnd p

/-- `parse_tls_sni`. -/
def parseTlsSni : Except Fault TlsParse :=
  if b.length < 5 then .ok .needMore
  else do
    if (← index b 0) ≠ 0x16 then .ok .notClientHello
    else do
      let recLen ← u16 b 3 4
      let recEnd ← add limit 5 recLen
      if min recEnd b.length < (← add limit 5 4) then .ok .needMore
      else do
        if (← index b 5) ≠ 0x01 then .ok .notClientHello
        else do
          let hi ← index b (← add limit 5 1)
          let mid ← index b (← add limit 5 2)
          let lo ← index b (← add limit 5 3)
          let p ← add limit 5 4
          let hsEnd ← add limit p (hi * 65536 + mid * 256 + lo)
          parseBody limit b (min hsEnd b.length) p

end Tls

section TlsOk

variable {limit : ℕ} {b : Bytes} {p e hsEnd : ℕ}

theorem serverNameStep_eq_ok (hlimit : b.length + 16777216 ≤ limit) (he : e ≤ b.length)
    (hp : p ≤ b.length) :
    serverNameStep limit b e p = .ok (.inl (walkServerNames b e p)) ∨
      ∃ p', serverNameStep limit b e p = .ok (.inr p') ∧ p' ≤ b.length ∧
        b.length - p' < b.length - p ∧ walkServerNames b e p' = walkServerNames b e p := by
  have hlen := u16At_lt b (p + 1)
  rw [serverNameStep, add_eq_ok (by omega), ok_bind]
  by_cases hentry : p + 3 ≤ e
  swap
  · rw [if_neg hentry, walkServerNames_of_end (by omega)]
    exact .inl rfl
  rw [if_pos hentry, index_eq_ok (by omega), ok_bind, add_eq_ok (by omega), ok_bind,
    add_eq_ok (by omega), ok_bind, u16_eq_ok rfl (by omega), ok_bind, add_eq_ok (by omega), ok_bind]
  by_cases hshort : b.length < p + 3 + u16At b (p + 1)
  · rw [if_pos hshort, walkServerNames_of_truncated hentry hshort]
    exact .inl rfl
  rw [if_neg hshort]
  by_cases htype : byteAt b p = 0x00
  · rw [if_pos htype, slice_eq_ok rfl (by omega), ok_bind,
      walkServerNames_of_hostName hentry (by omega) htype]
    exact .inl rfl
  · rw [if_neg htype]
    refine .inr ⟨_, rfl, by omega, by omega, ?_⟩
    exact (walkServerNames_of_other hentry (by omega) htype).symm

/-- `parse_sni_extension` does not fault. -/
theorem parseSniExtension_eq_ok (hlimit : b.length + 16777216 ≤ limit) :
    parseSniExtension limit b = .ok (SniGate.parseSniExtension b) := by
  have hlen := u16At_lt b 0
  rw [parseSniExtension, SniGate.parseSniExtension]
  by_cases hshort : b.length < 2
  · rw [if_pos hshort, if_pos hshort]
  rw [if_neg hshort, if_neg hshort, u16_eq_ok rfl (by omega), ok_bind, add_eq_ok (by omega),
    ok_bind]
  exact loop_eq_ok (· ≤ b.length) (walkServerNames b _)
    (fun p hp ↦ serverNameStep_eq_ok hlimit (min_le_right _ _) hp) (show 2 ≤ b.length by omega)

theorem extensionStep_eq_ok (hlimit : b.length + 16777216 ≤ limit) (he : e ≤ b.length)
    (hp : p ≤ b.length) :
    extensionStep limit b e p = .ok (.inl (walkExtensions b e p)) ∨
      ∃ p', extensionStep limit b e p = .ok (.inr p') ∧ p' ≤ b.length ∧
        b.length - p' < b.length - p ∧ walkExtensions b e p' = walkExtensions b e p := by
  have hlen := u16At_lt b (p + 2)
  rw [extensionStep, add_eq_ok (by omega), ok_bind]
  by_cases hhead : p + 4 ≤ e
  swap
  · rw [if_neg hhead, walkExtensions_of_end (by omega)]
    left
    split_ifs <;> rfl
  rw [if_pos hhead, add_eq_ok (by omega), ok_bind, u16_eq_ok rfl (by omega), ok_bind,
    add_eq_ok (by omega), ok_bind, add_eq_ok (by omega), ok_bind, u16_eq_ok rfl (by omega), ok_bind,
    add_eq_ok (by omega), ok_bind]
  by_cases hshort : b.length < p + 4 + u16At b (p + 2)
  · rw [if_pos hshort, walkExtensions_of_truncated hhead hshort]
    exact .inl rfl
  rw [if_neg hshort]
  by_cases htype : u16At b p = 0x0000
  · have hbody : (sliceAt b (p + 4) (u16At b (p + 2))).length ≤ b.length := by
      rw [length_sliceAt (by omega)]
      omega
    rw [if_pos htype, slice_eq_ok rfl (by omega), ok_bind, parseSniExtension_eq_ok (by omega),
      walkExtensions_of_serverName hhead (by omega) htype]
    exact .inl rfl
  · rw [if_neg htype]
    refine .inr ⟨_, rfl, by omega, by omega, ?_⟩
    exact (walkExtensions_of_other hhead (by omega) htype).symm

/-- The end of the message is not behind the end of the buffer, so neither is that of the block. -/
theorem parseExtensions_eq_ok (hlimit : b.length + 16777216 ≤ limit) (he : hsEnd ≤ b.length)
    (hp : p + 2 ≤ hsEnd) : parseExtensions limit b hsEnd p =
      .ok (walkExtensions b (min (p + 2 + u16At b p) hsEnd) (p + 2)) := by
  have hlen := u16At_lt b p
  rw [parseExtensions, add_eq_ok (by omega), ok_bind, u16_eq_ok rfl (by omega), ok_bind,
    add_eq_ok (by omega), ok_bind, add_eq_ok (by omega), ok_bind]
  exact loop_eq_ok (· ≤ b.length) (walkExtensions b _)
    (fun q hq ↦ extensionStep_eq_ok hlimit ((min_le_right _ _).trans he) hq)
    (show p + 2 ≤ b.length by omega)

theorem parseSuites_eq_ok (hlimit : b.length + 16777216 ≤ limit) (he : hsEnd ≤ b.length)
    (hp : p ≤ b.length + 256) : parseSuites limit b hsEnd p = .ok (
      if hsEnd < p + 2 then .needMore
      else
        let p := p + (2 + u16At b p)
        if hsEnd < p + 1 then .needMore
        else
          let p := p + (1 + byteAt b p)
          if hsEnd < p + 2 then
            if p ≤ hsEnd then .noSni else .needMore
          else walkExtensions b (min (p + 2 + u16At b p) hsEnd) (p + 2)) := by
  have hsuites := u16At_lt b p
  have hcompression := byteAt_lt b (p + (2 + u16At b p))
  rw [parseSuites, add_eq_ok (by omega), ok_bind]
  by_cases hshort : hsEnd < p + 2
  · rw [if_pos hshort, if_pos hshort]
  rw [if_neg hshort, if_neg hshort, add_eq_ok (by omega), ok_bind, u16_eq_ok rfl (by omega),
    ok_bind, add_eq_ok (by omega), ok_bind, add_eq_ok (by omega), ok_bind, add_eq_ok (by omega),
    ok_bind]
  dsimp only
  by_cases hshort' : hsEnd < p + (2 + u16At b p) + 1
  · rw [if_pos hshort', if_pos hshort']
  rw [if_neg hshort', if_neg hshort', index_eq_ok (by omega), ok_bind, add_eq_ok (by omega),
    ok_bind, add_eq_ok (by omega), ok_bind, add_eq_ok (by omega), ok_bind]
  by_cases hnone : hsEnd < p + (2 + u16At b p) + (1 + byteAt b (p + (2 + u16At b p))) + 2
  · rw [if_pos hnone, if_pos hnone]
  · rw [if_neg hnone, if_neg hnone, parseExtensions_eq_ok hlimit he (by omega)]

/-- `parse_tls_sni` does not fault. -/
theorem parseTlsSni_eq_ok (hlimit : b.length + 2147483648 ≤ limit) :
    parseTlsSni limit b = .ok (SniGate.parseTlsSni b) := by
  have hrec := u16At_lt b 3
  have hsid := byteAt_lt b 43
  have hlen : byteAt b (5 + 1) * 65536 + byteAt b (5 + 2) * 256 + byteAt b (5 + 3) =
    u24At b 6 := rfl
  have hlt := u24At_lt b 6
  rw [parseTlsSni, SniGate.parseTlsSni]
  by_cases hshort : b.length < 5
  · rw [if_pos hshort, if_pos hshort]
  rw [if_neg hshort, if_neg hshort, index_eq_ok (by omega), ok_bind]
  by_cases hrecord : byteAt b 0 ≠ 0x16
  · rw [if_pos hrecord, if_pos hrecord]
  rw [if_neg hrecord, if_neg hrecord, u16_eq_ok rfl (by omega), ok_bind, add_eq_ok (by omega),
    ok_bind, add_eq_ok (by omega), ok_bind]
  dsimp only
  by_cases hheader : min (5 + u16At b 3) b.length < 9
  · rw [if_pos hheader, if_pos hheader]
  rw [if_neg hheader, if_neg hheader, index_eq_ok (by omega), ok_bind]
  by_cases hhello : byteAt b 5 ≠ 0x01
  · rw [if_pos hhello, if_pos hhello]
  rw [if_neg hhello, if_neg hhello, add_eq_ok (by omega), ok_bind, index_eq_ok (by omega), ok_bind,
    add_eq_ok (by omega), ok_bind, index_eq_ok (by omega), ok_bind, add_eq_ok (by omega), ok_bind,
    index_eq_ok (by omega), ok_bind, ok_bind, hlen, add_eq_ok (by omega), ok_bind, parseBody,
    if_neg (by omega)]
  simp only [Nat.reduceAdd]
  by_cases hbody : min (9 + u24At b 6) b.length < 43
  · rw [if_pos hbody, if_pos hbody]
  rw [if_neg hbody, if_neg hbody]
  by_cases hsession : b.length ≤ 43
  · rw [if_pos hsession, List.getElem?_eq_none hsession]
  have hsome : b[43]? = some (b.getD 43 0) := by
    rw [List.getD_eq_getElem?_getD, List.getElem?_eq_getElem (by omega)]
    rfl
  have hbyte : (b.getD 43 0).toNat = byteAt b 43 := rfl
  rw [if_neg hsession, hsome]
  dsimp only
  rw [hbyte, add_eq_ok (by omega), ok_bind, add_eq_ok (by omega), ok_bind,
    parseSuites_eq_ok (by omega) (min_le_right _ _) (by omega)]

end TlsOk

/-! ## The request parser -/

section Http

variable (limit : ℕ) (b : Bytes)

/-- One pass of the search for the blank line: what was found, or the next index. -/
def headerBlockStep (i : ℕ) : Except Fault (Option ℕ ⊕ ℕ) :=
  match b[i]? with
  | none => .ok (.inl none)
  | some c =>
    if c = 0x0a then do
      let rest ← slice b (← add limit i 1) b.length
      match rest with
      | 0x0a :: _ =>
        let blockEnd ← add limit i 2
        .ok (.inl (some blockEnd))
      | 0x0d :: 0x0a :: _ =>
        let blockEnd ← add limit i 3
        .ok (.inl (some blockEnd))
      | _ => .ok (.inr (i + 1))
    else .ok (.inr (i + 1))

/-- `header_block_end`. -/
def headerBlockEnd : Except Fault (Option ℕ) :=
  loop (fun i ↦ b.length - i) (headerBlockStep limit b) 0

/-- `looks_like_http`. -/
def looksLikeHttp : Except Fault Bool :=
  methods.anyM fun m ↦
    if m.length ≤ b.length then do
      let start ← slice b 0 m.length
      return start = m
    else .ok false

/-- The next line of `split`, and what it has left to split, if it is not done. -/
def nextLine (rest : Bytes) : Bytes × Option Bytes :=
  match rest.findIdx? (· = 0x0a) with
  | some i => (rest.take i, some (rest.drop (i + 1)))
  | none => (rest, none)

/-- The body of the loop over the lines: an answer, or that the loop goes on. -/
def lineStep (line : Bytes) (next : Option Bytes) :
    Except Fault (Option HttpParse ⊕ Option Bytes) :=
  let line := stripCr line
  if line = [] then .ok (.inl none)
  else
    match line.findIdx? (· = 0x3a) with
    | none => .ok (.inr next)
    | some colon => do
      let name ← slice line 0 colon
      if eqIgnoreAsciiCase (trimAscii name) (toUtf8 "host".toList) then do
        let value ← slice line (← add limit colon 1) line.length
        .ok (.inl (some (hostValue value)))
      else .ok (.inr next)

/-- One pass over the lines. -/
def headerLineStep : Option Bytes → Except Fault (Option HttpParse ⊕ Option Bytes)
  | none => .ok (.inl none)
  | some rest => lineStep limit (nextLine rest).1 (nextLine rest).2

/-- The head, up to its end if that is known. -/
def boundHead : Option ℕ → Except Fault Bytes
  | some e => slice b 0 e
  | none => .ok b

/-- `parse_http_host`. -/
def parseHttpHost : Except Fault HttpParse := do
  if !(← looksLikeHttp b) then .ok .notHttp
  else do
    let headEnd ← headerBlockEnd limit b
    let head ← boundHead b headEnd
    let found ← loop (fun state ↦ (state.getD []).length) (headerLineStep limit) (some head)
    match found with
    | some answer => .ok answer
    | none => .ok (if headEnd.isSome then .noHost else .needMore)

end Http

section HttpOk

variable {limit i : ℕ} {b line rest : Bytes}

/-- What the line feed at `i` and the bytes behind it say. -/
theorem headerBlockEndFrom_match : headerBlockEndFrom i (0x0a :: rest) =
    match rest with
    | 0x0a :: _ => some (i + 2)
    | 0x0d :: 0x0a :: _ => some (i + 3)
    | _ => headerBlockEndFrom (i + 1) rest := by
  rw [headerBlockEndFrom.eq_def]
  exact if_pos rfl

theorem headerBlockStep_eq_ok (hlimit : b.length + 16777216 ≤ limit) :
    headerBlockStep limit b i = .ok (.inl (headerBlockEndFrom i (b.drop i))) ∨
      ∃ i', headerBlockStep limit b i = .ok (.inr i') ∧ b.length - i' < b.length - i ∧
        headerBlockEndFrom i' (b.drop i') = headerBlockEndFrom i (b.drop i) := by
  rw [headerBlockStep]
  by_cases hend : b.length ≤ i
  · rw [List.getElem?_eq_none hend, List.drop_of_length_le hend]
    exact .inl rfl
  rw [List.getElem?_eq_getElem (by omega), List.drop_eq_getElem_cons (by omega)]
  dsimp only
  by_cases hlf : b[i] = 0x0a
  swap
  · rw [if_neg hlf, headerBlockEndFrom_cons_of_ne (Ne.symm hlf)]
    exact .inr ⟨i + 1, rfl, by omega, rfl⟩
  rw [if_pos hlf, hlf, add_eq_ok (by omega), ok_bind, slice_length_eq_ok (by omega), ok_bind,
    headerBlockEndFrom_match, add_eq_ok (by omega), add_eq_ok (by omega)]
  split
  · exact .inl rfl
  · exact .inl rfl
  · exact .inr ⟨i + 1, rfl, by omega, rfl⟩

/-- `header_block_end` does not fault. -/
theorem headerBlockEnd_eq_ok (hlimit : b.length + 16777216 ≤ limit) :
    headerBlockEnd limit b = .ok (SniGate.headerBlockEnd b) :=
  loop_eq_ok (fun _ ↦ True) (fun i ↦ headerBlockEndFrom i (b.drop i))
    (fun _ _ ↦ (headerBlockStep_eq_ok hlimit).imp_right fun ⟨i', hi', hless, heq⟩ ↦
      ⟨i', hi', trivial, hless, heq⟩) trivial

theorem anyM_eq_ok {α : Type} {xs : List α} {f : α → Except Fault Bool} {p : α → Bool}
    (h : ∀ x ∈ xs, f x = .ok (p x)) : xs.anyM f = .ok (xs.any p) := by
  induction xs with
  | nil => rfl
  | cons x xs ih =>
    rw [List.anyM, h x List.mem_cons_self, ok_bind, List.any_cons,
      ih fun y hy ↦ h y (List.mem_cons_of_mem _ hy)]
    cases p x <;> rfl

/-- `looks_like_http` does not fault. -/
theorem looksLikeHttp_eq_ok : looksLikeHttp b = .ok (SniGate.looksLikeHttp b) := by
  refine anyM_eq_ok fun m _ ↦ ?_
  by_cases hlen : m.length ≤ b.length
  · rw [if_pos hlen, slice_zero_eq_ok hlen, ok_bind]
    simp [hlen, pure, Except.pure]
  · rw [if_neg hlen]
    simp [hlen]

theorem lineStep_eq_ok (next : Option Bytes) (lines : List Bytes)
    (hlimit : line.length + 16777216 ≤ limit) :
    lineStep limit line next = .ok (.inl (scanHeaderLines (line :: lines))) ∨
      line ≠ [] ∧ lineStep limit line next = .ok (.inr next) ∧
        scanHeaderLines lines = scanHeaderLines (line :: lines) := by
  have hshort : (stripCr line).length ≤ line.length := by
    rw [stripCr]
    split_ifs
    · rw [List.length_dropLast]
      omega
    · exact le_rfl
  have hne : stripCr line ≠ [] → line ≠ [] := by
    rintro h rfl
    exact h rfl
  rw [lineStep, scanHeaderLines]
  generalize stripCr line = l at hshort hne
  by_cases hnil : l = []
  · rw [if_pos hnil, if_pos hnil]
    exact .inl rfl
  rw [if_neg hnil, if_neg hnil]
  cases hcolon : l.findIdx? (· = 0x3a) with
  | none => exact .inr ⟨hne hnil, rfl, rfl⟩
  | some colon =>
    have hlt : colon < l.length := (List.findIdx?_eq_some_iff_getElem.mp hcolon).1
    dsimp only
    rw [slice_zero_eq_ok hlt.le, ok_bind]
    by_cases hhost : eqIgnoreAsciiCase (trimAscii (l.take colon)) (toUtf8 "host".toList)
    · rw [if_pos hhost, if_pos hhost, add_eq_ok (by omega), ok_bind, slice_length_eq_ok hlt,
        ok_bind]
      exact .inl rfl
    · rw [if_neg hhost, if_neg hhost]
      exact .inr ⟨hne hnil, rfl, rfl⟩

theorem nextLine_append (h : 0x0a ∉ line) :
    nextLine (line ++ 0x0a :: rest) = (line, some rest) := by
  have hnone : line.findIdx? (· = 0x0a) = none :=
    List.findIdx?_eq_none_iff.mpr fun c hc ↦ decide_eq_false fun heq ↦ h (heq ▸ hc)
  have hlf : (line ++ 0x0a :: rest).findIdx? (· = 0x0a) = some line.length := by
    rw [List.findIdx?_append, hnone, List.findIdx?_cons]
    simp
  rw [nextLine, hlf]
  dsimp only
  rw [List.take_left, ← List.drop_drop, List.drop_left]
  rfl

theorem nextLine_of_notMem (h : 0x0a ∉ rest) : nextLine rest = (rest, none) := by
  have hnone : rest.findIdx? (· = 0x0a) = none :=
    List.findIdx?_eq_none_iff.mpr fun c hc ↦ decide_eq_false fun heq ↦ h (heq ▸ hc)
  rw [nextLine, hnone]

/-- What the rest of the lines will give. -/
def linesAnswer : Option Bytes → Option HttpParse
  | none => none
  | some rest => scanHeaderLines (rest.splitOn 0x0a)

theorem headerLineStep_eq_ok {state : Option Bytes}
    (hlimit : (state.getD []).length + 16777216 ≤ limit) :
    headerLineStep limit state = .ok (.inl (linesAnswer state)) ∨
      ∃ state', headerLineStep limit state = .ok (.inr state') ∧
        (state'.getD []).length + 16777216 ≤ limit ∧
        (state'.getD []).length < (state.getD []).length ∧
        linesAnswer state' = linesAnswer state := by
  cases state with
  | none => exact .inl rfl
  | some rest =>
    rw [Option.getD_some] at hlimit ⊢
    rw [linesAnswer, headerLineStep]
    by_cases hlf : 0x0a ∈ rest
    · obtain ⟨line, tail, rfl, hline⟩ := List.eq_append_cons_of_mem hlf
      rw [List.length_append, List.length_cons] at hlimit ⊢
      rw [nextLine_append hline, List.splitOn_append_cons_self_of_not_mem hline]
      rcases lineStep_eq_ok (some tail) (tail.splitOn 0x0a)
        (show line.length + 16777216 ≤ limit by omega) with hdone | ⟨hne, hnext, hanswer⟩
      · exact .inl hdone
      · refine .inr ⟨some tail, hnext, ?_, ?_, hanswer⟩
        · rw [Option.getD_some]
          omega
        · rw [Option.getD_some]
          omega
    · rw [nextLine_of_notMem hlf, List.splitOn_eq_singleton hlf]
      rcases lineStep_eq_ok none [] hlimit with hdone | ⟨hne, hnext, hanswer⟩
      · exact .inl hdone
      · refine .inr ⟨none, hnext, ?_, List.length_pos_of_ne_nil hne, hanswer⟩
        rw [Option.getD_none, List.length_nil]
        omega

/-- `parse_http_host` does not fault. -/
theorem parseHttpHost_eq_ok (hlimit : b.length + 16777216 ≤ limit) :
    parseHttpHost limit b = .ok (SniGate.parseHttpHost b) := by
  have hloop : ∀ head : Bytes, head.length ≤ b.length →
      loop (fun state ↦ (state.getD []).length) (headerLineStep limit) (some head) =
        .ok (scanHeaderLines (head.splitOn 0x0a)) := fun head hhead ↦
    loop_eq_ok (fun state ↦ (state.getD []).length + 16777216 ≤ limit) linesAnswer
      (fun _ hstate ↦ headerLineStep_eq_ok hstate) (by rw [Option.getD_some]; omega)
  rw [parseHttpHost, SniGate.parseHttpHost, looksLikeHttp_eq_ok, ok_bind]
  by_cases hhttp : (!SniGate.looksLikeHttp b) = true
  · rw [if_pos hhttp, if_pos hhttp]
  rw [if_neg hhttp, if_neg hhttp, headerBlockEnd_eq_ok hlimit, ok_bind]
  cases hend : SniGate.headerBlockEnd b with
  | none =>
    rw [boundHead, ok_bind, hloop b le_rfl, ok_bind]
    dsimp only
    cases scanHeaderLines (b.splitOn 0x0a) <;> rfl
  | some e =>
    obtain ⟨n, hn, he, -⟩ := scanHeaderLines_take hend
    rw [Nat.zero_add] at he
    subst he
    rw [boundHead, slice_zero_eq_ok hn, ok_bind,
      hloop (b.take e) (by rw [List.length_take]; omega), ok_bind]
    dsimp only
    cases scanHeaderLines ((b.take e).splitOn 0x0a) <;> rfl

end HttpOk

/-- **No faults.** On every slice each parser answers, so no index and no range of it is out of
bounds, no sum of it overflows, and every pass of its loops that is not the last one consumes a byte
of what remains. -/
theorem parsers_eq_ok (s : Slice) :
    parseTlsSni s.limit s.bytes = .ok (SniGate.parseTlsSni s.bytes) ∧
    parseSniExtension s.limit s.bytes = .ok (SniGate.parseSniExtension s.bytes) ∧
    headerBlockEnd s.limit s.bytes = .ok (SniGate.headerBlockEnd s.bytes) ∧
    looksLikeHttp s.bytes = .ok (SniGate.looksLikeHttp s.bytes) ∧
    parseHttpHost s.limit s.bytes = .ok (SniGate.parseHttpHost s.bytes) := by
  have hlimit := s.length_add_le
  exact ⟨parseTlsSni_eq_ok hlimit, parseSniExtension_eq_ok (by omega),
    headerBlockEnd_eq_ok (by omega), looksLikeHttp_eq_ok, parseHttpHost_eq_ok (by omega)⟩

end Checked

end SniGate
