import SniGate.Peek.Http
import SniGate.Text.Pieces

/-!
# The lines of a request head

The request parser goes over a head twice, once to find its end and once for its lines. The end is
the first blank line that is ended itself, and the scan stops at the first blank line, so the second
pass may as well run over everything that is buffered (`parseHttpHost_of_looksLikeHttp`): whatever
follows the head is never looked at.

A line counts by its `hostField`, the octets after the colon if the name before it is `host`.

## Design choices

Bytes are cut at line feeds by a general operation on lists (`Text.Pieces`), and a carriage return
belongs to the line until it is taken off, as in the source. The scan is a recursion over lines;
each lemma says what one line does to it.
-/

namespace SniGate

/-! ## Single lines -/

/-- A line with nothing on it. -/
def IsBlank (line : Bytes) : Prop := stripCr line = []

instance : DecidablePred IsBlank := fun line ↦ inferInstanceAs (Decidable (stripCr line = []))

/-- What follows the colon of a line whose name is `host`. -/
def hostField (line : Bytes) : Option Bytes :=
  (line.findIdx? (· = 0x3a)).bind fun colon ↦
    if eqIgnoreAsciiCase (trimAscii (line.take colon)) (toUtf8 "host".toList) then
      some (line.drop (colon + 1))
    else none

/-- Lines that neither end the head nor name a host. -/
def Quiet (lines : List Bytes) : Prop := ∀ line ∈ lines, ¬IsBlank line ∧ hostField line = none

section Lines

variable {line name value done' : Bytes} {lines done more : List Bytes} {b t : Bytes} {i e : ℕ}

theorem stripCr_append_cr : stripCr (line ++ [0x0d]) = line := by
  rw [stripCr, List.getLast?_append_of_ne_nil _ (by simp), List.dropLast_concat]
  rfl

theorem stripCr_of_ne (h : line.getLast? ≠ some 0x0d) : stripCr line = line := if_neg h

theorem eq_or_eq_stripCr (line : Bytes) : line = stripCr line ∨ line = stripCr line ++ [0x0d] := by
  by_cases h : line.getLast? = some 0x0d
  · obtain ⟨l, rfl⟩ := List.getLast?_eq_some_iff.mp h
    rw [stripCr_append_cr]
    exact .inr rfl
  · rw [stripCr_of_ne h]
    exact .inl rfl

theorem isBlank_iff : IsBlank line ↔ line = [] ∨ line = [0x0d] := by
  rw [IsBlank]
  constructor
  · intro h
    have hline := eq_or_eq_stripCr line
    rwa [h] at hline
  · rintro (rfl | rfl) <;> rfl

theorem hostField_of_noColon (h : 0x3a ∉ line) : hostField line = none := by
  have hnone : line.findIdx? (· = 0x3a) = none :=
    List.findIdx?_eq_none_iff.mpr fun c hc ↦ decide_eq_false fun heq ↦ h (heq ▸ hc)
  rw [hostField, hnone]
  rfl

theorem hostField_append (h : 0x3a ∉ name) : hostField (name ++ 0x3a :: value) =
    if eqIgnoreAsciiCase (trimAscii name) (toUtf8 "host".toList) then some value else none := by
  have hcolon : (name ++ 0x3a :: value).findIdx? (· = 0x3a) = some name.length := by
    have hnone : name.findIdx? (· = 0x3a) = none :=
      List.findIdx?_eq_none_iff.mpr fun c hc ↦ decide_eq_false fun heq ↦ h (heq ▸ hc)
    rw [List.findIdx?_append, hnone, List.findIdx?_cons]
    simp
  rw [hostField, hcolon, Option.bind_some, List.take_left, ← List.drop_drop, List.drop_left]
  rfl

/-- The octets of a line after its first colon, if there is one. -/
theorem noColon_or_append (line : Bytes) :
    0x3a ∉ line ∨ ∃ name value, 0x3a ∉ name ∧ line = name ++ 0x3a :: value := by
  by_cases h : 0x3a ∈ line
  · obtain ⟨name, value, hline, hname⟩ := List.eq_append_cons_of_mem h
    exact .inr ⟨name, value, hname, hline⟩
  · exact .inl h

theorem hostField_append_right (h : hostField line = some value) :
    hostField (line ++ t) = some (value ++ t) := by
  rcases noColon_or_append line with hnone | ⟨name, value', hname, rfl⟩
  · rw [hostField_of_noColon hnone] at h
    exact absurd h (by simp)
  · rw [hostField_append hname] at h
    split_ifs at h with hhost
    obtain rfl := Option.some.inj h
    rw [List.append_assoc, List.cons_append, hostField_append hname, if_pos hhost]

theorem hostField_stripCr (line : Bytes) :
    hostField (stripCr line) = (hostField line).map stripCr := by
  by_cases hcr : line.getLast? = some 0x0d
  swap
  · rw [stripCr_of_ne hcr]
    rcases noColon_or_append line with hnone | ⟨name, value, hname, rfl⟩
    · rw [hostField_of_noColon hnone]
      rfl
    · have hvalue : stripCr value = value := by
        refine stripCr_of_ne fun h ↦ hcr ?_
        obtain ⟨v, rfl⟩ := List.getLast?_eq_some_iff.mp h
        rw [← List.cons_append, ← List.append_assoc, List.getLast?_concat]
      rw [hostField_append hname]
      split_ifs <;> simp [hvalue]
  obtain ⟨l, rfl⟩ := List.getLast?_eq_some_iff.mp hcr
  rw [stripCr_append_cr]
  rcases noColon_or_append l with hnone | ⟨name, value, hname, rfl⟩
  · rw [hostField_of_noColon hnone, hostField_of_noColon (by simpa using hnone)]
    rfl
  · rw [List.append_assoc, List.cons_append, hostField_append hname, hostField_append hname]
    split_ifs
    · rw [Option.map_some, stripCr_append_cr]
    · rfl

/-! ## The scan -/

theorem trimAscii_append (h : ∀ x ∈ t, isAsciiWhitespace x) : trimAscii (b ++ t) = trimAscii b := by
  have hdrop : t.dropWhile isAsciiWhitespace = [] := List.dropWhile_eq_nil_iff.mpr h
  rw [trimAscii, trimAscii, List.dropWhile_append, hdrop]
  split_ifs with hb
  · rw [List.isEmpty_iff.mp hb]
  · rw [List.rdropWhile, List.rdropWhile, List.reverse_append,
      List.dropWhile_append_of_pos fun x hx ↦ h x (List.mem_reverse.mp hx)]

theorem hostValue_stripCr (value : Bytes) : hostValue (stripCr value) = hostValue value := by
  have htrim : trimAscii (stripCr value) = trimAscii value := by
    rcases eq_or_eq_stripCr value with h | h
    · rw [← h]
    · conv_rhs => rw [h]
      exact (trimAscii_append fun c hc ↦ by rw [List.mem_singleton.mp hc]; rfl).symm
  rw [hostValue, hostValue, htrim]

/-- The branches of the scan on a line are those of its `host` field. -/
theorem scanHeaderLines_field (line : Bytes) (lines : List Bytes) :
    (match line.findIdx? (· = 0x3a) with
      | none => scanHeaderLines lines
      | some colon =>
        if eqIgnoreAsciiCase (trimAscii (line.take colon)) (toUtf8 "host".toList) then
          some (hostValue (line.drop (colon + 1)))
        else scanHeaderLines lines) =
      match hostField line with
      | some value => some (hostValue value)
      | none => scanHeaderLines lines := by
  rw [hostField]
  cases line.findIdx? (· = 0x3a) with
  | none => rfl
  | some colon =>
    dsimp only [Option.bind_some]
    split_ifs <;> rfl

theorem scanHeaderLines_cons : scanHeaderLines (line :: lines) =
    if IsBlank line then none
    else
      match hostField line with
      | some value => some (hostValue value)
      | none => scanHeaderLines lines := by
  rw [scanHeaderLines]
  by_cases hblank : stripCr line = []
  · simp only [IsBlank, hblank, if_true]
  simp only [IsBlank, hblank, if_false]
  refine (scanHeaderLines_field (stripCr line) lines).trans ?_
  rw [hostField_stripCr]
  cases hostField line with
  | none => rfl
  | some value => simp only [Option.map_some, hostValue_stripCr]

theorem scanHeaderLines_cons_congr (h : scanHeaderLines lines = scanHeaderLines more) :
    scanHeaderLines (line :: lines) = scanHeaderLines (line :: more) := by
  rw [scanHeaderLines_cons, scanHeaderLines_cons, h]

theorem scanHeaderLines_of_blank (h : IsBlank line) : scanHeaderLines (line :: lines) = none := by
  rw [scanHeaderLines_cons, if_pos h]

theorem not_isBlank_of_hostField (h : hostField line = some value) : ¬IsBlank line := by
  intro hblank
  have hnone : hostField line = none := by rcases isBlank_iff.mp hblank with rfl | rfl <;> decide
  rw [hnone] at h
  exact absurd h (by simp)

theorem scanHeaderLines_of_hostField (h : hostField line = some value) :
    scanHeaderLines (line :: lines) = some (hostValue value) := by
  rw [scanHeaderLines_cons, if_neg (not_isBlank_of_hostField h), h]

theorem scanHeaderLines_append_of_quiet (h : Quiet done) :
    scanHeaderLines (done ++ more) = scanHeaderLines more := by
  induction done with
  | nil => rfl
  | cons line done ih =>
    obtain ⟨hblank, hfield⟩ := h line List.mem_cons_self
    rw [List.cons_append, scanHeaderLines_cons, if_neg hblank, hfield]
    exact ih fun l hl ↦ h l (List.mem_cons_of_mem _ hl)

/-- Once a line has ended the scan, the lines after it do not matter. -/
theorem scanHeaderLines_append_of_not_quiet (h : ¬Quiet done) :
    scanHeaderLines (done ++ more) = scanHeaderLines done := by
  induction done with
  | nil => exact absurd (fun _ hl ↦ absurd hl List.not_mem_nil) h
  | cons line done ih =>
    rw [List.cons_append, scanHeaderLines_cons, scanHeaderLines_cons]
    by_cases hblank : IsBlank line
    · rw [if_pos hblank, if_pos hblank]
    rw [if_neg hblank, if_neg hblank]
    cases hfield : hostField line with
    | some value => rfl
    | none =>
      refine ih fun hquiet ↦ h fun l hl ↦ ?_
      rcases List.mem_cons.mp hl with rfl | hl
      · exact ⟨hblank, hfield⟩
      · exact hquiet l hl

/-! ## The end of the head -/

theorem headerBlockEndFrom_cons_of_ne {c : UInt8} (h : ¬0x0a = c) :
    headerBlockEndFrom i (c :: t) = headerBlockEndFrom (i + 1) t := by
  rw [headerBlockEndFrom.eq_def]
  exact if_neg fun hc ↦ h hc.symm

theorem headerBlockEndFrom_last (h : 0x0a ∉ line) : headerBlockEndFrom i line = none := by
  induction line generalizing i with
  | nil => rfl
  | cons c line ih =>
    rw [List.mem_cons, not_or] at h
    rw [headerBlockEndFrom_cons_of_ne h.1]
    exact ih h.2

theorem headerBlockEndFrom_line (h : 0x0a ∉ line) :
    headerBlockEndFrom i (line ++ 0x0a :: t) =
      headerBlockEndFrom (i + line.length) (0x0a :: t) := by
  induction line generalizing i with
  | nil => rfl
  | cons c line ih =>
    rw [List.mem_cons, not_or] at h
    rw [List.cons_append, headerBlockEndFrom_cons_of_ne h.1, ih h.2, List.length_cons,
      Nat.add_right_comm, Nat.add_assoc]

/-- A blank line that is ended itself, after a line, ends the head. -/
theorem headerBlockEndFrom_blank (h : 0x0a ∉ line) (hblank : IsBlank name) :
    headerBlockEndFrom i (line ++ 0x0a :: (name ++ 0x0a :: t)) =
      some (i + (line ++ 0x0a :: (name ++ [0x0a])).length) := by
  rw [headerBlockEndFrom_line h, headerBlockEndFrom.eq_def]
  rcases isBlank_iff.mp hblank with rfl | rfl
  all_goals
    simp only [List.nil_append, List.cons_append, if_true, List.length_append, List.length_cons,
      List.length_nil]
    congr 1

theorem headerBlockEndFrom_skip (h : 0x0a ∉ line)
    (hblank : ∀ blank rest, IsBlank blank → t ≠ blank ++ 0x0a :: rest) :
    headerBlockEndFrom i (line ++ 0x0a :: t) = headerBlockEndFrom (i + line.length + 1) t := by
  rw [headerBlockEndFrom_line h, headerBlockEndFrom.eq_def]
  simp only [if_true]
  split
  · exact absurd rfl (hblank [] _ rfl)
  · exact absurd rfl (hblank [0x0d] _ rfl)
  · rfl

theorem headerBlockEndFrom_lf (c d : UInt8) : headerBlockEndFrom i (0x0a :: c :: d :: t) =
    if c = 0x0a then some (i + 2)
    else if c = 0x0d ∧ d = 0x0a then some (i + 3)
    else headerBlockEndFrom (i + 1) (c :: d :: t) := by
  rw [headerBlockEndFrom.eq_def]
  simp only [if_true]
  by_cases hc : c = 0x0a
  · rw [hc, if_pos rfl]
    rfl
  rw [if_neg hc]
  by_cases hd : c = 0x0d ∧ d = 0x0a
  · rw [hd.1, hd.2, if_pos ⟨rfl, rfl⟩]
    rfl
  · rw [if_neg hd]
    split
    · rename_i heq
      exact absurd (List.cons.inj heq).1 hc
    · rename_i heq
      exact absurd ⟨(List.cons.inj heq).1, (List.cons.inj (List.cons.inj heq).2).1⟩ hd
    · rfl

theorem headerBlockEndFrom_append (h : headerBlockEndFrom i b = some e) :
    headerBlockEndFrom i (b ++ t) = some e := by
  induction b generalizing i with
  | nil => exact absurd h (by simp [headerBlockEndFrom])
  | cons c b ih =>
    by_cases hc : 0x0a = c
    swap
    · rw [headerBlockEndFrom_cons_of_ne hc] at h
      rw [List.cons_append, headerBlockEndFrom_cons_of_ne hc]
      exact ih h
    subst hc
    rcases b with _ | ⟨c, _ | ⟨d, b⟩⟩
    · exact absurd h (by simp [headerBlockEndFrom])
    · by_cases hc : c = 0x0a
      · subst hc
        exact h
      · exact absurd h (by simp [headerBlockEndFrom, hc])
    · rw [headerBlockEndFrom_lf] at h
      rw [List.cons_append, List.cons_append, List.cons_append, headerBlockEndFrom_lf]
      split_ifs at h ⊢
      · exact h
      · exact h
      · exact ih h

/-- **The second pass** gives the same whether it stops at the end of the head or not. -/
theorem scanHeaderLines_take (h : headerBlockEndFrom i b = some e) :
    ∃ n ≤ b.length, e = i + n ∧
      scanHeaderLines ((b.take n).splitOn 0x0a) = scanHeaderLines (b.splitOn 0x0a) := by
  induction b using pieceInduction (c := (0x0a : UInt8)) generalizing i with
  | last x hx =>
    rw [headerBlockEndFrom_last hx] at h
    exact absurd h (by simp)
  | piece x rest hx ih =>
    by_cases hblank : ∃ blank tail, IsBlank blank ∧ rest = blank ++ 0x0a :: tail
    · obtain ⟨blank, tail, hb, rfl⟩ := hblank
      have hb' : 0x0a ∉ blank := by
        rcases isBlank_iff.mp hb with rfl | rfl <;> decide
      rw [headerBlockEndFrom_blank hx hb] at h
      have hsplit : x ++ 0x0a :: (blank ++ 0x0a :: tail) =
          x ++ 0x0a :: (blank ++ [0x0a]) ++ tail := by simp
      refine ⟨_, ?_, (Option.some.inj h).symm, ?_⟩
      · rw [hsplit]
        exact (List.prefix_append _ _).length_le
      rw [hsplit, List.take_left, ← hsplit, List.splitOn_append_cons_self_of_not_mem hx,
        List.splitOn_append_cons_self_of_not_mem hb', List.splitOn_append_cons_self_of_not_mem hx,
        List.splitOn_append_cons_self_of_not_mem hb']
      exact scanHeaderLines_cons_congr <| by
        rw [scanHeaderLines_of_blank hb, scanHeaderLines_of_blank hb]
    · rw [headerBlockEndFrom_skip hx fun blank tail hb heq ↦ hblank ⟨blank, tail, hb, heq⟩] at h
      obtain ⟨n, hn, rfl, hscan⟩ := ih h
      refine ⟨x.length + (1 + n), ?_, by omega, ?_⟩
      · rw [List.length_append, List.length_cons]
        omega
      rw [List.take_length_add_append, Nat.add_comm 1 n, List.take_succ_cons,
        List.splitOn_append_cons_self_of_not_mem hx, List.splitOn_append_cons_self_of_not_mem hx]
      exact scanHeaderLines_cons_congr hscan

theorem looksLikeHttp_of_isPrefix (hp : b <+: t) (h : looksLikeHttp b) :
    looksLikeHttp t := by
  obtain ⟨m, hm, hfits⟩ := List.any_eq_true.mp h
  obtain ⟨hlen, htake⟩ := of_decide_eq_true hfits
  refine List.any_eq_true.mpr ⟨m, hm, decide_eq_true ⟨hlen.trans hp.length_le, ?_⟩⟩
  obtain ⟨u, rfl⟩ := hp
  rw [List.take_append_of_le_length hlen, htake]

/-- **The parser, line by line.** -/
theorem parseHttpHost_of_looksLikeHttp (h : looksLikeHttp b) : parseHttpHost b =
    match scanHeaderLines (b.splitOn 0x0a) with
    | some answer => answer
    | none => if (headerBlockEnd b).isSome then .noHost else .needMore := by
  rw [parseHttpHost, if_neg (by simp [h])]
  cases hend : headerBlockEnd b with
  | none => rfl
  | some e =>
    obtain ⟨n, -, hn, hscan⟩ := scanHeaderLines_take hend
    rw [Nat.zero_add] at hn
    subst hn
    exact congrArg (fun found ↦ match found with
      | some answer => answer
      | none => if (some e).isSome then HttpParse.noHost else .needMore) hscan

theorem parseHttpHost_of_not_looksLikeHttp (h : ¬looksLikeHttp b) : parseHttpHost b = .notHttp := by
  rw [parseHttpHost, if_pos (by simpa using h)]

end Lines

end SniGate
