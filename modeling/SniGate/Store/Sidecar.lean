import SniGate.Store.Basic
import SniGate.Text.Pieces
import SniGate.Text.Trim

/-!
# What a sidecar keeps

The names observed on an upstream's certificate are written one to a line, and read back line by
line, trimmed, blank lines left out. The names come from a certificate, where nothing keeps them
from holding spaces or line feeds. They are read back as they were written exactly when each could
be the trimmed text of a line (`decodeObserved_encodeObserved_iff`).
-/

namespace SniGate

variable {Der Key : Type}

/-! ## Observing -/

/-- The text of a DNS name, and of no other. -/
def GeneralName.dnsText : GeneralName → Option Str
  | .dnsName d => some d
  | _ => none

/-- The DNS names an upstream's leaf certificate claims. -/
def observedDnsSans (codec : CertCodec Der Key) (chain : List Der) : List Str :=
  match chain.head? with
  | none => []
  | some leaf =>
    match codec.parse leaf with
    | none => []
    | some cert => (cert.generalNames.getD []).filterMap GeneralName.dnsText

/-! ## Reading back -/

/-- A name that is the trimmed text of a line. -/
structure IsLine (san : Str) : Prop where
  ne_nil : san ≠ []
  trim_eq : trim san = san
  notMem : '\n' ∉ san

section

variable {san text line : Str} {sans sans' : List Str}

/-- The lines that the names of an observation make up. -/
def observedLines (sans : List Str) : List Str := sans.flatMap (List.splitOn '\n')

theorem splitOn_encodeObserved (sans : List Str) :
    (encodeObserved sans).splitOn '\n' = observedLines sans ++ [[]] := by
  have h := splitOn_flatMap_append '\n' sans []
  rwa [List.append_nil, List.splitOn_nil] at h

/-- **One file for two observations** means that their names make up the same lines. -/
theorem encodeObserved_eq_iff :
    encodeObserved sans = encodeObserved sans' ↔ observedLines sans = observedLines sans' := by
  constructor
  · intro h
    have hsplit := congrArg (List.splitOn '\n') h
    rw [splitOn_encodeObserved, splitOn_encodeObserved] at hsplit
    exact List.append_cancel_right hsplit
  · intro h
    -- a file is its lines, joined again
    have hjoin (sans : List Str) :
        encodeObserved sans = List.intercalate ['\n'] (observedLines sans ++ [[]]) := by
      rw [← splitOn_encodeObserved, List.intercalate_splitOn]
    rw [hjoin, hjoin, h]

theorem trim_stripCarriageReturn (line : Str) : trim (stripCarriageReturn line) = trim line := by
  rw [stripCarriageReturn]
  split_ifs with h
  · obtain ⟨t, rfl⟩ := List.getLast?_eq_some_iff.mp h
    rw [List.dropLast_concat, trim_concat_of_isWhitespace (by decide)]
  · rfl

theorem decodeObserved_encodeObserved (sans : List Str) :
    decodeObserved (encodeObserved sans) =
      ((observedLines sans).map trim).filter fun line ↦ line ≠ [] := by
  have hlines : lines (encodeObserved sans) = (observedLines sans).map stripCarriageReturn := by
    rw [lines, splitOn_encodeObserved]
    simp
  rw [decodeObserved, hlines, List.map_map]
  refine congrArg _ (List.map_congr_left fun line _ ↦ trim_stripCarriageReturn line)

theorem notMem_of_mem_lines (h : line ∈ lines text) : '\n' ∉ line := by
  have hpiece : ∀ piece ∈ text.splitOn '\n', '\n' ∉ piece := fun _ ↦ notMem_of_mem_splitOn
  rw [lines] at h
  rcases List.mem_append.mp h with h | h
  · obtain ⟨piece, hmem, rfl⟩ := List.mem_map.mp h
    have hno := hpiece piece (List.mem_of_mem_dropLast hmem)
    rw [stripCarriageReturn]
    split_ifs
    · exact fun hmem' ↦ hno (List.mem_of_mem_dropLast hmem')
    · exact hno
  · cases hlast : (text.splitOn '\n').getLast? with
    | none =>
      rw [hlast] at h
      exact absurd h (by simp)
    | some last =>
      rw [hlast, Option.getD_some] at h
      split_ifs at h
      · exact absurd h (by simp)
      · obtain rfl := List.mem_singleton.mp h
        exact hpiece line (List.mem_of_getLast? hlast)

/-- What is read is the trimmed text of a line. -/
theorem isLine_of_mem_decodeObserved (h : san ∈ decodeObserved text) : IsLine san := by
  obtain ⟨hmem, hne⟩ := List.mem_filter.mp h
  obtain ⟨line, hline, rfl⟩ := List.mem_map.mp hmem
  exact ⟨of_decide_eq_true hne, trim_trim line,
    fun hin ↦ notMem_of_mem_lines hline ((trim_sublist line).subset hin)⟩

/-- **What is read back.** An observation is read back as it was exactly when each of its names is
the trimmed text of a line. -/
theorem decodeObserved_encodeObserved_iff :
    decodeObserved (encodeObserved sans) = sans ↔ ∀ san ∈ sans, IsLine san := by
  constructor
  · intro h san hsan
    rw [← h] at hsan
    exact isLine_of_mem_decodeObserved hsan
  · intro h
    have hlines : observedLines sans = sans := by
      rw [observedLines,
        List.flatMap_congr fun san hsan ↦ List.splitOn_eq_singleton (h san hsan).notMem,
        List.flatMap_singleton']
    have htrim : sans.map trim = sans :=
      (List.map_congr_left fun san hsan ↦ (h san hsan).trim_eq).trans (List.map_id' sans)
    rw [decodeObserved_encodeObserved, hlines, htrim]
    exact List.filter_eq_self.mpr fun san hsan ↦ decide_eq_true (h san hsan).ne_nil

end

end SniGate
