import SniGate.Text.Basic
import Mathlib.Data.List.Count
import Mathlib.Data.List.TakeWhile

/-!
# What trimming leaves

Dropping from an end stops at a character that stays, so a text can be trimmed around it, and a text
is trimmed to itself exactly when neither end is dropped.
-/

namespace SniGate

/-! ## Trimming around a character that stays -/

section Trimming

variable {α : Type*} {p : α → Bool} {c : α} {x y : List α}

theorem dropWhile_append_cons (hc : p c = false) :
    (x ++ c :: y).dropWhile p = x.dropWhile p ++ c :: y := by
  rw [List.dropWhile_append]
  split_ifs with hx
  · rw [List.isEmpty_iff.mp hx, List.dropWhile_cons_of_neg (by simp [hc])]
    rfl
  · rfl

theorem rdropWhile_append_cons (hc : p c = false) :
    (x ++ c :: y).rdropWhile p = x ++ c :: y.rdropWhile p := by
  have hrev : (x ++ c :: y).reverse = y.reverse ++ c :: x.reverse := by simp
  rw [List.rdropWhile, hrev, dropWhile_append_cons hc, List.rdropWhile]
  simp

/-- What is left at the front is not of the kind that was dropped there. -/
theorem not_of_mem_head?_trimmed (h : c ∈ ((x.dropWhile p).rdropWhile p).head?) : ¬p c := by
  obtain ⟨y, hy⟩ := List.head?_eq_some_iff.mp h
  obtain ⟨more, hmore⟩ : (x.dropWhile p).rdropWhile p <+: x.dropWhile p :=
    List.rdropWhile_prefix _ _
  have hhead : (x.dropWhile p).head? = some c := by
    rw [← hmore, hy]
    rfl
  have hno := List.head?_dropWhile_not p x
  rw [hhead] at hno
  simpa using hno

theorem not_of_mem_getLast?_rdropWhile (h : c ∈ (x.rdropWhile p).getLast?) : ¬p c := by
  have hne : x.rdropWhile p ≠ [] := by
    rintro hnil
    rw [hnil] at h
    exact absurd h (by simp)
  have hlast : ¬p ((x.rdropWhile p).getLast hne) := List.rdropWhile_last_not _ _ hne
  obtain rfl := Option.some.inj ((List.getLast?_eq_some_getLast hne).symm.trans h)
  exact hlast

variable [DecidableEq α]

theorem count_dropWhile (hc : p c = false) : (x.dropWhile p).count c = x.count c := by
  have hnone : (x.takeWhile p).count c = 0 := List.count_eq_zero.mpr fun hmem ↦ by
    have hpc := List.mem_takeWhile_imp hmem
    rw [hc] at hpc
    exact absurd hpc (by simp)
  rw [← List.takeWhile_append_dropWhile (p := p) (l := x), List.count_append, hnone, zero_add,
    List.takeWhile_append_dropWhile]

theorem count_rdropWhile (hc : p c = false) : (x.rdropWhile p).count c = x.count c := by
  rw [List.rdropWhile, List.count_reverse, count_dropWhile hc, List.count_reverse]

end Trimming

/-! ## Texts -/

section Texts

variable {s t : Str} {c : Char}

theorem count_asciiLowercase (hc : ∀ d : Char, d.toLower = c ↔ d = c) :
    (asciiLowercase s).count c = s.count c := by
  rw [asciiLowercase, List.count_eq_countP, List.count_eq_countP, List.countP_map]
  exact List.countP_congr fun d _ ↦ by simp [hc]

theorem trim_append_cons (hc : isWhitespace c = false) :
    trim (s ++ c :: t) = s.dropWhile isWhitespace ++ c :: t.rdropWhile isWhitespace := by
  rw [trim, dropWhile_append_cons hc, rdropWhile_append_cons hc]

theorem trim_sublist (s : Str) : (trim s).Sublist s :=
  (List.rdropWhile_prefix _ _).sublist.trans (List.dropWhile_suffix _).sublist

theorem trim_eq_self_iff :
    trim s = s ↔ (∀ c ∈ s.head?, ¬isWhitespace c) ∧ ∀ c ∈ s.getLast?, ¬isWhitespace c := by
  rw [trim]
  constructor
  · intro h
    have hdrop : s.dropWhile isWhitespace = s := by
      refine (List.dropWhile_suffix _).eq_of_length_le ?_
      have hlen := (List.rdropWhile_prefix isWhitespace (s.dropWhile isWhitespace)).length_le
      rwa [h] at hlen
    rw [hdrop] at h
    refine ⟨fun c hc ↦ ?_, fun c hc ↦ ?_⟩
    · obtain ⟨t, rfl⟩ := List.head?_eq_some_iff.mp hc
      exact List.dropWhile_eq_self_iff.mp hdrop (by simp)
    · obtain ⟨t, rfl⟩ := List.getLast?_eq_some_iff.mp hc
      simpa using List.rdropWhile_eq_self_iff.mp h (by simp)
  · rintro ⟨hhead, hlast⟩
    have hdrop : s.dropWhile isWhitespace = s := List.dropWhile_eq_self_iff.mpr fun hl ↦
      hhead _ (by rw [List.head?_eq_getElem?, List.getElem?_eq_getElem hl]; rfl)
    rw [hdrop]
    exact List.rdropWhile_eq_self_iff.mpr fun hl ↦ hlast _ (List.getLast_mem_getLast? hl)

theorem trim_concat_of_isWhitespace (hc : isWhitespace c) : trim (s ++ [c]) = trim s := by
  rw [trim, trim, List.dropWhile_append]
  split_ifs with hs
  · rw [List.isEmpty_iff.mp hs, List.dropWhile_cons_of_pos hc]
    rfl
  · exact List.rdropWhile_concat_pos _ _ _ hc

@[simp] theorem trim_trim (s : Str) : trim (trim s) = trim s := by
  rw [trim_eq_self_iff]
  exact ⟨fun c hc ↦ not_of_mem_head?_trimmed hc, fun c hc ↦ not_of_mem_getLast?_rdropWhile hc⟩

theorem trimEndMatches_eq_self_iff : trimEndMatches c s = s ↔ s.getLast? ≠ some c := by
  rw [trimEndMatches, List.rdropWhile_eq_self_iff]
  constructor
  · rintro h hlast
    obtain ⟨t, rfl⟩ := List.getLast?_eq_some_iff.mp hlast
    simpa using h (by simp)
  · rintro h hl hlast
    exact h (by rw [List.getLast?_eq_some_getLast hl, of_decide_eq_true hlast])

end Texts

end SniGate
