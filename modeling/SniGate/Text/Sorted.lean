import SniGate.Text.Basic
import SniGate.Text.Delimited
import Mathlib.Data.Char
import Mathlib.Data.List.Lex
import Mathlib.Data.List.Sort

/-!
# Rendered sets of texts

A list whose order carries no meaning is rendered sorted, its texts joined by a separator. When no
text contains the separator, the rendering determines the texts up to order, and up to empty ones.
-/

namespace SniGate

/-- Texts in order, so that a reordering does not show. -/
def sortTexts (xs : List Str) : List Str := xs.insertionSort (· ≤ ·)

/-- The same texts, up to order and empty ones. -/
def SameTexts (xs ys : List Str) : Prop := (xs.filter (· ≠ [])).Perm (ys.filter (· ≠ []))

theorem SameTexts.mem {xs ys : List Str} (h : SameTexts xs ys) {s : Str} (hs : s ∈ xs)
    (hne : s ≠ []) : s ∈ ys :=
  List.mem_of_mem_filter (h.subset (List.mem_filter.mpr ⟨hs, decide_eq_true hne⟩))

theorem mem_join_iff {c : Char} {sep : Str} {xs : List Str} (hc : c ∉ sep) :
    c ∈ join sep xs ↔ ∃ s ∈ xs, c ∈ s := by
  rw [join]
  induction xs with
  | nil => simp
  | cons x xs ih =>
    cases xs with
    | nil => simp
    | cons y ys =>
      rw [List.intercalate_cons_cons, List.mem_append, List.mem_append, ih]
      simp [hc]

theorem mem_sortTexts {s : Str} {xs : List Str} : s ∈ sortTexts xs ↔ s ∈ xs :=
  List.mem_insertionSort _

theorem sameTexts_of_join {c : Char} {xs ys : List Str} (hx : ∀ s ∈ xs, c ∉ s)
    (hy : ∀ s ∈ ys, c ∉ s) (h : join [c] (sortTexts xs) = join [c] (sortTexts ys)) :
    SameTexts xs ys := by
  have hsorted := intercalate_inj (fun s hs ↦ hx s (mem_sortTexts.mp hs))
    (fun s hs ↦ hy s (mem_sortTexts.mp hs)) h
  have hperm : ∀ zs : List Str, ((sortTexts zs).filter (· ≠ [])).Perm (zs.filter (· ≠ [])) :=
    fun zs ↦ (List.perm_insertionSort _ zs).filter _
  exact (hperm xs).symm.trans (hsorted ▸ hperm ys)

/-- Without empty texts, the rendering determines the texts up to order. -/
theorem SameTexts.perm {xs ys : List Str} (h : SameTexts xs ys) (hx : ∀ s ∈ xs, s ≠ [])
    (hy : ∀ s ∈ ys, s ≠ []) : xs.Perm ys := by
  have hall : ∀ zs : List Str, (∀ s ∈ zs, s ≠ []) → zs.filter (· ≠ []) = zs := fun zs hz ↦
    List.filter_eq_self.mpr fun s hs ↦ decide_eq_true (hz s hs)
  rw [SameTexts, hall xs hx, hall ys hy] at h
  exact h

end SniGate
