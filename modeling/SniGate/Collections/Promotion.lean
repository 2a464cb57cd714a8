import Mathlib.Data.List.Chain
import Mathlib.Data.List.Nodup
import Mathlib.Data.List.Induction

/-!
# Promotion past predecessors

A list in order of preference is rebuilt one entry at a time: each entry joins at the end and moves
ahead of its predecessors for as long as it overtakes the one right ahead of it. Overtaking need not
be transitive, so this is no sorting. What it gives is that no entry overtakes its predecessor
(`isChain_promoteAll`), that a pair changes places only if one overtakes the other
(`overtakes_of_promoteAll`), and that a list with no entry to move stays as it is
(`promoteAll_eq_self`).

While the list is rebuilt it is kept last first.
-/

namespace SniGate

variable {α : Type*}

/-- Move an entry ahead of each predecessor it overtakes. The predecessors are given last first. -/
def promote (overtakes : α → α → Bool) (a : α) : List α → List α
  | [] => [a]
  | b :: rest => if overtakes a b then b :: promote overtakes a rest else a :: b :: rest

/-- Let each entry in turn move ahead. -/
def promoteAll (overtakes : α → α → Bool) (l : List α) : List α :=
  (l.foldl (fun done a ↦ promote overtakes a done) []).reverse

section Promote

variable {overtakes : α → α → Bool} {a b c : α} {done l : List α}

/-! ## One entry -/

theorem perm_promote : (promote overtakes a done).Perm (a :: done) := by
  induction done with
  | nil => exact .refl _
  | cons b rest ih =>
    rw [promote]
    split_ifs
    · exact (ih.cons b).trans (.swap a b rest)
    · exact .refl _

/-- The others stay as they were to each other. -/
theorem sublist_of_promote (ha : a ≠ c) (hb : b ≠ c)
    (h : List.Sublist [a, b] (promote overtakes c done)) : List.Sublist [a, b] done := by
  induction done with
  | nil => exact absurd h.length_le (by simp [promote])
  | cons d rest ih =>
    rw [promote] at h
    split_ifs at h
    · rcases List.sublist_cons_iff.mp h with h | ⟨l, hl, hsub⟩
      · exact (ih h).cons d
      · obtain ⟨rfl, rfl⟩ := List.cons.inj hl
        have hmem := perm_promote.mem_iff.mp (List.singleton_sublist.mp hsub)
        exact (List.singleton_sublist.mpr ((List.mem_cons.mp hmem).resolve_left hb)).cons_cons a
    · rcases List.sublist_cons_iff.mp h with h | ⟨l, hl, -⟩
      · exact h
      · exact absurd (List.cons.inj hl).1 ha

theorem overtakes_of_promote (ha : a ∉ done) (h : List.Sublist [b, a] (promote overtakes a done)) :
    overtakes a b := by
  induction done with
  | nil => exact absurd h.length_le (by simp [promote])
  | cons c rest ih =>
    have hrest : a ∉ rest := fun hmem ↦ ha (List.mem_cons_of_mem c hmem)
    rw [promote] at h
    split_ifs at h with hover
    · rcases List.sublist_cons_iff.mp h with h | ⟨l, hl, -⟩
      · exact ih hrest h
      · rwa [(List.cons.inj hl).1]
    · rcases List.sublist_cons_iff.mp h with h | ⟨l, hl, hsub⟩
      · exact absurd (h.subset (by simp)) ha
      · rw [← (List.cons.inj hl).2] at hsub
        exact absurd (hsub.subset (by simp)) ha

theorem head_promote (h : b ∈ (promote overtakes a done).head?) : b = a ∨ b ∈ done.head? := by
  cases done with
  | nil => exact .inl (by simpa [promote, eq_comm] using h)
  | cons c rest =>
    rw [promote] at h
    split_ifs at h
    · exact .inr h
    · exact .inl (by simpa [eq_comm] using h)

theorem isChain_promote (hasymm : ∀ a b, overtakes a b → ¬overtakes b a)
    (h : done.IsChain fun behind ahead ↦ ¬overtakes behind ahead) :
    (promote overtakes a done).IsChain fun behind ahead ↦ ¬overtakes behind ahead := by
  induction done with
  | nil => exact List.isChain_singleton _
  | cons b rest ih =>
    rw [promote]
    obtain ⟨hhead, hrest⟩ := List.isChain_cons.mp h
    split_ifs with hover
    · refine List.isChain_cons.mpr ⟨fun c hc ↦ ?_, ih hrest⟩
      rcases head_promote hc with rfl | hc
      · exact hasymm _ _ hover
      · exact hhead c hc
    · exact List.isChain_cons_cons.mpr ⟨hover, h⟩

theorem promote_eq_cons (h : ∀ b ∈ done.head?, ¬overtakes a b) :
    promote overtakes a done = a :: done := by
  cases done with
  | nil => rfl
  | cons b rest => exact if_neg (h b rfl)

/-! ## The whole list -/

theorem promoteAll_concat (l : List α) (a : α) : promoteAll overtakes (l ++ [a]) =
    (promote overtakes a (promoteAll overtakes l).reverse).reverse := by
  rw [promoteAll, List.foldl_append, promoteAll, List.reverse_reverse]
  rfl

theorem perm_promoteAll : (promoteAll overtakes l).Perm l := by
  induction l using List.reverseRecOn with
  | nil => exact .refl _
  | append_singleton l a ih =>
    rw [promoteAll_concat]
    calc (promote overtakes a (promoteAll overtakes l).reverse).reverse
      _ |>.Perm (promote overtakes a (promoteAll overtakes l).reverse) := List.reverse_perm _
      _ |>.Perm (a :: (promoteAll overtakes l).reverse) := perm_promote
      _ |>.Perm (a :: l) := ((List.reverse_perm _).trans ih).cons a
      _ |>.Perm (l ++ [a]) := (List.perm_append_singleton a l).symm

/-- **Adjacent entries.** None overtakes the one ahead of it. -/
theorem isChain_promoteAll (hasymm : ∀ a b, overtakes a b → ¬overtakes b a) :
    (promoteAll overtakes l).IsChain fun ahead behind ↦ ¬overtakes behind ahead := by
  induction l using List.reverseRecOn with
  | nil => exact List.isChain_nil
  | append_singleton l a ih =>
    rw [promoteAll_concat, List.isChain_reverse]
    exact isChain_promote hasymm (List.isChain_reverse.mp (by rwa [List.reverse_reverse]))

/-- **Pairs.** One that moves ahead of another overtakes it. -/
theorem overtakes_of_promoteAll (hl : l.Nodup) (hab : List.Sublist [a, b] l)
    (hba : List.Sublist [b, a] (promoteAll overtakes l)) : overtakes b a := by
  induction l using List.reverseRecOn with
  | nil => exact absurd hab.length_le (by simp)
  | append_singleton l c ih =>
    have hc : c ∉ (promoteAll overtakes l).reverse := by
      rw [List.mem_reverse, perm_promoteAll.mem_iff]
      intro hmem
      exact (List.nodup_append.mp hl).2.2 c hmem c (List.mem_singleton_self c) rfl
    rw [promoteAll_concat, List.sublist_reverse_iff] at hba
    rw [← List.reverse_sublist, List.reverse_append] at hab
    rcases List.sublist_cons_iff.mp hab with hab | ⟨rest, heq, -⟩
    · -- the new entry is neither of them
      have hne : ∀ d ∈ [b, a], d ≠ c := fun d hd heq ↦
        hc (List.mem_reverse.mpr (perm_promoteAll.mem_iff.mpr
          (List.mem_reverse.mp (hab.subset (heq ▸ hd)))))
      refine ih (List.nodup_append.mp hl).1 (List.reverse_sublist.mp hab) ?_
      exact List.reverse_sublist.mp
        (sublist_of_promote (hne a (by simp)) (hne b (by simp)) hba)
    · -- the new entry is the one that was behind
      obtain rfl : b = c := (List.cons.inj heq).1
      exact overtakes_of_promote hc hba

/-- **Nothing to move.** -/
theorem promoteAll_eq_self (h : l.IsChain fun ahead behind ↦ ¬overtakes behind ahead) :
    promoteAll overtakes l = l := by
  induction l using List.reverseRecOn with
  | nil => rfl
  | append_singleton l a ih =>
    obtain ⟨hl, -, hlast⟩ := List.isChain_append.mp h
    have hhead : ∀ b ∈ l.reverse.head?, ¬overtakes a b := fun b hb ↦
      hlast b (by rwa [List.head?_reverse] at hb) a rfl
    rw [promoteAll_concat, ih hl, promote_eq_cons hhead, List.reverse_cons, List.reverse_reverse]

end Promote

end SniGate
