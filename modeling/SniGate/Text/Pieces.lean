import Mathlib.Data.List.Basic
import Mathlib.Data.List.Infix
import Mathlib.Data.List.TakeWhile

/-!
# Pieces between separators

A list is cut at each occurrence of a separator. Every list is either a last piece, free of the
separator, or a first piece, a separator and a rest (`pieceInduction`); and when more is appended,
only the last piece changes (`splitOn_append_of_splitOn`).
-/

namespace SniGate

variable {α : Type*} [DecidableEq α] {c : α}

/-- Induction along the pieces. -/
@[elab_as_elim]
theorem pieceInduction {P : List α → Prop} (last : ∀ x, c ∉ x → P x)
    (piece : ∀ x rest, c ∉ x → P rest → P (x ++ c :: rest)) (s : List α) : P s := by
  induction hn : s.length using Nat.strong_induction_on generalizing s with
  | _ n ih =>
    by_cases hc : c ∈ s
    · obtain ⟨x, rest, rfl, hx⟩ := List.eq_append_cons_of_mem hc
      rw [List.length_append, List.length_cons] at hn
      exact piece x rest hx (ih rest.length (by omega) rest rfl)
    · exact last s hc

theorem notMem_of_mem_splitOn {s x : List α} (h : x ∈ s.splitOn c) : c ∉ x := by
  induction s using pieceInduction (c := c) with
  | last y hy =>
    rw [List.splitOn_eq_singleton hy] at h
    rwa [List.mem_singleton.mp h]
  | piece y rest hy ih =>
    rw [List.splitOn_append_cons_self_of_not_mem hy] at h
    rcases List.mem_cons.mp h with rfl | h
    · exact hy
    · exact ih h

theorem eq_or_mem_of_splitOn (c : α) {s : List α} {a : α} (h : a ∈ s) :
    a = c ∨ ∃ x ∈ s.splitOn c, a ∈ x := by
  induction s using pieceInduction (c := c) with
  | last y hy => exact .inr ⟨y, by rw [List.splitOn_eq_singleton hy]; simp, h⟩
  | piece y rest hy ih =>
    rw [List.splitOn_append_cons_self_of_not_mem hy]
    rcases List.mem_append.mp h with h | h
    · exact .inr ⟨y, List.mem_cons_self, h⟩
    rcases List.mem_cons.mp h with rfl | h
    · exact .inl rfl
    · exact (ih h).imp_right fun ⟨x, hx, hax⟩ ↦ ⟨x, List.mem_cons_of_mem _ hx, hax⟩

theorem exists_splitOn_append {x : List α} (hx : c ∉ x) (t : List α) :
    ∃ more, (x ++ t).splitOn c = (x ++ t.takeWhile (· ≠ c)) :: more := by
  by_cases hc : c ∈ t
  · obtain ⟨y, rest, rfl, hy⟩ := List.eq_append_cons_of_mem hc
    have hall : ∀ a ∈ y, decide (a ≠ c) = true := fun a ha ↦
      decide_eq_true fun heq ↦ hy (heq ▸ ha)
    have hxy : c ∉ x ++ y := by simp [hx, hy]
    rw [List.takeWhile_append_of_pos hall, List.takeWhile_cons_of_neg (by simp), List.append_nil,
      ← List.append_assoc, List.splitOn_append_cons_self_of_not_mem hxy]
    exact ⟨_, rfl⟩
  · have hall : t.takeWhile (· ≠ c) = t :=
      List.takeWhile_eq_self_iff.mpr fun a ha ↦ decide_eq_true fun heq ↦ hc (heq ▸ ha)
    rw [hall, List.splitOn_eq_singleton (by simp [hx, hc])]
    exact ⟨[], rfl⟩

/-- The pieces are those that are ended by a separator and a last one. -/
theorem exists_splitOn (c : α) (s : List α) : ∃ done last, s.splitOn c = done ++ [last] := by
  rcases List.eq_nil_or_concat (s.splitOn c) with h | ⟨done, last, h⟩
  · exact absurd h (List.splitOn_ne_nil c s)
  · exact ⟨done, last, by rw [h, List.concat_eq_append]⟩

/-- **What is appended** goes on in the last piece. -/
theorem splitOn_append_of_splitOn {s t last : List α} {done : List (List α)}
    (h : s.splitOn c = done ++ [last]) :
    (s ++ t).splitOn c = done ++ (last ++ t).splitOn c := by
  induction s using pieceInduction (c := c) generalizing done with
  | last x hx =>
    rw [List.splitOn_eq_singleton hx] at h
    obtain ⟨rfl, hlast⟩ := List.append_inj' (show [] ++ [x] = done ++ [last] from h) rfl
    rw [List.singleton_inj.mp hlast]
    rfl
  | piece x rest hx ih =>
    rw [List.splitOn_append_cons_self_of_not_mem hx] at h
    cases done with
    | nil =>
      have hnil := (List.cons.inj h).2
      exact absurd hnil (List.splitOn_ne_nil c rest)
    | cons y done =>
      obtain ⟨rfl, hrest⟩ := List.cons.inj h
      rw [List.append_assoc, List.cons_append, List.splitOn_append_cons_self_of_not_mem hx,
        ih hrest]
      rfl

/-- A separator ends what stands before it. -/
theorem splitOn_append_cons (c : α) (s t : List α) :
    (s ++ c :: t).splitOn c = s.splitOn c ++ t.splitOn c := by
  obtain ⟨done, last, h⟩ := exists_splitOn c s
  have hlast : c ∉ last := notMem_of_mem_splitOn (s := s) (by rw [h]; simp)
  rw [splitOn_append_of_splitOn h, List.splitOn_append_cons_self_of_not_mem hlast, h,
    List.append_assoc, List.singleton_append]

theorem splitOn_flatMap_append (c : α) (xs : List (List α)) (t : List α) :
    (xs.flatMap (· ++ [c]) ++ t).splitOn c = xs.flatMap (List.splitOn c) ++ t.splitOn c := by
  induction xs with
  | nil => rfl
  | cons x xs ih =>
    have hsplit : (x :: xs).flatMap (· ++ [c]) ++ t = x ++ c :: (xs.flatMap (· ++ [c]) ++ t) := by
      simp
    rw [hsplit, splitOn_append_cons, ih, List.flatMap_cons, List.append_assoc]

theorem splitOn_flatMap {xs : List (List α)} (h : ∀ x ∈ xs, c ∉ x) (t : List α) :
    (xs.flatMap (· ++ [c]) ++ t).splitOn c = xs ++ t.splitOn c := by
  have hpieces : xs.flatMap (List.splitOn c) = xs := by
    rw [List.flatMap_congr fun x hx ↦ List.splitOn_eq_singleton (h x hx), List.flatMap_singleton']
  rw [splitOn_flatMap_append, hpieces]

end SniGate
