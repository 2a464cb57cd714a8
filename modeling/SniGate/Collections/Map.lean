import Mathlib.Data.List.AList
import Mathlib.Data.List.Perm.Subperm
import Mathlib.Tactic

/-!
# Hash maps

A hash map is an association list without repeated keys. What the code computes from a map does not
depend on its order except where it iterates over it, and there the order is that of the list.
-/

namespace SniGate

/-- A hash map. -/
abbrev Map (K V : Type*) := AList fun _ : K ↦ V

section Map

variable {K V : Type*} [DecidableEq K]

/-- `HashMap::get_mut` and an update of what it finds. -/
def Map.modify (m : Map K V) (k : K) (f : V → V) : Map K V :=
  match m.lookup k with
  | some v => m.replace k (f v)
  | none => m

/-- `HashMap::retain`. -/
def Map.retain (m : Map K V) (p : K → V → Bool) : Map K V where
  entries := m.entries.filter fun e ↦ p e.1 e.2
  nodupKeys := m.nodupKeys.sublist List.filter_sublist

@[simp] theorem Map.mem_modify {m : Map K V} {k k' : K} {f : V → V} :
    k' ∈ m.modify k f ↔ k' ∈ m := by
  rw [modify]
  cases m.lookup k with
  | none => rfl
  | some v => exact AList.mem_replace

section Lookup

variable {m : Map K V} {k k' : K} {v : V} {f : V → V} {p : K → V → Bool} {ks : List K}

theorem Map.lookup_replace : (m.replace k v).lookup k' =
    if k' = k then (m.lookup k').map fun _ ↦ v else m.lookup k' := by
  obtain ⟨es, hnodup⟩ := m
  change (es.kreplace k v).dlookup k' =
    if k' = k then (es.dlookup k').map fun _ ↦ v else es.dlookup k'
  clear hnodup
  induction es with
  | nil => simp [List.kreplace, List.lookmap, List.lookmap.go]
  | cons e es ih =>
    obtain ⟨j, w⟩ := e
    rw [List.kreplace] at ih ⊢
    by_cases hk : k = j
    · subst hk
      have hfirst : (if k = (⟨k, w⟩ : (_ : K) × V).1 then some (⟨k, v⟩ : (_ : K) × V) else none) =
          some ⟨k, v⟩ := if_pos rfl
      rw [List.lookmap_cons_some _ _ hfirst]
      by_cases hk' : k' = k
      · subst hk'
        simp
      · rw [if_neg hk', List.dlookup_cons_ne _ _ hk', List.dlookup_cons_ne _ _ hk']
    · rw [List.lookmap_cons_none _ _ (by simp [hk])]
      by_cases hj : k' = j
      · subst hj
        simp [Ne.symm hk]
      · rw [List.dlookup_cons_ne _ _ hj, List.dlookup_cons_ne _ _ hj, ih]

theorem Map.lookup_modify : (m.modify k f).lookup k' =
    if k' = k then (m.lookup k').map f else m.lookup k' := by
  rw [modify]
  cases hlookup : m.lookup k with
  | none =>
    dsimp only
    split_ifs with hk
    · rw [hk, hlookup]
      rfl
    · rfl
  | some v =>
    dsimp only
    rw [lookup_replace]
    split_ifs with hk
    · rw [hk, hlookup]
      rfl
    · rfl

theorem Map.lookup_retain : (m.retain p).lookup k = (m.lookup k).filter (p k) := by
  obtain ⟨es, hnodup⟩ := m
  change (es.filter fun e ↦ p e.1 e.2).dlookup k = (es.dlookup k).filter (p k)
  induction es with
  | nil => rfl
  | cons e es ih =>
    obtain ⟨j, w⟩ := e
    obtain ⟨hj, hes⟩ := List.nodupKeys_cons.mp hnodup
    by_cases hk : k = j
    · subst hk
      have hnone : (es.filter fun e ↦ p e.1 e.2).dlookup k = none := by
        rw [ih hes, List.dlookup_eq_none.mpr hj]
        rfl
      rw [List.dlookup_cons_eq, List.filter_cons]
      split_ifs with hp
      · rw [List.dlookup_cons_eq, Option.filter_some, if_pos hp]
      · rw [hnone, Option.filter_some, if_neg hp]
    · rw [List.dlookup_cons_ne _ _ hk, ← ih hes, List.filter_cons]
      split_ifs
      · rw [List.dlookup_cons_ne _ _ hk]
      · rfl

theorem Map.lookup_foldl_erase : (ks.foldl (fun m k ↦ m.erase k) m).lookup k =
    if k ∈ ks then none else m.lookup k := by
  induction ks generalizing m with
  | nil => rfl
  | cons j ks ih =>
    rw [List.foldl_cons, ih]
    by_cases hk : k = j
    · subst hk
      simp
    · rw [AList.lookup_erase_ne hk]
      simp [hk]

theorem Map.mem_foldl_erase : k ∈ ks.foldl (fun m k ↦ m.erase k) m ↔ k ∉ ks ∧ k ∈ m := by
  rw [← AList.lookup_isSome, lookup_foldl_erase]
  split_ifs with hk
  · simp [hk]
  · rw [AList.lookup_isSome]
    exact (and_iff_right hk).symm

variable (m ks) in
/-- Erasing distinct keys of one kind leaves that many fewer of them. -/
theorem Map.length_keys_foldl_erase (q : K → Bool) (hnodup : ks.Nodup)
    (hsub : ∀ k ∈ ks, k ∈ m ∧ q k) :
    ((ks.foldl (fun m k ↦ m.erase k) m).keys.filter q).length + ks.length ≤
      (m.keys.filter q).length := by
  rw [← List.length_append]
  refine (List.subperm_of_subset (List.nodup_append.mpr ⟨?_, hnodup, ?_⟩) ?_).length_le
  · exact (AList.keys_nodup _).filter _
  · rintro j hj k hk rfl
    exact (Map.mem_foldl_erase.mp (AList.mem_keys.mpr (List.mem_of_mem_filter hj))).1 hk
  · intro j hj
    rw [List.mem_filter]
    rcases List.mem_append.mp hj with hj | hj
    · obtain ⟨hin, hq⟩ := List.mem_filter.mp hj
      exact ⟨AList.mem_keys.mp (Map.mem_foldl_erase.mp (AList.mem_keys.mpr hin)).2, hq⟩
    · exact ⟨AList.mem_keys.mp (hsub j hj).1, (hsub j hj).2⟩

end Lookup

end Map

end SniGate
