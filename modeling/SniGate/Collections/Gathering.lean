import SniGate.Collections.Map
import Mathlib.Order.Bounds.Basic

/-!
# Gathering by key

A list is gathered into a map from keys: the first item of a key makes an entry, and every item of
the key is added to it. The entry of a key is then what adding the items of that key alone gives
(`lookup_gather`). Where what is kept of the items is their greatest value, the entry does not
depend on the order of the items (`isGreatest_foldl_max`).
-/

namespace SniGate

variable {α K V : Type*} [DecidableEq K]

/-- `entry(key).or_insert_with(make)`, and an update of the entry, for every item in turn. -/
def gather (key : α → K) (make : α → V) (add : V → α → V) (items : List α) : Map K V :=
  items.foldl (fun m a ↦ m.insert (key a) (add ((m.lookup (key a)).getD (make a)) a)) ∅

/-- The items of one key, in order. -/
def itemsOf (key : α → K) (items : List α) (k : K) : List α := items.filter fun a ↦ key a = k

section Gather

variable {key : α → K} {make : α → V} {add : V → α → V} {items items' : List α} {a : α} {k : K}
  {v : V}

@[simp] theorem mem_itemsOf : a ∈ itemsOf key items k ↔ a ∈ items ∧ key a = k := by
  rw [itemsOf, List.mem_filter, decide_eq_true_iff]

theorem perm_itemsOf (h : items.Perm items') : (itemsOf key items k).Perm (itemsOf key items' k) :=
  h.filter _

theorem gather_append_singleton : gather key make add (items ++ [a]) =
    (gather key make add items).insert (key a)
      (add (((gather key make add items).lookup (key a)).getD (make a)) a) := by
  rw [gather, List.foldl_append]
  rfl

theorem itemsOf_append_singleton :
    itemsOf key (items ++ [a]) k = itemsOf key items k ++ if key a = k then [a] else [] := by
  rw [itemsOf, List.filter_append]
  by_cases hk : key a = k
  · rw [if_pos hk, List.filter_cons_of_pos (by simpa using hk)]
    rfl
  · rw [if_neg hk, List.filter_cons_of_neg (by simpa using hk)]
    rfl

/-- **The entry of a key.** -/
theorem lookup_gather : (gather key make add items).lookup k =
    (itemsOf key items k).head?.map fun a ↦ (itemsOf key items k).foldl add (make a) := by
  induction items using List.reverseRecOn with
  | nil => rfl
  | append_singleton items a ih =>
    rw [gather_append_singleton, itemsOf_append_singleton]
    by_cases hk : key a = k
    · -- the item joins the entry of its key, or opens it
      subst hk
      rw [AList.lookup_insert, ih, if_pos rfl, List.head?_append]
      cases hhead : (itemsOf key items (key a)).head? with
      | none =>
        rw [List.head?_eq_none_iff.mp hhead]
        rfl
      | some b =>
        rw [Option.map_some, Option.getD_some, Option.some_or, Option.map_some, List.foldl_append]
        rfl
    · -- the other entries stay
      rw [AList.lookup_insert_ne (Ne.symm hk), ih, if_neg hk, List.append_nil]

theorem lookup_gather_eq_some : (gather key make add items).lookup k = some v ↔
    ∃ a, (itemsOf key items k).head? = some a ∧ (itemsOf key items k).foldl add (make a) = v := by
  rw [lookup_gather, Option.map_eq_some_iff]

theorem lookup_gather_eq_none : (gather key make add items).lookup k = none ↔
    itemsOf key items k = [] := by
  rw [lookup_gather, Option.map_eq_none_iff, List.head?_eq_none_iff]

end Gather

/-! ## Running maxima -/

section Maximum

variable {β : Type*} [LinearOrder β] [OrderBot β] {f : α → β} {items : List α}

/-- The running maximum of some values is the greatest of them. -/
theorem isGreatest_foldl_max (h : items ≠ []) :
    IsGreatest {b | ∃ a ∈ items, f a = b} (items.foldl (fun m a ↦ max m (f a)) ⊥) := by
  induction items using List.reverseRecOn with
  | nil => exact absurd rfl h
  | append_singleton items a ih =>
    rw [List.foldl_append, List.foldl_cons, List.foldl_nil]
    rcases eq_or_ne items [] with rfl | hne
    · rw [List.foldl_nil, max_eq_right bot_le]
      refine ⟨⟨a, by simp, rfl⟩, ?_⟩
      rintro _ ⟨b, hb, rfl⟩
      rw [List.mem_singleton.mp hb]
    obtain ⟨⟨b, hb, hmax⟩, hbound⟩ := ih hne
    refine ⟨?_, ?_⟩
    · rcases max_choice (items.foldl (fun m a ↦ max m (f a)) ⊥) (f a) with heq | heq
      · exact ⟨b, List.mem_append_left _ hb, by rw [heq, hmax]⟩
      · exact ⟨a, by simp, by rw [heq]⟩
    · rintro _ ⟨c, hc, rfl⟩
      rcases List.mem_append.mp hc with hc | hc
      · exact le_max_of_le_left (hbound ⟨c, hc, rfl⟩)
      · rw [List.mem_singleton.mp hc]
        exact le_max_right _ _

end Maximum

end SniGate
