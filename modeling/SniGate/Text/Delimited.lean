import Mathlib.Data.List.Basic
import Mathlib.Data.List.Forall2
import Mathlib.Tactic

/-!
# Texts that end at a delimiter

A rendering that concatenates fields with fixed texts between them can be read back when each field
can be told to end where it does. For a delimiter whose first symbol does not come again in it, all
that is needed of two candidates for a field is that neither goes on, after the delimiter, as the
front of the other (`field_inj`); a field without the delimiter's first symbol is the common case.

Nothing here looks at what the symbols are.
-/

namespace SniGate

variable {α : Type*} {x y r r' d : List α} {c : α}

/-- Two fields that the delimiter `c :: d` cannot confuse. -/
def Apart (d x y : List α) : Prop := ¬x ++ d <+: y ∧ ¬y ++ d <+: x

instance [DecidableEq α] : Decidable (Apart d x y) :=
  inferInstanceAs (Decidable (¬x ++ d <+: y ∧ ¬y ++ d <+: x))

theorem apart_of_notMem (hx : c ∉ x) (hy : c ∉ y) : Apart (c :: d) x y :=
  ⟨fun h ↦ hy (h.subset (by simp)), fun h ↦ hx (h.subset (by simp))⟩

theorem apart_of_head {sep : List α} (hsep : sep.head? = some c) (hx : c ∉ x) (hy : c ∉ y) :
    Apart sep x y := by
  obtain ⟨d, rfl⟩ := List.head?_eq_some_iff.mp hsep
  exact apart_of_notMem hx hy

theorem append_ne_of_head {a b : α} (hx : x.head? = some a) (hy : y.head? = some b) (hab : a ≠ b) :
    x ++ r ≠ y ++ r' := by
  obtain ⟨x', rfl⟩ := List.head?_eq_some_iff.mp hx
  obtain ⟨y', rfl⟩ := List.head?_eq_some_iff.mp hy
  exact fun h ↦ hab (List.cons.inj h).1

/-- If one field is a front of the other, nothing is left between them. -/
private theorem eq_nil_of_delimited {z : List α} (hc : c ∉ d)
    (h : c :: d ++ r = z ++ (c :: d ++ r')) (hz : ¬c :: d <+: z) : z = [] := by
  rcases z with _ | ⟨a, z⟩
  · rfl
  rw [List.cons_append, List.cons_append] at h
  obtain ⟨rfl, htail⟩ := List.cons.inj h
  -- the delimiter stands again inside itself, or goes on inside `z`
  rcases List.append_eq_append_iff.mp htail with ⟨w, hw, -⟩ | ⟨w, hw, hr⟩
  · exact absurd (List.cons_prefix_cons.mpr ⟨rfl, w, hw.symm⟩) hz
  · rcases w with _ | ⟨b, w⟩
    · rw [List.append_nil] at hw
      exact absurd (List.cons_prefix_cons.mpr ⟨rfl, hw ▸ List.prefix_rfl⟩) hz
    · rw [List.cons_append, List.cons_append] at hr
      obtain ⟨rfl, -⟩ := List.cons.inj hr
      exact absurd (hw ▸ List.mem_append_right _ List.mem_cons_self) hc

/-- **Reading one field.** -/
theorem field_inj (hc : c ∉ d) (hxy : Apart (c :: d) x y)
    (h : x ++ (c :: d ++ r) = y ++ (c :: d ++ r')) : x = y ∧ r = r' := by
  have heq : x = y := by
    rcases List.append_eq_append_iff.mp h with ⟨z, rfl, hz⟩ | ⟨z, rfl, hz⟩
    · rw [eq_nil_of_delimited hc hz fun hp ↦
        hxy.1 ((List.prefix_append_right_inj x).mpr hp), List.append_nil]
    · rw [eq_nil_of_delimited hc hz fun hp ↦
        hxy.2 ((List.prefix_append_right_inj y).mpr hp), List.append_nil]
  subst heq
  exact ⟨rfl, List.append_cancel_left (List.append_cancel_left h)⟩

/-- A delimiter that cannot begin inside itself. -/
def Separates (sep : List α) : Prop := ∃ c ∈ sep.head?, c ∉ sep.tail

instance [DecidableEq α] {sep : List α} : Decidable (Separates sep) :=
  match sep with
  | [] => .isFalse fun ⟨_, hc, _⟩ ↦ absurd hc (by simp)
  | c :: d => decidable_of_iff (c ∉ d)
      ⟨fun h ↦ ⟨c, by simp, h⟩, fun ⟨_, hc, h⟩ ↦ by obtain rfl := Option.some.inj hc; exact h⟩

theorem Separates.field_inj {sep : List α} (hsep : Separates sep) (hxy : Apart sep x y)
    (h : x ++ (sep ++ r) = y ++ (sep ++ r')) : x = y ∧ r = r' := by
  obtain ⟨c, hhead, hc⟩ := hsep
  obtain ⟨d, rfl⟩ := List.head?_eq_some_iff.mp hhead
  exact SniGate.field_inj hc hxy h

/-- Two optional fields, rendered with a placeholder for the absent one, that neither the delimiter
nor the placeholder can confuse. -/
def ToldApart (placeholder sep : List α) (x y : Option (List α)) : Prop :=
  Apart sep (x.getD placeholder) (y.getD placeholder) ∧
    (x.getD placeholder = y.getD placeholder → x = y)

instance [DecidableEq α] {placeholder sep : List α} {x y : Option (List α)} :
    Decidable (ToldApart placeholder sep x y) :=
  inferInstanceAs (Decidable (_ ∧ (_ → _)))

/-- **Reading one optional field.** -/
theorem Separates.optional_inj {placeholder sep : List α} {x y : Option (List α)}
    (hsep : Separates sep) (hxy : ToldApart placeholder sep x y)
    (h : x.getD placeholder ++ (sep ++ r) = y.getD placeholder ++ (sep ++ r')) :
    x = y ∧ r = r' := by
  obtain ⟨htext, hrest⟩ := hsep.field_inj hxy.1 h
  exact ⟨hxy.2 htext, hrest⟩

/-- A field whose end is the delimiter `c` alone, and that does not contain it. -/
theorem field_inj_of_notMem (hx : c ∉ x) (hy : c ∉ y) (h : x ++ c :: r = y ++ c :: r') :
    x = y ∧ r = r' :=
  field_inj (d := []) (by simp) (apart_of_notMem hx hy) h

/-- A field that reaches up to the last `c`. -/
theorem field_inj_of_notMem_after (hr : c ∉ r) (hr' : c ∉ r') (h : x ++ c :: r = y ++ c :: r') :
    x = y ∧ r = r' := by
  have hrev := congrArg List.reverse h
  simp only [List.reverse_append, List.reverse_cons, List.append_assoc, List.singleton_append]
    at hrev
  obtain ⟨h₁, h₂⟩ := field_inj_of_notMem (by simpa using hr) (by simpa using hr') hrev
  exact ⟨List.reverse_injective h₂, List.reverse_injective h₁⟩

/-- A delimiter of two symbols that stands in `x ++ a :: y` stands in `x`, if the second symbol is
not `a` and the first is neither `a` nor in `y`. -/
theorem infix_left_of_append {a b : α} (hac : a ≠ c) (hab : a ≠ b) (hy : c ∉ y)
    (h : [c, b] <:+: x ++ a :: y) : [c, b] <:+: x := by
  obtain ⟨u, v, h⟩ := h
  rw [List.append_assoc] at h
  rcases List.append_eq_append_iff.mp h with ⟨w, rfl, hw⟩ | ⟨w, rfl, hw⟩
  · rcases w with _ | ⟨e, w⟩
    · exact absurd (List.cons.inj hw).1.symm hac
    · obtain ⟨rfl, hrest⟩ := List.cons.inj hw
      rcases w with _ | ⟨f, w⟩
      · exact absurd (List.cons.inj hrest).1.symm hab
      · obtain ⟨rfl, -⟩ := List.cons.inj hrest
        exact ⟨u, w, by simp⟩
  · rcases w with _ | ⟨e, w⟩
    · exact absurd (List.cons.inj hw).1 hac
    · obtain ⟨-, hw⟩ := List.cons.inj hw
      exact absurd (hw ▸ List.mem_append_right _ List.mem_cons_self) hy

theorem apart_of_not_infix (hx : ¬d <:+: x) (hy : ¬d <:+: y) : Apart d x y :=
  ⟨fun h ↦ hy ((List.suffix_append x d).isInfix.trans h.isInfix),
    fun h ↦ hx ((List.suffix_append y d).isInfix.trans h.isInfix)⟩

/-! ## Lists of fields -/

/-- The fields of a list joined by a symbol that none of them contains, up to empty fields. -/
theorem intercalate_inj [DecidableEq α] {xs ys : List (List α)} (hx : ∀ s ∈ xs, c ∉ s)
    (hy : ∀ s ∈ ys, c ∉ s) (h : [c].intercalate xs = [c].intercalate ys) :
    xs.filter (· ≠ []) = ys.filter (· ≠ []) := by
  have hread : ∀ zs : List (List α), (∀ s ∈ zs, c ∉ s) →
      (([c].intercalate zs).splitOn c).filter (· ≠ []) = zs.filter (· ≠ []) := by
    intro zs hz
    cases zs with
    | nil => simp
    | cons z zs => rw [List.splitOn_intercalate c hz (List.cons_ne_nil _ _)]
  rw [← hread xs hx, h, hread ys hy]

/-- Records written one after the other up to an end that none of them begins like. -/
theorem flatMap_inj {β : Type*} {R : β → β → Prop} {f : β → List α} {xs ys : List β}
    {stop stop' : List α}
    (hrecord : ∀ a ∈ xs, ∀ b ∈ ys, ∀ r r', f a ++ r = f b ++ r' → R a b ∧ r = r')
    (hstop : ∀ a ∈ xs, ∀ r, f a ++ r ≠ stop') (hstop' : ∀ b ∈ ys, ∀ r, f b ++ r ≠ stop)
    (h : xs.flatMap f ++ stop = ys.flatMap f ++ stop') :
    List.Forall₂ R xs ys ∧ stop = stop' := by
  induction xs generalizing ys with
  | nil =>
    cases ys with
    | nil => exact ⟨.nil, h⟩
    | cons b ys =>
      rw [List.flatMap_cons, List.append_assoc] at h
      exact absurd h.symm (hstop' b List.mem_cons_self _)
  | cons a xs ih =>
    rw [List.flatMap_cons, List.append_assoc] at h
    cases ys with
    | nil => exact absurd h (hstop a List.mem_cons_self _)
    | cons b ys =>
      rw [List.flatMap_cons, List.append_assoc] at h
      obtain ⟨hab, hrest⟩ := hrecord a List.mem_cons_self b List.mem_cons_self _ _ h
      obtain ⟨hxs, hend⟩ := ih
        (fun a ha b hb ↦ hrecord a (List.mem_cons_of_mem _ ha) b (List.mem_cons_of_mem _ hb))
        (fun a ha ↦ hstop a (List.mem_cons_of_mem _ ha))
        (fun b hb ↦ hstop' b (List.mem_cons_of_mem _ hb)) hrest
      exact ⟨.cons hab hxs, hend⟩

end SniGate
