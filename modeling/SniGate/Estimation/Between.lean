import Mathlib.Analysis.Convex.Basic
import Mathlib.Data.List.MinMax

/-!
# Estimates within their data

A running estimate that every datum moves only part of the way towards itself never leaves the range
of its data. `Between` is that range, `MovesTowards` is what one step may do to the estimate, and
`between_foldl` is the rule for a whole run. The estimate is read off a state that may hold anything
else, and a datum may be left out.
-/

namespace SniGate

variable {K S X : Type*}

/-! ## The range of the data -/

section Order

variable [LinearOrder K] {xs ys : List K} {m x lo hi : K}

/-- A value between the smallest and the largest of some data. -/
def Between (xs : List K) (m : K) : Prop :=
  xs.minimum ≤ m ∧ (m : WithBot K) ≤ xs.maximum

theorem between_of_mem (h : x ∈ xs) : Between xs x :=
  ⟨List.minimum_le_of_mem' h, List.le_maximum_of_mem' h⟩

/-- Between two of the data, which is how the range is reasoned about. -/
theorem between_iff : Between xs m ↔ (∃ lo ∈ xs, lo ≤ m) ∧ ∃ hi ∈ xs, m ≤ hi := by
  constructor
  · rintro ⟨hmin, hmax⟩
    constructor
    · obtain ⟨lo, hlo⟩ := WithTop.ne_top_iff_exists.mp (ne_top_of_le_ne_top WithTop.coe_ne_top hmin)
      rw [← hlo, WithTop.coe_le_coe] at hmin
      exact ⟨lo, List.minimum_mem hlo.symm, hmin⟩
    · obtain ⟨hi, hhi⟩ := WithBot.ne_bot_iff_exists.mp (ne_bot_of_le_ne_bot WithBot.coe_ne_bot hmax)
      rw [← hhi, WithBot.coe_le_coe] at hmax
      exact ⟨hi, List.maximum_mem hhi.symm, hmax⟩
  · rintro ⟨⟨lo, hlo, hlom⟩, ⟨hi, hhi, hmhi⟩⟩
    exact ⟨(List.minimum_le_of_mem' hlo).trans (WithTop.coe_le_coe.mpr hlom),
      (WithBot.coe_le_coe.mpr hmhi).trans (List.le_maximum_of_mem' hhi)⟩

theorem Between.mono (h : Between xs m) (hsub : xs ⊆ ys) : Between ys m :=
  ⟨(List.minimum_anti hsub).trans h.1, h.2.trans (List.maximum_mono hsub)⟩

theorem Between.mem_Icc (h : Between xs m) (hxs : ∀ x ∈ xs, x ∈ Set.Icc lo hi) :
    m ∈ Set.Icc lo hi := by
  obtain ⟨⟨a, ha, ham⟩, ⟨b, hb, hmb⟩⟩ := between_iff.mp h
  exact ⟨(hxs a ha).1.trans ham, hmb.trans (hxs b hb).2⟩

end Order

/-! ## Moving towards the data -/

section Field

variable [Field K] [LinearOrder K] [IsStrictOrderedRing K] {xs : List K} {m x g : K}

/-- Part of the way from one value towards another stays between the two. -/
theorem Between.towards (hm : Between xs m) (hx : Between xs x) (hg : g ∈ Set.Icc (0 : K) 1) :
    Between xs (m + g * (x - m)) := by
  obtain ⟨⟨a, ha, ham⟩, ⟨b, hb, hmb⟩⟩ := between_iff.mp hm
  obtain ⟨⟨c, hc, hcx⟩, ⟨d, hd, hxd⟩⟩ := between_iff.mp hx
  have hbetween : m + g * (x - m) ∈ Set.Icc (min a c) (max b d) :=
    (convex_Icc (min a c) (max b d)).add_smul_sub_mem
      ⟨min_le_of_left_le ham, le_max_of_le_left hmb⟩
      ⟨min_le_of_right_le hcx, le_max_of_le_right hxd⟩ hg
  -- the smaller of the two data below, and the larger of the two above, are data themselves
  refine between_iff.mpr ⟨?_, ?_⟩
  · rcases min_choice a c with hac | hac
    · exact ⟨a, ha, hac ▸ hbetween.1⟩
    · exact ⟨c, hc, hac ▸ hbetween.1⟩
  · rcases max_choice b d with hbd | hbd
    · exact ⟨b, hb, hbd ▸ hbetween.2⟩
    · exact ⟨d, hd, hbd ▸ hbetween.2⟩

/-- What a step may do to the estimate: with no datum it stays, and with one it goes part of the way
there. -/
def MovesTowards (m m' : K) : Option K → Prop
  | none => m' = m
  | some x => ∃ g ∈ Set.Icc (0 : K) 1, m' = m + g * (x - m)

/-- **Estimates stay within their data.** Where every step keeps an invariant and moves the estimate
no further than to its datum, the estimate ends between where it began and the data. -/
theorem between_foldl (step : S → X → S) (estimate : S → K) (datum : X → Option K)
    (Inv : S → Prop)
    (hstep : ∀ s x, Inv s →
      Inv (step s x) ∧ MovesTowards (estimate s) (estimate (step s x)) (datum x))
    {s : S} (hs : Inv s) (xs : List X) :
    Inv (xs.foldl step s) ∧
      Between (estimate s :: xs.filterMap datum) (estimate (xs.foldl step s)) := by
  -- from the end, so that the estimate before the last step is already within its data
  induction xs using List.reverseRecOn with
  | nil => exact ⟨hs, between_of_mem List.mem_cons_self⟩
  | append_singleton xs x ih =>
    obtain ⟨hinv, hbetween⟩ := ih
    obtain ⟨hinv', hmoves⟩ := hstep _ x hinv
    rw [List.foldl_concat, List.filterMap_append]
    refine ⟨hinv', ?_⟩
    have hwider : Between (estimate s :: (xs.filterMap datum ++ [x].filterMap datum))
        (estimate (xs.foldl step s)) :=
      hbetween.mono (List.cons_subset_cons _ (List.subset_append_left _ _))
    cases hx : datum x with
    | none =>
      rw [hx] at hmoves
      rw [hmoves]
      exact hwider
    | some d =>
      rw [hx] at hmoves
      obtain ⟨g, hg, hmove⟩ := hmoves
      rw [hmove]
      exact hwider.towards (between_of_mem (by simp [hx])) hg

end Field

end SniGate
