import Mathlib.Data.List.Basic
import Mathlib.Tactic

/-!
# Isolation of an observer

A system takes every event and answers it. An observer sees some of the events with their answers,
and is isolated when what it sees of a run depends on the visible events alone. The rule
(`Unwinding.observed_eq`) asks for a relation between states that are alike for the observer: an
invisible event leads to a state that is alike, and a visible one has the same answer in states that
are alike and leads to states that are alike.
-/

namespace SniGate

variable {S E O : Type*}

/-- The answers an observer sees along a run. -/
def observedAnswers (step : S → E → O × S) (visible : E → Prop) [DecidablePred visible] :
    S → List E → List O
  | _, [] => []
  | s, e :: es =>
    if visible e then (step s e).1 :: observedAnswers step visible (step s e).2 es
    else observedAnswers step visible (step s e).2 es

/-- The relation `alike` isolates an observer. -/
structure Unwinding (step : S → E → O × S) (visible : E → Prop) (alike : S → S → Prop) : Prop where
  refl : ∀ s, alike s s
  invisible : ∀ s t e, ¬visible e → alike s t → alike (step s e).2 t
  answer : ∀ s t e, visible e → alike s t → (step s e).1 = (step t e).1
  visible : ∀ s t e, visible e → alike s t → alike (step s e).2 (step t e).2

section

variable {step : S → E → O × S} {visible : E → Prop} [DecidablePred visible]
  {alike : S → S → Prop} {s t : S} {es es' : List E}

/-- What is seen of a run is what is seen of its visible events. -/
theorem Unwinding.observed_filter (h : Unwinding step visible alike) (hs : alike s t) :
    observedAnswers step visible s es =
      observedAnswers step visible t (es.filter fun e ↦ visible e) := by
  induction es generalizing s t with
  | nil => rfl
  | cons e es ih =>
    by_cases he : visible e
    · rw [List.filter_cons_of_pos (by simpa using he), observedAnswers, observedAnswers, if_pos he,
        if_pos he, h.answer s t e he hs, ih (h.visible s t e he hs)]
    · rw [List.filter_cons_of_neg (by simpa using he), observedAnswers, if_neg he,
        ih (h.invisible s t e he hs)]

/-- **Isolation.** Two runs with the same visible events, from states that are alike, look alike. -/
theorem Unwinding.observed_eq (h : Unwinding step visible alike) (hs : alike s t)
    (hes : (es.filter fun e ↦ visible e) = es'.filter fun e ↦ visible e) :
    observedAnswers step visible s es = observedAnswers step visible t es' := by
  rw [h.observed_filter hs, hes]
  exact (h.observed_filter (h.refl t)).symm

end

end SniGate
