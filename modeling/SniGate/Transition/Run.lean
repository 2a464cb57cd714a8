import Mathlib.Data.List.Basic
import Mathlib.Tactic

/-!
# Runs of a transition system

A system is a partial step function: an event either takes a state to the next or cannot happen
there. `runFrom` follows a list of events, and `Reach` collects the states some run arrives at. A
`guard` restricts the runs to those whose steps all satisfy a condition on the state and the event;
with no restriction it is `fun _ _ ↦ True`.

`Reach.invariant` is the rule that every safety argument about a run goes through.
-/

namespace SniGate

variable {S E : Type*}

/-- The state after a list of events, if each of them can happen. -/
def runFrom (step : S → E → Option S) (s : S) : List E → Option S
  | [] => some s
  | e :: es => (step s e).bind fun s' ↦ runFrom step s' es

/-- The states reached from `init` by steps that satisfy `guard`. -/
inductive Reach (step : S → E → Option S) (guard : S → E → Prop) (init : S) : S → Prop
  | start : Reach step guard init init
  | step {s s' : S} {e : E} (h : Reach step guard init s) (ok : guard s e)
      (next : step s e = some s') : Reach step guard init s'

/-- A step that satisfies a guard. -/
def guarded (step : S → E → Option S) (guard : S → E → Prop) [∀ s e, Decidable (guard s e)] (s : S)
    (e : E) : Option S :=
  if guard s e then step s e else none

section

variable {step : S → E → Option S} {guard : S → E → Prop} {init s s' : S} {e : E} {es : List E}

theorem runFrom_cons_eq_some :
    runFrom step s (e :: es) = some s' ↔
      ∃ t, step s e = some t ∧ runFrom step t es = some s' := by
  rw [runFrom, Option.bind_eq_some_iff]

theorem runFrom_concat (h : runFrom step init es = some s) (hstep : step s e = some s') :
    runFrom step init (es ++ [e]) = some s' := by
  induction es generalizing init with
  | nil =>
    obtain rfl := Option.some.inj h
    exact runFrom_cons_eq_some.mpr ⟨s', hstep, rfl⟩
  | cons e' es ih =>
    obtain ⟨t, ht, hrun⟩ := runFrom_cons_eq_some.mp h
    exact runFrom_cons_eq_some.mpr ⟨t, ht, ih hrun⟩

/-- **Invariants.** What holds at the start and is kept by every permitted step holds wherever a
run arrives. -/
theorem Reach.invariant {Inv : S → Prop} (h : Reach step guard init s) (h0 : Inv init)
    (hstep : ∀ t e t', Inv t → guard t e → step t e = some t' → Inv t') : Inv s := by
  induction h with
  | start => exact h0
  | step _ ok next ih => exact hstep _ _ _ ih ok next

theorem history_of_runFrom {Inv : List E → S → Prop} (h : runFrom step s es = some s')
    (h0 : Inv [] s)
    (hstep : ∀ past t e t', Inv past t → step t e = some t' → Inv (past ++ [e]) t') :
    Inv es s' := by
  suffices hpast : ∀ past, Inv past s → Inv (past ++ es) s' from hpast [] h0
  clear h0
  induction es generalizing s with
  | nil =>
    obtain rfl := Option.some.inj h
    intro past hinv
    rwa [List.append_nil]
  | cons e es ih =>
    obtain ⟨t, ht, hrun⟩ := runFrom_cons_eq_some.mp h
    intro past hinv
    have hnext := ih hrun (past ++ [e]) (hstep past s e t hinv ht)
    rwa [List.append_assoc] at hnext

theorem invariant_of_runFrom {Inv : S → Prop} (h : runFrom step s es = some s') (h0 : Inv s)
    (hstep : ∀ t e t', Inv t → step t e = some t' → Inv t') : Inv s' := by
  have hpast : (fun (_ : List E) t ↦ Inv t) es s' := history_of_runFrom h h0 fun _ ↦ hstep
  exact hpast

theorem reach_of_runFrom (h : runFrom step s es = some s')
    (hs : Reach step (fun _ _ ↦ True) init s) : Reach step (fun _ _ ↦ True) init s' :=
  invariant_of_runFrom h hs fun _ _ _ hreach hnext ↦ hreach.step trivial hnext

/-- A run of guarded steps visits states that permitted steps reach. -/
theorem reach_of_runFrom_guarded [∀ s e, Decidable (guard s e)]
    (h : runFrom (guarded step guard) s es = some s') (hs : Reach step guard init s) :
    Reach step guard init s' := by
  refine invariant_of_runFrom h hs fun t e t' hreach hnext ↦ ?_
  rw [guarded] at hnext
  split_ifs at hnext with hok
  exact hreach.step hok hnext

end

end SniGate
