import Mathlib.Data.List.Infix
import Mathlib.Tactic

/-!
# Deciding on a growing window

A reader that must not consume its input looks at a window onto the front of it, and looks again at
a larger window until it can decide. This file is about such readers in general: the input is a list
of anything, the decision is any partial function of the window, and the source of the windows
answers each look with a size, a failure or a deadline.

## What can go wrong

What the reader concludes depends on the windows it happened to see unless its decision is
*settled* there: a decision made on a window is the decision for every continuation of it. The
reader itself adds nothing to this. `WindowReader.run_done` says that a finished run either
repeats a decision made on a window it saw, or saw none that it could decide on; so settled windows
are all it takes for a run that saw a decisive one to decide as on the whole input
(`WindowReader.judge_eq_of_run_done`).

## Design choices

A look is not a window. A source that has nothing new to show is looked at again, and a window too
short to be worth another try is passed over, so what a run is accountable for are the windows it
*judged* (`WindowReader.windows`), in the order it judged them. The sizes a source offers are not
assumed to grow: a reader that is offered less than it has gives up, and says so from the last
window it judged. That a source which does grow brings the reader to the first decisive window is a
theorem about it (`WindowReader.run_of_growing`).
-/

namespace SniGate

variable {α ρ : Type*}

/-- A decision made on `p`, if one is made, is the decision for every continuation of `p`. -/
def SettledAt (judge : List α → Option ρ) (p : List α) : Prop :=
  ∀ r, judge p = some r → ∀ s, p <+: s → judge s = some r

/-! ## The reader -/

/-- What a look at the source yields: a number of elements, an error, or the expiry of the
deadline for the current request. -/
inductive Look
  | got (n : ℕ)
  | failed
  | elapsed
deriving DecidableEq, Repr

/-- A reader: its decision on a window, what it settles for when the source dries up, what it
says when nothing ever arrived, and the largest window it will wait for. -/
structure WindowReader (α ρ : Type*) where
  /-- The decision on a window, or `none` to wait for a larger one. -/
  judge : List α → Option ρ
  /-- The conclusion drawn from an undecided window that will not grow. -/
  stalled : List α → ρ
  /-- The conclusion when there was never a window at all. -/
  nothing : ρ
  /-- The largest window. -/
  cap : ℕ

/-- Waiting for more than `have_` elements (`late` once the deadline has passed), or finished. -/
inductive WindowState (ρ : Type*)
  | waiting (have_ : ℕ) (late : Bool)
  | done (r : ρ)
deriving DecidableEq, Repr

namespace WindowReader

variable (R : WindowReader α ρ) (s : List α)

/-- Decide on the first `n` elements, or wait for more. -/
def look (n : ℕ) : WindowState ρ :=
  match R.judge (s.take n) with
  | some r => .done r
  | none => if n < R.cap then .waiting n false else .done (R.stalled (s.take n))

/-- The source has nothing beyond the first `n` elements. -/
def stop (n : ℕ) : WindowState ρ :=
  .done (if n = 0 then R.nothing else R.stalled (s.take n))

/-- One look. Short windows are ignored until the deadline passes; after it, whatever is there has
to do. -/
def step : WindowState ρ → Look → WindowState ρ
  | .done r, _ => .done r
  | .waiting n _, .failed => R.stop s n
  | .waiting n _, .elapsed => .waiting n true
  | .waiting n late, .got m =>
    if m = 0 then R.stop s n
    else if late ∨ min (n + 1) R.cap ≤ m then
      if n < m then R.look s m else R.stop s n
    else .waiting n late

/-- The state after a sequence of looks. -/
def run (looks : List Look) : WindowState ρ := looks.foldl (R.step s) (.waiting 0 false)

/-! ## The windows a run judges -/

/-- The windows a look makes the reader judge: the one offered, if it is worth judging and larger
than the last. -/
def judged : WindowState ρ → Look → List ℕ
  | .done _, _ => []
  | .waiting _ _, .failed => []
  | .waiting _ _, .elapsed => []
  | .waiting n late, .got m =>
    if m ≠ 0 ∧ (late ∨ min (n + 1) R.cap ≤ m) ∧ n < m then [m] else []

/-- The windows judged in a sequence of looks, in order. -/
def windowsFrom : WindowState ρ → List Look → List ℕ
  | _, [] => []
  | st, e :: looks => R.judged st e ++ windowsFrom (R.step s st e) looks

/-- The windows a run judges. -/
def windows (looks : List Look) : List ℕ := R.windowsFrom s (.waiting 0 false) looks

theorem ne_zero_of_windowsFrom {looks : List Look} {n : ℕ} {st : WindowState ρ}
    (h : n ∈ R.windowsFrom s st looks) : n ≠ 0 := by
  induction looks generalizing st with
  | nil => simp [windowsFrom] at h
  | cons e looks ih =>
    rw [windowsFrom, List.mem_append] at h
    rcases h with h | h
    · cases st with
      | done r => simp [judged] at h
      | waiting k late =>
        cases e with
        | failed => simp [judged] at h
        | elapsed => simp [judged] at h
        | got m =>
          rw [judged, List.mem_ite_nil_right, List.mem_singleton] at h
          exact h.2 ▸ h.1.1
    · exact ih h

theorem ne_zero_of_windows {looks : List Look} {n : ℕ} {s : List α}
    (h : n ∈ R.windows s looks) : n ≠ 0 := R.ne_zero_of_windowsFrom s h

/-! ## Runs -/

/-- What the windows judged so far say about the state: a waiting reader could decide on none of
them, and holds the last; a finished one repeats a decision made on one of them, or could decide on
none. -/
def Accounts (seen : List ℕ) : WindowState ρ → Prop
  | .waiting n _ => (∀ m ∈ seen, R.judge (s.take m) = none) ∧ (seen = [] ∧ n = 0 ∨ n ∈ seen ∧ n ≠ 0)
  | .done r => (∃ n ∈ seen, R.judge (s.take n) = some r) ∨
      (∀ n ∈ seen, R.judge (s.take n) = none) ∧
        (seen = [] ∧ r = R.nothing ∨ ∃ n ∈ seen, r = R.stalled (s.take n))

variable {R s} {seen : List ℕ} {st : WindowState ρ} {looks : List Look} {r : ρ} {n : ℕ}

theorem accounts_stop {late : Bool} (h : R.Accounts s seen (.waiting n late)) :
    R.Accounts s seen (R.stop s n) := by
  obtain ⟨hopen, hlast⟩ := h
  refine .inr ⟨hopen, ?_⟩
  rcases hlast with ⟨hnil, rfl⟩ | ⟨hmem, hn⟩
  · exact .inl ⟨hnil, if_pos rfl⟩
  · exact .inr ⟨n, hmem, if_neg hn⟩

/-- Judging a window adds it to those the state is accountable for. -/
theorem accounts_look (hopen : ∀ m ∈ seen, R.judge (s.take m) = none) (hn : n ≠ 0) :
    R.Accounts s (seen ++ [n]) (R.look s n) := by
  have hmem : n ∈ seen ++ [n] := List.mem_append_right _ List.mem_cons_self
  rw [look]
  cases hj : R.judge (s.take n) with
  | some r => exact .inl ⟨n, hmem, hj⟩
  | none =>
    have hall : ∀ m ∈ seen ++ [n], R.judge (s.take m) = none := by
      intro m hm
      rcases List.mem_append.mp hm with hm | hm
      · exact hopen m hm
      · rw [List.mem_singleton.mp hm, hj]
    by_cases hc : n < R.cap
    · simp only [if_pos hc]
      exact ⟨hall, .inr ⟨hmem, hn⟩⟩
    · simp only [if_neg hc]
      exact .inr ⟨hall, .inr ⟨n, hmem, rfl⟩⟩

theorem accounts_step (h : R.Accounts s seen st) (e : Look) :
    R.Accounts s (seen ++ R.judged st e) (R.step s st e) := by
  cases st with
  | done r => rwa [judged, List.append_nil]
  | waiting n late =>
    cases e with
    | failed => rw [judged, List.append_nil]; exact accounts_stop h
    | elapsed => rwa [judged, List.append_nil]
    | got m =>
      rw [step, judged]
      by_cases h0 : m = 0
      · rw [if_pos h0, if_neg (fun hc ↦ hc.1 h0), List.append_nil]
        exact accounts_stop h
      by_cases hworth : late ∨ min (n + 1) R.cap ≤ m
      · rw [if_neg h0, if_pos hworth]
        by_cases hlarger : n < m
        · rw [if_pos hlarger, if_pos ⟨h0, hworth, hlarger⟩]
          exact accounts_look h.1 h0
        · rw [if_neg hlarger, if_neg (fun hc ↦ hlarger hc.2.2), List.append_nil]
          exact accounts_stop h
      · rw [if_neg h0, if_neg hworth, if_neg (fun hc ↦ hworth hc.2.1), List.append_nil]
        exact h

theorem accounts_foldl (h : R.Accounts s seen st) :
    R.Accounts s (seen ++ R.windowsFrom s st looks) (looks.foldl (R.step s) st) := by
  induction looks generalizing st seen with
  | nil => rwa [windowsFrom, List.append_nil]
  | cons e looks ih =>
    rw [List.foldl_cons, windowsFrom, ← List.append_assoc]
    exact ih (accounts_step h e)

/-- **A run answers for what it judged.** -/
theorem accounts_run (R : WindowReader α ρ) (s : List α) (looks : List Look) :
    R.Accounts s (R.windows s looks) (R.run s looks) := by
  have hstart : R.Accounts s [] (.waiting 0 false) := ⟨by simp, .inl ⟨rfl, rfl⟩⟩
  exact List.nil_append (R.windows s looks) ▸ accounts_foldl hstart

/-- A finished run repeats a decision made on a window it judged, or it could decide on none: there
was none, or it resigned on one of them. -/
theorem run_done (h : R.run s looks = .done r) :
    (∃ n ∈ R.windows s looks, R.judge (s.take n) = some r) ∨
      (∀ n ∈ R.windows s looks, R.judge (s.take n) = none) ∧
        (R.windows s looks = [] ∧ r = R.nothing ∨
          ∃ n ∈ R.windows s looks, r = R.stalled (s.take n)) := by
  have haccount := accounts_run R s looks
  rwa [h] at haccount

/-- **Settled windows cannot be steered.** If the windows a finished run judged are settled, and it
could decide on one of them, it gives the decision for the whole input. -/
theorem judge_eq_of_run_done
    (hset : ∀ n ∈ R.windows s looks, SettledAt R.judge (s.take n))
    (hdecisive : ∃ n ∈ R.windows s looks, R.judge (s.take n) ≠ none)
    (h : R.run s looks = .done r) : R.judge s = some r := by
  rcases run_done h with ⟨n, hn, hr⟩ | ⟨hopen, -⟩
  · exact hset n hn r hr s (List.take_prefix n s)
  · obtain ⟨n, hn, hne⟩ := hdecisive
    exact absurd (hopen n hn) hne

/-! ## Windows that grow -/

/-- A reader whose windows stay within `n`, and that decides as on the whole input wherever it
decides, waits at less than `n` or has that decision. -/
def Towards (n : ℕ) (r : ρ) : WindowState ρ → Prop
  | .waiting m late => m < n ∧ late = false
  | .done r' => r' = r

theorem towards_look {m : ℕ} (hm : m ≤ n) (hcap : n ≤ R.cap)
    (hset : SettledAt R.judge (s.take m)) (hn : R.judge (s.take n) = some r)
    (hr : R.judge s = some r) : Towards n r (R.look s m) := by
  rw [look]
  cases hj : R.judge (s.take m) with
  | some r' =>
    have hs := hset r' hj s (List.take_prefix m s)
    exact Option.some.inj (hs.symm.trans hr)
  | none =>
    have hlt : m < n := by
      refine lt_of_le_of_ne hm fun heq ↦ ?_
      rw [heq, hn] at hj
      exact absurd hj (by simp)
    simp only [if_pos (lt_of_lt_of_le hlt hcap)]
    exact ⟨hlt, rfl⟩

theorem towards_step {m : ℕ} (h : Towards n r st) (h0 : 0 < m) (hm : m ≤ n) (hcap : n ≤ R.cap)
    (hset : SettledAt R.judge (s.take m)) (hn : R.judge (s.take n) = some r)
    (hr : R.judge s = some r) : Towards n r (R.step s st (.got m)) := by
  cases st with
  | done r' => exact h
  | waiting k late =>
    obtain ⟨hk, rfl⟩ := h
    rw [step, if_neg (by omega)]
    by_cases hlarger : k < m
    · rw [if_pos (.inr (by omega)), if_pos hlarger]
      exact towards_look hm hcap hset hn hr
    · rw [if_neg (by simp; omega)]
      exact ⟨hk, rfl⟩

theorem towards_foldl {cuts : List ℕ} (h : Towards n r st) (hcuts : ∀ m ∈ cuts, 0 < m ∧ m ≤ n)
    (hcap : n ≤ R.cap) (hset : ∀ m ∈ cuts, SettledAt R.judge (s.take m))
    (hn : R.judge (s.take n) = some r) (hr : R.judge s = some r) :
    Towards n r ((cuts.map .got).foldl (R.step s) st) := by
  induction cuts generalizing st with
  | nil => exact h
  | cons m cuts ih =>
    rw [List.map_cons, List.foldl_cons]
    obtain ⟨h0, hm⟩ := hcuts m List.mem_cons_self
    exact ih (towards_step h h0 hm hcap (hset m List.mem_cons_self) hn hr)
      (fun k hk ↦ hcuts k (List.mem_cons_of_mem _ hk))
      (fun k hk ↦ hset k (List.mem_cons_of_mem _ hk))

theorem foldl_done (looks : List Look) : looks.foldl (R.step s) (.done r) = .done r := by
  induction looks with
  | nil => rfl
  | cons e looks ih => exact ih

/-- **Growing windows reach the decision.** However the front of the input up to a decisive window
is cut, a reader that judges settled windows only gives the decision for the whole input. -/
theorem run_of_growing {cuts : List ℕ} (hcuts : ∀ m ∈ cuts, 0 < m ∧ m ≤ n) (hpos : 0 < n)
    (hcap : n ≤ R.cap) (hset : ∀ m ∈ cuts ++ [n], SettledAt R.judge (s.take m))
    (hn : R.judge (s.take n) = some r) (looks : List Look) :
    R.judge s = some r ∧ R.run s (cuts.map .got ++ .got n :: looks) = .done r := by
  have hmem : n ∈ cuts ++ [n] := List.mem_append_right _ List.mem_cons_self
  have hr := hset n hmem r hn s (List.take_prefix n s)
  have hbefore : Towards n r ((cuts.map .got).foldl (R.step s) (.waiting 0 false)) :=
    towards_foldl ⟨hpos, rfl⟩ hcuts hcap (fun m hm ↦ hset m (List.mem_append_left _ hm)) hn hr
  refine ⟨hr, ?_⟩
  rw [run, List.foldl_append, List.foldl_cons]
  cases hst : (cuts.map .got).foldl (R.step s) (.waiting 0 false) with
  | done r' =>
    rw [hst] at hbefore
    rw [step, foldl_done, hbefore]
  | waiting k late =>
    rw [hst] at hbefore
    obtain ⟨hk, rfl⟩ := hbefore
    rw [step, if_neg (by omega), if_pos (.inr (by omega)), if_pos hk, look, hn, foldl_done]

end WindowReader

end SniGate
