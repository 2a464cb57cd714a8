import SniGate.Config.Types
import SniGate.Transition.Run
import Mathlib.Data.List.DropRight

/-!
# Racing two address families

`race_families` first selects between the primary connect and a delay, and then, in a loop, between
the two connects. A `biased` select polls its enabled arms in order until one is ready, and waits
when none is; with every arm disabled it panics. The machine here goes from one such poll to the
next: an event is what the polled future answers, or the wakeup of a race that waits. A future may
give any answer at any poll, so a run is any order in which the attempts and the delay complete,
fail, or do neither.

## What holds of a run

An answer that is a connection ends the race at once, so the first one wins; and whenever the race
waits, each started attempt that has not failed has been asked since the last wakeup
(`RaceCorrect`). Together these mean that no success is passed over (`poll_ok`).
-/

namespace SniGate

/-! ## The machine -/

section Machine

variable {Conn : Type}

/-- What polling a connect returns. -/
inductive Answer (Conn : Type)
  | pending
  | ok (conn : Conn)
  | err (e : Str)

/-- A future is polled, and answers; or the race is woken. -/
inductive RaceEvent (Conn : Type)
  | primary (a : Answer Conn)
  | delay (elapsed : Bool)
  | fallback (a : Answer Conn)
  | woken

/-- Where the race is: what it polls next, or how it waits. -/
inductive RacePhase (Conn : Type)
  | headPrimary
  | headDelay
  | headWaiting
  | racePrimary
  | raceFallback
  | raceWaiting
  | done (result : Except Str Conn)
  /-- All arms of a select are disabled. -/
  | panicked

structure Race (Conn : Type) where
  primaryErr : Option Str
  fallbackErr : Option Str
  phase : RacePhase Conn

namespace Race

def start : Race Conn := ⟨none, none, .headPrimary⟩

/-- Poll the enabled arms of the loop's select, from the first one on. -/
def select (r : Race Conn) : Race Conn :=
  if r.primaryErr.isNone then { r with phase := .racePrimary }
  else if r.fallbackErr.isNone then { r with phase := .raceFallback }
  else { r with phase := .panicked }

/-- The text of the error when both attempts have failed. -/
def bothFailed (primary fallback : SocketAddr) (pe fe : Str) : Str :=
  "connecting to ".toList ++ primary.toStr ++ " (".toList ++ pe ++ ") and ".toList ++
    fallback.toStr ++ " (".toList ++ fe ++ ")".toList

/-- The top of the loop. -/
def top (primary fallback : SocketAddr) (r : Race Conn) : Race Conn :=
  match r.primaryErr, r.fallbackErr with
  | some pe, some fe => { r with phase := .done (.error (bothFailed primary fallback pe fe)) }
  | _, _ => r.select

/-- What an answer leads to. -/
def step (primary fallback : SocketAddr) (r : Race Conn) (e : RaceEvent Conn) :
    Option (Race Conn) :=
  match r.phase, e with
  | .headPrimary, .primary .pending => some { r with phase := .headDelay }
  | .headPrimary, .primary (.ok conn) => some { r with phase := .done (.ok conn) }
  | .headPrimary, .primary (.err e) => some (top primary fallback { r with primaryErr := some e })
  | .headDelay, .delay true => some (top primary fallback r)
  | .headDelay, .delay false => some { r with phase := .headWaiting }
  | .headWaiting, .woken => some { r with phase := .headPrimary }
  | .racePrimary, .primary .pending =>
    -- the second arm, if it is enabled
    some { r with phase := if r.fallbackErr.isNone then .raceFallback else .raceWaiting }
  | .racePrimary, .primary (.ok conn) => some { r with phase := .done (.ok conn) }
  | .racePrimary, .primary (.err e) => some (top primary fallback { r with primaryErr := some e })
  | .raceFallback, .fallback .pending => some { r with phase := .raceWaiting }
  | .raceFallback, .fallback (.ok conn) => some { r with phase := .done (.ok conn) }
  | .raceFallback, .fallback (.err e) =>
    some (top primary fallback { r with fallbackErr := some e })
  | .raceWaiting, .woken => some r.select
  | _, _ => none

def run (primary fallback : SocketAddr) (es : List (RaceEvent Conn)) : Option (Race Conn) :=
  runFrom (step primary fallback) start es

/-- The race waits for a wakeup. -/
def Waits (r : Race Conn) : Prop := r.phase = .headWaiting ∨ r.phase = .raceWaiting

end Race

/-! ## What is asked -/

namespace RaceEvent

def isWoken : RaceEvent Conn → Bool
  | woken => true
  | _ => false

/-- Which future is polled. -/
inductive Polled
  | primary
  | delay
  | fallback

def polled : RaceEvent Conn → Option Polled
  | primary _ => some .primary
  | delay _ => some .delay
  | fallback _ => some .fallback
  | woken => none

/-- The future has completed. -/
def completed : RaceEvent Conn → Bool
  | primary .pending => false
  | fallback .pending => false
  | delay elapsed => elapsed
  | woken => false
  | _ => true

end RaceEvent

/-- The polls since the last wakeup. -/
def sinceWoken (es : List (RaceEvent Conn)) : List (RaceEvent Conn) :=
  es.rtakeWhile fun e ↦ !e.isWoken

/-- The primary has failed. -/
def PrimaryFailed (es : List (RaceEvent Conn)) : Prop := ∃ e, .primary (.err e) ∈ es

def FallbackFailed (es : List (RaceEvent Conn)) : Prop := ∃ e, .fallback (.err e) ∈ es

/-- The fallback may be started. -/
def HeadStartOver (es : List (RaceEvent Conn)) : Prop := PrimaryFailed es ∨ .delay true ∈ es

/-! ## Steps -/

namespace Race

/-- What a step can be. -/
inductive Moves (primary fallback : SocketAddr) (r : Race Conn) : RaceEvent Conn → Race Conn → Prop
  | headSilent (h : r.phase = .headPrimary) :
      Moves primary fallback r (.primary .pending) { r with phase := .headDelay }
  | delaySilent (h : r.phase = .headDelay) :
      Moves primary fallback r (.delay false) { r with phase := .headWaiting }
  | delayOver (h : r.phase = .headDelay) :
      Moves primary fallback r (.delay true) (top primary fallback r)
  | headWoken (h : r.phase = .headWaiting) :
      Moves primary fallback r .woken { r with phase := .headPrimary }
  | primaryOk (h : r.phase = .headPrimary ∨ r.phase = .racePrimary) (conn : Conn) :
      Moves primary fallback r (.primary (.ok conn)) { r with phase := .done (.ok conn) }
  | primaryErr (h : r.phase = .headPrimary ∨ r.phase = .racePrimary) (e : Str) :
      Moves primary fallback r (.primary (.err e))
        (top primary fallback { r with primaryErr := some e })
  | primarySilent (h : r.phase = .racePrimary) :
      Moves primary fallback r (.primary .pending)
        { r with phase := if r.fallbackErr.isNone then .raceFallback else .raceWaiting }
  | fallbackOk (h : r.phase = .raceFallback) (conn : Conn) :
      Moves primary fallback r (.fallback (.ok conn)) { r with phase := .done (.ok conn) }
  | fallbackErr (h : r.phase = .raceFallback) (e : Str) :
      Moves primary fallback r (.fallback (.err e))
        (top primary fallback { r with fallbackErr := some e })
  | fallbackSilent (h : r.phase = .raceFallback) :
      Moves primary fallback r (.fallback .pending) { r with phase := .raceWaiting }
  | raceWoken (h : r.phase = .raceWaiting) : Moves primary fallback r .woken r.select

variable {primary fallback : SocketAddr} {r t : Race Conn} {e : RaceEvent Conn}
  {es : List (RaceEvent Conn)}

theorem moves_of_step (h : r.step primary fallback e = some t) :
    Moves primary fallback r e t := by
  rw [step.eq_def] at h
  split at h
  all_goals try obtain rfl := Option.some.inj h
  · exact .headSilent ‹_›
  · exact .primaryOk (.inl ‹_›) _
  · exact .primaryErr (.inl ‹_›) _
  · exact .delayOver ‹_›
  · exact .delaySilent ‹_›
  · exact .headWoken ‹_›
  · exact .primarySilent ‹_›
  · exact .primaryOk (.inr ‹_›) _
  · exact .primaryErr (.inr ‹_›) _
  · exact .fallbackSilent ‹_›
  · exact .fallbackOk ‹_› _
  · exact .fallbackErr ‹_› _
  · exact .raceWoken ‹_›
  · exact absurd h (by simp)

@[simp] theorem primaryErr_select : r.select.primaryErr = r.primaryErr := by
  rw [select]
  split_ifs <;> rfl

@[simp] theorem fallbackErr_select : r.select.fallbackErr = r.fallbackErr := by
  rw [select]
  split_ifs <;> rfl

@[simp] theorem primaryErr_top : (top primary fallback r).primaryErr = r.primaryErr := by
  rw [top]
  split
  · rfl
  · exact primaryErr_select

@[simp] theorem fallbackErr_top : (top primary fallback r).fallbackErr = r.fallbackErr := by
  rw [top]
  split
  · rfl
  · exact fallbackErr_select

/-! ## Phases -/

/-- What the race knows in each phase, after these events. -/
def Fits (primary fallback : SocketAddr) (es : List (RaceEvent Conn)) (r : Race Conn) : Prop :=
  match r.phase with
  | .headPrimary => r.primaryErr = none ∧ r.fallbackErr = none ∧ .delay true ∉ es
  | .headDelay => r.primaryErr = none ∧ r.fallbackErr = none ∧ .delay true ∉ es ∧
      .primary .pending ∈ sinceWoken es
  | .headWaiting => r.primaryErr = none ∧ r.fallbackErr = none ∧ .delay true ∉ es ∧
      .primary .pending ∈ sinceWoken es ∧ .delay false ∈ sinceWoken es
  | .racePrimary => r.primaryErr = none ∧ HeadStartOver es
  | .raceFallback => r.fallbackErr = none ∧ HeadStartOver es ∧
      (r.primaryErr = none → es.getLast? = some (.primary .pending))
  | .raceWaiting => HeadStartOver es ∧ (r.primaryErr = none ∨ r.fallbackErr = none) ∧
      (r.primaryErr = none → .primary .pending ∈ sinceWoken es) ∧
      (r.fallbackErr = none → .fallback .pending ∈ sinceWoken es)
  | .done (.ok conn) => (r.primaryErr = none ∨ r.fallbackErr = none) ∧
      (es.getLast? = some (.primary (.ok conn)) ∨ es.getLast? = some (.fallback (.ok conn)))
  | .done (.error text) => ∃ pe fe, r.primaryErr = some pe ∧ r.fallbackErr = some fe ∧
      text = bothFailed primary fallback pe fe
  | .panicked => False

theorem sinceWoken_concat (h : e.isWoken = false) :
    sinceWoken (es ++ [e]) = sinceWoken es ++ [e] :=
  List.rtakeWhile_concat_pos _ _ _ (by simp [h])

theorem mem_sinceWoken (h : es.getLast? = some e) (hw : e.isWoken = false) :
    e ∈ sinceWoken es := by
  obtain ⟨front, rfl⟩ := List.getLast?_eq_some_iff.mp h
  rw [sinceWoken_concat hw]
  exact List.mem_append_right _ (List.mem_singleton_self _)

theorem fits_select (hover : HeadStartOver es) (harm : r.primaryErr = none ∨ r.fallbackErr = none) :
    Fits primary fallback es r.select := by
  rw [select]
  split_ifs with hp hf
  · exact ⟨by simpa using hp, hover⟩
  · refine ⟨by simpa using hf, hover, fun hnone ↦ ?_⟩
    exact absurd hnone (by simpa using hp)
  · rcases harm with hnone | hnone
    · exact hp (by simp [hnone])
    · exact hf (by simp [hnone])

theorem fits_top (hover : HeadStartOver es) :
    Fits primary fallback es (top primary fallback r) := by
  rw [top]
  cases hp : r.primaryErr with
  | none => exact fits_select hover (.inl hp)
  | some pe =>
    cases hf : r.fallbackErr with
    | none => exact fits_select hover (.inr hf)
    | some fe => exact ⟨pe, fe, rfl, rfl, rfl⟩

theorem headStartOver_concat (h : HeadStartOver es) : HeadStartOver (es ++ [e]) :=
  h.imp (fun ⟨e, he⟩ ↦ ⟨e, List.mem_append_left _ he⟩) (List.mem_append_left _)

/-- A step leads from what is known in one phase to what is known in the next. -/
theorem fits_step (h : Fits primary fallback es r) (hmoves : Moves primary fallback r e t) :
    Fits primary fallback (es ++ [e]) t := by
  have hlast : (es ++ [e]).getLast? = some e := List.getLast?_concat
  cases hmoves with
  | headSilent hphase =>
    simp only [Fits, hphase] at h
    obtain ⟨hp, hf, hdelay⟩ := h
    refine ⟨hp, hf, by simp [hdelay], ?_⟩
    rw [sinceWoken_concat rfl]
    exact List.mem_append_right _ (List.mem_singleton_self _)
  | delaySilent hphase =>
    simp only [Fits, hphase] at h
    obtain ⟨hp, hf, hdelay, hpending⟩ := h
    rw [Fits, sinceWoken_concat rfl]
    exact ⟨hp, hf, by simp [hdelay], List.mem_append_left _ hpending,
      List.mem_append_right _ (List.mem_singleton_self _)⟩
  | delayOver hphase => exact fits_top (.inr (List.mem_append_right _ (List.mem_singleton_self _)))
  | headWoken hphase =>
    simp only [Fits, hphase] at h
    obtain ⟨hp, hf, hdelay, -⟩ := h
    exact ⟨hp, hf, by simp [hdelay]⟩
  | primaryOk hphase conn =>
    have hp : r.primaryErr = none := by
      rcases hphase with hphase | hphase <;> simp only [Fits, hphase] at h <;> exact h.1
    exact ⟨.inl hp, .inl hlast⟩
  | primaryErr hphase text =>
    exact fits_top (.inl ⟨text, List.mem_append_right _ (List.mem_singleton_self _)⟩)
  | primarySilent hphase =>
    simp only [Fits, hphase] at h
    obtain ⟨hp, hover⟩ := h
    cases hf : r.fallbackErr with
    | none => exact ⟨rfl, headStartOver_concat hover, fun _ ↦ hlast⟩
    | some fe =>
      refine ⟨headStartOver_concat hover, .inl hp, fun _ ↦ ?_, fun hnone ↦ absurd hnone ?_⟩
      · rw [sinceWoken_concat rfl]
        exact List.mem_append_right _ (List.mem_singleton_self _)
      · simp
  | fallbackOk hphase conn =>
    simp only [Fits, hphase] at h
    exact ⟨.inr h.1, .inr hlast⟩
  | fallbackErr hphase text =>
    simp only [Fits, hphase] at h
    exact fits_top (headStartOver_concat h.2.1)
  | fallbackSilent hphase =>
    simp only [Fits, hphase] at h
    obtain ⟨hf, hover, hpending⟩ := h
    rw [Fits, sinceWoken_concat rfl]
    refine ⟨headStartOver_concat hover, .inr hf, fun hp ↦ ?_, fun _ ↦
      List.mem_append_right _ (List.mem_singleton_self _)⟩
    exact List.mem_append_left _ (mem_sinceWoken (hpending hp) rfl)
  | raceWoken hphase =>
    simp only [Fits, hphase] at h
    exact fits_select (headStartOver_concat h.1) h.2.1

/-! ## Runs -/

/-- What holds after any events. -/
structure Ledger (primary fallback : SocketAddr) (es : List (RaceEvent Conn)) (r : Race Conn) :
    Prop where
  fits : Fits primary fallback es r
  primaryErr : ∀ e, r.primaryErr = some e ↔ .primary (.err e) ∈ es
  fallbackErr : ∀ e, r.fallbackErr = some e ↔ .fallback (.err e) ∈ es
  /-- A connection ends the race. -/
  ok : ∀ conn, .primary (.ok conn) ∈ es ∨ .fallback (.ok conn) ∈ es → r.phase = .done (.ok conn)
  /-- No future is polled again once it has completed. -/
  once : es.Pairwise fun e later ↦ e.completed → e.polled ≠ later.polled
  /-- The primary is polled first, unless it has failed. -/
  first : ∀ front a, front ++ [.fallback a] <+: es →
    PrimaryFailed front ∨ front.getLast? = some (.primary .pending)
  /-- The fallback is started after the head start. -/
  started : ∀ front a, front ++ [.fallback a] <+: es → HeadStartOver front

theorem ledger_start (primary fallback : SocketAddr) :
    Ledger primary fallback ([] : List (RaceEvent Conn)) start where
  fits := ⟨rfl, rfl, List.not_mem_nil⟩
  primaryErr := by simp [start]
  fallbackErr := by simp [start]
  ok := by simp
  once := .nil
  first front a h := absurd (List.prefix_nil.mp h) (by simp)
  started front a h := absurd (List.prefix_nil.mp h) (by simp)

theorem polled_of_moves (h : Fits primary fallback es r) (hmoves : Moves primary fallback r e t) :
    (∀ result, r.phase ≠ .done result) ∧
    (e.polled = some .primary → r.primaryErr = none) ∧
    (e.polled = some .delay → .delay true ∉ es) ∧
    (e.polled = some .fallback → r.fallbackErr = none ∧ HeadStartOver es ∧
      (r.primaryErr = none → es.getLast? = some (.primary .pending))) := by
  cases hmoves with
  | headSilent hphase | headWoken hphase | delaySilent hphase | delayOver hphase
  | primarySilent hphase | raceWoken hphase =>
    simp only [Fits, hphase] at h
    simp [hphase, RaceEvent.polled, h]
  | fallbackOk hphase conn | fallbackErr hphase text | fallbackSilent hphase =>
    simp only [Fits, hphase] at h
    exact ⟨by simp [hphase], by simp [RaceEvent.polled], by simp [RaceEvent.polled], fun _ ↦ h⟩
  | primaryOk hphase conn | primaryErr hphase text =>
    rcases hphase with hphase | hphase
    all_goals
      simp only [Fits, hphase] at h
      simp [hphase, RaceEvent.polled, h]

theorem failures_of_moves (hmoves : Moves primary fallback r e t) :
    (t.primaryErr = match e with | .primary (.err text) => some text | _ => r.primaryErr) ∧
    (t.fallbackErr = match e with | .fallback (.err text) => some text | _ => r.fallbackErr) := by
  cases hmoves <;> simp

theorem phase_of_primaryOk {conn : Conn} (h : Moves primary fallback r (.primary (.ok conn)) t) :
    t.phase = .done (.ok conn) := by
  cases h
  rfl

theorem phase_of_fallbackOk {conn : Conn} (h : Moves primary fallback r (.fallback (.ok conn)) t) :
    t.phase = .done (.ok conn) := by
  cases h
  rfl

namespace Ledger

theorem primaryErr_step (h : Ledger primary fallback es r) (hmoves : Moves primary fallback r e t)
    (x : Str) : t.primaryErr = some x ↔ .primary (.err x) ∈ es ++ [e] := by
  rw [(failures_of_moves hmoves).1]
  match e with
  | .primary (.err text) =>
    have hnew : .primary (.err x) ∉ es := by
      rw [← h.primaryErr x, (polled_of_moves h.fits hmoves).2.1 rfl]
      simp
    simp [hnew, eq_comm]
  | .primary .pending | .primary (.ok _) | .delay _ | .fallback _ | .woken =>
    simpa using h.primaryErr x

theorem fallbackErr_step (h : Ledger primary fallback es r) (hmoves : Moves primary fallback r e t)
    (x : Str) : t.fallbackErr = some x ↔ .fallback (.err x) ∈ es ++ [e] := by
  rw [(failures_of_moves hmoves).2]
  match e with
  | .fallback (.err text) =>
    have hnew : .fallback (.err x) ∉ es := by
      rw [← h.fallbackErr x, ((polled_of_moves h.fits hmoves).2.2.2 rfl).1]
      simp
    simp [hnew, eq_comm]
  | .fallback .pending | .fallback (.ok _) | .delay _ | .primary _ | .woken =>
    simpa using h.fallbackErr x

theorem ok_step (h : Ledger primary fallback es r) (hmoves : Moves primary fallback r e t)
    (conn : Conn) (hok : .primary (.ok conn) ∈ es ++ [e] ∨ .fallback (.ok conn) ∈ es ++ [e]) :
    t.phase = .done (.ok conn) := by
  have hdone := (polled_of_moves h.fits hmoves).1
  simp only [List.mem_append, List.mem_singleton] at hok
  rcases hok with (hmem | rfl) | hmem | rfl
  · exact absurd (h.ok conn (.inl hmem)) (hdone _)
  · exact phase_of_primaryOk hmoves
  · exact absurd (h.ok conn (.inr hmem)) (hdone _)
  · exact phase_of_fallbackOk hmoves

theorem once_step (h : Ledger primary fallback es r) (hmoves : Moves primary fallback r e t) :
    (es ++ [e]).Pairwise fun x later ↦ x.completed → x.polled ≠ later.polled := by
  obtain ⟨hdone, hp, hdelay, hf⟩ := polled_of_moves h.fits hmoves
  refine List.pairwise_append.mpr ⟨h.once, List.pairwise_singleton _ _, ?_⟩
  intro x hx y hy hcompleted hsame
  rw [List.mem_singleton.mp hy] at hsame
  match x with
  | .primary (.ok conn) => exact hdone _ (h.ok conn (.inl hx))
  | .primary (.err text) =>
    rw [← h.primaryErr text, hp hsame.symm] at hx
    exact absurd hx (by simp)
  | .fallback (.ok conn) => exact hdone _ (h.ok conn (.inr hx))
  | .fallback (.err text) =>
    rw [← h.fallbackErr text, (hf hsame.symm).1] at hx
    exact absurd hx (by simp)
  | .delay true => exact hdelay hsame.symm hx
  | .delay false | .primary .pending | .fallback .pending | .woken =>
    exact absurd hcompleted (by simp [RaceEvent.completed])

theorem turn_step (h : Ledger primary fallback es r) (hmoves : Moves primary fallback r e t)
    (hpolled : e.polled = some .fallback) :
    (PrimaryFailed es ∨ es.getLast? = some (.primary .pending)) ∧ HeadStartOver es := by
  obtain ⟨-, hover, hpending⟩ := (polled_of_moves h.fits hmoves).2.2.2 hpolled
  refine ⟨?_, hover⟩
  cases hpe : r.primaryErr with
  | none => exact .inr (hpending hpe)
  | some pe => exact .inl ⟨pe, (h.primaryErr pe).mp hpe⟩

theorem step (h : Ledger primary fallback es r) (hstep : r.step primary fallback e = some t) :
    Ledger primary fallback (es ++ [e]) t := by
  have hmoves := moves_of_step hstep
  refine ⟨fits_step h.fits hmoves, h.primaryErr_step hmoves, h.fallbackErr_step hmoves,
    h.ok_step hmoves, h.once_step hmoves, fun front a hfront ↦ ?_, fun front a hfront ↦ ?_⟩
  · rcases List.prefix_concat_iff.mp hfront with heq | hfront
    · obtain ⟨rfl, hlast⟩ := List.append_inj' heq rfl
      exact (h.turn_step hmoves (by rw [← List.singleton_inj.mp hlast]; rfl)).1
    · exact h.first front a hfront
  · rcases List.prefix_concat_iff.mp hfront with heq | hfront
    · obtain ⟨rfl, hlast⟩ := List.append_inj' heq rfl
      exact (h.turn_step hmoves (by rw [← List.singleton_inj.mp hlast]; rfl)).2
    · exact h.started front a hfront

end Ledger

theorem ledger_run (h : run primary fallback es = some r) : Ledger primary fallback es r :=
  history_of_runFrom h (ledger_start primary fallback) fun _ _ _ _ h hstep ↦ h.step hstep

/-! ## One poll of the race -/

/-- What the futures answer throughout one poll of the race. -/
structure Answers (Conn : Type) where
  primary : Answer Conn
  delay : Bool
  fallback : Answer Conn

/-- What the race polls in its phase, with the answer. -/
def next (a : Answers Conn) (r : Race Conn) : Option (RaceEvent Conn) :=
  match r.phase with
  | .headPrimary | .racePrimary => some (.primary a.primary)
  | .headDelay => some (.delay a.delay)
  | .raceFallback => some (.fallback a.fallback)
  | _ => none

/-- Go on until the race waits or has ended. -/
def follow (primary fallback : SocketAddr) (a : Answers Conn) : ℕ → Race Conn → Race Conn
  | 0, r => r
  | fuel + 1, r =>
    match (r.next a).bind (r.step primary fallback) with
    | some t => follow primary fallback a fuel t
    | none => r

/-- Poll the race, which wakes it if it waits. -/
def poll (primary fallback : SocketAddr) (a : Answers Conn) (r : Race Conn) : Race Conn :=
  follow primary fallback a 8 ((r.step primary fallback .woken).getD r)

variable {a : Answers Conn}

theorem exists_run_follow {fuel : ℕ} (h : run primary fallback es = some r) :
    ∃ more, run primary fallback (es ++ more) = some (follow primary fallback a fuel r) := by
  induction fuel generalizing es r with
  | zero => exact ⟨[], by rw [List.append_nil]; exact h⟩
  | succ fuel ih =>
    rw [follow]
    cases hnext : (r.next a).bind (r.step primary fallback) with
    | none => exact ⟨[], by rw [List.append_nil]; exact h⟩
    | some t =>
      obtain ⟨e, -, hstep⟩ := Option.bind_eq_some_iff.mp hnext
      obtain ⟨more, hmore⟩ := ih (runFrom_concat h hstep)
      exact ⟨e :: more, by rw [List.append_cons]; exact hmore⟩

theorem exists_run_poll (h : run primary fallback es = some r) :
    ∃ more, run primary fallback (es ++ more) = some (r.poll primary fallback a) := by
  rw [poll]
  cases hwoken : r.step primary fallback .woken with
  | none => exact exists_run_follow h
  | some t =>
    obtain ⟨more, hmore⟩ := exists_run_follow (runFrom_concat h hwoken)
    exact ⟨.woken :: more, by rw [List.append_cons]; exact hmore⟩

/-- What one poll of a race makes of it. -/
structure PollCorrect (a : Answers Conn) (r p : Race Conn) : Prop where
  /-- It comes to an end. -/
  completes : p.Waits ∨ ∃ result, p.phase = .done result
  primary : r.primaryErr = none → ∀ conn, a.primary = .ok conn → p.phase = .done (.ok conn)
  /-- A fallback that is started, or is started in this poll, wins unless the primary does. -/
  fallback : r.fallbackErr = none →
    (r.phase = .raceWaiting ∨ a.delay ∨ ∃ e, a.primary = .err e) →
    (r.primaryErr = none → ∀ conn, a.primary ≠ .ok conn) →
    ∀ conn, a.fallback = .ok conn → p.phase = .done (.ok conn)

/-- In the head start: the primary, then the delay, then both. -/
theorem pollCorrect_head (h : r.primaryErr = none)
    (hr : r.phase ≠ .raceWaiting) : PollCorrect a r (follow primary fallback a 8 start) := by
  obtain ⟨pa, d, fa⟩ := a
  cases pa <;> cases d <;> cases fa <;>
    exact ⟨by simp [follow, next, step, start, top, select, Waits],
      by simp [follow, next, step, start, top, select],
      by simp [follow, next, step, start, top, select, hr, h]⟩

/-- In the race: the primary, unless it has failed, then the fallback, unless it has. -/
theorem pollCorrect_race (h : r.primaryErr = none ∨ r.fallbackErr = none) :
    PollCorrect a r (follow primary fallback a 8 r.select) := by
  obtain ⟨pa, d, fa⟩ := a
  obtain ⟨pe, fe, phase⟩ := r
  rcases h with h | h
  · obtain rfl : pe = none := h
    cases fe <;> cases pa <;> cases fa <;>
      exact ⟨by simp [follow, next, step, top, select, Waits],
        by simp [follow, next, step, top, select], by simp [follow, next, step, top, select]⟩
  · obtain rfl : fe = none := h
    cases pe <;> cases pa <;> cases fa <;>
      exact ⟨by simp [follow, next, step, top, select, Waits],
        by simp [follow, next, step, top, select], by simp [follow, next, step, top, select]⟩

/-- **No success is passed over.** -/
theorem poll_ok (h : Fits primary fallback es r) (hr : r = start ∨ r.Waits) :
    PollCorrect a r (r.poll primary fallback a) := by
  rw [poll]
  rcases hr with rfl | hphase | hphase
  · exact pollCorrect_head rfl (by simp [start])
  · simp only [Fits, hphase] at h
    have hwoken : r.step primary fallback .woken = some start := by
      obtain ⟨pe, fe, phase⟩ := r
      obtain ⟨rfl, rfl, -⟩ := h
      obtain rfl := hphase
      rfl
    rw [hwoken]
    exact pollCorrect_head h.1 (by simp [hphase])
  · simp only [Fits, hphase] at h
    have hwoken : r.step primary fallback .woken = some r.select := by
      rw [step.eq_def, hphase]
    rw [hwoken]
    exact pollCorrect_race h.2.1

end Race

/-- What holds of the race after any events. -/
structure RaceCorrect (primary fallback : SocketAddr) (es : List (RaceEvent Conn))
    (r : Race Conn) : Prop where
  /-- It ends with a connection at once when a future answers one, and only then. -/
  ok : ∀ conn, .primary (.ok conn) ∈ es ∨ .fallback (.ok conn) ∈ es ↔ r.phase = .done (.ok conn)
  /-- It ends with an error when both attempts have failed, and only then. -/
  error : PrimaryFailed es ∧ FallbackFailed es ↔ ∃ text, r.phase = .done (.error text)
  text : ∀ text, r.phase = .done (.error text) → ∃ pe fe, .primary (.err pe) ∈ es ∧
    .fallback (.err fe) ∈ es ∧ text = Race.bothFailed primary fallback pe fe
  once : es.Pairwise fun e later ↦ e.completed → e.polled ≠ later.polled
  not_panicked : r.phase ≠ .panicked
  first : ∀ front a, front ++ [.fallback a] <+: es →
    PrimaryFailed front ∨ front.getLast? = some (.primary .pending)
  started : ∀ front a, front ++ [.fallback a] <+: es → HeadStartOver front
  /-- It waits only for attempts that have been asked since the last wakeup, and for at least one;
  in the head start also for the delay. -/
  waits : r.Waits → ¬(PrimaryFailed es ∧ FallbackFailed es) ∧
    (PrimaryFailed es ∨ .primary .pending ∈ sinceWoken es) ∧
    (.delay false ∈ sinceWoken es ∨
      r.phase = .raceWaiting ∧ (FallbackFailed es ∨ .fallback .pending ∈ sinceWoken es))

namespace Race

namespace Ledger

variable {primary fallback : SocketAddr} {r : Race Conn} {es : List (RaceEvent Conn)}

theorem primaryFailed_iff (h : Ledger primary fallback es r) :
    PrimaryFailed es ↔ r.primaryErr ≠ none := by
  rw [Option.ne_none_iff_exists', PrimaryFailed]
  simp only [h.primaryErr]

theorem fallbackFailed_iff (h : Ledger primary fallback es r) :
    FallbackFailed es ↔ r.fallbackErr ≠ none := by
  rw [Option.ne_none_iff_exists', FallbackFailed]
  simp only [h.fallbackErr]

theorem error_of_failed (h : Ledger primary fallback es r) (hp : PrimaryFailed es)
    (hf : FallbackFailed es) : ∃ text, r.phase = .done (.error text) := by
  have hfits := h.fits
  rw [h.primaryFailed_iff] at hp
  rw [h.fallbackFailed_iff] at hf
  cases hphase : r.phase with
  | done result =>
    cases result with
    | error text => exact ⟨text, rfl⟩
    | ok conn =>
      simp only [Fits, hphase] at hfits
      exact absurd hfits.1 (not_or.mpr ⟨hp, hf⟩)
  | raceWaiting =>
    simp only [Fits, hphase] at hfits
    exact absurd hfits.2.1 (not_or.mpr ⟨hp, hf⟩)
  | raceFallback =>
    simp only [Fits, hphase] at hfits
    exact absurd hfits.1 hf
  | panicked => simp only [Fits, hphase] at hfits
  | headPrimary | headDelay | headWaiting | racePrimary =>
    simp only [Fits, hphase] at hfits
    exact absurd hfits.1 hp

theorem errors_of_done (h : Ledger primary fallback es r) {text : Str}
    (hdone : r.phase = .done (.error text)) : ∃ pe fe, .primary (.err pe) ∈ es ∧
      .fallback (.err fe) ∈ es ∧ text = bothFailed primary fallback pe fe := by
  have hfits := h.fits
  simp only [Fits, hdone] at hfits
  obtain ⟨pe, fe, hpe, hfe, heq⟩ := hfits
  exact ⟨pe, fe, (h.primaryErr pe).mp hpe, (h.fallbackErr fe).mp hfe, heq⟩

theorem asked_of_waits (h : Ledger primary fallback es r) (hwaits : r.Waits) :
    ¬(PrimaryFailed es ∧ FallbackFailed es) ∧
      (PrimaryFailed es ∨ .primary .pending ∈ sinceWoken es) ∧
      (.delay false ∈ sinceWoken es ∨
        r.phase = .raceWaiting ∧ (FallbackFailed es ∨ .fallback .pending ∈ sinceWoken es)) := by
  have hfits := h.fits
  rw [h.primaryFailed_iff, h.fallbackFailed_iff]
  rcases hwaits with hphase | hphase
  · simp only [Fits, hphase] at hfits
    obtain ⟨hpe, -, -, hpending, hdelay⟩ := hfits
    exact ⟨fun hboth ↦ hboth.1 hpe, .inr hpending, .inl hdelay⟩
  · simp only [Fits, hphase] at hfits
    obtain ⟨-, hone, hpending, hpending'⟩ := hfits
    refine ⟨fun hboth ↦ hone.elim hboth.1 hboth.2, ?_, .inr ⟨hphase, ?_⟩⟩
    · exact or_iff_not_imp_left.mpr fun hpe ↦ hpending (not_not.mp hpe)
    · exact or_iff_not_imp_left.mpr fun hfe ↦ hpending' (not_not.mp hfe)

theorem correct (h : Ledger primary fallback es r) : RaceCorrect primary fallback es r := by
  have hfits := h.fits
  refine ⟨fun conn ↦ ⟨h.ok conn, fun hok ↦ ?_⟩, ⟨fun hboth ↦ h.error_of_failed hboth.1 hboth.2, ?_⟩,
    fun _ ↦ h.errors_of_done, h.once, fun hpanic ↦ ?_, h.first, h.started, h.asked_of_waits⟩
  · simp only [Fits, hok] at hfits
    exact hfits.2.imp List.mem_of_getLast? List.mem_of_getLast?
  · rintro ⟨text, htext⟩
    obtain ⟨pe, fe, hpe, hfe, -⟩ := h.errors_of_done htext
    exact ⟨⟨pe, hpe⟩, fe, hfe⟩
  · simp only [Fits, hpanic] at hfits

end Ledger

end Race

/-- **The race.** In every order of answers, and for every answers to a race that is polled. -/
theorem race_correct (primary fallback : SocketAddr) {es : List (RaceEvent Conn)} {r : Race Conn}
    (h : Race.run primary fallback es = some r) : RaceCorrect primary fallback es r ∧
      (r = Race.start ∨ r.Waits → ∀ a : Race.Answers Conn,
        (∃ more, Race.run primary fallback (es ++ more) = some (r.poll primary fallback a)) ∧
          Race.PollCorrect a r (r.poll primary fallback a)) :=
  ⟨(Race.ledger_run h).correct, fun hr _ ↦ ⟨Race.exists_run_poll h,
    Race.poll_ok (Race.ledger_run h).fits hr⟩⟩

/-- The primary is silent, the delay elapses, the fallback is refused, and the primary connects. -/
theorem race_correct_late : ∃ r : Race ℕ, Race.run ⟨.v4 1, 443⟩ ⟨.v4 2, 443⟩
      [.primary .pending, .delay false, .woken, .primary .pending, .delay true, .primary .pending,
        .fallback (.err "refused".toList), .primary .pending, .woken, .primary (.ok 7)] = some r ∧
    RaceCorrect ⟨.v4 1, 443⟩ ⟨.v4 2, 443⟩
      [.primary .pending, .delay false, .woken, .primary .pending, .delay true, .primary .pending,
        .fallback (.err "refused".toList), .primary .pending, .woken, .primary (.ok 7)] r ∧
    r.phase = .done (.ok 7) :=
  ⟨_, rfl, (race_correct ⟨.v4 1, 443⟩ ⟨.v4 2, 443⟩ rfl).1, rfl⟩

end Machine

end SniGate
