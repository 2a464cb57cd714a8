import Mathlib.Logic.Relation
import SniGate.Interaction.Program

/-!
# Programs side by side

Several programs may run at once on one state. Each answer to a question may read and change the
state (`effect`), and between any two questions of one program the others may have asked theirs,
or something outside all of them may have changed the state.

## Rely and guarantee

A task promises what its questions may do to the state (`may`), and relies on everything else to do
nothing but what is promised in turn. `Secured` says that a program keeps its promise from a state
on, however the others come in between, and what holds when it ends. It is computed along the
program, like a contract (`secured_bind`, `secured_attempt`), and each question takes one fact about
its effect on a condition that the others cannot disturb (`secured_query_bind`).

Programs that are secured on their own are secured together: that is the parallel rule
(`Abreast.AllSecured.step`), and an invariant that every promise keeps holds wherever they arrive.
-/

namespace SniGate

universe u v w x

variable {Q : Type u} {A : Q → Type v} {ε : Type w} {α β : Type x} {W ι : Type*}

/-! ## One program among others -/

/-- A condition that changes of a kind do not disturb. -/
def Stable (rely : W → W → Prop) (P : W → Prop) : Prop := ∀ s t, P s → rely s t → P t

/-- From a state on, a program does only what it may, as long as the rest does only what is relied
on; and it ends as `post` says. -/
def Secured (effect : (q : Q) → A q → W → W → Prop) (rely may : W → W → Prop)
    (post : Except ε α → W → Prop) : Program Q A ε α → W → Prop
  | .done a, s => ∀ t, Relation.ReflTransGen rely s t → post (.ok a) t
  | .fail e, s => ∀ t, Relation.ReflTransGen rely s t → post (.error e) t
  | .ask q next, s => ∀ t, Relation.ReflTransGen rely s t → ∀ a t', effect q a t t' →
      may t t' ∧ Secured effect rely may post (next a) t'

section Secured

variable {effect : (q : Q) → A q → W → W → Prop} {rely may : W → W → Prop}
  {post post' : Except ε α → W → Prop} {p : Program Q A ε α} {s t : W} {P : W → Prop}

theorem Stable.of_reflTransGen (hP : Stable rely P) (hs : P s)
    (h : Relation.ReflTransGen rely s t) : P t := by
  induction h with
  | refl => exact hs
  | tail _ hstep ih => exact hP _ _ ih hstep

/-- **Interference.** What the rest does leaves a secured program secured. -/
theorem Secured.of_rely (h : Secured effect rely may post p s) (hrely : rely s t) :
    Secured effect rely may post p t := by
  cases p with
  | done a => exact fun u hu ↦ h u (.head hrely hu)
  | fail e => exact fun u hu ↦ h u (.head hrely hu)
  | ask q next => exact fun u hu ↦ h u (.head hrely hu)

theorem Secured.mono (h : Secured effect rely may post p s)
    (hpost : ∀ x t, post x t → post' x t) : Secured effect rely may post' p s := by
  induction p generalizing s with
  | done a => exact fun t ht ↦ hpost _ _ (h t ht)
  | fail e => exact fun t ht ↦ hpost _ _ (h t ht)
  | ask q next ih =>
    exact fun t ht a t' heffect ↦ ⟨(h t ht a t' heffect).1, ih a (h t ht a t' heffect).2⟩

/-! ### Rules -/

theorem secured_done {a : α} (hP : Stable rely P) (hs : P s) (hpost : ∀ t, P t → post (.ok a) t) :
    Secured effect rely may post (.done a) s :=
  fun t ht ↦ hpost t (hP.of_reflTransGen hs ht)

theorem secured_fail {e : ε} (hP : Stable rely P) (hs : P s)
    (hpost : ∀ t, P t → post (.error e) t) : Secured effect rely may post (.fail e) s :=
  fun t ht ↦ hpost t (hP.of_reflTransGen hs ht)

/-- **One program after another.** -/
theorem secured_bind {f : α → Program Q A ε β} {post : Except ε β → W → Prop}
    (h : Secured effect rely may (fun x t ↦ match x with
      | .ok a => Secured effect rely may post (f a) t
      | .error e => post (.error e) t) p s) : Secured effect rely may post (p >>= f) s := by
  induction p generalizing s with
  | done a => exact h s .refl
  | fail e => exact h
  | ask q next ih =>
    exact fun t ht a t' heffect ↦ ⟨(h t ht a t' heffect).1, ih a (h t ht a t' heffect).2⟩

/-- **A question**, where a stable condition holds, and what comes after it. -/
theorem secured_query_bind {A : Q → Type x} {effect : (q : Q) → A q → W → W → Prop} {q : Q}
    {f : A q → Program Q A ε β} {post : Except ε β → W → Prop} (hP : Stable rely P) (hs : P s)
    (h : ∀ a t t', P t → effect q a t t' → may t t' ∧ Secured effect rely may post (f a) t') :
    Secured effect rely may post (.query q >>= f) s :=
  fun t ht a t' heffect ↦ h a t t' (hP.of_reflTransGen hs ht) heffect

theorem secured_query {A : Q → Type x} {effect : (q : Q) → A q → W → W → Prop} {q : Q}
    {post : Except ε (A q) → W → Prop} (hP : Stable rely P) (hs : P s)
    (h : ∀ a t t', P t → effect q a t t' →
      may t t' ∧ Secured effect rely may post (.done a : Program Q A ε (A q)) t') :
    Secured effect rely may post (.query q) s :=
  fun t ht a t' heffect ↦ h a t t' (hP.of_reflTransGen hs ht) heffect

/-- **A program whose failure is a value.** -/
theorem secured_attempt {ε ε' α : Type w} {p : Program Q A ε α}
    {post : Except ε' (Except ε α) → W → Prop}
    (h : Secured effect rely may (fun x t ↦ post (.ok x) t) p s) :
    Secured effect rely may post p.attempt s := by
  induction p generalizing s with
  | done a => exact h
  | fail e => exact h
  | ask q next ih =>
    exact fun t ht a t' heffect ↦ ⟨(h t ht a t' heffect).1, ih a (h t ht a t' heffect).2⟩

end Secured

/-! ## A program alone -/

/-- A run of a program that has the state to itself, and what is left of the program after it. -/
inductive Program.RunsIn (effect : (q : Q) → A q → W → W → Prop) :
    Program Q A ε α → W → Program Q A ε α → W → Prop
  | here (p : Program Q A ε α) (s : W) : RunsIn effect p s p s
  | ask {q : Q} {next : A q → Program Q A ε α} {a : A q} {p : Program Q A ε α} {s t u : W}
      (heffect : effect q a s t) (h : RunsIn effect (next a) t p u) :
      RunsIn effect (.ask q next) s p u

theorem Secured.ends {effect : (q : Q) → A q → W → W → Prop} {rely may : W → W → Prop}
    {post : Except ε α → W → Prop} {p : Program Q A ε α} {s t : W} {x : Except ε α}
    (h : Secured effect rely may post p s) (hruns : p.RunsIn effect s (.ofExcept x) t) :
    post x t := by
  generalize hr : Program.ofExcept x = r at hruns
  induction hruns with
  | here p s =>
    subst hr
    cases x with
    | ok a => exact h s .refl
    | error e => exact h s .refl
  | ask heffect _ ih => exact ih (h _ .refl _ _ heffect).2 hr

/-! ## All together -/

/-- Tasks that share a state. -/
structure Abreast (Q : Type u) (A : Q → Type v) (ε : Type w) (α : Type x) (W ι : Type*) where
  world : W
  tasks : ι → Program Q A ε α

namespace Abreast

variable [DecidableEq ι]

/-- Put a program in the place of a task. -/
def launch (s : Abreast Q A ε α W ι) (i : ι) (p : Program Q A ε α) : Abreast Q A ε α W ι :=
  { s with tasks := Function.update s.tasks i p }

section

variable (s : Abreast Q A ε α W ι) (i : ι) (p : Program Q A ε α)

@[simp] theorem launch_world : (s.launch i p).world = s.world := rfl

@[simp] theorem launch_self : (s.launch i p).tasks i = p := Function.update_self ..

@[simp] theorem launch_of_ne {j : ι} (h : j ≠ i) : (s.launch i p).tasks j = s.tasks j :=
  Function.update_of_ne h ..

end

/-- Some task gets the answer to its question, or the state is changed from outside. -/
inductive Step (effect : (q : Q) → A q → W → W → Prop) (outside : W → W → Prop) :
    Abreast Q A ε α W ι → Abreast Q A ε α W ι → Prop
  | act {s : Abreast Q A ε α W ι} (i : ι) {q : Q} {next : A q → Program Q A ε α} {a : A q} {t : W}
      (hask : s.tasks i = .ask q next) (heffect : effect q a s.world t) :
      Step effect outside s (launch { s with world := t } i (next a))
  | outside {s : Abreast Q A ε α W ι} {t : W} (h : outside s.world t) :
      Step effect outside s { s with world := t }

theorem Step.mono_outside {effect : (q : Q) → A q → W → W → Prop} {outside outside' : W → W → Prop}
    {s s' : Abreast Q A ε α W ι} (h : Step effect outside s s')
    (hout : ∀ w w', outside w w' → outside' w w') : Step effect outside' s s' := by
  cases h with
  | act i hask heffect => exact .act i hask heffect
  | outside h => exact .outside (hout _ _ h)

/-- What a task relies on: outside, and every other task, do nothing but what they may. -/
def rely (outside : W → W → Prop) (may : ι → W → W → Prop) (i : ι) (s t : W) : Prop :=
  outside s t ∨ ∃ j, j ≠ i ∧ may j s t

/-- Every task is secured. -/
def AllSecured (effect : (q : Q) → A q → W → W → Prop) (outside : W → W → Prop)
    (may : ι → W → W → Prop) (post : ι → Except ε α → W → Prop) (s : Abreast Q A ε α W ι) : Prop :=
  ∀ i, Secured effect (rely outside may i) (may i) (post i) (s.tasks i) s.world

variable {effect : (q : Q) → A q → W → W → Prop} {outside : W → W → Prop}
  {may : ι → W → W → Prop} {post : ι → Except ε α → W → Prop} {s s' : Abreast Q A ε α W ι}
  {I : W → Prop}

theorem AllSecured.launch (h : s.AllSecured effect outside may post) {i : ι}
    {p : Program Q A ε α}
    (hp : Secured effect (rely outside may i) (may i) (post i) p s.world) :
    (s.launch i p).AllSecured effect outside may post := by
  intro j
  by_cases hj : j = i
  · rw [hj, launch_self, launch_world]
    exact hp
  · rw [launch_of_ne s i p hj, launch_world]
    exact h j

/-- What a step does to the state is what some task may do, or what is done from outside. -/
theorem AllSecured.world_step (h : s.AllSecured effect outside may post)
    (hstep : Step effect outside s s') :
    outside s.world s'.world ∨ ∃ i, may i s.world s'.world := by
  cases hstep with
  | act i hask heffect =>
    have hi := h i
    rw [hask] at hi
    exact .inr ⟨i, (hi _ .refl _ _ heffect).1⟩
  | outside hout => exact .inl hout

/-- **The parallel rule.** Tasks that are secured on their own stay secured when they run
together. -/
theorem AllSecured.step (h : s.AllSecured effect outside may post)
    (hstep : Step effect outside s s') : s'.AllSecured effect outside may post := by
  cases hstep with
  | act i hask heffect =>
    intro j
    have hi := h i
    rw [hask] at hi
    obtain ⟨hmay, hnext⟩ := hi _ .refl _ _ heffect
    by_cases hj : j = i
    · rw [hj, launch_self, launch_world]
      exact hnext
    · rw [launch_of_ne _ i _ hj, launch_world]
      exact (h j).of_rely (.inr ⟨i, fun hij ↦ hj hij.symm, hmay⟩)
  | outside hout => exact fun j ↦ (h j).of_rely (.inl hout)

theorem AllSecured.invariant_step (h : s.AllSecured effect outside may post)
    (hout : ∀ w w', I w → outside w w' → I w') (hmay : ∀ i w w', I w → may i w w' → I w')
    (hI : I s.world) (hstep : Step effect outside s s') : I s'.world := by
  rcases h.world_step hstep with hw | ⟨i, hw⟩
  · exact hout _ _ hI hw
  · exact hmay i _ _ hI hw

end Abreast

end SniGate
