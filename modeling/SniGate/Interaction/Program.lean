import Mathlib.Data.List.Infix
import Mathlib.Tactic

/-!
# Programs that ask their surroundings

A task does its work by asking: it reads, dials, looks something up, and goes on with whatever
answer it gets. Here it is a tree that branches on the answers (`Program`), and what happens when it
runs is a list of questions with their answers. A task may be dropped between any two questions, so
any front of such a list is a run as well (`Program.Runs`).

## Contracts

What a program promises about its questions may depend on what was asked before, and it may rely on
its surroundings to answer in a certain way. A `Contract` keeps a summary of the exchanges so far
and says both in terms of it. `Contract.Keeps` says that a program keeps a contract from a given
summary on, and what it ends with. It is computed along the program, with one rule for each way to
put programs together (`Contract.keeps_bind`, `Contract.keeps_attempt`), and what it says of a run
is `Contract.Keeps.guarantee`.
-/

namespace SniGate

universe u v w x

/-- A program asks questions `q : Q` that are answered by an `A q`; it ends with a value or it
fails. -/
inductive Program (Q : Type u) (A : Q → Type v) (ε : Type w) (α : Type x) : Type (max u v w x)
  | done (a : α)
  | fail (e : ε)
  | ask (q : Q) (next : A q → Program Q A ε α)

/-- A question with its answer. -/
abbrev Exchange {Q : Type u} (A : Q → Type v) : Type (max u v) := Σ q, A q

namespace Program

variable {Q : Type u} {A : Q → Type v} {ε ε' : Type w} {α β : Type x}

/-- Go on with the value, unless there is none. -/
def bind (p : Program Q A ε α) (f : α → Program Q A ε β) : Program Q A ε β :=
  match p with
  | done a => f a
  | fail e => fail e
  | ask q next => ask q fun a ↦ (next a).bind f

instance : Monad (Program Q A ε) where
  pure := done
  bind := bind

/-- What has been computed without asking. -/
def ofExcept : Except ε α → Program Q A ε α
  | .ok a => done a
  | .error e => fail e

/-- Ask one question. -/
def query {Q : Type u} {A : Q → Type x} {ε : Type w} (q : Q) : Program Q A ε (A q) := ask q done

/-- Take a failure as a value. -/
def attempt {ε ε' α : Type w} (p : Program Q A ε α) : Program Q A ε' (Except ε α) :=
  match p with
  | done a => done (.ok a)
  | fail e => done (.error e)
  | ask q next => ask q fun a ↦ (next a).attempt

@[simp] theorem pure_eq (a : α) : (pure a : Program Q A ε α) = done a := rfl

@[simp] theorem done_bind (a : α) (f : α → Program Q A ε β) : (done a >>= f) = f a := rfl

@[simp] theorem fail_bind (e : ε) (f : α → Program Q A ε β) : (fail e >>= f) = fail e := rfl

@[simp] theorem ask_bind (q : Q) (next : A q → Program Q A ε α) (f : α → Program Q A ε β) :
    (ask q next >>= f) = ask q fun a ↦ next a >>= f := rfl

@[simp] theorem ofExcept_ok (a : α) : (ofExcept (.ok a) : Program Q A ε α) = done a := rfl

@[simp] theorem ofExcept_error (e : ε) : (ofExcept (.error e) : Program Q A ε α) = fail e := rfl

/-! ## Runs -/

/-- A run of a program from its start, and what is left of the program after it. -/
inductive Runs : Program Q A ε α → List (Exchange A) → Program Q A ε α → Prop
  | here (p : Program Q A ε α) : Runs p [] p
  | ask {q : Q} {next : A q → Program Q A ε α} {a : A q} {es : List (Exchange A)}
      {p : Program Q A ε α} (h : Runs (next a) es p) : Runs (.ask q next) (⟨q, a⟩ :: es) p

/-- The run in which every question is answered out of what has been asked before. -/
def converse (answer : List (Exchange A) → (q : Q) → A q) :
    List (Exchange A) → Program Q A ε α → List (Exchange A) × Except ε α
  | past, done a => (past, .ok a)
  | past, fail e => (past, .error e)
  | past, ask q next =>
    converse answer (past ++ [⟨q, answer past q⟩]) (next (answer past q))

section Runs

variable {p q : Program Q A ε α} {es es' : List (Exchange A)}

theorem Runs.front (h : p.Runs (es ++ es') q) : ∃ r, p.Runs es r ∧ r.Runs es' q := by
  induction es generalizing p with
  | nil => exact ⟨p, .here p, h⟩
  | cons e es ih =>
    rw [List.cons_append] at h
    cases h with
    | ask h =>
      obtain ⟨r, hfront, hrest⟩ := ih h
      exact ⟨r, .ask hfront, hrest⟩

end Runs

end Program

/-! ## Contracts -/

/-- What is relied on of an answer, and what is guaranteed of a question, by a summary of the
exchanges before it. -/
structure Contract {Q : Type u} (A : Q → Type v) (σ : Type*) where
  /-- The summary after one more exchange. -/
  next : σ → Exchange A → σ
  rely : σ → (q : Q) → A q → Prop
  guarantee : σ → Q → Prop

namespace Contract

variable {Q : Type u} {A : Q → Type v} {ε : Type w} {α β : Type x} {σ : Type*} (c : Contract A σ)

/-- The summary after some exchanges. -/
def after (s : σ) (es : List (Exchange A)) : σ := es.foldl c.next s

/-- The answers of some exchanges are as relied on. -/
def Relied : σ → List (Exchange A) → Prop
  | _, [] => True
  | s, e :: es => c.rely s e.1 e.2 ∧ Relied (c.next s e) es

/-- From a summary on, a program keeps the contract, and ends as `post` says. -/
def Keeps (post : σ → Except ε α → Prop) : σ → Program Q A ε α → Prop
  | s, .done a => post s (.ok a)
  | s, .fail e => post s (.error e)
  | s, .ask q next => c.guarantee s q ∧ ∀ a, c.rely s q a → Keeps post (c.next s ⟨q, a⟩) (next a)

/-- What holds at an end: one thing of a value, another of a failure. -/
def ends (onValue : σ → α → Prop) (onFailure : σ → ε → Prop) : σ → Except ε α → Prop
  | s, .ok a => onValue s a
  | s, .error e => onFailure s e

variable {c} {s : σ} {es es' : List (Exchange A)} {p r : Program Q A ε α}
  {post post' : σ → Except ε α → Prop}

@[simp] theorem ends_ok (onValue : σ → α → Prop) (onFailure : σ → ε → Prop) (s : σ) (a : α) :
    ends onValue onFailure s (.ok a) ↔ onValue s a := Iff.rfl

@[simp] theorem ends_error (onValue : σ → α → Prop) (onFailure : σ → ε → Prop) (s : σ) (e : ε) :
    ends onValue onFailure s (.error e) ↔ onFailure s e := Iff.rfl

@[simp] theorem after_nil : c.after s [] = s := rfl

@[simp] theorem after_cons (e : Exchange A) : c.after s (e :: es) = c.after (c.next s e) es := rfl

@[simp] theorem after_append : c.after s (es ++ es') = c.after (c.after s es) es' :=
  List.foldl_append

theorem relied_append : c.Relied s (es ++ es') ↔ c.Relied s es ∧ c.Relied (c.after s es) es' := by
  induction es generalizing s with
  | nil => rw [List.nil_append, Relied, true_and, after_nil]
  | cons e es ih => rw [List.cons_append, Relied, Relied, ih, and_assoc, after_cons]

/-! ### Rules -/

@[simp] theorem keeps_done (a : α) : c.Keeps post s (.done a) ↔ post s (.ok a) := Iff.rfl

@[simp] theorem keeps_fail (e : ε) : c.Keeps post s (.fail e) ↔ post s (.error e) := Iff.rfl

theorem keeps_ofExcept (x : Except ε α) : c.Keeps post s (.ofExcept x) ↔ post s x := by
  cases x with
  | ok a => rfl
  | error e => rfl

/-- **One program after another.** -/
theorem keeps_bind {f : α → Program Q A ε β} {post : σ → Except ε β → Prop} :
    c.Keeps post s (p >>= f) ↔
      c.Keeps (fun s' ↦ fun
        | .ok a => c.Keeps post s' (f a)
        | .error e => post s' (.error e)) s p := by
  induction p generalizing s with
  | done a => rfl
  | fail e => rfl
  | ask q next ih => exact and_congr Iff.rfl (forall₂_congr fun a _ ↦ ih a)

theorem keeps_query_bind {A : Q → Type x} {c : Contract A σ} {q : Q} {f : A q → Program Q A ε β}
    {post : σ → Except ε β → Prop} :
    c.Keeps post s (.query q >>= f) ↔
      c.guarantee s q ∧ ∀ a, c.rely s q a → c.Keeps post (c.next s ⟨q, a⟩) (f a) :=
  Iff.rfl

theorem keeps_query {A : Q → Type x} {c : Contract A σ} {q : Q}
    {post : σ → Except ε (A q) → Prop} :
    c.Keeps post s (.query q) ↔
      c.guarantee s q ∧ ∀ a, c.rely s q a → post (c.next s ⟨q, a⟩) (.ok a) :=
  Iff.rfl

/-- **A program whose failure is a value.** -/
theorem keeps_attempt {ε ε' α : Type w} {p : Program Q A ε α}
    {post : σ → Except ε' (Except ε α) → Prop} :
    c.Keeps post s p.attempt ↔ c.Keeps (fun s' x ↦ post s' (.ok x)) s p := by
  induction p generalizing s with
  | done a => rfl
  | fail e => rfl
  | ask q next ih => exact and_congr Iff.rfl (forall₂_congr fun a _ ↦ ih a)

theorem Keeps.mono (h : c.Keeps post s p) (hpost : ∀ s' x, post s' x → post' s' x) :
    c.Keeps post' s p := by
  induction p generalizing s with
  | done a => exact hpost _ _ h
  | fail e => exact hpost _ _ h
  | ask q next ih => exact ⟨h.1, fun a ha ↦ ih a (h.2 a ha)⟩

theorem Keeps.bind {f : α → Program Q A ε β} {onValue : σ → α → Prop} {onValue' : σ → β → Prop}
    {onFailure : σ → ε → Prop} (h : c.Keeps (ends onValue onFailure) s p)
    (hf : ∀ s' a, onValue s' a → c.Keeps (ends onValue' onFailure) s' (f a)) :
    c.Keeps (ends onValue' onFailure) s (p >>= f) := by
  rw [keeps_bind]
  refine h.mono fun s' x hx ↦ ?_
  cases x with
  | ok a => exact hf s' a hx
  | error e => exact hx

/-- A program keeps the contract; nothing is said of its end. -/
def Asks (c : Contract A σ) (s : σ) (p : Program Q A ε α) : Prop := c.Keeps (fun _ _ ↦ True) s p

theorem asks_ofExcept (x : Except ε α) : c.Asks s (.ofExcept x) := (keeps_ofExcept x).mpr trivial

theorem Asks.keeps_bind {f : α → Program Q A ε β} {post : σ → Except ε β → Prop}
    (h : c.Asks s p) (hf : ∀ s' a, c.Keeps post s' (f a)) (hfails : ∀ s' e, post s' (.error e)) :
    c.Keeps post s (p >>= f) := by
  rw [Contract.keeps_bind]
  refine h.mono fun s' x _ ↦ ?_
  cases x with
  | ok a => exact hf s' a
  | error e => exact hfails s' e

theorem Asks.bind {f : α → Program Q A ε β} (h : c.Asks s p) (hf : ∀ s' a, c.Asks s' (f a)) :
    c.Asks s (p >>= f) :=
  h.keeps_bind hf fun _ _ ↦ trivial

theorem Asks.attempt {ε ε' α : Type w} {p : Program Q A ε α} (h : c.Asks s p) :
    c.Asks s (p.attempt : Program Q A ε' (Except ε α)) :=
  keeps_attempt.mpr h

/-- **One program for each item of a list.** What holds between two items is kept by each. -/
theorem keeps_foldlM {ι : Type*} {f : β → ι → Program Q A ε β} {I : List ι → σ → β → Prop}
    {onFailure : σ → ε → Prop} {items : List ι} {b : β} (h : I [] s b)
    (hstep : ∀ done item rest s b, items = done ++ item :: rest → I done s b →
      c.Keeps (ends (I (done ++ [item])) onFailure) s (f b item)) :
    c.Keeps (ends (I items) onFailure) s (items.foldlM f b) := by
  have hrest : ∀ rest done s b, items = done ++ rest → I done s b →
      c.Keeps (ends (I items) onFailure) s (rest.foldlM f b) := by
    intro rest
    induction rest with
    | nil =>
      intro done s b hitems hI
      rw [hitems, List.append_nil]
      exact hI
    | cons item rest ih =>
      intro done s b hitems hI
      rw [List.foldlM_cons]
      refine (hstep done item rest s b hitems hI).bind fun s' b' hI' ↦ ?_
      exact ih (done ++ [item]) s' b' (by simp [hitems]) hI'
  exact hrest items [] s b rfl h

/-! ### What runs show -/

/-- A contract that is kept is kept after a run, by what is left. -/
theorem Keeps.runs (h : c.Keeps post s p) (hruns : p.Runs es r) (hrely : c.Relied s es) :
    c.Keeps post (c.after s es) r := by
  induction hruns generalizing s with
  | here p => exact h
  | ask _ ih => exact ih (h.2 _ hrely.1) hrely.2

/-- **What a run shows of the contract.** Every question of a run is as guaranteed, as long as the
answers before it are as relied on. -/
theorem Keeps.guarantee {e : Exchange A} (h : c.Keeps post s p)
    (hruns : p.Runs (es ++ e :: es') r) (hrely : c.Relied s es) :
    c.guarantee (c.after s es) e.1 := by
  obtain ⟨r', hfront, hrest⟩ := hruns.front
  have hkept := h.runs hfront hrely
  cases hrest with
  | ask => exact hkept.1

/-- **Invariants of a run.** What holds of the summary at first, and is kept by every exchange as
guaranteed and relied on, holds of it after a run. -/
theorem Keeps.invariant {I : σ → Prop} (h : c.Keeps post s p) (hs : I s)
    (hstep : ∀ s q a, I s → c.guarantee s q → c.rely s q a → I (c.next s ⟨q, a⟩))
    (hruns : p.Runs es r) (hrely : c.Relied s es) : I (c.after s es) := by
  induction hruns generalizing s with
  | here p => exact hs
  | ask _ ih => exact ih (h.2 _ hrely.1) (hstep _ _ _ hs h.1 hrely.1) hrely.2

theorem relied_of_forall (h : ∀ s q a, c.rely s q a) : c.Relied s es := by
  induction es generalizing s with
  | nil => trivial
  | cons e es ih => exact ⟨h _ _ _, ih⟩

theorem runs_converse (answer : List (Exchange A) → (q : Q) → A q)
    (hanswer : ∀ past q, c.rely (c.after s past) q (answer past q)) (p : Program Q A ε α)
    (past : List (Exchange A)) :
    ∃ es, (p.converse answer past).1 = past ++ es ∧
      p.Runs es (.ofExcept (p.converse answer past).2) ∧ c.Relied (c.after s past) es := by
  induction p generalizing past with
  | done a => exact ⟨[], (List.append_nil past).symm, .here _, trivial⟩
  | fail e => exact ⟨[], (List.append_nil past).symm, .here _, trivial⟩
  | ask q next ih =>
    obtain ⟨es, hes, hruns, hrely⟩ := ih (answer past q) (past ++ [⟨q, answer past q⟩])
    rw [after_append] at hrely
    refine ⟨⟨q, answer past q⟩ :: es, ?_, .ask hruns, hanswer past q, hrely⟩
    rw [Program.converse, hes, List.append_assoc]
    rfl

theorem runs_converse_ask (answer : List (Exchange A) → (q : Q) → A q)
    (hanswer : ∀ past q, c.rely (c.after s past) q (answer past q)) (q : Q)
    (next : A q → Program Q A ε α) :
    ∃ es, ((Program.ask q next).converse answer []).1 = ⟨q, answer [] q⟩ :: es ∧
      (Program.ask q next).Runs (⟨q, answer [] q⟩ :: es)
        (.ofExcept ((Program.ask q next).converse answer []).2) ∧
      c.Relied s (⟨q, answer [] q⟩ :: es) := by
  obtain ⟨es, hes, hruns, hrely⟩ :=
    runs_converse answer hanswer (next (answer [] q)) [⟨q, answer [] q⟩]
  exact ⟨es, hes, .ask hruns, hanswer [] q, hrely⟩

theorem Keeps.ends {x : Except ε α} (h : c.Keeps post s p) (hruns : p.Runs es (.ofExcept x))
    (hrely : c.Relied s es) : post (c.after s es) x :=
  (keeps_ofExcept x).mp (h.runs hruns hrely)

end Contract

end SniGate
