import Mathlib.Data.List.Basic
import Mathlib.Tactic

/-!
# File operations that may stop half way

A program that updates several files does so by a list of operations, and may stop anywhere in the
list: because it is killed, or because an operation fails and it gives up. What it leaves behind is
described by `StopsWith`: some front of the list has taken effect, and a plain write that was under
way may have left anything in its own target. Renaming and removing are all or nothing.

Paths and contents are arbitrary. The frame rule (`StopsWith.frame`) is what the arguments about
particular lists use: files that no operation of the list writes hold what they held before.

## Design choices

Stopping is a relation and not a function of a number of steps, since an interrupted write may
leave anything. Where a number is at hand, `stopAfter` gives one way to stop, and
`stopsWith_stopAfter` relates both. Directories are not modelled: a path is whatever files are told
apart by.
-/

namespace SniGate

variable {P C : Type*}

/-- What the files hold. -/
abbrev Files (P C : Type*) := P → Option C

/-- A file operation. -/
inductive FileOp (P C : Type*)
  /-- An operation that touches no file: creating a directory, changing permissions. -/
  | neutral
  /-- Write a file in place. -/
  | write (path : P) (content : C)
  /-- Move a file over another. -/
  | rename (source target : P)
  /-- Remove a file, if it is there. -/
  | remove (path : P)
deriving DecidableEq, Repr

namespace FileOp

variable [DecidableEq P]

/-- The effect of a completed operation. -/
def apply : FileOp P C → Files P C → Files P C
  | neutral, fs => fs
  | write p c, fs => Function.update fs p (some c)
  | rename p q, fs => Function.update (Function.update fs q (fs p)) p none
  | remove p, fs => Function.update fs p none

/-- The files an operation writes. -/
def writes : FileOp P C → List P
  | neutral => []
  | write p _ => [p]
  | rename p q => [p, q]
  | remove p => [p]

/-- What an operation that did not complete may leave: a write may be torn. -/
inductive Torn : FileOp P C → Files P C → Files P C → Prop
  | write (p : P) (c : C) (fs : Files P C) (x : Option C) :
      Torn (.write p c) fs (Function.update fs p x)

omit [DecidableEq P] in
theorem mem_writes_rename {p q r : P} :
    r ∈ (rename p q : FileOp P C).writes ↔ r = p ∨ r = q := by
  simp [writes]

theorem apply_of_not_mem {op : FileOp P C} {fs : Files P C} {p : P} (h : p ∉ op.writes) :
    op.apply fs p = fs p := by
  cases op with
  | neutral => rfl
  | write q c => exact Function.update_of_ne (by simpa [writes] using h) _ _
  | remove q => exact Function.update_of_ne (by simpa [writes] using h) _ _
  | rename q r =>
    rw [mem_writes_rename, not_or] at h
    rw [apply, Function.update_of_ne h.1, Function.update_of_ne h.2]

theorem Torn.frame {op : FileOp P C} {fs fs' : Files P C} {p : P} (ht : op.Torn fs fs')
    (h : p ∉ op.writes) : fs' p = fs p := by
  cases ht with
  | write q c fs x => exact Function.update_of_ne (by simpa [writes] using h) _ _

end FileOp

variable [DecidableEq P]

/-- The effect of a completed list of operations. -/
def applyAll (ops : List (FileOp P C)) (fs : Files P C) : Files P C :=
  ops.foldl (fun fs op ↦ op.apply fs) fs

theorem applyAll_cons (op : FileOp P C) (ops : List (FileOp P C)) (fs : Files P C) :
    applyAll (op :: ops) fs = applyAll ops (op.apply fs) := rfl

theorem applyAll_append (ops ops' : List (FileOp P C)) (fs : Files P C) :
    applyAll (ops ++ ops') fs = applyAll ops' (applyAll ops fs) := List.foldl_append

/-- A list of operations, started on some files, may stop and leave the others. -/
inductive StopsWith : List (FileOp P C) → Files P C → Files P C → Prop
  | here (ops : List (FileOp P C)) (fs : Files P C) : StopsWith ops fs fs
  | torn {op : FileOp P C} {ops : List (FileOp P C)} {fs fs' : Files P C}
      (h : op.Torn fs fs') : StopsWith (op :: ops) fs fs'
  | step {op : FileOp P C} {ops : List (FileOp P C)} {fs fs' : Files P C}
      (h : StopsWith ops (op.apply fs) fs') : StopsWith (op :: ops) fs fs'

namespace StopsWith

variable {ops ops' : List (FileOp P C)} {fs fs' : Files P C}

theorem all (ops : List (FileOp P C)) (fs : Files P C) : StopsWith ops fs (applyAll ops fs) := by
  induction ops generalizing fs with
  | nil => exact .here [] fs
  | cons op ops ih => exact .step (ih (op.apply fs))

theorem append_left (h : StopsWith ops fs fs') : StopsWith (ops ++ ops') fs fs' := by
  induction h with
  | here => exact .here _ _
  | torn h => exact .torn h
  | step _ ih => exact .step ih

/-- Stopping in the rest of the list, after a completed front. -/
theorem append_right (h : StopsWith ops' (applyAll ops fs) fs') :
    StopsWith (ops ++ ops') fs fs' := by
  induction ops generalizing fs with
  | nil => exact h
  | cons op ops ih => exact .step (ih h)

theorem append_iff :
    StopsWith (ops ++ ops') fs fs' ↔
      StopsWith ops fs fs' ∨ StopsWith ops' (applyAll ops fs) fs' := by
  constructor
  · intro h
    induction ops generalizing fs with
    | nil => exact .inr h
    | cons op ops ih =>
      rw [List.cons_append] at h
      cases h with
      | here => exact .inl (.here _ _)
      | torn h => exact .inl (.torn h)
      | step h => exact (ih h).imp .step id
  · rintro (h | h)
    · exact h.append_left
    · exact append_right h

/-- **Frame rule.** A file that no operation writes holds what it held. -/
theorem frame {p : P} (h : StopsWith ops fs fs') (hp : ∀ op ∈ ops, p ∉ op.writes) :
    fs' p = fs p := by
  induction h with
  | here => rfl
  | torn ht => exact ht.frame (hp _ List.mem_cons_self)
  | step _ ih =>
    rw [ih fun op hop ↦ hp op (List.mem_cons_of_mem _ hop)]
    exact FileOp.apply_of_not_mem (hp _ List.mem_cons_self)

end StopsWith

/-- What is left when the first `count` operations have taken effect and no other has, except that a
plain write that comes next may have left `torn` in its target. -/
def stopAfter (ops : List (FileOp P C)) (count : ℕ) (torn : Option (Option C)) (fs : Files P C) :
    Files P C :=
  match ops, count with
  | [], _ => fs
  | op :: ops, count + 1 => stopAfter ops count torn (op.apply fs)
  | .write p _ :: _, 0 => (torn.map fun x ↦ Function.update fs p x).getD fs
  | _ :: _, 0 => fs

theorem stopsWith_stopAfter (ops : List (FileOp P C)) (count : ℕ) (torn : Option (Option C))
    (fs : Files P C) : StopsWith ops fs (stopAfter ops count torn fs) := by
  induction ops generalizing count fs with
  | nil =>
    rw [stopAfter]
    exact .here _ _
  | cons op ops ih =>
    cases count with
    | succ count =>
      rw [stopAfter]
      exact .step (ih count _)
    | zero =>
      cases op with
      | write p c =>
        rw [stopAfter]
        cases torn with
        | none => exact .here _ _
        | some x => exact .torn (.write p c fs x)
      | _ =>
        rw [stopAfter]
        · exact .here _ _
        · simp

/-- Operations that are allowed to take effect all take effect. -/
theorem stopAfter_of_length_le {ops : List (FileOp P C)} {count : ℕ} (h : ops.length ≤ count)
    (torn : Option (Option C)) (fs : Files P C) :
    stopAfter ops count torn fs = applyAll ops fs := by
  induction ops generalizing count fs with
  | nil => rw [stopAfter]; rfl
  | cons op ops ih =>
    cases count with
    | zero => exact absurd h (by simp)
    | succ count =>
      rw [stopAfter, applyAll_cons]
      exact ih (Nat.le_of_succ_le_succ h) _

/-! ## What the outcome depends on -/

/-- The files an operation reads. -/
def FileOp.reads : FileOp P C → List P
  | rename p _ => [p]
  | _ => []

/-- Operations that, started with the files of `A` known, read only known files; what is written
becomes known. -/
def ReadsCovered : List (FileOp P C) → Set P → Prop
  | [], _ => True
  | op :: ops, A => (∀ p ∈ op.reads, p ∈ A) ∧ ReadsCovered ops (A ∪ {p | p ∈ op.writes})

section Agree

variable {op : FileOp P C} {ops : List (FileOp P C)} {fs fs' : Files P C} {A : Set P}

/-- Operations that read what agrees leave what agrees, and what they write agrees as well. -/
theorem FileOp.apply_agree (hreads : ∀ p ∈ op.reads, p ∈ A) (h : ∀ p ∈ A, fs p = fs' p) :
    ∀ p ∈ A ∪ {p | p ∈ op.writes}, op.apply fs p = op.apply fs' p := by
  intro p hp
  by_cases hwritten : p ∈ op.writes
  · cases op with
    | neutral => simp [writes] at hwritten
    | write q c =>
      obtain rfl : p = q := by simpa [writes] using hwritten
      rw [apply, apply, Function.update_self, Function.update_self]
    | remove q =>
      obtain rfl : p = q := by simpa [writes] using hwritten
      rw [apply, apply, Function.update_self, Function.update_self]
    | rename q r =>
      rw [apply, apply]
      by_cases hq : p = q
      · rw [hq, Function.update_self, Function.update_self]
      · obtain rfl : p = r := (mem_writes_rename.mp hwritten).resolve_left hq
        rw [Function.update_of_ne hq, Function.update_of_ne hq, Function.update_self,
          Function.update_self]
        exact h q (hreads q (by simp [reads]))
  · rw [apply_of_not_mem hwritten, apply_of_not_mem hwritten]
    exact h p (hp.resolve_right hwritten)

/-- **Same operations, same stop.** Files that agree where the operations read them agree there
afterwards. -/
theorem stopAfter_agree (hreads : ReadsCovered ops A) (h : ∀ p ∈ A, fs p = fs' p) (count : ℕ)
    (torn : Option (Option C)) :
    ∀ p ∈ A, stopAfter ops count torn fs p = stopAfter ops count torn fs' p := by
  induction ops generalizing A fs fs' count with
  | nil =>
    intro p hp
    rw [stopAfter, stopAfter]
    exact h p hp
  | cons op ops ih =>
    intro p hp
    cases count with
    | succ count =>
      rw [stopAfter, stopAfter]
      exact ih hreads.2 (FileOp.apply_agree hreads.1 h) count p (.inl hp)
    | zero =>
      cases op with
      | write q c =>
        rw [stopAfter, stopAfter]
        cases torn with
        | none => exact h p hp
        | some x =>
          rw [Option.map_some, Option.getD_some, Option.map_some, Option.getD_some]
          by_cases hq : p = q
          · rw [hq, Function.update_self, Function.update_self]
          · rw [Function.update_of_ne hq, Function.update_of_ne hq, h p hp]
      | _ =>
        rw [stopAfter, stopAfter]
        · exact h p hp
        all_goals simp

end Agree

/-! ## Replacing a file through a staging file -/

/-- Write a staging file, do some work that touches no file, and move the staging file over the
target. -/
def replaceOps (staging target : P) (c : C) (pre : List (FileOp P C)) : List (FileOp P C) :=
  .write staging c :: pre ++ [.rename staging target]

section Replace

variable {staging target : P} {c : C} {pre : List (FileOp P C)} {fs fs' : Files P C}

theorem applyAll_of_neutral {ops : List (FileOp P C)} (h : ∀ op ∈ ops, op = .neutral) :
    applyAll ops fs = fs := by
  induction ops with
  | nil => rfl
  | cons op ops ih =>
    rw [applyAll_cons, h op List.mem_cons_self]
    exact ih fun op hop ↦ h op (List.mem_cons_of_mem _ hop)

/-- A completed replacement changes the target, and leaves no staging file. -/
theorem applyAll_replaceOps (hpre : ∀ op ∈ pre, op = .neutral) :
    applyAll (replaceOps staging target c pre) fs =
      Function.update (Function.update fs target (some c)) staging none := by
  rw [replaceOps, List.cons_append, applyAll_cons, applyAll_append, applyAll_of_neutral hpre]
  funext p
  change Function.update (Function.update (FileOp.apply (.write staging c) fs) target
    (FileOp.apply (.write staging c) fs staging)) staging none p = _
  by_cases hs : p = staging
  · subst hs
    rw [Function.update_self, Function.update_self]
  · rw [Function.update_of_ne hs, Function.update_of_ne hs]
    by_cases ht : p = target
    · subst ht
      rw [Function.update_self, Function.update_self, FileOp.apply, Function.update_self]
    · rw [Function.update_of_ne ht, Function.update_of_ne ht, FileOp.apply,
        Function.update_of_ne hs]

/-- **A replacement is atomic** outside its staging file: wherever it stops, every other file holds
what it held, or the replacement is complete. -/
theorem StopsWith.replace (hpre : ∀ op ∈ pre, op = .neutral)
    (h : StopsWith (replaceOps staging target c pre) fs fs') :
    (∀ p ≠ staging, fs' p = fs p) ∨ fs' = applyAll (replaceOps staging target c pre) fs := by
  have hwrites : ∀ op ∈ FileOp.write staging c :: pre, ∀ p ≠ staging, p ∉ op.writes := by
    intro op hop p hp
    rcases List.mem_cons.mp hop with rfl | hop
    · simpa [FileOp.writes] using hp
    · rw [hpre op hop]
      simp [FileOp.writes]
  rw [replaceOps, StopsWith.append_iff] at h
  rcases h with h | h
  · exact .inl fun p hp ↦ h.frame fun op hop ↦ hwrites op hop p hp
  · cases h with
    | here =>
      refine .inl fun p hp ↦ ?_
      exact (StopsWith.all _ _).frame fun op hop ↦ hwrites op hop p hp
    | torn ht => cases ht
    | step h =>
      cases h
      refine .inr ?_
      rw [replaceOps, applyAll_append]
      rfl

end Replace

end SniGate
