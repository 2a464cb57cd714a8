import Mathlib.Data.List.Basic
import Mathlib.Tactic

/-!
# Writers that may buffer

An asynchronous writer promises less than a file: a completed write says that the bytes were
accepted, and only a completed flush or shutdown says that they were delivered to the transport. A
TLS stream is such a writer. `Writer` keeps both facts, and the bound between them.
-/

namespace SniGate

variable {α : Type*}

/-- A writer, as far as it can be relied on: what it has accepted, and how much of that is known to
be delivered. -/
structure Writer (α : Type*) where
  /-- Everything accepted so far, in order. -/
  accepted : List α
  /-- How many of the accepted elements are known to be delivered. -/
  delivered : ℕ
  delivered_le : delivered ≤ accepted.length

namespace Writer

/-- A writer nothing was written to. -/
def empty : Writer α := ⟨[], 0, le_rfl⟩

/-- Accept some elements. -/
def write (w : Writer α) (xs : List α) : Writer α where
  accepted := w.accepted ++ xs
  delivered := w.delivered
  delivered_le := by
    rw [List.length_append]
    exact le_trans w.delivered_le (Nat.le_add_right _ _)

/-- Complete a flush, or a shutdown. -/
def flush (w : Writer α) : Writer α := ⟨w.accepted, w.accepted.length, le_rfl⟩

/-- Everything accepted is delivered. -/
def Drained (w : Writer α) : Prop := w.delivered = w.accepted.length

instance (w : Writer α) : Decidable w.Drained := inferInstanceAs (Decidable (_ = _))

@[simp] theorem accepted_write (w : Writer α) (xs : List α) :
    (w.write xs).accepted = w.accepted ++ xs := rfl

@[simp] theorem delivered_write (w : Writer α) (xs : List α) :
    (w.write xs).delivered = w.delivered := rfl

theorem drained_empty : (empty : Writer α).Drained := rfl

end Writer

end SniGate
