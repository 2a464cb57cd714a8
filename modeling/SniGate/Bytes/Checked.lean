import SniGate.Bytes.Basic

/-!
# Operations that can fault

The reads of `SniGate.Bytes.Basic` are total. A program's are not: an index or a range can be out of
bounds, a sum can exceed what a machine word holds, and a loop need not end. Here each operation
says so with a `Fault`, and a loop faults where a pass consumes nothing of what remains, so that one
without a fault ends after at most as many passes as there are bytes.

`loop_eq_ok` is the rule for loops: from a state that satisfies an invariant every pass answers
what is expected, or consumes something and leads to a state that satisfies it and expects the same.

## Design choices

A machine word is given by its limit, which is a parameter, so that what is proved holds of any
word size that can address the buffer. The checked parsers repeat the text of the source; that they
compute what the total ones compute is proved, and everything else is said of the total ones.
-/

namespace SniGate

/-- Why a program does not go on. -/
inductive Fault
  | outOfBounds
  | overflow
  | stuck
deriving DecidableEq, Repr

/-- A slice as a program can be given one. A machine word has 32 bits or more, and a slice is at
most half as long as a word can say. -/
structure Slice where
  bytes : Bytes
  /-- The number of bits of a word. -/
  width : ℕ
  width_ge : 32 ≤ width
  fits : bytes.length < 2 ^ (width - 1)

/-- What a word has to stay below. -/
def Slice.limit (s : Slice) : ℕ := 2 ^ s.width

/-- Offsets in a slice can be moved by more than any two-byte or three-byte length. -/
theorem Slice.length_add_le (s : Slice) : s.bytes.length + 2147483648 ≤ s.limit := by
  have hpow : (2 : ℕ) ^ s.width = 2 ^ (s.width - 1) + 2 ^ (s.width - 1) := by
    rw [← two_mul, ← pow_succ', Nat.sub_add_cancel (le_trans (by decide) s.width_ge)]
  have hroom : (2 : ℕ) ^ 31 ≤ 2 ^ (s.width - 1) :=
    Nat.pow_le_pow_right (by decide) (Nat.le_sub_one_of_lt s.width_ge)
  have hfits := s.fits
  rw [limit, hpow]
  omega

namespace Checked

/-! ## Operations -/

/-- `a + b`. -/
def add (limit a b : ℕ) : Except Fault ℕ := if a + b < limit then .ok (a + b) else .error .overflow

/-- `b[i]`. -/
def index (b : Bytes) (i : ℕ) : Except Fault ℕ :=
  match b[i]? with
  | some c => .ok c.toNat
  | none => .error .outOfBounds

/-- `u16::from_be_bytes([b[i], b[j]])`. -/
def u16 (b : Bytes) (i j : ℕ) : Except Fault ℕ := do
  let hi ← index b i
  let lo ← index b j
  return hi * 256 + lo

/-- `&b[i..j]`. -/
def slice (b : Bytes) (i j : ℕ) : Except Fault Bytes :=
  if i ≤ j ∧ j ≤ b.length then .ok (sliceAt b i (j - i)) else .error .outOfBounds

section Operations

variable {limit i j n : ℕ} {b : Bytes} {α β : Type}

theorem ok_bind (a : α) (f : α → Except Fault β) : (Except.ok a >>= f) = f a := rfl

theorem add_eq_ok (h : i + j < limit) : add limit i j = .ok (i + j) := if_pos h

theorem index_eq_ok (h : i < b.length) : index b i = .ok (byteAt b i) := by
  rw [index, byteAt, List.getD_eq_getElem?_getD, List.getElem?_eq_getElem h]
  rfl

theorem u16_eq_ok (hj : j = i + 1) (h : i + 2 ≤ b.length) : u16 b i j = .ok (u16At b i) := by
  rw [u16, index_eq_ok (by omega), index_eq_ok (by omega), hj]
  rfl

theorem slice_eq_ok (hj : j = i + n) (h : j ≤ b.length) : slice b i j = .ok (sliceAt b i n) := by
  rw [slice, if_pos ⟨by omega, h⟩]
  congr 2
  omega

/-- `&b[..j]`. -/
theorem slice_zero_eq_ok (h : j ≤ b.length) : slice b 0 j = .ok (b.take j) := by
  rw [slice_eq_ok (Nat.zero_add j).symm h, sliceAt, List.drop_zero]

/-- `&b[i..]`. -/
theorem slice_length_eq_ok (h : i ≤ b.length) : slice b i b.length = .ok (b.drop i) := by
  rw [slice_eq_ok (Nat.add_sub_of_le h).symm le_rfl, sliceAt,
    List.take_of_length_le (by rw [List.length_drop])]

theorem byteAt_lt (b : Bytes) (i : ℕ) : byteAt b i < 256 := (b.getD i 0).toNat_lt

theorem u16At_lt (b : Bytes) (i : ℕ) : u16At b i < 65536 := by
  have hhi := byteAt_lt b i
  have hlo := byteAt_lt b (i + 1)
  rw [u16At]
  omega

theorem u24At_lt (b : Bytes) (i : ℕ) : u24At b i < 16777216 := by
  have hhi := byteAt_lt b i
  have hmid := byteAt_lt b (i + 1)
  have hlo := byteAt_lt b (i + 2)
  rw [u24At]
  omega

end Operations

/-! ## Loops -/

section Loops

variable {σ α : Type} {remaining : σ → ℕ} {step : σ → Except Fault (α ⊕ σ)} {s : σ}

/-- Pass after pass, until one has the answer. -/
def loop (remaining : σ → ℕ) (step : σ → Except Fault (α ⊕ σ)) (s : σ) : Except Fault α :=
  match step s with
  | .error fault => .error fault
  | .ok (.inl a) => .ok a
  | .ok (.inr s') =>
    if remaining s' < remaining s then loop remaining step s' else .error .stuck
termination_by remaining s

/-- **Loops.** A loop whose passes keep the invariant and the answer does not fault. -/
theorem loop_eq_ok (inv : σ → Prop) (answer : σ → α)
    (hstep : ∀ s, inv s → step s = .ok (.inl (answer s)) ∨
      ∃ s', step s = .ok (.inr s') ∧ inv s' ∧ remaining s' < remaining s ∧ answer s' = answer s)
    (hs : inv s) : loop remaining step s = .ok (answer s) := by
  induction hn : remaining s using Nat.strong_induction_on generalizing s with
  | _ n ih =>
    rw [loop]
    rcases hstep s hs with hdone | ⟨s', hnext, hs', hless, hanswer⟩
    · rw [hdone]
    · rw [hnext]
      dsimp only
      rw [if_pos hless, ih (remaining s') (hn ▸ hless) hs' rfl, hanswer]

end Loops

end Checked

end SniGate
