import Mathlib.Data.List.Basic
import Mathlib.Data.List.GetD
import Mathlib.Data.List.Infix
import Mathlib.Tactic

/-!
# Byte strings read by position

Network formats are parsed by walking a byte buffer with an index, and the arguments about them all
have one shape: two buffers that agree on a stretch give the same answer to a read inside that
stretch. `AgreeBelow` names the stretch, and the lemmas below say what each kind of read does with
it. Prefixes are the most common source of agreement.

Indices are natural numbers and a read past the end yields `0`. Every parser built on these reads
guards its indices, so the default is never observed; it only keeps the reads total.
-/

namespace SniGate

/-- A byte string. -/
abbrev Bytes := List UInt8

/-- A text, as the sequence of its characters. -/
abbrev Str := List Char

instance : LawfulBEq Bytes := inferInstance

instance : LawfulBEq Str := inferInstance

/-- `b[i]` as a number. -/
def byteAt (b : Bytes) (i : ℕ) : ℕ := (b.getD i 0).toNat

/-- `u16::from_be_bytes([b[i], b[i + 1]])`. -/
def u16At (b : Bytes) (i : ℕ) : ℕ := byteAt b i * 256 + byteAt b (i + 1)

/-- A three-byte big-endian length. -/
def u24At (b : Bytes) (i : ℕ) : ℕ :=
  byteAt b i * 65536 + byteAt b (i + 1) * 256 + byteAt b (i + 2)

/-- `&b[i..i + n]`. -/
def sliceAt (b : Bytes) (i n : ℕ) : Bytes := (b.drop i).take n

/-- `std::str::from_utf8`. -/
def fromUtf8 (b : Bytes) : Option Str := (ByteArray.mk b.toArray).utf8Decode?.map Array.toList

/-- `str::as_bytes`. -/
def toUtf8 (s : Str) : Bytes := s.flatMap String.utf8EncodeChar

/-- The two bytes of a big-endian length. -/
def u16Bytes (n : ℕ) : Bytes := [UInt8.ofNat (n / 256), UInt8.ofNat n]

/-- The three bytes of a big-endian length. -/
def u24Bytes (n : ℕ) : Bytes := [UInt8.ofNat (n / 65536), UInt8.ofNat (n / 256), UInt8.ofNat n]

/-! ## Single reads -/

theorem byteAt_append_left {a b : Bytes} {i : ℕ} (h : i < a.length) :
    byteAt (a ++ b) i = byteAt a i := by
  rw [byteAt, byteAt, List.getD_append _ _ _ _ h]

theorem byteAt_append_right {a b : Bytes} {i : ℕ} (h : a.length ≤ i) :
    byteAt (a ++ b) i = byteAt b (i - a.length) := by
  rw [byteAt, byteAt, List.getD_append_right _ _ _ _ h]

theorem length_sliceAt {b : Bytes} {i n : ℕ} (h : i + n ≤ b.length) :
    (sliceAt b i n).length = n := by
  rw [sliceAt, List.length_take, List.length_drop]
  omega

theorem byteAt_sliceAt {b : Bytes} {i j n : ℕ} (h : j < n) :
    byteAt (sliceAt b i n) j = byteAt b (i + j) := by
  rw [byteAt, byteAt, sliceAt, List.getD_eq_getElem?_getD, List.getD_eq_getElem?_getD,
    List.getElem?_take_of_lt h, List.getElem?_drop]

theorem sliceAt_sliceAt {b : Bytes} {i j m n : ℕ} (h : j + m ≤ n) :
    sliceAt (sliceAt b i n) j m = sliceAt b (i + j) m := by
  rw [sliceAt, sliceAt, sliceAt, List.drop_take, List.take_take, List.drop_drop,
    min_eq_left (by omega)]

@[simp] theorem length_u16Bytes (n : ℕ) : (u16Bytes n).length = 2 := rfl

@[simp] theorem length_u24Bytes (n : ℕ) : (u24Bytes n).length = 3 := rfl

/-! ## Text -/

theorem utf8Encode_eq_mk (s : Str) : s.utf8Encode = ByteArray.mk (toUtf8 s).toArray := by
  rw [toUtf8, List.utf8Encode, ← List.data_toByteArray]

@[simp] theorem fromUtf8_toUtf8 (s : Str) : fromUtf8 (toUtf8 s) = some s := by
  rw [fromUtf8, ← utf8Encode_eq_mk, List.utf8Decode?_utf8Encode]
  rfl

theorem toUtf8_injective {s t : Str} (h : toUtf8 s = toUtf8 t) : s = t := by
  have hs := fromUtf8_toUtf8 s
  rw [h, fromUtf8_toUtf8] at hs
  exact (Option.some.inj hs).symm

theorem toUtf8_ne_nil {s : Str} (h : s ≠ []) : toUtf8 s ≠ [] := by
  intro h0
  have hs := fromUtf8_toUtf8 s
  rw [h0] at hs
  exact h (Option.some.inj (hs.symm.trans (by decide)))

/-! ## What stands where

A message is written as a concatenation, and read by position. `StandsAt` is the bridge: it splits
along the concatenation on one side and answers reads on the other.
-/

/-- The bytes `x` stand at offset `i` of `b`. -/
def StandsAt (b : Bytes) (i : ℕ) (x : Bytes) : Prop := x <+: b.drop i

theorem standsAt_append {b x y : Bytes} {i : ℕ} :
    StandsAt b i (x ++ y) ↔ StandsAt b i x ∧ StandsAt b (i + x.length) y := by
  rw [StandsAt, StandsAt, StandsAt, ← List.drop_drop]
  constructor
  · rintro ⟨t, ht⟩
    rw [List.append_assoc] at ht
    rw [← ht, List.drop_left]
    exact ⟨List.prefix_append _ _, List.prefix_append _ _⟩
  · rintro ⟨⟨t, ht⟩, hy⟩
    rw [← ht, List.drop_left] at hy
    rw [← ht]
    exact (List.prefix_append_right_inj x).mpr hy

theorem standsAt_cons {b y : Bytes} {x : UInt8} {i : ℕ} :
    StandsAt b i (x :: y) ↔ StandsAt b i [x] ∧ StandsAt b (i + 1) y :=
  standsAt_append (x := [x])

theorem standsAt_self (b : Bytes) : StandsAt b 0 b := List.prefix_refl b

theorem StandsAt.le {b x : Bytes} {i : ℕ} (h : StandsAt b i x) (hx : x ≠ []) :
    i + x.length ≤ b.length := by
  have hlen := List.IsPrefix.length_le h
  have hpos := List.length_pos_of_ne_nil hx
  rw [List.length_drop] at hlen
  omega

theorem StandsAt.byteAt {b : Bytes} {x : UInt8} {i : ℕ} (h : StandsAt b i [x]) :
    byteAt b i = x.toNat := by
  obtain ⟨t, ht⟩ := h
  have hi : b[i]? = some x := by
    rw [← List.head?_drop, ← ht]
    rfl
  rw [SniGate.byteAt, List.getD_eq_getElem?_getD, hi, Option.getD_some]

theorem StandsAt.u16At {b : Bytes} {n i : ℕ} (h : StandsAt b i (u16Bytes n)) (hn : n < 65536) :
    u16At b i = n := by
  have h' := standsAt_cons.mp h
  rw [SniGate.u16At, h'.1.byteAt, h'.2.byteAt, UInt8.toNat_ofNat', UInt8.toNat_ofNat']
  omega

theorem StandsAt.u24At {b : Bytes} {n i : ℕ} (h : StandsAt b i (u24Bytes n))
    (hn : n < 16777216) : u24At b i = n := by
  have h' := standsAt_cons.mp h
  have h'' := standsAt_cons.mp h'.2
  rw [SniGate.u24At, h'.1.byteAt, h''.1.byteAt, h''.2.byteAt, UInt8.toNat_ofNat',
    UInt8.toNat_ofNat', UInt8.toNat_ofNat']
  omega

theorem StandsAt.sliceAt {b x : Bytes} {i : ℕ} (h : StandsAt b i x) :
    sliceAt b i x.length = x := (List.prefix_iff_eq_take.mp h).symm

/-! ## Agreement -/

/-- `b` and `c` hold the same bytes at every position below `n` that `b` has. -/
def AgreeBelow (b c : Bytes) (n : ℕ) : Prop := ∀ i < n, i < b.length → byteAt b i = byteAt c i

theorem AgreeBelow.mono {b c : Bytes} {m n : ℕ} (h : AgreeBelow b c n) (hmn : m ≤ n) :
    AgreeBelow b c m := fun i hi hb ↦ h i (lt_of_lt_of_le hi hmn) hb

theorem AgreeBelow.u16At {b c : Bytes} {n i : ℕ} (h : AgreeBelow b c n) (hn : i + 2 ≤ n)
    (hb : i + 2 ≤ b.length) : u16At b i = SniGate.u16At c i := by
  rw [SniGate.u16At, SniGate.u16At, h i (by omega) (by omega), h (i + 1) (by omega) (by omega)]

theorem AgreeBelow.u24At {b c : Bytes} {n i : ℕ} (h : AgreeBelow b c n) (hn : i + 3 ≤ n)
    (hb : i + 3 ≤ b.length) : u24At b i = SniGate.u24At c i := by
  rw [SniGate.u24At, SniGate.u24At, h i (by omega) (by omega), h (i + 1) (by omega) (by omega),
    h (i + 2) (by omega) (by omega)]

theorem AgreeBelow.of_isPrefix {b c : Bytes} (h : b <+: c) (n : ℕ) : AgreeBelow b c n := by
  obtain ⟨d, rfl⟩ := h
  exact fun i _ hb ↦ (byteAt_append_left hb).symm

theorem sliceAt_of_isPrefix {b c : Bytes} {i n : ℕ} (h : b <+: c) (hb : i + n ≤ b.length) :
    sliceAt c i n = sliceAt b i n := by
  obtain ⟨d, rfl⟩ := h
  rw [sliceAt, sliceAt, List.drop_append_of_le_length (by omega),
    List.take_append_of_le_length (by rw [List.length_drop]; omega)]

theorem AgreeBelow.sliceAt {b c : Bytes} {i n m : ℕ} (h : AgreeBelow b c m) (hm : i + n ≤ m)
    (hb : i + n ≤ b.length) (hc : i + n ≤ c.length) :
    sliceAt b i n = SniGate.sliceAt c i n := by
  refine List.ext_getElem (by rw [length_sliceAt hb, length_sliceAt hc]) fun j hj hj' ↦ ?_
  rw [length_sliceAt hb] at hj
  have hread := h (i + j) (by omega) (by omega)
  simp only [SniGate.sliceAt, List.getElem_take, List.getElem_drop]
  rw [byteAt, byteAt, List.getD_eq_getElem _ _ (by omega), List.getD_eq_getElem _ _ (by omega)]
    at hread
  exact UInt8.toNat_inj.mp hread

/-- A field of the written buffer is shared by a buffer that agrees with it, as far as they
agree. -/
theorem AgreeBelow.field {b c x : Bytes} {i k : ℕ} (h : AgreeBelow b c k) (hc : StandsAt c i x) :
    AgreeBelow (SniGate.sliceAt b i x.length) x (k - i) := by
  intro j hj hlen
  have hx : j < x.length ∧ i + j < b.length := by
    rw [SniGate.sliceAt, List.length_take, List.length_drop] at hlen
    omega
  have hread : byteAt c (i + j) = byteAt x j := by
    rw [← byteAt_sliceAt (n := x.length) hx.1, hc.sliceAt]
  rw [byteAt_sliceAt hx.1, h (i + j) (by omega) hx.2, hread]

end SniGate
