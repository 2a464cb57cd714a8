import SniGate.Bytes.Basic
import Mathlib.Data.List.DropRight

/-!
# Text operations

The string operations the configuration, the router and the stores are written with, on texts as
sequences of characters. Each follows the standard library function it is named after.
-/

namespace SniGate

/-! ## Whitespace and lines -/

/-- `char::is_whitespace`: the Unicode `White_Space` property. -/
def isWhitespace (c : Char) : Bool :=
  let n := c.toNat
  (0x09 ≤ n ∧ n ≤ 0x0d) ∨ n = 0x20 ∨ n = 0x85 ∨ n = 0xa0 ∨ n = 0x1680 ∨
    (0x2000 ≤ n ∧ n ≤ 0x200a) ∨ n = 0x2028 ∨ n = 0x2029 ∨ n = 0x202f ∨ n = 0x205f ∨ n = 0x3000

/-- `str::trim`. -/
def trim (s : Str) : Str := (s.dropWhile isWhitespace).rdropWhile isWhitespace

theorem isWhitespace_or_mem_trim {c : Char} {s : Str} (h : c ∈ s) :
    isWhitespace c ∨ c ∈ trim s := by
  have hdrop : ∀ t : Str, c ∈ t → isWhitespace c ∨ c ∈ t.dropWhile isWhitespace := by
    intro t ht
    rw [← List.takeWhile_append_dropWhile (p := isWhitespace) (l := t), List.mem_append] at ht
    exact ht.imp_left List.mem_takeWhile_imp
  rcases hdrop s h with hw | h
  · exact .inl hw
  rcases hdrop _ (List.mem_reverse.mpr h) with hw | h
  · exact .inl hw
  · exact .inr (List.mem_reverse.mpr h)

/-- `str::trim_end_matches` with a single character. -/
def trimEndMatches (c : Char) (s : Str) : Str := s.rdropWhile (· = c)

/-- A line without the carriage return of its line ending. -/
def stripCarriageReturn (line : Str) : Str :=
  if line.getLast? = some '\r' then line.dropLast else line

/-- `str::lines`: a final line ending is optional, and only a carriage return right before a line
feed belongs to it. -/
def lines (s : Str) : List Str :=
  let pieces := s.splitOn '\n'
  let last := pieces.getLast?.getD []
  pieces.dropLast.map stripCarriageReturn ++ (if last = [] then [] else [last])

/-! ## Parts -/

/-- `str::split_once` with a single character. -/
def splitOnce (c : Char) (s : Str) : Option (Str × Str) :=
  match s.dropWhile (· ≠ c) with
  | [] => none
  | _ :: rest => some (s.takeWhile (· ≠ c), rest)

/-- `str::strip_prefix`. -/
def stripStart (start s : Str) : Option Str := start.isPrefixOf? s

/-- `str::strip_suffix`. -/
def stripEnd (ending s : Str) : Option Str := ending.isSuffixOf? s

/-- `str::to_ascii_lowercase`. -/
def asciiLowercase (s : Str) : Str := s.map Char.toLower

/-- `char::is_ascii_alphanumeric`. -/
def isAsciiAlphanumeric (c : Char) : Bool := c.isAlphanum

theorem stripStart_eq_some {start s rest : Str} :
    stripStart start s = some rest ↔ start ++ rest = s :=
  List.isPrefixOf?_eq_some_iff_append_eq

theorem stripEnd_eq_some {ending s rest : Str} :
    stripEnd ending s = some rest ↔ rest ++ ending = s :=
  List.isSuffixOf?_eq_some_iff_append_eq

/-! ## Rendering -/

/-- Texts joined by a separator, as `[str]::join`. -/
def join (sep : Str) (xs : List Str) : Str := List.intercalate sep xs

/-- The decimal form of a number. -/
def decimal (n : ℕ) : Str := Nat.toDigits 10 n

/-- The lowercase hexadecimal form of a number. -/
def hexadecimal (n : ℕ) : Str := Nat.toDigits 16 n

/-- A 64-bit number as sixteen hexadecimal digits. -/
def hex16 (h : UInt64) : Str :=
  (List.range 16).reverse.map fun i ↦ (h.toNat / 16 ^ i % 16).digitChar

/-- `Display for bool`. -/
def boolText (b : Bool) : Str := if b then "true".toList else "false".toList

/-- One character in the `Debug` form of a text; of the characters that are not printable, only the
control characters are told apart here. -/
def debugChar (c : Char) : Str :=
  if c = '"' then "\\\"".toList
  else if c = '\\' then "\\\\".toList
  else if c = '\n' then "\\n".toList
  else if c = '\r' then "\\r".toList
  else if c = '\t' then "\\t".toList
  else if c = '\x00' then "\\0".toList
  else if c.toNat < 0x20 ∨ c.toNat = 0x7f then "\\u\x7b".toList ++ hexadecimal c.toNat ++ "\x7d".toList
  else [c]

/-- `Debug for str`. -/
def debugStr (s : Str) : Str := ['"'] ++ s.flatMap debugChar ++ ['"']

theorem decimal_injective {m n : ℕ} (h : decimal m = decimal n) : m = n := by
  have hm := Nat.ofDigitChars_ten_toDigits (n := m)
  rw [decimal, decimal] at h
  rw [h, Nat.ofDigitChars_ten_toDigits] at hm
  exact hm.symm

@[simp] theorem length_hex16 (h : UInt64) : (hex16 h).length = 16 := by simp [hex16]

theorem isAsciiAlphanumeric_of_mem_hex16 {h : UInt64} {c : Char} (hc : c ∈ hex16 h) :
    isAsciiAlphanumeric c := by
  have hall : ∀ m < 16, isAsciiAlphanumeric m.digitChar := by decide
  obtain ⟨i, -, rfl⟩ := List.mem_map.mp hc
  exact hall _ (Nat.mod_lt _ (by norm_num))

/-- Numbers that agree in their last `k` digits agree up to a multiple of `b ^ k`. -/
theorem mod_pow_eq_of_digits_eq {b m n : ℕ} (k : ℕ)
    (h : ∀ i < k, m / b ^ i % b = n / b ^ i % b) : m % b ^ k = n % b ^ k := by
  induction k with
  | zero => simp [Nat.mod_one]
  | succ k ih =>
    rw [Nat.pow_succ, Nat.mod_mul, Nat.mod_mul, h k (Nat.lt_succ_self k),
      ih fun i hi ↦ h i (hi.trans (Nat.lt_succ_self k))]

theorem digitChar_inj {m n : ℕ} (hm : m < 16) (hn : n < 16) (h : m.digitChar = n.digitChar) :
    m = n := by
  have hall : ∀ m < 16, ∀ n < 16, m.digitChar = n.digitChar → m = n := by decide +kernel
  exact hall m hm n hn h

theorem hex16_injective {a b : UInt64} (h : hex16 a = hex16 b) : a = b := by
  have hdigits := List.map_inj_left.mp h
  have hmod := mod_pow_eq_of_digits_eq (b := 16) (m := a.toNat) (n := b.toNat) 16 fun i hi ↦
    digitChar_inj (Nat.mod_lt _ (by norm_num)) (Nat.mod_lt _ (by norm_num))
      (hdigits i (by simpa using hi))
  have ha : a.toNat < 16 ^ 16 := a.toNat_lt
  have hb : b.toNat < 16 ^ 16 := b.toNat_lt
  rw [Nat.mod_eq_of_lt ha, Nat.mod_eq_of_lt hb] at hmod
  exact UInt64.toNat_inj.mp hmod

theorem isDigit_of_mem_decimal {n : ℕ} {c : Char} (h : c ∈ decimal n) : c.isDigit :=
  Nat.isDigit_of_mem_toDigits (by omega) (by omega) h

end SniGate
