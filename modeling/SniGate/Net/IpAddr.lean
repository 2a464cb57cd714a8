import SniGate.Text.Basic

/-!
# IP addresses

Addresses are their bits, which is how the code samples, projects and compares them. Their text
form is the standard library's: dotted quads, and for IPv6 the longest run of zero groups
compressed, with the mapped form of an IPv4 address.
-/

namespace SniGate

/-- `std::net::IpAddr`. -/
inductive IpAddr
  | v4 (bits : BitVec 32)
  | v6 (bits : BitVec 128)
deriving DecidableEq, Repr

/-! ## Text forms -/

/-- The `k`-th group of `w` bits, from the most significant of `count`. -/
def bitGroup (w count k n : ℕ) : ℕ := n / 2 ^ (w * (count - 1 - k)) % 2 ^ w

/-- `Display for Ipv4Addr`. -/
def ipv4ToString (a : BitVec 32) : Str :=
  join ['.'] ((List.range 4).map fun k ↦ decimal (bitGroup 8 4 k a.toNat))

/-- The eight groups of an IPv6 address. -/
def segments (a : BitVec 128) : List ℕ := (List.range 8).map fun k ↦ bitGroup 16 8 k a.toNat

/-- A run of zero groups. -/
structure ZeroSpan where
  start : ℕ
  len : ℕ
deriving DecidableEq, Repr

/-- One step of the search for the longest run, the first among equals: the index, the longest run
and the current one. -/
def zeroSpanStep : ℕ × ZeroSpan × ZeroSpan → ℕ → ℕ × ZeroSpan × ZeroSpan
  | (i, longest, current), segment =>
    if segment = 0 then
      let current := ⟨if current.len = 0 then i else current.start, current.len + 1⟩
      (i + 1, if longest.len < current.len then current else longest, current)
    else (i + 1, longest, ⟨0, 0⟩)

/-- The longest run of zero groups. -/
def longestZeroSpan (segs : List ℕ) : ZeroSpan :=
  (segs.foldl zeroSpanStep (0, ⟨0, 0⟩, ⟨0, 0⟩)).2.1

/-- `Display for Ipv6Addr`. -/
def ipv6ToString (a : BitVec 128) : Str :=
  if a.toNat / 2 ^ 32 = 0xffff then "::ffff:".toList ++ ipv4ToString (a.setWidth 32)
  else
    let segs := segments a
    let zeroes := longestZeroSpan segs
    let subslice (xs : List ℕ) : Str := join [':'] (xs.map hexadecimal)
    if 1 < zeroes.len then
      subslice (segs.take zeroes.start) ++ "::".toList ++
        subslice (segs.drop (zeroes.start + zeroes.len))
    else subslice segs

/-- `Display for IpAddr`. -/
def IpAddr.toStr : IpAddr → Str
  | .v4 a => ipv4ToString a
  | .v6 a => ipv6ToString a

example : (IpAddr.v6 0x0064ff9b000000000000000001020304#128).toStr =
    "64:ff9b::102:304".toList := by decide +kernel

end SniGate
