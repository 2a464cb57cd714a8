import SniGate.Net.Cidr

/-!
# Reading numbers and addresses

The standard library's parsers for ports and IP addresses, and the NAT64 prefix grammar built on
them. A reader takes a text and gives what it read with the rest, or nothing, in which case nothing
is consumed.

## Design choices

The readers follow the documented grammar of the standard library's parsers: how many digits,
whether a leading zero counts, what `::` may stand for. An address is a bit vector of its width.
What a parser does not consume is part of its result, so a parser of a whole text is a reader that
leaves nothing.
-/

namespace SniGate

/-! ## Numbers -/

/-- `char::to_digit`, for radix 10 or 16. -/
def toDigit (radix : ℕ) (c : Char) : Option ℕ :=
  let n :=
    if c.isDigit then some (c.toNat - '0'.toNat)
    else if 'a' ≤ c ∧ c ≤ 'f' then some (c.toNat - 'a'.toNat + 10)
    else if 'A' ≤ c ∧ c ≤ 'F' then some (c.toNat - 'A'.toNat + 10)
    else none
  n.filter (· < radix)

/-- The value of a text of digits. -/
def digitsValue (radix : ℕ) (digits : Str) : ℕ :=
  digits.foldl (fun n c ↦ n * radix + ((toDigit radix c).getD 0)) 0

/-- `str::parse` for an unsigned number below `bound`: digits, with an optional plus sign. -/
def parseUnsigned (bound : ℕ) (s : Str) : Option ℕ :=
  let digits := (stripStart ['+'] s).getD s
  if digits ≠ [] ∧ digits.all (fun c ↦ (toDigit 10 c).isSome) ∧ digitsValue 10 digits < bound then
    some (digitsValue 10 digits)
  else none

/-- `str::parse::<u16>`. -/
def parseU16 (s : Str) : Option UInt16 := (parseUnsigned (2 ^ 16) s).map UInt16.ofNat

/-! ## Addresses -/

/-- `Parser::read_number`. -/
def readNumber (radix maxDigits : ℕ) (allowZeroPrefix : Bool) (bound : ℕ) (s : Str) :
    Option (ℕ × Str) :=
  let digits := s.takeWhile fun c ↦ (toDigit radix c).isSome
  let n := digitsValue radix digits
  if digits = [] ∨ maxDigits < digits.length ∨ bound ≤ n ∨
      (!allowZeroPrefix ∧ digits.head? = some '0' ∧ 1 < digits.length) then none
  else some (n, s.drop digits.length)

/-- `Parser::read_separator`: the separator, except before the first item, and the item. -/
def readSeparator {α : Type} (sep : Char) (index : ℕ) (read : Str → Option (α × Str)) (s : Str) :
    Option (α × Str) :=
  if index = 0 then read s else (stripStart [sep] s).bind read

/-- Read `count` decimal bytes with dots between them. -/
def readOctets : ℕ → ℕ → Str → Option (List ℕ × Str)
  | 0, _, s => some ([], s)
  | count + 1, index, s =>
    (readSeparator '.' index (readNumber 10 3 false 256) s).bind fun p ↦
      (readOctets count (index + 1) p.2).map fun q ↦ (p.1 :: q.1, q.2)

/-- `Parser::read_ipv4_addr`. -/
def readIpv4 (s : Str) : Option (BitVec 32 × Str) :=
  (readOctets 4 0 s).map fun p ↦ (BitVec.ofNat 32 (p.1.foldl (fun n o ↦ n * 256 + o) 0), p.2)

/-- `read_groups`: up to `limit` more groups of an IPv6 address, of which the last two may be
written as an IPv4 address; whether they were. -/
def readGroups : ℕ → ℕ → Str → List ℕ × Bool × Str
  | 0, _, s => ([], false, s)
  | limit + 1, index, s =>
    let embedded := if limit = 0 then none else readSeparator ':' index readIpv4 s
    match embedded with
    | some (v4, rest) => ([v4.toNat / 65536, v4.toNat % 65536], true, rest)
    | none =>
      match readSeparator ':' index (readNumber 16 4 true 65536) s with
      | some (group, rest) =>
        let (groups, ipv4, rest) := readGroups limit (index + 1) rest
        (group :: groups, ipv4, rest)
      | none => ([], false, s)

/-- The address with these eight groups. -/
def ofSegments (groups : List ℕ) : BitVec 128 :=
  BitVec.ofNat 128 (groups.foldl (fun n g ↦ n * 65536 + g) 0)

/-- `Ipv4Addr::from_str`. -/
def parseIpv4 (s : Str) : Option (BitVec 32) :=
  match readIpv4 s with
  | some (a, []) => some a
  | _ => none

/-- `Ipv6Addr::from_str`. -/
def parseIpv6 (s : Str) : Option (BitVec 128) :=
  let (head, headIpv4, rest) := readGroups 8 0 s
  if head.length = 8 then (if rest = [] then some (ofSegments head) else none)
  else if headIpv4 then none
  else
    match stripStart "::".toList rest with
    | none => none
    | some rest =>
      let (tail, _, rest) := readGroups (8 - (head.length + 1)) 0 rest
      if rest = [] then
        some (ofSegments (head ++ List.replicate (8 - head.length - tail.length) 0 ++ tail))
      else none

/-- `IpAddr::from_str`. -/
def parseIpAddr (s : Str) : Option IpAddr :=
  match parseIpv4 s with
  | some a => some (.v4 a)
  | none => (parseIpv6 s).map .v6

example : (parseIpv6 "64:ff9b::1.2.3.4".toList).map IpAddr.v6 =
    some (.v6 0x0064ff9b000000000000000001020304#128) := by decide +kernel

/-! ## NAT64 prefixes -/

/-- Parse the address part of a prefix: an IPv6 literal, or exactly six groups. -/
def parsePrefixAddress (addr : Str) : Option (BitVec 128) :=
  match parseIpv6 addr with
  | some v6 => some v6
  | none =>
    if (addr.splitOn ':').length = 6 ∧ ¬"::".toList <:+: addr then
      parseIpv6 (addr ++ ":0:0".toList)
    else none

/-- `Nat64Prefix::from_str`. -/
def Nat64Prefix.parse (s : Str) : Option Nat64Prefix :=
  let trimmed := trim s
  match splitOnce '/' trimmed with
  | none => (parsePrefixAddress trimmed).map Nat64Prefix.fromIpv6
  | some (addr, len) =>
    if parseUnsigned (2 ^ 8) len = some 96 then
      (parsePrefixAddress addr).map Nat64Prefix.fromIpv6
    else none

example : (Nat64Prefix.parse "64:ff9b::/96".toList).map Nat64Prefix.bits =
    some 0x0064ff9b000000000000000000000000#128 := by decide +kernel

end SniGate
