import SniGate.Net.IpAddr

/-!
# Networks and the NAT64 projection

A network is an address and a prefix length; its host bits are the rest. Addresses in it are
counted from its base, and counting stays inside it, which is all that sampling relies on.
-/

namespace SniGate

instance neZeroPrefixLenV4 : NeZero 33 := ⟨by decide⟩

instance neZeroPrefixLenV6 : NeZero 129 := ⟨by decide⟩

/-- `ipnet::IpNet`: an address with a valid prefix length. -/
inductive IpNet
  | v4 (addr : BitVec 32) (prefixLen : Fin 33)
  | v6 (addr : BitVec 128) (prefixLen : Fin 129)
deriving DecidableEq, Repr

namespace IpNet

/-- `max_prefix_len() - prefix_len()`. -/
def hostBits : IpNet → ℕ
  | v4 _ len => 32 - len
  | v6 _ len => 128 - len

/-- The network part of an address: its bits with the low `h` cleared. -/
def clearLow (h n : ℕ) : ℕ := n / 2 ^ h * 2 ^ h

/-- `IpNet::contains`: the address has the family and the network part of the network. -/
def contains : IpNet → IpAddr → Bool
  | v4 addr len, .v4 a => clearLow (32 - len) a.toNat = clearLow (32 - len) addr.toNat
  | v6 addr len, .v6 a => clearLow (128 - len) a.toNat = clearLow (128 - len) addr.toNat
  | _, _ => false

/-- The addresses from `start`, `count` of them. -/
def addrRange (w start count : ℕ) : List (BitVec w) :=
  (List.range count).map fun k ↦ BitVec.ofNat w (start + k)

/-- `IpNet::hosts`, of which at most `limit` are asked for: an IPv4 network shorter than `/31`
leaves out its first and its last address. -/
def hosts (limit : ℕ) : IpNet → List IpAddr
  | v4 addr len =>
    let h := 32 - len.val
    let start := clearLow h addr.toNat
    if len.val < 31 then
      (addrRange 32 (start + 1) (min (2 ^ h - 2) limit)).map .v4
    else (addrRange 32 start (min (2 ^ h) limit)).map .v4
  | v6 addr len =>
    let h := 128 - len.val
    (addrRange 128 (clearLow h addr.toNat) (min (2 ^ h) limit)).map .v6

end IpNet

/-- Number of addresses in a network, saturating for very large IPv6 prefixes. -/
def networkSize (net : IpNet) : ℕ :=
  if 128 ≤ net.hostBits then 2 ^ 128 - 1 else 2 ^ net.hostBits

/-- The address at `offset` within `net`. -/
def offsetInto (net : IpNet) (offset : ℕ) : IpAddr :=
  match net with
  | .v4 addr len =>
    .v4 (BitVec.ofNat 32 (IpNet.clearLow (32 - len) addr.toNat) + BitVec.ofNat 32 offset)
  | .v6 addr len =>
    .v6 (BitVec.ofNat 128 (IpNet.clearLow (128 - len) addr.toNat) + BitVec.ofNat 128 offset)

theorem networkSize_pos (net : IpNet) : 0 < networkSize net := by
  rw [networkSize]
  split_ifs
  · decide
  · exact Nat.two_pow_pos _

/-- Counting from the base stays in the network, with no carry out of the host bits. -/
private theorem clearLow_add {h w n offset : ℕ} (hw : h ≤ w) (hn : n < 2 ^ w)
    (ho : offset < 2 ^ h) :
    IpNet.clearLow h (BitVec.ofNat w (IpNet.clearLow h n) + BitVec.ofNat w offset).toNat =
      IpNet.clearLow h n := by
  have hpos : 0 < 2 ^ h := Nat.two_pow_pos h
  have hpow : 2 ^ w = 2 ^ (w - h) * 2 ^ h := by rw [← pow_add, Nat.sub_add_cancel hw]
  have hq : n / 2 ^ h < 2 ^ (w - h) := by
    rw [Nat.div_lt_iff_lt_mul hpos, ← hpow]
    exact hn
  have hlt : n / 2 ^ h * 2 ^ h + offset < 2 ^ w := by
    calc n / 2 ^ h * 2 ^ h + offset < n / 2 ^ h * 2 ^ h + 2 ^ h := by omega
      _ = (n / 2 ^ h + 1) * 2 ^ h := by ring
      _ ≤ 2 ^ (w - h) * 2 ^ h := Nat.mul_le_mul_right _ hq
      _ = 2 ^ w := hpow.symm
  have hnat : (BitVec.ofNat w (IpNet.clearLow h n) + BitVec.ofNat w offset).toNat =
      n / 2 ^ h * 2 ^ h + offset := by
    rw [← BitVec.ofNat_add, BitVec.toNat_ofNat, IpNet.clearLow, Nat.mod_eq_of_lt hlt]
  rw [hnat, IpNet.clearLow, IpNet.clearLow, Nat.add_comm, Nat.add_mul_div_right _ _ hpos,
    Nat.div_eq_of_lt ho, Nat.zero_add]

/-- **Sampling stays in the network.** -/
theorem contains_offsetInto {net : IpNet} {offset : ℕ} (h : offset < networkSize net) :
    net.contains (offsetInto net offset) := by
  have hsize : networkSize net ≤ 2 ^ net.hostBits := by
    rw [networkSize]
    split_ifs with hbig
    · exact le_trans (Nat.sub_le _ _) (Nat.pow_le_pow_right (by omega) hbig)
    · exact le_rfl
  have ho := lt_of_lt_of_le h hsize
  cases net with
  | v4 addr len =>
    rw [offsetInto, IpNet.contains, decide_eq_true_iff]
    exact clearLow_add (Nat.sub_le _ _) addr.isLt ho
  | v6 addr len =>
    rw [offsetInto, IpNet.contains, decide_eq_true_iff]
    exact clearLow_add (Nat.sub_le _ _) addr.isLt ho

theorem hostBits_le_width (net : IpNet) : net.hostBits ≤ 128 := by
  cases net with
  | v4 addr len => exact (Nat.sub_le 32 _).trans (by omega)
  | v6 addr len => exact Nat.sub_le 128 _

private theorem ofNat_add_inj {w n o o' : ℕ} (ho : o < 2 ^ w) (ho' : o' < 2 ^ w)
    (h : BitVec.ofNat w n + BitVec.ofNat w o = BitVec.ofNat w n + BitVec.ofNat w o') : o = o' := by
  have heq := congrArg BitVec.toNat ((BitVec.add_right_inj _).mp h)
  rwa [BitVec.toNat_ofNat, BitVec.toNat_ofNat, Nat.mod_eq_of_lt ho, Nat.mod_eq_of_lt ho'] at heq

theorem offsetInto_inj {net : IpNet} {o o' : ℕ} (ho : o < 2 ^ net.hostBits)
    (ho' : o' < 2 ^ net.hostBits) (h : offsetInto net o = offsetInto net o') : o = o' := by
  cases net with
  | v4 addr len =>
    have hpow : 2 ^ (32 - len.val) ≤ 2 ^ 32 := Nat.pow_le_pow_right (by omega) (Nat.sub_le _ _)
    exact ofNat_add_inj (ho.trans_le hpow) (ho'.trans_le hpow) (IpAddr.v4.inj h)
  | v6 addr len =>
    have hpow : 2 ^ (128 - len.val) ≤ 2 ^ 128 := Nat.pow_le_pow_right (by omega) (Nat.sub_le _ _)
    exact ofNat_add_inj (ho.trans_le hpow) (ho'.trans_le hpow) (IpAddr.v6.inj h)

private theorem ofNat_clearLow_add {w h : ℕ} {a addr : BitVec w}
    (ha : IpNet.clearLow h a.toNat = IpNet.clearLow h addr.toNat) :
    BitVec.ofNat w (IpNet.clearLow h addr.toNat) + BitVec.ofNat w (a.toNat % 2 ^ h) = a := by
  rw [← ha, ← BitVec.ofNat_add, IpNet.clearLow, Nat.div_add_mod', BitVec.ofNat_toNat,
    BitVec.setWidth_eq]

theorem exists_offsetInto {net : IpNet} {a : IpAddr} (h : net.contains a) :
    ∃ o < 2 ^ net.hostBits, offsetInto net o = a := by
  cases net with
  | v4 addr len =>
    cases a with
    | v4 a =>
      rw [IpNet.contains, decide_eq_true_iff] at h
      exact ⟨_, Nat.mod_lt _ (Nat.two_pow_pos _), congrArg IpAddr.v4 (ofNat_clearLow_add h)⟩
    | v6 a => exact absurd h (by simp [IpNet.contains])
  | v6 addr len =>
    cases a with
    | v4 a => exact absurd h (by simp [IpNet.contains])
    | v6 a =>
      rw [IpNet.contains, decide_eq_true_iff] at h
      exact ⟨_, Nat.mod_lt _ (Nat.two_pow_pos _), congrArg IpAddr.v6 (ofNat_clearLow_add h)⟩

/-! ## NAT64 -/

/-- A parsed NAT64 `/96` prefix: 128 bits with the low 32 clear. -/
structure Nat64Prefix where
  bits : BitVec 128
  low_clear : bits.toNat % 2 ^ 32 = 0
deriving DecidableEq

/-- Build a prefix from an address, keeping only the top 96 bits. -/
def Nat64Prefix.fromIpv6 (addr : BitVec 128) : Nat64Prefix where
  bits := BitVec.ofNat 128 (IpNet.clearLow 32 addr.toNat)
  low_clear := by
    have hlt : IpNet.clearLow 32 addr.toNat < 2 ^ 128 :=
      lt_of_le_of_lt (Nat.div_mul_le_self _ _) addr.isLt
    rw [BitVec.toNat_ofNat, Nat.mod_eq_of_lt hlt, IpNet.clearLow, Nat.mul_mod_left]

/-- Synthesize an IPv6 address by embedding `ipv4` into the low 32 bits of the prefix. -/
def Nat64Prefix.synthesize (p : Nat64Prefix) (ipv4 : BitVec 32) : BitVec 128 :=
  p.bits ||| ipv4.setWidth 128

end SniGate
