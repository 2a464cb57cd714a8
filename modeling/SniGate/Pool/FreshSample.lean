import SniGate.Pool.Targets
import Mathlib.Data.Finset.Card

/-!
# Drawing a fresh sample

`draw_fresh_sample` tries consecutive addresses of a network from a random one on, one more than
there are reserved ones. All of these cannot be reserved, as long as they are different addresses;
and they are, because the size of a network divides the range in which offsets are counted
(`offsetAt_inj`).

For `::/0` this fails. Its size saturates at `2 ^ 128 - 1`, so the last address is never tried, and
a count that passes it comes to the first address twice (`offsetAt_of_whole`). Then one attempt is
lost, and a free address can be missed (`drawFreshSample_complete_iff`).
-/

namespace SniGate

/-- How many addresses are tried. -/
def freshAttempts (net : IpNet) (reserved : Finset IpAddr) : ℕ :=
  min (reserved.card + 1) (networkSize net)

/-- The offset tried in one step. -/
def offsetAt (net : IpNet) (start step : ℕ) : ℕ := (start + step) % 2 ^ 128 % networkSize net

/-- A draw is complete when it gives an unreserved address of the network as long as there is one,
and gives up only when there is none. -/
def DrawsFresh (net : IpNet) (reserved : Finset IpAddr) (drawn : Option IpAddr) : Prop :=
  ((∃ a, net.contains a ∧ a ∉ reserved) → ∃ a, drawn = some a ∧ net.contains a ∧ a ∉ reserved) ∧
    (drawn = none → ∀ a, net.contains a → a ∈ reserved)

/-- A network of all IPv6 addresses, of which one is free, but none that is tried: only the last one
is, or the count passes it, and all from `start` on and from the first on are reserved. -/
def Misses (net : IpNet) (reserved : Finset IpAddr) (start : ℕ) : Prop :=
  net.hostBits = 128 ∧ (∃ a, net.contains a ∧ a ∉ reserved) ∧
    ((∀ o < 2 ^ 128 - 1, offsetInto net o ∈ reserved) ∨
      2 ^ 128 < start + freshAttempts net reserved ∧
        ∀ o < 2 ^ 128 - 1, start ≤ o ∨ o + 2 ^ 128 < start + freshAttempts net reserved →
          offsetInto net o ∈ reserved)

section Fresh

variable {net : IpNet} {reserved : Finset IpAddr} {rand start i j : ℕ}

theorem drawFreshSample_eq_none : drawFreshSample net reserved rand = none ↔
    ∀ step < freshAttempts net reserved,
      offsetInto net (offsetAt net (rand % networkSize net) step) ∈ reserved := by
  simp only [drawFreshSample, List.find?_eq_none, List.forall_mem_map, List.mem_range,
    decide_eq_true_eq, not_not]
  rfl

theorem networkSize_eq (h : net.hostBits < 128) : networkSize net = 2 ^ net.hostBits :=
  if_neg (Nat.not_le.mpr h)

theorem networkSize_of_whole (h : net.hostBits = 128) : networkSize net = 2 ^ 128 - 1 :=
  if_pos h.ge

theorem networkSize_le (net : IpNet) : networkSize net ≤ 2 ^ net.hostBits := by
  rcases (hostBits_le_width net).lt_or_eq with h | h
  · exact (networkSize_eq h).le
  · rw [networkSize_of_whole h, h]
    exact Nat.sub_le _ _

theorem offsetAt_lt (net : IpNet) (start step : ℕ) : offsetAt net start step < networkSize net :=
  Nat.mod_lt _ (networkSize_pos net)

/-- No more offsets are tried in vain than there are reserved addresses. -/
theorem attempts_le_card {n : ℕ}
    (hinj : ∀ i < n, ∀ j < n, offsetAt net start i = offsetAt net start j → i = j)
    (hres : ∀ step < n, offsetInto net (offsetAt net start step) ∈ reserved) :
    n ≤ reserved.card := by
  have hbits : ∀ step, offsetAt net start step < 2 ^ net.hostBits := fun step ↦
    (offsetAt_lt net start step).trans_le (networkSize_le net)
  rw [← Finset.card_range n]
  refine Finset.card_le_card_of_injOn (fun step ↦ offsetInto net (offsetAt net start step))
    (fun step hstep ↦ hres step (Finset.mem_range.mp hstep)) ?_
  intro i hi j hj heq
  exact hinj i (Finset.mem_range.mp hi) j (Finset.mem_range.mp hj)
    (offsetInto_inj (hbits i) (hbits j) heq)

/-! ## Networks whose size is exact -/

theorem offsetAt_eq (h : net.hostBits < 128) (start step : ℕ) :
    offsetAt net start step = (start + step) % 2 ^ net.hostBits := by
  rw [offsetAt, networkSize_eq h, Nat.mod_mod_of_dvd _ (Nat.pow_dvd_pow 2 h.le)]

theorem offsetAt_inj (h : net.hostBits < 128) (hi : i < networkSize net)
    (hj : j < networkSize net) (heq : offsetAt net start i = offsetAt net start j) : i = j := by
  rw [offsetAt_eq h, offsetAt_eq h] at heq
  rw [networkSize_eq h] at hi hj
  exact (Nat.ModEq.add_left_cancel' start heq).eq_of_lt_of_lt hi hj

theorem forall_reserved_of_none (h : net.hostBits < 128)
    (hnone : drawFreshSample net reserved rand = none) {a : IpAddr} (ha : net.contains a) :
    a ∈ reserved := by
  rw [drawFreshSample_eq_none] at hnone
  have hle : freshAttempts net reserved ≤ reserved.card :=
    attempts_le_card (fun i hi j hj ↦ offsetAt_inj h (hi.trans_le (min_le_right _ _))
      (hj.trans_le (min_le_right _ _))) hnone
  have hall : freshAttempts net reserved = networkSize net := by
    rw [freshAttempts] at hle ⊢
    omega
  obtain ⟨o, ho, rfl⟩ := exists_offsetInto ha
  generalize rand % networkSize net = start at hnone
  -- some step of a full round comes to `o`
  have hpos : 0 < 2 ^ net.hostBits := Nat.two_pow_pos _
  have hstep := hnone ((o + 2 ^ net.hostBits - start % 2 ^ net.hostBits) % 2 ^ net.hostBits)
    (by rw [hall, networkSize_eq h]; exact Nat.mod_lt _ hpos)
  rw [offsetAt_eq h] at hstep
  have hround : (start + (o + 2 ^ net.hostBits - start % 2 ^ net.hostBits) % 2 ^ net.hostBits) %
      2 ^ net.hostBits = o := by
    have hlt := Nat.mod_lt start hpos
    rw [Nat.add_mod_mod, ← Nat.mod_add_mod, show start % 2 ^ net.hostBits +
      (o + 2 ^ net.hostBits - start % 2 ^ net.hostBits) = o + 2 ^ net.hostBits by omega,
      Nat.add_mod_right, Nat.mod_eq_of_lt ho]
  rwa [hround] at hstep

/-! ## All of IPv6 -/

theorem offsetAt_of_whole (h : net.hostBits = 128) {step : ℕ}
    (hlt : start + step < 2 * (2 ^ 128 - 1)) : offsetAt net start step =
      if start + step < 2 ^ 128 - 1 then start + step else start + step - 2 ^ 128 := by
  rw [offsetAt, networkSize_of_whole h]
  split_ifs with hfirst
  · rw [Nat.mod_eq_of_lt (show start + step < 2 ^ 128 by omega), Nat.mod_eq_of_lt hfirst]
  · rcases eq_or_ne (start + step) (2 ^ 128 - 1) with heq | hne
    · rw [heq]
      rfl
    · have hover : (start + step) % 2 ^ 128 = start + step - 2 ^ 128 := by
        rw [Nat.mod_eq_sub_mod (by omega), Nat.mod_eq_of_lt (by omega)]
      rw [hover, Nat.mod_eq_of_lt (by omega)]

theorem offsetInto_mem_of_tried (step : ℕ) {o : ℕ} (h : net.hostBits = 128)
    (hnone : ∀ step < freshAttempts net reserved,
      offsetInto net (offsetAt net start step) ∈ reserved)
    (hstart : start < 2 ^ 128 - 1) (ho : o < 2 ^ 128 - 1)
    (hstep : step < freshAttempts net reserved)
    (hcount : start + step = o ∨ start + step = o + 2 ^ 128 ∨
      o = 0 ∧ start + step = 2 ^ 128 - 1) : offsetInto net o ∈ reserved := by
  have hattempts : freshAttempts net reserved ≤ networkSize net := min_le_right _ _
  rw [networkSize_of_whole h] at hattempts
  have hoff : offsetAt net start step = o := by
    rw [offsetAt_of_whole h (by omega)]
    split_ifs <;> omega
  rw [← hoff]
  exact hnone step hstep

theorem freshAttempts_of_no_wrap (h : net.hostBits = 128)
    (hnone : ∀ step < freshAttempts net reserved,
      offsetInto net (offsetAt net start step) ∈ reserved)
    (hstart : start < 2 ^ 128 - 1) (hwrap : ¬2 ^ 128 < start + freshAttempts net reserved) :
    freshAttempts net reserved = 2 ^ 128 - 1 := by
  have hattempts : freshAttempts net reserved ≤ networkSize net := min_le_right _ _
  rw [networkSize_of_whole h] at hattempts
  have hle : freshAttempts net reserved ≤ reserved.card := by
    refine attempts_le_card (fun i hi j hj heq ↦ ?_) hnone
    rw [offsetAt_of_whole h (by omega), offsetAt_of_whole h (by omega)] at heq
    split_ifs at heq <;> omega
  rw [freshAttempts, networkSize_of_whole h] at hle ⊢
  omega

theorem misses_of_none (hstart : start < networkSize net)
    (hnone : ∀ step < freshAttempts net reserved,
      offsetInto net (offsetAt net start step) ∈ reserved)
    (hwhole : net.hostBits = 128) (hfree : ∃ a, net.contains a ∧ a ∉ reserved) :
    Misses net reserved start := by
  refine ⟨hwhole, hfree, ?_⟩
  rw [networkSize_of_whole hwhole] at hstart
  by_cases hwrap : 2 ^ 128 < start + freshAttempts net reserved
  · refine .inr ⟨hwrap, fun o ho hreached ↦ ?_⟩
    rcases hreached with hle | hlt
    · exact offsetInto_mem_of_tried (o - start) hwhole hnone hstart ho (by omega) (by omega)
    · exact offsetInto_mem_of_tried (o + 2 ^ 128 - start) hwhole hnone hstart ho (by omega)
        (by omega)
  · have hall := freshAttempts_of_no_wrap hwhole hnone hstart hwrap
    refine .inl fun o ho ↦ ?_
    rcases le_or_gt start o with hso | hso
    · exact offsetInto_mem_of_tried (o - start) hwhole hnone hstart ho (by omega) (by omega)
    · exact offsetInto_mem_of_tried (2 ^ 128 - 1 - start) hwhole hnone hstart ho (by omega)
        (by omega)

theorem none_of_misses (hstart : start < networkSize net)
    (h : Misses net reserved start) {step : ℕ} (hstep : step < freshAttempts net reserved) :
    offsetInto net (offsetAt net start step) ∈ reserved := by
  obtain ⟨hwhole, -, hres⟩ := h
  have hattempts : freshAttempts net reserved ≤ networkSize net := min_le_right _ _
  have hoff := offsetAt_lt net start step
  rw [networkSize_of_whole hwhole] at hstart hattempts hoff
  rcases hres with hall | ⟨hwrap, hres⟩
  · exact hall _ hoff
  · refine hres _ hoff ?_
    rw [offsetAt_of_whole hwhole (by omega)]
    split_ifs <;> omega

/-- **What is missed.** -/
theorem misses_iff : Misses net reserved (rand % networkSize net) ↔
    drawFreshSample net reserved rand = none ∧ ∃ a, net.contains a ∧ a ∉ reserved := by
  have hstart : rand % networkSize net < networkSize net := Nat.mod_lt _ (networkSize_pos net)
  constructor
  · intro h
    exact ⟨drawFreshSample_eq_none.mpr fun step ↦ none_of_misses hstart h, h.2.1⟩
  · rintro ⟨hnone, hfree⟩
    refine misses_of_none hstart (drawFreshSample_eq_none.mp hnone) ?_ hfree
    by_contra hne
    obtain ⟨a, ha, hnotin⟩ := hfree
    have hbits := lt_of_le_of_ne (hostBits_le_width net) hne
    exact hnotin (forall_reserved_of_none hbits hnone ha)

/-- **When a draw is complete.** For every network, set of reserved addresses and random start,
unless it is one of those that miss. -/
theorem drawFreshSample_complete_iff (net : IpNet) (reserved : Finset IpAddr) (rand : ℕ) :
    DrawsFresh net reserved (drawFreshSample net reserved rand) ↔
      ¬Misses net reserved (rand % networkSize net) := by
  rw [misses_iff, DrawsFresh]
  constructor
  · rintro ⟨hsome, -⟩ ⟨hnone, hfree⟩
    obtain ⟨a, ha, -⟩ := hsome hfree
    rw [hnone] at ha
    exact absurd ha (by simp)
  · intro hmiss
    refine ⟨fun hfree ↦ ?_, fun hnone a ha ↦ by_contra fun hres ↦ hmiss ⟨hnone, a, ha, hres⟩⟩
    cases hdraw : drawFreshSample net reserved rand with
    | none => exact absurd ⟨hdraw, hfree⟩ hmiss
    | some a =>
      obtain ⟨hres, o, ho, rfl⟩ := drawFreshSample_spec hdraw
      exact ⟨_, rfl, contains_offsetInto ho, hres⟩

end Fresh

/-- From `ffff:…:fffe` on, with that and `::` reserved, the three attempts come to `::` twice. -/
theorem not_drawFreshSample_complete :
    ¬∀ (net : IpNet) (reserved : Finset IpAddr) (rand : ℕ),
      DrawsFresh net reserved (drawFreshSample net reserved rand) := by
  intro h
  have hdraw := (h (.v6 0 0) {.v6 (BitVec.ofNat 128 (2 ^ 128 - 2)), .v6 0} (2 ^ 128 - 2)).2
    (by decide +kernel) (.v6 1) (by decide +kernel)
  exact absurd hdraw (by decide +kernel)

end SniGate
