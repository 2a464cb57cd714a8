import SniGate.Net.Parse
import Mathlib.Data.List.TakeWhile

/-!
# What a reader looks at

A reader gives what it read of a text and the rest. It *stops* at a character when it never goes
beyond one: what comes from there on changes neither whether nor what it reads, and is left over.
Readers that stop at a character compose to readers that do, so a field can be read out of the text
it stands in, and a text that is read to its end does not hold the character.

## Design choices

Readers are functions on texts and are not wrapped in a type of their own; that one stops is a
property of the function, with a rule for each way in which the parsers of `Net.Parse` are put
together. Nothing here is about addresses.
-/

namespace SniGate

variable {α β : Type}

/-! ## Stopping -/

/-- What stands from an occurrence of `c` on is not looked at, and left over. -/
def Stops (c : Char) (read : Str → Option (α × Str)) : Prop :=
  ∀ t r, read (t ++ c :: r) = (read t).map fun p ↦ (p.1, p.2 ++ c :: r)

section Readers

variable {c : Char} {read : Str → Option (α × Str)}

theorem Stops.notMem (h : Stops c read) {t : Str} {a : α} (ht : read t = some (a, [])) :
    c ∉ t := by
  intro hc
  obtain ⟨x, r, rfl⟩ := List.append_of_mem hc
  rw [h x r] at ht
  obtain ⟨p, -, hp⟩ := Option.map_eq_some_iff.mp ht
  exact absurd (Prod.mk.inj hp).2 (List.append_ne_nil_of_right_ne_nil _ (List.cons_ne_nil c r))

theorem Stops.bind {next : α → Str → Option (β × Str)} (h : Stops c read)
    (hnext : ∀ a, Stops c (next a)) : Stops c fun s ↦ (read s).bind fun p ↦ next p.1 p.2 := by
  intro t r
  dsimp only
  rw [h t r]
  cases read t with
  | none => rfl
  | some p => exact hnext p.1 p.2 r

theorem Stops.map {f : α → β} (h : Stops c read) :
    Stops c fun s ↦ (read s).map fun p ↦ (f p.1, p.2) := by
  intro t r
  dsimp only
  rw [h t r, Option.map_map, Option.map_map]
  rfl

theorem stripStart_append_cons {start : Str} (h : c ∉ start) (t r : Str) :
    stripStart start (t ++ c :: r) = (stripStart start t).map (· ++ c :: r) := by
  induction start generalizing t with
  | nil => rfl
  | cons d start ih =>
    have hd : d ≠ c := fun heq ↦ h (heq ▸ List.mem_cons_self)
    have hstart : c ∉ start := fun hmem ↦ h (List.mem_cons_of_mem d hmem)
    cases t with
    | nil => simp [stripStart, List.isPrefixOf?, hd]
    | cons x t =>
      by_cases hx : d = x
      · subst hx
        simpa [stripStart, List.isPrefixOf?] using ih hstart t
      · simp [stripStart, List.isPrefixOf?, hx]

theorem takeWhile_append_cons {p : Char → Bool} (hc : p c = false) (t r : Str) :
    (t ++ c :: r).takeWhile p = t.takeWhile p := by
  induction t with
  | nil => simp [hc]
  | cons x t ih =>
    rw [List.cons_append, List.takeWhile_cons, List.takeWhile_cons, ih]

end Readers

/-! ## Numbers and addresses -/

section Numbers

variable {c : Char} {radix maxDigits bound : ℕ} {zeros : Bool}

theorem stops_readNumber (hc : toDigit radix c = none) :
    Stops c (readNumber radix maxDigits zeros bound) := by
  intro t r
  -- `c` is no digit, so the run of digits ends no later than `t`
  have hdigits := takeWhile_append_cons (p := fun d ↦ (toDigit radix d).isSome)
    (by rw [hc]; rfl) t r
  have hlen : (t.takeWhile fun d ↦ (toDigit radix d).isSome).length ≤ t.length :=
    (List.takeWhile_prefix _).length_le
  unfold readNumber
  dsimp only
  rw [hdigits]
  split_ifs
  · rfl
  · rw [List.drop_append_of_le_length hlen]
    rfl

theorem Stops.readSeparator {sep : Char} {index : ℕ} {read : Str → Option (α × Str)}
    (hsep : sep ≠ c) (h : Stops c read) : Stops c (readSeparator sep index read) := by
  intro t r
  unfold SniGate.readSeparator
  split_ifs
  · exact h t r
  · rw [stripStart_append_cons (by simpa using hsep.symm), Option.bind_map, Option.map_bind]
    exact Option.bind_congr fun rest _ ↦ h rest r

theorem stops_readOctets (hc : toDigit 10 c = none) (hdot : '.' ≠ c) (count index : ℕ) :
    Stops c (readOctets count index) := by
  induction count generalizing index with
  | zero => exact fun _ _ ↦ rfl
  | succ count ih =>
    exact ((stops_readNumber hc).readSeparator hdot).bind fun _ ↦ (ih (index + 1)).map

theorem stops_readIpv4 (hc : toDigit 10 c = none) (hdot : '.' ≠ c) : Stops c readIpv4 :=
  (stops_readOctets hc hdot 4 0).map (f := fun octets : List ℕ ↦
    BitVec.ofNat 32 (octets.foldl (fun n o ↦ n * 256 + o) 0))

end Numbers

/-! ## Groups -/

/-- A character that is no part of an IPv6 address. -/
structure OutsideIpv6 (c : Char) : Prop where
  decimal : toDigit 10 c = none
  hexadecimal : toDigit 16 c = none
  colon : ':' ≠ c
  dot : '.' ≠ c

theorem readGroups_append_cons {c : Char} (hc : OutsideIpv6 c) (limit index : ℕ) (t r : Str) :
    readGroups limit index (t ++ c :: r) =
      ((readGroups limit index t).1, (readGroups limit index t).2.1,
        (readGroups limit index t).2.2 ++ c :: r) := by
  induction limit generalizing index t with
  | zero => rfl
  | succ limit ih =>
    have hv4 : Stops c (readSeparator ':' index readIpv4) :=
      (stops_readIpv4 hc.decimal hc.dot).readSeparator hc.colon
    have hgroup : Stops c (readSeparator ':' index (readNumber 16 4 true 65536)) :=
      (stops_readNumber hc.hexadecimal).readSeparator hc.colon
    have hembedded : (if limit = 0 then none else readSeparator ':' index readIpv4 (t ++ c :: r)) =
        (if limit = 0 then none else readSeparator ':' index readIpv4 t).map
          fun p ↦ (p.1, p.2 ++ c :: r) := by
      split_ifs
      · rfl
      · exact hv4 t r
    unfold readGroups
    dsimp only
    rw [hembedded, hgroup t r]
    cases (if limit = 0 then none else readSeparator ':' index readIpv4 t) with
    | some p => rfl
    | none =>
      cases readSeparator ':' index (readNumber 16 4 true 65536) t with
      | none => rfl
      | some p =>
        dsimp only [Option.map_none, Option.map_some]
        rw [ih]

/-! ## What is left over -/

/-- What a reader leaves over is an end of the text. -/
def LeavesEnd (read : Str → Option (α × Str)) : Prop :=
  ∀ s a rest, read s = some (a, rest) → rest <:+ s

section Ends

variable {read : Str → Option (α × Str)}

theorem LeavesEnd.bind {next : α → Str → Option (β × Str)} (h : LeavesEnd read)
    (hnext : ∀ a, LeavesEnd (next a)) :
    LeavesEnd fun s ↦ (read s).bind fun p ↦ next p.1 p.2 := by
  intro s b rest hs
  obtain ⟨p, hp, hrest⟩ := Option.bind_eq_some_iff.mp hs
  exact (hnext p.1 p.2 b rest hrest).trans (h s p.1 p.2 hp)

theorem LeavesEnd.map {f : α → β} (h : LeavesEnd read) :
    LeavesEnd fun s ↦ (read s).map fun p ↦ (f p.1, p.2) := by
  intro s b rest hs
  obtain ⟨p, hp, hrest⟩ := Option.map_eq_some_iff.mp hs
  obtain ⟨-, rfl⟩ := Prod.mk.inj hrest
  exact h s p.1 p.2 hp

theorem leavesEnd_readNumber (radix maxDigits bound : ℕ) (zeros : Bool) :
    LeavesEnd (readNumber radix maxDigits zeros bound) := by
  intro s n rest h
  unfold readNumber at h
  dsimp only at h
  split_ifs at h
  obtain ⟨-, rfl⟩ := Prod.mk.inj (Option.some.inj h)
  exact List.drop_suffix _ s

theorem LeavesEnd.of_readSeparator {sep : Char} {index : ℕ} {s rest : Str} {a : α}
    (h : LeavesEnd read) (hs : readSeparator sep index read s = some (a, rest)) :
    rest <:+ s ∧ rest.count sep + (if index = 0 then 0 else 1) ≤ s.count sep := by
  unfold readSeparator at hs
  split_ifs at hs with hindex
  · have hend := h s a rest hs
    rw [if_pos hindex]
    exact ⟨hend, hend.sublist.count_le sep⟩
  · obtain ⟨tail, htail, hread⟩ := Option.bind_eq_some_iff.mp hs
    obtain rfl := stripStart_eq_some.mp htail
    have hend := h tail a rest hread
    have hcount := hend.sublist.count_le sep
    rw [if_neg hindex, List.singleton_append, List.count_cons_self]
    exact ⟨hend.trans (List.suffix_cons sep tail), by omega⟩

theorem LeavesEnd.readSeparator {sep : Char} {index : ℕ} (h : LeavesEnd read) :
    LeavesEnd (readSeparator sep index read) := fun _ _ _ hs ↦ (h.of_readSeparator hs).1

theorem leavesEnd_readOctets (count index : ℕ) : LeavesEnd (readOctets count index) := by
  induction count generalizing index with
  | zero =>
    intro s octets rest h
    obtain ⟨-, rfl⟩ := Prod.mk.inj (Option.some.inj h)
    exact List.suffix_refl _
  | succ count ih =>
    exact (leavesEnd_readNumber 10 3 256 false).readSeparator.bind fun _ ↦ (ih (index + 1)).map

theorem leavesEnd_readIpv4 : LeavesEnd readIpv4 :=
  (leavesEnd_readOctets 4 0).map (f := fun octets : List ℕ ↦
    BitVec.ofNat 32 (octets.foldl (fun n o ↦ n * 256 + o) 0))

end Ends

/-- Each group after the first takes a colon with it; an embedded IPv4 address counts as two
groups. -/
theorem count_readGroups {limit index : ℕ} {s rest : Str} {groups : List ℕ} {ipv4 : Bool}
    (h : readGroups limit index s = (groups, ipv4, rest)) :
    rest <:+ s ∧ groups.length + rest.count ':' ≤
      s.count ':' + (if ipv4 then 1 else 0) + (if index = 0 then 1 else 0) := by
  induction limit generalizing index s groups ipv4 rest with
  | zero =>
    obtain ⟨rfl, rfl, rfl⟩ : [] = groups ∧ false = ipv4 ∧ s = rest := by simpa [readGroups] using h
    exact ⟨List.suffix_refl s, by simp⟩
  | succ limit ih =>
    unfold readGroups at h
    dsimp only at h
    cases hv4 : (if limit = 0 then none else readSeparator ':' index readIpv4 s) with
    | some p =>
      -- an embedded address ends the reading, and its two groups cost one colon
      rw [hv4] at h
      obtain ⟨rfl, rfl, rfl⟩ :
          [p.1.toNat / 65536, p.1.toNat % 65536] = groups ∧ true = ipv4 ∧ p.2 = rest := by
        simpa using h
      have hread : readSeparator ':' index readIpv4 s = some (p.1, p.2) := by
        split_ifs at hv4
        exact hv4
      obtain ⟨hend, hcount⟩ := leavesEnd_readIpv4.of_readSeparator hread
      refine ⟨hend, ?_⟩
      rw [List.length_cons, List.length_singleton, if_pos rfl]
      split_ifs at hcount ⊢ <;> omega
    | none =>
      rw [hv4] at h
      cases hgroup : readSeparator ':' index (readNumber 16 4 true 65536) s with
      | none =>
        rw [hgroup] at h
        obtain ⟨rfl, rfl, rfl⟩ : [] = groups ∧ false = ipv4 ∧ s = rest := by simpa using h
        exact ⟨List.suffix_refl s, by simp⟩
      | some p =>
        rw [hgroup] at h
        obtain ⟨hend, hcount⟩ := (leavesEnd_readNumber 16 4 65536 true).of_readSeparator hgroup
        rcases hmore : readGroups limit (index + 1) p.2 with ⟨groups', ipv4', rest'⟩
        dsimp only at h
        rw [hmore] at h
        obtain ⟨rfl, rfl, rfl⟩ : p.1 :: groups' = groups ∧ ipv4' = ipv4 ∧ rest' = rest := by
          simpa using h
        obtain ⟨hrest, hmany⟩ := ih hmore
        refine ⟨hrest.trans hend, ?_⟩
        rw [if_neg (Nat.succ_ne_zero index)] at hmany
        rw [List.length_cons]
        by_cases hindex : index = 0
        · rw [if_pos hindex] at hcount ⊢
          omega
        · rw [if_neg hindex] at hcount ⊢
          omega

theorem two_le_count_of_parseIpv6 {s : Str} {ip : BitVec 128} (h : parseIpv6 s = some ip) :
    2 ≤ s.count ':' := by
  rcases hgroups : readGroups 8 0 s with ⟨groups, ipv4, rest⟩
  obtain ⟨hend, hcount⟩ := count_readGroups hgroups
  unfold parseIpv6 at h
  rw [hgroups] at h
  dsimp only at h
  -- either all eight groups are written out, or there is a `::`
  split_ifs at h with hlen hrest hv4
  · rw [hlen, if_pos rfl] at hcount
    split_ifs at hcount <;> omega
  · cases htail : stripStart "::".toList rest with
    | none =>
      rw [htail] at h
      exact absurd h nofun
    | some tail =>
      have hle := hend.sublist.count_le ':'
      rw [← stripStart_eq_some.mp htail, List.count_append] at hle
      have htwo : "::".toList.count ':' = 2 := by decide
      omega

end SniGate
