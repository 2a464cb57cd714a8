import SniGate.Dns.Spec
import SniGate.Net.Reading
import SniGate.Text.Sorted

/-!
# Host parts with a port

What can stand before the port in `host:port` is a name, an IPv4 address, or an IPv6 address in
brackets, with or without a scope id. This file says what the standard library's socket address
parser makes of each, followed by a run of digits and possibly by a path.

## Design choices

A host part is a predicate on texts, not a parsed value: the endpoint parsers never take a host
apart, so what is compared with what they store is the text as written. The address that a host part
is (`hostIp`) is defined next to it from the address parsers alone. An address under the default
zone, whose scope id is zero, is that address; under any other it is not, since neither
`IpAddr` nor its text form has a place for a scope id. The socket address parser takes the two for
the same (`socketAddr_parse_of_isHostPart`), which is where a scope id is lost.
-/

namespace SniGate

/-! ## Digits -/

section Digits

variable {c : Char} {p : Str} {bound : ℕ}

/-- A non-empty run of digits. -/
abbrev IsDigits (p : Str) : Prop := p ≠ [] ∧ p.all Char.isDigit

theorem IsDigits.isDigit (h : IsDigits p) (hc : c ∈ p) : c.isDigit := List.all_eq_true.mp h.2 c hc

theorem IsDigits.notMem (h : IsDigits p) (hc : c.isDigit = false) : c ∉ p := fun hmem ↦
  absurd (h.isDigit hmem) (by rw [hc]; exact Bool.false_ne_true)

theorem isDigit_of_toDigit (h : (toDigit 10 c).isSome) : c.isDigit := by
  by_contra hdigit
  rw [toDigit, if_neg hdigit] at h
  split_ifs at h
  · rw [Option.filter_some, if_neg (by simp)] at h
    exact absurd h (by simp)
  · rw [Option.filter_some, if_neg (by simp)] at h
    exact absurd h (by simp)
  · exact absurd h (by simp)

theorem isSome_toDigit (h : c.isDigit) : (toDigit 10 c).isSome := by
  have hle : c.toNat ≤ '9'.toNat := by
    rw [Char.isDigit, Bool.and_eq_true, decide_eq_true_iff, decide_eq_true_iff] at h
    exact h.2
  have hlt : c.toNat - '0'.toNat < 10 := Nat.lt_of_le_of_lt (Nat.sub_le_sub_right hle _) (by decide)
  unfold toDigit
  rw [if_pos h, Option.filter_some, if_pos (decide_eq_true hlt)]
  rfl

/-- A number in digits is what the digits denote, if that is in range. -/
theorem parseUnsigned_of_isDigits (h : IsDigits p) :
    parseUnsigned bound p =
      if digitsValue 10 p < bound then some (digitsValue 10 p) else none := by
  have hplus : stripStart ['+'] p = none := by
    rw [Option.eq_none_iff_forall_ne_some]
    rintro rest hrest
    obtain rfl := stripStart_eq_some.mp hrest
    exact h.notMem (by decide) List.mem_cons_self
  have hall : p.all (fun c ↦ (toDigit 10 c).isSome) = true :=
    List.all_eq_true.mpr fun c hc ↦ isSome_toDigit (h.isDigit hc)
  unfold parseUnsigned
  rw [hplus]
  dsimp only [Option.getD_none]
  rw [hall]
  simp [h.1]

/-- They are read to their end, if the reader may take so many. -/
theorem readNumber_of_isDigits {limit : ℕ} (h : IsDigits p) (hlimit : p.length ≤ limit) :
    readNumber 10 limit true bound p =
      if digitsValue 10 p < bound then some (digitsValue 10 p, []) else none := by
  have hall : p.takeWhile (fun c ↦ (toDigit 10 c).isSome) = p :=
    List.takeWhile_eq_self_iff.mpr fun c hc ↦ isSome_toDigit (h.isDigit hc)
  unfold readNumber
  rw [hall]
  by_cases hlt : digitsValue 10 p < bound
  · simp [h.1, hlt, Nat.not_lt.mpr hlimit]
  · simp [hlt, Nat.le_of_not_lt hlt]

theorem isDigits_of_readNumber {limit n : ℕ} (h : readNumber 10 limit true bound p = some (n, [])) :
    IsDigits p ∧ digitsValue 10 p < bound := by
  unfold readNumber at h
  dsimp only at h
  split_ifs at h with hbad
  push Not at hbad
  have hrest := (Prod.mk.inj (Option.some.inj h)).2
  have htake : p.takeWhile (fun c ↦ (toDigit 10 c).isSome) = p :=
    (List.takeWhile_prefix _).eq_of_length_le (List.drop_eq_nil_iff.mp hrest)
  rw [htake] at hbad
  refine ⟨⟨hbad.1, List.all_eq_true.mpr fun c hc ↦ ?_⟩, hbad.2.2.1⟩
  exact isDigit_of_toDigit (List.takeWhile_eq_self_iff.mp htake c hc)

theorem parseU16_of_isDigits (h : IsDigits p) :
    parseU16 p =
      if digitsValue 10 p < 2 ^ 16 then some (UInt16.ofNat (digitsValue 10 p)) else none := by
  rw [parseU16, parseUnsigned_of_isDigits h]
  split_ifs
  · rfl
  · rfl

end Digits

/-! ## Cutting -/

section Cutting

variable {c : Char} {h p : Str}

theorem rsplitOnce_append (hp : c ∉ p) : rsplitOnce c (h ++ c :: p) = some (h, p) := by
  have hrev : (h ++ c :: p).reverse = p.reverse ++ c :: h.reverse := by simp
  have hall : ∀ d ∈ p.reverse, decide (d ≠ c) = true := fun d hd ↦
    decide_eq_true fun heq ↦ hp (heq ▸ List.mem_reverse.mp hd)
  rw [rsplitOnce, hrev, splitOnce, List.dropWhile_append_of_pos hall,
    List.takeWhile_append_of_pos hall]
  simp

theorem exists_rsplit (hc : c ∈ h) : ∃ x p, h = x ++ c :: p ∧ c ∉ p := by
  obtain ⟨y, r, hrev, hy⟩ := List.eq_append_cons_of_mem (List.mem_reverse.mpr hc)
  refine ⟨r.reverse, y.reverse, ?_, fun hmem ↦ hy (List.mem_reverse.mp hmem)⟩
  rw [← List.reverse_reverse h, hrev]
  simp

theorem cut_authority {authority path : Str} (ha : '/' ∉ authority)
    (hpath : path = [] ∨ path.head? = some '/') :
    (authority ++ path).takeWhile (· ≠ '/') = authority ∧
      (authority ++ path).dropWhile (· ≠ '/') = path := by
  have hall : ∀ d ∈ authority, decide (d ≠ '/') = true := fun d hd ↦
    decide_eq_true fun heq ↦ ha (heq ▸ hd)
  rw [List.takeWhile_append_of_pos hall, List.dropWhile_append_of_pos hall]
  rcases hpath with rfl | hhead
  · simp
  · obtain ⟨rest, rfl⟩ := List.head?_eq_some_iff.mp hhead
    simp

end Cutting

/-! ## Host parts -/

/-- What may follow an IPv6 address: nothing, or a percent sign and a scope id. -/
def IsZone (zone : Str) : Prop := zone = [] ∨ ∃ id, zone = '%' :: id ∧ ∀ c ∈ id, c ∉ "]/".toList

/-- An IPv6 address, with a scope id or without. -/
inductive IsIpv6Literal : Str → Prop
  | mk (text : Str) (ip : BitVec 128) (zone : Str) (parsed : parseIpv6 text = some ip)
      (isZone : IsZone zone) : IsIpv6Literal (text ++ zone)

/-- A name or an IPv4 address, or an IPv6 address in brackets. -/
inductive IsHostPart : Str → Prop
  | name (text : Str) (ne_nil : text ≠ []) (plain : ∀ c ∈ text, c ∉ ":/[".toList) : IsHostPart text
  | ipv6 (text : Str) (literal : IsIpv6Literal text) : IsHostPart ('[' :: (text ++ [']']))

/-- An IPv6 address that may stand under a scope id below the bound. -/
def scopedIpv6 (bound : ℕ) (t : Str) : Option (BitVec 128) :=
  match splitOnce '%' t with
  | none => parseIpv6 t
  | some (text, id) => if IsDigits id ∧ digitsValue 10 id < bound then parseIpv6 text else none

/-- The address that a host part names, whatever the scope id below the bound. -/
def hostIpBelow (bound : ℕ) (host : Str) : Option IpAddr :=
  match parseIpv4 host with
  | some a => some (.v4 a)
  | none =>
    (((stripStart ['['] host).bind (stripEnd [']'])).bind (scopedIpv6 bound)).map .v6

/-- The address that a host part is, if it is one. The scope id of the default zone is zero. -/
def hostIp (host : Str) : Option IpAddr := hostIpBelow 1 host

/-- A host part that is an IPv6 address under another zone than the default one, by number. -/
def NamesZone (host : Str) : Prop :=
  ∃ text ip id, host = '[' :: (text ++ '%' :: id ++ [']']) ∧ parseIpv6 text = some ip ∧
    IsDigits id ∧ 0 < digitsValue 10 id ∧ digitsValue 10 id < 2 ^ 32

section HostParts

variable {host t p path : Str} {ip : BitVec 128} {bound : ℕ}

theorem outside_bracket : OutsideIpv6 ']' := ⟨by decide, by decide, by decide, by decide⟩

theorem outside_slash : OutsideIpv6 '/' := ⟨by decide, by decide, by decide, by decide⟩

theorem outside_percent : OutsideIpv6 '%' := ⟨by decide, by decide, by decide, by decide⟩

theorem stops_readIpv6 {c : Char} (hc : OutsideIpv6 c) : Stops c readIpv6 := by
  intro t r
  unfold readIpv6
  rw [readGroups_append_cons hc]
  rcases readGroups 8 0 t with ⟨head, ipv4, rest⟩
  dsimp only
  split_ifs
  · rfl
  · rfl
  · rw [stripStart_append_cons (by simpa using hc.colon.symm), Option.map_map, Option.map_map]
    refine congrArg₂ Option.map (funext fun tail ↦ ?_) rfl
    dsimp only [Function.comp]
    rw [readGroups_append_cons hc]

theorem readIpv6_of_parse (h : parseIpv6 t = some ip) : readIpv6 t = some (ip, []) := by
  unfold parseIpv6 at h
  unfold readIpv6
  rcases hgroups : readGroups 8 0 t with ⟨head, ipv4, rest⟩
  rw [hgroups] at h
  dsimp only at h ⊢
  by_cases hlen : head.length = 8
  · rw [if_pos hlen] at h ⊢
    split_ifs at h with hrest
    rw [← Option.some.inj h, hrest]
  · rw [if_neg hlen] at h ⊢
    split_ifs at h ⊢ with hipv4
    cases htail : stripStart "::".toList rest with
    | none =>
      rw [htail] at h
      exact absurd h (by simp)
    | some tail =>
      rw [htail] at h
      dsimp only at h
      split_ifs at h with hnil
      rw [Option.map_some, ← Option.some.inj h, hnil]

theorem notMem_of_parseIpv6 {c : Char} (hc : OutsideIpv6 c) (h : parseIpv6 t = some ip) : c ∉ t :=
  (stops_readIpv6 hc).notMem (readIpv6_of_parse h)

theorem stripStart_eq_none_of_notMem {c : Char} {rest : Str} (hc : c ∉ t) :
    stripStart (c :: rest) t = none := by
  rw [Option.eq_none_iff_forall_ne_some]
  rintro more hmore
  obtain rfl := stripStart_eq_some.mp hmore
  exact hc List.mem_cons_self

theorem readIpv4_bracket (t : Str) : readIpv4 ('[' :: t) = none := by
  have hdigit : toDigit 10 '[' = none := by decide
  simp [readIpv4, readOctets, readSeparator, readNumber, hdigit]

theorem hostIpBelow_bracket (t : Str) :
    hostIpBelow bound ('[' :: (t ++ [']'])) = (scopedIpv6 bound t).map .v6 := by
  have hv4 : parseIpv4 ('[' :: (t ++ [']'])) = none := by rw [parseIpv4, readIpv4_bracket]
  have hopen : stripStart ['['] ('[' :: (t ++ [']'])) = some (t ++ [']']) :=
    stripStart_eq_some.mpr rfl
  have hclose : stripEnd [']'] (t ++ [']']) = some t := stripEnd_eq_some.mpr rfl
  rw [hostIpBelow, hv4, hopen, Option.bind_some, hclose, Option.bind_some]

theorem hostIpBelow_of_notMem (hbracket : '[' ∉ host) :
    hostIpBelow bound host = (parseIpv4 host).map .v4 := by
  unfold hostIpBelow
  rw [stripStart_eq_none_of_notMem hbracket]
  cases parseIpv4 host with
  | none => rfl
  | some a => rfl

theorem splitOnce_of_notMem {c : Char} (hc : c ∉ t) : splitOnce c t = none := by
  have hdrop : t.dropWhile (· ≠ c) = [] := List.dropWhile_eq_nil_iff.mpr fun d hd ↦
    decide_eq_true fun heq ↦ hc (heq ▸ hd)
  rw [splitOnce, hdrop]

theorem splitOnce_append_cons {c : Char} (hc : c ∉ t) (rest : Str) :
    splitOnce c (t ++ c :: rest) = some (t, rest) := by
  have hall : ∀ d ∈ t, decide (d ≠ c) = true := fun d hd ↦ decide_eq_true fun heq ↦ hc (heq ▸ hd)
  rw [splitOnce, List.dropWhile_append_of_pos hall, List.takeWhile_append_of_pos hall]
  simp

theorem scopedIpv6_of_parse (h : parseIpv6 t = some ip) : scopedIpv6 bound t = some ip := by
  rw [scopedIpv6, splitOnce_of_notMem (notMem_of_parseIpv6 outside_percent h)]
  exact h

theorem scopedIpv6_of_scope (h : parseIpv6 t = some ip) (id : Str) :
    scopedIpv6 bound (t ++ '%' :: id) =
      if IsDigits id ∧ digitsValue 10 id < bound then some ip else none := by
  rw [scopedIpv6, splitOnce_append_cons (notMem_of_parseIpv6 outside_percent h)]
  dsimp only
  rw [h]

/-- The addresses that host parts are and the ones that are read for them differ in the zones. -/
theorem hostIpBelow_of_not_namesZone (hh : IsHostPart host) (hzone : ¬NamesZone host) :
    hostIpBelow (2 ^ 32) host = hostIp host := by
  cases hh with
  | name text hne hplain =>
    have hbracket : '[' ∉ host := fun hmem ↦ hplain _ hmem (by decide)
    rw [hostIp, hostIpBelow_of_notMem hbracket, hostIpBelow_of_notMem hbracket]
  | ipv6 text literal =>
    obtain ⟨text, ip, zone, parsed, rfl | ⟨id, rfl, -⟩⟩ := literal
    · rw [hostIp, hostIpBelow_bracket, hostIpBelow_bracket, List.append_nil,
        scopedIpv6_of_parse parsed, scopedIpv6_of_parse parsed]
    · rw [hostIp, hostIpBelow_bracket, hostIpBelow_bracket, scopedIpv6_of_scope parsed,
        scopedIpv6_of_scope parsed]
      have hsame : IsDigits id ∧ digitsValue 10 id < 2 ^ 32 ↔ IsDigits id ∧ digitsValue 10 id < 1 :=
        ⟨fun ⟨hid, hlt⟩ ↦ ⟨hid, by
            by_contra hpos
            exact hzone ⟨text, ip, id, rfl, parsed, hid, Nat.le_of_not_lt hpos, hlt⟩⟩,
          fun ⟨hid, hlt⟩ ↦ ⟨hid, hlt.trans (by norm_num)⟩⟩
      rw [if_congr hsame rfl rfl]

/-- Under another zone, an address is read that the host part is not. -/
theorem hostIp_of_namesZone (hzone : NamesZone host) :
    ∃ ip, hostIpBelow (2 ^ 32) host = some ip ∧ hostIp host = none := by
  obtain ⟨text, ip, id, rfl, hparse, hid, hpos, hlt⟩ := hzone
  refine ⟨.v6 ip, ?_, ?_⟩
  · rw [hostIpBelow_bracket, scopedIpv6_of_scope hparse, if_pos ⟨hid, hlt⟩]
    rfl
  · rw [hostIp, hostIpBelow_bracket, scopedIpv6_of_scope hparse, if_neg fun h ↦ by omega]
    rfl

/-! ### With a port -/

theorem readNumberAfter_of_isDigits (hp : IsDigits p) (hpath : path = [] ∨ path.head? = some '/') :
    readNumberAfter ':' bound (':' :: (p ++ path)) =
      if digitsValue 10 p < bound then some (digitsValue 10 p, path) else none := by
  have hcolon : stripStart [':'] (':' :: (p ++ path)) = some (p ++ path) :=
    stripStart_eq_some.mpr rfl
  rw [readNumberAfter, hcolon, Option.bind_some]
  rcases hpath with rfl | hhead
  · rw [List.append_nil, readNumber_of_isDigits hp le_rfl]
  · obtain ⟨rest, rfl⟩ := List.head?_eq_some_iff.mp hhead
    rw [stops_readNumber (by decide), readNumber_of_isDigits hp (by simp)]
    split_ifs
    · rfl
    · rfl

theorem readNumberAfter_of_ne {c d : Char} {rest : Str} (h : c ≠ d) :
    readNumberAfter c bound (d :: rest) = none := by
  have hstrip : stripStart [c] (d :: rest) = none := by simp [stripStart, List.isPrefixOf?, h]
  rw [readNumberAfter, hstrip]
  rfl

theorem stripStart_of_ne {c d : Char} {rest : Str} (h : c ≠ d) :
    stripStart [c] (d :: rest) = none := by
  simp [stripStart, List.isPrefixOf?, h]

theorem readSocketAddrV4_of_name (hcolon : ':' ∉ host) (hp : IsDigits p)
    (hpath : path = [] ∨ path.head? = some '/') :
    readSocketAddrV4 (host ++ ':' :: (p ++ path)) =
      if digitsValue 10 p < 2 ^ 16 then
        (parseIpv4 host).map fun a ↦ (⟨.v4 a, UInt16.ofNat (digitsValue 10 p)⟩, path)
      else none := by
  rw [readSocketAddrV4, stops_readIpv4 (by decide) (by decide)]
  unfold parseIpv4
  rcases hread : readIpv4 host with _ | ⟨a, rest⟩
  · split_ifs
    · rfl
    · rfl
  · cases rest with
    | nil =>
      dsimp only [Option.map_some, Option.bind_some, List.nil_append]
      rw [readNumberAfter_of_isDigits hp hpath]
      split_ifs
      · rfl
      · rfl
    | cons d rest =>
      have hd : ':' ≠ d := fun heq ↦
        hcolon ((leavesEnd_readIpv4 _ _ _ hread).subset (heq ▸ List.mem_cons_self))
      dsimp only [Option.map_some, Option.bind_some, List.cons_append]
      rw [readNumberAfter_of_ne hd]
      split_ifs
      · rfl
      · rfl

/-- The zone is skipped if it is a number in range, and otherwise the bracket is not found. -/
theorem skip_zone {id rest : Str} (hid : ']' ∉ id) :
    stripStart [']'] (((readNumberAfter '%' (2 ^ 32) ('%' :: (id ++ ']' :: rest))).map
        Prod.snd).getD ('%' :: (id ++ ']' :: rest))) =
      if IsDigits id ∧ digitsValue 10 id < 2 ^ 32 then some rest else none := by
  have hpercent : stripStart ['%'] ('%' :: (id ++ ']' :: rest)) = some (id ++ ']' :: rest) :=
    stripStart_eq_some.mpr rfl
  rw [readNumberAfter, hpercent, Option.bind_some, stops_readNumber (by decide)]
  by_cases hgood : IsDigits id ∧ digitsValue 10 id < 2 ^ 32
  · rw [readNumber_of_isDigits hgood.1 (by simp), if_pos hgood.2, if_pos hgood]
    exact stripStart_eq_some.mpr rfl
  · rw [if_neg hgood]
    rcases hread : readNumber 10 (id ++ ']' :: rest).length true (2 ^ 32) id with _ | ⟨n, left⟩
    · exact stripStart_of_ne (by decide)
    · cases left with
      | nil => exact absurd (isDigits_of_readNumber hread) hgood
      | cons d left =>
        have hd : ']' ≠ d := fun heq ↦ hid
          ((leavesEnd_readNumber _ _ _ _ _ _ _ hread).subset (heq ▸ List.mem_cons_self))
        exact stripStart_of_ne hd

theorem readSocketAddrV6_of_bracket (ht : IsIpv6Literal t) (hp : IsDigits p)
    (hpath : path = [] ∨ path.head? = some '/') :
    readSocketAddrV6 ('[' :: (t ++ [']']) ++ ':' :: (p ++ path)) =
      if digitsValue 10 p < 2 ^ 16 then
        (scopedIpv6 (2 ^ 32) t).map fun ip ↦ (⟨.v6 ip, UInt16.ofNat (digitsValue 10 p)⟩, path)
      else none := by
  obtain ⟨text, ip, zone, hparse, hzone⟩ := ht
  have hopen : stripStart ['['] ('[' :: (text ++ zone ++ [']']) ++ ':' :: (p ++ path)) =
      some (text ++ (zone ++ ']' :: ':' :: (p ++ path))) := stripStart_eq_some.mpr (by simp)
  rcases hzone with rfl | ⟨id, rfl, hid⟩
  · have hread : readIpv6 (text ++ ([] ++ ']' :: ':' :: (p ++ path))) =
        some (ip, ']' :: ':' :: (p ++ path)) := by
      rw [List.nil_append, stops_readIpv6 outside_bracket, readIpv6_of_parse hparse]
      rfl
    have hclose : stripStart [']'] (']' :: ':' :: (p ++ path)) = some (':' :: (p ++ path)) :=
      stripStart_eq_some.mpr rfl
    have hskip : readNumberAfter '%' (2 ^ 32) (']' :: ':' :: (p ++ path)) = none :=
      readNumberAfter_of_ne (by decide)
    rw [List.append_nil] at hopen ⊢
    rw [scopedIpv6_of_parse hparse]
    simp only [readSocketAddrV6, hopen, hread, hskip, Option.map_none, Option.getD_none, hclose,
      readNumberAfter_of_isDigits hp hpath, Option.bind_eq_bind, Option.bind_some]
    split_ifs
    · rfl
    · rfl
  · have hread : readIpv6 (text ++ ('%' :: id ++ ']' :: ':' :: (p ++ path))) =
        some (ip, '%' :: (id ++ ']' :: ':' :: (p ++ path))) := by
      rw [List.cons_append, stops_readIpv6 outside_percent, readIpv6_of_parse hparse]
      rfl
    have hskip := @skip_zone id (':' :: (p ++ path)) fun hmem ↦ hid _ hmem (by decide)
    rw [scopedIpv6_of_scope hparse]
    simp only [readSocketAddrV6, hopen, hread, hskip, Option.bind_eq_bind, Option.bind_some]
    by_cases hgood : IsDigits id ∧ digitsValue 10 id < 2 ^ 32
    · rw [if_pos hgood, if_pos hgood, Option.bind_some, readNumberAfter_of_isDigits hp hpath]
      split_ifs
      · rfl
      · rfl
    · rw [if_neg hgood, if_neg hgood]
      split_ifs
      · rfl
      · rfl

theorem readSocketAddr_of_isHostPart (hh : IsHostPart host) (hp : IsDigits p)
    (hpath : path = [] ∨ path.head? = some '/') :
    (readSocketAddrV4 (host ++ ':' :: (p ++ path))).or
        (readSocketAddrV6 (host ++ ':' :: (p ++ path))) =
      if digitsValue 10 p < 2 ^ 16 then
        (hostIpBelow (2 ^ 32) host).map fun ip ↦ (⟨ip, UInt16.ofNat (digitsValue 10 p)⟩, path)
      else none := by
  cases hh with
  | name text hne hplain =>
    -- without a bracket only the IPv4 reader can succeed
    have hcolon : ':' ∉ host := fun hmem ↦ hplain _ hmem (by decide)
    have hbracket : '[' ∉ host := fun hmem ↦ hplain _ hmem (by decide)
    have hv6 : readSocketAddrV6 (host ++ ':' :: (p ++ path)) = none := by
      have hopen : stripStart ['['] (host ++ ':' :: (p ++ path)) = none := by
        rw [stripStart_append_cons (by decide), stripStart_eq_none_of_notMem hbracket]
        rfl
      rw [readSocketAddrV6, hopen]
      rfl
    rw [readSocketAddrV4_of_name hcolon hp hpath, hv6, Option.or_none,
      hostIpBelow_of_notMem hbracket, Option.map_map]
    rfl
  | ipv6 text literal =>
    have hv4 : readSocketAddrV4 ('[' :: (text ++ [']']) ++ ':' :: (p ++ path)) = none := by
      rw [readSocketAddrV4, List.cons_append, readIpv4_bracket]
      rfl
    rw [hv4, Option.none_or, readSocketAddrV6_of_bracket literal hp hpath, hostIpBelow_bracket,
      Option.map_map]
    rfl

/-- **A host part with a port** is a socket address when it is an address, the port is one, and
nothing follows it. -/
theorem socketAddr_parse_of_isHostPart (hh : IsHostPart host) (hp : IsDigits p)
    (hpath : path = [] ∨ path.head? = some '/') :
    SocketAddr.parse (host ++ ':' :: (p ++ path)) =
      if path = [] ∧ digitsValue 10 p < 2 ^ 16 then
        (hostIpBelow (2 ^ 32) host).map fun ip ↦ ⟨ip, UInt16.ofNat (digitsValue 10 p)⟩
      else none := by
  rw [SocketAddr.parse, readSocketAddr_of_isHostPart hh hp hpath]
  by_cases hlt : digitsValue 10 p < 2 ^ 16
  · rw [if_pos hlt]
    cases hostIpBelow (2 ^ 32) host with
    | none => exact (ite_self none).symm
    | some ip =>
      cases path with
      | nil => exact (if_pos ⟨rfl, hlt⟩).symm
      | cons c path => exact (if_neg fun h ↦ List.cons_ne_nil c path h.1).symm
  · rw [if_neg hlt, if_neg fun h ↦ hlt h.2]

theorem parseIpAddr_of_isHostPart (hh : IsHostPart host) (hp : IsDigits p)
    (hpath : path = [] ∨ path.head? = some '/') :
    parseIpAddr (host ++ ':' :: (p ++ path)) = none := by
  have hv4 : parseIpv4 (host ++ ':' :: (p ++ path)) = none := by
    rw [parseIpv4, stops_readIpv4 (by decide) (by decide)]
    rcases readIpv4 host with _ | ⟨a, rest⟩
    · rfl
    · cases rest with
      | nil => rfl
      | cons d rest => rfl
  have hv6 : parseIpv6 (host ++ ':' :: (p ++ path)) = none := by
    rw [Option.eq_none_iff_forall_ne_some]
    rintro ip hip
    cases hh with
    | name text hne hplain =>
      rcases hpath with rfl | hhead
      · -- the one colon is that before the digits
        have htwo := two_le_count_of_parseIpv6 hip
        have hhost : host.count ':' = 0 :=
          List.count_eq_zero.mpr fun hmem ↦ hplain _ hmem (by decide)
        have hdigits : p.count ':' = 0 := List.count_eq_zero.mpr (hp.notMem (by decide))
        rw [List.append_nil, List.count_append, List.count_cons_self, hhost, hdigits] at htwo
        omega
      · obtain ⟨rest, rfl⟩ := List.head?_eq_some_iff.mp hhead
        exact notMem_of_parseIpv6 outside_slash hip (by simp)
    | ipv6 =>
      have hopen : OutsideIpv6 '[' := ⟨by decide, by decide, by decide, by decide⟩
      exact notMem_of_parseIpv6 hopen hip List.mem_cons_self
  rw [parseIpAddr, hv4, hv6]
  rfl

/-! ### As text -/

theorem IsHostPart.ne_nil (h : IsHostPart host) : host ≠ [] := by
  cases h with
  | name _ hne _ => exact hne
  | ipv6 => exact List.cons_ne_nil _ _

theorem IsIpv6Literal.notMem_slash (h : IsIpv6Literal t) : '/' ∉ t := by
  obtain ⟨text, ip, zone, hparse, rfl | ⟨id, rfl, hid⟩⟩ := h
  · simp [notMem_of_parseIpv6 outside_slash hparse]
  · have hslash : '/' ∉ id := fun hmem ↦ hid _ hmem (by decide)
    simp [notMem_of_parseIpv6 outside_slash hparse, hslash]

theorem IsHostPart.notMem_slash (h : IsHostPart host) : '/' ∉ host := by
  cases h with
  | name _ _ hplain => exact fun hmem ↦ hplain _ hmem (by decide)
  | ipv6 text literal => simp [literal.notMem_slash]

theorem isAlphanum_of_mem_hexadecimal {c : Char} {n : ℕ} (h : c ∈ hexadecimal n) :
    isAsciiAlphanumeric c := by
  have hdigit : ∀ m < 16, isAsciiAlphanumeric m.digitChar := by decide
  induction n using Nat.strong_induction_on with
  | _ n ih =>
    rw [hexadecimal, Nat.toDigits_eq_if (by norm_num)] at h
    split_ifs at h with hlt
    · exact List.mem_singleton.mp h ▸ hdigit n hlt
    · rcases List.mem_append.mp h with h | h
      · exact ih _ (Nat.div_lt_self (by omega) (by norm_num)) h
      · exact List.mem_singleton.mp h ▸ hdigit _ (Nat.mod_lt _ (by norm_num))

/-- The text form of an address is made of digits, letters, dots and colons. -/
theorem notMem_toStr {c : Char} (hc : isAsciiAlphanumeric c = false) (hdot : c ≠ '.')
    (hcolon : c ≠ ':') (ip : IpAddr) : c ∉ ip.toStr := by
  have hv4 (a : BitVec 32) : c ∉ ipv4ToString a := by
    rw [ipv4ToString, mem_join_iff (by simpa using hdot)]
    rintro ⟨s, hs, hmem⟩
    obtain ⟨k, -, rfl⟩ := List.mem_map.mp hs
    have hdigit := isDigit_of_mem_decimal hmem
    rw [isAsciiAlphanumeric, Char.isAlphanum, hdigit, Bool.or_true] at hc
    exact absurd hc (by decide)
  have hgroups (xs : List ℕ) : c ∉ join [':'] (xs.map hexadecimal) := by
    rw [mem_join_iff (by simpa using hcolon)]
    rintro ⟨s, hs, hmem⟩
    obtain ⟨k, -, rfl⟩ := List.mem_map.mp hs
    exact absurd (isAlphanum_of_mem_hexadecimal hmem) (by rw [hc]; decide)
  have hcolons : c ∉ "::".toList := by simpa using hcolon
  have hmapped : c ∉ "::ffff:".toList := by
    intro hmem
    have hall : ("::ffff:".toList.all fun d ↦ d = ':' ∨ isAsciiAlphanumeric d = true) = true := by
      decide
    rcases of_decide_eq_true (List.all_eq_true.mp hall c hmem) with h | h
    · exact hcolon h
    · exact absurd (hc.symm.trans h) (by decide)
  cases ip with
  | v4 a => exact hv4 a
  | v6 a =>
    rw [IpAddr.toStr, ipv6ToString]
    dsimp only
    split_ifs
    · exact fun hmem ↦ (List.mem_append.mp hmem).elim hmapped (hv4 _)
    · rw [List.mem_append, List.mem_append]
      rintro ((hmem | hmem) | hmem)
      · exact hgroups _ hmem
      · exact hcolons hmem
      · exact hgroups _ hmem
    · exact hgroups _

end HostParts

end SniGate
