import SniGate.Config.Types
import SniGate.Net.Parse

/-!
# Resolving an upstream

A route asks where to dial a host and gets one address, or two of different families to race; a pool
asks for every address the host publishes. Both questions are answered from the same lookups, by
functions that each restrict the family, take an IP literal as it is, and live with one failed
lookup of two.

## Where they differ

A literal of the family that the setting excludes is still an address to dial, but it is not a
candidate of a pool (`LiteralOutside`). Everywhere else the address to dial is a candidate, and there
is one exactly when there is a candidate (`agreement`).

The resolver library is given by what it answers.
-/

namespace SniGate

/-! ## Answers -/

/-- The record types that are looked up. -/
inductive RecordType
  | a
  | aaaa
deriving DecidableEq, Repr

/-- `Display for RecordType`. -/
def RecordType.str : RecordType → Str
  | a => "A".toList
  | aaaa => "AAAA".toList

/-- The data of a record, of which only addresses are read. -/
inductive AddrRData
  | a (addr : BitVec 32)
  | aaaa (addr : BitVec 128)
  | other
deriving DecidableEq, Repr

def AddrRData.v4 : AddrRData → Option (BitVec 32)
  | a addr => some addr
  | _ => none

def AddrRData.v6 : AddrRData → Option (BitVec 128)
  | aaaa addr => some addr
  | _ => none

/-- An error with what it was the cause of, outermost first. -/
abbrev ErrorChain := List Str

/-- The alternate form of `Display for anyhow::Error`. -/
def ErrorChain.display (e : ErrorChain) : Str := join ": ".toList e

/-- `TokioResolver::lookup`: the answers for a host and a record type. -/
abbrev Lookup := Str → RecordType → Except ErrorChain (List AddrRData)

/-! ## Lookups -/

section Lookups

variable {α : Type} (lookup : Lookup) (type : RecordType) (pick : AddrRData → Option α) (host : Str)

/-- What both kinds of lookup say about a failure. -/
def lookupContext : Str := type.str ++ " lookup for ".toList ++ host

/-- Every address among the answers. -/
def lookupAll : Except ErrorChain (List α) :=
  match lookup host type with
  | .error e => .error (lookupContext type host :: e)
  | .ok answers => .ok (answers.filterMap pick)

/-- The first address among the answers. -/
def lookupFirst : Except ErrorChain α :=
  match lookup host type with
  | .error e => .error (lookupContext type host :: e)
  | .ok answers =>
    match answers.findSome? pick with
    | some addr => .ok addr
    | none => .error ["no ".toList ++ type.str ++ " record for ".toList ++ host]

/-- The addresses published, as far as a lookup shows; none when it fails. -/
def published (found : Except ErrorChain (List α)) : List α := found.toOption.getD []

/-- A record type has answered when it has published something. -/
theorem published_ne_nil_iff {found : Except ErrorChain (List α)} :
    published found ≠ [] ↔ ∃ addrs, found = .ok addrs ∧ addrs ≠ [] := by
  cases found with
  | error e => simp [published, Except.toOption]
  | ok addrs => simp [published, Except.toOption]

theorem lookupFirst_cases :
    (∃ e, lookupFirst lookup type pick host = .error e ∧
      published (lookupAll lookup type pick host) = []) ∨
    ∃ addr rest, lookupFirst lookup type pick host = .ok addr ∧
      published (lookupAll lookup type pick host) = addr :: rest := by
  rw [lookupFirst, lookupAll]
  cases lookup host type with
  | error e => exact .inl ⟨_, rfl, rfl⟩
  | ok answers =>
    dsimp only [published, Except.toOption, Option.getD_some]
    rw [← List.head?_filterMap]
    cases answers.filterMap pick with
    | nil => exact .inl ⟨_, rfl, rfl⟩
    | cons addr rest => exact .inr ⟨addr, rest, rfl, rfl⟩

def lookupAllV4 : Except ErrorChain (List (BitVec 32)) := lookupAll lookup .a AddrRData.v4 host

def lookupAllV6 : Except ErrorChain (List (BitVec 128)) := lookupAll lookup .aaaa AddrRData.v6 host

def lookupV4 : Except ErrorChain (BitVec 32) := lookupFirst lookup .a AddrRData.v4 host

def lookupV6 : Except ErrorChain (BitVec 128) := lookupFirst lookup .aaaa AddrRData.v6 host

end Lookups

/-! ## Where to dial -/

/-- Where to dial an upstream: one address, or two from different families. -/
structure ResolvedAddrs where
  primary : SocketAddr
  fallback : Option SocketAddr
deriving DecidableEq, Repr

namespace ResolvedAddrs

def single (addr : SocketAddr) : ResolvedAddrs := ⟨addr, none⟩

/-- IPv6 leads. -/
def dual (v6 v4 : SocketAddr) : ResolvedAddrs := ⟨v6, some v4⟩

/-- Every address to dial. -/
def addrs (r : ResolvedAddrs) : List SocketAddr := r.primary :: r.fallback.toList

@[simp] theorem addrs_single (addr : SocketAddr) : (single addr).addrs = [addr] := rfl

@[simp] theorem addrs_dual (v6 v4 : SocketAddr) : (dual v6 v4).addrs = [v6, v4] := rfl

end ResolvedAddrs

/-- Both families failed: the error of the A lookup, with the other's text in its context. -/
def neitherFamilyResolved (host : Str) (v6Err v4Err : ErrorChain) : ErrorChain :=
  ("resolving ".toList ++ host ++ ": AAAA also failed: ".toList ++ v6Err.display) :: v4Err

def nat64OrV4 (v4 : BitVec 32) (port : UInt16) (nat64 : Option Nat64Prefix) : SocketAddr :=
  match nat64 with
  | some p => ⟨.v6 (p.synthesize v4), port⟩
  | none => ⟨.v4 v4, port⟩

/-- Resolve an upstream host to a connectable address. -/
def resolveUpstream (lookup : Lookup) (host : Str) (port : UInt16) (family : AddressFamily)
    (nat64 : Option Nat64Prefix) : Except ErrorChain ResolvedAddrs :=
  match parseIpAddr host with
  | some (.v4 v4) =>
    .ok (.single (if family ≠ .ipv6 then nat64OrV4 v4 port nat64 else ⟨.v4 v4, port⟩))
  | some (.v6 v6) => .ok (.single ⟨.v6 v6, port⟩)
  | none =>
    match family with
    | .ipv6 => (lookupV6 lookup host).map fun v6 ↦ .single ⟨.v6 v6, port⟩
    | .ipv4 => (lookupV4 lookup host).map fun v4 ↦ .single (nat64OrV4 v4 port nat64)
    | .dual =>
      if nat64.isSome then
        -- a v6-only host: the A record is asked for when there is no other
        match lookupV6 lookup host with
        | .ok v6 => .ok (.single ⟨.v6 v6, port⟩)
        | .error v6Err =>
          match lookupV4 lookup host with
          | .ok v4 => .ok (.single (nat64OrV4 v4 port nat64))
          | .error v4Err => .error (neitherFamilyResolved host v6Err v4Err)
      else
        match lookupV6 lookup host, lookupV4 lookup host with
        | .ok v6, .ok v4 => .ok (.dual ⟨.v6 v6, port⟩ (nat64OrV4 v4 port nat64))
        | .ok v6, .error _ => .ok (.single ⟨.v6 v6, port⟩)
        | .error _, .ok v4 => .ok (.single (nat64OrV4 v4 port nat64))
        | .error v6Err, .error v4Err => .error (neitherFamilyResolved host v6Err v4Err)

/-- Resolve a host to every address it publishes in the family. -/
def resolveAllIps (lookup : Lookup) (host : Str) (family : AddressFamily) :
    Except ErrorChain (List IpAddr) :=
  match parseIpAddr host with
  | some ip =>
    let usable : Bool :=
      match ip, family with
      | .v4 _, .ipv6 => false
      | .v6 _, .ipv4 => false
      | _, _ => true
    .ok (if usable then [ip] else [])
  | none =>
    let (out, lastErr) : List IpAddr × Option ErrorChain :=
      if family ≠ .ipv6 then
        match lookupAllV4 lookup host with
        | .ok v => (v.map .v4, none)
        | .error e => ([], some e)
      else ([], none)
    let (out, lastErr) : List IpAddr × Option ErrorChain :=
      if family ≠ .ipv4 then
        match lookupAllV6 lookup host with
        | .ok v => (out ++ v.map .v6, lastErr)
        | .error e => (out, some e)
      else (out, lastErr)
    if out = [] then .error (lastErr.getD ["no A or AAAA records for ".toList ++ host])
    else .ok out

/-! ## What is chosen -/

/-- The literals of the family that a setting excludes. -/
def LiteralOutside (host : Str) (family : AddressFamily) : Prop :=
  (∃ v4, parseIpAddr host = some (.v4 v4) ∧ family = .ipv6) ∨
    ∃ v6, parseIpAddr host = some (.v6 v6) ∧ family = .ipv4

/-- What a pool ranks: all that a name publishes in a family. -/
def candidates : AddressFamily → List (BitVec 128) → List (BitVec 32) → List IpAddr
  | .ipv6, v6s, _ => v6s.map .v6
  | .ipv4, _, v4s => v4s.map .v4
  | .dual, v6s, v4s => v4s.map .v4 ++ v6s.map .v6

/-- What a route dials: the first address of each family, IPv6 first. -/
inductive Chosen (port : UInt16) :
    AddressFamily → List (BitVec 128) → List (BitVec 32) → ResolvedAddrs → Prop
  | ipv6 (v6 v6s v4s) : Chosen port .ipv6 (v6 :: v6s) v4s (.single ⟨.v6 v6, port⟩)
  | ipv4 (v4 v6s v4s) : Chosen port .ipv4 v6s (v4 :: v4s) (.single ⟨.v4 v4, port⟩)
  | both (v6 v4 v6s v4s) :
    Chosen port .dual (v6 :: v6s) (v4 :: v4s) (.dual ⟨.v6 v6, port⟩ ⟨.v4 v4, port⟩)
  | onlyV6 (v6 v6s) : Chosen port .dual (v6 :: v6s) [] (.single ⟨.v6 v6, port⟩)
  | onlyV4 (v4 v4s) : Chosen port .dual [] (v4 :: v4s) (.single ⟨.v4 v4, port⟩)

section Choice

variable {port : UInt16} {family : AddressFamily} {v6s : List (BitVec 128)}
  {v4s : List (BitVec 32)} {r : ResolvedAddrs}

theorem Chosen.mem_candidates (h : Chosen port family v6s v4s r) {a : SocketAddr}
    (ha : a ∈ r.addrs) : a.port = port ∧ a.ip ∈ candidates family v6s v4s := by
  cases h with
  | both v6 v4 v6s v4s =>
    rw [ResolvedAddrs.addrs_dual] at ha
    rcases List.mem_pair.mp ha with rfl | rfl
    · exact ⟨rfl, by simp [candidates]⟩
    · exact ⟨rfl, by simp [candidates]⟩
  | _ =>
    rw [ResolvedAddrs.addrs_single] at ha
    obtain rfl := List.mem_singleton.mp ha
    exact ⟨rfl, by simp [candidates]⟩

theorem exists_chosen_iff :
    (∃ r, Chosen port family v6s v4s r) ↔ candidates family v6s v4s ≠ [] := by
  constructor
  · rintro ⟨r, h⟩ hnil
    have hmem := (h.mem_candidates (List.mem_cons_self : r.primary ∈ r.addrs)).2
    rw [hnil] at hmem
    exact absurd hmem (by simp)
  · intro h
    cases family with
    | ipv6 =>
      cases v6s with
      | nil => exact absurd rfl h
      | cons v6 v6s => exact ⟨_, .ipv6 v6 v6s v4s⟩
    | ipv4 =>
      cases v4s with
      | nil => exact absurd rfl h
      | cons v4 v4s => exact ⟨_, .ipv4 v4 v6s v4s⟩
    | dual =>
      cases v6s with
      | nil =>
        cases v4s with
        | nil => exact absurd rfl h
        | cons v4 v4s => exact ⟨_, .onlyV4 v4 v4s⟩
      | cons v6 v6s =>
        cases v4s with
        | nil => exact ⟨_, .onlyV6 v6 v6s⟩
        | cons v4 v4s => exact ⟨_, .both v6 v4 v6s v4s⟩

theorem Chosen.of_fallback (h : Chosen port family v6s v4s r) {fallback : SocketAddr}
    (hfallback : r.fallback = some fallback) :
    (∃ v6, r.primary.ip = .v6 v6) ∧ ∃ v4, fallback.ip = .v4 v4 := by
  cases h with
  | both v6 v4 =>
    obtain rfl := Option.some.inj hfallback
    exact ⟨⟨v6, rfl⟩, v4, rfl⟩
  | _ => exact absurd hfallback (by simp [ResolvedAddrs.single])

theorem exists_chosen_fallback_iff :
    (∃ r, Chosen port family v6s v4s r ∧ r.fallback.isSome) ↔
      family = .dual ∧ v6s ≠ [] ∧ v4s ≠ [] := by
  constructor
  · rintro ⟨r, h, hfallback⟩
    cases h with
    | both => exact ⟨rfl, by simp, by simp⟩
    | _ => exact absurd hfallback (by simp [ResolvedAddrs.single])
  · rintro ⟨rfl, h6, h4⟩
    obtain ⟨v6, v6s, rfl⟩ := List.exists_cons_of_ne_nil h6
    obtain ⟨v4, v4s, rfl⟩ := List.exists_cons_of_ne_nil h4
    exact ⟨_, .both v6 v4 v6s v4s, rfl⟩

end Choice

/-! ## One host, asked about twice -/

section Agreement

variable {lookup : Lookup} {host : Str} {port : UInt16} {family : AddressFamily}
  {r : ResolvedAddrs}

theorem resolveUpstream_of_name (hname : parseIpAddr host = none) :
    resolveUpstream lookup host port family none = .ok r ↔
      Chosen port family (published (lookupAllV6 lookup host))
        (published (lookupAllV4 lookup host)) r := by
  have hv6 := lookupFirst_cases lookup .aaaa AddrRData.v6 host
  have hv4 := lookupFirst_cases lookup .a AddrRData.v4 host
  rw [lookupAllV6, lookupAllV4]
  unfold resolveUpstream lookupV6 lookupV4
  rw [hname]
  cases family with
  | ipv6 =>
    rcases hv6 with ⟨e, h, hp⟩ | ⟨v6, v6s, h, hp⟩
    · simp only [h, hp]
      exact ⟨nofun, nofun⟩
    · simp only [h, hp]
      exact ⟨fun hr ↦ by cases hr; constructor, fun hr ↦ by cases hr; rfl⟩
  | ipv4 =>
    rcases hv4 with ⟨e, h, hp⟩ | ⟨v4, v4s, h, hp⟩
    · simp only [h, hp]
      exact ⟨nofun, nofun⟩
    · simp only [h, hp]
      exact ⟨fun hr ↦ by cases hr; constructor, fun hr ↦ by cases hr; rfl⟩
  | dual =>
    rcases hv6 with ⟨e, h6, hp6⟩ | ⟨v6, v6s, h6, hp6⟩
    · rcases hv4 with ⟨e', h4, hp4⟩ | ⟨v4, v4s, h4, hp4⟩
      · simp only [h6, hp6, h4, hp4]
        exact ⟨nofun, nofun⟩
      · simp only [h6, hp6, h4, hp4]
        exact ⟨fun hr ↦ by cases hr; constructor, fun hr ↦ by cases hr; rfl⟩
    · rcases hv4 with ⟨e', h4, hp4⟩ | ⟨v4, v4s, h4, hp4⟩
      · simp only [h6, hp6, h4, hp4]
        exact ⟨fun hr ↦ by cases hr; constructor, fun hr ↦ by cases hr; rfl⟩
      · simp only [h6, hp6, h4, hp4]
        exact ⟨fun hr ↦ by cases hr; constructor, fun hr ↦ by cases hr; rfl⟩

variable (lookup family) in
theorem resolveAllIps_of_name (hname : parseIpAddr host = none) :
    ∃ e, resolveAllIps lookup host family =
      if candidates family (published (lookupAllV6 lookup host))
          (published (lookupAllV4 lookup host)) = [] then .error e
      else .ok (candidates family (published (lookupAllV6 lookup host))
        (published (lookupAllV4 lookup host))) := by
  unfold resolveAllIps
  rw [hname]
  cases family with
  | ipv6 =>
    cases lookupAllV6 lookup host with
    | ok v6s => exact ⟨_, rfl⟩
    | error e => exact ⟨_, rfl⟩
  | ipv4 =>
    cases lookupAllV4 lookup host with
    | ok v4s => exact ⟨_, rfl⟩
    | error e => exact ⟨_, rfl⟩
  | dual =>
    cases lookupAllV4 lookup host with
    | ok v4s =>
      cases lookupAllV6 lookup host with
      | ok v6s => exact ⟨_, rfl⟩
      | error e =>
        refine ⟨e, ?_⟩
        simp [published, Except.toOption, candidates]
    | error e4 =>
      cases lookupAllV6 lookup host with
      | ok v6s => exact ⟨_, rfl⟩
      | error e => exact ⟨_, rfl⟩

theorem resolveUpstream_of_literal {ip : IpAddr} (hip : parseIpAddr host = some ip) :
    resolveUpstream lookup host port family none = .ok (.single ⟨ip, port⟩) := by
  unfold resolveUpstream
  rw [hip]
  cases ip with
  | v4 v4 =>
    dsimp only [nat64OrV4]
    rw [ite_self]
  | v6 v6 => rfl

variable (lookup family) in
/-- A literal is a candidate unless the setting excludes its family. -/
theorem resolveAllIps_of_literal {ip : IpAddr} (hip : parseIpAddr host = some ip) :
    (LiteralOutside host family ∧ resolveAllIps lookup host family = .ok []) ∨
      ¬LiteralOutside host family ∧ resolveAllIps lookup host family = .ok [ip] := by
  rw [resolveAllIps, hip, LiteralOutside, hip]
  cases ip <;> cases family <;> simp

/-- With a prefix, and IPv4 not excluded, only IPv6 is dialed. -/
theorem ne_v4_of_nat64 {nat64 : Nat64Prefix} (hfamily : family ≠ .ipv6)
    (h : resolveUpstream lookup host port family (some nat64) = .ok r) :
    ∀ a ∈ r.addrs, ∃ v6, a.ip = .v6 v6 := by
  suffices hsingle : ∃ v6, r = .single ⟨.v6 v6, port⟩ by
    obtain ⟨v6, rfl⟩ := hsingle
    intro a ha
    rw [ResolvedAddrs.addrs_single] at ha
    obtain rfl := List.mem_singleton.mp ha
    exact ⟨v6, rfl⟩
  unfold resolveUpstream at h
  cases hip : parseIpAddr host with
  | some ip =>
    rw [hip] at h
    cases ip with
    | v4 v4 =>
      dsimp only at h
      rw [if_pos hfamily] at h
      exact ⟨_, (Except.ok.inj h).symm⟩
    | v6 v6 => exact ⟨v6, (Except.ok.inj h).symm⟩
  | none =>
    rw [hip] at h
    cases family with
    | ipv6 => exact absurd rfl hfamily
    | ipv4 =>
      cases h4 : lookupV4 lookup host with
      | error e =>
        rw [h4] at h
        exact absurd h nofun
      | ok v4 =>
        rw [h4] at h
        exact ⟨_, (Except.ok.inj h).symm⟩
    | dual =>
      dsimp only at h
      rw [if_pos Option.isSome_some] at h
      cases h6 : lookupV6 lookup host with
      | ok v6 =>
        rw [h6] at h
        exact ⟨v6, (Except.ok.inj h).symm⟩
      | error e =>
        rw [h6] at h
        cases h4 : lookupV4 lookup host with
        | error e' =>
          rw [h4] at h
          exact absurd h nofun
        | ok v4 =>
          rw [h4] at h
          exact ⟨_, (Except.ok.inj h).symm⟩

variable (lookup host port family) in
/-- How the two resolutions of a host agree without a NAT64 prefix, and what a prefix is for. -/
structure ResolutionsAgree : Prop where
  /-- What is dialed is a candidate. -/
  dialed : ¬LiteralOutside host family →
    ∀ r, resolveUpstream lookup host port family none = .ok r → ∀ a ∈ r.addrs,
      a.port = port ∧ ∃ ips, resolveAllIps lookup host family = .ok ips ∧ a.ip ∈ ips
  /-- There is something to dial exactly when there is a candidate. -/
  succeeds : ¬LiteralOutside host family →
    ((∃ r, resolveUpstream lookup host port family none = .ok r) ↔
      ∃ ips, resolveAllIps lookup host family = .ok ips ∧ ips ≠ [])
  /-- A literal of the excluded family is dialed, and is no candidate. -/
  outside : LiteralOutside host family →
    resolveAllIps lookup host family = .ok [] ∧
      ∃ ip, parseIpAddr host = some ip ∧
        resolveUpstream lookup host port family none = .ok (.single ⟨ip, port⟩)
  /-- There is a second address exactly when a name has published both record types, and both are
  wanted. -/
  races : (∃ r, resolveUpstream lookup host port family none = .ok r ∧ r.fallback.isSome) ↔
    parseIpAddr host = none ∧ family = .dual ∧
      (∃ v6s, lookupAllV6 lookup host = .ok v6s ∧ v6s ≠ []) ∧
      ∃ v4s, lookupAllV4 lookup host = .ok v4s ∧ v4s ≠ []
  /-- IPv6 leads, and the second address is of the other family. -/
  order : ∀ r fallback, resolveUpstream lookup host port family none = .ok r →
    r.fallback = some fallback →
      (∃ v6, r.primary.ip = .v6 v6) ∧ ∃ v4, fallback.ip = .v4 v4
  /-- With a prefix, and IPv4 not excluded, no IPv4 address is dialed. -/
  nat64 : ∀ nat64 r, family ≠ .ipv6 →
    resolveUpstream lookup host port family (some nat64) = .ok r →
      ∀ a ∈ r.addrs, ∀ v4, a.ip ≠ .v4 v4

theorem not_v4_of_nat64 (nat64 : Nat64Prefix) (r : ResolvedAddrs) (hfamily : family ≠ .ipv6)
    (h : resolveUpstream lookup host port family (some nat64) = .ok r) :
    ∀ a ∈ r.addrs, ∀ v4, a.ip ≠ .v4 v4 := by
  intro a ha v4 hv4
  obtain ⟨v6, hv6⟩ := ne_v4_of_nat64 hfamily h a ha
  exact absurd (hv6.symm.trans hv4) nofun

/-- For a literal, one address is dialed, and at most one is a candidate. -/
theorem agree_of_literal {ip : IpAddr} (hip : parseIpAddr host = some ip) :
    ResolutionsAgree lookup host port family := by
  have hdial : ∀ r, resolveUpstream lookup host port family none = .ok r →
      r = .single ⟨ip, port⟩ := fun r hr ↦
    (Except.ok.inj ((resolveUpstream_of_literal hip).symm.trans hr)).symm
  have hlone : ∀ r, resolveUpstream lookup host port family none = .ok r → r.fallback = none :=
    fun r hr ↦ by rw [hdial r hr]; rfl
  have hall := resolveAllIps_of_literal lookup family hip
  constructor
  case dialed =>
    intro hin r hr a ha
    rw [hdial r hr, ResolvedAddrs.addrs_single] at ha
    obtain rfl := List.mem_singleton.mp ha
    rcases hall with ⟨hout, -⟩ | ⟨-, hall⟩
    · exact absurd hout hin
    · exact ⟨rfl, [ip], hall, List.mem_singleton_self ip⟩
  case succeeds =>
    intro hin
    rcases hall with ⟨hout, -⟩ | ⟨-, hall⟩
    · exact absurd hout hin
    · exact ⟨fun _ ↦ ⟨[ip], hall, List.cons_ne_nil _ _⟩,
        fun _ ↦ ⟨_, resolveUpstream_of_literal hip⟩⟩
  case outside =>
    intro hout
    rcases hall with ⟨-, hall⟩ | ⟨hin, -⟩
    · exact ⟨hall, ip, hip, resolveUpstream_of_literal hip⟩
    · exact absurd hout hin
  case races =>
    refine iff_of_false ?_ fun h ↦ absurd (hip.symm.trans h.1) nofun
    rintro ⟨r, hr, hfallback⟩
    rw [hlone r hr] at hfallback
    exact absurd hfallback nofun
  case order => exact fun r _ hr hfallback ↦ absurd ((hlone r hr).symm.trans hfallback) nofun
  case nat64 => exact not_v4_of_nat64

/-- For a name, what is dialed is chosen from what it publishes, which are the candidates. -/
theorem agree_of_name (hname : parseIpAddr host = none) :
    ResolutionsAgree lookup host port family := by
  have hin : ¬LiteralOutside host family := by
    rintro (⟨v4, h, -⟩ | ⟨v6, h, -⟩)
    · exact absurd (hname.symm.trans h) nofun
    · exact absurd (hname.symm.trans h) nofun
  obtain ⟨e, hall⟩ := resolveAllIps_of_name lookup family hname
  constructor
  case dialed =>
    intro _ r hr a ha
    obtain ⟨hport, hmem⟩ := ((resolveUpstream_of_name hname).mp hr).mem_candidates ha
    rw [if_neg (List.ne_nil_of_mem hmem)] at hall
    exact ⟨hport, _, hall, hmem⟩
  case succeeds =>
    intro _
    simp only [resolveUpstream_of_name hname]
    rw [exists_chosen_iff]
    constructor
    · intro hne
      rw [if_neg hne] at hall
      exact ⟨_, hall, hne⟩
    · rintro ⟨ips, hips, -⟩ hnil
      rw [if_pos hnil, hips] at hall
      exact absurd hall nofun
  case outside => exact fun hout ↦ absurd hout hin
  case races =>
    simp only [resolveUpstream_of_name hname]
    rw [exists_chosen_fallback_iff, published_ne_nil_iff, published_ne_nil_iff]
    exact (and_iff_right hname).symm
  case order => exact fun r _ hr ↦ ((resolveUpstream_of_name hname).mp hr).of_fallback
  case nat64 => exact not_v4_of_nat64

variable (lookup host port family) in
/-- **One host, asked about twice.** For every host, family and answers, the address to dial is a
candidate, and there is one exactly when there is a candidate, but for the literals of an excluded
family. -/
theorem resolutions_agree : ResolutionsAgree lookup host port family := by
  cases hip : parseIpAddr host with
  | some ip => exact agree_of_literal hip
  | none => exact agree_of_name hip

/-- An IPv4 literal is dialed where only IPv6 is wanted. -/
theorem not_dialed_candidate : ¬∀ lookup host port family r,
    resolveUpstream lookup host port family none = .ok r → ∀ a ∈ r.addrs,
      ∃ ips, resolveAllIps lookup host family = .ok ips ∧ a.ip ∈ ips := by
  intro h
  have hdial : resolveUpstream (fun _ _ ↦ .ok []) "1.2.3.4".toList 443 .ipv6 none =
      .ok (.single ⟨.v4 0x01020304#32, 443⟩) := by decide +kernel
  have hall : resolveAllIps (fun _ _ ↦ .ok []) "1.2.3.4".toList .ipv6 = .ok [] := by decide +kernel
  obtain ⟨ips, hips, hmem⟩ := h _ _ _ _ _ hdial _ List.mem_cons_self
  obtain rfl := Except.ok.inj (hall.symm.trans hips)
  exact absurd hmem (by simp)

end Agreement

end SniGate
