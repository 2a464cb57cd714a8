import SniGate.Config.Upstream

/-!
# Resolver specs, inline and named

A DNS resolver is written as a short text. Where the text stands inline it is parsed into a
`ResolverSpec`, and the host of an encrypted resolver is looked up at once; in a `[resolvers.*]`
table it is parsed into an `Endpoint`, which keeps the host as written. The grammar is implemented
twice. What either means is the name servers the resolver library is configured with: for each
connection the protocol, with the TLS name and the path, and the port.

## Where they differ

The library's constructors for encrypted transports take no port. A named resolver sets it
afterwards; an inline spec has dropped it by then, so whatever port the text gives, the default one
is dialed (`connections_eq_iff`).

The lookup of a host is given by `ToSocketAddrs`, the library by `NameServerLib`.
-/

namespace SniGate

/-! ## Socket addresses -/

/-- `Parser::read_ipv6_addr`. -/
def readIpv6 (s : Str) : Option (BitVec 128 × Str) :=
  let (head, headIpv4, rest) := readGroups 8 0 s
  if head.length = 8 then some (ofSegments head, rest)
  else if headIpv4 then none
  else
    (stripStart "::".toList rest).map fun rest ↦
      let (tail, _, rest) := readGroups (8 - (head.length + 1)) 0 rest
      (ofSegments (head ++ List.replicate (8 - head.length - tail.length) 0 ++ tail), rest)

/-- `Parser::read_number` without a limit on the digits, after a character. -/
def readNumberAfter (c : Char) (bound : ℕ) (s : Str) : Option (ℕ × Str) :=
  (stripStart [c] s).bind fun rest ↦ readNumber 10 rest.length true bound rest

/-- `Parser::read_socket_addr_v4`. -/
def readSocketAddrV4 (s : Str) : Option (SocketAddr × Str) :=
  (readIpv4 s).bind fun p ↦
    (readNumberAfter ':' (2 ^ 16) p.2).map fun q ↦ (⟨.v4 p.1, UInt16.ofNat q.1⟩, q.2)

/-- `Parser::read_socket_addr_v6`; a scope id is read and not kept. -/
def readSocketAddrV6 (s : Str) : Option (SocketAddr × Str) := do
  let rest ← stripStart ['['] s
  let (ip, rest) ← readIpv6 rest
  let rest := ((readNumberAfter '%' (2 ^ 32) rest).map Prod.snd).getD rest
  let rest ← stripStart [']'] rest
  let (port, rest) ← readNumberAfter ':' (2 ^ 16) rest
  return (⟨.v6 ip, UInt16.ofNat port⟩, rest)

/-- `SocketAddr::from_str`. -/
def SocketAddr.parse (s : Str) : Option SocketAddr :=
  match (readSocketAddrV4 s).or (readSocketAddrV6 s) with
  | some (a, []) => some a
  | _ => none

example : SocketAddr.parse "[2606:4700::1%3]:853".toList =
    some ⟨.v6 0x26064700000000000000000000000001#128, 853⟩ := by decide +kernel

/-! ## Name servers -/

/-- How a name server is spoken to. -/
inductive ProtocolConfig
  | udp
  | tcp
  | tls (serverName : Str)
  | https (serverName path : Str)
deriving DecidableEq, Repr

/-- One way to connect to a name server. -/
structure ConnectionConfig where
  protocol : ProtocolConfig
  port : UInt16
deriving DecidableEq, Repr

/-- A name server. -/
structure NameServerConfig where
  ip : IpAddr
  connections : List ConnectionConfig
deriving DecidableEq, Repr

/-- The constructors of the resolver library. -/
structure NameServerLib where
  https : IpAddr → Str → Option Str → NameServerConfig
  tls : IpAddr → Str → NameServerConfig
  udpAndTcp : IpAddr → NameServerConfig

/-- What the library documents: one connection per protocol, on the protocol's default port. -/
structure NameServerLib.Documented (lib : NameServerLib) : Prop where
  https : ∀ ip name path, lib.https ip name (some path) = ⟨ip, [⟨.https name path, 443⟩]⟩
  tls : ∀ ip name, lib.tls ip name = ⟨ip, [⟨.tls name, 853⟩]⟩
  udpAndTcp : ∀ ip, lib.udpAndTcp ip = ⟨ip, [⟨.udp, 53⟩, ⟨.tcp, 53⟩]⟩

/-- Set the port of every connection. -/
def NameServerConfig.setPort (ns : NameServerConfig) (port : UInt16) : NameServerConfig :=
  { ns with connections := ns.connections.map fun c ↦ { c with port } }

/-- `system_resolver_config`. -/
def systemNameServer (lib : NameServerLib) : NameServerConfig :=
  lib.udpAndTcp (.v4 0x01010101#32)

/-- `ToSocketAddrs for (&str, u16)`: the addresses of a host, or an error text. -/
abbrev ToSocketAddrs := Str → UInt16 → Except Str (List IpAddr)

/-! ## Inline specs -/

/-- A parsed resolver specification. -/
inductive ResolverSpec
  | system
  | doh (ip : IpAddr) (serverName path : Str)
  | dot (ip : IpAddr) (serverName : Str)
  | plain (addr : SocketAddr)
deriving DecidableEq, Repr

namespace ResolverSpec

/-- Split `host[:port]/path` into the host, the port if there is one, and the path. -/
def splitAuthorityPath (s : Str) : Str × Option UInt16 × Str :=
  let authority := s.takeWhile (· ≠ '/')
  let path := s.dropWhile (· ≠ '/')
  match rsplitOnce ':' authority with
  | some (h, p) =>
    if p.all Char.isDigit ∧ p ≠ [] then (h, parseU16 p, path) else (authority, none, path)
  | none => (authority, none, path)

/-- Parse `ip` or `ip:port`, with a default of port 53. -/
def parseIpAddr (s : Str) : Except Str SocketAddr :=
  match SocketAddr.parse s with
  | some sa => .ok sa
  | none =>
    match SniGate.parseIpAddr s with
    | some ip => .ok ⟨ip, 53⟩
    | none => .error ("invalid IP address ".toList ++ debugStr s)

/-- Resolve a DoH/DoT host to a single IP, once. -/
def resolveBootstrap (toSocketAddrs : ToSocketAddrs) (host : Str) (port : UInt16) :
    Except Str IpAddr :=
  match SniGate.parseIpAddr host with
  | some ip => .ok ip
  | none =>
    match toSocketAddrs host port with
    | .error e => .error ("bootstrap-resolving ".toList ++ host ++ ": ".toList ++ e)
    | .ok [] => .error ("could not resolve ".toList ++ host)
    | .ok (ip :: _) => .ok ip

/-- Parse a spec string. -/
def parse (toSocketAddrs : ToSocketAddrs) (s : Str) : Except Str ResolverSpec :=
  let s := trim s
  if s = [] ∨ asciiLowercase s = "system".toList then .ok .system
  else
    match stripStart "https://".toList s with
    | some rest =>
      let (host, port, path) := splitAuthorityPath rest
      match resolveBootstrap toSocketAddrs host (port.getD 443) with
      | .error e => .error ("resolving DoH host ".toList ++ host ++ ": ".toList ++ e)
      | .ok ip => .ok (.doh ip host (if path = [] then "/dns-query".toList else path))
    | none =>
      match stripStart "tls://".toList s with
      | some rest =>
        let (host, port, _) := splitAuthorityPath rest
        match resolveBootstrap toSocketAddrs host (port.getD 853) with
        | .error e => .error ("resolving DoT host ".toList ++ host ++ ": ".toList ++ e)
        | .ok ip => .ok (.dot ip host)
      | none =>
        let body := ((stripStart "udp://".toList s).or (stripStart "tcp://".toList s)).getD s
        match parseIpAddr body with
        | .error e =>
          .error ("resolver spec ".toList ++ debugStr s ++
            " is not a valid ip[:port]: ".toList ++ e)
        | .ok addr => .ok (.plain addr)

/-- The name server that `ResolverSpec::build` configures. -/
def nameServer (lib : NameServerLib) : ResolverSpec → NameServerConfig
  | system => systemNameServer lib
  | doh ip serverName path => lib.https ip serverName (some path)
  | dot ip serverName => lib.tls ip serverName
  | plain addr => (lib.udpAndTcp addr.ip).setPort addr.port

end ResolverSpec

/-! ## Named resolvers -/

/-- A named resolver's transport, parsed without resolving anything. -/
inductive Endpoint
  | system
  | doh (host : Str) (port : UInt16) (path : Str)
  | dot (host : Str) (port : UInt16)
  | plain (target : Str) (port : UInt16)
deriving DecidableEq, Repr

namespace Endpoint

/-- Split `host[:port][/path]` into the host, the port if there is one, and the path. -/
def splitAuthorityPath (s : Str) : Str × Option UInt16 × Str :=
  let authority := s.takeWhile (· ≠ '/')
  let path := s.dropWhile (· ≠ '/')
  match rsplitOnce ':' authority with
  | some (h, p) =>
    if p ≠ [] ∧ p.all Char.isDigit then (h, parseU16 p, path) else (authority, none, path)
  | none => (authority, none, path)

/-- Parse `ip` or `ip:port`, with a default of port 53. -/
def parseIpAddr (s : Str) : Except Str SocketAddr :=
  match SocketAddr.parse s with
  | some sa => .ok sa
  | none =>
    match SniGate.parseIpAddr s with
    | some ip => .ok ⟨ip, 53⟩
    | none => .error ("invalid IP address ".toList ++ debugStr s)

/-- A plain transport's target: an address, or after a scheme a host name. -/
def parsePlain (s body : Str) (allowHostname : Bool) : Except Str Endpoint :=
  match parseIpAddr body with
  | .ok addr => .ok (.plain addr.ip.toStr addr.port)
  | .error _ =>
    if allowHostname then
      match rsplitOnce ':' body with
      | some (host, p) =>
        if p ≠ [] ∧ p.all Char.isDigit then
          match parseU16 p with
          | some port => .ok (.plain host port)
          | none => .error "invalid port".toList
        else .ok (.plain body 53)
      | none => .ok (.plain body 53)
    else
      .error ("endpoint ".toList ++ debugStr s ++
        " is not a valid ip[:port]. Plain DNS without udp:// or tcp:// ".toList ++
        "prefix requires a literal IP address. Use udp://".toList ++ s ++
        " to specify a hostname, or https:// / tls:// for encrypted DNS".toList)

/-- Parse an endpoint spec. -/
def parse (s : Str) : Except Str Endpoint :=
  let s := trim s
  if s = [] ∨ asciiLowercase s = "system".toList then .ok .system
  else
    match stripStart "https://".toList s with
    | some rest =>
      let (host, port, path) := splitAuthorityPath rest
      if host = [] then .error ("endpoint ".toList ++ debugStr s ++ " has no host".toList)
      else .ok (.doh host (port.getD 443) (if path = [] then "/dns-query".toList else path))
    | none =>
      match stripStart "tls://".toList s with
      | some rest =>
        let (host, port, _) := splitAuthorityPath rest
        if host = [] then .error ("endpoint ".toList ++ debugStr s ++ " has no host".toList)
        else .ok (.dot host (port.getD 853))
      | none =>
        match stripStart "udp://".toList s with
        | some rest => parsePlain s rest true
        | none =>
          match stripStart "tcp://".toList s with
          | some rest => parsePlain s rest true
          | none => parsePlain s s false

/-- The endpoint's own host as written. -/
def host : Endpoint → Option Str
  | system => none
  | doh host _ _ | dot host _ => some host
  | plain target _ => if (SniGate.parseIpAddr target).isSome then none else some target

/-- The endpoint's own port. -/
def port : Endpoint → UInt16
  | system => 53
  | doh _ port _ | dot _ port | plain _ port => port

/-- `name_servers`: one name server per dial address, all on `port`. -/
def nameServersOn (ips : List IpAddr) (port : UInt16) (build : IpAddr → NameServerConfig) :
    List NameServerConfig := ips.map fun ip ↦ (build ip).setPort port

/-- The name servers that `build` configures for the dial addresses of a resolver whose dial port
and TLS name are not overridden. -/
def nameServers (lib : NameServerLib) (e : Endpoint) (dialIps : List IpAddr) :
    List NameServerConfig :=
  let serverName := e.host.getD []
  match e with
  | system => [systemNameServer lib]
  | doh _ _ path => nameServersOn dialIps e.port fun ip ↦ lib.https ip serverName (some path)
  | dot _ _ => nameServersOn dialIps e.port fun ip ↦ lib.tls ip serverName
  | plain _ _ => nameServersOn dialIps e.port lib.udpAndTcp

end Endpoint

/-! ## One text, parsed twice -/

theorem Endpoint.splitAuthorityPath_eq (s : Str) :
    Endpoint.splitAuthorityPath s = ResolverSpec.splitAuthorityPath s := by
  rw [Endpoint.splitAuthorityPath, ResolverSpec.splitAuthorityPath]
  cases rsplitOnce ':' (s.takeWhile (· ≠ '/')) with
  | none => rfl
  | some p => simp only [and_comm]

/-- The path in force. -/
def pathOrDefault (path : Str) : Str := if path = [] then "/dns-query".toList else path

/-- What a text that both parsers accept is to either. -/
inductive ParsedBoth (s : Str) : ResolverSpec → Endpoint → Prop
  | system (isSystem : trim s = [] ∨ asciiLowercase (trim s) = "system".toList) :
    ParsedBoth s .system .system
  | doh {rest host path : Str} {port : Option UInt16} {ip : IpAddr}
    (scheme : stripStart "https://".toList (trim s) = some rest)
    (split : ResolverSpec.splitAuthorityPath rest = (host, port, path)) :
    ParsedBoth s (.doh ip host (pathOrDefault path))
      (.doh host (port.getD 443) (pathOrDefault path))
  | dot {rest host path : Str} {port : Option UInt16} {ip : IpAddr}
    (noHttps : stripStart "https://".toList (trim s) = none)
    (scheme : stripStart "tls://".toList (trim s) = some rest)
    (split : ResolverSpec.splitAuthorityPath rest = (host, port, path)) :
    ParsedBoth s (.dot ip host) (.dot host (port.getD 853))
  | plain {addr : SocketAddr} (noHttps : stripStart "https://".toList (trim s) = none)
    (noTls : stripStart "tls://".toList (trim s) = none) :
    ParsedBoth s (.plain addr) (.plain addr.ip.toStr addr.port)

section Both

variable {toSocketAddrs : ToSocketAddrs} {s body : Str} {allow : Bool} {addr : SocketAddr}
  {spec : ResolverSpec} {e : Endpoint}

theorem Endpoint.parsePlain_of_addr (h : ResolverSpec.parseIpAddr body = .ok addr) :
    Endpoint.parsePlain s body allow = .ok (.plain addr.ip.toStr addr.port) := by
  have h' : Endpoint.parseIpAddr body = .ok addr := h
  rw [Endpoint.parsePlain, h']

/-- Without an encrypted scheme a named resolver is plain, and has an address where it has no
scheme. -/
theorem Endpoint.parse_eq_parsePlain (hsystem : ¬(trim s = [] ∨
      asciiLowercase (trim s) = "system".toList))
    (hhttps : stripStart "https://".toList (trim s) = none)
    (htls : stripStart "tls://".toList (trim s) = none) :
    Endpoint.parse s = Endpoint.parsePlain (trim s)
      (((stripStart "udp://".toList (trim s)).or (stripStart "tcp://".toList (trim s))).getD (trim s))
      ((stripStart "udp://".toList (trim s)).or (stripStart "tcp://".toList (trim s))).isSome := by
  rw [Endpoint.parse, if_neg hsystem, hhttps, htls]
  cases stripStart "udp://".toList (trim s) with
  | some rest => rfl
  | none =>
    cases stripStart "tcp://".toList (trim s) with
    | some rest => rfl
    | none => rfl

/-- An inline encrypted resolver is one whose host has an address. -/
theorem ResolverSpec.eq_of_bootstrap {found : Except Str IpAddr} {text : Str → Str}
    {build : IpAddr → ResolverSpec}
    (h : (match found with
      | .error e => .error (text e)
      | .ok ip => .ok (build ip)) = Except.ok spec) : ∃ ip, spec = build ip := by
  cases found with
  | error e => exact absurd h nofun
  | ok ip => exact ⟨ip, (Except.ok.inj h).symm⟩

theorem Endpoint.eq_of_host {host text : Str} {built : Endpoint}
    (h : (if host = [] then .error text else .ok built) = Except.ok e) : e = built := by
  split_ifs at h
  exact (Except.ok.inj h).symm

theorem parsedBoth_of_parse (hspec : ResolverSpec.parse toSocketAddrs s = .ok spec)
    (he : Endpoint.parse s = .ok e) : ParsedBoth s spec e := by
  rw [ResolverSpec.parse] at hspec
  by_cases hsystem : trim s = [] ∨ asciiLowercase (trim s) = "system".toList
  · rw [Endpoint.parse] at he
    rw [if_pos hsystem] at hspec he
    obtain rfl := Except.ok.inj hspec
    obtain rfl := Except.ok.inj he
    exact .system hsystem
  rw [if_neg hsystem] at hspec
  cases hhttps : stripStart "https://".toList (trim s) with
  | some rest =>
    rw [Endpoint.parse, if_neg hsystem] at he
    rcases hsplit : ResolverSpec.splitAuthorityPath rest with ⟨host, port, path⟩
    simp only [hhttps, Endpoint.splitAuthorityPath_eq, hsplit] at hspec he
    obtain ⟨ip, rfl⟩ := ResolverSpec.eq_of_bootstrap hspec
    obtain rfl := Endpoint.eq_of_host he
    exact .doh hhttps hsplit
  | none =>
    cases htls : stripStart "tls://".toList (trim s) with
    | some rest =>
      rw [Endpoint.parse, if_neg hsystem] at he
      rcases hsplit : ResolverSpec.splitAuthorityPath rest with ⟨host, port, path⟩
      simp only [hhttps, htls, Endpoint.splitAuthorityPath_eq, hsplit] at hspec he
      obtain ⟨ip, rfl⟩ := ResolverSpec.eq_of_bootstrap hspec
      obtain rfl := Endpoint.eq_of_host he
      exact .dot hhttps htls hsplit
    | none =>
      simp only [hhttps, htls] at hspec
      cases haddr : ResolverSpec.parseIpAddr (((stripStart "udp://".toList (trim s)).or
          (stripStart "tcp://".toList (trim s))).getD (trim s)) with
      | error text =>
        rw [haddr] at hspec
        exact absurd hspec nofun
      | ok addr =>
        rw [haddr] at hspec
        rw [Endpoint.parse_eq_parsePlain hsystem hhttps htls,
          Endpoint.parsePlain_of_addr haddr] at he
        obtain rfl := Except.ok.inj hspec
        obtain rfl := Except.ok.inj he
        exact .plain hhttps htls

/-- Where the text gives an encrypted resolver a port, it is the protocol's default one. -/
def PortIsDefault (s : Str) : Prop :=
  (∀ rest port, stripStart "https://".toList (trim s) = some rest →
      (ResolverSpec.splitAuthorityPath rest).2.1 = some port → port = 443) ∧
    ∀ rest port, stripStart "tls://".toList (trim s) = some rest →
      (ResolverSpec.splitAuthorityPath rest).2.1 = some port → port = 853

/-- A scheme is neither nothing nor `system`. -/
theorem stripStart_eq_none_of_system {c : Char} {scheme : Str} (hc : c.toLower ≠ 's')
    (h : s = [] ∨ asciiLowercase s = "system".toList) : stripStart (c :: scheme) s = none := by
  rw [Option.eq_none_iff_forall_ne_some]
  rintro rest hrest
  have hs := stripStart_eq_some.mp hrest
  rcases h with rfl | h
  · exact absurd hs (by simp)
  · rw [← hs] at h
    exact hc (List.cons.inj h).1

theorem getD_eq_iff {port : Option UInt16} {d : UInt16} :
    port.getD d = d ↔ ∀ p, port = some p → p = d := by
  cases port <;> simp

theorem portIsDefault_of_neither (hhttps : stripStart "https://".toList (trim s) = none)
    (htls : stripStart "tls://".toList (trim s) = none) : PortIsDefault s := by
  refine ⟨fun rest _ h ↦ ?_, fun rest _ h ↦ ?_⟩
  · rw [hhttps] at h
    exact absurd h nofun
  · rw [htls] at h
    exact absurd h nofun

section Ports

variable {rest host path : Str} {port : Option UInt16}

theorem portIsDefault_of_https (scheme : stripStart "https://".toList (trim s) = some rest)
    (split : ResolverSpec.splitAuthorityPath rest = (host, port, path)) :
    PortIsDefault s ↔ port.getD 443 = 443 := by
  have htls : stripStart "tls://".toList (trim s) = none := by
    rw [Option.eq_none_iff_forall_ne_some]
    intro rest' h
    have heq := (stripStart_eq_some.mp scheme).trans (stripStart_eq_some.mp h).symm
    exact absurd (List.cons.inj heq).1 (by decide)
  rw [getD_eq_iff]
  constructor
  · rintro ⟨h, -⟩ p rfl
    exact h rest p scheme (by rw [split])
  · refine fun h ↦ ⟨fun rest' p hrest hp ↦ h p ?_, fun rest' p hrest ↦ ?_⟩
    · rw [scheme] at hrest
      rw [← hp, ← Option.some.inj hrest, split]
    · rw [htls] at hrest
      exact absurd hrest nofun

theorem portIsDefault_of_tls (noHttps : stripStart "https://".toList (trim s) = none)
    (scheme : stripStart "tls://".toList (trim s) = some rest)
    (split : ResolverSpec.splitAuthorityPath rest = (host, port, path)) :
    PortIsDefault s ↔ port.getD 853 = 853 := by
  rw [getD_eq_iff]
  constructor
  · rintro ⟨-, h⟩ p rfl
    exact h rest p scheme (by rw [split])
  · refine fun h ↦ ⟨fun rest' p hrest ↦ ?_, fun rest' p hrest hp ↦ h p ?_⟩
    · rw [noHttps] at hrest
      exact absurd hrest nofun
    · rw [scheme] at hrest
      rw [← hp, ← Option.some.inj hrest, split]

end Ports

theorem connections_of_mem {ips : List IpAddr} {port : UInt16}
    {build : IpAddr → NameServerConfig} {ns : NameServerConfig} {protocols : List ProtocolConfig}
    (hbuild : ∀ ip, (build ip).connections.map ConnectionConfig.protocol = protocols)
    (h : ns ∈ Endpoint.nameServersOn ips port build) :
    ns.connections = protocols.map fun p ↦ ⟨p, port⟩ := by
  obtain ⟨ip, -, rfl⟩ := List.mem_map.mp h
  rw [← hbuild ip, NameServerConfig.setPort, List.map_map]
  rfl

/-- A resolver with one connection, and its inline form on the default port. -/
theorem connections_eq_iff_of_single {protocol : ProtocolConfig} {port d : UInt16}
    {build : IpAddr → NameServerConfig}
    (hbuild : ∀ ip, (build ip).connections.map ConnectionConfig.protocol = [protocol]) :
    (∀ dialIps, ∀ ns ∈ Endpoint.nameServersOn dialIps port build,
      ns.connections.map ConnectionConfig.protocol = [protocol]) ∧
    ((∀ dialIps, ∀ ns ∈ Endpoint.nameServersOn dialIps port build,
      ns.connections = [⟨protocol, d⟩]) ↔ port = d) := by
  refine ⟨fun dialIps ns hns ↦ ?_, fun h ↦ ?_, fun h dialIps ns hns ↦ ?_⟩
  · rw [connections_of_mem hbuild hns]
    rfl
  · have hmem : (build (.v4 0)).setPort port ∈
        Endpoint.nameServersOn [.v4 0] port build := List.mem_singleton_self _
    have hns := h _ _ hmem
    rw [connections_of_mem hbuild hmem] at hns
    exact (ConnectionConfig.mk.inj (List.cons.inj hns).1).2
  · rw [connections_of_mem hbuild hns, h]
    rfl

/-- **Inline and named.** What a text that both parsers accept is to either of them is spoken to
with the same protocol, TLS name and path; and it is dialed on the same port exactly when the text
gives an encrypted resolver no port but the default one. -/
theorem connections_eq_iff {lib : NameServerLib} (hlib : lib.Documented)
    (hspec : ResolverSpec.parse toSocketAddrs s = .ok spec) (he : Endpoint.parse s = .ok e) :
    (∀ dialIps, ∀ ns ∈ e.nameServers lib dialIps,
      ns.connections.map ConnectionConfig.protocol =
        (spec.nameServer lib).connections.map ConnectionConfig.protocol) ∧
    ((∀ dialIps, ∀ ns ∈ e.nameServers lib dialIps,
      ns.connections = (spec.nameServer lib).connections) ↔ PortIsDefault s) := by
  cases parsedBoth_of_parse hspec he with
  | system hsystem =>
    have hhttps : stripStart "https://".toList (trim s) = none :=
      stripStart_eq_none_of_system (by decide) hsystem
    have htls : stripStart "tls://".toList (trim s) = none :=
      stripStart_eq_none_of_system (by decide) hsystem
    have hsame : ∀ dialIps, ∀ ns ∈ Endpoint.system.nameServers lib dialIps,
        ns = systemNameServer lib := fun _ _ hns ↦ List.mem_singleton.mp hns
    refine ⟨fun dialIps ns hns ↦ ?_, fun _ ↦ portIsDefault_of_neither hhttps htls,
      fun _ dialIps ns hns ↦ ?_⟩
    all_goals
      rw [hsame dialIps ns hns]
      rfl
  | @doh rest host path port ip hrest hsplit =>
    have hinline : ((ResolverSpec.doh ip host (pathOrDefault path)).nameServer lib).connections =
        [⟨.https host (pathOrDefault path), 443⟩] := by
      rw [ResolverSpec.nameServer, hlib.https]
    rw [portIsDefault_of_https hrest hsplit, hinline]
    exact connections_eq_iff_of_single fun ip ↦ by
      rw [hlib.https]
      rfl
  | @dot rest host path port ip hhttps hrest hsplit =>
    have hinline : ((ResolverSpec.dot ip host).nameServer lib).connections =
        [⟨.tls host, 853⟩] := by
      rw [ResolverSpec.nameServer, hlib.tls]
    rw [portIsDefault_of_tls hhttps hrest hsplit, hinline]
    exact connections_eq_iff_of_single fun ip ↦ by
      rw [hlib.tls]
      rfl
  | @plain addr hhttps htls =>
    have hinline : ((ResolverSpec.plain addr).nameServer lib).connections =
        [ProtocolConfig.udp, .tcp].map fun p ↦ ⟨p, addr.port⟩ := by
      rw [ResolverSpec.nameServer, hlib.udpAndTcp]
      rfl
    have hnamed : ∀ dialIps,
        ∀ ns ∈ (Endpoint.plain addr.ip.toStr addr.port).nameServers lib dialIps,
        ns.connections = [ProtocolConfig.udp, .tcp].map fun p ↦ ⟨p, addr.port⟩ :=
      fun dialIps ns hns ↦ connections_of_mem (fun ip ↦ by rw [hlib.udpAndTcp]; rfl) hns
    refine ⟨fun dialIps ns hns ↦ ?_, fun _ ↦ portIsDefault_of_neither hhttps htls,
      fun _ dialIps ns hns ↦ ?_⟩
    all_goals rw [hnamed dialIps ns hns, hinline]

end Both

/-- The library as documented. -/
def documentedLib : NameServerLib where
  https ip name path := ⟨ip, [⟨.https name (path.getD "/dns-query".toList), 443⟩]⟩
  tls ip name := ⟨ip, [⟨.tls name, 853⟩]⟩
  udpAndTcp ip := ⟨ip, [⟨.udp, 53⟩, ⟨.tcp, 53⟩]⟩

theorem documented_documentedLib : documentedLib.Documented :=
  ⟨fun _ _ _ ↦ rfl, fun _ _ ↦ rfl, fun _ ↦ rfl⟩

/-- Without a port, `https://9.9.9.9` means the same inline and named. -/
theorem connections_eq_of_quad9 :
    ((Endpoint.doh "9.9.9.9".toList 443 "/dns-query".toList).nameServers documentedLib
      [.v4 0x09090909#32]).map NameServerConfig.connections =
    [((ResolverSpec.doh (.v4 0x09090909#32) "9.9.9.9".toList
      "/dns-query".toList).nameServer documentedLib).connections] := by
  have hspec : ResolverSpec.parse (fun _ _ ↦ .error []) "https://9.9.9.9".toList =
      .ok (.doh (.v4 0x09090909#32) "9.9.9.9".toList "/dns-query".toList) := by decide +kernel
  have he : Endpoint.parse "https://9.9.9.9".toList =
      .ok (.doh "9.9.9.9".toList 443 "/dns-query".toList) := by decide +kernel
  have hrest : stripStart "https://".toList (trim "https://9.9.9.9".toList) =
      some "9.9.9.9".toList := by decide +kernel
  have hsplit : ResolverSpec.splitAuthorityPath "9.9.9.9".toList =
      ("9.9.9.9".toList, none, []) := by decide +kernel
  have hsame := (connections_eq_iff documented_documentedLib hspec he).2.mpr
    ((portIsDefault_of_https hrest hsplit).mpr rfl)
  exact congrArg (fun connections ↦ [connections])
    (hsame [.v4 0x09090909#32] _ (List.mem_singleton_self _))

/-- `tls://1.1.1.1:8853` is dialed on port 853 where it stands inline. -/
theorem not_connections_eq : ¬∀ lib : NameServerLib, lib.Documented → ∀ toSocketAddrs s spec e,
    ResolverSpec.parse toSocketAddrs s = .ok spec → Endpoint.parse s = .ok e →
    ∀ dialIps, ∀ ns ∈ e.nameServers lib dialIps,
      ns.connections = (spec.nameServer lib).connections := by
  intro h
  have hspec : ResolverSpec.parse (fun _ _ ↦ .error []) "tls://1.1.1.1:8853".toList =
      .ok (.dot (.v4 0x01010101#32) "1.1.1.1".toList) := by decide +kernel
  have he : Endpoint.parse "tls://1.1.1.1:8853".toList =
      .ok (.dot "1.1.1.1".toList 8853) := by decide +kernel
  have heq := h documentedLib documented_documentedLib _ _ _ _ hspec he [.v4 0x01010101#32]
    ⟨.v4 0x01010101#32, [⟨.tls "1.1.1.1".toList, 8853⟩]⟩ (by decide +kernel)
  revert heq
  decide +kernel

end SniGate
