import SniGate.Dns.HostParts

/-!
# Ports in named resolvers

An endpoint gives a host and a port as `host:port`, under a scheme or under none, and possibly a
path. Four branches read it, and `port_honoured_iff` says for each which texts it takes for what
they say.

## What goes wrong

The encrypted branches drop a number that is no port and use the default one, and they cut
whatever stands before the path at its last colon, so that an IPv6 address without brackets loses
its last group when that group happens to be decimal. The plain ones refuse such a number. But they
have no notion of a path: after `udp://` and `tcp://` a text with one is cut at its last colon or
taken for a host name as a whole. And they read an address by way of a socket address, of which they
keep no scope id.

## Design choices

What is written is a structure of its parts (`WrittenEndpoint`), any path and any scope id
included, whichever the scheme: what the branches do not provide for belongs to the condition
(`WrittenEndpoint.Kept`) and not to the inputs. The text is compared after trimming, as the parser
trims.
-/

namespace SniGate

/-! ## Endpoints as written -/

/-- The schemes, of which `bare` is none. -/
inductive Scheme
  | https
  | tls
  | udp
  | tcp
  | bare
deriving DecidableEq, Repr

namespace Scheme

def text : Scheme → Str
  | https => "https://".toList
  | tls => "tls://".toList
  | udp => "udp://".toList
  | tcp => "tcp://".toList
  | bare => []

/-- The schemes whose authority is cut by `splitAuthorityPath`. -/
def encrypted : Scheme → Bool
  | https | tls => true
  | udp | tcp | bare => false

def defaultPort : Scheme → UInt16
  | https => 443
  | tls => 853
  | udp | tcp | bare => 53

end Scheme

/-- An endpoint with a host part and a port, and possibly a path. -/
structure WrittenEndpoint where
  scheme : Scheme
  host : Str
  isHostPart : IsHostPart host
  digits : Str
  isDigits : IsDigits digits
  path : Str
  isPath : path = [] ∨ path.head? = some '/'

namespace WrittenEndpoint

variable (w : WrittenEndpoint)

def text : Str := w.scheme.text ++ (w.host ++ ':' :: (w.digits ++ w.path))

/-- The number that the digits denote. -/
def number : ℕ := digitsValue 10 w.digits

end WrittenEndpoint

/-- What the plain branches read after a scheme, where there is no address. -/
def Endpoint.parseNamed (body : Str) : Except Str Endpoint :=
  match rsplitOnce ':' body with
  | some (host, p) =>
    if p ≠ [] ∧ p.all Char.isDigit then
      match parseU16 p with
      | some port => .ok (.plain host port)
      | none => .error "invalid port".toList
    else .ok (.plain body 53)
  | none => .ok (.plain body 53)

/-- The host that an endpoint stores. -/
def Endpoint.storedHost : Endpoint → Option Str
  | system => none
  | doh host _ _ | dot host _ => some host
  | plain target _ => some target

/-- What is stored for a host part: the host part, or the text of the address that it is. -/
def StoredFor (host stored : Str) : Prop :=
  stored = host ∨ ∃ ip, hostIp host = some ip ∧ stored = ip.toStr

/-- The port is honoured or rejected. -/
structure WrittenEndpoint.Honoured (w : WrittenEndpoint) (result : Except Str Endpoint) :
    Prop where
  honoured : ∀ e, result = .ok e →
    e.port.toNat = w.number ∧ ∃ stored, e.storedHost = some stored ∧ StoredFor w.host stored
  rejected : 2 ^ 16 ≤ w.number → ∃ text, result = .error text

/-- The last colon of a path is followed by a number that is no port. -/
def EndsInNoPort (path : Str) : Prop :=
  ∃ start digits, path = start ++ ':' :: digits ∧ IsDigits digits ∧ 2 ^ 16 ≤ digitsValue 10 digits

/-- What is written is kept or refused. Under an encrypted scheme the number is a port. Otherwise
the host part is no address under a numbered zone, if the number is a port; and there is no path,
unless the text is refused for it: without a scheme for any, and with one for a path that ends in a
number that is no port. -/
def WrittenEndpoint.Kept (w : WrittenEndpoint) : Prop :=
  match w.scheme with
  | .https | .tls => w.number < 2 ^ 16
  | .udp | .tcp =>
    w.path = [] ∧ (w.number < 2 ^ 16 → ¬NamesZone w.host) ∨ EndsInNoPort w.path
  | .bare => w.path = [] → w.number < 2 ^ 16 → ¬NamesZone w.host

/-! ## One branch after another -/

section Branches

variable {s rest host path body p : Str} {port : Option UInt16} {scheme : Scheme}

/-- A text with a colon is not the word for the system's resolver. -/
theorem not_system_of_mem (h : ':' ∈ s) : ¬(s = [] ∨ asciiLowercase s = "system".toList) := by
  rintro (rfl | hs)
  · exact absurd h (by simp)
  · have hmem : Char.toLower ':' ∈ asciiLowercase s := List.mem_map_of_mem h
    rw [hs] at hmem
    exact absurd hmem (by decide)

/-- **The encrypted branches** store the host that is cut out, with the port or the default one. -/
theorem parse_of_encrypted (hscheme : scheme.encrypted) (hs : trim s = scheme.text ++ rest)
    (hsplit : Endpoint.splitAuthorityPath rest = (host, port, path)) (hne : host ≠ []) :
    ∃ e, Endpoint.parse s = .ok e ∧ e.storedHost = some host ∧
      e.port = port.getD scheme.defaultPort := by
  have hsystem : ¬(trim s = [] ∨ asciiLowercase (trim s) = "system".toList) := by
    rw [hs]
    cases scheme with
    | https => exact not_system_of_mem (List.mem_append_left _ (by decide))
    | tls => exact not_system_of_mem (List.mem_append_left _ (by decide))
    | _ => exact absurd hscheme (by decide)
  rw [Endpoint.parse, if_neg hsystem, hs]
  cases scheme with
  | https =>
    have hstrip : stripStart "https://".toList (Scheme.https.text ++ rest) = some rest :=
      stripStart_eq_some.mpr rfl
    simp only [hstrip, hsplit, if_neg hne]
    exact ⟨_, rfl, rfl, rfl⟩
  | tls =>
    have hhttps : stripStart "https://".toList (Scheme.tls.text ++ rest) = none := rfl
    have hstrip : stripStart "tls://".toList (Scheme.tls.text ++ rest) = some rest :=
      stripStart_eq_some.mpr rfl
    simp only [hhttps, hstrip, hsplit, if_neg hne]
    exact ⟨_, rfl, rfl, rfl⟩
  | _ => exact absurd hscheme (by decide)

/-- After its host part an endpoint goes on with a digit, and a scheme with a slash. -/
theorem stripStart_scheme {name : Str} (hname : ':' ∉ name) (hne : name.head? ≠ some '[')
    (hnil : name ≠ []) (hh : IsHostPart host) (hp : IsDigits p) :
    stripStart (name ++ "://".toList) (host ++ ':' :: (p ++ path)) = none := by
  rw [Option.eq_none_iff_forall_ne_some]
  intro more hmore
  have hmore := stripStart_eq_some.mp hmore
  cases hh with
  | name text _ hplain =>
    have hcolon : ':' ∉ host := fun hmem ↦ hplain _ hmem (by decide)
    have hsplit := congrArg (splitOnce ':') hmore
    rw [splitOnce_append_cons hcolon, List.append_assoc] at hsplit
    have hscheme : splitOnce ':' (name ++ ("://".toList ++ more)) =
        some (name, '/' :: '/' :: more) := splitOnce_append_cons hname _
    rw [hscheme] at hsplit
    have hrest := (Prod.mk.inj (Option.some.inj hsplit)).2
    obtain ⟨c, p, rfl⟩ := List.exists_cons_of_ne_nil hp.1
    exact hp.notMem (c := '/') (by decide) ((List.cons.inj hrest).1 ▸ List.mem_cons_self)
  | ipv6 text _ =>
    obtain ⟨c, name, rfl⟩ := List.exists_cons_of_ne_nil hnil
    exact hne (congrArg some (List.cons.inj hmore).1)

/-- **The plain branches** allow a name after a scheme. -/
theorem parse_of_plain (hscheme : scheme.encrypted = false) (hh : IsHostPart host)
    (hp : IsDigits p) (hs : trim s = scheme.text ++ (host ++ ':' :: (p ++ path))) :
    Endpoint.parse s =
      Endpoint.parsePlain (trim s) (host ++ ':' :: (p ++ path)) (scheme ≠ .bare) := by
  have hsystem : ¬(trim s = [] ∨ asciiLowercase (trim s) = "system".toList) := by
    rw [hs]
    exact not_system_of_mem (List.mem_append_right _ (by simp))
  rw [Endpoint.parse, if_neg hsystem, hs]
  generalize hbody : host ++ ':' :: (p ++ path) = body
  cases scheme with
  | udp =>
    have hhttps : stripStart "https://".toList (Scheme.udp.text ++ body) = none := rfl
    have htls : stripStart "tls://".toList (Scheme.udp.text ++ body) = none := rfl
    have hstrip : stripStart "udp://".toList (Scheme.udp.text ++ body) = some body :=
      stripStart_eq_some.mpr rfl
    simp only [hhttps, htls, hstrip]
    rfl
  | tcp =>
    have hhttps : stripStart "https://".toList (Scheme.tcp.text ++ body) = none := rfl
    have htls : stripStart "tls://".toList (Scheme.tcp.text ++ body) = none := rfl
    have hudp : stripStart "udp://".toList (Scheme.tcp.text ++ body) = none := rfl
    have hstrip : stripStart "tcp://".toList (Scheme.tcp.text ++ body) = some body :=
      stripStart_eq_some.mpr rfl
    simp only [hhttps, htls, hudp, hstrip]
    rfl
  | bare =>
    have hbare : Scheme.bare.text ++ body = body := rfl
    have hallow : decide (Scheme.bare ≠ Scheme.bare) = false := rfl
    have hnone (name : Str) (hname : ':' ∉ name) (hne : name.head? ≠ some '[') (hnil : name ≠ []) :
        stripStart (name ++ "://".toList) body = none :=
      hbody ▸ stripStart_scheme hname hne hnil hh hp
    have hhttps : stripStart "https://".toList body = none :=
      hnone "https".toList (by decide) (by decide) (by decide)
    have htls : stripStart "tls://".toList body = none :=
      hnone "tls".toList (by decide) (by decide) (by decide)
    have hudp : stripStart "udp://".toList body = none :=
      hnone "udp".toList (by decide) (by decide) (by decide)
    have htcp : stripStart "tcp://".toList body = none :=
      hnone "tcp".toList (by decide) (by decide) (by decide)
    rw [hbare, hallow]
    simp only [hhttps, htls, hudp, htcp]
  | _ => exact absurd hscheme (by decide)

/-- A run of digits after the last colon of the authority is its port. -/
theorem splitAuthorityPath_of_isDigits (hslash : '/' ∉ host) (hp : IsDigits body)
    (hpath : path = [] ∨ path.head? = some '/') :
    Endpoint.splitAuthorityPath (host ++ ':' :: (body ++ path)) = (host, parseU16 body, path) := by
  have hassoc : host ++ ':' :: (body ++ path) = host ++ ':' :: body ++ path := by simp
  have hauthority : '/' ∉ host ++ ':' :: body := by
    simp [hslash, hp.notMem (c := '/') (by decide)]
  obtain ⟨htake, hdrop⟩ := cut_authority hauthority hpath
  unfold Endpoint.splitAuthorityPath
  rw [hassoc, htake, hdrop]
  dsimp only
  rw [rsplitOnce_append (hp.notMem (by decide))]
  dsimp only
  rw [if_pos hp]

/-- After the last colon there is a run of digits. -/
def EndsInDigits (t : Str) : Prop := ∃ start digits, t = start ++ ':' :: digits ∧ IsDigits digits

theorem splitAuthorityPath_of_not_endsInDigits (hslash : '/' ∉ host) (hcolon : ':' ∈ host)
    (hno : ¬EndsInDigits host) (hpath : path = [] ∨ path.head? = some '/') :
    Endpoint.splitAuthorityPath (host ++ path) = (host, none, path) := by
  obtain ⟨htake, hdrop⟩ := cut_authority hslash hpath
  obtain ⟨start, group, hhost, hgroup⟩ := exists_rsplit hcolon
  have hsplit : rsplitOnce ':' host = some (start, group) := by
    rw [hhost, rsplitOnce_append hgroup]
  unfold Endpoint.splitAuthorityPath
  rw [htake, hdrop]
  dsimp only
  rw [hsplit]
  dsimp only
  rw [if_neg fun hdigits ↦ hno ⟨start, group, hhost, hdigits⟩]

end Branches

/-! ## Written ports -/

section Written

variable {w : WrittenEndpoint} {s : Str}

theorem toNat_port {n : ℕ} (h : n < 2 ^ 16) : (UInt16.ofNat n).toNat = n :=
  UInt16.toNat_ofNat_of_lt' h

/-- The encrypted branches honour a port, and drop what is none. -/
theorem honoured_iff_of_encrypted (hscheme : w.scheme.encrypted) (hs : trim s = w.text) :
    w.Honoured (Endpoint.parse s) ↔ w.number < 2 ^ 16 := by
  obtain ⟨e, he, hhost, hport⟩ := parse_of_encrypted hscheme hs
    (splitAuthorityPath_of_isDigits w.isHostPart.notMem_slash w.isDigits w.isPath)
    w.isHostPart.ne_nil
  rw [he]
  constructor
  · intro h
    by_contra hlarge
    -- the port that does not parse has become the default one, without an error
    obtain ⟨text, htext⟩ := h.rejected (Nat.le_of_not_lt hlarge)
    exact absurd htext (by simp)
  · intro hlt
    refine ⟨fun e' he' ↦ ?_, fun hlarge ↦ absurd hlt (Nat.not_lt_of_le hlarge)⟩
    obtain rfl := Except.ok.inj he'
    rw [parseU16_of_isDigits w.isDigits] at hport
    unfold WrittenEndpoint.number at hlt
    rw [if_pos hlt] at hport
    exact ⟨by rw [hport]; exact toNat_port hlt, w.host, hhost, .inl rfl⟩

/-! ### The plain branches -/

theorem honoured_error (text : Str) : w.Honoured (.error text) :=
  ⟨fun _ he ↦ absurd he (by simp), fun _ ↦ ⟨text, rfl⟩⟩

theorem honoured_host (hlt : w.number < 2 ^ 16) :
    w.Honoured (.ok (.plain w.host (UInt16.ofNat w.number))) := by
  refine ⟨fun e he ↦ ?_, fun hlarge ↦ absurd hlt (Nat.not_lt_of_le hlarge)⟩
  obtain rfl := Except.ok.inj he
  exact ⟨toNat_port hlt, w.host, rfl, .inl rfl⟩

/-- The address that is read for the host part is what is stored, without its zone. -/
theorem honoured_address_iff {ip : IpAddr} (hip : hostIpBelow (2 ^ 32) w.host = some ip)
    (hlt : w.number < 2 ^ 16) :
    w.Honoured (.ok (.plain ip.toStr (UInt16.ofNat w.number))) ↔ ¬NamesZone w.host := by
  constructor
  · intro h hzone
    obtain ⟨-, stored, hstored, hfor⟩ := h.honoured _ rfl
    obtain rfl := Option.some.inj hstored
    obtain ⟨-, -, hnone⟩ := hostIp_of_namesZone hzone
    rcases hfor with hsame | ⟨ip', hip', -⟩
    · obtain ⟨text, _, id, hhost, -⟩ := hzone
      refine notMem_toStr (c := '[') (by decide) (by decide) (by decide) ip ?_
      rw [hsame, hhost]
      exact List.mem_cons_self
    · exact absurd (hnone.symm.trans hip') (by simp)
  · intro hzone
    rw [hostIpBelow_of_not_namesZone w.isHostPart hzone] at hip
    refine ⟨fun e he ↦ ?_, fun hlarge ↦ absurd hlt (Nat.not_lt_of_le hlarge)⟩
    obtain rfl := Except.ok.inj he
    exact ⟨toNat_port hlt, ip.toStr, rfl, .inr ⟨ip, hip, rfl⟩⟩

/-- What holds a slash is neither the host part nor an address. -/
theorem not_honoured_of_slash {stored : Str} {port : UInt16} (h : '/' ∈ stored) :
    ¬w.Honoured (.ok (.plain stored port)) := by
  intro hw
  obtain ⟨-, stored', hstored, hfor⟩ := hw.honoured _ rfl
  obtain rfl := Option.some.inj hstored
  rcases hfor with rfl | ⟨ip, -, rfl⟩
  · exact w.isHostPart.notMem_slash h
  · exact notMem_toStr (by decide) (by decide) (by decide) ip h

theorem not_endsInNoPort_of_rsplit {path start tail : Str} (hpath : path = start ++ ':' :: tail)
    (htail : ':' ∉ tail) (hbad : ¬(IsDigits tail ∧ 2 ^ 16 ≤ digitsValue 10 tail)) :
    ¬EndsInNoPort path := by
  rintro ⟨start', digits, hpath', hdigits, hlarge⟩
  have hsame := congrArg (rsplitOnce ':') (hpath.symm.trans hpath')
  rw [rsplitOnce_append htail, rsplitOnce_append (hdigits.notMem (by decide))] at hsame
  obtain rfl := (Prod.mk.inj (Option.some.inj hsame)).2
  exact hbad ⟨hdigits, hlarge⟩

theorem honoured_parseNamed_iff_of_path (hslash : w.path.head? = some '/') :
    w.Honoured (Endpoint.parseNamed (w.host ++ ':' :: (w.digits ++ w.path))) ↔
      EndsInNoPort w.path := by
  have hmem : '/' ∈ w.path := List.mem_of_mem_head? hslash
  unfold Endpoint.parseNamed
  by_cases hcolon : ':' ∈ w.path
  · obtain ⟨start, tail, hpath, htail⟩ := exists_rsplit hcolon
    have hsplit : rsplitOnce ':' (w.host ++ ':' :: (w.digits ++ w.path)) =
        some (w.host ++ ':' :: (w.digits ++ start), tail) := by
      rw [hpath]
      simpa using rsplitOnce_append (h := w.host ++ ':' :: (w.digits ++ start)) htail
    have hstart : '/' ∈ start := by
      cases start with
      | nil => rw [hpath] at hslash; exact absurd hslash (by simp)
      | cons c start =>
        rw [hpath] at hslash
        exact (Option.some.inj hslash) ▸ List.mem_cons_self
    rw [hsplit]
    dsimp only
    by_cases hdigits : IsDigits tail
    · rw [if_pos hdigits, parseU16_of_isDigits hdigits]
      by_cases hlt : digitsValue 10 tail < 2 ^ 16
      · rw [if_pos hlt]
        exact iff_of_false (not_honoured_of_slash (by simp [hstart]))
          (not_endsInNoPort_of_rsplit hpath htail fun h ↦ absurd hlt (Nat.not_lt_of_le h.2))
      · rw [if_neg hlt]
        exact iff_of_true (honoured_error _) ⟨start, tail, hpath, hdigits, Nat.le_of_not_lt hlt⟩
    · rw [if_neg hdigits]
      exact iff_of_false (not_honoured_of_slash (by simp [hmem]))
        (not_endsInNoPort_of_rsplit hpath htail fun h ↦ hdigits h.1)
  · have hsplit : rsplitOnce ':' (w.host ++ ':' :: (w.digits ++ w.path)) =
        some (w.host, w.digits ++ w.path) :=
      rsplitOnce_append (by simp [hcolon, w.isDigits.notMem (c := ':') (by decide)])
    have hdigits : ¬IsDigits (w.digits ++ w.path) := fun h ↦
      h.notMem (c := '/') (by decide) (List.mem_append_right _ hmem)
    rw [hsplit]
    dsimp only
    rw [if_neg hdigits]
    refine iff_of_false (not_honoured_of_slash (by simp [hmem])) ?_
    rintro ⟨start, digits, hpath, -⟩
    exact hcolon (hpath ▸ by simp)

theorem parseNamed_of_isDigits (hpath : w.path = []) :
    Endpoint.parseNamed (w.host ++ ':' :: (w.digits ++ w.path)) =
      if w.number < 2 ^ 16 then .ok (.plain w.host (UInt16.ofNat w.number))
      else .error "invalid port".toList := by
  unfold Endpoint.parseNamed
  rw [hpath, List.append_nil, rsplitOnce_append (w.isDigits.notMem (by decide))]
  dsimp only
  rw [if_pos w.isDigits, parseU16_of_isDigits w.isDigits]
  unfold WrittenEndpoint.number
  split_ifs
  · rfl
  · rfl

theorem parse_eq_of_plain (hscheme : w.scheme.encrypted = false) (hs : trim s = w.text) :
    (∀ ip, w.path = [] → w.number < 2 ^ 16 → hostIpBelow (2 ^ 32) w.host = some ip →
      Endpoint.parse s = .ok (.plain ip.toStr (UInt16.ofNat w.number))) ∧
    (¬(w.path = [] ∧ w.number < 2 ^ 16 ∧ (hostIpBelow (2 ^ 32) w.host).isSome) →
      (w.scheme = .bare → ∃ text, Endpoint.parse s = .error text) ∧
      (w.scheme ≠ .bare →
        Endpoint.parse s = Endpoint.parseNamed (w.host ++ ':' :: (w.digits ++ w.path)))) := by
  rw [parse_of_plain hscheme w.isHostPart w.isDigits hs]
  have hsocket := socketAddr_parse_of_isHostPart w.isHostPart w.isDigits w.isPath
  have hip := parseIpAddr_of_isHostPart w.isHostPart w.isDigits w.isPath
  refine ⟨fun ip hpath hlt hhost ↦ ?_, fun hno ↦ ?_⟩
  · rw [if_pos ⟨hpath, hlt⟩, hhost] at hsocket
    rw [Endpoint.parsePlain, Endpoint.parseIpAddr, hsocket]
    rfl
  · have hnone : SocketAddr.parse (w.host ++ ':' :: (w.digits ++ w.path)) = none := by
      rw [hsocket]
      split_ifs with hplain
      · rw [Option.map_eq_none_iff, ← Option.not_isSome_iff_eq_none]
        exact fun h ↦ hno ⟨hplain.1, hplain.2, h⟩
      · rfl
    rw [Endpoint.parsePlain, Endpoint.parseIpAddr, hnone, hip]
    refine ⟨fun hbare ↦ ?_, fun hbare ↦ ?_⟩
    · exact ⟨_, if_neg (by simp [hbare])⟩
    · exact if_pos (by simp [hbare])

theorem honoured_iff_of_bare (hscheme : w.scheme = .bare) (hs : trim s = w.text) :
    w.Honoured (Endpoint.parse s) ↔ w.Kept := by
  obtain ⟨haddress, hother⟩ := parse_eq_of_plain (by rw [hscheme]; rfl) hs
  unfold WrittenEndpoint.Kept
  rw [hscheme]
  dsimp only
  by_cases hread : w.path = [] ∧ w.number < 2 ^ 16 ∧ (hostIpBelow (2 ^ 32) w.host).isSome
  · obtain ⟨hpath, hlt, hsome⟩ := hread
    obtain ⟨ip, hip⟩ := Option.isSome_iff_exists.mp hsome
    rw [haddress ip hpath hlt hip, honoured_address_iff hip hlt]
    exact ⟨fun h _ _ ↦ h, fun h ↦ h hpath hlt⟩
  · obtain ⟨text, htext⟩ := (hother hread).1 hscheme
    rw [htext]
    refine iff_of_true (honoured_error text) fun hpath hlt hzone ↦ hread ⟨hpath, hlt, ?_⟩
    obtain ⟨ip, hip, -⟩ := hostIp_of_namesZone hzone
    rw [hip]
    rfl

theorem honoured_iff_of_named (hscheme : w.scheme = .udp ∨ w.scheme = .tcp)
    (hs : trim s = w.text) : w.Honoured (Endpoint.parse s) ↔
      w.path = [] ∧ (w.number < 2 ^ 16 → ¬NamesZone w.host) ∨ EndsInNoPort w.path := by
  have hplain : w.scheme.encrypted = false := by rcases hscheme with h | h <;> rw [h] <;> rfl
  have hbare : w.scheme ≠ .bare := by rcases hscheme with h | h <;> rw [h] <;> decide
  obtain ⟨haddress, hother⟩ := parse_eq_of_plain hplain hs
  rcases w.isPath with hpath | hslash
  · have hends : ¬EndsInNoPort w.path := by
      rintro ⟨start, digits, h, -⟩
      exact absurd (hpath.symm.trans h) (by simp)
    rw [or_iff_left hends, and_iff_right hpath]
    by_cases hread : w.number < 2 ^ 16 ∧ (hostIpBelow (2 ^ 32) w.host).isSome
    · obtain ⟨hlt, hsome⟩ := hread
      obtain ⟨ip, hip⟩ := Option.isSome_iff_exists.mp hsome
      rw [haddress ip hpath hlt hip, honoured_address_iff hip hlt]
      exact ⟨fun h _ ↦ h, fun h ↦ h hlt⟩
    · rw [(hother fun h ↦ hread h.2).2 hbare, parseNamed_of_isDigits hpath]
      have hzone : w.number < 2 ^ 16 → ¬NamesZone w.host := fun hlt hzone ↦ by
        obtain ⟨ip, hip, -⟩ := hostIp_of_namesZone hzone
        exact hread ⟨hlt, by rw [hip]; rfl⟩
      refine iff_of_true ?_ hzone
      split_ifs with hlt
      · exact honoured_host hlt
      · exact honoured_error _
  · have hne : w.path ≠ [] := fun h ↦ by rw [h] at hslash; exact absurd hslash (by decide)
    rw [(hother fun h ↦ hne h.1).2 hbare, honoured_parseNamed_iff_of_path hslash]
    exact ⟨.inr, fun h ↦ h.resolve_left fun h ↦ hne h.1⟩

/-! ### IPv6 addresses without brackets -/

/-- An IPv6 address has a colon that is not its first character. -/
theorem ne_nil_of_rsplit {t start group : Str} (h : 2 ≤ t.count ':')
    (ht : t = start ++ ':' :: group) (hgroup : ':' ∉ group) : start ≠ [] := by
  rintro rfl
  rw [ht, List.nil_append, List.count_cons_self, List.count_eq_zero.mpr hgroup] at h
  omega

theorem IsIpv6Literal.two_le_count {t : Str} (h : IsIpv6Literal t) : 2 ≤ t.count ':' := by
  obtain ⟨text, ip, zone, hparse, -⟩ := h
  rw [List.count_append]
  exact le_add_right (two_le_count_of_parseIpv6 hparse)

variable {scheme : Scheme} {t path : Str}

/-- An IPv6 address without brackets stays whole unless it ends in a group of digits. -/
theorem storedHost_iff_of_ipv6 (hscheme : scheme.encrypted) (ht : IsIpv6Literal t)
    (hpath : path = [] ∨ path.head? = some '/') (hs : trim s = scheme.text ++ (t ++ path)) :
    (∀ e, Endpoint.parse s = .ok e → e.storedHost = some t) ↔ ¬EndsInDigits t := by
  have hslash := ht.notMem_slash
  have hcolon : ':' ∈ t := List.count_pos_iff.mp ((Nat.zero_lt_succ 1).trans_le ht.two_le_count)
  constructor
  · rintro h ⟨start, digits, rfl, hdigits⟩
    have hstart : '/' ∉ start := fun hmem ↦ hslash (List.mem_append_left _ hmem)
    rw [List.append_assoc, List.cons_append] at hs
    obtain ⟨e, he, hhost, -⟩ := parse_of_encrypted hscheme hs
      (splitAuthorityPath_of_isDigits hstart hdigits hpath)
      (ne_nil_of_rsplit ht.two_le_count rfl (hdigits.notMem (by decide)))
    have hlen := congrArg List.length (Option.some.inj (hhost.symm.trans (h e he)))
    rw [List.length_append, List.length_cons] at hlen
    omega
  · intro hno e he
    obtain ⟨e', he', hhost, -⟩ := parse_of_encrypted hscheme hs
      (splitAuthorityPath_of_not_endsInDigits hslash hcolon hno hpath) (List.ne_nil_of_mem hcolon)
    obtain rfl := Except.ok.inj (he'.symm.trans he)
    exact hhost

/-- **Ports as written.** An endpoint's host part and port are honoured or rejected exactly when
they are kept; and under an encrypted scheme an IPv6 address without brackets stays whole exactly
when what follows its last colon is not a run of digits. -/
theorem port_honoured_iff (s : Str) :
    (∀ w : WrittenEndpoint, trim s = w.text → (w.Honoured (Endpoint.parse s) ↔ w.Kept)) ∧
    ∀ (scheme : Scheme) (t path : Str), scheme.encrypted → IsIpv6Literal t →
      (path = [] ∨ path.head? = some '/') → trim s = scheme.text ++ (t ++ path) →
      ((∀ e, Endpoint.parse s = .ok e → e.storedHost = some t) ↔ ¬EndsInDigits t) := by
  refine ⟨fun w hs ↦ ?_, fun scheme t path ↦ storedHost_iff_of_ipv6⟩
  cases hscheme : w.scheme with
  | https =>
    rw [honoured_iff_of_encrypted (by rw [hscheme]; rfl) hs, WrittenEndpoint.Kept, hscheme]
  | tls =>
    rw [honoured_iff_of_encrypted (by rw [hscheme]; rfl) hs, WrittenEndpoint.Kept, hscheme]
  | udp => rw [honoured_iff_of_named (.inl hscheme) hs, WrittenEndpoint.Kept, hscheme]
  | tcp => rw [honoured_iff_of_named (.inr hscheme) hs, WrittenEndpoint.Kept, hscheme]
  | bare => exact honoured_iff_of_bare hscheme hs

/-- A number that is no port. -/
def longPort : WrittenEndpoint where
  scheme := .https
  host := "dns.example".toList
  isHostPart := .name _ (by decide) (by simp)
  digits := "70000".toList
  isDigits := by decide
  path := []
  isPath := .inl rfl

/-- A path where the scheme has none. -/
def pathAfterPort : WrittenEndpoint :=
  { longPort with scheme := .udp, digits := "8053".toList, isDigits := by decide, path := ['/'],
                  isPath := .inr rfl }

/-- An address under a zone. -/
def zonedAddress : WrittenEndpoint where
  scheme := .bare
  host := "[fe80::1%1]".toList
  isHostPart := .ipv6 "fe80::1%1".toList (.mk "fe80::1".toList
    0xfe800000000000000000000000000001#128 "%1".toList (by decide +kernel)
    (.inr ⟨['1'], rfl, by simp⟩))
  digits := "53".toList
  isDigits := by decide
  path := []
  isPath := .inl rfl

/-- `https://dns.example:70000` is dialed on port 443, `udp://dns.example:8053/` is the host
`dns.example:8053/` on port 53, `[fe80::1%1]:53` loses its zone, and `tls://2606:4700::1111` is
taken for the host `2606:4700:`. -/
theorem not_port_honoured :
    (¬∀ s, trim s = longPort.text → longPort.Honoured (Endpoint.parse s)) ∧
    (¬∀ s, trim s = pathAfterPort.text → pathAfterPort.Honoured (Endpoint.parse s)) ∧
    (¬∀ s, trim s = zonedAddress.text → zonedAddress.Honoured (Endpoint.parse s)) ∧
    ¬∀ (scheme : Scheme) (t : Str) (s : Str), scheme.encrypted → IsIpv6Literal t →
      trim s = scheme.text ++ t → ∀ e, Endpoint.parse s = .ok e → e.storedHost = some t := by
  refine ⟨fun h ↦ ?_, fun h ↦ ?_, fun h ↦ ?_, fun h ↦ ?_⟩
  · have hok : Endpoint.parse "https://dns.example:70000".toList =
        .ok (.doh "dns.example".toList 443 "/dns-query".toList) := by decide +kernel
    obtain ⟨text, htext⟩ :=
      (h "https://dns.example:70000".toList (by decide +kernel)).rejected (by decide +kernel)
    exact absurd (hok.symm.trans htext) (by simp)
  · have hok : Endpoint.parse "udp://dns.example:8053/".toList =
        .ok (.plain "dns.example:8053/".toList 53) := by decide +kernel
    have hport := ((h "udp://dns.example:8053/".toList (by decide +kernel)).honoured _ hok).1
    revert hport
    decide +kernel
  · have hok : Endpoint.parse "[fe80::1%1]:53".toList = .ok (.plain "fe80::1".toList 53) := by
      decide +kernel
    have hnone : hostIp zonedAddress.host = none := by decide +kernel
    obtain ⟨-, stored, hstored, hfor⟩ :=
      (h "[fe80::1%1]:53".toList (by decide +kernel)).honoured _ hok
    obtain rfl := Option.some.inj hstored
    rcases hfor with hsame | ⟨ip, hip, -⟩
    · exact absurd hsame (by decide)
    · exact absurd (hnone.symm.trans hip) (by simp)
  · have hok : Endpoint.parse "tls://2606:4700::1111".toList =
        .ok (.dot "2606:4700:".toList 1111) := by decide +kernel
    have hliteral : IsIpv6Literal ("2606:4700::1111".toList ++ []) :=
      .mk "2606:4700::1111".toList 0x26064700000000000000000000001111#128 [] (by decide +kernel)
        (.inl rfl)
    have hhost := h .tls _ "tls://2606:4700::1111".toList rfl hliteral (by decide +kernel) _ hok
    revert hhost
    decide +kernel

end Written

end SniGate
