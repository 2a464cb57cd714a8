import SniGate.Certscope.Fingerprint
import SniGate.Config.Resolve

/-!
# Certificate scopes

A scope names a set of routes whose hosts may share a certificate. It is a digest of the routing
table's fingerprint and of the route's forwarding target, rendered into one text, behind a readable
summary.

## The rendering

`canonical` concatenates configured strings with fixed texts between them and escapes nothing, and
writes an absent value as `reflect` or `-`. Two targets are `Distinguishable` when no pair of fields
can be confused by that: then the rendering determines both the fingerprint and the target, up to
the order of the pins (`canonical_inj`).
-/

namespace SniGate

/-! ## Forwarding targets -/

/-- Where a route sends a connection, and what decides that. -/
inductive UpstreamIdentity
  /-- A fixed host, or the reflected routing key. -/
  | direct (host : Option Str) (family : AddressFamily) (nat64 : Option Str) (addrResolver : Str)
  /-- A named pool's current best endpoint. -/
  | pool (name : Str)
deriving DecidableEq, Repr

/-- The identity of an ECH source. -/
@[ext]
structure EchIdentity where
  mode : EchMode
  domain : Option Str
  resolver : Str
  /-- Whether an inline value is configured. -/
  inlineConfig : Bool
deriving DecidableEq, Repr

/-- Everything about a route that determines how a connection is forwarded. -/
@[ext]
structure Forwarding where
  routeType : RouteType
  upstream : UpstreamIdentity
  port : UInt16
  sni : SniPolicy
  ech : Option EchIdentity
  verify : EffectiveVerify
deriving DecidableEq, Repr

/-! ## Rendering -/

/-- Stands in for the dial host of a reflecting route. -/
def reflectText : Str := "reflect".toList

/-- The part of the rendering that tells where a connection goes. -/
def upstreamText : UpstreamIdentity → Str
  | .direct host family nat64 addrResolver =>
    "host=".toList ++ (host.getD reflectText ++ (";family=".toList ++ (family.debug ++
      (";nat64=".toList ++ (nat64.getD ['-'] ++ (";addr_resolver=".toList ++ addrResolver))))))
  | .pool name => "pool=".toList ++ name

/-- `sni_str`. -/
def sniStr : SniPolicy → Str
  | .reflect => "reflect".toList
  | .omitted => "omit".toList
  | .fixed name => "fixed:".toList ++ name

/-- The part of the rendering that tells the ECH source. -/
def echText : Option EchIdentity → Str
  | some e =>
    "mode:".toList ++ (e.mode.debug ++ (",domain:".toList ++ (e.domain.getD ['-'] ++
      (",resolver:".toList ++ (e.resolver ++ (",inline:".toList ++ boolText e.inlineConfig))))))
  | none => ['-']

/-- The rendering of a scope's full identity. -/
def canonical (routerFp : UInt64) (f : Forwarding) : Str :=
  "router=".toList ++ (hex16 routerFp ++ (";type=".toList ++ (f.routeType.str ++ (';' ::
    (upstreamText f.upstream ++ (";port=".toList ++ (decimal f.port.toNat ++ (";sni=".toList ++
      (sniStr f.sni ++ (";ech=".toList ++ (echText f.ech ++ (";verify=".toList ++
        (f.verify.canonical ++ [';'])))))))))))))

/-! ## Digests -/

/-- One step of FNV-1a. -/
def fnv1aStep (h : UInt64) (b : UInt8) : UInt64 := (h ^^^ b.toUInt64) * 0x00000100000001b3

/-- FNV-1a, 64-bit. -/
def fnv1a (bytes : Bytes) : UInt64 := bytes.foldl fnv1aStep 0xcbf29ce484222325

/-- `router_fingerprint`. -/
def routerFingerprint (patterns : List (List Str)) (default : Option RouteId)
    (regexes : Map Str RegexDef) : UInt64 :=
  fnv1a (toUtf8 (fingerprintText patterns default regexes))

/-- One character of a path component: what is not safe becomes an underscore, and runs of them
collapse. -/
def sanitizeStep (out : Str) (c : Char) : Str :=
  if isAsciiAlphanumeric c ∨ c = '.' ∨ c = '-' then out ++ [c]
  else if out.getLast? = some '_' then out
  else out ++ ['_']

/-- Reduce a text to characters that are safe in a path component. -/
def sanitize (s : Str) : Str :=
  let trimmed := trimEndMatches '.' ((s.foldl sanitizeStep []).dropWhile (· = '.'))
  if trimmed = [] then ['_'] else trimmed

/-- A certificate partition: the key that names it. -/
abbrev CertScope := Str

/-- The dial host, or the pool, as the readable part of a key shows it. -/
def summaryHost : UpstreamIdentity → Str
  | .direct host _ _ _ => host.getD reflectText
  | .pool name => "pool.".toList ++ name

/-- The scope of a route with forwarding target `f`, in a table with fingerprint `routerFp`. -/
def CertScope.new (routerFp : UInt64) (f : Forwarding) : CertScope :=
  let readable := sanitize (f.routeType.str ++ '_' :: (summaryHost f.upstream ++ '_' ::
    decimal f.port.toNat))
  readable ++ '-' :: hex16 (fnv1a (toUtf8 (canonical routerFp f)))

/-! ## Reading it back -/

/-- Two upstream identities whose renderings cannot be confused. -/
def UpstreamIdentity.Distinguishable : UpstreamIdentity → UpstreamIdentity → Prop
  | .direct host _ nat64 addrResolver, .direct host' _ nat64' addrResolver' =>
    ToldApart reflectText ";family=".toList host host' ∧
      ToldApart ['-'] ";addr_resolver=".toList nat64 nat64' ∧
      Apart ";port=".toList addrResolver addrResolver'
  | .pool name, .pool name' => Apart ";port=".toList name name'
  | _, _ => True

/-- Two policies for the presented name whose renderings cannot be confused. -/
def SniPolicy.Distinguishable : SniPolicy → SniPolicy → Prop
  | .fixed name, .fixed name' => Apart ";ech=".toList name name'
  | _, _ => True

/-- Two ECH sources whose renderings cannot be confused. -/
structure EchIdentity.Distinguishable (e e' : EchIdentity) : Prop where
  domain : ToldApart ['-'] ",resolver:".toList e.domain e'.domain
  resolver : Apart ",inline:".toList e.resolver e'.resolver

/-- Two forwarding targets no field of which the rendering can confuse. -/
structure Distinguishable (f g : Forwarding) : Prop where
  upstream : f.upstream.Distinguishable g.upstream
  sni : f.sni.Distinguishable g.sni
  ech : ∀ e ∈ f.ech, ∀ e' ∈ g.ech, e.Distinguishable e'
  caFile : ToldApart ['-'] ",webpki:".toList f.verify.caFile g.verify.caFile

/-- The same target, up to the order of the pins. -/
def SameTarget (f g : Forwarding) : Prop :=
  ∃ pins, pins.Perm f.verify.pins ∧ g = { f with verify := { f.verify with pins } }

section SameTarget

variable {f g : Forwarding}

theorem SameTarget.upstream (h : SameTarget f g) : f.upstream = g.upstream := by
  obtain ⟨_, -, rfl⟩ := h
  rfl

theorem SameTarget.port (h : SameTarget f g) : f.port = g.port := by
  obtain ⟨_, -, rfl⟩ := h
  rfl

theorem SameTarget.ech (h : SameTarget f g) : f.ech = g.ech := by
  obtain ⟨_, -, rfl⟩ := h
  rfl

end SameTarget

section Read

variable {r r' : Str}

theorem not_semicolon_mem_decimal (n : ℕ) : ';' ∉ decimal n :=
  not_isDigit_mem_decimal (by decide) n

theorem upstream_of_text {u u' : UpstreamIdentity} (hd : u.Distinguishable u')
    (h : upstreamText u ++ (";port=".toList ++ r) = upstreamText u' ++ (";port=".toList ++ r')) :
    u = u' ∧ r = r' := by
  cases u with
  | direct host family nat64 addrResolver =>
    cases u' with
    | direct host' family' nat64' addrResolver' =>
      obtain ⟨hhost, hnat64, haddr⟩ := hd
      have hfamilies : Apart ";nat64=".toList family.debug family'.debug := by
        cases family <;> cases family' <;> decide
      unfold upstreamText at h
      simp only [List.append_assoc] at h
      obtain ⟨hh, h₁⟩ := (by decide : Separates ";family=".toList).optional_inj hhost
        (List.append_cancel_left h)
      obtain ⟨hf, h₂⟩ := (by decide : Separates ";nat64=".toList).field_inj hfamilies h₁
      obtain ⟨hn, h₃⟩ := (by decide : Separates ";addr_resolver=".toList).optional_inj hnat64 h₂
      obtain ⟨ha, h₄⟩ := (by decide : Separates ";port=".toList).field_inj haddr h₃
      have hff : family = family' := by
        cases family <;> cases family' <;> first | rfl | exact absurd hf (by decide)
      exact ⟨by rw [hh, hff, hn, ha], h₄⟩
    | pool name =>
      exact absurd h (append_ne_of_head (a := 'h') (b := 'p') rfl rfl (by decide))
  | pool name =>
    cases u' with
    | direct =>
      exact absurd h (append_ne_of_head (a := 'p') (b := 'h') rfl rfl (by decide))
    | pool name' =>
      unfold upstreamText at h
      simp only [List.append_assoc] at h
      obtain ⟨hname, hrest⟩ := (by decide : Separates ";port=".toList).field_inj hd
        (List.append_cancel_left h)
      exact ⟨by rw [hname], hrest⟩

theorem sni_of_text {s s' : SniPolicy} (hd : s.Distinguishable s')
    (h : sniStr s ++ (";ech=".toList ++ r) = sniStr s' ++ (";ech=".toList ++ r')) :
    s = s' ∧ r = r' := by
  cases s with
  | reflect =>
    cases s' with
    | reflect => exact ⟨rfl, List.append_cancel_left (List.append_cancel_left h)⟩
    | omitted => exact absurd h (append_ne_of_head (a := 'r') (b := 'o') rfl rfl (by decide))
    | fixed => exact absurd h (append_ne_of_head (a := 'r') (b := 'f') rfl rfl (by decide))
  | omitted =>
    cases s' with
    | reflect => exact absurd h (append_ne_of_head (a := 'o') (b := 'r') rfl rfl (by decide))
    | omitted => exact ⟨rfl, List.append_cancel_left (List.append_cancel_left h)⟩
    | fixed => exact absurd h (append_ne_of_head (a := 'o') (b := 'f') rfl rfl (by decide))
  | fixed name =>
    cases s' with
    | reflect => exact absurd h (append_ne_of_head (a := 'f') (b := 'r') rfl rfl (by decide))
    | omitted => exact absurd h (append_ne_of_head (a := 'f') (b := 'o') rfl rfl (by decide))
    | fixed name' =>
      unfold sniStr at h
      simp only [List.append_assoc] at h
      obtain ⟨hname, hrest⟩ := (by decide : Separates ";ech=".toList).field_inj hd
        (List.append_cancel_left h)
      exact ⟨by rw [hname], hrest⟩

theorem boolText_inj {b b' : Bool} (h : boolText b = boolText b') : b = b' := by
  cases b <;> cases b' <;> first | rfl | exact absurd h (by decide)

theorem ech_of_text {e e' : Option EchIdentity}
    (hd : ∀ i ∈ e, ∀ i' ∈ e', i.Distinguishable i')
    (h : echText e ++ (";verify=".toList ++ r) = echText e' ++ (";verify=".toList ++ r')) :
    e = e' ∧ r = r' := by
  cases e with
  | none =>
    cases e' with
    | none => exact ⟨rfl, List.append_cancel_left (List.append_cancel_left h)⟩
    | some => exact absurd h (append_ne_of_head (a := '-') (b := 'm') rfl rfl (by decide))
  | some e =>
    cases e' with
    | none => exact absurd h (append_ne_of_head (a := 'm') (b := '-') rfl rfl (by decide))
    | some e' =>
      obtain ⟨hdomain, hresolver⟩ := hd e rfl e' rfl
      have hmodes : Apart ",domain:".toList e.mode.debug e'.mode.debug := by
        cases e.mode <;> cases e'.mode <;> decide
      have hbools :
          Apart ";verify=".toList (boolText e.inlineConfig) (boolText e'.inlineConfig) := by
        cases e.inlineConfig <;> cases e'.inlineConfig <;> decide
      unfold echText at h
      simp only [List.append_assoc] at h
      obtain ⟨hm, h₁⟩ := (by decide : Separates ",domain:".toList).field_inj hmodes
        (List.append_cancel_left h)
      obtain ⟨hd, h₂⟩ := (by decide : Separates ",resolver:".toList).optional_inj hdomain h₁
      obtain ⟨hr, h₃⟩ := (by decide : Separates ",inline:".toList).field_inj hresolver h₂
      obtain ⟨hb, h₄⟩ := (by decide : Separates ";verify=".toList).field_inj hbools h₃
      have hmode : e.mode = e'.mode := by
        cases hem : e.mode <;> cases hem' : e'.mode <;> rw [hem, hem'] at hm <;>
          first | rfl | exact absurd hm (by decide)
      exact ⟨congrArg some (EchIdentity.ext hmode hd hr (boolText_inj hb)), h₄⟩

/-- Policies that a rendering of the whole cannot tell apart are equal up to the order of the
pins. -/
theorem verify_of_text {ext : Externals} (hext : ext.Sound) {v w : EffectiveVerify}
    (hv : v.Checked ext) (hw : w.Checked ext)
    (hca : ToldApart ['-'] ",webpki:".toList v.caFile w.caFile)
    (h : v.canonical ++ [';'] = w.canonical ++ [';']) :
    v.pins.Perm w.pins ∧ w = { v with pins := w.pins } := by
  have hmodes : Apart ",name:".toList v.mode.asStr w.mode.asStr := by
    cases v.mode <;> cases w.mode <;> decide
  have hpins : ∀ {u : EffectiveVerify}, u.Checked ext → ']' ∉ join [','] (sortTexts u.pins) := by
    intro u hu hin
    obtain ⟨pin, hpin, hc⟩ := (mem_join_iff (by decide)).mp hin
    obtain ⟨raw, hraw⟩ := hu.pins pin (mem_sortTexts.mp hpin)
    exact (notMem_pin hext hraw).2 hc
  have hcomma : ∀ {u : EffectiveVerify}, u.Checked ext → ∀ pin ∈ u.pins, ',' ∉ pin := by
    intro u hu pin hpin
    obtain ⟨raw, hraw⟩ := hu.pins pin hpin
    exact (notMem_pin hext hraw).1
  have hne : ∀ {u : EffectiveVerify}, u.Checked ext → ∀ pin ∈ u.pins, pin ≠ [] := by
    intro u hu pin hpin
    obtain ⟨raw, hraw⟩ := hu.pins pin hpin
    exact pin_ne_nil hraw
  unfold EffectiveVerify.canonical at h
  simp only [List.append_assoc] at h
  obtain ⟨hm, h₁⟩ := (by decide : Separates ",name:".toList).field_inj hmodes
    (List.append_cancel_left h)
  obtain ⟨hn, h₂⟩ := (by decide : Separates ",pins:[".toList).optional_inj
    (hv.name_toldApart hext hw) h₁
  obtain ⟨hp, h₃⟩ := (by decide : Separates "],ca:".toList).field_inj
    (apart_of_head rfl (hpins hv) (hpins hw)) h₂
  obtain ⟨hc, h₄⟩ := (by decide : Separates ",webpki:".toList).optional_inj hca h₃
  have hmode : v.mode = w.mode := by
    cases hvm : v.mode <;> cases hwm : w.mode <;> rw [hvm, hwm] at hm <;>
      first | rfl | exact absurd hm (by decide)
  have hperm : v.pins.Perm w.pins :=
    (sameTexts_of_join (hcomma hv) (hcomma hw) hp).perm (hne hv) (hne hw)
  exact ⟨hperm, EffectiveVerify.ext hmode.symm hn.symm rfl hc.symm
    (boolText_inj (List.append_cancel_right h₄)).symm⟩

/-- **The rendering determines the identity.** -/
theorem canonical_inj {ext : Externals} (hext : ext.Sound) {a b : UInt64} {f g : Forwarding}
    (hf : f.verify.Checked ext) (hg : g.verify.Checked ext) (hd : Distinguishable f g)
    (h : canonical a f = canonical b g) : a = b ∧ SameTarget f g := by
  have htypes : Apart [';'] f.routeType.str g.routeType.str := by
    cases f.routeType <;> cases g.routeType <;> decide
  have hports : Apart ";sni=".toList (decimal f.port.toNat) (decimal g.port.toNat) :=
    apart_of_head rfl (not_semicolon_mem_decimal _) (not_semicolon_mem_decimal _)
  unfold canonical at h
  obtain ⟨hfp, h₁⟩ := List.append_inj (List.append_cancel_left h) (by simp)
  obtain ⟨ht, h₂⟩ := (by decide : Separates [';']).field_inj htypes (List.append_cancel_left h₁)
  obtain ⟨hu, h₃⟩ := upstream_of_text hd.upstream h₂
  obtain ⟨hp, h₄⟩ := (by decide : Separates ";sni=".toList).field_inj hports h₃
  obtain ⟨hs, h₅⟩ := sni_of_text hd.sni h₄
  obtain ⟨he, h₆⟩ := ech_of_text hd.ech h₅
  obtain ⟨hperm, hv⟩ := verify_of_text hext hf hg hd.caFile h₆
  have htype : f.routeType = g.routeType := by
    cases hft : f.routeType <;> cases hgt : g.routeType <;> rw [hft, hgt] at ht <;>
      first | rfl | exact absurd ht (by decide)
  exact ⟨hex16_injective hfp, g.verify.pins, hperm.symm,
    Forwarding.ext htype.symm hu.symm (UInt16.toNat_inj.mp (decimal_injective hp)).symm hs.symm
      he.symm hv⟩

/-- **Scopes.** Without a collision of digests, targets that get one scope have one rendering. -/
theorem canonical_eq_of_scope_eq {a b : UInt64} {f g : Forwarding}
    (hfnv : fnv1a (toUtf8 (canonical a f)) = fnv1a (toUtf8 (canonical b g)) →
      toUtf8 (canonical a f) = toUtf8 (canonical b g))
    (h : CertScope.new a f = CertScope.new b g) : canonical a f = canonical b g := by
  rw [CertScope.new, CertScope.new] at h
  obtain ⟨-, hdigest⟩ := List.append_inj' h (by simp)
  exact toUtf8_injective (hfnv (hex16_injective (List.cons.inj hdigest).2))

end Read

end SniGate
