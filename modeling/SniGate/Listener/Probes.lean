import SniGate.Collections.Gathering
import SniGate.Config.ResolverOrder
import SniGate.Dns.Spec
import SniGate.Listener.Build
import Mathlib.Data.List.ReduceOption

/-!
# Probing h2c backends at startup

A route with a fixed upstream that is to be spoken to in h2c gets a probe target when it is built.
Before the listeners accept, the targets are grouped by what a probe of them would connect to, and
each group is probed once, under the strictest policy and the largest budget of its members.

## What stands for a resolver

The key of a group holds the label of the resolver. That of a declared resolver is its name, that of
an inline one is its spec, and nothing keeps a name from reading like a spec: a route that refers to
the declared resolver `system` and one that names the system's resolver are probed as one. Apart
from that the groups are the routes' own (`ownProbes_iff`).

What resolvers answer and what a probe finds are given by `ProbeNet`.
-/

namespace SniGate

/-! ## Resolvers -/

/-- What a resolver was made from: a `[resolvers.*]` entry, or an inline spec and the family it was
built for. -/
inductive ResolverId
  | named (name : Str)
  | inline (spec : Str) (family : AddressFamily)
deriving DecidableEq, Repr

/-- A resolver as routes hold it. -/
structure ResolverHandle where
  /-- What diagnostics call it. -/
  label : Str
  id : ResolverId
deriving DecidableEq, Repr

/-- `get_resolver`. A cached resolver is the one that was built for its spec and family. -/
def getResolver (registry : Map Str ResolverHandle) (toSocketAddrs : ToSocketAddrs)
    (build : ResolverSpec → AddressFamily → Except Str Unit) (spec : Str) (family : AddressFamily) :
    Except Str ResolverHandle :=
  if isResolverRef spec then do
    -- the family is the declared resolver's own
    let name ← orError (stripStart ['@'] (trim spec))
      ["invalid resolver reference ".toList, debugStr spec]
    orError (registry.lookup name) ["unknown resolver @".toList, name]
  else do
    let parsed ← (ResolverSpec.parse toSocketAddrs spec).mapError
      fun _ ↦ "resolver spec ".toList ++ debugStr spec
    (build parsed family).mapError fun _ ↦ "building resolver ".toList ++ debugStr spec
    return ⟨spec, .inline spec family⟩

/-- One declared resolver. What may refuse it, given those before it, is `build`. -/
def buildNamedResolver (build : Str → Map Str ResolverHandle → Except Str Unit)
    (registry : Map Str ResolverHandle) (name : Str) : Except Str (Map Str ResolverHandle) := do
  build name registry
  return registry.insert name ⟨name, .named name⟩

/-- `build_named_resolvers`: the declared resolvers in dependency order. -/
def buildNamedResolvers (cfg : Config) (build : Str → Map Str ResolverHandle → Except Str Unit) :
    Except Str (Map Str ResolverHandle) := do
  let order ← cfg.resolverBuildOrder.mapError ConfigError.display
  order.foldlM (buildNamedResolver build) ∅

/-! ## Targets -/

/-- One backend to probe, collected while its route is built. -/
structure ProbeTarget where
  route : Str
  host : Str
  port : UInt16
  policy : H2Probe
  budget : Duration
  resolver : ResolverHandle
  family : AddressFamily
  nat64 : Option Nat64Prefix
deriving DecidableEq

/-- What startup takes from outside the document: `V` are verifiers, `P` loaded certificates. -/
structure Startup (V P : Type) where
  toSocketAddrs : ToSocketAddrs
  buildInline : ResolverSpec → AddressFamily → Except Str Unit
  buildNamed : Str → Map Str ResolverHandle → Except Str Unit
  pools : Map Str (List (List Selector))
  getVerifier : EffectiveVerify → Str → Except Str V
  loadPinned : Str → Str → Except Str P

/-- What routes are built from. -/
def Startup.env {V P : Type} (start : Startup V P) (registry : Map Str ResolverHandle) :
    BuildEnv ResolverHandle V P where
  getResolver := getResolver registry start.toSocketAddrs start.buildInline
  pools := start.pools
  getVerifier := start.getVerifier
  loadPinned := start.loadPinned

/-- The probe target that building a route adds. -/
def probeTarget {V P : Type} (env : BuildEnv ResolverHandle V P) (cfg : Config)
    (listener : Listener) (route : Route) : Except Str (Option ProbeTarget) := do
  let b ← buildRoute env cfg listener route
  let rtTpl ← (cfg.templateFor route.useTemplate).mapError ConfigError.display
  let lnTpl ← (cfg.templateFor listener.useTemplate).mapError ConfigError.display
  let http2 := cfg.effectiveHttp2 listener route rtTpl lnTpl
  if http2.enabled ∧ b.runtime.routeType = .http ∧ http2.probe ≠ .off then
    match b.runtime.upstream with
    | .direct (some host) family nat64 resolver =>
      return some {
        route := route.label, host, port := b.runtime.upstreamPort, policy := http2.probe,
        budget := http2.probeTimeout, resolver, family, nat64 }
    -- neither a pool nor a reflecting route has a fixed backend
    | _ => return none
  else return none

/-- The probe targets of every listener, in the order in which routes are built. -/
def collectProbeTargets {V P : Type} (start : Startup V P) (cfg : Config) :
    Except Str (List ProbeTarget) := do
  let registry ← buildNamedResolvers cfg start.buildNamed
  let targets ← (cfg.listeners.flatMap fun l ↦ l.allRoutes.map fun r ↦ (l, r)).mapM fun lr ↦
    probeTarget (start.env registry) cfg lr.1 lr.2
  return targets.reduceOption

/-! ## Groups -/

/-- What a probe connects to, with the label of the resolver in place of the resolver. -/
structure ProbeKey where
  host : Str
  port : UInt16
  family : AddressFamily
  nat64 : Option Nat64Prefix
  resolver : Str
deriving DecidableEq

/-- The routes that share a backend, and what their probe answers to. -/
structure ProbeGroup where
  routes : List Str
  policy : H2Probe
  budget : Duration
  resolver : ResolverHandle
deriving DecidableEq

/-- The stricter of two probe policies. -/
def stricter : H2Probe → H2Probe → H2Probe
  | .require, _ | _, .require => .require
  | .warn, _ | _, .warn => .warn
  | .off, .off => .off

def ProbeTarget.key (t : ProbeTarget) : ProbeKey :=
  ⟨t.host, t.port, t.family, t.nat64, t.resolver.label⟩

/-- The group that a target opens. -/
def ProbeGroup.fresh (t : ProbeTarget) : ProbeGroup := ⟨[], .off, 0, t.resolver⟩

/-- A group with one target more. -/
def ProbeGroup.add (g : ProbeGroup) (t : ProbeTarget) : ProbeGroup :=
  { g with
    routes := g.routes ++ [t.route]
    policy := stricter g.policy t.policy
    budget := max g.budget t.budget }

/-- `group_probe_targets`. -/
def groupProbeTargets (targets : List ProbeTarget) : Map ProbeKey ProbeGroup :=
  gather ProbeTarget.key ProbeGroup.fresh ProbeGroup.add targets

/-! ## Probes -/

/-- What a probe meets: the answers of resolvers, and the exchange with the addresses. -/
structure ProbeNet where
  lookupAddr : ResolverHandle → Str → UInt16 → AddressFamily → Option Nat64Prefix →
    Except Str (List SocketAddr)
  probeH2c : List SocketAddr → Duration → Except Str Unit

section Run

variable (net : ProbeNet)

/-- What one probe finds. -/
def probeOutcome (resolver : ResolverHandle) (host : Str) (port : UInt16) (family : AddressFamily)
    (nat64 : Option Nat64Prefix) (budget : Duration) : Except Str Unit := do
  let addrs ← (net.lookupAddr resolver host port family nat64).mapError fun e ↦
    ["resolving h2c probe target ".toList, host, ":".toList, decimal port.toNat, ": ".toList,
      e].flatten
  net.probeH2c addrs budget

/-- The probe of a group. -/
def ProbeGroup.outcome (k : ProbeKey) (g : ProbeGroup) : Except Str Unit :=
  probeOutcome net g.resolver k.host k.port k.family k.nat64 g.budget

/-- The failure that one joined probe adds, if any. -/
def probeFailure (k : ProbeKey) (g : ProbeGroup) : Except Str (Option Str) :=
  match g.outcome net k, g.policy with
  | .ok (), _ => .ok none
  | .error detail, .require =>
    .ok (some (["routes [".toList, join ", ".toList (g.routes.map debugStr), "]: upstream ".toList,
      k.host, ":".toList, decimal k.port.toNat, " failed the h2c probe: ".toList, detail].flatten))
  | .error _, .warn => .ok none
  -- a panic
  | .error _, .off =>
    .error "internal error: entered unreachable code: off targets are never collected".toList

/-- `run_probes`, on the groups in the order in which their probes end. -/
def runProbes (joined : List (Σ _ : ProbeKey, ProbeGroup)) : Except Str Unit := do
  let failures ← joined.mapM fun e ↦ probeFailure net e.1 e.2
  match failures.reduceOption with
  | [] => return ()
  | failures => .error ("h2c probe failed with probe = \"require\":\n  ".toList ++
      join "\n  ".toList failures)

end Run

/-! ## What a group stands for -/

def H2Probe.strictness : H2Probe → ℕ
  | off => 0
  | warn => 1
  | require => 2

/-- Policies are ordered by how strict they are. -/
instance : LinearOrder H2Probe :=
  LinearOrder.lift' H2Probe.strictness fun a b h ↦ by cases a <;> cases b <;> first | rfl | cases h

instance : OrderBot H2Probe where
  bot := .off
  bot_le a := Nat.zero_le a.strictness

/-- The group of some targets. -/
structure ProbeGroup.Covers (g : ProbeGroup) (members : List ProbeTarget) : Prop where
  routes : g.routes = members.map ProbeTarget.route
  policy : IsGreatest {p | ∃ t ∈ members, t.policy = p} g.policy
  budget : IsGreatest {d | ∃ t ∈ members, t.budget = d} g.budget
  resolver : ∃ t ∈ members, t.resolver = g.resolver

/-- Two groups of the same routes, under the same policy and the same budget. -/
structure ProbeGroup.Alike (g g' : ProbeGroup) : Prop where
  routes : g.routes.Perm g'.routes
  policy : g.policy = g'.policy
  budget : g.budget = g'.budget

/-- The groups of some targets stand for these targets, and those of the same targets in another
order are like them. -/
structure GroupsAgree (targets targets' : List ProbeTarget) : Prop where
  covers : ∀ k g, (groupProbeTargets targets).lookup k = some g →
    g.Covers (itemsOf ProbeTarget.key targets k)
  absent : ∀ k, (groupProbeTargets targets).lookup k = none ↔ ∀ t ∈ targets, t.key ≠ k
  alike : ∀ k, Option.Rel ProbeGroup.Alike ((groupProbeTargets targets).lookup k)
    ((groupProbeTargets targets').lookup k)

section Groups

variable {targets targets' : List ProbeTarget} {t : ProbeTarget} {g : ProbeGroup} {k : ProbeKey}

theorem stricter_eq_max (a b : H2Probe) : stricter a b = max a b := by
  cases a <;> cases b <;> rfl

theorem foldl_add : targets.foldl ProbeGroup.add g =
    { routes := g.routes ++ targets.map ProbeTarget.route
      policy := targets.foldl (fun p t ↦ max p t.policy) g.policy
      budget := targets.foldl (fun d t ↦ max d t.budget) g.budget
      resolver := g.resolver } := by
  induction targets generalizing g with
  | nil => simp
  | cons t targets ih =>
    rw [List.foldl_cons, ih]
    simp [ProbeGroup.add, stricter_eq_max]

theorem covers_of_lookup (h : (groupProbeTargets targets).lookup k = some g) :
    g.Covers (itemsOf ProbeTarget.key targets k) := by
  obtain ⟨t, hhead, rfl⟩ := lookup_gather_eq_some.mp h
  have ht : t ∈ itemsOf ProbeTarget.key targets k := List.mem_of_mem_head? hhead
  have hne := List.ne_nil_of_mem ht
  rw [foldl_add]
  exact {
    routes := List.nil_append _
    policy := isGreatest_foldl_max hne
    budget := isGreatest_foldl_max hne
    resolver := ⟨t, ht, rfl⟩ }

theorem lookup_groupProbeTargets_eq_none :
    (groupProbeTargets targets).lookup k = none ↔ ∀ t ∈ targets, t.key ≠ k := by
  rw [groupProbeTargets, lookup_gather_eq_none, itemsOf, List.filter_eq_nil_iff]
  simp

theorem alike_of_covers {g' : ProbeGroup} {members members' : List ProbeTarget}
    (h : members.Perm members') (hg : g.Covers members) (hg' : g'.Covers members') :
    g.Alike g' where
  routes := by
    rw [hg.routes, hg'.routes]
    exact h.map _
  policy := hg.policy.unique (by simpa only [h.mem_iff] using hg'.policy)
  budget := hg.budget.unique (by simpa only [h.mem_iff] using hg'.budget)

/-- **Grouping does not depend on the order of the targets.** -/
theorem groupsAgree (h : targets.Perm targets') : GroupsAgree targets targets' where
  covers _ _ := covers_of_lookup
  absent _ := lookup_groupProbeTargets_eq_none
  alike k := by
    have hnone : (groupProbeTargets targets).lookup k = none ↔
        (groupProbeTargets targets').lookup k = none := by
      simp only [lookup_groupProbeTargets_eq_none, h.mem_iff]
    cases hg : (groupProbeTargets targets).lookup k with
    | none =>
      rw [hnone.mp hg]
      exact .none
    | some g =>
      obtain ⟨g', hg'⟩ := Option.ne_none_iff_exists'.mp fun h' ↦
        absurd (hnone.mpr h') (by rw [hg]; simp)
      rw [hg']
      exact .some (alike_of_covers (perm_itemsOf h) (covers_of_lookup hg) (covers_of_lookup hg'))

end Groups

/-! ## Where targets come from -/

/-- What `get_resolver` makes for a family. -/
inductive ResolverHandle.MadeFor (family : AddressFamily) : ResolverHandle → Prop
  | named (name : Str) : MadeFor family ⟨name, .named name⟩
  | inline (spec : Str) : MadeFor family ⟨spec, .inline spec family⟩

namespace ResolverHandle.MadeFor

variable {family f : AddressFamily} {r : ResolverHandle} {name spec : Str}

theorem label_of_named (h : r.MadeFor family) (hid : r.id = .named name) : r.label = name := by
  cases h with
  | named name' => exact ResolverId.named.inj hid
  | inline spec => exact absurd hid (by simp)

theorem label_of_inline (h : r.MadeFor family) (hid : r.id = .inline spec f) : r.label = spec := by
  cases h with
  | named name => exact absurd hid (by simp)
  | inline spec' => exact (ResolverId.inline.inj hid).1

end ResolverHandle.MadeFor

/-- Every entry of a registry is under its own name. -/
def Named (registry : Map Str ResolverHandle) : Prop :=
  ∀ name r, registry.lookup name = some r → r = ⟨name, .named name⟩

section Origin

variable {cfg : Config} {registry : Map Str ResolverHandle} {r : ResolverHandle} {spec : Str}
  {family : AddressFamily} {listener : Listener} {route : Route} {t : ProbeTarget}

theorem Named.insert {name : Str} (h : Named registry) :
    Named (registry.insert name ⟨name, .named name⟩) := by
  intro name' r hr
  by_cases hname : name' = name
  · rw [hname, AList.lookup_insert, Option.some_inj] at hr
    rw [← hr, hname]
  · rw [AList.lookup_insert_ne hname] at hr
    exact h name' r hr

theorem named_of_foldlM {build : Str → Map Str ResolverHandle → Except Str Unit} {order : List Str}
    {registry' : Map Str ResolverHandle} (hnamed : Named registry)
    (h : order.foldlM (buildNamedResolver build) registry = .ok registry') : Named registry' := by
  induction order generalizing registry with
  | nil =>
    obtain rfl := Except.ok.inj h
    exact hnamed
  | cons name order ih =>
    rw [List.foldlM_cons] at h
    obtain ⟨_, hone, h⟩ := bind_eq_ok.mp h
    obtain ⟨_, -, hone⟩ := bind_eq_ok.mp hone
    obtain rfl := Except.ok.inj hone
    exact ih hnamed.insert h

theorem named_of_buildNamedResolvers {build : Str → Map Str ResolverHandle → Except Str Unit}
    (h : buildNamedResolvers cfg build = .ok registry) : Named registry := by
  obtain ⟨_, -, h⟩ := bind_eq_ok.mp h
  exact named_of_foldlM (fun _ _ hr ↦ absurd hr (by simp)) h

theorem madeFor_of_getResolver {toSocketAddrs : ToSocketAddrs}
    {build : ResolverSpec → AddressFamily → Except Str Unit} (hnamed : Named registry)
    (h : getResolver registry toSocketAddrs build spec family = .ok r) : r.MadeFor family := by
  rw [getResolver] at h
  split_ifs at h
  · obtain ⟨name, -, h⟩ := bind_eq_ok.mp h
    cases hlookup : registry.lookup name with
    | none =>
      rw [hlookup] at h
      exact absurd h (by simp [orError])
    | some r' =>
      rw [hlookup] at h
      obtain rfl := Except.ok.inj h
      rw [hnamed _ _ hlookup]
      exact .named name
  · obtain ⟨_, -, h⟩ := bind_eq_ok.mp h
    obtain ⟨_, -, h⟩ := bind_eq_ok.mp h
    obtain rfl := Except.ok.inj h
    exact .inline spec

/-- **What a probe target consists of.** -/
theorem spec_of_probeTarget {V P : Type} {env : BuildEnv ResolverHandle V P}
    (h : probeTarget env cfg listener route = .ok (some t)) :
    t.policy ≠ .off ∧ ∃ spec, env.getResolver spec t.family = .ok t.resolver := by
  obtain ⟨b, hb, h⟩ := bind_eq_ok.mp h
  obtain ⟨rtTpl, -, h⟩ := bind_eq_ok.mp h
  obtain ⟨lnTpl, -, h⟩ := bind_eq_ok.mp h
  dsimp only at h
  split_ifs at h with hprobed
  · split at h
    · rename_i hupstream
      obtain rfl := Option.some.inj (Except.ok.inj h)
      exact ⟨hprobed.2.2, getResolver_of_buildRoute hb hupstream⟩
    · exact absurd (Except.ok.inj h) (by simp)
  · exact absurd (Except.ok.inj h) (by simp)

theorem spec_of_collectProbeTargets {V P : Type} {start : Startup V P} {targets : List ProbeTarget}
    (h : collectProbeTargets start cfg = .ok targets) (ht : t ∈ targets) :
    t.policy ≠ .off ∧ t.resolver.MadeFor t.family := by
  obtain ⟨registry, hregistry, h⟩ := bind_eq_ok.mp h
  obtain ⟨collected, hcollected, h⟩ := bind_eq_ok.mp h
  obtain rfl := Except.ok.inj h
  obtain ⟨lr, -, htarget⟩ := Config.exists_of_mapM hcollected (List.reduceOption_mem_iff.mp ht)
  obtain ⟨hpolicy, spec, hresolver⟩ := spec_of_probeTarget htarget
  exact ⟨hpolicy, madeFor_of_getResolver (named_of_buildNamedResolvers hregistry) hresolver⟩

end Origin

/-! ## Whether a group probes its members' own backends -/

/-- Two targets that dial alike but for the resolver. -/
structure ProbeTarget.SameDial (s t : ProbeTarget) : Prop where
  host : s.host = t.host
  port : s.port = t.port
  family : s.family = t.family
  nat64 : s.nat64 = t.nat64

theorem ProbeTarget.SameDial.symm {s t : ProbeTarget} (h : s.SameDial t) : t.SameDial s :=
  ⟨h.host.symm, h.port.symm, h.family.symm, h.nat64.symm⟩

/-- What a probe of a target's own backend finds. -/
def ProbeTarget.outcome (net : ProbeNet) (t : ProbeTarget) (budget : Duration) : Except Str Unit :=
  probeOutcome net t.resolver t.host t.port t.family t.nat64 budget

/-- The probes of some targets are probes of their own backends. -/
structure OwnProbes (targets : List ProbeTarget) : Prop where
  /-- Targets of one group dial alike, through the same resolver. -/
  ownResolver : ∀ s ∈ targets, ∀ t ∈ targets, s.key = t.key →
    s.SameDial t ∧ s.resolver.id = t.resolver.id
  /-- In whatever order targets are collected and probes end, startup fails exactly when the own
  backend of a `require` route fails its probe. -/
  startup : ∀ targets', targets.Perm targets' → ∀ net joined,
    joined.Perm (groupProbeTargets targets').entries →
      ((∃ e, runProbes net joined = .error e) ↔ ∃ t ∈ targets, t.policy = .require ∧
        ∃ g, (groupProbeTargets targets').lookup t.key = some g ∧
          ∃ e, t.outcome net g.budget = .error e)

/-- Of two targets that dial alike, one goes through a declared resolver and the other through an
inline spec that reads like its name. -/
def LabelClash (targets : List ProbeTarget) : Prop :=
  ∃ s ∈ targets, ∃ t ∈ targets, s.SameDial t ∧
    ∃ name family, s.resolver.id = .named name ∧ t.resolver.id = .inline name family

section Startup

variable {targets targets' : List ProbeTarget} {s t : ProbeTarget} {net : ProbeNet} {k : ProbeKey}
  {g : ProbeGroup} {joined : List (Σ _ : ProbeKey, ProbeGroup)}

theorem key_eq_iff : s.key = t.key ↔ s.SameDial t ∧ s.resolver.label = t.resolver.label := by
  rw [ProbeTarget.key, ProbeTarget.key, ProbeKey.mk.injEq]
  exact ⟨fun ⟨hh, hp, hf, hn, hr⟩ ↦ ⟨⟨hh, hp, hf, hn⟩, hr⟩,
    fun ⟨⟨hh, hp, hf, hn⟩, hr⟩ ↦ ⟨hh, hp, hf, hn, hr⟩⟩

/-- **What a label tells of a resolver.** -/
theorem eq_of_label_eq {family : AddressFamily} {r r' : ResolverHandle} (hr : r.MadeFor family)
    (hr' : r'.MadeFor family) (hlabel : r.label = r'.label)
    (hclash : ∀ name f, ¬(r.id = .named name ∧ r'.id = .inline name f))
    (hclash' : ∀ name f, ¬(r'.id = .named name ∧ r.id = .inline name f)) : r = r' := by
  cases hr with
  | named name =>
    cases hr' with
    | named name' =>
      obtain rfl : name = name' := hlabel
      rfl
    | inline spec =>
      obtain rfl : name = spec := hlabel
      exact absurd ⟨rfl, rfl⟩ (hclash name family)
  | inline spec =>
    cases hr' with
    | named name =>
      obtain rfl : spec = name := hlabel
      exact absurd ⟨rfl, rfl⟩ (hclash' spec family)
    | inline spec' =>
      obtain rfl : spec = spec' := hlabel
      rfl

variable (net k) in
theorem probeFailure_eq_ok (hoff : g.policy ≠ .off) :
    ∃ failure, probeFailure net k g = .ok failure ∧
      (failure ≠ none ↔ g.policy = .require ∧ ∃ text, g.outcome net k = .error text) := by
  rw [probeFailure]
  cases houtcome : g.outcome net k with
  | ok _ => exact ⟨none, rfl, by simp⟩
  | error detail =>
    cases hpolicy : g.policy with
    | off => exact absurd hpolicy hoff
    | warn => exact ⟨none, rfl, by simp⟩
    | require => exact ⟨_, rfl, by simp⟩

variable (net) in
/-- Without `off` groups every probe is joined. -/
theorem failures_eq_ok (hoff : ∀ e ∈ joined, e.2.policy ≠ .off) :
    ∃ failures, joined.mapM (fun e ↦ probeFailure net e.1 e.2) = .ok failures ∧
      (failures.reduceOption ≠ [] ↔
        ∃ e ∈ joined, e.2.policy = .require ∧ ∃ text, e.2.outcome net e.1 = .error text) := by
  induction joined with
  | nil => exact ⟨[], rfl, by simp⟩
  | cons e joined ih =>
    obtain ⟨failure, hfailure, hsome⟩ := probeFailure_eq_ok net e.1 (hoff e List.mem_cons_self)
    obtain ⟨failures, hfailures, hrest⟩ := ih fun e' he' ↦ hoff e' (List.mem_cons_of_mem _ he')
    refine ⟨failure :: failures, ?_, ?_⟩
    · rw [List.mapM_cons, hfailure, hfailures]
      rfl
    · rw [List.exists_mem_cons_iff, ← hsome, ← hrest]
      cases failure with
      | none => simp
      | some text => simp

/-- A failing probe of a `require` group is what makes startup fail. -/
theorem runProbes_eq_error_iff (hoff : ∀ e ∈ joined, e.2.policy ≠ .off) :
    (∃ text, runProbes net joined = .error text) ↔
      ∃ e ∈ joined, e.2.policy = .require ∧ ∃ text, e.2.outcome net e.1 = .error text := by
  obtain ⟨failures, hfailures, hiff⟩ := failures_eq_ok net hoff
  rw [← hiff, runProbes, hfailures]
  change (∃ text, (match failures.reduceOption with
    | [] => Except.ok ()
    | failures => .error ("h2c probe failed with probe = \"require\":\n  ".toList ++
      join "\n  ".toList failures)) = .error text) ↔ _
  cases failures.reduceOption with
  | nil => simp
  | cons text texts => simp

/-- Where targets of one group share a resolver, the probe of the group is that of each member. -/
theorem outcome_eq_of_lookup
    (hown : ∀ s ∈ targets, ∀ t ∈ targets, s.key = t.key → s.resolver = t.resolver)
    (ht : t ∈ targets) (hg : (groupProbeTargets targets).lookup t.key = some g) :
    g.outcome net t.key = t.outcome net g.budget := by
  obtain ⟨s, hs, hresolver⟩ := (covers_of_lookup hg).resolver
  obtain ⟨hs, hkey⟩ := mem_itemsOf.mp hs
  rw [ProbeGroup.outcome, ProbeTarget.outcome, ← hresolver, hown s hs t ht hkey]
  rfl

theorem policy_eq_require_iff {members : List ProbeTarget} (hg : g.Covers members) :
    g.policy = .require ↔ ∃ t ∈ members, t.policy = .require := by
  constructor
  · intro h
    obtain ⟨t, ht, hpolicy⟩ := hg.policy.1
    exact ⟨t, ht, hpolicy.trans h⟩
  · rintro ⟨t, ht, hpolicy⟩
    have hle : H2Probe.require ≤ g.policy := hg.policy.2 ⟨t, ht, hpolicy⟩
    have hge : g.policy ≤ .require := by cases g.policy <;> decide
    exact le_antisymm hge hle

/-- Where targets of one group share a resolver, startup fails for the routes whose own backends
fail. -/
theorem startup_of_own (hoff : ∀ t ∈ targets, t.policy ≠ .off)
    (hown : ∀ s ∈ targets, ∀ t ∈ targets, s.key = t.key → s.resolver = t.resolver)
    (hjoined : joined.Perm (groupProbeTargets targets).entries) :
    (∃ e, runProbes net joined = .error e) ↔ ∃ t ∈ targets, t.policy = .require ∧
      ∃ g, (groupProbeTargets targets).lookup t.key = some g ∧
        ∃ e, t.outcome net g.budget = .error e := by
  have hmem : ∀ k g, (⟨k, g⟩ : Σ _ : ProbeKey, ProbeGroup) ∈ joined ↔
      (groupProbeTargets targets).lookup k = some g := fun k g ↦ by
    rw [hjoined.mem_iff]
    exact (AList.mem_lookup_iff (s := groupProbeTargets targets)).symm
  have hpolicy : ∀ e ∈ joined, e.2.policy ≠ .off := fun ⟨k, g⟩ he hpolicy ↦ by
    obtain ⟨t, ht, htpolicy⟩ := (covers_of_lookup ((hmem k g).mp he)).policy.1
    exact hoff t (mem_itemsOf.mp ht).1 (htpolicy.trans hpolicy)
  rw [runProbes_eq_error_iff hpolicy]
  constructor
  · rintro ⟨⟨k, g⟩, he, hrequire, text, htext⟩
    have hg := (hmem k g).mp he
    obtain ⟨t, ht, htpolicy⟩ := (policy_eq_require_iff (covers_of_lookup hg)).mp hrequire
    obtain ⟨hin, rfl⟩ := mem_itemsOf.mp ht
    exact ⟨t, hin, htpolicy, g, hg, text, by rw [← outcome_eq_of_lookup hown hin hg, htext]⟩
  · rintro ⟨t, ht, htpolicy, g, hg, text, htext⟩
    refine ⟨⟨t.key, g⟩, (hmem _ _).mpr hg, ?_, text, ?_⟩
    · exact (policy_eq_require_iff (covers_of_lookup hg)).mpr
        ⟨t, mem_itemsOf.mpr ⟨ht, rfl⟩, htpolicy⟩
    · rw [outcome_eq_of_lookup hown ht hg, htext]

/-- **Whose backend a probe reaches.** Whatever the document, the probes are those of the routes'
own backends exactly when no declared resolver is confused with an inline spec; the groups of any
targets stand for them, whatever their order. -/
theorem ownProbes_iff {V P : Type} {start : Startup V P} {cfg : Config}
    (h : collectProbeTargets start cfg = .ok targets) :
    (OwnProbes targets ∧ ∀ us us' : List ProbeTarget, us.Perm us' → GroupsAgree us us') ↔
      ¬LabelClash targets := by
  rw [and_iff_left fun _ _ ↦ groupsAgree]
  constructor
  · -- both labels are the name, so the two targets are one group
    rintro hown ⟨s, hs, t, ht, hdial, name, family, hname, hinline⟩
    have hmade := (spec_of_collectProbeTargets h hs).2
    have hmade' := (spec_of_collectProbeTargets h ht).2
    have hlabel : s.resolver.label = t.resolver.label := by
      rw [hmade.label_of_named hname, hmade'.label_of_inline hinline]
    have hid := (hown.ownResolver s hs t ht (key_eq_iff.mpr ⟨hdial, hlabel⟩)).2
    exact absurd (hname.symm.trans (hid.trans hinline)) (by simp)
  · intro hclash
    have hresolver : ∀ s ∈ targets, ∀ t ∈ targets, s.key = t.key → s.resolver = t.resolver := by
      intro s hs t ht hkey
      obtain ⟨hdial, hlabel⟩ := key_eq_iff.mp hkey
      -- without a clash a label stands for one resolver
      refine eq_of_label_eq (spec_of_collectProbeTargets h hs).2
        (hdial.family ▸ (spec_of_collectProbeTargets h ht).2) hlabel ?_ ?_
      · exact fun name f hid ↦ hclash ⟨s, hs, t, ht, hdial, name, f, hid⟩
      · exact fun name f hid ↦ hclash ⟨t, ht, s, hs, hdial.symm, name, f, hid⟩
    refine ⟨fun s hs t ht hkey ↦ ⟨(key_eq_iff.mp hkey).1, by rw [hresolver s hs t ht hkey]⟩, ?_⟩
    intro targets' hperm net joined hjoined
    simp only [hperm.mem_iff] at hresolver ⊢
    exact startup_of_own (fun t ht ↦ (spec_of_collectProbeTargets h (hperm.mem_iff.mpr ht)).1)
      hresolver hjoined

end Startup

/-! ## Two routes to one backend -/

/-- A document with two routes to one backend, through the given resolvers. One resolver is
declared, by the name `system`. -/
def sharedBackend (spec spec' : Str) : Config where
  resolvers := (∅ : Map Str ResolverDef).insert "system".toList {}
  listeners := [{
    addr := ⟨.v4 0, 80⟩
    http2 := some { enabled := some true, probe := some .require }
    routes := [
      { routeType := some .http, matchSni := ["a.test".toList]
        upstream := some "backend.test:8080".toList, common := { addrResolver := some spec } },
      { routeType := some .http, matchSni := ["b.test".toList]
        upstream := some "backend.test:8080".toList, common := { addrResolver := some spec' } }] }]

/-- A target of that document. -/
private def backendTarget (route : Str) (resolver : ResolverHandle) : ProbeTarget where
  route
  host := "backend.test".toList
  port := 8080
  policy := .require
  budget := defaultProbeTimeout
  resolver
  family := .dual
  nat64 := none

private theorem key_backendTarget (route : Str) (resolver : ResolverHandle) :
    (backendTarget route resolver).key =
      ⟨"backend.test".toList, 8080, .dual, none, resolver.label⟩ :=
  rfl

/-- Whatever is asked for is there; there is nothing else. -/
def quietStartup : Startup Unit Unit where
  toSocketAddrs _ _ := .error []
  buildInline _ _ := .ok ()
  buildNamed _ _ := .ok ()
  pools := ∅
  getVerifier _ _ := .ok ()
  loadPinned _ _ := .ok ()

private theorem collect_inline :
    collectProbeTargets quietStartup (sharedBackend "system".toList "system".toList) = .ok [
      backendTarget "a.test".toList ⟨"system".toList, .inline "system".toList .dual⟩,
      backendTarget "b.test".toList ⟨"system".toList, .inline "system".toList .dual⟩] := by
  decide +kernel

private theorem collect_reference :
    collectProbeTargets quietStartup (sharedBackend "@system".toList "system".toList) = .ok [
      backendTarget "a.test".toList ⟨"system".toList, .named "system".toList⟩,
      backendTarget "b.test".toList ⟨"system".toList, .inline "system".toList .dual⟩] := by
  decide +kernel

theorem ownProbes_system : ∃ targets, targets.length = 2 ∧
    collectProbeTargets quietStartup (sharedBackend "system".toList "system".toList) =
      .ok targets ∧ OwnProbes targets := by
  refine ⟨_, rfl, collect_inline, ((ownProbes_iff collect_inline).mpr ?_).1⟩
  rintro ⟨s, hs, t, ht, -, name, family, hname, -⟩
  simp only [List.mem_cons, List.not_mem_nil, or_false] at hs
  rcases hs with rfl | rfl
  · cases hname
  · cases hname

/-- A declared resolver named `system` is confused with the system's. -/
theorem not_ownProbes : ¬∀ (ext : Externals) (start : Startup Unit Unit) (cfg : Config) targets,
    cfg.validate ext = .ok () → collectProbeTargets start cfg = .ok targets →
      OwnProbes targets := by
  intro h
  have hown := h Externals.refusing quietStartup (sharedBackend "@system".toList "system".toList) _
    (by decide +kernel) collect_reference
  have hkey := (key_backendTarget "a.test".toList ⟨"system".toList, .named "system".toList⟩).trans
    (key_backendTarget "b.test".toList ⟨"system".toList, .inline "system".toList .dual⟩).symm
  have hid := (hown.ownResolver _ List.mem_cons_self _ (List.mem_cons_of_mem _ List.mem_cons_self)
    hkey).2
  exact absurd hid (by simp [backendTarget])

end SniGate
