import SniGate.Ech.Client
import SniGate.Transition.Run

/-!
# Generations of ECH entries

Connections hold configurations of different generations while other calls refresh, extend or evict
the entries these came from. The log of what calls did ties them together: what a call returns was
assembled from the one mode installed under the generation it names, generations only grow, and an
entry is evicted once, by a caller that presents its generation (`generation_protocol`).

The invariant has a part about the log alone, `LogOk`, and a part about each entry of the cache,
`EntryOk`.

## Design choices

The log is not part of the program: it records what each call did, in the order in which calls did
it, and is there to state what a call returns in terms of what was installed. The invariant of
entries speaks of the log, and the one of the log does not speak of entries; a step is then seen to
keep both by what it appends.
-/

namespace SniGate

variable {κ ν ρ : Type}

/-- A configuration assembled from a mode for a list of protocols. -/
def ClientProvider.Assembles (p : ClientProvider ρ ν) (ext : EchExternals κ)
    (mode : Rustls.EchMode κ) (alpn : List Bytes) (config : ClientConfig κ ν) : Prop :=
  ∃ assembled, p.assembleClientConfig ext mode = .ok assembled ∧
    config = { assembled with alpnProtocols := alpn }

/-- An entry that remembers what was assembled from its mode. -/
def ClientProvider.Remembers (p : ClientProvider ρ ν) (ext : EchExternals κ) (c : Cached κ ν) :
    Prop :=
  ∀ alpn config, c.configs.lookup alpn = some config → p.Assembles ext c.echMode alpn config

namespace EchState

/-- The generations installed, in order. -/
def generations (log : List (EchEffect κ ν)) : List ℕ :=
  log.filterMap fun
    | .installed _ generation _ => some generation
    | _ => none

/-- The generations evicted, in order. -/
def evictions (log : List (EchEffect κ ν)) : List ℕ :=
  log.filterMap fun
    | .invalidated _ generation true => some generation
    | _ => none

variable (p : ClientProvider ρ ν) (ext : EchExternals κ)

/-- What the log of a provider says, when the next generation is `next`. -/
structure LogOk (next : ℕ) (log : List (EchEffect κ ν)) : Prop where
  below : ∀ g ∈ generations log, g < next
  increasing : (generations log).Pairwise (· < ·)
  oneMode : ∀ n m g mode mode', .installed n g mode ∈ log → .installed m g mode' ∈ log →
    n = m ∧ mode = mode'
  evicted : ∀ g ∈ evictions log, g < next
  once : (evictions log).Nodup
  real : p.requireEch → ∀ n g publicKey, .installed n g (.grease publicKey) ∉ log
  returned : ∀ n alpn client, .returned n alpn client ∈ log →
    ∃ mode, .installed n client.generation mode ∈ log ∧
      p.Assembles ext mode alpn client.clientConfig

/-- What an entry of a name has to do with the log: it is the newest one installed, it has not been
evicted, and it remembers what was assembled from its mode. -/
structure EntryOk (log : List (EchEffect κ ν)) (innerName : Str) (c : Cached κ ν) : Prop where
  installed : .installed innerName c.generation c.echMode ∈ log
  newest : ∀ g mode, .installed innerName g mode ∈ log → g ≤ c.generation
  present : c.generation ∉ evictions log
  assembled : p.Remembers ext c

/-- The invariant. -/
def Inv (s : EchState κ ν) : Prop :=
  LogOk p ext s.nextGeneration s.log ∧
    ∀ n c, s.cache.lookup n = some c → EntryOk p ext s.log n c

/-- An effect that installs nothing, evicts nothing, and returns what may be returned. -/
def Harmless (log : List (EchEffect κ ν)) : EchEffect κ ν → Prop
  | .installed .. => False
  | .invalidated _ _ evicted => evicted = false
  | .returned n alpn client => ∃ mode, .installed n client.generation mode ∈ log ∧
    p.Assembles ext mode alpn client.clientConfig
  | _ => True

section Log

variable {p ext} {log effects : List (EchEffect κ ν)} {effect : EchEffect κ ν} {next g : ℕ}
  {innerName n : Str} {mode : Rustls.EchMode κ} {c : Cached κ ν}

@[simp] theorem generations_append :
    generations (log ++ effects) = generations log ++ generations effects :=
  List.filterMap_append

@[simp] theorem evictions_append :
    evictions (log ++ effects) = evictions log ++ evictions effects :=
  List.filterMap_append

theorem mem_generations : g ∈ generations log ↔ ∃ n mode, .installed n g mode ∈ log := by
  rw [generations, List.mem_filterMap]
  constructor
  · rintro ⟨effect, hin, heq⟩
    cases effect with
    | installed n g' mode => exact ⟨n, mode, Option.some.inj heq ▸ hin⟩
    | _ => exact absurd heq (by simp)
  · rintro ⟨n, mode, hin⟩
    exact ⟨_, hin, rfl⟩

theorem Harmless.generations_eq (h : Harmless p ext log effect) : generations [effect] = [] := by
  cases effect with
  | installed => exact h.elim
  | _ => rfl

theorem Harmless.evictions_eq (h : Harmless p ext log effect) : evictions [effect] = [] := by
  cases effect with
  | invalidated n g evicted =>
    obtain rfl : evicted = false := h
    rfl
  | _ => rfl

theorem Harmless.mem_iff (h : Harmless p ext log effect) :
    .installed n g mode ∈ log ++ [effect] ↔ .installed n g mode ∈ log := by
  rw [List.mem_append, List.mem_singleton]
  refine or_iff_left ?_
  rintro rfl
  exact h

theorem LogOk.append (h : LogOk p ext next log) (heffect : Harmless p ext log effect) :
    LogOk p ext next (log ++ [effect]) := by
  constructor
  · rw [generations_append, heffect.generations_eq, List.append_nil]
    exact h.below
  · rw [generations_append, heffect.generations_eq, List.append_nil]
    exact h.increasing
  · intro n m g mode mode' hn hm
    exact h.oneMode n m g mode mode' (heffect.mem_iff.mp hn) (heffect.mem_iff.mp hm)
  · rw [evictions_append, heffect.evictions_eq, List.append_nil]
    exact h.evicted
  · rw [evictions_append, heffect.evictions_eq, List.append_nil]
    exact h.once
  · intro hrequire n g publicKey hin
    exact h.real hrequire n g publicKey (heffect.mem_iff.mp hin)
  · intro n alpn client hin
    have hjust : ∃ mode, .installed n client.generation mode ∈ log ∧
        p.Assembles ext mode alpn client.clientConfig := by
      rcases List.mem_append.mp hin with hin | hin
      · exact h.returned n alpn client hin
      · obtain rfl := List.mem_singleton.mp hin
        exact heffect
    obtain ⟨mode, hmode, hassembles⟩ := hjust
    exact ⟨mode, List.mem_append_left _ hmode, hassembles⟩

theorem EntryOk.append (h : EntryOk p ext log n c) (heffect : Harmless p ext log effect) :
    EntryOk p ext (log ++ [effect]) n c where
  installed := List.mem_append_left _ h.installed
  newest g mode hin := h.newest g mode (heffect.mem_iff.mp hin)
  present := by
    rw [evictions_append, heffect.evictions_eq, List.append_nil]
    exact h.present
  assembled := h.assembled

theorem LogOk.install (h : LogOk p ext next log)
    (hreal : p.requireEch → ∀ publicKey, mode ≠ .grease publicKey) :
    LogOk p ext (next + 1) (log ++ [.installed innerName next mode]) := by
  have hnew : ∀ {n mode'}, .installed n next mode' ∉ log := fun hin ↦
    (h.below next (mem_generations.mpr ⟨_, _, hin⟩)).false
  constructor
  · intro g hg
    rcases List.mem_append.mp (generations_append ▸ hg) with hg | hg
    · exact (h.below g hg).trans next.lt_succ_self
    · exact List.mem_singleton.mp hg ▸ next.lt_succ_self
  · rw [generations_append]
    refine List.pairwise_append.mpr ⟨h.increasing, List.pairwise_singleton _ _, ?_⟩
    intro g hg g' hg'
    exact List.mem_singleton.mp hg' ▸ h.below g hg
  · intro n m g mode₁ mode₂ hn hm
    rcases List.mem_append.mp hn with hin | hin <;> rcases List.mem_append.mp hm with hin' | hin'
    · exact h.oneMode n m g mode₁ mode₂ hin hin'
    · obtain ⟨rfl, rfl, rfl⟩ := EchEffect.installed.inj (List.mem_singleton.mp hin')
      exact absurd hin hnew
    · obtain ⟨rfl, rfl, rfl⟩ := EchEffect.installed.inj (List.mem_singleton.mp hin)
      exact absurd hin' hnew
    · obtain ⟨rfl, rfl, rfl⟩ := EchEffect.installed.inj (List.mem_singleton.mp hin)
      obtain ⟨rfl, -, rfl⟩ := EchEffect.installed.inj (List.mem_singleton.mp hin')
      exact ⟨rfl, rfl⟩
  · intro g hg
    rw [evictions_append] at hg
    exact (h.evicted g (by simpa [evictions] using hg)).trans next.lt_succ_self
  · rw [evictions_append]
    exact (List.append_nil (evictions log)).symm ▸ h.once
  · intro hrequire n g publicKey hin
    rcases List.mem_append.mp hin with hin | hin
    · exact h.real hrequire n g publicKey hin
    · obtain ⟨-, -, hmode⟩ := EchEffect.installed.inj (List.mem_singleton.mp hin)
      exact hreal hrequire publicKey hmode.symm
  · intro n alpn client hin
    rcases List.mem_append.mp hin with hin | hin
    · obtain ⟨mode', hmode', hassembles⟩ := h.returned n alpn client hin
      exact ⟨mode', List.mem_append_left _ hmode', hassembles⟩
    · exact absurd (List.mem_singleton.mp hin) (by simp)

/-- The entries of other names do not see the new generation. -/
theorem EntryOk.install (h : EntryOk p ext log n c) (hn : n ≠ innerName) :
    EntryOk p ext (log ++ [.installed innerName g mode]) n c where
  installed := List.mem_append_left _ h.installed
  newest g' mode' hin := by
    rcases List.mem_append.mp hin with hin | hin
    · exact h.newest g' mode' hin
    · exact absurd (EchEffect.installed.inj (List.mem_singleton.mp hin)).1 hn
  present := by
    rw [evictions_append]
    exact (List.append_nil (evictions log)).symm ▸ h.present
  assembled := h.assembled

theorem LogOk.entryOk_install (h : LogOk p ext next log) (hgeneration : c.generation = next)
    (hconfigs : c.configs = ∅) :
    EntryOk p ext (log ++ [.installed innerName next c.echMode]) innerName c where
  installed := List.mem_append_right _ (by rw [hgeneration]; exact List.mem_singleton_self _)
  newest g mode hin := by
    rw [hgeneration]
    rcases List.mem_append.mp hin with hin | hin
    · exact (h.below g (mem_generations.mpr ⟨_, _, hin⟩)).le
    · exact (EchEffect.installed.inj (List.mem_singleton.mp hin)).2.1.le
  present hin := by
    rw [evictions_append, hgeneration] at hin
    exact (h.evicted next (by simpa [evictions] using hin)).false
  assembled alpn config hconfig := absurd hconfig (by rw [hconfigs]; simp)

theorem LogOk.evict (h : LogOk p ext next log) (hc : EntryOk p ext log innerName c) :
    LogOk p ext next (log ++ [.invalidated innerName c.generation true]) := by
  have hnone : ∀ {n g mode}, .installed n g mode ∈ log ++
      [.invalidated innerName c.generation true] ↔ .installed n g mode ∈ log := by simp
  have hgenerations : generations (log ++ [.invalidated innerName c.generation true]) =
      generations log := by simp [generations]
  constructor
  · exact hgenerations ▸ h.below
  · exact hgenerations ▸ h.increasing
  · intro n m g mode mode' hn hm
    exact h.oneMode n m g mode mode' (hnone.mp hn) (hnone.mp hm)
  · intro g hg
    rcases List.mem_append.mp (evictions_append ▸ hg) with hg | hg
    · exact h.evicted g hg
    · exact List.mem_singleton.mp hg ▸ h.below _ (mem_generations.mpr ⟨_, _, hc.installed⟩)
  · rw [evictions_append]
    refine List.nodup_append.mpr ⟨h.once, List.nodup_singleton _, ?_⟩
    rintro g hg g' hg' rfl
    exact hc.present (List.mem_singleton.mp hg' ▸ hg)
  · intro hrequire n g publicKey hin
    exact h.real hrequire n g publicKey (hnone.mp hin)
  · intro n alpn client hin
    obtain ⟨mode, hmode, hassembles⟩ := h.returned n alpn client (by simpa using hin)
    exact ⟨mode, hnone.mpr hmode, hassembles⟩

theorem EntryOk.evict {c' : Cached κ ν} (h : EntryOk p ext log n c)
    (hne : c'.generation ≠ c.generation) :
    EntryOk p ext (log ++ [.invalidated innerName c'.generation true]) n c where
  installed := List.mem_append_left _ h.installed
  newest g mode hin := h.newest g mode (by simpa using hin)
  present hin := by
    rcases List.mem_append.mp (evictions_append ▸ hin) with hin | hin
    · exact h.present hin
    · exact hne (List.mem_singleton.mp hin).symm
  assembled := h.assembled

end Log

/-! ## Steps -/

section Steps

variable {p ext} {s s' : EchState κ ν} {call : EchCall} {c : Cached κ ν} {id now next g : ℕ}
  {log : List (EchEffect κ ν)} {n : Str} {dns : Dns ρ} {keyPair : Except Str Bytes}
  {e : EchEvent ρ} {alpn : List Bytes} {config : ClientConfig κ ν} {c' : Cached κ ν}

theorem Inv.emit (h : Inv p ext s) (effect : EchEffect κ ν)
    (heffect : Harmless p ext s.log effect) : Inv p ext (s.emit [effect]) :=
  ⟨h.1.append heffect, fun n c hc ↦ (h.2 n c hc).append heffect⟩

/-- The configuration of an entry is assembled from its mode, and the entry keeps its identity. -/
theorem configFor_spec (hconfig : p.configFor ext c alpn = .ok (config, c')) :
    (c'.generation = c.generation ∧ c'.echMode = c.echMode) ∧
      (p.Remembers ext c → p.Assembles ext c.echMode alpn config ∧ p.Remembers ext c') := by
  rw [ClientProvider.configFor] at hconfig
  cases hlookup : c.configs.lookup alpn with
  | some found =>
    rw [hlookup] at hconfig
    obtain ⟨rfl, rfl⟩ := Prod.mk.inj (Except.ok.inj hconfig)
    exact ⟨⟨rfl, rfl⟩, fun h ↦ ⟨h alpn _ hlookup, h⟩⟩
  | none =>
    rw [hlookup] at hconfig
    dsimp only at hconfig
    cases hassemble : p.assembleClientConfig ext c.echMode with
    | error e =>
      rw [hassemble] at hconfig
      exact absurd hconfig (by simp)
    | ok assembled =>
      rw [hassemble] at hconfig
      obtain ⟨rfl, rfl⟩ := Prod.mk.inj (Except.ok.inj hconfig)
      have hnew : p.Assembles ext c.echMode alpn { assembled with alpnProtocols := alpn } :=
        ⟨assembled, hassemble, rfl⟩
      refine ⟨⟨rfl, rfl⟩, fun h ↦ ⟨hnew, fun alpn' config' hconfig' ↦ ?_⟩⟩
      by_cases halpn : alpn' = alpn
      · subst halpn
        rw [AList.lookup_insert] at hconfig'
        exact Option.some.inj hconfig' ▸ hnew
      · rw [AList.lookup_insert_ne halpn] at hconfig'
        exact h alpn' config' hconfig'

/-- **Answering from an entry** keeps the invariant, when the other entries are as they should. -/
theorem inv_respond (hlog : LogOk p ext s.nextGeneration s.log)
    (hothers : ∀ n ≠ call.innerName, ∀ c, s.cache.lookup n = some c → EntryOk p ext s.log n c)
    (hc : EntryOk p ext s.log call.innerName c) : Inv p ext (s.respond p ext call c) := by
  have hput : ∀ (effect : EchEffect κ ν) (c' : Cached κ ν), Harmless p ext s.log effect →
      EntryOk p ext s.log call.innerName c' →
      Inv p ext { s with
        cache := s.cache.insert call.innerName c', log := s.log ++ [effect] } := by
    refine fun effect c' heffect hc' ↦ ⟨hlog.append heffect, fun n c hlookup ↦ ?_⟩
    by_cases hn : n = call.innerName
    · subst hn
      obtain rfl := Option.some.inj ((AList.lookup_insert s.cache).symm.trans hlookup)
      exact hc'.append heffect
    · rw [AList.lookup_insert_ne hn] at hlookup
      exact (hothers n hn c hlookup).append heffect
  rw [respond]
  cases hconfig : p.configFor ext c call.alpn with
  | error e => exact hput _ c trivial hc
  | ok found =>
    obtain ⟨⟨hgeneration, hmode⟩, hkept⟩ := configFor_spec hconfig
    obtain ⟨hassembles, hremembers⟩ := hkept hc.assembled
    refine hput _ _ ⟨c.echMode, hc.installed, hassembles⟩ ⟨?_, ?_, ?_, hremembers⟩
    · rw [hgeneration, hmode]
      exact hc.installed
    · rw [hgeneration]
      exact hc.newest
    · rw [hgeneration]
      exact hc.present

variable (p ext s call c) in
theorem lookup_respond : ∃ c', (s.respond p ext call c).cache.lookup call.innerName = some c' ∧
    c'.generation = c.generation ∧ c'.echMode = c.echMode := by
  rw [respond]
  cases hconfig : p.configFor ext c call.alpn with
  | error e => exact ⟨c, AList.lookup_insert _, rfl, rfl⟩
  | ok found =>
    exact ⟨found.2, AList.lookup_insert _, (configFor_spec hconfig).1⟩

/-- A call that begins, looks or is dropped changes nothing the invariant speaks of. -/
theorem Inv.congr (h : Inv p ext s) (hcache : s'.cache = s.cache)
    (hnext : s'.nextGeneration = s.nextGeneration) (hlog : s'.log = s.log) : Inv p ext s' := by
  rw [Inv, hcache, hnext, hlog]
  exact h

theorem lookup_of_fresh (h : s.fresh n now = some c) : s.cache.lookup n = some c :=
  (Option.filter_eq_some_iff.mp h).1

theorem inv_readPath (h : Inv p ext s) : Inv p ext (s.readPath id call now) := by
  rw [readPath]
  cases hfresh : s.fresh call.innerName now with
  | none => exact h.congr rfl rfl rfl
  | some c =>
    dsimp only
    cases hconfig : c.configs.lookup call.alpn with
    | none => exact h.congr rfl rfl rfl
    | some config =>
      have hc := h.2 _ c (lookup_of_fresh hfresh)
      exact (h.emit (.answer call (.ok ⟨config, c.generation⟩))
        ⟨c.echMode, hc.installed, hc.assembled _ _ hconfig⟩).congr rfl rfl rfl

theorem inv_writePath (h : Inv p ext s) : Inv p ext (s.writePath p ext id call now) := by
  rw [writePath]
  cases hfresh : s.fresh call.innerName now with
  | none => exact h.congr rfl rfl rfl
  | some c =>
    have hrespond : Inv p ext (s.respond p ext call c) :=
      inv_respond h.1 (fun n _ c hc ↦ h.2 n c hc) (h.2 _ c (lookup_of_fresh hfresh))
    exact hrespond.congr rfl rfl rfl

/-- What is built has the generation it is given, and is no placeholder where none is allowed. -/
theorem build_spec (h : p.build ext dns keyPair n now g = .ok c) : c.generation = g ∧
    c.configs = ∅ ∧ (p.requireEch → ∀ publicKey, c.echMode ≠ .grease publicKey) := by
  obtain ⟨⟨echBytes, ttl⟩, -, h⟩ := bind_eq_ok.mp h
  obtain ⟨mode, hmode, h⟩ := bind_eq_ok.mp h
  obtain rfl := Except.ok.inj h
  refine ⟨rfl, rfl, fun hrequire publicKey ↦ ?_⟩
  rintro rfl
  cases echBytes with
  | none =>
    rw [ClientProvider.resolveMode, if_pos hrequire] at hmode
    exact absurd hmode (by simp)
  | some bytes =>
    rw [ClientProvider.resolveMode, buildRealEchMode] at hmode
    split at hmode <;> exact absurd hmode (by simp)

theorem inv_buildPath (h : Inv p ext s) :
    Inv p ext (s.buildPath p ext id call dns keyPair now) := by
  rw [buildPath]
  cases hbuild : p.build ext dns keyPair call.innerName now s.nextGeneration with
  | ok c =>
    obtain ⟨hgeneration, hconfigs, hreal⟩ := build_spec hbuild
    have hrespond : Inv p ext (({ s with nextGeneration := s.nextGeneration + 1 }.emit
        [.installed call.innerName c.generation c.echMode]).respond p ext call c) := by
      rw [hgeneration]
      exact inv_respond (h.1.install hreal) (fun n hn c hc ↦ (h.2 n c hc).install hn)
        (h.1.entryOk_install hgeneration hconfigs)
    exact hrespond.congr rfl rfl rfl
  | error e =>
    dsimp only
    cases hlookup : s.cache.lookup call.innerName with
    | none => exact (h.emit (.answer call (.error e)) trivial).congr rfl rfl rfl
    | some c =>
      obtain ⟨hinstalled, hnewest, hpresent, hassembled⟩ := h.2 _ c hlookup
      have hrespond : Inv p ext
          (s.respond p ext call { c with refreshAt := now + fromSecs 30 }) :=
        inv_respond h.1 (fun n _ c hc ↦ h.2 n c hc) ⟨hinstalled, hnewest, hpresent, hassembled⟩
      exact hrespond.congr rfl rfl rfl

theorem inv_invalidate (h : Inv p ext s) :
    Inv p ext (s.invalidateAfterRejection p n g) := by
  rw [invalidateAfterRejection]
  split_ifs with hcurrent
  swap
  · exact h.emit _ rfl
  obtain ⟨c, hc, rfl⟩ := Option.map_eq_some_iff.mp hcurrent
  -- clearing the answer of the resolver is not an eviction
  have hcleared : Inv p ext { s with log := s.log ++ clearedBy p n } := by
    rw [clearedBy]
    split_ifs
    · rw [List.append_nil]
      exact h
    · exact h.emit (.cleared (p.lookupName n)) trivial
  rw [← List.append_assoc]
  refine ⟨hcleared.1.evict (hcleared.2 n c hc), fun m c' hc' ↦ ?_⟩
  have hm : m ≠ n := by
    rintro rfl
    rw [AList.lookup_erase] at hc'
    exact absurd hc' (by simp)
  rw [AList.lookup_erase_ne hm] at hc'
  refine (hcleared.2 m c' hc').evict fun heq ↦ hm ?_
  exact (h.1.oneMode m n c.generation c'.echMode c.echMode (heq ▸ (h.2 m c' hc').installed)
    (h.2 n c hc).installed).1

theorem exists_call_of_step {id : ℕ} {ok : EchCall → Prop} [DecidablePred ok]
    {next : EchCall → EchState κ ν}
    (h : (match s.calls.lookup id with
      | some call => if ok call then some (next call) else none
      | none => none) = some s') : ∃ call, s.calls.lookup id = some call ∧ s' = next call := by
  split at h
  · rename_i call hlookup
    split_ifs at h
    exact ⟨call, hlookup, (Option.some.inj h).symm⟩
  · exact absurd h (by simp)

/-- What a step consists of. -/
theorem step_cases (h : s.step p ext e = some s') :
    (s'.cache = s.cache ∧ s'.nextGeneration = s.nextGeneration ∧ s'.log = s.log) ∨
    (∃ id call now, s' = s.readPath id call now) ∨
    (∃ id call now, s' = s.writePath p ext id call now) ∨
    (∃ id call dns keyPair now, e = .built id dns keyPair now ∧ s.calls.lookup id = some call ∧
      s' = s.buildPath p ext id call dns keyPair now) ∨
    ∃ n g, e = .reject n g ∧ s' = s.invalidateAfterRejection p n g := by
  cases e with
  | call id innerName alpn =>
    rw [step] at h
    split_ifs at h
    obtain rfl := Option.some.inj h
    exact .inl ⟨rfl, rfl, rfl⟩
  | read id now =>
    obtain ⟨call, -, rfl⟩ := exists_call_of_step h
    exact .inr (.inl ⟨id, call, now, rfl⟩)
  | write id now =>
    obtain ⟨call, -, rfl⟩ := exists_call_of_step h
    exact .inr (.inr (.inl ⟨id, call, now, rfl⟩))
  | built id dns keyPair now =>
    obtain ⟨call, hlookup, rfl⟩ := exists_call_of_step h
    exact .inr (.inr (.inr (.inl ⟨id, call, dns, keyPair, now, rfl, hlookup, rfl⟩)))
  | drop id =>
    rw [step] at h
    split_ifs at h
    obtain rfl := Option.some.inj h
    exact .inl ⟨rfl, rfl, rfl⟩
  | reject innerName generation =>
    rw [step] at h
    split_ifs at h
    exact .inr (.inr (.inr (.inr ⟨innerName, generation, rfl, (Option.some.inj h).symm⟩)))

theorem inv_step (h : Inv p ext s) (hstep : s.step p ext e = some s') : Inv p ext s' := by
  obtain ⟨hcache, hnext, hlog⟩ | ⟨id, call, now, rfl⟩ | ⟨id, call, now, rfl⟩ |
    ⟨id, call, dns, keyPair, now, -, -, rfl⟩ | ⟨n, g, -, rfl⟩ := step_cases hstep
  · exact h.congr hcache hnext hlog
  · exact inv_readPath h
  · exact inv_writePath h
  · exact inv_buildPath h
  · exact inv_invalidate h

theorem inv_start : Inv p ext start := by
  refine ⟨⟨?_, ?_, ?_, ?_, ?_, ?_, ?_⟩, ?_⟩ <;> simp [start, generations, evictions]

theorem inv_of_reach (h : Reach (step p ext) (fun _ _ ↦ True) start s) : Inv p ext s :=
  h.invariant inv_start fun _ _ _ hinv _ hnext ↦ inv_step hinv hnext

theorem lookup_respond_ne (hn : n ≠ call.innerName) :
    (s.respond p ext call c).cache.lookup n = s.cache.lookup n := by
  rw [respond]
  split <;> exact AList.lookup_insert_ne hn

end Steps

/-! ## The protocol -/

/-- An entry of a name is still there, with more configurations perhaps. -/
def Keeps (s : EchState κ ν) (n : Str) (c : Cached κ ν) : Prop :=
  ∃ c', s.cache.lookup n = some c' ∧ c'.generation = c.generation ∧ c'.echMode = c.echMode

/-- What calls have done is as it should. -/
structure Sound (s : EchState κ ν) : Prop where
  /-- A configuration is assembled from the one mode installed under the generation returned with
  it, offers what was asked for, and is no placeholder where none is allowed. -/
  returned : ∀ n alpn client, .returned n alpn client ∈ s.log →
    (∃ mode, .installed n client.generation mode ∈ s.log ∧
      (∀ m mode', .installed m client.generation mode' ∈ s.log → m = n ∧ mode' = mode) ∧
      p.Assembles ext mode alpn client.clientConfig) ∧
    client.clientConfig.alpnProtocols = alpn ∧
    (p.requireEch → ∀ publicKey, client.clientConfig.echMode ≠ .grease publicKey)
  /-- Generations strictly increase, whatever the names they are installed for. -/
  increasing : (generations s.log).Pairwise (· < ·)
  /-- No generation is evicted twice. -/
  once : (evictions s.log).Nodup

/-- What a step does to the entries is as it should. -/
structure StepSound (s : EchState κ ν) (e : EchEvent ρ) (s' : EchState κ ν) : Prop where
  /-- An entry is kept, superseded by a newer one, or evicted by a caller that presents its
  generation. -/
  entry : ∀ n c, s.cache.lookup n = some c → s'.Keeps n c ∨
    (∃ id dns keyPair now c', e = .built id dns keyPair now ∧ s'.cache.lookup n = some c' ∧
      c.generation < c'.generation) ∨
    (e = .reject n c.generation ∧ s'.cache.lookup n = none ∧
      .invalidated n c.generation true ∈ s'.log)
  /-- A rejection of a generation that has been superseded or evicted changes nothing. -/
  stale : ∀ n g, e = .reject n g →
    ((∃ g' mode, .installed n g' mode ∈ s.log ∧ g < g') ∨ g ∈ evictions s.log) →
    s'.cache = s.cache ∧ s'.nextGeneration = s.nextGeneration ∧
      s'.log = s.log ++ [.invalidated n g false]
  /-- A failed refresh keeps the entry. -/
  failed : ∀ id dns keyPair now call c error, e = .built id dns keyPair now →
    s.calls.lookup id = some call → s.cache.lookup call.innerName = some c →
    p.build ext dns keyPair call.innerName now s.nextGeneration = .error error →
    s'.Keeps call.innerName c ∧ s'.nextGeneration = s.nextGeneration

section Protocol

variable {p ext} {s s' : EchState κ ν} {e : EchEvent ρ} {call : EchCall} {c : Cached κ ν}
  {id now g : ℕ} {n : Str} {dns : Dns ρ} {keyPair : Except Str Bytes}

theorem sound_of_inv (h : Inv p ext s) : s.Sound p ext where
  returned n alpn client hin := by
    obtain ⟨mode, hmode, hassembles⟩ := h.1.returned n alpn client hin
    obtain ⟨assembled, hassemble, hconfig⟩ := hassembles
    have hecho : client.clientConfig.echMode = mode := by
      rw [hconfig]
      rw [ClientProvider.assembleClientConfig] at hassemble
      cases haccept : ext.withEch mode with
      | error e =>
        rw [haccept] at hassemble
        exact absurd hassemble (by simp [Except.map, Except.mapError])
      | ok u =>
        rw [haccept] at hassemble
        obtain rfl := Except.ok.inj hassemble
        rfl
    refine ⟨⟨mode, hmode, fun m mode' hin' ↦ ?_, assembled, hassemble, hconfig⟩, ?_, ?_⟩
    · exact h.1.oneMode m n _ mode' mode hin' hmode
    · rw [hconfig]
    · rintro hrequire publicKey hgrease
      exact h.1.real hrequire n _ publicKey (hgrease ▸ hecho ▸ hmode)
  increasing := h.1.increasing
  once := h.1.once

theorem keeps_of_lookup (h : s.cache.lookup n = some c) : s.Keeps n c := ⟨c, h, rfl, rfl⟩

/-- An answer from an entry keeps it, and leaves the others alone. -/
theorem keeps_respond {c₀ : Cached κ ν} (h : s.cache.lookup n = some c)
    (hc : n = call.innerName → c₀.generation = c.generation ∧ c₀.echMode = c.echMode) :
    (s.respond p ext call c₀).Keeps n c := by
  by_cases hn : n = call.innerName
  · obtain ⟨hgeneration, hmode⟩ := hc hn
    subst hn
    obtain ⟨c', hlookup, hgeneration', hmode'⟩ := lookup_respond p ext s call c₀
    exact ⟨c', hlookup, hgeneration'.trans hgeneration, hmode'.trans hmode⟩
  · exact ⟨c, (lookup_respond_ne hn).trans h, rfl, rfl⟩

theorem keeps_readPath (h : s.cache.lookup n = some c) : (s.readPath id call now).Keeps n c := by
  rw [readPath]
  split
  · split <;> exact keeps_of_lookup h
  · exact keeps_of_lookup h

theorem keeps_writePath (h : s.cache.lookup n = some c) :
    (s.writePath p ext id call now).Keeps n c := by
  rw [writePath]
  cases hfresh : s.fresh call.innerName now with
  | none => exact keeps_of_lookup h
  | some c₀ =>
    refine keeps_respond h fun hn ↦ ?_
    obtain rfl := Option.some.inj ((hn ▸ lookup_of_fresh hfresh).symm.trans h)
    exact ⟨rfl, rfl⟩

theorem keeps_buildPath_of_error {error : EchError} (h : s.cache.lookup n = some c)
    (hbuild : p.build ext dns keyPair call.innerName now s.nextGeneration = .error error) :
    (s.buildPath p ext id call dns keyPair now).Keeps n c := by
  rw [buildPath, hbuild]
  dsimp only
  cases hlookup : s.cache.lookup call.innerName with
  | none => exact keeps_of_lookup h
  | some c₀ =>
    refine keeps_respond h fun hn ↦ ?_
    obtain rfl := Option.some.inj ((hn ▸ hlookup).symm.trans h)
    exact ⟨rfl, rfl⟩

theorem entry_buildPath (hinv : Inv p ext s) (h : s.cache.lookup n = some c) :
    (s.buildPath p ext id call dns keyPair now).Keeps n c ∨
      ∃ c', (s.buildPath p ext id call dns keyPair now).cache.lookup n = some c' ∧
        c.generation < c'.generation := by
  cases hbuild : p.build ext dns keyPair call.innerName now s.nextGeneration with
  | error error => exact .inl (keeps_buildPath_of_error h hbuild)
  | ok fresh =>
    rw [buildPath, hbuild]
    dsimp only
    by_cases hn : n = call.innerName
    · subst hn
      obtain ⟨c', hlookup, hgeneration, -⟩ := lookup_respond p ext
        ({ s with nextGeneration := s.nextGeneration + 1 }.emit
          [.installed call.innerName fresh.generation fresh.echMode]) call fresh
      refine .inr ⟨c', hlookup, ?_⟩
      rw [hgeneration, (build_spec hbuild).1]
      exact hinv.1.below _ (mem_generations.mpr ⟨_, _, (hinv.2 _ c h).installed⟩)
    · exact .inl (keeps_respond h fun hn' ↦ absurd hn' hn)

theorem entry_invalidate {m : Str} (h : s.cache.lookup n = some c) :
    (s.invalidateAfterRejection p m g).Keeps n c ∨
      m = n ∧ g = c.generation ∧ (s.invalidateAfterRejection p m g).cache.lookup n = none ∧
        .invalidated n c.generation true ∈ (s.invalidateAfterRejection p m g).log := by
  rw [invalidateAfterRejection]
  split_ifs with hcurrent
  swap
  · exact .inl (keeps_of_lookup h)
  by_cases hn : n = m
  · subst hn
    rw [h] at hcurrent
    obtain rfl : c.generation = g := Option.some.inj hcurrent
    exact .inr ⟨rfl, rfl, AList.lookup_erase n s.cache, by simp⟩
  · exact .inl ⟨c, (AList.lookup_erase_ne hn).trans h, rfl, rfl⟩

theorem stepSound_of_inv (h : Inv p ext s) (hstep : s.step p ext e = some s') :
    StepSound p ext s e s' := by
  constructor
  · intro n c hc
    obtain ⟨hcache, -, -⟩ | ⟨id, call, now, rfl⟩ | ⟨id, call, now, rfl⟩ |
      ⟨id, call, dns, keyPair, now, rfl, -, rfl⟩ | ⟨m, g, rfl, rfl⟩ := step_cases hstep
    · exact .inl ⟨c, hcache ▸ hc, rfl, rfl⟩
    · exact .inl (keeps_readPath hc)
    · exact .inl (keeps_writePath hc)
    · refine (entry_buildPath h hc).imp_right ?_
      rintro ⟨c', hlookup, hlt⟩
      exact .inl ⟨id, dns, keyPair, now, c', rfl, hlookup, hlt⟩
    · refine (entry_invalidate hc).imp_right ?_
      rintro ⟨rfl, rfl, hgone, hlogged⟩
      exact .inr ⟨rfl, hgone, hlogged⟩
  · rintro n g rfl hold
    rw [step] at hstep
    split_ifs at hstep
    obtain rfl := Option.some.inj hstep
    rw [invalidateAfterRejection, if_neg]
    · exact ⟨rfl, rfl, rfl⟩
    intro hcurrent
    obtain ⟨c, hc, rfl⟩ := Option.map_eq_some_iff.mp hcurrent
    rcases hold with ⟨g', mode, hin, hlt⟩ | hevicted
    · exact absurd ((h.2 n c hc).newest g' mode hin) (not_le.mpr hlt)
    · exact (h.2 n c hc).present hevicted
  · rintro id dns keyPair now call c error rfl hcall hc hbuild
    obtain rfl : s.buildPath p ext id call dns keyPair now = s' := by
      rw [step, hcall] at hstep
      dsimp only at hstep
      split_ifs at hstep
      exact Option.some.inj hstep
    refine ⟨keeps_buildPath_of_error hc hbuild, ?_⟩
    rw [buildPath, hbuild]
    dsimp only
    rw [hc]
    dsimp only
    rw [respond]
    split <;> rfl

/-- **The generation protocol.** In every state that calls and rejections lead to, in whatever order
and with whatever answers, what has been returned, installed and evicted is as it should, and so is
what the next step does to the entries. -/
theorem generation_protocol (h : Reach (step p ext) (fun _ _ ↦ True) start s) :
    s.Sound p ext ∧ ∀ e s', s.step p ext e = some s' → StepSound p ext s e s' :=
  ⟨sound_of_inv (inv_of_reach h), fun _ _ hstep ↦ stepSound_of_inv (inv_of_reach h) hstep⟩

end Protocol

/-! ## A rejected configuration -/

section Rejection

/-- A provider with an inline configuration. -/
private def inlineProvider : ClientProvider Unit Unit where
  settings := { mode := .static, config := some "AA==".toList, echDomain := none, maxRetries := 1 }
  upstreamPort := 443
  resolver := ()
  requireEch := true
  enableSni := true
  verify := ()
  refreshBound := fromSecs 3600

/-- Every configuration is compatible. -/
private def compatible : EchExternals Bytes where
  base64 _ := .ok [0]
  echConfig := some
  withEch _ := .ok ()

/-- A configuration is obtained, rejected twice, and obtained again. -/
private def rejectedOnce : List (EchEvent Unit) :=
  [.call 0 "a.test".toList [], .call 1 "a.test".toList [], .read 0 0, .read 1 0, .write 0 0,
    .built 0 EchProvider.deafDns (.ok []) 0, .reject "a.test".toList 1, .write 1 1,
    .built 1 EchProvider.deafDns (.ok []) 1, .reject "a.test".toList 1]

theorem generation_protocol_rejectedOnce :
    ∃ s, runFrom (step inlineProvider compatible) start rejectedOnce = some s ∧
      generations s.log = [1, 2] ∧ evictions s.log = [1] ∧ s.Sound inlineProvider compatible := by
  have hrun : ((runFrom (step inlineProvider compatible) start rejectedOnce).map fun s ↦
      (generations s.log, evictions s.log)) = some ([1, 2], [1]) := by decide +kernel
  obtain ⟨s, hs, heq⟩ := Option.map_eq_some_iff.mp hrun
  obtain ⟨hgenerations, hevictions⟩ := Prod.mk.inj heq
  exact ⟨s, hs, hgenerations, hevictions, (generation_protocol (reach_of_runFrom hs .start)).1⟩

end Rejection

end EchState

end SniGate
