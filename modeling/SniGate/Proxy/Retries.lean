import SniGate.Proxy.Guarantees

/-!
# Retries of an ECH upstream

A server that rejects ECH makes the connection report the generation of its configuration and ask
the provider again. Between the two, and between two attempts, other connections share the provider.
What the provider has done for all of them is its log: once a generation was rejected, no client of
it, or of an older one, is handed out for that name (`Superseded`). So the attempts of a connection,
whose reports and clients are in the log among others, use newer configurations each time, and there
are no more of them than the route allows (`retries_move_on`).
-/

namespace SniGate

/-! ## The log of a provider -/

namespace EchState

variable {κ ν ρ : Type} {p : ClientProvider ρ ν} {ext : EchExternals κ} {s s' : EchState κ ν}
  {n : Str} {c : Cached κ ν} {call : EchCall} {es : List (EchEffect κ ν)}

/-- A generation that was handed out for a name, and rejected after that. -/
def Rejected (log : List (EchEffect κ ν)) (n : Str) (g : ℕ) (after : List (EchEffect κ ν)) : Prop :=
  ∃ before evicted, log = before ++ .invalidated n g evicted :: after ∧
    ∃ alpn client, .returned n alpn client ∈ before ∧ client.generation = g

/-- What is in the cache, and what is handed out, is newer than what was rejected. -/
def Superseded (s : EchState κ ν) : Prop :=
  ∀ n g after, Rejected s.log n g after →
    (∀ c, s.cache.lookup n = some c → g < c.generation) ∧
      ∀ alpn client, .returned n alpn client ∈ after → g < client.generation

/-- What an answer does: it hands out what the cache holds afterwards, which was there before, or
is new. -/
structure Answers (s s' : EchState κ ν) (es : List (EchEffect κ ν)) : Prop where
  log : s'.log = s.log ++ es
  quiet : ∀ n g evicted, .invalidated n g evicted ∉ es
  cache : ∀ n c', s'.cache.lookup n = some c' →
    (∃ c, s.cache.lookup n = some c ∧ c.generation = c'.generation) ∨
      c'.generation = s.nextGeneration
  returned : ∀ n alpn client, .returned n alpn client ∈ es →
    ∃ c', s'.cache.lookup n = some c' ∧ c'.generation = client.generation

theorem Rejected.of_append {g : ℕ} {after : List (EchEffect κ ν)} {log : List (EchEffect κ ν)}
    (h : Rejected (log ++ es) n g after) (hquiet : ∀ n g evicted, .invalidated n g evicted ∉ es) :
    ∃ after', Rejected log n g after' ∧ after = after' ++ es := by
  obtain ⟨before, evicted, hlog, hreturned⟩ := h
  rcases List.append_eq_append_iff.mp hlog with ⟨middle, rfl, hes⟩ | ⟨middle, rfl, hrest⟩
  · refine absurd ?_ (hquiet n g evicted)
    rw [hes]
    exact List.mem_append_right _ List.mem_cons_self
  · cases middle with
    | nil =>
      rw [List.nil_append] at hrest
      refine absurd ?_ (hquiet n g evicted)
      rw [← hrest]
      exact List.mem_cons_self
    | cons e middle =>
      obtain ⟨rfl, rfl⟩ := List.cons.inj hrest
      exact ⟨middle, ⟨before, evicted, rfl, hreturned⟩, rfl⟩

theorem Rejected.lt {g : ℕ} {after : List (EchEffect κ ν)} (h : Rejected s.log n g after)
    (hinv : Inv p ext s) : g < s.nextGeneration := by
  obtain ⟨before, evicted, hlog, alpn, client, hmem, rfl⟩ := h
  have hreturned : .returned n alpn client ∈ s.log := by
    rw [hlog]
    exact List.mem_append_left _ hmem
  obtain ⟨mode, hinstalled, -⟩ := hinv.1.returned n alpn client hreturned
  exact hinv.1.below _ (mem_generations.mpr ⟨n, mode, hinstalled⟩)

theorem Superseded.answers (h : s.Superseded) (hinv : Inv p ext s) (hanswers : Answers s s' es) :
    s'.Superseded := by
  intro n g after hrejected
  rw [hanswers.log] at hrejected
  obtain ⟨after', hbefore, rfl⟩ := hrejected.of_append hanswers.quiet
  obtain ⟨hcache, hreturned⟩ := h n g after' hbefore
  have hcache' : ∀ c', s'.cache.lookup n = some c' → g < c'.generation := by
    intro c' hc'
    rcases hanswers.cache n c' hc' with ⟨c, hc, hsame⟩ | hnew
    · exact hsame ▸ hcache c hc
    · exact hnew ▸ hbefore.lt hinv
  refine ⟨hcache', fun alpn client hmem ↦ ?_⟩
  rcases List.mem_append.mp hmem with hmem | hmem
  · exact hreturned alpn client hmem
  · obtain ⟨c', hc', hsame⟩ := hanswers.returned n alpn client hmem
    exact hsame ▸ hcache' c' hc'

variable (p ext call c) in
theorem answers_respond {t : EchState κ ν} (hcache : t.cache = s.cache) (hlog : t.log = s.log ++ es)
    (hquiet : ∀ e ∈ es, ∃ n g mode, e = .installed n g mode)
    (hc : (∃ c₀, s.cache.lookup call.innerName = some c₀ ∧ c₀.generation = c.generation) ∨
      c.generation = s.nextGeneration) :
    ∃ es', Answers s (t.respond p ext call c) es' := by
  have hput (c' : Cached κ ν) (effect : EchEffect κ ν) (hsame : c'.generation = c.generation)
      (heffect : ∀ n g evicted, effect ≠ .invalidated n g evicted)
      (hreturned : ∀ n alpn client, effect = .returned n alpn client →
        n = call.innerName ∧ client.generation = c.generation) :
      Answers s { t with
        cache := t.cache.insert call.innerName c', log := t.log ++ [effect] } (es ++ [effect]) := by
    refine ⟨by rw [hlog, List.append_assoc], fun n g evicted hmem ↦ ?_, fun n c'' hc'' ↦ ?_,
      fun n alpn client hmem ↦ ?_⟩
    · rcases List.mem_append.mp hmem with hmem | hmem
      · obtain ⟨_, _, _, heq⟩ := hquiet _ hmem
        exact absurd heq (by simp)
      · exact heffect n g evicted (List.mem_singleton.mp hmem).symm
    · by_cases hn : n = call.innerName
      · subst hn
        obtain rfl := Option.some.inj ((AList.lookup_insert t.cache).symm.trans hc'')
        rw [hsame]
        exact hc
      · rw [AList.lookup_insert_ne hn, hcache] at hc''
        exact .inl ⟨c'', hc'', rfl⟩
    · rcases List.mem_append.mp hmem with hmem | hmem
      · obtain ⟨_, _, _, heq⟩ := hquiet _ hmem
        exact absurd heq (by simp)
      · obtain ⟨rfl, hgeneration⟩ := hreturned n alpn client (List.mem_singleton.mp hmem).symm
        exact ⟨c', AList.lookup_insert _, hsame.trans hgeneration.symm⟩
  rw [respond]
  cases hconfig : p.configFor ext c call.alpn with
  | error e => exact ⟨_, hput c _ rfl (by simp [EchEffect.answer]) (by simp [EchEffect.answer])⟩
  | ok found =>
    refine ⟨_, hput found.2 _ (configFor_spec hconfig).1.1 (by simp [EchEffect.answer])
      fun n alpn client heq ↦ ?_⟩
    cases heq
    exact ⟨rfl, rfl⟩

theorem Answers.refl : Answers s s [] :=
  ⟨(List.append_nil _).symm, fun _ _ _ h ↦ absurd h List.not_mem_nil,
    fun _ c hc ↦ .inl ⟨c, hc, rfl⟩, fun _ _ _ h ↦ absurd h List.not_mem_nil⟩

theorem Answers.congr {t : EchState κ ν} (h : Answers s s' es) (hcache : t.cache = s'.cache)
    (hlog : t.log = s'.log) : Answers s t es where
  log := hlog.trans h.log
  quiet := h.quiet
  cache := hcache ▸ h.cache
  returned := hcache ▸ h.returned

theorem answers_readPath {id now : ℕ} : ∃ es, Answers s (s.readPath id call now) es := by
  rw [readPath]
  cases hfresh : s.fresh call.innerName now with
  | none => exact ⟨[], Answers.refl.congr rfl rfl⟩
  | some c =>
    dsimp only
    cases hconfig : c.configs.lookup call.alpn with
    | none => exact ⟨[], Answers.refl.congr rfl rfl⟩
    | some config =>
      refine ⟨[.answer call (.ok ⟨config, c.generation⟩)], rfl, fun n g evicted hmem ↦ ?_,
        fun n c' hc' ↦ .inl ⟨c', hc', rfl⟩, fun n alpn client hmem ↦ ?_⟩
      · exact absurd (List.mem_singleton.mp hmem) (by simp [EchEffect.answer])
      · cases List.mem_singleton.mp hmem
        exact ⟨c, lookup_of_fresh hfresh, rfl⟩

theorem answers_writePath {id now : ℕ} : ∃ es, Answers s (s.writePath p ext id call now) es := by
  rw [writePath]
  cases hfresh : s.fresh call.innerName now with
  | none => exact ⟨[], Answers.refl.congr rfl rfl⟩
  | some c =>
    obtain ⟨es, hanswers⟩ := answers_respond p ext c call (s := s) rfl (List.append_nil _).symm
      (fun _ h ↦ absurd h List.not_mem_nil) (.inl ⟨c, lookup_of_fresh hfresh, rfl⟩)
    exact ⟨es, hanswers.congr rfl rfl⟩

theorem answers_buildPath {id now : ℕ} {dns : Dns ρ} {keyPair : Except Str Bytes} :
    ∃ es, Answers s (s.buildPath p ext id call dns keyPair now) es := by
  rw [buildPath]
  cases hbuild : p.build ext dns keyPair call.innerName now s.nextGeneration with
  | ok c =>
    have hnew : c.generation = s.nextGeneration := (build_spec hbuild).1
    obtain ⟨es, hanswers⟩ := answers_respond p ext c call (s := s)
      (t := { s with nextGeneration := s.nextGeneration + 1 }.emit
        [.installed call.innerName c.generation c.echMode]) rfl rfl
      (fun _ hmem ↦ ⟨_, _, _, List.mem_singleton.mp hmem⟩) (.inr hnew)
    exact ⟨es, hanswers.congr rfl rfl⟩
  | error e =>
    dsimp only
    cases hlookup : s.cache.lookup call.innerName with
    | none =>
      refine ⟨[.answer call (.error e)], rfl, fun n g evicted hmem ↦ ?_,
        fun n c' hc' ↦ .inl ⟨c', hc', rfl⟩, fun n alpn client hmem ↦ ?_⟩
      · exact absurd (List.mem_singleton.mp hmem) (by simp [EchEffect.answer])
      · exact absurd (List.mem_singleton.mp hmem) (by simp [EchEffect.answer])
    | some c =>
      obtain ⟨es, hanswers⟩ := answers_respond p ext { c with refreshAt := now + fromSecs 30 }
        call (s := s) rfl (List.append_nil _).symm (fun _ h ↦ absurd h List.not_mem_nil)
        (.inl ⟨c, hlookup, rfl⟩)
      exact ⟨es, hanswers.congr rfl rfl⟩

/-- A rejection leaves nothing in the cache that is as old as what it rejects. -/
theorem Superseded.invalidate (h : s.Superseded) (hinv : Inv p ext s) {m : Str} {g : ℕ} :
    (s.invalidateAfterRejection p m g).Superseded := by
  obtain ⟨cleared, evicted, hlog, hquiet, hcache⟩ : ∃ cleared evicted,
      (s.invalidateAfterRejection p m g).log =
        s.log ++ cleared ++ [.invalidated m g evicted] ∧
      (∀ e ∈ cleared, ∃ name, e = .cleared name) ∧
      (∀ n c, (s.invalidateAfterRejection p m g).cache.lookup n = some c →
        s.cache.lookup n = some c ∧ (n = m → c.generation ≠ g)) := by
    rw [invalidateAfterRejection]
    split_ifs with hcurrent
    · refine ⟨clearedBy p m, true, by rw [List.append_assoc], fun e he ↦ ?_, fun n c hc ↦ ?_⟩
      · rw [clearedBy] at he
        split_ifs at he
        · exact absurd he List.not_mem_nil
        · exact ⟨_, List.mem_singleton.mp he⟩
      · by_cases hn : n = m
        · subst hn
          exact absurd ((AList.lookup_erase n s.cache).symm.trans hc) (by simp)
        · exact ⟨(AList.lookup_erase_ne hn).symm.trans hc, fun heq ↦ absurd heq hn⟩
    · refine ⟨[], false, by rw [List.append_nil]; rfl, fun e he ↦ absurd he List.not_mem_nil,
        fun n c hc ↦ ⟨hc, fun hn hgeneration ↦ hcurrent ?_⟩⟩
      rw [← hn, show s.cache.lookup n = some c from hc, ← hgeneration]
      rfl
  have hquiet' (n : Str) (g : ℕ) (evicted : Bool) : .invalidated n g evicted ∉ cleared := by
    intro hmem
    obtain ⟨_, heq⟩ := hquiet _ hmem
    exact absurd heq (by simp)
  rintro n g' after ⟨before, evicted', hsplit, hreturned⟩
  rw [hlog] at hsplit
  rcases after.eq_nil_or_concat with rfl | ⟨after', last, rfl⟩
  · -- this rejection: what was handed out is older than the entry, unless the entry is evicted
    obtain ⟨rfl, heq⟩ := List.append_inj' hsplit rfl
    cases List.singleton_inj.mp heq
    refine ⟨fun c hc ↦ ?_, fun _ _ hmem ↦ absurd hmem List.not_mem_nil⟩
    obtain ⟨hold, hne⟩ := hcache m c hc
    obtain ⟨alpn, client, hmem, rfl⟩ := hreturned
    have hmem' : .returned m alpn client ∈ s.log := by
      refine (List.mem_append.mp hmem).resolve_right fun hmem ↦ ?_
      obtain ⟨_, heq⟩ := hquiet _ hmem
      exact absurd heq (by simp)
    obtain ⟨mode, hinstalled, -⟩ := hinv.1.returned m alpn client hmem'
    exact lt_of_le_of_ne ((hinv.2 m c hold).newest _ mode hinstalled) (hne rfl).symm
  · rw [List.concat_eq_append, ← List.cons_append, ← List.append_assoc] at hsplit
    obtain ⟨hfront, heq⟩ := List.append_inj' hsplit rfl
    cases List.singleton_inj.mp heq
    have hrejected : Rejected (s.log ++ cleared) n g' after' :=
      ⟨before, evicted', hfront, hreturned⟩
    obtain ⟨after'', hrejected', rfl⟩ := hrejected.of_append hquiet'
    obtain ⟨hentry, hlater⟩ := h n g' after'' hrejected'
    rw [List.concat_eq_append]
    refine ⟨fun c hc ↦ hentry c (hcache n c hc).1, fun alpn client hmem ↦ ?_⟩
    rcases List.mem_append.mp hmem with hmem | hmem
    · refine hlater alpn client ((List.mem_append.mp hmem).resolve_right fun hmem ↦ ?_)
      obtain ⟨_, heq⟩ := hquiet _ hmem
      exact absurd heq (by simp)
    · exact absurd (List.mem_singleton.mp hmem) (by simp)

variable (p ext) in
theorem answers_or_invalidate {e : EchEvent ρ} (h : s.step p ext e = some s') :
    (∃ es, Answers s s' es) ∨ ∃ m g, s' = s.invalidateAfterRejection p m g := by
  obtain ⟨hcache, -, hlog⟩ | ⟨id, call, now, rfl⟩ | ⟨id, call, now, rfl⟩ |
    ⟨id, call, dns, keyPair, now, -, -, rfl⟩ | ⟨m, g, -, rfl⟩ := step_cases h
  · exact .inl ⟨[], Answers.refl.congr hcache hlog⟩
  · exact .inl answers_readPath
  · exact .inl answers_writePath
  · exact .inl answers_buildPath
  · exact .inr ⟨m, g, rfl⟩

/-- **A rejected generation does not come back.** -/
theorem superseded_of_reach (h : Reach (step p ext) (fun _ _ ↦ True) start s) : s.Superseded := by
  induction h with
  | start =>
    rintro n g after ⟨before, evicted, hlog, -⟩
    exact absurd hlog (by simp [start])
  | step h _ hstep ih =>
    have hinv := inv_of_reach h
    rcases answers_or_invalidate p ext hstep with ⟨es, hanswers⟩ | ⟨m, g, rfl⟩
    · exact ih.answers hinv hanswers
    · exact ih.invalidate hinv

end EchState

/-! ## The attempts of a connection -/

section Attempts

variable {ρ κ V Der Key : Type}

/-- What an exchange with the provider leaves in its log. -/
def ConnOp.echEffect : ConnExchange ρ κ V Der → Option (EchEffect κ V)
  | ⟨.echClient innerName alpn, .ok client⟩ => some (.returned innerName alpn client)
  | ⟨.invalidateAfterRejection innerName generation, evicted⟩ =>
    some (.invalidated innerName generation evicted)
  | _ => none

/-- What a connection has left in the log of its provider. -/
def echEffects (es : List (ConnExchange ρ κ V Der)) : List (EchEffect κ V) :=
  es.filterMap ConnOp.echEffect

/-- The generations that a connection was handed out, in order. -/
def generationsUsed (es : List (ConnExchange ρ κ V Der)) : List ℕ :=
  es.filterMap fun
    | ⟨.echClient _ _, .ok client⟩ => some client.generation
    | _ => none

/-- The handshakes of a connection with its upstream. -/
def handshakesOf (es : List (ConnExchange ρ κ V Der)) : List (ConnExchange ρ κ V Der) :=
  es.filter fun
    | ⟨.handshake .., _⟩ => true
    | _ => false

variable {gw : Gateway ρ κ V Der Key} {s : Progress κ V Der} {es : List (ConnExchange ρ κ V Der)}
  {r : ConnTask ρ κ V Der Unit} {inbound : Inbound}

/-- The attempts so far: the client handed out last is of the newest generation, and once its
rejection is reported, that is in the log after it. -/
structure Attempting (gw : Gateway ρ κ V Der Key) (s : Progress κ V Der)
    (es : List (ConnExchange ρ κ V Der)) : Prop where
  increasing : (generationsUsed es).Pairwise (· < ·)
  first : s.up.client = none → generationsUsed es = []
  newest : ∀ c, s.up.client = some c → ∀ g ∈ generationsUsed es, g ≤ c.generation
  logged : ∀ c, s.up.client = some c → ∃ inbound rt before innerName alpn after,
    s.inbound = some inbound ∧ gw.routed inbound = some rt ∧
    requestedName gw rt inbound = some innerName ∧
    echEffects es = before ++ .returned innerName alpn c :: after ∧
    ∀ name, s.up.reported = some (name, c.generation) →
      ∃ evicted, .invalidated name c.generation evicted ∈ after
  counted : s.up.handshakes = (handshakesOf es).length

theorem attempting_start : Attempting gw ({} : Progress κ V Der) [] :=
  ⟨List.Pairwise.nil, fun _ ↦ rfl, nofun, nofun, rfl⟩

theorem Attempting.other {s' : Progress κ V Der} {e : ConnExchange ρ κ V Der}
    (h : Attempting gw s es) (hinbound : ∀ i, s.inbound = some i → s'.inbound = some i)
    (hclient : s'.up.client = s.up.client) (hreported : s'.up.reported = s.up.reported)
    (hhandshakes : s'.up.handshakes = s.up.handshakes) (heffect : ConnOp.echEffect e = none)
    (hgeneration : generationsUsed [e] = []) (hcount : handshakesOf [e] = []) :
    Attempting gw s' (es ++ [e]) := by
  have hused : generationsUsed (es ++ [e]) = generationsUsed es := by
    unfold generationsUsed at *
    rw [List.filterMap_append, hgeneration, List.append_nil]
  have heffects : echEffects (es ++ [e]) = echEffects es := by
    unfold echEffects
    rw [List.filterMap_append, List.filterMap_cons_none heffect, List.filterMap_nil,
      List.append_nil]
  refine ⟨hused ▸ h.increasing, ?_, ?_, ?_, ?_⟩
  · rw [hclient, hused]
    exact h.first
  · rw [hclient, hused]
    exact h.newest
  · rw [hclient, hreported, heffects]
    intro c hc
    obtain ⟨i, rt, before, innerName, alpn, after, hi, hrest⟩ := h.logged c hc
    exact ⟨i, rt, before, innerName, alpn, after, hinbound i hi, hrest⟩
  · unfold handshakesOf at *
    rw [hhandshakes, h.counted, List.filter_append, hcount, List.append_nil]
    rfl

/-- What is handed out after a reported rejection, in the log of a provider, is newer. -/
theorem lt_of_rejected {provider : ClientProvider ρ V} {ext : EchExternals κ}
    {state : EchState κ V}
    (hreach : Reach (EchState.step provider ext) (fun _ _ ↦ True) .start state)
    {before after : List (EchEffect κ V)} {n : Str} {alpn alpn' : List Bytes}
    {c c' : EchClient κ V} {evicted : Bool}
    (hrejected : .invalidated n c.generation evicted ∈ after)
    (hlog : (before ++ EchEffect.returned n alpn c :: after ++
      [EchEffect.returned n alpn' c']).Sublist state.log) :
    c.generation < c'.generation := by
  obtain ⟨between, later, rfl⟩ := List.append_of_mem hrejected
  have hsplit : ((before ++ EchEffect.returned n alpn c :: between) ++
      EchEffect.invalidated n c.generation evicted ::
        (later ++ [EchEffect.returned n alpn' c'])).Sublist state.log := by
    simpa [List.append_assoc] using hlog
  obtain ⟨front, rest, hfront, hbefore, hrest⟩ := List.append_sublist_iff.mp hsplit
  obtain ⟨mid, back, rfl, hmem, hback⟩ := List.cons_sublist_iff.mp hrest
  obtain ⟨x, y, rfl⟩ := List.append_of_mem hmem
  have hlater := (EchState.superseded_of_reach hreach n c.generation (y ++ back)
    ⟨front ++ x, evicted, by rw [hfront]; simp only [List.append_assoc, List.cons_append],
      alpn, c, ?_, rfl⟩).2 alpn' c' ?_
  · exact hlater
  · exact List.mem_append_left _ (hbefore.subset (List.mem_append_right _ List.mem_cons_self))
  · exact List.mem_append_right _
      (hback.subset (List.mem_append_right _ (List.mem_singleton_self _)))

/-- **Every exchange keeps count of the attempts.** -/
theorem Attempting.next {op : ConnOp ρ κ V Der} {answer : op.Answer} (h : Attempting gw s es)
    (hmay : s.Permitted gw op) {provider : ClientProvider ρ V} {ext : EchExternals κ}
    {state : EchState κ V}
    (hreach : Reach (EchState.step provider ext) (fun _ _ ↦ True) .start state)
    (hlog : (echEffects (es ++ [⟨op, answer⟩])).Sublist state.log) :
    Attempting gw (s.next ⟨op, answer⟩) (es ++ [⟨op, answer⟩]) := by
  cases op with
  | classify =>
    exact h.other (fun i hi ↦ absurd (hi.symm.trans hmay) nofun) rfl rfl rfl rfl rfl rfl
  | echClient innerName alpn =>
    cases answer with
    | error e => exact h.other (fun _ hi ↦ hi) rfl rfl rfl rfl rfl rfl
    | ok client =>
      obtain ⟨i, rt, hserved, -, hname, -, hreported⟩ := hmay
      have heffects : echEffects (es ++ [⟨.echClient innerName alpn, .ok client⟩]) =
          echEffects es ++ [.returned innerName alpn client] := List.filterMap_append
      have hused : generationsUsed (es ++ [⟨.echClient innerName alpn, .ok client⟩]) =
          generationsUsed es ++ [client.generation] := List.filterMap_append
      have hnewer : ∀ g ∈ generationsUsed es, g < client.generation := by
        intro g hg
        cases hlast : s.up.client with
        | none =>
          rw [h.first hlast] at hg
          exact absurd hg List.not_mem_nil
        | some c =>
          obtain ⟨j, rt', before, name, alpn', after, hj, hrt', hname', hsplit, hafter⟩ :=
            h.logged c hlast
          cases hj.symm.trans hserved.classified
          cases hrt'.symm.trans hserved.routed
          cases hname.symm.trans hname'
          obtain ⟨evicted, hrejected⟩ := hafter _ (hreported c hlast)
          rw [heffects, hsplit] at hlog
          exact (h.newest c hlast g hg).trans_lt (lt_of_rejected hreach hrejected hlog)
      refine ⟨?_, nofun, fun c hc g hg ↦ ?_, fun c hc ↦ ?_, ?_⟩
      · rw [hused]
        exact List.pairwise_append.mpr ⟨h.increasing, List.pairwise_singleton _ _,
          fun g hg g' hg' ↦ List.mem_singleton.mp hg' ▸ hnewer g hg⟩
      · cases Option.some.inj hc
        rw [hused] at hg
        rcases List.mem_append.mp hg with hg | hg
        · exact (hnewer g hg).le
        · exact (List.mem_singleton.mp hg).le
      · cases Option.some.inj hc
        exact ⟨i, rt, _, innerName, alpn, [], hserved.classified, hserved.routed, hname, heffects,
          nofun⟩
      · exact h.counted.trans (congrArg List.length (by
          unfold handshakesOf
          rw [List.filter_append]
          exact (List.append_nil _).symm))
  | invalidateAfterRejection innerName generation =>
    have heffects : echEffects (es ++ [⟨.invalidateAfterRejection innerName generation, answer⟩]) =
        echEffects es ++ [.invalidated innerName generation answer] := List.filterMap_append
    have hused : generationsUsed
        (es ++ [⟨.invalidateAfterRejection innerName generation, answer⟩]) =
          generationsUsed es := by
      unfold generationsUsed
      rw [List.filterMap_append]
      exact List.append_nil _
    refine ⟨hused ▸ h.increasing, fun hnone ↦ hused ▸ h.first hnone,
      fun c hc ↦ hused ▸ h.newest c hc, fun c hc ↦ ?_, ?_⟩
    · obtain ⟨j, rt, before, name, alpn, after, hj, hrt, hname, hsplit, -⟩ := h.logged c hc
      refine ⟨j, rt, before, name, alpn, after ++ [.invalidated innerName generation answer], hj,
        hrt, hname, by rw [heffects, hsplit, List.append_assoc, List.cons_append],
        fun name' hname' ↦ ?_⟩
      obtain ⟨rfl, rfl⟩ := Prod.mk.inj (Option.some.inj hname')
      exact ⟨answer, List.mem_append_right _ (List.mem_singleton_self _)⟩
    · exact h.counted.trans (congrArg List.length (by
        unfold handshakesOf
        rw [List.filter_append]
        exact (List.append_nil _).symm))
  | handshake config serverName conn connectTimeout =>
    have hused : generationsUsed
        (es ++ [⟨.handshake config serverName conn connectTimeout, answer⟩]) =
          generationsUsed es := by
      unfold generationsUsed
      rw [List.filterMap_append]
      exact List.append_nil _
    have heffects : echEffects
        (es ++ [⟨.handshake config serverName conn connectTimeout, answer⟩]) =
          echEffects es := by
      unfold echEffects
      rw [List.filterMap_append]
      exact List.append_nil _
    refine ⟨hused ▸ h.increasing, fun hnone ↦ hused ▸ h.first hnone,
      fun c hc ↦ hused ▸ h.newest c hc, fun c hc ↦ heffects ▸ h.logged c hc, ?_⟩
    unfold handshakesOf
    rw [List.filter_append, List.length_append]
    exact congrArg (· + 1) h.counted
  | clientHello | intoStream | lookupAddr | pick | dial | connectHost | mirrorIsCurrent |
    spawnBlocking | splice =>
    exact h.other (fun _ hi ↦ hi) rfl rfl rfl rfl rfl rfl

theorem attempting_of_runs (hruns : (dispatch gw).Runs es r) {provider : ClientProvider ρ V}
    {ext : EchExternals κ} {state : EchState κ V}
    (hreach : Reach (EchState.step provider ext) (fun _ _ ↦ True) .start state)
    (hlog : (echEffects es).Sublist state.log) :
    Attempting gw ((gw.contract fun _ _ _ ↦ True).after {} es) es := by
  induction es using List.reverseRecOn generalizing r with
  | nil => exact attempting_start
  | append_singleton es e ih =>
    obtain ⟨r', hfront, -⟩ := hruns.front
    have hmay := (keeps_dispatch gw fun _ _ _ ↦ True).guarantee hruns
      (Contract.relied_of_forall fun _ _ _ ↦ trivial)
    have hfront' : (echEffects es).Sublist (echEffects (es ++ [e])) :=
      (List.sublist_append_left es [e]).filterMap _
    rw [Contract.after_append]
    exact (ih hfront (hfront'.trans hlog)).next hmay.2 hreach hlog

/-- How often a route may shake hands again. -/
def DataPath.retries (rt : DataPath ρ κ V) : ℕ := if rt.routeType = .ech then rt.maxRetries else 0

/-- The handshakes so far are within the budget of the route. -/
def Budgeted (gw : Gateway ρ κ V Der Key) (s : Progress κ V Der) : Prop :=
  (s.inbound = none → s.up.handshakes = 0) ∧ ∀ inbound rt, s.inbound = some inbound →
    gw.routed inbound = some rt → s.up.handshakes ≤ rt.retries + 1

theorem budgeted_start : Budgeted gw ({} : Progress κ V Der) :=
  ⟨fun _ ↦ rfl, fun _ _ h ↦ absurd h nofun⟩

theorem Budgeted.next {op : ConnOp ρ κ V Der} {answer : op.Answer} (h : Budgeted gw s)
    (hmay : s.Permitted gw op) : Budgeted gw (s.next ⟨op, answer⟩) := by
  cases op with
  | classify => exact ⟨nofun, fun i rt _ _ ↦ (h.1 hmay).le.trans (Nat.zero_le _)⟩
  | handshake config serverName conn connectTimeout =>
    obtain ⟨i, rt, hserved, -, -, -, -, hleft⟩ := hmay
    refine ⟨fun hnone ↦ absurd (hserved.classified.symm.trans hnone) nofun,
      fun j rt' hj hrt' ↦ ?_⟩
    cases hserved.classified.symm.trans hj
    cases hserved.routed.symm.trans hrt'
    exact Nat.succ_le_succ hleft
  | echClient => cases answer <;> exact h
  | clientHello | intoStream | lookupAddr | pick | dial | connectHost |
    invalidateAfterRejection | mirrorIsCurrent | spawnBlocking | splice => exact h

/-- **Retries move on, and come to an end.** Among whatever others do with the provider, each client
a connection is handed out is of a newer generation than the one before; it shakes hands with its
upstream no more often than its route allows; and where ECH is required, it is spliced only with an
upstream that has accepted it. -/
theorem retries_move_on (hruns : (dispatch gw).Runs es r) {provider : ClientProvider ρ V}
    {ext : EchExternals κ} {state : EchState κ V}
    (hreach : Reach (EchState.step provider ext) (fun _ _ ↦ True) .start state)
    (hlog : (echEffects es).Sublist state.log) :
    (generationsUsed es).Pairwise (· < ·) ∧
    ∀ inbound rt, ⟨.classify, inbound⟩ ∈ es → gw.routed inbound = some rt →
      (handshakesOf es).length ≤ rt.retries + 1 ∧
      (rt.routeType = .ech → rt.requireEch → ∀ inner outer idle observer answer,
        ⟨.splice inner outer idle observer, answer⟩ ∈ es →
        ∃ conn session, outer = .tls conn session ∧ session.echStatus = .accepted) := by
  have hattempting := attempting_of_runs hruns hreach hlog
  refine ⟨hattempting.increasing, fun inbound rt hinbound hrt ↦ ⟨?_, ?_⟩⟩
  · have hbudget : Budgeted gw ((gw.contract fun _ _ _ ↦ True).after {} es) :=
      (keeps_dispatch gw fun _ _ _ ↦ True).invariant budgeted_start
        (fun _ _ _ hs hmay _ ↦ hs.next hmay.2) hruns
        (Contract.relied_of_forall fun _ _ _ ↦ trivial)
    rw [← hattempting.counted]
    exact hbudget.2 inbound rt (inbound_of_runs _ hruns hinbound) hrt
  · intro htype hrequire inner outer idle observer answer hmem
    obtain ⟨s, ⟨i, hi, hspliceable⟩, -, hsame⟩ := permitted_of_mem hruns hmem
    obtain rfl := hsame i hi inbound hinbound
    cases hspliceable with
    | raw h hraw =>
      cases hrt.symm.trans h
      exact absurd (htype.symm.trans hraw) nofun
    | failed hfails => exact (hfails.not_served hrt (by rw [htype]; nofun)).elim
    | http hserved hhttp =>
      cases hrt.symm.trans hserved.routed
      exact absurd (htype.symm.trans hhttp) nofun
    | tls hserved _ _ hup =>
      cases hrt.symm.trans hserved.routed
      exact ⟨_, _, rfl, hup.accepted htype hrequire⟩

end Attempts

/-! ## One retry -/

section Retry

deriving instance DecidableEq for Rustls.EchMode
deriving instance DecidableEq for ClientConfig
deriving instance DecidableEq for EchClient
deriving instance DecidableEq for EchEffect

/-- A provider with an inline configuration. -/
private def staticProvider : ClientProvider Unit Unit where
  settings := { mode := .static, config := some "AA==".toList, echDomain := none, maxRetries := 1 }
  upstreamPort := 443
  resolver := ()
  requireEch := true
  enableSni := true
  verify := ()
  refreshBound := fromSecs 3600

/-- Every configuration is compatible. -/
private def anyEch : EchExternals Bytes where
  base64 _ := .ok [0]
  echConfig := some
  withEch _ := .ok ()

/-- A gateway that takes everything to that provider's route. -/
private def retryingGateway : Gateway Unit Bytes Unit Unit Unit where
  router := { exact := ∅, wildcard := ∅, suffix := ∅, regex := [], default := some 0 }
  routes := [{
    name := "r".toList, routeType := .ech, upstream := .direct none .dual none ()
    upstreamPort := 443, sniPolicy := .reflect, requireEch := true, maxRetries := 1
    ech := some staticProvider.toEchProvider, verify := some (), http2 := false
    connectTimeout := fromSecs 15, idleTimeout := fromSecs 300, fail := .close, tls := none }]
  unmatched := .close
  serverName _ := true
  nameOverride _ := none
  observesTransfers _ := false
  codec := plainShared.codec

/-- An upstream that rejects the first handshake. -/
private def rejectingOnce (s : Progress Bytes Unit Unit) :
    (op : ConnOp Unit Bytes Unit Unit) → op.Answer
  | .classify => .http (some "a.test".toList)
  | .clientHello => .error []
  | .intoStream _ => .error []
  | .lookupAddr _ _ port _ _ => .ok (.single ⟨.v4 0, port⟩)
  | .pick .. => .error []
  | .dial .. => .ok ⟨none⟩
  | .connectHost .. => .error []
  | .handshake .. =>
    if s.up.handshakes = 0 then .error (.echRejected []) else .ok ⟨none, .accepted, none⟩
  | .echClient _ alpn => .ok ⟨⟨.enable [0], (), true, alpn⟩, s.up.handshakes + 1⟩
  | .invalidateAfterRejection .. => true
  | .mirrorIsCurrent .. => false
  | .spawnBlocking _ => ()
  | .splice .. => .ok ()

private def retriedOnce : List (ConnExchange Unit Bytes Unit Unit) :=
  ((dispatch retryingGateway).converse (fun past ↦ rejectingOnce (past.foldl Progress.next {})) []).1

private def servedTwice : List (EchEvent Unit) :=
  [.call 0 "a.test".toList [], .read 0 0, .write 0 0, .built 0 EchProvider.deafDns (.ok []) 0,
    .reject "a.test".toList 1, .call 1 "a.test".toList [], .read 1 1, .write 1 1,
    .built 1 EchProvider.deafDns (.ok []) 1]

theorem retries_move_on_retriedOnce : ∃ es r, (dispatch retryingGateway).Runs es r ∧
    generationsUsed es = [1, 2] ∧ (generationsUsed es).Pairwise (· < ·) := by
  obtain ⟨es, hes, hruns, -⟩ := Contract.runs_converse
    (c := retryingGateway.contract fun _ _ _ ↦ True) (s := {})
    (fun past ↦ rejectingOnce (past.foldl Progress.next {})) (fun _ _ ↦ trivial)
    (dispatch retryingGateway) []
  rw [List.nil_append] at hes
  have hlogged : ((runFrom (EchState.step staticProvider anyEch) .start servedTwice).any fun s ↦
      (echEffects retriedOnce).Sublist s.log ∧ generationsUsed retriedOnce = [1, 2]) = true := by
    decide +kernel
  obtain ⟨state, hrun, hstate⟩ := (Option.any_eq_true ..).mp hlogged
  obtain ⟨hsublist, hgenerations⟩ := of_decide_eq_true hstate
  rw [retriedOnce, hes] at hsublist hgenerations
  exact ⟨es, _, hruns, hgenerations,
    (retries_move_on hruns (reach_of_runFrom hrun .start) hsublist).1⟩

end Retry

end SniGate
