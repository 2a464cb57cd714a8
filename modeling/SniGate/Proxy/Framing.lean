import SniGate.Ech.Generations
import SniGate.Proxy.Gateways

/-!
# Two ends of a splice

A splice passes bytes on unchanged, so its two ends must speak one version of HTTP. Each version was
settled in a handshake of its own: the client's on what the gateway advertised, the upstream's on
what the gateway offered. What the TLS library and the ECH provider are relied on for is
`Gateway.Surroundings`; given that, the two handshakes agree (`framing_agrees`).

## Design choices

The libraries are relied on for what their documentation says of ALPN: a selection is one of the
protocols offered. That a gateway offers the right ones is proved of it. Streams without a selected
protocol speak HTTP/1.1, and so does a plaintext end.
-/

namespace SniGate

variable {ρ κ V P Der Key : Type}

/-! ## What is relied on -/

/-- The provider that a route is built with. -/
def DataPath.clientProvider (rt : DataPath ρ κ V) (refreshBound : Duration) :
    Option (ClientProvider ρ V) :=
  match rt.ech, rt.verify with
  | some provider, some verify =>
    some { provider with
      requireEch := rt.requireEch, enableSni := rt.sniPolicy ≠ .omitted, verify, refreshBound }
  | _, _ => none

/-- A client that the provider of a route has handed out. -/
def DataPath.Provides (rt : DataPath ρ κ V) (innerName : Str) (alpn : List Bytes)
    (client : EchClient κ V) : Prop :=
  ∃ refreshBound provider ext state, rt.clientProvider refreshBound = some provider ∧
    Reach (EchState.step provider ext) (fun _ _ ↦ True) .start state ∧
    .returned innerName alpn client ∈ state.log

/-- What surrounds a connection. In a handshake a protocol is selected out of those that were
offered; a server that advertises some to a client that offers some does not go on without one. ECH
clients are those of the route's provider. -/
def Gateway.Surroundings (gw : Gateway ρ κ V Der Key) (s : Progress κ V Der) :
    (op : ConnOp ρ κ V Der) → op.Answer → Prop
  | .intoStream protocols, .ok alpn => (∀ p, alpn = some p → p ∈ protocols) ∧
      ∀ offered, s.offered = some (some offered) → protocols ≠ [] → alpn.isSome
  | .handshake config .., .ok session =>
    ∀ p, session.alpnProtocol = some p → p ∈ config.alpnProtocols
  | .echClient innerName alpn, .ok client => ∀ inbound rt, s.inbound = some inbound →
      gw.routed inbound = some rt → rt.Provides innerName alpn client
  | _, _ => True

/-- What a provider hands out offers what was asked for, and transmits a name unless the route is to
transmit none. -/
theorem DataPath.Provides.config {rt : DataPath ρ κ V} {innerName : Str} {alpn : List Bytes}
    {client : EchClient κ V} (h : rt.Provides innerName alpn client) :
    client.clientConfig.alpnProtocols = alpn ∧
      client.clientConfig.enableSni = decide (rt.sniPolicy ≠ .omitted) ∧
      rt.verify = some client.clientConfig.verify ∧
      (rt.requireEch → ∀ publicKey, client.clientConfig.echMode ≠ .grease publicKey) := by
  obtain ⟨refreshBound, provider, ext, state, hprovider, hreach, hreturned⟩ := h
  have hsound := EchState.sound_of_inv (EchState.inv_of_reach hreach)
  obtain ⟨⟨mode, -, -, assembled, hassemble, hconfig⟩, halpn, hgrease⟩ :=
    hsound.returned _ _ _ hreturned
  obtain ⟨-, -, rfl⟩ : ∃ u, ext.withEch mode = .ok u ∧
      (⟨mode, provider.verify, provider.enableSni, []⟩ : ClientConfig κ V) = assembled := by
    unfold ClientProvider.assembleClientConfig at hassemble
    cases haccept : ext.withEch mode with
    | error e =>
      rw [haccept] at hassemble
      exact absurd hassemble nofun
    | ok u =>
      rw [haccept] at hassemble
      exact ⟨u, rfl, Except.ok.inj hassemble⟩
  unfold clientProvider at hprovider
  split at hprovider
  · rename_i e v hech hverify
    cases hprovider
    refine ⟨halpn, ?_, ?_, hgrease⟩
    · rw [hconfig]
    · rw [hconfig, hverify]
  · exact absurd hprovider nofun

/-! ## Versions -/

/-- The version of HTTP that a stream is framed by. -/
inductive HttpVersion
  | http1
  | http2
deriving DecidableEq, Repr

/-- The version that a handshake settles on. Without a protocol it is HTTP/1.1; other protocols say
nothing about it. -/
def framing (alpn : Option Bytes) : Option HttpVersion :=
  if alpn = none ∨ alpn = some alpnHttp11 then some .http1
  else if alpn = some alpnH2 then some .http2
  else none

theorem alpnH2_ne_alpnHttp11 : alpnH2 ≠ alpnHttp11 := by decide

@[simp] theorem framing_none : framing none = some .http1 := rfl

@[simp] theorem framing_http11 : framing (some alpnHttp11) = some .http1 := rfl

@[simp] theorem framing_h2 : framing (some alpnH2) = some .http2 := by decide

theorem framing_of_mem_http11 {alpn : Option Bytes} (h : ∀ p, alpn = some p → p ∈ [alpnHttp11]) :
    framing alpn = some .http1 := by
  cases alpn with
  | none => rfl
  | some p =>
    rw [List.mem_singleton.mp (h p rfl)]
    rfl

/-! ## Offers -/

theorem mem_negotiableAlpn {offered : Option (List Bytes)} {p : Bytes} :
    p ∈ negotiableAlpn offered ↔ p ∈ supportedAlpn ∧ ∃ l, offered = some l ∧ p ∈ l := by
  cases offered with
  | none => exact ⟨fun h ↦ absurd h List.not_mem_nil, nofun⟩
  | some l =>
    rw [negotiableAlpn, List.mem_filter]
    exact and_congr_right fun _ ↦
      ⟨fun h ↦ ⟨l, rfl, of_decide_eq_true h⟩, fun ⟨_, heq, h⟩ ↦
        decide_eq_true (Option.some.inj heq ▸ h)⟩

theorem ClientConfigs.mem_select {verify : V} {enableSni : Bool} {offer : List Bytes} {p : Bytes} :
    p ∈ ((ClientConfigs.new (κ := κ) verify enableSni).select offer).alpnProtocols ↔
      p ∈ offer ∧ p ∈ supportedAlpn := by
  have hsupported : p ∈ supportedAlpn ↔ p = alpnH2 ∨ p = alpnHttp11 := by
    rw [supportedAlpn, List.mem_cons, List.mem_singleton]
  rw [hsupported]
  by_cases hh2 : alpnH2 ∈ offer <;> by_cases hh1 : alpnHttp11 ∈ offer <;>
    simp only [select, hh2, hh1, decide_true, decide_false, new, List.mem_cons, List.not_mem_nil,
      or_false, false_iff, not_and]
  · exact ⟨fun h ↦ ⟨by rcases h with rfl | rfl <;> assumption, h⟩, fun h ↦ h.2⟩
  · exact ⟨fun h ↦ ⟨h ▸ hh2, .inl h⟩, fun h ↦ h.2.resolve_right fun heq ↦ hh1 (heq ▸ h.1)⟩
  · exact ⟨fun h ↦ ⟨h ▸ hh1, .inr h⟩, fun h ↦ h.2.resolve_left fun heq ↦ hh2 (heq ▸ h.1)⟩
  · rintro hp (rfl | rfl)
    · exact hh2 hp
    · exact hh1 hp

/-- The configurations of a route differ in what they advertise, and in nothing else. -/
theorem ClientConfigs.select_new (verify : V) (enableSni : Bool) (offer : List Bytes) :
    ((ClientConfigs.new (κ := κ) verify enableSni).select offer).echMode = Option.none ∧
      ((ClientConfigs.new (κ := κ) verify enableSni).select offer).verify = verify ∧
      ((ClientConfigs.new (κ := κ) verify enableSni).select offer).enableSni = enableSni := by
  unfold select
  split <;> exact ⟨rfl, rfl, rfl⟩

@[simp] theorem mirrorChoice_h2 (any : Bool) : mirrorChoice (some alpnH2) any = [alpnH2] :=
  if_pos rfl

@[simp] theorem mirrorChoice_http11 (any : Bool) :
    mirrorChoice (some alpnHttp11) any = [alpnHttp11] := by
  rw [mirrorChoice, if_neg fun h ↦ alpnH2_ne_alpnHttp11 (Option.some.inj h).symm, if_pos rfl]

theorem mem_mirrorChoice_none {any : Bool} {p : Bytes} (h : p ∈ mirrorChoice none any) :
    p ∈ [alpnHttp11] := by
  rw [mirrorChoice, if_neg nofun, if_neg nofun] at h
  cases any with
  | true => exact h
  | false => exact absurd h List.not_mem_nil

/-! ## The two handshakes -/

namespace Progress

/-- What the handshakes so far have selected, and where the ECH client came from. -/
structure Negotiated (gw : Gateway ρ κ V Der Key) (s : Progress κ V Der) : Prop where
  upstream : ∀ config name session, s.up.session = some (config, name, session) →
    ∀ p, session.alpnProtocol = some p → p ∈ config.alpnProtocols
  inner : ∀ protocols alpn, s.terminated = some (protocols, alpn) →
    (∀ p, alpn = some p → p ∈ protocols) ∧
      ∀ offered, s.offered = some (some offered) → protocols ≠ [] → alpn.isSome
  client : ∀ client, s.up.client = some client → ∃ inbound innerName,
    s.inbound = some inbound ∧ ∀ rt, gw.routed inbound = some rt →
      rt.Provides innerName (rt.offer inbound s.offered) client

variable {gw : Gateway ρ κ V Der Key} {s : Progress κ V Der}

theorem negotiated_start : Negotiated gw ({} : Progress κ V Der) := ⟨nofun, nofun, nofun⟩

/-- **Every exchange keeps what has been selected.** -/
theorem Negotiated.next {op : ConnOp ρ κ V Der} {answer : op.Answer} (h : s.Negotiated gw)
    (hmay : s.Permitted gw op) (hrely : gw.Surroundings s op answer) :
    (s.next ⟨op, answer⟩).Negotiated gw := by
  cases op with
  | classify =>
    refine ⟨h.upstream, h.inner, fun client hclient ↦ ?_⟩
    obtain ⟨inbound, -, hinbound, -⟩ := h.client client hclient
    exact absurd (hinbound.symm.trans hmay) nofun
  | clientHello =>
    obtain ⟨inbound, rt, -, -, -, hterminated, hup⟩ := hmay
    refine ⟨h.upstream, fun protocols alpn halpn ↦ ?_, fun client hclient ↦ ?_⟩
    · exact absurd (hterminated.symm.trans halpn) nofun
    · exact absurd ((congrArg Dialing.client hup).symm.trans hclient) nofun
  | intoStream protocols =>
    refine ⟨h.upstream, fun protocols' alpn halpn ↦ ?_, h.client⟩
    cases answer with
    | error e => exact absurd halpn nofun
    | ok alpn' =>
      obtain ⟨rfl, rfl⟩ := Prod.mk.inj (Option.some.inj halpn)
      exact hrely
  | handshake config serverName conn connectTimeout =>
    refine ⟨fun config' name session hsession ↦ ?_, h.inner, h.client⟩
    cases answer with
    | error e => exact absurd hsession nofun
    | ok session' =>
      obtain ⟨rfl, -, rfl⟩ : config = config' ∧ serverName = name ∧ session' = session := by
        simpa using Option.some.inj hsession
      exact hrely
  | echClient innerName alpn =>
    obtain ⟨inbound, rt, hserved, -, -, rfl, -⟩ := hmay
    cases answer with
    | error e => exact h
    | ok client' =>
      refine ⟨h.upstream, h.inner, fun client hclient ↦
        ⟨inbound, innerName, hserved.classified, fun rt' hrt' ↦ ?_⟩⟩
      cases hserved.routed.symm.trans hrt'
      cases Option.some.inj hclient
      exact hrely inbound rt hserved.classified hserved.routed
  | lookupAddr | pick | dial | connectHost | invalidateAfterRejection | mirrorIsCurrent |
    spawnBlocking | splice => exact ⟨h.upstream, h.inner, h.client⟩

/-- The client's end speaks HTTP/1.1, unless both protocols are advertised on an `http` route. -/
theorem ClientSide.framing {rt : DataPath ρ κ V} {inbound : Inbound} {alpn : Option Bytes}
    (h : s.ClientSide rt inbound (.tls alpn)) (hnegotiated : s.Negotiated gw)
    (hmirrors : ¬rt.Mirrors inbound) :
    SniGate.framing alpn = some .http1 ∨
      SniGate.framing alpn = some .http2 ∧ rt.http2 ∧ inbound.isTls := by
  unfold ClientSide Advertised at h
  by_cases htls : inbound.isTls
  · rw [if_pos htls] at h
    obtain ⟨protocols, alpn', hterminated, hadvertised, heq⟩ := h
    cases heq
    rw [if_neg hmirrors] at hadvertised
    have hmem := (hnegotiated.inner protocols alpn hterminated).1
    rw [hadvertised] at hmem
    split_ifs at hmem with hboth
    · cases alpn with
      | none => exact .inl rfl
      | some p =>
        have hp := hmem p rfl
        rw [List.mem_cons, List.mem_singleton] at hp
        rcases hp with rfl | rfl
        · exact .inr ⟨framing_h2, hboth.1, htls⟩
        · exact .inl rfl
    · exact .inl (framing_of_mem_http11 hmem)
  · rw [if_neg htls] at h
    exact absurd h nofun

theorem Established.mem_offer {rt : DataPath ρ κ V} {inbound : Inbound} {conn : TcpConn}
    {session : TlsSession Der} {p : Bytes} (h : s.Established gw inbound rt conn session)
    (hserved : s.Served gw inbound rt) (hprepared : rt.Prepared) (hnegotiated : s.Negotiated gw)
    (hp : session.alpnProtocol = some p) : p ∈ rt.offer inbound s.offered := by
  obtain ⟨config, name, hsession, -, hconfigured⟩ := h.completed
  have hmem := hnegotiated.upstream config name session hsession p hp
  rcases hconfigured with ⟨htype, configs, hconfigs, rfl⟩ | ⟨-, client, hclient, rfl⟩
  · obtain ⟨verify, -, hnew⟩ := hprepared.configs htype
    cases hconfigs.symm.trans hnew
    exact (ClientConfigs.mem_select.mp hmem).1
  · obtain ⟨inbound', innerName, hinbound, hprovides⟩ := hnegotiated.client client hclient
    cases hinbound.symm.trans hserved.classified
    rw [← (hprovides rt hserved.routed).config.1]
    exact hmem

theorem ClientSide.framing_of_mirrors {rt : DataPath ρ κ V} {inbound : Inbound}
    {alpn : Option Bytes} {conn : TcpConn} {session : TlsSession Der}
    (h : s.ClientSide rt inbound (.tls alpn)) (hup : s.Established gw inbound rt conn session)
    (hserved : s.Served gw inbound rt) (hprepared : rt.Prepared) (hnegotiated : s.Negotiated gw)
    (hmirrors : rt.Mirrors inbound) :
    ∃ v, SniGate.framing alpn = some v ∧ SniGate.framing session.alpnProtocol = some v := by
  have hoffer (p : Bytes) (hp : session.alpnProtocol = some p) :
      p ∈ supportedAlpn ∧ ∃ l, s.offered.getD none = some l ∧ p ∈ l := by
    have hmem := hup.mem_offer hserved hprepared hnegotiated hp
    unfold DataPath.offer at hmem
    rw [if_pos hmirrors] at hmem
    exact mem_negotiableAlpn.mp hmem
  unfold ClientSide Advertised at h
  rw [if_pos hmirrors.1] at h
  obtain ⟨protocols, alpn', hterminated, hadvertised, heq⟩ := h
  cases heq
  rw [if_pos hmirrors] at hadvertised
  obtain ⟨config, name, session', hsession, rfl⟩ := hadvertised
  obtain ⟨config', name', hsession', -⟩ := hup.completed
  obtain rfl : session' = session := by
    have heq := Option.some.inj (hsession.symm.trans hsession')
    exact congrArg (fun x ↦ x.2.2) heq
  obtain ⟨hmem, hsome⟩ := hnegotiated.inner _ _ hterminated
  cases hselected : session'.alpnProtocol with
  | none =>
    rw [hselected] at hmem
    exact ⟨.http1, framing_of_mem_http11 fun p hp ↦ mem_mirrorChoice_none (hmem p hp), rfl⟩
  | some p =>
    rw [hselected] at hmem hsome
    obtain ⟨hsupported, l, hl, -⟩ := hoffer p hselected
    rw [supportedAlpn, List.mem_cons, List.mem_singleton] at hsupported
    rcases hsupported with rfl | rfl
    · -- the client has made an offer, and all it is offered is `h2`
      rw [mirrorChoice_h2] at hmem hsome
      obtain ⟨o, ho⟩ : ∃ o, s.offered = some o := by
        refine Option.isSome_iff_exists.mp ?_
        by_contra hnone
        rw [Option.not_isSome_iff_eq_none.mp hnone] at hl
        exact absurd hl nofun
      rw [ho] at hl
      obtain ⟨q, rfl⟩ := Option.isSome_iff_exists.mp (hsome l (ho.trans (congrArg some hl)) nofun)
      rw [List.mem_singleton.mp (hmem q rfl)]
      exact ⟨.http2, framing_h2, framing_h2⟩
    · rw [mirrorChoice_http11] at hmem
      exact ⟨.http1, framing_of_mem_http11 hmem, rfl⟩

end Progress

theorem negotiated_of_runs {gw : Gateway ρ κ V Der Key} {es : List (ConnExchange ρ κ V Der)}
    {r : ConnTask ρ κ V Der Unit} (hruns : (dispatch gw).Runs es r)
    (hrely : (gw.contract gw.Surroundings).Relied {} es) :
    ((gw.contract gw.Surroundings).after {} es).Negotiated gw :=
  (keeps_dispatch gw gw.Surroundings).invariant Progress.negotiated_start
    (fun _ _ _ hs hmay hrely ↦ hs.next hmay.2 hrely) hruns hrely

section Gateways

variable {env : BuildEnv ρ V P} {cfg : Config} {listener : Listener} {regexNew : RegexNew}
  {shared : GatewayEnv V Der Key} {gw : Gateway ρ κ V Der Key}

/-- **The ends of a splice speak one version.** There is a version of HTTP that every handshake of
the connection has settled on when its streams are spliced, the client's as well as the upstream's;
and it is HTTP/2 only for a connection that came with TLS, on a route with HTTP/2 enabled. -/
theorem framing_agrees (h : buildGateway env shared regexNew cfg listener = .ok gw)
    {es es' : List (ConnExchange ρ κ V Der)} {r : ConnTask ρ κ V Der Unit} {inner : Inner}
    {outer : Outer Der} {idle : Duration} {observer : Option IpAddr}
    {answer : Except ErrorChain Unit}
    (hruns : (dispatch gw).Runs (es ++ ⟨.splice inner outer idle observer, answer⟩ :: es') r)
    (hrely : (gw.contract gw.Surroundings).Relied {} es) :
    ∃ v, (∀ alpn, inner = .tls alpn → framing alpn = some v) ∧
      (∀ conn session, outer = .tls conn session → framing session.alpnProtocol = some v) ∧
      (v = .http2 → ∃ inbound rt, ⟨.classify, inbound⟩ ∈ es ∧ gw.routed inbound = some rt ∧
        rt.http2 ∧ inbound.isTls) := by
  obtain ⟨-, inbound, hinbound, hspliceable⟩ :=
    (keeps_dispatch gw gw.Surroundings).guarantee hruns hrely
  obtain ⟨r', hfront, -⟩ := hruns.front
  have hnegotiated := negotiated_of_runs hfront hrely
  have hmem := (recalls_after gw gw.Surroundings es).inbound inbound hinbound
  cases hspliceable with
  | raw => exact ⟨.http1, nofun, nofun, nofun⟩
  | failed => exact ⟨.http1, nofun, nofun, nofun⟩
  | @http rt _ conn hserved htype hinner hconn =>
    cases inner with
    | tcp => exact ⟨.http1, nofun, nofun, nofun⟩
    | tls alpn =>
      have hmirrors : ¬rt.Mirrors inbound := by
        rintro ⟨-, -, h | h⟩ <;> exact absurd (htype.symm.trans h) nofun
      rcases hinner.framing hnegotiated hmirrors with halpn | ⟨halpn, hhttp2⟩
      · exact ⟨.http1, fun _ heq ↦ Inner.tls.inj heq ▸ halpn, nofun, nofun⟩
      · exact ⟨.http2, fun _ heq ↦ Inner.tls.inj heq ▸ halpn, nofun,
          fun _ ↦ ⟨inbound, rt, hmem, hserved.routed, hhttp2⟩⟩
  | @tls rt _ conn session hserved htype hinner hup hcovered =>
    have hprep := prepared_of_routed h hserved.routed
    by_cases hmirrors : rt.Mirrors inbound
    · cases inner with
      | tcp =>
        unfold Progress.ClientSide at hinner
        rw [if_pos hmirrors.1] at hinner
        obtain ⟨_, _, -, -, heq⟩ := hinner
        exact absurd heq nofun
      | tls alpn =>
        obtain ⟨v, halpn, hsession⟩ :=
          hinner.framing_of_mirrors hup hserved hprep hnegotiated hmirrors
        refine ⟨v, fun _ heq ↦ Inner.tls.inj heq ▸ halpn, fun _ _ heq ↦ ?_, fun _ ↦ ?_⟩
        · rw [← (Outer.tls.inj heq).2, hsession]
        · exact ⟨inbound, rt, hmem, hserved.routed, hmirrors.2.1, hmirrors.1⟩
    · have hsession : session.alpnProtocol = none := by
        refine Option.eq_none_iff_forall_ne_some.mpr fun p hp ↦ ?_
        have hoffered := hup.mem_offer hserved hprep hnegotiated hp
        rw [rt.offer_of_not_mirrors hmirrors] at hoffered
        exact List.not_mem_nil hoffered
      refine ⟨.http1, fun alpn heq ↦ ?_, fun _ _ heq ↦ ?_, nofun⟩
      · subst heq
        refine (hinner.framing hnegotiated hmirrors).resolve_right ?_
        rintro ⟨-, hhttp2, htls⟩
        exact hmirrors ⟨htls, hhttp2, htype⟩
      · rw [← (Outer.tls.inj heq).2, hsession]
        rfl

end Gateways

/-! ## One connection -/

theorem selectAlpn_eq_ok {offered : Option (List Bytes)} {protocols : List Bytes}
    {alpn : Option Bytes} (h : selectAlpn offered protocols = .ok alpn) :
    (∀ p, alpn = some p → p ∈ protocols) ∧ (offered.isSome → protocols ≠ [] → alpn.isSome) := by
  unfold selectAlpn at h
  split at h
  · rename_i q hfind
    cases Except.ok.inj h
    exact ⟨fun p hp ↦ Option.some.inj hp ▸ List.mem_of_find?_eq_some hfind, fun _ _ ↦ rfl⟩
  · split_ifs at h with hnone
    cases Except.ok.inj h
    refine ⟨nofun, fun hoffered hne ↦ ?_⟩
    rw [hnone.resolve_left hne] at hoffered
    exact absurd hoffered nofun

theorem surroundings_obliging (gw : Gateway Unit Unit Unit Unit Unit) (s : Progress Unit Unit Unit)
    (op : ConnOp Unit Unit Unit Unit) : gw.Surroundings s op (obliging s op) := by
  cases op with
  | intoStream protocols =>
    change gw.Surroundings s (.intoStream protocols) (selectAlpn (s.offered.getD none) protocols)
    cases hselect : selectAlpn (s.offered.getD none) protocols with
    | error e => trivial
    | ok alpn =>
      obtain ⟨hmem, hsome⟩ := selectAlpn_eq_ok hselect
      refine ⟨hmem, fun offered hoffered ↦ hsome ?_⟩
      rw [hoffered]
      rfl
  | handshake config => exact fun p hp ↦ List.mem_of_mem_head? hp
  | _ => trivial

theorem exists_asked (gw : Gateway Unit Unit Unit Unit Unit) (p : ConnOp Unit Unit Unit Unit → Bool)
    (h : ((obliged gw).1.tail.any fun e ↦ p e.1) = true) : ∃ front op answer back,
      p op = true ∧ ⟨.classify, .tls (some "a.test".toList)⟩ ∈ front ∧
      (dispatch gw).Runs (front ++ ⟨op, answer⟩ :: back) (.ofExcept (obliged gw).2) ∧
      (gw.contract gw.Surroundings).Relied {} front := by
  obtain ⟨es, hes, hruns, hrely⟩ : ∃ es,
      (obliged gw).1 = ⟨.classify, .tls (some "a.test".toList)⟩ :: es ∧
      (dispatch gw).Runs (⟨.classify, .tls (some "a.test".toList)⟩ :: es)
        (.ofExcept (obliged gw).2) ∧
      (gw.contract gw.Surroundings).Relied {}
        (⟨.classify, .tls (some "a.test".toList)⟩ :: es) :=
    Contract.runs_converse_ask _ (fun past op ↦ surroundings_obliging gw _ op) .classify _
  rw [hes, List.tail_cons] at h
  obtain ⟨⟨op, answer⟩, hmem, hp⟩ := List.any_eq_true.mp h
  obtain ⟨front, back, rfl⟩ := List.append_of_mem hmem
  rw [← List.cons_append] at hruns hrely
  exact ⟨_, op, answer, back, hp, List.mem_cons_self, hruns, (Contract.relied_append.mp hrely).1⟩

theorem exists_mirrored (p : ConnOp Unit Unit Unit Unit → Bool)
    (h : (mirroredGateway.toOption.any fun gw ↦ (obliged gw).1.tail.any fun e ↦ p e.1) = true) :
    ∃ gw front op answer back r, mirroredGateway = .ok gw ∧ p op = true ∧
      ⟨.classify, .tls (some "a.test".toList)⟩ ∈ front ∧
      (dispatch gw).Runs (front ++ ⟨op, answer⟩ :: back) r ∧
      (gw.contract gw.Surroundings).Relied {} front := by
  obtain ⟨gw, hgw, hasked⟩ := (Option.any_eq_true ..).mp h
  obtain ⟨front, op, answer, back, hrest⟩ := exists_asked gw p hasked
  exact ⟨gw, front, op, answer, back, _, eq_ok_of_toOption hgw, hrest⟩

theorem framing_agrees_obliging : ∃ gw front back r alpn conn session idle observer answer,
    mirroredGateway = .ok gw ∧
    (dispatch gw).Runs
      (front ++ ⟨.splice (.tls alpn) (.tls conn session) idle observer, answer⟩ :: back) r ∧
    alpn = some alpnH2 ∧ framing session.alpnProtocol = framing alpn := by
  obtain ⟨gw, front, op, answer, back, r, hgw, hop, -, hruns, hrely⟩ := exists_mirrored
    (fun | .splice (.tls alpn) (.tls _ _) _ _ => alpn = some alpnH2 | _ => false)
    (by decide +kernel)
  split at hop
  · rename_i alpn conn session idle observer
    obtain ⟨v, halpn, hup, -⟩ := framing_agrees hgw hruns hrely
    refine ⟨gw, front, back, r, alpn, conn, session, idle, observer, answer, hgw, hruns,
      of_decide_eq_true hop, ?_⟩
    rw [halpn _ rfl, hup _ _ rfl]
  · exact absurd hop nofun

end SniGate
