import SniGate.Proxy.Framing

/-!
# What connections keep to

Every run of a connection, at whatever point it is looked at, and whatever was answered:

* a connection that is passed through raw, or that has no route, is not touched (`untouched`);
* a route that is not raw dials what its own upstream resolves to, and nothing else
  (`dials_own_upstream`);
* a handshake asks for a name of the route, under the route's own verifier, and what is only trusted
  is not transmitted (`handshake_asks`);
* coverage is handed over to be recorded for the name that the upstream was asked about, and not
  left out (`coverage_follows`).
-/

namespace SniGate

variable {ρ κ V P Der Key : Type} {gw : Gateway ρ κ V Der Key} {inbound : Inbound}
  {front back es : List (ConnExchange ρ κ V Der)} {r : ConnTask ρ κ V Der Unit}
  {op : ConnOp ρ κ V Der} {answer : op.Answer} {rt : DataPath ρ κ V}

/-! ## One exchange of a run -/

theorem permitted_of_runs (hruns : (dispatch gw).Runs (front ++ ⟨op, answer⟩ :: back) r) :
    ∃ s : Progress κ V Der, s.spliced = false ∧ s.Permitted gw op ∧ s.Recalls front ∧
      ∀ inbound, ⟨.classify, inbound⟩ ∈ front → s.inbound = some inbound := by
  obtain ⟨hopen, hmay⟩ := (keeps_dispatch gw fun _ _ _ ↦ True).guarantee hruns
    (Contract.relied_of_forall fun _ _ _ ↦ trivial)
  obtain ⟨r', hfront, -⟩ := hruns.front
  exact ⟨_, hopen, hmay, recalls_after gw _ front, fun i hi ↦ inbound_of_runs _ hfront hi⟩

theorem permitted_of_mem (hruns : (dispatch gw).Runs es r) (hmem : ⟨op, answer⟩ ∈ es) :
    ∃ s : Progress κ V Der, s.Permitted gw op ∧ s.Recalls es ∧
      ∀ i, s.inbound = some i → ∀ j, ⟨.classify, j⟩ ∈ es → i = j := by
  obtain ⟨front, back, rfl⟩ := List.append_of_mem hmem
  obtain ⟨s, -, hmay, hrecalls, hinbound⟩ := permitted_of_runs hruns
  have hrecalls' := hrecalls.mono (List.subset_append_left front (⟨op, answer⟩ :: back))
  refine ⟨s, hmay, hrecalls', fun i hi j hj ↦ ?_⟩
  have hsettled := inbound_of_runs (fun _ _ _ ↦ True) hruns (hrecalls'.inbound i hi)
  exact Option.some.inj (hsettled.symm.trans (inbound_of_runs _ hruns hj))

theorem last_of_splice {inner : Inner} {outer : Outer Der} {idle : Duration}
    {observer : Option IpAddr} {answer : Except ErrorChain Unit}
    (hruns : (dispatch gw).Runs (front ++ ⟨.splice inner outer idle observer, answer⟩ :: back) r) :
    back = [] := by
  cases back with
  | nil => rfl
  | cons e back =>
    have hruns' : (dispatch gw).Runs
        ((front ++ [⟨.splice inner outer idle observer, answer⟩]) ++ e :: back) r := by
      rwa [List.append_assoc]
    have hmay := (keeps_dispatch gw fun _ _ _ ↦ True).guarantee hruns'
      (Contract.relied_of_forall fun _ _ _ ↦ trivial)
    rw [Contract.after_append] at hmay
    exact absurd hmay.1 nofun

/-! ## Connections that are not touched -/

/-- Questions that are part of a handshake, or that come with one. -/
def ConnOp.Touches : ConnOp ρ κ V Der → Prop
  | .clientHello | .intoStream _ | .handshake .. | .echClient .. | .invalidateAfterRejection ..
  | .mirrorIsCurrent .. | .spawnBlocking _ => True
  | .classify | .lookupAddr .. | .pick .. | .dial .. | .connectHost .. | .splice .. => False

theorem Progress.served_of_touches {s : Progress κ V Der} (htouches : op.Touches)
    (hmay : s.Permitted gw op) : ∃ inbound rt, s.Served gw inbound rt := by
  cases op with
  | clientHello =>
    obtain ⟨i, rt, hserved, -⟩ := hmay
    exact ⟨i, rt, hserved⟩
  | intoStream protocols =>
    obtain ⟨i, rt, hserved, -⟩ := hmay
    exact ⟨i, rt, hserved⟩
  | handshake config name conn connectTimeout =>
    obtain ⟨i, rt, hserved, -⟩ := hmay
    exact ⟨i, rt, hserved⟩
  | echClient innerName alpn =>
    obtain ⟨i, rt, hserved, -⟩ := hmay
    exact ⟨i, rt, hserved⟩
  | invalidateAfterRejection innerName generation =>
    obtain ⟨i, rt, -, hserved, -⟩ := hmay
    exact ⟨i, rt, hserved⟩
  | mirrorIsCurrent host observed =>
    obtain ⟨i, rt, -, -, -, -, hserved, -⟩ := hmay
    exact ⟨i, rt, hserved⟩
  | spawnBlocking task =>
    obtain ⟨⟨i, rt, -, -, -, -, hserved, -⟩, -⟩ := hmay
    exact ⟨i, rt, hserved⟩
  | classify | lookupAddr | pick | dial | connectHost | splice => exact htouches.elim

theorem Progress.Served.not_through {s : Progress κ V Der} {i : Inbound}
    (h : s.Served gw i rt) (hinbound : s.inbound = some inbound)
    (hthrough : ∀ rt, gw.routed inbound = some rt → rt.routeType = .raw) : False := by
  cases h.classified.symm.trans hinbound
  exact h.notRaw (hthrough rt h.routed)

/-- **A connection without a route, or on a raw one, is not touched.** No hello is read, no
certificate is issued for it, no handshake is made with an upstream, and nothing is learned. If it
is spliced at all, it is the client's own stream, with a connected socket, and that is the end of
it. -/
theorem untouched (hruns : (dispatch gw).Runs (front ++ ⟨op, answer⟩ :: back) r)
    (hinbound : ⟨.classify, inbound⟩ ∈ front)
    (hthrough : ∀ rt, gw.routed inbound = some rt → rt.routeType = .raw) :
    ¬op.Touches ∧ ∀ inner outer idle observer, op = .splice inner outer idle observer →
      inner = .tcp ∧ back = [] ∧ ∃ conn, outer = .tcp conn ∧
        ((∃ addrs connectTimeout, ⟨.dial addrs connectTimeout, .ok conn⟩ ∈ front) ∨
          ∃ host port, ⟨.connectHost host port, .ok conn⟩ ∈ front) := by
  obtain ⟨s, -, hmay, hrecalls, hclassified⟩ := permitted_of_runs hruns
  have hs := hclassified inbound hinbound
  constructor
  · intro htouches
    obtain ⟨i, rt, hserved⟩ := Progress.served_of_touches htouches hmay
    exact hserved.not_through hs hthrough
  · rintro inner outer idle observer rfl
    obtain ⟨i, hi, hspliceable⟩ := hmay
    cases hi.symm.trans hs
    refine (fun h ↦ ?_ : (∃ conn, s.up.conn = some conn ∧ inner = .tcp ∧ outer = .tcp conn) → _) ?_
    · obtain ⟨conn, hconn, hinner, houter⟩ := h
      exact ⟨hinner, last_of_splice hruns, conn, houter, hrecalls.conn conn hconn⟩
    · cases hspliceable with
      | raw h hraw hconn => exact ⟨_, hconn, rfl, rfl⟩
      | failed h hpolicy hconn => exact ⟨_, hconn, rfl, rfl⟩
      | http hserved => exact (hserved.not_through hs hthrough).elim
      | tls hserved => exact (hserved.not_through hs hthrough).elim

/-- A gateway without routes. -/
def routelessGateway : Gateway Unit Unit Unit Unit Unit where
  router := { exact := ∅, wildcard := ∅, suffix := ∅, regex := [], default := none }
  routes := []
  unmatched := .systemOutbound
  serverName _ := true
  nameOverride _ := none
  observesTransfers _ := false
  codec := plainShared.codec

theorem untouched_routeless : ∃ front conn idle observer answer r,
    (dispatch routelessGateway).Runs
      (front ++ [⟨.splice .tcp (.tcp conn) idle observer, answer⟩]) r := by
  have hnone : (routelessGateway.routed (.tls (some "a.test".toList))).isNone = true := by
    decide +kernel
  obtain ⟨front, op, answer, back, hop, hinbound, hruns, -⟩ := exists_asked routelessGateway
    (fun | .splice .. => true | _ => false) (by decide +kernel)
  split at hop
  · obtain ⟨-, hsplice⟩ := untouched hruns hinbound fun rt hrt ↦ by
      rw [hrt] at hnone
      exact absurd hnone nofun
    obtain ⟨rfl, rfl, conn, rfl, -⟩ := hsplice _ _ _ _ rfl
    exact ⟨front, conn, _, _, answer, _, hruns⟩
  · exact absurd hop nofun

/-! ## Addresses -/

theorem FailsBy.not_served {i : Inbound} {policy : FailPolicy} (h : FailsBy gw i policy)
    (hrt : gw.routed i = some rt) (hnotRaw : rt.routeType ≠ .raw) : False := by
  cases h with
  | unmatched hnone =>
    rw [Gateway.routed, hnone] at hrt
    exact absurd hrt (by simp)
  | raw h hraw =>
    cases hrt.symm.trans h
    exact hnotRaw hraw

theorem routed_mirrored {gw : Gateway Unit Unit Unit Unit Unit} (h : mirroredGateway = .ok gw) :
    ∃ rt, gw.routed (.tls (some "a.test".toList)) = some rt ∧ rt.routeType ≠ .raw := by
  have hcheck : (mirroredGateway.toOption.all fun gw ↦
      (gw.routed (.tls (some "a.test".toList))).any fun rt ↦ rt.routeType ≠ .raw) = true := by
    decide +kernel
  rw [h] at hcheck
  obtain ⟨rt, hrt, hraw⟩ := (Option.any_eq_true ..).mp hcheck
  exact ⟨rt, hrt, of_decide_eq_true hraw⟩

/-- **A route that is not raw dials its own upstream.** It connects within its own time, to what its
own resolver has found for the upstream's host, or to what the pool has picked for its view; the
fail policy is not for it. -/
theorem dials_own_upstream (hruns : (dispatch gw).Runs (front ++ ⟨op, answer⟩ :: back) r)
    (hinbound : ⟨.classify, inbound⟩ ∈ front) (hrt : gw.routed inbound = some rt)
    (hnotRaw : rt.routeType ≠ .raw) :
    (∀ host port, op ≠ .connectHost host port) ∧
    ∀ addrs connectTimeout, op = .dial addrs connectTimeout → connectTimeout = rt.connectTimeout ∧
      ((∃ fixed family nat64 resolver host, rt.upstream = .direct fixed family nat64 resolver ∧
          rt.upstream.dialHost inbound.key = some host ∧
          ⟨.lookupAddr resolver host rt.upstreamPort family nat64, .ok addrs⟩ ∈ front) ∨
        ∃ pool view addr, rt.upstream = .pool pool view ∧ addrs = .single addr ∧
          ⟨.pick pool view rt.upstreamPort, .ok addr⟩ ∈ front) := by
  obtain ⟨s, -, hmay, hrecalls, hclassified⟩ := permitted_of_runs hruns
  have hs := hclassified inbound hinbound
  obtain ⟨_, hfront, -⟩ := hruns.front
  constructor
  · rintro host port rfl
    obtain ⟨i, key, hi, hfails, -⟩ := hmay
    cases hi.symm.trans hs
    exact hfails.not_served hrt hnotRaw
  · rintro addrs connectTimeout rfl
    obtain ⟨i, hi, ⟨rt', hrt', haddrs, htime⟩ | ⟨addr, hfails, -⟩⟩ := hmay
    · cases hi.symm.trans hs
      cases hrt.symm.trans hrt'
      refine ⟨htime, (hrecalls.addrs addrs haddrs).imp ?_ ?_⟩
      · rintro ⟨resolver, host, port, family, nat64, hmem⟩
        obtain ⟨s', ⟨j, rt'', fixed, hj, hrt'', rfl, hup, hhost⟩, -, hsame⟩ :=
          permitted_of_mem hfront hmem
        obtain rfl := hsame j hj inbound hinbound
        cases hrt.symm.trans hrt''
        exact ⟨fixed, family, nat64, resolver, host, hup, hhost, hmem⟩
      · rintro ⟨pool, view, port, addr, hmem, heq⟩
        obtain ⟨s', ⟨j, rt'', hj, hrt'', rfl, hup⟩, -, hsame⟩ := permitted_of_mem hfront hmem
        obtain rfl := hsame j hj inbound hinbound
        cases hrt.symm.trans hrt''
        exact ⟨pool, view, addr, hup, heq, hmem⟩
    · cases hi.symm.trans hs
      exact (hfails.not_served hrt hnotRaw).elim

theorem dials_own_upstream_obliging : ∃ gw front back addrs connectTimeout answer r rt,
    mirroredGateway = .ok gw ∧
    (dispatch gw).Runs (front ++ ⟨.dial addrs connectTimeout, answer⟩ :: back) r ∧
    gw.routed (.tls (some "a.test".toList)) = some rt ∧ connectTimeout = rt.connectTimeout := by
  obtain ⟨gw, front, op, answer, back, r, hgw, hop, hinbound, hruns, -⟩ := exists_mirrored
    (fun | .dial .. => true | _ => false) (by decide +kernel)
  obtain ⟨rt, hrt, hraw⟩ := routed_mirrored hgw
  split at hop
  · obtain ⟨-, hdial⟩ := dials_own_upstream hruns hinbound hrt hraw
    exact ⟨gw, front, back, _, _, answer, r, rt, hgw, hruns, hrt, (hdial _ _ rfl).1⟩
  · exact absurd hop nofun

/-! ## Names -/

/-- What a route transmits is not what it trusts: the verifier's own name is requested only by a
route that transmits none. -/
theorem requestedName_of_transmitted {name : Str} (h : requestedName gw rt inbound = some name)
    (hsni : rt.sniPolicy ≠ .omitted) :
    rt.sniPolicy.upstreamName inbound.key = some name ∨
      inbound.key = none ∧ rt.routeType = .tls ∧ rt.upstream.dialHost none = some name := by
  unfold requestedName silentNameOverride at h
  rw [if_pos hsni, Option.or_none] at h
  rcases Option.or_eq_some_iff.mp h with hname | ⟨hnone, hname⟩
  · exact .inl hname
  · split_ifs at hname with htype
    have hkey : inbound.key = none := by
      cases hpolicy : rt.sniPolicy with
      | omitted => exact absurd hpolicy hsni
      | fixed n =>
        rw [hpolicy] at hnone
        exact absurd hnone nofun
      | reflect =>
        rw [hpolicy] at hnone
        exact Option.map_eq_none_iff.mp hnone
    rw [hkey] at hname
    exact .inr ⟨hkey, htype, hname⟩

/-- What an upstream handshake asks for, on behalf of a connection. -/
structure Asks (gw : Gateway ρ κ V Der Key) (rt : DataPath ρ κ V) (inbound : Inbound)
    (config : UpstreamConfig κ V) (name : Str) : Prop where
  originates : rt.Originates
  requested : requestedName gw rt inbound = some name
  verify : rt.verify = some config.verify
  enableSni : config.enableSni = decide (rt.sniPolicy ≠ .omitted)
  plain : rt.routeType = .tls → config.echMode = none
  ech : rt.routeType = .ech → config.echMode.isSome
  /-- No placeholder where ECH is required. -/
  real : rt.routeType = .ech → rt.requireEch →
    ∀ publicKey, config.echMode ≠ some (.grease publicKey)
  /-- What is transmitted is the name the route presents, or the host it dials. -/
  transmitted : config.enableSni → rt.sniPolicy.upstreamName inbound.key = some name ∨
    inbound.key = none ∧ rt.routeType = .tls ∧ rt.upstream.dialHost none = some name

/-- **What a handshake asks for.** A route verifies under its own policy, transmits a name unless it
is to transmit none, and never transmits a name that it only trusts; with ECH required, it does not
settle for a placeholder. -/
theorem handshake_asks {env : BuildEnv ρ V P} {cfg : Config} {listener : Listener}
    {regexNew : RegexNew} {shared : GatewayEnv V Der Key}
    (h : buildGateway env shared regexNew cfg listener = .ok gw) {config : UpstreamConfig κ V}
    {name : Str} {conn : TcpConn} {connectTimeout : Duration}
    {answer : Except HandshakeError (TlsSession Der)}
    (hruns : (dispatch gw).Runs
      (front ++ ⟨.handshake config name conn connectTimeout, answer⟩ :: back) r)
    (hrely : (gw.contract gw.Surroundings).Relied {} front) :
    ∃ inbound rt, ⟨.classify, inbound⟩ ∈ front ∧ gw.routed inbound = some rt ∧
      Asks gw rt inbound config name := by
  obtain ⟨-, inbound, rt, hserved, -, -, hname, hconfigured, -⟩ :=
    (keeps_dispatch gw gw.Surroundings).guarantee hruns hrely
  obtain ⟨_, hfront, -⟩ := hruns.front
  have hmem := (recalls_after gw gw.Surroundings front).inbound inbound hserved.classified
  refine ⟨inbound, rt, hmem, hserved.routed, ?_⟩
  have htransmitted (henable : config.enableSni = decide (rt.sniPolicy ≠ .omitted))
      (hsni : config.enableSni = true) := by
    rw [henable] at hsni
    exact requestedName_of_transmitted hname (of_decide_eq_true hsni)
  rcases hconfigured with ⟨htype, configs, hconfigs, rfl⟩ | ⟨htype, client, hclient, rfl⟩
  · obtain ⟨verify, hverify, hnew⟩ := (prepared_of_routed h hserved.routed).configs htype
    cases hconfigs.symm.trans hnew
    obtain ⟨hmode, hpolicy, henable⟩ := ClientConfigs.select_new (κ := κ) verify
      (decide (rt.sniPolicy ≠ .omitted)) (rt.offer inbound _)
    exact {
      originates := .inl htype
      requested := hname
      verify := hverify.trans (congrArg some hpolicy.symm)
      enableSni := henable
      plain := fun _ ↦ hmode
      ech := fun hech ↦ absurd (htype.symm.trans hech) nofun
      real := fun hech ↦ absurd (htype.symm.trans hech) nofun
      transmitted := htransmitted henable }
  · obtain ⟨i, innerName, hi, hprovides⟩ := (negotiated_of_runs hfront hrely).client client hclient
    cases hi.symm.trans hserved.classified
    obtain ⟨-, henable, hverify, hreal⟩ := (hprovides rt hserved.routed).config
    exact {
      originates := .inr htype
      requested := hname
      verify := hverify
      enableSni := henable
      plain := fun htls ↦ absurd (htype.symm.trans htls) nofun
      ech := fun _ ↦ rfl
      real := fun _ hrequire publicKey heq ↦ hreal hrequire publicKey (Option.some.inj heq)
      transmitted := htransmitted henable }

theorem handshake_asks_obliging : ∃ gw front back config name conn connectTimeout answer r inbound
    rt, mirroredGateway = .ok gw ∧
    (dispatch gw).Runs
      (front ++ ⟨.handshake config name conn connectTimeout, answer⟩ :: back) r ∧
    Asks gw rt inbound config name := by
  obtain ⟨gw, front, op, answer, back, r, hgw, hop, -, hruns, hrely⟩ := exists_mirrored
    (fun | .handshake .. => true | _ => false) (by decide +kernel)
  split at hop
  · obtain ⟨inbound, rt, -, -, hasks⟩ := handshake_asks hgw hruns hrely
    exact ⟨gw, front, back, _, _, _, _, answer, r, inbound, rt, hgw, hruns, hasks⟩
  · exact absurd hop nofun

/-! ## Coverage -/

/-- **Coverage follows what upstreams present.** Recording it for a name is handed to a task only
after a handshake that asked for that name, on a route that reflects it, with the names of the
certificate presented there, and only if the certificate in the cache does not mirror these yet; and
before a splice it has been handed over unless the certificate did. When the task runs is not for
the connection to say. -/
theorem coverage_follows (hruns : (dispatch gw).Runs (front ++ ⟨op, answer⟩ :: back) r) :
    (∀ host observed, op = .spawnBlocking (.recordUpstreamSans host observed) →
      ∃ inbound rt key config conn connectTimeout session chain, ⟨.classify, inbound⟩ ∈ front ∧
        gw.routed inbound = some rt ∧ rt.sniPolicy = .reflect ∧ inbound.key = some key ∧
        host = stripPort key ∧
        ⟨.handshake config host conn connectTimeout, .ok session⟩ ∈ front ∧
        session.peerCertificates = some chain ∧ observed = observedDnsSans gw.codec chain ∧
        ⟨.mirrorIsCurrent host observed, false⟩ ∈ front) ∧
    ∀ inner conn session idle observer, op = .splice inner (.tls conn session) idle observer →
      ∀ inbound rt key chain, ⟨.classify, inbound⟩ ∈ front → gw.routed inbound = some rt →
        rt.sniPolicy = .reflect → inbound.key = some key →
        session.peerCertificates = some chain → ∃ current,
          ⟨.mirrorIsCurrent (stripPort key) (observedDnsSans gw.codec chain), current⟩ ∈ front ∧
          (current = false →
            ⟨.spawnBlocking (.recordUpstreamSans (stripPort key)
              (observedDnsSans gw.codec chain)), ()⟩ ∈ front) := by
  obtain ⟨s, -, hmay, hrecalls, hclassified⟩ := permitted_of_runs hruns
  constructor
  · rintro host observed rfl
    obtain ⟨⟨inbound, rt, key, conn, session, chain, hserved, hreflect, hkey, rfl, hup, hchain,
      rfl⟩, hcompared⟩ := hmay
    obtain ⟨config, name, hsession, hname, -⟩ := hup.completed
    -- a reflecting route with a key asks for that key
    obtain rfl : stripPort key = name := by
      unfold requestedName at hname
      rw [hreflect, hkey] at hname
      exact Option.some.inj hname
    obtain ⟨conn', connectTimeout, hhandshake⟩ := hrecalls.session config _ session hsession
    exact ⟨inbound, rt, key, config, conn', connectTimeout, session, chain,
      hrecalls.inbound inbound hserved.classified, hserved.routed, hreflect, hkey, rfl, hhandshake,
      hchain, rfl, hrecalls.compared _ _ _ hcompared⟩
  · rintro inner conn session idle observer rfl inbound rt key chain hinbound hrt hreflect hkey
      hchain
    obtain ⟨i, hi, hspliceable⟩ := hmay
    cases hi.symm.trans (hclassified inbound hinbound)
    cases hspliceable with
    | tls hserved _ _ _ hcovered =>
      cases hrt.symm.trans hserved.routed
      obtain ⟨current, hcompared, hhanded⟩ := hcovered hreflect key chain hkey hchain
      exact ⟨current, hrecalls.compared _ _ _ hcompared,
        fun hstale ↦ hrecalls.handed _ _ (hhanded hstale)⟩

theorem coverage_follows_obliging : ∃ gw front back host observed answer r,
    mirroredGateway = .ok gw ∧
    (dispatch gw).Runs
      (front ++ ⟨.spawnBlocking (.recordUpstreamSans host observed), answer⟩ :: back) r ∧
    ∃ config conn connectTimeout session,
      ⟨.handshake config host conn connectTimeout, .ok session⟩ ∈ front := by
  obtain ⟨gw, front, op, answer, back, r, hgw, hop, -, hruns, -⟩ := exists_mirrored
    (fun | .spawnBlocking (.recordUpstreamSans ..) => true | _ => false) (by decide +kernel)
  split at hop
  · obtain ⟨_, _, _, config, conn, connectTimeout, session, _, -, -, -, -, -, hhandshake, -⟩ :=
      (coverage_follows hruns).1 _ _ rfl
    exact ⟨gw, front, back, _, _, answer, r, hgw, hruns, config, conn, connectTimeout, session,
      hhandshake⟩
  · exact absurd hop nofun

end SniGate
