import SniGate.Dns.Lookup
import SniGate.Interaction.Program
import SniGate.Listener.Probes

/-!
# What an h2c probe finds

A probe connects to a backend, sends the HTTP/2 preface with an empty SETTINGS frame, and reads as
much as a frame header. A backend that speaks h2c answers with a SETTINGS frame of its own. Where
the upstream has two addresses, the second is tried when the first fails.

Reads may end anywhere. What a probe finds depends on the bytes of the backend alone
(`keeps_probeH2c`), and so does whether the gateway starts (`startup_fails_iff`), in whatever order
the probes end.

## Design choices

A backend is given by its bytes and by whether it accepts a connection. How reads are cut and how
long they take is up to the answers, within a contract that says that reads together yield the
bytes. What a probe spends of its budget is counted by the answers too, since real time is not
modelled.
-/

namespace SniGate

/-! ## The probe -/

/-- The HTTP/2 client connection preface. -/
def preface : Bytes := toUtf8 "PRI * HTTP/2.0\r\n\r\nSM\r\n\r\n".toList

/-- An empty SETTINGS frame. -/
def emptySettings : Bytes := [0, 0, 0, 0x04, 0, 0, 0, 0, 0]

/-- Length of an HTTP/2 frame header. -/
def frameHeaderLen : ℕ := 9

/-- The SETTINGS frame type code. -/
def frameTypeSettings : UInt8 := 0x04

/-- What is asked of the socket. -/
inductive H2cOp
  | connect (addr : SocketAddr)
  | writeAll (addr : SocketAddr) (data : Bytes)
  /-- Read at most so many bytes; none are the end. -/
  | read (addr : SocketAddr) (room : ℕ)

/-- How an attempt stops early: the budget is spent, or something fails. -/
inductive H2cStop
  | elapsed
  | failed (chain : ErrorChain)

/-- What comes back. -/
abbrev H2cOp.Answer : H2cOp → Type
  | connect _ => Except H2cStop Unit
  | writeAll .. => Except H2cStop Unit
  | read .. => Except H2cStop Bytes

/-- A part of a probe. -/
abbrev H2cProgram (ε α : Type) := Program H2cOp H2cOp.Answer ε α

/-- Add to the chain of a failure. -/
def H2cStop.context (text : Str) : H2cStop → H2cStop
  | elapsed => elapsed
  | failed chain => failed (text :: chain)

/-- A byte in two hexadecimal digits. -/
def hex02 (x : UInt8) : Str :=
  let digits := hexadecimal x.toNat
  List.replicate (2 - digits.length) '0' ++ digits

/-- Interpret the first bytes a backend sent in response to the preface. -/
def classifyReply (reply : Bytes) : Except Str Unit :=
  if reply = [] then
    .error ("backend closed the connection without replying (it rejected the HTTP/2 ".toList ++
      "preface)".toList)
  else if toUtf8 "HTTP/1.".toList <+: reply then
    .error ("backend replied with HTTP/1.x, so it does not speak h2c (enable HTTP/2 on it, ".toList
      ++ "or disable http2 for this route)".toList)
  else if reply.length < frameHeaderLen then
    .error ("backend sent a short ".toList ++ decimal reply.length ++
      "-byte reply, not an HTTP/2 frame header".toList)
  else
    let frameType := reply.getD 3 0
    if frameType ≠ frameTypeSettings then
      .error ("backend's first frame was type 0x".toList ++ hex02 frameType ++
        ", expected SETTINGS (0x04)".toList)
    else .ok ()

/-- Read up to a full frame header, in that many reads at most. -/
def readReply (addr : SocketAddr) : ℕ → Bytes → H2cProgram H2cStop Bytes
  | 0, buf => .done buf
  | reads + 1, buf =>
    if buf.length < frameHeaderLen then do
      let answer ← Program.query (H2cOp.read addr (frameHeaderLen - buf.length))
      let bytes ← .ofExcept (answer.mapError (.context "reading the backend's reply".toList))
      if bytes = [] then .done buf else readReply addr reads (buf ++ bytes)
    else .done buf

/-- Greet a backend and judge its reply. -/
def exchange (addr : SocketAddr) : H2cProgram H2cStop Unit := do
  let connected ← Program.query (H2cOp.connect addr)
  .ofExcept (connected.mapError (.context ("connecting to ".toList ++ addr.toStr)))
  let sent ← Program.query (H2cOp.writeAll addr (preface ++ emptySettings))
  .ofExcept (sent.mapError (.context "sending the HTTP/2 connection preface".toList))
  let reply ← readReply addr frameHeaderLen []
  .ofExcept ((classifyReply reply).mapError fun e ↦ .failed [e])

/-- The digits behind the point, without zeros at the end. -/
def fraction (width n : ℕ) : Str :=
  let digits := decimal n
  let padded := List.replicate (width - digits.length) '0' ++ digits
  match padded.rdropWhile (· = '0') with
  | [] => []
  | shown => '.' :: shown

/-- `Debug for Duration`. -/
def debugDuration (d : Duration) : Str :=
  if 10 ^ 9 ≤ d then decimal (d / 10 ^ 9) ++ fraction 9 (d % 10 ^ 9) ++ "s".toList
  else if 10 ^ 6 ≤ d then decimal (d / 10 ^ 6) ++ fraction 6 (d % 10 ^ 6) ++ "ms".toList
  else if 10 ^ 3 ≤ d then decimal (d / 10 ^ 3) ++ fraction 3 (d % 10 ^ 3) ++ "µs".toList
  else decimal d ++ "ns".toList

/-- Probe one address, bounded by `budget`. -/
def attempt (addr : SocketAddr) (budget : Duration) : H2cProgram ErrorChain Unit := do
  let found ← (exchange addr).attempt
  match found with
  | .ok () => return ()
  | .error .elapsed => .fail [addr.toStr ++ ": timed out after ".toList ++ debugDuration budget]
  | .error (.failed chain) => .fail (("probing ".toList ++ addr.toStr) :: chain)

/-- Check that the backend behind `addrs` speaks prior-knowledge h2c. -/
def probeH2c (addrs : ResolvedAddrs) (budget : Duration) : H2cProgram ErrorChain Unit :=
  match addrs.fallback with
  | none => attempt addrs.primary budget
  | some fallback => do
    let primary ← (attempt addrs.primary budget).attempt
    match primary with
    | .ok () => return ()
    | .error primaryErr =>
      let second ← (attempt fallback budget).attempt
      match second with
      | .ok () => return ()
      | .error fallbackErr =>
        .fail [ErrorChain.display primaryErr ++ "; ".toList ++ ErrorChain.display fallbackErr]

/-! ## Backends -/

/-- What a greeted connection to an address brings before it closes, or before the prober has a
frame header; nothing, if it is not accepted, fails, or falls silent for longer than the budget. -/
abbrev Backends := SocketAddr → Option Bytes

/-- The bytes of a SETTINGS frame header. -/
def IsSettings (stream : Bytes) : Prop :=
  frameHeaderLen ≤ stream.length ∧ stream.getD 3 0 = frameTypeSettings

namespace Backends

variable (backends : Backends)

/-- How many bytes the connection has brought. -/
def received (n : ℕ) : Exchange H2cOp.Answer → ℕ
  | ⟨.connect _, _⟩ => 0
  | ⟨.writeAll .., _⟩ => n
  | ⟨.read .., answer⟩ =>
    match (answer : Except H2cStop Bytes) with
    | .ok bytes => n + bytes.length
    | .error _ => n

/-- A read of a connection that has brought `n` bytes brings the next ones, as many as it likes. -/
def Reads (n : ℕ) (room : ℕ) : Option Bytes → Except H2cStop Bytes → Prop
  | some stream, .ok bytes =>
    bytes.length ≤ room ∧ bytes <+: stream.drop n ∧ (bytes = [] → stream.length ≤ n)
  | some _, .error _ => False
  | none, .ok bytes => bytes ≠ [] ∧ n + bytes.length < frameHeaderLen
  | none, .error _ => True

/-- The backends answer as they are, and the prober greets the addresses it was given and reads no
further than a frame header. -/
def contract (addrs : List SocketAddr) : Contract H2cOp.Answer ℕ where
  next := received
  rely n
    | .connect addr, answer => (backends addr).isSome → answer = .ok ()
    | .writeAll addr _, answer => (backends addr).isSome → answer = .ok ()
    | .read addr room, answer => Reads n room (backends addr) answer
  guarantee n
    | .connect addr => addr ∈ addrs
    | .writeAll _ data => data = preface ++ emptySettings
    | .read _ room => 0 < room ∧ n + room = frameHeaderLen

end Backends

section Verdict

variable {backends : Backends} {addrs : List SocketAddr} {addr : SocketAddr} {n reads : ℕ}
  {stream buf : Bytes}

theorem getD_take_of_lt {i : ℕ} (h : i < frameHeaderLen) :
    (stream.take frameHeaderLen).getD i 0 = stream.getD i 0 := by
  rw [List.getD_eq_getElem?_getD, List.getD_eq_getElem?_getD, List.getElem?_take_of_lt h]

/-- **What a reply is judged by.** A reply that starts like HTTP/1.x has another frame type. -/
theorem classifyReply_take : (classifyReply (stream.take frameHeaderLen)).isOk ↔
    IsSettings stream := by
  have htype : (stream.take frameHeaderLen).getD 3 0 = stream.getD 3 0 :=
    getD_take_of_lt (by decide)
  have hlen : (stream.take frameHeaderLen).length < frameHeaderLen ↔
      ¬frameHeaderLen ≤ stream.length := by
    rw [List.length_take]
    omega
  rw [classifyReply, IsSettings]
  dsimp only
  split_ifs with hempty hhttp hshort hother
  · have hshort : stream.length < frameHeaderLen := by
      rw [← not_le, ← hlen, hempty]
      decide
    exact iff_of_false nofun fun h ↦ absurd h.1 (not_le.mpr hshort)
  · obtain ⟨rest, hrest⟩ := hhttp
    have hbyte : (stream.take frameHeaderLen).getD 3 0 = 0x50 := by
      rw [← hrest]
      rfl
    refine iff_of_false nofun fun h ↦ ?_
    rw [htype, h.2] at hbyte
    exact absurd hbyte (by decide)
  · exact iff_of_false nofun fun h ↦ hlen.mp hshort h.1
  · rw [htype] at hother
    exact iff_of_false nofun fun h ↦ hother h.2
  · rw [htype, not_not] at hother
    exact iff_of_true rfl ⟨not_not.mp fun h ↦ hshort (hlen.mpr h), hother⟩

/-- **Reading.** However the bytes arrive, a frame header's worth of them is read, or all there
are. -/
theorem keeps_readReply (haddr : backends addr = some stream) (hn : n ≤ stream.length)
    (hle : n ≤ frameHeaderLen) (hreads : frameHeaderLen ≤ n + reads) :
    (backends.contract addrs).Keeps (fun _ x ↦ x = .ok (stream.take frameHeaderLen)) n
      (readReply addr reads (stream.take n)) := by
  have hlen : (stream.take n).length = n := List.length_take_of_le hn
  induction reads generalizing n with
  | zero =>
    obtain rfl : n = frameHeaderLen := by omega
    exact rfl
  | succ reads ih =>
    rw [readReply, hlen]
    split_ifs with hmore
    · refine Contract.keeps_query_bind.mpr ⟨⟨by omega, by omega⟩, fun answer hanswer ↦ ?_⟩
      change Backends.Reads n _ (backends addr) answer at hanswer
      rw [haddr] at hanswer
      cases answer with
      | error e => exact hanswer.elim
      | ok bytes =>
        obtain ⟨hroom, hprefix, hend⟩ := hanswer
        change (backends.contract addrs).Keeps _ (n + bytes.length) (if bytes = [] then _ else _)
        split_ifs with hempty
        · rw [Contract.keeps_done, List.take_of_length_le (hend hempty),
            List.take_of_length_le ((hend hempty).trans hle)]
        · have htaken : stream.take n ++ bytes = stream.take (n + bytes.length) := by
            rw [List.take_add, ← List.prefix_iff_eq_take.mp hprefix]
          have hmore' : bytes.length ≤ stream.length - n := by
            rw [← List.length_drop]
            exact hprefix.length_le
          have hpos := List.length_pos_of_ne_nil hempty
          rw [htaken]
          exact ih (by omega) (by omega) (by omega) (List.length_take_of_le (by omega))
    · obtain rfl : n = frameHeaderLen := by omega
      exact rfl

theorem keeps_readReply_of_none (buf : Bytes) (haddr : backends addr = none)
    (hn : buf.length < frameHeaderLen)
    (hreads : frameHeaderLen ≤ buf.length + reads) :
    (backends.contract addrs).Keeps (fun _ x ↦ ¬x.isOk) buf.length (readReply addr reads buf) := by
  induction reads generalizing buf with
  | zero => omega
  | succ reads ih =>
    rw [readReply, if_pos hn]
    refine Contract.keeps_query_bind.mpr ⟨⟨by omega, by omega⟩, fun answer hanswer ↦ ?_⟩
    change Backends.Reads buf.length _ (backends addr) answer at hanswer
    rw [haddr] at hanswer
    cases answer with
    | error e => nofun
    | ok bytes =>
      obtain ⟨hne, hshort⟩ := hanswer
      change (backends.contract addrs).Keeps _ (buf.length + bytes.length)
        (if bytes = [] then _ else _)
      have hpos := List.length_pos_of_ne_nil hne
      rw [if_neg hne, ← List.length_append]
      rw [← List.length_append] at hshort
      exact ih _ hshort (by rw [List.length_append]; omega)

/-- An address at which h2c is spoken. -/
def Backends.Speaks (backends : Backends) (addr : SocketAddr) : Prop :=
  ∃ stream, backends addr = some stream ∧ IsSettings stream

theorem isOk_mapError {ε ε' α : Type} (x : Except ε α) (f : ε → ε') :
    (x.mapError f).isOk = x.isOk := by
  cases x with
  | ok a => rfl
  | error e => rfl

theorem keeps_reply : (backends.contract addrs).Keeps (fun _ x ↦ x.isOk ↔ backends.Speaks addr) 0
    (do
      let reply ← readReply addr frameHeaderLen []
      .ofExcept ((classifyReply reply).mapError fun e ↦ .failed [e]) :
        H2cProgram H2cStop Unit) := by
  rw [Contract.keeps_bind]
  cases haddr : backends addr with
  | none =>
    have hread : (backends.contract addrs).Keeps (fun _ x ↦ ¬x.isOk) 0
        (readReply addr frameHeaderLen []) :=
      keeps_readReply_of_none [] haddr (by decide) (by decide)
    refine hread.mono fun m x hx ↦ ?_
    cases x with
    | ok reply => exact absurd rfl hx
    | error e =>
      refine iff_of_false nofun ?_
      rintro ⟨stream, hstream, -⟩
      exact absurd (haddr.symm.trans hstream) nofun
  | some stream =>
    refine (keeps_readReply haddr (Nat.zero_le _) (Nat.zero_le _) (le_of_eq rfl)).mono ?_
    rintro m x rfl
    refine (Contract.keeps_ofExcept _).mpr ?_
    rw [isOk_mapError, classifyReply_take, Backends.Speaks, haddr]
    exact ⟨fun h ↦ ⟨stream, rfl, h⟩, fun ⟨_, heq, h⟩ ↦ Option.some.inj heq ▸ h⟩

/-- What is asked before the reply fails only where there is none. -/
theorem keeps_greeting {answer : Except H2cStop Unit} {text : Str} {p : H2cProgram H2cStop Unit}
    (hanswer : (backends addr).isSome → answer = .ok ())
    (hp : (backends.contract addrs).Keeps (fun _ x ↦ x.isOk ↔ backends.Speaks addr) n p) :
    (backends.contract addrs).Keeps (fun _ x ↦ x.isOk ↔ backends.Speaks addr) n
      (do
        .ofExcept (answer.mapError (.context text))
        p) := by
  cases answer with
  | ok => exact hp
  | error e =>
    refine iff_of_false nofun ?_
    rintro ⟨stream, hstream, -⟩
    exact absurd (hanswer (by rw [hstream]; rfl)) nofun

/-- **One address.** -/
theorem keeps_exchange (hin : addr ∈ addrs) :
    (backends.contract addrs).Keeps (fun _ x ↦ x.isOk ↔ backends.Speaks addr) n
      (exchange addr) := by
  refine Contract.keeps_query_bind.mpr
    ⟨hin, fun connected hconnected ↦ keeps_greeting hconnected ?_⟩
  exact Contract.keeps_query_bind.mpr ⟨rfl, fun sent hsent ↦ keeps_greeting hsent keeps_reply⟩

theorem keeps_attempt (hin : addr ∈ addrs) (budget : Duration) :
    (backends.contract addrs).Keeps (fun _ x ↦ x.isOk ↔ backends.Speaks addr) n
      (attempt addr budget) := by
  rw [attempt, Contract.keeps_bind, Contract.keeps_attempt]
  refine (keeps_exchange hin).mono fun m x hx ↦ ?_
  cases x with
  | ok => exact hx
  | error stop =>
    cases stop with
    | elapsed => exact hx
    | failed chain => exact hx

/-- The addresses in the order in which they are tried. -/
def ResolvedAddrs.toList (addrs : ResolvedAddrs) : List SocketAddr :=
  addrs.primary :: addrs.fallback.toList

/-- **What a probe finds.** However the replies are cut into reads, a probe succeeds just when one
of its addresses answers the preface with a SETTINGS frame. It greets no other address, and reads
no further than a frame header. -/
theorem keeps_probeH2c (addrs : ResolvedAddrs) (budget : Duration) :
    (backends.contract addrs.toList).Keeps
      (fun _ x ↦ x.isOk ↔ ∃ addr ∈ addrs.toList, backends.Speaks addr) n
      (probeH2c addrs budget) := by
  obtain ⟨primary, fallback⟩ := addrs
  rw [probeH2c]
  cases fallback with
  | none =>
    refine (keeps_attempt (by simp [ResolvedAddrs.toList]) budget).mono fun m x hx ↦ ?_
    simpa [ResolvedAddrs.toList] using hx
  | some fallback =>
    simp only [ResolvedAddrs.toList, Option.toList_some, List.exists_mem_cons_iff, List.not_mem_nil,
      false_and, exists_false, or_false]
    rw [Contract.keeps_bind, Contract.keeps_attempt]
    refine (keeps_attempt (by simp) budget).mono fun m x hx ↦ ?_
    cases x with
    | ok => exact iff_of_true rfl (.inl (hx.mp rfl))
    | error primaryErr =>
      dsimp only
      rw [Contract.keeps_bind, Contract.keeps_attempt]
      have hprimary : ¬backends.Speaks primary := fun h ↦ absurd (hx.mpr h) nofun
      refine (keeps_attempt (by simp) budget).mono fun m x hx ↦ ?_
      cases x with
      | ok => exact iff_of_true rfl (.inr (hx.mp rfl))
      | error fallbackErr =>
        exact iff_of_false nofun fun h ↦ absurd (hx.mpr (h.resolve_left hprimary)) nofun

end Verdict

/-! ## Starting -/

/-- What a probe meets, where backends are as they are within a budget: the addresses that resolvers
answer with are tried, in some run against the backends. -/
structure ProbeNet.Probes (net : ProbeNet) (backends : Duration → Backends) : Prop where
  lookup : ∀ resolver host port family nat64 answer,
    net.lookupAddr resolver host port family nat64 = .ok answer →
      ∃ addrs : ResolvedAddrs, answer = addrs.toList
  probe : ∀ (addrs : ResolvedAddrs) budget, ∃ es n x,
    (SniGate.probeH2c addrs budget).Runs es (.ofExcept x) ∧
      ((backends budget).contract addrs.toList).Relied n es ∧
        net.probeH2c addrs.toList budget = x.mapError ErrorChain.display

section Startup

variable {net : ProbeNet} {backends : Duration → Backends}

/-- Some address of a group's backend speaks h2c, within the budget of the group. -/
def ProbeNet.Answers (net : ProbeNet) (backends : Duration → Backends) (k : ProbeKey)
    (g : ProbeGroup) : Prop :=
  ∃ addrs, net.lookupAddr g.resolver k.host k.port k.family k.nat64 = .ok addrs ∧
    ∃ addr ∈ addrs, (backends g.budget).Speaks addr

/-- **What the probe of a group finds.** -/
theorem outcome_isOk_iff (h : net.Probes backends) (k : ProbeKey) (g : ProbeGroup) :
    (g.outcome net k).isOk ↔ net.Answers backends k g := by
  rw [ProbeGroup.outcome, probeOutcome, ProbeNet.Answers]
  cases hlookup : net.lookupAddr g.resolver k.host k.port k.family k.nat64 with
  | error e =>
    refine iff_of_false Bool.false_ne_true ?_
    rintro ⟨_, h, _⟩
    exact absurd h (by simp)
  | ok answer =>
    obtain ⟨addrs, rfl⟩ := h.lookup _ _ _ _ _ _ hlookup
    obtain ⟨es, n, x, hruns, hrelied, hprobe⟩ := h.probe addrs g.budget
    have hverdict := (keeps_probeH2c addrs g.budget).ends hruns hrelied
    change (net.probeH2c addrs.toList g.budget).isOk ↔ _
    rw [hprobe, isOk_mapError, hverdict]
    refine ⟨fun h ↦ ⟨_, rfl, h⟩, ?_⟩
    rintro ⟨_, heq, h⟩
    exact Except.ok.inj heq ▸ h

/-- **When the gateway does not start.** In whatever order the probes end, and however the replies
are cut into reads, startup fails just when no address of some backend that is required to speak
h2c answers the preface with a SETTINGS frame. -/
theorem startup_fails_iff {V P : Type} {start : Startup V P} {cfg : Config}
    {targets : List ProbeTarget} (hcollect : collectProbeTargets start cfg = .ok targets)
    (hnet : net.Probes backends) {joined : List (Σ _ : ProbeKey, ProbeGroup)}
    (hjoined : joined.Perm (groupProbeTargets targets).entries) :
    (∃ e, runProbes net joined = .error e) ↔ ∃ k g, (groupProbeTargets targets).lookup k = some g ∧
      g.policy = .require ∧ ¬net.Answers backends k g := by
  have hmem : ∀ k g, (⟨k, g⟩ : Σ _ : ProbeKey, ProbeGroup) ∈ joined ↔
      (groupProbeTargets targets).lookup k = some g := fun k g ↦ by
    rw [hjoined.mem_iff]
    exact (AList.mem_lookup_iff (s := groupProbeTargets targets)).symm
  have hoff : ∀ e ∈ joined, e.2.policy ≠ .off := fun ⟨k, g⟩ he hpolicy ↦ by
    obtain ⟨t, ht, htpolicy⟩ := (covers_of_lookup ((hmem k g).mp he)).policy.1
    have hcollected := spec_of_collectProbeTargets hcollect (mem_itemsOf.mp ht).1
    exact hcollected.1 (htpolicy.trans hpolicy)
  have herror : ∀ k g, (∃ text, ProbeGroup.outcome net k g = .error text) ↔
      ¬net.Answers backends k g := fun k g ↦ by
    rw [← outcome_isOk_iff hnet]
    cases ProbeGroup.outcome net k g with
    | ok => exact iff_of_false nofun fun h ↦ h rfl
    | error e => exact iff_of_true ⟨e, rfl⟩ nofun
  rw [runProbes_eq_error_iff hoff]
  constructor
  · rintro ⟨⟨k, g⟩, he, hrequire, hfails⟩
    exact ⟨k, g, (hmem k g).mp he, hrequire, (herror k g).mp hfails⟩
  · rintro ⟨k, g, hg, hrequire, hsilent⟩
    exact ⟨⟨k, g⟩, (hmem k g).mpr hg, hrequire, (herror k g).mpr hsilent⟩

end Startup

/-! ## Backends that refuse -/

/-- Every question fails. -/
def refusal (_ : List (Exchange H2cOp.Answer)) : (op : H2cOp) → op.Answer
  | .connect _ | .writeAll .. | .read .. => .error .elapsed

/-- What a probe of backends that refuse finds. -/
def refused (addrs : ResolvedAddrs) (budget : Duration) : Except Str Unit :=
  ((probeH2c addrs budget).converse refusal []).2.mapError ErrorChain.display

/-- One address for every name, and backends that refuse. -/
def refusingNet : ProbeNet where
  lookupAddr _ _ port _ _ := .ok [⟨.v4 0, port⟩]
  probeH2c
    | [primary], budget => refused ⟨primary, none⟩ budget
    | [primary, fallback], budget => refused ⟨primary, some fallback⟩ budget
    | _, _ => .error []

theorem probes_refusingNet : refusingNet.Probes fun _ _ ↦ none where
  lookup _ _ port _ _ _ h := ⟨.single ⟨.v4 0, port⟩, (Except.ok.inj h).symm⟩
  probe addrs budget := by
    obtain ⟨es, -, hruns, hrelied⟩ := Contract.runs_converse
      (c := Backends.contract (fun _ ↦ none) addrs.toList) (s := 0) refusal
      (fun past op ↦ match op with
        | .connect _ | .writeAll .. => nofun
        | .read .. => trivial) (probeH2c addrs budget) []
    refine ⟨es, 0, _, hruns, hrelied, ?_⟩
    obtain ⟨primary, fallback⟩ := addrs
    cases fallback with
    | none => rfl
    | some fallback => rfl

/-- Two routes to one backend that is required to speak h2c, and refuses. -/
theorem startup_fails_iff_refused : ∃ targets,
    collectProbeTargets quietStartup (sharedBackend "system".toList "system".toList) = .ok targets ∧
      ((∃ e, runProbes refusingNet (groupProbeTargets targets).entries = .error e) ↔
        ∃ k g, (groupProbeTargets targets).lookup k = some g ∧ g.policy = .require ∧
          ¬refusingNet.Answers (fun _ _ ↦ none) k g) := by
  have hok : (collectProbeTargets quietStartup
      (sharedBackend "system".toList "system".toList)).isOk := by decide +kernel
  cases hcollect : collectProbeTargets quietStartup
      (sharedBackend "system".toList "system".toList) with
  | error e =>
    rw [hcollect] at hok
    exact absurd hok nofun
  | ok targets => exact ⟨targets, rfl, startup_fails_iff hcollect probes_refusingNet (.refl _)⟩

end SniGate
