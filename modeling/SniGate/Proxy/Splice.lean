import SniGate.Pool.Selection
import SniGate.Proxy.Pump

/-!
# Both directions of a connection

`splice` runs two pumps until both have ended, or one fails, or nothing moves for too long; or it is
dropped while it waits. A report that is dropped with it accounts for what was copied.

## What a pump has copied

What its writer has accepted, followed by the part of the chunk not yet sent, is what was read. This
holds whenever the pump waits (`copied_run`), so also where it is dropped; and only an error loses
the part not yet sent.

## What is reported

The counters stand at what was accepted whenever a pump waits, and no pump runs once the splice has
ended. So the one report made then is exact, whichever way it ends (`splice_accounts`).
-/

namespace SniGate

/-! ## One direction -/

/-- What an awaited call has read. -/
def PumpEvent.chunk : PumpEvent → Bytes
  | .read chunk => chunk
  | _ => []

/-- Everything read in a run. -/
def readBytes (es : List PumpEvent) : Bytes := es.flatMap PumpEvent.chunk

namespace Pump

/-- The counter of a pump that has had so many bytes accepted. -/
def counted (tracked : Bool) (accepted : ℕ) : ℕ :=
  if tracked then min accepted (2 ^ 64 - 1) else 0

/-- What was read is what the writer has accepted and then what is left of the chunk, if the pump is
still to send it; and the counter counts what was accepted. -/
structure Ledger (tracked : Bool) (es : List PumpEvent) (p : Pump) : Prop where
  copied : ∃ rest, p.writer.accepted ++ rest = readBytes es ∧
    (∀ rest', p.phase = .writing rest' → rest' = rest) ∧
    (p.phase = .reading ∨ p.phase = .closing ∨ p.phase = .ended .ok → rest = [])
  counter : p.bytes = counted tracked p.writer.accepted.length
  /-- Only the end of input is followed by a shutdown. -/
  closing : p.phase = .closing → ∃ front, es = front ++ [.read []]
  ok : p.phase = .ended .ok → ∃ front, es = front ++ [.read [], .shutDown]

section Ledger

variable {tracked : Bool} {p q : Pump} {e : PumpEvent} {es : List PumpEvent}

theorem readBytes_concat (es : List PumpEvent) (e : PumpEvent) :
    readBytes (es ++ [e]) = readBytes es ++ e.chunk := by
  rw [readBytes, List.flatMap_append, List.flatMap_singleton, readBytes]

theorem readBytes_concat_of_nil (es : List PumpEvent) (h : e.chunk = []) :
    readBytes (es ++ [e]) = readBytes es := by rw [readBytes_concat, h, List.append_nil]

theorem counted_saturatingAdd (tracked : Bool) (accepted n : ℕ) :
    (if tracked then saturatingAdd (counted tracked accepted) n else counted tracked accepted) =
      counted tracked (accepted + n) := by
  cases tracked with
  | false => rfl
  | true =>
    simp only [counted, saturatingAdd, if_true]
    omega

theorem ledger_start (tracked : Bool) : Ledger tracked [] start where
  copied := ⟨[], rfl, by simp [start], by simp⟩
  counter := by cases tracked <;> rfl
  closing h := by simp [start] at h
  ok h := by simp [start] at h

theorem Ledger.finish (h : Ledger tracked es p) (hchunk : e.chunk = []) {result : PumpResult}
    (hresult : result ≠ .ok) : Ledger tracked (es ++ [e]) { p with phase := .ended result } := by
  obtain ⟨rest, hcopied, -, -⟩ := h.copied
  refine ⟨⟨rest, ?_, by simp, by simp [hresult]⟩, h.counter, by simp, by simp [hresult]⟩
  rw [readBytes_concat_of_nil es hchunk]
  exact hcopied

theorem Ledger.step (h : Ledger tracked es p) (hstep : p.step tracked e = some q) :
    Ledger tracked (es ++ [e]) q := by
  obtain ⟨rest, hcopied, hwriting, hnone⟩ := h.copied
  cases e with
  | read chunk =>
    rw [Pump.step] at hstep
    split_ifs at hstep with hc hnil
    · -- the end of input
      obtain rfl := Option.some.inj hstep
      obtain rfl := hnone (.inl hc.1)
      refine ⟨⟨[], ?_, by simp, by simp⟩, h.counter, fun _ ↦ ⟨es, by rw [hnil]⟩, by simp⟩
      rw [readBytes_concat_of_nil (e := .read chunk) es hnil]
      exact hcopied
    · obtain rfl := Option.some.inj hstep
      obtain rfl := hnone (.inl hc.1)
      refine ⟨⟨chunk, ?_, by simp, by simp⟩, h.counter, by simp, by simp⟩
      rw [List.append_nil] at hcopied
      rw [readBytes_concat, PumpEvent.chunk, hcopied]
  | readFailed =>
    rw [Pump.step] at hstep
    split_ifs at hstep
    obtain rfl := Option.some.inj hstep
    exact h.finish rfl (by simp)
  | wrote n =>
    cases hp : p.phase with
    | writing rest' =>
      obtain rfl := hwriting rest' hp
      by_cases hlt : rest'.length < n
      · simp [Pump.step, hp, hlt] at hstep
      by_cases hz : n = 0
      · simp only [Pump.step, hp, if_neg hlt, if_pos hz] at hstep
        obtain rfl := Option.some.inj hstep
        exact h.finish rfl (by simp)
      rw [step_wrote hp (Nat.pos_of_ne_zero hz) (Nat.le_of_not_lt hlt)] at hstep
      obtain rfl := Option.some.inj hstep
      have hn : (rest'.take n).length = n := by
        rw [List.length_take]
        omega
      have hbytes : (if tracked then saturatingAdd p.bytes n else p.bytes) =
          counted tracked (p.writer.write (rest'.take n)).accepted.length := by
        rw [h.counter, counted_saturatingAdd, Writer.accepted_write, List.length_append, hn]
      refine ⟨⟨rest'.drop n, ?_, ?_, ?_⟩, hbytes, ?_, ?_⟩
      · rw [readBytes_concat_of_nil es rfl, Writer.accepted_write, List.append_assoc,
          List.take_append_drop, hcopied]
      all_goals
        dsimp only
        split_ifs with hnil <;> simp [hnil, eq_comm]
    | _ => simp [Pump.step, hp] at hstep
  | writeFailed =>
    cases hp : p.phase with
    | writing rest' =>
      simp only [Pump.step, hp] at hstep
      obtain rfl := Option.some.inj hstep
      exact h.finish rfl (by simp)
    | _ => simp [Pump.step, hp] at hstep
  | shutDown =>
    rw [Pump.step] at hstep
    split_ifs at hstep with hc
    obtain rfl := Option.some.inj hstep
    obtain rfl := hnone (.inr (.inl hc))
    obtain ⟨front, rfl⟩ := h.closing hc
    refine ⟨⟨[], ?_, by simp, by simp⟩, h.counter, by simp, fun _ ↦ ⟨front, by simp⟩⟩
    rw [readBytes_concat_of_nil _ rfl]
    exact hcopied
  | shutdownFailed =>
    rw [Pump.step] at hstep
    split_ifs at hstep
    obtain rfl := Option.some.inj hstep
    exact h.finish rfl (by simp)

/-- What holds of a pump wherever it waits, or has ended. -/
structure Copied (tracked : Bool) (es : List PumpEvent) (p : Pump) : Prop where
  /-- The writer has accepted a front of what was read. -/
  accepted : p.writer.accepted <+: readBytes es
  counter : p.bytes = counted tracked p.writer.accepted.length
  /-- The pump succeeds only at the end of input, with everything accepted and shut down. -/
  ok : p.phase = .ended .ok → p.writer.accepted = readBytes es ∧
    ∃ front, es = front ++ [.read [], .shutDown]

/-- **A faithful copy.** -/
theorem copied_run (h : Pump.run tracked start es = some p) : Copied tracked es p := by
  have hledger : Ledger tracked es p :=
    history_of_runFrom h (ledger_start tracked) fun _ _ _ _ h hstep ↦ h.step hstep
  obtain ⟨rest, hcopied, -, hnone⟩ := hledger.copied
  refine ⟨⟨rest, hcopied⟩, hledger.counter, fun hok ↦ ⟨?_, hledger.ok hok⟩⟩
  rw [← hcopied, hnone (.inr (.inr hok)), List.append_nil]

end Ledger

end Pump

/-! ## Two directions -/

/-- How a splice ends. -/
inductive SpliceEnd
  | ok
  /-- One direction fails; the text says which. -/
  | failed (context : Str) (result : PumpResult)
  | idleTimeout
  /-- The caller drops it. -/
  | dropped
deriving DecidableEq, Repr

/-- What happens to a splice, and the time since its start. -/
inductive SpliceEvent
  | upload (e : PumpEvent) (elapsed : ℕ)
  | download (e : PumpEvent) (elapsed : ℕ)
  | idle (elapsed : ℕ)
  | drop (elapsed : ℕ)
deriving DecidableEq, Repr

/-- The two pumps, and what was reported. -/
structure Splice where
  upload : Pump
  download : Pump
  outcome : Option SpliceEnd
  reported : List PassiveObs

/-- `Report::drop`. -/
def reportDrop (observer : Option IpAddr) (upload download elapsed : ℕ) : List PassiveObs :=
  match observer with
  | none => []
  | some addr =>
    let bytes := Pump.saturatingAdd upload download
    if bytes = 0 then [] else [⟨addr, bytes, max elapsed 1⟩]

/-- The error a pump has ended with. -/
def Pump.failure (p : Pump) : Option PumpResult :=
  match p.phase with
  | .ended .ok => none
  | .ended result => some result
  | _ => none

namespace Splice

def start : Splice := ⟨.start, .start, none, []⟩

/-- The splice ends, and its report is dropped. -/
def conclude (observer : Option IpAddr) (s : Splice) (outcome : SpliceEnd) (elapsed : ℕ) :
    Splice :=
  { s with
    outcome := some outcome
    reported := s.reported ++ reportDrop observer s.upload.bytes s.download.bytes elapsed }

/-- End of one direction still allows the other to finish; an error ends the splice. -/
def joined (s : Splice) : Option SpliceEnd :=
  match s.upload.failure, s.download.failure with
  | some result, _ => some (.failed "proxying data (c->u)".toList result)
  | none, some result => some (.failed "proxying data (u->c)".toList result)
  | none, none =>
    if s.upload.phase = .ended .ok ∧ s.download.phase = .ended .ok then some .ok else none

/-- After a step of a pump. -/
def settle (observer : Option IpAddr) (s : Splice) (elapsed : ℕ) : Splice :=
  match s.joined with
  | some outcome => s.conclude observer outcome elapsed
  | none => s

/-- One thing happens. A splice that has ended does nothing more; without an idle timeout it does not
time out. -/
def step (observer : Option IpAddr) (idle : ℕ) (s : Splice) (e : SpliceEvent) : Option Splice :=
  if s.outcome.isSome then none
  else
    match e with
    | .upload e elapsed =>
      (s.upload.step observer.isSome e).map fun p ↦ { s with upload := p }.settle observer elapsed
    | .download e elapsed =>
      (s.download.step observer.isSome e).map fun p ↦
        { s with download := p }.settle observer elapsed
    | .idle elapsed => if idle = 0 then none else some (s.conclude observer .idleTimeout elapsed)
    | .drop elapsed => some (s.conclude observer .dropped elapsed)

def run (observer : Option IpAddr) (idle : ℕ) (es : List SpliceEvent) : Option Splice :=
  runFrom (step observer idle) start es

/-- The calls of one direction. -/
def uploads (es : List SpliceEvent) : List PumpEvent :=
  es.filterMap fun
    | .upload e _ => some e
    | _ => none

def downloads (es : List SpliceEvent) : List PumpEvent :=
  es.filterMap fun
    | .download e _ => some e
    | _ => none

/-- Both directions have run on their own, and the report is made once. -/
structure Ledger (observer : Option IpAddr) (es : List SpliceEvent) (s : Splice) : Prop where
  upload : Pump.run observer.isSome .start (uploads es) = some s.upload
  download : Pump.run observer.isSome .start (downloads es) = some s.download
  waiting : s.outcome = none → s.reported = []
  ended : s.outcome ≠ none →
    ∃ elapsed, s.reported = reportDrop observer s.upload.bytes s.download.bytes elapsed
  ok : s.outcome = some .ok → s.upload.phase = .ended .ok ∧ s.download.phase = .ended .ok

section Ledger

variable {observer : Option IpAddr} {idle elapsed : ℕ} {s t : Splice} {e : SpliceEvent}
  {es : List SpliceEvent} {outcome : SpliceEnd}

theorem Ledger.conclude (h : Ledger observer es s) (hopen : s.outcome = none)
    (hok : outcome = .ok → s.upload.phase = .ended .ok ∧ s.download.phase = .ended .ok) :
    Ledger observer es (s.conclude observer outcome elapsed) where
  upload := h.upload
  download := h.download
  waiting hnone := absurd hnone (by simp [Splice.conclude])
  ended _ := ⟨elapsed, by rw [Splice.conclude, h.waiting hopen, List.nil_append]⟩
  ok hsome := hok (Option.some.inj hsome)

theorem ok_of_joined (h : s.joined = some .ok) :
    s.upload.phase = .ended .ok ∧ s.download.phase = .ended .ok := by
  rw [joined] at h
  split at h
  · simp at h
  · simp at h
  · split_ifs at h with hok
    exact hok

theorem Ledger.settle (h : Ledger observer es s) (hopen : s.outcome = none) :
    Ledger observer es (s.settle observer elapsed) := by
  rw [Splice.settle]
  cases hjoined : s.joined with
  | none => exact h
  | some outcome => exact h.conclude hopen fun hok ↦ ok_of_joined (hok ▸ hjoined)

theorem uploads_concat (hnone : uploads [e] = []) : uploads (es ++ [e]) = uploads es := by
  rw [uploads, List.filterMap_append]
  exact (congrArg _ hnone).trans (List.append_nil _)

theorem downloads_concat (hnone : downloads [e] = []) : downloads (es ++ [e]) = downloads es := by
  rw [downloads, List.filterMap_append]
  exact (congrArg _ hnone).trans (List.append_nil _)

/-- What is no call of a pump leaves both as they are. -/
theorem Ledger.stay (h : Ledger observer es s) (hup : uploads [e] = [])
    (hdown : downloads [e] = []) : Ledger observer (es ++ [e]) s where
  upload := by rw [uploads_concat hup, h.upload]
  download := by rw [downloads_concat hdown, h.download]
  waiting := h.waiting
  ended := h.ended
  ok := h.ok

theorem Ledger.step (h : Ledger observer es s) (hstep : s.step observer idle e = some t) :
    Ledger observer (es ++ [e]) t := by
  rw [Splice.step.eq_def] at hstep
  by_cases hended : s.outcome.isSome
  · rw [if_pos hended] at hstep
    exact absurd hstep (by simp)
  rw [if_neg hended] at hstep
  have hopen : s.outcome = none := by simpa using hended
  have hok : s.outcome ≠ some .ok := by simp [hopen]
  cases e with
  | upload e elapsed =>
    obtain ⟨p, hp, rfl⟩ := Option.map_eq_some_iff.mp hstep
    refine Ledger.settle ⟨?_, ?_, h.waiting, absurd hopen, fun hsome ↦ absurd hsome hok⟩ hopen
    · rw [uploads, List.filterMap_append]
      exact runFrom_concat h.upload hp
    · rw [downloads_concat rfl, h.download]
  | download e elapsed =>
    obtain ⟨p, hp, rfl⟩ := Option.map_eq_some_iff.mp hstep
    refine Ledger.settle ⟨?_, ?_, h.waiting, absurd hopen, fun hsome ↦ absurd hsome hok⟩ hopen
    · rw [uploads_concat rfl, h.upload]
    · rw [downloads, List.filterMap_append]
      exact runFrom_concat h.download hp
  | idle elapsed =>
    dsimp only at hstep
    split_ifs at hstep
    obtain rfl := Option.some.inj hstep
    exact (h.stay rfl rfl).conclude hopen (by simp)
  | drop elapsed =>
    obtain rfl := Option.some.inj hstep
    exact (h.stay rfl rfl).conclude hopen (by simp)

theorem ledger_run (h : run observer idle es = some s) : Ledger observer es s :=
  history_of_runFrom h ⟨rfl, rfl, fun _ ↦ rfl, absurd rfl, fun hsome ↦ by simp [start] at hsome⟩
    fun _ _ _ _ h hstep ↦ h.step hstep

end Ledger

/-- What is to be reported of so many bytes. -/
def transferred (observer : Option IpAddr) (bytes : ℕ) : List (IpAddr × ℕ) :=
  match observer with
  | none => []
  | some addr => if bytes = 0 then [] else [(addr, min bytes (2 ^ 64 - 1))]

/-- What holds of a splice at any moment. -/
structure Accounted (observer : Option IpAddr) (es : List SpliceEvent) (s : Splice) : Prop where
  upload : s.upload.Copied observer.isSome (uploads es)
  download : s.download.Copied observer.isSome (downloads es)
  once : s.reported.length ≤ 1
  waiting : s.outcome = none → s.reported = []
  ended : s.outcome ≠ none → (s.reported.map fun obs ↦ (obs.addr, obs.bytes)) =
    transferred observer (s.upload.writer.accepted.length + s.download.writer.accepted.length)
  ok : s.outcome = some .ok → s.upload.phase = .ended .ok ∧ s.download.phase = .ended .ok

section Accounted

variable {observer : Option IpAddr} {idle elapsed m n : ℕ} {es : List SpliceEvent} {s : Splice}

theorem reportDrop_counted : (reportDrop observer (Pump.counted observer.isSome m)
    (Pump.counted observer.isSome n) elapsed).map (fun obs ↦ (obs.addr, obs.bytes)) =
      transferred observer (m + n) := by
  cases observer with
  | none => rfl
  | some addr =>
    have hsum : Pump.saturatingAdd (Pump.counted true m) (Pump.counted true n) =
        min (m + n) (2 ^ 64 - 1) := by
      simp only [Pump.saturatingAdd, Pump.counted, if_true]
      omega
    simp only [reportDrop, transferred, Option.isSome_some, hsum]
    by_cases hzero : m + n = 0
    · simp [hzero]
    · rw [if_neg (by omega), if_neg hzero]
      rfl

theorem length_reportDrop_le (upload download : ℕ) :
    (reportDrop observer upload download elapsed).length ≤ 1 := by
  cases observer with
  | none => exact Nat.zero_le 1
  | some addr =>
    rw [reportDrop]
    split_ifs
    · exact Nat.zero_le 1
    · exact le_rfl

theorem accounted_run (h : run observer idle es = some s) : Accounted observer es s := by
  have hledger := ledger_run h
  have hup := Pump.copied_run hledger.upload
  have hdown := Pump.copied_run hledger.download
  refine ⟨hup, hdown, ?_, hledger.waiting, fun hended ↦ ?_, hledger.ok⟩
  · by_cases hopen : s.outcome = none
    · rw [hledger.waiting hopen]
      exact Nat.zero_le 1
    · obtain ⟨elapsed, hreported⟩ := hledger.ended hopen
      rw [hreported]
      exact length_reportDrop_le _ _
  · obtain ⟨elapsed, hreported⟩ := hledger.ended hended
    rw [hreported, hup.counter, hdown.counter, reportDrop_counted]

end Accounted

end Splice

/-- **Copying and accounting.** In every run a pump copies faithfully and counts what was accepted,
wherever it waits, fails or is dropped; and a splice makes one report of both directions, or none of
nothing, whichever way it ends. -/
theorem splice_accounts (observer : Option IpAddr) (idle : ℕ) :
    (∀ tracked es p, Pump.run tracked .start es = some p → p.Copied tracked es) ∧
      ∀ es s, Splice.run observer idle es = some s → s.Accounted observer es :=
  ⟨fun _ _ _ h ↦ Pump.copied_run h, fun _ _ h ↦ Splice.accounted_run h⟩

/-- Dropped in the middle of a chunk. -/
theorem splice_accounts_dropped : ∃ s,
    Splice.run (some (.v4 1)) 0
        [.upload (.read [1, 2, 3]) 1, .upload (.wrote 2) 2, .drop 5] = some s ∧
      s.Accounted (some (.v4 1)) [.upload (.read [1, 2, 3]) 1, .upload (.wrote 2) 2, .drop 5] ∧
      s.reported = [⟨.v4 1, 2, 5⟩] :=
  ⟨_, rfl, (splice_accounts (some (.v4 1)) 0).2 _ _ rfl, rfl⟩

end SniGate
