import SniGate.Bytes.Basic
import SniGate.Streams.Writer
import SniGate.Transition.Run

/-!
# Copying one direction of a connection

`pump` copies a reader to a writer chunk by chunk: it reads, writes the chunk in as many pieces as
the writer wants, and reads again; at end of input it shuts the writer down. Here it is a state
machine over what its awaited calls return, so that every chunking and every partial write is a run.

## Bytes that wait

Between two reads `pump` does not flush. A writer that buffers may therefore hold the last chunk
back while `pump` waits for input that depends on it. `pump_drained_iff` makes this exact: the
runs in which nothing accepted is ever waiting in the writer while `pump` waits for a read are those
that stop before their first chunk is written out, for then `pump` never waits for a second read.
-/

namespace SniGate

/-- The size of the copy buffer. -/
def copyBufSize : ℕ := 64 * 1024

/-- How `pump` ended. -/
inductive PumpResult
  | ok
  | readError
  | writeError
  | writeZero
  | shutdownError
deriving DecidableEq, Repr

/-- What `pump` is waiting for. -/
inductive PumpPhase
  /-- The next chunk. -/
  | reading
  /-- The writer, to take some of `rest`, the part of the chunk not yet sent. -/
  | writing (rest : Bytes)
  /-- The writer, to shut down. -/
  | closing
  | ended (result : PumpResult)
deriving DecidableEq, Repr

/-- What an awaited call returns. -/
inductive PumpEvent
  /-- A read of `chunk.length` bytes; none at end of input. -/
  | read (chunk : Bytes)
  | readFailed
  | wrote (n : ℕ)
  | writeFailed
  | shutDown
  | shutdownFailed
deriving DecidableEq, Repr

/-- A pump, its writer, and its byte counter. -/
structure Pump where
  phase : PumpPhase
  writer : Writer UInt8
  bytes : ℕ

namespace Pump

/-- Before the first read. -/
def start : Pump := ⟨.reading, .empty, 0⟩

/-- `u64::saturating_add`. -/
def saturatingAdd (a b : ℕ) : ℕ := min (a + b) (2 ^ 64 - 1)

/-- One awaited call returns. A call returns only what its contract allows: a read at most fills the
buffer, and a write takes at most what it was given. -/
def step (tracked : Bool) (p : Pump) : PumpEvent → Option Pump
  | .read chunk =>
    if p.phase = .reading ∧ chunk.length ≤ copyBufSize then
      some { p with phase := if chunk = [] then .closing else .writing chunk }
    else none
  | .readFailed =>
    if p.phase = .reading then some { p with phase := .ended .readError } else none
  | .wrote n =>
    match p.phase with
    | .writing rest =>
      if rest.length < n then none
      else if n = 0 then some { p with phase := .ended .writeZero }
      else
        some
          { phase := if rest.drop n = [] then .reading else .writing (rest.drop n)
            writer := p.writer.write (rest.take n)
            bytes := if tracked then saturatingAdd p.bytes n else p.bytes }
    | _ => none
  | .writeFailed =>
    match p.phase with
    | .writing _ => some { p with phase := .ended .writeError }
    | _ => none
  | .shutDown =>
    if p.phase = .closing then
      some { p with phase := .ended .ok, writer := p.writer.flush }
    else none
  | .shutdownFailed =>
    if p.phase = .closing then some { p with phase := .ended .shutdownError } else none

/-- The state after some calls have returned. -/
def run (tracked : Bool) (p : Pump) (es : List PumpEvent) : Option Pump :=
  runFrom (step tracked) p es

/-! ## Runs -/

section Runs

variable {tracked : Bool} {p q : Pump} {e : PumpEvent} {es fs : List PumpEvent}

theorem run_cons : run tracked p (e :: es) = some q ↔
    ∃ p', p.step tracked e = some p' ∧ run tracked p' es = some q := runFrom_cons_eq_some

/-- No read will follow. -/
def Finishing (p : Pump) : Prop := p.phase = .closing ∨ ∃ r, p.phase = .ended r

theorem Finishing.ne_reading (h : Finishing p) : p.phase ≠ .reading := by
  rcases h with h | ⟨r, h⟩ <;> rw [h] <;> simp

/-- What a call can do: begin a chunk, take a piece of one, or finish. -/
theorem step_cases (h : p.step tracked e = some q) :
    (∃ chunk, e = .read chunk ∧ p.phase = .reading ∧ chunk ≠ [] ∧ chunk.length ≤ copyBufSize ∧
      q = { p with phase := .writing chunk }) ∨
    (∃ rest n, e = .wrote n ∧ p.phase = .writing rest ∧ 0 < n ∧ n ≤ rest.length ∧
      q.phase = (if rest.drop n = [] then .reading else .writing (rest.drop n)) ∧
      q.writer = p.writer.write (rest.take n)) ∨
    Finishing q := by
  cases e with
  | read chunk =>
    rw [step] at h
    split_ifs at h with hc hnil
    · obtain rfl := Option.some.inj h
      exact .inr (.inr (.inl rfl))
    · exact .inl ⟨chunk, rfl, hc.1, hnil, hc.2, (Option.some.inj h).symm⟩
  | wrote n =>
    cases hp : p.phase with
    | writing rest =>
      simp only [step, hp] at h
      split_ifs at h with hlt hz hnil
      · obtain rfl := Option.some.inj h
        exact .inr (.inr (.inr ⟨_, rfl⟩))
      all_goals
        obtain rfl := Option.some.inj h
        refine .inr (.inl ⟨rest, n, rfl, rfl, Nat.pos_of_ne_zero hz, by omega, ?_, rfl⟩)
        simp [hnil]
    | _ => simp [step, hp] at h
  | readFailed =>
    rw [step] at h
    split_ifs at h
    obtain rfl := Option.some.inj h
    exact .inr (.inr (.inr ⟨_, rfl⟩))
  | writeFailed =>
    cases hp : p.phase with
    | writing rest =>
      simp only [step, hp] at h
      obtain rfl := Option.some.inj h
      exact .inr (.inr (.inr ⟨_, rfl⟩))
    | _ => simp [step, hp] at h
  | shutDown =>
    rw [step] at h
    split_ifs at h
    obtain rfl := Option.some.inj h
    exact .inr (.inr (.inr ⟨_, rfl⟩))
  | shutdownFailed =>
    rw [step] at h
    split_ifs at h
    obtain rfl := Option.some.inj h
    exact .inr (.inr (.inr ⟨_, rfl⟩))

theorem step_wrote {rest : Bytes} {n : ℕ} (hp : p.phase = .writing rest) (hn : 0 < n)
    (hle : n ≤ rest.length) :
    p.step tracked (.wrote n) = some
      { phase := if rest.drop n = [] then .reading else .writing (rest.drop n)
        writer := p.writer.write (rest.take n)
        bytes := if tracked then saturatingAdd p.bytes n else p.bytes } := by
  simp only [step, hp]
  rw [if_neg (by omega), if_neg (by omega)]

theorem Finishing.step (hf : Finishing p) (h : p.step tracked e = some q) : Finishing q := by
  rcases step_cases h with ⟨chunk, -, hp, -⟩ | ⟨rest, n, -, hp, -⟩ | hq
  · exact absurd hp hf.ne_reading
  · rcases hf with hf | ⟨r, hf⟩ <;> rw [hf] at hp <;> simp at hp
  · exact hq

theorem Finishing.run (hf : Finishing p) (h : run tracked p es = some q) : Finishing q :=
  invariant_of_runFrom h hf fun _ _ _ hf h ↦ hf.step h

/-! ## Chunks -/

/-- Positive writes that add up to what is left of the chunk take the pump back to reading, with
all of it accepted and nothing more delivered. -/
theorem run_writes (tracked : Bool) {rest : Bytes} {ns : List ℕ} (hp : p.phase = .writing rest)
    (hrest : rest ≠ [])
    (hpos : ∀ n ∈ ns, 0 < n) (hsum : ns.sum = rest.length) :
    ∃ q, Pump.run tracked p (ns.map .wrote) = some q ∧ q.phase = .reading ∧
      q.writer.accepted = p.writer.accepted ++ rest ∧
      q.writer.delivered = p.writer.delivered := by
  induction ns generalizing p rest with
  | nil =>
    rw [List.sum_nil] at hsum
    exact absurd (List.length_eq_zero_iff.mp hsum.symm) hrest
  | cons n ns ih =>
    rw [List.sum_cons] at hsum
    have hn := hpos n List.mem_cons_self
    have hns : ∀ m ∈ ns, 0 < m := fun m hm ↦ hpos m (List.mem_cons_of_mem _ hm)
    have hdrop : (rest.drop n).length = ns.sum := by
      rw [List.length_drop]
      omega
    obtain ⟨p', hp', hphase, hwriter⟩ : ∃ p', p.step tracked (.wrote n) = some p' ∧
        p'.phase = (if rest.drop n = [] then .reading else .writing (rest.drop n)) ∧
        p'.writer = p.writer.write (rest.take n) :=
      ⟨_, step_wrote hp hn (by omega), rfl, rfl⟩
    by_cases hnil : rest.drop n = []
    · -- the chunk is written out, and no write is left
      have hempty : ns = [] := by
        rw [hnil, List.length_nil] at hdrop
        cases ns with
        | nil => rfl
        | cons m ms =>
          rw [List.sum_cons] at hdrop
          exact absurd (hns m List.mem_cons_self) (by omega)
      subst hempty
      rw [if_pos hnil] at hphase
      refine ⟨p', run_cons.mpr ⟨p', hp', rfl⟩, hphase, ?_, ?_⟩
      · rw [hwriter, Writer.accepted_write, List.take_of_length_le (List.drop_eq_nil_iff.mp hnil)]
      · rw [hwriter, Writer.delivered_write]
    · rw [if_neg hnil] at hphase
      obtain ⟨q, hrun, hq, hacc, hdel⟩ := ih hphase hnil hns hdrop.symm
      refine ⟨q, run_cons.mpr ⟨p', hp', hrun⟩, hq, ?_, ?_⟩
      · rw [hacc, hwriter, Writer.accepted_write, List.append_assoc, List.take_append_drop]
      · rw [hdel, hwriter, Writer.delivered_write]

/-- The only way from inside a chunk back to reading is to write the chunk out. -/
theorem writes_of_run {rest : Bytes} (hp : p.phase = .writing rest)
    (h : Pump.run tracked p es = some q) (hq : q.phase = .reading) :
    ∃ (ns : List ℕ) (fs : List PumpEvent),
      es = ns.map .wrote ++ fs ∧ (∀ n ∈ ns, 0 < n) ∧ ns.sum = rest.length := by
  induction es generalizing p rest with
  | nil =>
    obtain rfl := Option.some.inj h
    rw [hp] at hq
    simp at hq
  | cons e es ih =>
    obtain ⟨p', hp', hrun⟩ := run_cons.mp h
    rcases step_cases hp' with
      ⟨chunk, -, hread, -⟩ | ⟨rest', n, rfl, hwrite, hn, hle, hphase, -⟩ | hf
    · rw [hp] at hread
      simp at hread
    · obtain rfl : rest = rest' := by
        rw [hp] at hwrite
        exact PumpPhase.writing.inj hwrite
      by_cases hnil : rest.drop n = []
      · refine ⟨[n], es, rfl, by simpa using hn, ?_⟩
        have := List.drop_eq_nil_iff.mp hnil
        rw [List.sum_singleton]
        omega
      · rw [if_neg hnil] at hphase
        obtain ⟨ns, fs, rfl, hpos, hsum⟩ := ih hphase hrun
        refine ⟨n :: ns, fs, rfl, ?_, ?_⟩
        · exact List.forall_mem_cons.mpr ⟨hn, hpos⟩
        · rw [List.sum_cons, hsum, List.length_drop]
          omega
    · exact absurd hq (hf.run hrun).ne_reading

/-- The run begins with a chunk that is then written out. -/
def WritesOutChunk (es : List PumpEvent) : Prop :=
  ∃ (chunk : Bytes) (ns : List ℕ) (fs : List PumpEvent), es = .read chunk :: (ns.map .wrote ++ fs) ∧
    chunk ≠ [] ∧ chunk.length ≤ copyBufSize ∧ (∀ n ∈ ns, 0 < n) ∧ ns.sum = chunk.length

/-- Whenever the pump waits for a read, its writer has delivered everything it accepted. -/
def DrainedAtReads (tracked : Bool) (es : List PumpEvent) : Prop :=
  ∀ front p, front <+: es → Pump.run tracked start front = some p → p.phase = .reading →
    p.writer.Drained

/-- **When no byte is stranded.** A run keeps its writer drained at every read exactly when it does
not write out its first chunk. -/
theorem drainedAtReads_iff (tracked : Bool) (es : List PumpEvent) :
    DrainedAtReads tracked es ↔ ¬ WritesOutChunk es := by
  constructor
  · rintro h ⟨chunk, ns, fs, rfl, hne, hlen, hpos, hsum⟩
    have hstep :
        start.step tracked (.read chunk) = some { start with phase := .writing chunk } := by
      rw [step, if_pos ⟨rfl, hlen⟩, if_neg hne]
    obtain ⟨q, hrun, hq, hacc, hdel⟩ :=
      run_writes tracked (p := { start with phase := .writing chunk }) rfl hne hpos hsum
    have hdrained := h (.read chunk :: ns.map .wrote) q
      ⟨fs, by rw [List.cons_append]⟩ (run_cons.mpr ⟨_, hstep, hrun⟩) hq
    rw [Writer.Drained, hdel, hacc] at hdrained
    exact hne (List.length_eq_zero_iff.mp hdrained.symm)
  · intro h front p hfront hrun hp
    cases front with
    | nil =>
      obtain rfl := Option.some.inj hrun
      exact Writer.drained_empty
    | cons e front =>
      obtain ⟨p', hp', hrest⟩ := run_cons.mp hrun
      rcases step_cases hp' with ⟨chunk, rfl, -, hne, hlen, rfl⟩ | ⟨rest, n, -, hwrite, -⟩ | hf
      · obtain ⟨ns, fs, rfl, hpos, hsum⟩ := writes_of_run rfl hrest hp
        obtain ⟨gs, rfl⟩ := hfront
        exact absurd ⟨chunk, ns, fs ++ gs, by simp, hne, hlen, hpos, hsum⟩ h
      · simp [start] at hwrite
      · exact absurd hp (hf.run hrest).ne_reading

/-- After one chunk the pump waits for the next with the chunk undelivered. -/
theorem not_drainedAtReads :
    ¬ ∀ (tracked : Bool) (es : List PumpEvent), DrainedAtReads tracked es := by
  intro h
  have hdrained := h true [.read [0x68, 0x69], .wrote 2] _ _ (List.prefix_refl _) rfl (by decide)
  exact absurd hdrained (by decide)

end Runs

end Pump

end SniGate
