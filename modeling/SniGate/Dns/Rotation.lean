import SniGate.Dns.Resolver

/-!
# Retries after a rotation

A retry is meant to run on another object than the one that was rejected, unless that one could not
be rebuilt. The generation a query names when it asks for a rebuild tells whether its object has
been replaced already, provided the object is not newer than the generation. A query reads the
generation first and clones the object afterwards, and a replacement writes the object first and
increments the generation afterwards; when the write falls between the two reads, or the reads
between the write and the increment, the object is newer, its rejection is taken for an old one, and
the retry runs on it again (`not_retriesElsewhere`). Where no clone comes after such a write,
retries run elsewhere (`retriesElsewhere_of_reach`).

`written` counts the objects that were made live. It runs ahead of the generation while a
replacement is between its write and its increment.
-/

namespace SniGate

namespace DnsResolver

/-- The generations for which the live object was replaced, in order. -/
def swaps (log : List ResolverEffect) : List ℕ :=
  log.filterMap fun
    | .swapped seen => some seen
    | _ => none

/-- Every retry runs on another object than the attempt it follows, or the rebuild failed to build;
and no generation is the reason of two replacements. -/
def RetriesElsewhere (s : DnsResolver) : Prop :=
  (∀ r resolver, .ran (some r) resolver ∈ s.log → resolver ≠ r.resolver ∨ r.buildFailed) ∧
    (swaps s.log).Nodup

/-- How often the live object has been replaced. -/
def written (s : DnsResolver) : ℕ :=
  s.generation + if (s.rebuilding.map fun r ↦ r.stage.wrote).getD false then 1 else 0

/-- An object is cloned only if none has been made live since the generation was read, and none was
made live before whose generation was still to come. -/
def SnapshotCurrent (s : DnsResolver) : ResolverEvent → Prop
  | .snapshot id =>
    match s.tasks.lookup id with
    | some (.seen _ _ generation) => s.written = generation
    | _ => True
  | _ => True

instance {s : DnsResolver} : DecidablePred s.SnapshotCurrent := fun e ↦
  match e with
  | .snapshot id =>
    match h : s.tasks.lookup id with
    | some (.seen _ _ generation) =>
      decidable_of_iff (s.written = generation) (by simp [SnapshotCurrent, h])
    | some (.head ..) | some (.running ..) | some (.waiting _) | some .rebuilding | none =>
      isTrue (by simp [SnapshotCurrent, h])
  | .query _ | .readGeneration _ | .answered .. | .tick _ | .lock _ | .built _ | .writeInner
  | .writeBytes | .increment | .drop _ => isTrue trivial

/-! ## The invariant -/

/-- An object that was live when `seen` of them had been replaced, now that `written` of them have
and `inner` is live. -/
structure Current (written inner seen resolver : ℕ) : Prop where
  seen_le : seen ≤ written
  resolver_le : resolver ≤ inner
  lt : seen < written → resolver < inner

/-- A rejection after which a retry runs elsewhere. -/
def Settled (inner : ℕ) (r : Rejection) : Prop := r.resolver < inner ∨ r.buildFailed

/-- What a task knows. -/
def TaskOk (written inner : ℕ) : ResolverTask → Prop
  | .head _ previous => ∀ r, previous = some r → Settled inner r
  | .seen _ previous _ => ∀ r, previous = some r → Settled inner r
  | .running _ seen resolver => Current written inner seen resolver
  | .waiting request => ∀ attempt resolver, request.caller = .query attempt resolver →
    Current written inner request.seen resolver
  | .rebuilding => True

/-- What a rebuild knows. -/
structure RebuildOk (inner generation nextResolver : ℕ) (r : Rebuild) : Prop where
  seen : r.request.seen = generation
  rejected : ∀ attempt resolver, r.request.caller = .query attempt resolver →
    resolver ≤ inner ∧ (r.stage.wrote → resolver < inner)
  built : ∀ resolver echBytes, r.stage = .built resolver echBytes →
    inner < resolver ∧ resolver < nextResolver

/-- The invariant. -/
structure Inv (s : DnsResolver) : Prop where
  inner_lt : s.inner < s.nextResolver
  task : ∀ id t, s.tasks.lookup id = some t → TaskOk s.written s.inner t
  rebuild : ∀ r, s.rebuilding = some r → RebuildOk s.inner s.generation s.nextResolver r
  swapped : ∀ g ∈ swaps s.log, g < s.written
  elsewhere : s.RetriesElsewhere

section Invariant

variable {s s' : DnsResolver} {id seen resolver written written' inner inner' : ℕ}
  {t : ResolverTask} {r : Rebuild} {plan : Option ResolverPlan} {e : ResolverEvent}

theorem TaskOk.write (h : TaskOk written inner t) (hinner : inner < inner') :
    TaskOk (written + 1) inner' t := by
  have hcurrent : ∀ {seen resolver}, Current written inner seen resolver →
      Current (written + 1) inner' seen resolver := fun hc ↦
    ⟨hc.seen_le.trans written.le_succ, hc.resolver_le.trans hinner.le,
      fun _ ↦ hc.resolver_le.trans_lt hinner⟩
  have hsettled : ∀ {r}, Settled inner r → Settled inner' r := fun hr ↦
    hr.imp_left fun hlt ↦ hlt.trans hinner
  cases t with
  | head attempt previous => exact fun r hr ↦ hsettled (h r hr)
  | seen attempt previous generation => exact fun r hr ↦ hsettled (h r hr)
  | running attempt seen resolver => exact hcurrent h
  | waiting request => exact fun attempt resolver hcaller ↦ hcurrent (h attempt resolver hcaller)
  | rebuilding => trivial

theorem Inv.put (h : Inv s) (ht : TaskOk s.written s.inner t) : Inv (s.put id t) := by
  refine ⟨h.inner_lt, fun id' t' ht' ↦ ?_, h.rebuild, h.swapped, h.elsewhere⟩
  by_cases hid : id' = id
  · subst hid
    obtain rfl := Option.some.inj ((AList.lookup_insert s.tasks).symm.trans ht')
    exact ht
  · exact h.task id' t' ((AList.lookup_insert_ne hid).symm.trans ht')

theorem Inv.remove (h : Inv s) : Inv (s.remove id) := by
  refine ⟨h.inner_lt, fun id' t' ht' ↦ ?_, h.rebuild, h.swapped, h.elsewhere⟩
  by_cases hid : id' = id
  · subst hid
    exact absurd ((AList.lookup_erase id' s.tasks).symm.trans ht') (by simp)
  · exact h.task id' t' ((AList.lookup_erase_ne hid).symm.trans ht')

theorem Inv.returned {caller : Caller} {buildFailed : Bool} (h : Inv s)
    (hcaller : ∀ attempt resolver, caller = .query attempt resolver →
      Settled s.inner ⟨resolver, buildFailed⟩) : Inv (s.returned id buildFailed caller) := by
  cases caller with
  | query attempt resolver =>
    refine h.put fun r hr ↦ ?_
    obtain rfl := Option.some.inj hr
    exact hcaller attempt resolver rfl
  | refresher => exact h.remove

theorem written_of_not_wrote (h : ∀ r, s.rebuilding = some r → r.stage.wrote = false) :
    s.written = s.generation := by
  rw [DnsResolver.written]
  cases hr : s.rebuilding with
  | none => rfl
  | some r => simp [h r hr]

theorem written_of_wrote (hr : s.rebuilding = some r) (h : r.stage.wrote) :
    s.written = s.generation + 1 := by
  simp [DnsResolver.written, hr, h]

/-- The lock changes hands, or the rebuild that holds it goes on, and nothing is written. -/
theorem Inv.setRebuilding (h : Inv s) (hinner : s'.inner = s.inner)
    (hnext : s.nextResolver ≤ s'.nextResolver) (hwritten : s'.written = s.written)
    (htasks : s'.tasks = s.tasks) (hlog : s'.log = s.log)
    (hrebuild : ∀ r, s'.rebuilding = some r → RebuildOk s.inner s'.generation s'.nextResolver r) :
    Inv s' where
  inner_lt := hinner ▸ h.inner_lt.trans_le hnext
  task := by
    rw [htasks, hwritten, hinner]
    exact h.task
  rebuild := by
    rw [hinner]
    exact hrebuild
  swapped := by
    rw [hlog, hwritten]
    exact h.swapped
  elsewhere := by
    rw [RetriesElsewhere, hlog]
    exact h.elsewhere

/-- **The lock is taken.** Either the object a query was rejected on is gone, or its rebuild
begins. -/
theorem Inv.enterRebuild {request : RebuildRequest} (h : Inv s) (hfree : s.rebuilding = none)
    (ht : TaskOk s.written s.inner (.waiting request)) : Inv (s.enterRebuild id request) := by
  have hwritten : s.written = s.generation := written_of_not_wrote fun r hr ↦ by simp [hfree] at hr
  rw [DnsResolver.enterRebuild]
  split_ifs with hmoved
  · refine h.returned fun attempt resolver hcaller ↦ .inl ?_
    have hcurrent := ht attempt resolver hcaller
    exact hcurrent.lt (lt_of_le_of_ne hcurrent.seen_le (hwritten ▸ Ne.symm hmoved))
  · have hput : Inv (s.put id .rebuilding) := h.put trivial
    refine hput.setRebuilding rfl le_rfl ?_ rfl rfl ?_
    · refine (written_of_not_wrote fun r hr ↦ ?_).trans hwritten.symm
      exact Option.some.inj hr ▸ rfl
    · intro r hr
      obtain rfl := Option.some.inj hr
      refine ⟨(not_not.mp hmoved).symm, fun attempt resolver hcaller ↦ ⟨?_, ?_⟩, ?_⟩
      · exact (ht attempt resolver hcaller).resolver_le
      · exact fun hwrote ↦ absurd hwrote (by simp [RebuildStage.wrote])
      · exact fun _ _ hstage ↦ absurd hstage (by simp)

/-- **The build ends.** What is built is newer than the live object. -/
theorem Inv.leaveBuild {request : RebuildRequest} {outcome : Option (Option Bytes)} (h : Inv s)
    (hr : s.rebuilding = some ⟨id, request, .building⟩) :
    Inv (s.leaveBuild ⟨id, request, .building⟩ outcome) := by
  obtain ⟨hseen, hrejected, -⟩ := h.rebuild _ hr
  have hwritten : s.written = s.generation :=
    written_of_not_wrote fun r hr' ↦ Option.some.inj (hr.symm.trans hr') ▸ rfl
  -- without the lock nothing else changes
  have hfree : ∀ nextResolver, s.nextResolver ≤ nextResolver →
      Inv { s with rebuilding := none, nextResolver } := fun nextResolver hnext ↦
    h.setRebuilding rfl hnext
      ((written_of_not_wrote fun r hr ↦ absurd hr (by simp)).trans hwritten.symm) rfl rfl
      fun r hr ↦ absurd hr (by simp)
  cases outcome with
  | none => exact (hfree s.nextResolver le_rfl).returned fun _ _ _ ↦ .inr rfl
  | some echBytes =>
    rw [DnsResolver.leaveBuild]
    dsimp only
    split_ifs with hsame
    · refine (hfree _ (Nat.le_succ _)).returned fun attempt resolver hcaller ↦ ?_
      exact absurd hsame.1 (by simp [hcaller, Caller.cause])
    · refine h.setRebuilding rfl (Nat.le_succ _) ?_ rfl rfl fun r hr' ↦ ?_
      · refine (written_of_not_wrote fun r hr' ↦ ?_).trans hwritten.symm
        exact Option.some.inj hr' ▸ rfl
      · obtain rfl := Option.some.inj hr'
        refine ⟨hseen, fun attempt resolver hcaller ↦ ⟨?_, ?_⟩, ?_⟩
        · exact (hrejected attempt resolver hcaller).1
        · exact fun hwrote ↦ absurd hwrote (by simp [RebuildStage.wrote])
        · rintro resolver bytes hstage
          obtain ⟨rfl, -⟩ := RebuildStage.built.inj hstage
          exact ⟨h.inner_lt, Nat.lt_succ_self _⟩

theorem swaps_append {log effects : List ResolverEffect} :
    swaps (log ++ effects) = swaps log ++ swaps effects :=
  List.filterMap_append

/-- **The new object is made live**, for a generation for which none was before. -/
theorem inv_writeInner {request : RebuildRequest} {echBytes : Option Bytes} (h : Inv s)
    (hr : s.rebuilding = some ⟨id, request, .built resolver echBytes⟩) :
    Inv { s with
      inner := resolver
      rebuilding := some ⟨id, request, .wroteInner echBytes⟩
      log := s.log ++ [.swapped request.seen] } := by
  obtain ⟨hseen, hrejected, hbuilt⟩ := h.rebuild _ hr
  obtain ⟨hnewer, hlt⟩ := hbuilt resolver echBytes rfl
  have hwritten : s.written = s.generation :=
    written_of_not_wrote fun r hr' ↦ Option.some.inj (hr.symm.trans hr') ▸ rfl
  have hwritten' : written { s with
      inner := resolver
      rebuilding := some ⟨id, request, .wroteInner echBytes⟩
      log := s.log ++ [.swapped request.seen] } = s.written + 1 :=
    (written_of_wrote rfl rfl).trans (congrArg (· + 1) hwritten.symm)
  constructor
  · exact hlt
  · rw [hwritten']
    exact fun id t ht ↦ (h.task id t ht).write hnewer
  · intro r hr'
    obtain rfl := Option.some.inj hr'
    refine ⟨hseen, fun attempt resolver' hcaller ↦ ?_, fun _ _ hstage ↦ absurd hstage (by simp)⟩
    have hold := (hrejected attempt resolver' hcaller).1.trans_lt hnewer
    exact ⟨hold.le, fun _ ↦ hold⟩
  · rw [hwritten']
    intro g hg
    rcases List.mem_append.mp (swaps_append ▸ hg) with hg | hg
    · exact (h.swapped g hg).trans s.written.lt_succ_self
    · rw [List.mem_singleton.mp hg, hseen, hwritten]
      exact Nat.lt_succ_self _
  · refine ⟨fun r o hin ↦ h.elsewhere.1 r o (by simpa using hin), ?_⟩
    rw [swaps_append]
    refine List.nodup_append.mpr ⟨h.elsewhere.2, List.nodup_singleton _, ?_⟩
    rintro g hg g' hg' rfl
    have hlt := h.swapped g hg
    rw [List.mem_singleton.mp hg', hwritten] at hlt
    exact hlt.ne hseen

theorem inv_writeBytes {request : RebuildRequest} {echBytes : Option Bytes} (h : Inv s)
    (hr : s.rebuilding = some ⟨id, request, .wroteInner echBytes⟩) :
    Inv { s with echBytes, rebuilding := some ⟨id, request, .wroteBytes⟩ } := by
  obtain ⟨hseen, hrejected, -⟩ := h.rebuild _ hr
  refine h.setRebuilding rfl le_rfl ?_ rfl rfl fun r hr' ↦ ?_
  · exact (written_of_wrote rfl rfl).trans (written_of_wrote hr rfl).symm
  · obtain rfl := Option.some.inj hr'
    exact ⟨hseen, hrejected, fun _ _ hstage ↦ absurd hstage (by simp)⟩

theorem inv_increment {request : RebuildRequest} (h : Inv s)
    (hr : s.rebuilding = some ⟨id, request, .wroteBytes⟩) :
    Inv ({ s with generation := s.generation + 1, rebuilding := none }.returned id false
      request.caller) := by
  obtain ⟨-, hrejected, -⟩ := h.rebuild _ hr
  have hreleased : Inv { s with generation := s.generation + 1, rebuilding := none } :=
    h.setRebuilding rfl le_rfl (written_of_wrote hr rfl).symm rfl rfl
      fun r hr' ↦ absurd hr' (by simp)
  exact hreleased.returned fun attempt resolver hcaller ↦
    .inl ((hrejected attempt resolver hcaller).2 rfl)

/-- **An attempt begins** on the live object, when it is as old as the generation read. -/
theorem inv_snapshot {attempt generation : ℕ} {previous : Option Rejection} (h : Inv s)
    (ht : s.tasks.lookup id = some (.seen attempt previous generation))
    (hcurrent : s.written = generation) :
    Inv { s.put id (.running attempt generation s.inner) with
      log := s.log ++ [.ran previous s.inner] } := by
  have hput : Inv (s.put id (.running attempt generation s.inner)) :=
    h.put ⟨hcurrent.ge, le_rfl, fun hlt ↦ absurd hlt hcurrent.le.not_gt⟩
  refine ⟨hput.inner_lt, hput.task, hput.rebuild, fun g hg ↦ ?_, fun r o hin ↦ ?_, ?_⟩
  · exact h.swapped g (by simpa [swaps_append, swaps] using hg)
  · rcases List.mem_append.mp hin with hin | hin
    · exact h.elsewhere.1 r o hin
    · obtain ⟨hprevious, rfl⟩ := ResolverEffect.ran.inj (List.mem_singleton.mp hin)
      exact (h.task id _ ht r hprevious.symm).imp_left fun hlt ↦ hlt.ne'
  · rw [swaps_append]
    exact (List.append_nil (swaps s.log)).symm ▸ h.elsewhere.2

theorem inv_drop (h : Inv s) (hstep : s.step plan (.drop id) = some s') : Inv s' := by
  rw [step] at hstep
  split at hstep
  · rename_i task request htask hr
    split_ifs at hstep
    obtain rfl := Option.some.inj hstep
    have hwritten : s.written = s.generation :=
      written_of_not_wrote fun r hr' ↦ Option.some.inj (hr.symm.trans hr') ▸ rfl
    have hremoved : Inv (s.remove id) := h.remove
    refine hremoved.setRebuilding rfl le_rfl ?_ rfl rfl fun r hr' ↦ absurd hr' (by simp)
    exact (written_of_not_wrote fun r hr ↦ absurd hr (by simp)).trans hwritten.symm
  · exact absurd hstep (by simp)
  · obtain rfl := Option.some.inj hstep
    exact h.remove
  · exact absurd hstep (by simp)

theorem inv_step (h : Inv s) (hcurrent : s.SnapshotCurrent e)
    (hstep : s.step plan e = some s') : Inv s' := by
  cases e with
  | query id =>
    rw [step] at hstep
    split_ifs at hstep
    exact Option.some.inj hstep ▸ h.put fun r hr ↦ absurd hr (by simp)
  | readGeneration id =>
    rw [step] at hstep
    split at hstep
    · rename_i attempt previous ht
      exact Option.some.inj hstep ▸ h.put fun r hr ↦ h.task id _ ht r hr
    · exact absurd hstep (by simp)
  | snapshot id =>
    rw [step] at hstep
    split at hstep
    · rename_i attempt previous generation ht
      simp only [SnapshotCurrent, ht] at hcurrent
      exact Option.some.inj hstep ▸ inv_snapshot h ht hcurrent
    · exact absurd hstep (by simp)
  | answered id rejected =>
    rw [step] at hstep
    split at hstep
    · rename_i attempt seen resolver ht
      split_ifs at hstep
      · refine Option.some.inj hstep ▸ h.put fun attempt' resolver' hcaller ↦ ?_
        obtain ⟨-, rfl⟩ := Caller.query.inj hcaller
        exact h.task id _ ht
      · exact Option.some.inj hstep ▸ h.remove
    · exact absurd hstep (by simp)
  | tick id =>
    rw [step] at hstep
    split_ifs at hstep
    · exact Option.some.inj hstep ▸ h
    · refine Option.some.inj hstep ▸ h.put fun attempt resolver hcaller ↦ absurd hcaller (by simp)
  | lock id =>
    rw [step] at hstep
    split at hstep
    · rename_i request ht hfree
      exact Option.some.inj hstep ▸ h.enterRebuild hfree (h.task id _ ht)
    · exact absurd hstep (by simp)
  | built outcome =>
    rw [step] at hstep
    split at hstep
    · rename_i task request hr
      exact Option.some.inj hstep ▸ h.leaveBuild hr
    · exact absurd hstep (by simp)
  | writeInner =>
    rw [step] at hstep
    split at hstep
    · rename_i task request resolver echBytes hr
      exact Option.some.inj hstep ▸ inv_writeInner h hr
    · exact absurd hstep (by simp)
  | writeBytes =>
    rw [step] at hstep
    split at hstep
    · rename_i task request echBytes hr
      exact Option.some.inj hstep ▸ inv_writeBytes h hr
    · exact absurd hstep (by simp)
  | increment =>
    rw [step] at hstep
    split at hstep
    · rename_i task request hr
      exact Option.some.inj hstep ▸ inv_increment h hr
    · exact absurd hstep (by simp)
  | drop id => exact inv_drop h hstep

theorem inv_start {echBytes : Option Bytes} : Inv (start echBytes) := by
  refine ⟨Nat.zero_lt_one, ?_, ?_, ?_, ?_, ?_⟩ <;> simp [start, swaps]

end Invariant

/-! ## Runs -/

/-- **Retries run elsewhere**, and no generation is the reason of two replacements, in every run in
which no object is cloned that was made live after the generation its query has read. -/
theorem retriesElsewhere_of_reach {plan : Option ResolverPlan} {echBytes : Option Bytes}
    {s : DnsResolver}
    (h : Reach (fun s e ↦ s.step plan e) SnapshotCurrent (start echBytes) s) :
    s.RetriesElsewhere :=
  (h.invariant inv_start fun _ _ _ hinv hok hnext ↦ inv_step hinv hok hnext).elsewhere

/-- A plan that allows one retry. -/
def oneRetry : ResolverPlan := ⟨some ⟨1⟩⟩

/-- A query is rejected, rebuilds, and is tried again. -/
def rejectedQuery : List ResolverEvent :=
  [.query 0, .readGeneration 0, .snapshot 0, .answered 0 true, .lock 0, .built (some (some [1])),
    .writeInner, .writeBytes, .increment, .readGeneration 0, .snapshot 0]

/-- The timer replaces the object between the two reads of a query, which is then rejected. -/
def rotationBetweenReads : List ResolverEvent :=
  [.query 0, .readGeneration 0, .tick 1, .lock 1, .built (some (some [1])), .writeInner,
    .writeBytes, .increment, .snapshot 0, .answered 0 true, .lock 0, .readGeneration 0,
    .snapshot 0]

theorem retriesElsewhere_rejectedQuery :
    ∃ s, runFrom (guarded (fun s e ↦ s.step (some oneRetry) e) SnapshotCurrent) (start none)
        rejectedQuery = some s ∧
      s.log = [.ran none 0, .swapped 0, .ran (some ⟨0, false⟩) 1] ∧ s.RetriesElsewhere := by
  have hrun : ((runFrom (guarded (fun s e ↦ s.step (some oneRetry) e) SnapshotCurrent)
      (start none) rejectedQuery).map log) =
      some [.ran none 0, .swapped 0, .ran (some ⟨0, false⟩) 1] := by decide +kernel
  obtain ⟨s, hs, hlog⟩ := Option.map_eq_some_iff.mp hrun
  exact ⟨s, hs, hlog, retriesElsewhere_of_reach (reach_of_runFrom_guarded hs .start)⟩

/-- **A retry on the object that was rejected.** -/
theorem not_retriesElsewhere : ¬∀ (plan : Option ResolverPlan) (echBytes : Option Bytes)
    (s : DnsResolver), Reach (fun s e ↦ s.step plan e) (fun _ _ ↦ True) (start echBytes) s →
      s.RetriesElsewhere := by
  intro h
  have hrun : ((runFrom (fun s e ↦ s.step (some oneRetry) e) (start none)
      rotationBetweenReads).map log) =
      some [.swapped 0, .ran none 1, .ran (some ⟨1, false⟩) 1] := by decide +kernel
  obtain ⟨s, hs, hlog⟩ := Option.map_eq_some_iff.mp hrun
  have hretry := (h (some oneRetry) none s (reach_of_runFrom hs .start)).1 ⟨1, false⟩ 1 (by
    rw [hlog]
    decide)
  exact hretry.elim (fun hne ↦ hne rfl) (by decide)

end DnsResolver

end SniGate
