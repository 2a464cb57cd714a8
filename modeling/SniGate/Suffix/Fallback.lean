import SniGate.Suffix.Lifecycle

/-!
# When there is no file, or no network

The gateway is to come up on the compiled list when the file can neither be found nor downloaded
(`startup_iff`). It then stays on that list: no task downloads a file that is missing, since the age
of a missing file cannot be checked (`missing_stays`).
-/

namespace SniGate

namespace PslConfig

/-! ## A file that is missing -/

section Missing

variable {parser : PslParser} {cfg : PslConfig} {trusted : Bytes → Prop} {s s' : PslState}
  {w : PslWorld} {task : PslTask} {active : Option SuffixList}

/-- The file is missing, and this list is in force. -/
def Missing (cfg : PslConfig) (active : Option SuffixList) (w : PslWorld) : Prop :=
  w.files cfg.path = none ∧ w.active = active

/-- To leave it so. -/
def LeavesMissing (cfg : PslConfig) (active : Option SuffixList) (w w' : PslWorld) : Prop :=
  Missing cfg active w → Missing cfg active w'

theorem stable_missing : Stable (Abreast.rely (LeavesMissing cfg active)
    (fun _ : PslTask ↦ LeavesMissing cfg active) task) (Missing cfg active) := by
  rintro w w' hw (hout | ⟨other, -, hmay⟩)
  · exact hout hw
  · exact hmay hw

theorem secured_pass_missing (hne : task ≠ .startup) (hs : Missing cfg active w) :
    Secured PslOp.Effect (Abreast.rely (LeavesMissing cfg active)
        (fun _ : PslTask ↦ LeavesMissing cfg active) task) (LeavesMissing cfg active)
      (fun _ _ ↦ True) (pass parser cfg task) w := by
  have hreload : Secured PslOp.Effect (Abreast.rely (LeavesMissing cfg active)
        (fun _ : PslTask ↦ LeavesMissing cfg active) task) (LeavesMissing cfg active)
      (fun _ _ ↦ True) (reloadPass parser cfg) w := by
    refine secured_query_bind stable_missing hs fun answer t t' ht heffect ↦ ?_
    obtain ⟨rfl, hread⟩ := heffect
    refine ⟨id, ?_⟩
    cases answer with
    | error e => exact fun _ _ ↦ trivial
    | ok bytes =>
      have hsome := hread bytes rfl
      rw [ht.1] at hsome
      exact absurd hsome nofun
  cases task with
  | startup => exact absurd rfl hne
  | reload => exact hreload
  | sighup => exact hreload
  | update =>
    refine secured_query_bind stable_missing hs fun answer t t' ht heffect ↦ ?_
    obtain ⟨rfl, hthere⟩ := heffect
    refine ⟨id, ?_⟩
    cases answer with
    | error e => exact fun _ _ ↦ trivial
    | ok modified =>
      have hsome := hthere rfl
      rw [ht.1] at hsome
      exact absurd hsome nofun

/-- **A file that is missing stays missing**, as long as nobody else puts one there: while the
process runs, no task downloads it, and the list in force stays what it is. -/
theorem missing_stays (hmissing : s.world.files cfg.path = none)
    (hfinished : ∀ task, Finished (s.tasks task))
    (hgoes : Relation.ReflTransGen (Goes parser cfg fun _ ↦ False) s s') :
    s'.world.files cfg.path = none ∧ s'.world.active = s.world.active := by
  suffices hinv : s'.AllSecured PslOp.Effect (LeavesMissing cfg s.world.active)
      (fun _ ↦ LeavesMissing cfg s.world.active) (fun _ _ _ ↦ True) ∧
        Missing cfg s.world.active s'.world from hinv.2
  induction hgoes with
  | refl =>
    refine ⟨fun task ↦ ?_, hmissing, rfl⟩
    obtain ⟨result, hresult⟩ := hfinished task
    rw [hresult]
    cases result with
    | ok => exact fun _ _ ↦ trivial
    | error e => exact fun _ _ ↦ trivial
  | tail _ hstep ih =>
    obtain ⟨hsecured, hmissing⟩ := ih
    cases hstep with
    | run h =>
      have hstep : Abreast.Step PslOp.Effect (LeavesMissing cfg s.world.active) _ _ :=
        h.mono_outside ?_
      · exact ⟨hsecured.step hstep, hsecured.invariant_step (fun _ _ hw hout ↦ hout hw)
          (fun _ _ _ hw hmay ↦ hmay hw) hmissing hstep⟩
      · rintro w w' hout ⟨hfile, hactive⟩
        refine ⟨?_, hout.active.trans hactive⟩
        rcases hout.file with hsame | hnone | ⟨bytes, hfalse, -⟩
        · rw [hsame, hfile]
        · exact hnone
        · exact hfalse.elim
    | wake task hne => exact ⟨hsecured.launch (secured_pass_missing hne hmissing), hmissing⟩

end Missing

/-- A process on the compiled list, whose update task is woken and finds no file. -/
theorem missing_stays_woken : ∃ s s' : PslState, s.world.spawned .update ∧
    Relation.ReflTransGen (Goes anyList downloaded fun _ ↦ False) s s' ∧
      s'.world.files downloaded.path = none ∧ s'.world.active = s.world.active := by
  let world : PslWorld := ⟨fun _ ↦ none, some ⟨fun name ↦ some (name, none)⟩, fun _ ↦ true⟩
  let s : PslState := ⟨world, fun _ ↦ .done ()⟩
  have hgoes : Relation.ReflTransGen (Goes anyList downloaded fun _ ↦ False) s
      ((s.launch .update (pass anyList downloaded .update)).launch .update (.done ())) := by
    refine .head (.wake .update nofun rfl ⟨.ok (), rfl⟩) (.single ?_)
    refine .act .update (s := s.launch .update (pass anyList downloaded .update))
      (q := .metadata _) (a := Except.error []) (t := world) rfl ?_
    exact ⟨rfl, nofun⟩
  exact ⟨s, _, rfl, hgoes, missing_stays rfl (fun _ ↦ ⟨.ok (), rfl⟩) hgoes⟩

/-! ## Coming up -/

section Startup

variable {parser : PslParser} {cfg : PslConfig} {w : PslWorld}

/-- Files that are there can be looked at, read and watched. -/
def Readable : (op : PslOp) → op.Answer → PslWorld → Prop
  | .metadata path, answer, w =>
    (w.files path).isSome →
      ∃ mtime, (answer : Except ErrorChain (Except ErrorChain ℤ)) = .ok (.ok mtime)
  | .read path, answer, w =>
    (w.files path).isSome → ∃ bytes, (answer : Except ErrorChain Bytes) = .ok bytes
  | .watch _, answer, _ => (answer : Except ErrorChain Unit) = .ok ()
  | _, _, _ => True

/-- What a question may do where files are readable. -/
def ReadableEffect (op : PslOp) (answer : op.Answer) (w w' : PslWorld) : Prop :=
  op.Effect answer w w' ∧ Readable op answer w

/-- Nobody else is there. -/
abbrev Nobody (_ _ : PslWorld) : Prop := False

/-- Anything. -/
abbrev Anything (_ _ : PslWorld) : Prop := True

/-- How a program ends that has readable files to itself. -/
abbrev Alone {α : Type} (post : Except ErrorChain α → PslWorld → Prop) (p : PslProgram α)
    (w : PslWorld) : Prop :=
  Secured ReadableEffect Nobody Anything post p w

/-- Content that makes a list. -/
def Loads (parser : PslParser) (bytes : Bytes) : Prop := ∃ list, parser.fromBytes bytes = .ok list

/-- How coming up from `w` ends: well, unless the file holds what makes no list, and this is then
what it held before. -/
def ComesUp (parser : PslParser) (cfg : PslConfig) (w : PslWorld) {α : Type}
    (x : Except ErrorChain α) (t : PslWorld) : Prop :=
  (x.isOk ↔ ∀ bytes, t.files cfg.path = some bytes → Loads parser bytes) ∧
    (¬x.isOk → t.files cfg.path = w.files cfg.path)

theorem stable_nobody {P : PslWorld → Prop} : Stable Nobody P := fun _ _ _ ↦ False.elim

theorem alone_done {α : Type} {a : α} {post : Except ErrorChain α → PslWorld → Prop}
    (h : post (.ok a) w) : Alone post (.done a) w :=
  secured_done (P := fun t ↦ t = w) stable_nobody rfl fun _ ht ↦ ht ▸ h

theorem alone_fail {α : Type} {e : ErrorChain} {post : Except ErrorChain α → PslWorld → Prop}
    (h : post (.error e) w) : Alone post (.fail e) w :=
  secured_fail (P := fun t ↦ t = w) stable_nobody rfl fun _ ht ↦ ht ▸ h

theorem alone_query_bind {q : PslOp} {α : Type} {f : q.Answer → PslProgram α}
    {post : Except ErrorChain α → PslWorld → Prop}
    (h : ∀ a t, q.Effect a w t → Readable q a w → Alone post (f a) t) :
    Alone post (.query q >>= f) w :=
  secured_query_bind (P := fun t ↦ t = w) stable_nobody rfl fun a t t' ht heffect ↦
    ⟨trivial, by subst ht; exact h a t' heffect.1 heffect.2⟩

theorem alone_withContext_bind {α β : Type} {context : List Str} {answer : Except ErrorChain α}
    {f : α → PslProgram β} {post : Except ErrorChain β → PslWorld → Prop}
    (hok : ∀ a, answer = .ok a → Alone post (f a) w)
    (herror : ∀ e, answer = .error e → ∀ chain, post (.error chain) w) :
    Alone post (withContext context answer >>= f) w := by
  cases answer with
  | ok a => exact hok a rfl
  | error e => exact alone_fail (herror e rfl _)

/-- The age of a file can be checked just when the file is there. -/
theorem alone_fileAge (path : Path) :
    Alone (fun x t ↦ t = w ∧ ((w.files path).isSome ↔ x.isOk)) (fileAge path) w := by
  refine alone_query_bind fun answer t heffect hreadable ↦ ?_
  obtain ⟨rfl, hthere⟩ := heffect
  cases hfile : t.files path with
  | none =>
    refine alone_withContext_bind (fun modified hanswer ↦ ?_) fun _ _ _ ↦ ⟨rfl, nofun, nofun⟩
    have hsome := hthere (by rw [hanswer]; rfl)
    rw [hfile] at hsome
    exact absurd hsome nofun
  | some bytes =>
    obtain ⟨mtime, hanswer⟩ := hreadable (by rw [hfile]; rfl)
    rw [hanswer]
    refine alone_query_bind fun now u heffect _ ↦ ?_
    obtain rfl := heffect
    exact alone_done ⟨rfl, iff_of_true rfl rfl⟩

/-- A file that is there can be loaded just when its content makes a list. -/
theorem alone_loadFromFile {bytes : Bytes} (hfile : w.files cfg.path = some bytes) :
    Alone (fun x t ↦ t = w ∧ (x.isOk ↔ Loads parser bytes))
      (loadFromFile parser cfg.path) w := by
  refine alone_query_bind fun answer t heffect hreadable ↦ ?_
  obtain ⟨rfl, hread⟩ := heffect
  obtain ⟨bytes', hanswer⟩ := hreadable (by rw [hfile]; rfl)
  obtain rfl : bytes' = bytes := Option.some.inj ((hread _ hanswer).symm.trans hfile)
  refine alone_withContext_bind (fun read hread' ↦ ?_) fun e herror ↦ ?_
  · obtain rfl := Except.ok.inj (hanswer.symm.trans hread')
    rw [PslParser.fromFile]
    cases hparse : parser.fromBytes bytes' with
    | ok list => exact alone_done ⟨rfl, iff_of_true rfl ⟨list, hparse⟩⟩
    | error e =>
      refine alone_fail ⟨rfl, iff_of_false Bool.false_ne_true ?_⟩
      rintro ⟨list, hlist⟩
      exact absurd (hparse.symm.trans hlist) (by simp)
  · exact absurd (hanswer.symm.trans herror) (by simp)

theorem alone_embedded (hembedded : Loads parser parser.embeddedList) :
    Alone (fun x t ↦ t = w ∧ x.isOk) (.ofExcept parser.embedded) w := by
  obtain ⟨list, hlist⟩ := hembedded
  rw [PslParser.embedded, hlist]
  exact alone_done ⟨rfl, rfl⟩

/-- A save that succeeds puts the data in the place of the file, and one that fails leaves the file
alone. -/
theorem alone_saveToFile (data : Bytes) :
    Alone (fun x t ↦ (x = .ok () → t.files cfg.path = some data) ∧
      (x ≠ .ok () → t.files cfg.path = w.files cfg.path)) (saveToFile cfg.path data) w := by
  have hne := (stagingPath_ne cfg.path).symm
  have hwrite : Alone (fun x t ↦ (x = .ok () → t.files cfg.path = some data) ∧
      (x ≠ .ok () → t.files cfg.path = w.files cfg.path))
      (do
        let written ← Program.query (PslOp.write (stagingPath cfg.path) data)
        withContext ["writing to ".toList ++ display (stagingPath cfg.path)] written
        let renamed ← Program.query (PslOp.rename (stagingPath cfg.path) cfg.path)
        withContext ["renaming ".toList ++ display (stagingPath cfg.path) ++ " to ".toList ++
          display cfg.path] renamed) w := by
    refine alone_query_bind fun written t heffect _ ↦ ?_
    cases written with
    | error e =>
      obtain ⟨torn, rfl⟩ := heffect
      exact alone_fail ⟨by simp, fun _ ↦ Function.update_of_ne hne ..⟩
    | ok =>
      obtain rfl := heffect
      refine alone_query_bind fun renamed u heffect _ ↦ ?_
      cases renamed with
      | error e =>
        obtain rfl := heffect
        exact alone_fail ⟨by simp, fun _ ↦ Function.update_of_ne hne ..⟩
      | ok =>
        obtain ⟨-, rfl⟩ := heffect
        refine alone_done ⟨fun _ ↦ ?_, fun h ↦ absurd rfl h⟩
        change Function.update (Function.update _ _ _) _ _ _ = _
        rw [Function.update_of_ne hne, Function.update_self]
        exact Function.update_self ..
  rw [saveToFile]
  split_ifs with hparent
  · refine alone_query_bind fun made t heffect _ ↦ ?_
    obtain rfl := heffect
    exact alone_withContext_bind (fun _ _ ↦ hwrite) fun _ _ _ ↦ ⟨by simp, fun _ ↦ rfl⟩
  · exact hwrite

theorem alone_downloadAndSave :
    Alone (fun x t ↦ (x = .ok () → ∃ bytes, t.files cfg.path = some bytes ∧ Loads parser bytes) ∧
      (x ≠ .ok () → t.files cfg.path = w.files cfg.path)) (downloadAndSave parser cfg) w := by
  refine alone_query_bind fun answer t heffect _ ↦ ?_
  obtain rfl := heffect
  refine alone_withContext_bind (fun bytes _ ↦ ?_) fun _ _ _ ↦ ⟨nofun, fun _ ↦ rfl⟩
  split_ifs with hempty
  · exact alone_fail ⟨nofun, fun _ ↦ rfl⟩
  · refine alone_withContext_bind (fun list hlist ↦ ?_) fun _ _ _ ↦ ⟨nofun, fun _ ↦ rfl⟩
    refine (alone_saveToFile bytes).mono fun x u hu ↦ ⟨fun hx ↦ ?_, hu.2⟩
    exact ⟨bytes, hu.1 hx, list, eq_ok_of_mapError hlist⟩

theorem alone_loadInitial (hsource : cfg.source = .file) (hauto : cfg.autoUpdate)
    (hembedded : Loads parser parser.embeddedList) :
    Alone (ComesUp parser cfg w) (loadInitial parser cfg) w := by
  have hload : ∀ {v : PslWorld} {bytes : Bytes}, v.files cfg.path = some bytes →
      (¬Loads parser bytes → v.files cfg.path = w.files cfg.path) →
      Alone (ComesUp parser cfg w) (loadFromFile parser cfg.path) v := by
    intro v bytes hfile hsame
    refine (alone_loadFromFile hfile).mono ?_
    rintro x t ⟨rfl, hx⟩
    rw [ComesUp, hx]
    refine ⟨⟨fun h bytes' hbytes' ↦ ?_, fun h ↦ h bytes hfile⟩, hsame⟩
    exact Option.some.inj (hfile.symm.trans hbytes') ▸ h
  rw [loadInitial, hsource]
  dsimp only
  rw [if_pos hauto]
  refine secured_bind (secured_attempt ((alone_fileAge cfg.path).mono ?_))
  rintro age t ⟨rfl, hthere⟩
  cases age with
  | ok age =>
    obtain ⟨bytes, hfile⟩ := Option.isSome_iff_exists.mp (hthere.mpr rfl)
    dsimp only
    split_ifs with hage
    · exact hload hfile fun _ ↦ rfl
    · refine secured_bind (secured_attempt (alone_downloadAndSave.mono fun saved u hu ↦ ?_))
      cases saved with
      | ok =>
        obtain ⟨new, hnew, hloads⟩ := hu.1 rfl
        exact hload hnew fun h ↦ absurd hloads h
      | error e => exact hload ((hu.2 (by simp)).trans hfile) fun _ ↦ hu.2 (by simp)
  | error e =>
    have hnone : t.files cfg.path = none := by
      rw [← Option.not_isSome_iff_eq_none, hthere]
      exact Bool.false_ne_true
    refine secured_bind (secured_attempt (alone_downloadAndSave.mono fun saved u hu ↦ ?_))
    cases saved with
    | ok =>
      obtain ⟨new, hnew, hloads⟩ := hu.1 rfl
      exact hload hnew fun h ↦ absurd hloads h
    | error e =>
      refine (alone_embedded hembedded).mono ?_
      rintro x v ⟨rfl, hx⟩
      refine ⟨iff_of_true hx fun bytes hbytes ↦ ?_, fun h ↦ absurd hx h⟩
      rw [hu.2 (by simp), hnone] at hbytes
      exact absurd hbytes (by simp)

theorem alone_spawn (task : PslTask) :
    Alone (fun x t ↦ x = .ok () ∧ t.files = w.files)
      (Program.query (PslOp.spawn task) : PslProgram Unit) w := by
  refine secured_query (P := fun t ↦ t = w) stable_nobody rfl fun _ t t' ht heffect ↦ ⟨trivial, ?_⟩
  obtain rfl := heffect.1
  exact alone_done ⟨rfl, by rw [ht]⟩

theorem alone_spawnReloadTask :
    Alone (fun x t ↦ x = .ok () ∧ t.files = w.files) (spawnReloadTask cfg) w := by
  refine alone_query_bind fun watched t heffect hreadable ↦ ?_
  obtain rfl := heffect
  refine alone_withContext_bind (fun _ _ ↦ alone_spawn .reload) fun e herror ↦ ?_
  exact absurd (hreadable.symm.trans herror) nofun

variable (cfg) in
theorem alone_spawnUpdate :
    Alone (fun x t ↦ x = .ok () ∧ t.files = w.files)
      (do
        if cfg.checkInterval.isSome ∧ cfg.autoUpdate ∧ cfg.source = .file then
          Program.query (PslOp.spawn .update)
        Program.query (PslOp.spawn .sighup) : PslProgram Unit) w := by
  split_ifs
  · refine secured_bind ((alone_spawn .update).mono ?_)
    rintro _ t ⟨rfl, ht⟩
    exact (alone_spawn .sighup).mono fun _ _ hu ↦ ⟨hu.1, hu.2.trans ht⟩
  · exact alone_spawn .sighup

theorem alone_init (hsource : cfg.source = .file) (hauto : cfg.autoUpdate)
    (hembedded : Loads parser parser.embeddedList) :
    Alone (ComesUp parser cfg w) (init parser cfg) w := by
  refine secured_bind ((alone_loadInitial hsource hauto hembedded).mono fun loaded u hu ↦ ?_)
  cases loaded with
  | error e => exact ⟨⟨nofun, fun h ↦ absurd (hu.1.mpr h) nofun⟩, fun _ ↦ hu.2 nofun⟩
  | ok list =>
    have hdone : ∀ (x : Except ErrorChain Unit) (t : PslWorld), x = .ok () ∧ t.files = u.files →
        ComesUp parser cfg w x t := by
      rintro x t ⟨rfl, hfiles⟩
      rw [ComesUp, hfiles]
      exact ⟨iff_of_true rfl (hu.1.mp rfl), fun h ↦ absurd rfl h⟩
    have hupdate : ∀ v : PslWorld, v.files = u.files → Alone (ComesUp parser cfg w) _ v :=
      fun v hv ↦ (alone_spawnUpdate cfg).mono fun x t ht ↦ hdone x t ⟨ht.1, ht.2.trans hv⟩
    refine alone_query_bind fun _ v heffect _ ↦ ?_
    obtain rfl := heffect
    by_cases hreload : cfg.autoReload ∧ cfg.source = .file
    · simp only [if_pos hreload]
      refine alone_query_bind fun there v heffect _ ↦ ?_
      obtain ⟨rfl, -⟩ := heffect
      by_cases hthere : there = true
      · simp only [if_pos hthere]
        refine secured_bind (alone_spawnReloadTask.mono ?_)
        rintro _ t ⟨rfl, ht⟩
        exact hupdate t ht
      · simp only [if_neg hthere]
        exact hupdate _ rfl
    · simp only [if_neg hreload]
      exact hupdate _ rfl

/-- **Coming up.** With automatic updates, a gateway comes up whatever the network and the disk do
to a download, unless the file holds what makes no list; and this is then what it held before. -/
theorem startup_iff (hsource : cfg.source = .file) (hauto : cfg.autoUpdate)
    (hembedded : Loads parser parser.embeddedList) {x : Except ErrorChain Unit} {t : PslWorld}
    (hruns : (init parser cfg).RunsIn ReadableEffect w (.ofExcept x) t) :
    (x.isOk ↔ ∀ bytes, t.files cfg.path = some bytes → Loads parser bytes) ∧
      (¬x.isOk → t.files cfg.path = w.files cfg.path) :=
  (alone_init hsource hauto hembedded).ends hruns

end Startup

/-- A gateway without a file that cannot reach the network comes up. -/
theorem startup_iff_offline : ∃ t, (init anyList downloaded).RunsIn ReadableEffect
    ⟨fun _ ↦ none, none, fun _ ↦ false⟩ (.ofExcept (.ok ())) t ∧
      ∀ bytes, t.files downloaded.path = some bytes → Loads anyList bytes := by
  have hruns : (init anyList downloaded).RunsIn ReadableEffect
      ⟨fun _ ↦ none, none, fun _ ↦ false⟩ (.ofExcept (.ok ()))
      ⟨fun _ ↦ none, some ⟨fun name ↦ some (name, none)⟩,
        Function.update (fun _ ↦ false) .sighup true⟩ := by
    refine .ask (q := PslOp.metadata _) (a := Except.error [])
      (t := ⟨fun _ ↦ none, none, fun _ ↦ false⟩) ⟨⟨rfl, nofun⟩, nofun⟩ ?_
    refine .ask (q := PslOp.get _ _) (a := Except.error [])
      (t := ⟨fun _ ↦ none, none, fun _ ↦ false⟩) ?_ ?_
    · exact ⟨rfl, trivial⟩
    refine .ask (q := PslOp.activate _) (a := ())
      (t := ⟨fun _ ↦ none, some ⟨fun name ↦ some (name, none)⟩, fun _ ↦ false⟩) ?_ ?_
    · exact ⟨rfl, trivial⟩
    refine .ask (q := PslOp.spawn .sighup) (a := ()) ?_ (.here _ _)
    exact ⟨rfl, trivial⟩
  exact ⟨_, hruns, (startup_iff rfl rfl ⟨_, rfl⟩ hruns).1.mp rfl⟩

end PslConfig

end SniGate
