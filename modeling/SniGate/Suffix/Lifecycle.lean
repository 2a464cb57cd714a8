import SniGate.Suffix.Loading

/-!
# Which list is in force

Downloads are saved next to the file and moved over it, while the operator edits the file, reloads
read it, and the gateway may be killed and started again. However these come in between each other,
the file only ever holds what the operator put there or a whole download that parses, and the list
in force is made from such content or compiled in.

## Design choices

Tasks share the files and the list, and each is a program that may be interrupted between any two
questions; so what is said of one of them must survive what the others do (`Stable`), and a change
by another task is part of its environment. A kill is an event like any other, after which only the
files are left. The operator may do anything to the file, but does not write to the staging file.
-/

namespace SniGate

theorem stagingPath_ne (path : Path) : stagingPath path ≠ path := by
  rcases List.eq_nil_or_concat path with rfl | ⟨front, name, rfl⟩
  · simp [stagingPath, withFileName]
  · rw [List.concat_eq_append, stagingPath, withFileName, List.dropLast_concat,
      List.getLast?_concat, Option.getD_some]
    intro h
    have hname := List.append_cancel_left h
    simp at hname

namespace PslConfig

/-! ## Promises -/

section Promises

variable (parser : PslParser) (cfg : PslConfig) (trusted : Bytes → Prop)

/-- Content of the file that may be relied on: the operator put it there, or it was downloaded and
parses. -/
def Vouched (bytes : Bytes) : Prop :=
  trusted bytes ∨ bytes ≠ [] ∧ ∃ list, parser.fromBytes bytes = .ok list

/-- A list that is compiled in, or made from such content. -/
def Sound (list : SuffixList) : Prop :=
  ∃ bytes, parser.fromBytes bytes = .ok list ∧
    (bytes = parser.embeddedList ∨ Vouched parser trusted bytes)

/-- The file and the list in force are as they should be, and background tasks are only started once
there is a list. -/
structure Ok (w : PslWorld) : Prop where
  file : ∀ bytes, w.files cfg.path = some bytes → Vouched parser trusted bytes
  list : ∀ list, w.active = some list → Sound parser trusted list
  spawned : ∀ task, w.spawned task → w.active.isSome

/-- The operator puts content in the place of the file that is to be trusted, or removes the file,
and leaves the staging file alone. -/
structure Outside (w w' : PslWorld) : Prop where
  active : w'.active = w.active
  spawned : w'.spawned = w.spawned
  staging : w'.files (stagingPath cfg.path) = w.files (stagingPath cfg.path)
  file : w'.files cfg.path = w.files cfg.path ∨ w'.files cfg.path = none ∨
    ∃ bytes, trusted bytes ∧ w'.files cfg.path = some bytes

/-- Nothing but the file and its staging file is written, and the file gets content to rely on. -/
structure Saves (w w' : PslWorld) : Prop where
  active : w'.active = w.active
  spawned : w'.spawned = w.spawned
  frame : ∀ path, path ≠ cfg.path → path ≠ stagingPath cfg.path → w'.files path = w.files path
  file : w'.files cfg.path = w.files cfg.path ∨
    ∃ bytes, Vouched parser trusted bytes ∧ w'.files cfg.path = some bytes

/-- Nothing but the list in force is changed, to one of a kind. -/
structure Swaps (kind : SuffixList → Prop) (w w' : PslWorld) : Prop where
  files : w'.files = w.files
  spawned : w'.spawned = w.spawned
  active : w'.active = w.active ∨ ∃ list, kind list ∧ w'.active = some list

/-- What each task may do. At startup there is no list until the first is put in force, after which
only background tasks are started. -/
def May : PslTask → PslWorld → PslWorld → Prop
  | .startup, w, w' =>
    w.active = none ∧ (Saves parser cfg trusted w w' ∨ Swaps (Sound parser trusted) w w') ∨
      w.active.isSome ∧ w'.files = w.files ∧ w'.active = w.active
  | .update, w, w' => w.active.isSome ∧ Saves parser cfg trusted w w'
  | .reload, w, w' | .sighup, w, w' =>
    w.active.isSome ∧ Swaps (fun list ↦ Sound parser trusted list ∧ parser.Sane list) w w'

/-- What is relied on by a task. -/
abbrev Rely (task : PslTask) : PslWorld → PslWorld → Prop :=
  Abreast.rely (Outside cfg trusted) (May parser cfg trusted) task

/-- Before there is a list. -/
def Down (w : PslWorld) : Prop := Ok parser cfg trusted w ∧ w.active = none

/-- Once there is a list. -/
def Up (w : PslWorld) : Prop := Ok parser cfg trusted w ∧ w.active.isSome

end Promises

section Stability

variable {parser : PslParser} {cfg : PslConfig} {trusted : Bytes → Prop} {w w' : PslWorld}
  {task : PslTask}

theorem Saves.refl (w : PslWorld) : Saves parser cfg trusted w w :=
  ⟨rfl, rfl, fun _ _ _ ↦ rfl, .inl rfl⟩

theorem Swaps.refl {kind : SuffixList → Prop} (w : PslWorld) : Swaps kind w w :=
  ⟨rfl, rfl, .inl rfl⟩

theorem Saves.ok (h : Saves parser cfg trusted w w') (hw : Ok parser cfg trusted w) :
    Ok parser cfg trusted w' where
  file bytes hbytes := by
    rcases h.file with hsame | ⟨new, hnew, heq⟩
    · exact hw.file bytes (hsame ▸ hbytes)
    · rw [heq, Option.some_inj] at hbytes
      exact hbytes ▸ hnew
  list list hlist := hw.list list (h.active ▸ hlist)
  spawned task htask := by
    rw [h.active]
    exact hw.spawned task (h.spawned ▸ htask)

theorem Swaps.ok {kind : SuffixList → Prop} (hkind : ∀ list, kind list → Sound parser trusted list)
    (h : Swaps kind w w') (hw : Ok parser cfg trusted w) : Ok parser cfg trusted w' where
  file bytes hbytes := hw.file bytes (h.files ▸ hbytes)
  list list hlist := by
    rcases h.active with hsame | ⟨new, hnew, heq⟩
    · exact hw.list list (hsame ▸ hlist)
    · rw [heq, Option.some_inj] at hlist
      exact hlist ▸ hkind new hnew
  spawned task htask := by
    have hup := hw.spawned task (h.spawned ▸ htask)
    rcases h.active with hsame | ⟨new, -, heq⟩
    · rwa [hsame]
    · rw [heq, Option.isSome_some]

theorem Outside.ok (h : Outside cfg trusted w w') (hw : Ok parser cfg trusted w) :
    Ok parser cfg trusted w' where
  file bytes hbytes := by
    rcases h.file with hsame | hnone | ⟨new, hnew, heq⟩
    · exact hw.file bytes (hsame ▸ hbytes)
    · rw [hnone] at hbytes
      exact absurd hbytes nofun
    · rw [heq, Option.some_inj] at hbytes
      exact .inl (hbytes ▸ hnew)
  list list hlist := hw.list list (h.active ▸ hlist)
  spawned task htask := by
    rw [h.active]
    exact hw.spawned task (h.spawned ▸ htask)

theorem May.ok (h : May parser cfg trusted task w w') (hw : Ok parser cfg trusted w) :
    Ok parser cfg trusted w' := by
  cases task with
  | startup =>
    rcases h with ⟨-, hsaves | hswaps⟩ | ⟨hup, hfiles, hactive⟩
    · exact hsaves.ok hw
    · exact hswaps.ok (fun _ ↦ id) hw
    · exact ⟨fun bytes hbytes ↦ hw.file bytes (hfiles ▸ hbytes),
        fun list hlist ↦ hw.list list (hactive ▸ hlist), fun _ _ ↦ hactive ▸ hup⟩
  | update => exact h.2.ok hw
  | reload => exact h.2.ok (fun _ ↦ And.left) hw
  | sighup => exact h.2.ok (fun _ ↦ And.left) hw

theorem May.isSome (h : May parser cfg trusted task w w') (hup : w.active.isSome) :
    w'.active.isSome := by
  have hswaps : ∀ kind, Swaps kind w w' → w'.active.isSome := by
    intro kind hswaps
    rcases hswaps.active with hsame | ⟨new, -, heq⟩
    · rwa [hsame]
    · rw [heq, Option.isSome_some]
  cases task with
  | startup =>
    rcases h with ⟨hdown, -⟩ | ⟨-, -, hactive⟩
    · rw [hdown] at hup
      exact absurd hup nofun
    · rwa [hactive]
  | update => rwa [h.2.active]
  | reload => exact hswaps _ h.2
  | sighup => exact hswaps _ h.2

theorem May.isSome_of_ne (h : May parser cfg trusted task w w') (hne : task ≠ .startup) :
    w.active.isSome := by
  cases task with
  | startup => exact absurd rfl hne
  | update => exact h.1
  | reload => exact h.1
  | sighup => exact h.1

theorem May.files_of_ne (h : May parser cfg trusted task w w') (hne : task ≠ .update)
    (hup : w.active.isSome) : w'.files = w.files := by
  cases task with
  | startup =>
    rcases h with ⟨hdown, -⟩ | ⟨-, hfiles, -⟩
    · rw [hdown] at hup
      exact absurd hup nofun
    · exact hfiles
  | update => exact absurd rfl hne
  | reload => exact h.2.files
  | sighup => exact h.2.files

theorem stable_up : Stable (Rely parser cfg trusted task) (Up parser cfg trusted) := by
  rintro w w' ⟨hok, hup⟩ (hout | ⟨other, -, hmay⟩)
  · exact ⟨hout.ok hok, hout.active ▸ hup⟩
  · exact ⟨hmay.ok hok, hmay.isSome hup⟩

theorem stable_down : Stable (Rely parser cfg trusted .startup) (Down parser cfg trusted) := by
  rintro w w' ⟨hok, hdown⟩ (hout | ⟨other, hne, hmay⟩)
  · exact ⟨hout.ok hok, hout.active ▸ hdown⟩
  · have hup := hmay.isSome_of_ne hne
    rw [hdown] at hup
    exact absurd hup nofun

end Stability

/-! ## Saving -/

/-- What a task that saves stands on: a condition that the others keep together with what is in the
staging file, and that saving keeps as well. -/
structure Grounds (parser : PslParser) (cfg : PslConfig) (trusted : Bytes → Prop)
    (rely may : PslWorld → PslWorld → Prop) (P : PslWorld → Prop) : Prop where
  ok : ∀ w, P w → Ok parser cfg trusted w
  stable : Stable rely P
  staged : ∀ data, Stable rely fun w ↦ P w ∧ w.files (stagingPath cfg.path) = some data
  saves : ∀ w w', P w → Saves parser cfg trusted w w' → may w w' ∧ P w'

section Saving

variable {parser : PslParser} {cfg : PslConfig} {trusted : Bytes → Prop}
  {rely may : PslWorld → PslWorld → Prop} {P : PslWorld → Prop} {w : PslWorld}

theorem grounds_startup : Grounds parser cfg trusted (Rely parser cfg trusted .startup)
    (May parser cfg trusted .startup) (Down parser cfg trusted) where
  ok _ h := h.1
  stable := stable_down
  staged data := by
    rintro w w' ⟨hdown, hdata⟩ hrely
    refine ⟨stable_down _ _ hdown hrely, ?_⟩
    rcases hrely with hout | ⟨other, hne, hmay⟩
    · rw [hout.staging, hdata]
    · have hup := hmay.isSome_of_ne hne
      rw [hdown.2] at hup
      exact absurd hup nofun
  saves _ _ h hsaves := ⟨.inl ⟨h.2, .inl hsaves⟩, hsaves.ok h.1, hsaves.active ▸ h.2⟩

theorem grounds_update : Grounds parser cfg trusted (Rely parser cfg trusted .update)
    (May parser cfg trusted .update) (Up parser cfg trusted) where
  ok _ h := h.1
  stable := stable_up
  staged data := by
    rintro w w' ⟨hup, hdata⟩ hrely
    refine ⟨stable_up _ _ hup hrely, ?_⟩
    rcases hrely with hout | ⟨other, hne, hmay⟩
    · rw [hout.staging, hdata]
    · rw [hmay.files_of_ne hne hup.2, hdata]
  saves _ _ h hsaves := ⟨⟨h.2, hsaves⟩, hsaves.ok h.1, hsaves.active ▸ h.2⟩

theorem secured_withContext {α : Type} {context : List Str} {answer : Except ErrorChain α}
    {post : Except ErrorChain α → PslWorld → Prop} (hP : Stable rely P) (hs : P w)
    (hok : ∀ a, answer = .ok a → ∀ t, P t → post (.ok a) t)
    (herror : ∀ e t, P t → post (.error e) t) :
    Secured PslOp.Effect rely may post (withContext context answer) w := by
  cases answer with
  | ok a => exact secured_done hP hs (hok a rfl)
  | error e => exact secured_fail hP hs (herror _)

theorem secured_fileAge (h : Grounds parser cfg trusted rely may P) (hs : P w) (path : Path) :
    Secured PslOp.Effect rely may (fun _ t ↦ P t) (fileAge path) w := by
  refine secured_query_bind h.stable hs fun answer t t' ht heffect ↦ ?_
  obtain ⟨rfl, -⟩ := heffect
  refine ⟨(h.saves t' t' ht (.refl t')).1, secured_bind ?_⟩
  refine secured_withContext h.stable ht (fun modified _ t ht ↦ secured_bind ?_) fun _ _ ↦ id
  refine secured_withContext h.stable ht (fun mtime _ t ht ↦ ?_) fun _ _ ↦ id
  refine secured_query_bind h.stable ht fun now t t' ht heffect ↦ ?_
  obtain rfl := heffect
  exact ⟨(h.saves t' t' ht (.refl t')).1, secured_done h.stable ht fun _ ↦ id⟩

/-- A failed write of the staging file may leave anything there. -/
theorem saves_staging (w : PslWorld) (torn : Option Bytes) : Saves parser cfg trusted w
    { w with files := Function.update w.files (stagingPath cfg.path) torn } where
  active := rfl
  spawned := rfl
  frame _ _ hne := Function.update_of_ne hne ..
  file := .inl (Function.update_of_ne (stagingPath_ne cfg.path).symm ..)

theorem saves_rename {data : Bytes} (hdata : Vouched parser trusted data)
    (hstaged : w.files (stagingPath cfg.path) = some data) : Saves parser cfg trusted w
      { w with files := (FileOp.rename (stagingPath cfg.path) cfg.path).apply w.files } where
  active := rfl
  spawned := rfl
  frame path hpath hne := by
    have hwrites : path ∉ (FileOp.rename (stagingPath cfg.path) cfg.path : FileOp _ Bytes).writes :=
      fun h ↦ (FileOp.mem_writes_rename.mp h).elim hne hpath
    exact FileOp.apply_of_not_mem hwrites
  file := by
    refine .inr ⟨data, hdata, ?_⟩
    change Function.update (Function.update w.files _ _) _ _ _ = _
    rw [Function.update_of_ne (stagingPath_ne cfg.path).symm, Function.update_self, hstaged]

/-- **Saving** puts content in the place of the file only whole. -/
theorem secured_saveToFile (h : Grounds parser cfg trusted rely may P) {data : Bytes}
    (hdata : Vouched parser trusted data) (hs : P w) :
    Secured PslOp.Effect rely may (fun _ t ↦ P t) (saveToFile cfg.path data) w := by
  have hwrite : ∀ t, P t → Secured PslOp.Effect rely may (fun _ t ↦ P t)
      (do
        let written ← Program.query (PslOp.write (stagingPath cfg.path) data)
        withContext ["writing to ".toList ++ display (stagingPath cfg.path)] written
        let renamed ← Program.query (PslOp.rename (stagingPath cfg.path) cfg.path)
        withContext ["renaming ".toList ++ display (stagingPath cfg.path) ++ " to ".toList ++
          display cfg.path] renamed) t := by
    intro t ht
    refine secured_query_bind h.stable ht fun written t t' ht heffect ↦ ?_
    cases written with
    | error e =>
      obtain ⟨torn, rfl⟩ := heffect
      obtain ⟨hmay, ht'⟩ := h.saves t _ ht (saves_staging t torn)
      exact ⟨hmay, secured_fail h.stable ht' fun _ ↦ id⟩
    | ok =>
      obtain rfl := heffect
      obtain ⟨hmay, ht'⟩ := h.saves t _ ht (saves_staging t (some data))
      -- from here on the staging file holds what was downloaded
      refine ⟨hmay, secured_query_bind (h.staged data) ⟨ht', Function.update_self ..⟩ ?_⟩
      rintro renamed u u' ⟨hu, hstaged⟩ heffect
      cases renamed with
      | error e =>
        obtain rfl := heffect
        exact ⟨(h.saves u' u' hu (.refl u')).1, secured_fail h.stable hu fun _ ↦ id⟩
      | ok =>
        obtain ⟨-, rfl⟩ := heffect
        obtain ⟨hmay, hu'⟩ := h.saves u _ hu (saves_rename hdata hstaged)
        exact ⟨hmay, secured_done h.stable hu' fun _ ↦ id⟩
  rw [saveToFile]
  split_ifs with hparent
  · refine secured_query_bind h.stable hs fun made t t' ht heffect ↦ ?_
    obtain rfl := heffect
    refine ⟨(h.saves t' t' ht (.refl t')).1, secured_bind ?_⟩
    exact secured_withContext h.stable ht (fun _ _ ↦ hwrite) fun _ _ ↦ id
  · exact hwrite w hs

theorem secured_downloadAndSave (h : Grounds parser cfg trusted rely may P) (hs : P w) :
    Secured PslOp.Effect rely may (fun _ t ↦ P t) (downloadAndSave parser cfg) w := by
  refine secured_query_bind h.stable hs fun answer t t' ht heffect ↦ ?_
  obtain rfl := heffect
  refine ⟨(h.saves t' t' ht (.refl t')).1, secured_bind ?_⟩
  refine secured_withContext h.stable ht (fun bytes _ t ht ↦ ?_) fun _ _ ↦ id
  dsimp only
  by_cases hempty : bytes = []
  · rw [if_pos hempty]
    exact secured_fail h.stable ht fun _ ↦ id
  · rw [if_neg hempty]
    refine secured_bind (secured_withContext h.stable ht (fun list hlist t ht ↦ ?_) fun _ _ ↦ id)
    refine secured_saveToFile h (.inr ⟨hempty, list, ?_⟩) ht
    rw [PslParser.fromFile] at hlist
    exact eq_ok_of_mapError hlist

end Saving

/-! ## The tasks -/

section Passes

variable {parser : PslParser} {cfg : PslConfig} {trusted : Bytes → Prop}
  {rely may : PslWorld → PslWorld → Prop} {P : PslWorld → Prop} {w : PslWorld} {task : PslTask}

theorem secured_loadFromFile (h : Grounds parser cfg trusted rely may P) (hs : P w) :
    Secured PslOp.Effect rely may
      (fun x t ↦ P t ∧ ∀ list, x = .ok list → Sound parser trusted list)
      (loadFromFile parser cfg.path) w := by
  refine secured_query_bind h.stable hs fun answer t t' ht heffect ↦ ?_
  obtain ⟨rfl, hread⟩ := heffect
  refine ⟨(h.saves t' t' ht (.refl t')).1, secured_bind ?_⟩
  refine secured_withContext h.stable ht (fun bytes hbytes u hu ↦ ?_) fun _ _ hu ↦ ⟨hu, nofun⟩
  dsimp only
  have hvouched := (h.ok t' ht).file bytes (hread bytes hbytes)
  cases hparse : parser.fromFile bytes with
  | error e => exact secured_fail h.stable hu fun _ hu ↦ ⟨hu, nofun⟩
  | ok list =>
    have hlist : parser.fromBytes bytes = .ok list := eq_ok_of_mapError hparse
    refine secured_done h.stable hu fun _ hu ↦ ⟨hu, fun list' heq ↦ ?_⟩
    obtain rfl := Except.ok.inj heq
    exact ⟨bytes, hlist, .inr hvouched⟩

theorem secured_embedded (h : Grounds parser cfg trusted rely may P) (hs : P w) :
    Secured PslOp.Effect rely may
      (fun x t ↦ P t ∧ ∀ list, x = .ok list → Sound parser trusted list)
      (.ofExcept parser.embedded) w := by
  cases hparse : parser.embedded with
  | error e => exact secured_fail h.stable hs fun _ hu ↦ ⟨hu, nofun⟩
  | ok list =>
    refine secured_done h.stable hs fun _ hu ↦ ⟨hu, fun list' heq ↦ ?_⟩
    obtain rfl := Except.ok.inj heq
    exact ⟨_, eq_ok_of_mapError hparse, .inl rfl⟩

theorem secured_loadInitial (h : Grounds parser cfg trusted rely may P) (hs : P w) :
    Secured PslOp.Effect rely may
      (fun x t ↦ P t ∧ ∀ list, x = .ok list → Sound parser trusted list)
      (loadInitial parser cfg) w := by
  rw [loadInitial]
  cases cfg.source with
  | embedded => exact secured_embedded h hs
  | file =>
    dsimp only
    split_ifs with hauto
    · refine secured_bind (secured_attempt ((secured_fileAge h hs _).mono fun age t ht ↦ ?_))
      cases age with
      | ok age =>
        dsimp only
        split_ifs with hage
        · exact secured_loadFromFile h ht
        · refine secured_bind (secured_attempt ((secured_downloadAndSave h ht).mono ?_))
          exact fun _ t ht ↦ secured_loadFromFile h ht
      | error e =>
        refine secured_bind (secured_attempt ((secured_downloadAndSave h ht).mono ?_))
        intro saved t ht
        cases saved with
        | ok => exact secured_loadFromFile h ht
        | error e => exact secured_embedded h ht
    · exact secured_loadFromFile h hs

/-- What is asked once there is a list, to start the background tasks. -/
theorem may_startup (hup : Up parser cfg trusted w) (spawned : PslTask → Bool) :
    May parser cfg trusted .startup w { w with spawned } ∧
      Up parser cfg trusted { w with spawned } :=
  have hmay : May parser cfg trusted .startup w { w with spawned } := .inr ⟨hup.2, rfl, rfl⟩
  ⟨hmay, hmay.ok hup.1, hup.2⟩

theorem secured_spawn (task : PslTask) (hup : Up parser cfg trusted w) :
    Secured PslOp.Effect (Rely parser cfg trusted .startup) (May parser cfg trusted .startup)
      (fun x t ↦ x = .ok () ∧ Up parser cfg trusted t)
      (Program.query (PslOp.spawn task) : PslProgram Unit) w := by
  refine secured_query stable_up hup fun _ t t' ht heffect ↦ ?_
  obtain rfl := heffect
  obtain ⟨hmay, hup'⟩ := may_startup ht _
  exact ⟨hmay, secured_done stable_up hup' fun _ hu ↦ ⟨rfl, hu⟩⟩

theorem secured_spawnReloadTask (hup : Up parser cfg trusted w) :
    Secured PslOp.Effect (Rely parser cfg trusted .startup) (May parser cfg trusted .startup)
      (fun _ t ↦ Up parser cfg trusted t) (spawnReloadTask cfg) w := by
  refine secured_query_bind stable_up hup fun watched t t' ht heffect ↦ ?_
  obtain rfl := heffect
  refine ⟨(may_startup ht _).1, secured_bind ?_⟩
  refine secured_withContext stable_up ht (fun _ _ u hu ↦ ?_) fun _ _ ↦ id
  exact (secured_spawn .reload hu).mono fun _ _ ↦ And.right

/-- **At startup.** -/
theorem secured_init (hs : Down parser cfg trusted w) :
    Secured PslOp.Effect (Rely parser cfg trusted .startup) (May parser cfg trusted .startup)
      (fun _ _ ↦ True) (init parser cfg) w := by
  refine secured_bind ((secured_loadInitial grounds_startup hs).mono fun x t ht ↦ ?_)
  cases x with
  | error e => trivial
  | ok list =>
    have hlist := ht.2 list rfl
    refine secured_query_bind stable_down ht.1 fun _ u u' hu heffect ↦ ?_
    obtain rfl := heffect
    have hmay : May parser cfg trusted .startup u { u with active := some list } :=
      .inl ⟨hu.2, .inr ⟨rfl, rfl, .inr ⟨list, hlist, rfl⟩⟩⟩
    have hup : Up parser cfg trusted { u with active := some list } := ⟨hmay.ok hu.1, rfl⟩
    refine ⟨hmay, ?_⟩
    have hsighup : ∀ v, Up parser cfg trusted v → Secured PslOp.Effect
        (Rely parser cfg trusted .startup) (May parser cfg trusted .startup) (fun _ _ ↦ True)
        (Program.query (PslOp.spawn .sighup) : PslProgram Unit) v :=
      fun v hv ↦ (secured_spawn .sighup hv).mono fun _ _ _ ↦ trivial
    have hupdate : ∀ v, Up parser cfg trusted v → Secured PslOp.Effect
        (Rely parser cfg trusted .startup) (May parser cfg trusted .startup) (fun _ _ ↦ True)
        (do
          if cfg.checkInterval.isSome ∧ cfg.autoUpdate ∧ cfg.source = .file then
            Program.query (PslOp.spawn .update)
          Program.query (PslOp.spawn .sighup) : PslProgram Unit) v := by
      intro v hv
      split_ifs
      · refine secured_bind ((secured_spawn .update hv).mono ?_)
        rintro _ t ⟨rfl, ht⟩
        exact hsighup t ht
      · exact hsighup v hv
    by_cases hreload : cfg.autoReload ∧ cfg.source = .file
    · simp only [if_pos hreload]
      refine secured_query_bind stable_up hup fun there v v' hv heffect ↦ ?_
      obtain ⟨rfl, -⟩ := heffect
      refine ⟨(may_startup hv _).1, ?_⟩
      by_cases hthere : there = true
      · simp only [if_pos hthere]
        refine secured_bind ((secured_spawnReloadTask hv).mono fun x t ht ↦ ?_)
        cases x with
        | ok => exact hupdate t ht
        | error e => trivial
      · simp only [if_neg hthere]
        exact hupdate v' hv
    · simp only [if_neg hreload]
      exact hupdate _ hup

/-- **At runtime**, a stale file is downloaded again. -/
theorem secured_updatePass (hs : Up parser cfg trusted w) :
    Secured PslOp.Effect (Rely parser cfg trusted .update) (May parser cfg trusted .update)
      (fun _ _ ↦ True) (updatePass parser cfg) w := by
  have hground : Grounds parser cfg trusted (Rely parser cfg trusted .update)
      (May parser cfg trusted .update) (Up parser cfg trusted) := grounds_update
  refine secured_bind (secured_attempt ((secured_fileAge hground hs _).mono fun age t ht ↦ ?_))
  cases age with
  | error e => exact fun _ _ ↦ trivial
  | ok age =>
    dsimp only
    split_ifs
    · refine secured_bind (secured_attempt ((secured_downloadAndSave hground ht).mono ?_))
      exact fun _ _ _ _ _ ↦ trivial
    · exact fun _ _ ↦ trivial

/-- **At runtime**, the file is read, and what it holds put in force if it passes the checks. The
two tasks that do this may do the same. -/
theorem secured_reloadPass
    (hmay : ∀ t t', t.active.isSome →
      Swaps (fun list ↦ Sound parser trusted list ∧ parser.Sane list) t t' → may t t')
    (hs : Up parser cfg trusted w) :
    Secured PslOp.Effect (Rely parser cfg trusted task) may (fun _ _ ↦ True)
      (reloadPass parser cfg) w := by
  refine secured_query_bind stable_up hs fun answer t t' ht heffect ↦ ?_
  obtain ⟨rfl, hread⟩ := heffect
  refine ⟨hmay t' t' ht.2 (.refl t'), ?_⟩
  cases answer with
  | error e => exact fun _ _ ↦ trivial
  | ok bytes =>
    have hvouched := ht.1.file bytes (hread bytes rfl)
    refine secured_bind (secured_attempt ?_)
    rw [PslParser.replaceFromBytes]
    cases hparse : parser.fromBytes bytes with
    | error e => exact fun _ _ _ _ ↦ trivial
    | ok list =>
      by_cases hsane : parser.Sane list
      · simp only [Except.mapError, Program.ofExcept_ok, Program.done_bind, if_pos hsane]
        refine secured_query stable_up ht fun _ u u' hu heffect ↦ ?_
        obtain rfl := heffect
        have hlist : Sound parser trusted list := ⟨bytes, hparse, .inr hvouched⟩
        refine ⟨hmay u _ hu.2 ⟨rfl, rfl, .inr ⟨list, ⟨hlist, hsane⟩, rfl⟩⟩, ?_⟩
        exact fun _ _ _ _ ↦ trivial
      · simp only [Except.mapError, Program.ofExcept_ok, Program.done_bind, if_neg hsane]
        exact fun _ _ _ _ ↦ trivial

/-- A task that is woken once there is a list keeps its promise. -/
theorem secured_pass (hne : task ≠ .startup) (hs : Up parser cfg trusted w) :
    Secured PslOp.Effect (Rely parser cfg trusted task) (May parser cfg trusted task)
      (fun _ _ ↦ True) (pass parser cfg task) w := by
  cases task with
  | startup => exact absurd rfl hne
  | update => exact secured_updatePass hs
  | reload => exact secured_reloadPass (fun _ _ ↦ And.intro) hs
  | sighup => exact secured_reloadPass (fun _ _ ↦ And.intro) hs

end Passes

/-! ## Runs -/

/-- The tasks of a process with what they share. -/
abbrev PslState := Abreast PslOp PslOp.Answer ErrorChain Unit PslWorld PslTask

/-- No process is running. -/
def halted (files : Files Path Bytes) : PslState :=
  ⟨⟨files, none, fun _ ↦ false⟩, fun _ ↦ .done ()⟩

section Runs

variable (parser : PslParser) (cfg : PslConfig) (trusted : Bytes → Prop)

/-- A task has nothing left to do. -/
def Finished (p : PslProgram Unit) : Prop := ∃ result, p = .ofExcept result

/-- What happens while the process is running: a task goes on, the operator edits files, or a
background task is woken. -/
inductive Goes : PslState → PslState → Prop
  | run {s s' : PslState} (h : Abreast.Step PslOp.Effect (Outside cfg trusted) s s') : Goes s s'
  | wake {s : PslState} (task : PslTask) (hne : task ≠ .startup) (hspawned : s.world.spawned task)
      (hfinished : Finished (s.tasks task)) : Goes s (s.launch task (pass parser cfg task))

/-- What happens over time: the process may also be killed, and be started again. -/
inductive Step : PslState → PslState → Prop
  | goes {s s' : PslState} (h : Goes parser cfg trusted s s') : Step s s'
  | kill {s : PslState} : Step s (halted s.world.files)
  | start {files : Files Path Bytes} :
      Step (halted files) ((halted files).launch .startup (pass parser cfg .startup))

/-- Every task keeps its promise, and the file and the list are as they should be. -/
def Inv (s : PslState) : Prop :=
  s.AllSecured PslOp.Effect (Outside cfg trusted) (May parser cfg trusted) (fun _ _ _ ↦ True) ∧
    Ok parser cfg trusted s.world

end Runs

section Runs

variable {parser : PslParser} {cfg : PslConfig} {trusted : Bytes → Prop} {s s' : PslState}
  {files : Files Path Bytes}

theorem Goes.act (task : PslTask) {q : PslOp} {next : q.Answer → PslProgram Unit} {a : q.Answer}
    {t : PslWorld} (hask : s.tasks task = .ask q next) (heffect : q.Effect a s.world t) :
    Goes parser cfg trusted s (Abreast.launch { s with world := t } task (next a)) :=
  .run (.act task hask heffect)

theorem inv_halted (hfiles : ∀ bytes, files cfg.path = some bytes → Vouched parser trusted bytes) :
    Inv parser cfg trusted (halted files) :=
  ⟨fun _ _ _ ↦ trivial, hfiles, nofun, nofun⟩

theorem inv_step (hs : Inv parser cfg trusted s) (hstep : Step parser cfg trusted s s') :
    Inv parser cfg trusted s' := by
  obtain ⟨hsecured, hok⟩ := hs
  cases hstep with
  | goes h =>
    cases h with
    | run h =>
      exact ⟨hsecured.step h, hsecured.invariant_step (fun _ _ hw hout ↦ hout.ok hw)
        (fun _ _ _ hw hmay ↦ hmay.ok hw) hok h⟩
    | wake task hne hspawned =>
      exact ⟨hsecured.launch (secured_pass hne ⟨hok, hok.spawned task hspawned⟩), hok⟩
  | kill => exact inv_halted hok.file
  | start => exact ⟨hsecured.launch (secured_init ⟨hok, rfl⟩), hok⟩

theorem inv_of_reach
    (hfiles : ∀ bytes, files cfg.path = some bytes → Vouched parser trusted bytes)
    (hreach : Relation.ReflTransGen (Step parser cfg trusted) (halted files) s) :
    Inv parser cfg trusted s := by
  induction hreach with
  | refl => exact inv_halted hfiles
  | tail _ hstep ih => exact inv_step ih hstep

/-- What a task may do to the files and to a list that is in force. -/
theorem May.visible {task : PslTask} {w w' : PslWorld} (h : May parser cfg trusted task w w') :
    (∀ path, path ≠ cfg.path → path ≠ stagingPath cfg.path → w'.files path = w.files path) ∧
      (w.active.isSome → w'.active = w.active ∨ ∃ list, parser.Sane list ∧
        Sound parser trusted list ∧ w'.active = some list) := by
  have hswaps : ∀ w w', Swaps (fun list ↦ Sound parser trusted list ∧ parser.Sane list) w w' →
      (∀ path, path ≠ cfg.path → path ≠ stagingPath cfg.path → w'.files path = w.files path) ∧
        (w.active.isSome → w'.active = w.active ∨ ∃ list, parser.Sane list ∧
          Sound parser trusted list ∧ w'.active = some list) := by
    intro w w' hswaps
    refine ⟨fun path _ _ ↦ by rw [hswaps.files], fun _ ↦ hswaps.active.imp_right ?_⟩
    rintro ⟨list, ⟨hsound, hsane⟩, heq⟩
    exact ⟨list, hsane, hsound, heq⟩
  cases task with
  | startup =>
    rcases h with ⟨hdown, hsaves | hswaps⟩ | ⟨hup, hfiles, hactive⟩
    · exact ⟨hsaves.frame, fun _ ↦ .inl hsaves.active⟩
    · refine ⟨fun path _ _ ↦ by rw [hswaps.files], fun hup ↦ ?_⟩
      rw [hdown] at hup
      exact absurd hup nofun
    · exact ⟨fun path _ _ ↦ by rw [hfiles], fun _ ↦ .inl hactive⟩
  | update => exact ⟨h.2.frame, fun _ ↦ .inl h.2.active⟩
  | reload => exact hswaps w w' h.2
  | sighup => exact hswaps w w' h.2

/-- **The list in force.** Whatever comes in between what, the file holds what the operator put
there or a whole download that parses, and the list in force is made from such content or compiled
in. The gateway writes nothing but the file and its staging file, and once there is a list, only one
that passes the sanity check takes its place. -/
theorem list_vouched (hfiles : ∀ bytes, files cfg.path = some bytes → trusted bytes)
    (hreach : Relation.ReflTransGen (Step parser cfg trusted) (halted files) s) :
    (∀ bytes, s.world.files cfg.path = some bytes → Vouched parser trusted bytes) ∧
      (∀ list, s.world.active = some list → Sound parser trusted list) ∧
      ∀ s', Step parser cfg trusted s s' → Outside cfg trusted s.world s'.world ∨
        (∀ path, path ≠ cfg.path → path ≠ stagingPath cfg.path →
          s'.world.files path = s.world.files path) ∧
        ∀ list list', s.world.active = some list → s'.world.active = some list' →
          list' = list ∨ parser.Sane list' ∧ Sound parser trusted list' := by
  obtain ⟨hsecured, hok⟩ := inv_of_reach (fun bytes hbytes ↦ .inl (hfiles bytes hbytes)) hreach
  refine ⟨hok.file, hok.list, fun s' hstep ↦ ?_⟩
  cases hstep with
  | goes h =>
    cases h with
    | run h =>
      refine (hsecured.world_step h).imp_right ?_
      rintro ⟨task, hmay⟩
      obtain ⟨hframe, hlist⟩ := hmay.visible
      refine ⟨hframe, fun list list' hactive hactive' ↦ ?_⟩
      rcases hlist (Option.isSome_of_eq_some hactive) with hsame | ⟨new, hsane, hsound, hnew⟩
      · exact .inl (Option.some.inj (hactive'.symm.trans (hsame.trans hactive)))
      · obtain rfl := Option.some.inj (hactive'.symm.trans hnew)
        exact .inr ⟨hsane, hsound⟩
    | wake task =>
      refine .inr ⟨fun _ _ _ ↦ rfl, fun list list' hactive hactive' ↦ .inl ?_⟩
      exact Option.some.inj (hactive'.symm.trans hactive)
  | kill => exact .inr ⟨fun _ _ _ ↦ rfl, nofun⟩
  | start => exact .inr ⟨fun _ _ _ ↦ rfl, nofun⟩

end Runs

/-- A parser that takes anything for one list, which knows every name. -/
def anyList : PslParser where
  fromBytes _ := .ok ⟨fun name ↦ some (name, none)⟩
  domain _ name := some name
  embeddedList := []

/-- A list that is to be downloaded. -/
def downloaded : PslConfig := { source := .file, path := ["list".toList], autoUpdate := true }

/-- A gateway that is killed while it writes its first download. -/
theorem list_vouched_killed : ∃ s, Relation.ReflTransGen (Step anyList downloaded fun _ ↦ False)
    (halted fun _ ↦ none) s ∧ s.world.files (stagingPath downloaded.path) = some [0] ∧
      ∀ bytes, s.world.files downloaded.path = some bytes →
        Vouched anyList (fun _ ↦ False) bytes := by
  have hreach : Relation.ReflTransGen (Step anyList downloaded fun _ ↦ False)
      (halted fun _ ↦ none)
      (halted (Function.update (fun _ ↦ none) (stagingPath downloaded.path) (some [0]))) := by
    refine .head .start ?_
    refine .head (.goes (.act .startup (q := .metadata _) (a := Except.error [])
      (t := ⟨fun _ ↦ none, none, fun _ ↦ false⟩) rfl ⟨rfl, nofun⟩)) ?_
    refine .head (.goes (.act .startup (q := .get _ _) (a := Except.ok [1])
      (t := ⟨fun _ ↦ none, none, fun _ ↦ false⟩) rfl rfl)) ?_
    refine .head (.goes (.act .startup (q := .write _ _) (a := Except.error [])
      (t := ⟨Function.update (fun _ ↦ none) (stagingPath downloaded.path) (some [0]), none,
        fun _ ↦ false⟩) rfl ⟨some [0], rfl⟩)) ?_
    exact .single .kill
  exact ⟨_, hreach, rfl, (list_vouched nofun hreach).1⟩

end PslConfig

end SniGate
