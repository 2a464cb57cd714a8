import SniGate.Certscope.Scope
import SniGate.Store.Atomicity
import SniGate.Text.Trim

/-!
# Where the store keeps its files

A certificate's files are found by joining texts to the directory of the store: the key of its scope,
then its host with an ending. Joining is harmless for a text that is one component; any other may
leave the directory or replace the path. A scope key is one component whatever the configuration
says, and so is a host without separators once its ending is on it, so the files of the store are
contained, and the three parts of a path can be read back from it.

Paths are those of a Unix system, where the only character with a meaning is `/`.

## Design choices

Paths are texts, joined as `Path::join` does, and not lists of components; so that a component
stays one is a theorem about texts. Containment is stated of the result of joining, before anything
is opened.
-/

namespace SniGate

/-! ## Joining a text to a path -/

/-- The components of a text: what stands between its separators, `.` and nothing left out. -/
def pathComponents (text : Str) : Path :=
  (text.splitOn '/').filter fun component ↦ component ≠ [] ∧ component ≠ ['.']

/-- `Path::join`: an absolute text replaces the path, and any other is appended to it. -/
def joinPath (path : Path) (text : Str) : Path :=
  if text.head? = some '/' then ['/'] :: pathComponents text else path ++ pathComponents text

/-- A text that names an entry of the directory it is joined to. -/
structure IsComponent (name : Str) : Prop where
  nonempty : name ≠ []
  separatorless : '/' ∉ name
  not_current : name ≠ ['.']
  not_parent : name ≠ ['.', '.']

theorem joinPath_of_isComponent {name : Str} (h : IsComponent name) (path : Path) :
    joinPath path name = path ++ [name] := by
  have hroot : name.head? ≠ some '/' := fun hhead ↦
    h.separatorless (List.mem_of_mem_head? hhead)
  have hkept : pathComponents name = [name] := by
    rw [pathComponents, List.splitOn_eq_singleton h.separatorless]
    simp [h.nonempty, h.not_current]
  rw [joinPath, if_neg hroot, hkept]

/-! ## Scope keys -/

/-- The characters of a scope key. -/
def IsKeyChar (c : Char) : Prop := isAsciiAlphanumeric c ∨ c = '.' ∨ c = '-' ∨ c = '_'

/-- A name that any file system takes as it is. -/
structure SafeName (name : Str) : Prop where
  nonempty : name ≠ []
  chars : ∀ c ∈ name, IsKeyChar c
  head_ne_dot : name.head? ≠ some '.'
  last_ne_dot : name.getLast? ≠ some '.'

theorem SafeName.isComponent {name : Str} (h : SafeName name) : IsComponent name where
  nonempty := h.nonempty
  separatorless := fun hmem ↦ absurd (h.chars _ hmem) (by unfold IsKeyChar; decide)
  not_current := fun heq ↦ h.head_ne_dot (by rw [heq]; rfl)
  not_parent := fun heq ↦ h.head_ne_dot (by rw [heq]; rfl)

theorem isKeyChar_of_mem_sanitizeStep {out : Str} {c d : Char} (hout : ∀ c ∈ out, IsKeyChar c)
    (hd : d ∈ sanitizeStep out c) : IsKeyChar d := by
  rw [sanitizeStep] at hd
  split_ifs at hd with hsafe hlast
  · rcases List.mem_append.mp hd with hd | hd
    · exact hout d hd
    · obtain rfl := List.mem_singleton.mp hd
      rcases hsafe with hsafe | hsafe | hsafe
      · exact .inl hsafe
      · exact .inr (.inl hsafe)
      · exact .inr (.inr (.inl hsafe))
  · exact hout d hd
  · rcases List.mem_append.mp hd with hd | hd
    · exact hout d hd
    · exact .inr (.inr (.inr (List.mem_singleton.mp hd)))

theorem isKeyChar_of_mem_foldl_sanitizeStep (s : Str) {out : Str} (hout : ∀ c ∈ out, IsKeyChar c) :
    ∀ c ∈ s.foldl sanitizeStep out, IsKeyChar c := by
  induction s generalizing out with
  | nil => exact hout
  | cons c s ih => exact ih fun d hd ↦ isKeyChar_of_mem_sanitizeStep hout hd

theorem safeName_sanitize (s : Str) : SafeName (sanitize s) := by
  rw [sanitize, trimEndMatches]
  split_ifs with hempty
  · exact ⟨by decide, fun c hc ↦ .inr (.inr (.inr (List.mem_singleton.mp hc))), by decide,
      by decide⟩
  · refine ⟨hempty, fun c hc ↦ ?_, fun hhead ↦ ?_, fun hlast ↦ ?_⟩
    · have hmem : c ∈ s.foldl sanitizeStep [] :=
        (List.dropWhile_suffix _).subset ((List.rdropWhile_prefix _ _).subset hc)
      exact isKeyChar_of_mem_foldl_sanitizeStep s (by simp) c hmem
    · exact not_of_mem_head?_trimmed hhead (by simp)
    · exact not_of_mem_getLast?_rdropWhile hlast (by simp)

theorem SafeName.append_hex16 {name : Str} (h : SafeName name) (digest : UInt64) :
    SafeName (name ++ '-' :: hex16 digest) where
  nonempty := List.append_ne_nil_of_left_ne_nil h.nonempty _
  chars := by
    intro c hc
    rcases List.mem_append.mp hc with hc | hc
    · exact h.chars c hc
    · rcases List.mem_cons.mp hc with rfl | hc
      · exact .inr (.inr (.inl rfl))
      · exact .inl (isAsciiAlphanumeric_of_mem_hex16 hc)
  head_ne_dot := by
    rw [List.head?_append_of_ne_nil _ h.nonempty]
    exact h.head_ne_dot
  last_ne_dot := by
    have hhex : hex16 digest ≠ [] := List.ne_nil_of_length_pos (by simp)
    rw [List.append_cons, List.getLast?_append_of_ne_nil _ hhex]
    intro hlast
    have hdot := isAsciiAlphanumeric_of_mem_hex16 (List.mem_of_getLast? hlast)
    exact absurd hdot (by decide)

/-- A scope key is a safe name, whatever the configuration says. -/
theorem CertScope.safeName_new (routerFp : UInt64) (f : Forwarding) :
    SafeName (CertScope.new routerFp f) :=
  (safeName_sanitize _).append_hex16 _

/-! ## The files of the store -/

/-- The files of a certificate. -/
inductive FileKind
  | crt
  | key
  | observed
deriving DecidableEq, Repr

/-- What the name of a file ends in. -/
def FileKind.ending : FileKind → Str
  | .crt => ".crt".toList
  | .key => ".key".toList
  | .observed => ".observed".toList

theorem FileKind.ending_mem (kind : FileKind) : kind.ending ∈ CertStore.readEndings := by
  cases kind with
  | crt => decide
  | key => decide
  | observed => decide

theorem FileKind.ending_inj {kind kind' : FileKind} (h : kind.ending = kind'.ending) :
    kind = kind' := by
  cases kind <;> cases kind' <;> first | rfl | exact absurd h (by decide)

/-- The path of a file, by the store's function for its kind. -/
def CertStore.pathOf (store : CertStore) (scope host : Str) : FileKind → Path
  | .crt => store.certPath scope host
  | .key => store.keyPath scope host
  | .observed => store.observedPath scope host

/-- A file the store may be asked for: of a scope with a usable key, for a host without separators.
-/
@[ext]
structure StoreEntry where
  scope : CertScope
  host : Str
  kind : FileKind
  isComponent_scope : IsComponent scope
  separatorless_host : '/' ∉ host

/-- The name of a file. -/
def StoreEntry.name (e : StoreEntry) : Str := e.host ++ e.kind.ending

/-- The final path of a file: `scope_dir` joined with the name. -/
def StoreEntry.path (store : CertStore) (e : StoreEntry) : Path :=
  joinPath (joinPath store.dir e.scope) e.name

namespace StoreEntry

variable {store : CertStore} {e e' : StoreEntry}

theorem getLast?_name_ne (e : StoreEntry) : e.name.getLast? ≠ some '.' := by
  have hending : ∀ a ∈ CertStore.readEndings, a ≠ [] ∧ a.getLast? ≠ some '.' := by decide
  obtain ⟨hne, hlast⟩ := hending _ e.kind.ending_mem
  rwa [name, List.getLast?_append_of_ne_nil _ hne]

/-- An ending makes a component of any host without separators, even of none and of dots. -/
theorem isComponent_name (e : StoreEntry) : IsComponent e.name where
  nonempty := by
    have hending : ∀ a ∈ CertStore.readEndings, a ≠ [] := by decide
    exact List.append_ne_nil_of_right_ne_nil _ (hending _ e.kind.ending_mem)
  separatorless := by
    have hending : ∀ a ∈ CertStore.readEndings, '/' ∉ a := by decide
    exact fun hmem ↦ (List.mem_append.mp hmem).elim e.separatorless_host
      (hending _ e.kind.ending_mem)
  not_current := fun heq ↦ e.getLast?_name_ne (by rw [heq]; rfl)
  not_parent := fun heq ↦ e.getLast?_name_ne (by rw [heq]; rfl)

/-- A file lies in the directory of its scope, which lies in the directory of the store. -/
theorem path_eq (store : CertStore) (e : StoreEntry) :
    e.path store = store.dir ++ [e.scope, e.name] := by
  rw [path, joinPath_of_isComponent e.isComponent_scope, joinPath_of_isComponent e.isComponent_name,
    List.append_assoc, List.singleton_append]

theorem path_eq_filePath (store : CertStore) (e : StoreEntry) :
    e.path store = CertStore.filePath store e.scope e.host e.kind.ending := by
  rw [path_eq, CertStore.filePath, CertStore.scopeDir, name, List.append_assoc,
    List.singleton_append]

theorem path_eq_pathOf (store : CertStore) (e : StoreEntry) :
    e.path store = store.pathOf e.scope e.host e.kind := by
  rw [path_eq_filePath]
  cases e.kind with
  | crt => rfl
  | key => rfl
  | observed => rfl

/-- Scope, host and kind can be read back from a path. -/
theorem path_injective (store : CertStore) : Function.Injective (path store) := by
  intro e e' h
  rw [path_eq_filePath, path_eq_filePath, CertStore.filePath_eq_iff] at h
  obtain ⟨hscope, hname⟩ := h
  -- the endings differ in their last letters, so the host is what stands before them
  have hhost := CertStore.host_eq_of_ending e.kind.ending_mem
    (List.mem_append_left _ e'.kind.ending_mem) hname
  rw [hhost, List.append_cancel_left_eq] at hname
  exact StoreEntry.ext hscope hhost (FileKind.ending_inj hname)

theorem stagingPath_path (store : CertStore) (e : StoreEntry) :
    stagingPath (e.path store) =
      CertStore.filePath store e.scope e.host (e.kind.ending ++ ".tmp".toList) := by
  rw [path_eq_filePath, CertStore.stagingPath_filePath]

theorem stagingPath_path_injective (store : CertStore) :
    Function.Injective fun e : StoreEntry ↦ stagingPath (e.path store) := by
  intro e e' h
  have hpaths : CertStore.filePath store e.scope e.host (e.kind.ending ++ ".tmp".toList) =
      CertStore.filePath store e'.scope e'.host (e'.kind.ending ++ ".tmp".toList) := by
    rw [← stagingPath_path, ← stagingPath_path]
    exact h
  -- both names end in `.tmp`, and what is before it is the name of the file
  rw [CertStore.filePath_eq_iff, ← List.append_assoc, ← List.append_assoc] at hpaths
  refine path_injective store ?_
  rw [path_eq_filePath, path_eq_filePath, CertStore.filePath_eq_iff]
  exact ⟨hpaths.1, List.append_cancel_right hpaths.2⟩

/-- No file is staged where another is kept: `.tmp` is the ending of neither. -/
theorem stagingPath_path_ne (store : CertStore) (e e' : StoreEntry) :
    stagingPath (e.path store) ≠ e'.path store := by
  intro h
  rw [stagingPath_path, path_eq_filePath, CertStore.filePath_eq_iff] at h
  have hstaged : e.kind.ending ++ ".tmp".toList ∈ CertStore.writtenEndings :=
    List.mem_append_right _ (List.mem_map_of_mem e.kind.ending_mem)
  have hhost := CertStore.host_eq_of_ending e'.kind.ending_mem hstaged h.2.symm
  rw [hhost, List.append_cancel_left_eq] at h
  have hfinal : ∀ a ∈ CertStore.readEndings, ∀ b ∈ CertStore.readEndings,
      a ++ ".tmp".toList ≠ b := by decide
  exact hfinal _ e.kind.ending_mem _ e'.kind.ending_mem h.2

theorem dropLast_stagingPath_path (store : CertStore) (e : StoreEntry) :
    (stagingPath (e.path store)).dropLast = (e.path store).dropLast := by
  rw [stagingPath, withFileName, List.dropLast_concat]

end StoreEntry

/-- **Store paths are contained and never collide.** Every scope key is one component of safe
characters with a dot at neither end. For hosts without separators, a final path is the directory of
the store, the scope key and one more component; scope key, host and kind can be told from it; and
the staging path is in the same directory and neither a final path nor that of another file. -/
theorem storePaths_contained :
    (∀ (routerFp : UInt64) (f : Forwarding),
      SafeName (CertScope.new routerFp f) ∧ IsComponent (CertScope.new routerFp f)) ∧
    ∀ store : CertStore,
      (∀ e : StoreEntry, e.path store = store.pathOf e.scope e.host e.kind ∧
        (e.path store = store.dir ++ [e.scope, e.name] ∧ IsComponent e.scope ∧
          IsComponent e.name) ∧
        (stagingPath (e.path store)).dropLast = (e.path store).dropLast) ∧
      Function.Injective (StoreEntry.path store) ∧
      ∀ e e' : StoreEntry, stagingPath (e.path store) ≠ e'.path store ∧
        (e ≠ e' → stagingPath (e.path store) ≠ stagingPath (e'.path store)) := by
  refine ⟨fun routerFp f ↦ ?_, fun store ↦ ⟨fun e ↦ ?_, StoreEntry.path_injective store,
    fun e e' ↦ ⟨e.stagingPath_path_ne store e', fun hne heq ↦ ?_⟩⟩⟩
  · have hsafe := CertScope.safeName_new routerFp f
    exact ⟨hsafe, hsafe.isComponent⟩
  · have hcontained := e.path_eq store
    exact ⟨e.path_eq_pathOf store, ⟨hcontained, e.isComponent_scope, e.isComponent_name⟩,
      e.dropLast_stagingPath_path store⟩
  · exact hne (StoreEntry.stagingPath_path_injective store heq)

end SniGate
