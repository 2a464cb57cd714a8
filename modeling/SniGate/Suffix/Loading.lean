import SniGate.Config.Types
import SniGate.Dns.Lookup
import SniGate.Interaction.Parallel
import SniGate.Resolver.Clip
import SniGate.Store.Basic

/-!
# Loading and refreshing the public suffix list

The list is compiled in, or it comes from a file that the operator maintains or that the gateway
downloads itself. At startup the file is loaded, after a download if it is missing or stale. Later
the file may be checked again from time to time, and it is loaded again when it changes or on a
hangup signal.

Each of these is a program that asks for the file, the network and the list in force. What the
questions do to the files and to the list is `PslOp.Effect`. A write that fails may leave anything
in its file, so a process that is killed inside a write is one whose write fails and that is killed
then.

The parser of the list format is third-party code and enters as a `PslParser`.
-/

namespace SniGate

/-! ## Configuration -/

/-- Where the list comes from. -/
inductive PslSource
  | embedded
  | file
deriving DecidableEq, Repr

/-- Public suffix list configuration. -/
structure PslConfig where
  source : PslSource := .embedded
  /-- Only used with a file. -/
  path : Path := ["cache".toList, "public_suffix_list.dat".toList]
  autoUpdate : Bool := false
  updateUrl : Str := "https://publicsuffix.org/list/public_suffix_list.dat".toList
  maxAge : Duration := fromSecs (30 * 24 * 60 * 60)
  /-- How often to check the age of the file at runtime. -/
  checkInterval : Option Duration := none
  updateTimeout : Duration := fromSecs 30
  autoReload : Bool := false
deriving DecidableEq, Repr

/-- The parser, what it says about a name, and the list that is compiled in. -/
structure PslParser where
  fromBytes : Bytes → Except Str SuffixList
  /-- The registrable domain of a name. -/
  domain : SuffixList → Str → Option Str
  embeddedList : Bytes

/-! ## What is asked -/

/-- The tasks of the process that have to do with the list. -/
inductive PslTask
  | startup
  | update
  | reload
  | sighup
deriving DecidableEq, Repr

/-- What the tasks ask for. -/
inductive PslOp
  /-- The metadata of a file, and the modification time in it. -/
  | metadata (path : Path)
  | now
  | pathExists (path : Path)
  /-- Download. -/
  | get (url : Str) (timeout : Duration)
  | createDirAll (path : Path)
  | write (path : Path) (data : Bytes)
  | rename (source target : Path)
  | read (path : Path)
  /-- Watch a file for changes. -/
  | watch (path : Path)
  /-- Put a list in force. -/
  | activate (list : SuffixList)
  | spawn (task : PslTask)

/-- What comes back. -/
abbrev PslOp.Answer : PslOp → Type
  | metadata _ => Except ErrorChain (Except ErrorChain ℤ)
  | now => ℤ
  | pathExists _ => Bool
  | get .. => Except ErrorChain Bytes
  | createDirAll _ => Except ErrorChain Unit
  | write .. => Except ErrorChain Unit
  | rename .. => Except ErrorChain Unit
  | read _ => Except ErrorChain Bytes
  | watch _ => Except ErrorChain Unit
  | activate _ => Unit
  | spawn _ => Unit

/-- A part of what a task does. -/
abbrev PslProgram (α : Type) := Program PslOp PslOp.Answer ErrorChain α

/-! ## The list itself -/

namespace PslParser

variable (parser : PslParser)

/-- `SuffixList::from_file`. -/
def fromFile (bytes : Bytes) : Except ErrorChain SuffixList :=
  (parser.fromBytes bytes).mapError fun e ↦ ["parsing public suffix list file: ".toList ++ e]

/-- `SuffixList::embedded`. -/
def embedded : Except ErrorChain SuffixList :=
  (parser.fromBytes parser.embeddedList).mapError fun e ↦
    ["parsing embedded public suffix list: ".toList ++ e]

/-- A list that resolves a well-known suffix of several labels. -/
def Sane (list : SuffixList) : Prop := (parser.domain list "example.co.uk".toList).isSome

instance (list : SuffixList) : Decidable (parser.Sane list) := inferInstanceAs (Decidable (_ = _))

/-- `SuffixList::replace_from_bytes`: the list in force is replaced, unless the new one is
broken. -/
def replaceFromBytes (bytes : Bytes) : PslProgram Unit := do
  let parsed ← .ofExcept ((parser.fromBytes bytes).mapError fun e ↦
    ["parsing downloaded public suffix list: ".toList ++ e])
  if parser.Sane parsed then Program.query (PslOp.activate parsed)
  else .fail ["downloaded list failed a sanity check; keeping the current list".toList]

end PslParser

/-! ## Programs -/

namespace PslConfig

/-- `Path::display`. -/
def display (path : Path) : Str := join "/".toList path

/-- Add to the chain of an answer that may be an error. -/
def withContext {α : Type} (context : List Str) (answer : Except ErrorChain α) : PslProgram α :=
  .ofExcept (answer.mapError (context ++ ·))

/-- How long ago a file was modified. -/
def fileAge (path : Path) : PslProgram Duration := do
  let answer ← Program.query (PslOp.metadata path)
  let modified ← withContext ["stat ".toList ++ display path] answer
  let mtime ← withContext ["reading mtime of ".toList ++ display path] modified
  let now ← Program.query .now
  return (now - mtime).toNat

/-- Save atomically, creating the parent directory if there is none yet. -/
def saveToFile (path : Path) (data : Bytes) : PslProgram Unit := do
  let parent := path.dropLast
  if parent ≠ [] then
    let made ← Program.query (PslOp.createDirAll parent)
    withContext ["creating PSL cache directory ".toList ++ display parent] made
  let tmp := stagingPath path
  let written ← Program.query (PslOp.write tmp data)
  withContext ["writing to ".toList ++ display tmp] written
  let renamed ← Program.query (PslOp.rename tmp path)
  withContext ["renaming ".toList ++ display tmp ++ " to ".toList ++ display path] renamed

variable (parser : PslParser) (cfg : PslConfig)

/-- Load from the file. -/
def loadFromFile (path : Path) : PslProgram SuffixList := do
  let answer ← Program.query (PslOp.read path)
  let bytes ← withContext ["reading PSL from ".toList ++ display path] answer
  .ofExcept (parser.fromFile bytes)

/-- Download, and save what parses. -/
def downloadAndSave : PslProgram Unit := do
  let url := if cfg.updateUrl = [] then PslConfig.updateUrl {} else cfg.updateUrl
  let answer ← Program.query (PslOp.get url cfg.updateTimeout)
  let bytes ← withContext [] answer
  if bytes = [] then .fail ["downloaded PSL is empty".toList]
  else
    -- the list it makes is not used: the file is loaded again
    let _ ← withContext ["validating downloaded PSL".toList] (parser.fromFile bytes)
    saveToFile cfg.path bytes

/-- The initial list. -/
def loadInitial : PslProgram SuffixList :=
  match cfg.source with
  | .embedded => .ofExcept parser.embedded
  | .file =>
    if cfg.autoUpdate then do
      let age ← (fileAge cfg.path).attempt
      match age with
      | .ok age =>
        if age ≤ cfg.maxAge then loadFromFile parser cfg.path
        else do
          -- if the download fails, the stale file has to do
          let _ ← (downloadAndSave parser cfg).attempt
          loadFromFile parser cfg.path
      | .error _ => do
        let saved ← (downloadAndSave parser cfg).attempt
        match saved with
        | .ok () => loadFromFile parser cfg.path
        | .error _ => .ofExcept parser.embedded
    else loadFromFile parser cfg.path

/-- Start watching the file. -/
def spawnReloadTask : PslProgram Unit := do
  let watched ← Program.query (PslOp.watch cfg.path)
  withContext ["watching ".toList ++ display cfg.path] watched
  Program.query (PslOp.spawn .reload)

/-- Load the list and start the background tasks. -/
def init : PslProgram Unit := do
  let list ← loadInitial parser cfg
  Program.query (PslOp.activate list)
  if cfg.autoReload ∧ cfg.source = .file then
    let there ← Program.query (PslOp.pathExists cfg.path)
    if there then spawnReloadTask cfg
  if cfg.checkInterval.isSome ∧ cfg.autoUpdate ∧ cfg.source = .file then
    Program.query (PslOp.spawn .update)
  Program.query (PslOp.spawn .sighup)

/-- One pass of the update task: a file that is there and stale is downloaded again. -/
def updatePass : PslProgram Unit := do
  let age ← (fileAge cfg.path).attempt
  match age with
  | .ok age =>
    if cfg.maxAge < age then
      let _ ← (downloadAndSave parser cfg).attempt
      return ()
  | .error _ => return ()

/-- One pass of the reload task, or of the hangup handler. -/
def reloadPass : PslProgram Unit := do
  let answer ← Program.query (PslOp.read cfg.path)
  match answer with
  | .ok bytes =>
    let _ ← (parser.replaceFromBytes bytes).attempt
    return ()
  | .error _ => return ()

/-- What a task does when it is woken. -/
def pass : PslTask → PslProgram Unit
  | .startup => init parser cfg
  | .update => updatePass parser cfg
  | .reload => reloadPass parser cfg
  | .sighup => reloadPass parser cfg

end PslConfig

/-! ## What the questions do -/

/-- What the tasks share: the files, the list in force once there is one, and which background tasks
have been started. -/
structure PslWorld where
  files : Files Path Bytes
  active : Option SuffixList
  spawned : PslTask → Bool

/-- What a question may do before it is answered in a certain way. -/
def PslOp.Effect : (op : PslOp) → op.Answer → PslWorld → PslWorld → Prop
  | metadata path, answer, w, w' => w' = w ∧ (Except.isOk answer → (w.files path).isSome)
  | pathExists path, answer, w, w' => w' = w ∧ (answer = true → (w.files path).isSome)
  | write path data, answer, w, w' =>
    match (answer : Except ErrorChain Unit) with
    | .ok () => w' = { w with files := (FileOp.write path data).apply w.files }
    | .error _ => ∃ torn, w' = { w with files := Function.update w.files path torn }
  | rename source target, answer, w, w' =>
    match (answer : Except ErrorChain Unit) with
    | .ok () => (w.files source).isSome ∧
      w' = { w with files := (FileOp.rename source target).apply w.files }
    | .error _ => w' = w
  | read path, answer, w, w' =>
    w' = w ∧ ∀ bytes, (answer : Except ErrorChain Bytes) = .ok bytes → w.files path = some bytes
  | activate list, _, w, w' => w' = { w with active := some list }
  | spawn task, _, w, w' => w' = { w with spawned := Function.update w.spawned task true }
  | now, _, w, w' | get .., _, w, w' | createDirAll _, _, w, w' | watch _, _, w, w' => w' = w

end SniGate
