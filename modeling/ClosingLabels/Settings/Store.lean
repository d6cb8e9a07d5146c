import ClosingLabels.Disk
import ClosingLabels.Json.Reader
import ClosingLabels.Path
import ClosingLabels.Settings.Printer
import ClosingLabels.Settings.Reader

/-!
# The settings file

Each workspace keeps its settings in a file. The settings last read are remembered
together with the workspace they are of, and asking for the same workspace again
does not look at the file; only a refresh does. Writing the file does not touch what
is remembered.
-/

namespace ClosingLabels

/-- The disk and the settings last read, with their workspace. -/
structure SettingsStore where
  disk : Disk := {}
  remembered : Option (Option String × Settings) := none
deriving DecidableEq, Repr

namespace SettingsStore

/-- A disk with one directory on it, and nothing remembered. -/
def holding (path : String) : SettingsStore := { disk := .holding (.ofPath path) }

/-- The settings file of a workspace; without a workspace there is none. -/
def path? : Option String → Option String
  | none => none
  | some root => if root = "" then none else some (Path.join [root, ".vscode", "scope-echo.json"])

/-- The settings in a text. -/
def decode (text : String) : Except Fault (Settings × List Warning) :=
  match Json.parse? text with
  | some json => .ok (Settings.ofJson json)
  | none => .error .malformedJson

/-- The text of settings. -/
def encode (settings : Settings) : String := settings.toJson.pretty

/-- The settings in a file, with warnings on the console. -/
def readFile (path : String) : Action SettingsStore Settings := do
  let store ← Action.get
  let text ← Action.ofExcept ((store.disk.read (.ofPath path)).mapError Fault.disk)
  let (settings, warnings) ← Action.ofExcept (decode text)
  Action.each warnings Action.warn
  Action.log (.settingsLoaded path)
  return settings

/-- The settings of a workspace as its file says now. Without a usable file they are
the standard ones. -/
def readNow (root : Option String) : Action SettingsStore Settings := do
  let store ← Action.get
  match (path? root).filter fun path => store.disk.has (.ofPath path) with
  | none =>
    Action.log .settingsMissing
    return .standard
  | some path =>
    Action.rescue (readFile path) fun fault => do
      Action.report .settingsLoad fault
      return .standard

/-- The settings of a workspace, as remembered if they were the last ones read. -/
def load (root : Option String) : Action SettingsStore Settings := do
  match (← Action.get).remembered.filter (·.1 = root) with
  | some (_, settings) => return settings
  | none =>
    let settings ← readNow root
    Action.modify fun s => { s with remembered := some (root, settings) }
    return settings

/-- Reads the settings of a workspace anew. -/
def refresh (root : Option String) : Action SettingsStore Settings := do
  Action.log .settingsRefreshing
  Action.modify fun s => { s with remembered := none }
  load root

/-- Changes the disk, unless that is refused. -/
def change (f : Disk → Except DiskFault Disk) : Action SettingsStore Unit := do
  let store ← Action.get
  let disk ← Action.ofExcept ((f store.disk).mapError Fault.disk)
  Action.modify fun s => { s with disk }

/-- Makes a directory on the disk, with all directories above it. -/
def makeDirectory (location : Location) : Action SettingsStore Unit := do
  let (disk, fault) := (← Action.get).disk.makeDirectory location
  Action.modify fun s => { s with disk }
  match fault with
  | none => return
  | some fault => Action.fail (.disk fault)

/-- Makes a directory on the disk unless something is there. -/
def ensureDirectory (location : Location) : Action SettingsStore Unit := do
  if !(← Action.get).disk.has location then makeDirectory location

/-- Replaces the text of a file on the disk. -/
def writeFile (location : Location) (text : String) : Action SettingsStore Unit :=
  change (·.write location text)

/-- Writes the settings file of a workspace and tells whether that worked. -/
def save (root : Option String) (settings : Settings) : Action SettingsStore Bool := do
  match path? root with
  | none =>
    Action.emit (.error .settingsHomeless none)
    return false
  | some path =>
    let file := Location.ofPath path
    Action.rescue
      (do
        ensureDirectory file.parent
        writeFile file (encode settings)
        Action.log (.settingsSaved path)
        return true)
      (fun fault => do
        Action.report .settingsSave fault
        return false)

/-- Writes the standard settings for a workspace that has no file, and tells whether
there is one now. -/
def prepare (root : Option String) : Action SettingsStore Bool := do
  match path? root with
  | none => return false
  | some path =>
    if (← Action.get).disk.has (.ofPath path) then
      Action.log .settingsPresent
      return true
    else save root .standard

/-! ## Files from outside -/

/-- Writes a file from outside, with all directories above it. -/
def writeOutside (location : Location) (text : String) : Action SettingsStore Unit := do
  makeDirectory location.parent
  writeFile location text

/-- Removes a file from outside. -/
def removeOutside (location : Location) : Action SettingsStore Unit := change (·.remove location)

/-- Reads a file from outside, if there is anything at its place. -/
def readOutside (location : Location) : Action SettingsStore (Option String) := do
  let store ← Action.get
  if store.disk.has location then
    return some (← Action.ofExcept ((store.disk.read location).mapError Fault.disk))
  else return none

end SettingsStore

end ClosingLabels
