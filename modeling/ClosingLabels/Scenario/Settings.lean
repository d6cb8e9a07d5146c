import ClosingLabels.Settings.Store

/-!
# Settings files coming and going

A scenario loads, refreshes and saves the settings of workspaces below one base
directory, while their files are changed from outside.
-/

namespace ClosingLabels.Scenario

/-- Where a workspace lies below the base directory. -/
def rootBelow (base : String) : Option String → Option String
  | none => none
  | some workspace => some (if workspace = "" then "" else Path.join [base, workspace])

/-- Where a path below the base directory leads. -/
def placeBelow (base path : String) : Location := .ofPath (Path.join [base, path])

/-- Something done to settings or to files. Workspaces and paths lie below the base. -/
inductive SettingsStep where
  | load (workspace : Option String)
  | refresh (workspace : Option String)
  | save (workspace : Option String) (raw : Json)
  | prepare (workspace : Option String)
  | write (path text : String)
  | makeDirectory (path : String)
  | remove (path : String)
  | read (path : String)

/-- What a step answers. -/
inductive SettingsReply where
  | done
  | settings (settings : Settings)
  | flag (value : Bool)
  | text (text : Option String)

/-- Does it. -/
def SettingsStep.perform (base : String) : SettingsStep → Action SettingsStore SettingsReply
  | .load workspace => do
    return .settings (← SettingsStore.load (rootBelow base workspace))
  | .refresh workspace => do
    return .settings (← SettingsStore.refresh (rootBelow base workspace))
  | .save workspace raw => do
    let (settings, warnings) := Settings.ofJson raw
    Action.each warnings Action.warn
    return .flag (← SettingsStore.save (rootBelow base workspace) settings)
  | .prepare workspace => do
    return .flag (← SettingsStore.prepare (rootBelow base workspace))
  | .write path text => do
    SettingsStore.writeOutside (placeBelow base path) text
    return .done
  | .makeDirectory path => do
    SettingsStore.makeDirectory (placeBelow base path)
    return .done
  | .remove path => do
    SettingsStore.removeOutside (placeBelow base path)
    return .done
  | .read path => do
    return .text (← SettingsStore.readOutside (placeBelow base path))

end ClosingLabels.Scenario
