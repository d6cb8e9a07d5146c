import ClosingLabels.Json.Printer

/-!
# Notices

What the program tells whoever reads its console: notices of normal work, warnings
about input it sets aside, and failures it survives. Each is named for what
happened; its wording is fixed here.
-/

namespace ClosingLabels

/-- Something worth noting in normal work. -/
inductive Notice where
  | catalogLoaded (languages : Nat)
  | enabled (document : String)
  | disabled (document : String)
  | decorationTypeMade
  | settingsMissing
  | settingsLoaded (path : String)
  | settingsRefreshing
  | settingsSaved (path : String)
  | settingsPresent
  | settingsChanged
  | staleParse (document : String)
  | parsed (document : String) (language : Text)
  | grammarLoaded (file : String) (language : Text)
  | documentOpened (document : String) (language : Text)
  | noGrammar (language : Text)
  | activating
deriving DecidableEq, Repr

/-- Input that is set aside. -/
inductive Warning where
  | settingsNotObject
  | ignoredMinLines (value : Json)
  | ignoredMarker
  | ignoredFlag (name : String)
  | ignoredStyle
  | ignoredStylePart (name : String)
  | ignoredTargets
  | ignoredTarget (language : Text)
  | ignoredGrammars
  | ignoredGrammar (language : Text)
  | missingGrammar (file : String) (language : Text)
deriving Repr

/-- A failure that the program survives. -/
inductive Failure where
  | extraction (language : Text)
  | recompute (document : String)
  | repaint (document : String)
  | removal (anchor : Rat)
  | patternBuild (language : Text)
  | grammarLoad (language : Text)
  | listener (document : String)
  | settingsLoad
  | settingsSave
  | settingsHomeless
  | documentOpen
  | documentChange
  | documentParse
  | settingsOpen
deriving DecidableEq, Repr

/-- Every line on the console starts with this tag. -/
def consoleTag : String := "[scope-echo] "

/-- The wording of a notice. -/
def Notice.text : Notice → Text
  | .catalogLoaded languages => s!"{consoleTag}Scope targets loaded for {languages} languages"
  | .enabled document => s!"{consoleTag}Enabled for {document}"
  | .disabled document => s!"{consoleTag}Disabled for {document}"
  | .decorationTypeMade => s!"{consoleTag}Created scope annotation decoration type"
  | .settingsMissing => s!"{consoleTag}Configuration file not found, using defaults"
  | .settingsLoaded path => s!"{consoleTag}Loaded configuration from: {path}"
  | .settingsRefreshing => s!"{consoleTag}Refreshing configuration cache"
  | .settingsSaved path => s!"{consoleTag}Configuration saved to: {path}"
  | .settingsPresent => s!"{consoleTag}Configuration file already exists"
  | .settingsChanged => s!"{consoleTag}Configuration file changed, reloading"
  | .staleParse document => s!"{consoleTag}Dropped stale parse of {document}"
  | .parsed document language => s!"{consoleTag}Parsed {document} (" ++ language ++ ")"
  | .grammarLoaded file language => s!"{consoleTag}Loaded {file} for " ++ language
  | .documentOpened document language =>
    s!"{consoleTag}Document opened: {document} (language: " ++ language ++ ")"
  | .noGrammar language =>
    s!"{consoleTag}No grammar available for '" ++ language ++ "', nothing to annotate"
  | .activating => s!"{consoleTag}Activating"

/-- The wording of a warning. -/
def Warning.text : Warning → Text
  | .settingsNotObject => s!"{consoleTag}Configuration is not an object, using defaults"
  | .ignoredMinLines value =>
    s!"{consoleTag}Ignoring minLines: expected a non-negative integer, got " ++ value.compact
  | .ignoredMarker => s!"{consoleTag}Ignoring overlayPrefix: expected a string"
  | .ignoredFlag name => s!"{consoleTag}Ignoring {name}: expected a boolean"
  | .ignoredStyle => s!"{consoleTag}Ignoring style: expected an object"
  | .ignoredStylePart name => s!"{consoleTag}Ignoring style.{name}: expected a string"
  | .ignoredTargets => s!"{consoleTag}Ignoring scopeTargets: expected an object"
  | .ignoredTarget language =>
    s!"{consoleTag}Ignoring scopeTargets." ++ language ++ ": expected a list of node kinds"
  | .ignoredGrammars => s!"{consoleTag}Ignoring grammars: expected an object"
  | .ignoredGrammar language =>
    s!"{consoleTag}Ignoring grammars." ++ language ++ ": expected a .wasm file name"
  | .missingGrammar file language => s!"{consoleTag}No grammar {file} for " ++ language

/-- The wording of a failure. -/
def Failure.text : Failure → Text
  | .extraction language =>
    s!"{consoleTag}Failed to extract scopes for language '" ++ language ++ "':"
  | .recompute document => s!"{consoleTag}Recompute failed for {document}:"
  | .repaint document => s!"{consoleTag}Failed to repaint {document}:"
  | .removal anchor =>
    s!"{consoleTag}Failed to remove annotation at " ++ Number.textOf anchor ++ ":"
  | .patternBuild language =>
    s!"{consoleTag}Failed to build scope query for '" ++ language ++ "':"
  | .grammarLoad language => s!"{consoleTag}Failed to load " ++ language ++ " grammar:"
  | .listener document => s!"{consoleTag}Listener failed for {document}:"
  | .settingsLoad => s!"{consoleTag}Failed to load configuration, using defaults:"
  | .settingsSave => s!"{consoleTag}Failed to save configuration:"
  | .settingsHomeless => s!"{consoleTag}No workspace available to save configuration"
  | .documentOpen => s!"{consoleTag}Failed to handle document open:"
  | .documentChange => s!"{consoleTag}Failed to handle document change:"
  | .documentParse => s!"{consoleTag}Failed to parse document:"
  | .settingsOpen => s!"{consoleTag}Failed to open configuration file:"

end ClosingLabels
