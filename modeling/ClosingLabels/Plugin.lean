import ClosingLabels.Canvas.Decorations
import ClosingLabels.Forest
import ClosingLabels.Workbench

/-!
# The plugin

What lives in the editor while the plugin is active: a catalog, the grammars and
trees, and the labels that are on. The plugin works at a desk, which is its own state
beside that of the workbench. This file says what it does when a document is opened,
changed or closed, when other editors become visible, when the settings change, and
when one of its commands is called.
-/

namespace ClosingLabels

/-- The state of one plugin. -/
structure Plugin where
  catalog : Catalog
  grammars : Grammars (Waiter Nat) := {}
  forest : Forest Nat String := {}
  decorations : Decorations := {}
  overlay : Overlay Nat := {}
  board : Switchboard := {}

/-- A plugin at work: the workbench, the plugin, and the tasks and requests it has left. -/
structure Desk where
  bench : Workbench
  plugin : Plugin
  tasks : List (Task (Waiter Nat) (Work Nat)) := []
  requests : List Request := []

namespace Desk

/-- The grove of a desk: the plugin's forest and grammars with the toolkit of the
workbench. -/
def grovePart : Lens Desk (Grove Nat String) where
  get d := ⟨⟨d.bench.toolkit, d.plugin.grammars, d.tasks, d.requests⟩, d.plugin.forest⟩
  set g d := {
    bench := { d.bench with toolkit := g.workshop.toolkit }
    plugin := { d.plugin with grammars := g.workshop.grammars, forest := g.forest }
    tasks := g.workshop.tasks
    requests := g.workshop.requests }

/-- The workshop of a desk. -/
def workshopPart : Lens Desk (Workshop (Waiter Nat) (Work Nat)) :=
  grovePart.comp Grove.workshopPart

/-- The display of a desk: the plugin's decorations on the screen of the workbench. -/
def displayPart : Lens Desk Display where
  get d := ⟨d.plugin.decorations, d.bench.screen⟩
  set v d := {
    d with
    bench := { d.bench with screen := v.screen }
    plugin := { d.plugin with decorations := v.decorations } }

/-- The settings of the workbench. -/
def storePart : Lens Desk SettingsStore where
  get d := d.bench.store
  set s d := { d with bench := { d.bench with store := s } }

/-- The catalog of the plugin. -/
def catalogPart : Lens Desk Catalog where
  get d := d.plugin.catalog
  set c d := { d with plugin := { d.plugin with catalog := c } }

/-- The plugin's overlay, drawing decorations. -/
def overlaySite : Overlay.Site Desk Nat where
  part := {
    get := fun d => d.plugin.overlay
    set := fun o d => { d with plugin := { d.plugin with overlay := o } } }
  canvas := Display.canvas.within displayPart

/-- The present text of a buffer. -/
def read (desk : Desk) (buffer : Nat) : Document := (desk.bench.screen.buffer buffer).document

/-- The settings in force. -/
def settings : Action Desk Settings := do
  let desk ← Action.get
  Action.zoom storePart (SettingsStore.load desk.bench.workspace)

/-- The plugin's switchboard, fed by its forest. A listener is the name of the document
to redraw. -/
def boardSite : Switchboard.Site Desk Nat where
  part := {
    get := fun d => d.plugin.board
    set := fun b d => { d with plugin := { d.plugin with board := b } } }
  overlay := overlaySite
  feed := Forest.feed grovePart read id
  catalog := fun d => d.plugin.catalog
  minLines := do return ((← settings).minLines : Rat)

/-- The surroundings of the plugin's forest. -/
def ground : Forest.Ground Desk Nat String where
  part := grovePart
  read := read
  notify := Switchboard.refresh boardSite

/-- Puts work at the end of the queue. -/
def push (work : Work Nat) : Action Desk Unit :=
  Action.zoom workshopPart (Workshop.push (.client work))

/-! ## Documents -/

/-- Opens the tree of a document that has none. -/
def openTree (buffer : Nat) (caller : Caller) : Action Desk Unit := do
  let desk ← Action.get
  let found := desk.bench.screen.buffer buffer
  if desk.plugin.forest.has found.uri then return
  Forest.start grovePart desk.plugin.catalog.grammar? found.uri buffer found.document.language
    caller

/-- The editor has opened a document: where the settings and the catalog allow it, labels
are switched on, and the document is parsed. -/
def documentOpened (buffer : Nat) : Action Desk Unit :=
  Action.rescue
    (do
      let settings ← settings
      let desk ← Action.get
      let found := desk.bench.screen.buffer buffer
      let language := found.document.language
      if settings.onByDefault && desk.plugin.catalog.covers language then
        Action.log (.documentOpened found.uri language)
        Switchboard.enable boardSite found.uri
        openTree buffer .openHandler)
    (fun fault => push (.complain .documentOpen fault))

/-- The editor has closed a document: its labels are switched off and its tree is
deleted. That there is no document is a fault. -/
def documentClosed (buffer : Option Nat) : Action Desk Unit := do
  let desk ← Action.get
  let uri := (← Action.ofExcept (desk.bench.screen.bufferOf buffer)).uri
  Switchboard.disable boardSite uri
  Forest.close grovePart uri

/-- The editor has changed a document: its tree is brought up to date, which redraws its
labels. A failure is reported, also that there is no document. -/
def documentChanged (buffer : Option Nat) (changes : List Change) : Action Desk Unit :=
  Action.rescue
    (do
      let desk ← Action.get
      let buffer ← Action.ofOption buffer .missingDocument
      let uri := (desk.bench.screen.buffer buffer).uri
      if desk.plugin.forest.has uri && !changes.isEmpty then
        Forest.update ground uri buffer changes)
    (fun fault => Action.report .documentChange fault)

/-- Other editors have become visible: those with labels are painted, until one fails. -/
def editorsShown (editors : List Editor) : Action Desk Unit :=
  Action.each editors fun editor => do
    let desk ← Action.get
    let buffer ← Action.ofExcept (desk.bench.screen.bufferOf editor.buffer)
    if desk.plugin.board.isOn buffer.uri then
      Action.zoom displayPart (Display.paint editor)

/-- Parses a document for a command; a fault that is met at once is reported later. -/
def parseForCommand (buffer : Nat) : Action Desk Unit :=
  Action.rescue (openTree buffer .command) fun fault => push (.complain .documentParse fault)

/-- The settings file has changed: everything that depends on it is renewed, every
document with labels is redrawn, and those without a tree are tried again. -/
def settingsChanged : Action Desk Unit := do
  Action.log .settingsChanged
  let workspace := (← Action.get).bench.workspace
  let settings ← Action.zoom storePart (SettingsStore.refresh workspace)
  Catalog.reloadIn catalogPart settings.targets settings.grammars
  Overlay.setOptions overlaySite settings.overlayOptions
  Action.zoom workshopPart Workshop.forgetLanguages
  Forest.resetPatterns grovePart
  Switchboard.redrawAll boardSite
  let desk ← Action.get
  Action.each (desk.bench.documents.rows.filter fun row => desk.plugin.board.isOn row.1) fun row =>
    parseForCommand row.2

/-! ## Commands -/

/-- The commands of the plugin. -/
inductive Command where
  | toggle
  | enable
  | disable
  | openSettings
  | prepareSettings
deriving DecidableEq, Repr

/-- The names of the commands, in order of registration. -/
def Command.table : List (String × Command) :=
  [("scope-echo.toggle", .toggle), ("scope-echo.enable", .enable),
    ("scope-echo.disable", .disable), ("scope-echo.openConfiguration", .openSettings),
    ("scope-echo.initializeConfiguration", .prepareSettings)]

/-- Switches labels in the document in front, by an action that tells whether they are on
now. -/
def switchFront (action : String → Action Desk Bool) : Action Desk Unit := do
  let desk ← Action.get
  match desk.bench.active with
  | none => Action.emit (.information "Scope Echo: no active editor")
  | some front =>
    let buffer ← Action.ofOption front .missingDocument
    let on ← action (desk.bench.screen.buffer buffer).uri
    if on then parseForCommand buffer
    Action.emit (.status (if on then "Scope Echo enabled" else "Scope Echo disabled") 2000)

/-- Shows the settings file, which is written first if there is none. -/
def openSettings : Action Desk Unit := do
  let workspace := (← Action.get).bench.workspace
  match SettingsStore.path? workspace with
  | none => Action.emit (.complaint "No workspace folder is open")
  | some path =>
    if ← Action.zoom storePart (SettingsStore.prepare workspace) then
      Action.emit (.documentRequested path)
      match (← Action.get).bench.openFailure with
      | none => Action.emit (.documentShown path)
      | some message =>
        Action.report .settingsOpen (.host message)
        Action.emit (.complaint "Failed to open configuration file")
    else Action.emit (.complaint "Failed to create configuration file")

/-- Writes the settings file if there is none, and tells the user. -/
def prepareSettings : Action Desk Unit := do
  let workspace := (← Action.get).bench.workspace
  if ← Action.zoom storePart (SettingsStore.prepare workspace) then
    Action.emit (.information "Configuration file created successfully")
  else Action.emit (.complaint "Failed to create configuration file")

/-- Runs a command. -/
def runCommand : Command → Action Desk Unit
  | .toggle => switchFront fun uri => Switchboard.toggle boardSite uri
  | .enable => switchFront fun uri => do
    Switchboard.enable boardSite uri
    return true
  | .disable => switchFront fun uri => do
    Switchboard.disable boardSite uri
    return false
  | .openSettings => openSettings
  | .prepareSettings => prepareSettings

/-! ## Tasks and the end -/

/-- What follows once a document was opened: the user's console hears of a language
without a grammar, and of a fault after as many turns as callers are between. -/
def openingEnded (opening : Opening Nat) : Except Fault Bool → Action Desk Unit
  | .ok true => pure ()
  | .ok false => Action.log (.noGrammar opening.language)
  | .error fault =>
    match opening.caller with
    | .direct => pure ()
    | .openHandler => push (.complainLater .documentOpen fault)
    | .command => push (.complain .documentParse fault)

/-- Takes a task. -/
def perform : Task (Waiter Nat) (Work Nat) → Action Desk Unit
  | .job job => Action.zoom workshopPart (Workshop.perform job)
  | .deliver (.opening opening) answer => do
    let result ← Action.attempt (Forest.resume ground opening answer)
    push (.opened opening result)
  | .deliver (.bare _) _ => pure ()
  | .client (.opened opening result) => openingEnded opening result
  | .client (.complainLater failure fault) => push (.complain failure fault)
  | .client (.complain failure fault) => Action.report failure fault

/-- Takes everything down but the grammars: labels, trees and decorations. Stops at the
first fault. -/
def dispose : Action Desk Unit := do
  Switchboard.dispose boardSite
  Overlay.dispose overlaySite
  Forest.dispose grovePart
  Action.zoom displayPart Display.dispose

/-- Takes the grammars down. -/
def disposeGrammars : Action Desk Unit := Action.zoom workshopPart Workshop.dispose

end Desk

end ClosingLabels
