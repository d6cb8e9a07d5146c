import ClosingLabels.Plugin

/-!
# Sessions

A session of the editor with the plugin in it. The plugin is activated and
deactivated, documents come and go, commands are called and the settings file
changes; requests to the toolkit finish when the session says so. The plugin may be
activated more than once, and then each activation works on its own beside the
others. After every step, and after every finished request, the queue of tasks is
emptied.
-/

namespace ClosingLabels

/-- Something the plugin has to give back when it is no longer wanted. -/
inductive Registered where
  | command (name : String)
  | signal (signal : Signal) (plugin : Nat)
  | watcher (plugin : Nat)
deriving DecidableEq, Repr

/-- The state of a session: the workbench, the plugins by number of activation, which of
them counts as active and whose grammars are to be taken down, everything registered,
and the tasks and requests of all plugins in order. -/
structure Session where
  bench : Workbench
  plugins : List Plugin := []
  active : Option Nat := none
  loader : Option Nat := none
  commands : Table String (Desk.Command × Nat) := .empty
  listeners : List (Signal × Nat) := []
  watchers : List Nat := []
  registered : List Registered := []
  tasks : List (Nat × Task (Waiter Nat) (Work Nat)) := []
  requests : List (Nat × Request) := []

namespace Session

/-- The workbench of a session. -/
def benchPart : Lens Session Workbench where
  get := Session.bench
  set b s := { s with bench := b }

/-- The settings of a session. -/
def storePart : Lens Session SettingsStore where
  get s := s.bench.store
  set t s := { s with bench := { s.bench with store := t } }

/-- Seats a plugin at its desk for one action. What it leaves to be done joins the queues
of the session. -/
def within (number : Nat) (action : Action Desk Unit) : Action Session Unit := fun session =>
  match session.plugins[number]? with
  | none => ⟨.ok (), session, []⟩
  | some plugin =>
    let done := action { bench := session.bench, plugin }
    ⟨done.result,
      { session with
        bench := done.state.bench
        plugins := session.plugins.set number done.state.plugin
        tasks := session.tasks ++ done.state.tasks.map fun task => (number, task)
        requests := session.requests ++ done.state.requests.map fun r => (number, r) },
      done.trace⟩

/-! ## Tasks and requests -/

/-- Takes up to the given number of tasks, oldest first. -/
def drain : Nat → Action Session Unit
  | 0 => pure ()
  | turns + 1 => do
    match (← Action.get).tasks with
    | [] => pure ()
    | (number, task) :: rest =>
      Action.modify fun s => { s with tasks := rest }
      within number (Desk.perform task)
      drain turns

/-- How many lookups may be on their way in all plugins together. -/
def underWay (session : Session) : Nat :=
  session.plugins.foldr
    (fun plugin total =>
      plugin.grammars.waitingForStartup + plugin.grammars.followersLeft + total)
    session.tasks.length

/-- Empties the queue of tasks. No lookup takes more than twelve of them. -/
def drainAll : Action Session Unit := do
  drain (12 * ((← Action.get).underWay + 1))

/-- Finishes the oldest request, if there is one, and empties the queue. Tells whether
there was one. -/
def turn : Action Session Bool := do
  match (← Action.get).requests with
  | [] => return false
  | (number, request) :: rest =>
    Action.modify fun s => { s with requests := rest }
    within number (Action.zoom Desk.workshopPart (Workshop.complete request))
    drainAll
    return true

/-- Finishes requests until none is left, and tells how many. -/
def settle : Nat → Action Session Nat
  | 0 => return 0
  | fuel + 1 => do
    if ← turn then
      let more ← settle fuel
      return more + 1
    else return 0

/-- Enough completions to finish every request and all requests these lead to. -/
def completionsLeft (session : Session) : Nat :=
  session.requests.length + session.underWay + 1

/-! ## Activation -/

/-- Where the plugin looks for a change of its settings. -/
def settingsGlob : String := "**/.vscode/scope-echo.json"

/-- The signals that a plugin listens to, in order of registration. -/
def signals : List Signal := [.opened, .closed, .changed, .visible]

/-- Everything that a plugin registers, in order. -/
def registrations (number : Nat) : List Registered :=
  Desk.Command.table.map (fun row => .command row.1) ++
    signals.map (fun signal => .signal signal number) ++ [.watcher number]

/-- Activates the plugin: it reads the settings, registers itself with the editor and
looks at the documents that are open already. Gives how many things are registered. -/
def activate : Action Session Nat := do
  Action.log .activating
  let workspace := (← Action.get).bench.workspace
  let settings ← Action.zoom storePart (SettingsStore.load workspace)
  let catalog := Catalog.make shippedTargets settings.targets settings.grammars
  Action.log catalog.notice
  let number := (← Action.get).plugins.length
  Action.modify fun s => { s with
    plugins := s.plugins ++ [{ catalog, overlay := { options := settings.overlayOptions } }]
    active := some number
    loader := some number
    commands := Desk.Command.table.foldl (fun t row => t.insert row.1 (row.2, number)) s.commands
    listeners := s.listeners ++ signals.map fun signal => (signal, number)
    watchers := s.watchers ++ [number]
    registered := s.registered ++ registrations number }
  Action.emit (.watching settingsGlob)
  Action.each (← Action.get).bench.documents.values fun buffer =>
    within number (Desk.documentOpened buffer)
  return (← Action.get).registered.length

/-- Gives back one thing that was registered. A command is gone whoever gives it back. -/
def unregister : Registered → Action Session Unit
  | .command name => do
    Action.modify fun s => { s with commands := s.commands.erase name }
    Action.emit (.commandRemoved name)
  | .signal signal number => do
    Action.modify fun s => { s with listeners := s.listeners.filter (· ≠ (signal, number)) }
    Action.emit (.unsubscribed signal)
  | .watcher number => do
    Action.modify fun s => { s with watchers := s.watchers.filter (· ≠ number) }
    Action.emit .unwatched

/-- Deactivates the active plugin. -/
def deactivate : Action Session Unit := do
  let session ← Action.get
  match session.active with
  | some number =>
    within number Desk.dispose
    Action.modify fun s => { s with active := none }
  | none => pure ()
  match session.loader with
  | some number =>
    within number Desk.disposeGrammars
    Action.modify fun s => { s with loader := none }
  | none => pure ()

/-- Gives back everything that was registered, in order. -/
def unregisterAll : Action Session Unit := do
  Action.each (← Action.get).registered unregister
  Action.modify fun s => { s with registered := [] }

/-! ## Steps -/

/-- Tells every plugin that listens to a signal, in order of registration, until one
fails. -/
def signal (signal : Signal) (handle : Action Desk Unit) : Action Session Unit := do
  let session ← Action.get
  Action.each (session.listeners.filter (·.1 = signal)) fun listener => within listener.2 handle

/-- An editor to be shown, by the name of its document. -/
structure EditorSpec where
  name : String
  uri : String
  failure : Option String := none
deriving DecidableEq, Repr

/-- Something that happens in a session. -/
inductive Step where
  | activate
  | deactivate (keepRegistered : Bool)
  | openDocument (uri : String) (language text : Text)
  | closeDocument (uri : String)
  | edit (uri : String) (replacements : List Workbench.Replacement)
  | reveal (editors : List EditorSpec)
  | focus (uri : Option String)
  | command (name : String)
  | setWorkspace (root : Option String)
  | failOpening (message : String)
  | write (location : Location) (text : String)
  | remove (location : Location)
  | read (location : Location)
  | addGrammar (file : String) (spec : GrammarSpec)
  | settingsChanged
  | turn
  | settle

/-- What a step answers. -/
inductive Reply where
  | done
  | count (number : Nat)
  | text (text : Option String)
deriving DecidableEq, Repr

/-- Opens a document and tells the plugins. -/
def openDocument (uri : String) (language text : Text) : Action Session Unit := do
  let buffer := (← Action.get).bench.screen.buffers.length
  Action.adjust benchPart (·.openDocument uri ⟨text, language⟩)
  signal .opened (Desk.documentOpened buffer)

/-- Closes a document and tells the plugins, also when it was not open. -/
def closeDocument (uri : String) : Action Session Unit := do
  let buffer := (← Action.get).bench.documents.get? uri
  Action.adjust benchPart fun b => { b with documents := b.documents.erase uri }
  signal .closed (Desk.documentClosed buffer)

/-- Edits a document and tells the plugins. Only a document that is open can be changed,
but the plugins are also told when nothing changes in one that is not. -/
def editDocument (uri : String) (replacements : List Workbench.Replacement) :
    Action Session Unit := do
  let bench := (← Action.get).bench
  match bench.documents.get? uri, replacements with
  | some buffer, _ =>
    let (changes, edited) := bench.edit buffer replacements
    Action.adjust benchPart fun _ => edited
    signal .changed (Desk.documentChanged (some buffer) changes)
  | none, [] => signal .changed (Desk.documentChanged none [])
  | none, _ => Action.fail .missingDocument

/-- Shows editors in place of those that are visible, and tells the plugins. -/
def showEditors (specs : List EditorSpec) : Action Session Unit := do
  let bench := (← Action.get).bench
  let editors := specs.map fun spec =>
    Editor.mk spec.name (bench.documents.get? spec.uri) spec.failure
  Action.adjust benchPart fun b => { b with screen := { b.screen with visible := editors } }
  signal .visible (Desk.editorsShown editors)

/-- Calls a command. -/
def callCommand (name : String) : Action Session Unit := do
  match (← Action.get).commands.get? name with
  | none => Action.fail (.unknownCommand name)
  | some (command, number) => within number (Desk.runCommand command)

/-- The step itself, without the tasks it leads to. -/
def Step.act : Step → Action Session Reply
  | .activate => do return .count (← Session.activate)
  | .deactivate keepRegistered => do
    Session.deactivate
    if !keepRegistered then unregisterAll
    return .done
  | .openDocument uri language text => do
    Session.openDocument uri language text
    return .done
  | .closeDocument uri => do
    Session.closeDocument uri
    return .done
  | .edit uri replacements => do
    editDocument uri replacements
    return .done
  | .reveal editors => do
    showEditors editors
    return .done
  | .focus uri => do
    Action.adjust benchPart fun b => { b with active := uri.map b.documents.get? }
    return .done
  | .command name => do
    callCommand name
    return .done
  | .setWorkspace root => do
    Action.adjust benchPart fun b => { b with workspace := root }
    return .done
  | .failOpening message => do
    Action.adjust benchPart fun b => { b with openFailure := some message }
    return .done
  | .write location text => do
    Action.zoom storePart (SettingsStore.writeOutside location text)
    return .done
  | .remove location => do
    Action.zoom storePart (SettingsStore.removeOutside location)
    return .done
  | .read location => do
    return .text (← Action.zoom storePart (SettingsStore.readOutside location))
  | .addGrammar file spec => do
    Action.adjust benchPart fun b =>
      { b with toolkit := { b.toolkit with files := b.toolkit.files.insert file spec } }
    return .done
  | .settingsChanged => do
    Action.each (← Action.get).watchers fun number => within number Desk.settingsChanged
    return .done
  | .turn => do
    let _ ← Session.turn
    return .count (← Action.get).requests.length
  | .settle => do return .count (← Session.settle (← Action.get).completionsLeft)

/-- The step with all tasks it leads to. -/
def Step.perform (step : Step) : Action Session Reply := Action.ensure step.act drainAll

end Session

end ClosingLabels
