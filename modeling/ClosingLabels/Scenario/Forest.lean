import ClosingLabels.Forest

/-!
# A forest at work

A scenario opens, changes and closes documents while grammars load, looks at their
trees and listens to them. After every step, and after every request that the toolkit
finishes, the queue of tasks is emptied.
-/

namespace ClosingLabels.Scenario

/-- A listener of a scenario: it gives its name, then takes back some subscriptions, and
fails in the end if it is to fail. -/
structure Probe where
  name : String
  drops : List String := []
  failure : Option String := none
deriving DecidableEq, Repr

/-- A subscription of a scenario. -/
structure Subscription where
  trigger : Trigger
  document : String
  number : Nat
deriving DecidableEq, Repr

/-- A document with a tree, as it was when it was looked at. -/
abbrev Snapshot := Entry Document

/-- A forest with everything a scenario keeps beside it: the catalog, whether only shipped
grammars are used, the languages found, the subscriptions and the snapshots by name. -/
structure ForestRun where
  grove : Grove Document Probe := {}
  catalog : Catalog
  shippedOnly : Bool := false
  found : Table Text (Option Language) := .empty
  subscriptions : Table String Subscription := .empty
  held : Table String Snapshot := .empty

namespace ForestRun

/-- The grove of a run. -/
def grovePart : Lens ForestRun (Grove Document Probe) where
  get := ForestRun.grove
  set g s := { s with grove := g }

/-- The workshop of a run. -/
def workshopPart : Lens ForestRun (Workshop (Waiter Document) (Work Document)) :=
  grovePart.comp Grove.workshopPart

/-- The catalog of a run. -/
def catalogPart : Lens ForestRun Catalog where
  get := ForestRun.catalog
  set c s := { s with catalog := c }

/-- The grammar of a language, in the catalog or among the shipped ones. -/
def resolve (run : ForestRun) (key : Text) : Option GrammarName :=
  if run.shippedOnly then (shippedGrammar? key).map .file else run.catalog.grammar? key

/-- Takes back the subscription of a name. -/
def drop (name : String) : Action ForestRun Unit := do
  let s ← Action.ofOption ((← Action.get).subscriptions.get? name) .missingSubscription
  Forest.unregister grovePart s.trigger s.document s.number

/-- Calls a probe. -/
def notify (probe : Probe) : Action ForestRun Unit := do
  Action.emit (.heard probe.name)
  Action.each probe.drops drop
  match probe.failure with
  | some message => Action.fail (.host message)
  | none => pure ()

/-- The surroundings of the forest: documents are their own source. -/
def ground : Forest.Ground ForestRun Document Probe where
  part := grovePart
  read _ document := document
  notify := notify

/-- Takes a task. -/
def perform : Task (Waiter Document) (Work Document) → Action ForestRun Unit
  | .job job => Action.zoom workshopPart (Workshop.perform job)
  | .deliver (.opening opening) answer => do
    let result ← Action.attempt (Forest.resume ground opening answer)
    Action.zoom workshopPart (Workshop.push (.client (.opened opening result)))
  | .deliver (.bare key) (.ok language) => do
    Action.emit (.languageFound key (language.map Language.name))
    Action.modify fun run => { run with found := run.found.insert key language }
  | .deliver (.bare _) (.error fault) => Action.emit (.rejected fault)
  | .client (.opened opening (.ok parsed)) => Action.emit (.opened opening.document parsed)
  | .client (.opened _ (.error fault)) => Action.emit (.rejected fault)
  | .client (.complainLater failure fault) =>
    Action.zoom workshopPart (Workshop.push (.client (.complain failure fault)))
  | .client (.complain failure fault) => Action.report failure fault

/-- Takes up to the given number of tasks, oldest first. -/
def drain : Nat → Action ForestRun Unit
  | 0 => pure ()
  | turns + 1 => do
    match (← Action.look workshopPart).tasks with
    | [] => pure ()
    | task :: rest =>
      Action.adjust workshopPart fun w => { w with tasks := rest }
      perform task
      drain turns

/-- Empties the queue of tasks. -/
def drainAll : Action ForestRun Unit := do
  drain (← Action.look workshopPart).turnsLeft

/-- Finishes the oldest request, if there is one, and empties the queue. Tells whether
there was one. -/
def turn : Action ForestRun Bool := do
  match (← Action.look workshopPart).requests with
  | [] => return false
  | request :: rest =>
    Action.adjust workshopPart fun w => { w with requests := rest }
    Action.zoom workshopPart (Workshop.complete request)
    drainAll
    return true

/-- Finishes requests until none is left, and tells how many. -/
def settle : Nat → Action ForestRun Nat
  | 0 => return 0
  | fuel + 1 => do
    if ← turn then
      let more ← settle fuel
      return more + 1
    else return 0

end ForestRun

/-- Something done to a forest. -/
inductive ForestStep where
  | start (document : String) (language text : Text)
  | apply (document : String) (language text : Text) (changes : List Change)
  | close (document : String)
  | find (document : String) (kinds : List Text)
  | root (document : String)
  | snapshot (document : String) (hold : Option String)
  | extract (document : String) (minLines : Rat)
  | extractHeld (name : String) (minLines : Rat)
  | register (trigger : Trigger) (document : String) (probe : Probe)
  | unregister (name : String)
  | resetPatterns
  | disposeForest
  | lookup (key : Text)
  | parse (key text : Text)
  | forgetLanguages
  | disposeWorkshop
  | reload (overrides : Table Text (List Text)) (grammars : Table Text String)
  | turn
  | settle

/-- What a step answers. -/
inductive ForestReply where
  | done
  | blocks (blocks : Option (List Block))
  | root (node : Option Node)
  | snapshot (entry : Option Snapshot)
  | labels (labels : Option (List Label))
  | tree (number : Nat)
  | count (number : Nat)

namespace ForestStep

open ForestRun

/-- The labels of a snapshot. -/
def labelsOf (entry : Snapshot) (minLines : Rat) : Action ForestRun (List Label) := do
  let run ← Action.get
  Label.extract (Forest.viewOf grovePart entry entry.source) minLines run.catalog

/-- The step itself, without the tasks it leads to. -/
def act : ForestStep → Action ForestRun ForestReply
  | .start document language text => do
    let run ← Action.get
    Forest.start grovePart run.resolve document ⟨text, language⟩ language .direct
    return .done
  | .apply document language text changes => do
    Forest.update ground document ⟨text, language⟩ changes
    return .done
  | .close document => do
    Forest.close grovePart document
    return .done
  | .find document kinds => do
    match (← Action.get).grove.forest.entries.get? document with
    | none => return .blocks none
    | some entry =>
      return .blocks (some (← (Forest.viewOf grovePart entry entry.source).find kinds))
  | .root document => do
    let run ← Action.get
    return .root ((run.grove.forest.entries.get? document).map fun entry => entry.tree.root)
  | .snapshot document hold => do
    let entry := (← Action.get).grove.forest.entries.get? document
    match hold, entry with
    | some name, some entry =>
      Action.modify fun run => { run with held := run.held.insert name entry }
    | some name, none => Action.modify fun run => { run with held := run.held.erase name }
    | none, _ => pure ()
    return .snapshot entry
  | .extract document minLines => do
    match (← Action.get).grove.forest.entries.get? document with
    | none => return .labels none
    | some entry => return .labels (some (← labelsOf entry minLines))
  | .extractHeld name minLines => do
    match (← Action.get).held.get? name with
    | none => return .labels none
    | some entry => return .labels (some (← labelsOf entry minLines))
  | .register trigger document probe => do
    let number ← Forest.register grovePart trigger document probe
    Action.modify fun run =>
      { run with subscriptions := run.subscriptions.insert probe.name ⟨trigger, document, number⟩ }
    return .done
  | .unregister name => do
    ForestRun.drop name
    return .done
  | .resetPatterns => do
    Forest.resetPatterns grovePart
    return .done
  | .disposeForest => do
    Forest.dispose grovePart
    return .done
  | .lookup key => do
    let run ← Action.get
    Action.zoom workshopPart (Workshop.lookup run.resolve key (.bare key))
    return .done
  | .parse key text => do
    let language := ((← Action.get).found.get? key).join
    let tree ← Action.zoom workshopPart (Workshop.parse language text none)
    return .tree tree.number
  | .forgetLanguages => do
    Action.zoom workshopPart Workshop.forgetLanguages
    return .done
  | .disposeWorkshop => do
    Action.zoom workshopPart Workshop.dispose
    return .done
  | .reload overrides grammars => do
    Catalog.reloadIn catalogPart overrides grammars
    return .done
  | .turn => do
    let _ ← ForestRun.turn
    return .count (← Action.look workshopPart).requests.length
  | .settle => do
    return .count (← ForestRun.settle (← Action.look workshopPart).completionsLeft)

/-- The step with all tasks it leads to. -/
def perform (step : ForestStep) : Action ForestRun ForestReply :=
  Action.ensure step.act drainAll

end ForestStep

end ClosingLabels.Scenario
