import ClosingLabels.Audience
import ClosingLabels.Pattern.Cache
import ClosingLabels.Workshop

/-!
# The forest

One syntax tree for every open document. Opening a document has to wait for its
grammar, and until then it may be closed or opened again; only the latest opening of
a document may give it a tree. A change edits the tree and parses the text anew.
Listeners are told when a document was parsed and when it changed.
-/

namespace ClosingLabels

/-- Who asked for a document to be opened. -/
inductive Caller where
  /-- Someone who wants to hear how it ended. -/
  | direct
  /-- The handler of documents that the editor opens. -/
  | openHandler
  /-- A command, or a change of the settings. -/
  | command
deriving DecidableEq, Repr

/-- The opening of a document: its name, the number of the opening, where the text is
found, its language, and who asked. -/
structure Opening (D : Type) where
  document : String
  ticket : Nat
  source : D
  language : Text
  caller : Caller
deriving DecidableEq, Repr

/-- Who waits for a language. -/
inductive Waiter (D : Type) where
  | opening (opening : Opening D)
  | bare (key : Text)
deriving DecidableEq, Repr

/-- What is left to do once a document was opened. -/
inductive Work (D : Type) where
  /-- The opening has ended. -/
  | opened (opening : Opening D) (result : Except Fault Bool)
  /-- A fault will be reported one turn later. -/
  | complainLater (failure : Failure) (fault : Fault)
  /-- A fault is reported. -/
  | complain (failure : Failure) (fault : Fault)

/-- A document with a tree: the tree, the language it was parsed with, where its text is
found, the name of the language when it was opened, and the changes that the tree has
been told of since it was parsed. -/
structure Entry (D : Type) where
  tree : Tree
  language : Language
  source : D
  key : Text
  told : List Change := []

/-- The trees of all documents, the listeners, the compiled patterns, the latest opening
of each document that is on its way, and how many openings there were. -/
structure Forest (D L : Type) where
  entries : Table String (Entry D) := .empty
  audience : Audience L := .empty
  cache : PatternCache := {}
  pending : Table String Nat := .empty
  openings : Nat := 0

/-- A forest with the workshop that feeds it. -/
structure Grove (D L : Type) where
  workshop : Workshop (Waiter D) (Work D) := {}
  forest : Forest D L := {}

namespace Grove

variable {D L : Type}

/-- The workshop of a grove. -/
def workshopPart : Lens (Grove D L) (Workshop (Waiter D) (Work D)) where
  get := Grove.workshop
  set w s := { s with workshop := w }

/-- The toolkit of a grove. -/
def toolkitPart : Lens (Grove D L) Toolkit := workshopPart.comp Workshop.toolkitPart

/-- The compiled patterns of a grove. -/
def cacheSite : PatternCache.Site (Grove D L) where
  part := {
    get := fun g => g.forest.cache
    set := fun c g => { g with forest := { g.forest with cache := c } } }
  toolkit := toolkitPart

end Grove

namespace Forest

variable {σ D L : Type}

/-- What a forest needs of its surroundings: its place in a state, the present text of a
document, and how to call a listener. -/
structure Ground (σ D L : Type) where
  part : Lens σ (Grove D L)
  read : σ → D → Document
  notify : L → Action σ Unit

/-! ## Listeners -/

/-- The listeners to a trigger of a document, in order of registration. -/
def listeners (forest : Forest D L) (trigger : Trigger) (document : String) :
    List (Registration L) :=
  forest.audience.members trigger document

/-- How many registrations there were. -/
def registrations (forest : Forest D L) : Nat := forest.audience.grips.length

/-- Adds a listener. -/
def addListener (forest : Forest D L) (trigger : Trigger) (document : String) (listener : L) :
    Forest D L :=
  { forest with audience := forest.audience.add trigger document listener }

/-- Removes a registration. One that is gone already is not missed. -/
def removeListener (forest : Forest D L) (trigger : Trigger) (document : String)
    (number : Nat) : Forest D L :=
  { forest with audience := forest.audience.remove trigger document number }

/-- Registers a listener and gives the number of its registration. -/
def register (part : Lens σ (Grove D L)) (trigger : Trigger) (document : String) (listener : L) :
    Action σ Nat := do
  let number := (← Action.look part).forest.registrations
  Action.adjust part fun g =>
    { g with forest := g.forest.addListener trigger document listener }
  return number

/-- Gives up a registration. -/
def unregister (part : Lens σ (Grove D L)) (trigger : Trigger) (document : String)
    (number : Nat) : Action σ Unit :=
  Action.adjust part fun g => { g with forest := g.forest.removeListener trigger document number }

/-- Calls every listener that is registered now, in order. A failing listener is reported
and does not keep the others from being called. -/
def announce (ground : Ground σ D L) (trigger : Trigger) (document : String) : Action σ Unit := do
  let grove ← Action.look ground.part
  Action.each (grove.forest.listeners trigger document) fun registration =>
    Action.rescue (ground.notify registration.listener) fun fault =>
      Action.report (.listener document) fault

/-! ## Opening, changing and closing -/

/-- Whether a document has a tree. -/
def has (forest : Forest D L) (document : String) : Bool := forest.entries.contains document

/-- Changes the forest of a state. -/
def edit (part : Lens σ (Grove D L)) (f : Forest D L → Forest D L) : Action σ Unit :=
  Action.adjust part fun g => { g with forest := f g.forest }

/-- Starts to open a document: its language is looked up, and the document is parsed when
the answer is there. -/
def start (part : Lens σ (Grove D L)) (resolve : Text → Option GrammarName)
    (document : String) (source : D) (language : Text) (caller : Caller) : Action σ Unit := do
  let ticket := (← Action.look part).forest.openings + 1
  edit part fun f => { f with openings := ticket, pending := f.pending.insert document ticket }
  Action.zoom (part.comp Grove.workshopPart)
    (Workshop.lookup resolve language (.opening ⟨document, ticket, source, language, caller⟩))

/-- Deletes the tree of a document, if it has one. -/
def deleteTree (part : Lens σ (Grove D L)) (document : String) : Action σ Unit := do
  match (← Action.look part).forest.entries.get? document with
  | some entry => Action.zoom (part.comp Grove.toolkitPart) (Toolkit.deleteTree entry.tree)
  | none => pure ()

/-- Goes on with an opening once its language is known, and tells whether the document has
a new tree. An opening that is no longer the latest of its document is dropped. -/
def resume (ground : Ground σ D L) (opening : Opening D) (answer : Answer) : Action σ Bool := do
  let language ← Action.ofExcept answer
  let document := opening.document
  if (← Action.look ground.part).forest.pending.get? document ≠ some opening.ticket then
    Action.log (.staleParse document)
    return false
  edit ground.part fun f => { f with pending := f.pending.erase document }
  match language with
  | none => return false
  | some language =>
    let text := (← Action.gets fun s => ground.read s opening.source).text
    let tree ← Action.zoom (ground.part.comp Grove.workshopPart)
      (Workshop.parse (some language) text none)
    deleteTree ground.part document
    edit ground.part fun f =>
      { f with
        entries := f.entries.insert document
          { tree, language, source := opening.source, key := opening.language } }
    Action.log (.parsed document opening.language)
    announce ground .parsed document
    return true

/-- Applies changes to a document that has a tree: the tree is told of each, the new text
is parsed, and the old tree is deleted. When the new text cannot be parsed, the old tree
stays and keeps what it was told. -/
def update (ground : Ground σ D L) (document : String) (source : D)
    (changes : List Change) : Action σ Unit := do
  match (← Action.look ground.part).forest.entries.get? document with
  | none => pure ()
  | some entry =>
    if changes.isEmpty then return
    let toolkit := ground.part.comp Grove.toolkitPart
    Action.each changes fun change =>
      Action.zoom toolkit (Toolkit.editTree entry.tree change.toEdit)
    edit ground.part fun f =>
      { f with entries := f.entries.insert document { entry with told := entry.told ++ changes } }
    let text := (← Action.gets fun s => ground.read s source).text
    let tree ← Action.zoom (ground.part.comp Grove.workshopPart)
      (Workshop.parse (some entry.language) text (some entry.tree))
    Action.zoom toolkit (Toolkit.deleteTree entry.tree)
    edit ground.part fun f =>
      { f with entries := f.entries.insert document { entry with tree, source, told := [] } }
    announce ground .changed document

/-- Closes a document: an opening on its way is dropped and the tree is deleted. -/
def close (part : Lens σ (Grove D L)) (document : String) : Action σ Unit := do
  edit part fun f => { f with pending := f.pending.erase document }
  deleteTree part document
  edit part fun f => { f with entries := f.entries.erase document }

/-- The entry of a document as labels see it. -/
def viewOf (part : Lens σ (Grove D L)) (entry : Entry D) (document : Document) : View σ where
  find kinds :=
    Action.zoom part (PatternCache.find Grove.cacheSite entry.key entry.language entry.tree kinds)
  document := document
  language := entry.key

/-- A document that has a tree, as labels see it now. -/
def view? (part : Lens σ (Grove D L)) (read : σ → D → Document) (document : String) :
    Action σ (Option (View σ)) := do
  match (← Action.look part).forest.entries.get? document with
  | none => return none
  | some entry => return some (viewOf part entry (← Action.gets fun s => read s entry.source))

/-- Drops all compiled patterns. -/
def resetPatterns (part : Lens σ (Grove D L)) : Action σ Unit :=
  Action.zoom part (PatternCache.clear Grove.cacheSite)

/-- Closes every document and forgets all openings, listeners and patterns. -/
def dispose (part : Lens σ (Grove D L)) : Action σ Unit := do
  Action.each (← Action.look part).forest.entries.keys (close part)
  edit part fun f => { f with pending := .empty, audience := f.audience.clear }
  resetPatterns part

/-- The forest as a source of parsed documents. -/
def feed (part : Lens σ (Grove D L)) (read : σ → D → Document) (listener : String → L) :
    Feed σ where
  subscribe trigger document := register part trigger document (listener document)
  unsubscribe trigger document number := unregister part trigger document number
  view? document := view? part read document

end Forest

end ClosingLabels
