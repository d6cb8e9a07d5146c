import ClosingLabels.Overlay

/-!
# The switchboard

Labels can be switched on and off for each document. While they are on, the document
is redrawn each time it was parsed or changed; switching them off gives up both
subscriptions and clears what is shown.
-/

namespace ClosingLabels

/-- What makes a document with labels redraw. -/
inductive Trigger where
  | parsed
  | changed
deriving DecidableEq, Repr

/-- A source of parsed documents: it tells when one was parsed or changed and gives a
view of its latest state. A subscription is known by a number. -/
structure Feed (σ : Type) where
  subscribe : Trigger → String → Action σ Nat
  unsubscribe : Trigger → String → Nat → Action σ Unit
  view? : String → Action σ (Option (View σ))

/-- The two subscriptions of a document whose labels are on. -/
structure Wires where
  parsed : Nat
  changed : Nat
deriving DecidableEq, Repr

/-- The documents whose labels are on, in the order in which they were switched on. -/
structure Switchboard where
  wires : Table String Wires := .empty
deriving DecidableEq, Repr

namespace Switchboard

/-- Where a switchboard lives: its place in a state, the overlay it redraws, the feed it
listens to, and where the catalog and the least height are found. -/
structure Site (σ H : Type) where
  part : Lens σ Switchboard
  overlay : Overlay.Site σ H
  feed : Feed σ
  catalog : σ → Catalog
  minLines : Action σ Rat

variable {σ H : Type}

/-- Whether the labels of a document are on. -/
def isOn (board : Switchboard) (document : String) : Bool := board.wires.contains document

/-- The documents whose labels are on. -/
def documents (board : Switchboard) : List String := board.wires.keys

/-- Redraws a document, if it has been parsed. -/
def refresh (site : Site σ H) (document : String) : Action σ Unit := do
  match ← site.feed.view? document with
  | none => pure ()
  | some view =>
    let minLines ← site.minLines
    let catalog ← Action.gets site.catalog
    Overlay.redraw site.overlay catalog document view minLines

/-- Switches the labels of a document on. It is redrawn at once, since it may have been
parsed already. -/
def enable (site : Site σ H) (document : String) : Action σ Unit := do
  if (← Action.look site.part).isOn document then return
  let parsed ← site.feed.subscribe .parsed document
  let changed ← site.feed.subscribe .changed document
  Action.adjust site.part fun b => ⟨b.wires.insert document ⟨parsed, changed⟩⟩
  Action.log (.enabled document)
  refresh site document

/-- Switches the labels of a document off. -/
def disable (site : Site σ H) (document : String) : Action σ Unit := do
  match (← Action.look site.part).wires.get? document with
  | none => pure ()
  | some wires =>
    Action.adjust site.part fun b => ⟨b.wires.erase document⟩
    site.feed.unsubscribe .parsed document wires.parsed
    site.feed.unsubscribe .changed document wires.changed
    Overlay.clear site.overlay document
    Action.log (.disabled document)

/-- Switches the labels of a document over and tells whether they are on now. -/
def toggle (site : Site σ H) (document : String) : Action σ Bool := do
  if (← Action.look site.part).isOn document then
    disable site document
    return false
  else
    enable site document
    return true

/-- Redraws every document whose labels are on. -/
def redrawAll (site : Site σ H) : Action σ Unit := do
  Action.each (← Action.look site.part).documents (refresh site)

/-- Switches all labels off, until one document fails. -/
def dispose (site : Site σ H) : Action σ Unit := do
  Action.each (← Action.look site.part).documents (disable site)

end Switchboard

end ClosingLabels
