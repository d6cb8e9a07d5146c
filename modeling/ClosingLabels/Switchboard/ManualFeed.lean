import ClosingLabels.Publication
import ClosingLabels.Switchboard

/-!
# A feed driven by hand

A feed in which parsed documents are published by hand and triggers are fired by
hand. It keeps the published documents and who has subscribed to each.
-/

namespace ClosingLabels

/-- The published documents and the subscriptions to each, by number. -/
structure ManualFeed where
  published : Table String Publication := .empty
  parsed : Table String (List Nat) := .empty
  changed : Table String (List Nat) := .empty
  next : Nat := 0
deriving DecidableEq, Repr

namespace ManualFeed

/-- The subscriptions to a trigger. -/
def table (feed : ManualFeed) : Trigger → Table String (List Nat)
  | .parsed => feed.parsed
  | .changed => feed.changed

/-- Replaces the subscriptions to a trigger. -/
def setTable (feed : ManualFeed) (trigger : Trigger) (table : Table String (List Nat)) :
    ManualFeed :=
  match trigger with
  | .parsed => { feed with parsed := table }
  | .changed => { feed with changed := table }

/-- The subscriptions to a trigger of a document. -/
def subscribers (feed : ManualFeed) (trigger : Trigger) (document : String) : List Nat :=
  ((feed.table trigger).get? document).getD []

/-- Publishes a document, in place of what was published under its name. -/
def publish (feed : ManualFeed) (document : String) (publication : Publication) : ManualFeed :=
  { feed with published := feed.published.insert document publication }

/-- Adds a subscription. -/
def subscribe (trigger : Trigger) (document : String) : Action ManualFeed Nat := do
  let feed ← Action.get
  let number := feed.next
  Action.set ({ feed with next := number + 1 }.setTable trigger
    ((feed.table trigger).insert document (feed.subscribers trigger document ++ [number])))
  return number

/-- Removes a subscription. -/
def unsubscribe (trigger : Trigger) (document : String) (number : Nat) :
    Action ManualFeed Unit :=
  Action.modify fun feed =>
    match (feed.table trigger).get? document with
    | none => feed
    | some numbers =>
      feed.setTable trigger ((feed.table trigger).insert document (numbers.filter (· ≠ number)))

/-- How many subscriptions a document has, of both triggers together. -/
def count (feed : ManualFeed) (document : String) : Nat :=
  (feed.subscribers .parsed document).length + (feed.subscribers .changed document).length

/-- The feed as a source of documents in a larger state. -/
def feed {σ : Type} (part : Lens σ ManualFeed) : Feed σ where
  subscribe trigger document := Action.zoom part (subscribe trigger document)
  unsubscribe trigger document number := Action.zoom part (unsubscribe trigger document number)
  view? document := do
    let feed ← Action.look part
    return (feed.published.get? document).map Publication.view

end ManualFeed

end ClosingLabels
