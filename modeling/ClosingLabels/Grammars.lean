import ClosingLabels.Catalog
import ClosingLabels.Toolkit

/-!
# Grammars on their way

Grammars are loaded when a language is first looked up. The toolkit has to be started
before the first of them, and it can only load one at a time, so the loads form a
chain: each link starts when the one before it is done, and whoever asked for it is
answered then. This file holds what is known at any moment; what happens next is in
`ClosingLabels.Workshop`.
-/

namespace ClosingLabels

/-- The answer to a lookup: a language, or none, or a fault. -/
abbrev Answer := Except Fault (Option Language)

/-- A lookup that needs a grammar: the language, the name of its grammar and who waits
for it. -/
structure Lookup (W : Type) where
  key : Text
  grammar : GrammarName
  waiter : W
deriving Repr

/-- A start of the toolkit. -/
inductive Startup (W : Type) where
  /-- Not finished; these lookups wait for it, in order. -/
  | pending (waiting : List (Lookup W))
  /-- Finished. -/
  | ready
  /-- Failed for good. -/
  | failed (fault : Fault)
deriving Repr

/-- The lookups that wait for a start. -/
def Startup.waiting {W : Type} : Startup W → List (Lookup W)
  | pending waiting => waiting
  | _ => []

/-- What happens when a link of the chain is done. -/
inductive Follower (W : Type) where
  /-- The next link starts. -/
  | start (link : Nat)
  /-- Someone is answered. -/
  | answer (waiter : W)
deriving Repr

/-- A link in the chain of loads: what it loads, its answer once it is done, and what
follows then, in order. -/
structure Link (W : Type) where
  key : Text
  grammar : GrammarName
  answer : Option Answer := none
  followers : List (Follower W) := []
deriving Repr

/-- Everything known about grammars: the parser, the starts of the toolkit and which of
them counts, the loaded languages, the languages known to have no grammar, and the
chain of loads. -/
structure Grammars (W : Type) where
  parser : Option Nat := none
  startups : List (Startup W) := []
  current : Option Nat := none
  languages : Table Text Language := .empty
  unavailable : List Text := []
  links : List (Link W) := []
deriving Repr

/-- Work that has been asked of the toolkit and will be finished in its own time. -/
inductive Request where
  /-- A start. -/
  | startup (number : Nat)
  /-- The load of a link's grammar file, with what was found in the file when it was
  asked for. -/
  | load (link : Nat) (file : String) (found : GrammarSpec)
deriving DecidableEq, Repr

/-- A step of loading that is ready to be taken. -/
inductive Job (W : Type) where
  /-- The toolkit has started: make the parser. -/
  | makeParser (startup : Nat)
  /-- The toolkit could not start. -/
  | failStartup (startup : Nat) (fault : Fault)
  /-- A lookup joins the chain. -/
  | enter (lookup : Lookup W)
  /-- A waiter asks to be told when a link is done. -/
  | subscribe (link : Nat) (waiter : W)
  /-- A link starts. -/
  | start (link : Nat)
  /-- The toolkit is done with the file of a link. -/
  | finish (link : Nat) (loaded : Except Fault Language)
  /-- A link that needed no load has its answer; it settles one turn later. -/
  | adopt (link : Nat) (answer : Answer)
  /-- A link is done. -/
  | settle (link : Nat) (answer : Answer)
  /-- A waiter's answer is known; it is delivered one turn later. -/
  | relay (waiter : W) (answer : Answer)
deriving Repr

/-- Something in the queue: a step of loading, an answer to be delivered, or work of
whoever uses the grammars. -/
inductive Task (W C : Type) where
  | job (job : Job W)
  | deliver (waiter : W) (answer : Answer)
  | client (work : C)
deriving Repr

namespace Grammars

variable {W : Type}

/-- Marks a language as having no grammar. -/
def markUnavailable (grammars : Grammars W) (key : Text) : Grammars W :=
  if key ∈ grammars.unavailable then grammars
  else { grammars with unavailable := grammars.unavailable ++ [key] }

/-- Forgets which languages are loaded and which have no grammar. -/
def reset (grammars : Grammars W) : Grammars W :=
  { grammars with languages := .empty, unavailable := [] }

/-- Changes a link of the chain. -/
def editLink (grammars : Grammars W) (link : Nat) (f : Link W → Link W) : Grammars W :=
  { grammars with links := grammars.links.modify link f }

/-- Adds something to be done when a link is done. -/
def follow (grammars : Grammars W) (link : Nat) (follower : Follower W) : Grammars W :=
  grammars.editLink link fun l => { l with followers := l.followers ++ [follower] }

/-- Replaces the state of a start. -/
def setStartup (grammars : Grammars W) (number : Nat) (startup : Startup W) : Grammars W :=
  { grammars with startups := grammars.startups.set number startup }

/-- How many lookups wait for a start of the toolkit. -/
def waitingForStartup (grammars : Grammars W) : Nat :=
  grammars.startups.foldr (fun startup total => startup.waiting.length + total) 0

/-- How much is to follow in the whole chain. -/
def followersLeft (grammars : Grammars W) : Nat :=
  grammars.links.foldr (fun link total => link.followers.length + total) 0

end Grammars

end ClosingLabels
