import ClosingLabels.Change
import ClosingLabels.Fault
import ClosingLabels.Notice
import ClosingLabels.Style

/-!
# Events

A run leaves a trace: everything said on the console and everything asked of the
hosts, in the order in which it happened.
-/

namespace ClosingLabels

/-- A label as an editor shows it: text attached after a place. -/
structure Decoration where
  start : Position
  stop : Position
  text : Text
  style : Style
deriving DecidableEq, Repr

/-- The signals of the editor that the plugin listens to. -/
inductive Signal where
  | opened
  | closed
  | changed
  | visible
deriving DecidableEq, Repr

/-- One thing that happened. -/
inductive Event where
  /-- A notice on the console. -/
  | log (notice : Notice)
  /-- A warning on the console. -/
  | warn (warning : Warning)
  /-- A failure on the console, with its cause when there is one. -/
  | error (failure : Failure) (cause : Option Fault)
  /-- The recording canvas drew a label. -/
  | drawn (document handle : String) (anchor : Rat) (text : Text) (style : Style)
  /-- The recording canvas erased a label. -/
  | erased (document handle : String)
  /-- The recording canvas refused to erase a label. -/
  | eraseFailed (document handle : String)
  /-- The recording canvas repainted a document. -/
  | flushed (document : String)
  /-- The recording canvas refused to repaint a document. -/
  | flushFailed (document : String)
  /-- The editor made a decoration type. -/
  | decorationTypeMade (number : Nat)
  /-- The editor dropped a decoration type. -/
  | decorationTypeDropped (number : Nat)
  /-- An editor was given its decorations. -/
  | decorated (editor : String) (number : Nat) (decorations : List Decoration)
  /-- An editor refused its decorations. -/
  | decorateFailed (editor : String)
  /-- The parsing toolkit was asked to start. -/
  | toolkitStarting
  /-- A parser was made. -/
  | parserMade (parser : Nat)
  /-- A parser was given its language. -/
  | parserTuned (parser : Nat) (language : Option String)
  /-- A parser was given a text of some length, with the tree it had before. -/
  | parsing (parser : Nat) (length : Nat) (old : Option Nat)
  /-- A parser was deleted. -/
  | parserDeleted (parser : Nat)
  /-- A grammar file started to load. -/
  | grammarLoading (file : String)
  /-- A language was asked to compile a pattern. -/
  | patternCompiling (language : String) (source : Text)
  /-- A compiled pattern was run on a tree. -/
  | patternMatching (query tree : Nat)
  /-- A compiled pattern was deleted. -/
  | queryDeleted (query : Nat)
  /-- A tree was told of an edit. -/
  | treeEdited (tree : Nat) (edit : Edit)
  /-- A tree was deleted. -/
  | treeDeleted (tree : Nat)
  /-- The opening of a document ended; `parsed` tells whether it has a tree now. -/
  | opened (document : String) (parsed : Bool)
  /-- A request ended in a fault. -/
  | rejected (fault : Fault)
  /-- A listener was called. -/
  | heard (listener : String)
  /-- A language was looked up. -/
  | languageFound (key : Text) (language : Option String)
  /-- The editor was asked to watch some files. -/
  | watching (glob : String)
  /-- The watch was given up. -/
  | unwatched
  /-- A message for the user. -/
  | information (text : String)
  /-- A failure told to the user. -/
  | complaint (text : String)
  /-- A passing message in the status bar. -/
  | status (text : String) (milliseconds : Nat)
  /-- A file was asked for as a document. -/
  | documentRequested (path : String)
  /-- A document was shown. -/
  | documentShown (path : String)
  /-- A command was taken back. -/
  | commandRemoved (name : String)
  /-- A subscription to a signal was given up. -/
  | unsubscribed (signal : Signal)
deriving Repr

end ClosingLabels
