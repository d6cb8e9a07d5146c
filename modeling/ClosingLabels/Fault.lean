import ClosingLabels.Text

/-!
# Faults

Everything that can go wrong, by cause. A cause that the program or one of its
hosts puts into words has a `message`; the others are told apart by kind alone.
-/

namespace ClosingLabels

/-- Why a file operation was refused. -/
inductive DiskFault where
  /-- There is no such file. -/
  | missing
  /-- A directory stands where a file is wanted. -/
  | isDirectory
  /-- A file stands where a directory is wanted. -/
  | notDirectory
  /-- A file stands where a new directory should go. -/
  | exists
  /-- A name or a path is longer than the disk allows. -/
  | nameTooLong
  /-- A name holds a character that no name may hold. -/
  | badName
deriving DecidableEq, Repr

/-- Why an action failed. -/
inductive Fault where
  /-- A host failed and said why. -/
  | host (message : String)
  /-- The canvas refused to draw. -/
  | canvasUnavailable
  /-- The canvas refused to erase a label. -/
  | cannotErase (handle : String)
  /-- The canvas refused to repaint a document. -/
  | cannotFlush (document : String)
  /-- No kind in the list can stand in a pattern. -/
  | noValidKinds (kinds : List Text)
  /-- A pattern names a kind that the grammar does not have. -/
  | unknownKind (kind : Text)
  /-- A text was to be parsed before the parser had started. -/
  | parserMissing
  /-- The parser gave up on a text. -/
  | parsingFailed
  /-- A pattern was run on a tree that no longer exists. -/
  | treeDeleted (tree : Nat)
  /-- There is no command of that name. -/
  | unknownCommand (name : String)
  /-- The document has no such line. -/
  | missingLine
  /-- There is no such document, or an editor has none. -/
  | missingDocument
  /-- There is no such language. -/
  | missingLanguage
  /-- There is no such subscription. -/
  | missingSubscription
  /-- A grammar was named by something other than a file name. -/
  | notAFileName
  /-- A text is not JSON. -/
  | malformedJson
  /-- A file operation was refused. -/
  | disk (cause : DiskFault)
deriving DecidableEq, Repr

/-- The words for a fault, where there are any. -/
def Fault.message : Fault → Option Text
  | .host message => some message
  | .canvasUnavailable => some "surface unavailable"
  | .cannotErase handle => some s!"cannot destroy {handle}"
  | .cannotFlush document => some s!"cannot flush {document}"
  | .noValidKinds kinds => some ("No valid node kinds in [" ++ Text.join ", " kinds ++ "]")
  | .unknownKind kind => some ("Bad node name '" ++ kind ++ "'")
  | .parserMissing => some "Parser not initialized. Load a grammar with languageFor() first."
  | .parsingFailed => some "Parsing failed"
  | .treeDeleted tree => some s!"tree t{tree} was deleted"
  | .unknownCommand name => some s!"command '{name}' not found"
  | .missingLine | .missingDocument | .missingLanguage | .missingSubscription | .notAFileName
  | .malformedJson | .disk _ => none

end ClosingLabels
