import ClosingLabels.Tree.Node

/-!
# Parsing braces

A small grammar good for any language: a word right before an opening brace names a
block, which runs from the start of the word to just after the closing brace. A
brace without such a word still has to be closed, but names nothing, and what is
inside it belongs to the next block around. What is left open ends with the text.
-/

namespace ClosingLabels

namespace Braces

/-- A brace that is open: the kind and start of the block, if it names one, and the
finished blocks directly inside. -/
structure Frame where
  opener : Option (Text × Nat)
  children : List Node

/-- What has been read so far: the open braces, innermost first, and the finished
blocks that lie in no other. -/
structure Progress where
  frames : List Frame := []
  top : List Node := []

/-- Puts a finished block into the innermost open block. -/
def attach (node : Node) : List Frame → List Node → Progress
  | [], top => ⟨[], top ++ [node]⟩
  | frame :: rest, top =>
    match frame.opener with
    | some _ => ⟨{ frame with children := frame.children ++ [node] } :: rest, top⟩
    | none =>
      let outer := attach node rest top
      ⟨frame :: outer.frames, outer.top⟩

/-- Opens a brace at an offset, after the given word, which is written backwards. -/
def openBrace (offset : Nat) (word : Text) (progress : Progress) : Progress :=
  let opener :=
    match word.getLast? with
    | some first =>
      if Text.isDigit first then none else some (word.reverse, offset - word.length)
    | none => none
  { progress with frames := ⟨opener, []⟩ :: progress.frames }

/-- Closes the innermost open brace; its block stops at the given offset. -/
def closeBrace (stop : Nat) (progress : Progress) : Progress :=
  match progress.frames with
  | [] => progress
  | frame :: rest =>
    match frame.opener with
    | some (kind, start) => attach (.node ⟨kind, start, stop⟩ frame.children) rest progress.top
    | none => { progress with frames := rest }

/-- Reads on from an offset, with the word just before it written backwards. -/
def scan (offset : Nat) (word : Text) (progress : Progress) : Text → Progress
  | [] => progress
  | u :: rest =>
    if u = 0x7B then scan (offset + 1) [] (openBrace offset word progress) rest
    else if u = 0x7D then scan (offset + 1) [] (closeBrace (offset + 1) progress) rest
    else if Text.isWord u then scan (offset + 1) (u :: word) progress rest
    else scan (offset + 1) [] progress rest

/-- Closes as many braces as are open. -/
def closeAll (stop : Nat) : Nat → Progress → Progress
  | 0, progress => progress
  | count + 1, progress => closeAll stop count (closeBrace stop progress)

/-- The root of the tree of a text. -/
def parse (text : Text) : Node :=
  let read := scan 0 [] {} text
  let closed := closeAll text.length read.frames.length read
  .node ⟨"root", 0, text.length⟩ closed.top

/-- Whether a text holds three exclamation marks in a row, which no grammar accepts. -/
def isHopeless : Text → Bool
  | a :: b :: c :: rest =>
    (a = 0x21 && b = 0x21 && c = 0x21) || isHopeless (b :: c :: rest)
  | _ => false

end Braces

end ClosingLabels
