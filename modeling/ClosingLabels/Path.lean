/-!
# Paths

Slash-separated paths. Joining puts parts together and removes what does not lead
anywhere: empty and single-dot segments, and double dots with the segment before
them. A slash at the very end is kept.
-/

namespace ClosingLabels

namespace Path

/-- The segments of a path, empty ones included. -/
def split (path : String) : List String := (path.toList.splitOn '/').map String.ofList

/-- Takes one more segment; the segments before it are given last first. At the top of
an absolute path there is nothing above. -/
def step (absolute : Bool) (before : List String) (segment : String) : List String :=
  if segment = "" ∨ segment = "." then before
  else if segment = ".." then
    match before with
    | [] => if absolute then [] else [".."]
    | last :: rest => if last = ".." then ".." :: before else rest
  else segment :: before

/-- A path without segments that lead nowhere. -/
def normalize (path : String) : String :=
  let absolute := path.startsWith "/"
  let slash := if path.endsWith "/" then "/" else ""
  match ((split path).foldl (step absolute) []).reverse with
  | [] => if absolute then "/" else "." ++ slash
  | segments => (if absolute then "/" else "") ++ String.intercalate "/" segments ++ slash

/-- The parts put together, in shortest form. -/
def join (parts : List String) : String :=
  match parts.filter (· ≠ "") with
  | [] => "."
  | parts => normalize (String.intercalate "/" parts)

/-- A path taken as one below some directory: it stays relative even when it begins with
a slash. -/
def below (path : String) : String := normalize ("./" ++ path)

end Path

/-- Where a path leads: the names on the way, and whether the path ends in a slash, which
only a directory can answer to. -/
structure Location where
  names : List String
  asDirectory : Bool := false
deriving DecidableEq, Repr

namespace Location

/-- Where a path leads from the top directory, which has nothing above it. -/
def ofPath (path : String) : Location where
  names := ((Path.split path).foldl (Path.step true) []).reverse
  asDirectory := path.endsWith "/"

/-- How many bytes a path to a place takes, with a slash before every name. -/
def size (location : Location) : Nat :=
  location.names.foldr (fun name total => name.utf8ByteSize + 1 + total)
    (if location.asDirectory then 1 else 0)

/-- The directory around a place. -/
def parent (location : Location) : Location := ⟨location.names.dropLast, false⟩

end Location

end ClosingLabels
