import ClosingLabels.Fault
import ClosingLabels.Path

/-!
# The disk

Files and directories by the list of names that leads to them. A file's text can be
read and replaced; directories are made with all those above them and removed with
everything below. On the way to a place every name but the last has to lead to a
directory, and the first one that does not decides how the attempt ends.
-/

namespace ClosingLabels

/-- What is at a place on the disk. -/
inductive DiskEntry where
  | file (text : String)
  | directory
deriving DecidableEq, Repr

/-- The entries of a disk. The top directory is always there and not listed. -/
structure Disk where
  entries : List (List String × DiskEntry) := []
deriving DecidableEq, Repr

namespace Disk

/-- A disk with the directories on the way to a place and nothing else. -/
def holding (location : Location) : Disk :=
  ⟨(List.range location.names.length).map fun n => (location.names.take (n + 1), .directory)⟩

/-- What is listed under a path. -/
def find? (disk : Disk) : List String → Option DiskEntry
  | [] => some .directory
  | path => disk.entries.lookup path

/-- Puts an entry at a path. -/
def put (disk : Disk) (path : List String) (entry : DiskEntry) : Disk :=
  ⟨(path, entry) :: disk.entries.filter (·.1 ≠ path)⟩

/-- Names of more than 255 bytes are too long. -/
def isTooLong (name : String) : Bool := 255 < name.utf8ByteSize

/-- No name holds the character with code zero. -/
def isBad (name : String) : Bool := name.toList.any fun c => c.toNat = 0

/-- Whether a path may be asked for at all: none of its names holds a bad character, and
it takes less than 4096 bytes. -/
def check (location : Location) : Except DiskFault Unit :=
  if location.names.any isBad then .error .badName
  else if 4096 ≤ location.size then .error .nameTooLong
  else .ok ()

/-- Goes on from a directory along the remaining names. What is not there is no fault;
a file on the way is. -/
def walk (disk : Disk) (done : List String) : List String → Except DiskFault (Option DiskEntry)
  | [] => .ok (disk.find? done)
  | name :: rest =>
    let here := done ++ [name]
    if isTooLong name then .error .nameTooLong
    else
      match disk.find? here with
      | none => .ok none
      | some .directory => walk disk here rest
      | some (.file text) => if rest.isEmpty then .ok (some (.file text)) else .error .notDirectory

/-- What is at a place, if anything is. -/
def lookup (disk : Disk) (location : Location) : Except DiskFault (Option DiskEntry) := do
  check location
  match ← disk.walk [] location.names with
  | some (.file text) =>
    if location.asDirectory then throw .notDirectory else return some (.file text)
  | found => return found

/-- Whether there is anything at a place. -/
def has (disk : Disk) (location : Location) : Bool :=
  match disk.lookup location with
  | .ok (some _) => true
  | _ => false

/-- The text of a file. -/
def read (disk : Disk) (location : Location) : Except DiskFault String := do
  match ← disk.lookup location with
  | some (.file text) => return text
  | some .directory => throw .isDirectory
  | none => throw .missing

/-- Makes the directories from `done` downwards along the remaining names. What was made
before a refusal stays. -/
def makeBelow (disk : Disk) (done : List String) (asDirectory : Bool) :
    List String → Disk × Option DiskFault
  | [] => (disk, none)
  | name :: rest =>
    let here := done ++ [name]
    if isTooLong name then (disk, some .nameTooLong)
    else
      match disk.find? here with
      | some .directory => makeBelow disk here asDirectory rest
      | some (.file _) =>
        (disk, some (if rest.isEmpty && !asDirectory then .exists else .notDirectory))
      | none => makeBelow (disk.put here .directory) here asDirectory rest

/-- Makes a directory and all those above it, as far as that goes. -/
def makeDirectory (disk : Disk) (location : Location) : Disk × Option DiskFault :=
  match check location with
  | .error fault => (disk, some fault)
  | .ok () => disk.makeBelow [] location.asDirectory location.names

/-- Replaces the text of a file, which may be new; its directory has to exist. -/
def write (disk : Disk) (location : Location) (text : String) : Except DiskFault Disk := do
  check location
  match ← disk.lookup location.parent with
  | none => throw .missing
  | some (.file _) => throw .notDirectory
  | some .directory =>
    if location.asDirectory then throw .isDirectory
    match ← disk.lookup location with
    | some .directory => throw .isDirectory
    | _ => return disk.put location.names (.file text)

/-- Removes what is at a place, with everything below. That nothing is there is no
fault. -/
def remove (disk : Disk) (location : Location) : Except DiskFault Disk := do
  match ← disk.lookup location with
  | none => return disk
  | some _ => return ⟨disk.entries.filter fun entry => !location.names.isPrefixOf entry.1⟩

end Disk

end ClosingLabels
