import ClosingLabels.Json.Basic

/-!
# Writing JSON

A value is written either on one line without blanks or spread over lines with two
blanks of indentation per level; empty arrays and objects stay on one line in both.
Only quotes, backslashes, control characters and lone halves of surrogate pairs are
escaped. A number out of range has no JSON form and is written `null`.
-/

namespace ClosingLabels

namespace Json

namespace Printer

/-- A lower-case hexadecimal digit. -/
def hexDigit (n : Nat) : Char :=
  if n < 10 then Char.ofNat ('0'.toNat + n) else Char.ofNat ('a'.toNat + (n - 10))

/-- A code unit as an escape with four hexadecimal digits. -/
def escapedUnit (u : UInt16) : List Char :=
  let n := u.toNat
  ['\\', 'u', hexDigit (n / 0x1000), hexDigit (n / 0x100 % 16), hexDigit (n / 16 % 16),
    hexDigit (n % 16)]

/-- A character inside a string. -/
def escaped (c : Char) : List Char :=
  match c with
  | '"' => ['\\', '"']
  | '\\' => ['\\', '\\']
  | '\n' => ['\\', 'n']
  | '\r' => ['\\', 'r']
  | '\t' => ['\\', 't']
  | c =>
    if c.toNat = 0x08 then ['\\', 'b']
    else if c.toNat = 0x0C then ['\\', 'f']
    else if c.toNat < 0x20 then escapedUnit (UInt16.ofNat c.toNat)
    else [c]

/-- A symbol inside a string. -/
def written : Text.Symbol → List Char
  | .char c => escaped c
  | .half u => escapedUnit u

/-- A string with its quotes. -/
def quoted (text : Text) : List Char := '"' :: (text.symbols.flatMap written ++ ['"'])

/-- A number, or `null` when it is out of range. -/
def numberText : Number → List Char
  | .infinite _ => ['n', 'u', 'l', 'l']
  | n => n.text.toList

mutual

/-- A value without any blanks. -/
def compact : Json → List Char
  | .null => ['n', 'u', 'l', 'l']
  | .bool true => ['t', 'r', 'u', 'e']
  | .bool false => ['f', 'a', 'l', 's', 'e']
  | .number n => numberText n
  | .string s => quoted s
  | .array items => '[' :: (compactItems items ++ [']'])
  | .object members => '\x7b' :: (compactMembers members ++ ['\x7d'])

/-- Items with commas between them. -/
def compactItems : List Json → List Char
  | [] => []
  | [item] => compact item
  | item :: rest => compact item ++ ',' :: compactItems rest

/-- Members with commas between them. -/
def compactMembers : List (Text × Json) → List Char
  | [] => []
  | [(name, value)] => quoted name ++ ':' :: compact value
  | (name, value) :: rest => quoted name ++ ':' :: (compact value ++ ',' :: compactMembers rest)

end

/-- The start of a line at some depth. -/
def newLine (depth : Nat) : List Char := '\n' :: List.replicate (2 * depth) ' '

mutual

/-- A value spread over lines, standing at some depth. -/
def spread (depth : Nat) : Json → List Char
  | .null => ['n', 'u', 'l', 'l']
  | .bool true => ['t', 'r', 'u', 'e']
  | .bool false => ['f', 'a', 'l', 's', 'e']
  | .number n => numberText n
  | .string s => quoted s
  | .array [] => ['[', ']']
  | .array items => '[' :: (spreadItems (depth + 1) items ++ newLine depth ++ [']'])
  | .object [] => ['\x7b', '\x7d']
  | .object members => '\x7b' :: (spreadMembers (depth + 1) members ++ newLine depth ++ ['\x7d'])

/-- Items, each on a line of its own. -/
def spreadItems (depth : Nat) : List Json → List Char
  | [] => []
  | [item] => newLine depth ++ spread depth item
  | item :: rest => newLine depth ++ spread depth item ++ ',' :: spreadItems depth rest

/-- Members, each on a line of its own. -/
def spreadMembers (depth : Nat) : List (Text × Json) → List Char
  | [] => []
  | [(name, value)] => newLine depth ++ quoted name ++ ':' :: ' ' :: spread depth value
  | (name, value) :: rest =>
    newLine depth ++ quoted name ++ ':' :: ' ' :: (spread depth value ++
      ',' :: spreadMembers depth rest)

end

end Printer

/-- A value on one line. -/
def compact (json : Json) : String := String.ofList (Printer.compact json)

/-- A value spread over lines. -/
def pretty (json : Json) : String := String.ofList (Printer.spread 0 json)

end Json

end ClosingLabels
