import ClosingLabels.Json.Basic

/-!
# Reading JSON

The strict grammar: blanks are space, tab, line feed and carriage return only,
strings hold no raw control characters, numbers have no leading zeros, and nothing
may follow the value. Each reader takes the remaining characters and gives back
what it read together with what is left.
-/

namespace ClosingLabels

namespace Json

namespace Reader

/-- Blanks between tokens. -/
def isSpace (c : Char) : Bool := c = ' ' || c = '\t' || c = '\n' || c = '\r'

/-- What is left after the blanks. -/
def skip (cs : List Char) : List Char := cs.dropWhile isSpace

/-- Value of a hexadecimal digit. -/
def hexValue? (c : Char) : Option Nat :=
  if '0' ≤ c ∧ c ≤ '9' then some (c.toNat - '0'.toNat)
  else if 'a' ≤ c ∧ c ≤ 'f' then some (c.toNat - 'a'.toNat + 10)
  else if 'A' ≤ c ∧ c ≤ 'F' then some (c.toNat - 'A'.toNat + 10)
  else none

/-- The code unit written as four hexadecimal digits. -/
def unit? (a b c d : Char) : Option UInt16 := do
  let a ← hexValue? a
  let b ← hexValue? b
  let c ← hexValue? c
  let d ← hexValue? d
  return UInt16.ofNat (((a * 16 + b) * 16 + c) * 16 + d)

/-- The code unit that a one-letter escape stands for. -/
def escape? (c : Char) : Option UInt16 :=
  match c with
  | '"' => some 0x22
  | '\\' => some 0x5C
  | '/' => some 0x2F
  | 'b' => some 0x08
  | 'f' => some 0x0C
  | 'n' => some 0x0A
  | 'r' => some 0x0D
  | 't' => some 0x09
  | _ => none

/-- Reads the rest of a string up to its closing quote, as code units, so that two
escaped halves of a pair join into one character. -/
def stringTail : List Char → Option (Text × List Char)
  | [] => none
  | '"' :: rest => some ([], rest)
  | '\\' :: 'u' :: a :: b :: c :: d :: rest => do
    let u ← unit? a b c d
    let (units, left) ← stringTail rest
    return (u :: units, left)
  | '\\' :: c :: rest => do
    let u ← escape? c
    let (units, left) ← stringTail rest
    return (u :: units, left)
  | c :: rest =>
    if c.toNat < 0x20 || c = '\\' then none
    else do
      let (units, left) ← stringTail rest
      return (Text.ofChar c ++ units, left)

/-- Value of a run of decimal digits. -/
def digitsValue (digits : List Char) : Nat :=
  digits.foldl (fun n c => 10 * n + (c.toNat - '0'.toNat)) 0

/-- A run of digits and what follows it. -/
def digits (cs : List Char) : List Char × List Char :=
  (cs.takeWhile Char.isDigit, cs.dropWhile Char.isDigit)

/-- The digits after a decimal point, if there is one. -/
def fraction? : List Char → Option (List Char × List Char)
  | '.' :: rest =>
    let (run, left) := digits rest
    if run.isEmpty then none else some (run, left)
  | cs => some ([], cs)

/-- The digits of an exponent with its sign. -/
def exponentDigits? (negative : Bool) (cs : List Char) : Option (Int × List Char) :=
  let (run, left) := digits cs
  if run.isEmpty then none
  else
    let n : Int := digitsValue run
    some (if negative then -n else n, left)

/-- The exponent, if there is one. -/
def exponent? : List Char → Option (Int × List Char)
  | 'e' :: '+' :: rest | 'E' :: '+' :: rest => exponentDigits? false rest
  | 'e' :: '-' :: rest | 'E' :: '-' :: rest => exponentDigits? true rest
  | 'e' :: rest | 'E' :: rest => exponentDigits? false rest
  | cs => some (0, cs)

/-- Reads a number whose sign has been read. -/
def magnitude? (negative : Bool) (cs : List Char) : Option (Number × List Char) := do
  let (run, afterWhole) := digits cs
  if run.isEmpty then none
  if run.head? = some '0' && run.length ≠ 1 then none
  let (places, afterFraction) ← fraction? afterWhole
  let (exponent, left) ← exponent? afterFraction
  return (Number.ofDecimal negative (digitsValue (run ++ places)) (exponent - places.length), left)

/-- Reads a number. -/
def number? : List Char → Option (Number × List Char)
  | '-' :: rest => magnitude? true rest
  | cs => magnitude? false cs

mutual

/-- Reads a value. The first argument bounds the depth of the calls; twice the
number of characters is always enough. -/
def value : Nat → List Char → Option (Json × List Char)
  | 0, _ => none
  | fuel + 1, cs =>
    match skip cs with
    | 'n' :: 'u' :: 'l' :: 'l' :: rest => some (.null, rest)
    | 't' :: 'r' :: 'u' :: 'e' :: rest => some (.bool true, rest)
    | 'f' :: 'a' :: 'l' :: 's' :: 'e' :: rest => some (.bool false, rest)
    | '"' :: rest => (stringTail rest).map fun (units, left) => (.string units, left)
    | '[' :: rest =>
      match skip rest with
      | ']' :: left => some (.array [], left)
      | inner => (items fuel inner).map fun (list, left) => (.array list, left)
    | '\x7b' :: rest =>
      match skip rest with
      | '\x7d' :: left => some (.object [], left)
      | inner => (members fuel inner).map fun (list, left) => (ofMembers list, left)
    | other => (number? other).map fun (n, left) => (.number n, left)

/-- Reads the items of an array that is not empty, and its closing bracket. -/
def items : Nat → List Char → Option (List Json × List Char)
  | 0, _ => none
  | fuel + 1, cs => do
    let (first, left) ← value fuel cs
    match skip left with
    | ',' :: more =>
      let (rest, left) ← items fuel more
      return (first :: rest, left)
    | ']' :: left => return ([first], left)
    | _ => none

/-- Reads the members of an object that is not empty, and its closing brace. -/
def members : Nat → List Char → Option (List (Text × Json) × List Char)
  | 0, _ => none
  | fuel + 1, cs => do
    match skip cs with
    | '"' :: afterQuote =>
      let (name, left) ← stringTail afterQuote
      match skip left with
      | ':' :: afterColon =>
        let (first, left) ← value fuel afterColon
        match skip left with
        | ',' :: more =>
          let (rest, left) ← members fuel more
          return ((name, first) :: rest, left)
        | '\x7d' :: left => return ([(name, first)], left)
        | _ => none
      | _ => none
    | _ => none

end

end Reader

/-- Reads a whole text as one value. -/
def parse? (text : String) : Option Json :=
  let cs := text.toList
  match Reader.value (2 * cs.length + 2) cs with
  | some (json, left) => if (Reader.skip left).isEmpty then some json else none
  | none => none

end Json

end ClosingLabels
