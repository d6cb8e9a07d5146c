/-!
# Text in code units

The editor counts text in 16-bit code units: a character outside the basic plane
takes two. Whatever a user writes is kept as a list of such units, because an edit
may cut between any two of them and a settings file may name any of them alone. This
file converts from and to ordinary strings, splits text into lines, trims blanks and
orders names by their units.
-/

namespace ClosingLabels

/-- Text as the editor counts it: one entry for every 16-bit code unit. -/
abbrev Text := List UInt16

namespace Text

/-- The units of one character: one below `0x10000`, a surrogate pair above. -/
def ofChar (c : Char) : Text :=
  let n := c.toNat
  if n < 0x10000 then [UInt16.ofNat n]
  else
    [UInt16.ofNat (0xD800 + (n - 0x10000) / 0x400), UInt16.ofNat (0xDC00 + (n - 0x10000) % 0x400)]

/-- The units of a string. -/
def ofString (s : String) : Text := s.toList.flatMap ofChar

/-- Texts are told apart unit by unit. -/
instance : LawfulBEq Text := inferInstance

/-- Fixed wording is written as a string. -/
instance : Coe String Text := ⟨ofString⟩

/-- First half of a surrogate pair. -/
def isHigh (u : UInt16) : Bool := 0xD800 ≤ u.toNat && u.toNat < 0xDC00

/-- Second half of a surrogate pair. -/
def isLow (u : UInt16) : Bool := 0xDC00 ≤ u.toNat && u.toNat < 0xE000

/-- What units spell: a character, or half of a pair that stands alone. -/
inductive Symbol where
  | char (value : Char)
  | half (unit : UInt16)
deriving DecidableEq, Repr

/-- What one unit spells by itself. -/
def Symbol.ofUnit (u : UInt16) : Symbol :=
  if isHigh u || isLow u then .half u else .char (Char.ofNat u.toNat)

/-- What the units of a text spell, two halves of a pair together one character. -/
def symbols : Text → List Symbol
  | [] => []
  | u :: v :: rest =>
    if isHigh u && isLow v then
      .char (Char.ofNat (0x10000 + (u.toNat - 0xD800) * 0x400 + (v.toNat - 0xDC00))) ::
        symbols rest
    else Symbol.ofUnit u :: symbols (v :: rest)
  | [u] => [Symbol.ofUnit u]

/-- A symbol as a character; a lone half is shown as the replacement character. -/
def Symbol.shown : Symbol → Char
  | char c => c
  | half _ => Char.ofNat 0xFFFD

/-- The string that the units spell, as far as a string can show it. -/
def toString (text : Text) : String := String.ofList (text.symbols.map Symbol.shown)

/-- Texts with a separator between them. -/
def join (separator : Text) (parts : List Text) : Text := List.intercalate separator parts

/-- Digits. -/
def isDigit (u : UInt16) : Bool := 0x30 ≤ u.toNat && u.toNat ≤ 0x39

/-- Letters of the basic alphabet, digits and the underscore. -/
def isWord (u : UInt16) : Bool :=
  let n := u.toNat
  isDigit u || (0x41 ≤ n && n ≤ 0x5A) || (0x61 ≤ n && n ≤ 0x7A) || n == 0x5F

/-- The unit that ends a line. -/
def newline : UInt16 := 10

/-- Units that trimming removes: the controls from tab to carriage return, the
space separators, the two line separators and the byte order mark. -/
def isBlank (u : UInt16) : Bool :=
  let n := u.toNat
  (0x09 ≤ n && n ≤ 0x0D) || n == 0x20 || n == 0xA0 || n == 0x1680 ||
    (0x2000 ≤ n && n ≤ 0x200A) || n == 0x2028 || n == 0x2029 || n == 0x202F || n == 0x205F ||
    n == 0x3000 || n == 0xFEFF

/-- Text without its leading blanks. -/
def trimLeft (text : Text) : Text := text.dropWhile isBlank

/-- Text without its leading and trailing blanks. -/
def trim (text : Text) : Text := ((trimLeft text).reverse.dropWhile isBlank).reverse

/-- The lines of a text. A line feed separates two lines and belongs to neither,
so there is always at least one line. -/
def lines : Text → List Text
  | [] => [[]]
  | u :: rest =>
    if u = newline then [] :: lines rest
    else match lines rest with
      | [] => [[u]]
      | line :: more => (u :: line) :: more

/-- How many units of a text stand before a cut. Only whole units are cut off, what lies
behind the end counts as the end, and a place below zero is counted from the end. -/
def cutAt (text : Text) (place : Rat) : Nat :=
  let whole := place.num.tdiv place.den
  if whole < 0 then (text.length + whole).toNat else min whole.toNat text.length

/-- Whether one name stands before or with another, unit by unit. -/
def atMost (a b : Text) : Bool := decide (a ≤ b)

/-- Names in increasing order of their units. -/
def sortNames (names : List Text) : List Text := names.mergeSort atMost

end Text

end ClosingLabels
