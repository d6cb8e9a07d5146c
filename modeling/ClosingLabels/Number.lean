/-!
# Numbers with 53 significant bits

Every number of the settings file and of the editor is a fraction with 53
significant bits or lies out of range. A decimal is read as the nearest such
number, a tie going to the even significand, and a number is written with the
fewest digits that read back as itself.
-/

namespace ClosingLabels

/-- A number as it is read and written: an exact value, or out of range. -/
inductive Number where
  | finite (value : Rat)
  | infinite (negative : Bool)
deriving DecidableEq, Repr

namespace Number

/-- A power of two. -/
def twoTo (exponent : Nat) : Nat := Nat.pow 2 exponent

/-- A power of ten. -/
def tenTo (exponent : Nat) : Nat := Nat.pow 10 exponent

/-- Whole numbers up to this one are all exact. -/
def exactLimit : Nat := twoTo 53

/-- Quotient to the nearest whole number, a tie going to the even one. -/
def roundDiv (num den : Nat) : Nat :=
  let quotient := num / den
  let twice := 2 * (num % den)
  if twice < den then quotient
  else if den < twice then quotient + 1
  else if quotient % 2 = 0 then quotient else quotient + 1

/-- `mantissa * 2 ^ exponent` as a fraction. -/
def scale (mantissa : Nat) (exponent : Int) : Rat :=
  if 0 ≤ exponent then ((mantissa * twoTo exponent.toNat : Nat) : Rat)
  else mkRat mantissa (twoTo (-exponent).toNat)

/-- Whether `2 ^ exponent` is at most `num / den`. -/
def reaches (num den : Nat) (exponent : Int) : Bool :=
  if 0 ≤ exponent then decide (den * twoTo exponent.toNat ≤ num)
  else decide (den ≤ num * twoTo (-exponent).toNat)

/-- The place of the last significant bit of a positive fraction: 52 places below
the first, but never below the smallest place there is. -/
def lastPlace (num den : Nat) : Int :=
  let guess : Int := (Nat.log2 num : Int) - Nat.log2 den
  let first := if reaches num den guess then guess else guess - 1
  max (first - 52) (-1074)

/-- The number nearest to `num / den`. -/
def nearestMagnitude (num den : Nat) : Option Rat :=
  if num = 0 then some 0
  else
    let place := lastPlace num den
    let mantissa :=
      if 0 ≤ place then roundDiv num (den * twoTo place.toNat)
      else roundDiv (num * twoTo (-place).toNat) den
    let value := scale mantissa place
    if value < ((twoTo 1024 : Nat) : Rat) then some value else none

/-- The number nearest to a fraction; what is too large is infinite. -/
def nearest (value : Rat) : Number :=
  match nearestMagnitude value.num.natAbs value.den with
  | some magnitude => .finite (if value.num < 0 then -magnitude else magnitude)
  | none => .infinite (decide (value.num < 0))

/-- The number with the given decimal digits and power of ten. Exponents that can
only give zero or infinity are settled without computing the power. -/
def ofDecimal (negative : Bool) (digits : Nat) (exponent : Int) : Number :=
  let width : Int := (Nat.toDigits 10 digits).length
  if digits = 0 ∨ width + exponent < -330 then .finite 0
  else if 320 < width + exponent then .infinite negative
  else
    let magnitude : Rat :=
      if 0 ≤ exponent then ((digits * tenTo exponent.toNat : Nat) : Rat)
      else mkRat digits (tenTo (-exponent).toNat)
    nearest (if negative then -magnitude else magnitude)

/-- The whole value of a number that has one. -/
def whole? : Number → Option Int
  | .finite value => if value.den = 1 then some value.num else none
  | .infinite _ => none

/-- The value of a number on the number line; out of range counts as `2 ^ 1024`. -/
def toRat : Number → Rat
  | .finite value => value
  | .infinite true => -((twoTo 1024 : Nat) : Rat)
  | .infinite false => ((twoTo 1024 : Nat) : Rat)

/-- The nearest number to a fraction, as a fraction. Whole numbers up to `exactLimit` are
their own nearest numbers. -/
def rounded (value : Rat) : Rat :=
  if value.den = 1 ∧ value.num.natAbs ≤ exactLimit then value else (nearest value).toRat

/-- The sum of two numbers as the editor adds them: exact, then rounded. -/
def sum (a b : Rat) : Rat := rounded (a + b)

/-! ## Shortest decimals -/

/-- Some digits and the power of ten of the last of them. -/
structure Decimal where
  digits : Nat
  exponent : Int
deriving DecidableEq, Repr

/-- The fraction a decimal stands for. -/
def Decimal.value (d : Decimal) : Rat :=
  if 0 ≤ d.exponent then ((d.digits * tenTo d.exponent.toNat : Nat) : Rat)
  else mkRat d.digits (tenTo (-d.exponent).toNat)

/-- How many places a fraction below one is from its first significant digit. -/
def leadingZeros : Nat → Nat → Nat → Nat
  | 0, _, _ => 0
  | fuel + 1, num, den => if den ≤ 10 * num then 0 else leadingZeros fuel (10 * num) den + 1

/-- The power of ten just above the first significant digit. -/
def decimalPoint (num den : Nat) : Int :=
  if den ≤ num then ((Nat.toDigits 10 (num / den)).length : Int)
  else -(leadingZeros 400 num den : Int)

/-- Whether the upper one of two neighbouring decimals is the better approximation of a
fraction between them: it is nearer, or it is as near and its last digit is even. -/
def prefersUpper (value : Rat) (lower upper : Decimal) : Bool :=
  let up := upper.value - value
  let down := value - lower.value
  decide (up < down ∨ (up = down ∧ upper.digits % 2 = 0))

/-- The decimals with `count` digits on either side of a positive fraction that
read back as it, the better one first. -/
def candidates (value : Rat) (count : Nat) : List Decimal :=
  let num := value.num.natAbs
  let exponent := decimalPoint num value.den - count
  let below := (value / (Decimal.mk 1 exponent).value).floor.toNat
  let pair := [Decimal.mk below exponent, Decimal.mk (below + 1) exponent]
  let near := pair.filter fun d => decide (nearest d.value = .finite value)
  match near with
  | [lower, upper] => if prefersUpper value lower upper then [upper, lower] else [lower, upper]
  | _ => near

/-- The first count, from `count` on, whose grid holds a decimal that reads back. -/
def searchShortest (value : Rat) : Nat → Nat → Decimal
  | 0, count => ⟨(value / (Decimal.mk 1 (-(count : Int))).value).floor.toNat, -(count : Int)⟩
  | fuel + 1, count =>
    match candidates value count with
    | d :: _ => d
    | [] => searchShortest value fuel (count + 1)

/-- The decimal with the fewest digits that reads back as a positive number. -/
def shortest (value : Rat) : Decimal := searchShortest value 17 1

/-! ## Writing -/

/-- Digits of a whole number. -/
def digitsOf (n : Nat) : List Char := Nat.toDigits 10 n

/-- An exponent mark with its sign. -/
def exponentText (n : Int) : List Char :=
  'e' :: (if n < 0 then '-' else '+') :: digitsOf n.natAbs

/-- Lays out significant digits, the first of which stands just below ten to the
power `point`: in full up to 21 places, as a plain fraction down to six zeros after
the point, and with an exponent otherwise. -/
def layOut (digits : List Char) (point : Int) : List Char :=
  let count : Int := digits.length
  if count ≤ point ∧ point ≤ 21 then digits ++ List.replicate (point - count).toNat '0'
  else if 0 < point ∧ point ≤ 21 then
    digits.take point.toNat ++ '.' :: digits.drop point.toNat
  else if -6 < point ∧ point ≤ 0 then
    '0' :: '.' :: (List.replicate (-point).toNat '0' ++ digits)
  else
    match digits with
    | [] => []
    | [d] => d :: exponentText (point - 1)
    | d :: rest => d :: '.' :: (rest ++ exponentText (point - 1))

/-- Digits without the zeros at their end. -/
def significant (digits : List Char) : List Char :=
  (digits.reverse.dropWhile (· = '0')).reverse

/-- A positive number in its shortest form. -/
def positiveText (value : Rat) : List Char :=
  let d := shortest value
  let digits := digitsOf d.digits
  layOut (significant digits) (digits.length + d.exponent)

/-- The text of a number. Whole numbers up to `exactLimit` are written in full. -/
def text : Number → String
  | .infinite negative => if negative then "-Infinity" else "Infinity"
  | .finite value =>
    if value.den = 1 ∧ value.num.natAbs ≤ exactLimit then
      String.ofList ((if value.num < 0 then ['-'] else []) ++ digitsOf value.num.natAbs)
    else if value < 0 then String.ofList ('-' :: positiveText (-value))
    else String.ofList (positiveText value)

/-- The text of a fraction as the editor shows it. -/
def textOf (value : Rat) : String := (nearest value).text

theorem rounded_of_le {n : Int} (h : n.natAbs ≤ exactLimit) : rounded (n : Rat) = n := by
  simp [rounded, h]

end Number

end ClosingLabels
