import ClosingLabels.Json.Printer
import ClosingLabels.Json.Reader
import Mathlib.Data.List.Basic
import Mathlib.Data.Rat.Lemmas
import Mathlib.Tactic.Linarith
import Mathlib.Tactic.NormNum

/-!
# Strings and numbers read back

Whatever its units, a string that was written reads back as it was: a character that is
escaped, half of a pair that stands alone, and a pair that is written as one character. So
does a whole number that is small enough to be exact.
-/

namespace ClosingLabels

/-! ## What units spell -/

namespace Text

/-- The units of a symbol. -/
def Symbol.units : Symbol → Text
  | .char c => ofChar c
  | .half u => [u]

theorem isHigh_iff (u : UInt16) : isHigh u = true ↔ 0xD800 ≤ u.toNat ∧ u.toNat < 0xDC00 := by
  simp [isHigh]

theorem isLow_iff (u : UInt16) : isLow u = true ↔ 0xDC00 ≤ u.toNat ∧ u.toNat < 0xE000 := by
  simp [isLow]

/-- A unit that is no half of a pair spells the character with its number. -/
theorem ofChar_ofNat {u : UInt16} (hhigh : isHigh u = false) (hlow : isLow u = false) :
    ofChar (Char.ofNat u.toNat) = [u] := by
  have hnot : ¬(0xD800 ≤ u.toNat ∧ u.toNat < 0xE000) := by
    rintro ⟨hlower, hupper⟩
    by_cases hmiddle : u.toNat < 0xDC00
    · exact absurd ((isHigh_iff u).mpr ⟨hlower, hmiddle⟩) (by simp [hhigh])
    · exact absurd ((isLow_iff u).mpr ⟨by omega, hupper⟩) (by simp [hlow])
  have hlt := u.toNat_lt
  have hvalid : u.toNat.isValidChar := by
    unfold Nat.isValidChar
    omega
  have hnat : (Char.ofNat u.toNat).toNat = u.toNat := by
    rw [Char.ofNat, dif_pos hvalid]
    rfl
  rw [ofChar, hnat, if_pos (by omega)]
  simp

/-- Two halves together spell the character that is written with them. -/
theorem ofChar_pair {u v : UInt16} (hhigh : isHigh u = true) (hlow : isLow v = true) :
    ofChar (Char.ofNat (0x10000 + (u.toNat - 0xD800) * 0x400 + (v.toNat - 0xDC00))) = [u, v] := by
  obtain ⟨hu, hu'⟩ := (isHigh_iff u).mp hhigh
  obtain ⟨hv, hv'⟩ := (isLow_iff v).mp hlow
  set n := 0x10000 + (u.toNat - 0xD800) * 0x400 + (v.toNat - 0xDC00) with hn
  have hvalid : n.isValidChar := by
    unfold Nat.isValidChar
    omega
  have hnat : (Char.ofNat n).toNat = n := by
    rw [Char.ofNat, dif_pos hvalid]
    rfl
  have hfirst : 0xD800 + (n - 0x10000) / 0x400 = u.toNat := by omega
  have hsecond : 0xDC00 + (n - 0x10000) % 0x400 = v.toNat := by omega
  rw [ofChar, hnat, if_neg (by omega), hfirst, hsecond]
  simp

/-- Spelling a text out loses nothing. -/
theorem units_symbols (text : Text) : text.symbols.flatMap Symbol.units = text := by
  have hone (u : UInt16) : (Symbol.ofUnit u).units = [u] := by
    unfold Symbol.ofUnit
    split
    · rfl
    · next hplain =>
      rw [Bool.or_eq_true, not_or, Bool.not_eq_true, Bool.not_eq_true] at hplain
      exact ofChar_ofNat hplain.1 hplain.2
  fun_induction symbols text with
  | case1 => rfl
  | case2 u v rest hpair ih =>
    rw [Bool.and_eq_true] at hpair
    rw [List.flatMap_cons, ih, Symbol.units, ofChar_pair hpair.1 hpair.2]
    rfl
  | case3 u v rest hpair ih =>
    rw [List.flatMap_cons, ih, hone]
    rfl
  | case4 u => rw [List.flatMap_cons, List.flatMap_nil, hone, List.append_nil]

/-- A text without halves can be shown as it is. -/
theorem ofString_toString {text : Text}
    (hplain : ∀ u ∈ text, isHigh u = false ∧ isLow u = false) : ofString text.toString = text := by
  have hchar : ∀ symbol ∈ text.symbols, ofChar symbol.shown = symbol.units := by
    have hone {u : UInt16} (hu : isHigh u = false ∧ isLow u = false) :
        ofChar (Symbol.ofUnit u).shown = (Symbol.ofUnit u).units := by
      simp [Symbol.ofUnit, hu.1, hu.2, Symbol.shown, Symbol.units]
    fun_induction symbols text with
    | case1 => simp
    | case2 u v rest hpair ih =>
      have hu := (hplain u List.mem_cons_self).1
      simp [hu] at hpair
    | case3 u v rest hpair ih =>
      intro symbol hsymbol
      rcases List.mem_cons.mp hsymbol with rfl | hlater
      · exact hone (hplain u List.mem_cons_self)
      · exact ih (fun w hw => hplain w (List.mem_cons_of_mem u hw)) symbol hlater
    | case4 u =>
      intro symbol hsymbol
      rw [List.mem_singleton.mp hsymbol]
      exact hone (hplain u List.mem_cons_self)
  calc ofString text.toString
      = text.symbols.flatMap fun symbol => ofChar symbol.shown := by
        rw [ofString, toString, String.toList_ofList, List.flatMap_map]
    _ = text.symbols.flatMap Symbol.units := List.flatMap_congr hchar
    _ = text := units_symbols text

end Text

/-! ## Whole numbers -/

namespace Number

theorem twoTo_lt {m n : Nat} (h : m < n) : twoTo m < twoTo n := Nat.pow_lt_pow_right Nat.one_lt_two h

theorem roundDiv_one (n : Nat) : roundDiv n 1 = n := by
  simp [roundDiv, Nat.mod_one]

/-- The last significant place of a whole number is 52 places below its first. -/
theorem lastPlace_whole {n : Nat} (hn : n ≠ 0) (hlimit : n < exactLimit) :
    lastPlace n 1 = -((52 - Nat.log2 n : Nat) : Int) := by
  have hlog : Nat.log2 n < 53 := (Nat.log2_lt hn).mpr hlimit
  have hreaches : reaches n 1 (Nat.log2 n) = true := by
    unfold reaches
    rw [if_pos (by omega)]
    simpa [twoTo] using Nat.log2_self_le hn
  have hone : Nat.log2 1 = 0 := by decide
  unfold lastPlace
  simp only [hone, Nat.cast_zero, sub_zero, hreaches, if_true]
  omega

/-- Whole numbers below the limit are their own nearest numbers. -/
theorem nearestMagnitude_whole {n : Nat} (hlimit : n < exactLimit) :
    nearestMagnitude n 1 = some (n : Rat) := by
  have hbound : (n : Rat) < ((twoTo 1024 : Nat) : Rat) :=
    Nat.cast_lt.mpr (hlimit.trans (twoTo_lt (by omega)))
  unfold nearestMagnitude
  by_cases hn : n = 0
  · rw [if_pos hn, hn]
    rfl
  rw [if_neg hn, lastPlace_whole hn hlimit]
  generalize twoTo 1024 = bound at hbound
  generalize 52 - Nat.log2 n = k
  have hscale : scale (if (0 : Int) ≤ -(k : Int) then roundDiv n (1 * twoTo (-(k : Int)).toNat)
      else roundDiv (n * twoTo (-(-(k : Int))).toNat) 1) (-(k : Int)) = n := by
    rcases Nat.eq_zero_or_pos k with rfl | hk
    · simp [roundDiv_one, scale, twoTo]
    · have hneg : ¬(0 : Int) ≤ -(k : Int) := by omega
      rw [scale, if_neg hneg, if_neg hneg, roundDiv_one, Int.neg_neg, Int.toNat_natCast, twoTo,
        Nat.pow_eq]
      rw [Rat.mkRat_eq_div]
      push_cast
      exact mul_div_cancel_right₀ _ (by positivity)
  dsimp only
  rw [hscale, if_pos hbound]

/-- A whole number below the limit reads back from its digits. -/
theorem ofDecimal_whole {n : Nat} (hlimit : n < exactLimit) :
    ofDecimal false n 0 = .finite (n : Rat) := by
  have hwidth : (Nat.toDigits 10 n).length ≤ 16 := by
    refine (Nat.length_toDigits_le_iff (by omega) (by omega)).mpr (hlimit.trans ?_)
    decide
  unfold ofDecimal
  by_cases hn : n = 0
  · simp [hn]
  · simp only [add_zero]
    rw [if_neg (by omega), if_neg (by omega)]
    simp [nearest, tenTo, nearestMagnitude_whole hlimit]

/-- Only zero has a leading zero. -/
theorem head?_digitsOf {n : Nat} (hn : n ≠ 0) : (digitsOf n).head? ≠ some '0' := by
  unfold digitsOf
  induction n using Nat.strong_induction_on with
  | _ n ih =>
    rcases Nat.lt_or_ge n 10 with hsmall | hlarge
    · rw [Nat.toDigits_of_lt_base hsmall]
      have hall : ∀ m < 10, m ≠ 0 → [m.digitChar].head? ≠ some '0' := by decide
      exact hall n hsmall hn
    · rw [Nat.toDigits_of_base_le (by omega) hlarge]
      have hfront := ih (n / 10) (by omega) (by omega)
      cases hdigits : Nat.toDigits 10 (n / 10) with
      | nil => exact absurd hdigits Nat.toDigits_ne_nil
      | cons d run => simpa [hdigits] using hfront

theorem digitsOf_eq_cons (n : Nat) : ∃ d run, digitsOf n = d :: run ∧ d.isDigit := by
  cases hdigits : digitsOf n with
  | nil => exact absurd hdigits Nat.toDigits_ne_nil
  | cons d run =>
    refine ⟨d, run, rfl, Nat.isDigit_of_mem_toDigits (b := 10) (n := n) (by omega) (by omega) ?_⟩
    change d ∈ digitsOf n
    rw [hdigits]
    exact List.mem_cons_self

end Number

namespace Json

open Text (Symbol)
open Printer Reader

/-! ## Strings -/

theorem hexValue?_hexDigit {n : Nat} (hn : n < 16) : hexValue? (hexDigit n) = some n := by
  have hall : ∀ m < 16, hexValue? (hexDigit m) = some m := by decide
  exact hall n hn

/-- The four digits of a unit read back as it. -/
theorem stringTail_escapedUnit (u : UInt16) (tail : List Char) :
    stringTail (escapedUnit u ++ tail) =
      (stringTail tail).map fun read => (u :: read.1, read.2) := by
  have hlt := u.toNat_lt
  have hunit : unit? (hexDigit (u.toNat / 0x1000)) (hexDigit (u.toNat / 0x100 % 16))
      (hexDigit (u.toNat / 16 % 16)) (hexDigit (u.toNat % 16)) = some u := by
    unfold unit?
    rw [hexValue?_hexDigit (by omega), hexValue?_hexDigit (by omega),
      hexValue?_hexDigit (by omega), hexValue?_hexDigit (by omega)]
    have hvalue : ((u.toNat / 0x1000 * 16 + u.toNat / 0x100 % 16) * 16 + u.toNat / 16 % 16) * 16 +
        u.toNat % 16 = u.toNat := by omega
    simp only [Option.bind_eq_bind, Option.bind_some, Option.pure_def, hvalue]
    simp
  simp only [escapedUnit, List.cons_append, List.nil_append, stringTail, hunit]
  cases stringTail tail <;> rfl

/-- A character that needs no escape reads back as it is. -/
theorem stringTail_plain {c : Char} (hquote : c ≠ '"') (hslash : c ≠ '\\') (hlow : 0x20 ≤ c.toNat)
    (tail : List Char) :
    stringTail (c :: tail) =
      (stringTail tail).map fun read => (Text.ofChar c ++ read.1, read.2) := by
  rw [stringTail]
  · rw [if_neg (by simp [hslash]; omega)]
    cases stringTail tail <;> rfl
  · exact hquote
  · exact fun _ _ _ _ _ h => absurd h hslash
  · exact fun _ _ h => absurd h hslash

/-- An escape with one letter reads back as what the letter stands for. -/
theorem stringTail_letter {letter : Char} {u : UInt16} (hletter : escape? letter = some u)
    (tail : List Char) :
    stringTail ('\\' :: letter :: tail) =
      (stringTail tail).map fun read => (u :: read.1, read.2) := by
  rw [stringTail]
  · rw [hletter]
    cases stringTail tail <;> rfl
  · intro _ _ _ _ _ h _
    rw [h] at hletter
    cases hletter

theorem stringTail_escaped (c : Char) (tail : List Char) :
    stringTail (escaped c ++ tail) =
      (stringTail tail).map fun read => (Text.ofChar c ++ read.1, read.2) := by
  unfold escaped
  split
  · exact stringTail_letter rfl tail
  · exact stringTail_letter rfl tail
  · exact stringTail_letter rfl tail
  · exact stringTail_letter rfl tail
  · exact stringTail_letter rfl tail
  · next hquote hslash _ _ _ =>
    have hchar {n : Nat} (hn : c.toNat = n) (hsmall : n < 0x10000) :
        Text.ofChar c = [UInt16.ofNat n] := by
      rw [Text.ofChar, hn, if_pos hsmall]
    split
    · next hbackspace =>
      rw [hchar hbackspace (by decide)]
      exact stringTail_letter rfl tail
    · split
      · next hfeed =>
        rw [hchar hfeed (by decide)]
        exact stringTail_letter rfl tail
      · split
        · next hcontrol =>
          rw [hchar rfl (by omega)]
          exact stringTail_escapedUnit _ tail
        · next hplain => exact stringTail_plain hquote hslash (Nat.le_of_not_lt hplain) tail

/-- A symbol reads back as its units. -/
theorem stringTail_written (symbol : Symbol) (tail : List Char) :
    stringTail (written symbol ++ tail) =
      (stringTail tail).map fun read => (symbol.units ++ read.1, read.2) := by
  cases symbol with
  | char c => exact stringTail_escaped c tail
  | half u => exact stringTail_escapedUnit u tail

/-- A string reads back as it was, however it is escaped. -/
theorem stringTail_quoted (text : Text) (rest : List Char) :
    stringTail (text.symbols.flatMap written ++ '"' :: rest) = some (text, rest) := by
  have hsymbols (symbols : List Symbol) :
      stringTail (symbols.flatMap written ++ '"' :: rest) =
        some (symbols.flatMap Symbol.units, rest) := by
    induction symbols with
    | nil => rfl
    | cons symbol more ih =>
      rw [List.flatMap_cons, List.append_assoc, stringTail_written, ih]
      rfl
  rw [hsymbols, Text.units_symbols]

/-! ## Numbers -/

/-- What may follow a value in a text that is spread over lines. -/
def Reader.Apart (rest : List Char) : Prop := ∀ c ∈ rest.head?, c = ',' ∨ c = '\n'

theorem digits_digitsOf (n : Nat) {rest : List Char} (hrest : Apart rest) :
    digits (Number.digitsOf n ++ rest) = (Number.digitsOf n, rest) := by
  have hrun : ∀ c ∈ Number.digitsOf n, c.isDigit = true :=
    fun c hc => Nat.isDigit_of_mem_toDigits (by omega) (by omega) hc
  have hstop : rest.takeWhile Char.isDigit = [] ∧ rest.dropWhile Char.isDigit = rest := by
    cases rest with
    | nil => exact ⟨rfl, rfl⟩
    | cons c more =>
      have hc : c.isDigit = false := by
        rcases hrest c rfl with rfl | rfl <;> rfl
      simp [hc]
  rw [digits, List.takeWhile_append_of_pos hrun, List.dropWhile_append_of_pos hrun, hstop.1,
    hstop.2, List.append_nil]

theorem digitsValue_digitsOf (n : Nat) : digitsValue (Number.digitsOf n) = n := by
  have hvalue := Nat.ofDigitChars_ten_toDigits (n := n)
  rwa [Nat.ofDigitChars_eq_foldl] at hvalue

/-- A whole number reads back from its digits. -/
theorem number?_digitsOf {n : Nat} (hlimit : n < Number.exactLimit) {rest : List Char}
    (hrest : Apart rest) :
    number? (Number.digitsOf n ++ rest) = some (.finite n, rest) := by
  have hfraction : fraction? rest = some ([], rest) := by
    unfold fraction?
    split
    · next more => rcases hrest '.' rfl with h | h <;> cases h
    · rfl
  have hexponent : exponent? rest = some (0, rest) := by
    unfold exponent?
    split
    all_goals first | rfl | (next more => exact absurd (hrest _ rfl) (by decide))
  have hmagnitude : magnitude? false (Number.digitsOf n ++ rest) = some (.finite n, rest) := by
    have hnone : (Number.digitsOf n).isEmpty = false := by
      simp [Number.digitsOf, Nat.toDigits_ne_nil]
    have hzero : ((Number.digitsOf n).head? = some '0' && (Number.digitsOf n).length ≠ 1) = false := by
      by_cases hn : n = 0
      · subst hn
        rfl
      · simp [Number.head?_digitsOf hn]
    unfold magnitude?
    rw [digits_digitsOf n hrest]
    simp only [hnone, hzero, hfraction]
    simp [hexponent, digitsValue_digitsOf, Number.ofDecimal_whole hlimit]
  obtain ⟨d, run, hdigits, hd⟩ := Number.digitsOf_eq_cons n
  rw [hdigits, List.cons_append] at hmagnitude ⊢
  unfold number?
  split
  · next h =>
    rw [(List.cons.inj h).1] at hd
    cases hd
  · exact hmagnitude

end Json

end ClosingLabels
