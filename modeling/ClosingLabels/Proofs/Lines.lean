import ClosingLabels.Document
import Mathlib.Data.Rat.Floor
import Mathlib.Data.List.TakeWhile

/-!
# Cutting a text in two

A text that is cut at some place has a first part and a second part. The line feeds of the
first part number the line of the place, what stands after the last of them is the start of
that line, and what stands before the first line feed of the second part is its end. So
positions, offsets and lines can all be read off the two parts, and every position of a
document comes of a cut.
-/

namespace ClosingLabels

namespace Text

/-- What stands after the last line feed of a text. -/
def lastLine (text : Text) : Text := (text.reverse.takeWhile (· ≠ newline)).reverse

/-- What stands before the first line feed of a text. -/
def firstLine (text : Text) : Text := text.takeWhile (· ≠ newline)

@[simp] theorem lastLine_nil : lastLine [] = [] := rfl

@[simp] theorem firstLine_nil : firstLine [] = [] := rfl

theorem newline_notMem_lastLine (text : Text) : newline ∉ text.lastLine := by
  intro hmem
  simpa using List.mem_takeWhile_imp (List.mem_reverse.mp hmem)

theorem newline_notMem_firstLine (text : Text) : newline ∉ text.firstLine := by
  intro hmem
  simpa using List.mem_takeWhile_imp hmem

theorem length_lastLine (text : Text) :
    text.lastLine.length = (text.reverse.takeWhile (· ≠ newline)).length := List.length_reverse

/-- Without a line feed the last line goes on. -/
theorem lastLine_append_of_notMem (first : Text) {second : Text} (h : newline ∉ second) :
    lastLine (first ++ second) = first.lastLine ++ second := by
  have hall : ∀ unit ∈ second.reverse, decide (unit ≠ newline) = true := by
    intro unit hmem
    simpa using ne_of_mem_of_not_mem (List.mem_reverse.mp hmem) h
  rw [lastLine, List.reverse_append, List.takeWhile_append_of_pos hall, List.reverse_append,
    List.reverse_reverse, lastLine]

/-- After a line feed it does not matter what was before. -/
theorem lastLine_append_of_mem (first : Text) {second : Text} (h : newline ∈ second) :
    lastLine (first ++ second) = second.lastLine := by
  have hstops : (second.reverse.takeWhile (· ≠ newline)).length ≠ second.reverse.length := by
    intro hlength
    have hwhole := (List.takeWhile_prefix (· ≠ newline)).eq_of_length hlength
    have hmem : newline ∈ second.reverse.takeWhile (· ≠ newline) := by
      rw [hwhole]
      exact List.mem_reverse.mpr h
    simpa using List.mem_takeWhile_imp hmem
  rw [lastLine, List.reverse_append, List.takeWhile_append, if_neg hstops, lastLine]

theorem lastLine_of_notMem {text : Text} (h : newline ∉ text) : text.lastLine = text := by
  simpa using lastLine_append_of_notMem [] h

/-- A line feed in front is not in the last line. -/
theorem lastLine_newline (rest : Text) : lastLine (newline :: rest) = rest.lastLine := by
  by_cases hmem : newline ∈ rest
  · exact lastLine_append_of_mem [newline] hmem
  · rw [lastLine_of_notMem hmem]
    exact lastLine_append_of_notMem [newline] hmem

/-- A text is what is in its first line, and then nothing or a line feed. -/
theorem firstLine_append (text : Text) :
    ∃ rest, text = text.firstLine ++ rest ∧ (rest = [] ∨ rest.head? = some newline) := by
  refine ⟨text.dropWhile (· ≠ newline), List.takeWhile_append_dropWhile.symm, ?_⟩
  cases hrest : text.dropWhile (· ≠ newline) with
  | nil => exact .inl rfl
  | cons unit rest =>
    have hhead := List.head?_dropWhile_not (· ≠ newline) text
    rw [hrest] at hhead
    right
    simpa using hhead

/-- A text is nothing or ends with a line feed, and then comes its last line. -/
theorem append_lastLine (text : Text) :
    ∃ before, text = before ++ text.lastLine ∧ (before = [] ∨ before.getLast? = some newline) := by
  obtain ⟨rest, hrest, hhead⟩ := firstLine_append text.reverse
  refine ⟨rest.reverse, ?_, ?_⟩
  · rw [lastLine, ← List.reverse_append]
    exact (congrArg List.reverse hrest).symm ▸ (List.reverse_reverse text).symm
  · simpa using hhead

/-! ## Lines by number -/

theorem lines_newline (rest : Text) : lines (newline :: rest) = [] :: rest.lines := by
  rw [lines, if_pos rfl]

/-- The first line of a text, and the others. -/
theorem lines_eq_cons (text : Text) : text.lines = text.firstLine :: text.lines.tail := by
  induction text with
  | nil => rfl
  | cons unit rest ih =>
    by_cases hunit : unit = newline
    · rw [hunit, lines_newline]
      simp [firstLine]
    · rw [lines, if_neg hunit, ih]
      simp [firstLine, hunit]

theorem lines_of_ne {unit : UInt16} (h : unit ≠ newline) (rest : Text) :
    lines (unit :: rest) = (unit :: rest.firstLine) :: rest.lines.tail := by
  rw [lines, if_neg h, lines_eq_cons rest]
  rfl

/-- The line of a cut: it begins in the first part and ends in the second. -/
theorem lines_append (first second : Text) :
    (first ++ second).lines[first.count newline]? = some (first.lastLine ++ second.firstLine) := by
  induction first with
  | nil =>
    rw [List.nil_append, lines_eq_cons second]
    rfl
  | cons unit first ih =>
    by_cases hunit : unit = newline
    · rw [hunit, List.cons_append, lines_newline, List.count_cons_self, List.getElem?_cons_succ, ih,
        lastLine_newline]
    · rw [List.cons_append, lines_of_ne hunit, List.count_cons_of_ne hunit]
      rw [lines_eq_cons (first ++ second)] at ih
      by_cases hmem : newline ∈ first
      · -- The line of the cut is not the first one, so the added unit is not in it.
        obtain ⟨number, hnumber⟩ := Nat.exists_eq_succ_of_ne_zero
          (List.count_pos_iff.mpr hmem).ne'
        rw [hnumber] at ih ⊢
        have hlast := lastLine_append_of_mem [unit] hmem
        rw [List.singleton_append] at hlast
        rw [hlast]
        exact ih
      · have hnone : newline ∉ unit :: first := by simp [hmem, Ne.symm hunit]
        rw [List.count_eq_zero_of_not_mem hmem] at ih ⊢
        rw [lastLine_of_notMem hmem] at ih
        rw [lastLine_of_notMem hnone]
        simp only [List.getElem?_cons_zero, Option.some.injEq] at ih ⊢
        rw [ih, List.cons_append]

/-- A text has one line more than line feeds. -/
theorem length_lines (text : Text) : text.lines.length = text.count newline + 1 := by
  induction text with
  | nil => rfl
  | cons unit rest ih =>
    by_cases hunit : unit = newline
    · rw [hunit, lines_newline, List.count_cons_self, List.length_cons, ih]
    · rw [lines_of_ne hunit, List.count_cons_of_ne hunit, ← ih, lines_eq_cons rest]
      rfl

/-- The last of the lines is what stands after the last line feed. -/
theorem getLast?_lines (text : Text) : text.lines.getLast? = some text.lastLine := by
  have hcut := lines_append text []
  rw [List.append_nil, firstLine_nil, List.append_nil] at hcut
  rw [List.getLast?_eq_getElem?, length_lines, Nat.add_sub_cancel, hcut]

/-- Every column of every line is reached by a cut. -/
theorem exists_cut {text found : Text} {line column : Nat} (h : text.lines[line]? = some found)
    (hcolumn : column ≤ found.length) :
    ∃ first second, text = first ++ second ∧ first.count newline = line ∧
      first.lastLine.length = column := by
  induction text generalizing line column found with
  | nil =>
    cases line with
    | zero =>
      obtain rfl := Option.some.inj h
      obtain rfl := Nat.le_zero.mp hcolumn
      exact ⟨[], [], rfl, rfl, rfl⟩
    | succ line => cases h
  | cons unit rest ih =>
    by_cases hunit : unit = newline
    · rw [hunit, lines_newline] at h
      cases line with
      | zero =>
        obtain rfl := Option.some.inj h
        obtain rfl := Nat.le_zero.mp hcolumn
        exact ⟨[], unit :: rest, rfl, rfl, rfl⟩
      | succ line =>
        obtain ⟨first, second, rfl, hcount, hlast⟩ := ih h hcolumn
        refine ⟨newline :: first, second, by rw [hunit, List.cons_append], ?_, ?_⟩
        · rw [List.count_cons_self, hcount]
        · rw [lastLine_newline, hlast]
    · rw [lines_of_ne hunit] at h
      rw [lines_eq_cons rest] at ih
      cases line with
      | zero =>
        obtain rfl := Option.some.inj h
        cases column with
        | zero => exact ⟨[], unit :: rest, rfl, rfl, rfl⟩
        | succ column =>
          obtain ⟨first, second, hrest, hcount, hlast⟩ :=
            ih List.getElem?_cons_zero (Nat.le_of_succ_le_succ hcolumn)
          have hnone : newline ∉ first := List.count_eq_zero.mp hcount
          have hnoneStill : newline ∉ unit :: first := by simp [hnone, Ne.symm hunit]
          refine ⟨unit :: first, second, by rw [hrest, List.cons_append], ?_, ?_⟩
          · exact List.count_eq_zero.mpr hnoneStill
          · rw [lastLine_of_notMem hnone] at hlast
            rw [lastLine_of_notMem hnoneStill, List.length_cons, hlast]
      | succ line =>
        have hlater : (firstLine rest :: (lines rest).tail)[line + 1]? = some found := h
        obtain ⟨first, second, hrest, hcount, hlast⟩ := ih hlater hcolumn
        have hmem : newline ∈ first := List.count_pos_iff.mp (by omega)
        refine ⟨unit :: first, second, by rw [hrest, List.cons_append], ?_, ?_⟩
        · rw [List.count_cons_of_ne hunit, hcount]
        · exact (congrArg List.length (lastLine_append_of_mem [unit] hmem)).trans hlast

end Text

open Text (newline)

namespace Lines

/-- A line that is there is found by its number. -/
theorem get_natCast {lines : List Text} {line : Nat} {found : Text}
    (h : lines[line]? = some found) : get lines line = .ok found := by
  simp [get, h]

/-- The line of a cut starts where its part in the first part of the text starts. -/
theorem startOf_append (first second : Text) :
    startOf (first ++ second).lines (first.count newline) + first.lastLine.length =
      first.length := by
  induction first with
  | nil => rfl
  | cons unit first ih =>
    by_cases hunit : unit = newline
    · rw [hunit, List.cons_append, Text.lines_newline, List.count_cons_self, Text.lastLine_newline]
      simp only [startOf, List.take_succ_cons, List.foldr_cons, List.length_nil, List.length_cons]
        at ih ⊢
      omega
    · rw [List.cons_append, Text.lines_of_ne hunit, List.count_cons_of_ne hunit]
      rw [Text.lines_eq_cons (first ++ second)] at ih
      by_cases hmem : newline ∈ first
      · obtain ⟨number, hnumber⟩ := Nat.exists_eq_succ_of_ne_zero
          (List.count_pos_iff.mpr hmem).ne'
        have hlast := Text.lastLine_append_of_mem [unit] hmem
        rw [List.singleton_append] at hlast
        rw [hnumber] at ih ⊢
        rw [hlast]
        simp only [startOf, List.take_succ_cons, List.foldr_cons, List.length_cons] at ih ⊢
        omega
      · have hnone : newline ∉ unit :: first := by simp [hmem, Ne.symm hunit]
        rw [List.count_eq_zero_of_not_mem hmem, Text.lastLine_of_notMem hnone]
        simp [startOf]

theorem startOf_succ {lines : List Text} {line : Nat} {found : Text}
    (h : lines[line]? = some found) :
    startOf lines (line + 1) = startOf lines line + found.length + 1 := by
  induction lines generalizing line with
  | nil => cases h
  | cons text rest ih =>
    cases line with
    | zero =>
      obtain rfl := Option.some.inj h
      simp [startOf]
    | succ line =>
      have hget : rest[line]? = some found := h
      have hrest := ih hget
      simp only [startOf, List.take_succ_cons, List.foldr_cons] at hrest ⊢
      omega

/-- Lines start one after another. -/
theorem startOf_mono (lines : List Text) {line later : Nat} (h : line ≤ later) :
    startOf lines line ≤ startOf lines later := by
  induction later, h using Nat.le_induction with
  | base => exact Nat.le_refl _
  | succ later _ ih =>
    cases hget : lines[later]? with
    | some found =>
      rw [startOf_succ hget]
      omega
    | none =>
      have hbeyond := List.getElem?_eq_none_iff.mp hget
      have hsame : startOf lines (later + 1) = startOf lines later := by
        rw [startOf, startOf, List.take_of_length_le hbeyond,
          List.take_of_length_le (Nat.le_succ_of_le hbeyond)]
      rwa [hsame]

/-- The line of a place as it is found by going down the lines, at most some steps from a given
one: the next line comes as long as it starts at or before the place. -/
def seek (lines : List Text) (place : Rat) : Nat → Nat → Nat
  | 0, line => line
  | steps + 1, line =>
    if line + 1 < lines.length ∧ (startOf lines (line + 1) : Rat) ≤ place then
      seek lines place steps (line + 1)
    else line

/-- Going down stops at the line that starts at or before the place while the next does not. -/
theorem seek_eq {lines : List Text} {place : Rat} {target : Nat}
    (hstart : (startOf lines target : Rat) ≤ place) (hlt : target < lines.length)
    (hnext : target + 1 < lines.length → place < startOf lines (target + 1)) {steps line : Nat}
    (hline : line ≤ target) (hsteps : target ≤ line + steps) :
    seek lines place steps line = target := by
  induction steps generalizing line with
  | zero => exact Nat.le_antisymm hline hsteps
  | succ steps ih =>
    rw [seek]
    rcases Nat.eq_or_lt_of_le hline with rfl | hbefore
    · rw [if_neg]
      rintro ⟨hmore, hplace⟩
      exact absurd hplace (not_le.mpr (hnext hmore))
    · have hle : (startOf lines (line + 1) : Rat) ≤ startOf lines target :=
        Nat.cast_le.mpr (startOf_mono lines hbefore)
      rw [if_pos ⟨Nat.lt_of_le_of_lt hbefore hlt, hle.trans hstart⟩]
      exact ih hbefore (by omega)

end Lines

/-! ## Documents -/

/-- Whether a position is on an earlier line than another one, or on the same line and not
behind it. -/
def Position.NotAfter (position later : Position) : Prop :=
  position.line < later.line ∨
    position.line = later.line ∧ position.character ≤ later.character

namespace Document

variable (document : Document)

theorem floor_natCast (n : Nat) : (n : Rat).floor = n := Rat.floor_intCast n

/-- An offset as the number of whole units before it, moved into the text. -/
def place (offset : Rat) : Nat := (document.clamp offset).floor.toNat

theorem before_eq_take (offset : Rat) :
    document.before offset = document.text.take (document.place offset) := rfl

/-- What stands after the place of an offset. -/
def behind (offset : Rat) : Text := document.text.drop (document.place offset)

theorem before_append_behind (offset : Rat) :
    document.before offset ++ document.behind offset = document.text := List.take_append_drop ..

/-- An offset is moved to a place from zero to the end of the text. -/
theorem clamp_mem (offset : Rat) :
    0 ≤ document.clamp offset ∧ document.clamp offset ≤ document.text.length := by
  unfold clamp clampTo
  split
  · exact ⟨le_rfl, Nat.cast_nonneg _⟩
  · split
    · exact ⟨Nat.cast_nonneg _, le_rfl⟩
    · exact ⟨not_lt.mp ‹_›, not_lt.mp ‹_›⟩

theorem clamp_of_mem {offset : Rat} (hpos : 0 ≤ offset) (hle : offset ≤ document.text.length) :
    document.clamp offset = offset := by
  rw [clamp, clampTo, if_neg (not_lt.mpr hpos), if_neg (not_lt.mpr hle)]

/-- The place is the whole part of the offset in the text. -/
theorem cast_place (offset : Rat) :
    (document.place offset : Rat) = ((document.clamp offset).floor : Rat) := by
  obtain ⟨hpos, -⟩ := document.clamp_mem offset
  have hfloor : 0 ≤ (document.clamp offset).floor := Rat.le_floor_iff.mpr (by exact_mod_cast hpos)
  rw [place]
  exact_mod_cast congrArg (Int.cast : Int → Rat) (Int.toNat_of_nonneg hfloor)

theorem place_spec (offset : Rat) :
    (document.place offset : Rat) ≤ document.clamp offset ∧
      document.clamp offset < document.place offset + 1 := by
  rw [cast_place]
  exact ⟨Rat.floor_le _, by exact_mod_cast Rat.lt_floor_add_one (document.clamp offset)⟩

theorem place_le (offset : Rat) : document.place offset ≤ document.text.length := by
  have hle := (document.place_spec offset).1.trans (document.clamp_mem offset).2
  exact_mod_cast hle

theorem place_natCast {offset : Nat} (h : offset ≤ document.text.length) :
    document.place offset = offset := by
  rw [place, document.clamp_of_mem (Nat.cast_nonneg offset) (Nat.cast_le.mpr h),
    floor_natCast, Int.toNat_natCast]

/-- A whole number below zero counts as zero, and one behind the text as its end. -/
theorem clamp_intCast (offset : Int) :
    document.clamp offset = (min offset.toNat document.text.length : Nat) := by
  rcases lt_or_ge offset 0 with hneg | hpos
  · rw [clamp, clampTo, if_pos (by exact_mod_cast hneg), Int.toNat_of_nonpos hneg.le,
      Nat.zero_min, Nat.cast_zero]
  · obtain ⟨offset, rfl⟩ := Int.eq_ofNat_of_zero_le hpos
    rw [Int.cast_natCast, Int.toNat_natCast]
    rcases Nat.lt_or_ge document.text.length offset with hbehind | hle
    · rw [clamp, clampTo, if_neg (not_lt.mpr (Nat.cast_nonneg offset)),
        if_pos (Nat.cast_lt.mpr hbehind), Nat.min_eq_right hbehind.le]
    · rw [document.clamp_of_mem (Nat.cast_nonneg offset) (Nat.cast_le.mpr hle),
        Nat.min_eq_left hle]

theorem place_intCast (offset : Int) :
    document.place offset = min offset.toNat document.text.length := by
  rw [place, clamp_intCast, floor_natCast, Int.toNat_natCast]

theorem clamp_mono {offset later : Rat} (h : offset ≤ later) :
    document.clamp offset ≤ document.clamp later := by
  have hlength : (0 : Rat) ≤ document.text.length := Nat.cast_nonneg _
  unfold clamp clampTo
  split_ifs <;> linarith

theorem place_mono {offset later : Rat} (h : offset ≤ later) :
    document.place offset ≤ document.place later :=
  Int.toNat_le_toNat (Rat.floor_monotone (document.clamp_mono h))

/-- A later offset is on the same line or on a later one. -/
theorem lineOf_mono {offset later : Rat} (h : offset ≤ later) :
    document.lineOf offset ≤ document.lineOf later :=
  (List.take_sublist_take_left (document.place_mono h)).count_le _

theorem lineOf_lt (offset : Rat) : document.lineOf offset < document.lineCount := by
  rw [lineCount, lines, Text.length_lines, Nat.lt_succ_iff]
  exact (List.take_sublist _ _).count_le _

theorem length_before (offset : Rat) :
    (document.before offset).length = document.place offset :=
  List.length_take_of_le (document.place_le offset)

/-- The line of an offset is there, and it is the line around its place. -/
theorem getElem?_lineOf (offset : Rat) :
    document.lines[document.lineOf offset]? =
      some ((document.before offset).lastLine ++ (document.behind offset).firstLine) := by
  have hline := Text.lines_append (document.before offset) (document.behind offset)
  rwa [document.before_append_behind] at hline

/-- It starts as far before the place as what stands of it there. -/
theorem startOf_lineOf (offset : Rat) :
    Lines.startOf document.lines (document.lineOf offset) +
      (document.before offset).lastLine.length = document.place offset := by
  have hstart := Lines.startOf_append (document.before offset) (document.behind offset)
  rwa [document.before_append_behind, document.length_before] at hstart

/-- The line of an offset is the one that the search from the first line finds. -/
theorem lineOf_eq_seek (offset : Rat) :
    document.lineOf offset =
      Lines.seek document.lines (document.clamp offset) document.lineCount 0 := by
  have hstart := document.startOf_lineOf offset
  have hnext := Lines.startOf_succ (document.getElem?_lineOf offset)
  rw [List.length_append] at hnext
  obtain ⟨hle, hlt⟩ := document.place_spec offset
  refine (Lines.seek_eq ?_ (document.lineOf_lt offset) (fun _ => ?_) (Nat.zero_le _) ?_).symm
  · refine le_trans (Nat.cast_le.mpr ?_) hle
    rw [← hstart]
    exact Nat.le_add_right ..
  · refine lt_of_lt_of_le hlt ?_
    have hbound : document.place offset + 1 ≤
        Lines.startOf document.lines (document.lineOf offset + 1) := by
      omega
    exact_mod_cast hbound
  · have := document.lineOf_lt offset
    omega

/-! ### Positions of cuts -/

variable {document} {first second : Text}

theorem place_cut (h : document.text = first ++ second) :
    document.place first.length = first.length :=
  document.place_natCast (by rw [h, List.length_append]; exact Nat.le_add_right ..)

theorem before_cut (h : document.text = first ++ second) :
    document.before first.length = first := by
  rw [before_eq_take, place_cut h, h, List.take_left]

theorem positionOf_cut (h : document.text = first ++ second) :
    document.positionOf first.length = ⟨first.count newline, first.lastLine.length⟩ := by
  have hclamp : document.clamp first.length = first.length :=
    document.clamp_of_mem (Nat.cast_nonneg _)
      (by rw [h, List.length_append]; exact_mod_cast Nat.le_add_right ..)
  rw [positionOf, lineOf, hclamp, before_cut h, Text.length_lastLine, floor_natCast]
  simp

/-- The place of a cut comes back from its line and its column. -/
theorem offsetOf_cut (h : document.text = first ++ second) :
    document.offsetOf ⟨first.count newline, first.lastLine.length⟩ = .ok (first.length : Rat) := by
  have hline := Text.lines_append first second
  have hstart := Lines.startOf_append first second
  rw [← h] at hline hstart
  obtain ⟨hlt, -⟩ := List.getElem?_eq_some_iff.mp hline
  have hclamp : clampTo (document.text.lines.length - 1) (first.count newline) =
      first.count newline := by
    have hle : first.count newline ≤ document.text.lines.length - 1 := Nat.le_sub_one_of_lt hlt
    rw [clampTo, if_neg (not_lt.mpr (Nat.cast_nonneg _)),
      if_neg (not_lt.mpr (Nat.cast_le.mpr hle))]
  have hget := Lines.get_natCast hline
  have hcolumn : (if (first.lastLine.length : Rat) <
        ((first.lastLine ++ second.firstLine).length : Nat) then (first.lastLine.length : Rat)
      else ((first.lastLine ++ second.firstLine).length : Nat)) = first.lastLine.length := by
    split
    · rfl
    · rename_i hnot
      have hle := Nat.cast_le.mp (not_lt.mp hnot)
      rw [List.length_append] at hle ⊢
      congr 1
      omega
  simp only [offsetOf, Lines.offsetOf, lines, hclamp, hget, bind, Except.bind, hcolumn, pure,
    Except.pure, Rat.num_natCast, Int.toNat_natCast]
  rw [← Nat.cast_add, hstart]

/-- The order of two positions is that of their offsets. -/
theorem length_le_of_notAfter {earlier behind : Text} (h : document.text = earlier ++ behind)
    (hlater : document.text = first ++ second)
    (horder : Position.NotAfter ⟨earlier.count newline, earlier.lastLine.length⟩
      ⟨first.count newline, first.lastLine.length⟩) : earlier.length ≤ first.length := by
  have hstart := Lines.startOf_append earlier behind
  have hline := Text.lines_append earlier behind
  have hlaterStart := Lines.startOf_append first second
  rw [← h] at hstart hline
  rw [← hlater] at hlaterStart
  rcases horder with hbefore | ⟨hsame, hcolumn⟩
  · have hlt : earlier.count newline + 1 ≤ first.count newline := Nat.cast_lt.mp hbefore
    have hmono := Lines.startOf_mono document.text.lines hlt
    rw [Lines.startOf_succ hline, List.length_append] at hmono
    omega
  · have hcount : earlier.count newline = first.count newline := Nat.cast_inj.mp hsame
    have hle : earlier.lastLine.length ≤ first.lastLine.length := Nat.cast_le.mp hcolumn
    rw [hcount] at hstart
    omega

/-- A document has a position when it has the line, and the column is at most at its end. -/
def Has (document : Document) (position : Position) : Prop :=
  ∃ (line column : Nat) (text : Text), position = ⟨line, column⟩ ∧
    document.lines[line]? = some text ∧ column ≤ text.length

/-- A position that a document has cuts its text. -/
theorem Has.exists_cut {position : Position} (h : document.Has position) :
    ∃ first second, document.text = first ++ second ∧
      position = ⟨first.count newline, first.lastLine.length⟩ := by
  obtain ⟨line, column, text, rfl, hline, hcolumn⟩ := h
  obtain ⟨first, second, htext, rfl, rfl⟩ := Text.exists_cut hline hcolumn
  exact ⟨first, second, htext, rfl⟩

end Document

end ClosingLabels
