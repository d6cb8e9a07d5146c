import ClosingLabels.Proofs.Conduct
import ClosingLabels.Proofs.Lines
import ClosingLabels.Publication

/-!
# What a label says of a text

Labels are found by way of lines, their starts, and positions. What comes out can be read off
the text alone: a label stands where the line ends on which its block ends, and says what the
line says in which its block starts. No line is ever missing on the way, so only a search that
fails leaves a document without labels that it should have.
-/

namespace ClosingLabels

open Text (newline)

namespace Text

/-- The line of a place reaches back to `start`: there it is behind a line feed or at the start of
the text, and no line feed is between. -/
structure BeginsLine (text : Text) (place start : Nat) : Prop where
  le : start ≤ place
  bound : start = 0 ∨ text[start - 1]? = some newline
  free : ∀ index, start ≤ index → index < place → text[index]? ≠ some newline

/-- The line of a place goes on to `stop`: that is the first place from there on with a line feed
or the end of the text. -/
structure EndsLine (text : Text) (place stop : Nat) : Prop where
  le : place ≤ stop
  within : stop ≤ text.length
  bound : stop = text.length ∨ text[stop]? = some newline
  free : ∀ index, place ≤ index → index < stop → text[index]? ≠ some newline

/-- The line that a place is in: the stretch around it that holds no line feed and cannot be made
longer on either side. -/
def LineAround (text : Text) (place : Nat) (line : Text) : Prop :=
  ∃ start stop, text.BeginsLine place start ∧ text.EndsLine place stop ∧
    line = (text.take stop).drop start

variable {first second : Text}

/-- The line of a cut begins where its part before the cut does. -/
theorem beginsLine_append (first second : Text) :
    (first ++ second).BeginsLine first.length (first.length - first.lastLine.length) := by
  obtain ⟨before, hbefore, hends⟩ := append_lastLine first
  have hlength : first.length - first.lastLine.length = before.length := by
    have := congrArg List.length hbefore
    rw [List.length_append] at this
    omega
  rw [hlength]
  refine ⟨by omega, ?_, fun index hstart hplace => ?_⟩
  · rcases hends with rfl | hnewline
    · exact .inl rfl
    · right
      have hpos : 0 < before.length := by
        cases before with
        | nil => cases hnewline
        | cons unit rest => exact Nat.succ_pos _
      rw [List.getLast?_eq_getElem?] at hnewline
      rw [hbefore, List.append_assoc, List.getElem?_append_left (by omega), hnewline]
  · have hget : (first ++ second)[index]? = first.lastLine[index - before.length]? := by
      rw [List.getElem?_append_left hplace]
      conv_lhs => rw [hbefore]
      exact List.getElem?_append_right hstart
    rw [hget]
    exact fun hnewline => newline_notMem_lastLine first (List.mem_of_getElem? hnewline)

/-- It ends where its part behind the cut does. -/
theorem endsLine_append (first second : Text) :
    (first ++ second).EndsLine first.length (first.length + second.firstLine.length) := by
  obtain ⟨rest, hrest, hends⟩ := firstLine_append second
  have hlength : second.length = second.firstLine.length + rest.length := by
    rw [← List.length_append, ← hrest]
  refine ⟨by omega, by rw [List.length_append]; omega, ?_, fun index hplace hstop => ?_⟩
  · rcases hends with rfl | hnewline
    · left
      rw [List.length_append, hlength, List.length_nil, Nat.add_zero]
    · right
      have hget : second[second.firstLine.length]? = rest[0]? := by
        refine (congrArg (fun text => text[second.firstLine.length]?) hrest).trans ?_
        rw [List.getElem?_append_right (Nat.le_refl _), Nat.sub_self]
      rw [List.getElem?_append_right (by omega), Nat.add_sub_cancel_left, hget,
        ← List.head?_eq_getElem?, hnewline]
  · have hget : (first ++ second)[index]? = second.firstLine[index - first.length]? := by
      rw [List.getElem?_append_right hplace]
      conv_lhs => rw [hrest]
      exact List.getElem?_append_left (by omega)
    rw [hget]
    exact fun hnewline => newline_notMem_firstLine second (List.mem_of_getElem? hnewline)

/-- The line of a cut is what both parts have of it. -/
theorem lineAround_append (first second : Text) :
    (first ++ second).LineAround first.length (first.lastLine ++ second.firstLine) := by
  refine ⟨_, _, beginsLine_append first second, endsLine_append first second, ?_⟩
  obtain ⟨before, hbefore, -⟩ := append_lastLine first
  obtain ⟨rest, hrest, -⟩ := firstLine_append second
  have hstart : first.length - first.lastLine.length = before.length := by
    have := congrArg List.length hbefore
    rw [List.length_append] at this
    omega
  have htext : first ++ second = before ++ (first.lastLine ++ second.firstLine) ++ rest := by
    conv_lhs => rw [hbefore, hrest]
    simp only [List.append_assoc]
  have hstop : first.length + second.firstLine.length =
      (before ++ (first.lastLine ++ second.firstLine)).length := by
    have := congrArg List.length hbefore
    simp only [List.length_append] at this ⊢
    omega
  rw [hstart, htext, hstop, List.take_left, List.drop_left]

end Text

/-! ## One label -/

namespace Block

/-- Whether a block closes more than `minLines` lines below its opening. -/
def Tall (document : Document) (minLines : Rat) (block : Block) : Prop :=
  minLines < (document.lineOf block.stop : Rat) - document.lineOf block.start

instance (document : Document) (minLines : Rat) (block : Block) :
    Decidable (block.Tall document minLines) :=
  inferInstanceAs (Decidable (_ < _))

/-- The label of a block, read off the text. -/
def label (document : Document) (block : Block) : Label where
  anchor := (document.place block.stop + (document.behind block.stop).firstLine.length : Nat)
  text := ((document.before block.start).lastLine ++ (document.behind block.start).firstLine).trim
  opening := document.lineOf block.start + 1
  closing := document.lineOf block.stop + 1

end Block

namespace Document

variable (document : Document)

theorem get_lineOf (offset : Rat) :
    Lines.get document.lines (document.lineOf offset) =
      .ok ((document.before offset).lastLine ++ (document.behind offset).firstLine) :=
  Lines.get_natCast (document.getElem?_lineOf offset)

/-- A text goes on to the end of the line of an offset, and then there may be more. -/
theorem exists_text_eq (offset : Rat) : ∃ rest, document.text =
    (document.before offset ++ (document.behind offset).firstLine) ++ rest := by
  obtain ⟨rest, hrest, -⟩ := Text.firstLine_append (document.behind offset)
  exact ⟨rest, by rw [List.append_assoc, ← hrest, document.before_append_behind]⟩

/-- The end of the line of an offset, as an offset. -/
theorem offsetOf_endOfLine (offset : Rat) :
    Lines.offsetOf document.lines (endOfLine (document.lineOf offset)
        ((document.before offset).lastLine ++ (document.behind offset).firstLine)) =
      .ok ((document.place offset + (document.behind offset).firstLine.length : Nat) : Rat) := by
  obtain ⟨rest, hcut⟩ := document.exists_text_eq offset
  have hnone := Text.newline_notMem_firstLine (document.behind offset)
  have hoffset := offsetOf_cut hcut
  rw [List.count_append, List.count_eq_zero_of_not_mem hnone, Nat.add_zero,
    Text.lastLine_append_of_notMem _ hnone, List.length_append,
    List.length_append, document.length_before] at hoffset
  rw [endOfLine, List.length_append]
  exact hoffset

end Document

namespace Label

/-- Making the label of a block finds every line it looks for. -/
theorem ofSpan_span (document : Document) (block : Block) :
    ofSpan document.lines (block.span document) = .ok (block.label document) := by
  simp only [ofSpan, Block.span, add_sub_cancel_right, document.get_lineOf,
    document.offsetOf_endOfLine, bind, Except.bind]
  rfl

/-- So do the labels of all blocks that are tall enough. -/
theorem collect_eq (document : Document) (minLines : Rat) (blocks : List Block) :
    collect document minLines blocks =
      .ok ((blocks.filter (·.Tall document minLines)).map (Block.label document)) := by
  induction blocks with
  | nil => rfl
  | cons block rest ih =>
    have hheight : (block.span document).height =
        (document.lineOf block.stop : Rat) - document.lineOf block.start := by
      simp only [Span.height, Block.span]
      ring
    rw [collect] at ih ⊢
    rw [List.map_cons, ofSpans, hheight, ih, ofSpan_span]
    rcases Decidable.em (block.Tall document minLines) with htall | hlow
    · rw [if_pos (by exact htall), List.filter_cons_of_pos (by simpa using htall)]
      rfl
    · rw [if_neg (by exact hlow), List.filter_cons_of_neg (by simpa using hlow)]

/-- What a label has to say of a block: it stands where the line of the block's end ends, repeats
the line of the block's start without the blanks around it, and has the lines of both, where the
first line has the number one and every line feed begins another. -/
structure Meant (document : Document) (block : Block) (label : Label) : Prop where
  opening : label.opening =
    ((document.text.take (document.place block.start)).count newline + 1 : Nat)
  closing : label.closing =
    ((document.text.take (document.place block.stop)).count newline + 1 : Nat)
  anchor : ∃ stop : Nat, label.anchor = stop ∧
    document.text.EndsLine (document.place block.stop) stop
  text : ∃ line, document.text.LineAround (document.place block.start) line ∧
    label.text = line.trim

/-- The label of a block says what it has to. -/
theorem meant_label (document : Document) (block : Block) :
    Meant document block (block.label document) := by
  have hstop := Text.endsLine_append (document.before block.stop) (document.behind block.stop)
  have hline := Text.lineAround_append (document.before block.start) (document.behind block.start)
  rw [document.before_append_behind, document.length_before] at hstop hline
  refine ⟨?_, ?_, ⟨_, rfl, hstop⟩, ⟨_, hline, rfl⟩⟩
  · exact (Nat.cast_succ _).symm
  · exact (Nat.cast_succ _).symm

/-! ## All labels -/

variable {σ : Type}

/-- Extraction asks for the blocks of the right kinds and gives the labels of those that are tall
enough, last found first. Only when it cannot be answered there are none, and a report. -/
theorem extract_eq (view : View σ) (minLines : Rat) (catalog : Catalog) (s : σ)
    (hkinds : catalog.kinds view.language ≠ []) :
    extract view minLines catalog s =
      match view.find (catalog.kinds view.language) s with
      | ⟨.ok blocks, after, trace⟩ =>
        ⟨.ok ((blocks.reverse.filter (·.Tall view.document minLines)).map
          (Block.label view.document)), after, trace⟩
      | ⟨.error fault, after, trace⟩ =>
        ⟨.ok [], after, trace ++ [.error (.extraction view.language) (some fault)]⟩ := by
  have hsome : ¬ (catalog.kinds view.language).isEmpty = true := by simpa using hkinds
  unfold extract
  simp only [if_neg hsome]
  rcases hfind : view.find (catalog.kinds view.language) s with ⟨fault | blocks, after, trace⟩
  · rw [Action.rescue_of_error (Action.bind_of_error hfind _),
      Action.bind_of_ok (Action.report_apply _ _ _)]
    simp
  · have hread := Action.bind_of_ok hfind fun blocks =>
      Action.ofExcept (collect view.document minLines blocks.reverse)
    simp only [Action.ofExcept_apply] at hread
    rw [collect_eq, List.append_nil] at hread
    rw [Action.rescue_of_ok hread]

/-- Extraction means what the text says, and never fails. It asks once for all kinds that count as
blocks in the language, and not at all when there are none. A search that fails is reported and
leaves no labels. Otherwise nothing is reported, and there is one label for each block of these
kinds that is tall enough, last found first, and it says of the block what it has to. Lines are
those that going down the starts of the lines finds, and whole offsets outside the text count as
its nearest end. -/
theorem extract_meant (publication : Publication) (minLines : Rat) (catalog : Catalog)
    (asked : List (List Text)) :
    let kinds := catalog.kinds publication.language
    let document := publication.document
    (kinds = [] → extract publication.noting minLines catalog asked = ⟨.ok [], asked, []⟩) ∧
    (kinds ≠ [] → ∀ message, publication.failure = some message →
      extract publication.noting minLines catalog asked = ⟨.ok [], asked ++ [kinds],
        [.error (.extraction publication.language) (some (.host message))]⟩) ∧
    (kinds ≠ [] → publication.failure = none → ∃ labels,
      extract publication.noting minLines catalog asked = ⟨.ok labels, asked ++ [kinds], []⟩ ∧
      List.Forall₂ (Meant document)
        ((publication.blocks.filter (·.kind ∈ kinds)).reverse.filter (·.Tall document minLines))
        labels) ∧
    (∀ offset, document.lineOf offset =
      Lines.seek document.lines (document.clamp offset) document.lineCount 0) ∧
    ∀ offset : Int, document.place offset = min offset.toNat document.text.length := by
  intro kinds document
  refine ⟨fun hnone => ?_, fun hsome message hfailure => ?_, fun hsome hfailure => ?_,
    document.lineOf_eq_seek, document.place_intCast⟩
  · have hempty : (catalog.kinds publication.noting.language).isEmpty = true :=
      List.isEmpty_iff.mpr hnone
    unfold extract
    simp only [if_pos hempty]
    rfl
  · rw [extract_eq publication.noting minLines catalog asked hsome]
    simp only [Publication.noting, Publication.find, hfailure, Action.bind_apply,
      Action.modify_apply, Action.ofExcept_apply]
    rfl
  · refine ⟨_, ?_, List.forall₂_map_right_iff.mpr
      (List.forall₂_same.mpr fun block _ => meant_label document block)⟩
    rw [extract_eq publication.noting minLines catalog asked hsome]
    simp only [Publication.noting, Publication.find, hfailure, Action.bind_apply,
      Action.modify_apply, Action.ofExcept_apply]
    rfl

/-- Three lines, the last of them empty. The block that goes on behind the text gets a label, and
the one that stops before it starts does not. -/
theorem extract_meant_beyond :
    let text : Text := [32, 120, newline, 121, newline]
    let beyond : Block := ⟨[107], 1, 99⟩
    let publication : Publication :=
      ⟨[beyond, ⟨[107], 3, -7⟩, ⟨[108], 0, 5⟩], none, ⟨text, [97]⟩, [97]⟩
    let catalog : Catalog := ⟨.empty, Table.empty.insert [97] [[107]], .empty⟩
    catalog.kinds publication.language = [[107]] ∧ publication.failure = none ∧ ∃ labels,
      extract publication.noting (3 / 2) catalog [] = ⟨.ok labels, [[[107]]], []⟩ ∧
      List.Forall₂ (Meant publication.document) [beyond] labels := by
  intro text beyond publication catalog
  obtain ⟨labels, hextract, hmeant⟩ :=
    (extract_meant publication (3 / 2) catalog []).2.2.1 (by decide +kernel) rfl
  have htall : (publication.blocks.filter
      (·.kind ∈ catalog.kinds publication.language)).reverse.filter
        (·.Tall publication.document (3 / 2)) = [beyond] := by decide +kernel
  rw [htall] at hmeant
  exact ⟨by decide +kernel, rfl, labels, hextract, hmeant⟩

end Label

end ClosingLabels
