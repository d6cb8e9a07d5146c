import ClosingLabels.Proofs.Innermost
import ClosingLabels.Proofs.Painting

/-!
# Where a label shows

A place in a document goes by an offset, or by a line and a column. Going from one to the other
and back leads to the same place, and both follow the order of the text. So a block that is
pointed out by its lines has these lines again once it is known by its offsets, and a label,
which is drawn at an offset, shows where its offset was computed from: at the end of the line on
which its block closes.
-/

namespace ClosingLabels

open Text (newline)

namespace Document

variable (document : Document)

/-! ## Offsets and positions -/

/-- The column of an offset is its distance from the start of its line. -/
theorem positionOf_eq (offset : Rat) :
    document.positionOf offset = ⟨document.lineOf offset,
      document.clamp offset - Lines.startOf document.lines (document.lineOf offset)⟩ := by
  have hstart : (Lines.startOf document.lines (document.lineOf offset) : Rat) +
      (document.before offset).lastLine.length = document.place offset := by
    exact_mod_cast document.startOf_lineOf offset
  rw [cast_place] at hstart
  rw [positionOf, ← Text.length_lastLine, ← hstart]
  congr 1
  ring

/-- Whole offsets are between two units, and so are their positions. -/
theorem positionOf_intCast (offset : Int) : document.positionOf offset =
    ⟨(document.before offset).count newline, (document.before offset).lastLine.length⟩ := by
  rw [positionOf, lineOf, Text.length_lastLine, clamp_intCast, floor_natCast, Int.cast_natCast,
    sub_self, add_zero]

/-- From a whole offset to its position and back. -/
theorem offsetOf_positionOf (offset : Int) : document.offsetOf (document.positionOf offset) =
    .ok ((min offset.toNat document.text.length : Nat) : Rat) := by
  rw [positionOf_intCast, offsetOf_cut (document.before_append_behind offset).symm,
    length_before, place_intCast]

/-- Later offsets have later positions. -/
theorem positionOf_mono {offset later : Rat} (h : offset ≤ later) :
    (document.positionOf offset).NotAfter (document.positionOf later) := by
  rw [positionOf_eq, positionOf_eq]
  rcases Nat.lt_or_eq_of_le (document.lineOf_mono h) with hbefore | hsame
  · exact .inl (Nat.cast_lt.mpr hbefore)
  · right
    rw [hsame]
    exact ⟨rfl, sub_le_sub_right (document.clamp_mono h) _⟩

variable {document}

/-- From a position that is there to its offset and back. -/
theorem Has.exists_offset {position : Position} (h : document.Has position) :
    ∃ offset, document.offsetOf position = .ok offset ∧ document.positionOf offset = position := by
  obtain ⟨first, second, htext, rfl⟩ := h.exists_cut
  exact ⟨first.length, offsetOf_cut htext, positionOf_cut htext⟩

theorem Has.positionOf_of_offsetOf {position : Position} (h : document.Has position) {offset : Rat}
    (hoffset : document.offsetOf position = .ok offset) :
    document.positionOf offset = position := by
  obtain ⟨found, hfound, hposition⟩ := h.exists_offset
  rw [hfound] at hoffset
  rwa [← Except.ok.inj hoffset]

/-- Positions and offsets lead to each other. Whole offsets, moved into the text, come back from
their positions, and positions that are there come back from their offsets. Positions are in the
order of the text. Their lines are found by going down the starts of the lines, and number the line
feeds before the offset. -/
structure Coherent (document : Document) : Prop where
  back : ∀ offset : Int, document.offsetOf (document.positionOf offset) =
    .ok ((min offset.toNat document.text.length : Nat) : Rat)
  forth : ∀ position, document.Has position → ∃ offset,
    document.offsetOf position = .ok offset ∧ document.positionOf offset = position
  ordered : ∀ offset later : Rat, offset ≤ later →
    (document.positionOf offset).NotAfter (document.positionOf later)
  sought : ∀ offset : Rat,
    let line := Lines.seek document.lines (document.clamp offset) document.lineCount 0
    document.positionOf offset =
      ⟨line, document.clamp offset - Lines.startOf document.lines line⟩
  counted : ∀ offset : Int, (document.positionOf offset).line =
    ((document.text.take (min offset.toNat document.text.length)).count newline : Nat)

theorem coherent (document : Document) : document.Coherent where
  back := document.offsetOf_positionOf
  forth _ := Has.exists_offset
  ordered _ _ := document.positionOf_mono
  sought offset := by
    dsimp only
    rw [← lineOf_eq_seek, positionOf_eq]
  counted offset := by
    rw [positionOf_intCast, before_eq_take, place_intCast]

end Document

/-! ## Blocks between lines -/

namespace Block

variable {document : Document}

/-- A block that starts and stops at positions of a document has their lines. -/
theorem span_of_positions {block : Block} {first last : Nat} {column width : Rat}
    (hstart : document.positionOf block.start = ⟨first, column⟩)
    (hstop : document.positionOf block.stop = ⟨last, width⟩) :
    block.span document = ⟨first + 1, last + 1⟩ := by
  have hopening : (document.lineOf block.start : Rat) = first := congrArg Position.line hstart
  have hclosing : (document.lineOf block.stop : Rat) = last := congrArg Position.line hstop
  rw [span, hopening, hclosing]

/-- The block between two lines of a document is there and has these lines. -/
theorem span_spanning (kind : Text) {first last : Nat} (hfirst : first < document.lineCount)
    (hlast : last < document.lineCount) : ∃ block, spanning document kind first last = .ok block ∧
      block.kind = kind ∧ block.span document = ⟨first + 1, last + 1⟩ := by
  obtain ⟨opening, hopening⟩ : ∃ text, document.lines[first]? = some text :=
    ⟨_, List.getElem?_eq_getElem hfirst⟩
  obtain ⟨closing, hclosing⟩ : ∃ text, document.lines[last]? = some text :=
    ⟨_, List.getElem?_eq_getElem hlast⟩
  have hindented : document.Has
      ⟨first, (opening.length - opening.trimLeft.length : Nat)⟩ :=
    ⟨first, _, opening, rfl, hopening, Nat.sub_le ..⟩
  have hended : document.Has (Document.endOfLine last closing) :=
    ⟨last, _, closing, rfl, hclosing, Nat.le_refl _⟩
  obtain ⟨start, hstart, hstartAt⟩ := hindented.exists_offset
  obtain ⟨stop, hstop, hstopAt⟩ := hended.exists_offset
  refine ⟨⟨kind, start, stop⟩, ?_, rfl, span_of_positions hstartAt hstopAt⟩
  simp only [spanning, Document.line, Lines.get_natCast hopening, Lines.get_natCast hclosing,
    hstart, hstop, bind, Except.bind, pure, Except.pure]

end Block

/-! ## Labels on the screen -/

namespace Label

/-- Every label that is extracted is that of a block. -/
theorem exists_block {σ : Type} {view : View σ} {minLines : Rat} {catalog : Catalog} {s : σ}
    {labels : List Label} (h : (extract view minLines catalog s).result = .ok labels)
    {label : Label} (hmem : label ∈ labels) : ∃ block : Block, label = block.label view.document := by
  rw [extract_result, gather_eq] at h
  rw [← Except.ok.inj h] at hmem
  obtain ⟨block, -, hlabel⟩ := List.mem_map.mp hmem
  exact ⟨block, hlabel.symm⟩

end Label

/-- The anchor of a block is the offset of the end of its closing line, so that end is its
position. -/
theorem Document.positionOf_anchor (document : Document) (block : Block) :
    ∃ text, document.line ((block.label document).closing - 1) = .ok text ∧
      document.positionOf (block.label document).anchor =
        ⟨(block.label document).closing - 1, text.length⟩ := by
  have hclosing : (block.label document).closing - 1 = document.lineOf block.stop :=
    add_sub_cancel_right ..
  rw [hclosing]
  have hline := document.getElem?_lineOf block.stop
  have hended : document.Has (endOfLine (document.lineOf block.stop) _) :=
    ⟨_, _, _, rfl, hline, Nat.le_refl _⟩
  exact ⟨_, document.get_lineOf block.stop,
    hended.positionOf_of_offsetOf (document.offsetOf_endOfLine block.stop)⟩

/-- What has to be shown for a waiting label in a document from which some labels were extracted:
its text in its style, in an empty range. One that was drawn at the anchor of such a label stands on
the closing line of that label, as far in as the line is long. -/
structure Decoration.StandsFor (document : Document) (labels : List Label) (waiting : Pending)
    (decoration : Decoration) : Prop where
  text : decoration.text = waiting.text
  style : decoration.style = waiting.style
  empty : decoration.stop = decoration.start
  place : ∀ label ∈ labels, waiting.anchor = label.anchor →
    ∃ line, document.line (label.closing - 1) = .ok line ∧
      decoration.start = ⟨label.closing - 1, line.length⟩

namespace Display

/-- A waiting label shows where it has to in every document with the text that the labels were
extracted from. -/
theorem decorationOf_standsFor {σ : Type} {view : View σ} {minLines : Rat} {catalog : Catalog}
    {s : σ} {labels : List Label}
    (h : (Label.extract view minLines catalog s).result = .ok labels) {document : Document}
    (htext : document.text = view.document.text) (waiting : Pending) :
    (decorationOf document waiting).StandsFor view.document labels waiting where
  text := rfl
  style := rfl
  empty := rfl
  place label hmem hanchor := by
    obtain ⟨block, rfl⟩ := Label.exists_block h hmem
    obtain ⟨line, hline, hposition⟩ := view.document.positionOf_anchor block
    refine ⟨line, hline, ?_⟩
    have hsame : document.positionOf waiting.anchor = view.document.positionOf waiting.anchor := by
      simp only [Document.positionOf, Document.clamp, Document.lineOf, Document.before, htext]
    rw [decorationOf, hsame, hanchor, hposition]

end Display

namespace Label

/-- Labels show where they were computed. Positions and offsets of a document lead to each other,
so the block between two of its lines has these lines and the height between them. And whenever
labels were extracted from the document, painting an editor that shows its text gives the editor one
decoration for each label that waits there, and each stands where it has to. -/
theorem shown_where_computed (document : Document) :
    document.Coherent ∧
    (∀ kind (first last : Nat), first < document.lineCount → last < document.lineCount →
      ∃ block, Block.spanning document kind first last = .ok block ∧ block.kind = kind ∧
        block.span document = ⟨first + 1, last + 1⟩ ∧
        (block.span document).height = last - first) ∧
    ∀ {σ : Type} (view : View σ) (minLines : Rat) (catalog : Catalog) (s : σ) (labels : List Label),
      view.document = document → (extract view minLines catalog s).result = .ok labels →
      ∀ (display : Display) (editor : Editor), editor.Accepts →
        let buffer := display.screen.shownIn editor
        buffer.document.text = document.text →
        (Display.paint editor display).result = .ok () ∧ ∃ decorations,
          given editor.name (Display.paint editor display).trace = some decorations ∧
          List.Forall₂ (Decoration.StandsFor document labels) (display.pending buffer.uri)
            decorations := by
  refine ⟨document.coherent, fun kind first last hfirst hlast => ?_, ?_⟩
  · obtain ⟨block, hblock, hkind, hspan⟩ := Block.span_spanning kind hfirst hlast
    refine ⟨block, hblock, hkind, hspan, ?_⟩
    rw [hspan, Span.height]
    ring
  · rintro σ view minLines catalog s labels rfl hextract display editor haccepts buffer htext
    refine ⟨Display.paint_result haccepts display, display.decorationsFor editor, ?_, ?_⟩
    · rw [Display.given_paint haccepts, if_pos rfl]
    · exact List.forall₂_map_right_iff.mpr (List.forall₂_same.mpr fun waiting _ =>
        Display.decorationOf_standsFor hextract htext waiting)

/-- One block closes on the line before the last, and one behind the text, on an empty line. A label
that was not extracted waits between the two. -/
theorem shown_where_computed_on_empty_line :
    let document : Document := ⟨[32, 102, 123, newline, newline, 125, newline], [97]⟩
    let publication : Publication := ⟨[⟨[107], 1, 99⟩, ⟨[107], 2, 6⟩], none, document, [97]⟩
    let catalog : Catalog := ⟨.empty, Table.empty.insert [97] [[107]], .empty⟩
    let labels : List Label := [⟨6, [102, 123], 1, 3⟩, ⟨7, [102, 123], 1, 4⟩]
    let waiting : List Pending :=
      [⟨1, 6, [33], .standard⟩, ⟨2, 2, [34], .standard⟩, ⟨3, 7, [35], .standard⟩]
    let display : Display :=
      ⟨{ documents := Table.empty.insert "a" waiting }, Screen.add {} "a" ⟨document.text, []⟩⟩
    let editor : Editor := ⟨"e", some 0, none⟩
    document.offsetOf (document.positionOf (-3 : Int)) = .ok 0 ∧
    document.offsetOf (document.positionOf (99 : Int)) = .ok 7 ∧
    document.Has ⟨2, 1⟩ ∧
    (∃ offset, document.offsetOf ⟨2, 1⟩ = .ok offset ∧ document.positionOf offset = ⟨2, 1⟩) ∧
    0 < document.lineCount ∧ 3 < document.lineCount ∧
    (∃ block, Block.spanning document [107] (0 : Nat) (3 : Nat) = .ok block ∧
      block.span document = ⟨1, 4⟩ ∧ (block.span document).height = 3) ∧
    (extract publication.noting 1 catalog []).result = .ok labels ∧ editor.Accepts ∧
    (display.screen.shownIn editor).document.text = document.text ∧
    ∃ first middle last : Decoration,
      given "e" (Display.paint editor display).trace = some [first, middle, last] ∧
      first.start = ⟨2, 1⟩ ∧ last.start = ⟨3, 0⟩ := by
  intro document publication catalog labels waiting display editor
  obtain ⟨hcoherent, hspanning, hpainted⟩ := shown_where_computed document
  have hhas : document.Has ⟨2, 1⟩ := ⟨2, 1, [125], rfl, rfl, Nat.le_refl _⟩
  obtain ⟨block, hblock, -, hspan, hheight⟩ :=
    hspanning [107] 0 3 (by decide +kernel) (by decide +kernel)
  have hextract : (extract publication.noting 1 catalog []).result = .ok labels := by
    decide +kernel
  obtain ⟨-, decorations, hgiven, hstand⟩ := hpainted publication.noting 1 catalog [] labels rfl
    hextract display editor (by decide) rfl
  have hwaiting : display.pending (display.screen.shownIn editor).uri = waiting := rfl
  rw [hwaiting] at hstand
  obtain ⟨first, _, hfirst, hbehind, rfl⟩ := List.forall₂_cons_left_iff.mp hstand
  obtain ⟨middle, _, -, hrest, rfl⟩ := List.forall₂_cons_left_iff.mp hbehind
  obtain ⟨last, _, hlast, hnone, rfl⟩ := List.forall₂_cons_left_iff.mp hrest
  obtain rfl := List.forall₂_nil_left_iff.mp hnone
  obtain ⟨closing, hclosing, hfirstPlace⟩ := hfirst.place ⟨6, _, 1, 3⟩ List.mem_cons_self rfl
  obtain ⟨empty, hempty, hlastPlace⟩ :=
    hlast.place ⟨7, _, 1, 4⟩ (List.mem_cons_of_mem _ List.mem_cons_self) rfl
  have hthird : document.line (3 - 1) = .ok [125] := by decide +kernel
  have hfourth : document.line (4 - 1) = .ok [] := by decide +kernel
  obtain rfl := Except.ok.inj (hthird.symm.trans hclosing)
  obtain rfl := Except.ok.inj (hfourth.symm.trans hempty)
  refine ⟨hcoherent.back (-3), hcoherent.back 99, hhas, hcoherent.forth _ hhas, by decide +kernel,
    by decide +kernel, ⟨block, hblock, ?_, ?_⟩, hextract, by decide, rfl, first, middle, last,
    hgiven, ?_, ?_⟩
  · rw [hspan]
    norm_num
  · rw [hheight]
    norm_num
  · rw [hfirstPlace]
    norm_num
  · rw [hlastPlace]
    norm_num

end Label

end ClosingLabels
