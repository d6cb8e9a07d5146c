import ClosingLabels.Proofs.Drawing
import ClosingLabels.Proofs.Extracting
import ClosingLabels.Proofs.Redrawing

/-!
# The innermost block of a line

With one label for each anchor, the first of the labels for an anchor is drawn. The anchors of
two blocks are the same just when the blocks close on one line, and labels come in the reverse
of the order in which the blocks were found. So a line on which long blocks close gets one
label, that of the last found among them, and when blocks are found in the order in which they
start, no other of them opens on a later line.
-/

namespace ClosingLabels

namespace Label

/-! ## First labels -/

/-- The first labels have the anchors of all, each once. -/
theorem nodup_firstForAnchors (labels : List Label) :
    ((firstForAnchors labels).map Label.anchor).Nodup := by
  induction labels with
  | nil => exact List.nodup_nil
  | cons label rest ih =>
    rw [firstForAnchors, List.map_cons, List.nodup_cons]
    refine ⟨fun hagain => ?_, ih.sublist (List.filter_sublist.map _)⟩
    obtain ⟨other, hother, heq⟩ := List.mem_map.mp hagain
    have hne := List.of_mem_filter hother
    simp [heq] at hne

/-- A label comes first for its anchor when it is the one that a search for the anchor finds. -/
theorem mem_firstForAnchors {labels : List Label} {label : Label} :
    label ∈ firstForAnchors labels ↔
      labels.find? (fun other => other.anchor = label.anchor) = some label := by
  induction labels with
  | nil => simp [firstForAnchors]
  | cons first rest ih =>
    rw [firstForAnchors, List.mem_cons, List.mem_filter, ih]
    by_cases hsame : first.anchor = label.anchor
    · rw [List.find?_cons_of_pos (by simpa using hsame)]
      constructor
      · rintro (rfl | ⟨-, hne⟩)
        · rfl
        · simp [hsame] at hne
      · intro heq
        exact .inl (Option.some.inj heq).symm
    · rw [List.find?_cons_of_neg (by simpa using hsame)]
      have hne : label ≠ first := fun heq => hsame (heq ▸ rfl)
      have hother : label.anchor ≠ first.anchor := fun heq => hsame heq.symm
      simp [hne, hother]

/-- The blocks that a search comes up with: none when it is not made, and none when it fails. -/
def found (kinds : List Text) (answer : Except Fault (List Block)) : List Block :=
  if kinds.isEmpty then []
  else
    match answer with
    | .ok blocks => blocks
    | .error _ => []

/-- What is gathered are the labels of the tall blocks among those, last found first. -/
theorem gather_eq (document : Document) (minLines : Rat) (kinds : List Text)
    (answer : Except Fault (List Block)) :
    gather document minLines kinds answer =
      ((found kinds answer).reverse.filter (·.Tall document minLines)).map
        (Block.label document) := by
  cases answer with
  | error fault => cases kinds <;> rfl
  | ok blocks =>
    unfold gather found
    split
    · rfl
    · simp only [bind, Except.bind, collect_eq]

end Label

/-! ## Anchors and lines -/

namespace Document

variable (document : Document)

/-- Up to the end of its line an offset has as many line feeds before it as up to itself. -/
theorem lineOf_label_anchor (block : Block) :
    document.lineOf (block.label document).anchor = document.lineOf block.stop := by
  obtain ⟨rest, hcut⟩ := document.exists_text_eq block.stop
  have hbefore := before_cut hcut
  rw [List.length_append, document.length_before] at hbefore
  have hnone := Text.newline_notMem_firstLine (document.behind block.stop)
  rw [lineOf, Block.label, hbefore, List.count_append, List.count_eq_zero_of_not_mem hnone]
  rfl

/-- Two blocks have the same anchor when they close on the same line, and only then. -/
theorem anchor_eq_iff (block other : Block) :
    (block.label document).anchor = (other.label document).anchor ↔
      document.lineOf block.stop = document.lineOf other.stop := by
  refine ⟨fun hanchor => ?_, fun hline => ?_⟩
  · rw [← document.lineOf_label_anchor block, ← document.lineOf_label_anchor other, hanchor]
  · have htext := document.get_lineOf block.stop
    have hplace := document.offsetOf_endOfLine block.stop
    rw [hline, document.get_lineOf other.stop] at htext
    rw [hline, ← Except.ok.inj htext, document.offsetOf_endOfLine other.stop] at hplace
    exact (Except.ok.inj hplace).symm

/-- The anchor of a block is the end of the line on which it closes. -/
theorem endsLine_anchor (block : Block) : ∃ stop : Nat, (block.label document).anchor = stop ∧
    document.text.EndsLine (document.place block.stop) stop :=
  (Label.meant_label document block).anchor

end Document

namespace Text

/-- A line ends in one place only. -/
theorem EndsLine.unique {text : Text} {place stop other : Nat} (h : text.EndsLine place stop)
    (hother : text.EndsLine place other) : stop = other := by
  have hle {stop other : Nat} (h : text.EndsLine place stop) (hother : text.EndsLine place other) :
      stop ≤ other := by
    by_contra hlt
    rcases hother.bound with hend | hnewline
    · exact hlt (hend ▸ h.within)
    · exact h.free other hother.le (Nat.lt_of_not_le hlt) hnewline
  exact Nat.le_antisymm (hle h hother) (hle hother h)

end Text

namespace Block

/-- The innermost of some blocks that close on a line: the last of those that are tall enough. -/
def innermost? (document : Document) (minLines : Rat) (blocks : List Block) (line : Nat) :
    Option Block :=
  (blocks.filter fun block =>
    block.Tall document minLines ∧ document.lineOf block.stop = line).getLast?

/-- Of blocks in the order of their starts the last one opens on the last line. -/
theorem lineOf_le_innermost {document : Document} {minLines : Rat} {blocks : List Block}
    (horder : blocks.Pairwise fun block next => block.start ≤ next.start) {line : Nat}
    {last : Block} (hlast : innermost? document minLines blocks line = some last) {other : Block}
    (hmem : other ∈ blocks) (htall : other.Tall document minLines)
    (hline : document.lineOf other.stop = line) :
    document.lineOf other.start ≤ document.lineOf last.start := by
  obtain ⟨earlier, hearlier⟩ := List.getLast?_eq_some_iff.mp hlast
  have hclosing := horder.filter fun block =>
    decide (block.Tall document minLines ∧ document.lineOf block.stop = line)
  have hother : other ∈ earlier ++ [last] := by
    rw [← hearlier]
    exact List.mem_filter.mpr ⟨hmem, decide_eq_true ⟨htall, hline⟩⟩
  rw [hearlier, List.pairwise_append] at hclosing
  rcases List.mem_append.mp hother with hbefore | hself
  · exact document.lineOf_mono (hclosing.2.2 other hbefore last (List.mem_singleton_self _))
  · rw [List.mem_singleton.mp hself]

end Block

namespace Label

/-- The first label for an anchor is that of the innermost block that closes on its line. -/
theorem find?_gather (document : Document) (minLines : Rat) (kinds : List Text)
    (answer : Except Fault (List Block)) (closing : Block) :
    (gather document minLines kinds answer).find?
        (fun label => label.anchor = (closing.label document).anchor) =
      (Block.innermost? document minLines (found kinds answer)
        (document.lineOf closing.stop)).map (Block.label document) := by
  rw [gather_eq, List.find?_map, ← List.head?_filter, List.filter_filter, List.filter_reverse,
    List.head?_reverse, Block.innermost?]
  congr 2
  refine List.filter_congr fun block _ => ?_
  simp only [Function.comp_apply, document.anchor_eq_iff, Bool.decide_and, Bool.and_comm]

/-- The anchors of the first labels are those of the tall blocks. -/
theorem anchor_mem_first {document : Document} {minLines : Rat} {kinds : List Text}
    {answer : Except Fault (List Block)} {anchor : Rat} :
    anchor ∈ (firstForAnchors (gather document minLines kinds answer)).map Label.anchor ↔
      ∃ block ∈ found kinds answer, block.Tall document minLines ∧
        (block.label document).anchor = anchor := by
  constructor
  · intro hmem
    obtain ⟨label, hlabel, rfl⟩ := List.mem_map.mp hmem
    have hgathered := List.mem_of_find?_eq_some (mem_firstForAnchors.mp hlabel)
    rw [gather_eq] at hgathered
    obtain ⟨block, hblock, rfl⟩ := List.mem_map.mp hgathered
    obtain ⟨hfound, htall⟩ := List.mem_filter.mp hblock
    exact ⟨block, List.mem_reverse.mp hfound, of_decide_eq_true htall, rfl⟩
  · rintro ⟨block, hfound, htall, rfl⟩
    have hgathered : block.label document ∈ gather document minLines kinds answer := by
      rw [gather_eq]
      exact List.mem_map_of_mem
        (List.mem_filter.mpr ⟨List.mem_reverse.mpr hfound, decide_eq_true htall⟩)
    -- Some label with this anchor is found, and the one that is found comes first.
    have hsome : ((gather document minLines kinds answer).find?
        fun other => other.anchor = (block.label document).anchor).isSome :=
      List.find?_isSome.mpr ⟨_, hgathered, by simp⟩
    obtain ⟨label, hlabel⟩ := Option.isSome_iff_exists.mp hsome
    have hanchor : label.anchor = (block.label document).anchor := by
      simpa using List.find?_some hlabel
    refine List.mem_map.mpr ⟨label, mem_firstForAnchors.mpr ?_, hanchor⟩
    rw [hanchor, hlabel]

/-- Each of the first labels is that of the innermost block of its line. -/
theorem innermost_of_mem_first {document : Document} {minLines : Rat} {kinds : List Text}
    {answer : Except Fault (List Block)} {label : Label}
    (h : label ∈ firstForAnchors (gather document minLines kinds answer)) :
    ∃ block, Block.innermost? document minLines (found kinds answer)
        (document.lineOf block.stop) = some block ∧ label = block.label document := by
  have hfind := mem_firstForAnchors.mp h
  have hgathered := List.mem_of_find?_eq_some hfind
  rw [gather_eq] at hgathered
  obtain ⟨closing, -, rfl⟩ := List.mem_map.mp hgathered
  rw [find?_gather] at hfind
  obtain ⟨block, hblock, hlabel⟩ := Option.map_eq_some_iff.mp hfind
  have hline : document.lineOf block.stop = document.lineOf closing.stop :=
    (document.anchor_eq_iff block closing).mp (congrArg Label.anchor hlabel)
  exact ⟨block, by rw [hline, hblock], hlabel.symm⟩

end Label

/-! ## Redrawing -/

/-- Either all labels come to be drawn, or the attempt after the last of them that is drawn is
refused. -/
theorem Recorder.granted_cases (refused : List Nat) (attempts : Nat) (labels : List Label) :
    granted refused attempts labels = labels ∨
      (granted refused attempts labels).length < labels.length ∧
        attempts + (granted refused attempts labels).length + 1 ∈ refused := by
  induction labels generalizing attempts with
  | nil => exact .inl rfl
  | cons label rest ih =>
    rw [granted]
    split
    · rename_i hrefused
      exact .inr ⟨Nat.succ_pos _, hrefused⟩
    · rcases ih (attempts + 1) with hall | ⟨hless, hrefused⟩
      · exact .inl (by rw [hall])
      · refine .inr ⟨Nat.succ_lt_succ hless, ?_⟩
        rw [List.length_cons]
        convert hrefused using 1
        omega

namespace Scenario

open Chronicle OverlayRun

/-- A redrawing that draws one label for each anchor and has none of its drawings refused. -/
structure OneEach (before : OverlayRun) (done : Outcome OverlayRun Unit) : Prop where
  once : before.overlay.options.oneForEachAnchor = true
  granted : ∀ attempt, before.recorder.attempts < attempt →
    attempt ≤ done.state.recorder.attempts → attempt ∉ before.recorder.refusals.draws

/-- When no drawing of a redrawing is refused, all chosen labels are on record. -/
theorem Redrawn.newLabels_eq {document : String} {chosen : List Label} {before : OverlayRun}
    {done : Outcome OverlayRun Unit} (h : Redrawn document chosen before done)
    (hone : OneEach before done) :
    done.state.overlay.labels document = Recorder.placed before.recorder.attempts chosen := by
  rw [h.labels, newLabels]
  rcases Recorder.granted_cases before.recorder.refusals.draws before.recorder.attempts chosen with
    hall | ⟨hless, hrefused⟩
  · exact congrArg _ hall
  · have hattempts := h.attempts
    rw [tries, OverlayRun.granted, if_neg hless.ne] at hattempts
    exact absurd hrefused (hone.granted _ (by omega) (by omega))

variable {catalog : Catalog} {document : String} {answer : List Text → Except Fault (List Block)}
  {source : Document} {language : Text} {minLines : Rat} {before : OverlayRun}

/-- A redrawing that draws one label for each anchor leaves on record what is first for each. -/
theorem content_redraw (hone : OneEach before
      (Overlay.redraw site catalog document (answering answer source language) minLines before)) :
    ((Overlay.redraw site catalog document (answering answer source language) minLines
        before).state.overlay.labels document).map Placed.content =
      (Label.firstForAnchors (Label.gather source minLines (catalog.kinds language)
        (answer (catalog.kinds language)))).map Label.content := by
  obtain ⟨records, trace, htrace, hextract⟩ :=
    extract_answering answer source language minLines catalog
  have hrecords : records = Label.gather source minLines (catalog.kinds language)
      (answer (catalog.kinds language)) := by
    have hresult := Label.extract_result (answering answer source language) minLines catalog before
    rw [hextract] at hresult
    exact Except.ok.inj hresult
  have hredrawn : Redrawn document (before.overlay.options.select records) before _ :=
    redraw_redrawn htrace hextract
  rw [hredrawn.newLabels_eq hone, Recorder.map_content_placed, OverlayOptions.select,
    if_pos hone.once, hrecords]

/-- So the anchors on record are those of the tall blocks. -/
theorem anchors_redraw (hone : OneEach before
      (Overlay.redraw site catalog document (answering answer source language) minLines before)) :
    ((Overlay.redraw site catalog document (answering answer source language) minLines
        before).state.overlay.labels document).map Placed.anchor =
      (Label.firstForAnchors (Label.gather source minLines (catalog.kinds language)
        (answer (catalog.kinds language)))).map Label.anchor := by
  have hcontent := congrArg (List.map Prod.fst) (content_redraw hone)
  rwa [List.map_map, List.map_map] at hcontent

/-- **One label for each line.** A redrawing that draws one label for each anchor, and has none of
them refused, leaves a document with one label at the end of each line on which a tall block closes,
and with no other, whatever was there before. The label repeats the line on which the innermost of
these blocks opens, and none of them opens on a later line. With a higher threshold there are labels
at some of these places, and nowhere else. -/
theorem redraw_innermost
    (horder : (Label.found (catalog.kinds language) (answer (catalog.kinds language))).Pairwise
      fun block next => block.start ≤ next.start)
    (hone : OneEach before
      (Overlay.redraw site catalog document (answering answer source language) minLines before)) :
    let blocks := Label.found (catalog.kinds language) (answer (catalog.kinds language))
    let redrawn := fun (threshold : Rat) (run : OverlayRun) =>
      Overlay.redraw site catalog document (answering answer source language) threshold run
    let labels := (redrawn minLines before).state.overlay.labels document
    (labels.map Placed.anchor).Nodup ∧
    (∀ anchor, anchor ∈ labels.map Placed.anchor ↔ ∃ block ∈ blocks, block.Tall source minLines ∧
      ∃ stop : Nat, anchor = stop ∧ source.text.EndsLine (source.place block.stop) stop) ∧
    (∀ label ∈ labels, ∃ block,
      Block.innermost? source minLines blocks (source.lineOf block.stop) = some block ∧
      (∃ stop : Nat, label.anchor = stop ∧
        source.text.EndsLine (source.place block.stop) stop) ∧
      (∃ line, source.text.LineAround (source.place block.start) line ∧ label.text = line.trim) ∧
      ∀ other ∈ blocks, other.Tall source minLines →
        source.lineOf other.stop = source.lineOf block.stop →
        source.lineOf other.start ≤ source.lineOf block.start) ∧
    ∀ higher run, minLines ≤ higher → OneEach run (redrawn higher run) →
      ∀ label ∈ (redrawn higher run).state.overlay.labels document,
        label.anchor ∈ labels.map Placed.anchor := by
  intro blocks redrawn labels
  have hanchors := anchors_redraw hone
  have hends (block : Block) (anchor : Rat) : (block.label source).anchor = anchor ↔
      ∃ stop : Nat, anchor = stop ∧ source.text.EndsLine (source.place block.stop) stop := by
    obtain ⟨stop, hstop, hend⟩ := source.endsLine_anchor block
    constructor
    · rintro rfl
      exact ⟨stop, hstop, hend⟩
    · rintro ⟨other, rfl, hother⟩
      rw [hstop, hend.unique hother]
  refine ⟨?_, fun anchor => ?_, fun label hlabel => ?_, fun higher run hle hrun label hlabel => ?_⟩
  · rw [hanchors]
    exact Label.nodup_firstForAnchors _
  · rw [hanchors, Label.anchor_mem_first]
    simp only [hends]
    exact Iff.rfl
  · have hcontent := List.mem_map_of_mem (f := Placed.content) hlabel
    rw [content_redraw hone] at hcontent
    obtain ⟨first, hfirst, heq⟩ := List.mem_map.mp hcontent
    obtain ⟨block, hinnermost, rfl⟩ := Label.innermost_of_mem_first hfirst
    obtain ⟨line, hline, htext⟩ := (Label.meant_label source block).text
    obtain ⟨hanchor, hsays⟩ := Prod.mk.inj heq
    refine ⟨block, hinnermost, (hends block label.anchor).mp hanchor,
      ⟨line, hline, hsays.symm.trans htext⟩, fun other hmem htall hclosing => ?_⟩
    exact Block.lineOf_le_innermost horder hinnermost hmem htall hclosing
  · have hmem : label.anchor ∈
        ((redrawn higher run).state.overlay.labels document).map Placed.anchor :=
      List.mem_map_of_mem hlabel
    rw [anchors_redraw hrun, Label.anchor_mem_first] at hmem
    obtain ⟨block, hfound, htall, hanchor⟩ := hmem
    rw [hanchors, Label.anchor_mem_first]
    exact ⟨block, hfound, lt_of_le_of_lt hle htall, hanchor⟩

/-- Two of three blocks close on one line. The inner one gives its label, until the threshold rises
and only the outer one is tall enough; the places of the labels stay. -/
theorem redraw_innermost_raised :
    let catalog := Catalog.make (.ofRows [([112], [[105]])]) .empty .empty
    let answer : List Text → Except Fault (List Block) :=
      fun _ => .ok [⟨[105], 0, 6⟩, ⟨[105], 3, 5⟩, ⟨[105], 3, 8⟩]
    let source : Document := ⟨[97, 10, 32, 98, 10, 99, 10, 100], [112]⟩
    let before := Action.finish OverlayStep.perform (fresh {} ⟨[7], [], []⟩ catalog)
      [.add "a" [⟨0, [120], 1, 2⟩]]
    let done := Overlay.redraw site catalog "a" (answering answer source [112]) 0 before
    let again := Overlay.redraw site catalog "a" (answering answer source [112]) 1 done.state
    OneEach before done ∧ OneEach done.state again ∧
      (done.state.overlay.labels "a").map Placed.content = [(8, [98]), (6, [98])] ∧
      (again.state.overlay.labels "a").map Placed.content = [(8, [98]), (6, [97])] ∧
      ((done.state.overlay.labels "a").map Placed.anchor).Nodup ∧
      ∀ label ∈ again.state.overlay.labels "a",
        label.anchor ∈ (done.state.overlay.labels "a").map Placed.anchor := by
  intro catalog answer source before done again
  have hone : OneEach before done := by
    refine ⟨by decide +kernel, fun attempt _ hle => ?_⟩
    have hattempts : done.state.recorder.attempts = 3 := by decide +kernel
    have hdraws : before.recorder.refusals.draws = [7] := by decide +kernel
    rw [hdraws, List.mem_singleton]
    omega
  have hagain : OneEach done.state again := by
    refine ⟨by decide +kernel, fun attempt _ hle => ?_⟩
    have hattempts : again.state.recorder.attempts = 5 := by decide +kernel
    have hdraws : done.state.recorder.refusals.draws = [7] := by decide +kernel
    rw [hdraws, List.mem_singleton]
    omega
  have hinnermost := redraw_innermost (by decide +kernel) hone
  obtain ⟨hnodup, -, -, hraised⟩ := hinnermost
  exact ⟨hone, hagain, by decide +kernel, by decide +kernel, hnodup,
    hraised 1 done.state (by decide) hagain⟩

end Scenario

end ClosingLabels
