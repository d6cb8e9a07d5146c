import ClosingLabels.Proofs.Closing

/-!
# What painting shows

An editor shows what it was given last, placed by the text its document had then. While the
plugin works on a document, its editors lag behind: labels are erased and drawn one by one,
and no editor sees anything of that before the document is flushed. A flush that is left
out would have shown no label where none was shown before, so leaving it out is harmless.
-/

namespace ClosingLabels

open ClosingLabels.Action (Maintains Leaves Leads Keeping)

/-! ## What editors are given -/

/-- The decorations that an event gives to an editor, if it does. -/
def Event.givenTo (editor : String) : Event → Option (List Decoration)
  | .decorated name _ decorations => if name = editor then some decorations else none
  | _ => none

/-- The decorations that an editor was given last. -/
def given (editor : String) (events : List Event) : Option (List Decoration) :=
  events.reverse.findSome? (Event.givenTo editor)

theorem Event.Unseen.givenTo {event : Event} (h : event.Unseen) (editor : String) :
    event.givenTo editor = none := by
  cases event <;> first | rfl | cases h

theorem given_append (editor : String) (events more : List Event) :
    given editor (events ++ more) = (given editor more).or (given editor events) := by
  rw [given, List.reverse_append, List.findSome?_append]
  rfl

theorem given_of_unseen {events : List Event} (h : ∀ event ∈ events, event.Unseen)
    (editor : String) : given editor events = none := by
  rw [given, List.findSome?_eq_none_iff]
  exact fun event hevent => (h event (List.mem_reverse.mp hevent)).givenTo editor

/-- Events that nobody sees do not change what an editor was given last. -/
theorem given_append_of_unseen {more : List Event} (h : ∀ event ∈ more, event.Unseen)
    (editor : String) (events : List Event) :
    given editor (events ++ more) = given editor events := by
  rw [given_append, given_of_unseen h, Option.none_or]

/-- What each of several editors was given, when each step gives to one of them. -/
theorem given_each {σ : Type} {f : Editor → Action σ Unit} (fine : σ → Prop)
    (gives : Editor → Option (List Decoration)) {editors : List Editor}
    (hnames : (editors.map Editor.name).Nodup)
    (hf : ∀ editor ∈ editors, ∀ s, fine s →
      (f editor s).result = .ok () ∧ fine (f editor s).state ∧
      ∀ name, given name (f editor s).trace = if name = editor.name then gives editor else none)
    {s : σ} (hs : fine s) :
    let done := Action.each editors f s
    done.result = .ok () ∧ fine done.state ∧
      (∀ editor ∈ editors, given editor.name done.trace = gives editor) ∧
      ∀ name, name ∉ editors.map Editor.name → given name done.trace = none := by
  dsimp only
  induction editors generalizing s with
  | nil => exact ⟨rfl, hs, fun _ hmem => (List.not_mem_nil hmem).elim, fun _ _ => rfl⟩
  | cons first rest ih =>
    obtain ⟨hresult, hfine, hfirst⟩ := hf first List.mem_cons_self s hs
    rw [List.map_cons, List.nodup_cons] at hnames
    obtain ⟨hlast, hdone, hrest, hothers⟩ := ih hnames.2
      (fun editor heditor => hf editor (List.mem_cons_of_mem first heditor)) hfine
    rw [Action.each, Action.bind_of_ok (Action.eq_of_result hresult)]
    refine ⟨hlast, hdone, fun editor heditor => ?_, fun name hname => ?_⟩
    · rw [given_append, hfirst]
      rcases List.mem_cons.mp heditor with rfl | hmem
      · rw [hothers _ hnames.1, if_pos rfl, Option.none_or]
      · have hne : editor.name ≠ first.name := fun heq =>
          hnames.1 (heq ▸ List.mem_map_of_mem hmem)
        rw [hrest editor hmem, if_neg hne, Option.or_none]
    · rw [List.map_cons, List.mem_cons, not_or] at hname
      rw [given_append, hfirst, hothers name hname.2, if_neg hname.1]
      rfl

/-- Editors that can be shown together: each takes decorations and has a buffer that is there, and
no two go by the same name. -/
structure Screen.Admits (screen : Screen) (editors : List Editor) : Prop where
  names : (editors.map Editor.name).Nodup
  accepts : ∀ editor ∈ editors, editor.Accepts
  present : ∀ editor ∈ editors, ∀ number ∈ editor.buffer, number < screen.buffers.length

instance (screen : Screen) (editors : List Editor) : Decidable (screen.Admits editors) :=
  decidable_of_iff ((editors.map Editor.name).Nodup ∧ (∀ editor ∈ editors, editor.Accepts) ∧
      ∀ editor ∈ editors, ∀ number ∈ editor.buffer, number < screen.buffers.length)
    ⟨fun ⟨names, accepts, present⟩ => ⟨names, accepts, present⟩,
      fun ⟨names, accepts, present⟩ => ⟨names, accepts, present⟩⟩

namespace Display

variable {display : Display} {editor : Editor}

/-- The decorations that an editor is to be given. -/
def decorationsFor (display : Display) (editor : Editor) : List Decoration :=
  let buffer := display.screen.shownIn editor
  (display.pending buffer.uri).map (decorationOf buffer.document)

/-- They depend on the contents alone. -/
theorem decorationsFor_congr {other : Display} (h : display.contents = other.contents)
    (editor : Editor) : display.decorationsFor editor = other.decorationsFor editor := by
  have hshown : display.screen.shownIn editor = other.screen.shownIn editor :=
    Screen.shownIn_congr (congrArg Contents.buffers h) editor
  have hlabels : display.decorations.documents = other.decorations.documents :=
    congrArg Contents.labels h
  simp only [decorationsFor, pending, hshown, hlabels]

/-- Painting gives decorations to one editor. -/
theorem given_paint (h : editor.Accepts) (display : Display) (name : String) :
    given name (paint editor display).trace =
      if name = editor.name then some (display.decorationsFor editor) else none := by
  obtain ⟨type, after, making, hshared, hcontents, hunseen⟩ := sharedType_apply display
  rw [paint, Action.bind_of_ok hshared, Action.bind_of_quiet (Action.get_apply _),
    Screen.bufferOf_shownIn h.2, Action.bind_of_quiet (Action.ofExcept_apply _ _), Action.zoom_apply,
    Screen.decorate, h.1, given_append, given_of_unseen hunseen, Option.or_none,
    ← decorationsFor_congr hcontents]
  by_cases hname : name = editor.name
  · simp [given, Event.givenTo, decorationsFor, hname]
  · have hne : editor.name ≠ name := fun heq => hname heq.symm
    simp [given, Event.givenTo, hname, hne]

/-- A flush gives decorations to the visible editors of a document. -/
theorem given_flush (display : Display) {screen : Screen}
    (hadmits : screen.Admits display.screen.visible) (document : String) :
    (flush document display).result = .ok () ∧
      ∀ editor ∈ display.screen.visible, given editor.name (flush document display).trace =
        if (display.screen.shownIn editor).uri = document then
          some (display.decorationsFor editor)
        else none := by
  rw [flush, Action.bind_of_quiet (Action.get_apply _)]
  refine (fun hdone => ⟨hdone.1, hdone.2.2.1⟩) (given_each
    (fun after => after.contents = display.contents)
    (fun editor => if (display.screen.shownIn editor).uri = document then
      some (display.decorationsFor editor) else none)
    hadmits.names (fun editor heditor after hafter => ?_) rfl)
  have haccepts := hadmits.accepts editor heditor
  rw [Screen.bufferOf_shownIn haccepts.2, Action.bind_of_quiet (Action.ofExcept_apply _ _)]
  split
  · refine ⟨paint_result haccepts after, ((paint_contents editor).state after).trans hafter,
      fun name => ?_⟩
    rw [given_paint haccepts, decorationsFor_congr hafter]
  · exact ⟨rfl, hafter, fun name => by simp [given]⟩

end Display

/-! ## What editors show -/

/-- A mark as an editor shows it, placed by a text. -/
def Mark.decoration {H : Type} (document : Document) (mark : Mark H) : Decoration :=
  let place := document.positionOf mark.anchor
  ⟨place, place, mark.text, mark.style⟩

/-- What an editor was given last, and its document as it was then. -/
structure Sight where
  decorations : List Decoration
  document : Document

namespace Sight

/-- What is seen once an editor may have been given something new. -/
def after (sight : Sight) (document : Document) : Option (List Decoration) → Sight
  | some decorations => ⟨decorations, document⟩
  | none => sight

/-- Marks are shown, placed by the text that the document had when they were given. -/
def Shows {H : Type} (sight : Sight) (marks : List (Mark H)) : Prop :=
  sight.decorations = marks.map (Mark.decoration sight.document)

end Sight

namespace Desk

open Switchboard

/-- The editors on a screen show the marks of their documents, but for those of some documents. -/
structure Painted (screen : Screen) (sights : Editor → Sight) (exempt : String → Prop)
    (past : List Event) (desk : Desk) : Prop where
  buffers : desk.bench.screen.buffers = screen.buffers
  visible : desk.bench.screen.visible = screen.visible
  shows : ∀ editor ∈ screen.visible, ¬exempt (screen.shownIn editor).uri →
    ((sights editor).after (screen.shownIn editor).document (given editor.name past)).Shows
      (desk.marks (screen.shownIn editor).uri)

variable {screen : Screen} {sights : Editor → Sight} {exempt : String → Prop}
  {document : String} {past trace : List Event} {desk after : Desk}

/-- Where nobody sees anything and marks stay, editors show what they showed. -/
theorem Painted.step (h : Painted screen sights exempt past desk) {more : String → Prop}
    (hbuffers : after.bench.screen.buffers = desk.bench.screen.buffers)
    (hvisible : after.bench.screen.visible = desk.bench.screen.visible)
    (hunseen : ∀ event ∈ trace, event.Unseen) (hexempt : ∀ name, exempt name → more name)
    (hmarks : ∀ name, ¬more name → after.marks name = desk.marks name) :
    Painted screen sights more (past ++ trace) after where
  buffers := hbuffers.trans h.buffers
  visible := hvisible.trans h.visible
  shows editor heditor hmore := by
    rw [given_append_of_unseen hunseen, hmarks _ hmore]
    exact h.shows editor heditor fun hold => hmore (hexempt _ hold)

/-- What leaves the contents of the display alone leaves the marks. -/
theorem marks_of_contents
    (h : (displayPart.get after).contents = (displayPart.get desk).contents) :
    after.marks = desk.marks := by
  have hlabels := congrArg Display.Contents.labels h
  funext name
  exact congrArg (fun table : Table String (List Pending) =>
    ((table.get? name).getD []).map Pending.mark) hlabels

/-- What an editor is to be given are the marks of its document. -/
theorem decorationsFor_eq (desk : Desk) (editor : Editor) :
    (displayPart.get desk).decorationsFor editor =
      (desk.marks (desk.bench.screen.shownIn editor).uri).map
        (Mark.decoration (desk.bench.screen.shownIn editor).document) := by
  rw [marks, List.map_map]
  rfl

/-- A flush brings the editors of a document up to date. -/
theorem flush_paints (hadmits : screen.Admits screen.visible) :
    Leads (Painted screen sights (· = document)) (Painted screen sights fun _ => False)
      (overlaySite.canvas.flush document) := by
  intro past desk h
  have hcontents := (Display.flush_contents document).state (displayPart.get desk)
  have hgiven := (Display.given_flush (displayPart.get desk) (h.visible.symm ▸ hadmits) document).2
  have hmarks : (overlaySite.canvas.flush document desk).state.marks = desk.marks :=
    marks_of_contents hcontents
  refine ⟨(congrArg Display.Contents.buffers hcontents).trans h.buffers,
    (congrArg Display.Contents.visible hcontents).trans h.visible, fun editor heditor _ => ?_⟩
  have hshown : desk.bench.screen.shownIn editor = screen.shownIn editor :=
    Screen.shownIn_congr h.buffers editor
  have hflushed : given editor.name (overlaySite.canvas.flush document desk).trace =
      if (screen.shownIn editor).uri = document then
        some ((desk.marks (screen.shownIn editor).uri).map
          (Mark.decoration (screen.shownIn editor).document))
      else none := by
    rw [← hshown, ← decorationsFor_eq]
    exact hgiven editor (h.visible.symm ▸ heditor)
  rw [hmarks, given_append, hflushed]
  by_cases huri : (screen.shownIn editor).uri = document
  · rw [if_pos huri]
    rfl
  · rw [if_neg huri, Option.none_or]
    exact h.shows editor heditor huri

/-! ## Labels and their looks -/

/-- Every mark stands for one label on record, in the look that its handle was given out with. For
handles to come that is the look in force. -/
structure Stamped (looks : Nat → OverlayOptions) (desk : Desk) : Prop where
  numbered : desk.Numbered
  owned : (overlaySite.sheet marks desk).Owned
  ahead : ∀ handle, desk.plugin.decorations.next ≤ handle →
    looks handle = desk.plugin.overlay.options
  marks : ∀ document, desk.marks document =
    (desk.plugin.overlay.labels document).map fun label => (looks label.handle).mark label

/-- Marks and labels are in step, and editors show the marks. -/
def Vivid (screen : Screen) (sights : Editor → Sight) (looks : Nat → OverlayOptions)
    (past : List Event) (desk : Desk) : Prop :=
  Stamped looks desk ∧ Painted screen sights (fun _ => False) past desk

/-- What is seen of labels and decorations. -/
def outline (desk : Desk) : Display.Contents × Overlay Nat :=
  ((displayPart.get desk).contents, desk.plugin.overlay)

variable {looks : Nat → OverlayOptions}

/-- Nothing but the outline matters to marks, labels and handles. -/
theorem sheet_of_outline (hsame : after.outline = desk.outline) :
    (desk.Numbered → after.Numbered) ∧
      overlaySite.sheet marks after = overlaySite.sheet marks desk ∧
      after.plugin.decorations.next = desk.plugin.decorations.next := by
  obtain ⟨hcontents, hoverlay⟩ := Prod.mk.inj hsame
  have hmarks : after.marks = desk.marks := marks_of_contents hcontents
  have hlabels : (displayPart.get after).decorations.documents =
      (displayPart.get desk).decorations.documents := congrArg Display.Contents.labels hcontents
  have hnext : after.plugin.decorations.next = desk.plugin.decorations.next :=
    congrArg Display.Contents.next hcontents
  refine ⟨fun hnumbered name label hlabel => ?_, ?_, hnext⟩
  · rw [Display.pending, hlabels] at hlabel
    rw [hnext]
    exact hnumbered name label hlabel
  · simp only [Overlay.Site.sheet, hmarks, overlaySite, hoverlay]

theorem Stamped.congr (h : Stamped looks desk) (hsame : after.outline = desk.outline) :
    Stamped looks after := by
  obtain ⟨hnumbered, hsheet, hnext⟩ := sheet_of_outline hsame
  obtain ⟨hcontents, hoverlay⟩ := Prod.mk.inj hsame
  refine ⟨hnumbered h.numbered, hsheet ▸ h.owned, ?_, ?_⟩
  · rw [hnext, hoverlay]
    exact h.ahead
  · rw [marks_of_contents hcontents, hoverlay]
    exact h.marks

theorem rests_of_outline {α : Type} {x : Action Desk α} (hx : Leaves outline Event.Unseen x) :
    overlaySite.Rests marks Numbered x := by
  rintro seen past desk ⟨hnumbered, rfl⟩
  obtain ⟨hafter, hsheet, _⟩ := sheet_of_outline (hx.state desk)
  exact ⟨hafter hnumbered, hsheet⟩

/-- What leaves the outline alone and is not seen changes nothing that shows. -/
theorem vivid_of_leaves {α : Type} {x : Action Desk α} (hx : Leaves outline Event.Unseen x) :
    Maintains (Vivid screen sights looks) x := by
  rintro past desk ⟨hstamped, hpainted⟩
  have hsame := hx.state desk
  obtain ⟨hcontents, -⟩ := Prod.mk.inj hsame
  refine ⟨hstamped.congr hsame, hpainted.step (congrArg Display.Contents.buffers hcontents)
    (congrArg Display.Contents.visible hcontents) (hx.trace desk) (fun _ h => h) fun name _ => ?_⟩
  rw [marks_of_contents hcontents]

/-- Once a document was drafted without being seen, everything shows after a flush, which may be
left out when the document had no mark and has none. -/
theorem Vivid.flush (hadmits : screen.Admits screen.visible)
    (h : Vivid screen sights looks past desk) (hstamped : Stamped looks after)
    (hbuffers : after.bench.screen.buffers = desk.bench.screen.buffers)
    (hvisible : after.bench.screen.visible = desk.bench.screen.visible)
    (hunseen : ∀ event ∈ trace, event.Unseen)
    (document : String) (hothers : ∀ other, other ≠ document → after.marks other = desk.marks other)
    (changed : Prop) [Decidable changed]
    (hidle : ¬changed → desk.marks document = [] ∧ after.marks document = []) :
    let done := (if changed then overlaySite.canvas.flush document else pure ()) after
    Vivid screen sights looks (past ++ trace ++ done.trace) done.state := by
  dsimp only
  split
  · have hdrafted : Painted screen sights (· = document) (past ++ trace) after :=
      h.2.step hbuffers hvisible hunseen (fun _ hnone => hnone.elim) hothers
    have hcontents := (Display.flush_contents document).state (displayPart.get after)
    exact ⟨hstamped.congr (congrArg (·, after.plugin.overlay) hcontents),
      flush_paints hadmits _ _ hdrafted⟩
  · next hsame =>
    obtain ⟨hbefore, hafter⟩ := hidle hsame
    rw [Action.pure_apply, List.append_nil]
    refine ⟨hstamped, h.2.step hbuffers hvisible hunseen (fun _ hnone => hnone) fun name _ => ?_⟩
    by_cases hname : name = document
    · rw [hname, hbefore, hafter]
    · exact hothers name hname

/-! ## Drafting a document -/

/-- Nobody sees how a document is drafted. -/
theorem drafts_unseen (seen : List Buffer × List Editor) (document : String) :
    overlaySite.Drafts document
      (Keeping (fun desk => (desk.bench.screen.buffers, desk.bench.screen.visible)) Event.Unseen
        seen) where
  forget _ _ h := h
  register _ _ h := h
  push _ _ _ h := h
  draw _ _ _ past _ h := ⟨h.1, (List.append_nil past).symm ▸ h.2⟩
  erase _ past _ h := ⟨h.1, (List.append_nil past).symm ▸ h.2⟩
  report _ _ := Keeping.emit rfl

/-- The labels of a document have handles that were given out lately, or old ones. -/
def Aged (limit : Nat) (old : Nat → Prop) (document : String) (_ : List Event) (desk : Desk) :
    Prop :=
  limit ≤ desk.plugin.decorations.next ∧
    ∀ label ∈ (displayPart.get desk).pending document, limit ≤ label.handle ∨ old label.handle

theorem drafts_aged (limit : Nat) (old : Nat → Prop) (document : String) :
    overlaySite.Drafts document (Aged limit old document) where
  forget _ _ h := h
  register _ _ h := h
  push _ _ _ h := h
  draw anchor text style past desk h := by
    have hpending := Display.pending_draw document document anchor text style (displayPart.get desk)
    refine ⟨Nat.le_succ_of_le h.1, fun label hlabel => ?_⟩
    change label ∈ (Display.draw document anchor text style
      (displayPart.get desk)).state.pending document at hlabel
    rw [hpending, if_pos rfl, List.mem_append, List.mem_singleton] at hlabel
    rcases hlabel with hold | rfl
    · exact h.2 label hold
    · exact Or.inl h.1
  erase handle past desk h := by
    have hpending := Display.pending_erase document document handle (displayPart.get desk)
    have hnext := Display.next_erase document handle (displayPart.get desk)
    refine ⟨Nat.le_trans h.1 (Nat.le_of_eq hnext.symm), fun label hlabel => ?_⟩
    change label ∈ (Display.erase document handle (displayPart.get desk)).state.pending document
      at hlabel
    rw [hpending, if_pos rfl] at hlabel
    exact h.2 label (List.mem_filter.mp hlabel).1
  report _ _ _ _ h := h

/-- Where a document has no mark, no label of it is old. -/
theorem aged_of_unmarked {limit : Nat} (hnext : limit ≤ desk.plugin.decorations.next)
    (hmarks : desk.marks document = []) : Aged limit (fun _ => False) document [] desk := by
  refine ⟨hnext, fun label hlabel => ?_⟩
  rw [List.map_eq_nil_iff.mp hmarks] at hlabel
  cases hlabel

/-- Retracting the labels of a document takes back no handle. -/
theorem next_retract (document : String) (desk : Desk) :
    desk.plugin.decorations.next ≤
      (Overlay.retract overlaySite document desk).state.plugin.decorations.next :=
  ((drafts_aged desk.plugin.decorations.next (fun _ => True) document).retract [] desk
    ⟨Nat.le_refl _, fun _ _ => Or.inr trivial⟩).1

/-- Where a flush succeeds there is nothing to be rescued. -/
theorem rescue_flush {document : String}
    (hflushed : (overlaySite.canvas.flush document desk).result = .ok ())
    (handler : Fault → Action Desk Unit) (changed : Prop) [Decidable changed] :
    (if changed then Action.rescue (overlaySite.canvas.flush document) handler else pure ()) desk =
      (if changed then overlaySite.canvas.flush document else pure ()) desk := by
  split
  · rw [Action.rescue_of_ok (Action.eq_of_result hflushed)]
    exact (Action.eq_of_result hflushed).symm
  · rfl

/-- Labels drawn with handles that were still to come have the look in force. -/
theorem Stamped.draft (h : Stamped looks desk) (hnumbered : after.Numbered)
    (howned : (overlaySite.sheet Desk.marks after).Owned)
    (haged : Aged desk.plugin.decorations.next (fun _ => False) document [] after)
    {placed : List (Placed Nat)}
    (hsheet : overlaySite.sheet Desk.marks after =
      ((overlaySite.sheet Desk.marks desk).wipe document).append desk.plugin.overlay.options
        document placed) : Stamped looks after := by
  have hoptions : after.plugin.overlay.options = desk.plugin.overlay.options :=
    congrArg Sheet.options hsheet
  refine ⟨hnumbered, howned, fun handle hhandle => ?_, fun name => ?_⟩
  · rw [hoptions]
    exact h.ahead handle (Nat.le_trans haged.1 hhandle)
  · have hmarks : after.marks name = _ := congrFun (congrArg Sheet.marks hsheet) name
    have hlabels : after.plugin.overlay.labels name = _ :=
      congrFun (congrArg Sheet.labels hsheet) name
    by_cases hname : name = document
    · subst hname
      simp only [Sheet.append, Sheet.wipe, if_true, List.nil_append] at hmarks hlabels
      rw [hmarks, hlabels]
      apply List.map_congr_left
      intro label hlabel
      -- A label of the document has a handle that was given out after the labels before it.
      have hmem : desk.plugin.overlay.options.mark label ∈ after.marks name := by
        rw [hmarks]
        exact List.mem_map_of_mem hlabel
      obtain ⟨waiting, hwaiting, hmark⟩ := List.mem_map.mp hmem
      have hhandle : waiting.handle = label.handle := congrArg Mark.handle hmark
      rw [h.ahead label.handle (hhandle ▸ (haged.2 waiting hwaiting).resolve_right id)]
    · simp only [Sheet.append, Sheet.wipe, if_neg hname, List.append_nil] at hmarks hlabels
      rw [hmarks, hlabels]
      exact h.marks name

/-- A document that was wiped off the record is drafted, too. -/
theorem Stamped.wipe (h : Stamped looks desk) (hnumbered : after.Numbered)
    (hnext : desk.plugin.decorations.next ≤ after.plugin.decorations.next)
    (hsheet : overlaySite.sheet Desk.marks after =
      (overlaySite.sheet Desk.marks desk).wipe document) : Stamped looks after := by
  have hmarks : after.marks document = [] := by
    have hwiped := congrFun (congrArg Sheet.marks hsheet) document
    simp only [Sheet.wipe, if_true] at hwiped
    exact hwiped
  have haged : Aged desk.plugin.decorations.next (fun _ => False) document [] after :=
    aged_of_unmarked hnext hmarks
  have hnone := (Sheet.append_nil ((overlaySite.sheet Desk.marks desk).wipe document)
    desk.plugin.overlay.options document).symm
  exact h.draft hnumbered (hsheet ▸ h.owned.wipe document) haged (hsheet.trans hnone)

/-! ## What the operations keep showing -/

/-- Clearing a document keeps everything showing. -/
theorem clear_vivid (hadmits : screen.Admits screen.visible) (document : String) :
    Maintains (Vivid screen sights looks) (Overlay.clear overlaySite document) := by
  intro past desk h
  have hstamped := h.1
  have hunseen := (drafts_unseen _ document).retract [] desk ⟨rfl, by simp⟩
  have hnext := next_retract document desk
  have hcount := Overlay.retract_result overlaySite document desk
  obtain ⟨count, cleared, trace, hretract, hnumbered, hwiped⟩ :=
    willing.retract document hstamped.numbered hstamped.owned
  rw [hretract] at hunseen hnext hcount
  obtain rfl := Except.ok.inj hcount
  obtain ⟨hbuffers, hvisible⟩ := Prod.mk.inj hunseen.1
  have hmarks := congrArg Sheet.marks hwiped
  rw [Overlay.clear, Action.bind_of_ok hretract]
  dsimp only
  rw [← List.append_assoc]
  refine h.flush hadmits (hstamped.wipe hnumbered hnext hwiped) hbuffers hvisible hunseen.2
    document (fun other hother => ?_) _ fun hnone => ⟨?_, ?_⟩
  · exact (congrFun hmarks other).trans (if_neg hother)
  · exact hstamped.owned.marks_eq_nil (List.length_eq_zero_iff.mp (Nat.eq_zero_of_not_pos hnone))
  · exact (congrFun hmarks document).trans (if_pos rfl)

/-- Redrawing a document keeps everything showing. -/
theorem redraw_vivid (hadmits : screen.Admits screen.visible) {shown : View Desk}
    (hfind : ∀ kinds, Leaves outline Event.Unseen (shown.find kinds)) (catalog : Catalog)
    (document : String) (minLines : Rat) :
    Maintains (Vivid screen sights looks)
      (Overlay.redraw overlaySite catalog document shown minLines) := by
  intro past desk h
  have hstamped := h.1
  have hextract : Leaves outline Event.Unseen (Label.extract shown minLines catalog) := fun seen =>
    Overlay.extract_maintains (fun kinds => hfind kinds seen)
      (fun _ _ => Keeping.emit rfl) minLines catalog
  obtain ⟨hwiped, placed, -, hnumbered, howned, hsheet, hrun⟩ :=
    willing.redraw_drafts (fun kinds => rests_of_outline (hfind kinds)) catalog document minLines
      hstamped.numbered hstamped.owned
  set retracted := Overlay.retract overlaySite document desk
  set searched := Label.extract shown minLines catalog retracted.state
  set records := Label.gather shown.document minLines (catalog.kinds shown.language)
    (shown.find (catalog.kinds shown.language) retracted.state).result
  set drawn := Overlay.drawAll overlaySite document records searched.state
  have hunseen : Keeping (fun desk => (desk.bench.screen.buffers, desk.bench.screen.visible))
      Event.Unseen (desk.bench.screen.buffers, desk.bench.screen.visible)
      (retracted.trace ++ searched.trace ++ drawn.trace) drawn.state := by
    have hdrafts := drafts_unseen (desk.bench.screen.buffers, desk.bench.screen.visible) document
    have hretracted := hdrafts.retract [] desk ⟨rfl, by simp⟩
    have hview := hextract.of_view fun seen => (seen.1.buffers, seen.1.visible)
    exact hdrafts.drawAll records _ _ (hview _ _ _ hretracted)
  have haged : Aged desk.plugin.decorations.next (fun _ => False) document [] drawn.state := by
    have hsame := (sheet_of_outline (hextract.state retracted.state)).2.2
    have hmarks : searched.state.marks document = [] :=
      (congrFun (congrArg Sheet.marks hwiped) document).trans (if_pos rfl)
    exact (drafts_aged _ (fun _ => False) document).drawAll records [] searched.state
      (aged_of_unmarked (hsame ▸ next_retract document desk) hmarks)
  obtain ⟨hbuffers, hvisible⟩ := Prod.mk.inj hunseen.1
  have hmarks := congrArg Sheet.marks hsheet
  have hflushed : (overlaySite.canvas.flush document drawn.state).result = .ok () :=
    (Display.given_flush (displayPart.get drawn.state)
      ((hvisible.trans h.2.visible).symm ▸ hadmits) document).1
  have hdone := h.flush hadmits (hstamped.draft hnumbered howned haged hsheet) hbuffers hvisible
    hunseen.2 document (fun other hother => ?_)
    (0 < (desk.plugin.overlay.labels document).length ∨ 0 < placed.length)
    fun hnone => ⟨?_, ?_⟩
  · rw [← rescue_flush hflushed fun fault => Action.report (.repaint document) fault] at hdone
    rw [hrun]
    dsimp only
    rw [← List.append_assoc]
    exact hdone
  · refine (congrFun hmarks other).trans ?_
    simp only [Sheet.append, Sheet.wipe, if_neg hother, List.append_nil]
    rfl
  · rw [not_or] at hnone
    exact hstamped.owned.marks_eq_nil
      (List.length_eq_zero_iff.mp (Nat.eq_zero_of_not_pos hnone.1))
  · rw [not_or] at hnone
    have hplaced := List.length_eq_zero_iff.mp (Nat.eq_zero_of_not_pos hnone.2)
    exact (congrFun hmarks document).trans (by simp [Sheet.append, Sheet.wipe, hplaced])

/-! ## The plugin -/

/-- Listeners, trees and tasks do not matter. -/
theorem deaf_outline : Forest.Deaf grovePart outline := fun _ _ _ _ => rfl

/-- Nobody sees that the settings are read. -/
theorem minLines_unseen : Leaves outline Event.Unseen boardSite.minLines := by
  intro seen
  refine .bind (.bind (.gets _) fun desk => ?_) fun _ => .pure _
  exact Keeping.zoom (fun _ _ _ _ => rfl)
    ((SettingsStore.load_leaves _).mono fun _ => Event.Spoken.unseen)

/-- Nobody sees that a tree is searched. -/
theorem find_unseen (entry : Entry Nat) (document : Document) (kinds : List Text) :
    Leaves outline Event.Unseen ((Forest.viewOf grovePart entry document).find kinds) :=
  fun _ => Keeping.zoom (fun _ _ _ _ => rfl)
    ((PatternCache.find_leaves _ _ _ _).mono fun _ => Event.OfSearch.unseen)

/-- Refreshing a document keeps everything showing. -/
theorem refresh_vivid (hadmits : screen.Admits screen.visible) (document : String) :
    Maintains (Vivid screen sights looks) (Switchboard.refresh boardSite document) := by
  intro past desk h
  rw [Switchboard.refresh, Action.bind_of_quiet (view?_apply document desk)]
  cases desk.plugin.forest.entries.get? document with
  | none => exact Maintains.pure () past desk h
  | some entry =>
    have hredraw : Maintains (Vivid screen sights looks) (do
        let minLines ← boardSite.minLines
        let catalog ← Action.gets boardSite.catalog
        Overlay.redraw boardSite.overlay catalog document
          (Forest.viewOf grovePart entry (read desk entry.source)) minLines) := by
      refine .bind (vivid_of_leaves minLines_unseen) fun minLines => .bind (.gets _) fun catalog => ?_
      exact redraw_vivid hadmits (find_unseen entry _) catalog document minLines
    exact hredraw past desk h

/-- Telling the listeners keeps everything showing. -/
theorem announce_vivid (hadmits : screen.Admits screen.visible) (trigger : Trigger)
    (document : String) :
    Maintains (Vivid screen sights looks) (Forest.announce ground trigger document) := by
  refine .bind (.gets _) fun grove => .each fun registration _ => ?_
  refine .rescue (refresh_vivid hadmits _) fun fault => vivid_of_leaves fun _ => ?_
  exact Keeping.emit rfl

/-- So does switching labels on. -/
theorem enable_vivid (hadmits : screen.Admits screen.visible) (document : String) :
    Maintains (Vivid screen sights looks) (Switchboard.enable boardSite document) := by
  have hsubscribe (trigger : Trigger) :
      Maintains (Vivid screen sights looks) (boardSite.feed.subscribe trigger document) :=
    vivid_of_leaves (Forest.register_leaves deaf_outline trigger document _)
  refine .bind (.gets _) fun board => .ite (.pure ()) ?_
  refine .bind (hsubscribe .parsed) fun parsed => .bind (hsubscribe .changed) fun changed => ?_
  refine .bind (vivid_of_leaves fun _ => Keeping.adjust (fun _ _ => rfl) _) fun _ => ?_
  refine .bind (vivid_of_leaves fun _ => Keeping.emit rfl) fun _ => ?_
  exact refresh_vivid hadmits document

/-- So does switching them off. -/
theorem disable_vivid (hadmits : screen.Admits screen.visible) (document : String) :
    Maintains (Vivid screen sights looks) (Switchboard.disable boardSite document) := by
  have hunsubscribe (trigger : Trigger) (number : Nat) :
      Maintains (Vivid screen sights looks) (boardSite.feed.unsubscribe trigger document number) :=
    vivid_of_leaves (Forest.unregister_leaves deaf_outline trigger document number)
  refine .bind (.gets _) fun board => ?_
  cases board.wires.get? document with
  | none => exact .pure ()
  | some wires =>
    refine .bind (vivid_of_leaves fun _ => Keeping.adjust (fun _ _ => rfl) _) fun _ => ?_
    refine .bind (hunsubscribe .parsed _) fun _ => .bind (hunsubscribe .changed _) fun _ => ?_
    refine .bind (clear_vivid hadmits document) fun _ => vivid_of_leaves fun _ => ?_
    exact Keeping.emit rfl

/-- Editors that come into view are painted if the labels of their documents are on. -/
theorem given_editorsShown (desk : Desk) {editors : List Editor}
    (hadmits : desk.bench.screen.Admits editors) :
    (editorsShown editors desk).state.outline = desk.outline ∧
      ∀ editor ∈ editors, given editor.name (editorsShown editors desk).trace =
        if desk.plugin.board.isOn (desk.bench.screen.shownIn editor).uri then
          some ((displayPart.get desk).decorationsFor editor)
        else none := by
  refine (fun hdone => ⟨hdone.2.1.1, hdone.2.2.1⟩) (given_each
    (fun after => after.outline = desk.outline ∧ after.plugin.board = desk.plugin.board)
    (fun editor => if desk.plugin.board.isOn (desk.bench.screen.shownIn editor).uri then
      some ((displayPart.get desk).decorationsFor editor) else none)
    hadmits.names (fun editor heditor after hafter => ?_) ⟨rfl, rfl⟩)
  obtain ⟨houtline, hboard⟩ := hafter
  have haccepts := hadmits.accepts editor heditor
  have hcontents : (displayPart.get after).contents = (displayPart.get desk).contents :=
    congrArg Prod.fst houtline
  have hshown : after.bench.screen.shownIn editor = desk.bench.screen.shownIn editor :=
    Screen.shownIn_congr (congrArg Display.Contents.buffers hcontents) editor
  rw [Action.bind_of_quiet (Action.get_apply _), Screen.bufferOf_shownIn haccepts.2,
    Action.bind_of_quiet (Action.ofExcept_apply _ _), hboard, hshown]
  split
  · have hpainted := (Display.paint_contents editor).state (displayPart.get after)
    refine ⟨Display.paint_result haccepts (displayPart.get after), ⟨?_, hboard⟩, fun name => ?_⟩
    · rw [← houtline]
      exact congrArg (·, after.plugin.overlay) hpainted
    · rw [← Display.decorationsFor_congr hcontents]
      exact Display.given_paint haccepts (displayPart.get after) name
  · exact ⟨rfl, ⟨houtline, hboard⟩, fun name => by simp [given]⟩

end Desk

end ClosingLabels
