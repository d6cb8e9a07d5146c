import ClosingLabels.Proofs.Painting

/-!
# The screen shows what is on record

Labels are switched on and off, trees and settings change, texts are edited, and editors come
and go, in any order. Editors are painted only when something was drawn or erased in their
document, or when they come into view. Still, whatever was done, every visible editor was given
last one decoration for each label on record of its document, in the look that was in force
when the label was drawn.

To say so, a run is watched: beside the desk it is noted what each editor was given last, with
the text its document had then, and which options were in force when each handle was given out.
-/

namespace ClosingLabels

open ClosingLabels.Action (Maintains)

/-- Writing leaves the names of all buffers. -/
theorem Screen.uri_write (screen : Screen) (written number : Nat) (text : Text) :
    ((screen.write written text).buffer number).uri = (screen.buffer number).uri := by
  rw [buffer, buffer, write, List.getElem?_modify]
  cases screen.buffers[number]? with
  | none => rfl
  | some found =>
    by_cases hsame : written = number
    · simp [hsame]
    · simp [hsame]

namespace Desk

open Switchboard

/-! ## Moves -/

/-- A desk whose trees, settings, tasks and documents are those of another one. The screen, the
catalog, the labels and the listeners stay. -/
def amid (desk other : Desk) : Desk where
  bench := { other.bench with screen := desk.bench.screen }
  plugin := { desk.plugin with
    grammars := other.plugin.grammars
    forest := { other.plugin.forest with audience := desk.plugin.forest.audience } }
  tasks := other.tasks
  requests := other.requests

/-- Something done to the labels of a plugin, or to what they are made from. -/
inductive Move where
  /-- Labels of a document are switched on. -/
  | enable (document : String)
  /-- Labels of a document are switched off. -/
  | disable (document : String)
  /-- Labels of a document are switched over. -/
  | toggle (document : String)
  /-- All documents with labels are redrawn. -/
  | redrawAll
  /-- All labels are switched off. -/
  | dispose
  /-- The listeners to a document are told. -/
  | announce (trigger : Trigger) (document : String)
  /-- Labels are to be drawn otherwise from now on. -/
  | setOptions (options : OverlayOptions)
  /-- The catalog is made anew. -/
  | reload (overrides : Table Text (List Text)) (grammars : Table Text String)
  /-- The text of a buffer changes. -/
  | write (buffer : Nat) (text : Text)
  /-- The editor opens a document. -/
  | add (uri : String) (document : Document)
  /-- Trees, settings, tasks and documents change. -/
  | surround (other : Desk)
  /-- Other editors become visible. -/
  | reveal (editors : List Editor)

namespace Move

/-- Makes a move. -/
def act : Move → Action Desk Unit
  | .enable document => Switchboard.enable boardSite document
  | .disable document => Switchboard.disable boardSite document
  | .toggle document => do
    let _ ← Switchboard.toggle boardSite document
  | .redrawAll => Switchboard.redrawAll boardSite
  | .dispose => Switchboard.dispose boardSite
  | .announce trigger document => Forest.announce ground trigger document
  | .setOptions options => Overlay.setOptions overlaySite options
  | .reload overrides grammars => Catalog.reloadIn catalogPart overrides grammars
  | .write buffer text => Action.modify fun desk =>
    { desk with bench := { desk.bench with screen := desk.bench.screen.write buffer text } }
  | .add uri document => Action.modify fun desk =>
    { desk with bench := desk.bench.openDocument uri document }
  | .surround other => Action.modify (·.amid other)
  | .reveal editors => do
    Action.modify fun desk =>
      { desk with bench := { desk.bench with screen := { desk.bench.screen with visible := editors } } }
    editorsShown editors

/-- Editors that become visible can be shown together. -/
def Fits (desk : Desk) : Move → Prop
  | .reveal editors => desk.bench.screen.Admits editors
  | _ => True

instance (desk : Desk) : (move : Move) → Decidable (move.Fits desk)
  | .reveal editors => inferInstanceAs (Decidable (desk.bench.screen.Admits editors))
  | .enable _ | .disable _ | .toggle _ | .redrawAll | .dispose | .announce .. | .setOptions _
  | .reload .. | .write .. | .add .. | .surround _ => .isTrue trivial

end Move

/-- Every label on record has a handle that was given out. -/
theorem lt_next {desk : Desk} (hnumbered : desk.Numbered)
    (howned : (overlaySite.sheet Desk.marks desk).Owned) {document : String} {label : Placed Nat}
    (hlabel : label ∈ desk.plugin.overlay.labels document) :
    label.handle < desk.plugin.decorations.next := by
  have hhandle : label.handle ∈ (desk.marks document).map Mark.handle :=
    (howned.handles document).symm ▸ List.mem_map_of_mem hlabel
  obtain ⟨mark, hmark, heq⟩ := List.mem_map.mp hhandle
  obtain ⟨waiting, hwaiting, rfl⟩ := List.mem_map.mp hmark
  exact heq ▸ hnumbered document waiting hwaiting

/-- Editors can still be shown when there are more buffers. -/
theorem admits_of_le {screen other : Screen} {editors : List Editor} (h : screen.Admits editors)
    (hlength : screen.buffers.length ≤ other.buffers.length) : other.Admits editors :=
  ⟨h.names, h.accepts, fun editor heditor number hnumber =>
    Nat.lt_of_lt_of_le (h.present editor heditor number hnumber) hlength⟩

/-! ## Watching a run -/

/-- A desk with what was noted of it: what each editor was given last, and the options that were in
force when each handle was given out. -/
structure Watch where
  desk : Desk
  sights : Editor → Sight
  looks : Nat → OverlayOptions

namespace Watch

/-- The plugin was just activated, and no editor was given anything. -/
def start (bench : Workbench) (catalog : Catalog) (options : OverlayOptions) : Watch where
  desk := activated bench catalog options
  sights editor := ⟨[], (bench.screen.shownIn editor).document⟩
  looks _ := options

/-- What is seen when a move begins: an editor that comes into view shows nothing. -/
def begun (watch : Watch) : Move → Editor → Sight
  | .reveal _, editor =>
    if editor ∈ watch.desk.bench.screen.visible then watch.sights editor
    else ⟨[], (watch.desk.bench.screen.shownIn editor).document⟩
  | _, editor => watch.sights editor

/-- Watches a move. -/
def next (watch : Watch) (move : Move) : Watch :=
  let done := move.act watch.desk
  { desk := done.state
    sights := fun editor => (watch.begun move editor).after
      (done.state.bench.screen.shownIn editor).document (given editor.name done.trace)
    looks := fun handle =>
      if watch.desk.plugin.decorations.next ≤ handle ∧
          handle < done.state.plugin.decorations.next then
        watch.desk.plugin.overlay.options
      else watch.looks handle }

/-- Watches moves, one after another. -/
def after (watch : Watch) (moves : List Move) : Watch := moves.foldl next watch

/-- Each move fits when its turn comes. -/
def Fits : Watch → List Move → Prop
  | _, [] => True
  | watch, move :: rest => move.Fits watch.desk ∧ Fits (watch.next move) rest

instance decidableFits : (watch : Watch) → (moves : List Move) → Decidable (watch.Fits moves)
  | _, [] => .isTrue trivial
  | watch, move :: rest =>
    have := decidableFits (watch.next move) rest
    inferInstanceAs (Decidable (_ ∧ _))

/-- The desk is in order, every mark stands for a label in the look of its handle, and every
visible editor shows the marks of its document. -/
structure Faithful (watch : Watch) : Prop where
  ordered : Ordered (fun _ => False) watch.desk.stage [] watch.desk
  marks : ∀ document, watch.desk.marks document =
    (watch.desk.plugin.overlay.labels document).map fun label => (watch.looks label.handle).mark label
  admits : watch.desk.bench.screen.Admits watch.desk.bench.screen.visible
  shows : ∀ editor ∈ watch.desk.bench.screen.visible,
    (watch.sights editor).Shows (watch.desk.marks (watch.desk.bench.screen.shownIn editor).uri)

variable {watch : Watch} {move : Move}

/-- Where no handle is given out, nothing is noted of handles. -/
theorem looks_next (h : (move.act watch.desk).state.plugin.decorations.next =
    watch.desk.plugin.decorations.next) : (watch.next move).looks = watch.looks := by
  funext handle
  rw [next, h]
  exact if_neg fun hboth => Nat.not_le_of_lt hboth.2 hboth.1

/-- What an editor is seen to show after a move. -/
theorem sights_next (editor : Editor) : (watch.next move).sights editor =
    (watch.begun move editor).after
      ((watch.next move).desk.bench.screen.shownIn editor).document
      (given editor.name (move.act watch.desk).trace) := rfl

namespace Faithful

/-- Marks and labels are in step with looks that are the present ones for handles to come. -/
theorem stamped (h : watch.Faithful) : Stamped (fun handle =>
    if watch.desk.plugin.decorations.next ≤ handle then watch.desk.plugin.overlay.options
    else watch.looks handle) watch.desk := by
  obtain ⟨-, ⟨hnumbered, howned, -⟩, -, -⟩ := h.ordered
  refine ⟨hnumbered, howned, fun handle hhandle => if_pos hhandle, fun document => ?_⟩
  rw [h.marks document]
  apply List.map_congr_left
  intro label hlabel
  have hhandle := lt_next hnumbered howned hlabel
  rw [if_neg (Nat.not_le_of_lt hhandle)]

/-- A move that keeps order, and marks and sights in step, keeps the watch faithful. -/
theorem act (h : watch.Faithful) (hbegun : watch.begun move = watch.sights)
    (hordered : Maintains (Ordered (fun _ => False) watch.desk.stage) move.act)
    (hvivid : ∀ {screen sights looks}, screen.Admits screen.visible →
      Maintains (Vivid screen sights looks) move.act) :
    (watch.next move).Faithful := by
  obtain ⟨hsound, hgood, habsent, hstage⟩ := hordered [] watch.desk h.ordered
  have hpainted : Painted watch.desk.bench.screen watch.sights (fun _ => False) [] watch.desk :=
    ⟨rfl, rfl, fun editor heditor _ => h.shows editor heditor⟩
  obtain ⟨hstamped, hseen⟩ := hvivid h.admits [] watch.desk ⟨h.stamped, hpainted⟩
  rw [List.nil_append] at hseen
  have hshown (editor : Editor) : (move.act watch.desk).state.bench.screen.shownIn editor =
      watch.desk.bench.screen.shownIn editor := Screen.shownIn_congr hseen.buffers editor
  refine ⟨⟨hsound, hgood, habsent, rfl⟩, fun document => ?_, ?_, fun editor heditor => ?_⟩
  · refine (hstamped.marks document).trans (List.map_congr_left fun label hlabel => ?_)
    have hhandle := lt_next hstamped.numbered hstamped.owned hlabel
    simp only [Watch.next, hhandle, and_true]
  · exact hseen.visible.symm ▸ admits_of_le h.admits (Nat.le_of_eq (congrArg _ hseen.buffers.symm))
  · have hmem : editor ∈ watch.desk.bench.screen.visible := hseen.visible ▸ heditor
    simp only [Watch.next, hbegun, hshown]
    exact hseen.shows editor hmem id

/-- A move that nobody sees keeps the watch faithful if it changes neither labels nor decorations
nor the visible editors and renames no buffer. -/
theorem still (h : watch.Faithful) (hbegun : watch.begun move = watch.sights)
    (hunseen : ∀ event ∈ (move.act watch.desk).trace, event.Unseen) {after : Desk}
    (hafter : (watch.next move).desk = after)
    (hordered : Ordered (fun _ => False) after.stage [] after)
    (hdecorations : after.plugin.decorations = watch.desk.plugin.decorations)
    (hlabels : after.plugin.overlay.labels = watch.desk.plugin.overlay.labels)
    (hvisible : after.bench.screen.visible = watch.desk.bench.screen.visible)
    (hlength : watch.desk.bench.screen.buffers.length ≤ after.bench.screen.buffers.length)
    (huri : ∀ number < watch.desk.bench.screen.buffers.length,
      (after.bench.screen.buffer number).uri = (watch.desk.bench.screen.buffer number).uri) :
    (watch.next move).Faithful := by
  subst hafter
  have hmarks : (watch.next move).desk.marks = watch.desk.marks := by
    funext document
    exact congrArg (fun decorations : Decorations =>
      ((decorations.documents.get? document).getD []).map Pending.mark) hdecorations
  refine ⟨hordered, fun document => ?_, ?_, fun editor heditor => ?_⟩
  · rw [looks_next (congrArg Decorations.next hdecorations), hmarks, hlabels]
    exact h.marks document
  · rw [hvisible]
    exact admits_of_le h.admits hlength
  · rw [hvisible] at heditor
    have hshown : ((watch.next move).desk.bench.screen.shownIn editor).uri =
        (watch.desk.bench.screen.shownIn editor).uri := by
      obtain ⟨number, hnumber⟩ := Option.isSome_iff_exists.mp (h.admits.accepts editor heditor).2
      have hlt := h.admits.present editor heditor number hnumber
      simp only [Screen.shownIn, hnumber, Option.map_some, Option.getD_some]
      exact huri number hlt
    rw [sights_next, hbegun, given_of_unseen hunseen, hmarks, hshown]
    exact h.shows editor heditor

/-- Editors that come into view are painted if the labels of their documents are on, and otherwise
there is nothing to be shown. -/
theorem reveal (h : watch.Faithful) {editors : List Editor}
    (hadmits : watch.desk.bench.screen.Admits editors) :
    (watch.next (.reveal editors)).Faithful := by
  set ready : Desk := { watch.desk with
    bench := { watch.desk.bench with
      screen := { watch.desk.bench.screen with visible := editors } } }
  have hready : Ordered (fun _ => False) ready.stage [] ready :=
    ⟨h.ordered.1, h.ordered.2.1, h.ordered.2.2.1, rfl⟩
  obtain ⟨hsound, hgood, habsent, hstage⟩ := editorsShown_ordered editors [] ready hready
  have hfits : ready.bench.screen.Admits editors := admits_of_le hadmits (Nat.le_refl _)
  obtain ⟨houtline, hgiven⟩ := given_editorsShown ready hfits
  have hdesk : (watch.next (.reveal editors)).desk = (editorsShown editors ready).state := rfl
  rw [← hdesk] at hsound hgood habsent houtline
  obtain ⟨hcontents, hoverlay⟩ := Prod.mk.inj houtline
  have hmarks : (watch.next (.reveal editors)).desk.marks = ready.marks :=
    marks_of_contents hcontents
  have hbuffers : (watch.next (.reveal editors)).desk.bench.screen.buffers =
      watch.desk.bench.screen.buffers := congrArg Display.Contents.buffers hcontents
  have hvisible : (watch.next (.reveal editors)).desk.bench.screen.visible = editors :=
    congrArg Display.Contents.visible hcontents
  refine ⟨⟨hsound, hgood, fun _ hclosed => hclosed.elim, rfl⟩, fun document => ?_, ?_,
    fun editor heditor => ?_⟩
  · rw [looks_next (congrArg Display.Contents.next hcontents), hmarks, hoverlay]
    exact h.marks document
  · rw [hvisible]
    exact admits_of_le hadmits (Nat.le_of_eq (congrArg List.length hbuffers.symm))
  · rw [hvisible] at heditor
    have hsame : (watch.next (.reveal editors)).desk.bench.screen.shownIn editor =
        ready.bench.screen.shownIn editor := Screen.shownIn_congr hbuffers editor
    have hpainted : given editor.name ((Move.reveal editors).act watch.desk).trace = _ :=
      hgiven editor heditor
    rw [sights_next, hmarks, hsame, hpainted]
    cases hon : ready.plugin.board.isOn (ready.bench.screen.shownIn editor).uri with
    | true =>
      rw [if_pos rfl]
      exact decorationsFor_eq ready editor
    | false =>
      rw [if_neg (by simp)]
      have hlabels := (Stand.Sound.labels_of_off hready.1 hon).2
      have hnone : ready.marks (ready.bench.screen.shownIn editor).uri = [] :=
        hready.2.1.2.1.marks_eq_nil hlabels
      change (watch.begun (.reveal editors) editor).Shows _
      rw [Watch.begun]
      split
      · next hbefore => exact h.shows editor hbefore
      · rw [hnone]
        rfl

/-- Every move that fits keeps the watch faithful. -/
theorem next (h : watch.Faithful) (hfits : move.Fits watch.desk) : (watch.next move).Faithful := by
  obtain ⟨hsound, hgood, -, -⟩ := h.ordered
  cases move with
  | enable document =>
    exact h.act rfl (enable_ordered id) fun hadmits => enable_vivid hadmits document
  | disable document =>
    exact h.act rfl (disable_ordered document) fun hadmits => disable_vivid hadmits document
  | toggle document =>
    refine h.act rfl (.bind (.bind (.gets _) fun board => .ite ?_ ?_) fun _ => .pure ())
      fun hadmits => .bind (.bind (.gets _) fun board => .ite ?_ ?_) fun _ => .pure ()
    · exact .bind (disable_ordered document) fun _ => .pure _
    · exact .bind (enable_ordered id) fun _ => .pure _
    · exact .bind (disable_vivid hadmits document) fun _ => .pure _
    · exact .bind (enable_vivid hadmits document) fun _ => .pure _
  | redrawAll =>
    refine h.act rfl redrawAll_ordered fun hadmits => .bind (.gets _) fun board => ?_
    exact .each fun document _ => refresh_vivid hadmits document
  | dispose =>
    refine h.act rfl (.bind (.gets _) fun board => ?_)
      fun hadmits => .bind (.gets _) fun board => ?_
    · exact .each fun document _ => disable_ordered document
    · exact .each fun document _ => disable_vivid hadmits document
  | announce trigger document =>
    exact h.act rfl (announce_ordered trigger document) fun hadmits =>
      announce_vivid hadmits trigger document
  | setOptions options =>
    exact h.still rfl (by simp [Move.act, Overlay.setOptions]) rfl
      (setOptions_ordered options [] watch.desk h.ordered) rfl rfl rfl (Nat.le_refl _)
      fun _ _ => rfl
  | reload overrides grammars =>
    have hunseen : ∀ event ∈ ((Move.reload overrides grammars).act watch.desk).trace,
        event.Unseen := by
      intro event hevent
      rw [List.mem_singleton.mp hevent]
      rfl
    exact h.still rfl hunseen rfl ⟨hsound, hgood, fun _ hclosed => hclosed.elim, rfl⟩ rfl rfl rfl
      (Nat.le_refl _) fun _ _ => rfl
  | write buffer text =>
    exact h.still rfl (by simp [Move.act]) rfl ⟨hsound, hgood, fun _ hclosed => hclosed.elim, rfl⟩
      rfl rfl rfl (Nat.le_of_eq (List.length_modify _ _ _).symm) fun number _ =>
        Screen.uri_write watch.desk.bench.screen buffer number text
  | add uri document =>
    refine h.still rfl (by simp [Move.act]) rfl ⟨hsound, hgood, fun _ hclosed => hclosed.elim, rfl⟩
      rfl rfl rfl ?_ fun number hnumber => ?_
    · change _ ≤ (watch.desk.bench.screen.buffers ++ [Buffer.mk uri document]).length
      rw [List.length_append]
      exact Nat.le_add_right _ _
    · have hsame : (watch.desk.bench.screen.buffers ++ [Buffer.mk uri document])[number]? =
          watch.desk.bench.screen.buffers[number]? := List.getElem?_append_left hnumber
      exact congrArg (fun found : Option Buffer => (found.getD ⟨"", ⟨[], ""⟩⟩).uri) hsame
  | surround other =>
    have hheard : hearing (watch.desk.amid other) = hearing watch.desk := by
      funext trigger
      cases trigger <;> rfl
    have hstand : boardSite.Seen hearing Stand.Sound [] (watch.desk.amid other) := by
      rw [Site.Seen, Site.stand, hheard]
      exact hsound
    exact h.still rfl (by simp [Move.act]) rfl ⟨hstand, hgood, fun _ hclosed => hclosed.elim, rfl⟩
      rfl rfl rfl (Nat.le_refl _) fun _ _ => rfl
  | reveal editors => exact h.reveal hfits

end Faithful

/-- At first there is nothing to be shown. -/
theorem start_faithful {bench : Workbench} (h : bench.screen.Admits bench.screen.visible)
    (catalog : Catalog) (options : OverlayOptions) : (start bench catalog options).Faithful where
  ordered := activated_ordered bench catalog options
  marks _ := rfl
  admits := h
  shows _ _ := rfl

/-- A watch stays faithful as long as each move fits. -/
theorem Faithful.after {watch : Watch} (h : watch.Faithful) {moves : List Move}
    (hfits : watch.Fits moves) : (watch.after moves).Faithful := by
  induction moves generalizing watch with
  | nil => exact h
  | cons move rest ih => exact ih (h.next hfits.1) hfits.2

end Watch

/-- Every visible editor was given last, in order, one decoration for each label on record of its
document and no other: an empty range where the label stands in the text that the document had when
the editor was given it, with the marker and the style that were in force when the label was
drawn. -/
def Watch.ShowsRecord (watch : Watch) : Prop :=
  ∀ editor ∈ watch.desk.bench.screen.visible,
    let document := (watch.desk.bench.screen.shownIn editor).uri
    let sight := watch.sights editor
    sight.decorations = (watch.desk.plugin.overlay.labels document).map fun label =>
      let place := sight.document.positionOf label.anchor
      let look := watch.looks label.handle
      ⟨place, place, look.marker ++ label.text, look.style⟩

/-- **Showing.** Labels are switched on and off, redrawn and taken down, options and catalog change,
texts are edited, documents, trees and settings change in any way, and editors come and go, in any
order. Then every visible editor shows exactly what is on record for its document. -/
theorem screen_shows_record (bench : Workbench) (catalog : Catalog) (options : OverlayOptions)
    (moves : List Move) (hstart : bench.screen.Admits bench.screen.visible)
    (hfits : (Watch.start bench catalog options).Fits moves) :
    ((Watch.start bench catalog options).after moves).ShowsRecord := by
  intro editor heditor document sight
  have hnow := (Watch.start_faithful hstart catalog options).after hfits
  have hshows : sight.decorations = _ := hnow.shows editor heditor
  rw [hshows, hnow.marks, List.map_map]
  rfl

/-- Two editors show one document and a third another one. The text is written to without a redraw
before the second editor comes into view; then the options change and a second document gets its
labels. -/
theorem screen_shows_record_in_three_editors :
    let text : Text := "fn\x7b\n\x7d"
    let language : Language := ⟨"l", ["fn"], false⟩
    let entry (number : Nat) : Entry Nat :=
      ⟨⟨number, some language, text, Braces.parse text⟩, language, number, "p", []⟩
    let other : Desk :=
      { bench := { store := { remembered := some (none, { minLines := 0 }) } }
        plugin := {
          catalog := Catalog.make .empty .empty .empty
          forest := { entries := .ofRows [("a", entry 0), ("b", entry 1)] } } }
    let bench := (editorWith ["a"]).openDocument "b" ⟨text, "p"⟩
    let moves : List Move := [.surround other, .write 0 text, .reveal [⟨"e", some 0, none⟩],
      .enable "a", .write 0 ("\n" ++ text), .reveal [⟨"e", some 0, none⟩, ⟨"f", some 0, none⟩,
        ⟨"g", some 1, none⟩], .setOptions { marker := "> " }, .toggle "b"]
    let catalog := Catalog.make (.ofRows [("p", ["fn"])]) .empty .empty
    let now := (Watch.start bench catalog {}).after moves
    bench.screen.Admits bench.screen.visible ∧ (Watch.start bench catalog {}).Fits moves ∧
    now.ShowsRecord ∧
    (∀ name ∈ ["e", "f"], (now.sights ⟨name, some 0, none⟩).decorations =
      [⟨⟨2, 0⟩, ⟨2, 0⟩, "  ¤ fn\x7b", .standard⟩]) ∧
    (now.sights ⟨"g", some 1, none⟩).decorations =
      [⟨⟨1, 1⟩, ⟨1, 1⟩, "> fn\x7b", .standard⟩] := by
  intro text language entry other bench moves catalog now
  have hstart : bench.screen.Admits bench.screen.visible := by decide +kernel
  have hfits : (Watch.start bench catalog {}).Fits moves := by decide +kernel
  refine ⟨hstart, hfits, screen_shows_record bench catalog {} moves hstart hfits, ?_, ?_⟩
  · decide +kernel
  · decide +kernel

end Desk

end ClosingLabels
