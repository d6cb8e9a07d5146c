import ClosingLabels.Proofs.Refreshing
import ClosingLabels.Proofs.Wiring

/-!
# Editors that refuse

Painting an editor fails when the editor has no document or refuses its decorations. Editors
are painted one after another, so painting stops at the first that refuses, and fails as that
one does. Whether an editor refuses depends on the screen alone, not on what there is to show.
A document with labels cannot be cleared, or switched off, while one of its editors refuses.
-/

namespace ClosingLabels

open ClosingLabels.Action (Leads resultOf)

/-- The editor that an event gives decorations to, if it does. -/
def Event.painted? : Event → Option String
  | .decorated editor _ _ => some editor
  | _ => none

/-- An event that no editor sees anything of. -/
def Event.Unseen (event : Event) : Prop := event.painted? = none

theorem Event.Spoken.unseen {event : Event} (h : event.Spoken) : event.Unseen := by
  cases event <;> first | rfl | cases h

theorem Event.OfSearch.unseen {event : Event} (h : event.OfSearch) : event.Unseen := by
  cases event <;> first | rfl | cases h

/-- An editor that has a document and takes decorations. -/
def Editor.Accepts (editor : Editor) : Prop := editor.failure = none ∧ editor.buffer.isSome = true

instance (editor : Editor) : Decidable editor.Accepts :=
  inferInstanceAs (Decidable (_ ∧ _))

namespace Screen

/-- Documents are shown in editors that take decorations only. -/
def Accepting (screen : Screen) : Prop := ∀ editor ∈ screen.visible, editor.Accepts

instance (screen : Screen) : Decidable screen.Accepting :=
  inferInstanceAs (Decidable (∀ editor ∈ screen.visible, editor.Accepts))

/-- The buffer that an editor shows. One without a buffer counts as showing an empty one. -/
def shownIn (screen : Screen) (editor : Editor) : Buffer :=
  (editor.buffer.map screen.buffer).getD ⟨"", ⟨[], ""⟩⟩

theorem shownIn_congr {screen other : Screen} (h : screen.buffers = other.buffers)
    (editor : Editor) : screen.shownIn editor = other.shownIn editor := by
  have hbuffer : screen.buffer = other.buffer := by
    funext number
    rw [buffer, buffer, h]
  rw [shownIn, shownIn, hbuffer]

theorem bufferOf_shownIn {editor : Editor} (h : editor.buffer.isSome = true) (screen : Screen) :
    screen.bufferOf editor.buffer = .ok (screen.shownIn editor) := by
  obtain ⟨number, hnumber⟩ := Option.isSome_iff_exists.mp h
  rw [shownIn, hnumber]
  rfl

/-- Why an editor cannot be painted along with those of some documents: it has no document, or it
shows one of those and refuses decorations. -/
def refusal? (screen : Screen) (wanted : String → Bool) (editor : Editor) : Option Fault :=
  if editor.buffer.isNone then some .missingDocument
  else if wanted (screen.shownIn editor).uri then editor.failure.map .host
  else none

theorem refusal?_congr {screen other : Screen} (h : screen.buffers = other.buffers) :
    screen.refusal? = other.refusal? := by
  funext wanted editor
  rw [refusal?, refusal?, shownIn_congr h]

theorem refusal?_of_accepts {editor : Editor} (h : editor.Accepts) (screen : Screen)
    (wanted : String → Bool) : screen.refusal? wanted editor = none := by
  simp [refusal?, Option.isNone_eq_false_iff.mpr h.2, h.1]

/-- An editor of a document that is wanted refuses on every screen alike. -/
theorem refusal?_of_wanted {screen : Screen} {wanted : String → Bool} {editor : Editor}
    (h : wanted (screen.shownIn editor).uri = true) (other : Screen) :
    screen.refusal? wanted editor = other.refusal? (fun _ => true) editor := by
  simp [refusal?, h]

/-- The editors that are painted when those of some documents are to be: one after another, up to
the first that refuses. -/
def reached (screen : Screen) (wanted : String → Bool) (editors : List Editor) : List String :=
  (editors.takeWhile fun editor => (screen.refusal? wanted editor).isNone).flatMap fun editor =>
    if wanted (screen.shownIn editor).uri then [editor.name] else []

/-- Why the editors of a document cannot all be painted. -/
def flushFault? (screen : Screen) (document : String) : Option Fault :=
  screen.visible.findSome? (screen.refusal? (· = document))

theorem flushFault?_congr {screen other : Screen} (hbuffers : screen.buffers = other.buffers)
    (hvisible : screen.visible = other.visible) : screen.flushFault? = other.flushFault? := by
  funext document
  rw [flushFault?, flushFault?, hvisible, refusal?_congr hbuffers]

theorem flushFault?_of_accepting {screen : Screen} (h : screen.Accepting) (document : String) :
    screen.flushFault? document = none :=
  List.findSome?_eq_none_iff.mpr fun editor heditor => refusal?_of_accepts (h editor heditor) _ _

end Screen

namespace Display

/-- Nobody sees that the shared type is made. -/
theorem sharedType_apply (display : Display) :
    ∃ type after making, sharedType display = ⟨.ok type, after, making⟩ ∧
      after.contents = display.contents ∧ ∀ event ∈ making, event.Unseen := by
  rw [sharedType, Action.bind_of_quiet (Action.get_apply _)]
  cases display.decorations.type with
  | some number => exact ⟨number, display, [], rfl, rfl, by simp⟩
  | none =>
    refine ⟨_, _, _, rfl, rfl, fun event hevent => ?_⟩
    have hmade : event = .decorationTypeMade (display.screen.types + 1) ∨
        event = .log .decorationTypeMade := by
      simpa [Screen.newType, Action.bind_apply, screenPart] using hevent
    rcases hmade with rfl | rfl <;> rfl

/-- Painting an editor fails as the editor refuses, and otherwise gives it decorations. -/
theorem paint_spec (editor : Editor) (display : Display) :
    let refusal := display.screen.refusal? (fun _ => true) editor
    let done := paint editor display
    done.result = resultOf refusal ∧
      done.trace.filterMap Event.painted? = if refusal.isNone then [editor.name] else [] := by
  obtain ⟨type, after, making, hshared, hcontents, hunseen⟩ := sharedType_apply display
  have hmaking : making.filterMap Event.painted? = [] := List.filterMap_eq_nil_iff.mpr hunseen
  dsimp only
  rw [paint, Action.bind_of_ok hshared, Action.bind_of_quiet (Action.get_apply _)]
  cases hbuffer : editor.buffer with
  | none =>
    have hmissing : Action.ofExcept (after.screen.bufferOf none) after =
        ⟨.error .missingDocument, after, []⟩ := rfl
    rw [Action.bind_of_error hmissing]
    simp [Screen.refusal?, hbuffer, hmaking, resultOf]
  | some number =>
    have hfound : Action.ofExcept (after.screen.bufferOf (some number)) after =
        ⟨.ok (after.screen.buffer number), after, []⟩ := rfl
    rw [Action.bind_of_quiet hfound]
    cases hfailure : editor.failure with
    | none =>
      simp [Screen.refusal?, Screen.decorate, hbuffer, hfailure, hmaking, resultOf, Event.painted?]
    | some message =>
      simp [Screen.refusal?, Screen.decorate, hbuffer, hfailure, hmaking, resultOf, Event.painted?,
        Action.bind_apply]

/-- An editor that takes decorations is painted. -/
theorem paint_result {editor : Editor} (h : editor.Accepts) (display : Display) :
    (paint editor display).result = .ok () := by
  rw [(paint_spec editor display).1, Screen.refusal?_of_accepts h]
  rfl

/-- An editor is painted along with those of some documents: that fails as the editor refuses, and
gives it decorations if its document is wanted. -/
theorem paint_wanted {σ : Type} (part : Lens σ Display) (wanted : String → Bool) (screen : Screen)
    (editor : Editor) (s : σ) :
    let refusal := screen.refusal? wanted editor
    let done := (do
      let buffer ← Action.ofExcept (screen.bufferOf editor.buffer)
      if wanted buffer.uri then Action.zoom part (paint editor) : Action σ Unit) s
    done.result = resultOf refusal ∧
      (∃ display, done.state = part.set display s ∧ display.contents = (part.get s).contents) ∧
      done.trace.filterMap Event.painted? =
        if refusal.isNone then
          if wanted (screen.shownIn editor).uri then [editor.name] else []
        else [] := by
  have hstays : ∃ display, s = part.set display s ∧ display.contents = (part.get s).contents :=
    ⟨part.get s, (part.set_get s).symm, rfl⟩
  dsimp only
  cases hbuffer : editor.buffer.isSome with
  | false =>
    rw [Option.isSome_eq_false_iff, Option.isNone_iff_eq_none] at hbuffer
    have hmissing : Action.ofExcept (screen.bufferOf none) s =
        ⟨.error .missingDocument, s, []⟩ := rfl
    rw [hbuffer, Action.bind_of_error hmissing]
    refine ⟨?_, hstays, ?_⟩
    · simp [Screen.refusal?, hbuffer, resultOf]
    · simp [Screen.refusal?, hbuffer]
  | true =>
    have hnone : editor.buffer ≠ none := Option.isSome_iff_ne_none.mp hbuffer
    rw [Screen.bufferOf_shownIn hbuffer, Action.bind_of_quiet (Action.ofExcept_apply _ _)]
    cases hwanted : wanted (screen.shownIn editor).uri with
    | false =>
      refine ⟨?_, hstays, ?_⟩
      · simp [Screen.refusal?, hnone, hwanted, resultOf]
      · simp
    | true =>
      obtain ⟨hresult, htrace⟩ := paint_spec editor (part.get s)
      rw [Screen.refusal?_of_wanted hwanted (part.get s).screen, if_pos rfl, if_pos rfl]
      exact ⟨hresult, ⟨_, rfl, (paint_contents editor).state (part.get s)⟩, htrace⟩

/-- A flush paints the visible editors of a document up to the first that refuses. -/
theorem flush_spec (document : String) (display : Display) :
    let done := flush document display
    done.result = resultOf (display.screen.flushFault? document) ∧
      done.trace.filterMap Event.painted? =
        display.screen.reached (· = document) display.screen.visible := by
  have hpainted : ∀ editor ∈ display.screen.visible, ∀ after : Display, True →
      let refusal := display.screen.refusal? (· = document) editor
      let done := (do
        let buffer ← Action.ofExcept (display.screen.bufferOf editor.buffer)
        if buffer.uri = document then paint editor : Action Display Unit) after
      done.result = resultOf refusal ∧ True ∧ done.trace.filterMap Event.painted? =
        if refusal.isNone then
          if decide ((display.screen.shownIn editor).uri = document) then [editor.name] else []
        else [] := by
    intro editor _ after _
    have hspec := paint_wanted Lens.whole (fun uri => decide (uri = document))
      display.screen editor after
    simp only [decide_eq_true_eq] at hspec ⊢
    exact ⟨hspec.1, trivial, hspec.2.2⟩
  rw [flush, Action.bind_of_quiet (Action.get_apply _)]
  obtain ⟨hresult, _, htrace⟩ := Action.each_until hpainted trivial
  exact ⟨hresult, htrace⟩

end Display

namespace Desk

/-- Why a document cannot be cleared without a fault: it has labels, and one of its editors is in
the way. -/
def clearFault? (desk : Desk) (document : String) : Option Fault :=
  if (desk.plugin.overlay.labels document).isEmpty then none
  else desk.bench.screen.flushFault? document

/-- Why the labels of a document cannot be switched off without a fault. -/
def offFault? (desk : Desk) (document : String) : Option Fault :=
  if desk.plugin.board.isOn document then desk.clearFault? document else none

/-- A desk on which the labels of a document have just lost their wires. -/
def unwired (desk : Desk) (document : String) (wires : Wires) : Desk :=
  { desk with plugin := { desk.plugin with
    board := ⟨desk.plugin.board.wires.erase document⟩
    forest := (desk.plugin.forest.removeListener .parsed document wires.parsed).removeListener
      .changed document wires.changed } }

/-- Switching labels off, where they are on, cuts the wires and clears the document. -/
theorem disable_of_on {desk : Desk} {document : String} {wires : Wires}
    (hon : desk.plugin.board.wires.get? document = some wires) :
    Switchboard.disable boardSite document desk = (do
      Overlay.clear overlaySite document
      Action.log (.disabled document)) (desk.unwired document wires) := by
  have hwires : (boardSite.part.get desk).wires.get? document = some wires := hon
  rw [Switchboard.disable, Action.bind_of_quiet (Action.look_apply _ _), hwires]
  rfl

/-- Erasing labels leaves the screen alone. -/
theorem retract_screen (document : String) (desk : Desk) :
    (Overlay.retract overlaySite document desk).state.bench.screen = desk.bench.screen := by
  let same : List Event → Desk → Prop := fun _ after => after.bench.screen = desk.bench.screen
  have hretract : Leads same same (Overlay.retract overlaySite document) :=
    Overlay.retract_leads (fun _ _ h => h) (fun _ _ _ h => h) fun _ _ _ _ h => h
  exact hretract [] desk rfl

/-- Clearing a document fails as its editors refuse. -/
theorem clear_result (document : String) (desk : Desk) :
    (Overlay.clear overlaySite document desk).result = resultOf (desk.clearFault? document) := by
  have hclear : (Overlay.clear overlaySite document desk).result =
      if desk.plugin.overlay.labels document = [] then .ok ()
      else (Display.flush document
        (displayPart.get (Overlay.retract overlaySite document desk).state)).result :=
    Overlay.clear_result overlaySite document desk
  have hscreen : (displayPart.get (Overlay.retract overlaySite document desk).state).screen =
      desk.bench.screen := retract_screen document desk
  rw [hclear, (Display.flush_spec document _).1, hscreen, clearFault?]
  by_cases hnone : desk.plugin.overlay.labels document = []
  · simp [hnone, resultOf]
  · simp [hnone]

/-- Switching labels off fails as the editors of the document refuse. -/
theorem disable_result (document : String) (desk : Desk) :
    (Switchboard.disable boardSite document desk).result = resultOf (desk.offFault? document) := by
  cases hon : desk.plugin.board.wires.get? document with
  | none =>
    have hoff : desk.plugin.board.isOn document = false := Switchboard.isOn_eq_false.mpr hon
    rw [Switchboard.disable_of_off hoff, offFault?, hoff]
    rfl
  | some wires =>
    have hwired : desk.plugin.board.isOn document = true := by
      simp [Switchboard.isOn, Table.contains, hon]
    have hclear : (Overlay.clear overlaySite document (desk.unwired document wires)).result =
        resultOf (desk.offFault? document) := by
      rw [clear_result, offFault?, if_pos hwired]
      rfl
    rw [disable_of_on hon]
    rcases hrun : Overlay.clear overlaySite document (desk.unwired document wires) with
      ⟨fault | done, after, trace⟩
    · rw [Action.bind_of_error hrun, ← hclear, hrun]
    · rw [Action.bind_of_ok hrun, ← hclear, hrun]
      rfl

/-- Closing a document switches its labels off and then closes its tree. -/
theorem documentClosed_apply (buffer : Nat) (desk : Desk) :
    documentClosed (some buffer) desk = (do
      Switchboard.disable boardSite (desk.bench.screen.buffer buffer).uri
      Forest.close grovePart (desk.bench.screen.buffer buffer).uri) desk := by
  have hfound : Action.ofExcept (desk.bench.screen.bufferOf (some buffer)) desk =
      ⟨.ok (desk.bench.screen.buffer buffer), desk, []⟩ := rfl
  rw [documentClosed, Action.bind_of_quiet (Action.get_apply _), Action.bind_of_quiet hfound]

end Desk

end ClosingLabels
