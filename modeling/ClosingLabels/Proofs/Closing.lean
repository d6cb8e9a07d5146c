import ClosingLabels.Proofs.Matching
import ClosingLabels.Proofs.Refusals
import ClosingLabels.Proofs.Upkeep

/-!
# A closed document stays closed

Closing a document switches its labels off, drops the opening that is awaited and deletes
the tree. Openings of the document that were on their way go on, one after another, but
each finds that it is not awaited any more. So the document comes back only when the editor
opens it or a command asks for its labels, whatever else happens in the meantime.
-/

namespace ClosingLabels

open ClosingLabels.Action (Maintains)

/-! ## Closing succeeds -/

namespace Desk

open Switchboard

/-- Where all editors take decorations, labels can be switched off. -/
theorem disable_of_accepting {desk : Desk} (h : desk.bench.screen.Accepting) (document : String) :
    (Switchboard.disable boardSite document desk).result = .ok () := by
  have hnone : desk.offFault? document = none := by
    simp [offFault?, clearFault?, Screen.flushFault?_of_accepting h]
  rw [disable_result, hnone]
  rfl

variable {closed : String → Prop} {stage : Stage}

/-- A document that is closed is absent from then on. -/
theorem documentClosed_closes {past : List Event} {desk : Desk}
    (hdesk : Ordered closed stage past desk) (haccepting : desk.bench.screen.Accepting)
    (buffer : Nat) :
    let done := documentClosed (some buffer) desk
    done.result = .ok () ∧
      Ordered (fun document => closed document ∨ document = stage.uri buffer) stage
        (past ++ done.trace) done.state := by
  dsimp only
  have huri : (desk.bench.screen.buffer buffer).uri = stage.uri buffer := by
    rw [← hdesk.2.2.2]
    rfl
  have hdisabled := disable_ordered (stage.uri buffer) past desk hdesk
  have hoff := tidy.disable_board (stage.uri buffer) (stage.uri buffer) desk
  have hdone := disable_of_accepting haccepting (stage.uri buffer)
  rw [documentClosed_apply, huri, Action.bind_of_ok (Action.eq_of_result hdone)]
  refine ⟨by rw [Forest.close_eq], ?_⟩
  dsimp only
  rw [← List.append_assoc]
  obtain ⟨hsound, hgood, habsent, hstage⟩ :=
    close_ordered (stage.uri buffer) _ _ hdisabled
  refine ⟨hsound, hgood, fun document hdocument => ?_, hstage⟩
  rcases hdocument with hold | rfl
  · exact habsent document hold
  · rw [Forest.close_eq]
    refine ⟨hoff.trans (by simp), Table.get?_erase_self _ _, Table.get?_erase_self _ _⟩

/-! ## Runs -/

/-- The document in front. -/
def front (desk : Desk) : Option String :=
  (desk.bench.active.bind id).map fun buffer => (desk.bench.screen.buffer buffer).uri

namespace Occurrence

/-- What the plugin does then, be there a task left or not. -/
def actNow : Occurrence → Action Desk Unit
  | .settingsChanged => Desk.settingsChanged
  | .deactivated => do
    Desk.dispose
    disposeGrammars
  | other => other.act

/-- The editor opens the document, or a command asks for its labels. -/
def Revives (document : String) (desk : Desk) : Occurrence → Prop
  | .opened buffer => (desk.bench.screen.buffer buffer).uri = document
  | .called command => command.lights = true ∧ desk.front = some document
  | _ => False

instance (document : String) (desk : Desk) : (occurrence : Occurrence) →
    Decidable (occurrence.Revives document desk)
  | .opened buffer =>
    inferInstanceAs (Decidable ((desk.bench.screen.buffer buffer).uri = document))
  | .called command =>
    inferInstanceAs (Decidable (command.lights = true ∧ desk.front = some document))
  | .become _ | .closed _ | .changed _ _ | .shown _ | .settingsChanged | .deactivated | .task
  | .complete _ => .isFalse id

end Occurrence

/-- The editor lists every open document under its own name. -/
def Listed (desk : Desk) : Prop :=
  ∀ row ∈ desk.bench.documents.rows, (desk.bench.screen.buffer row.2).uri = row.1

instance (desk : Desk) : Decidable desk.Listed :=
  inferInstanceAs (Decidable (∀ row ∈ desk.bench.documents.rows, _))

/-- Nobody opens the document or asks for its labels. -/
def LeftAlone (document : String) : Desk → List Occurrence → Prop
  | _, [] => True
  | desk, occurrence :: rest =>
    (desk.Listed ∧ ¬occurrence.Revives document desk) ∧
      LeftAlone document (occurrence.actNow desk).state rest

instance decidable_leftAlone (document : String) : (desk : Desk) →
    (occurrences : List Occurrence) → Decidable (LeftAlone document desk occurrences)
  | _, [] => .isTrue trivial
  | desk, occurrence :: rest =>
    have := decidable_leftAlone document (occurrence.actNow desk).state rest
    inferInstanceAs (Decidable (_ ∧ _))

/-- Whatever happens, everything stays in order, and closed documents that are left alone stay
absent. -/
theorem Occurrence.actNow_ordered {desk : Desk} {past : List Event} (occurrence : Occurrence)
    (halone : ∀ document, closed document →
      desk.Listed ∧ ¬occurrence.Revives document desk)
    (hdesk : Ordered closed desk.stage past desk) :
    let after := (occurrence.actNow desk).state
    Ordered closed after.stage past after := by
  have hkeep {x : Action Desk Unit} (hx : Ordered closed desk.stage
      (past ++ (x desk).trace) (x desk).state) :
      Ordered closed (x desk).state.stage past (x desk).state := by
    obtain ⟨hsound, hgood, habsent, _⟩ := hx
    exact ⟨hsound, hgood, habsent, rfl⟩
  cases occurrence with
  | become bench => exact ⟨hdesk.1, hdesk.2.1, hdesk.2.2.1, rfl⟩
  | opened buffer =>
    refine hkeep (documentOpened_ordered (fun hclosed => ?_) past desk hdesk)
    exact (halone _ hclosed).2 rfl
  | closed buffer => exact hkeep (documentClosed_ordered buffer past desk hdesk)
  | changed buffer changes => exact hkeep (documentChanged_ordered buffer changes past desk hdesk)
  | shown editors => exact hkeep (editorsShown_ordered editors past desk hdesk)
  | called command =>
    refine hkeep (runCommand_ordered (fun hlights buffer hactive hclosed => ?_) hdesk)
    refine (halone _ hclosed).2 ⟨hlights, ?_⟩
    simp only [front, hactive]
    rfl
  | settingsChanged =>
    refine hkeep (settingsChanged_ordered (fun row hrow hclosed => ?_) past desk hdesk)
    have hname : desk.stage.uri row.2 = row.1 := (halone _ hclosed).1 row hrow
    rwa [hname] at hclosed
  | deactivated =>
    exact hkeep (Maintains.bind dispose_ordered (fun _ => workshop_ordered _) past desk hdesk)
  | task => exact hkeep (takeTask_maintains (fun _ _ _ h => h) perform_ordered past desk hdesk)
  | complete place =>
    exact hkeep (finishRequest_maintains (fun _ _ _ h => h) (fun _ => workshop_ordered _) place
      past desk hdesk)

/-- Everything is in order after any run, and the closed documents that were left alone are
absent. -/
theorem ordered_after {desk : Desk} (occurrences : List Occurrence)
    (halone : ∀ document, closed document → LeftAlone document desk occurrences)
    (hdesk : Ordered closed desk.stage [] desk) :
    let now := Action.finish Occurrence.actNow desk occurrences
    Ordered closed now.stage [] now := by
  induction occurrences generalizing desk with
  | nil => exact hdesk
  | cons occurrence rest ih =>
    rw [Action.finish_cons]
    refine ih (fun document hclosed => (halone document hclosed).2) ?_
    exact occurrence.actNow_ordered (fun document hclosed => (halone document hclosed).1) hdesk

/-- At first nothing is on, drawn or heard. -/
theorem activated_ordered (bench : Workbench) (catalog : Catalog) (options : OverlayOptions) :
    let desk := activated bench catalog options
    Ordered (fun _ => False) desk.stage [] desk := by
  refine ⟨⟨fun document wires hwires => ?_, fun document _ trigger => ?_,
    fun document htracks => ?_⟩, ⟨?_, ⟨fun document => rfl, ?_⟩, trivial⟩, fun _ h => h.elim, rfl⟩
  · cases hwires
  · cases trigger <;> rfl
  · cases htracks
  · intro document label hlabel
    cases hlabel
  · intro document other _ mark hmark
    cases hmark

/-- Nothing is left of a document: its labels are off, it has no tree, nothing of it is on record
or waits to be shown, and nobody listens to it. -/
structure Gone (desk : Desk) (document : String) : Prop where
  off : desk.plugin.board.isOn document = false
  treeless : desk.plugin.forest.has document = false
  untracked : desk.plugin.overlay.tracks document = false
  unlabelled : desk.plugin.overlay.labels document = []
  undecorated : (displayPart.get desk).pending document = []
  unheard : ∀ trigger, desk.plugin.forest.listeners trigger document = []

/-- In order, nothing is left of a closed document. -/
theorem Ordered.gone {past : List Event} {desk : Desk} {document : String}
    (h : Ordered closed stage past desk) (hclosed : closed document) : desk.Gone document := by
  obtain ⟨hsound, ⟨_, howned, _⟩, habsent, _⟩ := h
  obtain ⟨hoff, htree, _⟩ := habsent document hclosed
  obtain ⟨huntracked, hlabels⟩ : desk.plugin.overlay.tracks document = false ∧
      desk.plugin.overlay.labels document = [] := hsound.labels_of_off hoff
  refine ⟨hoff, ?_, huntracked, hlabels, ?_, hsound.off document (isOn_eq_false.mp hoff)⟩
  · simp [Forest.has, Table.contains, htree]
  · exact List.map_eq_nil_iff.mp (howned.marks_eq_nil hlabels)

/-- **Closing.** Take any run of the plugin, in which documents are opened, changed and closed,
commands are called, the settings change, and tasks and requests go on in any order. When the
editor closes a document while its editors take decorations, closing succeeds; and whatever
happens then, nothing is left of the document for as long as the editor does not open it and no
command asks for its labels. -/
theorem closed_stays_closed (bench : Workbench) (catalog : Catalog) (options : OverlayOptions)
    (before after : List Occurrence) (buffer : Nat) :
    let desk := Action.finish Occurrence.actNow (activated bench catalog options) before
    let document := (desk.bench.screen.buffer buffer).uri
    let closing := documentClosed (some buffer) desk
    desk.bench.screen.Accepting → LeftAlone document closing.state after →
      closing.result = .ok () ∧
      (Action.finish Occurrence.actNow closing.state after).Gone document := by
  intro desk document closing haccepting halone
  have hdesk : Ordered (fun _ => False) desk.stage [] desk :=
    ordered_after before (fun _ h => h.elim) (activated_ordered bench catalog options)
  obtain ⟨hresult, hsound, hgood, habsent, hstage⟩ :=
    documentClosed_closes hdesk haccepting buffer
  have hclosed : Ordered (· = document) closing.state.stage [] closing.state :=
    ⟨hsound, hgood, fun other hother => habsent other (Or.inr hother), rfl⟩
  have hlast := ordered_after after (fun other hother => hother ▸ halone) hclosed
  exact ⟨hresult, hlast.gone rfl⟩

/-- An editor that shows the first of its documents, and has it in front. -/
def editorShowing (documents : List String) : Workbench :=
  let bench := editorWith documents
  { bench with
    active := some (some 0)
    screen := { bench.screen with visible := [⟨"e", some 0, none⟩] } }

/-- The document is opened by the editor and by a command, and closed before the toolkit has
started. The settings change twice while both openings go on, and neither gives it a tree; another
document, opened after them, gets one. -/
theorem closed_stays_closed_with_two_openings :
    let before : List Occurrence := [.become (editorShowing ["a"]), .opened 0, .called .enable]
    let after : List Occurrence := [.settingsChanged, .complete 0] ++ List.replicate 6 .task ++
      [.settingsChanged, .complete 0] ++ List.replicate 11 .task ++
      [.become (editorShowing ["b"]), .opened 0] ++ List.replicate 2 .task
    let desk := Action.finish Occurrence.actNow outset before
    let closing := documentClosed (some 0) desk
    let now := Action.finish Occurrence.actNow closing.state after
    desk.plugin.forest.pending.get? "a" = some 2 ∧ now.plugin.forest.has "b" = true ∧
      desk.bench.screen.Accepting ∧ LeftAlone "a" closing.state after ∧
      closing.result = .ok () ∧ now.Gone "a" := by
  intro before after desk closing now
  have hpending : desk.plugin.forest.pending.get? "a" = some 2 := by decide +kernel
  have hother : now.plugin.forest.has "b" = true := by decide +kernel
  have haccepting : desk.bench.screen.Accepting := by decide +kernel
  have halone : LeftAlone "a" closing.state after := by decide +kernel
  have huri : (desk.bench.screen.buffer 0).uri = "a" := by decide +kernel
  obtain ⟨hresult, hgone⟩ := closed_stays_closed (editorWith []) _ {} before after 0 haccepting
    (huri ▸ halone)
  exact ⟨hpending, hother, haccepting, halone, hresult, huri ▸ hgone⟩

end Desk

end ClosingLabels
