import ClosingLabels.Proofs.Escaping
import ClosingLabels.Proofs.Ownership
import ClosingLabels.Proofs.Switching

/-!
# What a refused teardown leaves behind

Closing a document, switching everything off and clearing everything are done step by step, and
a refused flush cuts them short. A document is always off and off the record by the time it is
flushed, so the one that refuses is taken down like those before it. What is left is what was to
come after: the tree of a document that is closed, and the documents behind the one that refused.
-/

namespace ClosingLabels

open ClosingLabels.Action (Leads Maintains TornDown resultOf)

/-! ## Clearing everything -/

namespace Overlay

variable {σ H : Type} {site : Site σ H}

/-- Neither erasing nor flushing changes the record. -/
structure Site.Recorded (site : Site σ H) : Prop where
  erase : ∀ document handle s,
    site.part.get (site.canvas.erase document handle s).state = site.part.get s
  flush : ∀ document s, site.part.get (site.canvas.flush document s).state = site.part.get s

/-- A document that is cleared is off the record, also when its flush is refused. -/
theorem Site.Recorded.clear_part (h : site.Recorded) (document : String) (s : σ) :
    site.part.get (clear site document s).state = (site.part.get s).forget document := by
  have hclear : Leads (fun _ t => site.part.get t = site.part.get s)
      (fun _ t => site.part.get t = (site.part.get s).forget document) (clear site document) := by
    refine clear_leads (fun _ t ht => ?_)
      (fun handle _ t ht => (h.erase document handle t).trans ht)
      (fun _ t ht => (h.flush document t).trans ht) fun _ _ _ _ ht => ht
    rw [site.part.get_set, ht]
  exact hclear [] s rfl

/-- Clearing everything leaves nothing on record, or stops at a document that fails and leaves on
record those behind it. -/
theorem Site.Recorded.dispose_tornDown (h : site.Recorded) (fine : σ → Prop)
    (hfine : ∀ document t, fine t → fine (clear site document t).state) {s : σ} (hs : fine s) :
    let done := dispose site s
    TornDown (site.part.get s).tracked.keys (site.part.get done.state).tracks
      (fun last fault => ∃ t, fine t ∧ (clear site last t).result = .error fault) done.result := by
  dsimp only
  rw [dispose, Action.bind_of_quiet (Action.look_apply _ _)]
  refine Action.each_tornDown (fun t => (site.part.get t).tracks) (fun document t ht => ?_) hs ?_
  · refine ⟨hfine document t ht, fun other => ?_⟩
    rw [h.clear_part, tracks_forget]
  · exact fun document => (Table.mem_keys_iff _ _).symm

end Overlay

/-! ## On a recorder -/

namespace Scenario

theorem OverlayRun.recorded : OverlayRun.site.Recorded := ⟨fun _ _ _ => rfl, fun _ _ => rfl⟩

/-- A recorder fails to flush a document only by refusing to. -/
theorem flush_error {σ : Type} {part : Lens σ Recorder} {document : String} {s : σ} {fault : Fault}
    (h : (Action.zoom part (Recorder.flush document) s).result = .error fault) :
    fault = .cannotFlush document := by
  rw [Action.zoom_apply, Recorder.flush_apply] at h
  split at h
  · exact (Except.error.inj h).symm
  · cases h

/-- Clearing everything stops only at a refused flush. -/
theorem OverlayStep.dispose_tornDown (run : OverlayRun) :
    let done := OverlayStep.dispose.perform run
    TornDown run.overlay.tracked.keys done.state.overlay.tracks
      (fun last fault => fault = .cannotFlush last) done.result := by
  have htorn := OverlayRun.recorded.dispose_tornDown (fun _ => True) (fun _ _ _ => trivial)
    (s := run) trivial
  dsimp only
  rw [OverlayStep.perform, bind_pure_comp, Action.map_apply]
  refine (htorn.mono fun last fault hlast => ?_).map _
  obtain ⟨after, _, hfail⟩ := hlast
  obtain ⟨flushed, hflush⟩ := Overlay.clear_error hfail
  exact flush_error hflush

/-- Switching everything off stops only at a refused flush. -/
theorem SwitchboardStep.dispose_tornDown (run : SwitchboardRun) :
    let done := SwitchboardStep.dispose.perform run
    TornDown run.board.documents done.state.board.isOn
      (fun last fault => fault = .cannotFlush last) done.result := by
  have htorn := SwitchboardRun.tidy.dispose_tornDown (fun _ => True) (fun _ _ _ => trivial)
    (s := run) trivial
  dsimp only
  rw [SwitchboardStep.perform, bind_pure_comp, Action.map_apply]
  refine (htorn.mono fun last fault hlast => ?_).map _
  obtain ⟨after, _, hfail⟩ := hlast
  obtain ⟨flushed, hflush⟩ := SwitchboardRun.tidy.disable_error hfail
  exact flush_error hflush

end Scenario

/-! ## At a desk -/

namespace Desk

theorem recorded : overlaySite.Recorded := ⟨fun _ _ _ => rfl, fun _ _ => rfl⟩

/-- Clearing a document changes no editor. -/
theorem clear_flushFault? (document : String) (desk : Desk) :
    (Overlay.clear overlaySite document desk).state.bench.screen.flushFault? =
      desk.bench.screen.flushFault? := by
  let same : List Event → Desk → Prop := fun _ after =>
    after.bench.screen.flushFault? = desk.bench.screen.flushFault?
  have hflush : Maintains same (overlaySite.canvas.flush document) := by
    intro past after hafter
    have hcontents := (Display.flush_contents document).state (displayPart.get after)
    exact (Screen.flushFault?_congr (congrArg Display.Contents.buffers hcontents)
      (congrArg Display.Contents.visible hcontents)).trans hafter
  have hclear : Leads same same (Overlay.clear overlaySite document) :=
    Overlay.clear_leads (fun _ _ h => h) (fun _ _ _ h => h) hflush fun _ _ _ _ h => h
  exact hclear [] desk rfl

/-- Neither does switching its labels off. -/
theorem disable_flushFault? (document : String) (desk : Desk) :
    (Switchboard.disable boardSite document desk).state.bench.screen.flushFault? =
      desk.bench.screen.flushFault? := by
  cases hon : desk.plugin.board.wires.get? document with
  | none => rw [Switchboard.disable_of_off (Switchboard.isOn_eq_false.mpr hon)]
  | some wires =>
    have hclear := clear_flushFault? document (desk.unwired document wires)
    rw [disable_of_on hon]
    rcases hrun : Overlay.clear overlaySite document (desk.unwired document wires) with
      ⟨fault | done, after, trace⟩
    · rw [Action.bind_of_error hrun]
      rw [hrun] at hclear
      exact hclear
    · rw [Action.bind_of_ok hrun]
      rw [hrun] at hclear
      exact hclear

theorem flushFault?_of_clearFault? {desk : Desk} {document : String} {fault : Fault}
    (h : desk.clearFault? document = some fault) :
    desk.bench.screen.flushFault? document = some fault := by
  rw [clearFault?] at h
  split at h
  · cases h
  · exact h

theorem clearFault?_of_offFault? {desk : Desk} {document : String} {fault : Fault}
    (h : desk.offFault? document = some fault) : desk.clearFault? document = some fault := by
  rw [offFault?] at h
  split at h
  · exact h
  · cases h

/-- Clearing everything stops only where an editor refuses. -/
theorem clearAll_tornDown (desk : Desk) :
    let done := Overlay.dispose overlaySite desk
    TornDown desk.plugin.overlay.tracked.keys done.state.plugin.overlay.tracks
      (fun last fault => desk.bench.screen.flushFault? last = some fault) done.result := by
  have htorn := recorded.dispose_tornDown
    (fun after => after.bench.screen.flushFault? = desk.bench.screen.flushFault?)
    (fun document after hafter => (clear_flushFault? document after).trans hafter) (s := desk) rfl
  refine htorn.mono fun last fault hlast => ?_
  obtain ⟨after, hafter, hfail⟩ := hlast
  rw [clear_result, Action.resultOf_eq_error] at hfail
  rw [← hafter]
  exact flushFault?_of_clearFault? hfail

/-- Switching everything off stops only where an editor refuses. -/
theorem disableAll_tornDown (desk : Desk) :
    let done := Switchboard.dispose boardSite desk
    TornDown desk.plugin.board.documents done.state.plugin.board.isOn
      (fun last fault => desk.bench.screen.flushFault? last = some fault) done.result := by
  have htorn := tidy.dispose_tornDown
    (fun after => after.bench.screen.flushFault? = desk.bench.screen.flushFault?)
    (fun document after hafter => (disable_flushFault? document after).trans hafter) (s := desk) rfl
  refine htorn.mono fun last fault hlast => ?_
  obtain ⟨after, hafter, hfail⟩ := hlast
  rw [disable_result, Action.resultOf_eq_error] at hfail
  rw [← hafter]
  exact flushFault?_of_clearFault? (clearFault?_of_offFault? hfail)

/-- What closing a document leaves of it: its labels are off and off the record, and its tree and
the opening that is awaited are gone unless an editor refused. -/
structure Closed (desk after : Desk) (document : String) : Prop where
  off : after.plugin.board.isOn document = false
  untracked : after.plugin.overlay.tracks document = false
  tree : after.plugin.forest.entries.get? document =
    if (desk.offFault? document).isSome then desk.plugin.forest.entries.get? document else none
  opening : after.plugin.forest.pending.get? document =
    if (desk.offFault? document).isSome then desk.plugin.forest.pending.get? document else none

theorem documentClosed_closed {closed : String → Prop} {stage : Stage} {past : List Event}
    {desk : Desk} (h : Ordered closed stage past desk) (buffer : Nat) :
    desk.Closed (documentClosed (some buffer) desk).state
      (desk.bench.screen.buffer buffer).uri := by
  generalize hdocument : (desk.bench.screen.buffer buffer).uri = document
  have hboard := tidy.disable_board document document desk
  have hscene := (disable_leaves document).state desk
  have hresult := disable_result document desk
  have hordered := documentClosed_ordered (some buffer) past desk h
  rw [documentClosed_apply, hdocument] at hordered ⊢
  -- Switching the labels off either fails, and the tree is not reached, or it is closed as well.
  rcases hrun : Switchboard.disable boardSite document desk with ⟨fault | done, after, trace⟩
  · rw [hrun] at hboard hscene hresult
    have hfault : desk.offFault? document = some fault :=
      Action.resultOf_eq_error.mp hresult.symm
    rw [Action.bind_of_error hrun] at hordered ⊢
    have hoff : after.plugin.board.isOn document = false := hboard.trans (by simp)
    exact {
      off := hoff
      untracked := (Switchboard.Stand.Sound.labels_of_off hordered.1 hoff).1
      tree := by
        rw [hfault]
        exact congrArg (fun scene : Scene => scene.holdings.entries.get? document) hscene
      opening := by
        rw [hfault]
        exact congrArg (fun scene : Scene => scene.holdings.pending.get? document) hscene }
  · rw [hrun] at hboard hresult
    have hnone : desk.offFault? document = none := by
      cases hfault : desk.offFault? document with
      | none => rfl
      | some fault =>
        rw [hfault] at hresult
        cases hresult
    rw [Action.bind_of_ok hrun, Forest.close_eq] at hordered ⊢
    have hoff : after.plugin.board.isOn document = false := hboard.trans (by simp)
    exact {
      off := hoff
      untracked := (Switchboard.Stand.Sound.labels_of_off hordered.1 hoff).1
      tree := by
        rw [hnone]
        exact Table.get?_erase_self _ _
      opening := by
        rw [hnone]
        exact Table.get?_erase_self _ _ }

end Desk

/-! ## Teardowns -/

open Scenario Session

/-- **Teardown.** After any run of the plugin, closing a document fails exactly if its labels are
on, there are some, and one of its editors refuses. In any case its labels are off and off the
record then; its tree and the opening that is awaited are gone unless closing failed. Switching
everything off and clearing everything, in the plugin or on a recorder that refuses any flushes,
leave nothing on, or on record; or they stop at a document whose flush is refused, and then exactly
those behind it are left. -/
theorem torn_down_up_to_refusals (bench : Workbench) (catalog : Catalog) (options : OverlayOptions)
    (before : List Desk.Occurrence) (buffer : Nat) (board : SwitchboardRun) (overlay : OverlayRun) :
    let desk := Action.finish Desk.Occurrence.actNow (Desk.activated bench catalog options) before
    let document := (desk.bench.screen.buffer buffer).uri
    let refused := fun last fault => desk.bench.screen.flushFault? last = some fault
    let closed := Desk.documentClosed (some buffer) desk
    let switched := Switchboard.dispose Desk.boardSite desk
    let cleared := Overlay.dispose Desk.overlaySite desk
    let boardDone := SwitchboardStep.dispose.perform board
    let overlayDone := OverlayStep.dispose.perform overlay
    (closed.result = resultOf (desk.offFault? document) ∧ desk.Closed closed.state document) ∧
    TornDown desk.plugin.board.documents switched.state.plugin.board.isOn refused switched.result ∧
    TornDown desk.plugin.overlay.tracked.keys cleared.state.plugin.overlay.tracks refused
      cleared.result ∧
    TornDown board.board.documents boardDone.state.board.isOn
      (fun last fault => fault = .cannotFlush last) boardDone.result ∧
    TornDown overlay.overlay.tracked.keys overlayDone.state.overlay.tracks
      (fun last fault => fault = .cannotFlush last) overlayDone.result := by
  intro desk document refused closed switched cleared boardDone overlayDone
  have hordered : Desk.Ordered (fun _ => False) desk.stage [] desk :=
    Desk.ordered_after before (fun _ h => h.elim) (Desk.activated_ordered bench catalog options)
  exact ⟨⟨Desk.documentClosed_result (some buffer) desk,
      Desk.documentClosed_closed hordered buffer⟩,
    Desk.disableAll_tornDown desk, Desk.clearAll_tornDown desk,
    SwitchboardStep.dispose_tornDown board, OverlayStep.dispose_tornDown overlay⟩

/-- What refusals leave behind. A document is closed while its editor refuses, and keeps its tree.
Two documents are on and the first has a label whose removal cannot be shown, so switching
everything off leaves the second on. Two documents have a label, and the flush of the first is
refused, so clearing everything leaves the second on record. -/
theorem refused_teardowns :
    (let settings : Settings :=
      { minLines := 0, targets := .ofRows [("p", ["a"])], grammars := .ofRows [("p", "g.wasm")] }
    let bench := (smallEditor settings).openDocument "1" ⟨block, "p"⟩
    let steps : List Step := [.settle, .reveal [⟨"e", "1", some "refused"⟩], .closeDocument "1"]
    let done := Action.script Step.perform (activate (fresh bench)).state steps
    (done[2]?.map Outcome.result) = some (.error (.host "refused")) ∧
    (done[2]?.map fun outcome => outcome.state.plugins.map (·.forest.has "1")) = some [true]) ∧
    (let publication : Publication := ⟨[⟨[105], 0, 3⟩], none, ⟨[97, 10, 98], [112]⟩, [112]⟩
    let start := SwitchboardRun.fresh {} ⟨[], [], [2]⟩
      (Catalog.make (.ofRows [([112], [[105]])]) .empty .empty) 0
    let run := Action.finish SwitchboardStep.perform start
      [.publish "a" (.ok publication), .enable "a", .enable "b"]
    let done := SwitchboardStep.dispose.perform run
    done.result = .error (.cannotFlush "a") ∧ done.state.board.isOn "b" = true) ∧
    (let start := OverlayRun.fresh {} ⟨[], [], [3]⟩ (Catalog.make .empty .empty .empty)
    let run := Action.finish OverlayStep.perform start
      [.add "a" [⟨3, [105], 0, 1⟩], .add "b" [⟨3, [105], 0, 1⟩]]
    let done := OverlayStep.dispose.perform run
    done.result = .error (.cannotFlush "a") ∧ done.state.overlay.tracks "b" = true) := by
  refine ⟨?_, ?_, ?_⟩ <;> decide +kernel

end ClosingLabels
