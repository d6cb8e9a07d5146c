import ClosingLabels.Proofs.Closing
import ClosingLabels.Proofs.UpToDate

/-!
# What escapes a handler

The plugin registers handlers with its editor. Most of them catch what fails in them, and
redrawing reports a refused flush itself. Switching labels off and painting editors pass a
refusal on: closing a document, showing editors and two of the commands fail exactly where an
editor in their way refuses, with the fault of the first that does, and what was still to be
done is left undone.
-/

namespace ClosingLabels

open ClosingLabels.Action (Unfailing resultOf)

/-! ## Parts that never fail -/

namespace SettingsStore

theorem save_unfailing (root : Option String) (settings : Settings) :
    Unfailing (save root settings) := by
  unfold save
  cases path? root with
  | none => exact .bind (.emit _) fun _ => .pure _
  | some path => exact .rescue (fun _ _ => trivial) fun fault => .bind (.emit _) fun _ => .pure _

theorem prepare_unfailing (root : Option String) : Unfailing (prepare root) := by
  unfold prepare
  cases path? root with
  | none => exact .pure _
  | some path =>
    refine .bind (.gets _) fun store => .ite ?_ (save_unfailing root .standard)
    exact .bind (.emit _) fun _ => .pure _

theorem refresh_unfailing (root : Option String) : Unfailing (refresh root) := by
  refine .bind (.emit _) fun _ => .bind (.modify fun _ _ => trivial) fun _ store _ => ⟨?_, trivial⟩
  obtain ⟨settings, hsettings, _⟩ := load_remembers root store
  exact ⟨settings, hsettings⟩

end SettingsStore

namespace Workshop

variable {W C : Type}

theorem push_unfailing (task : Task W C) : Unfailing (push task) :=
  .modify fun _ _ => trivial

theorem endStartup_unfailing (number : Nat) (startup : Startup W) (next : Lookup W → Job W) :
    Unfailing (endStartup number startup next : Action (Workshop W C) Unit) := by
  refine .bind (.gets _) fun grammars => ?_
  split
  · exact .bind (.adjust fun _ _ => trivial) fun _ => .each fun lookup _ => push_unfailing _
  · exact .pure ()

theorem enter_unfailing (lookup : Lookup W) :
    Unfailing (enter lookup : Action (Workshop W C) Unit) := by
  refine .bind (.gets _) fun grammars => .bind (.adjust fun _ _ => trivial) fun _ => ?_
  dsimp only
  cases grammars.links.getLast? with
  | none => exact .bind (push_unfailing _) fun _ => push_unfailing _
  | some before =>
    cases hanswer : before.answer with
    | none =>
      simp only [hanswer]
      exact .bind (.adjust fun _ _ => trivial) fun _ => push_unfailing _
    | some answer =>
      simp only [hanswer]
      cases answer with
      | ok found => exact .bind (push_unfailing _) fun _ => push_unfailing _
      | error fault => exact .bind (push_unfailing _) fun _ => push_unfailing _

theorem subscribe_unfailing (link : Nat) (waiter : W) :
    Unfailing (subscribe link waiter : Action (Workshop W C) Unit) := by
  refine .bind (.gets _) fun grammars => ?_
  split
  · exact .pure ()
  · split
    · exact push_unfailing _
    · exact .adjust fun _ _ => trivial

theorem start_unfailing (link : Nat) : Unfailing (start link : Action (Workshop W C) Unit) := by
  refine .bind (.gets _) fun workshop => ?_
  split
  · exact .pure ()
  · split
    · exact push_unfailing _
    · split
      · exact push_unfailing _
      · dsimp only
        split
        · refine .bind (.emit _) fun _ => .bind (.adjust fun _ _ => trivial) fun _ => ?_
          exact push_unfailing _
        · exact .bind (.emit _) fun _ => .modify fun _ _ => trivial

theorem finish_unfailing (link : Nat) (loaded : Except Fault Language) :
    Unfailing (finish link loaded : Action (Workshop W C) Unit) := by
  refine .bind (.gets _) fun grammars => ?_
  split
  · exact .pure ()
  · cases loaded with
    | ok language =>
      refine .bind (.adjust fun _ _ => trivial) fun _ => .bind (.emit _) fun _ => ?_
      exact push_unfailing _
    | error fault =>
      refine .bind (.emit _) fun _ => .bind (.adjust fun _ _ => trivial) fun _ => ?_
      exact push_unfailing _

theorem settle_unfailing (link : Nat) (answer : Answer) :
    Unfailing (settle link answer : Action (Workshop W C) Unit) := by
  refine .bind (.gets _) fun grammars => ?_
  split
  · exact .pure ()
  · exact .bind (.adjust fun _ _ => trivial) fun _ => .each fun follower _ => push_unfailing _

/-- No step of loading fails; what goes wrong is passed on as an answer. -/
theorem perform_unfailing (job : Job W) : Unfailing (perform job : Action (Workshop W C) Unit) := by
  cases job with
  | makeParser number =>
    refine .bind (.zoom ?_) fun parser => .bind (.adjust fun _ _ => trivial) fun _ => ?_
    · refine .bind (.modify fun _ _ => trivial) fun _ => .bind (.gets _) fun toolkit => ?_
      exact .bind (.emit _) fun _ => .pure _
    · exact endStartup_unfailing _ _ _
  | failStartup number fault => exact endStartup_unfailing _ _ _
  | enter lookup => exact enter_unfailing lookup
  | subscribe link waiter => exact subscribe_unfailing link waiter
  | start link => exact start_unfailing link
  | finish link loaded => exact finish_unfailing link loaded
  | adopt link answer => exact push_unfailing _
  | settle link answer => exact settle_unfailing link answer
  | relay waiter answer => exact push_unfailing _

end Workshop

namespace Desk

theorem push_unfailing (work : Work Nat) : Unfailing (push work) :=
  .zoom (Workshop.push_unfailing _)

theorem parseForCommand_unfailing (buffer : Nat) : Unfailing (parseForCommand buffer) :=
  .rescue (fun _ _ => trivial) fun _ => push_unfailing _

theorem switched_unfailing (buffer : Nat) (on : Bool) : Unfailing (switched buffer on) :=
  .ite (.bind (parseForCommand_unfailing buffer) fun _ => .emit _) (.emit _)

theorem openSettings_unfailing : Unfailing openSettings := by
  refine .bind (.gets _) fun desk => ?_
  dsimp only
  cases SettingsStore.path? desk.bench.workspace with
  | none => exact .emit _
  | some path =>
    refine .bind (.zoom (SettingsStore.prepare_unfailing _)) fun ready => .ite ?_ (.emit _)
    refine .bind (.emit _) fun _ => .bind (.gets _) fun now => ?_
    cases now.bench.openFailure with
    | none => exact .emit _
    | some message => exact .bind (.emit _) fun _ => .emit _

theorem prepareSettings_unfailing : Unfailing prepareSettings := by
  refine .bind (.gets _) fun desk => ?_
  exact .bind (.zoom (SettingsStore.prepare_unfailing _)) fun ready => .ite (.emit _) (.emit _)

theorem settingsChanged_unfailing : Unfailing settingsChanged := by
  refine .bind (.emit _) fun _ => .bind (.gets _) fun desk => ?_
  refine .bind (.zoom (SettingsStore.refresh_unfailing _)) fun settings => ?_
  refine .bind (.bind (.adjust fun _ _ => trivial) fun _ => .bind (.gets _) fun _ => .emit _)
    fun _ => .bind (.adjust fun _ _ => trivial) fun _ => ?_
  refine .bind (.zoom (.adjust fun _ _ => trivial)) fun _ => ?_
  refine .bind (.of_result fun desk => by rw [Forest.resetPatterns_apply]) fun _ => ?_
  refine .bind (.of_result tidy.redrawAll_result) fun _ => .bind (.gets _) fun desk => ?_
  exact .each fun row _ => parseForCommand_unfailing row.2

theorem documentOpened_unfailing (buffer : Nat) : Unfailing (documentOpened buffer) :=
  .rescue (fun _ _ => trivial) fun _ => push_unfailing _

theorem documentChanged_unfailing (buffer : Option Nat) (changes : List Change) :
    Unfailing (documentChanged buffer changes) :=
  .rescue (fun _ _ => trivial) fun _ => .emit _

theorem openingEnded_unfailing (opening : Opening Nat) (result : Except Fault Bool) :
    Unfailing (openingEnded opening result) := by
  match result with
  | .ok true => exact .pure ()
  | .ok false => exact .emit _
  | .error fault =>
    cases hcaller : opening.caller with
    | direct => simp only [openingEnded, hcaller]; exact .pure ()
    | openHandler => simp only [openingEnded, hcaller]; exact push_unfailing _
    | command => simp only [openingEnded, hcaller]; exact push_unfailing _

/-- What handlers leave to be done later fails as little. -/
theorem perform_unfailing (task : Task (Waiter Nat) (Work Nat)) : Unfailing (perform task) := by
  match task with
  | .job job => exact .zoom (Workshop.perform_unfailing job)
  | .deliver (.opening opening) answer =>
    exact .bind (fun _ _ => ⟨⟨_, rfl⟩, trivial⟩) fun result => push_unfailing _
  | .deliver (.bare _) _ => exact .pure ()
  | .client (.opened opening result) => exact openingEnded_unfailing opening result
  | .client (.complainLater failure fault) => exact push_unfailing _
  | .client (.complain failure fault) => exact .emit _

/-! ## Parts that pass refusals on -/

/-- The fault of working on the document of a buffer, or that there is none. -/
def faultAt? (desk : Desk) (fault? : String → Option Fault) : Option Nat → Option Fault
  | none => some .missingDocument
  | some buffer => fault? (desk.bench.screen.buffer buffer).uri

/-- Closing a document fails as switching its labels off does. -/
theorem documentClosed_result (buffer : Option Nat) (desk : Desk) :
    (documentClosed buffer desk).result = resultOf (desk.faultAt? desk.offFault? buffer) := by
  cases buffer with
  | none => rfl
  | some buffer =>
    rw [documentClosed_apply, faultAt?, ← disable_result]
    rcases hrun : Switchboard.disable boardSite (desk.bench.screen.buffer buffer).uri desk with
      ⟨fault | done, after, trace⟩
    · rw [Action.bind_of_error hrun]
    · rw [Action.bind_of_ok hrun, Forest.close_eq]

/-- Showing editors paints those of documents with labels, up to the first that refuses. -/
theorem editorsShown_spec (editors : List Editor) (desk : Desk) :
    let done := editorsShown editors desk
    done.result =
        resultOf (editors.findSome? (desk.bench.screen.refusal? desk.plugin.board.isOn)) ∧
      done.trace.filterMap Event.painted? =
        desk.bench.screen.reached desk.plugin.board.isOn editors := by
  have hpainted : ∀ editor ∈ editors, ∀ after : Desk,
      (after.plugin.board = desk.plugin.board ∧
        after.bench.screen.buffers = desk.bench.screen.buffers) →
      let refusal := desk.bench.screen.refusal? desk.plugin.board.isOn editor
      let done := (do
        let now ← Action.get
        let buffer ← Action.ofExcept (now.bench.screen.bufferOf editor.buffer)
        if now.plugin.board.isOn buffer.uri then
          Action.zoom displayPart (Display.paint editor) : Action Desk Unit) after
      done.result = resultOf refusal ∧
        (done.state.plugin.board = desk.plugin.board ∧
          done.state.bench.screen.buffers = desk.bench.screen.buffers) ∧
        done.trace.filterMap Event.painted? =
          if refusal.isNone then
            if desk.plugin.board.isOn (desk.bench.screen.shownIn editor).uri then [editor.name]
            else []
          else [] := by
    rintro editor _ after ⟨hboard, hbuffers⟩
    obtain ⟨hresult, ⟨display, hstate, hcontents⟩, htrace⟩ :=
      Display.paint_wanted displayPart after.plugin.board.isOn after.bench.screen editor after
    dsimp only
    rw [Action.bind_of_quiet (Action.get_apply _), ← Screen.refusal?_congr hbuffers,
      ← Screen.shownIn_congr hbuffers, ← hboard]
    refine ⟨hresult, ?_, htrace⟩
    rw [hstate]
    exact ⟨rfl, (congrArg Display.Contents.buffers hcontents).trans hbuffers⟩
  obtain ⟨hresult, _, htrace⟩ := Action.each_until hpainted ⟨rfl, rfl⟩
  exact ⟨hresult, htrace⟩

/-! ## Commands -/

/-- A command on the document in front fails as its action does. -/
theorem switchFront_result {action : String → Action Desk Bool} {fault? : String → Option Fault}
    {desk : Desk}
    (haction : ∀ document, (action document desk).result.map (fun _ => ()) =
      resultOf (fault? document)) :
    (switchFront action desk).result =
      resultOf (desk.bench.active.bind (desk.faultAt? fault?)) := by
  rw [switchFront, Action.bind_of_quiet (Action.get_apply _)]
  rcases hactive : desk.bench.active with _ | _ | buffer
  · rfl
  · rfl
  · have hdone := haction (desk.bench.screen.buffer buffer).uri
    change ((action (desk.bench.screen.buffer buffer).uri >>= switched buffer) desk).result =
      resultOf (fault? (desk.bench.screen.buffer buffer).uri)
    rcases hrun : action (desk.bench.screen.buffer buffer).uri desk with ⟨fault | on, after, trace⟩
    · rw [Action.bind_of_error hrun, ← hdone, hrun]
      rfl
    · rw [Action.bind_of_ok hrun, ← hdone, hrun]
      exact (switched_unfailing buffer on).result after

/-- Switching labels over fails as switching them off does. -/
theorem toggle_result (document : String) (desk : Desk) :
    (Switchboard.toggle boardSite document desk).result.map (fun _ => ()) =
      resultOf (desk.offFault? document) := by
  rw [Switchboard.toggle, Action.bind_of_quiet (Action.look_apply _ _)]
  change ((if desk.plugin.board.isOn document = true then _ else _ : Action Desk Bool)
    desk).result.map _ = _
  cases hon : desk.plugin.board.isOn document with
  | true =>
    have hoff := disable_result document desk
    rw [if_pos rfl]
    rcases hrun : Switchboard.disable boardSite document desk with ⟨fault | done, after, trace⟩
    · rw [Action.bind_of_error hrun, ← hoff, hrun]
      rfl
    · rw [Action.bind_of_ok hrun, ← hoff, hrun]
      rfl
  | false =>
    rw [if_neg (by simp), offFault?, hon,
      Action.bind_of_ok (Action.eq_of_result (tidy.enable_spec document desk).1)]
    rfl

/-- The fault that escapes a command. -/
def commandFault? (desk : Desk) : Command → Option Fault
  | .toggle | .disable => desk.bench.active.bind (desk.faultAt? desk.offFault?)
  | .enable => desk.bench.active.bind (desk.faultAt? fun _ => none)
  | .openSettings | .prepareSettings => none

theorem runCommand_result (command : Command) (desk : Desk) :
    (runCommand command desk).result = resultOf (desk.commandFault? command) := by
  cases command with
  | toggle => exact switchFront_result fun document => toggle_result document desk
  | enable =>
    refine switchFront_result fun document => ?_
    rw [Action.bind_of_ok (Action.eq_of_result (tidy.enable_spec document desk).1)]
    rfl
  | disable =>
    refine switchFront_result fun document => ?_
    rw [← disable_result]
    rcases hrun : Switchboard.disable boardSite document desk with ⟨fault | done, after, trace⟩
    · rw [Action.bind_of_error hrun]
      rfl
    · rw [Action.bind_of_ok hrun]
      rfl
  | openSettings => exact openSettings_unfailing.result desk
  | prepareSettings => exact prepareSettings_unfailing.result desk

/-! ## Handlers -/

/-- **What escapes a handler.** Whatever state the plugin is in and whichever editors refuse:
nothing escapes when a document is opened or changed, when the settings change, or when a task is
taken. Closing a document and the commands that switch labels off fail exactly if the labels of the
document are on, there are some, and one of its visible editors refuses; the fault is that of the
first. Showing editors fails exactly if one of those whose labels are on refuses, and paints those
before the first that does. -/
theorem faults_that_escape (desk : Desk) :
    (∀ buffer, (documentOpened buffer desk).result = .ok ()) ∧
    (∀ buffer changes, (documentChanged buffer changes desk).result = .ok ()) ∧
    (settingsChanged desk).result = .ok () ∧
    (∀ task, (perform task desk).result = .ok ()) ∧
    (∀ buffer, (documentClosed buffer desk).result =
      resultOf (desk.faultAt? desk.offFault? buffer)) ∧
    (∀ command, (runCommand command desk).result = resultOf (desk.commandFault? command)) ∧
    ∀ editors,
      let shown := editorsShown editors desk
      shown.result =
          resultOf (editors.findSome? (desk.bench.screen.refusal? desk.plugin.board.isOn)) ∧
        shown.trace.filterMap Event.painted? =
          desk.bench.screen.reached desk.plugin.board.isOn editors := by
  refine ⟨fun buffer => (documentOpened_unfailing buffer).result desk, fun buffer changes => ?_,
    settingsChanged_unfailing.result desk, fun task => (perform_unfailing task).result desk,
    fun buffer => documentClosed_result buffer desk,
    fun command => runCommand_result command desk, fun editors => editorsShown_spec editors desk⟩
  exact (documentChanged_unfailing buffer changes).result desk

end Desk

namespace Session

/-- Two documents have labels, and the editor of the first refuses. Its refusal escapes when the
editors are shown, so the editor of the second is not painted although its labels are on. It escapes
again when the labels of the first document are switched off by either command, and when that
document is closed; but not when its labels are switched on. -/
theorem refusal_escapes :
    let settings : Settings :=
      { minLines := 0, targets := .ofRows [("p", ["a"])], grammars := .ofRows [("p", "g.wasm")] }
    let first := (smallEditor settings).openDocument "1" ⟨block, "p"⟩
    let bench := first.openDocument "2" ⟨block, "p"⟩
    let steps : List Step := [.settle, .reveal [⟨"e", "1", some "refused"⟩, ⟨"f", "2", none⟩],
      .focus (some "1"), .command "scope-echo.disable", .command "scope-echo.enable",
      .command "scope-echo.toggle", .command "scope-echo.enable", .closeDocument "1"]
    let done := Action.script Step.perform (activate (fresh bench)).state steps
    done.map Outcome.result =
      [.ok (.count 2), .error (.host "refused"), .ok .done, .error (.host "refused"), .ok .done,
        .error (.host "refused"), .ok .done, .error (.host "refused")] ∧
    (∀ outcome ∈ done, outcome.trace.filterMap Event.painted? = []) ∧
    ∀ outcome ∈ done, ∀ plugin ∈ outcome.state.plugins, plugin.board.isOn "2" = true := by
  decide +kernel

end Session

end ClosingLabels
