import ClosingLabels.Proofs.Attending
import ClosingLabels.Proofs.Closing

/-!
# Labels are never stale

While the plugin is active, documents are opened, edited and closed, editors and commands
come and go, the disk and the settings change, and tasks and requests go on in any order.
Whenever one of these is over, every document whose labels are on and that has a tree
shows the labels that would be extracted for it anew, and no other document shows any.

This needs that a query that is kept for the document is one that the language of its tree
compiles too. Queries are kept under a text only, so a name with a zero unit in it, or a
language that was loaded again from another grammar, can leave one there that is not.
-/

namespace ClosingLabels

open ClosingLabels.Action (Maintains)

namespace Desk

open Switchboard

variable {settings : Settings} {past : List Event} {desk : Desk} {stage : Stage}
  {document : String} {entry : Entry Nat}

/-- What shows is what would be extracted now. Settings, catalog and options agree; a document
whose labels are on and that has a tree shows the labels that would be extracted for it, with the
queries that are kept or without them, in the style of the options, unless a query is kept for it
that the language of its tree would not have compiled; and no other document shows anything. -/
structure UpToDate (settings : Settings) (desk : Desk) : Prop where
  configured : desk.Configured settings
  shown : ∀ document entry, desk.plugin.board.isOn document = true →
    desk.plugin.forest.entries.get? document = some entry → desk.Own entry →
    ∃ records, desk.recomputed settings.minLines entry = .ok records ∧
      desk.extracted settings.minLines entry = .ok records ∧
      (desk.plugin.overlay.labels document).map Placed.content =
        (desk.plugin.overlay.options.select records).map Label.content ∧
      desk.marks document =
        (desk.plugin.overlay.labels document).map desk.plugin.overlay.options.mark
  bare : ∀ document, desk.plugin.board.isOn document = false ∨
    desk.plugin.forest.entries.get? document = none →
    desk.plugin.overlay.tracks document = false ∧ desk.marks document = []

/-- Where everything is in order and current, what shows is up to date. -/
theorem Current.upToDate {buffers : List Buffer}
    (h : Current settings buffers (fun _ => False) past desk)
    (hdesk : Ordered (fun _ => False) stage past desk) (hsmooth : Smooth past) :
    desk.UpToDate settings where
  configured := h.configured
  shown document entry hon hentry hown := by
    obtain ⟨hlabels, hmarks⟩ := h.fresh hsmooth document id hon entry hentry hown
    have halive := h.rooted.alive hentry
    refine ⟨_, recomputed_eq h.configured.catalog halive,
      extracted_eq h.configured.catalog halive hown, ?_, ?_⟩
    · rw [h.configured.options]
      exact hlabels
    · rw [h.configured.options]
      exact hmarks
  bare document hbare := by
    have huntracked : desk.plugin.overlay.tracks document = false := by
      refine Bool.eq_false_iff.mpr fun htracks => ?_
      rcases hbare with hoff | hnone
      · have hon : desk.plugin.board.isOn document = true := hdesk.1.lit document htracks
        rw [hoff] at hon
        cases hon
      · have hsome := h.backed document htracks
        rw [hnone] at hsome
        cases hsome
    have hlabels : desk.plugin.overlay.labels document = [] := by
      by_contra hsome
      rw [Overlay.tracks_of_labels hsome] at huntracked
      cases huntracked
    exact ⟨huntracked, h.good.2.1.marks_eq_nil hlabels⟩

/-- At first nothing shows. -/
theorem activated_timely (bench : Workbench) (hhoused : bench.Housed)
    (hremembered : bench.store.remembered = some (bench.workspace, settings))
    (past : List Event) :
    let desk := activated bench settings.catalog settings.overlayOptions
    Timely desk.stage (fun _ => False) past desk := by
  intro desk
  have hdesk := activated_ordered bench settings.catalog settings.overlayOptions
  refine ⟨⟨settings, hdesk.2.1, ?_, ⟨hremembered, rfl, rfl⟩, ?_, ?_, rfl⟩, hdesk⟩
  · refine ⟨hhoused.1, fun buffer hactive => hhoused.2 buffer ?_, .fresh _, ?_, .empty⟩
    · exact Option.join_eq_some_iff.mpr hactive
    · intro document entry hentry
      cases hentry
  · intro document htracks
    cases htracks
  · intro _ document _ hon
    cases hon

end Desk

namespace Session

/-! ## Runs -/

/-- A session in which nothing has happened, in an editor whose toolkit has made nothing. -/
def fresh (bench : Workbench) : Session where
  bench := { bench with
    toolkit := { files := bench.toolkit.files, startError := bench.toolkit.startError } }

/-- The documents that are open already are looked at when the plugin is activated. -/
theorem lookAround_inTime (number : Nat) :
    Maintains InTime (do
      Action.emit (.watching settingsGlob)
      Action.each (← Action.get).bench.documents.values fun buffer =>
        within number (Desk.documentOpened buffer)
      return (← Action.get).registered.length) := by
  refine inTime_of_timely fun stage => .bind ?_ fun _ => .gets_bind fun past session h => ?_
  · exact .emit fun past session h => h.later (List.subset_append_left _ _)
  · refine Maintains.bind (.each fun buffer hbuffer => within_timely ?_ number)
      (fun _ => .bind (.gets _) fun _ => .pure _) past session h
    obtain ⟨row, hrow, rfl⟩ := List.mem_map.mp hbuffer
    obtain ⟨plugin, -, hseat⟩ := h.seated
    obtain rfl : (session.seat plugin).stage = stage := hseat.2.2.2.2
    exact Desk.documentOpened_timely (h.housed.1 row hrow).lt

/-- Once the plugin was activated, everything is up to date. -/
theorem activate_inTime {bench : Workbench} (hhoused : bench.Housed) :
    let done := activate (fresh bench)
    InTime done.trace done.state := by
  intro done
  obtain ⟨settings, hsettings, hremembered⟩ :=
    SettingsStore.load_remembers bench.workspace bench.store
  set store := (SettingsStore.load bench.workspace bench.store).state
  have hload : Action.zoom storePart (SettingsStore.load (fresh bench).bench.workspace)
      (fresh bench) = ⟨.ok settings, storePart.set store (fresh bench), _⟩ :=
    Action.eq_of_result hsettings
  have hstart (past : List Event) :=
    Desk.activated_timely { bench with store } hhoused hremembered past
  change InTime (activate (fresh bench)).trace (activate (fresh bench)).state
  rw [activate, Action.bind_of_ok (Action.log_apply _ _), Action.bind_of_quiet (Action.get_apply _),
    Action.bind_of_ok hload, Action.bind_of_ok (Action.log_apply _ _),
    Action.bind_of_quiet (Action.get_apply _), Action.bind_of_quiet (Action.modify_apply _ _)]
  dsimp only
  rw [← List.append_assoc, ← List.append_assoc]
  exact lookAround_inTime 0 _ _ ⟨_, ⟨_, rfl, hstart _⟩, List.forall_mem_nil _, rfl⟩

/-- The smallest parts of a session: a step, without the tasks it leads to; the oldest task; and the
end of a request. -/
inductive Beat where
  | step (taken : Step)
  | task
  | complete (place : Nat)

/-- What happens in a beat. -/
def Beat.act : Beat → Action Session Unit
  | .step taken => do let _ ← taken.act
  | .task => drain 1
  | .complete place => finishRequest place

/-- The plugin is neither activated again nor deactivated, and the workspace stays. -/
def Beat.Ordinary : Beat → Prop
  | .step taken => taken.Ordinary
  | .task | .complete _ => True

instance : (beat : Beat) → Decidable beat.Ordinary
  | .step taken => inferInstanceAs (Decidable taken.Ordinary)
  | .task | .complete _ => .isTrue trivial

theorem Beat.act_inTime {beat : Beat} (hordinary : beat.Ordinary) :
    Maintains InTime beat.act := by
  cases beat with
  | step taken => exact .bind (Step.act_inTime hordinary) fun _ => .pure ()
  | task => exact inTime_of_timely fun _ => drain_timely 1
  | complete place => exact inTime_of_timely fun _ => finishRequest_timely place

/-- Beats keep everything up to date, one after another. -/
theorem inTime_after {past : List Event} {session : Session} (h : InTime past session)
    (beats : List Beat) (hordinary : ∀ beat ∈ beats, beat.Ordinary) :
    InTime (past ++ Action.history Beat.act session beats)
      (Action.finish Beat.act session beats) := by
  induction beats generalizing past session with
  | nil => simpa [Action.history, Action.script] using h
  | cons beat rest ih =>
    rw [Action.history_cons, Action.finish_cons, ← List.append_assoc]
    refine ih (Beat.act_inTime (hordinary beat List.mem_cons_self) past session h) ?_
    exact fun other hother => hordinary other (List.mem_cons_of_mem _ hother)

/-- **Labels are never stale.** Take any session in which the plugin is activated and then goes
through any beats, one after another: documents are opened, edited and closed, editors become
visible, commands are called, files, grammars and settings change, tasks are taken and requests
finish, in any order. Unless a change of a document was reported as failed, the plugin is up to
date then. -/
theorem labels_never_stale (bench : Workbench) (beats : List Beat) (hhoused : bench.Housed)
    (hordinary : ∀ beat ∈ beats, beat.Ordinary) :
    let activated := activate (fresh bench)
    let now := Action.finish Beat.act activated.state beats
    Smooth (activated.trace ++ Action.history Beat.act activated.state beats) →
      ∃ plugin settings, now.plugins = [plugin] ∧ (now.seat plugin).UpToDate settings := by
  intro activated now hsmooth
  obtain ⟨stage, hnow⟩ := inTime_after (activate_inTime hhoused) beats hordinary
  obtain ⟨plugin, hplugins, ⟨settings, hcurrent⟩, hdesk⟩ := hnow.seated
  obtain rfl : (now.seat plugin).stage = stage := hdesk.2.2.2
  exact ⟨plugin, settings, hplugins, hcurrent.upToDate hdesk hsmooth⟩

/-! ## Two sessions -/

/-- What is to be seen of a document with a tree: whether its labels are on, whether a query that is
kept for it is its own, and how many labels show, would be extracted now, and would be extracted if
no query was kept. -/
structure Tally where
  on : Bool
  own : Bool
  shown : Nat
  extracted : Nat
  recomputed : Nat
deriving DecidableEq

/-- What is to be seen of a document in a session with one plugin. -/
def tally? (session : Session) (minLines : Rat) (document : String) : Option Tally := do
  let plugin ← session.plugins[0]?
  let entry ← plugin.forest.entries.get? document
  let desk := session.seat plugin
  let count (labels : Except Fault (List Label)) : Nat := labels.toOption.elim 0 List.length
  return {
    on := plugin.board.isOn document
    own := decide (desk.Own entry)
    shown := (plugin.overlay.labels document).length
    extracted := count (desk.extracted minLines entry)
    recomputed := count (desk.recomputed minLines entry) }

/-- An editor with one grammar that knows one kind, and some settings. -/
def smallEditor (settings : Settings) : Workbench where
  toolkit := { files := .ofRows [("g.wasm", ⟨["a"], false, none⟩)] }
  store := { remembered := some (none, settings) }

/-- A block of that kind. -/
def block : Text := "a\x7b\n\x7d"

/-- One document is open when the plugin is activated, and another is opened later and switched off.
The first is edited, which gives it a second block. -/
theorem labels_never_stale_when_edited :
    let settings : Settings :=
      { minLines := 0, targets := .ofRows [("p", ["a"])], grammars := .ofRows [("p", "g.wasm")] }
    let bench := (smallEditor settings).openDocument "1" ⟨block, "p"⟩
    let beats : List Beat := [.step .settle, .step (.openDocument "2" "p" block), .task, .task,
      .step (.reveal [⟨"e", "1", none⟩]), .step (.focus (some "2")),
      .step (.command "scope-echo.toggle"), .step (.edit "1" [⟨0, 0, "a\x7b\n\x7d\n"⟩])]
    let activated := activate (fresh bench)
    let now := Action.finish Beat.act activated.state beats
    bench.Housed ∧ (∀ beat ∈ beats, beat.Ordinary) ∧
      Smooth (activated.trace ++ Action.history Beat.act activated.state beats) ∧
      now.tally? 0 "1" = some ⟨true, true, 2, 2, 2⟩ ∧
      now.tally? 0 "2" = some ⟨false, true, 0, 1, 1⟩ ∧
      ∃ plugin settings, now.plugins = [plugin] ∧ (now.seat plugin).UpToDate settings := by
  intro settings bench beats activated now
  have hhoused : bench.Housed := by decide +kernel
  have hordinary : ∀ beat ∈ beats, beat.Ordinary := by decide +kernel
  obtain ⟨hsmooth, hfirst, hsecond⟩ :
      Smooth (activated.trace ++ Action.history Beat.act activated.state beats) ∧
        now.tally? 0 "1" = some ⟨true, true, 2, 2, 2⟩ ∧
        now.tally? 0 "2" = some ⟨false, true, 0, 1, 1⟩ := by decide +kernel
  refine ⟨hhoused, hordinary, hsmooth, hfirst, hsecond, ?_⟩
  exact labels_never_stale bench beats hhoused hordinary hsmooth

/-- Two languages whose queries are kept under the same text. The first document has no valid kind
and shows nothing, and so it would be without queries. When the second document was parsed, its
query is kept for the first one too, which therefore would show a label now; and when it was
switched off and on, it does. -/
theorem labels_stale_under_shared_query :
    let settings : Settings :=
      { minLines := 0
        targets := .ofRows [("p", ["a", "x\x00y z"]), ("p\x00a,x", ["y z"])]
        grammars := .ofRows [("p", "g.wasm"), ("p\x00a,x", "g.wasm")] }
    let beats : List Beat := [.step (.openDocument "1" "p\x00a,x" block), .step .settle,
      .step (.openDocument "2" "p" block), .task, .task, .step .settle, .step (.focus (some "1"))]
    let toggles : List Beat :=
      [.step (.command "scope-echo.toggle"), .step (.command "scope-echo.toggle")]
    let activated := activate (fresh (smallEditor settings))
    let before := Action.finish Beat.act activated.state beats
    let after := Action.finish Beat.act activated.state (beats ++ toggles)
    (smallEditor settings).Housed ∧ (∀ beat ∈ beats ++ toggles, beat.Ordinary) ∧
      Smooth (activated.trace ++ Action.history Beat.act activated.state (beats ++ toggles)) ∧
      before.tally? 0 "1" = some ⟨true, false, 0, 1, 0⟩ ∧
      after.tally? 0 "1" = some ⟨true, false, 1, 1, 0⟩ := by
  decide +kernel

end Session

end ClosingLabels
