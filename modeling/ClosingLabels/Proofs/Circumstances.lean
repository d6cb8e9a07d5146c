import ClosingLabels.Proofs.Sparing

/-!
# What a document shows depends on its circumstances alone

On a recorder that refuses nothing, a document that was redrawn shows what its
publication, the kinds of the catalog, the options and the least height call for. No
earlier step has any influence on it, neither earlier options nor labels of other
documents, and until the next step that acts on the document it stays that way. Two runs
that end in the same circumstances hence show the same.
-/

namespace ClosingLabels

open ClosingLabels.Action (Maintains)

namespace Scenario

open Switchboard SwitchboardRun

/-! ## What a trigger makes a document show -/

/-- Whether a step redraws a document. -/
def SwitchboardStep.triggers (run : SwitchboardRun) (document : String) : SwitchboardStep → Bool
  | .enable name => name = document && !run.board.isOn document
  | .toggle name => name = document && !run.board.isOn document
  | .announce _ name => name = document && run.board.isOn document
  | .redrawAll => run.board.isOn document
  | .disable _ | .dispose | .publish .. | .setMinLines _ | .isOn _ | .setOptions _ | .reload .. =>
    false

/-- What decides about the labels of a document: its publication, the kinds that count as blocks in
each language, the options and the least height. -/
structure Circumstances where
  publication : Option Publication
  kinds : Text → List Text
  options : OverlayOptions
  minLines : Rat

namespace Circumstances

/-- The labels to be drawn. -/
def chosen (circumstances : Circumstances) : List Label :=
  match circumstances.publication with
  | none => []
  | some publication =>
    let kinds := circumstances.kinds publication.language
    circumstances.options.select
      (Label.gather publication.document circumstances.minLines kinds (publication.find kinds))

end Circumstances

namespace SwitchboardRun

variable {run : SwitchboardRun} {document : String} {given : Circumstances}

/-- The circumstances of a document in a run. -/
def circumstances (run : SwitchboardRun) (document : String) : Circumstances :=
  ⟨run.feed.published.get? document, run.catalog.kinds, run.overlay.options, run.minLines⟩

/-- The circumstances are all that is looked up. -/
theorem circumstances_congr {other : SwitchboardRun}
    (hpublication : run.feed.published.get? document = other.feed.published.get? document)
    (hcatalog : run.catalog = other.catalog) (hoptions : run.overlay.options = other.overlay.options)
    (hminLines : run.minLines = other.minLines) :
    run.circumstances document = other.circumstances document := by
  simp only [circumstances, hpublication, hcatalog, hoptions, hminLines]

/-- A document shows what its circumstances call for. -/
structure Shows (document : String) (given : Circumstances) (run : SwitchboardRun) :
    Prop where
  labels : (run.overlay.labels document).map Placed.content =
    given.chosen.map Label.content
  marks : (run.marks document).map Mark.look =
    (given.chosen.map Label.content).map given.options.look

/-- A document in certain circumstances can be drawn. -/
structure Ready (document : String) (given : Circumstances) (run : SwitchboardRun) : Prop where
  apt : run.Apt
  owned : (overlaySite.sheet SwitchboardRun.marks run).Owned
  unseen : ∀ other, run.feed.published.get? other = none → run.overlay.labels other = []
  same : run.circumstances document = given

theorem Kept.ready (h : run.Kept) (document : String) :
    Ready document (run.circumstances document) run := ⟨h.apt, h.owned, h.unseen, rfl⟩

/-- Whatever is refreshed, circumstances stay. -/
theorem circumstances_refresh (h : Ready document given run) (name : String) :
    (Switchboard.refresh site name run).state.circumstances document = given := by
  have hoptions : (Switchboard.refresh site name run).state.overlay.options =
      run.overlay.options := by
    have hgood : site.Good SwitchboardRun.marks Apt
        (fun sheet => sheet.options = run.overlay.options) [] run := ⟨h.apt, h.owned, rfl⟩
    exact (drawable.refresh (fun _ _ hsame hnew _ => hnew.trans hsame) [] run hgood).2.2
  have haround := refresh_surroundings name run
  simp only [surroundings, Surroundings.mk.injEq] at haround
  obtain ⟨hpublished, hcatalog, hminLines⟩ := haround
  exact (circumstances_congr (by rw [hpublished]) hcatalog hoptions hminLines).trans h.same

/-- Whatever is refreshed, the document can still be drawn, and unless it was refreshed itself it
shows what it showed. -/
theorem Ready.refresh_other (h : Ready document given run) (name : String) :
    Ready document given (Switchboard.refresh site name run).state ∧
      (name ≠ document → Shows document given run →
        Shows document given (Switchboard.refresh site name run).state) := by
  have hstart : Sparing run.surroundings (· ≠ name) (overlaySite.sheet SwitchboardRun.marks run)
      [] run := ⟨⟨h.apt, h.owned, h.unseen, fun _ _ => ⟨rfl, rfl⟩⟩, rfl⟩
  have hrefresh : Maintains (Sparing run.surroundings (· ≠ name)
      (overlaySite.sheet SwitchboardRun.marks run)) (Switchboard.refresh site name) :=
    refresh_spares fun hself => hself rfl
  obtain ⟨⟨hapt, howned, hunseen, hspared⟩, haround⟩ := hrefresh [] run hstart
  have hpublished : (Switchboard.refresh site name run).state.feed.published =
      run.feed.published := congrArg Surroundings.published haround
  refine ⟨⟨hapt, howned, by rw [hpublished]; exact hunseen, circumstances_refresh h name⟩,
    fun hne hshows => ?_⟩
  obtain ⟨hlabels, hmarks⟩ := hspared document hne.symm
  constructor
  · exact (congrArg (List.map Placed.content) hlabels).trans hshows.labels
  · exact (congrArg (List.map Mark.look) hmarks).trans hshows.marks

/-- Refreshing a document makes it show what its circumstances call for. -/
theorem Ready.refresh_shows (h : Ready document given run) :
    Shows document given (Switchboard.refresh site document run).state := by
  cases hpublication : run.feed.published.get? document with
  | none =>
    have hempty := h.unseen document hpublication
    have hnone : given.chosen = [] := by
      rw [← h.same]
      simp [Circumstances.chosen, SwitchboardRun.circumstances, hpublication]
    have hmarks : run.marks document = [] := h.owned.marks_eq_nil hempty
    rw [refresh_unpublished hpublication]
    constructor
    · rw [hempty, hnone]
      rfl
    · rw [hmarks, hnone]
      rfl
  | some publication =>
    have hview : site.feed.view? document run = ⟨.ok (some publication.view), run, []⟩ := by
      have hread : site.feed.view? document run =
          ⟨.ok ((run.feed.published.get? document).map Publication.view), run, []⟩ := rfl
      rw [hread, hpublication]
      rfl
    have hchosen : given.chosen = run.overlay.options.select
        (Label.gather publication.document run.minLines (run.catalog.kinds publication.language)
          (publication.find (run.catalog.kinds publication.language))) := by
      rw [← h.same]
      simp [Circumstances.chosen, SwitchboardRun.circumstances, hpublication]
    have hoptions : given.options = run.overlay.options := by rw [← h.same]; rfl
    obtain ⟨_, _, hrenewed⟩ := drawable.refresh_renews hview rfl h.apt h.owned
    have hlabels : ((Switchboard.refresh site document run).state.overlay.labels document).map
        Placed.content = given.chosen.map Label.content := by
      rw [hchosen]
      exact hrenewed.labels
    have hmarks : (Switchboard.refresh site document run).state.marks document =
        ((Switchboard.refresh site document run).state.overlay.labels document).map
          run.overlay.options.mark := hrenewed.marks
    refine ⟨hlabels, ?_⟩
    rw [hmarks, ← hlabels, List.map_map, List.map_map, hoptions]
    rfl

/-- Refreshing several documents makes those among them show what their circumstances call for. -/
theorem Ready.refreshEach (h : Ready document given run) {documents : List String}
    (hmem : document ∈ documents) :
    Shows document given (Action.each documents (Switchboard.refresh site) run).state := by
  -- A document that shows what it should goes on doing so, whatever is refreshed next.
  have hstays (names : List String) : Maintains
      (fun _ run => Ready document given run ∧ Shows document given run)
      (Action.each names (Switchboard.refresh site)) := by
    refine .each fun name _ => ?_
    rintro past run ⟨hready, hshows⟩
    obtain ⟨hafter, hother⟩ := hready.refresh_other name
    by_cases hname : name = document
    · rw [hname] at hafter ⊢
      exact ⟨hafter, hready.refresh_shows⟩
    · exact ⟨hafter, hother hname hshows⟩
  induction documents generalizing run with
  | nil => cases hmem
  | cons name rest ih =>
    rw [Action.each, Action.bind_of_ok (Action.eq_of_result (tidy.refresh_result name run))]
    have hafter := (h.refresh_other name).1
    by_cases hname : name = document
    · have hshows : Shows document given (Switchboard.refresh site name run).state := by
        rw [hname]
        exact h.refresh_shows
      exact (hstays rest [] _ ⟨hafter, hshows⟩).2
    · exact ih hafter ((List.mem_cons.mp hmem).resolve_left fun heq => hname heq.symm)

/-- Switching labels on makes a document show what its circumstances call for. -/
theorem Kept.enable_shows (h : run.Kept) (hoff : run.board.isOn document = false) :
    Shows document (run.circumstances document)
      (Switchboard.enable site document run).state := by
  set wired : SwitchboardRun :=
    { run with
      feed := (run.feed.withSubscriber .parsed document).withSubscriber .changed document
      board := ⟨run.board.wires.insert document ⟨run.feed.next, run.feed.next + 1⟩⟩ }
  have hrun : Switchboard.enable site document run = (do
      Action.log (.enabled document)
      Switchboard.refresh site document) wired := by
    rw [Switchboard.enable, Action.bind_of_quiet (Action.look_apply _ _)]
    have hcond : ((site.part.get run).isOn document) = false := hoff
    rw [hcond]
    rfl
  have hready : Ready document (run.circumstances document) wired :=
    ⟨h.apt.of_recorder rfl, h.owned, h.unseen, rfl⟩
  rw [hrun, Action.bind_of_ok (Action.log_apply _ _)]
  exact hready.refresh_shows

end SwitchboardRun

/-- A trigger makes a document show what its circumstances call for. -/
theorem SwitchboardStep.triggers_shows {run : SwitchboardRun} (h : run.Kept)
    {step : SwitchboardStep} {document : String} (hstep : step.triggers run document = true) :
    SwitchboardRun.Shows document (run.circumstances document) (step.perform run).state := by
  cases step with
  | enable name =>
    obtain ⟨rfl, hoff⟩ : name = document ∧ run.board.isOn document = false := by
      simpa [SwitchboardStep.triggers] using hstep
    rw [SwitchboardStep.state_enable]
    exact h.enable_shows hoff
  | toggle name =>
    obtain ⟨rfl, hoff⟩ : name = document ∧ run.board.isOn document = false := by
      simpa [SwitchboardStep.triggers] using hstep
    rw [SwitchboardStep.state_toggle, hoff, if_neg (by simp)]
    exact h.enable_shows hoff
  | announce trigger name =>
    obtain ⟨rfl, hon⟩ : name = document ∧ run.board.isOn document = true := by
      simpa [SwitchboardStep.triggers] using hstep
    obtain ⟨number, hnumber⟩ : ∃ number, run.feed.subscribers trigger name = [number] := by
      have hcount : (run.hearing trigger name).length = if run.board.isOn name then 1 else 0 :=
        h.sound.length_hearing trigger name
      rw [hon, hearing, List.length_map] at hcount
      exact List.length_eq_one_iff.mp hcount
    rw [SwitchboardStep.state_announce, hnumber, Action.each, Action.each, Action.state_bind_pure]
    exact (h.ready name).refresh_shows
  | redrawAll =>
    have hon : run.board.isOn document = true := hstep
    rw [SwitchboardStep.state_redrawAll]
    exact (h.ready document).refreshEach ((Table.mem_keys_iff _ _).mpr hon)
  | _ => cases hstep

/-! ## Runs -/

/-- None of some steps acts on a document when its turn comes. -/
def Untouched (document : String) : SwitchboardRun → List SwitchboardStep → Prop
  | _, [] => True
  | run, step :: rest =>
    step.acts run document = false ∧ Untouched document (step.perform run).state rest

instance decidableUntouched (document : String) :
    (run : SwitchboardRun) → (steps : List SwitchboardStep) →
      Decidable (Untouched document run steps)
  | _, [] => .isTrue trivial
  | run, step :: rest =>
    have := decidableUntouched document (step.perform run).state rest
    inferInstanceAs (Decidable (_ ∧ _))

/-- The last step that acted on a document was a trigger, in the circumstances of the end. -/
structure Settled (document : String) (start : SwitchboardRun) (before : List SwitchboardStep)
    (trigger : SwitchboardStep) (after : List SwitchboardStep) : Prop where
  triggered : trigger.triggers (Action.finish SwitchboardStep.perform start before) document = true
  untouched : Untouched document
    (Action.finish SwitchboardStep.perform start (before ++ [trigger])) after
  same : (Action.finish SwitchboardStep.perform start before).circumstances document =
    (Action.finish SwitchboardStep.perform start (before ++ trigger :: after)).circumstances
      document

/-- Whether the labels of a document are on changes only when a step acts on it. -/
theorem SwitchboardStep.isOn_of_not_acts {run : SwitchboardRun} {step : SwitchboardStep}
    {document : String} (hidle : step.acts run document = false) :
    (step.perform run).state.board.isOn document = run.board.isOn document := by
  have henable (name : String) (hname : name = document → run.board.isOn document = true) :
      (Switchboard.enable site name run).state.board.isOn document =
        run.board.isOn document := by
    refine ((tidy.enable_spec name run).2 document).trans ?_
    by_cases heq : document = name
    · have hon : (site.part.get run).isOn document = true := hname heq.symm
      rw [hon, Bool.or_true, hname heq.symm]
    · rw [decide_eq_false heq, Bool.false_or]
      rfl
  have hdisable (name : String) (hname : name = document → run.board.isOn document = false) :
      (Switchboard.disable site name run).state.board.isOn document =
        run.board.isOn document := by
    refine (tidy.disable_board name document run).trans ?_
    by_cases heq : document = name
    · have hoff : (site.part.get run).isOn document = false := hname heq.symm
      rw [hoff, Bool.and_false, hname heq.symm]
    · rw [decide_eq_true heq, Bool.true_and]
      rfl
  cases step with
  | publish name publication => cases publication <;> rfl
  | announce trigger name =>
    rw [SwitchboardStep.state_announce]
    exact congrArg (Switchboard.isOn · document) (tidy.refreshEach_board _ (fun _ => name) run)
  | setMinLines value => rfl
  | enable name =>
    rw [SwitchboardStep.state_enable]
    exact henable name (by simpa [SwitchboardStep.acts] using hidle)
  | disable name =>
    rw [SwitchboardStep.state_disable]
    exact hdisable name (by simpa [SwitchboardStep.acts] using hidle)
  | toggle name =>
    have hname : name ≠ document := by simpa [SwitchboardStep.acts] using hidle
    rw [SwitchboardStep.state_toggle]
    split
    · exact hdisable name fun heq => (hname heq).elim
    · exact henable name fun heq => (hname heq).elim
  | isOn name => rfl
  | redrawAll =>
    rw [SwitchboardStep.state_redrawAll]
    exact congrArg (Switchboard.isOn · document) (tidy.refreshEach_board _ (fun name => name) run)
  | setOptions options => rfl
  | reload overrides grammars => rfl
  | dispose =>
    have hoff : run.board.isOn document = false := hidle
    have hkeeps : Maintains (fun _ after => after.board.isOn document = false)
        (Action.each run.board.documents (Switchboard.disable site)) := by
      refine .each fun name _ _ after hafter => (tidy.disable_board name document after).trans ?_
      have hstill : (site.part.get after).isOn document = false := hafter
      rw [hstill, Bool.and_false]
    rw [SwitchboardStep.state_dispose, hoff]
    exact hkeeps [] run hoff

/-- A trigger leaves the labels of its document on. -/
theorem SwitchboardStep.isOn_of_triggers {run : SwitchboardRun} {step : SwitchboardStep}
    {document : String} (hstep : step.triggers run document = true) :
    (step.perform run).state.board.isOn document = true := by
  have henable : (Switchboard.enable site document run).state.board.isOn document = true := by
    refine ((tidy.enable_spec document run).2 document).trans ?_
    simp
  cases step with
  | enable name =>
    obtain ⟨rfl, _⟩ : name = document ∧ run.board.isOn document = false := by
      simpa [SwitchboardStep.triggers] using hstep
    rw [SwitchboardStep.state_enable]
    exact henable
  | toggle name =>
    obtain ⟨rfl, hoff⟩ : name = document ∧ run.board.isOn document = false := by
      simpa [SwitchboardStep.triggers] using hstep
    rw [SwitchboardStep.state_toggle, hoff, if_neg (by simp)]
    exact henable
  | announce trigger name =>
    obtain ⟨rfl, hon⟩ : name = document ∧ run.board.isOn document = true := by
      simpa [SwitchboardStep.triggers] using hstep
    rw [SwitchboardStep.state_announce]
    exact (congrArg (Switchboard.isOn · name)
      (tidy.refreshEach_board _ (fun _ => name) run)).trans hon
  | redrawAll =>
    have hon : run.board.isOn document = true := hstep
    rw [SwitchboardStep.state_redrawAll]
    exact (congrArg (Switchboard.isOn · document)
      (tidy.refreshEach_board _ (fun name => name) run)).trans hon
  | _ => cases hstep

namespace SwitchboardRun

variable {run : SwitchboardRun} {document : String} {given : Circumstances}

/-- A fresh run is in order. -/
theorem fresh_kept (options : OverlayOptions) (catalog : Catalog) (minLines : Rat) :
    (fresh options {} catalog minLines).Kept where
  apt := ⟨rfl, rfl, fun _ hmem => by cases hmem⟩
  owned := ⟨fun _ => rfl, fun _ _ _ _ hmem => by cases hmem⟩
  sound := fresh_sound _ _ _ _
  unseen _ _ := rfl

theorem Kept.finish (h : run.Kept) (steps : List SwitchboardStep) :
    (Action.finish SwitchboardStep.perform run steps).Kept := by
  induction steps generalizing run with
  | nil => exact h
  | cons step rest ih =>
    rw [Action.finish_cons]
    exact ih (step.perform_spares h).1

/-- While no step acts on it, a document shows what it showed, and its labels are on if they were. -/
theorem Shows.finish (hshows : Shows document given run) (h : run.Kept)
    {steps : List SwitchboardStep} (hsteps : Untouched document run steps) :
    Shows document given (Action.finish SwitchboardStep.perform run steps) ∧
      (Action.finish SwitchboardStep.perform run steps).board.isOn document =
        run.board.isOn document := by
  induction steps generalizing run with
  | nil => exact ⟨hshows, rfl⟩
  | cons step rest ih =>
    obtain ⟨hidle, hrest⟩ := hsteps
    obtain ⟨hkept, hspared⟩ := step.perform_spares h
    obtain ⟨hlabels, hmarks⟩ := hspared document hidle
    have hstill : Shows document given (step.perform run).state :=
      ⟨by rw [hlabels]; exact hshows.labels, by rw [hmarks]; exact hshows.marks⟩
    obtain ⟨hend, hon⟩ := ih hstill hkept hrest
    rw [Action.finish_cons]
    exact ⟨hend, hon.trans (SwitchboardStep.isOn_of_not_acts hidle)⟩

/-- What a document shows: the labels on record, and the marks with their look, oldest first. -/
def shown (run : SwitchboardRun) (document : String) :
    List (Rat × Text) × List (Rat × Text × Style) :=
  ((run.overlay.labels document).map Placed.content,
    (run.recorder.live.filter (·.document = document)).map fun d => (d.anchor, d.text, d.style))

/-- What it has to show in its circumstances. -/
theorem Shows.shown_eq (h : Shows document given run) :
    run.shown document = (given.chosen.map Label.content,
      (given.chosen.map Label.content).map given.options.look) := by
  have hmarks := h.marks
  rw [SwitchboardRun.marks, List.map_map] at hmarks
  exact Prod.ext h.labels hmarks

end SwitchboardRun

/-- After a settled run a document shows what its circumstances call for, and its labels are on. -/
theorem Settled.shows {document : String} {start : SwitchboardRun}
    {before after : List SwitchboardStep} {trigger : SwitchboardStep}
    (h : Settled document start before trigger after) (hstart : start.Kept) :
    let now := Action.finish SwitchboardStep.perform start (before ++ trigger :: after)
    SwitchboardRun.Shows document (now.circumstances document) now ∧
      now.board.isOn document = true := by
  dsimp only
  have hthen := hstart.finish before
  have hshows := SwitchboardStep.triggers_shows hthen h.triggered
  have huntouched := h.untouched
  rw [Action.finish_append, Action.finish_cons, Action.finish_nil] at huntouched
  obtain ⟨hend, hon⟩ := hshows.finish (trigger.perform_spares hthen).1 huntouched
  rw [h.same] at hend
  rw [Action.finish_append, Action.finish_cons] at hend ⊢
  exact ⟨hend, hon.trans (SwitchboardStep.isOn_of_triggers h.triggered)⟩

namespace SwitchboardRun

variable {run : SwitchboardRun} {document : String}

/-- Switching labels off leaves a document in its circumstances. -/
theorem Kept.disable (h : run.Kept) (document : String) :
    (Switchboard.disable site document run).state.Kept ∧
      (Switchboard.disable site document run).state.board.isOn document = false ∧
      (Switchboard.disable site document run).state.circumstances document =
        run.circumstances document := by
  have hkept := ((SwitchboardStep.disable document).perform_spares h).1
  rw [SwitchboardStep.state_disable] at hkept
  refine ⟨hkept, (tidy.disable_board document document run).trans (by simp), ?_⟩
  have hsparing : Maintains (Sparing run.surroundings (fun _ => False)
      (overlaySite.sheet marks run)) (Switchboard.disable site document) := disable_spares id
  have haround := (hsparing [] run (h.sparing _)).2
  have hoptions : (Switchboard.disable site document run).state.overlay.options =
      run.overlay.options := by
    have hgood : site.Good marks Apt (fun sheet => sheet.options = run.overlay.options) [] run :=
      ⟨h.apt, h.owned, rfl⟩
    exact (drawable.disable (fun _ hsame => hsame) [] run hgood).2.2
  simp only [surroundings, Surroundings.mk.injEq] at haround
  obtain ⟨hpublished, hcatalog, hminLines⟩ := haround
  exact circumstances_congr (by rw [hpublished]) hcatalog hoptions hminLines

/-- Switching labels off and on again makes a document show what its circumstances call for. -/
theorem Kept.again_shows (h : run.Kept) (hon : run.board.isOn document = true) :
    Shows document (run.circumstances document)
      (Action.finish SwitchboardStep.perform run [.disable document, .enable document]) ∧
    Shows document (run.circumstances document)
      (Action.finish SwitchboardStep.perform run [.toggle document, .toggle document]) := by
  obtain ⟨hkept, hoff, hsame⟩ := h.disable document
  have hshows := hkept.enable_shows hoff
  rw [hsame] at hshows
  simp only [Action.finish_cons, Action.finish_nil, SwitchboardStep.state_enable,
    SwitchboardStep.state_disable, SwitchboardStep.state_toggle, hon, hoff, if_true,
    Bool.false_eq_true, if_false]
  exact ⟨hshows, hshows⟩

end SwitchboardRun

/-- The steps that bring a document into its circumstances afresh and switch its labels on. -/
def SwitchboardRun.anew (run : SwitchboardRun) (document : String) : List SwitchboardStep :=
  (run.feed.published.get? document).toList.map
    (fun publication => .publish document (.ok publication)) ++ [.enable document]

/-- Labels that are switched on for the first time are those the circumstances call for. -/
theorem SwitchboardRun.anew_shows (run : SwitchboardRun) (document : String) :
    Shows document (run.circumstances document) (Action.finish SwitchboardStep.perform
      (fresh run.overlay.options {} run.catalog run.minLines) (run.anew document)) := by
  set start := fresh run.overlay.options {} run.catalog run.minLines with hstart
  have hkept : start.Kept := fresh_kept _ _ _
  have hsteps : ∀ published : List SwitchboardStep,
      (Action.finish SwitchboardStep.perform start published).board = {} →
      (Action.finish SwitchboardStep.perform start published).circumstances document =
        run.circumstances document →
      Shows document (run.circumstances document)
        (Action.finish SwitchboardStep.perform start (published ++ [.enable document])) := by
    intro published hboard hsame
    have hoff : (Action.finish SwitchboardStep.perform start published).board.isOn document =
        false := by rw [hboard]; rfl
    rw [Action.finish_append, Action.finish_cons, Action.finish_nil, SwitchboardStep.state_enable,
      ← hsame]
    exact (hkept.finish published).enable_shows hoff
  unfold anew
  cases hpublication : run.feed.published.get? document with
  | none =>
    refine hsteps [] rfl ?_
    simp [SwitchboardRun.circumstances, hstart, fresh, hpublication]
  | some publication =>
    refine hsteps [.publish document (.ok publication)] rfl ?_
    have hpublished : (Action.finish SwitchboardStep.perform start
        [.publish document (.ok publication)]).circumstances document =
        ⟨(Table.empty.insert document publication).get? document, run.catalog.kinds,
          run.overlay.options, run.minLines⟩ := rfl
    rw [hpublished, Table.get?_insert_self, SwitchboardRun.circumstances, hpublication]

/-- **Circumstances.** Take two runs, each from any start on a recorder that refuses nothing, whose
last step that acted on a document was a trigger taken in the circumstances of the end. If they end
in the same circumstances, the document shows the same labels and the same marks. It shows them
also after its labels were switched off and on, or switched over twice, and when they are switched
on for the first time. -/
theorem shown_by_circumstances (document : String) {options options' : OverlayOptions}
    {catalog catalog' : Catalog} {minLines minLines' : Rat}
    {before after before' after' : List SwitchboardStep} {trigger trigger' : SwitchboardStep}
    (h : Settled document (fresh options {} catalog minLines) before trigger after)
    (h' : Settled document (fresh options' {} catalog' minLines') before' trigger' after')
    (hsame :
      (Action.finish SwitchboardStep.perform (fresh options {} catalog minLines)
        (before ++ trigger :: after)).circumstances document =
      (Action.finish SwitchboardStep.perform (fresh options' {} catalog' minLines')
        (before' ++ trigger' :: after')).circumstances document) :
    let now := Action.finish SwitchboardStep.perform (fresh options {} catalog minLines)
      (before ++ trigger :: after)
    let other := Action.finish SwitchboardStep.perform (fresh options' {} catalog' minLines')
      (before' ++ trigger' :: after')
    let first := Action.finish SwitchboardStep.perform
      (fresh now.overlay.options {} now.catalog now.minLines) (now.anew document)
    now.shown document = other.shown document ∧
    (Action.finish SwitchboardStep.perform now [.disable document, .enable document]).shown
      document = first.shown document ∧
    (Action.finish SwitchboardStep.perform now [.toggle document, .toggle document]).shown
      document = first.shown document ∧
    now.shown document = first.shown document := by
  intro now other first
  obtain ⟨hnow, hon⟩ := h.shows (fresh_kept options catalog minLines)
  obtain ⟨hother, _⟩ := h'.shows (fresh_kept options' catalog' minLines')
  have hkept : now.Kept := (fresh_kept options catalog minLines).finish _
  obtain ⟨hagain, htwice⟩ := hkept.again_shows hon
  have hfirst := (now.anew_shows document).shown_eq
  rw [← hsame] at hother
  refine ⟨hnow.shown_eq.trans hother.shown_eq.symm, ?_, ?_, hnow.shown_eq.trans hfirst.symm⟩
  · exact hagain.shown_eq.trans hfirst.symm
  · exact htwice.shown_eq.trans hfirst.symm

/-- Two ways to the same circumstances. In the first run, a document is drawn from an older
publication, under other options and beside another document, before its last change is announced;
in the second, its labels are switched over at once, in surroundings that started out different. -/
theorem shown_by_circumstances_two_ways :
    let kinds : Table Text (List Text) := .ofRows [([112], [[105]])]
    let catalog := Catalog.make kinds .empty .empty
    let other := Catalog.make kinds (.ofRows [([112], [[106]])]) .empty
    let plain : OverlayOptions := { marker := [62], style := .standard, oneForEachAnchor := false }
    let old : Publication := ⟨[⟨[105], 0, 7⟩], none, ⟨[97, 10, 98, 10, 99, 10, 100], [112]⟩, [112]⟩
    let new : Publication :=
      ⟨[⟨[105], 0, 5⟩, ⟨[105], 2, 5⟩], none, ⟨[97, 10, 98, 10, 99], [112]⟩, [112]⟩
    let before := [.publish "a" (.ok old), .publish "b" (.ok old), .enable "a", .enable "b",
      .setOptions plain, .publish "a" (.ok new)]
    let after := [.isOn "a", .announce .parsed "b", .disable "b", .setMinLines 3, .setMinLines 0]
    let before' := [.publish "a" (.ok new), .setMinLines 0, .reload .empty .empty]
    let trigger := .announce .changed "a"
    let now := Action.finish SwitchboardStep.perform (fresh {} {} catalog 0)
      (before ++ trigger :: after)
    let now' := Action.finish SwitchboardStep.perform (fresh plain {} other 9)
      (before' ++ [.toggle "a"])
    Settled "a" (fresh {} {} catalog 0) before trigger after ∧
    Settled "a" (fresh plain {} other 9) before' (.toggle "a") [] ∧
    now.circumstances "a" = now'.circumstances "a" ∧
    now.shown "a" = now'.shown "a" ∧
    now'.shown "a" = ([(5, [98]), (5, [97])],
      [(5, [62, 98], .standard), (5, [62, 97], .standard)]) := by
  intro kinds catalog other plain old new before after before' trigger now now'
  have hsettled : Settled "a" (fresh {} {} catalog 0) before trigger after := by
    refine ⟨by decide +kernel, by decide +kernel, circumstances_congr ?_ ?_ ?_ ?_⟩
    all_goals decide +kernel
  have hsettled' : Settled "a" (fresh plain {} other 9) before' (.toggle "a") [] := by
    refine ⟨by decide +kernel, trivial, circumstances_congr ?_ ?_ ?_ ?_⟩
    all_goals decide +kernel
  have hsame : now.circumstances "a" = now'.circumstances "a" := by
    refine circumstances_congr ?_ ?_ ?_ ?_
    all_goals decide +kernel
  exact ⟨hsettled, hsettled', hsame, (shown_by_circumstances "a" hsettled hsettled' hsame).1,
    by decide +kernel⟩

end Scenario

end ClosingLabels
