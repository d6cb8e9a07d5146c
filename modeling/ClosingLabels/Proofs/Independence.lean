import ClosingLabels.Proofs.Circumstances

/-!
# Documents are independent

All documents share one record, one canvas with one counter of handles, and one table of
wires, and some steps go through all of them. Still, what happens to one document could be
told from its own steps: if all steps for other documents are left out of a run, the
document has its labels on or off as before, is listened to as before, and shows the same
labels and marks. Only the handles may be others.

The two runs are compared step by step. A step for another document is taken in the full
run only and does not act on the document; any other step is taken in both, and leaves in
both what the common basis of the document calls for.
-/

namespace ClosingLabels

open ClosingLabels.Action (Maintains Succeeds)

namespace Scenario

open Switchboard SwitchboardRun

/-! ## What labels are based on -/

/-- What the labels of a document are based on: its publication, the catalog, the options, the
least height, and the requests that the canvas refuses. -/
structure Basis where
  publication : Option Publication
  catalog : Catalog
  options : OverlayOptions
  minLines : Rat
  refusals : Refusals

/-- What a step makes of the basis of a document. -/
def SwitchboardStep.rebase (document : String) (basis : Basis) : SwitchboardStep → Basis
  | .publish name (.ok publication) =>
    if name = document then { basis with publication := some publication } else basis
  | .setMinLines value => { basis with minLines := value }
  | .setOptions options => { basis with options }
  | .reload overrides grammars => { basis with catalog := basis.catalog.reload overrides grammars }
  | .publish _ (.error _) | .announce .. | .enable _ | .disable _ | .toggle _ | .isOn _
  | .redrawAll | .dispose => basis

namespace SwitchboardRun

/-- The basis of a document in a run. -/
def basis (run : SwitchboardRun) (document : String) : Basis :=
  ⟨run.feed.published.get? document, run.catalog, run.overlay.options, run.minLines,
    run.recorder.refusals⟩

/-- The basis decides about the circumstances. -/
theorem circumstances_of_basis {run other : SwitchboardRun} {document : String}
    (h : run.basis document = other.basis document) :
    run.circumstances document = other.circumstances document := by
  simp only [basis, Basis.mk.injEq] at h
  obtain ⟨hpublication, hcatalog, hoptions, hminLines, -⟩ := h
  exact circumstances_congr hpublication hcatalog hoptions hminLines

/-- Drawing any document leaves the basis of each as it is. -/
theorem tends_basis (document : String) (basis : Basis) (name : String) :
    overlaySite.Tends name fun _ run => run.basis document = basis where
  forget _ _ h := h
  register _ run h := by
    rw [← h]
    simp [SwitchboardRun.basis, overlaySite]
  push _ _ _ h := h
  draw anchor text style _ run h := by
    change (Action.zoom recorderPart (Recorder.draw name anchor text style) run).state.basis
      document = basis
    rw [Action.zoom_apply, Recorder.draw_apply]
    split
    · exact h
    · exact h
  erase handle _ run h := by
    change (Action.zoom recorderPart (Recorder.erase name handle) run).state.basis document = basis
    rw [Action.zoom_apply, Recorder.erase_apply]
    split
    · exact h
    · exact h
  flush _ run h := by
    change (Action.zoom recorderPart (Recorder.flush name) run).state.basis document = basis
    rw [Action.zoom_apply, Recorder.flush_apply]
    split
    · exact h
    · exact h
  report _ _ _ _ h := h

/-- So does refreshing one. -/
theorem refresh_basis (document : String) (basis : Basis) (name : String) :
    Maintains (fun _ run => run.basis document = basis) (Switchboard.refresh site name) := by
  refine refresh_maintains (tends_basis document basis name) (.gets _) fun s =>
    ⟨_, rfl, fun shown hshown kinds => ?_⟩
  obtain ⟨publication, _, rfl⟩ := Option.map_eq_some_iff.mp hshown
  exact .ofExcept _

/-- So does switching its labels on. -/
theorem enable_basis (document : String) (basis : Basis) (name : String) :
    Maintains (fun _ run => run.basis document = basis) (Switchboard.enable site name) := by
  have hsubscribe (trigger : Trigger) : Maintains (fun _ run => run.basis document = basis)
      (site.feed.subscribe trigger name) := by
    intro past run h
    cases trigger <;> exact h
  refine .bind (.gets _) fun board => .ite (.pure ()) ?_
  refine .bind (hsubscribe .parsed) fun parsed => .bind (hsubscribe .changed) fun changed => ?_
  refine .bind (.adjust fun _ _ h => h) fun _ => ?_
  exact .bind (.emit fun _ _ h => h) fun _ => refresh_basis document basis name

/-- And so does switching them off. -/
theorem disable_basis (document : String) (basis : Basis) (name : String) :
    Maintains (fun _ run => run.basis document = basis) (Switchboard.disable site name) := by
  have hunsubscribe (trigger : Trigger) (number : Nat) :
      Maintains (fun _ run => run.basis document = basis)
        (site.feed.unsubscribe trigger name number) := by
    intro past run h
    rw [← h]
    exact congrArg (fun table : Table String Publication => Basis.mk (table.get? document)
      run.catalog run.overlay.options run.minLines run.recorder.refusals)
      (ManualFeed.published_withoutSubscriber run.feed trigger name number)
  refine .bind (.gets _) fun board => ?_
  cases board.wires.get? name with
  | none => exact .pure ()
  | some wires =>
    refine .bind (.adjust fun _ _ h => h) fun _ => .bind (hunsubscribe .parsed _) fun _ => ?_
    refine .bind (hunsubscribe .changed _) fun _ => .bind (tends_basis document basis name).clear ?_
    exact fun _ => .emit fun _ _ h => h

/-- Labels can be switched off where no flush is refused. -/
theorem disable_succeeds (name : String) :
    Succeeds (fun run : SwitchboardRun => run.recorder.refusals = {})
      (Switchboard.disable site name) := by
  refine Switchboard.disable_succeeds (fun _ _ h => h) (fun _ _ h => h)
    (fun _ _ _ h => ⟨⟨(), rfl⟩, h⟩) (fun handle run h => ?_) fun run h => ?_
  · change (Action.zoom recorderPart (Recorder.erase name handle) run).state.recorder.refusals = {}
    rw [Action.zoom_apply, Recorder.erase_apply]
    split
    · exact h
    · exact h
  · change (∃ done, (Action.zoom recorderPart (Recorder.flush name) run).result = .ok done) ∧
      (Action.zoom recorderPart (Recorder.flush name) run).state.recorder.refusals = {}
    rw [Action.zoom_apply, Recorder.flush_apply, if_neg (by simp [recorderPart, h])]
    exact ⟨⟨(), rfl⟩, h⟩

end SwitchboardRun

/-- No step changes what is refused. -/
theorem SwitchboardStep.refusals_rebase (step : SwitchboardStep) (document : String)
    (basis : Basis) : (step.rebase document basis).refusals = basis.refusals := by
  cases step with
  | publish name publication =>
    cases publication with
    | error fault => rfl
    | ok publication =>
      rw [rebase]
      split <;> rfl
  | _ => rfl

/-- The basis of a document after a step depends on the step and the basis before it alone. -/
theorem SwitchboardStep.basis_perform (step : SwitchboardStep) (run : SwitchboardRun)
    (document : String) :
    (step.perform run).state.basis document = step.rebase document (run.basis document) := by
  cases step with
  | publish name publication =>
    cases publication with
    | error fault => rfl
    | ok publication =>
      have hbasis : ((SwitchboardStep.publish name (.ok publication)).perform run).state.basis
          document = { run.basis document with
            publication := (run.feed.published.insert name publication).get? document } := rfl
      rw [hbasis, Table.get?_insert, SwitchboardStep.rebase]
      by_cases hname : document = name
      · rw [if_pos hname, if_pos hname.symm]
      · rw [if_neg hname, if_neg fun heq => hname heq.symm]
        rfl
  | announce trigger name =>
    rw [SwitchboardStep.state_announce]
    exact Maintains.each (fun _ _ => refresh_basis document _ name) [] run rfl
  | setMinLines value => rfl
  | enable name =>
    rw [SwitchboardStep.state_enable]
    exact enable_basis document _ name [] run rfl
  | disable name =>
    rw [SwitchboardStep.state_disable]
    exact disable_basis document _ name [] run rfl
  | toggle name =>
    rw [SwitchboardStep.state_toggle]
    split
    · exact disable_basis document _ name [] run rfl
    · exact enable_basis document _ name [] run rfl
  | isOn name => rfl
  | redrawAll =>
    rw [SwitchboardStep.state_redrawAll]
    exact Maintains.each (fun name _ => refresh_basis document _ name) [] run rfl
  | setOptions options => rfl
  | reload overrides grammars => rfl
  | dispose =>
    rw [SwitchboardStep.state_dispose]
    exact Maintains.each (fun name _ => disable_basis document _ name) [] run rfl

/-! ## Steps for a document -/

namespace SwitchboardStep

/-- The document that a step is for. -/
def addressee? : SwitchboardStep → Option String
  | .publish name _ | .announce _ name | .enable name | .disable name | .toggle name
  | .isOn name => some name
  | .setMinLines _ | .redrawAll | .setOptions _ | .reload .. | .dispose => none

/-- A step is for a document or for all. -/
def reaches (document : String) (step : SwitchboardStep) : Bool :=
  step.addressee?.all (· = document)

variable {run other : SwitchboardRun} {document : String} {step : SwitchboardStep}

/-- A step for another document does not act on this one and leaves its basis. -/
theorem idle_of_not_reaches (run : SwitchboardRun) (hstep : step.reaches document = false) :
    step.acts run document = false ∧ ∀ basis, step.rebase document basis = basis := by
  cases step with
  | publish name publication =>
    cases publication with
    | error fault => exact ⟨rfl, fun _ => rfl⟩
    | ok publication =>
      have hname : name ≠ document := by simpa [reaches, addressee?] using hstep
      exact ⟨rfl, fun _ => if_neg hname⟩
  | _ => simp_all [reaches, addressee?, acts, rebase]

/-- What a step does to a document depends on whether its labels are on. -/
theorem acts_congr (hon : run.board.isOn document = other.board.isOn document) :
    step.acts run document = step.acts other document ∧
      step.triggers run document = step.triggers other document := by
  cases step <;> simp [acts, triggers, hon]

/-- A step that acts on a document without redrawing it switches its labels off, if no flush is
refused. -/
theorem isOn_of_clears (hrefusals : run.recorder.refusals = {})
    (hacts : step.acts run document = true) (hclears : step.triggers run document = false) :
    (step.perform run).state.board.isOn document = false := by
  have hdisable : (Switchboard.disable site document run).state.board.isOn document = false :=
    (tidy.disable_board document document run).trans (by simp)
  cases step with
  | disable name =>
    obtain ⟨rfl, _⟩ : name = document ∧ run.board.isOn document = true := by
      simpa [acts] using hacts
    rw [state_disable]
    exact hdisable
  | toggle name =>
    obtain rfl : name = document := by simpa [acts] using hacts
    have hon : run.board.isOn name = true := by simpa [triggers] using hclears
    rw [state_toggle, hon, if_pos rfl]
    exact hdisable
  | dispose =>
    obtain ⟨⟨_, hdone⟩, _⟩ : (∃ done, (Switchboard.dispose site run).result = .ok done) ∧ _ :=
      Succeeds.bind (.gets _) (fun _ => .each fun name _ => disable_succeeds name) run hrefusals
    rw [perform, Action.state_bind_pure]
    exact tidy.dispose_board hdone document
  | enable name => simp_all [acts, triggers]
  | announce trigger name => simp_all [acts, triggers]
  | redrawAll => simp_all [acts, triggers]
  | _ => cases hacts

end SwitchboardStep

/-! ## Two runs -/

/-- How a document stands: its basis, whether its labels are on, and what it shows. -/
structure Standing where
  basis : Basis
  on : Bool
  shown : List (Rat × Text) × List (Rat × Text × Style)

namespace SwitchboardRun

variable {run other : SwitchboardRun} {document : String}

/-- How a document stands in a run. -/
def standing (run : SwitchboardRun) (document : String) : Standing :=
  ⟨run.basis document, run.board.isOn document, run.shown document⟩

/-- A document whose labels are off shows nothing. -/
theorem Kept.shown_of_off (h : run.Kept) (hoff : run.board.isOn document = false) :
    run.shown document = ([], []) := by
  have hlabels : run.overlay.labels document = [] := (h.sound.labels_of_off hoff).2
  have hmarks : run.marks document = [] := h.owned.marks_eq_nil hlabels
  have hlive := List.map_eq_nil_iff.mp hmarks
  simp [SwitchboardRun.shown, hlabels, hlive]

/-- A step that does not act on a document leaves it as it stands, but for its basis. -/
theorem Kept.standing_of_not_acts (h : run.Kept) {step : SwitchboardStep}
    (hidle : step.acts run document = false) :
    (step.perform run).state.standing document =
      { run.standing document with basis := step.rebase document (run.basis document) } := by
  obtain ⟨hlabels, hmarks⟩ := (step.perform_spares h).2 document hidle
  have hlive := congrArg (List.map fun mark : Mark String => (mark.anchor, mark.text, mark.style))
    hmarks
  rw [SwitchboardRun.marks, SwitchboardRun.marks, List.map_map, List.map_map] at hlive
  have hshown : (step.perform run).state.shown document = run.shown document :=
    Prod.ext (congrArg (List.map Placed.content) hlabels) hlive
  rw [standing, step.basis_perform, SwitchboardStep.isOn_of_not_acts hidle, hshown]
  rfl

/-- A step for another document leaves this one as it stands. -/
theorem Kept.standing_of_not_reaches (h : run.Kept) {step : SwitchboardStep}
    (hstep : step.reaches document = false) :
    (step.perform run).state.standing document = run.standing document := by
  obtain ⟨hidle, hbasis⟩ := step.idle_of_not_reaches run hstep
  rw [h.standing_of_not_acts hidle, hbasis]
  rfl

/-- Where no flush is refused, how a document stands after a step depends on how it stood before
it alone. -/
theorem Kept.standing_congr (h : run.Kept) (h' : other.Kept) (hrefusals : run.recorder.refusals = {})
    (hsame : run.standing document = other.standing document) (step : SwitchboardStep) :
    (step.perform run).state.standing document = (step.perform other).state.standing document := by
  have hbasis : run.basis document = other.basis document := congrArg Standing.basis hsame
  have hon : run.board.isOn document = other.board.isOn document := congrArg Standing.on hsame
  have hrefusals' : other.recorder.refusals = {} :=
    (congrArg Basis.refusals hbasis).symm.trans hrefusals
  obtain ⟨hacts, htriggers⟩ := step.acts_congr hon
  cases hacted : step.acts run document with
  | false =>
    rw [h.standing_of_not_acts hacted, h'.standing_of_not_acts (hacts ▸ hacted), hsame, hbasis]
  | true =>
    have hnext : (step.perform run).state.basis document =
        (step.perform other).state.basis document := by
      rw [step.basis_perform, step.basis_perform, hbasis]
    cases htriggered : step.triggers run document with
    | true =>
      -- Both runs redraw the document, in the same circumstances.
      have htriggered' := htriggers ▸ htriggered
      have hshown := (SwitchboardStep.triggers_shows h htriggered).shown_eq
      have hshown' := (SwitchboardStep.triggers_shows h' htriggered').shown_eq
      rw [standing, standing, hnext, hshown, hshown', SwitchboardStep.isOn_of_triggers htriggered,
        SwitchboardStep.isOn_of_triggers htriggered', circumstances_of_basis hbasis]
    | false =>
      -- Both runs switch its labels off.
      have hoff := step.isOn_of_clears hrefusals hacted htriggered
      have hoff' := step.isOn_of_clears hrefusals' (hacts ▸ hacted) (htriggers ▸ htriggered)
      have hshown := (step.perform_spares h).1.shown_of_off hoff
      have hshown' := (step.perform_spares h').1.shown_of_off hoff'
      rw [standing, standing, hnext, hoff, hoff', hshown, hshown']

/-- Steps for other documents may be left out. -/
theorem Kept.standing_filter (h : run.Kept) (h' : other.Kept)
    (hrefusals : run.recorder.refusals = {})
    (hsame : run.standing document = other.standing document) (steps : List SwitchboardStep) :
    (Action.finish SwitchboardStep.perform run steps).standing document =
      (Action.finish SwitchboardStep.perform other (steps.filter (·.reaches document))).standing
        document := by
  induction steps generalizing run other with
  | nil => exact hsame
  | cons step rest ih =>
    have hkept := (step.perform_spares h).1
    have hstill : (step.perform run).state.recorder.refusals = {} := by
      have hnext := congrArg Basis.refusals (step.basis_perform run document)
      exact hnext.trans ((step.refusals_rebase document _).trans hrefusals)
    rw [Action.finish_cons]
    cases hstep : step.reaches document with
    | false =>
      rw [List.filter_cons_of_neg (by simp [hstep])]
      exact ih hkept h' hstill ((h.standing_of_not_reaches hstep).trans hsame)
    | true =>
      rw [List.filter_cons_of_pos hstep, Action.finish_cons]
      exact ih hkept (step.perform_spares h').1 hstill (h.standing_congr h' hrefusals hsame step)

/-- How many subscriptions a document has follows from whether its labels are on. -/
theorem Kept.count_eq (h : run.Kept) (document : String) :
    run.feed.count document = if run.board.isOn document then 2 else 0 := by
  have hlength (trigger : Trigger) : (run.feed.subscribers trigger document).length =
      if run.board.isOn document then 1 else 0 := by
    have hcount : (run.hearing trigger document).length = if run.board.isOn document then 1 else 0 :=
      h.sound.length_hearing trigger document
    rwa [hearing, List.length_map] at hcount
  rw [ManualFeed.count, hlength, hlength]
  split <;> rfl

end SwitchboardRun

/-- **Independence.** Take any run on a recorder that refuses nothing, and leave out all steps for
documents other than one. Then the labels of this one are on or off as before, it has as many
subscriptions as before, and it shows the same labels on record and the same marks in the same
order. -/
theorem documents_independent (options : OverlayOptions) (catalog : Catalog) (minLines : Rat)
    (steps : List SwitchboardStep) (document : String) :
    let start := fresh options {} catalog minLines
    let full := Action.finish SwitchboardStep.perform start steps
    let alone := Action.finish SwitchboardStep.perform start (steps.filter (·.reaches document))
    full.board.isOn document = alone.board.isOn document ∧
    full.feed.count document = alone.feed.count document ∧
    full.shown document = alone.shown document := by
  intro start full alone
  have hstart : start.Kept := fresh_kept options catalog minLines
  have hsame : full.standing document = alone.standing document :=
    hstart.standing_filter hstart rfl rfl steps
  have hon : full.board.isOn document = alone.board.isOn document := congrArg Standing.on hsame
  refine ⟨hon, ?_, congrArg Standing.shown hsame⟩
  rw [(hstart.finish steps).count_eq, (hstart.finish _).count_eq, hon]

end Scenario

end ClosingLabels
