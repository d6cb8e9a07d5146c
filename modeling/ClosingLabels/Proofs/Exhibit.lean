import ClosingLabels.Proofs.Agreement

/-!
# A display beside a recorder

The same steps are taken with an overlay on a display and with one on a recorder. The display
also has a screen, on which anything may change between two steps, and on it every handle that
is given out is noted. After any steps the two overlays have the same labels on record, and
what waits to be shown on the display is what is on the recorder.
-/

namespace ClosingLabels

variable {σ H : Type}

/-! ## Canvases that are watched -/

/-- A canvas together with the handles it gave out so far, in order. -/
structure Noted (σ H : Type) where
  canvas : σ
  given : List H := []

/-- The canvas itself. -/
def Noted.canvasPart : Lens (Noted σ H) σ where
  get := Noted.canvas
  set c s := { s with canvas := c }

/-- A canvas on which each handle is noted as it is given out. -/
def Canvas.noting (canvas : Canvas σ H) : Canvas (Noted σ H) H where
  draw document anchor text style := do
    let handle ← Action.zoom Noted.canvasPart (canvas.draw document anchor text style)
    Action.modify fun noted => { noted with given := noted.given ++ [handle] }
    return handle
  erase document handle := Action.zoom Noted.canvasPart (canvas.erase document handle)
  flush document := Action.zoom Noted.canvasPart (canvas.flush document)

/-- Taking notes makes no canvas less willing. -/
theorem Canvas.Willing.noting [DecidableEq H] {canvas : Canvas σ H}
    {marks : σ → String → List (Mark H)} {apt : σ → Prop} (h : canvas.Willing marks apt) :
    canvas.noting.Willing (fun noted => marks noted.canvas) fun noted => apt noted.canvas where
  draw document anchor text style noted hnoted := by
    obtain ⟨handle, after, trace, hrun, hafter, hnew, hmarks⟩ :=
      h.draw document anchor text style noted.canvas hnoted
    refine ⟨handle, ⟨after, noted.given ++ [handle]⟩, trace, ?_, hafter, hnew, hmarks⟩
    have hzoom : Action.zoom Noted.canvasPart (canvas.draw document anchor text style) noted =
        ⟨.ok handle, { noted with canvas := after }, trace⟩ := by
      rw [Action.zoom_apply]
      change Outcome.mk (canvas.draw document anchor text style noted.canvas).result _ _ = _
      simp only [Noted.canvasPart, hrun]
    refine (Action.bind_of_ok hzoom _).trans ?_
    rw [Action.bind_of_quiet (Action.modify_apply _ _), Action.pure_apply, List.append_nil]
  erase document handle noted hnoted hforeign := by
    obtain ⟨after, trace, hrun, hafter, hmarks⟩ :=
      h.erase document handle noted.canvas hnoted hforeign
    refine ⟨{ noted with canvas := after }, trace, ?_, hafter, hmarks⟩
    simp only [Canvas.noting, Action.zoom_apply, Noted.canvasPart, hrun]
  flush document noted hnoted := h.flush document noted.canvas hnoted

/-- The handles of a display rise from one to the next, and no document is kept without labels. -/
structure Display.Sound (noted : Noted Display Nat) : Prop where
  rising : noted.given.Pairwise (· < ·)
  below : ∀ handle ∈ noted.given, handle < noted.canvas.decorations.next
  filled : ∀ row ∈ noted.canvas.decorations.documents.rows, row.2 ≠ []

namespace Display.Sound

variable {noted : Noted Display Nat}

theorem draw (h : Display.Sound noted) (document : String) (anchor : Rat) (text : Text)
    (style : Style) :
    Display.Sound (Display.canvas.noting.draw document anchor text style noted).state where
  rising := by
    change (noted.given ++ [noted.canvas.decorations.next]).Pairwise (· < ·)
    refine List.pairwise_append.mpr ⟨h.rising, List.pairwise_singleton _ _, ?_⟩
    intro handle hhandle new hnew
    rw [List.mem_singleton.mp hnew]
    exact h.below handle hhandle
  below handle hhandle := by
    change handle < noted.canvas.decorations.next + 1
    change handle ∈ noted.given ++ [noted.canvas.decorations.next] at hhandle
    rcases List.mem_append.mp hhandle with hold | hnew
    · exact Nat.lt_succ_of_lt (h.below handle hold)
    · rw [List.mem_singleton.mp hnew]
      exact Nat.lt_succ_self _
  filled row hrow := by
    change row ∈ (noted.canvas.decorations.documents.insert document
      (noted.canvas.pending document ++ [_])).rows at hrow
    rcases Table.mem_rows_insert hrow with rfl | hold
    · simp
    · exact h.filled row hold

theorem erase (h : Display.Sound noted) (document : String) (handle : Nat) :
    Display.Sound (Display.canvas.noting.erase document handle noted).state where
  rising := h.rising
  below other hother := by
    change other < (Display.erase document handle noted.canvas).state.decorations.next
    rw [Display.next_erase]
    exact h.below other hother
  filled row hrow := by
    change row ∈ (Display.erase document handle noted.canvas).state.decorations.documents.rows
      at hrow
    simp only [Display.erase, Action.adjust_apply, Display.decorationsPart] at hrow
    split at hrow
    · exact h.filled row hrow
    · split at hrow
      · exact h.filled row (List.mem_of_mem_filter hrow)
      · next hrest =>
        rcases Table.mem_rows_insert hrow with rfl | hold
        · exact hrest
        · exact h.filled row hold

theorem flush (h : Display.Sound noted) (document : String) :
    Display.Sound (Display.canvas.noting.flush document noted).state := by
  have hcontents : (Display.flush document noted.canvas).state.contents = noted.canvas.contents :=
    (Display.flush_contents document).state noted.canvas
  have hnext : (Display.flush document noted.canvas).state.decorations.next =
      noted.canvas.decorations.next := congrArg Display.Contents.next hcontents
  have hlabels : (Display.flush document noted.canvas).state.decorations.documents =
      noted.canvas.decorations.documents := congrArg Display.Contents.labels hcontents
  constructor
  · exact h.rising
  · change ∀ handle ∈ noted.given,
      handle < (Display.flush document noted.canvas).state.decorations.next
    rw [hnext]
    exact h.below
  · change ∀ row ∈ (Display.flush document noted.canvas).state.decorations.documents.rows, row.2 ≠ []
    rw [hlabels]
    exact h.filled

end Display.Sound

namespace Scenario

/-! ## An overlay on a display -/

/-- An overlay, the display it draws on and the catalog it goes by. -/
structure Exhibit where
  overlay : Overlay Nat
  display : Noted Display Nat
  catalog : Catalog

namespace Exhibit

/-- The overlay of an exhibit. -/
def overlayPart : Lens Exhibit (Overlay Nat) where
  get := Exhibit.overlay
  set o s := { s with overlay := o }

/-- The display of an exhibit. -/
def displayPart : Lens Exhibit (Noted Display Nat) where
  get := Exhibit.display
  set d s := { s with display := d }

/-- The catalog of an exhibit. -/
def catalogPart : Lens Exhibit Catalog where
  get := Exhibit.catalog
  set c s := { s with catalog := c }

/-- The overlay draws on the display. -/
def site : Overlay.Site Exhibit Nat := ⟨overlayPart, Display.canvas.noting.within displayPart⟩

/-- An exhibit on which nothing has been drawn. -/
def fresh (options : OverlayOptions) (catalog : Catalog) : Exhibit :=
  ⟨{ options }, { canvas := {} }, catalog⟩

/-- The exhibit with another screen. -/
def become (exhibit : Exhibit) (screen : Screen) : Exhibit :=
  { exhibit with
    display := { exhibit.display with canvas := { exhibit.display.canvas with screen } } }

/-- The screen becomes another, and then a step is done. -/
def act (step : Screen × OverlayStep) : Action Exhibit (Option (List (Placed Nat))) := do
  Action.modify (·.become step.1)
  step.2.act site catalogPart

/-- No step is broken off because something cannot be shown. -/
def Unbroken : Exhibit → List (Screen × OverlayStep) → Prop
  | _, [] => True
  | exhibit, step :: rest =>
    step.2.Unbroken (act step exhibit).result ∧ Unbroken (act step exhibit).state rest

instance decidableUnbroken : (exhibit : Exhibit) → (steps : List (Screen × OverlayStep)) →
    Decidable (Unbroken exhibit steps)
  | _, [] => .isTrue trivial
  | exhibit, step :: rest =>
    have := decidableUnbroken (act step exhibit).state rest
    inferInstanceAs (Decidable (_ ∧ _))

/-- The labels that wait to be shown, as marks. -/
def marks (exhibit : Exhibit) : String → List (Mark Nat) := exhibit.display.canvas.marks

/-- Handles are given out in order, and no document is kept without labels. -/
def Apt (exhibit : Exhibit) : Prop :=
  exhibit.display.canvas.Numbered ∧ Display.Sound exhibit.display

/-- The display of an exhibit is willing. -/
theorem guided : site.Guided catalogPart marks Apt where
  willing current := by
    have hwilling : site.Willing marks fun exhibit => exhibit.display.canvas.Numbered :=
      Display.willing.noting.beside site displayPart rfl (fun _ _ => rfl) fun _ _ => rfl
    have hsound : site.Willing marks Apt :=
      hwilling.and (fun _ _ h => h) (fun document anchor text style _ h =>
          h.draw document anchor text style)
        (fun document handle _ h => h.erase document handle) fun document _ h => h.flush document
    exact hsound.and (fun _ _ h => h) (fun _ _ _ _ _ h => h) (fun _ _ _ h => h) fun _ _ h => h
  reload _ _ h := ⟨h, rfl⟩

end Exhibit

/-! ## An overlay on a recorder -/

namespace OverlayRun

/-- The labels on the recorder, as marks. -/
def marks (run : OverlayRun) : String → List (Mark String) := run.recorder.marks

/-- The recorder is to refuse nothing. -/
def Apt (run : OverlayRun) : Prop := run.recorder.Apt ∧ run.recorder.refusals.flushes = []

/-- Then it is willing. -/
theorem guided : site.Guided catalogPart marks Apt where
  willing current := by
    have hwilling : site.Willing marks fun run => run.recorder.Apt :=
      Recorder.willing.beside site recorderPart rfl (fun _ _ => rfl) fun _ _ => rfl
    have hflushes : site.Willing marks Apt := by
      refine hwilling.and (fun _ _ h => h) (fun document anchor text style run h => ?_)
        (fun document handle run h => ?_) fun document run h => ?_
      · change (Recorder.draw document anchor text style run.recorder).state.refusals.flushes = []
        rw [Recorder.draw_apply]
        split <;> exact h
      · change (Recorder.erase document handle run.recorder).state.refusals.flushes = []
        rw [Recorder.erase_apply]
        split <;> exact h
      · change (Recorder.flush document run.recorder).state.refusals.flushes = []
        rw [Recorder.flush_apply]
        split <;> exact h
    exact hflushes.and (fun _ _ h => h) (fun _ _ _ _ _ h => h) (fun _ _ _ h => h) fun _ _ h => h
  reload _ _ h := ⟨h, rfl⟩

/-- No step is broken off on a recorder that refuses nothing. -/
theorem unbroken {run : OverlayRun} (hapt : run.Apt) (howned : (site.sheet marks run).Owned)
    (step : OverlayStep) : step.Unbroken (step.act site catalogPart run).result := by
  cases step with
  | dispose =>
    have hresult : (Overlay.dispose site run).result = .ok () := by
      refine (guided.willing run.catalog).dispose_result (fun document other hother => ?_)
        ⟨hapt, rfl⟩ howned
      change (Recorder.flush document other.recorder).result = .ok ()
      rw [Recorder.flush_apply, hother.1.2, if_neg List.not_mem_nil]
    rw [OverlayStep.act, Action.bind_of_ok (Action.eq_of_result hresult)]
    rfl
  | _ => trivial

end OverlayRun

/-! ## Both side by side -/

/-- An exhibit and a run on a recorder are alike, and nothing keeps them from staying so. -/
structure Exhibit.Matches (exhibit : Exhibit) (run : OverlayRun) : Prop where
  catalog : exhibit.catalog = run.catalog
  alike : (site.sheet marks exhibit).Alike (OverlayRun.site.sheet OverlayRun.marks run)
  exhibitApt : exhibit.Apt
  exhibitOwned : (site.sheet marks exhibit).Owned
  runApt : run.Apt
  runOwned : (OverlayRun.site.sheet OverlayRun.marks run).Owned

namespace Exhibit.Matches

theorem fresh (options : OverlayOptions) (catalog : Catalog) :
    (Exhibit.fresh options catalog).Matches (OverlayRun.fresh options {} catalog) where
  catalog := rfl
  alike := ⟨rfl, fun _ => rfl, fun _ => rfl⟩
  exhibitApt := ⟨(fun _ _ h => by cases h), List.Pairwise.nil, (fun _ h => by cases h),
    (fun _ h => by cases h)⟩
  exhibitOwned := ⟨fun _ => rfl, fun _ _ _ _ h => by cases h⟩
  runApt := ⟨⟨rfl, rfl, fun _ h => by cases h⟩, rfl⟩
  runOwned := ⟨fun _ => rfl, fun _ _ _ _ h => by cases h⟩

/-- What is on the screen has nothing to do with it. -/
theorem become {exhibit : Exhibit} {run : OverlayRun} (h : exhibit.Matches run) (screen : Screen) :
    (exhibit.become screen).Matches run :=
  ⟨h.catalog, h.alike, ⟨h.exhibitApt.1, h.exhibitApt.2.rising, h.exhibitApt.2.below,
    h.exhibitApt.2.filled⟩, h.exhibitOwned, h.runApt, h.runOwned⟩

/-- The same step keeps the two alike. -/
theorem act {exhibit : Exhibit} {run : OverlayRun} (h : exhibit.Matches run)
    (step : Screen × OverlayStep) (hunbroken : step.2.Unbroken (Exhibit.act step exhibit).result) :
    (Exhibit.act step exhibit).state.Matches (step.2.perform run).state := by
  have hbecome := h.become step.1
  have hact : Exhibit.act step exhibit = step.2.act site catalogPart (exhibit.become step.1) :=
    Action.bind_of_quiet (Action.modify_apply _ _) _
  rw [hact] at hunbroken ⊢
  rw [OverlayStep.perform_eq_act]
  obtain ⟨hapt, howned, hcatalog, hleads⟩ :=
    OverlayStep.act_leads guided step.2 hbecome.exhibitApt hbecome.exhibitOwned hunbroken
  obtain ⟨hrunApt, hrunOwned, hrunCatalog, hrunLeads⟩ :=
    OverlayStep.act_leads OverlayRun.guided step.2 h.runApt h.runOwned
      (OverlayRun.unbroken h.runApt h.runOwned step.2)
  have hsame : catalogPart.get (exhibit.become step.1) = OverlayRun.catalogPart.get run := h.catalog
  rw [hsame] at hcatalog hleads
  exact ⟨hcatalog.trans hrunCatalog.symm, hleads.alike hbecome.alike hrunLeads, hapt, howned,
    hrunApt, hrunOwned⟩

/-- So do the same steps. -/
theorem finish {exhibit : Exhibit} {run : OverlayRun} (h : exhibit.Matches run)
    (steps : List (Screen × OverlayStep)) (hunbroken : exhibit.Unbroken steps) :
    (Action.finish Exhibit.act exhibit steps).Matches
      (Action.finish OverlayStep.perform run (steps.map Prod.snd)) := by
  induction steps generalizing exhibit run with
  | nil => exact h
  | cons step rest ih =>
    rw [List.map_cons, Action.finish_cons, Action.finish_cons]
    exact ih (h.act step hunbroken.1) hunbroken.2

end Exhibit.Matches

/-- What is not broken off in the end was not broken off before. -/
theorem Exhibit.Unbroken.take {exhibit : Exhibit} {steps : List (Screen × OverlayStep)}
    (h : exhibit.Unbroken steps) (n : Nat) : exhibit.Unbroken (steps.take n) := by
  induction steps generalizing exhibit n with
  | nil => rwa [List.take_nil]
  | cons step rest ih =>
    cases n with
    | zero => trivial
    | succ n => exact ⟨h.1, ih h.2 n⟩

/-- **Display and recorder agree.** Take any steps, with anything on the screen at each of them,
and do them with an overlay on a display and with one on a recorder that refuses nothing. Showing
may fail on the display, as long as no disposal is broken off by it. Then after each step every
document has the same labels on record in both overlays, and the labels that wait to be shown in it
are those on the recorder: the same anchors, texts and looks in the same order. The display keeps no
document without labels, and its handles rise from one to the next, so it gives none out twice. -/
theorem display_agrees_with_recorder (options : OverlayOptions) (catalog : Catalog)
    (steps : List (Screen × OverlayStep))
    (hunbroken : (Exhibit.fresh options catalog).Unbroken steps) (n : Nat) :
    let exhibit := Action.finish Exhibit.act (Exhibit.fresh options catalog) (steps.take n)
    let run := Action.finish OverlayStep.perform (OverlayRun.fresh options {} catalog)
      ((steps.take n).map Prod.snd)
    (∀ document, (exhibit.overlay.labels document).map Placed.content =
      (run.overlay.labels document).map Placed.content) ∧
    (∀ document, (exhibit.display.canvas.marks document).map Mark.look =
      (run.recorder.marks document).map Mark.look) ∧
    (∀ row ∈ exhibit.display.canvas.decorations.documents.rows, row.2 ≠ []) ∧
    exhibit.display.given.Pairwise (· < ·) := by
  intro exhibit run
  have hmatches : exhibit.Matches run :=
    (Exhibit.Matches.fresh options catalog).finish (steps.take n) (hunbroken.take n)
  exact ⟨hmatches.alike.labels, hmatches.alike.marks, hmatches.exhibitApt.2.filled,
    hmatches.exhibitApt.2.rising⟩

/-- Two documents, of which one is redrawn with other labels while its editor refuses to show them;
at the end all is disposed of. -/
theorem display_agrees_with_recorder_while_refused :
    let catalog := Catalog.make (.ofRows [("p", ["fn"])]) .empty .empty
    let publication : Publication := ⟨[⟨"fn", 0, 7⟩, ⟨"fn", 3, 7⟩], none, ⟨"a\x7b\nb\x7b\n\x7d\x7d", "p"⟩, "p"⟩
    let willing : Screen := ⟨[⟨"a", publication.document⟩], [⟨"e", some 0, none⟩], 0⟩
    let refusing : Screen := { willing with visible := [⟨"e", some 0, some "closed"⟩] }
    let steps : List (Screen × OverlayStep) :=
      [(willing, .add "a" [⟨0, "x", 1, 2⟩, ⟨0, "y", 1, 2⟩]), (willing, .add "b" [⟨4, "z", 1, 2⟩]),
        (refusing, .setOptions { oneForEachAnchor := false }),
        (refusing, .redraw "a" (.ok publication) 0), (willing, .dispose)]
    let contents : List (Rat × Text) := [(8, "b\x7b"), (8, "a\x7b")]
    let exhibit := Action.finish Exhibit.act (Exhibit.fresh {} catalog) (steps.take 4)
    let run := Action.finish OverlayStep.perform (OverlayRun.fresh {} {} catalog)
      ((steps.take 4).map Prod.snd)
    (Exhibit.fresh {} catalog).Unbroken steps ∧
      (exhibit.overlay.labels "a").map Placed.content = contents ∧
      (run.overlay.labels "a").map Placed.content = contents ∧
      (exhibit.display.canvas.marks "a").map Mark.look = (run.recorder.marks "a").map Mark.look ∧
      exhibit.display.given = [1, 2, 3, 4] ∧ exhibit.display.given.Pairwise (· < ·) := by
  intro catalog publication willing refusing steps contents exhibit run
  have hunbroken : (Exhibit.fresh {} catalog).Unbroken steps := by decide +kernel
  have hlabels : (exhibit.overlay.labels "a").map Placed.content = contents := by decide +kernel
  have hgiven : exhibit.display.given = [1, 2, 3, 4] := by decide +kernel
  have hagrees := display_agrees_with_recorder {} catalog steps hunbroken 4
  extract_lets at hagrees
  clear_value exhibit run
  obtain ⟨hsame, hmarks, -, hrising⟩ := hagrees
  exact ⟨hunbroken, hlabels, (hsame "a").symm.trans hlabels, hmarks "a", hgiven, hrising⟩

end Scenario

end ClosingLabels
