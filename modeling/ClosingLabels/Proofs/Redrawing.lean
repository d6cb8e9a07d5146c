import ClosingLabels.Proofs.Ownership

/-!
# Redrawing replaces everything

Redrawing a document erases all its labels and draws the ones extracted now. What is on
record afterwards depends on the extracted labels and on the first refused drawing
alone, not on what was there before, and the canvas is asked for nothing else: one
erasure for each old label, one drawing for each new one, and one flush if there was
anything to do.
-/

namespace ClosingLabels

/-! ## Which labels are drawn -/

namespace Label

/-- Of the labels with the same anchor, only the first. -/
def firstForAnchors : List Label → List Label
  | [] => []
  | label :: rest => label :: (firstForAnchors rest).filter (·.anchor ≠ label.anchor)

/-- What a label says and where. -/
def content (label : Label) : Rat × Text := (label.anchor, label.text)

end Label

/-- What a label on record says and where. -/
def Placed.content {H : Type} (label : Placed H) : Rat × Text := (label.anchor, label.text)

namespace OverlayOptions

/-- The labels of a list that are to be drawn. -/
def select (options : OverlayOptions) (labels : List Label) : List Label :=
  if options.oneForEachAnchor then Label.firstForAnchors labels else labels

/-- The labels of a list that are to be drawn when some anchors are taken already. -/
def selectFrom (options : OverlayOptions) : List Rat → List Label → List Label
  | _, [] => []
  | taken, label :: rest =>
    if options.oneForEachAnchor ∧ label.anchor ∈ taken then selectFrom options taken rest
    else label :: selectFrom options (taken ++ [label.anchor]) rest

theorem selectFrom_eq_filter {options : OverlayOptions} (h : options.oneForEachAnchor = true)
    (taken : List Rat) (labels : List Label) :
    options.selectFrom taken labels =
      (Label.firstForAnchors labels).filter fun label => label.anchor ∉ taken := by
  induction labels generalizing taken with
  | nil => rfl
  | cons label rest ih =>
    by_cases htaken : label.anchor ∈ taken
    · have hnot : ∀ other : Label, other.anchor ∉ taken → other.anchor ≠ label.anchor :=
        fun other hother heq => hother (heq ▸ htaken)
      simp only [selectFrom, h, htaken, and_self, if_true, ih, Label.firstForAnchors,
        List.filter_cons, not_true_eq_false, decide_false, Bool.false_eq_true, if_false,
        List.filter_filter]
      apply List.filter_congr
      intro other _
      by_cases hother : other.anchor ∈ taken
      · simp [hother]
      · simp [hother, hnot other hother]
    · simp only [selectFrom, htaken, and_false, if_false, ih, Label.firstForAnchors,
        List.filter_cons, not_false_eq_true, decide_true, if_true, List.filter_filter]
      congr 1
      apply List.filter_congr
      intro other _
      simp [List.mem_append, not_or]

/-- With no anchor taken, the labels to be drawn are those selected. -/
theorem selectFrom_nil (options : OverlayOptions) (labels : List Label) :
    options.selectFrom [] labels = options.select labels := by
  by_cases h : options.oneForEachAnchor = true
  · simp [selectFrom_eq_filter h, select, h]
  · have hall (taken : List Rat) : options.selectFrom taken labels = labels := by
      induction labels generalizing taken with
      | nil => rfl
      | cons label rest ih => simp [selectFrom, h, ih]
    simp [hall, select, h]

end OverlayOptions

namespace Recorder

/-- The labels of a list that come to be drawn after some attempts: those before the
first whose attempt is refused. -/
def granted (refused : List Nat) : Nat → List Label → List Label
  | _, [] => []
  | attempts, label :: rest =>
    if attempts + 1 ∈ refused then [] else label :: granted refused (attempts + 1) rest

/-- Labels as they are put on record after some attempts. -/
def placed : Nat → List Label → List (Placed String)
  | _, [] => []
  | attempts, label :: rest =>
    ⟨handleOf (attempts + 1), label.anchor, label.text⟩ :: placed (attempts + 1) rest

theorem map_content_placed (attempts : Nat) (labels : List Label) :
    (placed attempts labels).map Placed.content = labels.map Label.content := by
  induction labels generalizing attempts with
  | nil => rfl
  | cons label rest ih => simp [placed, ih, Placed.content, Label.content]

/-- No more labels are drawn than are to be drawn. -/
theorem length_granted_le (refused : List Nat) (attempts : Nat) (labels : List Label) :
    (granted refused attempts labels).length ≤ labels.length := by
  induction labels generalizing attempts with
  | nil => exact Nat.le_refl 0
  | cons label rest ih =>
    rw [granted]
    split
    · exact Nat.zero_le _
    · exact Nat.succ_le_succ (ih (attempts + 1))

/-- When nothing is refused any more, all labels come to be drawn. -/
theorem granted_eq_self {refused : List Nat} {attempts : Nat} (labels : List Label)
    (h : ∀ n, attempts < n → n ∉ refused) : granted refused attempts labels = labels := by
  induction labels generalizing attempts with
  | nil => rfl
  | cons label rest ih =>
    rw [granted, if_neg (h _ (Nat.lt_succ_self _)), ih fun n hn => h n (by omega)]

end Recorder

/-! ## Requests to the canvas -/

/-- A request to a canvas that left an event, granted or not. A drawing that is refused
leaves none. -/
inductive CanvasCall where
  | draw (document handle : String) (anchor : Rat) (text : Text) (style : Style)
  | erase (document handle : String)
  | flush (document : String)
deriving DecidableEq, Repr

/-- The request that an event tells of. -/
def Event.canvasCall? : Event → Option CanvasCall
  | .drawn document handle anchor text style => some (.draw document handle anchor text style)
  | .erased document handle => some (.erase document handle)
  | .eraseFailed document handle => some (.erase document handle)
  | .flushed document => some (.flush document)
  | .flushFailed document => some (.flush document)
  | _ => none

/-- The requests to the canvas, in order. -/
def canvasCalls (trace : List Event) : List CanvasCall := trace.filterMap Event.canvasCall?

@[simp] theorem canvasCalls_append (trace more : List Event) :
    canvasCalls (trace ++ more) = canvasCalls trace ++ canvasCalls more := List.filterMap_append

/-- The request to draw a label on record. -/
def OverlayOptions.drawCall (options : OverlayOptions) (document : String)
    (label : Placed String) : CanvasCall :=
  .draw document label.handle label.anchor (options.marker ++ label.text) options.style

namespace Scenario

open Chronicle OverlayRun

/-! ## What drawing does -/

/-- The labels of a list that come to be drawn in a run. -/
def OverlayRun.granted (run : OverlayRun) (chosen : List Label) : List Label :=
  Recorder.granted run.recorder.refusals.draws run.recorder.attempts chosen

/-- How many attempts it takes: one for each label that comes to be drawn, and one for the
label at which drawing stops. -/
def OverlayRun.tries (run : OverlayRun) (chosen : List Label) : Nat :=
  (run.granted chosen).length + if (run.granted chosen).length = chosen.length then 0 else 1

/-- The labels that are put on record when some are to be drawn. -/
def OverlayRun.newLabels (run : OverlayRun) (chosen : List Label) : List (Placed String) :=
  Recorder.placed run.recorder.attempts (run.granted chosen)

/-- The outcome of drawing the chosen labels into a document, one after another until the
first refusal. -/
structure Drew (options : OverlayOptions) (document : String) (chosen : List Label)
    (run : OverlayRun) (done : Outcome OverlayRun Nat) : Prop where
  result : done.result =
    if (run.granted chosen).length = chosen.length then .ok chosen.length
    else .error .canvasUnavailable
  labels : done.state.overlay.labels document =
    run.overlay.labels document ++ run.newLabels chosen
  others : ∀ other, other ≠ document →
    done.state.overlay.labels other = run.overlay.labels other
  recorder : done.state.recorder =
    { run.recorder with
      attempts := run.recorder.attempts + run.tries chosen
      live := run.recorder.live ++ (run.newLabels chosen).map (options.drawing document) }
  settled : done.state.overlay.options = run.overlay.options ∧ done.state.catalog = run.catalog
  trace : done.trace = (run.newLabels chosen).map (options.drawn document)

namespace Drew

variable {options : OverlayOptions} {document : String} {label : Label} {chosen : List Label}
  {run : OverlayRun}

/-- Nothing chosen, nothing drawn. -/
theorem nil (options : OverlayOptions) (document : String) (run : OverlayRun) :
    Drew options document [] run ⟨.ok 0, run, []⟩ := by
  constructor <;>
    simp [OverlayRun.granted, Recorder.granted, OverlayRun.newLabels, Recorder.placed,
      OverlayRun.tries]

/-- Drawing stops at a label whose attempt is refused. -/
theorem stop (hrefused : run.recorder.attempts + 1 ∈ run.recorder.refusals.draws) :
    Drew options document (label :: chosen) run
      ⟨.error .canvasUnavailable,
        { run with recorder := { run.recorder with attempts := run.recorder.attempts + 1 } },
        []⟩ := by
  have hnone : run.granted (label :: chosen) = [] := by
    simp [OverlayRun.granted, Recorder.granted, hrefused]
  constructor <;> simp [OverlayRun.newLabels, OverlayRun.tries, hnone, Recorder.placed]

/-- A label that is drawn comes before what is drawn after it. -/
theorem cons {done : Outcome OverlayRun Nat}
    (hgranted : run.recorder.attempts + 1 ∉ run.recorder.refusals.draws)
    (h : Drew options document chosen (run.extend options document label) done) :
    Drew options document (label :: chosen) run
      ⟨done.result.map (· + 1), done.state,
        options.drawn document (run.nextLabel label) :: done.trace⟩ := by
  set next := run.extend options document label with hnext
  have hlist : run.granted (label :: chosen) = label :: next.granted chosen := by
    simp [OverlayRun.granted, Recorder.granted, hgranted, hnext, extend]
  have hnew : run.newLabels (label :: chosen) = run.nextLabel label :: next.newLabels chosen := by
    simp [OverlayRun.newLabels, hlist, Recorder.placed, nextLabel, hnext, extend]
  have htries : run.tries (label :: chosen) = next.tries chosen + 1 := by
    simp only [OverlayRun.tries, hlist, List.length_cons, Nat.add_right_cancel_iff]
    omega
  constructor
  · simp only [h.result, hlist, List.length_cons, Nat.add_right_cancel_iff]
    split <;> rfl
  · simp [h.labels, hnew, hnext, extend, Overlay.labels_push]
  · intro other hother
    simp [h.others other hother, hnext, extend, Overlay.labels_push, hother]
  · simp only [h.recorder, hnew, htries, hnext, extend, List.map_cons, List.append_assoc,
      List.singleton_append, Recorder.mk.injEq, true_and, and_true]
    omega
  · exact h.settled
  · simp [h.trace, hnew]

/-- Drawing gives zero only when there was nothing to draw. -/
theorem flush_iff {done : Outcome OverlayRun Nat} (h : Drew options document chosen run done) :
    done.result ≠ .ok 0 ↔
      run.granted chosen ≠ [] ∨ (run.granted chosen).length < chosen.length := by
  have hle := Recorder.length_granted_le run.recorder.refusals.draws run.recorder.attempts chosen
  rw [h.result]
  by_cases hall : (run.granted chosen).length = chosen.length
  · have hnil : run.granted chosen = [] ↔ chosen.length = 0 := by
      rw [← List.length_eq_zero_iff, hall]
    simp [hall, hnil]
  · have hlt : (run.granted chosen).length < chosen.length := Nat.lt_of_le_of_ne hle hall
    simp [hall, hlt]

end Drew

/-- Drawing a list draws the labels whose place is free, one after another. -/
theorem drawEach_drew (options : OverlayOptions) (document : String) (labels : List Label)
    (run : OverlayRun) :
    Drew options document
      (options.selectFrom ((run.overlay.labels document).map Placed.anchor) labels) run
      (Overlay.drawEach site options document labels run) := by
  induction labels generalizing run with
  | nil => exact .nil options document run
  | cons label rest ih =>
    set taken := (run.overlay.labels document).map Placed.anchor with htaken
    have hany : ((run.overlay.labels document).any fun l => decide (l.anchor = label.anchor)) =
        decide (label.anchor ∈ taken) := by
      rw [Bool.eq_iff_iff]
      simp only [List.any_eq_true, decide_eq_true_eq, htaken, List.mem_map]
    rw [Overlay.drawEach_cons, Action.bind_of_ok (Action.look_apply _ _)]
    simp only [site_part, overlayPart_get, hany, List.nil_append]
    by_cases hskip : options.oneForEachAnchor = true ∧ label.anchor ∈ taken
    · have hcond : (options.oneForEachAnchor && decide (label.anchor ∈ taken)) = true := by
        simpa using hskip
      rw [if_pos hcond, OverlayOptions.selectFrom, if_pos hskip]
      exact ih run
    · have hcond : ¬(options.oneForEachAnchor && decide (label.anchor ∈ taken)) = true := by
        simpa using hskip
      rw [if_neg hcond, OverlayOptions.selectFrom, if_neg hskip]
      have hrun := drawOne_apply options document label run
      by_cases hrefused : run.recorder.attempts + 1 ∈ run.recorder.refusals.draws
      · rw [if_pos hrefused] at hrun
        rw [Action.bind_of_error hrun]
        exact .stop hrefused
      · rw [if_neg hrefused] at hrun
        rw [Action.bind_of_ok hrun]
        have hstill : ((run.extend options document label).overlay.labels document).map
            Placed.anchor = taken ++ [label.anchor] := by
          simp [extend, Overlay.labels_push, nextLabel, htaken]
        have hrest := ih (run.extend options document label)
        rw [hstill] at hrest
        simpa using Drew.cons hrefused hrest

/-- Drawing into a document without labels draws the selected ones. -/
theorem drawAll_drew {document : String} {run : OverlayRun} (labels : List Label)
    (hempty : run.overlay.labels document = []) :
    Drew run.overlay.options document (run.overlay.options.select labels) run
      (Overlay.drawAll site document labels run) := by
  rw [← OverlayOptions.selectFrom_nil]
  unfold Overlay.drawAll
  cases labels with
  | nil => exact .nil _ document run
  | cons label rest =>
    have hdrew := drawEach_drew run.overlay.options document (label :: rest)
      { run with overlay := run.overlay.register document }
    simp only [Overlay.labels_register, hempty, List.map_nil] at hdrew
    simp only [List.isEmpty_cons, Bool.false_eq_true, if_false]
    rw [Action.bind_of_ok (Action.adjust_apply _ _ _), Action.bind_of_ok (Action.look_apply _ _)]
    simp only [site_part, overlayPart_get, overlayPart_set, Overlay.options_register,
      List.nil_append]
    refine ⟨hdrew.result, ?_, ?_, hdrew.recorder, by simpa using hdrew.settled, hdrew.trace⟩
    · have hlabels := hdrew.labels
      rw [Overlay.labels_register] at hlabels
      exact hlabels
    · intro other hother
      simpa using hdrew.others other hother

/-! ## A whole cycle -/

/-- A view that answers each search, with blocks or a fault, and does nothing else. -/
def answering (answer : List Text → Except Fault (List Block)) (source : Document)
    (language : Text) : View OverlayRun where
  find kinds := Action.ofExcept (answer kinds)
  document := source
  language := language

/-- Extraction from such a view gives labels, the same ones in every state, and asks nothing
of the canvas. -/
theorem extract_answering (answer : List Text → Except Fault (List Block)) (source : Document)
    (language : Text) (minLines : Rat) (catalog : Catalog) :
    ∃ records trace, canvasCalls trace = [] ∧
      ∀ run, Label.extract (answering answer source language) minLines catalog run =
        ⟨.ok records, run, trace⟩ := by
  unfold Label.extract
  by_cases hkinds : (catalog.kinds (answering answer source language).language).isEmpty = true
  · exact ⟨[], [], rfl, fun run => by simp only [if_pos hkinds, Action.pure_apply]⟩
  simp only [if_neg hkinds]
  simp only [answering, Action.ofExcept_bind]
  cases answer (catalog.kinds language) >>= fun blocks =>
      Label.collect source minLines blocks.reverse with
  | ok records =>
    exact ⟨records, [], rfl, fun run => Action.rescue_of_ok (Action.ofExcept_apply _ run) _⟩
  | error fault =>
    refine ⟨[], [.error (.extraction language) (some fault)], rfl, fun run => ?_⟩
    rw [Action.rescue_of_error (Action.ofExcept_apply (.error fault) run)]
    simp [Action.bind_apply]

/-- The last part of a cycle asks for a flush, if anything changed, and always succeeds. -/
theorem repaint_apply (document : String) (changed : Bool) (run : OverlayRun) :
    ∃ flushes trace, canvasCalls trace = (if changed then [.flush document] else []) ∧
      (if changed = true then
        Action.rescue (site.canvas.flush document) fun fault =>
          Action.report (.repaint document) fault
      else pure ()) run =
      ⟨.ok (), { run with recorder := { run.recorder with flushes } }, trace⟩ := by
  cases changed with
  | false => exact ⟨run.recorder.flushes, [], rfl, rfl⟩
  | true =>
    refine ⟨run.recorder.flushes + 1, ?_⟩
    by_cases h : run.recorder.flushes + 1 ∈ run.recorder.refusals.flushes
    · have hflush : site.canvas.flush document run = ⟨.error (.cannotFlush document),
          { run with recorder := { run.recorder with flushes := run.recorder.flushes + 1 } },
          [.flushFailed document]⟩ := by
        simp [Recorder.flush_apply, h]
      exact ⟨_, rfl, Action.rescue_of_error hflush _⟩
    · have hflush : site.canvas.flush document run = ⟨.ok (),
          { run with recorder := { run.recorder with flushes := run.recorder.flushes + 1 } },
          [.flushed document]⟩ := by
        simp [Recorder.flush_apply, h]
      exact ⟨_, rfl, Action.rescue_of_ok hflush _⟩

/-- The requests for erasing labels, whether granted or refused. -/
theorem canvasCalls_removals (refusals : Refusals) (document : String)
    (labels : List (Placed String)) :
    canvasCalls (labels.flatMap (removal refusals document)) =
      labels.map fun label => .erase document label.handle := by
  induction labels with
  | nil => rfl
  | cons label rest ih =>
    rw [List.flatMap_cons, canvasCalls_append, ih]
    by_cases h : label.handle ∈ refusals.erasures
    · simp [removal, h, canvasCalls, Event.canvasCall?]
    · simp [removal, h, canvasCalls, Event.canvasCall?]

/-- The requests for drawing labels. -/
theorem canvasCalls_drawn (options : OverlayOptions) (document : String)
    (labels : List (Placed String)) :
    canvasCalls (labels.map (options.drawn document)) = labels.map (options.drawCall document) := by
  induction labels with
  | nil => rfl
  | cons label rest ih =>
    simpa [canvasCalls, OverlayOptions.drawn, OverlayOptions.drawCall, Event.canvasCall?] using ih

/-- What redrawing a document does, in terms of the labels chosen for it. -/
structure Redrawn (document : String) (chosen : List Label) (before : OverlayRun)
    (done : Outcome OverlayRun Unit) : Prop where
  returns : done.result = .ok ()
  labels : done.state.overlay.labels document = before.newLabels chosen
  others : ∀ other, other ≠ document →
    done.state.overlay.labels other = before.overlay.labels other
  attempts : done.state.recorder.attempts = before.recorder.attempts + before.tries chosen
  live : done.state.recorder.live =
    (before.recorder.wipe ((before.overlay.labels document).map Placed.handle)).live ++
      (before.newLabels chosen).map (before.overlay.options.drawing document)
  settled : done.state.overlay.options = before.overlay.options ∧
    done.state.catalog = before.catalog ∧ done.state.recorder.refusals = before.recorder.refusals
  /-- Old labels are erased in order, new ones drawn in order, and a flush follows when there
  was or is a label or when drawing stopped at a refusal. -/
  calls : canvasCalls done.trace =
    ((before.overlay.labels document).map fun label => .erase document label.handle) ++
      (done.state.overlay.labels document).map (before.overlay.options.drawCall document) ++
      if before.overlay.labels document ≠ [] ∨ before.granted chosen ≠ [] ∨
        (before.granted chosen).length < chosen.length then [.flush document] else []

/-- A cycle is a retraction, an extraction, a drawing and, if any of them may have changed
something, a flush. -/
theorem redraw_apply {document : String} {before cleared drawn : OverlayRun}
    {view : View OverlayRun} {minLines : Rat} {catalog : Catalog} {records : List Label}
    {old : Nat} {result : Except Fault Nat} {erasing extracting drawing : List Event}
    (hretract : Overlay.retract site document before = ⟨.ok old, cleared, erasing⟩)
    (hextract : Label.extract view minLines catalog cleared = ⟨.ok records, cleared, extracting⟩)
    (hdraw : Overlay.drawAll site document records cleared = ⟨result, drawn, drawing⟩) :
    ∃ flushes rest,
      canvasCalls rest = (if 0 < old ∨ result ≠ .ok 0 then [.flush document] else []) ∧
      Overlay.redraw site catalog document view minLines before =
        ⟨.ok (), { drawn with recorder := { drawn.recorder with flushes } },
          erasing ++ (extracting ++ (drawing ++ rest))⟩ := by
  unfold Overlay.redraw
  cases result with
  | ok placed =>
    obtain ⟨flushes, rest, hcalls, hrepaint⟩ :=
      repaint_apply document (decide (0 < old ∨ 0 < placed)) drawn
    refine ⟨flushes, rest, ?_, ?_⟩
    · rw [hcalls]
      simp [Nat.pos_iff_ne_zero]
    · rw [Action.bind_of_ok (Action.attempt_apply _ _), Action.bind_of_ok hretract,
        Action.bind_of_ok hextract, Action.bind_of_ok hdraw]
      simp only [Action.pure_apply, pure_bind, hrepaint, List.append_nil, List.append_assoc]
  | error fault =>
    obtain ⟨flushes, rest, hcalls, hrepaint⟩ := repaint_apply document true drawn
    refine ⟨flushes, .error (.recompute document) (some fault) :: rest, ?_, ?_⟩
    · rw [if_pos (Or.inr (by simp))]
      exact hcalls
    · rw [if_pos rfl] at hrepaint
      rw [Action.bind_of_ok (Action.attempt_apply _ _), Action.bind_of_ok hretract,
        Action.bind_of_ok hextract, Action.bind_of_error hdraw]
      simp only [pure_bind, if_true]
      rw [Action.bind_of_ok (Action.report_apply _ _ _), hrepaint]
      simp only [List.append_assoc, List.singleton_append]

/-- Redrawing succeeds and replaces the labels by those selected from the extracted ones. -/
theorem redraw_redrawn {document : String} {before : OverlayRun} {view : View OverlayRun}
    {minLines : Rat} {catalog : Catalog} {records : List Label} {trace : List Event}
    (htrace : canvasCalls trace = [])
    (hextract : ∀ run, Label.extract view minLines catalog run = ⟨.ok records, run, trace⟩) :
    Redrawn document (before.overlay.options.select records) before
      (Overlay.redraw site catalog document view minLines before) := by
  have hretract := retract_apply document before
  set cleared : OverlayRun :=
    { before with
      overlay := before.overlay.forget document
      recorder := before.recorder.wipe ((before.overlay.labels document).map Placed.handle) }
    with hcleared
  have hempty : cleared.overlay.labels document = [] := by simp [hcleared, Overlay.labels_forget]
  have hdrew : Drew before.overlay.options document _ cleared _ := drawAll_drew records hempty
  set chosen := before.overlay.options.select records with hchosen
  rcases hdraw : Overlay.drawAll site document records cleared with ⟨result, drawn, drawing⟩
  rw [hdraw] at hdrew
  obtain ⟨flushes, rest, hcalls, hredraw⟩ := redraw_apply hretract (hextract cleared) hdraw
  have hlabels : drawn.overlay.labels document = before.newLabels chosen := by
    rw [hdrew.labels, hempty, List.nil_append]
    rfl
  have hrecorder : drawn.recorder =
      { cleared.recorder with
        attempts := before.recorder.attempts + before.tries chosen
        live := cleared.recorder.live ++
          (before.newLabels chosen).map (before.overlay.options.drawing document) } :=
    hdrew.recorder
  rw [hredraw]
  constructor
  · rfl
  · exact hlabels
  · intro other hother
    have hsame := hdrew.others other hother
    rwa [hcleared, Overlay.labels_forget, if_neg hother] at hsame
  · simp only [hrecorder]
  · simp only [hrecorder]
    rfl
  · refine ⟨hdrew.settled.1, hdrew.settled.2, ?_⟩
    simp only [hrecorder]
    rfl
  · have hresult : result ≠ .ok 0 ↔
        before.granted chosen ≠ [] ∨ (before.granted chosen).length < chosen.length :=
      hdrew.flush_iff
    have hdrawn : drawing = (before.newLabels chosen).map (before.overlay.options.drawn document) :=
      hdrew.trace
    simp only [canvasCalls_append, canvasCalls_removals, htrace, hdrawn, canvasCalls_drawn,
      List.nil_append, hcalls, hlabels, hresult, List.length_pos_iff, List.append_assoc]

/-- Redrawing one document leaves the labels of all others on the canvas, since no handle
belongs to two documents. -/
theorem Redrawn.live_others {past : Chronicle} {document : String} {chosen : List Label}
    {before : OverlayRun} {done : Outcome OverlayRun Unit} (hledger : Ledger past before)
    (h : Redrawn document chosen before done) {other : String} (hother : other ≠ document) :
    done.state.recorder.live.filter (·.document = other) =
      before.recorder.live.filter (·.document = other) := by
  have hne : document ≠ other := fun heq => hother heq.symm
  have hnew : ((before.newLabels chosen).map (before.overlay.options.drawing document)).filter
      (·.document = other) = [] := by
    simp [List.filter_eq_nil_iff, OverlayOptions.drawing, hne]
  rw [h.live, List.filter_append, hnew, List.append_nil, Recorder.wipe, List.filter_filter]
  apply List.filter_congr
  intro d hd
  by_cases hdocument : d.document = other
  · have hforeign : d.handle ∉ (before.overlay.labels document).map Placed.handle := by
      intro hhandle
      obtain ⟨p, hp, hpdocument, hphandle, _⟩ := hledger.mem_labels.mp hhandle
      obtain ⟨⟨options, hq⟩, _⟩ := hledger.mem_live.mp hd
      have heq := hledger.eq_of_handle hp hq hphandle
      subst heq
      exact hother (hdocument.symm.trans hpdocument)
    simp [hdocument, hforeign]
  · simp [hdocument]

/-- **Replacement.** After any run, redrawing a document succeeds, whatever is refused. Its
record then holds the selected labels up to the first refused drawing, other documents are
untouched, the canvas was asked for nothing else, and while no drawing is refused the result
does not depend on what was there before: redrawing again gives the same labels. -/
theorem redraw_replaces_labels (options : OverlayOptions) (refusals : Refusals)
    (catalog : Catalog) (steps : List OverlayStep) (document : String)
    (answer : List Text → Except Fault (List Block)) (source : Document) (language : Text)
    (minLines : Rat) :
    let before := Action.finish OverlayStep.perform (fresh options refusals catalog) steps
    let view := answering answer source language
    let done := Overlay.redraw site before.catalog document view minLines before
    let again := Overlay.redraw site before.catalog document view minLines done.state
    ∃ records, (Label.extract view minLines before.catalog before).result = .ok records ∧
      let chosen := before.overlay.options.select records
      done.result = .ok () ∧
      (done.state.overlay.labels document).map Placed.content =
        (before.granted chosen).map Label.content ∧
      done.state.recorder.attempts = before.recorder.attempts + before.tries chosen ∧
      (∀ other, other ≠ document →
        done.state.overlay.labels other = before.overlay.labels other ∧
        done.state.recorder.live.filter (·.document = other) =
          before.recorder.live.filter (·.document = other)) ∧
      canvasCalls done.trace =
        ((before.overlay.labels document).map fun label => .erase document label.handle) ++
          (done.state.overlay.labels document).map (before.overlay.options.drawCall document) ++
          (if before.overlay.labels document ≠ [] ∨ before.granted chosen ≠ [] ∨
            (before.granted chosen).length < chosen.length then [.flush document] else []) ∧
      ((∀ n, before.recorder.attempts < n → n ∉ before.recorder.refusals.draws) →
        (done.state.overlay.labels document).map Placed.content = chosen.map Label.content ∧
        (again.state.overlay.labels document).map Placed.content = chosen.map Label.content) := by
  intro before view done again
  have hledger := (Ledger.fresh options refusals catalog).finish steps
  obtain ⟨records, trace, htrace, hextract⟩ :=
    extract_answering answer source language minLines before.catalog
  have hredrawn : Redrawn document (before.overlay.options.select records) before done :=
    redraw_redrawn htrace hextract
  have hagain : Redrawn document (done.state.overlay.options.select records) done.state again :=
    redraw_redrawn htrace hextract
  refine ⟨records, by rw [hextract], hredrawn.returns, ?_, hredrawn.attempts, ?_,
    hredrawn.calls, ?_⟩
  · rw [hredrawn.labels]
    exact Recorder.map_content_placed _ _
  · exact fun other hother => ⟨hredrawn.others other hother, hredrawn.live_others hledger hother⟩
  · intro hnone
    have hcontent {run : OverlayRun} {labels : List Label}
        (hrun : ∀ n, run.recorder.attempts < n → n ∉ run.recorder.refusals.draws) :
        (run.newLabels labels).map Placed.content = labels.map Label.content := by
      rw [OverlayRun.newLabels, Recorder.map_content_placed, OverlayRun.granted,
        Recorder.granted_eq_self labels hrun]
    refine ⟨by rw [hredrawn.labels, hcontent hnone], ?_⟩
    rw [hagain.labels, hredrawn.settled.1, hcontent]
    intro n hn
    rw [hredrawn.settled.2.2]
    rw [hredrawn.attempts] at hn
    exact hnone n (by omega)

/-- Two labels at one anchor, after a refused drawing and a label in another document, while the
erasure of the old label is refused. -/
theorem redraw_replaces_labels_after_refusal :
    let refusals : Refusals := ⟨[2], ["h1"], []⟩
    let catalog := Catalog.make (.ofRows [([112], [[105]])]) .empty .empty
    let steps := [.add "a" [⟨0, [120], 1, 2⟩, ⟨1, [121], 1, 2⟩], .add "b" [⟨0, [122], 1, 2⟩]]
    let answer : List Text → Except Fault (List Block) :=
      fun _ => .ok [⟨[105], 0, 5⟩, ⟨[105], 2, 5⟩]
    let source : Document := ⟨[97, 10, 98, 10, 99], [112]⟩
    let before := Action.finish OverlayStep.perform (fresh {} refusals catalog) steps
    let view := answering answer source [112]
    let done := Overlay.redraw site before.catalog "a" view 0 before
    let again := Overlay.redraw site before.catalog "a" view 0 done.state
    (∀ n, before.recorder.attempts < n → n ∉ before.recorder.refusals.draws) ∧
      (done.state.overlay.labels "a").map Placed.content = [(5, [98])] ∧
      (again.state.overlay.labels "a").map Placed.content = [(5, [98])] ∧
      done.state.overlay.labels "b" = before.overlay.labels "b" := by
  intro refusals catalog steps answer source before view done again
  have hattempts : before.recorder.attempts = 3 := by decide +kernel
  have hdraws : before.recorder.refusals.draws = [2] := by decide +kernel
  have hextract : (Label.extract view 0 before.catalog before).result =
      .ok [⟨5, [98], 2, 3⟩, ⟨5, [97], 1, 3⟩] := by decide +kernel
  have hchosen : (before.overlay.options.select [⟨5, [98], 2, 3⟩, ⟨5, [97], 1, 3⟩]).map
      Label.content = [(5, [98])] := by decide +kernel
  have hnone : ∀ n, before.recorder.attempts < n → n ∉ before.recorder.refusals.draws := by
    intro n hn
    rw [hattempts] at hn
    rw [hdraws, List.mem_singleton]
    omega
  have hreplaced := redraw_replaces_labels {} refusals catalog steps "a" answer source [112] 0
  extract_lets at hreplaced
  -- From here on the run is any run with these four properties; nothing evaluates it again.
  clear_value before
  obtain ⟨records, hrecords, _, _, _, hothers, _, hcontent⟩ := hreplaced
  obtain ⟨hdone, hagain⟩ := hcontent hnone
  obtain rfl := Except.ok.inj (hrecords.symm.trans hextract)
  exact ⟨hnone, hdone.trans hchosen, hagain.trans hchosen, (hothers "b" (by decide)).1⟩

end Scenario

end ClosingLabels
