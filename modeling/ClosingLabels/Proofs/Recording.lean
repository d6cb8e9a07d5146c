import ClosingLabels.Proofs.Conduct
import ClosingLabels.Proofs.Tables
import ClosingLabels.Scenario.Overlay

/-!
# An overlay drawing on a recorder

What each request to the recorder does, and from that what it does to erase all labels
of a document and to draw one label and put it on record. Everything an overlay does is
made of these two, so later files never look inside the recorder.
-/

namespace ClosingLabels

namespace Recorder

/-- Different attempts to draw give different handles. -/
theorem handleOf_injective : Function.Injective handleOf := by
  intro m n h
  have hdigits : Nat.toDigits 10 m = Nat.toDigits 10 n := by
    have hrepr : m.repr = n.repr := by simpa [handleOf] using h
    rw [← Nat.toList_repr, ← Nat.toList_repr, hrepr]
  have hvalue := congrArg (fun digits => Nat.ofDigitChars 10 digits 0) hdigits
  simpa [Nat.ofDigitChars_ten_toDigits] using hvalue

/-- A drawing either is refused and only counted, or adds a label at the end. -/
theorem draw_apply (document : String) (anchor : Rat) (text : Text) (style : Style)
    (r : Recorder) :
    draw document anchor text style r =
      if r.attempts + 1 ∈ r.refusals.draws then
        ⟨.error .canvasUnavailable, { r with attempts := r.attempts + 1 }, []⟩
      else
        let handle := handleOf (r.attempts + 1)
        ⟨.ok handle,
          { r with
            attempts := r.attempts + 1
            live := r.live ++ [⟨handle, document, anchor, text, style⟩] },
          [.drawn document handle anchor text style]⟩ := by
  by_cases h : r.attempts + 1 ∈ r.refusals.draws
  · simp [draw, Action.bind_apply, h]
  · simp [draw, Action.bind_apply, h, Except.map]

/-- An erasure either is refused and leaves everything, or removes what has the handle. -/
theorem erase_apply (document handle : String) (r : Recorder) :
    erase document handle r =
      if handle ∈ r.refusals.erasures then
        ⟨.error (.cannotErase handle), r, [.eraseFailed document handle]⟩
      else
        ⟨.ok (), { r with live := r.live.filter (·.handle ≠ handle) },
          [.erased document handle]⟩ := by
  by_cases h : handle ∈ r.refusals.erasures
  · simp [erase, Action.bind_apply, h]
  · simp [erase, Action.bind_apply, h]

/-- A flush is counted, whether it is refused or not. -/
theorem flush_apply (document : String) (r : Recorder) :
    flush document r =
      if r.flushes + 1 ∈ r.refusals.flushes then
        ⟨.error (.cannotFlush document), { r with flushes := r.flushes + 1 },
          [.flushFailed document]⟩
      else ⟨.ok (), { r with flushes := r.flushes + 1 }, [.flushed document]⟩ := by
  by_cases h : r.flushes + 1 ∈ r.refusals.flushes
  · simp [flush, Action.bind_apply, h]
  · simp [flush, Action.bind_apply, h]

/-- A recorder after an attempt to erase each of some handles: those it refuses stay. -/
def wipe (r : Recorder) (handles : List String) : Recorder :=
  { r with live := r.live.filter fun d => d.handle ∉ handles ∨ d.handle ∈ r.refusals.erasures }

@[simp] theorem wipe_nil (r : Recorder) : r.wipe [] = r := by simp [wipe]

theorem wipe_cons_of_refused {r : Recorder} {handle : String} {rest : List String}
    (h : handle ∈ r.refusals.erasures) : r.wipe (handle :: rest) = r.wipe rest := by
  unfold wipe
  congr 1
  apply List.filter_congr
  intro d _
  by_cases hd : d.handle = handle
  · simp [hd, h]
  · simp [hd]

theorem wipe_cons_of_erased {r : Recorder} {handle : String} {rest : List String}
    (h : handle ∉ r.refusals.erasures) :
    r.wipe (handle :: rest) = { r with live := r.live.filter (·.handle ≠ handle) }.wipe rest := by
  simp only [wipe, List.filter_filter, mk.injEq, true_and]
  apply List.filter_congr
  intro d _
  by_cases hd : d.handle = handle
  · simp [hd, h]
  · simp [hd]

end Recorder

/-- The label that a recorder shows for a label on record, drawn under some options. -/
def OverlayOptions.drawing (options : OverlayOptions) (document : String)
    (label : Placed String) : Drawn :=
  ⟨label.handle, document, label.anchor, options.marker ++ label.text, options.style⟩

/-- A label of the record as an event of drawing it. -/
def OverlayOptions.drawn (options : OverlayOptions) (document : String)
    (label : Placed String) : Event :=
  .drawn document label.handle label.anchor (options.marker ++ label.text) options.style

namespace Overlay

variable {σ H : Type}

@[simp] theorem labels_register (overlay : Overlay H) (document other : String) :
    (overlay.register document).labels other = overlay.labels other := by
  unfold register
  split
  · rfl
  · rename_i h
    have hnone : overlay.tracked.get? document = none := by simpa [Table.contains] using h
    by_cases hd : other = document
    · subst hd
      simp [labels, hnone]
    · simp [labels, Table.get?_insert_of_ne _ _ hd]

theorem labels_push (overlay : Overlay H) (document other : String) (label : Placed H) :
    (overlay.push document label).labels other =
      if other = document then overlay.labels document ++ [label] else overlay.labels other := by
  by_cases h : other = document <;> simp [labels, push, Table.get?_insert, h]

theorem labels_forget (overlay : Overlay H) (document other : String) :
    (overlay.forget document).labels other =
      if other = document then [] else overlay.labels other := by
  by_cases h : other = document <;> simp [labels, forget, Table.get?_erase, h]

@[simp] theorem options_register (overlay : Overlay H) (document : String) :
    (overlay.register document).options = overlay.options := by
  unfold register
  split <;> rfl

/-- Draws one label and puts it on record. -/
def drawOne (site : Site σ H) (options : OverlayOptions) (document : String) (label : Label) :
    Action σ Unit := do
  let handle ← site.canvas.draw document label.anchor (options.marker ++ label.text) options.style
  Action.adjust site.part (·.push document ⟨handle, label.anchor, label.text⟩)

/-- Drawing a list is drawing its first label, unless its place is taken, and then the rest. -/
theorem drawEach_cons (site : Site σ H) (options : OverlayOptions) (document : String)
    (label : Label) (rest : List Label) :
    drawEach site options document (label :: rest) = (do
      let present := (← Action.look site.part).labels document
      if options.oneForEachAnchor && present.any (·.anchor = label.anchor) then
        drawEach site options document rest
      else
        drawOne site options document label
        let placed ← drawEach site options document rest
        return placed + 1) := by
  simp only [drawEach, drawOne, bind_assoc]

end Overlay

namespace Scenario.OverlayRun

@[simp] theorem overlayPart_get (run : OverlayRun) : overlayPart.get run = run.overlay := rfl

@[simp] theorem overlayPart_set (overlay : Overlay String) (run : OverlayRun) :
    overlayPart.set overlay run = { run with overlay } := rfl

@[simp] theorem recorderPart_get (run : OverlayRun) : recorderPart.get run = run.recorder := rfl

@[simp] theorem recorderPart_set (recorder : Recorder) (run : OverlayRun) :
    recorderPart.set recorder run = { run with recorder } := rfl

@[simp] theorem site_part : site.part = overlayPart := rfl

@[simp] theorem site_draw (document : String) (anchor : Rat) (text : Text) (style : Style) :
    site.canvas.draw document anchor text style =
      Action.zoom recorderPart (Recorder.draw document anchor text style) := rfl

@[simp] theorem site_erase (document handle : String) :
    site.canvas.erase document handle =
      Action.zoom recorderPart (Recorder.erase document handle) := rfl

@[simp] theorem site_flush (document : String) :
    site.canvas.flush document = Action.zoom recorderPart (Recorder.flush document) := rfl

/-- The events of erasing one label. -/
def removal (refusals : Refusals) (document : String) (label : Placed String) : List Event :=
  if label.handle ∈ refusals.erasures then
    [.eraseFailed document label.handle,
      .error (.removal label.anchor) (some (.cannotErase label.handle))]
  else [.erased document label.handle]

/-- Erasing labels always succeeds; it wipes their handles off the recorder. -/
theorem eraseAll_apply (document : String) (labels : List (Placed String)) (run : OverlayRun) :
    Overlay.eraseAll site document labels run =
      ⟨.ok (), { run with recorder := run.recorder.wipe (labels.map Placed.handle) },
        labels.flatMap (removal run.recorder.refusals document)⟩ := by
  unfold Overlay.eraseAll
  induction labels generalizing run with
  | nil => simp [Action.each]
  | cons label rest ih =>
    by_cases h : label.handle ∈ run.recorder.refusals.erasures
    · have hrun : site.canvas.erase document label.handle run =
          ⟨.error (.cannotErase label.handle), run, [.eraseFailed document label.handle]⟩ := by
        simp [Recorder.erase_apply, h]
      rw [Action.each, Action.bind_of_ok (Action.rescue_of_error hrun _), ih]
      simp [Recorder.wipe_cons_of_refused h, removal, h]
    · have hrun : site.canvas.erase document label.handle run =
          ⟨.ok (), { run with recorder :=
            { run.recorder with live := run.recorder.live.filter (·.handle ≠ label.handle) } },
            [.erased document label.handle]⟩ := by
        simp [Recorder.erase_apply, h]
      rw [Action.each, Action.bind_of_ok (Action.rescue_of_ok hrun _), ih]
      simp [Recorder.wipe_cons_of_erased h, removal, h]

/-- Retracting a document takes it off the record and wipes its handles. -/
theorem retract_apply (document : String) (run : OverlayRun) :
    Overlay.retract site document run =
      ⟨.ok (run.overlay.labels document).length,
        { run with
          overlay := run.overlay.forget document
          recorder := run.recorder.wipe ((run.overlay.labels document).map Placed.handle) },
        (run.overlay.labels document).flatMap (removal run.recorder.refusals document)⟩ := by
  simp [Overlay.retract, Action.bind_apply, eraseAll_apply, Except.map]

/-- A label as it is put on record when the next attempt draws it. -/
def nextLabel (run : OverlayRun) (label : Label) : Placed String :=
  ⟨Recorder.handleOf (run.recorder.attempts + 1), label.anchor, label.text⟩

/-- A run after the next attempt drew a label. -/
def extend (run : OverlayRun) (options : OverlayOptions) (document : String) (label : Label) :
    OverlayRun :=
  { run with
    overlay := run.overlay.push document (run.nextLabel label)
    recorder :=
      { run.recorder with
        attempts := run.recorder.attempts + 1
        live := run.recorder.live ++ [options.drawing document (run.nextLabel label)] } }

/-- Drawing a label either uses up an attempt and fails, or puts the label on the canvas
and on record. -/
theorem drawOne_apply (options : OverlayOptions) (document : String) (label : Label)
    (run : OverlayRun) :
    Overlay.drawOne site options document label run =
      if run.recorder.attempts + 1 ∈ run.recorder.refusals.draws then
        ⟨.error .canvasUnavailable,
          { run with recorder := { run.recorder with attempts := run.recorder.attempts + 1 } }, []⟩
      else
        ⟨.ok (), run.extend options document label,
          [options.drawn document (run.nextLabel label)]⟩ := by
  by_cases h : run.recorder.attempts + 1 ∈ run.recorder.refusals.draws
  · simp [Overlay.drawOne, Action.bind_apply, Recorder.draw_apply, h]
  · simp [Overlay.drawOne, Action.bind_apply, Recorder.draw_apply, h, extend, nextLabel,
      OverlayOptions.drawing, OverlayOptions.drawn]

end Scenario.OverlayRun

end ClosingLabels
