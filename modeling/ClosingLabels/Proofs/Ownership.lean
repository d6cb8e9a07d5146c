import ClosingLabels.Proofs.Recording
import Mathlib.Data.List.Nodup

/-!
# Every label has an owner

A run of an overlay on a recorder leaves a chronicle: every event, with the options
that were in force when it happened. The chronicle alone determines what is on the
canvas and what is on record: the canvas shows what was drawn and not erased, and the
record holds what was drawn and never attempted to be erased. Hence each label on the
canvas is on record, or its one erasure was refused.
-/

namespace ClosingLabels.Scenario

/-- Events, each with the options in force when it happened. -/
abbrev Chronicle := List (OverlayOptions × Event)

namespace Chronicle

/-- The labels that were drawn, in order, with the options of their time. -/
def drawings (past : Chronicle) : List (OverlayOptions × Drawn) :=
  past.filterMap fun
    | (options, .drawn document handle anchor text style) =>
      some (options, ⟨handle, document, anchor, text, style⟩)
    | _ => none

/-- The handles that were drawn, in order. -/
def handles (past : Chronicle) : List String := (drawings past).map (·.2.handle)

/-- The handles that were erased. -/
def erased (past : Chronicle) : List String :=
  past.filterMap fun
    | (_, .erased _ handle) => some handle
    | _ => none

/-- The handles whose erasure was refused. -/
def refused (past : Chronicle) : List String :=
  past.filterMap fun
    | (_, .eraseFailed _ handle) => some handle
    | _ => none

/-- The handles that were attempted to be erased, once for each attempt. -/
def attempted (past : Chronicle) : List String :=
  past.filterMap fun
    | (_, .erased _ handle) => some handle
    | (_, .eraseFailed _ handle) => some handle
    | _ => none

/-- The label on record that a drawing was made for. -/
def placedFor (drawing : OverlayOptions × Drawn) : Placed String :=
  ⟨drawing.2.handle, drawing.2.anchor, drawing.2.text.drop drawing.1.marker.length⟩

@[simp] theorem placedFor_drawing (options : OverlayOptions) (document : String)
    (label : Placed String) : placedFor (options, options.drawing document label) = label := by
  simp [placedFor, OverlayOptions.drawing]

/-- Every attempt to erase either succeeded or was refused. -/
theorem attempted_perm (past : Chronicle) :
    (attempted past).Perm (erased past ++ refused past) := by
  induction past with
  | nil => exact List.Perm.nil
  | cons entry rest ih =>
    obtain ⟨options, event⟩ := entry
    cases event with
    | erased document handle => exact ih.cons handle
    | eraseFailed document handle => exact (ih.cons handle).trans List.perm_middle.symm
    | _ => exact ih

theorem mem_attempted {past : Chronicle} {handle : String} :
    handle ∈ attempted past ↔ handle ∈ erased past ∨ handle ∈ refused past :=
  (attempted_perm past).mem_iff.trans List.mem_append

/-- Events with the options of one moment. -/
def stamp (options : OverlayOptions) (trace : List Event) : Chronicle := trace.map (options, ·)

@[simp] theorem drawings_append (past more : Chronicle) :
    drawings (past ++ more) = drawings past ++ drawings more := List.filterMap_append

@[simp] theorem handles_append (past more : Chronicle) :
    handles (past ++ more) = handles past ++ handles more := by simp [handles]

@[simp] theorem erased_append (past more : Chronicle) :
    erased (past ++ more) = erased past ++ erased more := List.filterMap_append

@[simp] theorem attempted_append (past more : Chronicle) :
    attempted (past ++ more) = attempted past ++ attempted more := List.filterMap_append

@[simp] theorem stamp_append (options : OverlayOptions) (trace more : List Event) :
    stamp options (trace ++ more) = stamp options trace ++ stamp options more := by simp [stamp]

/-- An event that neither draws nor erases a label on a recorder. -/
def Quiet : Event → Prop
  | .drawn .. => False
  | .erased .. => False
  | .eraseFailed .. => False
  | _ => True

/-- Quiet events add nothing to what a chronicle says about labels. -/
theorem stamp_quiet (options : OverlayOptions) {trace : List Event} (h : ∀ e ∈ trace, Quiet e) :
    drawings (stamp options trace) = [] ∧ erased (stamp options trace) = [] ∧
      attempted (stamp options trace) = [] := by
  induction trace with
  | nil => exact ⟨rfl, rfl, rfl⟩
  | cons event rest ih =>
    have hevent : Quiet event := h event List.mem_cons_self
    have hrest := ih fun e he => h e (List.mem_cons_of_mem event he)
    cases event <;> first | exact hrest | exact hevent.elim

/-- What the events of erasing labels say: nothing was drawn, each handle was attempted
once, and those not refused were erased. -/
theorem stamp_removals (options : OverlayOptions) (refusals : Refusals) (document : String)
    (labels : List (Placed String)) :
    drawings (stamp options (labels.flatMap (OverlayRun.removal refusals document))) = [] ∧
      erased (stamp options (labels.flatMap (OverlayRun.removal refusals document))) =
        (labels.map Placed.handle).filter (· ∉ refusals.erasures) ∧
      attempted (stamp options (labels.flatMap (OverlayRun.removal refusals document))) =
        labels.map Placed.handle := by
  induction labels with
  | nil => exact ⟨rfl, rfl, rfl⟩
  | cons label rest ih =>
    obtain ⟨hdrawings, herased, hattempted⟩ := ih
    simp only [List.flatMap_cons, stamp_append, drawings_append, erased_append, attempted_append,
      hdrawings, herased, hattempted, List.map_cons, List.filter_cons]
    by_cases h : label.handle ∈ refusals.erasures
    · simp [OverlayRun.removal, h, stamp, drawings, erased, attempted]
    · simp [OverlayRun.removal, h, stamp, drawings, erased, attempted]

end Chronicle

open Chronicle

/-! ## The ledger -/

/-- A run agrees with its chronicle. Handles are numbered by attempts to draw, the canvas
shows what was drawn and not erased, and a document has on record what was drawn into it
and not yet attempted to be erased. -/
structure Ledger (past : Chronicle) (run : OverlayRun) : Prop where
  /-- Each document has one row. -/
  keys : run.overlay.tracked.keys.Nodup
  /-- Handles come from increasing attempts. -/
  numbered : ∃ numbers : List Nat, handles past = numbers.map Recorder.handleOf ∧
    numbers.Pairwise (· < ·) ∧ ∀ n ∈ numbers, n ≤ run.recorder.attempts
  /-- A drawing shows the marker and the style of its time. -/
  styled : ∀ p ∈ drawings past, p.2 = p.1.drawing p.2.document (placedFor p)
  live : run.recorder.live =
    ((drawings past).map Prod.snd).filter fun d => d.handle ∉ erased past
  tracked : ∀ document, run.overlay.labels document =
    ((drawings past).filter fun p =>
      p.2.document = document ∧ p.2.handle ∉ attempted past).map placedFor
  /-- No handle is attempted to be erased twice. -/
  once : (attempted past).Nodup
  /-- Only what was drawn is attempted to be erased. -/
  known : ∀ handle ∈ attempted past, handle ∈ handles past

namespace Ledger

variable {past : Chronicle} {run : OverlayRun}

/-- No two drawings share a handle. -/
theorem nodup_handles (h : Ledger past run) : (handles past).Nodup := by
  obtain ⟨numbers, hhandles, hincreasing, _⟩ := h.numbered
  rw [hhandles]
  exact List.Nodup.map Recorder.handleOf_injective (hincreasing.imp Nat.ne_of_lt)

/-- The handle of the next attempt has not been drawn. -/
theorem next_fresh (h : Ledger past run) :
    Recorder.handleOf (run.recorder.attempts + 1) ∉ handles past := by
  obtain ⟨numbers, hhandles, _, hbound⟩ := h.numbered
  rw [hhandles]
  intro hmem
  obtain ⟨n, hn, heq⟩ := List.mem_map.mp hmem
  have := hbound n hn
  have := Recorder.handleOf_injective heq
  omega

/-- A drawing is known by its handle. -/
theorem eq_of_handle (h : Ledger past run) {p q : OverlayOptions × Drawn}
    (hp : p ∈ drawings past) (hq : q ∈ drawings past) (heq : p.2.handle = q.2.handle) : p = q :=
  List.inj_on_of_nodup_map h.nodup_handles hp hq heq

/-- The handles on record for a document were drawn into it and never attempted. -/
theorem mem_labels (h : Ledger past run) {document handle : String} :
    handle ∈ (run.overlay.labels document).map Placed.handle ↔
      ∃ p ∈ drawings past, p.2.document = document ∧ p.2.handle = handle ∧
        handle ∉ attempted past := by
  rw [h.tracked document]
  simp only [List.map_map, List.mem_map, List.mem_filter, decide_eq_true_eq, Function.comp_apply]
  constructor
  · rintro ⟨p, ⟨hp, hdocument, hattempted⟩, rfl⟩
    exact ⟨p, hp, hdocument, rfl, hattempted⟩
  · rintro ⟨p, hp, hdocument, rfl, hattempted⟩
    exact ⟨p, ⟨hp, hdocument, hattempted⟩, rfl⟩

/-- The handles on record for a document, in the order in which they were drawn. -/
theorem labels_sublist (h : Ledger past run) (document : String) :
    ((run.overlay.labels document).map Placed.handle).Sublist (handles past) := by
  rw [h.tracked document, List.map_map]
  exact List.filter_sublist.map _

/-- A ledger survives whatever leaves the labels and the record as they are. -/
theorem quiet (h : Ledger past run) {after : OverlayRun} {options : OverlayOptions}
    {trace : List Event} (hquiet : ∀ e ∈ trace, Quiet e)
    (hkeys : after.overlay.tracked.keys.Nodup)
    (hlabels : ∀ document, after.overlay.labels document = run.overlay.labels document)
    (hlive : after.recorder.live = run.recorder.live)
    (hattempts : run.recorder.attempts ≤ after.recorder.attempts) :
    Ledger (past ++ stamp options trace) after := by
  obtain ⟨hdrawings, herased, hattempted⟩ := stamp_quiet options hquiet
  have hhandles : handles (stamp options trace) = [] := by simp [handles, hdrawings]
  obtain ⟨numbers, hnumbers, hincreasing, hbound⟩ := h.numbered
  constructor
  · exact hkeys
  · refine ⟨numbers, by simpa [hhandles] using hnumbers, hincreasing, ?_⟩
    exact fun n hn => Nat.le_trans (hbound n hn) hattempts
  · simpa [hdrawings] using h.styled
  · simpa [hdrawings, herased, hlive] using h.live
  · intro document
    simpa [hdrawings, hattempted, hlabels] using h.tracked document
  · simpa [hattempted] using h.once
  · simpa [hattempted, hhandles] using h.known

/-- A ledger survives the retraction of a document: its labels, which were never
attempted before, are now attempted, and nothing of another document is touched. -/
theorem retract (h : Ledger past run) (options : OverlayOptions) (document : String) :
    Ledger (past ++ stamp options (Overlay.retract OverlayRun.site document run).trace)
      (Overlay.retract OverlayRun.site document run).state := by
  rw [OverlayRun.retract_apply]
  set labels := run.overlay.labels document with hlabels
  obtain ⟨hdrawings, herased, hattempted⟩ :=
    stamp_removals options run.recorder.refusals document labels
  have hmem {handle : String} : handle ∈ labels.map Placed.handle ↔ _ := h.mem_labels
  have hnew : ∀ handle ∈ labels.map Placed.handle, handle ∉ attempted past := by
    intro handle hhandle
    obtain ⟨_, _, _, _, hnot⟩ := hmem.mp hhandle
    exact hnot
  constructor
  · exact Table.nodup_keys_erase h.keys document
  · simpa [handles, hdrawings, Recorder.wipe] using h.numbered
  · simpa [hdrawings] using h.styled
  · -- What is wiped is what was not refused, and only handles on record are wiped.
    simp only [Recorder.wipe, h.live, List.filter_filter, drawings_append, hdrawings,
      List.append_nil, erased_append, herased]
    apply List.filter_congr
    intro d _
    rw [Bool.eq_iff_iff]
    simp only [Bool.and_eq_true, decide_eq_true_eq, List.mem_append, List.mem_filter]
    tauto
  · intro other
    simp only [Overlay.labels_forget, drawings_append, hdrawings, List.append_nil,
      attempted_append, hattempted, List.mem_append, not_or]
    by_cases hother : other = document
    · subst hother
      rw [if_pos rfl, eq_comm, List.map_eq_nil_iff, List.filter_eq_nil_iff]
      intro p hp
      simp only [decide_eq_true_eq, not_and, not_not]
      intro hdocument hattempted
      exact hmem.mpr ⟨p, hp, hdocument, rfl, hattempted⟩
    · rw [if_neg hother, h.tracked other]
      congr 1
      apply List.filter_congr
      intro p hp
      have hforeign : p.2.document = other → p.2.handle ∉ labels.map Placed.handle := by
        intro hdocument hhandle
        obtain ⟨q, hq, hqdocument, hqhandle, _⟩ := hmem.mp hhandle
        have heq := h.eq_of_handle hq hp hqhandle
        subst heq
        exact hother (hdocument.symm.trans hqdocument)
      simp only [decide_eq_decide]
      tauto
  · rw [attempted_append, hattempted]
    refine List.nodup_append.mpr ⟨h.once, ?_, ?_⟩
    · exact h.nodup_handles.sublist (h.labels_sublist document)
    · rintro a ha b hb rfl
      exact hnew a hb ha
  · intro handle hhandle
    simp only [attempted_append, hattempted, List.mem_append] at hhandle
    rw [handles_append]
    refine List.mem_append_left _ ?_
    rcases hhandle with hold | hlabel
    · exact h.known handle hold
    · exact (h.labels_sublist document).subset hlabel

/-- A ledger survives an attempt to draw a label. When it is drawn, its handle is new, so
it is the latest drawing of its document and has not been attempted to be erased. -/
theorem drawOne (h : Ledger past run) (options : OverlayOptions) (document : String)
    (label : Label) :
    Ledger
      (past ++ stamp options (Overlay.drawOne OverlayRun.site options document label run).trace)
      (Overlay.drawOne OverlayRun.site options document label run).state := by
  rw [OverlayRun.drawOne_apply]
  by_cases hrefused : run.recorder.attempts + 1 ∈ run.recorder.refusals.draws
  · rw [if_pos hrefused]
    exact h.quiet (by simp) h.keys (fun _ => rfl) rfl (Nat.le_succ _)
  rw [if_neg hrefused]
  set placed : Placed String := run.nextLabel label with hplaced
  have hstamp : drawings (stamp options [options.drawn document placed]) =
      [(options, options.drawing document placed)] := rfl
  have herased : erased (stamp options [options.drawn document placed]) = [] := rfl
  have hattempted : attempted (stamp options [options.drawn document placed]) = [] := rfl
  have hfresh : placed.handle ∉ attempted past := fun hmem => h.next_fresh (h.known _ hmem)
  have hunerased : placed.handle ∉ erased past := fun hmem =>
    hfresh (mem_attempted.mpr (Or.inl hmem))
  constructor
  · exact Table.nodup_keys_insert h.keys document _
  · obtain ⟨numbers, hnumbers, hincreasing, hbound⟩ := h.numbered
    refine ⟨numbers ++ [run.recorder.attempts + 1], ?_, ?_, ?_⟩
    · simp only [handles_append, List.map_append, hnumbers]
      rfl
    · refine List.pairwise_append.mpr ⟨hincreasing, by simp, ?_⟩
      intro m hm n hn
      have := hbound m hm
      have := List.mem_singleton.mp hn
      omega
    · intro n hn
      rcases List.mem_append.mp hn with hold | hlast
      · exact Nat.le_succ_of_le (hbound n hold)
      · exact Nat.le_of_eq (List.mem_singleton.mp hlast)
  · intro p hp
    rw [drawings_append, hstamp] at hp
    rcases List.mem_append.mp hp with hold | hlast
    · exact h.styled p hold
    · rw [List.mem_singleton.mp hlast, placedFor_drawing]
      rfl
  · simp only [OverlayRun.extend, drawings_append, hstamp, erased_append, herased,
      List.append_nil, List.map_append, List.filter_append, h.live]
    simp [OverlayOptions.drawing, ← hplaced, hunerased]
  · intro other
    simp only [OverlayRun.extend, Overlay.labels_push, drawings_append, hstamp, attempted_append,
      hattempted, List.append_nil, List.filter_append, List.map_append, h.tracked]
    by_cases hother : other = document
    · simp [hother, OverlayOptions.drawing, ← hplaced, hfresh, placedFor]
    · have hne : document ≠ other := fun h => hother h.symm
      simp [hother, OverlayOptions.drawing, hne]
  · simpa [hattempted] using h.once
  · intro handle hhandle
    rw [attempted_append, hattempted, List.append_nil] at hhandle
    rw [handles_append]
    exact List.mem_append_left _ (h.known handle hhandle)

end Ledger

/-! ## What operations maintain -/

/-- The invariant inside a step that began with the given options and chronicle. -/
def Upheld (options : OverlayOptions) (earlier : Chronicle) (past : List Event)
    (run : OverlayRun) : Prop :=
  run.overlay.options = options ∧ Ledger (earlier ++ stamp options past) run

namespace Upheld

variable {options : OverlayOptions} {earlier : Chronicle}

open ClosingLabels.Action OverlayRun

/-- Quiet events and changes that leave the labels and the record alone do no harm. -/
theorem quiet {past trace : List Event} {run after : OverlayRun}
    (h : Upheld options earlier past run) (hquiet : ∀ e ∈ trace, Quiet e)
    (hoptions : after.overlay.options = run.overlay.options)
    (hkeys : after.overlay.tracked.keys.Nodup)
    (hlabels : ∀ document, after.overlay.labels document = run.overlay.labels document)
    (hlive : after.recorder.live = run.recorder.live)
    (hattempts : run.recorder.attempts ≤ after.recorder.attempts) :
    Upheld options earlier (past ++ trace) after := by
  refine ⟨hoptions.trans h.1, ?_⟩
  rw [stamp_append, ← List.append_assoc]
  exact h.2.quiet hquiet hkeys hlabels hlive hattempts

theorem emit {event : Event} (hquiet : Quiet event) :
    Maintains (Upheld options earlier) (Action.emit event) :=
  Maintains.emit fun _ _ h =>
    h.quiet (by simpa using hquiet) rfl h.2.keys (fun _ => rfl) rfl (Nat.le_refl _)

theorem retract (document : String) :
    Maintains (Upheld options earlier) (Overlay.retract site document) := by
  intro past run h
  refine ⟨?_, ?_⟩
  · rw [retract_apply]
    exact h.1
  · rw [stamp_append, ← List.append_assoc]
    exact h.2.retract options document

theorem drawOne (document : String) (label : Label) :
    Maintains (Upheld options earlier) (Overlay.drawOne site options document label) := by
  intro past run h
  refine ⟨?_, ?_⟩
  · rw [drawOne_apply]
    split <;> exact h.1
  · rw [stamp_append, ← List.append_assoc]
    exact h.2.drawOne options document label

theorem flush (document : String) :
    Maintains (Upheld options earlier) (site.canvas.flush document) := by
  intro past run h
  simp only [site_flush, zoom_apply, recorderPart_get, recorderPart_set, Recorder.flush_apply]
  split
  · exact h.quiet (by simp [Quiet]) rfl h.2.keys (fun _ => rfl) rfl (Nat.le_refl _)
  · exact h.quiet (by simp [Quiet]) rfl h.2.keys (fun _ => rfl) rfl (Nat.le_refl _)

/-- Drawing one label after another, by recursion on the list. -/
theorem drawEach (document : String) (labels : List Label) :
    Maintains (Upheld options earlier) (Overlay.drawEach site options document labels) := by
  induction labels with
  | nil => exact .pure 0
  | cons label rest ih =>
    rw [Overlay.drawEach_cons]
    refine Maintains.bind (.gets _) fun overlay => .ite ih ?_
    exact (drawOne document label).bind fun _ => ih.bind fun placed => .pure _

theorem drawAll (document : String) (labels : List Label) :
    Maintains (Upheld options earlier) (Overlay.drawAll site document labels) := by
  unfold Overlay.drawAll
  refine .ite (.pure 0) (Maintains.bind (.adjust ?_) fun _ => .gets_bind ?_)
  · intro past run h
    have hkeys : (run.overlay.register document).tracked.keys.Nodup := by
      unfold Overlay.register
      split
      · exact h.2.keys
      · exact Table.nodup_keys_insert h.2.keys document _
    have hquiet : Upheld options earlier (past ++ [])
        { run with overlay := run.overlay.register document } :=
      h.quiet (by simp) (Overlay.options_register _ _) hkeys
        (fun _ => Overlay.labels_register _ _ _) rfl (Nat.le_refl _)
    simpa using hquiet
  · intro past run h
    have hoptions : run.overlay.options = options := h.1
    simpa [hoptions] using drawEach document labels past run h

/-- Extracting labels from a view that only answers changes nothing. -/
theorem extract {view : View OverlayRun} (minLines : Rat) (catalog : Catalog)
    (hfind : ∀ kinds, Maintains (Upheld options earlier) (view.find kinds)) :
    Maintains (Upheld options earlier) (Label.extract view minLines catalog) := by
  unfold Label.extract
  refine .ite (.pure []) (.rescue ?_ fun fault => ?_)
  · exact (hfind _).bind fun blocks => .ofExcept _
  · have hreport : Quiet (.error (.extraction view.language) (some fault)) := trivial
    exact (emit hreport).bind fun _ => .pure []

theorem clear (document : String) :
    Maintains (Upheld options earlier) (Overlay.clear site document) :=
  (retract document).bind fun _ => .ite (flush document) (.pure ())

theorem add (document : String) (labels : List Label) :
    Maintains (Upheld options earlier) (Overlay.add site document labels) :=
  .ensure ((drawAll document labels).bind fun _ => .pure ()) (.ite (.pure ()) (flush document))

theorem redraw {view : View OverlayRun} (catalog : Catalog) (document : String) (minLines : Rat)
    (hfind : ∀ kinds, Maintains (Upheld options earlier) (view.find kinds)) :
    Maintains (Upheld options earlier)
      (Overlay.redraw site catalog document view minLines) := by
  have hreport (failure : Failure) (fault : Fault) :
      Maintains (Upheld options earlier) (Action.report failure fault) := emit trivial
  have hflush (changed : Bool) : Maintains (Upheld options earlier)
      (if changed then
        Action.rescue (site.canvas.flush document) fun fault =>
          Action.report (.repaint document) fault
      else pure ()) := .ite (.rescue (flush document) (hreport _)) (.pure ())
  refine Maintains.bind (.attempt ?_) fun replaced => ?_
  · refine (retract document).bind fun _ => (extract minLines catalog hfind).bind fun labels => ?_
    exact (drawAll document labels).bind fun _ => .pure _
  · cases replaced with
    | ok changed => exact (Maintains.pure changed).bind hflush
    | error fault => exact (hreport _ fault).bind fun _ => (Maintains.pure true).bind hflush

theorem dispose : Maintains (Upheld options earlier) (Overlay.dispose site) :=
  Maintains.bind (.gets _) fun _ => .each fun document _ => clear document

end Upheld

/-! ## Whole runs -/

/-- Every step keeps the ledger, whether it succeeds or fails. -/
theorem Ledger.perform {past : Chronicle} {run : OverlayRun} (h : Ledger past run)
    (step : OverlayStep) :
    Ledger (past ++ stamp run.overlay.options (step.perform run).trace)
      (step.perform run).state := by
  have hstart : Upheld run.overlay.options past [] run := ⟨rfl, by simpa [stamp] using h⟩
  have hsame {after : OverlayRun} {trace : List Event} (hquiet : ∀ e ∈ trace, Quiet e)
      (htracked : after.overlay.tracked = run.overlay.tracked)
      (hrecorder : after.recorder = run.recorder) :
      Ledger (past ++ stamp run.overlay.options trace) after :=
    h.quiet hquiet (by rw [htracked]; exact h.keys)
      (fun _ => by simp only [Overlay.labels, htracked]) (by rw [hrecorder])
      (Nat.le_of_eq (by rw [hrecorder]))
  have hdone {x : Action OverlayRun (Option (List (Placed String)))}
      (hx : Action.Maintains (Upheld run.overlay.options past) x) :
      Ledger (past ++ stamp run.overlay.options (x run).trace) (x run).state := by
    simpa using (hx [] run hstart).2
  cases step with
  | add document labels => exact hdone ((Upheld.add document labels).bind fun _ => .pure none)
  | clear document => exact hdone ((Upheld.clear document).bind fun _ => .pure none)
  | redraw document publication minLines =>
    refine hdone (Action.Maintains.bind (.ofExcept publication) fun publication => ?_)
    refine Action.Maintains.bind (.gets _) fun run => Action.Maintains.bind ?_ fun _ => .pure none
    exact Upheld.redraw _ document minLines fun kinds => .ofExcept _
  | setOptions options => exact hsame (by simp [OverlayStep.perform, Overlay.setOptions]) rfl rfl
  | reload overrides grammars =>
    refine hsame ?_ rfl rfl
    simp [OverlayStep.perform, Catalog.reloadIn, Action.bind_apply, Quiet]
  | tracked document => exact hdone (.gets _)
  | dispose => exact hdone (Upheld.dispose.bind fun _ => .pure none)

/-- Everything that happened while the steps were performed. -/
def OverlayRun.chronicle (run : OverlayRun) : List OverlayStep → Chronicle
  | [] => []
  | step :: rest =>
    stamp run.overlay.options (step.perform run).trace ++ chronicle (step.perform run).state rest

/-- A run that has not begun: nothing on record, nothing on the canvas. -/
def OverlayRun.fresh (options : OverlayOptions) (refusals : Refusals) (catalog : Catalog) :
    OverlayRun :=
  { overlay := { options }, recorder := { refusals }, catalog }

/-- Nothing on record, nothing drawn, nothing in the chronicle. -/
theorem Ledger.fresh (options : OverlayOptions) (refusals : Refusals) (catalog : Catalog) :
    Ledger [] (OverlayRun.fresh options refusals catalog) where
  keys := List.nodup_nil
  numbered := ⟨[], rfl, List.Pairwise.nil, by simp⟩
  styled := by simp [drawings]
  live := rfl
  tracked := fun _ => rfl
  once := List.nodup_nil
  known := by simp [attempted]

/-- Any number of steps keeps the ledger. -/
theorem Ledger.finish {past : Chronicle} {run : OverlayRun} (h : Ledger past run)
    (steps : List OverlayStep) :
    Ledger (past ++ run.chronicle steps) (Action.finish OverlayStep.perform run steps) := by
  induction steps generalizing past run with
  | nil => simpa [OverlayRun.chronicle] using h
  | cons step rest ih =>
    rw [OverlayRun.chronicle, ← List.append_assoc, Action.finish_cons]
    exact ih (h.perform step)

/-- A label on the canvas stands for a label on record: it was drawn for it, under the
options of its time. -/
def Shows (past : Chronicle) (d : Drawn) (label : Placed String) : Prop :=
  ∃ options, (options, d) ∈ drawings past ∧ d = options.drawing d.document label

/-- Who owns what after a run with the given chronicle. -/
structure Owned (past : Chronicle) (run : OverlayRun) : Prop where
  /-- On the canvas are exactly the labels on record and those whose erasure was refused. -/
  live_iff : ∀ d, d ∈ run.recorder.live ↔
    (∃ label ∈ run.overlay.labels d.document, Shows past d label) ∨
      ((∃ options, (options, d) ∈ drawings past) ∧ d.handle ∈ refused past)
  /-- Every label on record is on the canvas. -/
  shown : ∀ document, ∀ label ∈ run.overlay.labels document,
    ∃ d ∈ run.recorder.live, d.document = document ∧ Shows past d label
  /-- Nothing on record was ever attempted to be erased. -/
  untouched : ∀ document, ∀ label ∈ run.overlay.labels document, label.handle ∉ attempted past
  /-- No two labels on the canvas share a handle. -/
  live_nodup : (run.recorder.live.map Drawn.handle).Nodup
  /-- No handle is on record twice, in one document or in two. -/
  tracked_nodup : (run.overlay.tracked.rows.flatMap fun row => row.2.map Placed.handle).Nodup
  /-- Handles are drawn once, and each document has its labels in the order of drawing. -/
  in_order : (handles past).Nodup ∧ ∀ document,
    ((run.overlay.labels document).map Placed.handle).Sublist (handles past)
  /-- No handle is attempted to be erased twice. -/
  once : (attempted past).Nodup

namespace Ledger

variable {past : Chronicle} {run : OverlayRun}

/-- What is on record for a document shows on the canvas. -/
theorem shows_of_mem (h : Ledger past run) {document : String} {label : Placed String}
    (hlabel : label ∈ run.overlay.labels document) :
    ∃ p ∈ drawings past, p.2.document = document ∧ p.2.handle ∉ attempted past ∧
      Shows past p.2 label ∧ label.handle = p.2.handle := by
  rw [h.tracked document] at hlabel
  obtain ⟨p, hp, rfl⟩ := List.mem_map.mp hlabel
  obtain ⟨hdrawn, hwhere⟩ := List.mem_filter.mp hp
  have hwhere : p.2.document = document ∧ p.2.handle ∉ attempted past := by simpa using hwhere
  exact ⟨p, hdrawn, hwhere.1, hwhere.2, ⟨p.1, hdrawn, h.styled p hdrawn⟩, rfl⟩

/-- What was drawn and not erased is on the canvas. -/
theorem mem_live (h : Ledger past run) {d : Drawn} :
    d ∈ run.recorder.live ↔ (∃ options, (options, d) ∈ drawings past) ∧ d.handle ∉ erased past := by
  rw [h.live]
  simp

/-- Of what is on the canvas, what was never attempted is on record. -/
theorem mem_labels_of_not_attempted (h : Ledger past run) {options : OverlayOptions} {d : Drawn}
    (hd : (options, d) ∈ drawings past) (hnot : d.handle ∉ attempted past) :
    placedFor (options, d) ∈ run.overlay.labels d.document := by
  rw [h.tracked d.document]
  refine List.mem_map_of_mem (List.mem_filter.mpr ⟨hd, ?_⟩)
  simpa using hnot

/-- An erasure that was refused was not granted as well. -/
theorem not_erased_of_refused (h : Ledger past run) {handle : String}
    (hrefused : handle ∈ refused past) : handle ∉ erased past := by
  have hnodup := (attempted_perm past).nodup_iff.mp h.once
  intro herased
  exact (List.nodup_append.mp hnodup).2.2 handle herased handle hrefused rfl

/-- No handle is on record twice: within a document by the order of drawing, and in two
documents because a drawing belongs to one. -/
theorem nodup_tracked (h : Ledger past run) :
    (run.overlay.tracked.rows.flatMap fun row => row.2.map Placed.handle).Nodup := by
  have hrow {row : String × List (Placed String)} (hmem : row ∈ run.overlay.tracked.rows) :
      run.overlay.labels row.1 = row.2 := by
    have hget := (Table.mem_rows_iff h.keys row.1 row.2).mp hmem
    simp [Overlay.labels, hget]
  refine List.nodup_flatMap.mpr ⟨?_, ?_⟩
  · intro row hmem
    rw [← hrow hmem]
    exact h.nodup_handles.sublist (h.labels_sublist row.1)
  · have hkeys : run.overlay.tracked.rows.Pairwise fun a b => a.1 ≠ b.1 :=
      List.pairwise_map.mp h.keys
    refine hkeys.imp_of_mem fun ha hb hne => ?_
    intro handle hina hinb
    dsimp only at hina hinb
    rw [← hrow ha] at hina
    rw [← hrow hb] at hinb
    obtain ⟨p, hp, hpdocument, hphandle, _⟩ := h.mem_labels.mp hina
    obtain ⟨q, hq, hqdocument, hqhandle, _⟩ := h.mem_labels.mp hinb
    have heq := h.eq_of_handle hp hq (hphandle.trans hqhandle.symm)
    exact hne (by rw [← hpdocument, ← hqdocument, heq])

/-- A run that agrees with its chronicle owns what it shows. -/
theorem owned (h : Ledger past run) : Owned past run where
  live_iff d := by
    rw [h.mem_live]
    constructor
    · rintro ⟨⟨options, hd⟩, herased⟩
      by_cases hattempted : d.handle ∈ attempted past
      · right
        exact ⟨⟨options, hd⟩, (mem_attempted.mp hattempted).resolve_left herased⟩
      · left
        exact ⟨placedFor (options, d), h.mem_labels_of_not_attempted hd hattempted,
          options, hd, h.styled _ hd⟩
    · rintro (⟨label, hlabel, options, hd, heq⟩ | ⟨hd, hrefused⟩)
      · refine ⟨⟨options, hd⟩, fun herased => ?_⟩
        obtain ⟨p, hp, _, hnot, _, hhandle⟩ := h.shows_of_mem hlabel
        have hsame : d.handle = p.2.handle := by rw [heq, ← hhandle]; rfl
        exact hnot (hsame ▸ mem_attempted.mpr (Or.inl herased))
      · exact ⟨hd, h.not_erased_of_refused hrefused⟩
  shown document label hlabel := by
    obtain ⟨p, hp, hdocument, hnot, hshows, _⟩ := h.shows_of_mem hlabel
    refine ⟨p.2, h.mem_live.mpr ⟨⟨p.1, hp⟩, fun herased => ?_⟩, hdocument, hshows⟩
    exact hnot (mem_attempted.mpr (Or.inl herased))
  untouched document label hlabel := by
    obtain ⟨p, _, _, hnot, _, hhandle⟩ := h.shows_of_mem hlabel
    rwa [hhandle]
  live_nodup := by
    rw [h.live]
    refine h.nodup_handles.sublist ?_
    have hmap : handles past = ((drawings past).map Prod.snd).map Drawn.handle := by
      simp [handles]
    rw [hmap]
    exact List.filter_sublist.map _
  tracked_nodup := h.nodup_tracked
  in_order := ⟨h.nodup_handles, h.labels_sublist⟩
  once := h.once

end Ledger

/-- **Ownership.** Whatever is done to an overlay, and whatever its recorder refuses, after
every step, also one that failed, each label on the canvas is on record or its one erasure
was refused. -/
theorem owned_after_every_run (options : OverlayOptions) (refusals : Refusals)
    (catalog : Catalog) (steps : List OverlayStep) :
    Owned ((OverlayRun.fresh options refusals catalog).chronicle steps)
      (Action.finish OverlayStep.perform (OverlayRun.fresh options refusals catalog) steps) := by
  simpa using ((Ledger.fresh options refusals catalog).finish steps).owned

end ClosingLabels.Scenario
