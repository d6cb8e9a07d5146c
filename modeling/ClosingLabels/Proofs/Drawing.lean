import ClosingLabels.Overlay
import ClosingLabels.Proofs.Conduct

/-!
# What drawing maintains

An overlay does four things: it takes a document off the record, puts it on record, puts
a label of it on record, and calls the canvas. An invariant that survives these survives
whatever the overlay does with the document, also when the canvas fails half way.
-/

namespace ClosingLabels

open ClosingLabels.Action (Maintains Leads)

namespace Label

/-- The labels that come of an answer to a search for some kinds: none without a kind, and none
when the search or the reading of the text fails. -/
def gather (document : Document) (minLines : Rat) (kinds : List Text)
    (answer : Except Fault (List Block)) : List Label :=
  if kinds.isEmpty then []
  else
    match answer >>= fun blocks => collect document minLines blocks.reverse with
    | .ok labels => labels
    | .error _ => []

/-- Extraction never fails. It gives what the answer to its search gathers, and does to the state
what the search does. -/
theorem extract_apply {σ : Type} (shown : View σ) (minLines : Rat) (catalog : Catalog) (s : σ) :
    ∃ trace, extract shown minLines catalog s =
      ⟨.ok (gather shown.document minLines (catalog.kinds shown.language)
          (shown.find (catalog.kinds shown.language) s).result),
        if (catalog.kinds shown.language).isEmpty then s
        else (shown.find (catalog.kinds shown.language) s).state, trace⟩ := by
  unfold extract gather
  by_cases hkinds : (catalog.kinds shown.language).isEmpty = true
  · simp only [if_pos hkinds, Action.pure_apply]
    exact ⟨[], rfl⟩
  simp only [if_neg hkinds]
  rcases hfind : shown.find (catalog.kinds shown.language) s with ⟨fault | blocks, after, trace⟩
  · rw [Action.rescue_of_error (Action.bind_of_error hfind _),
      Action.bind_of_ok (Action.report_apply _ _ _)]
    exact ⟨_, rfl⟩
  · have hread := Action.bind_of_ok hfind fun blocks =>
      Action.ofExcept (collect shown.document minLines blocks.reverse)
    simp only [Action.ofExcept_apply] at hread
    change ∃ trace, _ = Outcome.mk (Except.ok (match collect shown.document minLines blocks.reverse with
      | .ok labels => labels
      | .error _ => [])) _ trace
    cases hcollect : collect shown.document minLines blocks.reverse with
    | error fault =>
      rw [hcollect] at hread
      rw [Action.rescue_of_error hread, Action.bind_of_ok (Action.report_apply _ _ _)]
      exact ⟨_, rfl⟩
    | ok labels =>
      rw [hcollect] at hread
      rw [Action.rescue_of_ok hread]
      exact ⟨_, rfl⟩

theorem extract_result {σ : Type} (shown : View σ) (minLines : Rat) (catalog : Catalog) (s : σ) :
    (extract shown minLines catalog s).result =
      .ok (gather shown.document minLines (catalog.kinds shown.language)
        (shown.find (catalog.kinds shown.language) s).result) := by
  obtain ⟨trace, hextract⟩ := extract_apply shown minLines catalog s
  rw [hextract]

theorem extract_state {σ : Type} (shown : View σ) (minLines : Rat) (catalog : Catalog) (s : σ) :
    (extract shown minLines catalog s).state =
      if (catalog.kinds shown.language).isEmpty then s
      else (shown.find (catalog.kinds shown.language) s).state := by
  obtain ⟨trace, hextract⟩ := extract_apply shown minLines catalog s
  rw [hextract]

end Label

namespace Overlay

variable {σ H : Type} {site : Site σ H} {document : String}

/-! ## Erasing -/

/-- Erasing labels maintains what each erasure and each report maintains. -/
theorem eraseAll_maintains {holds : List Event → σ → Prop}
    (herase : ∀ handle, Maintains holds (site.canvas.erase document handle))
    (hreport : ∀ failure cause, Maintains holds (Action.report failure cause))
    (labels : List (Placed H)) : Maintains holds (eraseAll site document labels) :=
  .each fun label _ => .rescue (herase label.handle) fun _ => hreport _ _

/-- A document is off the record before the first of its labels is erased, so erasing has to
maintain only what holds from then on. -/
theorem retract_leads {before after : List Event → σ → Prop}
    (hforget : ∀ past s, before past s →
      after past (site.part.set ((site.part.get s).forget document) s))
    (herase : ∀ handle, Maintains after (site.canvas.erase document handle))
    (hreport : ∀ failure cause, Maintains after (Action.report failure cause)) :
    Leads before after (retract site document) := by
  intro past s hs
  unfold retract
  rw [Action.bind_of_quiet (Action.look_apply _ _), Action.bind_of_quiet (Action.adjust_apply _ _ _)]
  have hrest : Maintains after (do
      eraseAll site document ((site.part.get s).labels document)
      return ((site.part.get s).labels document).length) :=
    .bind (eraseAll_maintains herase hreport _) fun _ => .pure _
  exact hrest past _ (hforget past s hs)

/-- So it is when it is cleared. -/
theorem clear_leads {before after : List Event → σ → Prop}
    (hforget : ∀ past s, before past s →
      after past (site.part.set ((site.part.get s).forget document) s))
    (herase : ∀ handle, Maintains after (site.canvas.erase document handle))
    (hflush : Maintains after (site.canvas.flush document))
    (hreport : ∀ failure cause, Maintains after (Action.report failure cause)) :
    Leads before after (clear site document) :=
  (retract_leads hforget herase hreport).bind_maintains fun _ => .ite hflush (.pure ())

/-! ## Drawing -/

/-- An invariant survives everything that is done with a document short of showing it. -/
structure Site.Drafts (site : Site σ H) (document : String) (holds : List Event → σ → Prop) :
    Prop where
  forget : ∀ past s, holds past s →
    holds past (site.part.set ((site.part.get s).forget document) s)
  register : ∀ past s, holds past s →
    holds past (site.part.set ((site.part.get s).register document) s)
  push : ∀ label past s, holds past s →
    holds past (site.part.set ((site.part.get s).push document label) s)
  draw : ∀ anchor text style, Maintains holds (site.canvas.draw document anchor text style)
  erase : ∀ handle, Maintains holds (site.canvas.erase document handle)
  report : ∀ failure cause, Maintains holds (Action.report failure cause)

/-- An invariant survives everything that is done with a document. -/
structure Site.Tends (site : Site σ H) (document : String) (holds : List Event → σ → Prop) : Prop
    extends site.Drafts document holds where
  flush : Maintains holds (site.canvas.flush document)

/-- Extracting labels maintains what searching maintains. -/
theorem extract_maintains {holds : List Event → σ → Prop} {shown : View σ}
    (hfind : ∀ kinds, Maintains holds (shown.find kinds))
    (hreport : ∀ failure cause, Maintains holds (Action.report failure cause)) (minLines : Rat)
    (catalog : Catalog) : Maintains holds (Label.extract shown minLines catalog) := by
  refine .ite (.pure []) (.rescue ?_ fun fault => ?_)
  · exact .bind (hfind _) fun blocks => .ofExcept _
  · exact .bind (hreport _ _) fun _ => .pure []

namespace Site.Drafts

variable {holds : List Event → σ → Prop}

theorem retract (h : site.Drafts document holds) :
    Maintains holds (Overlay.retract site document) :=
  retract_leads h.forget h.erase h.report

theorem drawEach (h : site.Drafts document holds) (options : OverlayOptions)
    (labels : List Label) : Maintains holds (Overlay.drawEach site options document labels) := by
  induction labels with
  | nil => exact .pure 0
  | cons label rest ih =>
    refine .bind (.gets _) fun overlay => .ite ih (.bind (h.draw _ _ _) fun handle => ?_)
    exact .bind (.adjust (h.push _)) fun _ => .bind ih fun placed => .pure _

theorem drawAll (h : site.Drafts document holds) (labels : List Label) :
    Maintains holds (Overlay.drawAll site document labels) := by
  refine .ite (.pure 0) (.bind (.adjust h.register) fun _ => ?_)
  exact .bind (.gets _) fun overlay => h.drawEach _ labels

end Site.Drafts

namespace Site.Tends

variable {holds : List Event → σ → Prop}

theorem clear (h : site.Tends document holds) : Maintains holds (Overlay.clear site document) :=
  clear_leads h.forget h.erase h.flush h.report

/-- Redrawing maintains what the canvas and the search maintain. -/
theorem redraw (h : site.Tends document holds) {shown : View σ}
    (hfind : ∀ kinds, Maintains holds (shown.find kinds)) (catalog : Catalog) (minLines : Rat) :
    Maintains holds (Overlay.redraw site catalog document shown minLines) := by
  have hflush : Maintains holds (Action.rescue (site.canvas.flush document) fun fault =>
      Action.report (.repaint document) fault) :=
    .rescue h.flush fun _ => h.report _ _
  unfold Overlay.redraw
  refine .bind (.attempt ?_) fun replaced => ?_
  · refine .bind h.retract fun retracted => ?_
    refine .bind (extract_maintains hfind h.report minLines catalog) fun labels => ?_
    exact .bind (h.drawAll labels) fun placed => .pure _
  · cases replaced with
    | ok changed => exact .bind (.pure changed) fun _ => .ite hflush (.pure ())
    | error fault =>
      refine .bind (.bind (h.report _ _) fun _ => .pure true) fun _ => ?_
      exact .ite hflush (.pure ())

end Site.Tends

/-- Redrawing never fails, whatever the canvas and the search do. -/
theorem redraw_result (site : Site σ H) (catalog : Catalog) (document : String) (shown : View σ)
    (minLines : Rat) (s : σ) :
    (redraw site catalog document shown minLines s).result = .ok () := by
  have hrepaint (changed : Bool) (t : σ) :
      ((if changed = true then
        Action.rescue (site.canvas.flush document) fun fault =>
          Action.report (.repaint document) fault
      else pure ()) t).result = .ok () := by
    cases changed with
    | false => rfl
    | true =>
      rcases hflush : site.canvas.flush document t with ⟨fault | done, after, trace⟩
      · rw [if_pos rfl, Action.rescue_of_error hflush]
        rfl
      · rw [if_pos rfl, Action.rescue_of_ok hflush]
  unfold redraw
  rw [Action.bind_of_ok (Action.attempt_apply _ _)]
  generalize (retract site document >>= _) s = replaced
  rcases replaced with ⟨fault | changed, t, trace⟩
  · dsimp only
    rw [Action.bind_of_ok (Action.report_apply _ _ _), pure_bind]
    exact hrepaint true t
  · dsimp only
    rw [pure_bind]
    exact hrepaint changed t

/-- Taking a document off the record never fails. -/
theorem retract_result (site : Site σ H) (document : String) (s : σ) :
    (retract site document s).result = .ok ((site.part.get s).labels document).length := by
  have herased (t : σ) :
      (eraseAll site document ((site.part.get s).labels document) t).result = .ok () := by
    refine Action.each_result (fun label _ u => ?_) t
    rcases herase : site.canvas.erase document label.handle u with ⟨fault | done, after, trace⟩
    · rw [Action.rescue_of_error herase]
      rfl
    · rw [Action.rescue_of_ok herase]
  rw [retract, Action.bind_of_quiet (Action.look_apply _ _),
    Action.bind_of_quiet (Action.adjust_apply _ _ _),
    Action.bind_of_ok (Action.eq_of_result (herased _))]
  rfl

/-- Clearing a document flushes it if it had labels, and fails only as that flush does. -/
theorem clear_result (site : Site σ H) (document : String) (s : σ) :
    (clear site document s).result =
      if (site.part.get s).labels document = [] then .ok ()
      else (site.canvas.flush document (retract site document s).state).result := by
  rw [clear, Action.bind_of_ok (Action.eq_of_result (retract_result site document s))]
  by_cases hnone : (site.part.get s).labels document = []
  · rw [if_pos hnone, if_neg (by simp [hnone])]
    rfl
  · rw [if_neg hnone, if_pos (List.length_pos_iff.mpr hnone)]

theorem clear_error {s : σ} {fault : Fault} (h : (clear site document s).result = .error fault) :
    ∃ t, (site.canvas.flush document t).result = .error fault := by
  rw [clear_result] at h
  split at h
  · cases h
  · exact ⟨_, h⟩

/-- In a view that drawing leaves alone, redrawing does what the extraction does once the document
is off the record. -/
theorem redraw_beside {τ : Type} {view : σ → τ}
    (hbeside : ∀ seen, site.Tends document fun _ s => view s = seen) (catalog : Catalog)
    (shown : View σ) (minLines : Rat) (s : σ) :
    view (redraw site catalog document shown minLines s).state =
      view (Label.extract shown minLines catalog (retract site document s).state).state := by
  have hrepaint (seen : τ) (changed : Bool) : Maintains (fun _ t => view t = seen)
      (if changed = true then
        Action.rescue (site.canvas.flush document) fun fault =>
          Action.report (.repaint document) fault
      else pure ()) :=
    .ite (.rescue (hbeside seen).flush fun _ => (hbeside seen).report _ _) (.pure ())
  have hbody {placed : Nat → Nat → Bool} : view ((do
      let retracted ← retract site document
      let labels ← Label.extract shown minLines catalog
      let drawn ← drawAll site document labels
      return placed retracted drawn : Action σ Bool) s).state =
      view (Label.extract shown minLines catalog (retract site document s).state).state := by
    rw [Action.bind_of_ok (Action.eq_of_result (retract_result site document s)),
      Action.bind_of_ok (Action.eq_of_result (Label.extract_result shown minLines catalog _)),
      Action.state_bind_pure]
    exact (hbeside _).drawAll _ [] _ rfl
  unfold redraw
  rw [Action.bind_of_ok (Action.attempt_apply _ _), ← hbody]
  generalize (retract site document >>= _) s = replaced
  rcases replaced with ⟨fault | changed, t, trace⟩
  · dsimp only
    rw [Action.bind_of_ok (Action.report_apply _ _ _), pure_bind]
    exact hrepaint (view t) true [] t rfl
  · dsimp only
    rw [pure_bind]
    exact hrepaint (view t) changed [] t rfl

end Overlay

end ClosingLabels
