import ClosingLabels.Proofs.Marks
import ClosingLabels.Proofs.Refreshing

/-!
# Willing canvases

A canvas may be willing all by itself, whoever draws on it. Both canvases are: a display
always, and a recorder as long as it is to refuse neither drawings nor erasures. An overlay
that keeps its records beside such a canvas then draws on a willing site.
-/

namespace ClosingLabels

variable {σ τ H : Type}

/-- A canvas refuses no drawing and no erasure in a state that is apt, and gives out new handles
only. An erasure removes the marks with that handle, as long as no other document has one. -/
structure Canvas.Willing [DecidableEq H] (canvas : Canvas σ H) (marks : σ → String → List (Mark H))
    (apt : σ → Prop) : Prop where
  draw : ∀ document anchor text style s, apt s → ∃ handle after trace,
    canvas.draw document anchor text style s = ⟨.ok handle, after, trace⟩ ∧ apt after ∧
      (∀ other, ∀ mark ∈ marks s other, mark.handle ≠ handle) ∧
      marks after = fun other =>
        marks s other ++ if other = document then [⟨handle, anchor, text, style⟩] else []
  erase : ∀ document handle s, apt s →
    (∀ other, other ≠ document → ∀ mark ∈ marks s other, mark.handle ≠ handle) →
    ∃ after trace, canvas.erase document handle s = ⟨.ok (), after, trace⟩ ∧ apt after ∧
      marks after = fun other =>
        if other = document then (marks s document).filter (·.handle ≠ handle)
        else marks s other
  flush : ∀ document s, apt s →
    apt (canvas.flush document s).state ∧ marks (canvas.flush document s).state = marks s

/-- An overlay beside a willing canvas draws on a willing site. -/
theorem Canvas.Willing.beside [DecidableEq H] {canvas : Canvas σ H}
    {marks : σ → String → List (Mark H)} {apt : σ → Prop} (h : canvas.Willing marks apt)
    (site : Overlay.Site τ H) (part : Lens τ σ) (hcanvas : site.canvas = canvas.within part)
    (hoverlay : ∀ c t, site.part.get (part.set c t) = site.part.get t)
    (hpart : ∀ overlay t, part.get (site.part.set overlay t) = part.get t) :
    site.Willing (fun t => marks (part.get t)) fun t => apt (part.get t) where
  part overlay t ht := by rwa [hpart]
  still overlay t := by rw [hpart]
  draw document anchor text style t ht := by
    obtain ⟨handle, after, trace, hrun, hafter, hnew, hmarks⟩ :=
      h.draw document anchor text style (part.get t) ht
    refine ⟨handle, part.set after t, trace, ?_, ?_, hoverlay _ _, hnew, ?_⟩
    · rw [hcanvas]
      change Action.zoom part (canvas.draw document anchor text style) t = _
      rw [Action.zoom_apply, hrun]
    · rwa [part.get_set]
    · rw [part.get_set, hmarks]
  erase document handle t ht hforeign := by
    obtain ⟨after, trace, hrun, hafter, hmarks⟩ := h.erase document handle (part.get t) ht hforeign
    refine ⟨part.set after t, trace, ?_, ?_, hoverlay _ _, ?_⟩
    · rw [hcanvas]
      change Action.zoom part (canvas.erase document handle) t = _
      rw [Action.zoom_apply, hrun]
    · rwa [part.get_set]
    · rw [part.get_set, hmarks]
  flush document seen past t ht := by
    obtain ⟨hapt, hseen⟩ := ht
    obtain ⟨hafter, hmarks⟩ := h.flush document (part.get t) hapt
    have hstate : (site.canvas.flush document t).state =
        part.set (canvas.flush document (part.get t)).state t := by
      rw [hcanvas]
      rfl
    rw [hstate]
    constructor
    · change apt (part.get (part.set _ t))
      rwa [part.get_set]
    · rw [← hseen, Overlay.Site.sheet, Overlay.Site.sheet, hoverlay, part.get_set, hmarks]

/-! ## A recorder -/

/-- A label on a recorder as a mark. -/
def Drawn.mark (drawn : Drawn) : Mark String :=
  ⟨drawn.handle, drawn.anchor, drawn.text, drawn.style⟩

namespace Recorder

/-- The marks of a document, oldest first. -/
def marks (recorder : Recorder) (document : String) : List (Mark String) :=
  (recorder.live.filter (·.document = document)).map Drawn.mark

/-- No drawing and no erasure is to be refused, and every handle comes from an attempt. -/
structure Apt (recorder : Recorder) : Prop where
  draws : recorder.refusals.draws = []
  erasures : recorder.refusals.erasures = []
  numbered : ∀ drawn ∈ recorder.live, ∃ n ≤ recorder.attempts, drawn.handle = handleOf n

/-- Then the recorder is willing. -/
theorem willing : canvas.Willing marks Apt where
  draw document anchor text style r h := by
    set handle := handleOf (r.attempts + 1)
    refine ⟨handle, _, _, (draw_apply document anchor text style r).trans
      (if_neg (by simp [h.draws])), ⟨h.draws, h.erasures, ?_⟩, ?_, ?_⟩
    · intro drawn hdrawn
      rcases List.mem_append.mp hdrawn with hold | hnew
      · obtain ⟨n, hn, hhandle⟩ := h.numbered drawn hold
        exact ⟨n, Nat.le_succ_of_le hn, hhandle⟩
      · rw [List.mem_singleton] at hnew
        exact ⟨_, Nat.le_refl _, by rw [hnew]⟩
    · intro other mark hmark hhandle
      obtain ⟨drawn, hdrawn, rfl⟩ := List.mem_map.mp hmark
      obtain ⟨n, hn, hnumber⟩ := h.numbered drawn (List.mem_filter.mp hdrawn).1
      have heq := handleOf_injective (hnumber.symm.trans hhandle)
      omega
    · funext other
      by_cases hother : other = document
      · simp [marks, hother, Drawn.mark, handle]
      · have hne : document ≠ other := fun heq => hother heq.symm
        simp [marks, hother, hne]
  erase document handle r h hforeign := by
    refine ⟨_, _, (erase_apply document handle r).trans (if_neg (by simp [h.erasures])),
      ⟨h.draws, h.erasures, fun drawn hdrawn => h.numbered drawn (List.mem_filter.mp hdrawn).1⟩, ?_⟩
    funext other
    by_cases hother : other = document
    · simp only [marks, hother, if_true, List.filter_map, List.filter_filter]
      congr 1
      apply List.filter_congr
      intro drawn _
      by_cases hhandle : drawn.handle = handle <;> simp [Drawn.mark, hhandle]
    · simp only [marks, if_neg hother, List.filter_filter]
      congr 1
      apply List.filter_congr
      intro drawn hdrawn
      by_cases hdocument : drawn.document = other
      · have hmark : drawn.mark ∈ r.marks other :=
          List.mem_map_of_mem (List.mem_filter.mpr ⟨hdrawn, by simpa using hdocument⟩)
        have hkeep : drawn.handle ≠ handle := hforeign other hother drawn.mark hmark
        simp [hdocument, hkeep]
      · simp [hdocument]
  flush document r h := by
    change Apt (flush document r).state ∧ (flush document r).state.marks = r.marks
    rw [flush_apply]
    split
    · exact ⟨⟨h.draws, h.erasures, h.numbered⟩, rfl⟩
    · exact ⟨⟨h.draws, h.erasures, h.numbered⟩, rfl⟩

end Recorder

/-! ## A display -/

/-- A label waiting to be shown as a mark. -/
def Pending.mark (label : Pending) : Mark Nat :=
  ⟨label.handle, label.anchor, label.text, label.style⟩

namespace Display

/-- A new label is the last of its document. -/
theorem pending_draw (document other : String) (anchor : Rat) (text : Text) (style : Style)
    (display : Display) :
    (draw document anchor text style display).state.pending other =
      display.pending other ++
        if other = document then [⟨display.decorations.next, anchor, text, style⟩] else [] := by
  by_cases hother : other = document
  · subst hother
    simp [draw, Action.bind_apply, pending, decorationsPart]
  · simp [draw, Action.bind_apply, pending, decorationsPart, hother, Table.get?_insert]

/-- An erasure takes the labels with its handle out of its document. -/
theorem pending_erase (document other : String) (handle : Nat) (display : Display) :
    (erase document handle display).state.pending other =
      if other = document then (display.pending other).filter (·.handle ≠ handle)
      else display.pending other := by
  simp only [erase, Action.adjust_apply, decorationsPart, pending]
  cases hfound : display.decorations.documents.get? document with
  | none =>
    by_cases hother : other = document
    · simp [hother, hfound]
    · simp [hother]
  | some labels =>
    dsimp only
    split
    · next hnone =>
      by_cases hother : other = document
      · rw [if_pos hother, hother, hfound, Table.get?_erase_self]
        exact hnone.symm
      · simp [hother, Table.get?_erase]
    · by_cases hother : other = document
      · simp [hother, hfound]
      · simp [hother, Table.get?_insert]

/-- An erasure gives out no handle. -/
theorem next_erase (document : String) (handle : Nat) (display : Display) :
    (erase document handle display).state.decorations.next = display.decorations.next := by
  simp only [erase, Action.adjust_apply, decorationsPart]
  split
  · rfl
  · split <;> rfl

/-- Nothing but the contents of a display shows the labels of a document. -/
theorem pending_of_contents {display other : Display} (h : other.contents = display.contents) :
    other.pending = display.pending := by
  funext document
  exact congrArg (fun table : Table String (List Pending) => (table.get? document).getD [])
    (congrArg Contents.labels h)

/-- The decorations of a document as marks, oldest first. -/
def marks (display : Display) (document : String) : List (Mark Nat) :=
  (display.pending document).map Pending.mark

/-- Every handle in use was given out. -/
def Numbered (display : Display) : Prop :=
  ∀ document, ∀ label ∈ display.pending document, label.handle < display.decorations.next

/-- What leaves the contents of a display alone leaves its marks alone. -/
theorem Numbered.of_contents {display other : Display} (hnumbered : display.Numbered)
    (h : other.contents = display.contents) : other.Numbered ∧ other.marks = display.marks := by
  have hpending := pending_of_contents h
  refine ⟨fun document label hlabel => ?_, ?_⟩
  · rw [hpending] at hlabel
    exact Nat.lt_of_lt_of_eq (hnumbered document label hlabel) (congrArg Contents.next h).symm
  · funext document
    rw [marks, marks, hpending]

/-- Decorations are never refused, and no handle is given out twice. -/
theorem willing : canvas.Willing marks Numbered where
  draw document anchor text style display h := by
    have hpending (other : String) := pending_draw document other anchor text style display
    refine ⟨display.decorations.next, _, [], rfl, fun other label hlabel => ?_, ?_, ?_⟩
    · change label ∈ (draw document anchor text style display).state.pending other at hlabel
      change label.handle < display.decorations.next + 1
      rw [hpending, List.mem_append] at hlabel
      rcases hlabel with hold | hnew
      · exact Nat.lt_succ_of_lt (h other label hold)
      · split at hnew
        · rw [List.mem_singleton.mp hnew]
          exact Nat.lt_succ_self _
        · cases hnew
    · intro other mark hmark
      obtain ⟨label, hlabel, rfl⟩ := List.mem_map.mp hmark
      exact Nat.ne_of_lt (h other label hlabel)
    · funext other
      change ((draw document anchor text style display).state.pending other).map Pending.mark = _
      rw [hpending, List.map_append]
      by_cases hother : other = document
      · simp [hother, marks, Pending.mark]
      · simp [hother, marks]
  erase document handle display h hforeign := by
    have hpending (other : String) := pending_erase document other handle display
    refine ⟨_, [], rfl, fun other label hlabel => ?_, ?_⟩
    · change label ∈ (erase document handle display).state.pending other at hlabel
      change label.handle < (erase document handle display).state.decorations.next
      rw [hpending] at hlabel
      rw [next_erase]
      split at hlabel
      · exact h other label (List.mem_filter.mp hlabel).1
      · exact h other label hlabel
    · funext other
      change ((erase document handle display).state.pending other).map Pending.mark = _
      rw [hpending]
      by_cases hother : other = document
      · simp only [hother, if_true, marks, List.filter_map]
        rfl
      · simp only [if_neg hother, marks]
  flush document display h := h.of_contents ((flush_contents document).state display)

end Display

end ClosingLabels
