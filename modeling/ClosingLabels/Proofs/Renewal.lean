import ClosingLabels.Proofs.Marks
import ClosingLabels.Proofs.Wiring

/-!
# A switchboard on a willing canvas

On a canvas that refuses nothing, switching and refreshing keep marks and labels in step
and touch one document at a time. What a refreshed document shows is decided by what was
extracted for it and by the options in force, not by what it showed before.
-/

namespace ClosingLabels

open ClosingLabels.Action (Maintains)

/-- A condition to which the labels of one document do not matter. -/
def Sheet.Tolerates {H : Type} (document : String) (p : Sheet H → Prop) : Prop :=
  ∀ before after, p before → after.options = before.options →
    (∀ other, other ≠ document →
      after.labels other = before.labels other ∧ after.marks other = before.marks other) →
    p after

namespace Switchboard

open Overlay

variable {σ H : Type} {site : Site σ H} {marks : σ → String → List (Mark H)}
  {apt : σ → Prop} {document : String} {p : Sheet H → Prop}

/-- The state is apt for drawing, every mark stands for a label, and something holds of what
shows. -/
def Site.Good (site : Site σ H) (marks : σ → String → List (Mark H)) (apt : σ → Prop)
    (p : Sheet H → Prop) (_ : List Event) (s : σ) : Prop :=
  apt s ∧ (site.overlay.sheet marks s).Owned ∧ p (site.overlay.sheet marks s)

/-- What rests keeps everything good. -/
theorem Site.good_of_rests {α : Type} {x : Action σ α} (hx : site.overlay.Rests marks apt x) :
    Maintains (site.Good marks apt p) x := by
  rintro past s ⟨hapt, howned, hp⟩
  obtain ⟨hafter, hsame⟩ := hx.state hapt
  exact ⟨hafter, hsame ▸ howned, hsame ▸ hp⟩

variable [DecidableEq H]

/-- The canvas of a switchboard is willing, and nothing else it works with draws. -/
structure Site.Drawable (site : Site σ H) (marks : σ → String → List (Mark H))
    (apt : σ → Prop) : Prop where
  willing : site.overlay.Willing marks apt
  board : ∀ f, site.overlay.Rests marks apt (Action.adjust site.part f)
  subscribe : ∀ trigger document,
    site.overlay.Rests marks apt (site.feed.subscribe trigger document)
  unsubscribe : ∀ trigger document number,
    site.overlay.Rests marks apt (site.feed.unsubscribe trigger document number)
  view : ∀ document s, ∃ found, site.feed.view? document s = ⟨.ok found, s, []⟩ ∧
    ∀ shown, found = some shown → ∀ kinds, site.overlay.Rests marks apt (shown.find kinds)
  minLines : site.overlay.Rests marks apt site.minLines

namespace Site.Drawable

/-- Clearing a document keeps good what survives that its labels are wiped off. -/
theorem clear (h : site.Drawable marks apt) (hp : ∀ sheet, p sheet → p (sheet.wipe document)) :
    Maintains (site.Good marks apt p) (Overlay.clear site.overlay document) := by
  rintro past s ⟨hapt, howned, hgood⟩
  obtain ⟨hafter, hwiped⟩ := h.willing.clear document hapt howned
  exact ⟨hafter, hwiped ▸ howned.wipe document, hwiped ▸ hp _ hgood⟩

/-- What a refreshed document shows: the labels extracted from its view once its old ones are
gone. -/
theorem refresh_renews (h : site.Drawable marks apt) {s : σ} {shown : View σ} {minLines : Rat}
    (hview : site.feed.view? document s = ⟨.ok (some shown), s, []⟩)
    (hminLines : (site.minLines s).result = .ok minLines) (hapt : apt s)
    (howned : (site.overlay.sheet marks s).Owned) :
    let asked := (site.minLines s).state
    let cleared := (Overlay.retract site.overlay document asked).state
    let after := (Switchboard.refresh site document s).state
    let kinds := (site.catalog asked).kinds shown.language
    let records := Label.gather shown.document minLines kinds (shown.find kinds cleared).result
    apt after ∧ (site.overlay.sheet marks after).Owned ∧
      Sheet.Renewed document ((site.overlay.part.get s).options.select records)
        (site.overlay.sheet marks s) (site.overlay.sheet marks after) := by
  obtain ⟨found, hfound, hfind⟩ := h.view document s
  obtain rfl : found = some shown := by
    have hsame := congrArg Outcome.result (hfound.symm.trans hview)
    exact Except.ok.inj hsame
  obtain ⟨hasked, hsame⟩ := h.minLines.state hapt
  have hrun : (Switchboard.refresh site document s).state =
      (Overlay.redraw site.overlay (site.catalog (site.minLines s).state) document shown minLines
        (site.minLines s).state).state := by
    rw [Switchboard.refresh, Action.bind_of_quiet hview]
    dsimp only
    rw [Action.bind_of_ok (Action.eq_of_result hminLines),
      Action.bind_of_ok (Action.gets_apply _ _)]
  obtain ⟨hafter, hstays, hrenewed⟩ :=
    h.willing.redraw (hfind shown rfl) (site.catalog (site.minLines s).state) document minLines
      hasked (hsame ▸ howned)
  have hoptions : (site.overlay.part.get (site.minLines s).state).options =
      (site.overlay.part.get s).options := congrArg Sheet.options hsame
  rw [hsame, hoptions] at hrenewed
  dsimp only
  rw [hrun]
  exact ⟨hafter, hstays, hrenewed⟩

/-- Refreshing a document keeps everything good. -/
theorem refresh (h : site.Drawable marks apt) (hp : Sheet.Tolerates document p) :
    Maintains (site.Good marks apt p) (Switchboard.refresh site document) := by
  rintro past s ⟨hapt, howned, hgood⟩
  obtain ⟨found, hview, hfind⟩ := h.view document s
  cases found with
  | none =>
    rw [Switchboard.refresh, Action.bind_of_quiet hview]
    exact ⟨hapt, howned, hgood⟩
  | some shown =>
    rcases hminLines : (site.minLines s).result with fault | minLines
    · -- When there is no least height, nothing is drawn.
      have hrun : (Switchboard.refresh site document s).state = (site.minLines s).state := by
        rw [Switchboard.refresh, Action.bind_of_quiet hview]
        dsimp only
        rcases hasked : site.minLines s with ⟨result, asked, trace⟩
        rw [hasked] at hminLines
        dsimp only at hminLines
        rw [Action.bind_of_error (hminLines ▸ hasked)]
      rw [Good, hrun]
      exact Site.good_of_rests h.minLines past s ⟨hapt, howned, hgood⟩
    · obtain ⟨hafter, hstays, hrenewed⟩ :=
        h.refresh_renews hview hminLines hapt howned
      exact ⟨hafter, hstays, hp _ _ hgood hrenewed.options hrenewed.others⟩

/-- Switching labels on keeps everything good. -/
theorem enable (h : site.Drawable marks apt) (hp : Sheet.Tolerates document p) :
    Maintains (site.Good marks apt p) (Switchboard.enable site document) := by
  refine .bind (.gets _) fun board => .ite (.pure ()) ?_
  refine .bind (good_of_rests (h.subscribe _ _)) fun parsed => ?_
  refine .bind (good_of_rests (h.subscribe _ _)) fun changed => ?_
  refine .bind (good_of_rests (h.board _)) fun _ => ?_
  exact .bind (good_of_rests fun _ _ _ hs => hs) fun _ => h.refresh hp

/-- Switching labels off keeps good what survives that they are wiped off. -/
theorem disable (h : site.Drawable marks apt) (hp : ∀ sheet, p sheet → p (sheet.wipe document)) :
    Maintains (site.Good marks apt p) (Switchboard.disable site document) := by
  refine .bind (.gets _) fun board => ?_
  cases board.wires.get? document with
  | none => exact .pure ()
  | some wires =>
    refine .bind (good_of_rests (h.board _)) fun _ => ?_
    refine .bind (good_of_rests (h.unsubscribe _ _ _)) fun _ => ?_
    refine .bind (good_of_rests (h.unsubscribe _ _ _)) fun _ => ?_
    exact .bind (h.clear hp) fun _ => good_of_rests fun _ _ _ hs => hs

end Site.Drawable

end Switchboard

end ClosingLabels
