import ClosingLabels.Proofs.Canvases
import ClosingLabels.Proofs.Renewal
import ClosingLabels.Proofs.Switching

/-!
# Steps on a recorder that refuses nothing

A recorder that is to refuse neither drawings nor erasures is willing, so every mark on
it stands for a label on record. A step then touches the documents it acts on and no
other: which these are can be read off the step and the documents whose labels are on.
-/

namespace ClosingLabels

open ClosingLabels.Action (Maintains)

namespace Scenario

open Switchboard

namespace SwitchboardRun

/-! ## A recorder that refuses nothing -/

/-- The marks of a document on the recorder, oldest first. -/
def marks (run : SwitchboardRun) (document : String) : List (Mark String) :=
  (run.recorder.live.filter (·.document = document)).map Drawn.mark

/-- No drawing and no erasure is to be refused, and every handle comes from an attempt. -/
structure Apt (run : SwitchboardRun) : Prop where
  draws : run.recorder.refusals.draws = []
  erasures : run.recorder.refusals.erasures = []
  numbered : ∀ drawn ∈ run.recorder.live, ∃ n ≤ run.recorder.attempts,
    drawn.handle = Recorder.handleOf n

/-- Then the recorder is willing. -/
theorem willing : overlaySite.Willing marks Apt := by
  have hapt : Apt = fun run => (recorderPart.get run).Apt :=
    funext fun run => propext
      ⟨fun h => ⟨h.draws, h.erasures, h.numbered⟩, fun h => ⟨h.draws, h.erasures, h.numbered⟩⟩
  rw [hapt]
  exact Recorder.willing.beside overlaySite recorderPart rfl (fun _ _ => rfl) fun _ _ => rfl

theorem Apt.of_recorder {run other : SwitchboardRun} (h : run.Apt)
    (hsame : other.recorder = run.recorder) : other.Apt :=
  ⟨hsame ▸ h.draws, hsame ▸ h.erasures, hsame ▸ h.numbered⟩

/-- Nothing but the recorder draws. -/
theorem drawable : site.Drawable marks Apt where
  willing := willing
  board _ _ _ _ h := ⟨h.1.of_recorder rfl, h.2⟩
  subscribe _ _ _ _ _ h := ⟨h.1.of_recorder rfl, h.2⟩
  unsubscribe _ _ _ _ _ _ h := ⟨h.1.of_recorder rfl, h.2⟩
  view document run := by
    refine ⟨(run.feed.published.get? document).map Publication.view, rfl, ?_⟩
    intro shown hshown kinds
    obtain ⟨publication, _, rfl⟩ := Option.map_eq_some_iff.mp hshown
    exact fun _ => .ofExcept _
  minLines _ := .gets _

/-! ## What a step leaves alone -/

/-- What a run can look up: the publications, the catalog and the least height. -/
structure Surroundings where
  published : Table String Publication
  catalog : Catalog
  minLines : Rat

/-- The surroundings of a run. -/
def surroundings (run : SwitchboardRun) : Surroundings :=
  ⟨run.feed.published, run.catalog, run.minLines⟩

/-- Drawing does not change the surroundings. -/
theorem tends_surroundings (around : Surroundings) (document : String) :
    overlaySite.Tends document fun _ run => run.surroundings = around where
  forget _ _ h := h
  register _ _ h := h
  push _ _ _ h := h
  draw _ _ _ _ _ h := h
  erase _ _ _ h := h
  flush _ _ h := h
  report _ _ _ _ h := h

/-- Neither does refreshing a document. -/
theorem refresh_surroundings (document : String) (run : SwitchboardRun) :
    (Switchboard.refresh site document run).state.surroundings = run.surroundings := by
  have hkeeps : Maintains (fun _ after => after.surroundings = run.surroundings)
      (Switchboard.refresh site document) := by
    refine refresh_maintains (tends_surroundings _ document) (.gets _) fun s =>
      ⟨_, rfl, fun shown hshown kinds => ?_⟩
    obtain ⟨publication, _, rfl⟩ := Option.map_eq_some_iff.mp hshown
    exact .ofExcept _
  exact hkeeps [] run rfl

/-- Documents without a publication have no labels, and the spared ones show what they showed. -/
def Spares (published : Table String Publication) (spared : String → Prop)
    (seen sheet : Sheet String) : Prop :=
  (∀ document, published.get? document = none → sheet.labels document = []) ∧
    ∀ document, spared document →
      sheet.labels document = seen.labels document ∧ sheet.marks document = seen.marks document

/-- A run goes on in certain surroundings and spares certain documents. -/
def Sparing (around : Surroundings) (spared : String → Prop) (seen : Sheet String)
    (past : List Event) (run : SwitchboardRun) : Prop :=
  site.Good marks Apt (Spares around.published spared seen) past run ∧ run.surroundings = around

section Spare

variable {around : Surroundings} {spared : String → Prop} {seen : Sheet String}
  {document : String}

theorem spares_wipe {published : Table String Publication} (hdocument : ¬ spared document)
    {sheet : Sheet String} (h : Spares published spared seen sheet) :
    Spares published spared seen (sheet.wipe document) := by
  refine ⟨fun other hother => ?_, fun other hother => ?_⟩
  · by_cases heq : other = document
    · simp [Sheet.wipe, heq]
    · simpa [Sheet.wipe, heq] using h.1 other hother
  · have hne : other ≠ document := fun heq => hdocument (heq ▸ hother)
    simpa [Sheet.wipe, hne] using h.2 other hother

theorem spares_tolerates {published : Table String Publication} (hdocument : ¬ spared document)
    (hpublished : published.get? document ≠ none) :
    Sheet.Tolerates document (Spares published spared seen) := by
  rintro before after ⟨hunseen, hspared⟩ _ hothers
  refine ⟨fun other hother => ?_, fun other hother => ?_⟩
  · have hne : other ≠ document := fun heq => hpublished (heq ▸ hother)
    rw [(hothers other hne).1]
    exact hunseen other hother
  · have hne : other ≠ document := fun heq => hdocument (heq ▸ hother)
    rw [(hothers other hne).1, (hothers other hne).2]
    exact hspared other hother

/-- Whatever does not draw and leaves the surroundings spares everything. -/
theorem rests_spares {α : Type} {x : Action SwitchboardRun α}
    (hx : overlaySite.Rests marks Apt x)
    (haround : ∀ run, (x run).state.surroundings = run.surroundings) :
    Maintains (Sparing around spared seen) x := by
  rintro past run ⟨hgood, hsame⟩
  exact ⟨Site.good_of_rests hx past run hgood, (haround run).trans hsame⟩

/-- A document without a publication is not redrawn. -/
theorem refresh_unpublished {run : SwitchboardRun}
    (hnone : run.feed.published.get? document = none) :
    Switchboard.refresh site document run = ⟨.ok (), run, []⟩ := by
  have hview : site.feed.view? document run = ⟨.ok none, run, []⟩ := by
    have hread : site.feed.view? document run =
        ⟨.ok ((run.feed.published.get? document).map Publication.view), run, []⟩ := rfl
    rw [hread, hnone]
    rfl
  rw [Switchboard.refresh, Action.bind_of_quiet hview]
  rfl

/-- Refreshing touches one document. -/
theorem refresh_spares (hdocument : ¬ spared document) :
    Maintains (Sparing around spared seen) (Switchboard.refresh site document) := by
  rintro past run ⟨hgood, rfl⟩
  refine ⟨?_, refresh_surroundings document run⟩
  cases hnone : run.feed.published.get? document with
  | none =>
    rw [refresh_unpublished hnone]
    exact hgood
  | some publication =>
    have hpublished : run.surroundings.published.get? document ≠ none := by
      simp [surroundings, hnone]
    exact drawable.refresh (spares_tolerates hdocument hpublished) past run hgood

/-- Switching labels on touches one document. -/
theorem enable_spares (hdocument : ¬ spared document) :
    Maintains (Sparing around spared seen) (Switchboard.enable site document) := by
  have hsubscribe (trigger : Trigger) : Maintains (Sparing around spared seen)
      (site.feed.subscribe trigger document) := by
    refine rests_spares (drawable.subscribe trigger document) fun run => ?_
    cases trigger <;> rfl
  refine .bind (.gets _) fun board => .ite (.pure ()) ?_
  refine .bind (hsubscribe .parsed) fun parsed => .bind (hsubscribe .changed) fun changed => ?_
  refine .bind (rests_spares (drawable.board _) fun _ => rfl) fun _ => ?_
  exact .bind (rests_spares (fun _ _ _ h => h) fun _ => rfl) fun _ => refresh_spares hdocument

/-- Switching labels off touches one document. -/
theorem disable_spares (hdocument : ¬ spared document) :
    Maintains (Sparing around spared seen) (Switchboard.disable site document) := by
  have hunsubscribe (trigger : Trigger) (number : Nat) : Maintains (Sparing around spared seen)
      (site.feed.unsubscribe trigger document number) := by
    refine rests_spares (drawable.unsubscribe trigger document number) fun run => ?_
    exact congrArg (Surroundings.mk · run.catalog run.minLines)
      (ManualFeed.published_withoutSubscriber run.feed trigger document number)
  have hclear : Maintains (Sparing around spared seen) (Overlay.clear site.overlay document) := by
    rintro past run ⟨hgood, hsame⟩
    exact ⟨drawable.clear (fun _ => spares_wipe hdocument) past run hgood,
      (tends_surroundings around document).clear past run hsame⟩
  refine .bind (.gets _) fun board => ?_
  cases board.wires.get? document with
  | none => exact .pure ()
  | some wires =>
    refine .bind (rests_spares (drawable.board _) fun _ => rfl) fun _ => ?_
    refine .bind (hunsubscribe .parsed _) fun _ => .bind (hunsubscribe .changed _) fun _ => ?_
    exact .bind hclear fun _ => rests_spares (fun _ _ _ h => h) fun _ => rfl

end Spare

/-- Marks stand for labels, wires, listeners and record agree, and documents without a publication
have no labels. -/
structure Kept (run : SwitchboardRun) : Prop where
  apt : run.Apt
  owned : (overlaySite.sheet marks run).Owned
  sound : (site.stand hearing run).Sound
  unseen : ∀ document, run.feed.published.get? document = none → run.overlay.labels document = []

end SwitchboardRun

open SwitchboardRun

/-! ## Steps and documents -/

namespace SwitchboardStep

theorem state_announce (trigger : Trigger) (document : String) (run : SwitchboardRun) :
    ((announce trigger document).perform run).state =
      (Action.each (run.feed.subscribers trigger document)
        (fun _ => Switchboard.refresh site document) run).state := by
  rw [perform, Action.state_bind_pure, SwitchboardRun.announce,
    Action.bind_of_quiet (Action.get_apply _)]

theorem state_enable (document : String) (run : SwitchboardRun) :
    ((enable document).perform run).state = (Switchboard.enable site document run).state := by
  rw [perform, Action.state_bind_pure]

theorem state_disable (document : String) (run : SwitchboardRun) :
    ((disable document).perform run).state = (Switchboard.disable site document run).state := by
  rw [perform, Action.state_bind_pure]

theorem state_toggle (document : String) (run : SwitchboardRun) :
    ((toggle document).perform run).state =
      if run.board.isOn document then (Switchboard.disable site document run).state
      else (Switchboard.enable site document run).state := by
  rw [perform, Action.state_bind_pure, Switchboard.toggle,
    Action.bind_of_quiet (Action.look_apply _ _)]
  have hread : (site.part.get run).isOn document = run.board.isOn document := rfl
  rw [hread]
  cases run.board.isOn document with
  | true => rw [if_pos rfl, if_pos rfl, Action.state_bind_pure]
  | false => rw [if_neg (by simp), if_neg (by simp), Action.state_bind_pure]

theorem state_redrawAll (run : SwitchboardRun) :
    (redrawAll.perform run).state =
      (Action.each run.board.documents (Switchboard.refresh site) run).state := by
  rw [perform, Action.state_bind_pure, Switchboard.redrawAll,
    Action.bind_of_quiet (Action.look_apply _ _)]
  rfl

theorem state_dispose (run : SwitchboardRun) :
    (dispose.perform run).state =
      (Action.each run.board.documents (Switchboard.disable site) run).state := by
  rw [perform, Action.state_bind_pure, Switchboard.dispose,
    Action.bind_of_quiet (Action.look_apply _ _)]
  rfl

end SwitchboardStep

/-- Whether a step redraws or clears a document. -/
def SwitchboardStep.acts (run : SwitchboardRun) (document : String) : SwitchboardStep → Bool
  | .enable name => name = document && !run.board.isOn document
  | .disable name => name = document && run.board.isOn document
  | .toggle name => name = document
  | .announce _ name => name = document && run.board.isOn document
  | .redrawAll => run.board.isOn document
  | .dispose => run.board.isOn document
  | .publish .. | .setMinLines _ | .isOn _ | .setOptions _ | .reload .. => false

namespace SwitchboardRun.Kept

variable {run : SwitchboardRun}

/-- At the start of a step nothing has been touched. -/
theorem sparing (h : run.Kept) (spared : String → Prop) :
    Sparing run.surroundings spared (overlaySite.sheet marks run) [] run :=
  ⟨⟨h.apt, h.owned, h.unseen, fun _ _ => ⟨rfl, rfl⟩⟩, rfl⟩

/-- A run that spared documents in unchanged surroundings is in order as long as it is sound. -/
theorem of_sparing {spared : String → Prop} {after : SwitchboardRun}
    (hsparing : Sparing run.surroundings spared (overlaySite.sheet marks run) [] after)
    (hsound : (site.stand hearing after).Sound) :
    after.Kept ∧ ∀ document, spared document →
      after.overlay.labels document = run.overlay.labels document ∧
      after.marks document = run.marks document := by
  obtain ⟨⟨hapt, howned, hunseen, hspared⟩, haround⟩ := hsparing
  have hpublished : after.feed.published = run.feed.published :=
    congrArg Surroundings.published haround
  exact ⟨⟨hapt, howned, hsound, by rw [hpublished]; exact hunseen⟩, hspared⟩

end SwitchboardRun.Kept

/-- A step keeps a run in order and touches the documents it acts on only. -/
theorem SwitchboardStep.perform_spares {run : SwitchboardRun} (h : run.Kept)
    (step : SwitchboardStep) :
    (step.perform run).state.Kept ∧ ∀ document, step.acts run document = false →
      (step.perform run).state.overlay.labels document = run.overlay.labels document ∧
      (step.perform run).state.marks document = run.marks document := by
  have hsound : (site.stand hearing (step.perform run).state).Sound :=
    step.perform_sound [] run h.sound
  -- Steps that act on documents leave the publications, so sparing the others is all there is.
  have hstart := h.sparing fun document => step.acts run document = false
  cases step with
  | publish document publication =>
    cases publication with
    | error fault => exact ⟨h, fun _ _ => ⟨rfl, rfl⟩⟩
    | ok publication =>
      refine ⟨⟨h.apt.of_recorder rfl, h.owned, hsound, fun other hother => ?_⟩,
        fun _ _ => ⟨rfl, rfl⟩⟩
      have hnone : (run.feed.published.insert document publication).get? other = none := hother
      rw [Table.get?_insert] at hnone
      split at hnone
      · cases hnone
      · exact h.unseen other hnone
  | announce trigger document =>
    refine Kept.of_sparing ?_ hsound
    rw [SwitchboardStep.state_announce]
    refine Maintains.each (fun number hnumber => refresh_spares ?_) [] run hstart
    have hon : run.board.isOn document = true := (h.sound.isOn_of_hearing
      (List.mem_map_of_mem (f := (Registration.mk · document)) hnumber)).2
    simp [SwitchboardStep.acts, hon]
  | setMinLines value =>
    exact ⟨⟨h.apt.of_recorder rfl, h.owned, hsound, h.unseen⟩, fun _ _ => ⟨rfl, rfl⟩⟩
  | enable document =>
    refine Kept.of_sparing ?_ hsound
    rw [SwitchboardStep.state_enable]
    cases hon : run.board.isOn document with
    | true =>
      rw [enable_of_on hon]
      exact hstart
    | false => exact enable_spares (by simp [SwitchboardStep.acts, hon]) [] run hstart
  | disable document =>
    refine Kept.of_sparing ?_ hsound
    rw [SwitchboardStep.state_disable]
    cases hon : run.board.isOn document with
    | true => exact disable_spares (by simp [SwitchboardStep.acts, hon]) [] run hstart
    | false =>
      rw [disable_of_off hon]
      exact hstart
  | toggle document =>
    refine Kept.of_sparing ?_ hsound
    have hacts : ¬ (SwitchboardStep.toggle document).acts run document = false := by
      simp [SwitchboardStep.acts]
    rw [SwitchboardStep.state_toggle]
    split
    · exact disable_spares hacts [] run hstart
    · exact enable_spares hacts [] run hstart
  | isOn document => exact ⟨h, fun _ _ => ⟨rfl, rfl⟩⟩
  | redrawAll =>
    refine Kept.of_sparing ?_ hsound
    rw [SwitchboardStep.state_redrawAll]
    refine Maintains.each (fun document hdocument => refresh_spares ?_) [] run hstart
    have hon : run.board.isOn document = true := (Table.mem_keys_iff _ _).mp hdocument
    simp [SwitchboardStep.acts, hon]
  | setOptions options =>
    exact ⟨⟨h.apt.of_recorder rfl, ⟨h.owned.handles, h.owned.apart⟩, hsound, h.unseen⟩,
      fun _ _ => ⟨rfl, rfl⟩⟩
  | reload overrides grammars =>
    exact ⟨⟨h.apt.of_recorder rfl, h.owned, hsound, h.unseen⟩, fun _ _ => ⟨rfl, rfl⟩⟩
  | dispose =>
    refine Kept.of_sparing ?_ hsound
    rw [SwitchboardStep.state_dispose]
    refine Maintains.each (fun document hdocument => disable_spares ?_) [] run hstart
    have hon : run.board.isOn document = true := (Table.mem_keys_iff _ _).mp hdocument
    simp [SwitchboardStep.acts, hon]

end Scenario

end ClosingLabels
