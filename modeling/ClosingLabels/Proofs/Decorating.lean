import ClosingLabels.Proofs.Canvases
import ClosingLabels.Proofs.Consulting
import ClosingLabels.Proofs.Listening
import ClosingLabels.Proofs.Renewal
import ClosingLabels.Proofs.Searching

/-!
# A plugin's switchboard at its desk

The switchboard of a plugin listens to the plugin's own forest and draws decorations. Its
parts keep out of each other's way, and decorations are never refused, only showing them
may fail. So all that is known of switchboards on a willing canvas holds at a desk.
-/

namespace ClosingLabels

open ClosingLabels.Action (Leaves)

/-! ## Listeners of a forest -/

namespace Forest

variable {D L : Type}

/-- One more listener is heard last. -/
theorem listeners_addListener (forest : Forest D L) (trigger other : Trigger)
    (document name : String) (listener : L) :
    (forest.addListener trigger document listener).listeners other name =
      if other = trigger ∧ name = document then
        forest.listeners other name ++ [⟨forest.registrations, listener⟩]
      else forest.listeners other name :=
  forest.audience.filed.members_add listener

/-- A registration that was given up is not heard. -/
theorem listeners_removeListener (forest : Forest D L) (trigger other : Trigger)
    (document name : String) (number : Nat) :
    (forest.removeListener trigger document number).listeners other name =
      if other = trigger ∧ name = document then
        (forest.listeners other name).filter (·.number ≠ number)
      else forest.listeners other name :=
  forest.audience.filed.members_remove number

end Forest

/-- Searching a tree registers nobody and forgets no listener. -/
theorem PatternCache.find_listeners {D L : Type} (key : Text) (language : Language) (tree : Tree)
    (kinds : List Text) (grove : Grove D L) :
    (find Grove.cacheSite key language tree kinds grove).state.forest.listeners =
      grove.forest.listeners := by
  have hsearched := find_searched key language tree kinds grove
  generalize find Grove.cacheSite key language tree kinds grove = outcome at hsearched
  cases hsearched with
  | kept hkept => rfl
  | compiled hnew hquery => rfl
  | failed reported hidle => rfl

/-! ## Settings and decorations -/

/-- There are always settings, and they are remembered. -/
theorem SettingsStore.load_remembers (root : Option String) (store : SettingsStore) :
    ∃ settings, (load root store).result = .ok settings ∧
      (load root store).state.remembered = some (root, settings) := by
  by_cases hroot : store.remembered.map Prod.fst = some root
  · obtain ⟨⟨_, settings⟩, hremembered, rfl⟩ := Option.map_eq_some_iff.mp hroot
    exact ⟨settings, by rw [load_of_remembered hremembered],
      by rw [load_of_remembered hremembered, hremembered]⟩
  · obtain ⟨trace, happly⟩ := load_of_other hroot
    rw [happly]
    exact ⟨_, rfl, rfl⟩

/-! ## The site of a plugin -/

namespace Desk

open Switchboard

/-- Who hears of what at a desk. -/
def hearing (desk : Desk) : Hearing := desk.plugin.forest.listeners

/-- The decorations of a document as marks, oldest first. -/
def marks (desk : Desk) (document : String) : List (Mark Nat) :=
  ((displayPart.get desk).pending document).map Pending.mark

/-- Every handle in use was given out. -/
def Numbered (desk : Desk) : Prop :=
  ∀ document, ∀ label ∈ (displayPart.get desk).pending document,
    label.handle < desk.plugin.decorations.next

/-- The least height is that of the settings in force. -/
theorem minLines_apply (desk : Desk) :
    boardSite.minLines desk =
      let loaded := SettingsStore.load desk.bench.workspace desk.bench.store
      ⟨loaded.result.map fun settings => (settings.minLines : Rat),
        storePart.set loaded.state desk, loaded.trace⟩ := by
  have hsettings : settings desk =
      Action.zoom storePart (SettingsStore.load desk.bench.workspace) desk := by
    rw [settings, Action.bind_of_quiet (Action.get_apply _)]
  change (settings >>= fun settings => pure (settings.minLines : Rat)) desk = _
  rw [bind_pure_comp, Action.map_apply, hsettings]
  rfl

/-- What leaves the contents of the display alone changes nothing that shows. -/
theorem rests_of_contents {α : Type} {x : Action Display α}
    (hx : Leaves Display.contents Event.Idle x) :
    overlaySite.Rests marks Numbered (Action.zoom displayPart x) := by
  rintro seen past desk ⟨hdesk, rfl⟩
  have hnumbered : (displayPart.get desk).Numbered := hdesk
  obtain ⟨hstill, hmarks⟩ := hnumbered.of_contents (hx.state (displayPart.get desk))
  exact ⟨hstill, congrArg (Sheet.mk desk.plugin.overlay.options desk.plugin.overlay.labels) hmarks⟩

theorem find_still (entry : Entry Nat) (document : Document) (kinds : List Text) :
    boardSite.Still hearing ((Forest.viewOf grovePart entry document).find kinds) := by
  intro desk
  have hlisteners := PatternCache.find_listeners entry.key entry.language entry.tree kinds
    (grovePart.get desk)
  exact congrArg (Stand.mk desk.plugin.board desk.plugin.overlay) hlisteners

/-- The parts of the site keep out of each other's way. -/
theorem tidy : boardSite.Tidy hearing where
  board _ _ := rfl
  overlay _ _ := rfl
  draw _ _ _ _ _ := rfl
  erase _ _ _ := rfl
  flush _ _ := rfl
  subscribe trigger document desk := by
    refine ⟨_, _, rfl, congrArg (Stand.mk desk.plugin.board desk.plugin.overlay) ?_⟩
    funext other name
    exact Forest.listeners_addListener _ _ _ _ _ _
  unsubscribe trigger document number desk := by
    refine ⟨_, rfl, congrArg (Stand.mk desk.plugin.board desk.plugin.overlay) ?_⟩
    funext other name
    exact Forest.listeners_removeListener _ _ _ _ _ _
  view document desk := by
    refine ⟨_, view?_apply document desk, fun shown hshown kinds => ?_⟩
    obtain ⟨entry, _, rfl⟩ := Option.map_eq_some_iff.mp hshown
    exact find_still entry _ kinds
  minLines desk := by
    rw [minLines_apply]
    rfl
  answers desk := by
    obtain ⟨settings, hsettings, -⟩ :=
      SettingsStore.load_remembers desk.bench.workspace desk.bench.store
    refine ⟨settings.minLines, ?_⟩
    rw [minLines_apply]
    dsimp only
    rw [hsettings]
    rfl

/-- Decorations are never refused, and no handle is given out twice. -/
theorem willing : overlaySite.Willing marks Numbered :=
  Display.willing.beside overlaySite displayPart rfl (fun _ _ => rfl) fun _ _ => rfl

/-- Nothing but the canvas draws. -/
theorem drawable : boardSite.Drawable marks Numbered where
  willing := willing
  board _ _ _ _ h := h
  subscribe _ _ _ _ _ h := h
  unsubscribe _ _ _ _ _ _ h := h
  view document desk := by
    refine ⟨_, view?_apply document desk, fun shown hshown kinds => ?_⟩
    obtain ⟨entry, _, rfl⟩ := Option.map_eq_some_iff.mp hshown
    exact fun _ _ _ h => h
  minLines seen past desk h := by
    rw [minLines_apply]
    exact h

end Desk

end ClosingLabels
