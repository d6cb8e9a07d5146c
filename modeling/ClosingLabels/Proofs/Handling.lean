import ClosingLabels.Proofs.Refreshing

/-!
# Handlers and their parts

What the plugin does when something happens is put together from a few parts: labels are
switched on or off, a document is opened, an editor is painted, work is left for later.
A handler maintains whatever its parts maintain. Where a part depends on the state it is
met in, it has to maintain the invariant only as met there.
-/

namespace ClosingLabels

open ClosingLabels.Action (Maintains)

namespace Desk

variable {holds : List Event → Desk → Prop}

/-- Opening the tree of a document maintains what looking up its language maintains. -/
theorem openTree_maintains {buffer : Nat} {caller : Caller}
    (hstart : ∀ past desk, holds past desk →
      let found := desk.bench.screen.buffer buffer
      Maintains holds (Forest.start grovePart desk.plugin.catalog.grammar? found.uri buffer
        found.document.language caller)) :
    Maintains holds (openTree buffer caller) := by
  refine .gets_bind fun past desk hdesk => ?_
  exact Maintains.ite (.pure ()) (hstart past desk hdesk) past desk hdesk

theorem parseForCommand_maintains {buffer : Nat}
    (hopen : Maintains holds (openTree buffer .command))
    (hpush : ∀ work, Maintains holds (push work)) : Maintains holds (parseForCommand buffer) :=
  .rescue hopen fun _ => hpush _

/-- The labels of a document that is opened are switched on, and then its tree is opened. -/
theorem documentOpened_maintains {buffer : Nat}
    (hemit : ∀ event, event.ForUser → Maintains holds (Action.emit event))
    (hpush : ∀ work, Maintains holds (push work)) (hsettings : Maintains holds settings)
    (hopen : ∀ past desk, holds past desk →
      Maintains holds (Switchboard.enable boardSite (desk.bench.screen.buffer buffer).uri) ∧
        Maintains holds (openTree buffer .openHandler)) :
    Maintains holds (documentOpened buffer) := by
  refine .rescue (.bind hsettings fun settings => ?_) fun fault => hpush _
  refine .gets_bind fun past desk hdesk => ?_
  obtain ⟨henable, htree⟩ := hopen past desk hdesk
  refine Maintains.ite ?_ (.pure ()) past desk hdesk
  exact .bind (hemit (.log _) trivial) fun _ => .bind henable fun _ => htree

theorem editorsShown_maintains
    (hpaint : ∀ editor, Maintains holds (Action.zoom displayPart (Display.paint editor)))
    (editors : List Editor) : Maintains holds (editorsShown editors) := by
  refine .each fun editor _ => .bind (.gets _) fun desk => .bind (.ofExcept _) fun buffer => ?_
  exact .ite (hpaint editor) (.pure ())

/-! ## Commands -/

/-- Whether a command may switch labels on. -/
def Command.lights : Command → Bool
  | .toggle | .enable => true
  | .disable | .openSettings | .prepareSettings => false

/-- What becomes of labels that were switched in the document in front: it is parsed if they are
on, and the user is told. -/
def switched (buffer : Nat) (on : Bool) : Action Desk Unit := do
  if on then parseForCommand buffer
  Action.emit (.status (if on then "Scope Echo enabled" else "Scope Echo disabled") 2000)

theorem switchFront_keeps {past : List Event} {desk : Desk} {action : String → Action Desk Bool}
    (hemit : ∀ event, event.ForUser → Maintains holds (Action.emit event))
    (hfront : ∀ buffer, desk.bench.active = some (some buffer) →
      Maintains holds (action (desk.bench.screen.buffer buffer).uri >>= switched buffer))
    (hdesk : holds past desk) :
    holds (past ++ (switchFront action desk).trace) (switchFront action desk).state := by
  rw [switchFront, Action.bind_of_quiet (Action.get_apply _)]
  rcases hactive : desk.bench.active with _ | _ | buffer
  · exact hemit (.information "Scope Echo: no active editor") trivial past desk hdesk
  · exact Maintains.fail .missingDocument past desk hdesk
  · exact hfront buffer hactive past desk hdesk

/-- Commands switch labels in the document in front, or they are about the settings file. -/
theorem runCommand_keeps {past : List Event} {desk : Desk} {command : Command}
    (hemit : ∀ event, event.ForUser → Maintains holds (Action.emit event))
    (hprepare : ∀ root, Maintains holds (Action.zoom storePart (SettingsStore.prepare root)))
    (hdisable : ∀ document, Maintains holds (Switchboard.disable boardSite document))
    (hlight : command.lights = true → ∀ buffer, desk.bench.active = some (some buffer) →
      Maintains holds (Switchboard.enable boardSite (desk.bench.screen.buffer buffer).uri) ∧
        Maintains holds (parseForCommand buffer))
    (hdesk : holds past desk) :
    holds (past ++ (runCommand command desk).trace) (runCommand command desk).state := by
  have hswitched {buffer : Nat} (hparse : Maintains holds (parseForCommand buffer)) (on : Bool) :
      Maintains holds (switched buffer on) :=
    .ite (.bind hparse fun _ => hemit _ trivial) (hemit _ trivial)
  cases command with
  | toggle =>
    refine switchFront_keeps hemit (fun buffer hactive => ?_) hdesk
    obtain ⟨henable, hparse⟩ := hlight rfl buffer hactive
    refine .bind (.bind (.gets _) fun board => .ite ?_ ?_) fun on => hswitched hparse on
    · exact .bind (hdisable _) fun _ => .pure _
    · exact .bind henable fun _ => .pure _
  | enable =>
    refine switchFront_keeps hemit (fun buffer hactive => ?_) hdesk
    obtain ⟨henable, hparse⟩ := hlight rfl buffer hactive
    exact .bind (.bind henable fun _ => .pure _) fun on => hswitched hparse on
  | disable =>
    refine switchFront_keeps hemit (fun buffer hactive => ?_) hdesk
    rw [bind_assoc]
    refine .bind (hdisable _) fun _ => ?_
    rw [pure_bind]
    exact hemit _ trivial
  | openSettings =>
    refine Maintains.bind (.gets _) (fun desk => ?_) past desk hdesk
    dsimp only
    cases SettingsStore.path? desk.bench.workspace with
    | none => exact hemit _ trivial
    | some path =>
      refine .bind (hprepare _) fun ready => .ite ?_ (hemit _ trivial)
      refine .bind (hemit _ trivial) fun _ => .bind (.gets _) fun now => ?_
      cases now.bench.openFailure with
      | none => exact hemit _ trivial
      | some message => exact .bind (hemit _ trivial) fun _ => hemit _ trivial
  | prepareSettings =>
    refine Maintains.bind (.gets _) (fun desk => ?_) past desk hdesk
    exact .bind (hprepare _) fun ready => .ite (hemit _ trivial) (hemit _ trivial)

end Desk

end ClosingLabels
