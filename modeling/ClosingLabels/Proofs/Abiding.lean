import ClosingLabels.Proofs.Closing

/-!
# Invariants of a plugin at work

What the plugin does is put together from a few operations: around its trees it shows
labels, reads settings and keeps listeners; beside that it opens, updates and closes trees,
drops patterns and languages, and takes tasks and requests one at a time. An invariant that
all of these maintain is maintained by whatever happens until the plugin is taken down.
-/

namespace ClosingLabels

open ClosingLabels.Action (Maintains)

namespace Desk

variable {holds : List Event → Desk → Prop}

/-- Refreshing labels maintains what searching any tree maintains. -/
theorem Surrounded.refresh (h : Surrounded holds)
    (hfind : ∀ (entry : Entry Nat) kinds, Maintains holds (Action.zoom grovePart
      (PatternCache.find Grove.cacheSite entry.key entry.language entry.tree kinds)))
    (document : String) : Maintains holds (Switchboard.refresh boardSite document) := by
  intro past desk hdesk
  rw [Switchboard.refresh, Action.bind_of_quiet (view?_apply document desk)]
  cases desk.plugin.forest.entries.get? document with
  | none => exact Maintains.pure () past desk hdesk
  | some entry =>
    refine Maintains.bind (.bind h.settings fun _ => .pure _) (fun minLines => ?_) past desk hdesk
    exact .bind (.gets _) fun catalog => h.labels.redraw (hfind entry) catalog document minLines

/-- Switching everything off. -/
theorem Surrounded.disableAll (h : Surrounded holds) :
    Maintains holds (Switchboard.dispose boardSite) :=
  .bind (.gets _) fun _ => .each fun document _ => h.disable document

/-- An invariant that the operations of a running plugin maintain. -/
structure Abiding (holds : List Event → Desk → Prop) : Prop extends Surrounded holds where
  become : ∀ bench, Maintains holds (Desk.become bench)
  push : ∀ work, Maintains holds (Desk.push work)
  forget : Maintains holds (Action.zoom workshopPart Workshop.forgetLanguages)
  start : ∀ resolve document buffer language caller,
    Maintains holds (Forest.start grovePart resolve document buffer language caller)
  update : ∀ document buffer changes,
    Maintains holds (Forest.update ground document buffer changes)
  close : ∀ document, Maintains holds (Forest.close grovePart document)
  resetPatterns : Maintains holds (Forest.resetPatterns grovePart)
  redraw : ∀ document, Maintains holds (Switchboard.refresh boardSite document)
  task : Maintains holds takeTask
  finish : ∀ place, Maintains holds (finishRequest place)

namespace Abiding

theorem openTree (h : Abiding holds) (buffer : Nat) (caller : Caller) :
    Maintains holds (Desk.openTree buffer caller) :=
  openTree_maintains fun _ _ _ => h.start _ _ _ _ _

theorem parseForCommand (h : Abiding holds) (buffer : Nat) :
    Maintains holds (Desk.parseForCommand buffer) :=
  parseForCommand_maintains (h.openTree buffer .command) h.push

theorem documentClosed (h : Abiding holds) (buffer : Option Nat) :
    Maintains holds (Desk.documentClosed buffer) := by
  refine .bind (.gets _) fun desk => .bind (.ofExcept _) fun found => ?_
  exact .bind (h.disable _) fun _ => h.close _

theorem documentChanged (h : Abiding holds) (buffer : Option Nat) (changes : List Change) :
    Maintains holds (Desk.documentChanged buffer changes) := by
  refine .rescue (.bind (.gets _) fun desk => ?_) fun fault => h.message trivial
  exact .bind (.ofOption _ _) fun buffer => .ite (h.update _ _ _) (.pure ())

theorem settingsChanged (h : Abiding holds) : Maintains holds Desk.settingsChanged := by
  have hreload (settings : Settings) : Maintains holds
      (Catalog.reloadIn catalogPart settings.targets settings.grammars) :=
    .bind (h.catalog _) fun _ => .bind (.gets _) fun _ => h.message trivial
  refine .bind (h.message trivial) fun _ => .bind (.gets _) fun desk => ?_
  refine .bind (h.store (SettingsStore.refresh_leaves _)) fun settings => ?_
  refine .bind (hreload settings) fun _ => .bind (h.labels.adjust _) fun _ => ?_
  refine .bind h.forget fun _ => .bind h.resetPatterns fun _ => ?_
  refine .bind (.bind (.gets _) fun _ => .each fun document _ => h.redraw document) fun _ => ?_
  exact .bind (.gets _) fun now => .each fun row _ => h.parseForCommand row.2

/-- Whatever happens, the invariant survives, until the plugin is taken down. -/
theorem actNow (h : Abiding holds) {occurrence : Occurrence} (hactive : occurrence ≠ .deactivated) :
    Maintains holds occurrence.actNow := by
  cases occurrence with
  | become bench => exact h.become bench
  | opened buffer =>
    exact documentOpened_maintains (fun _ hmessage => h.message hmessage) h.push h.settings
      fun _ _ _ => ⟨h.enable (h.redraw _), h.openTree _ _⟩
  | closed buffer => exact h.documentClosed buffer
  | changed buffer changes => exact h.documentChanged buffer changes
  | shown editors => exact editorsShown_maintains h.paint editors
  | called command =>
    exact fun past desk => runCommand_keeps (fun _ hmessage => h.message hmessage)
      (fun root => h.store ((SettingsStore.prepare_leaves root).of_view fun _ => ())) h.disable
      fun _ _ _ => ⟨h.enable (h.redraw _), h.parseForCommand _⟩
  | settingsChanged => exact h.settingsChanged
  | deactivated => exact absurd rfl hactive
  | task => exact h.task
  | complete place => exact h.finish place

/-- So the invariant holds after any run in which the plugin is not taken down. -/
theorem run (h : Abiding holds) {past : List Event} {desk : Desk} {occurrences : List Occurrence}
    (hactive : .deactivated ∉ occurrences) (hdesk : holds past desk) :
    holds (past ++ Action.history Occurrence.actNow desk occurrences)
      (Action.finish Occurrence.actNow desk occurrences) :=
  Maintains.steps (fun _ hmem => h.actNow fun heq => hactive (heq ▸ hmem)) hdesk

end Abiding

end Desk

end ClosingLabels
