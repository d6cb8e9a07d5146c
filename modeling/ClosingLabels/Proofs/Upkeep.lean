import ClosingLabels.Proofs.Decorating
import ClosingLabels.Proofs.Handling

/-!
# What the plugin keeps in order

Whatever the plugin does, wires, listeners, labels and decorations agree. A document that
is closed has its labels off, no tree and no opening that counts, and it stays so as long
as nobody opens it or asks for its labels: an opening that was on its way is not awaited
any more, and whatever else happens acts on documents with labels, with a tree or with an
awaited opening only.
-/

namespace ClosingLabels

open ClosingLabels.Action (Maintains Leads)

namespace Desk

open Switchboard

/-- The buffers of an editor, and the documents that are open. -/
abbrev Stage := List Buffer × Table String Nat

/-- What the plugin finds in its editor. -/
def stage (desk : Desk) : Stage := (desk.bench.screen.buffers, desk.bench.documents)

/-- The name of the document in a buffer. -/
def Stage.uri (stage : Stage) (buffer : Nat) : String := ((stage.1[buffer]?).getD ⟨"", ⟨[], ""⟩⟩).uri

/-- The labels of a document are off, it has no tree, and no opening of it is awaited. -/
def Absent (desk : Desk) (document : String) : Prop :=
  desk.plugin.board.isOn document = false ∧
    desk.plugin.forest.entries.get? document = none ∧
    desk.plugin.forest.pending.get? document = none

/-- Wires, listeners, labels and decorations agree, and the closed documents are absent. -/
def Ordered (closed : String → Prop) (stage : Stage) (past : List Event) (desk : Desk) : Prop :=
  boardSite.Seen hearing Stand.Sound past desk ∧
    boardSite.Good marks Numbered (fun _ => True) past desk ∧
    (∀ document, closed document → desk.Absent document) ∧ desk.stage = stage

variable {closed : String → Prop} {stage : Stage} {document : String}

/-- A document with a tree is not closed. -/
theorem Ordered.not_closed_of_entry {past : List Event} {desk : Desk} {entry : Entry Nat}
    (h : Ordered closed stage past desk)
    (hentry : desk.plugin.forest.entries.get? document = some entry) : ¬closed document := by
  intro hclosed
  cases (h.2.2.1 document hclosed).2.1.symm.trans hentry

/-- Neither is one of which an opening is awaited. -/
theorem Ordered.not_closed_of_pending {past : List Event} {desk : Desk} {ticket : Nat}
    (h : Ordered closed stage past desk)
    (hpending : desk.plugin.forest.pending.get? document = some ticket) : ¬closed document := by
  intro hclosed
  cases (h.2.2.1 document hclosed).2.2.symm.trans hpending

/-! ## Labels -/

/-- Everything is in order after what keeps it wired and drawn, leaves trees and documents alone
and switches no closed document on. -/
theorem Ordered.step {past trace : List Event} {desk after : Desk}
    (h : Ordered closed stage past desk)
    (hsound : boardSite.Seen hearing Stand.Sound (past ++ trace) after)
    (hgood : boardSite.Good marks Numbered (fun _ => True) (past ++ trace) after)
    (hscene : after.scene = desk.scene)
    (hboard : ∀ other, closed other → desk.plugin.board.isOn other = false →
      after.plugin.board.isOn other = false) : Ordered closed stage (past ++ trace) after := by
  obtain ⟨_, _, habsent, hstage⟩ := h
  refine ⟨hsound, hgood, fun other hother => ?_, ?_⟩
  · obtain ⟨hoff, htree, hpending⟩ := habsent other hother
    refine ⟨hboard other hother hoff, ?_, ?_⟩
    · exact (congrArg (fun scene => scene.holdings.entries.get? other) hscene).trans htree
    · exact (congrArg (fun scene => scene.holdings.pending.get? other) hscene).trans hpending
  · rw [← hstage]
    exact congrArg (fun scene => (scene.buffers, scene.documents)) hscene

/-- Refreshing a document whose labels are on keeps order. -/
theorem refresh_ordered {board : Switchboard} (hon : board.isOn document = true) :
    Maintains (fun past desk => Ordered closed stage past desk ∧ desk.plugin.board = board)
      (Switchboard.refresh boardSite document) := by
  rintro past desk ⟨hdesk, hboard⟩
  have hsound := tidy.refresh hon past desk ⟨hdesk.1, hboard⟩
  refine ⟨hdesk.step hsound.1 ?_ ((refresh_leaves document).state desk) ?_, hsound.2⟩
  · exact drawable.refresh (fun _ _ _ _ _ => trivial) past desk hdesk.2.1
  · intro other _ hoff
    have hsame : (Switchboard.refresh boardSite document desk).state.plugin.board = board :=
      hsound.2
    rwa [hsame, ← hboard]

/-- Whoever hears of a document is that document, with its labels on. -/
theorem announce_ordered (trigger : Trigger) (document : String) :
    Maintains (Ordered closed stage) (Forest.announce ground trigger document) := by
  refine .gets_bind fun past desk hdesk => ?_
  have hheard (registration : Registration String)
      (hmem : registration ∈ desk.plugin.forest.listeners trigger document) :
      desk.plugin.board.isOn registration.listener = true := by
    obtain ⟨hlistener, hon⟩ := Stand.Sound.isOn_of_hearing hdesk.1 hmem
    rwa [hlistener]
  have heach : Maintains
      (fun past after => Ordered closed stage past after ∧ after.plugin.board = desk.plugin.board)
      (Action.each (desk.plugin.forest.listeners trigger document) fun registration =>
        Action.rescue (ground.notify registration.listener) fun fault =>
          Action.report (.listener document) fault) :=
    .each fun registration hmem =>
      .rescue (refresh_ordered (hheard registration hmem)) fun _ _ _ h => h
  exact (heach past desk ⟨hdesk, rfl⟩).1

/-- The labels of a document that is not closed may be switched on. -/
theorem enable_ordered (hopen : ¬closed document) :
    Maintains (Ordered closed stage) (Switchboard.enable boardSite document) := by
  intro past desk hdesk
  refine hdesk.step (tidy.enable document past desk hdesk.1)
    (drawable.enable (fun _ _ _ _ _ => trivial) past desk hdesk.2.1)
    ((enable_leaves document).state desk) fun other hother hoff => ?_
  have hne : other ≠ document := fun heq => hopen (heq ▸ hother)
  refine ((tidy.enable_spec document desk).2 other).trans ?_
  rw [decide_eq_false hne, Bool.false_or]
  exact hoff

theorem disable_ordered (document : String) :
    Maintains (Ordered closed stage) (Switchboard.disable boardSite document) := by
  intro past desk hdesk
  refine hdesk.step (tidy.disable document past desk hdesk.1)
    (drawable.disable (fun _ _ => trivial) past desk hdesk.2.1)
    ((disable_leaves document).state desk) fun other _ hoff => ?_
  refine (tidy.disable_board document other desk).trans ?_
  have hboard : (boardSite.part.get desk).isOn other = false := hoff
  rw [hboard, Bool.and_false]

theorem redrawAll_ordered :
    Maintains (Ordered closed stage) (Switchboard.redrawAll boardSite) := by
  refine .gets_bind fun past desk hdesk => ?_
  have heach : Maintains
      (fun past after => Ordered closed stage past after ∧ after.plugin.board = desk.plugin.board)
      (Action.each desk.plugin.board.documents (Switchboard.refresh boardSite)) :=
    .each fun document hmem => refresh_ordered ((Table.mem_keys_iff _ _).mp hmem)
  exact (heach past desk ⟨hdesk, rfl⟩).1

/-- Painting an editor keeps order. -/
theorem paint_ordered (editor : Editor) :
    Maintains (Ordered closed stage) (Action.zoom displayPart (Display.paint editor)) := by
  rintro past desk ⟨hsound, hgood, habsent, hstage⟩
  refine ⟨hsound, Site.good_of_rests (rests_of_contents (Display.paint_contents editor)) past desk hgood,
    habsent, ?_⟩
  have hbuffers := (Display.paint_leaves editor).state (displayPart.get desk)
  rw [← hstage]
  exact congrArg (·, desk.bench.documents) hbuffers

/-! ## Trees -/

/-- Settings, tasks and requests do not matter. -/
theorem workshop_ordered {α : Type} (x : Action (Workshop (Waiter Nat) (Work Nat)) α) :
    Maintains (Ordered closed stage) (Action.zoom workshopPart x) := fun _ _ h => h

theorem store_ordered {α : Type} (x : Action SettingsStore α) :
    Maintains (Ordered closed stage) (Action.zoom storePart x) := fun _ _ h => h

theorem emit_ordered (event : Event) :
    Maintains (Ordered closed stage) (Action.emit event) := fun _ _ h => h

theorem push_ordered (work : Work Nat) : Maintains (Ordered closed stage) (push work) :=
  workshop_ordered _

theorem settings_ordered : Maintains (Ordered closed stage) settings :=
  .bind (.gets _) fun _ => store_ordered _

/-- A document that is not closed may be opened. -/
theorem start_ordered (hopen : ¬closed document) (resolve : Text → Option GrammarName)
    (buffer : Nat) (language : Text) (caller : Caller) :
    Maintains (Ordered closed stage)
      (Forest.start grovePart resolve document buffer language caller) := by
  refine .bind (.gets _) fun grove => .bind (.adjust ?_) fun _ => workshop_ordered _
  rintro past desk ⟨hsound, hgood, habsent, hstage⟩
  refine ⟨hsound, hgood, fun other hother => ?_, hstage⟩
  obtain ⟨hoff, htree, hpending⟩ := habsent other hother
  have hne : other ≠ document := fun heq => hopen (heq ▸ hother)
  exact ⟨hoff, htree, (Table.get?_insert_of_ne _ _ hne).trans hpending⟩

/-- A buffer has the name that the stage gives it. -/
theorem Ordered.uri {past : List Event} {desk : Desk} (h : Ordered closed stage past desk)
    (buffer : Nat) : (desk.bench.screen.buffer buffer).uri = stage.uri buffer := by
  rw [← h.2.2.2]
  rfl

theorem openTree_ordered {buffer : Nat} (hopen : ¬closed (stage.uri buffer)) (caller : Caller) :
    Maintains (Ordered closed stage) (openTree buffer caller) :=
  openTree_maintains fun _ _ hdesk => start_ordered (hdesk.uri buffer ▸ hopen) _ _ _ _

theorem parseForCommand_ordered {buffer : Nat} (hopen : ¬closed (stage.uri buffer)) :
    Maintains (Ordered closed stage) (parseForCommand buffer) :=
  parseForCommand_maintains (openTree_ordered hopen _) push_ordered

theorem close_ordered (document : String) :
    Maintains (Ordered closed stage) (Forest.close grovePart document) := by
  rintro past desk ⟨hsound, hgood, habsent, hstage⟩
  rw [Forest.close_eq]
  refine ⟨hsound, hgood, fun other hother => ?_, hstage⟩
  obtain ⟨hoff, htree, hpending⟩ := habsent other hother
  exact ⟨hoff, Table.get?_erase_of_none htree _, Table.get?_erase_of_none hpending _⟩

/-- An entry may be put down for a document that is not closed. -/
theorem Ordered.plant {past : List Event} {desk : Desk} (h : Ordered closed stage past desk)
    (hopen : ¬closed document) (workshop : Workshop (Waiter Nat) (Work Nat)) (entry : Entry Nat)
    (pending : Table String Nat)
    (hpending : ∀ other, desk.plugin.forest.pending.get? other = none →
      pending.get? other = none) :
    Ordered closed stage past (grovePart.set
      ⟨workshop, { desk.plugin.forest with
        entries := desk.plugin.forest.entries.insert document entry, pending }⟩ desk) := by
  obtain ⟨hsound, hgood, habsent, hstage⟩ := h
  refine ⟨hsound, hgood, fun other hother => ?_, hstage⟩
  obtain ⟨hoff, htree, hnone⟩ := habsent other hother
  have hne : other ≠ document := fun heq => hopen (heq ▸ hother)
  exact ⟨hoff, (Table.get?_insert_of_ne _ _ hne).trans htree, hpending other hnone⟩

/-- An opening that goes on is awaited, so its document is not closed. -/
theorem resume_ordered (opening : Opening Nat) (answer : Answer) :
    Maintains (Ordered closed stage) (Forest.resume ground opening answer) := by
  intro past desk hdesk
  have hsettled : Ordered closed stage past
      (grovePart.set ((grovePart.get desk).settle opening.document) desk) := by
    obtain ⟨hsound, hgood, habsent, hstage⟩ := hdesk
    refine ⟨hsound, hgood, fun other hother => ?_, hstage⟩
    obtain ⟨hoff, htree, hnone⟩ := habsent other hother
    exact ⟨hoff, htree, Table.get?_erase_of_none hnone _⟩
  have hresumed := Forest.resume_resumed ground opening answer desk
  generalize Forest.resume ground opening answer desk = outcome at hresumed
  cases hresumed with
  | rejected fault => exact hdesk
  | stale found hstale => exact hdesk
  | unavailable hlatest => exact hsettled
  | unparsed hlatest hsettle hparse hparser =>
    subst hsettle
    exact hsettled
  | stored hlatest hsettle htree hparse hparser hplanted =>
    have hopen : ¬closed opening.document := hdesk.not_closed_of_pending hlatest
    subst hplanted
    exact announce_ordered .parsed opening.document past _
      (hdesk.plant hopen _ _ _ fun _ hnone => Table.get?_erase_of_none hnone _)

/-- Only a document with a tree is brought up to date. -/
theorem update_ordered (document : String) (buffer : Nat) (changes : List Change) :
    Maintains (Ordered closed stage) (Forest.update ground document buffer changes) := by
  intro past desk hdesk
  have hupdated := Forest.update_updated ground document buffer changes desk
  generalize Forest.update ground document buffer changes desk = outcome at hupdated
  cases hupdated with
  | absent hentry => exact hdesk
  | idle hchanges => exact hdesk
  | unparsed hchanges hentry htold hparse hparser =>
    subst htold
    exact hdesk.plant (hdesk.not_closed_of_entry hentry) _ _ _ fun _ => id
  | @replaced entry told planted tree trace hchanges hentry htold htree hparse hparser hplanted =>
    have hopen : ¬closed document := hdesk.not_closed_of_entry hentry
    subst hplanted
    refine announce_ordered .changed document past _ ?_
    have htold := hdesk.plant hopen (grovePart.get desk).workshop
      { entry with told := entry.told ++ changes } _ fun _ => id
    exact htold.plant hopen _ _ _ fun _ => id

/-! ## What happens in the editor -/

/-- The editor opens a document that is not closed. -/
theorem documentOpened_ordered {buffer : Nat} (hopen : ¬closed (stage.uri buffer)) :
    Maintains (Ordered closed stage) (documentOpened buffer) :=
  documentOpened_maintains (fun event _ => emit_ordered event) push_ordered settings_ordered
    fun _ _ hdesk => ⟨enable_ordered (hdesk.uri buffer ▸ hopen), openTree_ordered hopen _⟩

theorem documentClosed_ordered (buffer : Option Nat) :
    Maintains (Ordered closed stage) (documentClosed buffer) := by
  refine .bind (.gets _) fun desk => .bind (.ofExcept _) fun found => ?_
  exact .bind (disable_ordered _) fun _ => close_ordered _

theorem documentChanged_ordered (buffer : Option Nat) (changes : List Change) :
    Maintains (Ordered closed stage) (documentChanged buffer changes) := by
  refine .rescue (.bind (.gets _) fun desk => ?_) fun fault => emit_ordered _
  exact .bind (.ofOption _ _) fun buffer => .ite (update_ordered _ _ _) (.pure ())

theorem editorsShown_ordered (editors : List Editor) :
    Maintains (Ordered closed stage) (editorsShown editors) :=
  editorsShown_maintains paint_ordered editors

/-- A command that may switch labels on is called for a document that is not closed. -/
theorem runCommand_ordered {past : List Event} {desk : Desk} {command : Command}
    (hopen : command.lights = true → ∀ buffer, desk.bench.active = some (some buffer) →
      ¬closed (stage.uri buffer))
    (hdesk : Ordered closed stage past desk) :
    Ordered closed stage (past ++ (runCommand command desk).trace)
      (runCommand command desk).state := by
  refine runCommand_keeps (fun event _ => emit_ordered event) (fun _ => store_ordered _)
    disable_ordered (fun hlights buffer hactive => ?_) hdesk
  have hbuffer := hopen hlights buffer hactive
  exact ⟨enable_ordered (hdesk.uri buffer ▸ hbuffer), parseForCommand_ordered hbuffer⟩

/-- The catalog does not matter. -/
theorem reload_ordered (overrides : Table Text (List Text)) (grammars : Table Text String) :
    Maintains (Ordered closed stage) (Catalog.reloadIn catalogPart overrides grammars) :=
  .bind (.adjust fun _ _ h => h) fun _ => .bind (.gets _) fun _ => emit_ordered _

/-- Neither do the options. -/
theorem setOptions_ordered (options : OverlayOptions) :
    Maintains (Ordered closed stage) (Overlay.setOptions overlaySite options) := by
  refine .adjust ?_
  rintro past desk ⟨hsound, ⟨hnumbered, howned, _⟩, habsent, hsame⟩
  exact ⟨⟨hsound.on, hsound.off, hsound.lit⟩,
    ⟨hnumbered, ⟨howned.handles, howned.apart⟩, trivial⟩, habsent, hsame⟩

/-- When the settings change, documents with labels are redrawn, and those of them that the editor
has open are opened. -/
theorem settingsChanged_ordered
    (hstage : ∀ row ∈ stage.2.rows, closed (stage.uri row.2) → closed row.1) :
    Maintains (Ordered closed stage) settingsChanged := by
  have hreset : Maintains (Ordered closed stage) (Forest.resetPatterns grovePart) := by
    intro past desk hdesk
    rw [Forest.resetPatterns_apply]
    exact hdesk
  refine .bind (emit_ordered _) fun _ => .bind (.gets _) fun desk => ?_
  refine .bind (store_ordered _) fun settings => .bind (reload_ordered _ _) fun _ => ?_
  refine .bind (setOptions_ordered _) fun _ => .bind (workshop_ordered _) fun _ => ?_
  refine .bind hreset fun _ => .bind redrawAll_ordered fun _ => .gets_bind fun past now hnow => ?_
  have hrows : now.bench.documents.rows = stage.2.rows := by
    rw [← hnow.2.2.2]
    rfl
  refine Maintains.each (fun row hrow => parseForCommand_ordered ?_) past now hnow
  rw [hrows, List.mem_filter] at hrow
  intro hclosed
  obtain ⟨hoff, _⟩ := hnow.2.2.1 row.1 (hstage row hrow.1 hclosed)
  rw [hoff] at hrow
  cases hrow.2

/-! ## Taking everything down -/

/-- Everything is in order, and all labels are off. -/
def Dark (closed : String → Prop) (stage : Stage) (past : List Event) (desk : Desk) : Prop :=
  Ordered closed stage past desk ∧ ∀ document, desk.plugin.board.isOn document = false

/-- Where all labels are off, none is on record. -/
theorem Dark.tracks {past : List Event} {desk : Desk} (h : Dark closed stage past desk)
    (document : String) : desk.plugin.overlay.tracks document = false :=
  (Stand.Sound.labels_of_off h.1.1 (h.2 document)).1

/-- So there is nothing to be cleared. -/
theorem disposeOverlay_dark {past : List Event} {desk : Desk} (h : Dark closed stage past desk) :
    Overlay.dispose overlaySite desk = ⟨.ok (), desk, []⟩ := by
  have hkeys : desk.plugin.overlay.tracked.keys = [] := by
    refine List.eq_nil_iff_forall_not_mem.mpr fun document hmem => ?_
    have htracks : desk.plugin.overlay.tracks document = true := (Table.mem_keys_iff _ _).mp hmem
    rw [h.tracks] at htracks
    cases htracks
  rw [Overlay.dispose, Action.bind_of_quiet (Action.look_apply _ _)]
  change Action.each desk.plugin.overlay.tracked.keys (Overlay.clear overlaySite) desk = _
  rw [hkeys]
  rfl

/-- Listeners may be forgotten where all labels are off. -/
theorem disposeForest_dark :
    Maintains (Dark closed stage) (Forest.dispose grovePart) := by
  refine .bind (.gets _) fun grove => .bind (.each fun document _ => ?_) fun _ => ?_
  · rintro past desk ⟨hdesk, hoff⟩
    refine ⟨close_ordered document past desk hdesk, fun other => ?_⟩
    rw [Forest.close_eq]
    exact hoff other
  · refine .bind (.adjust ?_) fun _ => ?_
    · rintro past desk ⟨⟨hsound, hgood, habsent, hstage⟩, hoff⟩
      refine ⟨⟨⟨fun document wires hwires => ?_, fun document _ trigger => ?_, hsound.lit⟩, hgood,
        fun other hother => ⟨hoff other, (habsent other hother).2.1, rfl⟩, hstage⟩, hoff⟩
      · have hon : desk.plugin.board.isOn document = true :=
          Option.isSome_iff_exists.mpr ⟨wires, hwires⟩
        rw [hoff] at hon
        cases hon
      · cases trigger <;> rfl
    · intro past desk hdesk
      rw [Forest.resetPatterns_apply]
      exact hdesk

/-- So may the decorations. -/
theorem disposeDisplay_dark :
    Leads (Dark closed stage) (Ordered closed stage) (Action.zoom displayPart Display.dispose) := by
  intro past desk hdark
  have hstate : (Display.dispose (displayPart.get desk)).state =
      { displayPart.get desk with
        decorations := { desk.plugin.decorations with type := none, documents := .empty } } := by
    rw [Display.dispose, Action.bind_of_quiet (Action.get_apply _)]
    cases (displayPart.get desk).decorations.type <;> rfl
  obtain ⟨hsound, _, habsent, hstage⟩ := hdark.1
  rw [Action.zoom_apply, hstate]
  refine ⟨hsound, ⟨?_, ⟨fun document => ?_, ?_⟩, trivial⟩, habsent, hstage⟩
  · intro document label hlabel
    cases hlabel
  · have hlabels : desk.plugin.overlay.labels document = [] :=
      (Stand.Sound.labels_of_off hsound (hdark.2 document)).2
    exact (congrArg (List.map Placed.handle) hlabels).symm
  · intro document other _ mark hmark
    cases hmark

/-- Switching everything off keeps order. -/
theorem disableAll_ordered : Maintains (Ordered closed stage) (Switchboard.dispose boardSite) :=
  .bind (.gets _) fun _ => .each fun document _ => disable_ordered document

/-- Taking the plugin down keeps order, also when it stops half way. -/
theorem dispose_ordered : Maintains (Ordered closed stage) Desk.dispose := by
  have hrest : Leads (Dark closed stage) (Ordered closed stage) (do
      Overlay.dispose overlaySite
      Forest.dispose grovePart
      Action.zoom displayPart Display.dispose) := by
    intro past desk hdark
    rw [Action.bind_of_quiet (disposeOverlay_dark hdark)]
    exact disposeForest_dark.leads.bind (fun _ => disposeDisplay_dark) (fun _ _ h => h.1) past desk
      hdark
  intro past desk hdesk
  have hordered := disableAll_ordered past desk hdesk
  have hoff := tidy.dispose_board (s := desk)
  rw [Desk.dispose]
  rcases hrun : Switchboard.dispose boardSite desk with ⟨fault | done, after, trace⟩
  · rw [Action.bind_of_error hrun]
    rwa [hrun] at hordered
  · rw [Action.bind_of_ok hrun]
    rw [hrun] at hordered hoff
    dsimp only
    rw [← List.append_assoc]
    exact hrest (past ++ trace) after ⟨hordered, hoff rfl⟩

/-! ## Tasks and requests -/

/-- Taking a task goes on with loading, with an opening, or with what is left to do then. -/
theorem perform_ordered (task : Task (Waiter Nat) (Work Nat)) :
    Maintains (Ordered closed stage) (perform task) :=
  perform_maintains (fun event _ => emit_ordered event) push_ordered
    (fun _ => workshop_ordered _) resume_ordered task

end Desk

end ClosingLabels
