import ClosingLabels.Plugin
import ClosingLabels.Proofs.Drawing
import ClosingLabels.Proofs.Forest

/-!
# What refreshing labels leaves alone

The plugin listens to its own forest and redraws a document each time its tree is new.
Redrawing reads the settings, searches the tree, and draws on the screen, all of which
may fail. All of it but the search leaves the core of a desk alone, so an invariant of
the core survives it as soon as it survives the search. In particular none of it changes
a document, an entry or an opening, makes a tree or tells one of anything.
-/

namespace ClosingLabels

open ClosingLabels.Action (Leaves Maintains Keeping)

/-! ## Overlays -/

/-- An overlay whose place in the state does not matter to an invariant, and whose canvas
maintains it. -/
structure Overlay.Site.Discreet {σ H : Type} (site : Overlay.Site σ H)
    (holds : List Event → σ → Prop) : Prop where
  part : ∀ overlay past s, holds past s → holds past (site.part.set overlay s)
  draw : ∀ document anchor text style,
    Maintains holds (site.canvas.draw document anchor text style)
  erase : ∀ document handle, Maintains holds (site.canvas.erase document handle)
  flush : ∀ document, Maintains holds (site.canvas.flush document)
  report : ∀ failure cause, Maintains holds (Action.report failure cause)

namespace Overlay.Site.Discreet

variable {σ H : Type} {site : Overlay.Site σ H} {holds : List Event → σ → Prop}

theorem adjust (h : site.Discreet holds) (f : Overlay H → Overlay H) :
    Maintains holds (Action.adjust site.part f) := .adjust fun past s => h.part _ past s

/-- Such an overlay may do anything with a document. -/
theorem tends (h : site.Discreet holds) (document : String) : site.Tends document holds where
  forget past s := h.part _ past s
  register past s := h.part _ past s
  push _ past s := h.part _ past s
  draw := h.draw document
  erase := h.erase document
  flush := h.flush document
  report := h.report

theorem clear (h : site.Discreet holds) (document : String) :
    Maintains holds (Overlay.clear site document) := (h.tends document).clear

theorem dispose (h : site.Discreet holds) : Maintains holds (Overlay.dispose site) :=
  .bind (.gets _) fun _ => .each fun document _ => h.clear document

/-- Redrawing maintains what the canvas and the search maintain. -/
theorem redraw (h : site.Discreet holds) {shown : View σ}
    (hfind : ∀ kinds, Maintains holds (shown.find kinds)) (catalog : Catalog)
    (document : String) (minLines : Rat) :
    Maintains holds (Overlay.redraw site catalog document shown minLines) :=
  (h.tends document).redraw hfind catalog minLines

end Overlay.Site.Discreet

/-! ## Screen and settings -/

namespace Display

/-- The buffers behind a display. -/
def buffers (display : Display) : List Buffer := display.screen.buffers

/-- What painting does not touch: the buffers, the visible editors, the labels and the next
handle. -/
structure Contents where
  buffers : List Buffer
  visible : List Editor
  labels : Table String (List Pending)
  next : Nat

/-- The contents of a display. -/
def contents (display : Display) : Contents :=
  ⟨display.screen.buffers, display.screen.visible, display.decorations.documents,
    display.decorations.next⟩

theorem zoomScreen_leaves {α : Type} {x : Action Screen α}
    (hx : Leaves (fun screen : Screen => (screen.buffers, screen.visible)) Event.Idle x) :
    Leaves contents Event.Idle (Action.zoom screenPart x) := by
  refine fun _ => Keeping.zoom (fun t u display hsame => ?_) hx
  obtain ⟨hbuffers, hvisible⟩ := Prod.mk.inj hsame
  simp only [contents, screenPart, hbuffers, hvisible]

theorem draw_leaves (document : String) (anchor : Rat) (text : Text) (style : Style) :
    Leaves buffers Event.Idle (draw document anchor text style) := by
  intro seen
  exact .bind (.gets _) fun display => .bind (Keeping.adjust (fun _ _ => rfl) _) fun _ => .pure _

theorem erase_leaves (document : String) (handle : Nat) :
    Leaves buffers Event.Idle (erase document handle) :=
  fun _ => Keeping.adjust (fun _ _ => rfl) _

/-- The shared type is made at most once, and beside it nothing. -/
theorem sharedType_leaves : Leaves contents Event.Idle sharedType := by
  have hnewType : Leaves (fun screen : Screen => (screen.buffers, screen.visible)) Event.Idle
      Screen.newType := by
    intro seen
    refine .bind (Keeping.modify fun _ => rfl) fun _ => .bind (.gets _) fun screen => ?_
    exact .bind (Keeping.emit rfl) fun _ => .pure _
  intro seen
  refine .bind (.gets _) fun display => ?_
  cases display.decorations.type with
  | some number => exact .pure _
  | none =>
    refine .bind (zoomScreen_leaves hnewType seen) fun number => ?_
    refine .bind (Keeping.modify fun _ => rfl) fun _ => ?_
    exact .bind (Keeping.emit rfl) fun _ => .pure _

theorem paint_contents (editor : Editor) : Leaves contents Event.Idle (paint editor) := by
  have hdecorate (type : Nat) (decorations : List Decoration) :
      Leaves (fun screen : Screen => (screen.buffers, screen.visible)) Event.Idle
        (Screen.decorate editor type decorations) := by
    intro seen
    unfold Screen.decorate
    cases editor.failure with
    | some message => exact .bind (Keeping.emit rfl) fun _ => .fail _
    | none => exact Keeping.emit rfl
  intro seen
  refine .bind (sharedType_leaves seen) fun type => .bind (.gets _) fun display => ?_
  exact .bind (.ofExcept _) fun buffer => zoomScreen_leaves (hdecorate type _) seen

theorem flush_contents (document : String) : Leaves contents Event.Idle (flush document) := by
  intro seen
  refine .bind (.gets _) fun display => .each fun editor _ => ?_
  refine .bind (.ofExcept _) fun buffer => ?_
  exact .ite (paint_contents editor seen) (.pure ())

theorem paint_leaves (editor : Editor) : Leaves buffers Event.Idle (paint editor) :=
  (paint_contents editor).of_view Contents.buffers

theorem flush_leaves (document : String) : Leaves buffers Event.Idle (flush document) :=
  (flush_contents document).of_view Contents.buffers

theorem dispose_leaves : Leaves buffers Event.Idle dispose := by
  intro seen
  refine .bind (.gets _) fun display => ?_
  cases display.decorations.type with
  | some number => exact .bind (Keeping.emit rfl) fun _ => Keeping.adjust (fun _ _ => rfl) _
  | none => exact Keeping.adjust (fun _ _ => rfl) _

end Display

/-- Reading the settings leaves nothing but messages. -/
theorem SettingsStore.load_leaves (root : Option String) :
    Leaves (fun _ => ()) Event.Spoken (load root) := by
  have hreadFile (path : String) : Leaves (fun _ => ()) Event.Spoken (readFile path) := by
    intro seen
    refine .bind (.gets _) fun store => .bind (.ofExcept _) fun text => ?_
    refine .bind (.ofExcept _) fun decoded => ?_
    refine .bind (.each fun warning _ => Keeping.emit trivial) fun _ => ?_
    exact .bind (Keeping.emit trivial) fun _ => .pure _
  have hreadNow : Leaves (fun _ => ()) Event.Spoken (readNow root) := by
    intro seen
    refine .bind (.gets _) fun store => ?_
    split
    · exact .bind (Keeping.emit trivial) fun _ => .pure _
    · refine .rescue (hreadFile _ seen) fun fault => ?_
      exact .bind (Keeping.emit trivial) fun _ => .pure _
  intro seen
  refine .bind (.gets _) fun store => ?_
  split
  · exact .pure _
  · refine .bind (hreadNow seen) fun settings => ?_
    exact .bind (Keeping.modify fun _ => rfl) fun _ => .pure _

/-- Reading them anew touches nothing either. -/
theorem SettingsStore.refresh_leaves (root : Option String) :
    Leaves (fun _ => ()) Event.Spoken (refresh root) := by
  intro seen
  refine .bind (Keeping.emit trivial) fun _ => .bind (Keeping.modify fun _ => rfl) fun _ => ?_
  exact load_leaves root seen

/-- What was read last stays when the disk changes. -/
theorem SettingsStore.change_leaves {harmless : Event → Prop} (f : Disk → Except DiskFault Disk) :
    Leaves SettingsStore.remembered harmless (change f) := by
  intro seen
  refine .bind (.gets _) fun store => .bind (.ofExcept _) fun disk => ?_
  exact Keeping.modify fun _ => rfl

theorem SettingsStore.makeDirectory_leaves {harmless : Event → Prop} (location : Location) :
    Leaves SettingsStore.remembered harmless (makeDirectory location) := by
  intro seen
  refine .bind (.gets _) fun store => .bind (Keeping.modify fun _ => rfl) fun _ => ?_
  split
  · exact .pure ()
  · exact .fail _

/-- Neither does writing settings, and what was read last stays. -/
theorem SettingsStore.save_leaves (root : Option String) (settings : Settings) :
    Leaves SettingsStore.remembered Event.Spoken (save root settings) := by
  have hensure (location : Location) : Leaves SettingsStore.remembered Event.Spoken
      (ensureDirectory location) := by
    intro seen
    exact .bind (.gets _) fun store => .ite (makeDirectory_leaves _ seen) (.pure ())
  intro seen
  unfold save
  cases path? root with
  | none => exact .bind (Keeping.emit trivial) fun _ => .pure _
  | some path =>
    refine .rescue (.bind (hensure _ seen) fun _ => .bind (change_leaves _ seen) fun _ => ?_)
      fun fault => ?_
    · exact .bind (Keeping.emit trivial) fun _ => .pure _
    · exact .bind (Keeping.emit trivial) fun _ => .pure _

/-- The same goes for writing the standard ones. -/
theorem SettingsStore.prepare_leaves (root : Option String) :
    Leaves SettingsStore.remembered Event.Spoken (prepare root) := by
  intro seen
  unfold prepare
  cases path? root with
  | none => exact .pure _
  | some path =>
    refine .bind (.gets _) fun store => .ite ?_ (save_leaves root .standard seen)
    exact .bind (Keeping.emit trivial) fun _ => .pure _

/-! ## The plugin -/

/-- Trees and documents: the holdings of a forest, the buffers, and the documents that are open,
each with its buffer. -/
structure Scene where
  holdings : Holdings Nat
  buffers : List Buffer
  documents : Table String Nat

/-- A desk without its labels, its listeners and its settings. -/
structure Core where
  grove : Grove Nat String
  buffers : List Buffer
  documents : Table String Nat

namespace Desk

/-- What is seen of a desk. -/
def scene (desk : Desk) : Scene :=
  ⟨Forest.holdings grovePart desk, desk.bench.screen.buffers, desk.bench.documents⟩

/-- The core of a desk. -/
def core (desk : Desk) : Core :=
  ⟨(grovePart.get desk).bare, desk.bench.screen.buffers, desk.bench.documents⟩

/-- The scene is part of the core. -/
theorem scene_eq (desk : Desk) :
    desk.scene = ⟨desk.core.grove.holdings, desk.core.buffers, desk.core.documents⟩ := rfl

theorem shows_scene : Forest.Shows grovePart scene := by
  intro t u desk hsame
  exact congrArg (Scene.mk · desk.bench.screen.buffers desk.bench.documents) hsame

/-- Searching a tree leaves trees and documents alone. -/
theorem search_leaves (key : Text) (language : Language) (tree : Tree) (kinds : List Text) :
    Leaves scene Event.SparesTrees
      (Action.zoom grovePart (PatternCache.find Grove.cacheSite key language tree kinds)) :=
  Forest.zoomGrove_leaves shows_scene
    ((PatternCache.find_leaves key language tree kinds).mono fun _ => Event.OfSearch.sparesTrees)

theorem deaf_core : Forest.Deaf grovePart core := by
  intro t u desk hsame
  exact congrArg (Core.mk · desk.bench.screen.buffers desk.bench.documents) hsame

theorem zoomDisplay_idle {α : Type} {x : Action Display α}
    (hx : Leaves Display.buffers Event.Idle x) :
    Leaves core Event.Idle (Action.zoom displayPart x) := by
  refine fun _ => Keeping.zoom (fun t u desk hsame => ?_) hx
  exact congrArg (Core.mk (grovePart.get desk).bare · desk.bench.documents) hsame

theorem zoomStore_idle {α : Type} {x : Action SettingsStore α}
    (hx : Leaves (fun _ => ()) Event.Spoken x) :
    Leaves core Event.Idle (Action.zoom storePart x) :=
  fun _ => Keeping.zoom (fun _ _ _ _ => rfl) (hx.mono fun _ => Event.Spoken.idle)

theorem settings_idle : Leaves core Event.Idle settings := by
  intro seen
  refine .bind (.gets _) fun desk => ?_
  exact zoomStore_idle (SettingsStore.load_leaves _) seen

/-- What is redrawn is the view of an entry, so its search is that of the pattern cache. -/
theorem view?_apply (document : String) (desk : Desk) :
    boardSite.feed.view? document desk =
      ⟨.ok ((desk.plugin.forest.entries.get? document).map fun entry =>
        Forest.viewOf grovePart entry (read desk entry.source)), desk, []⟩ := by
  unfold boardSite Forest.feed Forest.view?
  dsimp only
  rw [Action.bind_of_quiet (Action.look_apply _ _)]
  dsimp only [grovePart]
  cases desk.plugin.forest.entries.get? document with
  | none => rfl
  | some entry => rfl

/-- What is left to do once a document was opened maintains what pushing work maintains, and
messages to the user. -/
theorem client_maintains {holds : List Event → Desk → Prop}
    (hemit : ∀ event, event.ForUser → Maintains holds (Action.emit event))
    (hpush : ∀ work, Maintains holds (push work)) (work : Work Nat) :
    Maintains holds (perform (.client work)) := by
  match work with
  | .complain failure fault => exact hemit _ trivial
  | .complainLater failure fault => exact hpush _
  | .opened opening (.ok true) => exact .pure ()
  | .opened opening (.ok false) => exact hemit _ trivial
  | .opened opening (.error fault) =>
    cases hcaller : opening.caller with
    | direct => simp only [perform, openingEnded, hcaller]; exact .pure ()
    | openHandler => simp only [perform, openingEnded, hcaller]; exact hpush _
    | command => simp only [perform, openingEnded, hcaller]; exact hpush _

/-- Taking a task goes on with loading, with an opening, or with what is left to do then. -/
theorem perform_maintains {holds : List Event → Desk → Prop}
    (hemit : ∀ event, event.ForUser → Maintains holds (Action.emit event))
    (hpush : ∀ work, Maintains holds (push work))
    (hload : ∀ job, Maintains holds (Action.zoom workshopPart (Workshop.perform job)))
    (hresume : ∀ opening answer, Maintains holds (Forest.resume ground opening answer))
    (task : Task (Waiter Nat) (Work Nat)) : Maintains holds (perform task) := by
  match task with
  | .job job => exact hload job
  | .deliver (.bare _) _ => exact .pure ()
  | .deliver (.opening opening) answer =>
    exact .bind (hresume opening answer).attempt fun result => hpush _
  | .client work => exact client_maintains hemit hpush work

/-- An invariant that is maintained by everything around the trees of a plugin: messages to the
user, settings, labels and who listens. -/
structure Surrounded (holds : List Event → Desk → Prop) : Prop where
  message : ∀ {event : Event}, event.ForUser → Maintains holds (Action.emit event)
  store : ∀ {α : Type} {x : Action SettingsStore α}, Leaves (fun _ => ()) Event.Spoken x →
    Maintains holds (Action.zoom storePart x)
  catalog : ∀ f, Maintains holds (Action.adjust catalogPart f)
  labels : overlaySite.Discreet holds
  paint : ∀ editor, Maintains holds (Action.zoom displayPart (Display.paint editor))
  board : ∀ f, Maintains holds (Action.adjust boardSite.part f)
  register : ∀ trigger document,
    Maintains holds (Forest.register grovePart trigger document document)
  unregister : ∀ trigger document number,
    Maintains holds (Forest.unregister grovePart trigger document number)

namespace Surrounded

variable {holds : List Event → Desk → Prop}

theorem settings (h : Surrounded holds) : Maintains holds settings :=
  .bind (.gets _) fun _ => h.store (SettingsStore.load_leaves _)

/-- Telling the listeners maintains what refreshing any document maintains. -/
theorem announce (h : Surrounded holds)
    (hrefresh : ∀ document, Maintains holds (Switchboard.refresh boardSite document))
    (trigger : Trigger) (document : String) :
    Maintains holds (Forest.announce ground trigger document) := by
  refine .bind (.gets _) fun grove => .each fun registration _ => ?_
  exact .rescue (hrefresh _) fun fault => h.message trivial

/-- Switching labels on maintains what refreshing them maintains. -/
theorem enable (h : Surrounded holds) {document : String}
    (hrefresh : Maintains holds (Switchboard.refresh boardSite document)) :
    Maintains holds (Switchboard.enable boardSite document) := by
  refine .bind (.gets _) fun board => .ite (.pure ()) ?_
  refine .bind (h.register .parsed document) fun parsed => ?_
  refine .bind (h.register .changed document) fun changed => ?_
  exact .bind (h.board _) fun _ => .bind (h.message trivial) fun _ => hrefresh

theorem disable (h : Surrounded holds) (document : String) :
    Maintains holds (Switchboard.disable boardSite document) := by
  refine .bind (.gets _) fun board => ?_
  cases board.wires.get? document with
  | none => exact .pure ()
  | some wires =>
    refine .bind (h.board _) fun _ => .bind (h.unregister .parsed document _) fun _ => ?_
    refine .bind (h.unregister .changed document _) fun _ => ?_
    exact .bind (h.labels.clear document) fun _ => h.message trivial

end Surrounded

/-- An invariant to which nothing matters but the core, and no event that touches nothing. -/
def Calm (holds : List Event → Desk → Prop) : Prop :=
  ∀ past trace desk after, holds past desk → after.core = desk.core →
    (∀ event ∈ trace, event.Idle) → holds (past ++ trace) after

namespace Calm

variable {holds : List Event → Desk → Prop}

/-- What leaves the core alone maintains a calm invariant. -/
theorem maintains {α : Type} (h : Calm holds) {x : Action Desk α}
    (hx : Leaves core Event.Idle x) : Maintains holds x :=
  fun past desk hdesk => h past _ desk _ hdesk (hx.state desk) (hx.trace desk)

/-- So does an event that touches nothing. -/
theorem emit (h : Calm holds) {event : Event} (hidle : event.Idle) :
    Maintains holds (Action.emit event) := h.maintains fun _ => Keeping.emit hidle

/-- A calm invariant stays calm with a condition on the core. -/
theorem and_core (h : Calm holds) (p : Core → Prop) :
    Calm fun past desk => holds past desk ∧ p desk.core := by
  rintro past trace desk after ⟨hholds, hp⟩ hcore hidle
  exact ⟨h past trace desk after hholds hcore hidle, hcore ▸ hp⟩

/-- The labels of a plugin do not matter to a calm invariant. -/
theorem discreet (h : Calm holds) : overlaySite.Discreet holds where
  part overlay past desk hdesk := by
    have hset := h past [] desk (overlaySite.part.set overlay desk) hdesk rfl (by simp)
    rwa [List.append_nil] at hset
  draw _ _ _ _ := h.maintains (zoomDisplay_idle (Display.draw_leaves _ _ _ _))
  erase _ _ := h.maintains (zoomDisplay_idle (Display.erase_leaves _ _))
  flush _ := h.maintains (zoomDisplay_idle (Display.flush_leaves _))
  report _ _ := h.emit rfl

theorem surrounded (h : Calm holds) : Surrounded holds where
  message hmessage := h.emit hmessage.idle
  store hx := h.maintains (zoomStore_idle hx)
  catalog f := h.maintains fun _ => Keeping.adjust (fun _ _ => rfl) f
  labels := h.discreet
  paint editor := h.maintains (zoomDisplay_idle (Display.paint_leaves editor))
  board f := h.maintains fun _ => Keeping.adjust (fun _ _ => rfl) f
  register trigger document := h.maintains (Forest.register_leaves deaf_core trigger document _)
  unregister trigger document number :=
    h.maintains (Forest.unregister_leaves deaf_core trigger document number)

/-- Refreshing the labels of a document maintains a calm invariant that searching its tree
maintains. -/
theorem refresh (h : Calm holds) {document : String}
    (hfind : ∀ entry kinds past desk,
      desk.plugin.forest.entries.get? document = some entry → holds past desk →
      let done := Action.zoom grovePart
        (PatternCache.find Grove.cacheSite entry.key entry.language entry.tree kinds) desk
      holds (past ++ done.trace) done.state) :
    Maintains holds (Switchboard.refresh boardSite document) := by
  intro past desk hdesk
  rw [Switchboard.refresh, Action.bind_of_quiet (view?_apply document desk)]
  cases hentry : desk.plugin.forest.entries.get? document with
  | none => exact Maintains.pure () past desk hdesk
  | some entry =>
    -- The entry is still there when its tree is searched, since nothing before changes the core.
    have hstill := h.and_core fun core => core.grove.forest.entries.get? document = some entry
    have hredraw : Maintains (fun past desk => holds past desk ∧
        desk.core.grove.forest.entries.get? document = some entry) (do
          let minLines ← boardSite.minLines
          let catalog ← Action.gets boardSite.catalog
          Overlay.redraw boardSite.overlay catalog document
            (Forest.viewOf grovePart entry (read desk entry.source)) minLines) := by
      refine .bind (.bind (hstill.maintains settings_idle) fun _ => .pure _) fun minLines => ?_
      refine .bind (.gets _) fun catalog => ?_
      refine hstill.discreet.redraw (fun kinds past desk hboth => ?_) catalog document minLines
      refine ⟨hfind entry kinds past desk hboth.2 hboth.1, ?_⟩
      have hentries := (search_leaves entry.key entry.language entry.tree kinds).state desk
      have hsame := congrArg (fun scene => scene.holdings.entries.get? document) hentries
      exact hsame.trans hboth.2
    exact (hredraw past desk ⟨hdesk, hentry⟩).1

/-- Telling the listeners maintains what refreshing any document maintains. -/
theorem announce (h : Calm holds)
    (hrefresh : ∀ document, Maintains holds (Switchboard.refresh boardSite document))
    (trigger : Trigger) (document : String) :
    Maintains holds (Forest.announce ground trigger document) :=
  h.surrounded.announce hrefresh trigger document

/-- Switching labels on maintains what refreshing them maintains. -/
theorem enable (h : Calm holds) {document : String}
    (hrefresh : Maintains holds (Switchboard.refresh boardSite document)) :
    Maintains holds (Switchboard.enable boardSite document) := h.surrounded.enable hrefresh

/-- Switching labels off maintains a calm invariant. -/
theorem disable (h : Calm holds) (document : String) :
    Maintains holds (Switchboard.disable boardSite document) := h.surrounded.disable document

end Calm

/-! ## Trees and documents -/

/-- What is seen of trees and documents is a calm matter. -/
theorem calm_scene (seen : Scene) : Calm (Keeping scene Event.SparesTrees seen) := by
  rintro past trace desk after ⟨hseen, hpast⟩ hcore hidle
  refine ⟨?_, fun event hevent => ?_⟩
  · rw [scene_eq, hcore, ← scene_eq, hseen]
  · rcases List.mem_append.mp hevent with hold | hnew
    · exact hpast event hold
    · exact (hidle event hnew).sparesTrees

/-- Refreshing the labels of a document leaves trees and documents alone. -/
theorem refresh_leaves (document : String) :
    Leaves scene Event.SparesTrees (Switchboard.refresh boardSite document) :=
  fun seen => (calm_scene seen).refresh fun entry kinds past desk _ hdesk =>
    search_leaves entry.key entry.language entry.tree kinds seen past desk hdesk

/-- Telling the listeners of the plugin's forest leaves trees and documents alone. -/
theorem announce_leaves (trigger : Trigger) (document : String) :
    Leaves scene Event.SparesTrees (Forest.announce ground trigger document) :=
  Forest.announce_leaves refresh_leaves (fun _ _ => trivial) trigger document

/-- Switching labels on leaves trees and documents alone. -/
theorem enable_leaves (document : String) :
    Leaves scene Event.SparesTrees (Switchboard.enable boardSite document) :=
  fun seen => (calm_scene seen).enable (refresh_leaves document seen)

/-- So does switching them off. -/
theorem disable_leaves (document : String) :
    Leaves scene Event.SparesTrees (Switchboard.disable boardSite document) :=
  fun seen => (calm_scene seen).disable document

end Desk

end ClosingLabels
