import ClosingLabels.Proofs.Rooting
import ClosingLabels.Proofs.Upkeep

/-!
# Labels are up to date

A document whose labels are on and that has a tree shows the labels it is due. Some
documents may be exempt for a while: one whose text has changed until its tree is new, one
that has just got a tree, and all of them when the settings change. A refresh ends the
exemption of its document and leaves all other documents as they are, since what they are
due depends on nothing that a refresh changes.
-/

namespace ClosingLabels

open ClosingLabels.Action (Maintains Leaves Leads)

/-- A change of a document is reported as failed. -/
def Event.spoils : Event → Bool
  | .error .documentChange _ => true
  | _ => false

/-- No change of a document was reported as failed. -/
def Smooth (past : List Event) : Prop := ∀ event ∈ past, event.spoils = false

instance (past : List Event) : Decidable (Smooth past) :=
  inferInstanceAs (Decidable (∀ event ∈ past, event.spoils = false))

theorem Smooth.of_append {past trace : List Event} (h : Smooth (past ++ trace)) : Smooth past :=
  fun event hmem => h event (List.mem_append_left _ hmem)

namespace Desk

open Switchboard

variable {settings : Settings} {buffers : List Buffer} {exempt : String → Prop}
  {past : List Event} {desk : Desk} {document : String} {entry : Entry Nat}

/-- A document whose labels are on and that has a tree shows the labels it is due, unless a query
is kept for it that the language of its tree would not have compiled. -/
def Fresh (settings : Settings) (desk : Desk) (document : String) : Prop :=
  desk.plugin.board.isOn document = true → ∀ entry,
    desk.plugin.forest.entries.get? document = some entry → desk.Own entry →
    (desk.plugin.overlay.labels document).map Placed.content =
        (settings.due (desk.read entry.source) entry).map Label.content ∧
      desk.marks document =
        (desk.plugin.overlay.labels document).map settings.overlayOptions.mark

/-- What a document shows stays right as long as it keeps its tree, its text and its labels. -/
theorem Fresh.transfer (h : desk.Fresh settings document) {after : Desk}
    (hon : after.plugin.board.isOn document = true → desk.plugin.board.isOn document = true)
    (hentry : ∀ entry, after.plugin.forest.entries.get? document = some entry →
      desk.plugin.forest.entries.get? document = some entry ∧
        after.read entry.source = desk.read entry.source)
    (hcatalog : after.plugin.catalog = desk.plugin.catalog)
    (hqueries : ∀ text query, desk.plugin.forest.cache.queries.get? text = some query →
      after.plugin.forest.cache.queries.get? text = some query)
    (hlabels : after.plugin.overlay.labels document = desk.plugin.overlay.labels document)
    (hmarks : after.marks document = desk.marks document) : after.Fresh settings document := by
  intro hlit entry hget hown
  obtain ⟨hbefore, hread⟩ := hentry entry hget
  rw [hlabels, hmarks, hread]
  exact h (hon hlit) entry hbefore (hown.of_later hcatalog hqueries)

/-- Everything has its place, catalog and overlay go by the settings, only documents with a tree
have labels, and what shows is up to date but for the documents that are exempt. The buffers of
the editor are given, since the plugin never changes them. -/
structure Current (settings : Settings) (buffers : List Buffer) (exempt : String → Prop)
    (past : List Event) (desk : Desk) : Prop where
  good : boardSite.Good marks Numbered (fun _ => True) past desk
  rooted : desk.roots.Rooted
  configured : desk.Configured settings
  backed : ∀ document, desk.plugin.overlay.tracks document = true →
    (desk.plugin.forest.entries.get? document).isSome
  fresh : Smooth past → ∀ document, ¬exempt document → desk.Fresh settings document
  stays : desk.bench.screen.buffers = buffers

/-- A document without a tree, or whose labels are off, need not be exempt. -/
theorem Current.narrow (h : Current settings buffers exempt past desk)
    {fewer : String → Prop} (hfewer : ∀ document, exempt document → fewer document ∨
      desk.plugin.board.isOn document = false ∨
      desk.plugin.forest.entries.get? document = none) :
    Current settings buffers fewer past desk where
  good := h.good
  rooted := h.rooted
  configured := h.configured
  backed := h.backed
  stays := h.stays
  fresh hsmooth document hdocument := by
    by_cases hexempt : exempt document
    · intro hon entry hentry
      rcases hfewer document hexempt with hfew | hoff | hnone
      · exact absurd hfew hdocument
      · rw [hoff] at hon
        cases hon
      · cases hnone.symm.trans hentry
    · exact h.fresh hsmooth document hexempt

/-- More may have been reported. -/
theorem Current.later (h : Current settings buffers exempt past desk) {more : List Event}
    (hmore : past ⊆ more) : Current settings buffers exempt more desk where
  good := h.good
  rooted := h.rooted
  configured := h.configured
  backed := h.backed
  stays := h.stays
  fresh hsmooth := h.fresh fun event hmem => hsmooth event (hmore hmem)

/-- Once a change was reported as failed, nothing is promised. -/
theorem Current.of_failed (h : Current settings buffers exempt past desk) {cause : Option Fault}
    (hfailed : .error .documentChange cause ∈ past) (fewer : String → Prop) :
    Current settings buffers fewer past desk where
  good := h.good
  rooted := h.rooted
  configured := h.configured
  backed := h.backed
  stays := h.stays
  fresh hsmooth := by cases hsmooth _ hfailed

/-! ## What does not matter -/

end Desk

/-- What labels follow from, and where they show. -/
structure Outlook where
  pending : String → List Pending
  next : Nat
  overlay : Overlay Nat
  board : Switchboard
  entries : Table String (Entry Nat)
  queries : Table Text Query
  catalog : Catalog
  buffers : List Buffer
  remembered : Option (Option String × Settings)
  workspace : Option String

namespace Desk

open Switchboard

variable {settings : Settings} {buffers : List Buffer} {exempt : String → Prop}
  {past : List Event} {desk : Desk} {document : String} {entry : Entry Nat}

/-- The outlook of a desk. -/
def outlook (desk : Desk) : Outlook :=
  ⟨(displayPart.get desk).pending, desk.plugin.decorations.next, desk.plugin.overlay,
    desk.plugin.board, desk.plugin.forest.entries, desk.plugin.forest.cache.queries,
    desk.plugin.catalog, desk.bench.screen.buffers, desk.bench.store.remembered,
    desk.bench.workspace⟩

/-- Nothing but the outlook matters, as long as everything keeps its place. -/
theorem Current.step (h : Current settings buffers exempt past desk) {after : Desk}
    {trace : List Event} (hrooted : after.roots.Rooted) (hsame : after.outlook = desk.outlook) :
    Current settings buffers exempt (past ++ trace) after := by
  have hmove {p : Outlook → Prop} (hp : p desk.outlook) : p after.outlook := hsame ▸ hp
  have hbuffers : after.bench.screen.buffers = desk.bench.screen.buffers :=
    congrArg Outlook.buffers hsame
  have hentries := congrArg Outlook.entries hsame
  refine ⟨⟨?_, ?_, trivial⟩, hrooted, ⟨?_, ?_, ?_⟩, ?_, fun hsmooth document hdocument => ?_,
    hbuffers.trans h.stays⟩
  · exact hmove (p := fun o => ∀ document, ∀ label ∈ o.pending document, label.handle < o.next)
      h.good.1
  · exact hmove (p := fun o => Sheet.Owned ⟨o.overlay.options, o.overlay.labels,
      fun document => (o.pending document).map Pending.mark⟩) h.good.2.1
  · exact hmove (p := fun o => o.remembered = some (o.workspace, settings)) h.configured.remembered
  · exact hmove (p := fun o => o.catalog = settings.catalog) h.configured.catalog
  · exact hmove (p := fun o => o.overlay.options = settings.overlayOptions) h.configured.options
  · exact hmove (p := fun o => ∀ document, o.overlay.tracks document = true →
      (o.entries.get? document).isSome) h.backed
  · refine (h.fresh hsmooth.of_append document hdocument).transfer (fun hon => ?_)
      (fun entry hentry => ⟨?_, ?_⟩) (congrArg Outlook.catalog hsame) (fun text query hkept => ?_)
      ?_ ?_
    · exact (congrArg (fun o => o.board.isOn document) hsame).symm.trans hon
    · exact (congrArg (fun table => table.get? document) hentries).symm.trans hentry
    · exact read_congr hbuffers _
    · exact (congrArg (fun o => o.queries.get? text) hsame).trans hkept
    · exact congrArg (fun o => o.overlay.labels document) hsame
    · exact congrArg (fun o => (o.pending document).map Pending.mark) hsame

/-- The same without anything to be reported. -/
theorem Current.hold (h : Current settings buffers exempt past desk) {after : Desk}
    (hrooted : after.roots.Rooted) (hsame : after.outlook = desk.outlook) :
    Current settings buffers exempt past after := by
  have hstep : Current settings buffers exempt (past ++ []) after := h.step hrooted hsame
  rwa [List.append_nil] at hstep

/-- What leaves outlook and roots alone changes nothing. -/
theorem current_of_leaves {α : Type} {x : Action Desk α}
    (hx : ∀ desk, (x desk).state.outlook = desk.outlook ∧ (x desk).state.roots = desk.roots) :
    Maintains (Current settings buffers exempt) x :=
  fun _ desk h => h.step ((hx desk).2 ▸ h.rooted) (hx desk).1

theorem emit_current (event : Event) :
    Maintains (Current settings buffers exempt) (Action.emit event) :=
  current_of_leaves fun _ => ⟨rfl, rfl⟩

/-- Whoever waits for a language has a buffer. -/
theorem Current.waiting (h : Current settings buffers exempt past desk) :
    (workshopPart.get desk).Vouched (Waiter.Rooted buffers) := by
  have hbuffers : desk.roots.buffers = buffers := h.stays
  rw [← hbuffers]
  exact h.rooted.waiting

/-- The workshop may change as long as everyone who waits is vouched for and no tree is made or
deleted. -/
theorem Current.withWorkshop (h : Current settings buffers exempt past desk)
    {workshop : Workshop (Waiter Nat) (Work Nat)}
    (hwaiting : workshop.Vouched (Waiter.Rooted buffers))
    (htrees : workshop.trees = (workshopPart.get desk).trees)
    (hdeleted : workshop.toolkit.deletedTrees = (workshopPart.get desk).toolkit.deletedTrees) :
    Current settings buffers exempt past (workshopPart.set workshop desk) := by
  have hbuffers : desk.roots.buffers = buffers := h.stays
  rw [← hbuffers] at hwaiting
  exact h.hold (h.rooted.withWorkshop hwaiting htrees hdeleted) rfl

theorem workshop_current {α : Type} {x : Action (Workshop (Waiter Nat) (Work Nat)) α}
    (hx : ∀ workshop, workshop.Vouched (Waiter.Rooted buffers) →
      let after := (x workshop).state
      after.Vouched (Waiter.Rooted buffers) ∧ after.trees = workshop.trees ∧
        after.toolkit.deletedTrees = workshop.toolkit.deletedTrees) :
    Maintains (Current settings buffers exempt) (Action.zoom workshopPart x) := by
  intro past desk h
  obtain ⟨hwaiting, htrees, hdeleted⟩ := hx (workshopPart.get desk) h.waiting
  exact (h.withWorkshop hwaiting htrees hdeleted).later (List.subset_append_left _ _)

theorem push_current (work : Work Nat) : Maintains (Current settings buffers exempt) (push work) :=
  workshop_current fun _ h => ⟨h.push (by simp [Task.waiter]), rfl, rfl⟩

/-- With the settings at hand, asking for them changes nothing. -/
theorem settings_current : Maintains (Current settings buffers exempt) Desk.settings := by
  refine .gets_bind fun past desk h => ?_
  have hload : Action.zoom storePart (SettingsStore.load desk.bench.workspace) desk =
      ⟨.ok settings, desk, []⟩ := by
    have hstore := SettingsStore.load_of_remembered h.configured.remembered
    exact congrArg (fun loaded : Outcome SettingsStore Settings =>
      (⟨loaded.result, storePart.set loaded.state desk, loaded.trace⟩ : Outcome Desk Settings)) hstore
  rw [hload, List.append_nil]
  exact h

/-- Writing the settings file does not matter before it is read. -/
theorem prepare_current (root : Option String) :
    Maintains (Current settings buffers exempt)
      (Action.zoom storePart (SettingsStore.prepare root)) := by
  intro past desk h
  have hremembered := (SettingsStore.prepare_leaves root).state desk.bench.store
  exact h.step h.rooted (congrArg (fun remembered => { desk.outlook with remembered }) hremembered)

/-- Painting an editor changes nothing that is due or drawn. -/
theorem paint_current (editor : Editor) :
    Maintains (Current settings buffers exempt)
      (Action.zoom displayPart (Display.paint editor)) := by
  intro past desk h
  have hcontents := (Display.paint_contents editor).state (displayPart.get desk)
  have hroots : (Action.zoom displayPart (Display.paint editor) desk).state.roots = desk.roots :=
    congrArg (fun contents : Display.Contents => { desk.roots with buffers := contents.buffers })
      hcontents
  refine h.step (hroots ▸ h.rooted) ?_
  exact congrArg (fun contents : Display.Contents => { desk.outlook with
    pending := fun document => (contents.labels.get? document).getD []
    next := contents.next
    buffers := contents.buffers }) hcontents

/-! ## Refreshing -/

/-- A document without a tree is not redrawn. -/
theorem refresh_of_treeless (hnone : desk.plugin.forest.entries.get? document = none) :
    Switchboard.refresh boardSite document desk = ⟨.ok (), desk, []⟩ := by
  rw [Switchboard.refresh, Action.bind_of_quiet (view?_apply document desk), hnone]
  rfl

/-- A search keeps the queries it finds. -/
theorem searched_keeps (document : String) {text : Text} {query : Query}
    (hkept : desk.plugin.forest.cache.queries.get? text = some query) :
    (desk.searched document).forest.cache.queries.get? text = some query := by
  rw [searched]
  cases desk.plugin.forest.entries.get? document with
  | none => exact hkept
  | some entry =>
    dsimp only
    split
    · exact hkept
    · exact PatternCache.find_keeps _ _ _ _ hkept

/-- A refresh keeps the queries. -/
theorem refresh_keeps_query (h : desk.Configured settings) (document : String) {text : Text}
    {query : Query} (hkept : desk.plugin.forest.cache.queries.get? text = some query) :
    (Switchboard.refresh boardSite document desk).state.plugin.forest.cache.queries.get? text =
      some query := by
  have hgrove : grovePart.get (Switchboard.refresh boardSite document desk).state =
      desk.searched document := congrArg Backstage.grove (refresh_backstage h document)
  have hafter := searched_keeps document hkept
  rwa [← hgrove] at hafter

/-- A refresh leaves the options and the other documents as they were. -/
theorem Current.refresh_good (h : Current settings buffers exempt past desk) (document : String) :
    let done := Switchboard.refresh boardSite document desk
    boardSite.Good marks Numbered (fun sheet => sheet.options = desk.plugin.overlay.options ∧
        ∀ other, other ≠ document → sheet.labels other = desk.plugin.overlay.labels other ∧
          sheet.marks other = desk.marks other) (past ++ done.trace) done.state := by
  refine drawable.refresh (fun before after hbefore hoptions hothers => ?_) past desk
    ⟨h.good.1, h.good.2.1, rfl, fun _ _ => ⟨rfl, rfl⟩⟩
  exact ⟨hoptions.trans hbefore.1, fun other hother =>
    ⟨(hothers other hother).1.trans (hbefore.2 other hother).1,
      (hothers other hother).2.trans (hbefore.2 other hother).2⟩⟩

/-- A refresh puts no document on record but its own. -/
theorem refresh_tracks (document : String) (desk : Desk) {other : String}
    (htracked : (Switchboard.refresh boardSite document desk).state.plugin.overlay.tracks other =
      true) : other = document ∨ desk.plugin.overlay.tracks other = true := by
  have htracks := tidy.refresh_of_tolerates
    (p := fun stand => ∀ other, stand.overlay.tracks other = true →
      other = document ∨ desk.plugin.overlay.tracks other = true)
    (fun stand overlay hstand hrecord other hother =>
      (hrecord other hother).elim Or.inl (hstand other)) [] desk fun _ => Or.inr
  exact htracks other htracked

/-- After a refresh its document shows the labels it is due. -/
theorem Current.refresh_fresh (h : Current settings buffers exempt past desk)
    (hentry : desk.plugin.forest.entries.get? document = some entry) :
    (Switchboard.refresh boardSite document desk).state.Fresh settings document := by
  have hstage := refresh_backstage h.configured document
  have hentries : (Switchboard.refresh boardSite document desk).state.plugin.forest.entries =
      desk.plugin.forest.entries :=
    congrArg (fun scene => scene.holdings.entries) ((refresh_leaves document).state desk)
  intro _ found hfound hown
  rw [hentries] at hfound
  obtain rfl : entry = found := Option.some.inj (hentry.symm.trans hfound)
  have hbefore : desk.Own entry := hown.of_later (congrArg Backstage.catalog hstage)
    fun _ _ => refresh_keeps_query h.configured document
  have hrenewed := refresh_shows h.configured h.good.1 h.good.2.1 hentry (h.rooted.alive hentry)
    hbefore
  refine ⟨?_, ?_⟩
  · rw [read_congr (congrArg Backstage.buffers hstage)]
    exact hrenewed.labels
  · rw [← h.configured.options]
    exact hrenewed.marks

/-- After a refresh its document is not exempt any more. -/
theorem Current.refresh (h : Current settings buffers exempt past desk) (document : String) :
    let done := Switchboard.refresh boardSite document desk
    Current settings buffers (fun other => exempt other ∧ other ≠ document) (past ++ done.trace)
      done.state := by
  intro done
  cases hentry : desk.plugin.forest.entries.get? document with
  | none =>
    rw [show done = ⟨.ok (), desk, []⟩ from refresh_of_treeless hentry, List.append_nil]
    refine h.narrow fun other hother => ?_
    by_cases hsame : other = document
    · exact Or.inr (Or.inr (hsame ▸ hentry))
    · exact Or.inl ⟨hother, hsame⟩
  | some entry =>
    have hstage := refresh_backstage h.configured document
    have hentries : done.state.plugin.forest.entries = desk.plugin.forest.entries :=
      congrArg (fun scene => scene.holdings.entries) ((refresh_leaves document).state desk)
    have hbuffers : done.state.bench.screen.buffers = desk.bench.screen.buffers :=
      congrArg Backstage.buffers hstage
    have hboard : done.state.plugin.board = desk.plugin.board := congrArg Backstage.board hstage
    have hcatalog : done.state.plugin.catalog = desk.plugin.catalog :=
      congrArg Backstage.catalog hstage
    have hstore : done.state.bench.store = desk.bench.store := congrArg Backstage.store hstage
    have hworkspace : done.state.bench.workspace = desk.bench.workspace :=
      congrArg Backstage.workspace hstage
    obtain ⟨hnumbered, howned, hoptions, hothers⟩ := h.refresh_good document
    have hrooted : done.state.roots.Rooted := by
      rw [roots, hstage]
      exact searched_rooted h.rooted document
    refine ⟨⟨hnumbered, howned, trivial⟩, hrooted, ⟨?_, hcatalog.trans h.configured.catalog,
      hoptions.trans h.configured.options⟩, fun other hother => ?_, fun hsmooth other hother => ?_,
      hbuffers.trans h.stays⟩
    · rw [hstore, hworkspace]
      exact h.configured.remembered
    · rw [hentries]
      rcases refresh_tracks document desk hother with rfl | hold
      · rw [hentry]
        rfl
      · exact h.backed other hold
    · by_cases hsame : other = document
      · subst hsame
        exact h.refresh_fresh hentry
      · have hnot : ¬exempt other := fun hexempt => hother ⟨hexempt, hsame⟩
        refine (h.fresh hsmooth.of_append other hnot).transfer (fun hon => hboard ▸ hon)
          (fun found hfound => ⟨hentries ▸ hfound, read_congr hbuffers _⟩) hcatalog
          (fun _ _ => refresh_keeps_query h.configured document)
          (hothers other hsame).1 (hothers other hsame).2

/-! ## Switching -/

/-- Listeners do not matter. -/
theorem deaf_outlook : Forest.Deaf grovePart fun desk => (desk.outlook, desk.roots) := by
  intro t u desk hsame
  exact congrArg (fun grove : Grove Nat String =>
    ({ desk.outlook with
        entries := grove.forest.entries, queries := grove.forest.cache.queries },
      { desk.roots with workshop := grove.workshop, entries := grove.forest.entries })) hsame

theorem subscribe_current (trigger : Trigger) (document : String) :
    Maintains (Current settings buffers exempt) (boardSite.feed.subscribe trigger document) := by
  have hleaves : Leaves (fun desk : Desk => (desk.outlook, desk.roots)) Event.Idle
      (boardSite.feed.subscribe trigger document) := Forest.register_leaves deaf_outlook _ _ _
  exact current_of_leaves fun desk => Prod.mk.inj (hleaves.state desk)

theorem unsubscribe_current (trigger : Trigger) (document : String) (number : Nat) :
    Maintains (Current settings buffers exempt)
      (boardSite.feed.unsubscribe trigger document number) := by
  have hleaves : Leaves (fun desk : Desk => (desk.outlook, desk.roots)) Event.Idle
      (boardSite.feed.unsubscribe trigger document number) :=
    Forest.unregister_leaves deaf_outlook _ _ _
  exact current_of_leaves fun desk => Prod.mk.inj (hleaves.state desk)

/-- A document whose labels are switched on is exempt until it is refreshed. -/
theorem Current.light (h : Current settings buffers exempt past desk) (document : String)
    (wires : Wires) :
    Current settings buffers (fun other => exempt other ∨ other = document) past
      (boardSite.part.set ⟨desk.plugin.board.wires.insert document wires⟩ desk) where
  good := h.good
  rooted := h.rooted
  configured := ⟨h.configured.remembered, h.configured.catalog, h.configured.options⟩
  backed := h.backed
  stays := h.stays
  fresh hsmooth other hother := by
    obtain ⟨hnot, hne⟩ := not_or.mp hother
    refine (h.fresh hsmooth other hnot).transfer (fun hon => ?_) (fun _ hget => ⟨hget, rfl⟩) rfl
      (fun _ _ => id) rfl rfl
    have hinsert : (desk.plugin.board.wires.insert document wires).contains other = true := hon
    rw [Table.contains_insert, decide_eq_false hne, Bool.false_or] at hinsert
    exact hinsert

theorem enable_current (document : String) :
    Maintains (Current settings buffers exempt) (Switchboard.enable boardSite document) := by
  refine .bind (.gets _) fun board => .ite (.pure ()) ?_
  refine .bind (subscribe_current .parsed document) fun parsed => ?_
  refine .bind (subscribe_current .changed document) fun changed => ?_
  intro past desk h
  have hlit := h.light document ⟨parsed, changed⟩
  rw [Action.bind_of_quiet (Action.adjust_apply _ _ _), Action.bind_of_ok (Action.log_apply _ _)]
  dsimp only
  rw [← List.append_assoc]
  refine ((emit_current (.log (.enabled document)) _ _ hlit).refresh document).narrow ?_
  rintro other ⟨hold | hsame, hne⟩
  · exact Or.inl hold
  · exact absurd hsame hne

/-- The labels of a document may be cleared while they are off. -/
theorem clear_current (document : String) :
    Maintains (fun past desk => Current settings buffers exempt past desk ∧
      desk.plugin.board.isOn document = false) (Overlay.clear overlaySite document) := by
  rintro past desk ⟨h, hoff⟩
  set done := Overlay.clear overlaySite document desk
  have hstage : done.state.backstage = desk.backstage :=
    (discreet_backstage desk.backstage).clear document [] desk rfl
  obtain ⟨hnumbered, hwiped⟩ := willing.clear document h.good.1 h.good.2.1
  have htracks : Leads (fun _ now => now = desk)
      (fun _ now => ∀ other, now.plugin.overlay.tracks other = true →
        desk.plugin.overlay.tracks other = true) (Overlay.clear overlaySite document) := by
    refine Overlay.clear_leads ?_ (fun _ _ _ hnow => hnow) (fun _ _ hnow => hnow)
      fun _ _ _ _ hnow => hnow
    rintro _ now rfl other hother
    have hforget : (now.plugin.overlay.forget document).tracks other = true := hother
    rw [Overlay.tracks_forget, Bool.and_eq_true] at hforget
    exact hforget.2
  have hforest : done.state.plugin.forest = desk.plugin.forest :=
    congrArg (fun stage => stage.grove.forest) hstage
  have hbuffers : done.state.bench.screen.buffers = desk.bench.screen.buffers :=
    congrArg Backstage.buffers hstage
  have hboard : done.state.plugin.board = desk.plugin.board := congrArg Backstage.board hstage
  have hoptions : done.state.plugin.overlay.options = desk.plugin.overlay.options :=
    congrArg Sheet.options hwiped
  refine ⟨⟨⟨hnumbered, hwiped ▸ h.good.2.1.wipe document, trivial⟩, ?_, ⟨?_, ?_, ?_⟩,
    fun other hother => ?_, fun hsmooth other hother => ?_, hbuffers.trans h.stays⟩, hboard ▸ hoff⟩
  · rw [roots, hstage]
    exact h.rooted
  · exact (congrArg (fun stage : Backstage => stage.store.remembered) hstage).trans
      (h.configured.remembered.trans (congrArg (fun stage : Backstage =>
        some (stage.workspace, settings)) hstage.symm))
  · exact (congrArg Backstage.catalog hstage).trans h.configured.catalog
  · exact hoptions.trans h.configured.options
  · rw [hforest]
    exact h.backed other (htracks [] desk rfl other hother)
  · by_cases hsame : other = document
    · intro hon
      rw [hboard, hsame, hoff] at hon
      cases hon
    · refine (h.fresh hsmooth.of_append other hother).transfer (fun hon => hboard ▸ hon)
        (fun found hfound => ⟨hforest ▸ hfound, read_congr hbuffers _⟩)
        (congrArg Backstage.catalog hstage) (fun _ _ hkept => hforest ▸ hkept) ?_ ?_
      · exact (congrFun (congrArg Sheet.labels hwiped) other).trans (if_neg hsame)
      · exact (congrFun (congrArg Sheet.marks hwiped) other).trans (if_neg hsame)

theorem disable_current (document : String) :
    Maintains (Current settings buffers exempt) (Switchboard.disable boardSite document) := by
  refine .gets_bind fun past desk h => ?_
  cases hwires : (boardSite.part.get desk).wires.get? document with
  | none => exact Maintains.pure () past desk h
  | some wires =>
    have hdark : Current settings buffers exempt past
        (boardSite.part.set ⟨desk.plugin.board.wires.erase document⟩ desk) := by
      refine ⟨h.good, h.rooted, ⟨h.configured.remembered, h.configured.catalog,
        h.configured.options⟩, h.backed, fun hsmooth other hother => ?_, h.stays⟩
      refine (h.fresh hsmooth other hother).transfer (fun hon => ?_) (fun _ hget => ⟨hget, rfl⟩)
        rfl (fun _ _ => id) rfl rfl
      have herase : (desk.plugin.board.wires.erase document).contains other = true := hon
      rw [Table.contains_erase, Bool.and_eq_true] at herase
      exact herase.2
    have hoff : (desk.plugin.board.wires.erase document).contains document = false := by
      simp [Table.contains_erase]
    have hrest : Maintains (fun past now => Current settings buffers exempt past now ∧
        now.plugin.board.isOn document = false) (do
          boardSite.feed.unsubscribe .parsed document wires.parsed
          boardSite.feed.unsubscribe .changed document wires.changed
          Overlay.clear boardSite.overlay document
          Action.log (.disabled document)) := by
      refine .bind (fun past now hnow => ⟨unsubscribe_current _ _ _ past now hnow.1, hnow.2⟩)
        fun _ => ?_
      refine .bind (fun past now hnow => ⟨unsubscribe_current _ _ _ past now hnow.1, hnow.2⟩)
        fun _ => ?_
      refine .bind (clear_current document) fun _ past now hnow => ?_
      exact ⟨emit_current _ past now hnow.1, hnow.2⟩
    dsimp only
    rw [Action.bind_of_quiet (Action.adjust_apply _ _ _)]
    exact (hrest past _ ⟨hdark, hoff⟩).1

/-! ## Listeners -/

/-- When the listeners of a document were told, it is not exempt any more: while its labels are on
it listens itself. -/
theorem Current.announce (h : Current settings buffers exempt past desk)
    (hsound : boardSite.Seen hearing Stand.Sound past desk) (trigger : Trigger)
    (document : String) :
    let done := Forest.announce ground trigger document desk
    Current settings buffers (fun other => exempt other ∧ other ≠ document) (past ++ done.trace)
      done.state := by
  intro done
  cases hwires : desk.plugin.board.wires.get? document with
  | none =>
    have hnobody : desk.plugin.forest.listeners trigger document = [] :=
      hsound.off document hwires trigger
    have hdone : done = ⟨.ok (), desk, []⟩ := by
      change Forest.announce ground trigger document desk = _
      rw [Forest.announce, Action.bind_of_quiet (Action.look_apply _ _)]
      change Action.each (desk.plugin.forest.listeners trigger document) _ desk = _
      rw [hnobody]
      rfl
    rw [hdone, List.append_nil]
    refine h.narrow fun other hother => ?_
    by_cases hsame : other = document
    · refine Or.inr (Or.inl ?_)
      rw [hsame]
      simp [isOn, Table.contains, hwires]
    · exact Or.inl ⟨hother, hsame⟩
  | some wires =>
    have hitself : desk.plugin.forest.listeners trigger document =
        [⟨wires.number trigger, document⟩] := hsound.on document wires hwires trigger
    have hrefresh : ground.notify document desk =
        ⟨.ok (), (ground.notify document desk).state, (ground.notify document desk).trace⟩ :=
      Action.eq_of_result (tidy.refresh_result document desk)
    have hdone : done = Switchboard.refresh boardSite document desk := by
      change Forest.announce ground trigger document desk = _
      rw [Forest.announce, Action.bind_of_quiet (Action.look_apply _ _)]
      change Action.each (desk.plugin.forest.listeners trigger document) _ desk = _
      rw [hitself, Action.each, Action.bind_of_ok (Action.rescue_of_ok hrefresh _), Action.each,
        Action.pure_apply, List.append_nil]
      exact hrefresh.symm
    rw [hdone]
    exact h.refresh document

end Desk

end ClosingLabels
