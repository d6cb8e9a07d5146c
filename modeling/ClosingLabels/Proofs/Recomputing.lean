import ClosingLabels.Proofs.Decorating

/-!
# What a refresh shows

The labels that an entry is due follow from the settings, the present text, and the blocks
that the language of its tree finds in it. They are what the program extracts when no
query is kept from before. A refresh shows them too, unless a query is kept that the
language of the tree would not have compiled. Besides drawing, it only searches the tree.
-/

namespace ClosingLabels

open ClosingLabels.Action (Leaves)

/-! ## Labels that are due -/

namespace Settings

/-- The catalog that goes by the settings. -/
def catalog (settings : Settings) : Catalog :=
  Catalog.make shippedTargets settings.targets settings.grammars

/-- The labels of a document with a tree, before some of them are left out. -/
def records (settings : Settings) (document : Document) (entry : Entry Nat) : List Label :=
  let kinds := settings.catalog.kinds entry.key
  Label.gather document settings.minLines kinds (.ok (entry.language.blocks kinds entry.tree))

/-- The labels that a document with a tree is due. -/
def due (settings : Settings) (document : Document) (entry : Entry Nat) : List Label :=
  settings.overlayOptions.select (settings.records document entry)

end Settings

namespace Desk

/-- The settings are those that were read last for the workspace, and catalog and overlay go by
them. -/
structure Configured (settings : Settings) (desk : Desk) : Prop where
  remembered : desk.bench.store.remembered = some (desk.bench.workspace, settings)
  catalog : desk.plugin.catalog = settings.catalog
  options : desk.plugin.overlay.options = settings.overlayOptions

variable {settings : Settings} {desk : Desk} {document : String} {entry : Entry Nat}

/-- With the settings at hand, asking for the least height changes nothing. -/
theorem Configured.minLines_apply (h : desk.Configured settings) :
    boardSite.minLines desk = ⟨.ok settings.minLines, desk, []⟩ := by
  rw [Desk.minLines_apply, SettingsStore.load_of_remembered h.remembered]
  rfl

/-- The text under which a query for an entry is kept. -/
def queryText (desk : Desk) (entry : Entry Nat) : Text :=
  PatternCache.keyOf entry.key (desk.plugin.catalog.kinds entry.key)

/-- Whatever query is kept for an entry, the language of its tree would have compiled it too. -/
def Own (desk : Desk) (entry : Entry Nat) : Prop :=
  ∀ query, desk.plugin.forest.cache.queries.get? (desk.queryText entry) = some query →
    query.kinds = Pattern.names (desk.plugin.catalog.kinds entry.key) ∧
      entry.language.Knows (desk.plugin.catalog.kinds entry.key)

instance (desk : Desk) (entry : Entry Nat) : Decidable (desk.Own entry) :=
  inferInstanceAs (Decidable (∀ query ∈ desk.plugin.forest.cache.queries.get? (desk.queryText entry),
    query.kinds = Pattern.names (desk.plugin.catalog.kinds entry.key) ∧
      entry.language.Knows (desk.plugin.catalog.kinds entry.key)))

/-- It is so now if it is so later, as long as all queries are kept. -/
theorem Own.of_later {after : Desk} (h : after.Own entry)
    (hcatalog : after.plugin.catalog = desk.plugin.catalog)
    (hqueries : ∀ text query, desk.plugin.forest.cache.queries.get? text = some query →
      after.plugin.forest.cache.queries.get? text = some query) : desk.Own entry := by
  intro query hkept
  rw [← hcatalog]
  refine h query ?_
  rw [queryText, hcatalog]
  exact hqueries _ query hkept

/-- The blocks that are found for an entry are those that the language of its tree finds. -/
theorem Own.find_result (h : desk.Own entry)
    (halive : entry.tree.number ∉ desk.bench.toolkit.deletedTrees) (text : Document) {now : Desk}
    (hgrove : grovePart.get now = grovePart.get desk) :
    ((Forest.viewOf grovePart entry text).find (desk.plugin.catalog.kinds entry.key) now).result =
      .ok (entry.language.blocks (desk.plugin.catalog.kinds entry.key) entry.tree) := by
  change (PatternCache.find Grove.cacheSite entry.key entry.language entry.tree
    (desk.plugin.catalog.kinds entry.key) (grovePart.get now)).result = _
  rw [hgrove]
  exact PatternCache.find_result halive h

/-- The labels that the program extracts for an entry now. -/
def extracted (desk : Desk) (minLines : Rat) (entry : Entry Nat) : Except Fault (List Label) :=
  (Label.extract (Forest.viewOf grovePart entry (desk.read entry.source)) minLines
    desk.plugin.catalog desk).result

/-- The labels that it extracts when no query is kept from before. -/
def recomputed (desk : Desk) (minLines : Rat) (entry : Entry Nat) : Except Fault (List Label) :=
  (Forest.resetPatterns grovePart desk).state.extracted minLines entry

/-- They follow from the settings, unless a query is kept that the language of the tree would not
have compiled. -/
theorem extracted_eq (hcatalog : desk.plugin.catalog = settings.catalog)
    (halive : entry.tree.number ∉ desk.bench.toolkit.deletedTrees) (hown : desk.Own entry) :
    desk.extracted settings.minLines entry =
      .ok (settings.records (desk.read entry.source) entry) := by
  rw [extracted, Label.extract_result]
  change Except.ok (Label.gather (desk.read entry.source) settings.minLines
    (desk.plugin.catalog.kinds entry.key) ((Forest.viewOf grovePart entry
      (desk.read entry.source)).find (desk.plugin.catalog.kinds entry.key) desk).result) = _
  rw [hown.find_result halive _ rfl, hcatalog]
  rfl

/-- Without the queries there is no such exception. -/
theorem recomputed_eq (hcatalog : desk.plugin.catalog = settings.catalog)
    (halive : entry.tree.number ∉ desk.bench.toolkit.deletedTrees) :
    desk.recomputed settings.minLines entry =
      .ok (settings.records (desk.read entry.source) entry) := by
  have hown : (grovePart.set (grovePart.get desk).clear desk).Own entry := by
    intro query hkept
    cases hkept
  rw [recomputed, Forest.resetPatterns_apply]
  exact extracted_eq hcatalog halive hown

/-! ## Behind the labels -/

end Desk

/-- All of a desk that drawing leaves alone. -/
structure Backstage where
  grove : Grove Nat String
  buffers : List Buffer
  documents : Table String Nat
  active : Option (Option Nat)
  store : SettingsStore
  workspace : Option String
  catalog : Catalog
  board : Switchboard

namespace Desk

variable {settings : Settings} {desk : Desk} {document : String} {entry : Entry Nat}

/-- What a desk is backstage. -/
def backstage (desk : Desk) : Backstage :=
  ⟨grovePart.get desk, desk.bench.screen.buffers, desk.bench.documents, desk.bench.active,
    desk.bench.store, desk.bench.workspace, desk.plugin.catalog, desk.plugin.board⟩

/-- With the same buffers the same text is read. -/
theorem read_congr {after : Desk}
    (hbuffers : after.bench.screen.buffers = desk.bench.screen.buffers) (buffer : Nat) :
    after.read buffer = desk.read buffer := by
  rw [read, read, Screen.buffer, Screen.buffer, hbuffers]

/-- Backstage nothing shows. -/
theorem zoomDisplay_backstage {α : Type} {x : Action Display α}
    (hx : Leaves Display.buffers Event.Idle x) (desk : Desk) :
    (Action.zoom displayPart x desk).state.backstage = desk.backstage := by
  have hbuffers := hx.state (displayPart.get desk)
  exact congrArg (fun buffers => { desk.backstage with buffers }) hbuffers

/-- The overlay leaves everything backstage alone. -/
theorem discreet_backstage (seen : Backstage) :
    overlaySite.Discreet fun _ desk => desk.backstage = seen where
  part _ _ _ h := h
  draw _ _ _ _ _ desk h := (zoomDisplay_backstage (Display.draw_leaves _ _ _ _) desk).trans h
  erase _ _ _ desk h := (zoomDisplay_backstage (Display.erase_leaves _ _) desk).trans h
  flush _ _ desk h := (zoomDisplay_backstage (Display.flush_leaves _) desk).trans h
  report _ _ _ _ h := h

theorem retract_backstage (document : String) (desk : Desk) :
    (Overlay.retract overlaySite document desk).state.backstage = desk.backstage :=
  ((discreet_backstage _).tends document).retract [] desk rfl

/-- The grove once the tree of a document was searched for its labels, if it has one. -/
def searched (desk : Desk) (document : String) : Grove Nat String :=
  match desk.plugin.forest.entries.get? document with
  | none => grovePart.get desk
  | some entry =>
    let kinds := desk.plugin.catalog.kinds entry.key
    if kinds.isEmpty then grovePart.get desk
    else (PatternCache.find Grove.cacheSite entry.key entry.language entry.tree kinds
      (grovePart.get desk)).state

/-- Backstage, a refresh is a search. -/
theorem refresh_backstage (h : desk.Configured settings) (document : String) :
    (Switchboard.refresh boardSite document desk).state.backstage =
      { desk.backstage with grove := desk.searched document } := by
  rw [Switchboard.refresh, Action.bind_of_quiet (view?_apply document desk), searched]
  cases desk.plugin.forest.entries.get? document with
  | none => rfl
  | some entry =>
    have hbeside (seen : Backstage) :
        boardSite.overlay.Tends document fun _ desk => desk.backstage = seen :=
      (discreet_backstage seen).tends document
    dsimp only [Option.map_some]
    rw [Action.bind_of_quiet h.minLines_apply, Action.bind_of_quiet (Action.gets_apply _ _),
      Overlay.redraw_beside hbeside, Label.extract_state]
    have hretract := retract_backstage document desk
    have hgrove : grovePart.get (Overlay.retract boardSite.overlay document desk).state =
        grovePart.get desk := congrArg Backstage.grove hretract
    change (if (desk.plugin.catalog.kinds entry.key).isEmpty = true then _
      else (Action.zoom grovePart (PatternCache.find Grove.cacheSite entry.key entry.language
        entry.tree (desk.plugin.catalog.kinds entry.key))
        (Overlay.retract boardSite.overlay document desk).state).state).backstage = _
    split
    · exact hretract
    · rw [Action.zoom_apply, hgrove]
      exact congrArg (fun stage : Backstage => { stage with
        grove := (PatternCache.find Grove.cacheSite entry.key entry.language entry.tree
          (desk.plugin.catalog.kinds entry.key) (grovePart.get desk)).state }) hretract

/-- A refreshed document shows the labels it is due. -/
theorem refresh_shows (h : desk.Configured settings) (hnumbered : desk.Numbered)
    (howned : (overlaySite.sheet marks desk).Owned)
    (hentry : desk.plugin.forest.entries.get? document = some entry)
    (halive : entry.tree.number ∉ desk.bench.toolkit.deletedTrees) (hown : desk.Own entry) :
    Sheet.Renewed document (settings.due (desk.read entry.source) entry)
      (overlaySite.sheet marks desk)
      (overlaySite.sheet marks (Switchboard.refresh boardSite document desk).state) := by
  have hview : boardSite.feed.view? document desk =
      ⟨.ok (some (Forest.viewOf grovePart entry (desk.read entry.source))), desk, []⟩ := by
    rw [view?_apply, hentry]
    rfl
  have hminLines := h.minLines_apply
  obtain ⟨-, -, hrenewed⟩ := drawable.refresh_renews hview
    (congrArg Outcome.result hminLines) hnumbered howned
  rw [hminLines] at hrenewed
  have hgrove : grovePart.get (Overlay.retract boardSite.overlay document desk).state =
      grovePart.get desk := congrArg Backstage.grove (retract_backstage document desk)
  change Sheet.Renewed document (desk.plugin.overlay.options.select
    (Label.gather (desk.read entry.source) settings.minLines (desk.plugin.catalog.kinds entry.key)
      ((Forest.viewOf grovePart entry (desk.read entry.source)).find
        (desk.plugin.catalog.kinds entry.key) _).result)) _ _ at hrenewed
  rw [hown.find_result halive _ hgrove, h.options, h.catalog] at hrenewed
  exact hrenewed

end Desk

end ClosingLabels
