import ClosingLabels.Proofs.Editing
import ClosingLabels.Proofs.Freshness

/-!
# What happens keeps labels up to date

Documents are opened and closed, their trees are made and replaced, and the settings
change. Each of these is followed by the refresh that it calls for: whoever gets a new tree
is told, and tells the overlay; and new settings lead to a refresh of every document with
labels. Only a change whose text cannot be parsed leaves labels behind, and it is reported.
-/

namespace ClosingLabels

open ClosingLabels.Action (Maintains)

/-- Settings that are read anew are remembered. -/
theorem SettingsStore.refresh_remembers (root : Option String) (store : SettingsStore) :
    ∃ settings, (refresh root store).result = .ok settings ∧
      (refresh root store).state.remembered = some (root, settings) := by
  obtain ⟨trace, happly⟩ := refresh_apply root store
  rw [happly]
  exact ⟨_, rfl, rfl⟩

namespace Workshop

variable {W C : Type} {workshop : Workshop W C} {outcome : Outcome (Workshop W C) Unit}

/-- How many trees were made, and which of them were deleted. -/
def grown (workshop : Workshop W C) : Nat × List Nat :=
  (workshop.trees, workshop.toolkit.deletedTrees)

/-- Loading neither makes nor deletes a tree. -/
theorem Took.grown {job : Job W} (h : Took workshop job outcome) :
    outcome.state.grown = workshop.grown := by
  cases h <;> rfl

theorem Sought.grown {resolve : Text → Option GrammarName} {key : Text} {waiter : W}
    (h : Sought resolve key waiter workshop outcome) : outcome.state.grown = workshop.grown := by
  cases h <;> rfl

theorem Completed.grown {asked : Request} (h : Completed workshop asked outcome) :
    outcome.state.grown = workshop.grown := by
  cases h <;> rfl

end Workshop

namespace Desk

open Switchboard

variable {settings : Settings} {buffers : List Buffer} {exempt : String → Prop}
  {past : List Event} {desk : Desk} {document : String} {entry : Entry Nat} {stage : Stage}

/-! ## Openings -/

/-- A document may be opened in a buffer that goes by its name. -/
theorem start_current {buffer : Nat} (hname : Named buffers buffer document)
    (resolve : Text → Option GrammarName) (language : Text) (caller : Caller) :
    Maintains (Current settings buffers exempt)
      (Forest.start grovePart resolve document buffer language caller) := by
  refine .bind (.gets _) fun grove => .bind (.adjust fun past desk h => ?_) fun _ => ?_
  · exact h.hold h.rooted rfl
  · refine workshop_current fun workshop h => ?_
    set opening : Opening Nat :=
      ⟨document, grove.forest.openings + 1, buffer, language, caller⟩
    have hwaiter : Waiter.Rooted buffers (.opening opening) := hname
    have hsought := Workshop.lookup_sought resolve language (.opening opening) workshop
    obtain ⟨htrees, hdeleted⟩ := Prod.mk.inj hsought.grown
    exact ⟨h.lookup hwaiter hsought, htrees, hdeleted⟩

/-- A buffer that is there may be opened. -/
theorem openTree_current {buffer : Nat} (hlt : buffer < buffers.length) (caller : Caller) :
    Maintains (Current settings buffers exempt) (openTree buffer caller) := by
  refine openTree_maintains fun past desk h => ?_
  obtain rfl := h.stays
  exact start_current (named_of_lt hlt) _ _ caller

theorem parseForCommand_current {buffer : Nat} (hlt : buffer < buffers.length) :
    Maintains (Current settings buffers exempt) (parseForCommand buffer) :=
  parseForCommand_maintains (openTree_current hlt _) push_current

theorem documentOpened_current {buffer : Nat} (hlt : buffer < buffers.length) :
    Maintains (Current settings buffers exempt) (documentOpened buffer) :=
  documentOpened_maintains (fun event _ => emit_current event) push_current settings_current
    fun _ _ _ => ⟨enable_current _, openTree_current hlt _⟩

theorem editorsShown_current (editors : List Editor) :
    Maintains (Current settings buffers exempt) (editorsShown editors) :=
  editorsShown_maintains paint_current editors

theorem runCommand_current (command : Command) :
    Maintains (Current settings buffers exempt) (runCommand command) := by
  intro past desk h
  refine runCommand_keeps (fun event _ => emit_current event) prepare_current disable_current
    (fun _ buffer hactive => ?_) h
  have hlt := h.rooted.front buffer hactive
  exact ⟨enable_current _, parseForCommand_current (h.stays ▸ hlt)⟩

/-! ## Trees -/

/-- A document whose entry changes is exempt for the time being. -/
theorem Current.enter (h : Current settings buffers exempt past desk) {grove : Grove Nat String}
    (hrooted : (grovePart.set grove desk).roots.Rooted)
    (hentries : grove.forest.entries = desk.plugin.forest.entries.insert document entry)
    (hcache : grove.forest.cache = desk.plugin.forest.cache) :
    Current settings buffers (fun other => exempt other ∨ other = document) past
      (grovePart.set grove desk) where
  good := h.good
  rooted := hrooted
  configured := ⟨h.configured.remembered, h.configured.catalog, h.configured.options⟩
  backed other hother := by
    change (grove.forest.entries.get? other).isSome
    rw [hentries, Table.get?_insert]
    split
    · rfl
    · exact h.backed other hother
  stays := h.stays
  fresh hsmooth other hother := by
    obtain ⟨hnot, hne⟩ := not_or.mp hother
    refine (h.fresh hsmooth other hnot).transfer id (fun found hget => ⟨?_, rfl⟩) rfl
      (fun text query hkept => ?_) rfl rfl
    · have hafter : grove.forest.entries.get? other = some found := hget
      rw [hentries, Table.get?_insert_of_ne _ _ hne] at hafter
      exact hafter
    · exact (congrArg (fun cache => cache.queries.get? text) hcache).trans hkept

/-- A document that gets a tree is exempt until its listeners are told. -/
theorem Current.plant (h : Current settings buffers exempt past desk)
    (hname : Named buffers entry.source document)
    (htree : entry.number = desk.roots.workshop.trees + 1) :
    Current settings buffers (fun other => exempt other ∨ other = document) past
      (grovePart.set (({ grovePart.get desk with
        workshop := (workshopPart.get desk).grow } : Grove Nat String).plant document entry)
        desk) := by
  refine h.enter ?_ rfl rfl
  obtain rfl := h.stays
  exact h.rooted.plant hname htree (h.waiting.of_eq rfl rfl rfl) rfl rfl

/-- Then it is not exempt any more. -/
theorem Current.renew (h : Current settings buffers exempt past desk)
    (hsound : boardSite.Seen hearing Stand.Sound past desk)
    (hname : Named buffers entry.source document)
    (htree : entry.number = desk.roots.workshop.trees + 1) (trigger : Trigger) :
    let grove : Grove Nat String :=
      { grovePart.get desk with workshop := (workshopPart.get desk).grow }
    let done := Forest.announce ground trigger document
      (grovePart.set (grove.plant document entry) desk)
    Current settings buffers (fun other => exempt other ∧ other ≠ document) (past ++ done.trace)
      done.state := by
  intro grove done
  refine ((h.plant hname htree).announce hsound trigger document).narrow ?_
  rintro other ⟨hold | hsame, hne⟩
  · exact Or.inl ⟨hold, hne⟩
  · exact absurd hsame hne

/-- So is a document whose tree was told of changes. -/
theorem Current.tell (h : Current settings buffers exempt past desk)
    (hentry : desk.plugin.forest.entries.get? document = some entry) (changes : List Change) :
    Current settings buffers (fun other => exempt other ∨ other = document) past
      (grovePart.set ((grovePart.get desk).tell document entry changes) desk) :=
  h.enter (h.rooted.tell hentry _) rfl rfl

/-- A document without labels may be closed. -/
theorem Current.close (h : Current settings buffers exempt past desk)
    (huntracked : desk.plugin.overlay.tracks document = false) :
    let done := Forest.close grovePart document desk
    Current settings buffers exempt (past ++ done.trace) done.state := by
  intro done
  have hdone : done = _ := Forest.close_eq grovePart document desk
  rw [hdone]
  refine ⟨h.good, ?_, ⟨h.configured.remembered, h.configured.catalog, h.configured.options⟩,
    fun other hother => ?_, fun hsmooth other hother => ?_, h.stays⟩
  · exact h.rooted.uproot document (h.rooted.waiting.of_eq rfl rfl rfl) rfl rfl
  · have hne : other ≠ document := by
      rintro rfl
      rw [show desk.plugin.overlay.tracks other = true from hother] at huntracked
      cases huntracked
    change ((desk.plugin.forest.entries.erase document).get? other).isSome
    rw [Table.get?_erase_of_ne _ hne]
    exact h.backed other hother
  · refine (h.fresh hsmooth.of_append other hother).transfer id (fun _ hget => ⟨?_, rfl⟩) rfl
      (fun _ _ => id) rfl rfl
    have herase : (desk.plugin.forest.entries.erase document).get? other = some _ := hget
    rw [Table.get?_erase] at herase
    split at herase
    · cases herase
    · exact herase

/-- A document that is closed has no labels by the time its tree is deleted. -/
theorem documentClosed_current (hordered : Ordered (fun _ => False) stage past desk)
    (h : Current settings buffers exempt past desk) (buffer : Option Nat) :
    let done := documentClosed buffer desk
    Current settings buffers exempt (past ++ done.trace) done.state := by
  intro done
  change Current settings buffers exempt (past ++ (documentClosed buffer desk).trace)
    (documentClosed buffer desk).state
  rw [documentClosed, Action.bind_of_quiet (Action.get_apply _)]
  cases hfound : desk.bench.screen.bufferOf buffer with
  | error fault =>
    rw [Action.bind_of_error (Action.ofExcept_apply _ _), List.append_nil]
    exact h
  | ok found =>
    rw [Action.bind_of_quiet (Action.ofExcept_apply _ _)]
    have hdisabled := disable_current found.uri past desk h
    obtain ⟨hsound, -⟩ := disable_ordered found.uri past desk hordered
    have hboard := tidy.disable_board found.uri found.uri desk
    rcases hrun : Switchboard.disable boardSite found.uri desk with ⟨fault | done, after, trace⟩
    · rw [Action.bind_of_error hrun]
      rwa [hrun] at hdisabled
    · rw [hrun] at hdisabled hsound hboard
      have huntracked : after.plugin.overlay.tracks found.uri = false := by
        refine Bool.eq_false_iff.mpr fun htracks => ?_
        have hon : (boardSite.part.get after).isOn found.uri = true := hsound.lit _ htracks
        rw [hboard] at hon
        simp at hon
      rw [Action.bind_of_ok hrun]
      dsimp only
      rw [← List.append_assoc]
      exact hdisabled.close huntracked

/-- An opening gives its document a tree, and then its listeners are told. -/
theorem resume_current (hsound : boardSite.Seen hearing Stand.Sound past desk)
    (h : Current settings buffers exempt past desk) {opening : Opening Nat}
    (hname : Named buffers opening.source opening.document)
    (answer : Answer) :
    let done := Forest.resume ground opening answer desk
    Current settings buffers exempt (past ++ done.trace) done.state := by
  intro done
  have hsettled {trace : List Event} : Current settings buffers exempt (past ++ trace)
      (grovePart.set ((grovePart.get desk).settle opening.document) desk) := h.step h.rooted rfl
  have hresumed := Forest.resume_resumed ground opening answer desk
  change Forest.Resumed ground opening desk answer done at hresumed
  generalize done = outcome at hresumed
  cases hresumed with
  | rejected fault => exact h.step h.rooted rfl
  | stale found hstale => exact h.step h.rooted rfl
  | unavailable hlatest => exact hsettled
  | unparsed hlatest hsettle hparse hparser =>
    subst hsettle
    exact hsettled
  | @stored settled planted language tree trace hlatest hsettle htree hparse hparser hplanted =>
    subst hsettle hplanted
    have hsettled : Current settings buffers exempt past
        (grovePart.set ((grovePart.get desk).settle opening.document) desk) :=
      h.hold h.rooted rfl
    set entry : Entry Nat := { tree, language, source := opening.source, key := opening.language }
    have hnumber : entry.number = desk.roots.workshop.trees + 1 := by
      change tree.number = _
      rw [htree]
      rfl
    refine Current.later ((hsettled.renew hsound hname hnumber .parsed).narrow
      fun other hother => Or.inl hother.1) ?_
    refine (List.Sublist.append_left ?_ past).subset
    exact (List.sublist_cons_self _ _).trans (List.sublist_append_right _ _)

/-- A change gives its document a new tree, and then its listeners are told. That the new text
cannot be parsed is reported. -/
theorem documentChanged_current (hsound : boardSite.Seen hearing Stand.Sound past desk)
    (h : Current settings buffers exempt past desk) {number : Nat}
    (hname : Named buffers number document) (changes : List Change) :
    let done := documentChanged (some number) changes desk
    Current settings buffers (fun other => exempt other ∧ (changes ≠ [] → other ≠ document))
      (past ++ done.trace) done.state := by
  intro done
  obtain rfl : (desk.bench.screen.buffer number).uri = document := by
    obtain rfl := h.stays
    exact (named_of_lt hname.lt).unique hname
  set document := (desk.bench.screen.buffer number).uri
  obtain ⟨rest, -, hdone, hreported⟩ := documentChanged_apply number changes desk
  rw [show done = _ from hdone]
  have hupdated := Forest.update_updated ground document number changes desk
  generalize Forest.update ground document number changes desk = outcome at hupdated hreported
  cases hupdated with
  | absent hentry =>
    refine (h.step h.rooted rfl).narrow fun other hother => ?_
    by_cases hsame : other = document
    · exact Or.inr (Or.inr (hsame ▸ hentry))
    · exact Or.inl ⟨hother, fun _ => hsame⟩
  | idle hnone =>
    exact (h.step h.rooted rfl).narrow fun other hother => Or.inl ⟨hother, absurd hnone⟩
  | @unparsed entry told fault trace hchanges hentry htold hparse hparser =>
    subst htold
    have htold := h.tell hentry changes
    have hfailed : Event.error .documentChange (some fault) ∈
        past ++ (Forest.editing entry.tree changes ++ trace ++ rest) :=
      List.mem_append_right _ (List.mem_append_right _ (hreported fault rfl))
    exact (htold.step htold.rooted rfl).of_failed hfailed _
  | @replaced entry told planted tree trace hchanges hentry htold htree hparse hparser hplanted =>
    subst htold hplanted
    set renewed : Entry Nat := { entry with tree, source := number, told := [] }
    have hnumber : renewed.number = desk.roots.workshop.trees + 1 := by
      change tree.number = _
      rw [htree]
      rfl
    have hrenewed := (h.tell hentry changes).renew hsound hname hnumber .changed
    refine Current.later (hrenewed.narrow ?_) ?_
    · rintro other ⟨hold | hsame, hne⟩
      · exact Or.inl ⟨hold, fun _ => hne⟩
      · exact absurd hsame hne
    · refine (List.Sublist.append_left ?_ past).subset
      refine List.Sublist.trans ?_ (List.sublist_append_left _ rest)
      refine List.Sublist.trans ?_ (List.sublist_append_right _ _)
      exact (List.sublist_cons_self _ _).trans (List.sublist_append_right _ _)

/-! ## Settings -/

/-- The desk under other settings, with nothing left that depended on those before. -/
def under (desk : Desk) (store : SettingsStore) (settings : Settings) : Desk :=
  let grove := grovePart.get desk
  let forgetful : Grove Nat String :=
    { grove with workshop := grove.workshop.withGrammars grove.workshop.grammars.reset }
  grovePart.set forgetful.clear
    { desk with
      bench := { desk.bench with store }
      plugin := { desk.plugin with
        catalog := settings.catalog
        overlay := { desk.plugin.overlay with options := settings.overlayOptions } } }

/-- What is done when other settings are in force: documents with labels are redrawn, and those of
them that the editor has open are parsed. -/
def catchUp : Action Desk Unit := do
  Switchboard.redrawAll boardSite
  let desk ← Action.get
  Action.each (desk.bench.documents.rows.filter fun row => desk.plugin.board.isOn row.1) fun row =>
    parseForCommand row.2

/-- When the settings change, they are read, and everything is redrawn under them. -/
theorem settingsChanged_apply (h : desk.Configured settings) :
    ∃ store fresh trace, store.remembered = some (desk.bench.workspace, fresh) ∧
      let done := catchUp (desk.under store fresh)
      settingsChanged desk = ⟨done.result, done.state, trace ++ done.trace⟩ := by
  obtain ⟨fresh, hresult, hremembered⟩ :=
    SettingsStore.refresh_remembers desk.bench.workspace desk.bench.store
  set store := (SettingsStore.refresh desk.bench.workspace desk.bench.store).state
  have hload : Action.zoom storePart (SettingsStore.refresh desk.bench.workspace) desk =
      ⟨.ok fresh, storePart.set store desk, _⟩ := Action.eq_of_result hresult
  have hcatalog : desk.plugin.catalog.reload fresh.targets fresh.grammars = fresh.catalog := by
    rw [h.catalog]
    rfl
  have hreload : Catalog.reloadIn catalogPart fresh.targets fresh.grammars
      (storePart.set store desk) =
      ⟨.ok (), catalogPart.set fresh.catalog (storePart.set store desk),
        [.log fresh.catalog.notice]⟩ := by
    rw [← hcatalog]
    rfl
  have hoptions : Overlay.setOptions overlaySite fresh.overlayOptions
      (catalogPart.set fresh.catalog (storePart.set store desk)) = ⟨.ok (), _, []⟩ :=
    Action.adjust_apply _ _ _
  have hforget (now : Desk) : Action.zoom workshopPart Workshop.forgetLanguages now =
      ⟨.ok (), workshopPart.set ((workshopPart.get now).withGrammars
        (workshopPart.get now).grammars.reset) now, []⟩ := rfl
  refine ⟨store, fresh, [.log .settingsChanged] ++
    ((Action.zoom storePart (SettingsStore.refresh desk.bench.workspace) desk).trace ++
      ([.log fresh.catalog.notice] ++ (grovePart.get desk).clearing)), hremembered, ?_⟩
  rw [settingsChanged, Action.bind_of_ok (Action.log_apply _ _),
    Action.bind_of_quiet (Action.get_apply _), Action.bind_of_ok hload, Action.bind_of_ok hreload,
    Action.bind_of_quiet hoptions, Action.bind_of_quiet (hforget _),
    Action.bind_of_ok (Forest.resetPatterns_apply _ _)]
  simp only [List.append_assoc]
  rfl

/-- Under other settings everything is exempt. -/
theorem Current.under (h : Current settings buffers exempt past desk) {store : SettingsStore}
    {fresh : Settings} (hremembered : store.remembered = some (desk.bench.workspace, fresh)) :
    Current fresh buffers (fun _ => True) past (desk.under store fresh) where
  good := ⟨h.good.1, ⟨h.good.2.1.handles, h.good.2.1.apart⟩, trivial⟩
  rooted := h.rooted.withWorkshop (h.rooted.waiting.of_eq rfl rfl rfl) rfl rfl
  configured := ⟨hremembered, rfl, rfl⟩
  backed := h.backed
  fresh _ _ hnot := absurd trivial hnot
  stays := h.stays

/-- Documents are not exempt any more once they were refreshed. -/
theorem Current.refreshEach (documents : List String)
    (h : Current settings buffers exempt past desk) :
    let done := Action.each documents (Switchboard.refresh boardSite) desk
    Current settings buffers (fun other => exempt other ∧ other ∉ documents)
      (past ++ done.trace) done.state := by
  intro done
  induction documents generalizing exempt past desk with
  | nil =>
    refine Current.narrow (h.later (List.subset_append_left _ _)) fun other hother => ?_
    exact Or.inl ⟨hother, List.not_mem_nil⟩
  | cons first rest ih =>
    have hfirst := h.refresh first
    have hresult := tidy.refresh_result first desk
    change Current settings buffers _
      (past ++ (Action.each (first :: rest) (Switchboard.refresh boardSite) desk).trace)
      (Action.each (first :: rest) (Switchboard.refresh boardSite) desk).state
    rw [Action.each, Action.bind_of_ok (Action.eq_of_result hresult)]
    dsimp only
    rw [← List.append_assoc]
    refine (ih hfirst).narrow fun other hother => Or.inl ⟨hother.1.1, ?_⟩
    exact List.not_mem_cons_of_ne_of_not_mem hother.1.2 hother.2

/-- No document is exempt any more once everything was redrawn: those that were not refreshed have
their labels off. -/
theorem Current.redrawAll (h : Current settings buffers exempt past desk)
    (fewer : String → Prop) :
    let done := Switchboard.redrawAll boardSite desk
    Current settings buffers fewer (past ++ done.trace) done.state := by
  intro done
  have heach := h.refreshEach desk.plugin.board.documents
  have hboard := tidy.refreshEach_board desk.plugin.board.documents id desk
  refine heach.narrow fun document hdocument => Or.inr (Or.inl ?_)
  refine Bool.eq_false_iff.mpr fun hon => hdocument.2 ?_
  have hbefore : (boardSite.part.get desk).isOn document = true := hboard ▸ hon
  exact (Table.mem_keys_iff _ _).mpr hbefore

/-- A change of the settings leaves every document up to date under the new ones. -/
theorem settingsChanged_current (h : Current settings buffers exempt past desk) :
    let done := settingsChanged desk
    ∃ fresh, Current fresh buffers exempt (past ++ done.trace) done.state := by
  intro done
  obtain ⟨store, fresh, trace, hremembered, hdone⟩ := settingsChanged_apply h.configured
  rw [show done = _ from hdone]
  refine ⟨fresh, ?_⟩
  dsimp only
  rw [catchUp, Action.bind_of_ok (Action.eq_of_result (tidy.redrawAll_result _)),
    Action.bind_of_quiet (Action.get_apply _), ← List.append_assoc, ← List.append_assoc]
  have hunder := (h.under hremembered).later (List.subset_append_left past trace)
  have hredrawn := hunder.redrawAll exempt
  refine Maintains.each (fun row hrow => ?_) _ _ hredrawn
  have hlisted := hredrawn.rooted.listed row (List.mem_of_mem_filter hrow)
  obtain rfl := hredrawn.stays
  exact parseForCommand_current hlisted.lt

/-! ## Tasks and requests -/

/-- A task goes on with loading, with an opening, or with what is left to do then. -/
theorem perform_current (hsound : boardSite.Seen hearing Stand.Sound past desk)
    (h : Current settings buffers exempt past desk) {task : Task (Waiter Nat) (Work Nat)}
    (hwaiter : ∀ waiter ∈ task.waiter, Waiter.Rooted buffers waiter) :
    Current settings buffers exempt (past ++ (perform task desk).trace)
      (perform task desk).state := by
  match task with
  | .job job =>
    refine workshop_current (fun workshop hworkshop => ?_) past desk h
    have htook := Workshop.perform_took job workshop
    obtain ⟨htrees, hdeleted⟩ := Prod.mk.inj htook.grown
    exact ⟨hworkshop.perform hwaiter htook, htrees, hdeleted⟩
  | .deliver (.bare name) answer => exact Maintains.pure () past desk h
  | .deliver (.opening opening) answer =>
    have hname : Waiter.Rooted buffers (.opening opening) := hwaiter _ rfl
    have hresumed := resume_current hsound h hname answer
    rw [perform, Action.bind_of_ok (Action.attempt_apply _ _)]
    dsimp only
    rw [← List.append_assoc]
    exact push_current _ _ _ hresumed
  | .client work =>
    exact client_maintains (fun event _ => emit_current event) push_current work past desk h

/-- So does the end of a request. -/
theorem complete_current (asked : Request) :
    Maintains (Current settings buffers exempt)
      (Action.zoom workshopPart (Workshop.complete asked)) := by
  refine workshop_current fun workshop hworkshop => ?_
  have hcompleted := Workshop.complete_completed asked workshop
  obtain ⟨htrees, hdeleted⟩ := Prod.mk.inj hcompleted.grown
  exact ⟨hworkshop.complete hcompleted, htrees, hdeleted⟩

end Desk

end ClosingLabels
