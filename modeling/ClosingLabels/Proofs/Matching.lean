import ClosingLabels.Proofs.Handling
import ClosingLabels.Proofs.Lifetime
import ClosingLabels.Proofs.Shelf

/-!
# Trees are searched by queries of their own language

A query may search only trees of the language that compiled it. The plugin keeps to this
in every run in which the settings never change while a tree of the language is left. When
one is left, redrawing it compiles a query by the language it was parsed with, and that
query will search the trees that are parsed with the language loaded next.
-/

namespace ClosingLabels

open ClosingLabels.Action (Maintains Keeping Leads)

/-! ## Conditions on a desk -/

namespace Desk

variable {key : Text} {past : List Event} {desk : Desk}

/-- What the searches of a plugin depend on. -/
def shelf (desk : Desk) : Shelf :=
  ⟨desk.core.grove.workshop, desk.core.buffers, desk.core.grove.forest.entries,
    desk.core.grove.forest.cache.queries⟩

/-- Something holds of the shelf, and nothing was searched so far. -/
def Quietly (holds : Shelf → Prop) (past : List Event) (desk : Desk) : Prop :=
  holds desk.shelf ∧ searches past = []

/-- One name leads to one language, and every tree that was searched so far was searched by a
query of its own language. -/
def Matches (key : Text) (past : List Event) (desk : Desk) : Prop :=
  desk.shelf.Fit key ∧ ∀ search ∈ searches past, desk.shelf.Paired key search.1 search.2

/-- Where nothing was searched, nothing was searched by another query. -/
theorem Quietly.matches (h : Quietly (Shelf.Fit key) past desk) : Matches key past desk := by
  refine ⟨h.1, fun search hsearch => ?_⟩
  rw [h.2] at hsearch
  cases hsearch

/-- The shelf may change while nothing is searched. -/
theorem Quietly.step {holds later : Shelf → Prop} (h : Quietly holds past desk)
    {trace : List Event} {after : Desk} (hlater : later after.shelf)
    (hsilent : searches trace = []) : Quietly later (past ++ trace) after := by
  refine ⟨hlater, ?_⟩
  rw [searches_append, h.2, hsilent]
  rfl

/-- So it may when trees were searched before, as long as entries and queries stay. -/
theorem Matches.step (h : Matches key past desk) {trace : List Event} {after : Desk}
    (hfit : after.shelf.Fit key) (hentries : after.shelf.entries = desk.shelf.entries)
    (hqueries : after.shelf.queries = desk.shelf.queries) (hsilent : searches trace = []) :
    Matches key (past ++ trace) after := by
  refine ⟨hfit, fun search hsearch => ?_⟩
  rw [searches_append, hsilent, List.append_nil] at hsearch
  rw [Shelf.Paired, hentries, hqueries]
  exact h.2 search hsearch

theorem calm_quietly (holds : Shelf → Prop) : Calm (Quietly holds) := by
  intro past trace desk after hdesk hcore hidle
  refine hdesk.step ?_ (searches_idle hidle)
  rw [shelf, hcore]
  exact hdesk.1

theorem calm_matches : Calm (Matches key) := by
  intro past trace desk after hdesk hcore hidle
  have hshelf : after.shelf = desk.shelf := by rw [shelf, hcore]; rfl
  exact hdesk.step (hshelf ▸ hdesk.1) (by rw [hshelf]) (by rw [hshelf]) (searches_idle hidle)

/-- Searching the tree of an entry runs the query that is kept for it. -/
theorem find_matches {document : String} {entry : Entry Nat} (kinds : List Text)
    (hentry : desk.plugin.forest.entries.get? document = some entry)
    (hdesk : Matches key past desk) :
    let done := Action.zoom grovePart
      (PatternCache.find Grove.cacheSite entry.key entry.language entry.tree kinds) desk
    Matches key (past ++ done.trace) done.state := by
  have hsearched := PatternCache.find_searched entry.key entry.language entry.tree kinds
    (grovePart.get desk)
  dsimp only
  rw [Action.zoom_apply]
  generalize PatternCache.find Grove.cacheSite entry.key entry.language entry.tree kinds
    (grovePart.get desk) = outcome at hsearched
  cases hsearched with
  | @kept query result hkept =>
    refine ⟨hdesk.1, fun search hsearch => ?_⟩
    rcases List.mem_append.mp (searches_append _ _ ▸ hsearch) with hold | hnew
    · exact hdesk.2 search hold
    · obtain rfl := List.mem_singleton.mp hnew
      exact hdesk.1.paired hentry hkept
  | @compiled query pattern result hnew hquery =>
    set text := PatternCache.keyOf entry.key kinds
    have hfits : query.Fits key desk.shelf.languages text :=
      ⟨entry.key, kinds, rfl, hquery ▸ (hdesk.1.entries document entry hentry).knows⟩
    have hfit := (hdesk.1.keep hfits).withToolkit
      { desk.bench.toolkit with queries := desk.bench.toolkit.queries + 1 }
    refine ⟨hfit, fun search hsearch => ?_⟩
    rcases List.mem_append.mp (searches_append _ _ ▸ hsearch) with hold | hlast
    · -- The query is kept where there was none, so what was kept before is kept still.
      obtain ⟨other, found, others, compiled, hfound, htree, hkept, hnumber, hsame⟩ :=
        hdesk.2 search hold
      have hne : PatternCache.keyOf found.key others ≠ text := by
        intro heq
        cases hnew.symm.trans (heq ▸ hkept)
      exact ⟨other, found, others, compiled, hfound, htree,
        (Table.get?_insert_of_ne _ _ hne).trans hkept, hnumber, hsame⟩
    · obtain rfl := List.mem_singleton.mp hlast
      exact hfit.paired hentry (Table.get?_insert_self _ _ _)
  | failed reported hidle => exact hdesk.step hdesk.1 rfl rfl (searches_idle hidle)

theorem refresh_matches (document : String) :
    Maintains (Matches key) (Switchboard.refresh boardSite document) :=
  calm_matches.refresh fun _ kinds _ _ hentry hdesk => find_matches kinds hentry hdesk

theorem announce_matches (trigger : Trigger) (document : String) :
    Maintains (Matches key) (Forest.announce ground trigger document) :=
  calm_matches.announce refresh_matches trigger document

/-- Going on with an opening is fine if the answer is the language known under its name. -/
theorem resume_matches (hdesk : Quietly (Shelf.Fit key) past desk) (opening : Opening Nat)
    (answer : Answer)
    (hknows : ∀ language, answer = .ok (some language) →
      Knows key desk.shelf.languages opening.language language) :
    Matches key (past ++ (Forest.resume ground opening answer desk).trace)
      (Forest.resume ground opening answer desk).state := by
  have hresumed := Forest.resume_resumed ground opening answer desk
  generalize Forest.resume ground opening answer desk = outcome at hresumed
  cases hresumed with
  | rejected fault => exact (hdesk.step hdesk.1 rfl).matches
  | stale found hstale => exact (hdesk.step hdesk.1 rfl).matches
  | unavailable hlatest => exact (hdesk.step hdesk.1 rfl).matches
  | unparsed hlatest hsettled hparse hparser =>
    subst hsettled
    exact (hdesk.step hdesk.1 (searches_parsing hparser)).matches
  | @stored settled planted language tree trace hlatest hsettled htree hparse hparser hplanted =>
    have hentry : Entry.Fits key desk.shelf.languages
        { tree, language, source := opening.source, key := opening.language } :=
      ⟨hknows language rfl, by rw [htree]⟩
    have hfit : planted.shelf.Fit key := by
      rw [hplanted]
      exact (hdesk.1.plant opening.document hentry).withToolkit _
    have hstored : Quietly (Shelf.Fit key) (past ++ (trace ++
        (ground.part.get desk).deletions opening.document ++
          [.log (.parsed opening.document opening.language)])) planted := by
      refine hdesk.step hfit ?_
      rw [searches_append, searches_append, searches_parsing hparser, searches_deletions]
      rfl
    have htold := announce_matches .parsed opening.document _ _ hstored.matches
    simpa [List.append_assoc] using htold

/-- Bringing a document up to date parses it in the language it had. -/
theorem update_matches (document : String) (buffer : Nat) (changes : List Change) :
    Leads (Quietly (Shelf.Fit key)) (Matches key)
      (Forest.update ground document buffer changes) := by
  intro past desk hdesk
  have hupdated := Forest.update_updated ground document buffer changes desk
  generalize Forest.update ground document buffer changes desk = outcome at hupdated
  cases hupdated with
  | absent hentry => exact (hdesk.step hdesk.1 rfl).matches
  | idle hchanges => exact (hdesk.step hdesk.1 rfl).matches
  | @unparsed entry told fault trace hchanges hentry htold hparse hparser =>
    obtain ⟨hknows, hparsed⟩ := hdesk.1.entries document entry hentry
    have hfit : told.shelf.Fit key := by
      rw [htold]
      exact hdesk.1.plant document ⟨hknows, hparsed⟩
    refine (hdesk.step hfit ?_).matches
    rw [searches_append, searches_editing, searches_parsing hparser]
    rfl
  | @replaced entry told planted tree trace hchanges hentry htold htree hparse hparser hplanted =>
    obtain ⟨hknows, hparsed⟩ := hdesk.1.entries document entry hentry
    have htoldFits : Entry.Fits key desk.shelf.languages
        { entry with told := entry.told ++ changes } := ⟨hknows, hparsed⟩
    have hnewFits : Entry.Fits key desk.shelf.languages
        { entry with tree, source := buffer, told := [] } := ⟨hknows, by rw [htree]⟩
    have hfit : planted.shelf.Fit key := by
      rw [hplanted]
      exact ((hdesk.1.plant document htoldFits).plant document hnewFits).withToolkit _
    have hstored : Quietly (Shelf.Fit key) (past ++ (Forest.editing entry.tree changes ++
        (trace ++ [.treeDeleted entry.tree.number]))) planted := by
      refine hdesk.step hfit ?_
      rw [searches_append, searches_append, searches_editing, searches_parsing hparser]
      rfl
    have htold := announce_matches .changed document _ _ hstored.matches
    simpa [List.append_assoc] using htold

/-! ## What the plugin does -/

/-- Loading may go on as long as it loses no language. -/
theorem Matches.withWorkshop (h : Matches key past desk) {trace : List Event} {after : Desk}
    {workshop : Workshop (Waiter Nat) (Work Nat)}
    (hafter : after.shelf = { desk.shelf with workshop }) (hsteady : workshop.Steady key)
    (hgrow : ∀ language, desk.shelf.languages.get? key = some language →
      workshop.grammars.languages.get? key = some language)
    (hidle : ∀ event ∈ trace, event.Idle) : Matches key (past ++ trace) after :=
  h.step (hafter ▸ h.1.withWorkshop hsteady hgrow) (by rw [hafter]) (by rw [hafter])
    (searches_idle hidle)

theorem push_matches (work : Work Nat) : Maintains (Matches key) (push work) := by
  intro past desk hdesk
  refine hdesk.withWorkshop rfl (hdesk.1.steady.push work) (fun _ => id) ?_
  simp [push, Workshop.push_apply]

/-- A language with a plain name may be looked up for an opening. -/
theorem start_matches (resolve : Text → Option GrammarName) (document : String) (buffer : Nat)
    {language : Text} (hplain : 0 ∉ language) (caller : Caller) :
    Maintains (Matches key)
      (Forest.start grovePart resolve document buffer language caller) := by
  intro past desk hdesk
  set opening : Opening Nat :=
    ⟨document, desk.plugin.forest.openings + 1, buffer, language, caller⟩
  have hsought := Workshop.lookup_sought resolve opening.language (.opening opening)
    desk.shelf.workshop
  obtain ⟨hsteady, hgrow⟩ := hdesk.1.steady.lookup hplain hsought
  unfold Forest.start
  rw [Action.bind_of_quiet (Action.look_apply _ _),
    Action.bind_of_quiet (Forest.edit_apply _ _ _)]
  refine hdesk.withWorkshop rfl hsteady hgrow ?_
  exact (Workshop.lookup_idle resolve language (Waiter.opening opening)).trace _

/-- The languages of documents have plain names. -/
theorem openTree_matches (buffer : Nat) (caller : Caller) :
    Maintains (Matches key) (openTree buffer caller) := by
  refine openTree_maintains fun past desk hdesk => start_matches _ _ buffer ?_ caller
  unfold Screen.buffer
  cases hget : desk.bench.screen.buffers[buffer]? with
  | none => simp [Text.ofString]
  | some found => exact hdesk.1.plain found (List.mem_of_getElem? hget)

theorem parseForCommand_matches (buffer : Nat) :
    Maintains (Matches key) (parseForCommand buffer) :=
  parseForCommand_maintains (openTree_matches buffer .command) push_matches

theorem enable_matches (document : String) :
    Maintains (Matches key) (Switchboard.enable boardSite document) :=
  calm_matches.enable (refresh_matches document)

theorem documentOpened_matches (buffer : Nat) :
    Maintains (Matches key) (documentOpened buffer) :=
  documentOpened_maintains (fun _ h => calm_matches.emit h.idle) push_matches
    (calm_matches.maintains settings_idle) fun _ _ _ =>
      ⟨enable_matches _, openTree_matches _ _⟩

theorem documentChanged_matches (buffer : Option Nat) (changes : List Change) :
    Leads (Quietly (Shelf.Fit key)) (Matches key) (documentChanged buffer changes) := by
  refine .rescue ?_ fun fault => calm_matches.emit rfl
  refine (Maintains.gets _).leads.bind (fun desk => ?_) fun _ _ => Quietly.matches
  refine (Maintains.ofOption _ _).leads.bind (fun buffer => ?_) fun _ _ => Quietly.matches
  dsimp only
  split
  · exact update_matches _ _ _
  · exact (Maintains.pure ()).leads.mono fun _ _ => Quietly.matches

theorem editorsShown_matches (editors : List Editor) :
    Maintains (Matches key) (editorsShown editors) :=
  editorsShown_maintains
    (fun editor => calm_matches.maintains (zoomDisplay_idle (Display.paint_leaves editor))) editors

theorem runCommand_matches (command : Command) :
    Maintains (Matches key) (runCommand command) := by
  intro past desk hdesk
  refine runCommand_keeps (fun _ h => calm_matches.emit h.idle) (fun root => ?_) calm_matches.disable
    (fun _ buffer _ => ⟨enable_matches _, parseForCommand_matches buffer⟩) hdesk
  exact calm_matches.maintains
    (zoomStore_idle ((SettingsStore.prepare_leaves root).of_view fun _ => ()))

/-- Documents may be closed while nothing is searched. -/
theorem close_quietly {holds : Shelf → Prop}
    (hholds : ∀ shelf toolkit document, holds shelf → holds
      { shelf with
        workshop := { shelf.workshop with toolkit }
        entries := shelf.entries.erase document }) (document : String) :
    Maintains (Quietly holds) (Forest.close grovePart document) := by
  intro past desk hdesk
  rw [Forest.close_eq]
  exact hdesk.step (hholds desk.shelf _ document hdesk.1) (searches_deletions _ _)

theorem documentClosed_quietly (buffer : Option Nat) :
    Maintains (Quietly (Shelf.Fit key)) (documentClosed buffer) := by
  refine .bind (.gets _) fun desk => .bind (.ofExcept _) fun found => ?_
  refine .bind ((calm_quietly _).disable _) fun _ => ?_
  exact close_quietly (fun _ toolkit document hfit => (hfit.erase document).withToolkit toolkit) _

/-- Languages and queries may be dropped together. -/
theorem forget_quietly {α : Type} {after : List Event → Desk → Prop} {rest : Action Desk α}
    (hrest : Leads (Quietly (Shelf.Fit key)) after rest) :
    Leads (Quietly (Shelf.Forgettable key)) after (do
      Action.zoom workshopPart Workshop.forgetLanguages
      Forest.resetPatterns grovePart
      rest) := by
  intro past desk hdesk
  set forgotten := workshopPart.set
    (desk.shelf.workshop.withGrammars desk.shelf.workshop.grammars.reset) desk
  have hforget : Action.zoom workshopPart Workshop.forgetLanguages desk =
      ⟨.ok (), forgotten, []⟩ := rfl
  rw [Action.bind_of_quiet hforget, Action.bind_of_ok (Forest.resetPatterns_apply _ _)]
  dsimp only
  rw [← List.append_assoc]
  refine hrest _ _ (hdesk.step ?_ (searches_clearing _))
  exact hdesk.1.forget desk.shelf.workshop.grammars.reset rfl rfl rfl (fun _ => id) _

/-- When the settings change, languages and queries are dropped before anything is redrawn. -/
theorem settingsChanged_matches :
    Leads (Quietly (Shelf.Forgettable key)) (Matches key) settingsChanged := by
  have hcalm := calm_quietly (Shelf.Forgettable key)
  have hfits (past : List Event) (desk : Desk) (h : Quietly (Shelf.Forgettable key) past desk) :
      Matches key past desk := Quietly.matches ⟨h.1.toFit, h.2⟩
  have hlog (notice : Notice) : Maintains (Quietly (Shelf.Forgettable key)) (Action.log notice) :=
    hcalm.emit rfl
  have hreload (settings : Settings) : Maintains (Quietly (Shelf.Forgettable key))
      (Catalog.reloadIn catalogPart settings.targets settings.grammars) := by
    refine .bind (hcalm.maintains fun _ => Keeping.adjust (fun _ _ => rfl) _) fun _ => ?_
    exact .bind (.gets _) fun catalog => hlog _
  have hredraw : Maintains (Matches key) (do
      Switchboard.redrawAll boardSite
      let desk ← Action.get
      Action.each (desk.bench.documents.rows.filter fun row => desk.plugin.board.isOn row.1)
        fun row => parseForCommand row.2) := by
    refine .bind (.bind (.gets _) fun _ => .each fun document _ => refresh_matches document) ?_
    exact fun _ => .bind (.gets _) fun desk => .each fun row _ => parseForCommand_matches _
  unfold settingsChanged
  refine (hlog _).leads.bind (fun _ => ?_) hfits
  refine (Maintains.gets _).leads.bind (fun desk => ?_) hfits
  refine (hcalm.maintains
    (zoomStore_idle (SettingsStore.refresh_leaves _))).leads.bind (fun settings => ?_) hfits
  refine (hreload settings).leads.bind (fun _ => ?_) hfits
  refine (hcalm.discreet.adjust _).leads.bind (fun _ => ?_) hfits
  exact forget_quietly fun past desk hdesk => hredraw past desk hdesk.matches

/-- Taking a forest down leaves neither trees nor queries. -/
theorem disposeForest_quietly :
    Leads (Quietly (Shelf.Resting key))
      (Quietly fun shelf => shelf.Forgettable key ∧ shelf.queries = .empty)
      (Forest.dispose grovePart) := by
  intro past desk hdesk
  obtain ⟨closed, trace, hclosed, hnone⟩ := Forest.closeEvery_apply grovePart desk
  have hmaintains : Maintains (Quietly (Shelf.Resting key))
      (Action.each (grovePart.get desk).forest.entries.keys (Forest.close grovePart)) := by
    refine .each fun document _ => close_quietly (fun shelf toolkit document hshelf => ?_) document
    exact ⟨(hshelf.erase document).withToolkit toolkit, hshelf.tasks⟩
  have hquiet := hmaintains past desk hdesk
  rw [hclosed] at hquiet
  unfold Forest.dispose
  rw [Action.bind_of_quiet (Action.look_apply _ _), Action.bind_of_ok hclosed,
    Action.bind_of_quiet (Forest.edit_apply _ _ _), Forest.resetPatterns_apply]
  dsimp only
  rw [← List.append_assoc]
  refine hquiet.step ⟨⟨⟨?_, hquiet.1.tasks⟩, fun document entry hget => ?_⟩, rfl⟩
    (searches_clearing _)
  · exact hquiet.1.clear _
  · cases (hnone document).symm.trans hget

/-- Where there are neither trees nor queries, the grammars may be taken down. -/
theorem disposeGrammars_quietly :
    Leads (Quietly fun shelf => shelf.Forgettable key ∧ shelf.queries = .empty)
      (Quietly (Shelf.Fit key)) disposeGrammars := by
  intro past desk hdesk
  obtain ⟨deletedParsers, hdispose⟩ := Workshop.dispose_apply desk.shelf.workshop
  have hshelf : (disposeGrammars desk).state.shelf =
      { desk.shelf with workshop := (Workshop.dispose desk.shelf.workshop).state } := rfl
  have hfit := hdesk.1.1.forget
    { desk.shelf.workshop.grammars.reset with parser := none, current := none }
    rfl rfl rfl (fun _ hnone => by cases hnone)
    { desk.shelf.workshop.toolkit with deletedParsers }
  refine hdesk.step ?_ (searches_idle (Workshop.dispose_idle.trace desk.shelf.workshop))
  rw [← hdesk.1.2] at hfit
  rw [hshelf, hdispose]
  exact hfit

/-- Taking the plugin down closes all documents before the languages are forgotten. -/
theorem dispose_quietly :
    Leads (Quietly (Shelf.Resting key)) (Quietly (Shelf.Fit key)) (do
      Desk.dispose
      disposeGrammars) := by
  have hcalm := calm_quietly (Shelf.Resting key)
  have hempty := calm_quietly fun shelf => shelf.Forgettable key ∧ shelf.queries = .empty
  have hboard : Maintains (Quietly (Shelf.Resting key)) (Switchboard.dispose boardSite) :=
    .bind (.gets _) fun _ => .each fun document _ => hcalm.disable document
  simp only [Desk.dispose, bind_assoc]
  refine hboard.leads.bind (fun _ => ?_) fun _ _ h => ⟨h.1.toFit, h.2⟩
  refine hcalm.discreet.dispose.leads.bind (fun _ => ?_) fun _ _ h => ⟨h.1.toFit, h.2⟩
  refine disposeForest_quietly.bind (fun _ => ?_) fun _ _ h => ⟨h.1.1.toFit, h.2⟩
  refine (hempty.maintains (zoomDisplay_idle Display.dispose_leaves)).leads.bind (fun _ => ?_)
    fun _ _ h => ⟨h.1.1.toFit, h.2⟩
  exact disposeGrammars_quietly

/-- Taking a task goes on with loading, with an opening whose language is known, or with what is
left to do then. -/
theorem takeTask_matches : Leads (Quietly (Shelf.Fit key)) (Matches key) takeTask := by
  intro past desk hdesk
  unfold takeTask
  rw [Action.bind_of_quiet (Action.get_apply _)]
  cases htasks : desk.tasks with
  | nil => exact (Maintains.pure ()) past desk hdesk.matches
  | cons task rest =>
    set taken : Desk := { desk with tasks := rest }
    have hmodify : Action.modify (fun desk : Desk => { desk with tasks := rest }) desk =
        ⟨.ok (), taken, []⟩ := rfl
    dsimp only
    rw [Action.bind_of_quiet hmodify]
    have hqueue : desk.shelf.workshop.tasks = task :: rest := htasks
    have htaken (hother : ∀ job, task ≠ .job job) : Quietly (Shelf.Fit key) past taken :=
      ⟨hdesk.1.withWorkshop (hdesk.1.steady.take hqueue hother) fun _ => id, hdesk.2⟩
    match task with
    | .job job =>
      obtain ⟨hsteady, hgrow⟩ := hdesk.1.steady.perform hqueue (Workshop.perform_took job _)
      exact hdesk.matches.withWorkshop rfl hsteady hgrow ((Workshop.perform_idle job).trace _)
    | .deliver (.bare name) answer =>
      exact (Maintains.pure ()) past taken (htaken (by simp)).matches
    | .deliver (.opening opening) answer =>
      have hresumed := resume_matches (htaken (by simp)) opening answer fun language hanswer =>
        hdesk.1.steady.delivered (by rw [hqueue, hanswer]; simp)
      rw [perform, Action.bind_of_ok (Action.attempt_apply _ _)]
      dsimp only
      rw [← List.append_assoc]
      exact push_matches _ _ _ hresumed
    | .client work =>
      exact client_maintains (fun _ h => calm_matches.emit h.idle) push_matches work past taken
        (htaken (by simp)).matches

theorem finishRequest_matches (place : Nat) :
    Maintains (Matches key) (finishRequest place) := by
  refine .gets_bind fun past desk hdesk => ?_
  cases hplace : desk.requests[place]? with
  | none => exact Maintains.pure () past desk hdesk
  | some asked =>
    dsimp only
    obtain ⟨hsteady, hgrow⟩ :=
      hdesk.1.steady.complete hplace (Workshop.complete_completed asked _)
    exact hdesk.withWorkshop rfl hsteady hgrow ((Workshop.complete_idle asked).trace _)

end Desk

/-! ## Runs -/

/-- No document of an editor has a language with a zero unit in its name. -/
def Workbench.Plain (bench : Workbench) : Prop :=
  ∀ buffer ∈ bench.screen.buffers, 0 ∉ buffer.document.language

instance (bench : Workbench) : Decidable bench.Plain :=
  inferInstanceAs (Decidable (∀ buffer ∈ bench.screen.buffers, 0 ∉ buffer.document.language))

namespace Desk

variable {key : Text}

/-- A desk at which the plugin was just activated. -/
def activated (bench : Workbench) (catalog : Catalog) (options : OverlayOptions) : Desk :=
  overlaySite.part.set { options } (fresh bench catalog)

/-- Does something, unless a task is left. -/
def whenIdle (x : Action Desk Unit) : Action Desk Unit := do
  if (← Action.get).tasks.isEmpty then x

/-- Something that happens to a plugin at work. -/
inductive Occurrence where
  /-- The editor changes. -/
  | become (bench : Workbench)
  /-- A document was opened. -/
  | opened (buffer : Nat)
  /-- A document was closed. -/
  | closed (buffer : Option Nat)
  /-- A document was changed. -/
  | changed (buffer : Option Nat) (changes : List Change)
  /-- Other editors became visible. -/
  | shown (editors : List Editor)
  /-- A command is called. -/
  | called (command : Command)
  /-- The settings file has changed. -/
  | settingsChanged
  /-- The plugin is taken down. -/
  | deactivated
  /-- The oldest task is taken. -/
  | task
  /-- The toolkit finishes a request. -/
  | complete (place : Nat)

/-- What the plugin does then. The settings change, and the plugin is taken down, only when no
task is left. -/
def Occurrence.act : Occurrence → Action Desk Unit
  | .become bench => Desk.become bench
  | .opened buffer => documentOpened buffer
  | .closed buffer => documentClosed buffer
  | .changed buffer changes => documentChanged buffer changes
  | .shown editors => editorsShown editors
  | .called command => runCommand command
  | .settingsChanged => whenIdle Desk.settingsChanged
  | .deactivated => whenIdle do
    Desk.dispose
    disposeGrammars
  | .task => takeTask
  | .complete place => finishRequest place

/-- At first everything fits. -/
theorem activated_fit {bench : Workbench} (hplain : bench.Plain) (catalog : Catalog)
    (options : OverlayOptions) : (activated bench catalog options).shelf.Fit key where
  plain := hplain
  steady := .fresh _
  entries document entry hget := by cases hget
  queries text query hget := by cases hget

/-- What an occurrence must not do: bring a document whose language has a zero unit in its name, or
change the settings while a tree of the name that counts is left. -/
def Occurrence.Fair (key : Text) (desk : Desk) : Occurrence → Prop
  | .become bench => bench.Plain
  | .settingsChanged => ∀ entry ∈ desk.plugin.forest.entries.values, entry.key ≠ key
  | _ => True

instance (key : Text) (desk : Desk) : (occurrence : Occurrence) →
    Decidable (occurrence.Fair key desk)
  | .become bench => inferInstanceAs (Decidable bench.Plain)
  | .settingsChanged =>
    inferInstanceAs (Decidable (∀ entry ∈ desk.plugin.forest.entries.values, entry.key ≠ key))
  | .opened _ | .closed _ | .changed _ _ | .shown _ | .called _ | .deactivated | .task
  | .complete _ => .isTrue trivial

/-- Every occurrence is fair when its turn comes. -/
def FairRun (key : Text) : Desk → List Occurrence → Prop
  | _, [] => True
  | desk, occurrence :: rest =>
    occurrence.Fair key desk ∧ FairRun key (occurrence.act desk).state rest

instance decidable_fairRun (key : Text) : (desk : Desk) → (occurrences : List Occurrence) →
    Decidable (FairRun key desk occurrences)
  | _, [] => .isTrue trivial
  | desk, occurrence :: rest =>
    have := decidable_fairRun key (occurrence.act desk).state rest
    inferInstanceAs (Decidable (_ ∧ _))

/-- Waiting until no task is left. -/
theorem whenIdle_matches {x : Action Desk Unit} {desk : Desk}
    (hx : desk.tasks = [] → Matches key (x desk).trace (x desk).state)
    (hfit : desk.shelf.Fit key) :
    Matches key (whenIdle x desk).trace (whenIdle x desk).state := by
  unfold whenIdle
  rw [Action.bind_of_quiet (Action.get_apply _)]
  by_cases hidle : desk.tasks.isEmpty = true
  · rw [if_pos hidle]
    exact hx (List.isEmpty_iff.mp hidle)
  · rw [if_neg hidle]
    exact Quietly.matches ⟨hfit, rfl⟩

/-- Whatever happens, trees are searched by queries of their own language. -/
theorem Occurrence.act_matches {occurrence : Occurrence} {desk : Desk}
    (hfair : occurrence.Fair key desk) (hfit : desk.shelf.Fit key) :
    Matches key (occurrence.act desk).trace (occurrence.act desk).state := by
  have hquiet : Quietly (Shelf.Fit key) [] desk := ⟨hfit, rfl⟩
  cases occurrence with
  | become bench => exact Quietly.matches ⟨(hfit.withToolkit _).withBuffers hfair, rfl⟩
  | opened buffer => exact documentOpened_matches buffer [] desk hquiet.matches
  | closed buffer => exact (documentClosed_quietly buffer [] desk hquiet).matches
  | changed buffer changes => exact documentChanged_matches buffer changes [] desk hquiet
  | shown editors => exact editorsShown_matches editors [] desk hquiet.matches
  | called command => exact runCommand_matches command [] desk hquiet.matches
  | settingsChanged =>
    refine whenIdle_matches (fun htasks => ?_) hfit
    refine settingsChanged_matches [] desk ⟨⟨⟨hfit, htasks⟩, fun document entry hget => ?_⟩, rfl⟩
    exact hfair entry (List.mem_map_of_mem (Table.mem_rows_of_get? hget))
  | deactivated =>
    refine whenIdle_matches (fun htasks => ?_) hfit
    exact (dispose_quietly [] desk ⟨⟨hfit, htasks⟩, rfl⟩).matches
  | task => exact takeTask_matches [] desk hquiet
  | complete place => exact finishRequest_matches place [] desk hquiet.matches

/-- **Queries and languages.** Take any name of a language and any run in which the settings never
change while a tree of that name is left. Whenever a tree is searched, it is the tree of an entry,
by a query that is kept for that entry; and if it was opened under that name, the query was
compiled by the language that the tree was parsed with. -/
theorem searched_by_own_language (bench : Workbench) (catalog : Catalog)
    (options : OverlayOptions) (key : Text) (occurrences : List Occurrence)
    (hplain : bench.Plain) (hfair : FairRun key (activated bench catalog options) occurrences) :
    ∀ outcome ∈ Action.script Occurrence.act (activated bench catalog options) occurrences,
      ∀ query tree, .patternMatching query tree ∈ outcome.trace →
        let forest := outcome.state.plugin.forest
        ∃ document entry kinds compiled,
          forest.entries.get? document = some entry ∧ entry.tree.number = tree ∧
          forest.cache.queries.get? (PatternCache.keyOf entry.key kinds) = some compiled ∧
          compiled.number = query ∧
          (entry.key = key → entry.tree.language = some compiled.language) := by
  have hfit : (activated bench catalog options).shelf.Fit key :=
    activated_fit hplain catalog options
  generalize activated bench catalog options = desk at hfair hfit
  induction occurrences generalizing desk with
  | nil => intro outcome houtcome; cases houtcome
  | cons occurrence rest ih =>
    obtain ⟨hone, hrest⟩ := hfair
    have hmatches := occurrence.act_matches hone hfit
    intro outcome houtcome query tree hsearch
    rcases List.mem_cons.mp houtcome with rfl | hlater
    · exact hmatches.2 (query, tree) (mem_searches.mpr hsearch)
    · exact ih _ hrest hmatches.1 outcome hlater query tree hsearch

/-- An editor with one grammar, in which some documents of its language are open. -/
def editorWith (documents : List String) : Workbench :=
  documents.foldl (fun bench uri => bench.openDocument uri ⟨"", "p"⟩)
    { toolkit := { files := .ofRows [("tree-sitter-p.wasm", ⟨["fn"], false, none⟩)] } }

/-- The plugin activated in such an editor, with one kind of block. -/
def outset : Desk :=
  activated (editorWith []) (Catalog.make (.ofRows [("p", ["fn"])]) .empty .empty) {}

/-- The first document is opened, the toolkit starts, and the grammar is loaded. -/
def firstOpening : List Occurrence :=
  [.become (editorWith ["a"]), .opened 0, .complete 0] ++ List.replicate 4 .task ++
    [.complete 0] ++ List.replicate 5 .task

/-- A second document is opened when the grammar has to be loaded again. -/
def secondOpening : List Occurrence :=
  [.become (editorWith ["a", "b"]), .opened 1] ++ List.replicate 3 .task ++
    [.complete 0] ++ List.replicate 5 .task

/-- The first document is closed before the settings change, so the second is searched by a query
of its own language. -/
theorem searched_by_own_language_after_closing :
    let run := firstOpening ++ [.closed (some 0), .settingsChanged] ++ secondOpening
    (editorWith []).Plain ∧ FairRun "p" outset run ∧
      ∃ outcome ∈ Action.script Occurrence.act outset run,
        .patternMatching 2 2 ∈ outcome.trace ∧
        ∃ document entry kinds compiled,
          outcome.state.plugin.forest.entries.get? document = some entry ∧
          entry.tree.number = 2 ∧
          outcome.state.plugin.forest.cache.queries.get? (PatternCache.keyOf entry.key kinds) =
            some compiled ∧
          compiled.number = 2 ∧
          (entry.key = "p" → entry.tree.language = some compiled.language) := by
  intro run
  have hplain : (editorWith []).Plain := by decide +kernel
  have hfair : FairRun "p" outset run := by decide +kernel
  have hlast : ((Action.script Occurrence.act outset run)[24]?).map
      (fun outcome => searches outcome.trace) = some [(2, 2)] := by decide +kernel
  obtain ⟨outcome, hget, hsearches⟩ := Option.map_eq_some_iff.mp hlast
  have hmem := List.mem_of_getElem? hget
  have hsearch : .patternMatching 2 2 ∈ outcome.trace := by
    rw [← mem_searches, hsearches]
    exact List.mem_singleton_self _
  exact ⟨hplain, hfair, outcome, hmem, hsearch,
    searched_by_own_language _ _ _ _ _ hplain hfair outcome hmem 2 2 hsearch⟩

/-- When the first document is still open, its tree lends the old language to a query, which then
searches the tree of the second document, parsed with the language loaded anew. -/
theorem searched_by_forgotten_language :
    let run := firstOpening ++ [.settingsChanged] ++ secondOpening
    ∃ outcome ∈ Action.script Occurrence.act outset run,
      .patternMatching 2 2 ∈ outcome.trace ∧
      (outcome.state.plugin.forest.entries.get? "b").map
        (fun entry => (entry.tree.number, entry.tree.language.map Language.name)) =
        some (2, some "l2:tree-sitter-p.wasm") ∧
      (outcome.state.plugin.forest.cache.queries.get? (PatternCache.keyOf "p" ["fn"])).map
        (fun query => (query.number, query.language.name)) =
        some (2, "l1:tree-sitter-p.wasm") := by
  intro run
  have hlast : ((Action.script Occurrence.act outset run)[23]?).map
      (fun outcome => (searches outcome.trace,
        (outcome.state.plugin.forest.entries.get? "b").map
          (fun entry => (entry.tree.number, entry.tree.language.map Language.name)),
        (outcome.state.plugin.forest.cache.queries.get? (PatternCache.keyOf "p" ["fn"])).map
          (fun query => (query.number, query.language.name)))) =
      some ([(2, 2)], some (2, some "l2:tree-sitter-p.wasm"),
        some (2, "l1:tree-sitter-p.wasm")) := by decide +kernel
  obtain ⟨outcome, hget, hfacts⟩ := Option.map_eq_some_iff.mp hlast
  obtain ⟨hsearches, hentry, hquery⟩ : _ ∧ _ ∧ _ := by simpa only [Prod.mk.injEq] using hfacts
  refine ⟨outcome, List.mem_of_getElem? hget, ?_, hentry, hquery⟩
  rw [← mem_searches, hsearches]
  exact List.mem_singleton_self _

end Desk

end ClosingLabels
