import ClosingLabels.Proofs.Currency
import ClosingLabels.Session

/-!
# A session with one plugin

In a session the plugin is seated at a desk for one thing at a time, and what it leaves to be
done waits in the queues of the session. What every action at the desk maintains, the
session maintains, as long as whoever waits in a queue has a buffer. In between the editor
changes: documents are opened, edited and closed. The plugin is told at once, so what an
edit makes stale is up to date again before the step is over.
-/

namespace ClosingLabels

open ClosingLabels.Action (Maintains Leads Leaves)

/-- Every document that is open has a buffer that goes by its name, and so has the editor in front
if it has a document. -/
def Workbench.Housed (bench : Workbench) : Prop :=
  (∀ row ∈ bench.documents.rows, Named bench.screen.buffers row.2 row.1) ∧
    ∀ buffer ∈ bench.active.join, buffer < bench.screen.buffers.length

instance (bench : Workbench) : Decidable bench.Housed :=
  inferInstanceAs (Decidable (_ ∧ ∀ buffer ∈ bench.active.join, _))

namespace Workbench.Housed

variable {bench : Workbench}

/-- A document that is opened gets a buffer of its own. -/
theorem openDocument (h : bench.Housed) (uri : String) (document : Document) :
    (bench.openDocument uri document).Housed := by
  refine ⟨fun row hrow => ?_, fun buffer hbuffer => ?_⟩
  · rcases Table.mem_rows_insert hrow with rfl | hold
    · simp [Named, Workbench.openDocument, Screen.add]
    · exact (h.1 row hold).append _
  · refine Nat.lt_of_lt_of_le (h.2 buffer hbuffer) ?_
    simp [Workbench.openDocument, Screen.add]

/-- A document that is closed may be in front. -/
theorem erase (h : bench.Housed) (uri : String) :
    Housed { bench with documents := bench.documents.erase uri } :=
  ⟨fun row hrow => h.1 row (List.mem_of_mem_filter hrow), h.2⟩

theorem write (h : bench.Housed) (number : Nat) (text : Text) :
    Housed { bench with screen := bench.screen.write number text } := by
  refine ⟨fun row hrow => (named_write _ _ _ _ _).mpr (h.1 row hrow), fun buffer hbuffer => ?_⟩
  simpa [Screen.write] using h.2 buffer hbuffer

theorem named (h : bench.Housed) {uri : String} {number : Nat}
    (hopen : bench.documents.get? uri = some number) : Named bench.screen.buffers number uri :=
  h.1 _ (Table.mem_rows_of_get? hopen)

/-- Any document that is open may be in front. -/
theorem focus (h : bench.Housed) (uri : Option String) :
    Housed { bench with active := uri.map bench.documents.get? } := by
  refine ⟨h.1, fun buffer hbuffer => ?_⟩
  obtain ⟨name, -, hopen⟩ := Option.map_eq_some_iff.mp (Option.join_eq_some_iff.mp hbuffer)
  exact (h.named hopen).lt

end Workbench.Housed

/-- Writing to a buffer changes no other one, and writing what is there changes nothing. -/
theorem Screen.document_write {screen : Screen} {written number : Nat} {text : Text}
    (h : written = number → text = (screen.buffer number).document.text) :
    ((screen.write written text).buffer number).document = (screen.buffer number).document := by
  simp only [buffer, write, List.getElem?_modify] at h ⊢
  cases hfound : screen.buffers[number]? with
  | none => rfl
  | some found =>
    by_cases hsame : written = number
    · simp [hsame, h hsame, hfound]
    · simp [hsame]

namespace Desk

open Switchboard

variable {settings : Settings} {buffers : List Buffer} {exempt fewer : String → Prop}
  {past : List Event} {desk : Desk} {stage : Stage}

/-! ## At the desk -/

/-- Everything is in order, and what shows is up to date but for the documents that are exempt. -/
def Timely (stage : Stage) (exempt : String → Prop) (past : List Event) (desk : Desk) : Prop :=
  (∃ settings, Current settings stage.1 exempt past desk) ∧
    Ordered (fun _ => False) stage past desk

/-- An action keeps time if it keeps order and what is up to date under any settings. -/
theorem timely_of_current {x : Action Desk Unit}
    (hcurrent : ∀ settings, Maintains (Current settings stage.1 exempt) x)
    (hordered : Maintains (Ordered (fun _ => False) stage) x) :
    Maintains (Timely stage exempt) x := by
  rintro past desk ⟨⟨settings, h⟩, hdesk⟩
  exact ⟨⟨settings, hcurrent settings past desk h⟩, hordered past desk hdesk⟩

theorem documentOpened_timely {buffer : Nat} (hlt : buffer < stage.1.length) :
    Maintains (Timely stage exempt) (documentOpened buffer) :=
  timely_of_current (fun _ => documentOpened_current hlt) (documentOpened_ordered id)

theorem documentClosed_timely (buffer : Option Nat) :
    Maintains (Timely stage exempt) (documentClosed buffer) := by
  rintro past desk ⟨⟨settings, h⟩, hdesk⟩
  exact ⟨⟨settings, documentClosed_current hdesk h buffer⟩,
    documentClosed_ordered buffer past desk hdesk⟩

/-- What was changed in a document is up to date once the plugin was told. -/
theorem documentChanged_timely {buffer : Nat} {document : String}
    (hname : Named stage.1 buffer document) {changes : List Change}
    (hexempt : ∀ other, exempt other → changes ≠ [] ∧ other = document) :
    Leads (Timely stage exempt) (Timely stage fun _ => False)
      (documentChanged (some buffer) changes) := by
  rintro past desk ⟨⟨settings, h⟩, hdesk⟩
  have hcurrent := documentChanged_current hdesk.1 h hname changes
  refine ⟨⟨settings, hcurrent.narrow fun other hother => ?_⟩,
    documentChanged_ordered _ changes past desk hdesk⟩
  obtain ⟨hsome, hsame⟩ := hexempt other hother.1
  exact absurd hsame (hother.2 hsome)

/-- A change of no document is only reported. -/
theorem documentChanged_none_timely (changes : List Change) :
    Maintains (Timely stage exempt) (documentChanged none changes) :=
  timely_of_current (fun _ => emit_current (.error .documentChange (some .missingDocument)))
    (documentChanged_ordered none changes)

theorem editorsShown_timely (editors : List Editor) :
    Maintains (Timely stage exempt) (editorsShown editors) :=
  timely_of_current (fun _ => editorsShown_current editors) (editorsShown_ordered editors)

theorem runCommand_timely (command : Command) :
    Maintains (Timely stage exempt) (runCommand command) :=
  timely_of_current (fun _ => runCommand_current command)
    fun _ _ => runCommand_ordered fun _ _ _ => id

theorem settingsChanged_timely :
    Maintains (Timely stage exempt) settingsChanged := by
  rintro past desk ⟨⟨settings, h⟩, hdesk⟩
  exact ⟨settingsChanged_current h, settingsChanged_ordered (fun _ _ => id) past desk hdesk⟩

theorem complete_timely (asked : Request) :
    Maintains (Timely stage exempt) (Action.zoom workshopPart (Workshop.complete asked)) :=
  timely_of_current (fun _ => complete_current asked) (workshop_ordered _)

theorem perform_timely {task : Task (Waiter Nat) (Work Nat)}
    (hwaiter : ∀ waiter ∈ task.waiter, Waiter.Rooted stage.1 waiter) :
    Maintains (Timely stage exempt) (perform task) := by
  rintro past desk ⟨⟨settings, h⟩, hdesk⟩
  exact ⟨⟨settings, perform_current hdesk.1 h hwaiter⟩, perform_ordered task past desk hdesk⟩

/-- What is left to be done may be handed over. -/
theorem Timely.unburden (h : Timely stage exempt past desk) :
    Timely stage exempt past { desk with tasks := [], requests := [] } := by
  obtain ⟨⟨settings, hcurrent⟩, hdesk⟩ := h
  have hwaiting : ({ workshopPart.get desk with tasks := [], requests := [] } :
      Workshop (Waiter Nat) (Work Nat)).Vouched (Waiter.Rooted stage.1) :=
    ⟨hcurrent.waiting.startups, List.forall_mem_nil _, hcurrent.waiting.links⟩
  exact ⟨⟨settings, hcurrent.withWorkshop hwaiting rfl rfl⟩, hdesk⟩

/-- The editor may change as long as every buffer keeps its name, and the documents whose text
changes are exempt. -/
theorem Timely.withBench (h : Timely desk.stage exempt past desk) {bench : Workbench}
    (hhoused : bench.Housed)
    (hnames : ∀ number document, Named desk.bench.screen.buffers number document →
      Named bench.screen.buffers number document)
    (hkept : bench.store.remembered = desk.bench.store.remembered ∧
      bench.workspace = desk.bench.workspace ∧ bench.toolkit.trees = desk.bench.toolkit.trees ∧
      bench.toolkit.deletedTrees = desk.bench.toolkit.deletedTrees)
    (htexts : ∀ number document, ¬fewer document →
      Named desk.bench.screen.buffers number document →
      (bench.screen.buffer number).document = desk.read number)
    (hfewer : ∀ document, exempt document → fewer document) :
    Timely (bench.screen.buffers, bench.documents) fewer past { desk with bench } := by
  obtain ⟨⟨settings, hcurrent⟩, hsound, hgood, hclosed, -⟩ := h
  refine ⟨⟨settings, ?_⟩, hsound, hgood, hclosed, rfl⟩
  have hrooted := hcurrent.rooted.withBuffers hnames hhoused.1 fun buffer hactive =>
    hhoused.2 buffer (by rw [show bench.active = some (some buffer) from hactive]; rfl)
  refine ⟨hcurrent.good, ?_, ⟨?_, hcurrent.configured.catalog, hcurrent.configured.options⟩,
    hcurrent.backed, fun hsmooth document hdocument => ?_, rfl⟩
  · exact hrooted.withWorkshop (hrooted.waiting.of_eq rfl rfl rfl) hkept.2.2.1 hkept.2.2.2
  · change bench.store.remembered = some (bench.workspace, settings)
    rw [hkept.1, hkept.2.1]
    exact hcurrent.configured.remembered
  · have hnot : ¬exempt document := fun hexempt => hdocument (hfewer document hexempt)
    refine (hcurrent.fresh hsmooth document hnot).transfer id
      (fun entry hentry => ⟨hentry, ?_⟩) rfl (fun _ _ => id) rfl rfl
    exact htexts entry.source document hdocument (hcurrent.rooted.entries document entry hentry)

end Desk

namespace Session

variable {exempt fewer : String → Prop} {past : List Event} {session : Session}
  {stage : Desk.Stage}

/-! ## In the session -/

/-- The desk at which a plugin is seated. -/
def seat (session : Session) (plugin : Plugin) : Desk := { bench := session.bench, plugin }

/-- The session has one plugin, which is up to date but for the documents that are exempt and hears
of every change, and whoever waits in a queue has a buffer. -/
structure Timely (stage : Desk.Stage) (exempt : String → Prop) (past : List Event)
    (session : Session) : Prop where
  seated : ∃ plugin, session.plugins = [plugin] ∧
    (session.seat plugin).Timely stage exempt past
  waiting : ∀ row ∈ session.tasks, ∀ waiter ∈ row.2.waiter, Waiter.Rooted stage.1 waiter
  told : session.listeners.filter (·.1 = .changed) = [(.changed, 0)]

/-- What an action at the desk leads to, it leads to in the session. -/
theorem within_leads {x : Action Desk Unit}
    (hx : Leads (Desk.Timely stage exempt) (Desk.Timely stage fewer) x) :
    Leads (Timely stage exempt) (Timely stage fewer) (within 0 x) := by
  intro past session h
  obtain ⟨plugin, hplugins, hseat⟩ := h.seated
  have hdone := hx past _ hseat
  have hwithin : session.plugins[0]? = some plugin := by rw [hplugins]; rfl
  simp only [within, hwithin]
  refine ⟨⟨_, ?_, hdone.unburden⟩, fun row hrow => ?_, h.told⟩
  · rw [hplugins]
    rfl
  · rcases List.mem_append.mp hrow with hold | hnew
    · exact h.waiting row hold
    · obtain ⟨task, htask, rfl⟩ := List.mem_map.mp hnew
      obtain ⟨⟨settings, hcurrent⟩, -⟩ := hdone
      exact hcurrent.waiting.tasks task htask

/-- There is nobody else to be seated. -/
theorem within_timely {x : Action Desk Unit} (hx : Maintains (Desk.Timely stage exempt) x)
    (number : Nat) : Maintains (Timely stage exempt) (within number x) := by
  cases number with
  | zero => exact within_leads hx
  | succ number =>
    intro past session h
    obtain ⟨plugin, hplugins, -⟩ := h.seated
    have hnobody : session.plugins[number + 1]? = none := by rw [hplugins]; rfl
    simp only [within, hnobody, List.append_nil]
    exact h

theorem signal_timely {handle : Action Desk Unit}
    (hhandle : Maintains (Desk.Timely stage exempt) handle) (signal : Signal) :
    Maintains (Timely stage exempt) (Session.signal signal handle) :=
  .bind (.gets _) fun _ => .each fun listener _ => within_timely hhandle listener.2

/-- The plugin hears of every change. -/
theorem changed_leads {handle : Action Desk Unit}
    (hhandle : Leads (Desk.Timely stage exempt) (Desk.Timely stage fewer) handle) :
    Leads (Timely stage exempt) (Timely stage fewer) (signal .changed handle) := by
  intro past session h
  rw [signal, Action.bind_of_quiet (Action.get_apply _), h.told]
  exact (within_leads hhandle).bind_maintains (fun _ => .pure ()) past session h

/-! ## Tasks and requests -/

theorem drain_timely (turns : Nat) : Maintains (Timely stage exempt) (drain turns) := by
  induction turns with
  | zero => exact .pure ()
  | succ turns ih =>
    refine .gets_bind fun past session h => ?_
    rcases htasks : session.tasks with _ | ⟨⟨number, task⟩, rest⟩
    · exact Maintains.pure () past session h
    · have htaken : Timely stage exempt past { session with tasks := rest } :=
        ⟨h.seated, fun row hrow => h.waiting row (htasks ▸ List.mem_cons_of_mem _ hrow), h.told⟩
      have hwaiter := h.waiting (number, task) (htasks ▸ List.mem_cons_self)
      dsimp only
      rw [Action.bind_of_quiet (Action.modify_apply _ _)]
      exact Maintains.bind (within_timely (Desk.perform_timely hwaiter) number) (fun _ => ih) past _
        htaken

theorem drainAll_timely : Maintains (Timely stage exempt) drainAll :=
  .bind (.gets _) fun _ => drain_timely _

/-- The toolkit finishes the request at some place, if there is one. -/
def finishRequest (place : Nat) : Action Session Unit := do
  match (← Action.get).requests[place]? with
  | none => pure ()
  | some (number, request) =>
    Action.modify fun s => { s with requests := s.requests.eraseIdx place }
    within number (Action.zoom Desk.workshopPart (Workshop.complete request))

theorem finishRequest_timely (place : Nat) :
    Maintains (Timely stage exempt) (finishRequest place) := by
  refine .bind (.gets _) fun session => ?_
  rcases session.requests[place]? with _ | ⟨number, request⟩
  · exact .pure ()
  · exact .bind (.modify fun _ _ h => ⟨h.seated, h.waiting, h.told⟩) fun _ =>
      within_timely (Desk.complete_timely request) number

theorem turn_timely : Maintains (Timely stage exempt) turn := by
  refine .bind (.gets _) fun session => ?_
  rcases session.requests with _ | ⟨⟨number, request⟩, rest⟩
  · exact .pure _
  · refine .bind (.modify fun _ _ h => ⟨h.seated, h.waiting, h.told⟩) fun _ => ?_
    refine .bind (within_timely (Desk.complete_timely request) number) fun _ => ?_
    exact .bind drainAll_timely fun _ => .pure _

theorem settle_timely (fuel : Nat) : Maintains (Timely stage exempt) (settle fuel) := by
  induction fuel with
  | zero => exact .pure _
  | succ fuel ih =>
    refine .bind turn_timely fun turned => .ite ?_ (.pure _)
    exact .bind ih fun more => .pure _

/-! ## Steps -/

/-- What shows is up to date in the session. -/
def InTime (past : List Event) (session : Session) : Prop :=
  ∃ stage, Timely stage (fun _ => False) past session

theorem inTime_of_timely {α : Type} {x : Action Session α}
    (hx : ∀ stage, Maintains (Timely stage fun _ => False) x) : Maintains InTime x := by
  rintro past session ⟨stage, h⟩
  exact ⟨stage, hx stage past session h⟩

/-- More may have been reported. -/
theorem Timely.later (h : Timely stage exempt past session) {more : List Event}
    (hmore : past ⊆ more) : Timely stage exempt more session := by
  obtain ⟨plugin, hplugins, ⟨settings, hcurrent⟩, hdesk⟩ := h.seated
  exact ⟨⟨plugin, hplugins, ⟨settings, hcurrent.later hmore⟩, hdesk⟩, h.waiting, h.told⟩

/-- The editor finds every document in its place. -/
theorem Timely.housed (h : Timely stage exempt past session) : session.bench.Housed := by
  obtain ⟨plugin, -, ⟨settings, hcurrent⟩, -⟩ := h.seated
  refine ⟨hcurrent.rooted.listed, fun buffer hbuffer => hcurrent.rooted.front buffer ?_⟩
  exact Option.join_eq_some_iff.mp hbuffer

/-- The editor may change as long as every buffer keeps its name, and the documents whose text
changes are exempt. -/
theorem Timely.withBench (h : Timely stage exempt past session) (bench : Workbench)
    (hhoused : bench.Housed)
    (hnames : ∀ number document, Named session.bench.screen.buffers number document →
      Named bench.screen.buffers number document)
    (hkept : bench.store.remembered = session.bench.store.remembered ∧
      bench.workspace = session.bench.workspace ∧
      bench.toolkit.trees = session.bench.toolkit.trees ∧
      bench.toolkit.deletedTrees = session.bench.toolkit.deletedTrees)
    (htexts : ∀ number document, ¬fewer document →
      Named session.bench.screen.buffers number document →
      (bench.screen.buffer number).document = (session.bench.screen.buffer number).document)
    (hfewer : ∀ document, exempt document → fewer document) :
    Timely (bench.screen.buffers, bench.documents) fewer past { session with bench } := by
  obtain ⟨plugin, hplugins, hseat⟩ := h.seated
  obtain rfl : (session.seat plugin).stage = stage := hseat.2.2.2.2
  refine ⟨⟨plugin, hplugins, hseat.withBench hhoused hnames hkept htexts hfewer⟩,
    fun row hrow waiter hwaiter => ?_, h.told⟩
  have hrooted := h.waiting row hrow waiter hwaiter
  cases waiter with
  | bare key => trivial
  | opening opening => exact hnames _ _ hrooted

theorem openDocument_inTime (uri : String) (language text : Text) :
    Maintains InTime (openDocument uri language text) := by
  refine .gets_bind fun past session h => ?_
  obtain ⟨stage, h⟩ := h
  set bench := session.bench.openDocument uri ⟨text, language⟩
  have hopened : Timely (bench.screen.buffers, bench.documents) (fun _ => False) past
      { session with bench } := by
    refine h.withBench bench (h.housed.openDocument _ _) (fun _ _ hname => hname.append _)
      ⟨rfl, rfl, rfl, rfl⟩ (fun number document _ hname => ?_) fun _ => id
    simp only [bench, Screen.buffer, Workbench.openDocument, Screen.add,
      List.getElem?_append_left hname.lt]
  have hlt : session.bench.screen.buffers.length < bench.screen.buffers.length := by
    simp [bench, Workbench.openDocument, Screen.add]
  rw [Action.bind_of_quiet (Action.adjust_apply _ _ _)]
  exact ⟨_, signal_timely (Desk.documentOpened_timely hlt) .opened past _ hopened⟩

theorem closeDocument_inTime (uri : String) : Maintains InTime (closeDocument uri) := by
  refine .gets_bind fun past session h => ?_
  obtain ⟨stage, h⟩ := h
  have hclosed := h.withBench _ (h.housed.erase uri) (fun _ _ => id) ⟨rfl, rfl, rfl, rfl⟩
    (fun _ _ _ _ => rfl) fun _ => id
  rw [Action.bind_of_quiet (Action.adjust_apply _ _ _)]
  exact ⟨_, signal_timely (Desk.documentClosed_timely _) .closed past _ hclosed⟩

/-- An edit makes no other document stale, and the plugin hears of it. -/
theorem editDocument_inTime (uri : String) (replacements : List Workbench.Replacement) :
    Maintains InTime (editDocument uri replacements) := by
  refine .gets_bind fun past session h => ?_
  obtain ⟨stage, h⟩ := h
  cases hopen : session.bench.documents.get? uri with
  | none =>
    cases replacements with
    | nil => exact ⟨stage, signal_timely (Desk.documentChanged_none_timely []) .changed past _ h⟩
    | cons first rest => exact Maintains.fail _ past session ⟨stage, h⟩
  | some buffer =>
    have hname := h.housed.named hopen
    set edited := session.bench.edit buffer replacements
    have hedited : Timely (edited.2.screen.buffers, edited.2.documents)
        (fun other => replacements ≠ [] ∧ other = uri) past { session with bench := edited.2 } := by
      refine h.withBench edited.2 (h.housed.write _ _)
        (fun _ _ hother => (named_write _ _ _ _ _).mpr hother) ⟨rfl, rfl, rfl, rfl⟩
        (fun number document hnot hother => ?_) fun _ => False.elim
      refine Screen.document_write fun hsame => ?_
      subst hsame
      have hnone : replacements = [] := by
        by_contra hsome
        exact hnot ⟨hsome, hother.unique hname⟩
      rw [hnone]
      rfl
    have hchanges (other : String) (hother : replacements ≠ [] ∧ other = uri) :
        edited.1 ≠ [] ∧ other = uri :=
      ⟨Workbench.applyAll_ne_nil _ hother.1, hother.2⟩
    have hstays : Named edited.2.screen.buffers buffer uri := (named_write _ _ _ _ _).mpr hname
    exact ⟨_, changed_leads (Desk.documentChanged_timely hstays hchanges) past _ hedited⟩

theorem showEditors_inTime (specs : List EditorSpec) : Maintains InTime (showEditors specs) := by
  refine .gets_bind fun past session h => ?_
  obtain ⟨stage, h⟩ := h
  set editors := specs.map fun spec =>
    Editor.mk spec.name (session.bench.documents.get? spec.uri) spec.failure
  have hshown := h.withBench
    { session.bench with screen := { session.bench.screen with visible := editors } } h.housed
    (fun _ _ => id) ⟨rfl, rfl, rfl, rfl⟩ (fun _ _ _ _ => rfl) fun _ => id
  rw [Action.bind_of_quiet (Action.adjust_apply _ _ _)]
  exact ⟨_, signal_timely (Desk.editorsShown_timely editors) .visible past _ hshown⟩

/-- What is changed outside does not matter before the settings or a grammar are read again. -/
theorem outside_inTime {α : Type} {x : Action SettingsStore α}
    (hx : Leaves SettingsStore.remembered Event.Idle x) :
    Maintains InTime (Action.zoom storePart x) := by
  rintro past session ⟨stage, h⟩
  have hremembered := hx.state session.bench.store
  have hchanged := h.withBench
    { session.bench with store := (x session.bench.store).state } h.housed
    (fun _ _ => id) ⟨hremembered, rfl, rfl, rfl⟩ (fun _ _ _ _ => rfl) fun _ => id
  exact ⟨_, hchanged.later (List.subset_append_left _ _)⟩

/-- A step that the plugin takes while it is active and its workspace stays. -/
def Step.Ordinary : Step → Prop
  | .activate | .deactivate _ | .setWorkspace _ => False
  | _ => True

instance : (step : Step) → Decidable step.Ordinary
  | .activate | .deactivate _ | .setWorkspace _ => .isFalse id
  | .openDocument _ _ _ | .closeDocument _ | .edit _ _ | .reveal _ | .focus _ | .command _
  | .failOpening _ | .write _ _ | .remove _ | .read _ | .addGrammar _ _ | .settingsChanged | .turn
  | .settle => .isTrue trivial

theorem Step.act_inTime {step : Step} (hordinary : step.Ordinary) : Maintains InTime step.act := by
  cases step with
  | activate => cases hordinary
  | deactivate keepRegistered => cases hordinary
  | setWorkspace root => cases hordinary
  | openDocument uri language text =>
    exact .bind (openDocument_inTime uri language text) fun _ => .pure _
  | closeDocument uri => exact .bind (closeDocument_inTime uri) fun _ => .pure _
  | edit uri replacements => exact .bind (editDocument_inTime uri replacements) fun _ => .pure _
  | reveal specs => exact .bind (showEditors_inTime specs) fun _ => .pure _
  | focus uri =>
    refine .bind (.adjust ?_) fun _ => .pure _
    rintro past session ⟨stage, h⟩
    exact ⟨_, h.withBench _ (h.housed.focus uri) (fun _ _ => id) ⟨rfl, rfl, rfl, rfl⟩
      (fun _ _ _ _ => rfl) fun _ => id⟩
  | command name =>
    refine .bind (inTime_of_timely fun stage => .bind (.gets _) fun session => ?_) fun _ => .pure _
    rcases session.commands.get? name with _ | ⟨command, number⟩
    · exact .fail _
    · exact within_timely (Desk.runCommand_timely command) number
  | failOpening message =>
    refine .bind (.adjust ?_) fun _ => .pure _
    rintro past session ⟨stage, h⟩
    exact ⟨_, h.withBench _ h.housed (fun _ _ => id) ⟨rfl, rfl, rfl, rfl⟩ (fun _ _ _ _ => rfl)
      fun _ => id⟩
  | write location text =>
    refine .bind (outside_inTime fun seen => ?_) fun _ => .pure _
    exact .bind (SettingsStore.makeDirectory_leaves _ seen) fun _ =>
      SettingsStore.change_leaves _ seen
  | remove location =>
    exact .bind (outside_inTime (SettingsStore.change_leaves _)) fun _ => .pure _
  | read location =>
    refine .bind (outside_inTime fun seen => .bind (.gets _) fun store => ?_) fun _ => .pure _
    exact .ite (.bind (.ofExcept _) fun _ => .pure _) (.pure _)
  | addGrammar file spec =>
    refine .bind (.adjust ?_) fun _ => .pure _
    rintro past session ⟨stage, h⟩
    exact ⟨_, h.withBench _ h.housed (fun _ _ => id) ⟨rfl, rfl, rfl, rfl⟩ (fun _ _ _ _ => rfl)
      fun _ => id⟩
  | settingsChanged =>
    refine inTime_of_timely fun stage => .bind (.gets _) fun session => ?_
    exact .bind (.each fun number _ => within_timely Desk.settingsChanged_timely number)
      fun _ => .pure _
  | turn =>
    exact inTime_of_timely fun stage => .bind turn_timely fun _ => .bind (.gets _) fun _ => .pure _
  | settle =>
    exact inTime_of_timely fun stage => .bind (.gets _) fun _ =>
      .bind (settle_timely _) fun _ => .pure _

end Session

end ClosingLabels
