import ClosingLabels.Proofs.Following

/-!
# No edit is lost

While documents are opened, edited and closed, each tree stays in step with its
document. This survives edits that come before the first parse, openings that were
overtaken, and texts that cannot be parsed, after which the old tree is kept together
with all it was told. So whenever a text is parsed again, the parser is given the
present text and a tree that was told exactly the edits that lead to it.
-/

namespace ClosingLabels

open ClosingLabels.Action (Leaves)

/-! ## The course of events -/

/-- A plugin at its desk, with the openings that still wait for their language and everything
that has happened. -/
structure Course where
  desk : Desk
  waiting : List (Opening Nat) := []
  past : List Event := []

/-- Something that happens to the documents of a plugin. -/
inductive Happening where
  /-- The editor opens a document that is not open. -/
  | appear (uri : String) (document : Document)
  /-- The tree of an open document is asked for. -/
  | start (uri : String) (caller : Caller)
  /-- A document is closed. -/
  | close (uri : String)
  /-- The user makes replacements in an open document, and the plugin is told. -/
  | edit (uri : String) (replacements : List Workbench.Replacement)
  /-- The opening at some place among those waiting has its answer. -/
  | answer (place : Nat) (answer : Answer)
  /-- A step of loading is taken. -/
  | job (job : Job (Waiter Nat))
  /-- The toolkit finishes a request. -/
  | complete (request : Request)
  /-- The parser is taken down, and until there is another one no text can be parsed. -/
  | unload
  /-- Labels are switched on, so that a document is redrawn when its tree is new. -/
  | enable (uri : String)
  /-- Labels are switched off. -/
  | disable (uri : String)

namespace Course

/-- A plugin that was just activated, in an editor without open documents. -/
def fresh (bench : Workbench) (catalog : Catalog) : Course :=
  { desk := { bench := { bench with documents := .empty }, plugin := { catalog } } }

/-- The course after an action of the plugin. -/
def record {α : Type} (course : Course) (done : Outcome Desk α) : Course :=
  { course with desk := done.state, past := course.past ++ done.trace }

/-- The opening that a start leads to. -/
def opening (course : Course) (uri : String) (number : Nat) (caller : Caller) : Opening Nat :=
  ⟨uri, course.desk.plugin.forest.openings + 1, number, (course.desk.read number).language, caller⟩

/-- The desk after replacements in a buffer, and what the plugin makes of them. -/
def edited (course : Course) (number : Nat) (replacements : List Workbench.Replacement) :
    Outcome Desk Unit :=
  let (changes, bench) := course.desk.bench.edit number replacements
  Desk.documentChanged (some number) changes { course.desk with bench }

/-- What comes next. Only a document that is open can be edited or asked for, and only one that is
not can be opened. -/
def next (course : Course) : Happening → Course
  | .appear uri document =>
    match course.desk.bench.documents.get? uri with
    | some _ => course
    | none =>
      { course with
        desk := { course.desk with bench := course.desk.bench.openDocument uri document } }
  | .start uri caller =>
    match course.desk.bench.documents.get? uri with
    | none => course
    | some number =>
      { course.record (Forest.start Desk.grovePart course.desk.plugin.catalog.grammar? uri number
          (course.desk.read number).language caller course.desk) with
        waiting := course.waiting ++ [course.opening uri number caller] }
  | .close uri =>
    let bench := { course.desk.bench with documents := course.desk.bench.documents.erase uri }
    course.record (Forest.close Desk.grovePart uri { course.desk with bench })
  | .edit uri replacements =>
    match course.desk.bench.documents.get? uri with
    | none => course
    | some number => course.record (course.edited number replacements)
  | .answer place answer =>
    match course.waiting[place]? with
    | none => course
    | some opening =>
      { course.record (Forest.resume Desk.ground opening answer course.desk) with
        waiting := course.waiting.eraseIdx place }
  | .job job => course.record (Action.zoom Desk.workshopPart (Workshop.perform job) course.desk)
  | .complete request =>
    course.record (Action.zoom Desk.workshopPart (Workshop.complete request) course.desk)
  | .unload => course.record (Desk.disposeGrammars course.desk)
  | .enable uri => course.record (Switchboard.enable Desk.boardSite uri course.desk)
  | .disable uri => course.record (Switchboard.disable Desk.boardSite uri course.desk)

/-- What happenings lead to, one after another. -/
def after (course : Course) (happenings : List Happening) : Course := happenings.foldl next course

/-- Trees and documents are in step. -/
def InStep (course : Course) : Prop := course.desk.scene.InStep course.waiting course.past

/-- The plugin's own work on anything else keeps trees and documents in step. -/
theorem InStep.record {course : Course} (h : course.InStep) {α : Type} {x : Action Desk α}
    (hx : Leaves Desk.scene Event.SparesTrees x) : (course.record (x course.desk)).InStep := by
  have hscene : (course.record (x course.desk)).desk.scene = course.desk.scene :=
    hx.state course.desk
  rw [InStep, hscene]
  exact Scene.InStep.quiet h (editsOf_of_spares (hx.trace course.desk))

end Course

namespace Desk

/-- A change of a document brings its tree up to date, and a failure is reported. -/
theorem documentChanged_apply (number : Nat) (changes : List Change) (desk : Desk) :
    let done := Forest.update ground (desk.bench.screen.buffer number).uri number changes desk
    ∃ rest, (∀ event ∈ rest, event.SparesTrees) ∧
      documentChanged (some number) changes desk = ⟨.ok (), done.state, done.trace ++ rest⟩ ∧
      ∀ fault, done.result = .error fault → .error .documentChange (some fault) ∈ rest := by
  intro done
  set uri := (desk.bench.screen.buffer number).uri with huri
  have hinner : (do
      let desk ← Action.get
      let buffer ← Action.ofOption (some number) .missingDocument
      let uri := (desk.bench.screen.buffer buffer).uri
      if desk.plugin.forest.has uri && !changes.isEmpty then
        Forest.update ground uri buffer changes : Action Desk Unit) desk =
      Forest.update ground uri number changes desk := by
    rw [Action.bind_of_quiet (Action.get_apply _)]
    change (if desk.plugin.forest.has uri && !changes.isEmpty then
      Forest.update ground uri number changes else pure ()) desk = _
    split
    · rfl
    · exact (Forest.update_idle ground number ‹_›).symm
  have hdone : done = Forest.update ground uri number changes desk := rfl
  unfold documentChanged
  rcases hupdate : Forest.update ground uri number changes desk with ⟨fault | _, after, trace⟩
  · rw [hdone, hupdate]
    refine ⟨_, by simp [Event.SparesTrees], Action.rescue_of_error (hinner.trans hupdate) _, ?_⟩
    rintro cause ⟨⟩
    exact List.mem_singleton_self _
  · rw [hdone, hupdate]
    refine ⟨[], by simp, ?_, fun fault hfault => by cases hfault⟩
    rw [Action.rescue_of_ok (hinner.trans hupdate)]
    simp only [List.append_nil]

end Desk

namespace Course

variable {course : Course}

/-- Going on with an opening keeps trees and documents in step. -/
theorem InStep.resume (h : course.InStep) {opening : Opening Nat} {place : Nat}
    (hplace : course.waiting[place]? = some opening) {answer : Answer} {done : Outcome Desk Bool}
    (hdone : Forest.Resumed Desk.ground opening course.desk answer done) :
    done.state.scene.InStep (course.waiting.eraseIdx place) (course.past ++ done.trace) := by
  have hfewer : ∀ other ∈ course.waiting.eraseIdx place, other ∈ course.waiting :=
    fun other hmem => (List.eraseIdx_sublist _ _).subset hmem
  have hdropped : course.desk.scene.InStep (course.waiting.eraseIdx place) course.past :=
    Scene.InStep.settle h hfewer fun uri ticket hget => hget
  have hsettled : (Desk.grovePart.set ((Desk.grovePart.get course.desk).settle opening.document)
      course.desk).scene.InStep (course.waiting.eraseIdx place) course.past := by
    refine Scene.InStep.settle h hfewer fun uri ticket hget => ?_
    have herased : (course.desk.scene.holdings.pending.erase opening.document).get? uri =
        some ticket := hget
    rw [Table.get?_erase] at herased
    split at herased
    · cases herased
    · exact herased
  cases hdone with
  | rejected fault => exact hdropped.quiet fun number => rfl
  | stale found hstale => exact hdropped.quiet fun number => rfl
  | unavailable hlatest => exact hsettled.quiet fun number => rfl
  | unparsed hlatest heq hparse hparser =>
    subst heq
    exact hsettled.quiet (editsOf_parsing hparser)
  | @stored settled planted language tree trace hlatest heq htree hparse hparser hplanted =>
    have hopen : course.desk.scene.documents.get? opening.document = some opening.source :=
      Scene.InStep.awaited h opening (List.mem_of_getElem? hplace) hlatest
    have hnumber : tree.number = course.desk.scene.holdings.trees + 1 := by rw [htree]; rfl
    have htext : tree.text = course.desk.scene.textOf opening.source := by rw [htree, heq]; rfl
    have hscene : (Forest.announce Desk.ground .parsed opening.document planted).state.scene =
        planted.scene := (Desk.announce_leaves .parsed opening.document).state planted
    have hplant : planted.scene.InStep (course.waiting.eraseIdx place) course.past := by
      rw [hplanted]
      exact hsettled.plant hopen hnumber htext rfl
    rw [hscene]
    refine hplant.quiet fun number => ?_
    have hbefore := editsOf_parsing hparser number
    have hafter := editsOf_of_spares
      ((Desk.announce_leaves .parsed opening.document).trace planted) number
    rw [editsOf_append, editsOf_append, hbefore, editsOf_deletions]
    exact hafter

/-- The course after an edit, by how bringing the tree up to date ended. -/
theorem InStep.update (h : course.InStep) {uri : String} {number : Nat} {changes : List Change}
    {text : Text} (hopen : course.desk.scene.documents.get? uri = some number)
    (hreplay : Change.replay changes (course.desk.scene.textOf number) = text) {desk : Desk}
    (hdesk : desk.scene = course.desk.scene.write number text) {done : Outcome Desk Unit}
    (hdone : Forest.Updated Desk.ground uri number changes desk done) :
    done.state.scene.InStep course.waiting (course.past ++ done.trace) := by
  have hholdings : Forest.holdings Desk.grovePart desk = course.desk.scene.holdings :=
    congrArg Scene.holdings hdesk
  have htell {entry : Entry Nat} {told : Desk}
      (hentry : (Forest.holdings Desk.grovePart desk).entries.get? uri = some entry)
      (htold : told = Desk.grovePart.set ((Desk.grovePart.get desk).tell uri entry changes) desk) :
      told.scene.InStep course.waiting (course.past ++ Forest.editing entry.tree changes) := by
    rw [hholdings] at hentry
    have hsource : entry.source = number :=
      Option.some.inj ((Scene.InStep.follows h uri entry hentry).shown.symm.trans hopen)
    subst hsource
    have hscene : told.scene = { course.desk.scene.write entry.source text with
        holdings := { course.desk.scene.holdings with
          entries := course.desk.scene.holdings.entries.insert uri
            { entry with told := entry.told ++ changes } } } := by
      rw [htold, ← hdesk, ← hholdings]
      rfl
    rw [hscene]
    exact Scene.InStep.tell h changes hentry hreplay
  cases hdone with
  | absent hentry =>
    have hnone : course.desk.scene.holdings.entries.get? uri = none := by
      rw [← hholdings]
      exact hentry
    rw [hdesk]
    exact (Scene.InStep.write h text hopen hnone).quiet fun number => rfl
  | idle hchanges =>
    subst hchanges
    have htext : text = course.desk.scene.textOf number := hreplay.symm
    rw [hdesk, htext, Scene.write_textOf]
    exact Scene.InStep.quiet h fun number => rfl
  | @unparsed entry told fault trace _ hentry htold hparse hparser =>
    rw [← List.append_assoc]
    exact (htell hentry htold).quiet (editsOf_parsing hparser)
  | @replaced entry told planted tree trace _ hentry htold htree hparse hparser hplanted =>
    have htoldStep := htell hentry htold
    have hshown : told.scene.documents.get? uri = some number := by
      rw [htold]
      exact (congrArg (fun scene : Scene => scene.documents.get? uri) hdesk).trans hopen
    have hnumber : tree.number = told.scene.holdings.trees + 1 := by rw [htree, htold]; rfl
    have htext : tree.text = told.scene.textOf number := by rw [htree]; rfl
    have hscene : (Forest.announce Desk.ground .changed uri planted).state.scene =
        planted.scene := (Desk.announce_leaves .changed uri).state planted
    have hplant : planted.scene.InStep course.waiting
        (course.past ++ Forest.editing entry.tree changes) := by
      rw [hplanted]
      rw [htold] at htoldStep hshown hnumber htext
      exact htoldStep.plant hshown hnumber htext rfl
    rw [hscene, ← List.append_assoc]
    refine hplant.quiet fun other => ?_
    have hbefore := editsOf_parsing hparser other
    have hafter := editsOf_of_spares ((Desk.announce_leaves .changed uri).trace planted) other
    rw [editsOf_append, hbefore]
    exact hafter

/-- The scene when replacements were made in a buffer. -/
theorem scene_edit (desk : Desk) (number : Nat) (replacements : List Workbench.Replacement) :
    ({ desk with bench := (desk.bench.edit number replacements).2 } : Desk).scene =
      desk.scene.write number
        (Workbench.applyAll (desk.scene.textOf number) replacements).2 := rfl

/-- An edit of an open document brings its tree up to date. -/
theorem InStep.next_edit (h : course.InStep) {uri : String} {number : Nat}
    (hopen : course.desk.bench.documents.get? uri = some number)
    (replacements : List Workbench.Replacement) :
    ∃ done rest,
      Forest.Updated Desk.ground uri number (course.desk.bench.edit number replacements).1
        { course.desk with bench := (course.desk.bench.edit number replacements).2 } done ∧
      (∀ event ∈ rest, event.SparesTrees) ∧
      course.next (.edit uri replacements) =
        { course with desk := done.state, past := course.past ++ (done.trace ++ rest) } := by
  set desk : Desk := { course.desk with bench := (course.desk.bench.edit number replacements).2 }
  have huri : (desk.bench.screen.buffer number).uri = uri :=
    (Scene.buffer_write course.desk.scene number number _).1.trans
      (Scene.InStep.named h uri number hopen).2
  obtain ⟨rest, hspares, happly, -⟩ := Desk.documentChanged_apply number
    (course.desk.bench.edit number replacements).1 desk
  rw [huri] at happly
  have hedited : course.edited number replacements = _ := happly
  refine ⟨_, rest, Forest.update_updated Desk.ground uri number _ desk, hspares, ?_⟩
  simp only [Course.next, hopen]
  rw [hedited]
  rfl

/-- What a happening can do, and what it does to trees and documents. -/
inductive Step (course : Course) : Happening → Course → Prop
  /-- Nothing, for want of a document or an opening. -/
  | idle (happening : Happening) : Step course happening course
  | appear {uri : String} (document : Document)
      (hnew : course.desk.bench.documents.get? uri = none) :
      Step course (.appear uri document)
        { course with
          desk := { course.desk with bench := course.desk.bench.openDocument uri document } }
  | start {uri : String} {number : Nat} {caller : Caller} {grove : Grove Nat String}
      {trace : List Event} (hopen : course.desk.bench.documents.get? uri = some number)
      (hgrove : grove.holdings = { course.desk.scene.holdings with
        openings := course.desk.scene.holdings.openings + 1
        pending := course.desk.scene.holdings.pending.insert uri
          (course.desk.scene.holdings.openings + 1) })
      (hspares : ∀ event ∈ trace, event.SparesTrees) :
      Step course (.start uri caller)
        { desk := Desk.grovePart.set grove course.desk
          waiting := course.waiting ++ [course.opening uri number caller]
          past := course.past ++ trace }
  | close {uri : String} {grove : Grove Nat String}
      (hgrove : grove.holdings = { course.desk.scene.holdings with
        pending := course.desk.scene.holdings.pending.erase uri
        entries := course.desk.scene.holdings.entries.erase uri }) :
      Step course (.close uri)
        { course with
          desk := Desk.grovePart.set grove { course.desk with
            bench := { course.desk.bench with documents := course.desk.bench.documents.erase uri } }
          past := course.past ++ (Desk.grovePart.get course.desk).deletions uri }
  | edit {uri : String} {number : Nat} {replacements : List Workbench.Replacement}
      {done : Outcome Desk Unit} {rest : List Event}
      (hopen : course.desk.bench.documents.get? uri = some number)
      (hdone : Forest.Updated Desk.ground uri number
        (course.desk.bench.edit number replacements).1
        { course.desk with bench := (course.desk.bench.edit number replacements).2 } done)
      (hspares : ∀ event ∈ rest, event.SparesTrees) :
      Step course (.edit uri replacements)
        { course with desk := done.state, past := course.past ++ (done.trace ++ rest) }
  | answer {place : Nat} {opening : Opening Nat} {answer : Answer} {done : Outcome Desk Bool}
      (hplace : course.waiting[place]? = some opening)
      (hdone : Forest.Resumed Desk.ground opening course.desk answer done) :
      Step course (.answer place answer)
        { desk := done.state
          waiting := course.waiting.eraseIdx place
          past := course.past ++ done.trace }
  /-- Work that does not concern them. -/
  | aside (happening : Happening) {x : Action Desk Unit}
      (hx : Leaves Desk.scene Event.SparesTrees x) :
      Step course happening (course.record (x course.desk))

/-- What comes next is a step. -/
theorem InStep.step (h : course.InStep) (happening : Happening) :
    course.Step happening (course.next happening) := by
  cases happening with
  | appear uri document =>
    cases hopen : course.desk.bench.documents.get? uri with
    | some number => simpa only [Course.next, hopen] using .idle _
    | none => simpa only [Course.next, hopen] using .appear document hopen
  | start uri caller =>
    cases hopen : course.desk.bench.documents.get? uri with
    | none => simpa only [Course.next, hopen] using .idle _
    | some number =>
      obtain ⟨grove, result, trace, happly, hgrove, hspares⟩ := Forest.start_apply Desk.grovePart
        course.desk.plugin.catalog.grammar? uri number (course.desk.read number).language caller
        course.desk
      simp only [Course.next, hopen, happly]
      exact .start hopen hgrove hspares
  | close uri =>
    obtain ⟨grove, happly, hgrove⟩ := Forest.close_apply Desk.grovePart uri
      { course.desk with
        bench := { course.desk.bench with documents := course.desk.bench.documents.erase uri } }
    simp only [Course.next, happly]
    exact .close hgrove
  | edit uri replacements =>
    cases hopen : course.desk.bench.documents.get? uri with
    | none => simpa only [Course.next, hopen] using .idle _
    | some number =>
      obtain ⟨done, rest, hdone, hspares, hnext⟩ := h.next_edit hopen replacements
      rw [hnext]
      exact .edit hopen hdone hspares
  | answer place answer =>
    cases hplace : course.waiting[place]? with
    | none => simpa only [Course.next, hplace] using .idle _
    | some opening =>
      simp only [Course.next, hplace]
      exact .answer hplace (Forest.resume_resumed Desk.ground opening answer course.desk)
  | job job =>
    exact .aside _ (Forest.zoomWorkshop_leaves Desk.shows_scene
      (Workshop.leaves_of_idle (Workshop.perform_idle job)))
  | complete request =>
    exact .aside _ (Forest.zoomWorkshop_leaves Desk.shows_scene
      (Workshop.leaves_of_idle (Workshop.complete_idle request)))
  | unload =>
    exact .aside _ (Forest.zoomWorkshop_leaves Desk.shows_scene
      (Workshop.leaves_of_idle Workshop.dispose_idle))
  | enable uri => exact .aside _ (Desk.enable_leaves uri)
  | disable uri => exact .aside _ (Desk.disable_leaves uri)

/-- Every step keeps trees and documents in step. -/
theorem InStep.of_step (h : course.InStep) {happening : Happening} {later : Course}
    (hstep : course.Step happening later) : later.InStep := by
  cases hstep with
  | idle => exact h
  | appear document hnew => exact Scene.InStep.appear h document hnew
  | @start uri number caller grove trace hopen hgrove hspares =>
    have hscene : (Desk.grovePart.set grove course.desk).scene =
        { course.desk.scene with holdings := grove.holdings } := rfl
    have hshown : course.desk.scene.documents.get? (course.opening uri number caller).document =
        some (course.opening uri number caller).source := hopen
    rw [InStep, hscene, hgrove]
    exact (Scene.InStep.start h hshown rfl).quiet (editsOf_of_spares hspares)
  | @close uri grove hgrove =>
    have hscene : (Desk.grovePart.set grove { course.desk with
        bench := { course.desk.bench with
          documents := course.desk.bench.documents.erase uri } }).scene =
        { course.desk.scene with
          holdings := grove.holdings
          documents := course.desk.scene.documents.erase uri } := rfl
    rw [InStep, hscene, hgrove]
    exact (Scene.InStep.close h uri).quiet fun number => editsOf_deletions number _ uri
  | @edit uri number replacements done rest hopen hdone hspares =>
    have hreplay := Workbench.replay_applyAll (course.desk.scene.textOf number) replacements
    have hupdate := InStep.update h hopen hreplay (scene_edit course.desk number replacements) hdone
    rw [InStep, ← List.append_assoc]
    exact hupdate.quiet (editsOf_of_spares hspares)
  | answer hplace hdone => exact h.resume hplace hdone
  | aside happening hx => exact h.record hx

/-- At first there are no trees and no documents. -/
theorem inStep_fresh (bench : Workbench) (catalog : Catalog) : (fresh bench catalog).InStep := by
  refine ⟨?_, ?_, ?_, fun number _ => rfl, ?_, ?_⟩
  · intro uri number hget
    cases hget
  · intro uri entry hget
    cases hget
  · intro uri other entry rival hget
    cases hget
  · intro opening hmem
    cases hmem
  · intro opening hmem
    cases hmem

/-- Trees and documents are in step in the whole course of events. -/
theorem InStep.after (h : course.InStep) (happenings : List Happening) :
    (course.after happenings).InStep := by
  induction happenings generalizing course with
  | nil => exact h
  | cons happening rest ih => exact ih (h.of_step (h.step happening))

end Course

/-! ## Parsing again -/

/-- The old tree that a parser was given. -/
def reparsed? : Event → Option Nat
  | .parsing _ _ old => old
  | _ => none

/-- The old trees that parsers were given, in order. -/
def reparses (trace : List Event) : List Nat := trace.filterMap reparsed?

@[simp] theorem reparses_append (trace more : List Event) :
    reparses (trace ++ more) = reparses trace ++ reparses more :=
  List.filterMap_append

/-- What spares the trees gives none to a parser. -/
theorem reparses_of_spares {trace : List Event} (h : ∀ event ∈ trace, event.SparesTrees) :
    reparses trace = [] := by
  refine List.filterMap_eq_nil_iff.mpr fun event hevent => ?_
  have hspares := h event hevent
  cases event with
  | parsing parser length given => exact hspares
  | _ => rfl

/-- A parser at work was given the tree it is known to be given. -/
theorem mem_reparses_parsing {trace : List Event} {old : Option Nat}
    (h : ∀ event ∈ trace, event.OfParser old) {number : Nat} (hmem : number ∈ reparses trace) :
    old = some number := by
  obtain ⟨event, hevent, hgiven⟩ := List.mem_filterMap.mp hmem
  have hparser := h event hevent
  cases event with
  | parsing parser length given => exact hparser.symm.trans hgiven
  | _ => cases hgiven

theorem reparses_deletions {D L : Type} (grove : Grove D L) (document : String) :
    reparses (grove.deletions document) = [] := by
  refine List.filterMap_eq_nil_iff.mpr fun event hevent => ?_
  obtain ⟨entry, _, rfl⟩ := List.mem_map.mp hevent
  rfl

theorem reparses_editing (tree : Tree) (changes : List Change) :
    reparses (Forest.editing tree changes) = [] := by
  refine List.filterMap_eq_nil_iff.mpr fun event hevent => ?_
  obtain ⟨change, _, rfl⟩ := List.mem_map.mp hevent
  rfl

/-- An opening parses from scratch. -/
theorem reparses_resumed {opening : Opening Nat} {desk : Desk} {answer : Answer}
    {done : Outcome Desk Bool} (h : Forest.Resumed Desk.ground opening desk answer done) :
    reparses done.trace = [] := by
  cases h with
  | rejected fault => rfl
  | stale found hstale => rfl
  | unavailable hlatest => rfl
  | unparsed hlatest heq hparse hparser =>
    exact reparses_of_spares fun event hevent => (hparser event hevent).sparesTrees
  | @stored settled planted language tree trace hlatest heq htree hparse hparser hplanted =>
    have hbefore := reparses_of_spares fun event hevent => (hparser event hevent).sparesTrees
    have hafter := reparses_of_spares
      ((Desk.announce_leaves .parsed opening.document).trace planted)
    rw [reparses_append, reparses_append, hbefore, reparses_deletions]
    exact hafter

/-- Only a change of a document with a tree makes a parser use an old tree, which is that of the
document. -/
theorem mem_reparses_updated {uri : String} {source : Nat} {changes : List Change} {desk : Desk}
    {done : Outcome Desk Unit} (h : Forest.Updated Desk.ground uri source changes desk done)
    {number : Nat} (hmem : number ∈ reparses done.trace) :
    changes ≠ [] ∧ ∃ entry, (Forest.holdings Desk.grovePart desk).entries.get? uri = some entry ∧
      entry.tree.number = number := by
  cases h with
  | absent hentry => cases hmem
  | idle hchanges => cases hmem
  | @unparsed entry told fault trace hchanges hentry htold hparse hparser =>
    rw [reparses_append, reparses_editing, List.nil_append] at hmem
    exact ⟨hchanges, entry, hentry, Option.some.inj (mem_reparses_parsing hparser hmem)⟩
  | @replaced entry told planted tree trace hchanges hentry htold htree hparse hparser hplanted =>
    have hafter := reparses_of_spares ((Desk.announce_leaves .changed uri).trace planted)
    have hlast : reparses (.treeDeleted entry.tree.number ::
        (Forest.announce Desk.ground .changed uri planted).trace) = [] := hafter
    rw [reparses_append, reparses_editing, List.nil_append, reparses_append, hlast,
      List.append_nil] at hmem
    exact ⟨hchanges, entry, hentry, Option.some.inj (mem_reparses_parsing hparser hmem)⟩

namespace Course

variable {course : Course} {uri : String}

/-- The entry of a document. -/
def entry? (course : Course) (uri : String) : Option (Entry Nat) :=
  course.desk.plugin.forest.entries.get? uri

/-- The present text of a buffer. -/
def textOf (course : Course) (number : Nat) : Text := (course.desk.read number).text

/-- The parser at work on the text of a later course, given the tree of an entry. -/
def reparse (course later : Course) (entry : Entry Nat) :
    Outcome (Workshop (Waiter Nat) (Work Nat)) Tree :=
  Workshop.parse (some entry.language) (later.textOf entry.source) (some entry.tree)
    (Desk.workshopPart.get course.desk)

/-- An entry is in step with its document, as far as texts and edits go. -/
structure Current (course : Course) (uri : String) (entry : Entry Nat) : Prop where
  /-- The document is open. -/
  shown : course.desk.bench.documents.get? uri = some entry.source
  /-- The changes that the tree was told of lead to the present text. -/
  leads : Change.replay entry.told entry.tree.text = course.textOf entry.source
  /-- The tree was told of these changes and of nothing else. -/
  told : editsOf entry.tree.number course.past = entry.told.map Change.toEdit

/-- How changes of a document with a tree lead from one course to a later one. -/
structure Reparsed (course later : Course) (uri : String) (entry : Entry Nat)
    (changes : List Change) : Prop where
  /-- What the old tree was told leads to the text that the parser is given. -/
  leads : Change.replay (entry.told ++ changes) entry.tree.text = later.textOf entry.source
  /-- The old tree was told nothing else when the parser is given it. -/
  told : editsOf entry.tree.number (course.past ++ Forest.editing entry.tree changes) =
    (entry.told ++ changes).map Change.toEdit
  /-- The tree is told of the changes, and then the parser is at work, once. -/
  past : ∃ rest, reparses rest = [] ∧ later.past =
    course.past ++ Forest.editing entry.tree changes ++ (course.reparse later entry).trace ++ rest
  /-- A tree that the parser makes is that of the present text, and replaces the old one. -/
  replaced : ∀ tree, (course.reparse later entry).result = .ok tree →
    tree.text = later.textOf entry.source ∧
      tree.root = Braces.parse (later.textOf entry.source) ∧
      later.entry? uri = some { entry with tree, told := [] }
  /-- When the parser fails, the old tree stays, with all that it was told. -/
  kept : ∀ fault, (course.reparse later entry).result = .error fault →
    later.entry? uri = some { entry with told := entry.told ++ changes }

/-- Replacements reach the text of their document. -/
theorem InStep.text_bench_edit (h : course.InStep) {number : Nat}
    (hopen : course.desk.bench.documents.get? uri = some number)
    (replacements : List Workbench.Replacement) :
    (Desk.read { course.desk with bench := (course.desk.bench.edit number replacements).2 }
      number).text = (Workbench.applyAll (course.textOf number) replacements).2 := by
  obtain ⟨hlt, _⟩ := Scene.InStep.named h uri number hopen
  exact (Scene.buffer_write course.desk.scene number number _).2.2 hlt

/-- The text of a document after an edit, whatever becomes of its tree. -/
theorem InStep.textOf_next_edit (h : course.InStep) {number : Nat}
    (hopen : course.desk.bench.documents.get? uri = some number)
    (replacements : List Workbench.Replacement) :
    (course.next (.edit uri replacements)).textOf number =
      (Workbench.applyAll (course.textOf number) replacements).2 := by
  obtain ⟨done, rest, hdone, _, hnext⟩ := h.next_edit hopen replacements
  have hwritten := h.text_bench_edit hopen replacements
  rw [hnext]
  cases hdone with
  | absent hentry => exact hwritten
  | idle hchanges => exact hwritten
  | unparsed hchanges hentry htold hparse hparser =>
    subst htold
    exact hwritten
  | @replaced entry told planted tree trace hchanges hentry htold htree hparse hparser hplanted =>
    have hscene := (Desk.announce_leaves .changed uri).state planted
    refine (congrArg (fun scene : Scene => scene.textOf number) hscene).trans ?_
    rw [hplanted]
    exact hwritten

/-- An edit of a document with a tree hands the tree to the parser, in step with the text. -/
theorem InStep.reparsed (h : course.InStep) {entry : Entry Nat}
    (hentry : course.entry? uri = some entry) {replacements : List Workbench.Replacement}
    (hsome : replacements ≠ []) :
    course.Reparsed (course.next (.edit uri replacements)) uri entry
      (course.desk.bench.edit entry.source replacements).1 := by
  have hfollows : course.desk.scene.Follows course.past uri entry :=
    Scene.InStep.follows h uri entry hentry
  have htext := h.textOf_next_edit hfollows.shown replacements
  have hwritten := h.text_bench_edit hfollows.shown replacements
  obtain ⟨done, rest, hdone, hspares, hnext⟩ := h.next_edit hfollows.shown replacements
  set changes := (course.desk.bench.edit entry.source replacements).1
  set later := course.next (.edit uri replacements)
  have hread {told : Desk} {grove : Grove Nat String}
      (hstate : told = Desk.grovePart.set grove
        { course.desk with bench := (course.desk.bench.edit entry.source replacements).2 }) :
      (Desk.ground.read told entry.source).text = later.textOf entry.source := by
    rw [htext, hstate]
    exact hwritten
  have hleads : Change.replay (entry.told ++ changes) entry.tree.text =
      later.textOf entry.source := by
    rw [Change.replay_append, hfollows.text, htext]
    exact Workbench.replay_applyAll _ _
  have htold := hfollows.editsOf_told changes
  cases hdone with
  | absent hnone => cases hentry.symm.trans hnone
  | idle hnone => exact absurd hnone (Workbench.applyAll_ne_nil _ hsome)
  | @unparsed found told fault trace _ hfound hstate hparse hparser =>
    obtain rfl : entry = found := Option.some.inj (hentry.symm.trans hfound)
    rw [hread hstate] at hparse
    have hreparse : course.reparse later entry = _ := hparse
    have hkept : later.entry? uri = some { entry with told := entry.told ++ changes } := by
      rw [hnext, hstate]
      exact Table.get?_insert_self _ _ _
    refine ⟨hleads, htold, ⟨rest, reparses_of_spares hspares, ?_⟩, ?_, fun _ _ => hkept⟩
    · rw [hreparse, hnext]
      simp only [List.append_assoc]
    · intro tree hmade
      rw [hreparse] at hmade
      cases hmade
  | @replaced found told planted tree trace _ hfound hstate htree hparse hparser hplanted =>
    obtain rfl : entry = found := Option.some.inj (hentry.symm.trans hfound)
    rw [hread hstate] at hparse htree
    have hreparse : course.reparse later entry = _ := hparse
    have hscene := (Desk.announce_leaves .changed uri).state planted
    have hplaced : later.entry? uri = some { entry with tree, told := [] } := by
      rw [hnext]
      refine (congrArg (fun scene : Scene => scene.holdings.entries.get? uri) hscene).trans ?_
      rw [hplanted]
      exact Table.get?_insert_self _ _ _
    have hquiet : reparses ((Forest.announce Desk.ground .changed uri planted).trace ++ rest) =
        [] := by
      have hannounced := (Desk.announce_leaves .changed uri).trace planted
      rw [reparses_append, reparses_of_spares hannounced, reparses_of_spares hspares]
      rfl
    refine ⟨hleads, htold, ⟨.treeDeleted entry.tree.number :: _, hquiet, ?_⟩, ?_, ?_⟩
    · rw [hreparse, hnext]
      simp only [List.append_assoc, List.cons_append]
    · intro other hmade
      rw [hreparse] at hmade
      obtain rfl : tree = other := Except.ok.inj hmade
      exact ⟨by rw [htree], by rw [htree], hplaced⟩
    · intro fault hfails
      rw [hreparse] at hfails
      cases hfails

/-- A step adds to the past, and gives a parser an old tree only when it edits the document that
has the tree. -/
theorem Step.edit_of_reparsed {happening : Happening} {later : Course}
    (h : course.Step happening later) :
    ∃ trace, later.past = course.past ++ trace ∧ ∀ number ∈ reparses trace,
      ∃ uri entry replacements, happening = .edit uri replacements ∧ replacements ≠ [] ∧
        course.entry? uri = some entry ∧ entry.tree.number = number := by
  have hnever {trace : List Event} {goal : Nat → Prop} (hnone : reparses trace = []) :
      ∀ number ∈ reparses trace, goal number := by
    rw [hnone]
    exact List.forall_mem_nil _
  cases h with
  | idle => exact ⟨[], (List.append_nil _).symm, hnever rfl⟩
  | appear document hnew => exact ⟨[], (List.append_nil _).symm, hnever rfl⟩
  | start hopen hgrove hspares => exact ⟨_, rfl, hnever (reparses_of_spares hspares)⟩
  | close hgrove => exact ⟨_, rfl, hnever (reparses_deletions _ _)⟩
  | @edit uri number replacements done rest hopen hdone hspares =>
    refine ⟨done.trace ++ rest, rfl, fun number hmem => ?_⟩
    rw [reparses_append, reparses_of_spares hspares, List.append_nil] at hmem
    obtain ⟨hchanges, entry, hentry, hnumber⟩ := mem_reparses_updated hdone hmem
    refine ⟨uri, entry, replacements, rfl, ?_, hentry, hnumber⟩
    rintro rfl
    exact hchanges rfl
  | answer hplace hdone => exact ⟨_, rfl, hnever (reparses_resumed hdone)⟩
  | aside happening hx => exact ⟨_, rfl, hnever (reparses_of_spares (hx.trace course.desk))⟩

/-- **No edit is lost.** In whatever order documents are opened, edited and closed and grammars
are loaded, and whatever texts cannot be parsed: the changes that each tree was told of lead from
the text it was parsed from to the present text of its document. So an edit hands the parser the
present text and an old tree that was told just what leads to it, a tree that comes of it is that
of the present text, and no parser is given an old tree at any other time. -/
theorem no_edit_lost (bench : Workbench) (catalog : Catalog) (happenings : List Happening) :
    let course := (Course.fresh bench catalog).after happenings
    (∀ uri entry, course.entry? uri = some entry → course.Current uri entry) ∧
      (∀ uri entry replacements, course.entry? uri = some entry → replacements ≠ [] →
        course.Reparsed (course.next (.edit uri replacements)) uri entry
          (course.desk.bench.edit entry.source replacements).1) ∧
      ∀ happening, ∃ trace, (course.next happening).past = course.past ++ trace ∧
        ∀ number ∈ reparses trace,
          ∃ uri entry replacements, happening = .edit uri replacements ∧ replacements ≠ [] ∧
            course.entry? uri = some entry ∧ entry.tree.number = number := by
  intro course
  have hstep : course.InStep := (inStep_fresh bench catalog).after happenings
  refine ⟨?_, ?_, ?_⟩
  · intro uri entry hentry
    have hfollows := Scene.InStep.follows hstep uri entry hentry
    exact ⟨hfollows.shown, hfollows.text, hfollows.told⟩
  · exact fun uri entry replacements hentry hsome => hstep.reparsed hentry hsome
  · exact fun happening => (hstep.step happening).edit_of_reparsed

/-- A document is edited while its grammar is on its way, gets its tree, and is then edited so
that it cannot be parsed. The old tree stays for the next edit, which gives the document a tree of
the text it has then. -/
theorem no_edit_lost_over_failure :
    let happenings : List Happening := [.appear "a" ⟨[120], [112]⟩, .job (.makeParser 0),
      .start "a" .direct, .edit "a" [⟨1, 0, [121]⟩], .answer 0 (.ok (some ⟨"l1", [], false⟩)),
      .edit "a" [⟨0, 0, [33, 33, 33]⟩]]
    let course := (Course.fresh {} (Catalog.make .empty .empty .empty)).after happenings
    let later := course.next (.edit "a" [⟨0, 2, []⟩])
    ∃ entry, course.entry? "a" = some entry ∧
      Change.replay entry.told [120, 121] = [33, 33, 33, 120, 121] ∧
      ∃ tree, tree.text = [33, 120, 121] ∧
        later.entry? "a" = some { entry with tree, told := [] } := by
  intro happenings course later
  have hfound : (course.entry? "a").map (fun entry => (entry.tree.text, entry.source)) =
      some ([120, 121], 0) := by decide +kernel
  have htext : course.textOf 0 = [33, 33, 33, 120, 121] := by decide +kernel
  have hlast : later.textOf 0 = [33, 120, 121] := by decide +kernel
  have hparsed : (course.entry? "a").map (fun entry => (course.reparse later entry).result.isOk) =
      some true := by decide +kernel
  obtain ⟨hcurrent, hreparsed, _⟩ :=
    no_edit_lost {} (Catalog.make .empty .empty .empty) happenings
  cases hentry : course.entry? "a" with
  | none =>
    rw [hentry] at hfound
    cases hfound
  | some entry =>
    rw [hentry] at hfound hparsed
    obtain ⟨hold, hsource⟩ := Prod.mk.inj (Option.some.inj hfound)
    have hleads := (hcurrent "a" entry hentry).leads
    have hreparse : course.Reparsed later "a" entry _ :=
      hreparsed "a" entry _ hentry (List.cons_ne_nil _ _)
    rw [hold, hsource] at hleads
    refine ⟨entry, rfl, hleads.trans htext, ?_⟩
    cases hresult : (course.reparse later entry).result with
    | error fault =>
      have hok : (course.reparse later entry).result.isOk = true := Option.some.inj hparsed
      rw [hresult] at hok
      cases hok
    | ok tree =>
      obtain ⟨hmade, _, hplaced⟩ := hreparse.replaced tree hresult
      rw [hsource] at hmade
      exact ⟨tree, hmade.trans hlast, hplaced⟩

end Course

end ClosingLabels
