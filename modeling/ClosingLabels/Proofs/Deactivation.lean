import ClosingLabels.Proofs.Fixtures
import ClosingLabels.Proofs.Teardown

/-!
# What deactivation releases

When the plugin is taken down it switches all labels off, closes all documents, drops the
patterns, the decoration type and the parser. Tasks and requests that are left then still
run, but no opening is awaited any more, so none of them makes a tree or a query. Only a
start of the toolkit that is under way goes on as if nothing had happened: the parser that it
brings is never dropped.
-/

namespace ClosingLabels

open ClosingLabels.Action (Leaves Maintains Keeping)

/-! ## Nothing is left to hold anything -/

section

variable {D : Type} {past : List Event} {stock : Stock D}

/-- Where nothing is held, every tree was deleted, each once. -/
theorem Tended.count_tree (h : Tended past stock)
    (hnone : ∀ document, stock.entries.get? document = none) {n : Nat} (hpos : 0 < n)
    (hmade : n ≤ stock.trees) : (deleted past).count (.tree n) = 1 := by
  refine List.count_eq_one_of_mem h.careful.nodup_deleted (by_contra fun hkept => ?_)
  obtain ⟨document, entry, hget, -⟩ := (h.trees.holds_iff n).mpr ⟨⟨hpos, hmade⟩, hkept⟩
  cases (hnone document).symm.trans hget

/-- So was every query. -/
theorem Tended.count_query (h : Tended past stock) (hnone : stock.queries = .empty) {n : Nat}
    (hpos : 0 < n) (hmade : n ≤ stock.compiled) : (deleted past).count (.query n) = 1 := by
  refine List.count_eq_one_of_mem h.careful.nodup_deleted (by_contra fun hkept => ?_)
  have hholds := (h.queries.holds_iff n).mpr ⟨⟨hpos, hmade⟩, hkept⟩
  rw [hnone] at hholds
  exact Table.not_holds_empty _ _ hholds

end

namespace Workshop

variable {W C : Type}

/-- What taking the plugin down does not touch: how many trees and queries were made, and the tasks
and requests that are left. -/
def unfinished (workshop : Workshop W C) : (Nat × Nat) × List (Task W C) × List Request :=
  (workshop.made, workshop.tasks, workshop.requests)

/-- As many starts are under way. -/
theorem starts_congr {workshop other : Workshop W C} (h : workshop.unfinished = other.unfinished) :
    workshop.starts = other.starts := by
  obtain ⟨-, hqueues⟩ := Prod.mk.inj h
  obtain ⟨htasks, hrequests⟩ := Prod.mk.inj hqueues
  rw [starts, starts, htasks, hrequests]

end Workshop

namespace Forest

variable {σ D L : Type} (part : Lens σ (Grove D L))

/-- Taking a forest down succeeds, and leaves no entry, no opening and no query. -/
theorem dispose_empty (s : σ) :
    let done := dispose part s
    let forest := (part.get done.state).forest
    done.result = .ok () ∧ (∀ document, forest.entries.get? document = none) ∧
      forest.pending = .empty ∧ forest.cache.queries = .empty := by
  obtain ⟨closed, trace, hclosed, hnone⟩ := closeEvery_apply part s
  dsimp only
  unfold dispose
  rw [Action.bind_of_quiet (Action.look_apply _ _), Action.bind_of_ok hclosed,
    Action.bind_of_quiet (edit_apply _ _ _), resetPatterns_apply]
  simp only [part.get_set]
  exact ⟨trivial, hnone, rfl, rfl⟩

/-- It makes nothing, and leaves tasks and requests. -/
theorem dispose_unfinished :
    Leaves (fun s => (part.get s).workshop.unfinished) (fun _ => True) (dispose part) := by
  intro seen
  have hset {grove : Grove D L} {past trace : List Event} {s : σ}
      (hs : Keeping (fun s => (part.get s).workshop.unfinished) (fun _ => True) seen past s)
      (hsame : grove.workshop.unfinished = (part.get s).workshop.unfinished) :
      Keeping (fun s => (part.get s).workshop.unfinished) (fun _ => True) seen (past ++ trace)
        (part.set grove s) := by
    refine ⟨?_, fun _ _ => trivial⟩
    simp only [part.get_set]
    exact hsame.trans hs.1
  have hclosed := closeAll_leaves part (fun grove => grove.workshop.unfinished) fun _ _ => rfl
  refine .bind (.gets _) fun grove => .bind (hclosed _ seen) fun _ => ?_
  refine .bind (fun past s hs => hset hs rfl) fun _ past s hs => ?_
  rw [resetPatterns_apply]
  exact hset hs rfl

end Forest

namespace Desk

/-! ## Taking everything down -/

theorem calm_core (seen : Core) : Calm (Keeping core Event.Idle seen) := by
  rintro past trace desk after ⟨hseen, hpast⟩ hcore hidle
  exact ⟨hcore.trans hseen, List.forall_mem_append.mpr ⟨hpast, hidle⟩⟩

/-- Where all editors take decorations, everything can be switched off. -/
theorem disableAll_of_accepting {desk : Desk} (h : desk.bench.screen.Accepting) :
    (Switchboard.dispose boardSite desk).result = .ok () := by
  have htorn := disableAll_tornDown desk
  dsimp only at htorn
  cases hresult : (Switchboard.dispose boardSite desk).result with
  | ok done => rfl
  | error fault =>
    rw [hresult] at htorn
    obtain ⟨gone, last, rest, -, hlast, -⟩ := htorn
    cases (Screen.flushFault?_of_accepting h last).symm.trans hlast

/-- What is left when the plugin was taken down: no entry, no opening that is awaited, no query and
no fixture. Nothing was made, and tasks and requests are left. -/
structure Emptied (desk after : Desk) : Prop where
  entries : ∀ document, after.plugin.forest.entries.get? document = none
  pending : after.plugin.forest.pending = .empty
  queries : after.plugin.forest.cache.queries = .empty
  parser : after.plugin.grammars.parser = none
  type : after.plugin.decorations.type = none
  unfinished : (workshopPart.get after).unfinished = (workshopPart.get desk).unfinished

theorem Emptied.fixtures {desk after : Desk} (h : desk.Emptied after) :
    after.outfit.fixtures = [] := by
  have hparser : after.outfit.parser = none := h.parser
  have htype : after.outfit.type = none := h.type
  rw [Outfit.fixtures, hparser, htype]
  rfl

/-- A desk without fixtures. -/
def stripped (desk : Desk) (deletedParsers : List Nat) : Desk :=
  { desk with
    bench := { desk.bench with toolkit := { desk.bench.toolkit with deletedParsers } }
    plugin := { desk.plugin with
      decorations := { desk.plugin.decorations with type := none, documents := .empty }
      grammars := { desk.plugin.grammars.reset with parser := none, current := none } } }

/-- At the end the decoration type is dropped and the parser is deleted, where they are there. -/
theorem dropFixtures_apply (desk : Desk) :
    ∃ deletedParsers, (do
        Action.zoom displayPart Display.dispose
        disposeGrammars : Action Desk Unit) desk =
      ⟨.ok (), desk.stripped deletedParsers,
        desk.outfit.type.toList.map .decorationTypeDropped ++
          desk.outfit.parser.toList.map .parserDeleted⟩ := by
  obtain ⟨deletedParsers, hgrammars⟩ := Workshop.dispose_apply (workshopPart.get desk)
  set decorations : Decorations :=
    { desk.plugin.decorations with type := none, documents := .empty }
  have hdisplay : Action.zoom displayPart Display.dispose desk =
      ⟨.ok (), displayPart.set { displayPart.get desk with decorations } desk,
        desk.outfit.type.toList.map .decorationTypeDropped⟩ := by
    have htype : (displayPart.get desk).decorations.type = desk.outfit.type := rfl
    rw [Action.zoom_apply, Display.dispose, Action.bind_of_quiet (Action.get_apply _), htype]
    cases desk.outfit.type <;> rfl
  refine ⟨deletedParsers, ?_⟩
  rw [Action.bind_of_ok hdisplay, disposeGrammars, Action.zoom_apply]
  have hsame : workshopPart.get (displayPart.set { displayPart.get desk with decorations } desk) =
      workshopPart.get desk := rfl
  rw [hsame, hgrammars]
  rfl

/-- The fixtures of a desk, as they are dropped. -/
theorem fixturesDropped_takeDown (type parser : Option Nat) :
    fixturesDropped (type.toList.map .decorationTypeDropped ++ parser.toList.map .parserDeleted) =
      type.toList.map .decorationType ++ parser.toList.map .parser := by
  cases type <;> cases parser <;> rfl

/-- What is dropped is what was there. A start of the toolkit that is under way has not brought its
parser yet, so none is deleted then. -/
theorem stripped_equips {past : List Event} {desk : Desk} (h : Equips .working past desk)
    (deletedParsers : List Nat) :
    let dropped := desk.outfit.type.toList.map .decorationTypeDropped ++
      desk.outfit.parser.toList.map .parserDeleted
    ∃ gone, Equips (.ended gone desk.outfit.starts) (past ++ dropped)
        (desk.stripped deletedParsers) ∧
      gone.Nodup ∧ (desk.outfit.starts ≠ 0 → ∀ number, .parser number ∉ gone) := by
  dsimp only
  have hdropped := fixturesDropped_takeDown desk.outfit.type desk.outfit.parser
  refine ⟨_, Equipped.takeDown h ?_ ?_, ?_, fun hstarts number hmem => ?_⟩
  · cases desk.outfit.type <;> cases desk.outfit.parser <;> rfl
  · rw [hdropped]
    exact List.perm_append_comm
  · rw [hdropped]
    cases desk.outfit.type <;> cases desk.outfit.parser <;> simp
  · rw [hdropped] at hmem
    have hsingle := h.single
    cases hparser : desk.outfit.parser with
    | none => simp [hparser] at hmem
    | some other =>
      rw [Outfit.parsers, hparser, Option.toList_some, List.length_singleton] at hsingle
      omega

/-- Taking the plugin down where all editors take decorations. -/
theorem deactivated_empties {closed : String → Prop} {stage : Stage} {before past : List Event}
    {desk : Desk} (hordered : Ordered closed stage before desk)
    (hequips : Equips .working past desk) (haccepting : desk.bench.screen.Accepting) :
    let closing := Occurrence.deactivated.actNow desk
    closing.result = .ok () ∧ desk.Emptied closing.state ∧
      ∃ gone, Equips (.ended gone desk.outfit.starts) (past ++ closing.trace) closing.state ∧
        gone.Nodup ∧ (desk.outfit.starts ≠ 0 → ∀ number, .parser number ∉ gone) := by
  -- All labels are off after the first step, so the second has nothing to do.
  have hdark := disableAll_ordered before desk hordered
  have hlit := tidy.dispose_board (disableAll_of_accepting haccepting)
  have hcore := (Surrounded.disableAll (calm_core desk.core).surrounded [] desk ⟨rfl, by simp⟩).1
  have hswitched := equips_surrounded.disableAll past desk hequips
  have hswitching := Action.eq_of_result (disableAll_of_accepting haccepting)
  generalize (Switchboard.dispose boardSite desk).state = off at *
  generalize (Switchboard.dispose boardSite desk).trace = switching at *
  have hclearing : Overlay.dispose overlaySite off = ⟨.ok (), off, []⟩ :=
    disposeOverlay_dark ⟨hdark, hlit⟩
  -- Then the forest is taken down, and what is left are the fixtures.
  obtain ⟨hresult, hentries, hpending, hqueries⟩ := Forest.dispose_empty grovePart off
  have hunfinished := (Forest.dispose_unfinished grovePart).state off
  have hfelled := disposeForest_equips _ _ hswitched
  have hfelling := Action.eq_of_result hresult
  generalize (Forest.dispose grovePart off).state = last at *
  generalize (Forest.dispose grovePart off).trace = felling at *
  obtain ⟨deletedParsers, hdropping⟩ := dropFixtures_apply last
  have hsame : (workshopPart.get last).unfinished = (workshopPart.get desk).unfinished :=
    hunfinished.trans (congrArg (fun core => core.grove.workshop.unfinished) hcore)
  have hstripped := stripped_equips hfelled deletedParsers
  rw [show last.outfit.starts = desk.outfit.starts from Workshop.starts_congr hsame] at hstripped
  dsimp only
  rw [Occurrence.actNow, Desk.dispose]
  simp only [bind_assoc]
  rw [Action.bind_of_ok hswitching, Action.bind_of_quiet hclearing, Action.bind_of_ok hfelling,
    hdropping]
  refine ⟨rfl, ⟨hentries, hpending, hqueries, rfl, rfl, hsame⟩, ?_⟩
  simpa only [List.append_assoc] using hstripped

/-! ## Afterwards -/

/-- The oldest task is taken, or the toolkit finishes a request. -/
def Occurrence.Finishes : Occurrence → Prop
  | .task | .complete _ => True
  | _ => False

instance : (occurrence : Occurrence) → Decidable occurrence.Finishes
  | .task | .complete _ => .isTrue trivial
  | .become _ | .opened _ | .closed _ | .changed _ _ | .shown _ | .called _ | .settingsChanged
  | .deactivated => .isFalse id

/-- What counts of trees, queries and decorations: the forest, the decorations, and how many trees
and queries were made. -/
structure Estate where
  forest : Forest Nat String
  decorations : Decorations
  made : Nat × Nat

/-- The estate of a desk. -/
def estate (desk : Desk) : Estate :=
  ⟨desk.plugin.forest, desk.plugin.decorations, (workshopPart.get desk).made⟩

section

variable {seen : Estate}

/-- Loading goes on by itself. -/
theorem zoomWorkshop_estate {α : Type} {x : Action (Workshop (Waiter Nat) (Work Nat)) α}
    (hx : Leaves Workshop.made Event.Idle x) :
    Maintains (Keeping estate Event.Idle seen) (Action.zoom workshopPart x) := by
  refine Keeping.zoom (fun t u desk hmade => ?_) hx
  simp only [estate, workshopPart.get_set, hmade]
  rfl

theorem push_estate (work : Work Nat) :
    Maintains (Keeping estate Event.Idle seen) (push work) :=
  zoomWorkshop_estate fun _ => Keeping.modify fun _ => rfl

/-- Where no opening is awaited, none goes on. -/
theorem resume_estate (hpending : seen.forest.pending = .empty) (opening : Opening Nat)
    (answer : Answer) :
    Maintains (Keeping estate Event.Idle seen) (Forest.resume ground opening answer) := by
  intro past desk h
  have hnone : (Forest.holdings ground.part desk).pending.get? opening.document = none := by
    have hforest : desk.plugin.forest = seen.forest := congrArg Estate.forest h.1
    change desk.plugin.forest.pending.get? opening.document = none
    rw [hforest, hpending]
    rfl
  have hresumed := Forest.resume_resumed ground opening answer desk
  generalize Forest.resume ground opening answer desk = outcome at hresumed
  cases hresumed with
  | rejected fault => simpa using h
  | stale found hstale =>
    have hidle : (Event.log (.staleParse opening.document)).Idle := rfl
    exact Keeping.emit hidle past desk h
  | unavailable hlatest => cases hnone.symm.trans hlatest
  | unparsed hlatest hsettled hparse hparser => cases hnone.symm.trans hlatest
  | stored hlatest hsettled htree hparse hparser hplanted => cases hnone.symm.trans hlatest

/-- So what is left to do leaves trees, queries and decorations as they are. -/
theorem Occurrence.Finishes.estate {occurrence : Occurrence} (hfinishes : occurrence.Finishes)
    (hpending : seen.forest.pending = .empty) :
    Maintains (Keeping estate Event.Idle seen) occurrence.actNow := by
  cases occurrence with
  | task =>
    refine takeTask_maintains (fun _ _ _ h => h) fun task => ?_
    exact perform_maintains (fun _ hmessage => Keeping.emit hmessage.idle) push_estate
      (fun job => zoomWorkshop_estate (Workshop.perform_idle job)) (resume_estate hpending) task
  | complete place =>
    exact finishRequest_maintains (fun _ _ _ h => h)
      (fun asked => zoomWorkshop_estate (Workshop.complete_idle asked)) place
  | _ => cases hfinishes

theorem Occurrence.Finishes.equips {occurrence : Occurrence} (hfinishes : occurrence.Finishes)
    (phase : Phase) : Maintains (Equips phase) occurrence.actNow := by
  cases occurrence with
  | task => exact takeTask_equips
  | complete place => exact finishRequest_equips place
  | _ => cases hfinishes

end

/-! ## Runs -/

/-- Trees and queries live as long as they are held, whatever happens to the plugin at work. -/
theorem tends_abiding : Abiding Tends where
  toSurrounded := calm_tends.surrounded
  become bench := (Deed.become bench).act_tends
  push := push_tends
  forget := Deed.forget.act_tends
  start _ _ _ _ _ := Forest.start_tends _ _ _ _ _
  update document buffer changes := (Deed.update document buffer changes).act_tends
  close := Forest.close_tends
  resetPatterns := Forest.resetPatterns_tends
  redraw := refresh_tends
  task := Deed.task.act_tends
  finish place := (Deed.complete place).act_tends

theorem Occurrence.actNow_tends (occurrence : Occurrence) : Maintains Tends occurrence.actNow := by
  by_cases hactive : occurrence = .deactivated
  · subst hactive
    refine .bind (.bind calm_tends.surrounded.disableAll fun _ => ?_) fun _ => Deed.unload.act_tends
    refine .bind calm_tends.discreet.dispose fun _ => .bind Forest.dispose_tends fun _ => ?_
    exact calm_tends.maintains (zoomDisplay_idle Display.dispose_leaves)
  · exact tends_abiding.actNow hactive

/-- **Deactivation.** Take any run of the plugin, up to a moment at which all editors take
decorations, and take the plugin down then; afterwards tasks are taken and requests are finished
in any order. Taking it down succeeds. Every tree and every query that was ever made has been
deleted once, and none is made afterwards. Every parser and decoration type that was made by then
has been dropped once. Afterwards no decoration type is made, and a parser only by a start of the
toolkit that was under way; such a parser is not deleted, and it is made for every such start if the
toolkit can start and nothing is left to be done. -/
theorem released_after_deactivation (bench : Workbench) (catalog : Catalog)
    (options : OverlayOptions) (before after : List Occurrence)
    (hactive : .deactivated ∉ before) (hafter : ∀ occurrence ∈ after, occurrence.Finishes) :
    let start := activated bench catalog options
    let desk := Action.finish Occurrence.actNow start before
    let closing := Occurrence.deactivated.actNow desk
    let now := Action.finish Occurrence.actNow closing.state after
    let past := Action.history Occurrence.actNow start before ++ closing.trace
    let late := Action.history Occurrence.actNow closing.state after
    desk.bench.screen.Accepting →
      closing.result = .ok () ∧
      (∀ n, 0 < n → n ≤ now.bench.toolkit.trees → (deleted (past ++ late)).count (.tree n) = 1) ∧
      (∀ n, 0 < n → n ≤ now.bench.toolkit.queries →
        (deleted (past ++ late)).count (.query n) = 1) ∧
      (now.bench.toolkit.trees = desk.bench.toolkit.trees ∧
        now.bench.toolkit.queries = desk.bench.toolkit.queries) ∧
      (∀ fixture ∈ fixturesMade past, (fixturesDropped (past ++ late)).count fixture = 1) ∧
      (∀ fixture ∈ fixturesMade late, ∃ number, fixture = .parser number ∧
        fixture ∉ fixturesDropped (past ++ late)) ∧
      (fixturesMade late).length ≤ desk.outfit.starts ∧
      (now.bench.toolkit.startError = none → now.tasks = [] → now.requests = [] →
        (fixturesMade late).length = desk.outfit.starts) := by
  intro start desk closing now past late haccepting
  have hordered : Ordered (fun _ => False) desk.stage [] desk :=
    ordered_after before (fun _ h => h.elim) (activated_ordered bench catalog options)
  have hfirst : Equips .working [] start :=
    ⟨rfl, List.Perm.refl _, Nat.zero_le _, fun _ => rfl⟩
  have hworking := equips_abiding.run hactive hfirst
  obtain ⟨hresult, hemptied, gone, hended, hnodup, hgone⟩ :=
    deactivated_empties hordered hworking haccepting
  have hclosed : Keeping estate Event.Idle closing.state.estate [] closing.state :=
    ⟨rfl, by simp⟩
  have hestate := Maintains.steps
    (fun occurrence hmem => (hafter occurrence hmem).estate hemptied.pending) hclosed
  have hlast : Equips (.ended gone desk.outfit.starts) (past ++ late) now :=
    Maintains.steps (fun occurrence hmem => (hafter occurrence hmem).equips _) hended
  have hfresh : Tends [] start := Tended.empty
  have htends : Tends (past ++ late) now := by
    have hdesk := Maintains.script Occurrence.actNow_tends hfresh before
    exact Maintains.script Occurrence.actNow_tends (Occurrence.actNow_tends _ _ _ hdesk) after
  have hforest : now.plugin.forest = closing.state.plugin.forest :=
    congrArg Estate.forest hestate.1
  have hmade : (workshopPart.get now).made = (workshopPart.get desk).made :=
    (congrArg Estate.made hestate.1).trans (congrArg Prod.fst hemptied.unfinished)
  have htype : now.outfit.type = none :=
    (congrArg (fun estate => estate.decorations.type) hestate.1).trans hemptied.type
  obtain ⟨hreleased, hmadeLate⟩ := Equipped.released hended hemptied.fixtures hnodup hlast
  obtain ⟨hparsers, hbound, hall⟩ := Equipped.late hlast htype hgone hmadeLate
  refine ⟨hresult, fun n => htends.count_tree fun document => ?_, fun n => htends.count_query ?_,
    Prod.mk.inj hmade, hreleased, hparsers, hbound, fun hstart htasks hrequests => ?_⟩
  · exact (congrArg (fun forest => forest.entries.get? document) hforest).trans
      (hemptied.entries document)
  · exact (congrArg (fun forest => forest.cache.queries) hforest).trans hemptied.queries
  · have hstarts : now.outfit.starts =
        now.requests.countP Request.starts + now.tasks.countP Task.launches := rfl
    rw [hrequests, htasks, List.countP_nil, List.countP_nil] at hstarts
    exact hall (Option.isNone_iff_eq_none.mpr hstart) hstarts

/-- A document is opened, parsed and painted, and another one is opened when the plugin is taken
down. The tree, the query, the parser and the decoration type of the first are released, and the
opening of the second comes to nothing. -/
theorem released_after_deactivation_with_an_opening_left :
    let before : List Occurrence := [.become (editorShowing ["a"]), .opened 0, .complete 0] ++
      List.replicate 4 .task ++ [.complete 0] ++ List.replicate 6 .task ++
      [.shown [⟨"e", some 0, none⟩], .become (editorShowing ["a", "b"]), .opened 1]
    let after : List Occurrence := List.replicate 3 .task
    let desk := Action.finish Occurrence.actNow outset before
    let closing := Occurrence.deactivated.actNow desk
    let now := Action.finish Occurrence.actNow closing.state after
    let whole := Action.history Occurrence.actNow outset before ++ closing.trace ++
      Action.history Occurrence.actNow closing.state after
    .deactivated ∉ before ∧ (∀ occurrence ∈ after, occurrence.Finishes) ∧
      desk.bench.screen.Accepting ∧ closing.result = .ok () ∧
      (0 < 1 ∧ 1 ≤ now.bench.toolkit.trees ∧ (deleted whole).count (.tree 1) = 1) ∧
      (1 ≤ now.bench.toolkit.queries ∧ (deleted whole).count (.query 1) = 1) ∧
      fixturesMade whole = [.parser 1, .decorationType 1] ∧
      (fixturesDropped whole).count (.parser 1) = 1 ∧
      (fixturesDropped whole).count (.decorationType 1) = 1 := by
  intro before after desk closing now whole
  have hactive : .deactivated ∉ before := by simp [before]
  have hafter : ∀ occurrence ∈ after, occurrence.Finishes := by decide
  obtain ⟨haccepting, htrees, hqueries, hwhole, hpast⟩ : desk.bench.screen.Accepting ∧
      1 ≤ now.bench.toolkit.trees ∧ 1 ≤ now.bench.toolkit.queries ∧
      fixturesMade whole = [.parser 1, .decorationType 1] ∧
      fixturesMade (Action.history Occurrence.actNow outset before ++ closing.trace) =
        [.parser 1, .decorationType 1] := by
    decide +kernel
  obtain ⟨hresult, hdeleted, hqueried, _, hdropped, _⟩ :=
    released_after_deactivation (editorWith []) _ {} before after hactive hafter haccepting
  exact ⟨hactive, hafter, haccepting, hresult, ⟨Nat.one_pos, htrees, hdeleted 1 Nat.one_pos htrees⟩,
    ⟨hqueries, hqueried 1 Nat.one_pos hqueries⟩, hwhole, hdropped _ (hpast ▸ by simp),
    hdropped _ (hpast ▸ by simp)⟩

/-- The plugin is taken down while the toolkit starts. All editors take decorations, the toolkit
starts, and in the end nothing is left to be done; but there is a parser that was never deleted. -/
theorem parser_kept_after_deactivation :
    let before : List Occurrence := [.become (editorWith ["a"]), .opened 0]
    let after : List Occurrence := [.complete 0] ++ List.replicate 4 .task ++ [.complete 0] ++
      List.replicate 5 .task
    let desk := Action.finish Occurrence.actNow outset before
    let closing := Occurrence.deactivated.actNow desk
    let now := Action.finish Occurrence.actNow closing.state after
    let whole := Action.history Occurrence.actNow outset before ++ closing.trace ++
      Action.history Occurrence.actNow closing.state after
    desk.bench.screen.Accepting ∧ (∀ occurrence ∈ after, occurrence.Finishes) ∧
      now.bench.toolkit.startError = none ∧ now.tasks = [] ∧ now.requests = [] ∧
      .parser 1 ∈ fixturesMade whole ∧ .parser 1 ∉ fixturesDropped whole := by
  decide +kernel

end Desk

end ClosingLabels
