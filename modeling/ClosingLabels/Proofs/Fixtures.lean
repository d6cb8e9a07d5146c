import ClosingLabels.Proofs.Abiding
import Mathlib.Data.List.Perm.Basic

/-!
# The parser and the decoration type

Beside trees and queries the plugin makes a parser and a decoration type, one of each, and
has to drop both when it is taken down. The type is made when an editor is first painted and
is at hand at once. The parser is made only after the toolkit has started, which takes its
time, so what counts for it is the parser that is there or the start that will bring it.
-/

namespace ClosingLabels

open ClosingLabels.Action (Leaves Maintains Keeping)

/-- Something that is made once and shared by all documents. -/
inductive Fixture where
  | parser (number : Nat)
  | decorationType (number : Nat)
deriving DecidableEq, Repr

namespace Event

/-- The fixture that an event makes. -/
def makes : Event → Option Fixture
  | .parserMade number => some (.parser number)
  | .decorationTypeMade number => some (.decorationType number)
  | _ => none

/-- The fixture that an event drops. -/
def drops : Event → Option Fixture
  | .parserDeleted number => some (.parser number)
  | .decorationTypeDropped number => some (.decorationType number)
  | _ => none

/-- An event that neither makes nor drops a fixture. -/
def SparesFixtures (event : Event) : Prop := event.makes = none ∧ event.drops = none

theorem Spoken.sparesFixtures {event : Event} (h : event.Spoken) : event.SparesFixtures := by
  cases event <;> first | exact ⟨rfl, rfl⟩ | cases h

theorem ForUser.sparesFixtures {event : Event} (h : event.ForUser) : event.SparesFixtures := by
  cases event <;> first | exact ⟨rfl, rfl⟩ | cases h

theorem OfSearch.sparesFixtures {event : Event} (h : event.OfSearch) : event.SparesFixtures := by
  cases event <;> first | exact ⟨rfl, rfl⟩ | cases h

theorem OfParser.sparesFixtures {event : Event} {old : Option Nat} (h : event.OfParser old) :
    event.SparesFixtures := by
  cases event <;> first | exact ⟨rfl, rfl⟩ | cases h

end Event

/-- The fixtures that were made, in order. -/
def fixturesMade (past : List Event) : List Fixture := past.filterMap Event.makes

/-- The fixtures that were dropped, in order. -/
def fixturesDropped (past : List Event) : List Fixture := past.filterMap Event.drops

@[simp] theorem fixturesMade_append (past trace : List Event) :
    fixturesMade (past ++ trace) = fixturesMade past ++ fixturesMade trace :=
  List.filterMap_append

@[simp] theorem fixturesDropped_append (past trace : List Event) :
    fixturesDropped (past ++ trace) = fixturesDropped past ++ fixturesDropped trace :=
  List.filterMap_append

/-! ## What counts of fixtures -/

/-- What counts of the fixtures: the parser and the decoration type that are there, the start of
the toolkit that is counted on, how many starts are under way, and whether the toolkit can start. -/
structure Outfit where
  parser : Option Nat
  type : Option Nat
  current : Option Nat
  starts : Nat
  startable : Bool

namespace Outfit

/-- The fixtures that are there. -/
def fixtures (outfit : Outfit) : List Fixture :=
  outfit.parser.toList.map .parser ++ outfit.type.toList.map .decorationType

/-- The parsers that are there or will be. -/
def parsers (outfit : Outfit) : Nat := outfit.parser.toList.length + outfit.starts

end Outfit

/-- How far the plugin has come: it is at work, or it was taken down when so many starts were under
way, and has dropped these fixtures. -/
inductive Phase where
  | working
  | ended (gone : List Fixture) (starts : Nat)

namespace Phase

/-- The fixtures that were dropped. -/
def gone : Phase → List Fixture
  | working => []
  | ended gone _ => gone

/-- What is known of the starts of the toolkit. At work, the plugin counts on whatever is under way;
afterwards, what was under way goes on and brings its parser, unless the toolkit cannot start. -/
def Admits : Phase → Outfit → Prop
  | working, outfit => outfit.current = none → outfit.parsers = 0
  | ended _ starts, outfit =>
    outfit.parsers ≤ starts ∧ (outfit.startable = true → outfit.parsers = starts)

end Phase

/-- All fixtures that were made are there or were dropped, each once, and there is one parser at
most, here or on its way. -/
structure Equipped (phase : Phase) (past : List Event) (outfit : Outfit) : Prop where
  dropped : fixturesDropped past = phase.gone
  made : (fixturesMade past).Perm (phase.gone ++ outfit.fixtures)
  single : outfit.parsers ≤ 1
  admitted : phase.Admits outfit

namespace Equipped

variable {phase : Phase} {past trace : List Event} {outfit : Outfit}

/-- Nothing else matters. -/
theorem spare (h : Equipped phase past outfit) (hspares : ∀ event ∈ trace, event.SparesFixtures) :
    Equipped phase (past ++ trace) outfit := by
  have hmade : fixturesMade trace = [] :=
    List.filterMap_eq_nil_iff.mpr fun event hevent => (hspares event hevent).1
  have hdropped : fixturesDropped trace = [] :=
    List.filterMap_eq_nil_iff.mpr fun event hevent => (hspares event hevent).2
  refine ⟨?_, ?_, h.single, h.admitted⟩
  · rw [fixturesDropped_append, hdropped, List.append_nil]
    exact h.dropped
  · rw [fixturesMade_append, hmade, List.append_nil]
    exact h.made

theorem spareOne (h : Equipped phase past outfit) (event : Event)
    (hspares : event.SparesFixtures) :
    Equipped phase (past ++ [event]) outfit :=
  h.spare (List.forall_mem_singleton.mpr hspares)

/-- A decoration type may be made where there is none. -/
theorem makeType (h : Equipped phase past outfit) (hnone : outfit.type = none) (number : Nat) :
    Equipped phase (past ++ [.decorationTypeMade number]) { outfit with type := some number } := by
  refine ⟨?_, ?_, h.single, ?_⟩
  · rw [fixturesDropped_append]
    exact (List.append_nil _).trans h.dropped
  · have hmade := h.made.append_right [.decorationType number]
    rw [Outfit.fixtures, hnone] at hmade
    simpa [fixturesMade, Event.makes, Outfit.fixtures] using hmade
  · cases phase <;> exact h.admitted

/-- A start that is under way brings its parser. -/
theorem launch (h : Equipped phase past { outfit with starts := outfit.starts + 1 })
    (number : Nat) :
    Equipped phase (past ++ [.parserMade number]) { outfit with parser := some number } := by
  have hnone : outfit.parser = none := by
    have hsingle := h.single
    cases hparser : outfit.parser with
    | none => rfl
    | some other =>
      simp only [Outfit.parsers, hparser, Option.toList_some, List.length_singleton] at hsingle
      omega
  have hsame : ({ outfit with parser := some number } : Outfit).parsers =
      ({ outfit with starts := outfit.starts + 1 } : Outfit).parsers := by
    simp [Outfit.parsers, hnone, Nat.add_comm]
  refine ⟨?_, ?_, hsame ▸ h.single, ?_⟩
  · rw [fixturesDropped_append]
    exact (List.append_nil _).trans h.dropped
  · have hmade := h.made
    simp only [Outfit.fixtures, hnone, Option.toList_none, List.map_nil, List.nil_append] at hmade
    rw [fixturesMade_append]
    refine (hmade.append_right _).trans ?_
    exact (List.perm_append_singleton _ _).trans List.perm_middle.symm
  · have hadmitted := h.admitted
    cases phase with
    | working => exact fun hcurrent => hsame.trans (hadmitted hcurrent)
    | ended gone starts =>
      exact ⟨hsame ▸ hadmitted.1, fun hstartable => hsame.trans (hadmitted.2 hstartable)⟩

/-- A start fails if the toolkit cannot start. -/
theorem fail (h : Equipped phase past { outfit with starts := outfit.starts + 1 })
    (hcannot : outfit.startable = false) : Equipped phase past outfit := by
  refine ⟨h.dropped, h.made, Nat.le_of_succ_le h.single, ?_⟩
  have hadmitted := h.admitted
  cases phase with
  | working => exact fun hcurrent => absurd (hadmitted hcurrent) (Nat.succ_ne_zero _)
  | ended gone starts =>
    refine ⟨Nat.le_of_succ_le hadmitted.1, fun hstartable => ?_⟩
    cases hcannot.symm.trans hstartable

/-- At work, a start is asked for when none is counted on. -/
theorem ask (h : Equipped .working past outfit) (hcurrent : outfit.current = none) (number : Nat) :
    Equipped .working past
      { outfit with current := some number, starts := outfit.starts + 1 } := by
  have hnone : outfit.parsers = 0 := h.admitted hcurrent
  refine ⟨h.dropped, h.made, ?_, ?_⟩
  · exact Nat.succ_le_succ (Nat.le_of_eq hnone)
  · intro hcurrent
    cases hcurrent

/-- When the plugin is taken down, all fixtures are dropped that are there. -/
theorem takeDown (h : Equipped .working past outfit) (hmade : fixturesMade trace = [])
    (hdropped : (fixturesDropped trace).Perm outfit.fixtures) :
    Equipped (.ended (fixturesDropped trace) outfit.starts) (past ++ trace)
      { outfit with parser := none, type := none, current := none } := by
  refine ⟨?_, ?_, ?_, ?_⟩
  · rw [fixturesDropped_append, h.dropped]
    rfl
  · rw [fixturesMade_append, hmade, List.append_nil]
    exact h.made.trans (by simpa [Phase.gone, Outfit.fixtures] using hdropped.symm)
  · have hsingle := h.single
    simp only [Outfit.parsers, Option.toList_none, List.length_nil] at hsingle ⊢
    omega
  · exact ⟨Nat.le_of_eq (Nat.zero_add _), fun _ => Nat.zero_add _⟩

/-- Whatever was made by the time the plugin was taken down was dropped, each once. What was made
later is still there. -/
theorem released {gone : List Fixture} {starts : Nat} {after : Outfit}
    (h : Equipped (.ended gone starts) past outfit) (hnone : outfit.fixtures = [])
    (hnodup : gone.Nodup) (hafter : Equipped (.ended gone starts) (past ++ trace) after) :
    (∀ fixture ∈ fixturesMade past, (fixturesDropped (past ++ trace)).count fixture = 1) ∧
      (fixturesMade trace).Perm after.fixtures := by
  have hmade : (fixturesMade past).Perm gone := by
    have hmade := h.made
    rwa [hnone, List.append_nil] at hmade
  constructor
  · intro fixture hfixture
    rw [hafter.dropped]
    exact List.count_eq_one_of_mem hnodup (hmade.mem_iff.mp hfixture)
  · have hall := hafter.made
    rw [fixturesMade_append] at hall
    exact (List.perm_append_left_iff _).mp ((hmade.append_right _).symm.trans hall)

/-- Without a decoration type, what was made later are parsers that nobody deletes, and each start
that was under way has brought one in the end. -/
theorem late {gone : List Fixture} {starts : Nat}
    (h : Equipped (.ended gone starts) (past ++ trace) outfit) (htype : outfit.type = none)
    (hgone : starts ≠ 0 → ∀ number, .parser number ∉ gone)
    (hmade : (fixturesMade trace).Perm outfit.fixtures) :
    (∀ fixture ∈ fixturesMade trace, ∃ number, fixture = .parser number ∧
        fixture ∉ fixturesDropped (past ++ trace)) ∧
      (fixturesMade trace).length ≤ starts ∧
      (outfit.startable = true → outfit.starts = 0 → (fixturesMade trace).length = starts) := by
  have hfixtures : outfit.fixtures = outfit.parser.toList.map .parser := by
    rw [Outfit.fixtures, htype]
    exact List.append_nil _
  rw [hfixtures] at hmade
  obtain ⟨hmost, hall⟩ := h.admitted
  have hlength : (fixturesMade trace).length = outfit.parser.toList.length := by
    rw [hmade.length_eq, List.length_map]
  have hbound : (fixturesMade trace).length ≤ starts := by
    rw [hlength]
    exact Nat.le_trans (Nat.le_add_right _ _) hmost
  refine ⟨fun fixture hfixture => ?_, hbound, fun hstartable hnone => ?_⟩
  · obtain ⟨number, -, rfl⟩ := List.mem_map.mp (hmade.mem_iff.mp hfixture)
    have hstarts : starts ≠ 0 :=
      Nat.ne_of_gt (Nat.lt_of_lt_of_le (List.length_pos_of_mem hfixture) hbound)
    exact ⟨number, rfl, h.dropped ▸ hgone hstarts number⟩
  · rw [hlength, ← hall hstartable, Outfit.parsers, hnone, Nat.add_zero]

end Equipped

/-! ## Loading -/

/-- A request for a start of the toolkit. -/
def Request.starts : Request → Bool
  | .startup _ => true
  | .load .. => false

/-- The task of making the parser after a start. -/
def Task.launches {W C : Type} : Task W C → Bool
  | .job (.makeParser _) => true
  | _ => false

namespace Workshop

variable {W C : Type}

/-- How many starts of the toolkit are under way. -/
def starts (workshop : Workshop W C) : Nat :=
  workshop.requests.countP Request.starts + workshop.tasks.countP Task.launches

/-- What counts of the fixtures, with the decoration type. -/
def outfit (workshop : Workshop W C) (type : Option Nat) : Outfit where
  parser := workshop.grammars.parser
  type := type
  current := workshop.grammars.current
  starts := workshop.starts
  startable := workshop.toolkit.startError.isNone

variable {workshop : Workshop W C} {type : Option Nat}

/-- Tasks that make no parser do not matter. -/
theorem outfit_enqueue {tasks : List (Task W C)} (htasks : ∀ task ∈ tasks, task.launches = false) :
    (workshop.enqueue tasks).outfit type = workshop.outfit type := by
  have hnone : tasks.countP Task.launches = 0 :=
    List.countP_eq_zero.mpr fun task htask => by simp [htasks task htask]
  simp [outfit, enqueue, starts, hnone]

/-- Neither do steps of loading that do not. -/
theorem outfit_enqueueJobs {α : Type} (items : List α) {job : α → Job W}
    (hjobs : ∀ item, (Task.job (job item) : Task W C).launches = false) :
    (workshop.enqueue (items.map fun item => .job (job item))).outfit type =
      workshop.outfit type := by
  refine outfit_enqueue fun task htask => ?_
  obtain ⟨item, -, rfl⟩ := List.mem_map.mp htask
  exact hjobs item

/-- Neither do requests that start nothing. -/
theorem outfit_ask {asked : Request} (hasked : asked.starts = false) :
    (workshop.ask asked).outfit type = workshop.outfit type := by
  simp [outfit, ask, starts, hasked]

theorem launches_followerJob (answer : Answer) (follower : Follower W) :
    (Task.job (followerJob answer follower) : Task W C).launches = false := by
  cases follower with
  | answer waiter => rfl
  | start link => cases answer <;> rfl

/-- The parser and the start that counts stay as they are if the grammars keep them. -/
theorem outfit_withGrammars {grammars : Grammars W}
    (hparser : grammars.parser = workshop.grammars.parser)
    (hcurrent : grammars.current = workshop.grammars.current) :
    (workshop.withGrammars grammars).outfit type = workshop.outfit type := by
  simp [outfit, withGrammars, starts, hparser, hcurrent]

/-- Marking a language unavailable changes neither. -/
theorem outfit_markUnavailable (key : Text) :
    (workshop.withGrammars (workshop.grammars.markUnavailable key)).outfit type =
      workshop.outfit type := by
  refine outfit_withGrammars ?_ ?_ <;>
    · unfold Grammars.markUnavailable
      split <;> rfl

/-- A step of loading makes a parser if that is the step, and else nothing matters that it does. -/
theorem Took.outfit {job : Job W} {outcome : Outcome (Workshop W C) Unit}
    (h : Took workshop job outcome) (type : Option Nat) :
    (∃ number, (Task.job job : Task W C).launches = true ∧
        outcome.trace = [.parserMade number] ∧
        outcome.state.outfit type = { workshop.outfit type with parser := some number }) ∨
      ((Task.job job : Task W C).launches = false ∧
        (∀ event ∈ outcome.trace, event.SparesFixtures) ∧
        outcome.state.outfit type = workshop.outfit type) := by
  have hquiet : ∀ event ∈ ([] : List Event), event.SparesFixtures := by simp
  have hone {event : Event} (hmakes : event.makes = none) (hdrops : event.drops = none) :
      ∀ other ∈ [event], other.SparesFixtures := by
    simp [Event.SparesFixtures, hmakes, hdrops]
  have hnext {job : Job W} (hjob : (Task.job job : Task W C).launches = false) :
      ∀ task ∈ ([.job job] : List (Task W C)), task.launches = false := by
    simp [hjob]
  cases h with
  | ready hstartup =>
    refine .inl ⟨_, rfl, rfl, ?_⟩
    rw [outfit_enqueueJobs _ fun _ => rfl]
    rfl
  | spare hstartup => exact .inl ⟨_, rfl, rfl, rfl⟩
  | failed hstartup =>
    refine .inr ⟨rfl, hquiet, ?_⟩
    rw [outfit_enqueueJobs _ fun _ => rfl]
    rfl
  | failedUnheard hstartup => exact .inr ⟨rfl, hquiet, rfl⟩
  | entered hbefore =>
    exact .inr ⟨rfl, hquiet, outfit_enqueue (by simp [Task.launches])⟩
  | queued hlast hopen => exact .inr ⟨rfl, hquiet, outfit_enqueue (hnext rfl)⟩
  | spoiled hlast hfault =>
    exact .inr ⟨rfl, hquiet, outfit_enqueue (by simp [Task.launches])⟩
  | astray hjob hlink =>
    refine .inr ⟨?_, hquiet, rfl⟩
    cases job <;> first | rfl | cases hjob
  | told hlink hanswer => exact .inr ⟨rfl, hquiet, outfit_enqueue (hnext rfl)⟩
  | following hlink hopen => exact .inr ⟨rfl, hquiet, outfit_withGrammars rfl rfl⟩
  | known hlink hknown => exact .inr ⟨rfl, hquiet, outfit_enqueue (hnext rfl)⟩
  | nameless hlink hnew hgrammar => exact .inr ⟨rfl, hquiet, outfit_enqueue (hnext rfl)⟩
  | missing hlink hnew hgrammar hfile =>
    exact .inr ⟨rfl, hone rfl rfl, (outfit_enqueue (hnext rfl)).trans (outfit_markUnavailable _)⟩
  | loading hlink hnew hgrammar hfile => exact .inr ⟨rfl, hone rfl rfl, outfit_ask rfl⟩
  | loaded hlink => exact .inr ⟨rfl, hone rfl rfl, outfit_enqueue (hnext rfl)⟩
  | refused hlink =>
    exact .inr ⟨rfl, hone rfl rfl, (outfit_enqueue (hnext rfl)).trans (outfit_markUnavailable _)⟩
  | adopted => exact .inr ⟨rfl, hquiet, outfit_enqueue (hnext rfl)⟩
  | settled hlink =>
    refine .inr ⟨rfl, hquiet, ?_⟩
    rw [outfit_enqueueJobs _ (launches_followerJob _)]
    rfl
  | relayed => exact .inr ⟨rfl, hquiet, outfit_enqueue (by simp [Task.launches])⟩

/-- Without a task that makes no parser nothing changes. -/
theorem outfit_take {task : Task W C} {rest : List (Task W C)}
    (htasks : workshop.tasks = task :: rest) (htask : task.launches = false) :
    ({ workshop with tasks := rest } : Workshop W C).outfit type = workshop.outfit type := by
  simp [outfit, starts, htasks, htask]

variable {phase : Phase} {past : List Event}

/-- Taking a step of loading from the queue. -/
theorem perform_equipped {job : Job W} {rest : List (Task W C)}
    (htasks : workshop.tasks = .job job :: rest) (h : Equipped phase past (workshop.outfit type)) :
    let done := perform job { workshop with tasks := rest }
    Equipped phase (past ++ done.trace) (done.state.outfit type) := by
  dsimp only
  rcases (perform_took job { workshop with tasks := rest }).outfit type with
    ⟨number, hlaunches, htrace, houtfit⟩ | ⟨hlaunches, hspares, houtfit⟩
  · rw [htrace, houtfit]
    refine Equipped.launch ?_ number
    have hstarts : workshop.starts =
        ({ workshop with tasks := rest } : Workshop W C).starts + 1 := by
      simp [starts, htasks, hlaunches, Nat.add_assoc]
    rwa [outfit, hstarts] at h
  · rw [houtfit, outfit_take htasks hlaunches]
    exact h.spare hspares

/-- A request that is taken away counts if it is for a start. -/
theorem starts_eraseIdx {place : Nat} {asked : Request}
    (hplace : workshop.requests[place]? = some asked) :
    workshop.starts =
      ({ workshop with requests := workshop.requests.eraseIdx place } : Workshop W C).starts +
        if asked.starts then 1 else 0 := by
  obtain ⟨hlt, rfl⟩ := List.getElem?_eq_some_iff.mp hplace
  have hcount := (List.getElem_cons_eraseIdx_perm hlt).countP_eq Request.starts
  rw [List.countP_cons] at hcount
  simp only [starts, ← hcount]
  omega

/-- Finishing a request that was asked for. -/
theorem complete_equipped {place : Nat} {asked : Request}
    (hplace : workshop.requests[place]? = some asked)
    (h : Equipped phase past (workshop.outfit type)) :
    let done := complete asked { workshop with requests := workshop.requests.eraseIdx place }
    Equipped phase (past ++ done.trace) (done.state.outfit type) := by
  have hstarts := starts_eraseIdx hplace
  rw [outfit, hstarts] at h
  dsimp only
  set rest : Workshop W C := { workshop with requests := workshop.requests.eraseIdx place }
  have hcompleted := complete_completed asked rest
  generalize complete asked rest = outcome at hcompleted
  cases hcompleted with
  | started hstart =>
    have hlaunched (number : Nat) : (rest.enqueue [.job (.makeParser number)]).starts =
        rest.starts + 1 := by
      simp [starts, enqueue, Task.launches, Nat.add_assoc]
    rw [List.append_nil, outfit, hlaunched]
    exact h
  | unstarted hstart =>
    rw [List.append_nil, outfit_enqueue (by simp [Task.launches])]
    exact h.fail (by simp [outfit, hstart])
  | refused herror =>
    rw [List.append_nil, outfit_enqueue (by simp [Task.launches])]
    exact h
  | loaded herror =>
    rw [List.append_nil, outfit_enqueue (by simp [Task.launches])]
    exact h

/-- At work, looking up a language may ask for a start. -/
theorem lookup_equipped (type : Option Nat) (resolve : Text → Option GrammarName) (key : Text)
    (waiter : W) : Maintains (fun past (workshop : Workshop W C) => Equipped .working past (workshop.outfit type))
      (lookup resolve key waiter) := by
  intro past workshop h
  have hsought := lookup_sought resolve key waiter workshop
  generalize lookup resolve key waiter workshop = outcome at hsought
  have hnext {task : Task W C} (htask : task.launches = false) :
      (workshop.enqueue [task]).outfit type = workshop.outfit type :=
    outfit_enqueue (by simp [htask])
  cases hsought with
  | known hknown => rwa [List.append_nil, hnext rfl]
  | unavailable hnew hkey => rwa [List.append_nil, hnext rfl]
  | unnamed hnew hname =>
    rwa [List.append_nil, outfit_enqueue (by simp [Task.launches]), outfit_markUnavailable]
  | starting hnew hname hcurrent =>
    have hasked := (h.ask hcurrent workshop.grammars.startups.length).spareOne
      .toolkitStarting ⟨rfl, rfl⟩
    simpa [outfit, starts, ask, withGrammars, Grammars.addStartup, Request.starts,
      Nat.add_right_comm] using hasked
  | waiting hnew hname hcurrent hstartup =>
    rw [List.append_nil]
    exact h
  | entering hnew hname hcurrent hstartup => rwa [List.append_nil, hnext rfl]
  | hopeless hnew hname hcurrent hstartup => rwa [List.append_nil, hnext rfl]
  | lost hnew hname hcurrent hstartup => rwa [List.append_nil]

end Workshop

/-! ## Painting -/

namespace Display

variable {phase : Phase} {outfit : Outfit}

/-- The fixtures are in order with the decoration type of a display. -/
def Equips (phase : Phase) (outfit : Outfit) (past : List Event) (display : Display) : Prop :=
  Equipped phase past { outfit with type := display.decorations.type }

/-- What leaves the type alone. -/
theorem maintains_equips {α : Type} {x : Action Display α}
    (hx : Leaves (fun display : Display => display.decorations.type) Event.SparesFixtures x) :
    Maintains (Equips phase outfit) x := by
  intro past display h
  rw [Equips, hx.state]
  exact Equipped.spare h (hx.trace display)

/-- The shared type is made if there is none. -/
theorem sharedType_equips : Maintains (Equips phase outfit) sharedType := by
  intro past display h
  unfold sharedType
  rw [Action.bind_of_quiet (Action.get_apply _)]
  cases htype : display.decorations.type with
  | some number => exact Maintains.pure number past display h
  | none =>
    have hmade := (Equipped.makeType h htype (display.screen.types + 1)).spareOne
      (.log .decorationTypeMade) ⟨rfl, rfl⟩
    rw [List.append_assoc] at hmade
    exact hmade

theorem draw_equips (document : String) (anchor : Rat) (text : Text) (style : Style) :
    Maintains (Equips phase outfit) (draw document anchor text style) := by
  refine maintains_equips fun seen => ?_
  exact .bind (.gets _) fun display =>
    .bind (.modify fun _ display h => h) fun _ => .pure _

theorem erase_equips (document : String) (handle : Nat) :
    Maintains (Equips phase outfit) (erase document handle) := by
  refine maintains_equips (.intro (fun display => ?_) (by simp [erase]))
  simp only [erase, Action.adjust_apply, decorationsPart]
  split
  · rfl
  · split <;> rfl

theorem paint_equips (editor : Editor) : Maintains (Equips phase outfit) (paint editor) := by
  have hdecorate (type : Nat) (decorations : List Decoration) :
      Leaves (fun _ => ()) Event.SparesFixtures (Screen.decorate editor type decorations) := by
    intro seen
    unfold Screen.decorate
    cases editor.failure with
    | some message => exact .bind (Keeping.emit ⟨rfl, rfl⟩) fun _ => .fail _
    | none => exact Keeping.emit ⟨rfl, rfl⟩
  refine .bind sharedType_equips fun type => .bind (.gets _) fun display => ?_
  refine .bind (.ofExcept _) fun buffer => maintains_equips fun seen => ?_
  exact Keeping.zoom (fun _ _ _ _ => rfl) (hdecorate type _)

theorem flush_equips (document : String) : Maintains (Equips phase outfit) (flush document) := by
  refine .bind (.gets _) fun display => .each fun editor _ => ?_
  exact .bind (.ofExcept _) fun buffer => .ite (paint_equips editor) (.pure ())

end Display

/-! ## At a desk -/

namespace Desk

/-- What counts of the fixtures of a desk. -/
def outfit (desk : Desk) : Outfit :=
  (workshopPart.get desk).outfit desk.plugin.decorations.type

/-- The fixtures of a desk are in order. -/
def Equips (phase : Phase) (past : List Event) (desk : Desk) : Prop :=
  Equipped phase past desk.outfit

variable {phase : Phase}

/-- What leaves alone all that counts. -/
theorem maintains_equips {α : Type} {x : Action Desk α}
    (hx : Leaves outfit Event.SparesFixtures x) : Maintains (Equips phase) x := by
  intro past desk h
  rw [Equips, hx.state]
  exact Equipped.spare h (hx.trace desk)

theorem zoomDisplay_equips {α : Type} {x : Action Display α}
    (hx : ∀ outfit, Maintains (Display.Equips phase outfit) x) :
    Maintains (Equips phase) (Action.zoom displayPart x) := .zoom fun desk => hx desk.outfit

theorem deaf_outfit : Forest.Deaf grovePart outfit := by
  intro t u desk hsame
  exact congrArg (fun grove => grove.workshop.outfit desk.plugin.decorations.type) hsame

/-- Everything around the trees but painting leaves the fixtures alone. -/
theorem equips_surrounded : Surrounded (Equips phase) where
  message hmessage := .emit fun _ _ h => h.spareOne _ hmessage.sparesFixtures
  store hx := maintains_equips fun _ =>
    Keeping.zoom (fun _ _ _ _ => rfl) (hx.mono fun _ => Event.Spoken.sparesFixtures)
  catalog f := maintains_equips fun _ => Keeping.adjust (fun _ _ => rfl) f
  labels := {
    part := fun _ _ _ h => h
    draw := fun document anchor text style =>
      zoomDisplay_equips fun _ => Display.draw_equips document anchor text style
    erase := fun document handle => zoomDisplay_equips fun _ => Display.erase_equips document handle
    flush := fun document => zoomDisplay_equips fun _ => Display.flush_equips document
    report := fun _ _ => .emit fun _ _ h => h.spareOne _ ⟨rfl, rfl⟩ }
  paint editor := zoomDisplay_equips fun _ => Display.paint_equips editor
  board f := maintains_equips fun _ => Keeping.adjust (fun _ _ => rfl) f
  register trigger document :=
    maintains_equips (Forest.register_leaves deaf_outfit trigger document _)
  unregister trigger document number :=
    maintains_equips (Forest.unregister_leaves deaf_outfit trigger document number)

/-- Searching a tree may make a query, but no fixture. -/
theorem find_equips (key : Text) (language : Language) (tree : Tree) (kinds : List Text) :
    Maintains (Equips phase)
      (Action.zoom grovePart (PatternCache.find Grove.cacheSite key language tree kinds)) := by
  refine maintains_equips (.intro (fun desk => ?_) fun desk event hevent => ?_)
  · have hsearched := PatternCache.find_searched key language tree kinds (grovePart.get desk)
    rw [Action.zoom_apply]
    generalize PatternCache.find Grove.cacheSite key language tree kinds (grovePart.get desk) =
      outcome at hsearched
    cases hsearched <;> rfl
  · exact ((PatternCache.find_leaves key language tree kinds).trace _ event hevent).sparesFixtures

theorem refresh_equips (document : String) :
    Maintains (Equips phase) (Switchboard.refresh boardSite document) :=
  equips_surrounded.refresh (fun _ kinds => find_equips _ _ _ kinds) document

theorem announce_equips (trigger : Trigger) (document : String) :
    Maintains (Equips phase) (Forest.announce ground trigger document) :=
  equips_surrounded.announce refresh_equips trigger document

theorem push_equips (work : Work Nat) : Maintains (Equips phase) (push work) := by
  intro past desk h
  have hpush : push work desk =
      ⟨.ok (), workshopPart.set ((workshopPart.get desk).enqueue [.client work]) desk, []⟩ := rfl
  have hpushed : Equipped phase past (((workshopPart.get desk).enqueue [.client work]).outfit
      desk.plugin.decorations.type) := by
    rwa [Workshop.outfit_enqueue (by simp [Task.launches])]
  rw [hpush, List.append_nil]
  exact hpushed

/-- Deleting a tree is nothing to the fixtures. -/
theorem deletions_spare (grove : Grove Nat String) (document : String) :
    ∀ event ∈ grove.deletions document, event.SparesFixtures := by
  intro event hevent
  obtain ⟨_, -, rfl⟩ := List.mem_map.mp hevent
  exact ⟨rfl, rfl⟩

theorem close_equips (document : String) :
    Maintains (Equips phase) (Forest.close grovePart document) := by
  intro past desk h
  rw [Forest.close_eq]
  exact Equipped.spare h (deletions_spare _ _)

theorem resetPatterns_equips : Maintains (Equips phase) (Forest.resetPatterns grovePart) := by
  intro past desk h
  rw [Forest.resetPatterns_apply]
  refine Equipped.spare h fun event hevent => ?_
  obtain ⟨_, -, rfl⟩ := List.mem_map.mp hevent
  exact ⟨rfl, rfl⟩

theorem disposeForest_equips : Maintains (Equips phase) (Forest.dispose grovePart) := by
  refine .bind (.gets _) fun grove => .bind (.each fun document _ => close_equips document) ?_
  exact fun _ => .bind (.adjust fun _ _ h => h) fun _ => resetPatterns_equips

theorem start_equips (resolve : Text → Option GrammarName) (document : String) (buffer : Nat)
    (language : Text) (caller : Caller) :
    Maintains (Equips .working)
      (Forest.start grovePart resolve document buffer language caller) := by
  refine .bind (.gets _) fun grove => .bind (.adjust fun _ _ h => h) fun _ => .zoom fun desk => ?_
  exact Workshop.lookup_equipped desk.plugin.decorations.type _ _ _

theorem resume_equips (opening : Opening Nat) (answer : Answer) :
    Maintains (Equips phase) (Forest.resume ground opening answer) := by
  intro past desk h
  have hresumed := Forest.resume_resumed ground opening answer desk
  generalize Forest.resume ground opening answer desk = outcome at hresumed
  cases hresumed with
  | rejected fault => simpa using h
  | stale found hstale => exact h.spareOne _ ⟨rfl, rfl⟩
  | unavailable hlatest =>
    rw [List.append_nil]
    exact h
  | unparsed hlatest hsettled hparse hparser =>
    subst hsettled
    exact Equipped.spare h fun event hevent => (hparser event hevent).sparesFixtures
  | @stored settled planted language tree trace hlatest hsettled htree hparse hparser hplanted =>
    have hparsed := Equipped.spare h fun event hevent => (hparser event hevent).sparesFixtures
    have htold : Equips phase (past ++ trace ++ (ground.part.get desk).deletions opening.document ++
        [.log (.parsed opening.document opening.language)]) planted := by
      rw [hplanted]
      exact (hparsed.spare (deletions_spare _ opening.document)).spareOne _ ⟨rfl, rfl⟩
    simpa [List.append_assoc] using announce_equips .parsed opening.document _ _ htold

theorem update_equips (document : String) (buffer : Nat) (changes : List Change) :
    Maintains (Equips phase) (Forest.update ground document buffer changes) := by
  intro past desk h
  have hedited (tree : Tree) : Equipped phase (past ++ Forest.editing tree changes) desk.outfit := by
    refine h.spare fun event hevent => ?_
    obtain ⟨_, -, rfl⟩ := List.mem_map.mp hevent
    exact ⟨rfl, rfl⟩
  have hupdated := Forest.update_updated ground document buffer changes desk
  generalize Forest.update ground document buffer changes desk = outcome at hupdated
  cases hupdated with
  | absent hentry => simpa using h
  | idle hchanges => simpa using h
  | @unparsed entry told fault trace hchanges hentry htold hparse hparser =>
    have hparsed := (hedited entry.tree).spare fun event hevent =>
      (hparser event hevent).sparesFixtures
    subst htold
    rw [← List.append_assoc]
    exact hparsed
  | @replaced entry told planted tree trace hchanges hentry htold htree hparse hparser hplanted =>
    have hparsed := (hedited entry.tree).spare fun event hevent =>
      (hparser event hevent).sparesFixtures
    have hreplaced : Equips phase (past ++ Forest.editing entry.tree changes ++ trace ++
        [.treeDeleted entry.tree.number]) planted := by
      rw [hplanted]
      exact hparsed.spareOne _ ⟨rfl, rfl⟩
    simpa [List.append_assoc] using announce_equips .changed document _ _ hreplaced

/-- Taking a task may make a parser, if that is the task, or a decoration type. -/
theorem takeTask_equips : Maintains (Equips phase) takeTask := by
  refine .gets_bind fun past desk h => ?_
  cases htasks : desk.tasks with
  | nil => exact Maintains.pure () past desk h
  | cons task rest =>
    have hqueue : (workshopPart.get desk).tasks = task :: rest := htasks
    have hmodify : Action.modify (fun desk : Desk => { desk with tasks := rest }) desk =
        ⟨.ok (), { desk with tasks := rest }, []⟩ := rfl
    have htaken (hother : task.launches = false) : Equips phase past { desk with tasks := rest } := by
      have hsame : ({ desk with tasks := rest } : Desk).outfit = desk.outfit :=
        Workshop.outfit_take hqueue hother
      rwa [Equips, hsame]
    dsimp only
    rw [Action.bind_of_quiet hmodify]
    match task with
    | .job job => exact Workshop.perform_equipped hqueue h
    | .deliver (.bare name) answer => exact Maintains.pure () past _ (htaken rfl)
    | .deliver (.opening opening) answer =>
      exact Maintains.bind (resume_equips opening answer).attempt (fun _ => push_equips _) past _
        (htaken rfl)
    | .client work =>
      exact client_maintains (fun _ hmessage => equips_surrounded.message hmessage) push_equips work
        past _ (htaken rfl)

theorem finishRequest_equips (place : Nat) : Maintains (Equips phase) (finishRequest place) := by
  refine .gets_bind fun past desk h => ?_
  cases hplace : desk.requests[place]? with
  | none => exact Maintains.pure () past desk h
  | some asked =>
    have hasked : (workshopPart.get desk).requests[place]? = some asked := hplace
    exact Workshop.complete_equipped hasked h

/-- At work, everything keeps the fixtures in order. -/
theorem equips_abiding : Abiding (Equips .working) where
  toSurrounded := equips_surrounded
  become _ := .modify fun _ _ h => ⟨h.dropped, h.made, h.single, h.admitted⟩
  push := push_equips
  forget := .zoom fun _ => .adjust fun _ _ h => h
  start := start_equips
  update := update_equips
  close := close_equips
  resetPatterns := resetPatterns_equips
  redraw := refresh_equips
  task := takeTask_equips
  finish := finishRequest_equips

end Desk

end ClosingLabels
