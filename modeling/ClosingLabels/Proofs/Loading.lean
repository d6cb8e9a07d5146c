import ClosingLabels.Proofs.Turns

/-!
# What loading leaves alone

The toolkit and the workshop do much while grammars load, but none of it makes, uses or
deletes a tree or a query. Every operation is gone through once, so that later proofs
about trees and queries need not open any of them.
-/

namespace ClosingLabels

open ClosingLabels.Action (Leaves Keeping)

/-- Something that the toolkit makes and that has to be deleted. -/
inductive Thing where
  | tree (number : Nat)
  | query (number : Nat)
deriving DecidableEq, Repr

/-- The things that an event uses or deletes. -/
def Event.touches : Event → List Thing
  | .treeEdited tree _ => [.tree tree]
  | .treeDeleted tree => [.tree tree]
  | .parsing _ _ old => old.toList.map .tree
  | .patternMatching query tree => [.query query, .tree tree]
  | .queryDeleted query => [.query query]
  | _ => []

/-- An event that neither uses nor deletes anything. -/
def Event.Idle (event : Event) : Prop := event.touches = []

/-- An event that tells of nothing done to a tree, nor of a parser that was given one. -/
def Event.SparesTrees : Event → Prop
  | .treeEdited _ _ => False
  | .treeDeleted _ => False
  | .parsing _ _ old => old = none
  | _ => True

/-- What touches nothing touches no tree. -/
theorem Event.Idle.sparesTrees {event : Event} (h : event.Idle) : event.SparesTrees := by
  cases event with
  | treeEdited tree edit => cases h
  | treeDeleted tree => cases h
  | parsing parser length old => cases old with
    | none => rfl
    | some tree => cases h
  | _ => trivial

/-- A message on the console. -/
def Event.Spoken : Event → Prop
  | .log _ | .warn _ | .error .. => True
  | _ => False

/-- A message touches nothing. -/
theorem Event.Spoken.idle {event : Event} (h : event.Spoken) : event.Idle := by
  cases event <;> first | rfl | cases h

/-- A message to the user, on the console or elsewhere. -/
def Event.ForUser : Event → Prop
  | .log _ | .warn _ | .error .. | .information _ | .complaint _ | .status .. => True
  | .documentRequested _ | .documentShown _ => True
  | _ => False

theorem Event.ForUser.idle {event : Event} (h : event.ForUser) : event.Idle := by
  cases event <;> first | rfl | cases h

/-- An event of a search: a pattern is compiled or run, or a failure is reported. -/
def Event.OfSearch : Event → Prop
  | .patternCompiling .. | .patternMatching .. | .error .. => True
  | _ => False

/-- A search does nothing to a tree. -/
theorem Event.OfSearch.sparesTrees {event : Event} (h : event.OfSearch) : event.SparesTrees := by
  cases event <;> trivial

/-- An event of a parser at work, which was given an old tree or none. -/
def Event.OfParser (old : Option Nat) : Event → Prop
  | .parserTuned _ _ => True
  | .parsing _ _ given => given = old
  | _ => False

/-- A parser without an old tree touches none. -/
theorem Event.OfParser.sparesTrees {event : Event} (h : event.OfParser none) :
    event.SparesTrees := by
  cases event <;> first | exact h | trivial

namespace Toolkit

theorem compile_leaves (language : Language) (source : Text) :
    Leaves Toolkit.trees Event.OfSearch (compile language source) := by
  intro seen
  unfold compile
  refine .bind (Keeping.emit trivial) fun _ => .bind (.ofOption _ _) fun reading => ?_
  cases reading.kinds.find? fun kind => decide (kind ∉ language.kinds) with
  | some kind => exact .fail _
  | none => exact .bind (Keeping.modify fun _ => rfl) fun _ => .bind (.gets _) fun _ => .pure _

theorem deleteQuery_leaves (query : Query) :
    Leaves Toolkit.trees Event.SparesTrees (deleteQuery query) := by
  intro seen
  exact .bind (Keeping.modify fun _ => rfl) fun _ => Keeping.emit trivial

theorem runQuery_leaves (query : Query) (tree : Tree) :
    Leaves Toolkit.trees Event.OfSearch (runQuery query tree) := by
  intro seen
  unfold runQuery
  refine .bind (Keeping.emit trivial) fun _ => .bind (.gets _) fun toolkit => ?_
  exact .ite (.bind (.fail _) fun _ => .pure _) (.pure _)

end Toolkit

namespace Workshop

variable {W C : Type}

/-- How many trees were made in a workshop. -/
def trees (workshop : Workshop W C) : Nat := workshop.toolkit.trees

/-- How many trees and how many queries were made in a workshop. -/
def made (workshop : Workshop W C) : Nat × Nat := (workshop.trees, workshop.toolkit.queries)

/-- Whatever makes and touches neither trees nor queries makes no tree and touches none. -/
theorem leaves_of_idle {α : Type} {x : Action (Workshop W C) α} (hx : Leaves made Event.Idle x) :
    Leaves trees Event.SparesTrees x :=
  (hx.of_view Prod.fst).mono fun _ => Event.Idle.sparesTrees

/-- No step of loading makes or touches a tree or a query. -/
theorem perform_idle (job : Job W) : Leaves (made (C := C)) Event.Idle (perform job) := by
  have hidle {workshop : Workshop W C} {outcome : Outcome (Workshop W C) Unit}
      (htook : Took workshop job outcome) :
      outcome.state.made = workshop.made ∧ ∀ event ∈ outcome.trace, event.Idle := by
    cases htook <;> exact ⟨rfl, by simp [Event.Idle, Event.touches]⟩
  exact .intro (fun s => (hidle (perform_took job s)).1) fun s => (hidle (perform_took job s)).2

/-- Neither does looking up a language. -/
theorem lookup_idle (resolve : Text → Option GrammarName) (key : Text) (waiter : W) :
    Leaves (made (C := C)) Event.Idle (lookup resolve key waiter) := by
  have hidle {workshop : Workshop W C} {outcome : Outcome (Workshop W C) Unit}
      (hsought : Sought resolve key waiter workshop outcome) :
      outcome.state.made = workshop.made ∧ ∀ event ∈ outcome.trace, event.Idle := by
    cases hsought <;> exact ⟨rfl, by simp [Event.Idle, Event.touches]⟩
  exact .intro (fun s => (hidle (lookup_sought resolve key waiter s)).1)
    fun s => (hidle (lookup_sought resolve key waiter s)).2

/-- Neither does finishing a request. -/
theorem complete_idle (asked : Request) :
    Leaves (made (W := W) (C := C)) Event.Idle (complete asked) := by
  have hidle {workshop : Workshop W C} {outcome : Outcome (Workshop W C) Unit}
      (hcompleted : Completed workshop asked outcome) :
      outcome.state.made = workshop.made ∧ ∀ event ∈ outcome.trace, event.Idle := by
    cases hcompleted <;> exact ⟨rfl, by simp⟩
  exact .intro (fun s => (hidle (complete_completed asked s)).1)
    fun s => (hidle (complete_completed asked s)).2

/-- Neither does changing what is known of the grammars. -/
theorem adjustGrammars_idle (f : Grammars W → Grammars W) :
    Leaves (made (C := C)) Event.Idle (Action.adjust grammarsPart f) :=
  fun _ => Keeping.adjust (fun _ _ => rfl) f

/-- Neither does taking the workshop down. -/
theorem dispose_idle : Leaves (made (W := W) (C := C)) Event.Idle dispose := by
  have hdelete (parser : Nat) : Leaves (made (W := W) (C := C)) Event.Idle
      (Action.zoom toolkitPart (Toolkit.deleteParser parser)) :=
    .intro (fun _ => rfl) fun _ => by
      simp [Toolkit.deleteParser, Action.bind_apply, Event.Idle, Event.touches]
  intro seen
  unfold dispose
  refine .bind (.gets _) fun grammars => ?_
  dsimp only
  cases grammars.parser with
  | some parser => exact .bind (hdelete parser seen) fun _ => adjustGrammars_idle _ seen
  | none => exact adjustGrammars_idle _ seen

/-- Taking the workshop down deletes the parser, if there is one, and forgets the languages and the
start of the toolkit. -/
theorem dispose_apply (workshop : Workshop W C) :
    ∃ deletedParsers, dispose workshop = ⟨.ok (),
      { workshop.withGrammars { workshop.grammars.reset with parser := none, current := none } with
        toolkit := { workshop.toolkit with deletedParsers } },
      workshop.grammars.parser.toList.map .parserDeleted⟩ := by
  unfold dispose
  rw [Action.bind_of_quiet (lookGrammars_apply workshop)]
  cases workshop.grammars.parser with
  | none => exact ⟨workshop.toolkit.deletedParsers, rfl⟩
  | some parser => exact ⟨parser :: workshop.toolkit.deletedParsers, rfl⟩

/-- A workshop in which one more tree was made. -/
def grow (workshop : Workshop W C) : Workshop W C :=
  { workshop with toolkit := { workshop.toolkit with trees := workshop.trees + 1 } }

/-- Parsing fails and makes nothing, or it makes one tree, which is that of the text. -/
theorem parse_cases (language : Option Language) (text : Text) (old : Option Tree)
    (workshop : Workshop W C) :
    ∃ trace, (∀ event ∈ trace, event.OfParser (old.map Tree.number)) ∧
      ((∃ fault, parse language text old workshop = ⟨.error fault, workshop, trace⟩) ∨
        parse language text old workshop =
          ⟨.ok ⟨workshop.trees + 1, language, text, Braces.parse text⟩, workshop.grow, trace⟩) := by
  unfold parse
  rw [Action.bind_of_ok (Action.look_apply _ _)]
  dsimp only [grammarsPart]
  cases workshop.grammars.parser with
  | none => exact ⟨[], by simp, .inl ⟨.parserMissing, rfl⟩⟩
  | some parser =>
    let trace : List Event := [.parserTuned parser (language.map Language.name),
      .parsing parser text.length (old.map Tree.number)]
    have hparser : ∀ event ∈ trace, event.OfParser (old.map Tree.number) := by
      simp [trace, Event.OfParser]
    refine ⟨trace, hparser, ?_⟩
    by_cases hhopeless : Braces.isHopeless text = true
    · refine .inl ⟨.parsingFailed, ?_⟩
      simp [Toolkit.parse, Action.bind_apply, hhopeless, toolkitPart, trace]
    · refine .inr ?_
      simp [Toolkit.parse, Action.bind_apply, hhopeless, toolkitPart, trace, grow, trees,
        Except.map]

end Workshop

end ClosingLabels
