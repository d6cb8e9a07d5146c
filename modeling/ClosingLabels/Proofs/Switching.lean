import ClosingLabels.Proofs.Recording
import ClosingLabels.Proofs.Wiring
import ClosingLabels.Scenario.Switchboard

/-!
# A switchboard stays wired

A switchboard on a manual feed and a recorder that may refuse anything. Whatever is done,
and wherever a refusal cuts it short, a document whose labels are on has one subscription
to each trigger and any other has none, and every document on record has its labels on.
Only switching off and taking down can fail.
-/

namespace ClosingLabels

open ClosingLabels.Action (Maintains)

/-! ## Subscriptions by hand -/

namespace ManualFeed

@[simp] theorem table_setTable (feed : ManualFeed) (trigger other : Trigger)
    (table : Table String (List Nat)) :
    (feed.setTable trigger table).table other =
      if other = trigger then table else feed.table other := by
  cases trigger <;> cases other <;> rfl

@[simp] theorem published_setTable (feed : ManualFeed) (trigger : Trigger)
    (table : Table String (List Nat)) :
    (feed.setTable trigger table).published = feed.published := by
  cases trigger <;> rfl

/-- A feed with one more subscription. -/
def withSubscriber (feed : ManualFeed) (trigger : Trigger) (document : String) : ManualFeed :=
  { feed with next := feed.next + 1 }.setTable trigger
    ((feed.table trigger).insert document (feed.subscribers trigger document ++ [feed.next]))

theorem table_withSubscriber (feed : ManualFeed) (trigger other : Trigger) (document : String) :
    (feed.withSubscriber trigger document).table other =
      if other = trigger then
        (feed.table trigger).insert document (feed.subscribers trigger document ++ [feed.next])
      else feed.table other := by
  cases trigger <;> cases other <;> rfl

theorem subscribers_withSubscriber (feed : ManualFeed) (trigger other : Trigger)
    (document name : String) :
    (feed.withSubscriber trigger document).subscribers other name =
      if other = trigger ∧ name = document then feed.subscribers other name ++ [feed.next]
      else feed.subscribers other name := by
  rw [subscribers, table_withSubscriber]
  by_cases htrigger : other = trigger
  · subst htrigger
    by_cases hname : name = document
    · simp [hname]
    · simp [hname, Table.get?_insert, subscribers]
  · simp [htrigger, subscribers]

/-- A feed with one subscription less. -/
def withoutSubscriber (feed : ManualFeed) (trigger : Trigger) (document : String)
    (number : Nat) : ManualFeed :=
  match (feed.table trigger).get? document with
  | none => feed
  | some numbers =>
    feed.setTable trigger ((feed.table trigger).insert document (numbers.filter (· ≠ number)))

@[simp] theorem published_withoutSubscriber (feed : ManualFeed) (trigger : Trigger)
    (document : String) (number : Nat) :
    (feed.withoutSubscriber trigger document number).published = feed.published := by
  unfold withoutSubscriber
  split
  · rfl
  · exact published_setTable _ _ _

theorem subscribers_withoutSubscriber (feed : ManualFeed) (trigger other : Trigger)
    (document name : String) (number : Nat) :
    (feed.withoutSubscriber trigger document number).subscribers other name =
      if other = trigger ∧ name = document then
        (feed.subscribers other name).filter (· ≠ number)
      else feed.subscribers other name := by
  unfold withoutSubscriber
  cases hfound : (feed.table trigger).get? document with
  | none =>
    by_cases h : other = trigger ∧ name = document
    · obtain ⟨rfl, rfl⟩ := h
      simp [subscribers, hfound]
    · simp [h]
  | some numbers =>
    by_cases htrigger : other = trigger
    · subst htrigger
      by_cases hname : name = document
      · simp [subscribers, hname, hfound]
      · simp [subscribers, hname, Table.get?_insert]
    · simp [subscribers, htrigger]

end ManualFeed

namespace Scenario

open Switchboard

namespace SwitchboardRun

/-- Who hears of what in a run. -/
def hearing (run : SwitchboardRun) : Hearing := fun trigger document =>
  (run.feed.subscribers trigger document).map (Registration.mk · document)

/-- The parts of a run keep out of each other's way. -/
theorem tidy : site.Tidy hearing where
  board _ _ := rfl
  overlay _ _ := rfl
  draw _ _ _ _ _ := rfl
  erase _ _ _ := rfl
  flush _ _ := rfl
  subscribe trigger document run := by
    refine ⟨run.feed.next,
      { run with feed := run.feed.withSubscriber trigger document }, rfl, ?_⟩
    refine congrArg (Stand.mk run.board run.overlay) ?_
    funext other name
    simp only [hearing, Hearing.add, ManualFeed.subscribers_withSubscriber]
    by_cases h : other = trigger ∧ name = document
    · simp [h]
    · simp [h]
  unsubscribe trigger document number run := by
    refine ⟨{ run with feed := run.feed.withoutSubscriber trigger document number }, rfl, ?_⟩
    refine congrArg (Stand.mk run.board run.overlay) ?_
    funext other name
    simp only [hearing, Hearing.drop, ManualFeed.subscribers_withoutSubscriber]
    by_cases h : other = trigger ∧ name = document
    · simp [h, List.filter_map, Function.comp_def]
    · simp [h]
  view document run := by
    refine ⟨(run.feed.published.get? document).map Publication.view, rfl, ?_⟩
    intro shown hshown kinds after
    obtain ⟨publication, _, rfl⟩ := Option.map_eq_some_iff.mp hshown
    rfl
  minLines _ := rfl
  answers run := ⟨run.minLines, rfl⟩

/-- A run at its start. -/
def fresh (options : OverlayOptions) (refusals : Refusals) (catalog : Catalog) (minLines : Rat) :
    SwitchboardRun :=
  { overlay := { options }, recorder := { refusals }, catalog, minLines }

/-- At first nothing is on and nobody listens. -/
theorem fresh_sound (options : OverlayOptions) (refusals : Refusals) (catalog : Catalog)
    (minLines : Rat) :
    (site.stand hearing (fresh options refusals catalog minLines)).Sound where
  on document wires hwires := by cases hwires
  off _ _ trigger := by cases trigger <;> rfl
  lit document htracks := by cases htracks

/-- A trigger redraws only documents whose labels are on. -/
theorem announce_sound (trigger : Trigger) (document : String) :
    Maintains (site.Seen hearing Stand.Sound) (announce trigger document) := by
  refine .gets_bind fun past run hrun => ?_
  have hon (number : Nat) (hnumber : number ∈ run.feed.subscribers trigger document) :
      run.board.isOn document = true :=
    (hrun.isOn_of_hearing (List.mem_map_of_mem (f := (Registration.mk · document)) hnumber)).2
  have heach : Maintains (site.Seen hearing (Stand.SoundWith run.board))
      (Action.each (run.feed.subscribers trigger document) fun _ =>
        Switchboard.refresh site document) :=
    .each fun number hnumber => tidy.refresh (hon number hnumber)
  exact (heach past run ⟨hrun, rfl⟩).1

end SwitchboardRun

open SwitchboardRun

/-- Whatever is done, and wherever it is cut short, everything stays wired. -/
theorem SwitchboardStep.perform_sound (step : SwitchboardStep) :
    Maintains (site.Seen hearing Stand.Sound) step.perform := by
  cases step with
  | publish document publication =>
    refine .bind (.ofExcept _) fun publication => .bind (.adjust fun _ _ h => h) fun _ => .pure _
  | announce trigger document => exact .bind (announce_sound trigger document) fun _ => .pure _
  | setMinLines value => exact .bind (.modify fun _ _ h => h) fun _ => .pure _
  | enable document => exact .bind (tidy.enable document) fun _ => .pure _
  | disable document => exact .bind (tidy.disable document) fun _ => .pure _
  | toggle document => exact .bind (tidy.toggle document) fun _ => .pure _
  | isOn document => exact .gets _
  | redrawAll => exact .bind tidy.redrawAll fun _ => .pure _
  | setOptions options => exact .bind (.adjust fun _ _ h => ⟨h.on, h.off, h.lit⟩) fun _ => .pure _
  | reload overrides grammars =>
    refine .bind (.bind (.adjust fun _ _ h => h) fun _ => .bind (.gets _) fun catalog => ?_)
      fun _ => .pure _
    exact (site.still_emit hearing _).maintains
  | dispose => exact .bind tidy.dispose fun _ => .pure _

/-- After every run, wires, listeners and record agree. -/
theorem SwitchboardRun.sound (options : OverlayOptions) (refusals : Refusals)
    (catalog : Catalog) (minLines : Rat) (steps : List SwitchboardStep) :
    (site.stand hearing (Action.finish SwitchboardStep.perform
      (fresh options refusals catalog minLines) steps)).Sound := by
  have hstart : site.Seen hearing Stand.Sound [] (fresh options refusals catalog minLines) :=
    fresh_sound options refusals catalog minLines
  exact Maintains.script SwitchboardStep.perform_sound hstart steps

/-- **Wiring.** After any run, whatever was refused: a document whose labels are on has one
subscription to each trigger, any other has none, and every document on record has its labels on.
Switching on, redrawing and delivering a trigger succeed, and switching over tells whether the
labels are on then, which they are if they were off before. -/
theorem wired_after_any_steps (options : OverlayOptions) (refusals : Refusals)
    (catalog : Catalog) (minLines : Rat) (steps : List SwitchboardStep) :
    let now := Action.finish SwitchboardStep.perform (fresh options refusals catalog minLines) steps
    (∀ document trigger, (now.feed.subscribers trigger document).length =
      if now.board.isOn document then 1 else 0) ∧
    (∀ document, now.overlay.tracks document = true → now.board.isOn document = true) ∧
    (∀ document, ((SwitchboardStep.enable document).perform now).result = .ok none) ∧
    (SwitchboardStep.redrawAll.perform now).result = .ok none ∧
    (∀ trigger document,
      ((SwitchboardStep.announce trigger document).perform now).result = .ok none) ∧
    (∀ document, now.board.isOn document = false →
      ((SwitchboardStep.toggle document).perform now).result = .ok (some true)) ∧
    ∀ document answer, ((SwitchboardStep.toggle document).perform now).result = .ok answer →
      let after := ((SwitchboardStep.toggle document).perform now).state
      answer = some (after.board.isOn document) ∧
      after.board.isOn document = !now.board.isOn document := by
  intro now
  have hsound : (site.stand hearing now).Sound := SwitchboardRun.sound _ _ _ _ steps
  refine ⟨fun document trigger => ?_, hsound.lit, fun document => ?_, ?_, fun trigger document => ?_,
    fun document hoff => ?_, fun document answer hanswer => ?_⟩
  · have hcount : ((now.feed.subscribers trigger document).map (Registration.mk · document)).length =
        if now.board.isOn document then 1 else 0 := hsound.length_hearing trigger document
    rwa [List.length_map] at hcount
  · rw [SwitchboardStep.perform,
      Action.bind_of_ok (Action.eq_of_result (tidy.enable_spec document now).1)]
    rfl
  · rw [SwitchboardStep.perform, Action.bind_of_ok (Action.eq_of_result (tidy.redrawAll_result now))]
    rfl
  · have hannounce : (announce trigger document now).result = .ok () := by
      rw [announce, Action.bind_of_quiet (Action.get_apply _)]
      exact Action.each_result (fun _ _ run => tidy.refresh_result document run) now
    rw [SwitchboardStep.perform, Action.bind_of_ok (Action.eq_of_result hannounce)]
    rfl
  · have htoggle := (tidy.toggle_spec document now).1 hoff
    rw [SwitchboardStep.perform, Action.bind_of_ok (Action.eq_of_result htoggle)]
    rfl
  · have htoggle := (tidy.toggle_spec document now).2
    rcases hrun : Switchboard.toggle site document now with ⟨fault | on, after, trace⟩
    · rw [SwitchboardStep.perform, Action.bind_of_error hrun] at hanswer
      cases hanswer
    · rw [SwitchboardStep.perform, Action.bind_of_ok hrun] at hanswer ⊢
      rw [hrun] at htoggle
      obtain ⟨hafter, hon⟩ := htoggle on rfl
      obtain rfl := Except.ok.inj hanswer
      have hboard : after.board.isOn document = on := hafter
      exact ⟨by rw [← hboard]; rfl, hboard.trans hon⟩

/-- Two documents are on and the first has a label. Taking everything down stops there, since the
flush is refused: the first is off without a label, the second still on and wired. -/
theorem wired_after_refused_flush :
    let catalog := Catalog.make (.ofRows [([112], [[105]])]) .empty .empty
    let publication : Publication := ⟨[⟨[105], 0, 3⟩], none, ⟨[97, 10, 98], [112]⟩, [112]⟩
    let steps := [.publish "a" (.ok publication), .enable "a", .enable "b", .dispose]
    let start := fresh {} ⟨[], [], [2]⟩ catalog 0
    let now := Action.finish SwitchboardStep.perform start steps
    ((Action.script SwitchboardStep.perform start steps)[3]?.map Outcome.result) =
      some (.error (.cannotFlush "a")) ∧
    now.board.isOn "a" = false ∧ now.board.isOn "b" = true ∧
    (∀ trigger, (now.feed.subscribers trigger "a").length = 0 ∧
      (now.feed.subscribers trigger "b").length = 1) ∧
    now.overlay.tracks "a" ≠ true ∧
    ((SwitchboardStep.toggle "a").perform now).result = .ok (some true) := by
  intro catalog publication steps start now
  have hrefused : ((Action.script SwitchboardStep.perform start steps)[3]?.map Outcome.result) =
      some (.error (.cannotFlush "a")) := by decide +kernel
  have hfirst : now.board.isOn "a" = false := by decide +kernel
  have hsecond : now.board.isOn "b" = true := by decide +kernel
  obtain ⟨hcount, hlit, _, _, _, htoggle, _⟩ :=
    wired_after_any_steps {} ⟨[], [], [2]⟩ catalog 0 steps
  refine ⟨hrefused, hfirst, hsecond, fun trigger => ⟨?_, ?_⟩, fun htracks => ?_, htoggle "a" hfirst⟩
  · exact (hcount "a" trigger).trans (by rw [hfirst]; rfl)
  · exact (hcount "b" trigger).trans (by rw [hsecond]; rfl)
  · have hon := hlit "a" htracks
    rw [hfirst] at hon
    cases hon

end Scenario

end ClosingLabels
