import ClosingLabels.Scenario.Forest
import ClosingLabels.Proofs.Forest

/-!
# Only the latest opening counts

Openings wait for their languages, which are answered in any order, and in the meantime
documents are opened again, closed and changed. An opening gives its document a tree
exactly when nothing came between for that document. What decides it is the ticket: no
two waiting openings have the same, and the awaited ticket of a document is that of an
opening until that opening ends or another takes its place.
-/

namespace ClosingLabels.Scenario

open ClosingLabels.Action (Leaves Keeping)
open ForestRun (grovePart ground)

/-! ## Forests under traffic -/

/-- A forest at work, with the openings that still wait for their language. -/
structure Traffic where
  run : ForestRun
  waiting : List (Opening Document) := []

/-- Something that happens to a forest. -/
inductive Move where
  /-- A document is to be opened. -/
  | start (document : String) (language text : Text)
  /-- A document is closed. -/
  | close (document : String)
  /-- The forest is disposed of. -/
  | dispose
  /-- The opening at some place among those waiting has its answer. -/
  | answer (place : Nat) (answer : Answer)
  /-- A document has changed. -/
  | change (document : String) (language text : Text) (changes : List Change)
  /-- A listener registers. -/
  | listen (trigger : Trigger) (document : String) (probe : Probe)
  /-- The listener of a name is taken back. -/
  | drop (name : String)
  /-- The workshop does something, no matter what. -/
  | work (action : Action (Workshop (Waiter Document) (Work Document)) Unit)

/-- Whether a move puts an end to every earlier opening of a document. -/
def Move.disturbs (document : String) : Move → Bool
  | .start other _ _ => other = document
  | .close other => other = document
  | .dispose => true
  | _ => false

namespace Traffic

/-- A forest without documents. -/
def fresh (toolkit : Toolkit) (catalog : Catalog) (shippedOnly : Bool) : Traffic :=
  { run := { grove := { workshop := { toolkit } }, catalog, shippedOnly } }

/-- The opening that a start leads to. -/
def opening (traffic : Traffic) (document : String) (language text : Text) : Opening Document :=
  ⟨document, traffic.run.grove.forest.openings + 1, ⟨text, language⟩, language, .direct⟩

/-- What a move leads to. An opening that has its answer waits no longer, however it ends. -/
def next (traffic : Traffic) : Move → Traffic
  | .start document language text =>
    { run := ((ForestStep.start document language text).act traffic.run).state
      waiting := traffic.waiting ++ [traffic.opening document language text] }
  | .close document => { traffic with run := ((ForestStep.close document).act traffic.run).state }
  | .dispose => { traffic with run := (ForestStep.disposeForest.act traffic.run).state }
  | .answer place answer =>
    match traffic.waiting[place]? with
    | none => traffic
    | some opening =>
      { run := (Forest.resume ForestRun.ground opening answer traffic.run).state
        waiting := traffic.waiting.eraseIdx place }
  | .change document language text changes =>
    { traffic with
      run := ((ForestStep.apply document language text changes).act traffic.run).state }
  | .listen trigger document probe =>
    { traffic with run := ((ForestStep.register trigger document probe).act traffic.run).state }
  | .drop name => { traffic with run := ((ForestStep.unregister name).act traffic.run).state }
  | .work action =>
    { traffic with run := (Action.zoom ForestRun.workshopPart action traffic.run).state }

/-- What moves lead to, one after another. -/
def after (traffic : Traffic) (moves : List Move) : Traffic := moves.foldl next traffic

end Traffic

/-! ## Tickets -/

/-- What decides which openings count: the awaited ticket of each document, how many tickets
were given out, and who still waits. -/
structure Docket where
  pending : Table String Nat
  openings : Nat
  waiting : List (Opening Document)

namespace Docket

/-- What a move can do to the docket. -/
inductive Step (docket : Docket) : Move → Docket → Prop
  /-- A start takes the next ticket, which is now the awaited one. -/
  | start {document : String} {language text : Text} {opening : Opening Document}
      (hdocument : opening.document = document) (hticket : opening.ticket = docket.openings + 1) :
      Step docket (.start document language text)
        ⟨docket.pending.insert document (docket.openings + 1), docket.openings + 1,
          docket.waiting ++ [opening]⟩
  /-- Nothing is awaited of a closed document. -/
  | close (document : String) :
      Step docket (.close document) { docket with pending := docket.pending.erase document }
  /-- Nothing is awaited at all. -/
  | dispose : Step docket .dispose { docket with pending := .empty }
  /-- The awaited opening has ended. -/
  | settled {place : Nat} {answer : Answer} {opening : Opening Document}
      (hplace : docket.waiting[place]? = some opening)
      (hlatest : docket.pending.get? opening.document = some opening.ticket) :
      Step docket (.answer place answer)
        { docket with
          pending := docket.pending.erase opening.document
          waiting := docket.waiting.eraseIdx place }
  /-- An opening has ended without effect. -/
  | dropped {place : Nat} {answer : Answer} {opening : Opening Document}
      (hplace : docket.waiting[place]? = some opening) :
      Step docket (.answer place answer) { docket with waiting := docket.waiting.eraseIdx place }
  /-- Any other move leaves the docket alone. -/
  | still {move : Move} (hmove : ∀ document, move.disturbs document = false) :
      Step docket move docket

/-- Those who wait have different tickets, all of them given out. -/
structure Orderly (docket : Docket) : Prop where
  numbered : ∀ opening ∈ docket.waiting, opening.ticket ≤ docket.openings
  distinct : (docket.waiting.map Opening.ticket).Nodup

/-- Ending an opening keeps the docket in order. -/
theorem Orderly.eraseIdx {docket : Docket} (h : docket.Orderly) (pending : Table String Nat)
    (place : Nat) :
    Orderly { docket with pending, waiting := docket.waiting.eraseIdx place } := by
  have hsub := List.eraseIdx_sublist docket.waiting place
  exact ⟨fun opening hmem => h.numbered opening (hsub.subset hmem),
    h.distinct.sublist (hsub.map Opening.ticket)⟩

/-- Every move keeps the docket in order. -/
theorem Step.orderly {docket later : Docket} {move : Move} (hstep : Step docket move later)
    (h : docket.Orderly) : later.Orderly := by
  cases hstep with
  | @start document language text opening hdocument hticket =>
    constructor
    · intro other hother
      rcases List.mem_append.mp hother with hold | hnew
      · exact Nat.le_succ_of_le (h.numbered other hold)
      · rw [List.mem_singleton.mp hnew]
        exact Nat.le_of_eq hticket
    · rw [List.map_append, List.map_singleton, ← List.concat_eq_append]
      refine h.distinct.concat fun hmem => ?_
      obtain ⟨other, hother, heq⟩ := List.mem_map.mp hmem
      have hle := h.numbered other hother
      omega
  | close document => exact ⟨h.numbered, h.distinct⟩
  | dispose => exact ⟨h.numbered, h.distinct⟩
  | settled hplace hlatest => exact h.eraseIdx _ _
  | dropped hplace => exact h.eraseIdx docket.pending _
  | still hmove => exact h

/-- How an opening stands after some moves: its ticket was given out, and it is the awaited one
for as long as the opening waits undisturbed, and never again once it was disturbed. -/
structure Standing (docket : Docket) (opening : Opening Document) (disturbed : Bool) : Prop where
  given : opening.ticket ≤ docket.openings
  latest : disturbed = false → opening ∈ docket.waiting →
    docket.pending.get? opening.document = some opening.ticket
  passed : disturbed = true → docket.pending.get? opening.document ≠ some opening.ticket

/-- Two openings that wait at different places have different tickets. -/
theorem Orderly.ticket_ne {docket : Docket} (h : docket.Orderly) {place : Nat}
    {ended opening : Opening Document} (hplace : docket.waiting[place]? = some ended)
    (hopening : opening ∈ docket.waiting.eraseIdx place) : opening.ticket ≠ ended.ticket := by
  obtain ⟨other, hne, hother⟩ := List.mem_eraseIdx_iff_getElem?.mp hopening
  intro heq
  have hmap (i : Nat) (x : Opening Document) (hx : docket.waiting[i]? = some x) :
      (docket.waiting.map Opening.ticket)[i]? = some x.ticket := by
    rw [List.getElem?_map, hx, Option.map_some]
  obtain ⟨hlt, _⟩ := List.getElem?_eq_some_iff.mp (hmap other opening hother)
  refine hne ((List.getElem?_inj hlt h.distinct).mp ?_)
  rw [hmap other opening hother, hmap place ended hplace, heq]

/-- When nothing is awaited of a document any more, an opening of another one stands as before, and
one of this document has been disturbed or waits no longer. -/
theorem Standing.erase {docket : Docket} {opening : Opening Document} {disturbed now : Bool}
    (h : docket.Standing opening disturbed) (document : String) {waiting : List (Opening Document)}
    (hwaiting : waiting ⊆ docket.waiting)
    (hfree : now = false → opening ∈ waiting → disturbed = false ∧ opening.document ≠ document)
    (hmoved : now = true → opening.document = document ∨ disturbed = true) :
    Standing ⟨docket.pending.erase document, docket.openings, waiting⟩ opening now := by
  refine ⟨h.given, fun hnow hmem => ?_, fun hnow hpending => ?_⟩
  · obtain ⟨hdisturbed, hne⟩ := hfree hnow hmem
    rw [Table.get?_erase, if_neg hne]
    exact h.latest hdisturbed (hwaiting hmem)
  · rw [Table.get?_erase] at hpending
    split at hpending
    · cases hpending
    · exact h.passed ((hmoved hnow).resolve_left ‹_›) hpending

/-- Every move leaves an opening standing, disturbed or not. -/
theorem Step.standing {docket later : Docket} {move : Move} {opening : Opening Document}
    {disturbed : Bool} (hstep : Step docket move later) (horder : docket.Orderly)
    (h : docket.Standing opening disturbed) :
    later.Standing opening (disturbed || move.disturbs opening.document) := by
  have hgiven := h.given
  cases hstep with
  | @start document language text started hdocument hticket =>
    refine ⟨Nat.le_succ_of_le hgiven, ?_, ?_⟩
    · intro hfree hwaiting
      obtain ⟨hdisturbed, hother⟩ := Bool.or_eq_false_iff.mp hfree
      have hne : opening.document ≠ document := fun heq => by simp [Move.disturbs, heq] at hother
      rw [Table.get?_insert, if_neg hne]
      refine h.latest hdisturbed ?_
      rcases List.mem_append.mp hwaiting with hold | hnew
      · exact hold
      · rw [List.mem_singleton.mp hnew] at hgiven
        omega
    · intro hmoved hpending
      rw [Table.get?_insert] at hpending
      split at hpending
      · have := Option.some.inj hpending
        omega
      · rename_i hne
        have hsame : ¬document = opening.document := fun heq => hne heq.symm
        refine h.passed ?_ hpending
        simpa [Move.disturbs, hsame] using hmoved
  | close document =>
    refine h.erase document (fun _ => id) (fun hfree _ => ?_) fun hmoved => ?_
    · obtain ⟨hdisturbed, hother⟩ := Bool.or_eq_false_iff.mp hfree
      exact ⟨hdisturbed, fun heq => by simp [Move.disturbs, heq] at hother⟩
    · rcases Bool.or_eq_true_iff.mp hmoved with hbefore | hclosed
      · exact .inr hbefore
      · exact .inl (of_decide_eq_true hclosed).symm
  | dispose =>
    refine ⟨hgiven, fun hfree => ?_, fun _ hpending => ?_⟩
    · simp [Move.disturbs] at hfree
    · cases hpending
  | @settled place answer ended hplace hlatest =>
    have hsub := (List.eraseIdx_sublist docket.waiting place).subset
    refine h.erase ended.document hsub (fun hfree hwaiting => ?_) fun hmoved => ?_
    · obtain ⟨hdisturbed, _⟩ := Bool.or_eq_false_iff.mp hfree
      refine ⟨hdisturbed, fun heq => ?_⟩
      have hpending := h.latest hdisturbed (hsub hwaiting)
      rw [heq, hlatest] at hpending
      exact horder.ticket_ne hplace hwaiting (Option.some.inj hpending).symm
    · exact .inr (by simpa [Move.disturbs] using hmoved)
  | @dropped place answer ended hplace =>
    refine ⟨hgiven, ?_, ?_⟩
    · intro hfree hwaiting
      obtain ⟨hdisturbed, _⟩ := Bool.or_eq_false_iff.mp hfree
      exact h.latest hdisturbed ((List.eraseIdx_sublist docket.waiting place).subset hwaiting)
    · exact fun hmoved => h.passed (by simpa [Move.disturbs] using hmoved)
  | still hmove =>
    rw [hmove, Bool.or_false]
    exact h

end Docket

/-! ## The forest goes by the docket -/

namespace ForestRun

/-- Taking back a subscription changes nothing but the listeners and leaves no event. -/
theorem drop_leaves {harmless : Event → Prop} (name : String) :
    Leaves (Forest.holdings grovePart) harmless (drop name) := by
  intro seen
  refine .bind (.gets _) fun run => .bind (.ofOption _ _) fun subscription => ?_
  exact Forest.unregister_leaves (Forest.shows_holdings grovePart).deaf _ _ _ seen

/-- A probe leaves the holdings alone and touches no tree. -/
theorem notify_leaves (probe : Probe) :
    Leaves (Forest.holdings grovePart) Event.SparesTrees (notify probe) := by
  intro seen
  refine .bind (Keeping.emit trivial) fun _ => .bind (.each fun name _ => drop_leaves name seen) ?_
  intro _
  cases probe.failure with
  | some message => exact .fail _
  | none => exact .pure _

theorem announce_leaves (trigger : Trigger) (document : String) :
    Leaves (Forest.holdings grovePart) Event.SparesTrees
      (Forest.announce ground trigger document) :=
  Forest.announce_leaves notify_leaves (fun _ _ => trivial) trigger document

end ForestRun

/-- Going on with an opening either leaves the awaited tickets alone, or the opening was awaited
and is so no longer. -/
theorem pending_of_resumed {opening : Opening Document} {answer : Answer} {run : ForestRun}
    {done : Outcome ForestRun Bool} (h : Forest.Resumed ground opening run answer done) :
    (Forest.holdings grovePart done.state).openings = (Forest.holdings grovePart run).openings ∧
      ((Forest.holdings grovePart done.state).pending = (Forest.holdings grovePart run).pending ∨
        (Forest.holdings grovePart run).pending.get? opening.document = some opening.ticket ∧
          (Forest.holdings grovePart done.state).pending =
            (Forest.holdings grovePart run).pending.erase opening.document) := by
  cases h with
  | rejected fault => exact ⟨rfl, .inl rfl⟩
  | stale found hstale => exact ⟨rfl, .inl rfl⟩
  | unavailable hlatest => exact ⟨rfl, .inr ⟨hlatest, rfl⟩⟩
  | unparsed hlatest hsettled hparse hparser =>
    subst hsettled
    exact ⟨rfl, .inr ⟨hlatest, rfl⟩⟩
  | @stored settled planted language tree trace hlatest hsettled htree hparse hparser hplanted =>
    rw [(ForestRun.announce_leaves .parsed opening.document).state planted]
    subst hplanted
    exact ⟨rfl, .inr ⟨hlatest, rfl⟩⟩

/-- Changes to a document leave the awaited tickets alone. -/
theorem pending_of_updated {document : String} {source : Document} {changes : List Change}
    {run : ForestRun} {done : Outcome ForestRun Unit}
    (h : Forest.Updated ground document source changes run done) :
    (Forest.holdings grovePart done.state).openings = (Forest.holdings grovePart run).openings ∧
      (Forest.holdings grovePart done.state).pending = (Forest.holdings grovePart run).pending := by
  cases h with
  | absent hentry => exact ⟨rfl, rfl⟩
  | idle hchanges => exact ⟨rfl, rfl⟩
  | unparsed hchanges hentry htold hparse hparser =>
    subst htold
    exact ⟨rfl, rfl⟩
  | @replaced entry told planted tree trace hchanges hentry htold htree hparse hparser hplanted =>
    rw [(ForestRun.announce_leaves .changed document).state planted]
    subst hplanted
    exact ⟨rfl, rfl⟩

/-- The docket of a forest under traffic. -/
def Traffic.docket (traffic : Traffic) : Docket :=
  ⟨traffic.run.grove.forest.pending, traffic.run.grove.forest.openings, traffic.waiting⟩

/-- A docket is known from the holdings of the forest. -/
theorem Traffic.docket_eq (traffic : Traffic) :
    traffic.docket = ⟨(Forest.holdings grovePart traffic.run).pending,
      (Forest.holdings grovePart traffic.run).openings, traffic.waiting⟩ := rfl

/-- The docket after a start. -/
theorem Traffic.docket_start (traffic : Traffic) (document : String) (language text : Text) :
    (traffic.next (.start document language text)).docket =
      ⟨traffic.docket.pending.insert document (traffic.docket.openings + 1),
        traffic.docket.openings + 1,
        traffic.waiting ++ [traffic.opening document language text]⟩ := by
  have hstate : (traffic.next (.start document language text)).run =
      (Forest.start grovePart traffic.run.resolve document ⟨text, language⟩ language .direct
        traffic.run).state := by
    rw [next, ForestStep.act, Action.bind_of_quiet (Action.get_apply _), Action.state_bind_pure]
  obtain ⟨grove, result, trace, happly, hgrove, _⟩ := Forest.start_apply grovePart
    traffic.run.resolve document ⟨text, language⟩ language .direct traffic.run
  rw [docket_eq (traffic.next _), hstate, happly, Forest.holdings_set, hgrove]
  rfl

/-- What an answer does to the docket. -/
theorem Traffic.docket_answer (traffic : Traffic) (place : Nat) (answer : Answer) :
    traffic.docket.Step (.answer place answer) (traffic.next (.answer place answer)).docket := by
  cases hplace : traffic.waiting[place]? with
  | none =>
    have hnext : traffic.next (.answer place answer) = traffic := by
      rw [next, hplace]
    rw [hnext]
    exact .still fun _ => rfl
  | some opening =>
    have hnext : traffic.next (.answer place answer) =
        ⟨(Forest.resume ground opening answer traffic.run).state,
          traffic.waiting.eraseIdx place⟩ := by
      rw [next, hplace]
    obtain ⟨hopenings, hpending⟩ :=
      pending_of_resumed (Forest.resume_resumed ground opening answer traffic.run)
    rw [docket_eq (traffic.next _), hnext]
    dsimp only
    rw [hopenings]
    rcases hpending with hsame | ⟨hlatest, herased⟩
    · rw [hsame]
      exact .dropped hplace
    · rw [herased]
      exact .settled hplace hlatest

/-- Every move does to the docket what the docket allows. -/
theorem Traffic.docket_next (traffic : Traffic) (move : Move) :
    traffic.docket.Step move (traffic.next move).docket := by
  cases move with
  | start document language text =>
    rw [docket_start]
    exact .start rfl rfl
  | close document =>
    have hstate : (traffic.next (.close document)).run =
        (Forest.close grovePart document traffic.run).state := by
      rw [next, ForestStep.act, Action.state_bind_pure]
    obtain ⟨grove, happly, hgrove⟩ :=
      Forest.close_apply grovePart document traffic.run
    rw [docket_eq (traffic.next _), hstate, happly]
    dsimp only
    rw [Forest.holdings_set, hgrove]
    exact .close document
  | dispose =>
    have hstate : (traffic.next .dispose).run =
        (Forest.dispose grovePart traffic.run).state := by
      rw [next, ForestStep.act, Action.state_bind_pure]
    obtain ⟨hpending, hopenings⟩ := Forest.holdings_dispose grovePart traffic.run
    rw [docket_eq (traffic.next _), hstate, hpending, hopenings]
    exact .dispose
  | answer place answer => exact traffic.docket_answer place answer
  | change document language text changes =>
    have hstate : (traffic.next (.change document language text changes)).run =
        (Forest.update ground document ⟨text, language⟩ changes traffic.run).state := by
      rw [next, ForestStep.act, Action.state_bind_pure]
    obtain ⟨hopenings, hpending⟩ := pending_of_updated
      (Forest.update_updated ground document ⟨text, language⟩ changes traffic.run)
    rw [docket_eq (traffic.next _), hstate, hopenings, hpending]
    exact .still fun _ => rfl
  | listen trigger document probe =>
    have hlisten : Leaves (Forest.holdings grovePart) Event.SparesTrees
        (ForestStep.register trigger document probe).act := by
      intro seen
      refine .bind (Forest.register_leaves (Forest.shows_holdings grovePart).deaf trigger document
        probe seen) fun number => ?_
      exact .bind (Keeping.modify fun _ => rfl) fun _ => .pure _
    rw [docket_eq (traffic.next _), next, hlisten.state]
    exact .still fun _ => rfl
  | drop name =>
    have hstate : (traffic.next (.drop name)).run = (ForestRun.drop name traffic.run).state := by
      rw [next, ForestStep.act, Action.state_bind_pure]
    have hdrop : Leaves (Forest.holdings grovePart) Event.SparesTrees (ForestRun.drop name) :=
      ForestRun.drop_leaves name
    rw [docket_eq (traffic.next _), hstate, hdrop.state]
    exact .still fun _ => rfl
  | work action => exact .still fun _ => rfl

/-- A forest without documents has an empty docket. -/
theorem Traffic.orderly_fresh (toolkit : Toolkit) (catalog : Catalog) (shippedOnly : Bool) :
    (fresh toolkit catalog shippedOnly).docket.Orderly :=
  ⟨fun _ hmem => absurd hmem List.not_mem_nil, List.nodup_nil⟩

/-- A run of moves keeps the docket in order. -/
theorem Traffic.orderly_after {traffic : Traffic} (h : traffic.docket.Orderly)
    (moves : List Move) : (traffic.after moves).docket.Orderly := by
  induction moves generalizing traffic with
  | nil => exact h
  | cons move rest ih => exact ih ((traffic.docket_next move).orderly h)

/-- A run of moves leaves an opening standing, disturbed or not. -/
theorem Traffic.standing_after {traffic : Traffic} {opening : Opening Document} {disturbed : Bool}
    (horder : traffic.docket.Orderly) (h : traffic.docket.Standing opening disturbed)
    (moves : List Move) :
    (traffic.after moves).docket.Standing opening
      (disturbed || moves.any (·.disturbs opening.document)) := by
  induction moves generalizing traffic disturbed with
  | nil =>
    rw [List.any_nil, Bool.or_false]
    exact h
  | cons move rest ih =>
    have hstep := traffic.docket_next move
    rw [List.any_cons, ← Bool.or_assoc]
    exact ih (hstep.orderly horder) (hstep.standing horder h)

/-- An opening that still waits is the awaited one exactly when nothing disturbed it. -/
theorem Traffic.awaited_iff {traffic : Traffic} (horder : traffic.docket.Orderly)
    (document : String) (language text : Text) (between : List Move) :
    let opening := traffic.opening document language text
    let now := traffic.after (.start document language text :: between)
    opening ∈ now.waiting →
      (now.run.grove.forest.pending.get? document = some opening.ticket ↔
        ∀ move ∈ between, move.disturbs document = false) := by
  intro opening now hwaiting
  have hstep := traffic.docket_next (.start document language text)
  have hstart : (traffic.next (.start document language text)).docket.Standing opening false := by
    rw [docket_start]
    refine ⟨Nat.le_refl _, fun _ _ => Table.get?_insert_self _ _ _, fun hdisturbed => ?_⟩
    cases hdisturbed
  have hstanding : now.docket.Standing opening (between.any (·.disturbs document)) := by
    have hafter := standing_after (hstep.orderly horder) hstart between
    rw [Bool.false_or] at hafter
    exact hafter
  have hany : (∀ move ∈ between, move.disturbs document = false) ↔
      between.any (·.disturbs document) = false := by
    simp
  rw [hany]
  constructor
  · intro hlatest
    rw [Bool.eq_false_iff]
    exact fun hdisturbed => hstanding.passed hdisturbed hlatest
  · exact fun hfree => hstanding.latest hfree hwaiting

/-! ## How an opening ends -/

/-- The listener that an event tells of. -/
def heardBy? : Event → Option String
  | .heard name => some name
  | _ => none

/-- The listeners that were called, in order. -/
def heard (trace : List Event) : List String := trace.filterMap heardBy?

/-- The tree whose deletion an event tells of. -/
def deletedTree? : Event → Option Nat
  | .treeDeleted number => some number
  | _ => none

/-- The trees that were deleted, in order. -/
def deletedTrees (trace : List Event) : List Nat := trace.filterMap deletedTree?

theorem heard_append (trace more : List Event) :
    heard (trace ++ more) = heard trace ++ heard more :=
  List.filterMap_append

theorem deletedTrees_append (trace more : List Event) :
    deletedTrees (trace ++ more) = deletedTrees trace ++ deletedTrees more :=
  List.filterMap_append

/-- No listener hears of a tree that is deleted. -/
theorem heard_deletions (grove : Grove Document Probe) (document : String) :
    heard (grove.deletions document) = [] := by
  simp [heard, Grove.deletions, heardBy?]

/-- The tree that a document has is the one to delete. -/
theorem deletedTrees_deletions (grove : Grove Document Probe) (document : String) :
    deletedTrees (grove.deletions document) =
      (grove.forest.entries.get? document).toList.map (·.tree.number) := by
  cases hentry : grove.forest.entries.get? document with
  | none => simp [Grove.deletions, hentry, deletedTrees]
  | some entry => simp [Grove.deletions, hentry, deletedTrees, deletedTree?]

/-- A parser at work calls no listener. -/
theorem heard_parsing {trace : List Event} (h : ∀ event ∈ trace, event.OfParser none) :
    heard trace = [] := by
  refine List.filterMap_eq_nil_iff.mpr fun event hevent => ?_
  have hparser := h event hevent
  cases event <;> first | rfl | exact hparser.elim

/-- What spares the trees deletes none. -/
theorem deletedTrees_of_spares {trace : List Event} (h : ∀ event ∈ trace, event.SparesTrees) :
    deletedTrees trace = [] := by
  refine List.filterMap_eq_nil_iff.mpr fun event hevent => ?_
  have hspares := h event hevent
  cases event <;> first | rfl | exact hspares.elim

/-- A probe is heard once. -/
theorem heard_notify (probe : Probe) (run : ForestRun) :
    heard (ForestRun.notify probe run).trace = [probe.name] := by
  unfold ForestRun.notify
  rw [Action.bind_of_ok (Action.emit_apply _ _)]
  simp only [heard, List.singleton_append, List.filterMap_cons, heardBy?]
  refine congrArg (probe.name :: ·) (List.filterMap_eq_nil_iff.mpr ?_)
  -- What a probe does once it is called makes no other heard.
  refine (show Leaves (fun _ => ()) _ _ from fun seen => ?_).trace run
  refine .bind (.each fun name _ => ?_) fun _ => ?_
  · exact (ForestRun.drop_leaves name).of_view (fun _ => ()) seen
  · cases probe.failure with
    | some message => exact .fail _
    | none => exact .pure _

/-- A probe that fails is heard as well, and its failure is reported. -/
theorem heard_rescue (document : String) (probe : Probe) (run : ForestRun) :
    ∃ after trace, heard trace = [probe.name] ∧
      Action.rescue (ground.notify probe) (fun fault => Action.report (.listener document) fault)
        run = ⟨.ok (), after, trace⟩ := by
  have hheard := heard_notify probe run
  rcases hnotify : ForestRun.notify probe run with ⟨_ | _, after, trace⟩
  · rw [hnotify] at hheard
    refine ⟨after, _, ?_, Action.rescue_of_error hnotify _⟩
    rw [heard, List.filterMap_append]
    exact congrArg (· ++ []) hheard
  · rw [hnotify] at hheard
    exact ⟨after, trace, hheard, Action.rescue_of_ok hnotify _⟩

/-- Telling the listeners calls each of them once, in order, whatever they do to the
registrations. -/
theorem heard_announce (trigger : Trigger) (document : String) (run : ForestRun) :
    heard (Forest.announce ground trigger document run).trace =
      (run.grove.forest.listeners trigger document).map (·.listener.name) := by
  have hcalls (registrations : List (Registration Probe)) (now : ForestRun) :
      heard (Action.each registrations (fun registration =>
        Action.rescue (ground.notify registration.listener) fun fault =>
          Action.report (.listener document) fault) now).trace =
      registrations.map (·.listener.name) := by
    induction registrations generalizing now with
    | nil => rfl
    | cons registration rest ih =>
      obtain ⟨after, trace, htrace, hrescue⟩ := heard_rescue document registration.listener now
      rw [Action.each, Action.bind_of_ok hrescue, heard, List.filterMap_append]
      exact congrArg₂ (· ++ ·) htrace (ih after)
  unfold Forest.announce
  rw [Action.bind_of_quiet (Action.look_apply _ _)]
  exact hcalls _ run

/-- An opening gave its document a tree: the tree is stored in place of the one before, which is
deleted, and the listeners to its parsing were called in order. -/
structure TookEffect (opening : Opening Document) (language : Language) (tree : Tree)
    (run : ForestRun) (done : Outcome ForestRun Bool) : Prop where
  entries : done.state.grove.forest.entries = run.grove.forest.entries.insert opening.document
    { tree, language, source := opening.source, key := opening.language }
  heard : heard done.trace =
    (run.grove.forest.listeners .parsed opening.document).map (·.listener.name)
  deleted : deletedTrees done.trace =
    (run.grove.forest.entries.get? opening.document).toList.map (·.tree.number)

/-- An opening had no effect: no entry changed, no tree was deleted, no listener called. -/
structure HadNoEffect (run : ForestRun) (done : Outcome ForestRun Bool) : Prop where
  entries : done.state.grove.forest.entries = run.grove.forest.entries
  workshop : done.state.grove.workshop = run.grove.workshop
  heard : heard done.trace = []
  deleted : deletedTrees done.trace = []

/-- How an opening ends, by its ticket, its answer and the parser. -/
theorem ending_of_resumed {opening : Opening Document} {answer : Answer} {run : ForestRun}
    {done : Outcome ForestRun Bool} (h : Forest.Resumed ground opening run answer done) :
    (∃ language tree, answer = .ok (some language) ∧
        run.grove.forest.pending.get? opening.document = some opening.ticket ∧
        (Workshop.parse (some language) opening.source.text none run.grove.workshop).result =
          .ok tree ∧
        done.result = .ok true ∧ TookEffect opening language tree run done) ∨
      HadNoEffect run done ∧
        ((∃ fault, answer = .error fault ∧ done.result = .error fault) ∨
          (∃ found, answer = .ok found ∧ done.result = .ok false ∧
            (run.grove.forest.pending.get? opening.document ≠ some opening.ticket ∨
              found = none)) ∨
          ∃ language fault, answer = .ok (some language) ∧
            run.grove.forest.pending.get? opening.document = some opening.ticket ∧
            (Workshop.parse (some language) opening.source.text none run.grove.workshop).result =
              .error fault ∧
            done.result = .error fault) := by
  cases h with
  | rejected fault => exact .inr ⟨⟨rfl, rfl, rfl, rfl⟩, .inl ⟨fault, rfl, rfl⟩⟩
  | stale found hstale =>
    exact .inr ⟨⟨rfl, rfl, rfl, rfl⟩, .inr (.inl ⟨found, rfl, rfl, .inl hstale⟩)⟩
  | unavailable hlatest =>
    exact .inr ⟨⟨rfl, rfl, rfl, rfl⟩, .inr (.inl ⟨none, rfl, rfl, .inr rfl⟩)⟩
  | @unparsed settled language fault trace hlatest hsettled hparse hparser =>
    have hfails : (Workshop.parse (some language) opening.source.text none
        run.grove.workshop).result = .error fault := congrArg Outcome.result hparse
    subst hsettled
    refine .inr ⟨⟨rfl, rfl, heard_parsing hparser, ?_⟩, ?_⟩
    · exact deletedTrees_of_spares fun event hevent => (hparser event hevent).sparesTrees
    · exact .inr (.inr ⟨language, fault, rfl, hlatest, hfails, rfl⟩)
  | @stored settled planted language tree trace hlatest hsettled htree hparse hparser hplanted =>
    have hmakes : (Workshop.parse (some language) opening.source.text none
        run.grove.workshop).result = .ok tree := congrArg Outcome.result hparse
    refine .inl ⟨language, tree, rfl, hlatest, hmakes, rfl, ?_, ?_, ?_⟩
    · have hkept := (ForestRun.announce_leaves .parsed opening.document).state planted
      refine (congrArg Holdings.entries hkept).trans ?_
      rw [hplanted]
      rfl
    · have hlisteners : planted.grove.forest.listeners .parsed opening.document =
          run.grove.forest.listeners .parsed opening.document := by
        rw [hplanted]
        rfl
      rw [heard_append, heard_append, heard_parsing hparser, heard_deletions, ← hlisteners,
        ← heard_announce]
      rfl
    · have hbefore : deletedTrees trace = [] :=
        deletedTrees_of_spares fun event hevent => (hparser event hevent).sparesTrees
      have hannounced := deletedTrees_of_spares
        ((ForestRun.announce_leaves .parsed opening.document).trace planted)
      have hafter : deletedTrees (.log (.parsed opening.document opening.language) ::
          (Forest.announce ground .parsed opening.document planted).trace) = [] := hannounced
      rw [deletedTrees_append, deletedTrees_append, hbefore, deletedTrees_deletions, hafter,
        List.nil_append, List.append_nil]
      rfl

/-- **Staleness.** Whatever happens between the start of an opening and the answer to it, it
gives its document a tree, calls the listeners and tells so exactly when no other opening and no
closing of the document and no disposal came between, there is a language, and the text can be
parsed. In every other case it has no effect, and it ends in the fault of the lookup or of the
parser, or tells that there is no new tree. -/
theorem latest_opening_alone_counts (toolkit : Toolkit) (catalog : Catalog) (shippedOnly : Bool)
    (before between : List Move) (document : String) (language text : Text) (answer : Answer) :
    let earlier := (Traffic.fresh toolkit catalog shippedOnly).after before
    let opening := earlier.opening document language text
    let now := earlier.after (.start document language text :: between)
    let undisturbed := ∀ move ∈ between, move.disturbs document = false
    let parse found := (Workshop.parse (some found) text none now.run.grove.workshop).result
    let done := Forest.resume ground opening answer now.run
    opening ∈ now.waiting →
      (done.result = .ok true ↔
        undisturbed ∧ ∃ found tree, answer = .ok (some found) ∧ parse found = .ok tree) ∧
      (∀ found tree, undisturbed → answer = .ok (some found) → parse found = .ok tree →
        TookEffect opening found tree now.run done) ∧
      (done.result ≠ .ok true → HadNoEffect now.run done ∧
        ((∃ fault, answer = .error fault ∧ done.result = .error fault) ∨
          (∃ found, answer = .ok found ∧ done.result = .ok false ∧
            (¬undisturbed ∨ found = none)) ∨
          ∃ found fault, answer = .ok (some found) ∧ undisturbed ∧ parse found = .error fault ∧
            done.result = .error fault)) := by
  intro earlier opening now undisturbed parse done hwaiting
  have horder : earlier.docket.Orderly :=
    Traffic.orderly_after (Traffic.orderly_fresh toolkit catalog shippedOnly) before
  have hawaited : now.run.grove.forest.pending.get? document = some opening.ticket ↔
      undisturbed := Traffic.awaited_iff horder document language text between hwaiting
  rcases ending_of_resumed (Forest.resume_resumed ground opening answer now.run) with
    ⟨found, tree, hanswer, hlatest, hparse, hresult, heffect⟩ | ⟨hnone, hhow⟩
  · have hfree : undisturbed := hawaited.mp hlatest
    have hmakes : parse found = .ok tree := hparse
    refine ⟨⟨fun _ => ⟨hfree, found, tree, hanswer, hmakes⟩, fun _ => hresult⟩, ?_, ?_⟩
    · intro other made _ hother hmade
      obtain rfl : found = other := Option.some.inj (Except.ok.inj (hanswer.symm.trans hother))
      obtain rfl : tree = made := Except.ok.inj (hmakes.symm.trans hmade)
      exact heffect
    · exact fun hfailed => absurd hresult hfailed
  · have hfailed : done.result ≠ .ok true := by
      rcases hhow with ⟨_, _, hresult⟩ | ⟨_, _, hresult, _⟩ | ⟨_, _, _, _, _, hresult⟩
      all_goals
        intro htrue
        cases hresult.symm.trans htrue
    have hnot : ¬(undisturbed ∧
        ∃ found tree, answer = .ok (some found) ∧ parse found = .ok tree) := by
      rintro ⟨hfree, found, tree, hanswer, hmakes⟩
      rcases hhow with ⟨_, herror, _⟩ | ⟨_, hother, _, hwhy⟩ | ⟨_, _, hother, _, hfails, _⟩
      · cases hanswer.symm.trans herror
      · obtain rfl := Except.ok.inj (hanswer.symm.trans hother)
        rcases hwhy with hstale | hmissing
        · exact hstale (hawaited.mpr hfree)
        · cases hmissing
      · obtain rfl := Option.some.inj (Except.ok.inj (hanswer.symm.trans hother))
        cases hmakes.symm.trans hfails
    refine ⟨⟨fun htrue => absurd htrue hfailed, fun hgood => absurd hgood hnot⟩, ?_, ?_⟩
    · exact fun found tree hfree hanswer hmakes => absurd ⟨hfree, found, tree, hanswer, hmakes⟩ hnot
    · refine fun _ => ⟨hnone, ?_⟩
      rw [← hawaited]
      rcases hhow with hrejected | hdropped | ⟨found, fault, hanswer, hlatest, hfails, hresult⟩
      · exact .inl hrejected
      · exact .inr (.inl hdropped)
      · exact .inr (.inr ⟨found, fault, hanswer, hlatest, hfails, hresult⟩)

/-- A second opening of a document overtakes the first, while another document is opened too. -/
theorem latest_opening_alone_counts_overtaking :
    let language : Language := ⟨"l1", [], false⟩
    let catalog := Catalog.make .empty .empty .empty
    let before : List Move := [.work (Workshop.perform (.makeParser 0)),
      .listen .parsed "a" ⟨"ear", [], none⟩, .start "a" [112] [120]]
    let between : List Move := [.start "b" [112] [122], .answer 0 (.ok (some language)),
      .close "c"]
    let earlier := (Traffic.fresh {} catalog false).after before
    let opening := earlier.opening "a" [112] [121]
    let now := earlier.after (.start "a" [112] [121] :: between)
    let done := Forest.resume ground opening (.ok (some language)) now.run
    opening ∈ now.waiting ∧ done.result = .ok true ∧ heard done.trace = ["ear"] := by
  intro language catalog before between earlier opening now done
  have hwaiting : opening ∈ now.waiting := by decide +kernel
  have hfree : ∀ move ∈ between, move.disturbs "a" = false := by decide +kernel
  have hlisteners : (now.run.grove.forest.listeners .parsed opening.document).map
      (·.listener.name) = ["ear"] := by decide +kernel
  have hok : (Workshop.parse (some language) [121] none now.run.grove.workshop).result.isOk =
      true := by decide +kernel
  have hcounts := latest_opening_alone_counts {} catalog false before between "a" [112] [121]
    (.ok (some language))
  extract_lets at hcounts
  -- Nothing below evaluates the run again.
  clear_value now opening
  obtain ⟨hiff, heffect, _⟩ := hcounts hwaiting
  cases hparse : (Workshop.parse (some language) [121] none now.run.grove.workshop).result with
  | error fault =>
    rw [hparse] at hok
    cases hok
  | ok tree =>
    refine ⟨hwaiting, hiff.mpr ⟨hfree, language, tree, rfl, hparse⟩, ?_⟩
    rw [(heffect language tree hfree rfl hparse).heard, hlisteners]

end ClosingLabels.Scenario
