import ClosingLabels.Forest
import ClosingLabels.Proofs.Progress

/-!
# One language for each name

As long as the languages are not forgotten, whoever asked for a language is answered with
the one that is known under its name. They may be forgotten when no task is left: a load
that is under way then goes on, but whoever waits for it, and whoever asks later, is
answered with what it makes.
-/

namespace ClosingLabels

/-- A language goes by a name that has no zero unit and, if that is the one name that counts, is
the language known under it. -/
def Knows (key : Text) (table : Table Text Language) (name : Text) (language : Language) : Prop :=
  0 ∉ name ∧ (name = key → table.get? key = some language)

namespace Knows

variable {key name : Text} {table : Table Text Language} {language : Language}

/-- A table may grow. -/
theorem mono (h : Knows key table name language) {larger : Table Text Language}
    (hlarger : ∀ known, table.get? key = some known → larger.get? key = some known) :
    Knows key larger name language :=
  ⟨h.1, fun hname => hlarger language (h.2 hname)⟩

/-- The name that counts leads to one language. -/
theorem unique (h : Knows key table key language) {other : Language}
    (hother : Knows key table key other) : language = other :=
  Option.some.inj ((h.2 rfl).symm.trans (hother.2 rfl))

end Knows

/-- Whoever asked for one language gets the one that is known under its name. No name has a zero
unit. -/
def Terms.steady (key : Text) (base : Nat) : Terms (Waiter Nat) where
  base := base
  asked waiter :=
    match waiter with
    | .opening opening => some opening.language
    | .bare _ => none
  named name _ := 0 ∉ name
  has := Knows key
  made name _ := 0 ∉ name
  lacks _ := True
  faults := True
  kept _ := True

theorem Terms.steady_sound (key : Text) (base : Nat) : (steady key base).Sound where
  grow := by
    rintro table name other language found hnew ⟨hplain, hhas⟩
    refine ⟨hplain, fun hother => ?_⟩
    have hne : key ≠ name := by
      rintro rfl
      cases hnew.symm.trans (hhas hother)
    exact (Table.get?_insert_of_ne _ _ hne).trans (hhas hother)
  learn := by
    rintro table name language hnew hplain
    refine ⟨hplain, ?_⟩
    rintro rfl
    exact Table.get?_insert_self _ _ _
  missing _ _ _ := trivial
  refused _ _ _ _ _ := trivial
  loaded _ _ hnamed _ _ _ := hnamed
  member _ := trivial
  start _ _ := trivial
  keep _ _ _ _ := trivial

namespace Workshop

variable {key : Text} {workshop : Workshop (Waiter Nat) (Work Nat)}

/-- A workshop in which one name leads to one language. -/
structure Steady (key : Text) (workshop : Workshop (Waiter Nat) (Work Nat)) : Prop where
  honest : ∃ base, (Terms.steady key base).Honest workshop
  inTurn : ∃ done, workshop.InTurn done
  attended : workshop.Attended

namespace Steady

/-- A workshop in which nothing has happened is steady. -/
theorem fresh (toolkit : Toolkit) : Steady key { toolkit } := by
  refine ⟨⟨0, trivial, ?_, by simp, by simp⟩, ⟨0, .fresh toolkit⟩, .fresh toolkit⟩
  exact ⟨Nat.le_refl _, by simp, by simp, by simp, by simp⟩

/-- What the toolkit makes or deletes besides does not matter. -/
theorem of_toolkit (h : workshop.Steady key) (toolkit : Toolkit) :
    Steady key { workshop with toolkit } := by
  obtain ⟨⟨base, hhonest⟩, ⟨done, hturn⟩, hattended⟩ := h
  exact ⟨⟨base, trivial, hhonest.grammars, hhonest.tasks, hhonest.requests⟩,
    ⟨done, hturn.of_eq rfl rfl⟩,
    ⟨hattended.starting, hattended.current, hattended.unanswered, hattended.within⟩⟩

/-- Neither does other work. -/
theorem push (h : workshop.Steady key) (work : Work Nat) :
    Steady key (workshop.enqueue [.client work]) := by
  obtain ⟨⟨base, hhonest⟩, ⟨done, hturn⟩, hattended⟩ := h
  refine ⟨⟨base, hhonest.enqueue (by simp [Terms.FitsTask])⟩, ⟨done, ?_⟩,
    hattended.enqueue (by simp)⟩
  exact hturn.of_eq rfl (driven_enqueue_of_none (by simp [Task.drives]))

/-- A task that is not a step of loading may be taken. -/
theorem take (h : workshop.Steady key) {task : Task (Waiter Nat) (Work Nat)}
    {rest : List (Task (Waiter Nat) (Work Nat))} (htasks : workshop.tasks = task :: rest)
    (hother : ∀ job, task ≠ .job job) : Steady key (workshop.withTasks rest) := by
  obtain ⟨⟨base, hhonest⟩, ⟨done, hturn⟩, hattended⟩ := h
  have hdrives : task.drives = none := by
    cases task with
    | job job => exact absurd rfl (hother job)
    | deliver waiter answer => rfl
    | client work => rfl
  have hstartup : task.startup = none := by
    cases task with
    | job job => exact absurd rfl (hother job)
    | deliver waiter answer => rfl
    | client work => rfl
  refine ⟨⟨base, hhonest.take htasks⟩, ⟨done, hturn.take htasks hdrives⟩,
    hattended.take htasks fun number waiting hsome => ?_⟩
  cases hstartup.symm.trans hsome

/-- An opening that is answered with a language gets the one that is known under its name. -/
theorem delivered (h : workshop.Steady key) {opening : Opening Nat} {language : Language}
    (hmem : .deliver (.opening opening) (.ok (some language)) ∈ workshop.tasks) :
    Knows key workshop.grammars.languages opening.language language := by
  obtain ⟨base, hhonest⟩ := h.honest
  exact hhonest.tasks _ hmem opening.language rfl

/-- The language of an opening may be looked up, and none that is known is lost. -/
theorem lookup (h : workshop.Steady key) {resolve : Text → Option GrammarName}
    {opening : Opening Nat} (hplain : 0 ∉ opening.language)
    {outcome : Outcome (Workshop (Waiter Nat) (Work Nat)) Unit}
    (hsought : Sought resolve opening.language (.opening opening) workshop outcome) :
    outcome.state.Steady key ∧
      ∀ language, workshop.grammars.languages.get? key = some language →
        outcome.state.grammars.languages.get? key = some language := by
  obtain ⟨⟨base, hhonest⟩, ⟨done, hturn⟩, hattended⟩ := h
  have hasked : ∀ asked ∈ (Terms.steady key base).asked (.opening opening),
      asked = opening.language := fun asked hasked => (Option.some.inj hasked).symm
  refine ⟨⟨⟨base, ?_⟩, ⟨done, hturn.lookup hsought⟩, hattended.lookup hsought⟩, fun _ hget => ?_⟩
  · exact hhonest.lookup hasked (fun _ => trivial) (fun _ _ => hplain) hsought
  · cases hsought with
    | unnamed hnew hname =>
      exact (congrArg (·.get? key) (Grammars.languages_markUnavailable _ _)).trans hget
    | _ => exact hget

/-- So may steps of loading be taken. -/
theorem perform (h : workshop.Steady key) {job : Job (Waiter Nat)}
    {rest : List (Task (Waiter Nat) (Work Nat))} (htasks : workshop.tasks = .job job :: rest)
    {outcome : Outcome (Workshop (Waiter Nat) (Work Nat)) Unit}
    (htook : Took (workshop.withTasks rest) job outcome) :
    outcome.state.Steady key ∧
      ∀ language, workshop.grammars.languages.get? key = some language →
        outcome.state.grammars.languages.get? key = some language := by
  obtain ⟨⟨base, hhonest⟩, ⟨done, hturn⟩, hattended⟩ := h
  obtain ⟨later, -, hlater⟩ := hturn.perform htasks htook
  refine ⟨⟨⟨base, hhonest.perform (Terms.steady_sound key base) hturn htasks htook⟩,
    ⟨later, hlater⟩, hattended.perform htasks htook⟩, fun language hget => ?_⟩
  exact hhonest.languages_perform htasks htook hget

/-- So may requests be finished. -/
theorem complete (h : workshop.Steady key) {place : Nat} {asked : Request}
    (hplace : workshop.requests[place]? = some asked)
    {outcome : Outcome (Workshop (Waiter Nat) (Work Nat)) Unit}
    (hcompleted : Completed (workshop.without place) asked outcome) :
    outcome.state.Steady key ∧
      ∀ language, workshop.grammars.languages.get? key = some language →
        outcome.state.grammars.languages.get? key = some language := by
  obtain ⟨⟨base, hhonest⟩, ⟨done, hturn⟩, hattended⟩ := h
  refine ⟨⟨⟨base, ?_⟩, ⟨done, hturn.complete hplace hcompleted⟩,
    hattended.complete hplace hcompleted⟩, fun _ hget => ?_⟩
  · exact hhonest.complete (Terms.steady_sound key base) hplace hcompleted
  · cases hcompleted <;> exact hget

/-- A link keeps to terms by which the links that are done do not count. Whoever follows a link
that is not done will be answered with what it makes. -/
theorem fitsLink (hattended : workshop.Attended) {base done number : Nat}
    (hturn : workshop.InTurn done) {link : Link (Waiter Nat)}
    (hlink : workshop.grammars.links[number]? = some link) {table after : Table Text Language}
    (h : (Terms.steady key base).FitsLink table number link) :
    (Terms.steady key done).FitsLink after number link := by
  have hanswered := hturn.chained.answered number link hlink
  refine ⟨h.named, fun answer hanswer => ?_, fun waiter hfollower => ?_⟩
  · have hlt : number < done := hanswered.mp (by rw [Option.mem_def.mp hanswer]; rfl)
    have huncounted : (Terms.steady key done).counted number link.key = none :=
      if_neg (Nat.not_le_of_lt hlt)
    rw [huncounted]
    rcases answer with fault | (_ | language)
    · trivial
    · exact fun name hnone => by cases hnone
    · exact fun name hnone => by cases hnone
  · have hopen := hattended.unanswered number link hlink (List.ne_nil_of_mem hfollower)
    have hle : done ≤ number := by
      rw [hopen] at hanswered
      simpa using hanswered
    intro asked hasked
    have hkey := (Terms.mem_counted.mp (h.followers waiter hfollower asked hasked)).2
    exact Terms.mem_counted.mpr ⟨hle, hkey⟩

/-- Where no language is known, grammars keep to terms by which the links that are done do not
count. -/
theorem fitsGrammars (hattended : workshop.Attended) {base done : Nat}
    (hturn : workshop.InTurn done) (h : (Terms.steady key base).FitsGrammars workshop.grammars)
    {grammars : Grammars (Waiter Nat)} (hstartups : grammars.startups = workshop.grammars.startups)
    (hlinks : grammars.links = workshop.grammars.links) (hlanguages : grammars.languages = .empty) :
    (Terms.steady key done).FitsGrammars grammars := by
  refine ⟨?_, ?_, fun _ _ => trivial, fun startup hmem => ?_, fun number link hlink => ?_⟩
  · rw [hlinks]
    exact hturn.chained.le
  · intro name language hget
    rw [hlanguages] at hget
    cases hget
  · have hfits := h.startups startup (hstartups ▸ hmem)
    cases startup with
    | pending waiting => exact hfits
    | ready => trivial
    | failed fault => trivial
  · rw [hlinks] at hlink
    exact fitsLink hattended hturn hlink (h.links number link hlink)

/-- When no task is left the languages may be forgotten. -/
theorem forget (h : workshop.Steady key) (htasks : workshop.tasks = [])
    (grammars : Grammars (Waiter Nat)) (hstartups : grammars.startups = workshop.grammars.startups)
    (hlinks : grammars.links = workshop.grammars.links) (hlanguages : grammars.languages = .empty)
    (hcurrent : ∀ number, grammars.current = some number →
      workshop.grammars.current = some number) :
    Steady key (workshop.withGrammars grammars) := by
  obtain ⟨⟨base, hhonest⟩, ⟨done, hturn⟩, hattended⟩ := h
  have hfits := fitsGrammars hattended hturn hhonest.grammars hstartups hlinks hlanguages
  have hat {number : Nat} {name : Text} {grammar : GrammarName}
      (hlinkAt : workshop.grammars.LinkAt number name grammar) :
      grammars.LinkAt number name grammar := by
    rw [Grammars.LinkAt, hlinks]
    exact hlinkAt
  refine ⟨⟨done, trivial, hfits, fun task hmem => ?_, fun asked hmem => ?_⟩,
    ⟨done, hturn.of_eq hlinks rfl⟩, ?_⟩
  · rw [withGrammars, htasks] at hmem
    cases hmem
  · cases asked with
    | startup number => trivial
    | load link file found =>
      obtain ⟨name, named, hlinkAt, hfile, -, hnamed, hearlier⟩ := hhonest.requests _ hmem
      exact ⟨name, named, hat hlinkAt, hfile, hlanguages ▸ rfl, hnamed, hearlier⟩
  · refine hattended.change grammars hstartups hcurrent (Nat.le_of_eq (by rw [hlinks])) ?_
    rw [hlinks]
    exact hattended.unanswered

end Steady

end Workshop

end ClosingLabels
