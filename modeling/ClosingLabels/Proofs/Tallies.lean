import ClosingLabels.Proofs.Effort
import ClosingLabels.Proofs.Milestones

/-!
# Tallies of the links

A language may have any number of links in the chain, one for each lookup that had to wait. Each of
them turns to the grammar file once at most, and meets once at most with its failure, for it does so
only while it is the one link that is driven. So the links of a language, with the lookups that are
on their way to become one, bound how often its file is tried and how often that fails.
-/

namespace ClosingLabels

/-- The event tells that the grammar of a language is missing or could not be loaded. -/
def Event.failsFor (key : Text) : Event → Bool
  | .warn (.missingGrammar _ language) => language = key
  | .error (.grammarLoad language) _ => language = key
  | _ => false

/-- The link whose grammar file a step of loading turns to, or hears of. -/
def Job.meets {W : Type} : Job W → Option Nat
  | .start link => some link
  | .finish link _ => some link
  | _ => none

/-- A lookup of a language is about to join the chain. -/
def Task.enters {W C : Type} (key : Text) : Task W C → Bool
  | .job (.enter lookup) => lookup.key = key
  | _ => false

/-- How many lookups of a language wait for a start of the toolkit. -/
def Startup.waitingFor {W : Type} (key : Text) (startup : Startup W) : Nat :=
  startup.waiting.countP fun lookup => lookup.key = key

namespace Workshop

variable {W C : Type} {workshop before : Workshop W C} {job : Job W}
  {outcome : Outcome (Workshop W C) Unit} {key : Text} {link done : Nat}

/-- The languages that the links are for, in the order of the chain. -/
def loadKeys (workshop : Workshop W C) : List Text := workshop.grammars.toLoad.map Prod.fst

theorem length_loadKeys (workshop : Workshop W C) :
    workshop.loadKeys.length = workshop.grammars.links.length := by
  simp [loadKeys, Grammars.toLoad]

theorem getElem?_loadKeys (workshop : Workshop W C) (link : Nat) :
    workshop.loadKeys[link]? = (workshop.grammars.links[link]?).map Link.key := by
  simp only [loadKeys, Grammars.toLoad, List.getElem?_map, Option.map_map]
  rfl

/-- A step of loading may add the language of a lookup that joins. -/
theorem Took.loadKeys (h : Took before job outcome) :
    outcome.state.loadKeys = before.loadKeys ++
      (job.milestones.filterMap Milestone.joined?).map Lookup.key := by
  rw [Workshop.loadKeys, h.toLoad, List.map_append, List.map_map]
  rfl

/-! ## Links that are not met yet -/

/-- A link is about to start. -/
def Starting (workshop : Workshop W C) (link : Nat) : Prop := .job (.start link) ∈ workshop.tasks

/-- The grammar file of a link is still to be turned to, or to be heard of. -/
def Unmet (workshop : Workshop W C) (link : Nat) : Prop :=
  (∃ job, .job job ∈ workshop.tasks ∧ job.meets = some link) ∨
    ∃ asked ∈ workshop.requests, asked.drives = some link

/-- A link that is not met yet is driven. -/
theorem Unmet.mem_driven (h : workshop.Unmet link) : link ∈ workshop.driven := by
  rcases h with ⟨job, hjob, hmeets⟩ | ⟨asked, hasked, hdrives⟩
  · refine List.mem_append_left _ (List.mem_filterMap.mpr ⟨_, hjob, ?_⟩)
    cases job <;> cases hmeets <;> rfl
  · exact List.mem_append_right _ (List.mem_filterMap.mpr ⟨asked, hasked, hdrives⟩)

theorem Starting.unmet (h : workshop.Starting link) : workshop.Unmet link :=
  .inl ⟨.start link, h, rfl⟩

/-- What starts without some task starts with it too. -/
theorem Starting.of_take {task : Task W C} {rest : List (Task W C)}
    (h : (workshop.withTasks rest).Starting link) (htasks : workshop.tasks = task :: rest) :
    workshop.Starting link := by
  unfold Starting
  rw [htasks]
  exact List.mem_cons_of_mem _ h

/-- A link that is unmet without some task is so with it too. -/
theorem Unmet.of_take {task : Task W C} {rest : List (Task W C)}
    (h : (workshop.withTasks rest).Unmet link) (htasks : workshop.tasks = task :: rest) :
    workshop.Unmet link :=
  h.imp_left fun ⟨job, hjob, hmeets⟩ => ⟨job, htasks ▸ List.mem_cons_of_mem _ hjob, hmeets⟩

/-- More tasks add the links that they meet. -/
theorem Unmet.of_enqueue {tasks : List (Task W C)} (h : (workshop.enqueue tasks).Unmet link) :
    workshop.Unmet link ∨ ∃ job, .job job ∈ tasks ∧ job.meets = some link := by
  rcases h with ⟨job, hjob, hmeets⟩ | hasked
  · rcases List.mem_append.mp hjob with hold | hnew
    · exact .inl (.inl ⟨job, hold, hmeets⟩)
    · exact .inr ⟨job, hnew, hmeets⟩
  · exact .inl (.inr hasked)

/-- Tasks that meet no link add none. -/
theorem Unmet.of_enqueue_idle {tasks : List (Task W C)} (h : (workshop.enqueue tasks).Unmet link)
    (hidle : ∀ job, .job job ∈ tasks → job.meets = none) : workshop.Unmet link := by
  rcases h.of_enqueue with hold | ⟨job, hjob, hmeets⟩
  · exact hold
  · cases (hidle job hjob).symm.trans hmeets

/-- The links that a step of loading leaves unmet were so before, unless one joins or the next one
starts, or the load of the link begins. -/
theorem Took.unmet (h : Took before job outcome) (hunmet : outcome.state.Unmet link) :
    before.Unmet link ∨ link = before.grammars.links.length ∨ job = .start link ∨
      ∃ number answer found, job = .settle number answer ∧
        before.grammars.links[number]? = some found ∧ link ∈ found.starts := by
  cases h with
  | entered hbefore =>
    rcases hunmet.of_enqueue with hold | ⟨job, hjob, hmeets⟩
    · exact .inl hold
    · simp only [List.mem_cons, Task.job.injEq, List.not_mem_nil, or_false] at hjob
      rcases hjob with rfl | rfl
      · exact .inr (.inl (Option.some.inj hmeets).symm)
      · cases hmeets
  | @settled number answer found hlink =>
    rcases hunmet.of_enqueue with hold | ⟨job, hjob, hmeets⟩
    · exact .inl hold
    · obtain ⟨follower, hfollower, hmade⟩ := List.mem_map.mp hjob
      refine .inr (.inr (.inr ⟨number, answer, found, rfl, hlink, ?_⟩))
      refine List.mem_filterMap.mpr ⟨follower, hfollower, ?_⟩
      obtain rfl := Task.job.inj hmade
      cases follower with
      | answer waiter => cases hmeets
      | start next => cases answer <;> cases hmeets; rfl
  | @loading started found name spec hlink hnew hgrammar hfile =>
    rcases hunmet with hjob | ⟨asked, hasked, hdrives⟩
    · exact .inl (.inl hjob)
    · rcases List.mem_append.mp hasked with hold | hlast
      · exact .inl (.inr ⟨asked, hold, hdrives⟩)
      · rw [List.mem_singleton.mp hlast] at hdrives
        rw [← Option.some.inj hdrives]
        exact .inr (.inr (.inl rfl))
  | ready hstartup => exact .inl (hunmet.of_enqueue_idle (by simp [Job.meets]))
  | failed hstartup => exact .inl (hunmet.of_enqueue_idle (by simp [Job.meets]))
  | spare hstartup => exact .inl hunmet
  | failedUnheard hstartup => exact .inl hunmet
  | astray hjob hlink => exact .inl hunmet
  | following hlink hopen => exact .inl hunmet
  | _ => exact .inl (hunmet.of_enqueue_idle (by simp [Job.meets]))

/-- A link that starts makes none start, and one that meets its failure leaves no other unmet. -/
theorem Took.starting_of_start (h : Took before (.start done) outcome)
    (hstarting : outcome.state.Starting link) : before.Starting link := by
  cases h <;> simpa [Starting, enqueue, withGrammars, ask] using hstarting

/-- A step of loading tells of no failure, or it tells of that of the link which it meets, and leaves
no more links unmet. -/
theorem Took.fails (h : Took before job outcome) (key : Text) :
    outcome.trace.countP (Event.failsFor key) = 0 ∨
      ∃ link found, job.meets = some link ∧ before.grammars.links[link]? = some found ∧
        outcome.trace.countP (Event.failsFor key) = (if found.key = key then 1 else 0) ∧
        ∀ other, outcome.state.Unmet other → before.Unmet other := by
  cases h with
  | @missing link found name hlink hnew hgrammar hfile =>
    refine .inr ⟨link, found, rfl, hlink, ?_, fun other hother => ?_⟩
    · by_cases hkey : found.key = key <;> simp [Event.failsFor, hkey]
    · exact hother.of_enqueue_idle (by simp [Job.meets])
  | @refused link found fault hlink =>
    refine .inr ⟨link, found, rfl, hlink, ?_, fun other hother => ?_⟩
    · by_cases hkey : found.key = key <;> simp [Event.failsFor, hkey]
    · exact hother.of_enqueue_idle (by simp [Job.meets])
  | _ => exact .inl (by simp [Event.failsFor])

/-- Looking up a language leaves no more links unmet, and tells of no failure. -/
theorem Sought.unmet {resolve : Text → Option GrammarName} {waiter : W} {asked : Text}
    (h : Sought resolve asked waiter before outcome) :
    (∀ link, outcome.state.Unmet link → before.Unmet link) ∧
      ∀ key, outcome.trace.countP (Event.failsFor key) = 0 := by
  cases h with
  | starting hnew hname hcurrent =>
    refine ⟨?_, by simp [Event.failsFor]⟩
    rintro link (hjob | ⟨asked, hasked, hdrives⟩)
    · exact .inl hjob
    · rcases List.mem_append.mp hasked with hold | hlast
      · exact .inr ⟨asked, hold, hdrives⟩
      · rw [List.mem_singleton.mp hlast] at hdrives
        cases hdrives
  | waiting hnew hname hcurrent hstartup => exact ⟨fun link h => h, by simp⟩
  | lost hnew hname hcurrent hstartup => exact ⟨fun link h => h, by simp⟩
  | _ => exact ⟨fun link h => h.of_enqueue_idle (by simp [Job.meets]), by simp⟩

/-- Finishing a request leaves no more links unmet than the one that it drives, and tells of no
failure. -/
theorem Completed.unmet {asked : Request} (h : Completed before asked outcome) :
    (∀ link, outcome.state.Unmet link → before.Unmet link ∨ asked.drives = some link) ∧
      ∀ key, outcome.trace.countP (Event.failsFor key) = 0 := by
  have hone {job : Job W} {workshop : Workshop W C} {drives : Option Nat}
      (hjob : job.meets = drives) {link : Nat} (h : (workshop.enqueue [.job job]).Unmet link) :
      workshop.Unmet link ∨ drives = some link := by
    rcases h.of_enqueue with hold | ⟨made, hmade, hmeets⟩
    · exact .inl hold
    · obtain rfl := Task.job.inj (List.mem_singleton.mp hmade)
      exact .inr (hjob.symm.trans hmeets)
  cases h with
  | started hstart => exact ⟨fun link => hone rfl, by simp⟩
  | unstarted hstart => exact ⟨fun link => hone rfl, by simp⟩
  | refused herror => exact ⟨fun link => hone rfl, by simp⟩
  | loaded herror => exact ⟨fun link => hone rfl, by simp⟩

/-! ## Tallies -/

/-- The links for a language before some front account for a count, and no link before the front is
ahead of being counted. -/
structure Covers (workshop : Workshop W C) (key : Text) (ahead : Nat → Prop)
    (done count front : Nat) : Prop where
  le_done : front ≤ done + 1
  le_length : front ≤ workshop.loadKeys.length
  count : count ≤ (workshop.loadKeys.take front).count key
  ahead : ∀ link, ahead link → front ≤ link

namespace Covers

variable {after : Workshop W C} {ahead now : Nat → Prop} {later count front : Nat}

/-- Links may join, and links at the end or behind the one that is driven may come to be ahead. -/
theorem grow (h : workshop.Covers key ahead done count front) {more : List Text}
    (hkeys : after.loadKeys = workshop.loadKeys ++ more) (hle : done ≤ later)
    (hahead : ∀ link, now link → ahead link ∨ link = workshop.loadKeys.length ∨ done < link) :
    after.Covers key now later count front := by
  obtain ⟨hdone, hlength, hcount, hfront⟩ := h
  refine ⟨by omega, ?_, ?_, fun link hlink => ?_⟩
  · rw [hkeys, List.length_append]
    omega
  · rwa [hkeys, List.take_append_of_le_length hlength]
  · rcases hahead link hlink with hold | rfl | hbehind
    · exact hfront link hold
    · exact hlength
    · omega

/-- The driven link is counted, if no link is ahead after that. -/
theorem meet (h : workshop.Covers key ahead done count front) (hdriven : ahead done)
    {found : Link W} (hfound : workshop.grammars.links[done]? = some found)
    (hkeys : after.loadKeys = workshop.loadKeys) (hle : done ≤ later)
    (hnone : ∀ link, ¬ now link) :
    after.Covers key now later (count + if found.key = key then 1 else 0) (done + 1) := by
  have hkey : workshop.loadKeys[done]? = some found.key := by
    rw [getElem?_loadKeys, hfound]
    rfl
  obtain ⟨hlt, hget⟩ := List.getElem?_eq_some_iff.mp hkey
  have hfront : (workshop.loadKeys.take front).count key ≤ (workshop.loadKeys.take done).count key :=
    (List.take_sublist_take_left (h.ahead done hdriven)).count_le key
  have hcount := h.count
  refine ⟨by omega, hkeys ▸ hlt, ?_, fun link hlink => absurd hlink (hnone link)⟩
  rw [hkeys, List.take_add_one, hkey, List.count_append]
  simp only [Option.toList_some, List.count_singleton, beq_iff_eq]
  omega

end Covers

/-- The chain is in turn, and the links of a language account for how often its file was tried and
how often that failed. -/
structure Tallied (workshop : Workshop W C) (key : Text) (tried failed done : Nat) : Prop where
  turn : workshop.InTurn done
  tries : ∃ front, workshop.Covers key workshop.Starting done tried front
  failures : ∃ front, workshop.Covers key workshop.Unmet done failed front

namespace Tallied

variable {tried failed : Nat}

/-- A workshop in which nothing has happened has tried nothing. -/
theorem fresh (toolkit : Toolkit) (key : Text) :
    ({ toolkit } : Workshop W C).Tallied key 0 0 0 := by
  refine ⟨.fresh toolkit, ⟨0, ?_⟩, ⟨0, ?_⟩⟩
  · exact ⟨Nat.zero_le _, Nat.zero_le _, Nat.zero_le _, fun _ _ => Nat.zero_le _⟩
  · exact ⟨Nat.zero_le _, Nat.zero_le _, Nat.zero_le _, fun _ _ => Nat.zero_le _⟩

/-- A change that adds no link and leaves no more unmet keeps the tallies. -/
theorem still (h : workshop.Tallied key tried failed done) {after : Workshop W C}
    (hturn : after.InTurn done) (hkeys : after.loadKeys = workshop.loadKeys)
    (hstarting : ∀ link, after.Starting link → workshop.Starting link)
    (hunmet : ∀ link, after.Unmet link → workshop.Unmet link) :
    after.Tallied key tried failed done := by
  obtain ⟨-, ⟨front, htries⟩, ⟨other, hfailures⟩⟩ := h
  have hkeys : after.loadKeys = workshop.loadKeys ++ [] := by rw [hkeys, List.append_nil]
  refine ⟨hturn, ⟨front, ?_⟩, ⟨other, ?_⟩⟩
  · exact htries.grow hkeys (Nat.le_refl _) fun link hlink => .inl (hstarting link hlink)
  · exact hfailures.grow hkeys (Nat.le_refl _) fun link hlink => .inl (hunmet link hlink)

/-- Taking a task that meets no link keeps the tallies. -/
theorem take (h : workshop.Tallied key tried failed done) {task : Task W C} {rest : List (Task W C)}
    (htasks : workshop.tasks = task :: rest) (hdrives : task.drives = none) :
    (workshop.withTasks rest).Tallied key tried failed done := by
  exact h.still (h.turn.take htasks hdrives) rfl (fun _ hlink => Starting.of_take hlink htasks)
    fun _ hlink => hlink.of_take htasks

/-- Looking up a language keeps the tallies. -/
theorem lookup (h : workshop.Tallied key tried failed done) {resolve : Text → Option GrammarName}
    {asked : Text} {waiter : W} (hsought : Sought resolve asked waiter workshop outcome) :
    outcome.state.Tallied key tried failed done := by
  obtain ⟨hstill, -, -⟩ := hsought.still
  exact h.still (h.turn.lookup hsought) (congrArg (List.map Prod.fst) hstill.toLoad) hstill.starts
    hsought.unmet.1

/-- Finishing a request keeps the tallies. -/
theorem complete (h : workshop.Tallied key tried failed done) {place : Nat} {asked : Request}
    (hplace : workshop.requests[place]? = some asked)
    (hcompleted : Completed (workshop.without place) asked outcome) :
    outcome.state.Tallied key tried failed done := by
  obtain ⟨hgrammars, -, hstarts, -⟩ := hcompleted.still_or_ends
  have hasked : asked ∈ workshop.requests := List.mem_of_getElem? hplace
  refine h.still (h.turn.complete hplace hcompleted)
    (congrArg (fun grammars => grammars.toLoad.map Prod.fst) hgrammars) hstarts fun link hlink => ?_
  rcases hcompleted.unmet.1 link hlink with (hjob | ⟨other, hother, hdrives⟩) | hdrives
  · exact .inl hjob
  · exact .inr ⟨other, List.mem_of_mem_eraseIdx hother, hdrives⟩
  · exact .inr ⟨asked, hasked, hdrives⟩

/-- A step of loading tries the file of a link only by starting it. The link that starts is the
driven one, and no other is about to start, so the front passes it. -/
theorem perform_tries (h : workshop.Tallied key tried failed done) {job : Job W}
    {rest : List (Task W C)} (htasks : workshop.tasks = .job job :: rest)
    (htook : Took (workshop.withTasks rest) job outcome) {later : Nat} (hle : done ≤ later)
    {more : Nat} (hmore : more = 0 ∨ more = 1 ∧ ∃ link found, job = .start link ∧
      workshop.grammars.links[link]? = some found ∧ found.key = key) :
    ∃ front, outcome.state.Covers key outcome.state.Starting later (tried + more) front := by
  obtain ⟨hturn, ⟨front, htries⟩, -⟩ := h
  have hkeys := htook.loadKeys
  by_cases hstart : ∃ link, job = .start link
  · obtain ⟨link, rfl⟩ := hstart
    obtain ⟨rfl, hlt, hidle⟩ := hturn.of_task htasks rfl
    have hfound := List.getElem?_eq_getElem hlt
    have hself : .job (.start link) ∈ workshop.tasks := htasks ▸ List.mem_cons_self
    have hnone (other : Nat) (hother : outcome.state.Starting other) : False := by
      have hdriven := (htook.starting_of_start hother).unmet.mem_driven
      rw [hidle] at hdriven
      cases hdriven
    have hcovers := htries.meet hself hfound (hkeys.trans (List.append_nil _)) hle hnone
    refine ⟨link + 1, hcovers.le_done, hcovers.le_length, ?_, hcovers.ahead⟩
    refine Nat.le_trans (Nat.add_le_add_left ?_ tried) hcovers.count
    rcases hmore with rfl | ⟨rfl, other, found, hjob, hother, hkey⟩
    · exact Nat.zero_le _
    · cases hjob
      obtain rfl := Option.some.inj (hfound.symm.trans hother)
      rw [if_pos hkey]
  · have hnone : more = 0 := by
      rcases hmore with hnone | ⟨-, link, -, hjob, -⟩
      · exact hnone
      · exact absurd ⟨link, hjob⟩ hstart
    subst hnone
    refine ⟨front, htries.grow hkeys hle fun link hlink => ?_⟩
    rcases htook.mem_start hlink with hold | hnew | ⟨number, answer, found, hjob, hfound, hstarts⟩
    · exact .inl (Starting.of_take hold htasks)
    · exact .inr (.inl (hnew.trans (length_loadKeys workshop).symm))
    · subst hjob
      obtain ⟨rfl, -, -⟩ := hturn.of_task htasks rfl
      exact .inr (.inr (hturn.chained.lt_of_mem_starts hfound hstarts))

/-- A step of loading meets the failure of a link only while it is driven, and what follows the
link was not told to start yet. -/
theorem perform_failures (h : workshop.Tallied key tried failed done) {job : Job W}
    {rest : List (Task W C)} (htasks : workshop.tasks = .job job :: rest)
    (htook : Took (workshop.withTasks rest) job outcome) {later : Nat} (hle : done ≤ later) :
    ∃ front, outcome.state.Covers key outcome.state.Unmet later
      (failed + outcome.trace.countP (Event.failsFor key)) front := by
  obtain ⟨hturn, -, ⟨front, hfailures⟩⟩ := h
  have hkeys := htook.loadKeys
  have hself : .job job ∈ workshop.tasks := htasks ▸ List.mem_cons_self
  rcases htook.fails key with hnone | ⟨link, found, hmeets, hfound, hcount, hless⟩
  · rw [hnone]
    refine ⟨front, hfailures.grow hkeys hle fun link hlink => ?_⟩
    rcases htook.unmet hlink with
      hold | hnew | hjob | ⟨number, answer, found, hjob, hfound, hstarts⟩
    · exact .inl (hold.of_take htasks)
    · exact .inr (.inl (hnew.trans (length_loadKeys workshop).symm))
    · exact .inl (.inl ⟨job, hself, by rw [hjob]; rfl⟩)
    · subst hjob
      obtain ⟨rfl, -, -⟩ := hturn.of_task htasks rfl
      exact .inr (.inr (hturn.chained.lt_of_mem_starts hfound hstarts))
  · have hdrives : (Task.job job : Task W C).drives = some link := by
      cases job <;> cases hmeets <;> rfl
    have hjoins : job.milestones.filterMap Milestone.joined? = [] := by
      cases job <;> cases hmeets <;> rfl
    obtain ⟨rfl, -, hidle⟩ := hturn.of_task htasks hdrives
    rw [hcount]
    refine ⟨link + 1,
      hfailures.meet (.inl ⟨job, hself, hmeets⟩) hfound ?_ hle fun other hother => ?_⟩
    · rw [hkeys, hjoins]
      exact List.append_nil _
    · have hdriven := (hless other hother).mem_driven
      rw [hidle] at hdriven
      cases hdriven

/-- A step of loading keeps the tallies. -/
theorem perform (h : workshop.Tallied key tried failed done) {job : Job W}
    {rest : List (Task W C)} (htasks : workshop.tasks = .job job :: rest)
    (htook : Took (workshop.withTasks rest) job outcome) {more : Nat}
    (hmore : more = 0 ∨ more = 1 ∧ ∃ link found, job = .start link ∧
      workshop.grammars.links[link]? = some found ∧ found.key = key) :
    ∃ later, outcome.state.Tallied key (tried + more)
      (failed + outcome.trace.countP (Event.failsFor key)) later := by
  obtain ⟨later, hle, hlater⟩ := h.turn.perform htasks htook
  exact ⟨later, hlater, h.perform_tries htasks htook hle hmore,
    h.perform_failures htasks htook hle⟩

end Tallied

/-! ## Lookups on their way -/

/-- How many lookups of a language have joined the chain or are about to. -/
def onTheirWay (workshop : Workshop W C) (key : Text) : Nat :=
  (workshop.grammars.startups.map (Startup.waitingFor key)).sum +
    workshop.tasks.countP (Task.enters key) + workshop.loadKeys.count key

/-- What was tallied is no more than the lookups. -/
theorem Tallied.le_onTheirWay {tried failed : Nat} (h : workshop.Tallied key tried failed done) :
    tried ≤ workshop.onTheirWay key ∧ failed ≤ workshop.onTheirWay key := by
  obtain ⟨-, ⟨front, htries⟩, ⟨other, hfailures⟩⟩ := h
  have hless (front : Nat) : (workshop.loadKeys.take front).count key ≤ workshop.onTheirWay key := by
    have hsome := (List.take_sublist front workshop.loadKeys).count_le key
    simp only [onTheirWay]
    omega
  exact ⟨Nat.le_trans htries.count (hless front), Nat.le_trans hfailures.count (hless other)⟩

theorem onTheirWay_enqueue (workshop : Workshop W C) (tasks : List (Task W C)) (key : Text) :
    (workshop.enqueue tasks).onTheirWay key =
      workshop.onTheirWay key + tasks.countP (Task.enters key) := by
  simp only [onTheirWay, enqueue, List.countP_append, loadKeys]
  omega

/-- Tasks by which no lookup joins make no difference. -/
theorem onTheirWay_enqueue_idle (workshop : Workshop W C) {tasks : List (Task W C)} {key : Text}
    (hidle : ∀ task ∈ tasks, task.enters key = false) :
    (workshop.enqueue tasks).onTheirWay key = workshop.onTheirWay key := by
  rw [onTheirWay_enqueue, List.countP_eq_zero.mpr fun task htask => by simp [hidle task htask]]
  rfl

/-- Neither do changes to the grammars that leave the starts and what the links load alone. -/
theorem onTheirWay_withGrammars (workshop : Workshop W C) {grammars : Grammars W} (key : Text)
    (hstartups : grammars.startups = workshop.grammars.startups)
    (htoLoad : grammars.toLoad = workshop.grammars.toLoad) :
    (workshop.withGrammars grammars).onTheirWay key = workshop.onTheirWay key := by
  simp only [onTheirWay, withGrammars, loadKeys, hstartups, htoLoad]

theorem onTheirWay_mark (workshop : Workshop W C) (marked key : Text) :
    (workshop.withGrammars (workshop.grammars.markUnavailable marked)).onTheirWay key =
      workshop.onTheirWay key :=
  onTheirWay_withGrammars workshop key (Grammars.startups_markUnavailable _ _)
    (Grammars.toLoad_markUnavailable _ _)

/-- A lookup that joins the chain is one more. -/
theorem onTheirWay_joins (workshop : Workshop W C) {grammars : Grammars W} {lookup : Lookup W}
    (key : Text) (hstartups : grammars.startups = workshop.grammars.startups)
    (htoLoad : grammars.toLoad = workshop.grammars.toLoad ++ [lookup.load]) :
    (workshop.withGrammars grammars).onTheirWay key =
      workshop.onTheirWay key + if lookup.key = key then 1 else 0 := by
  have hload : lookup.load.1 = lookup.key := rfl
  simp only [onTheirWay, withGrammars, loadKeys, hstartups, htoLoad, List.map_append,
    List.map_singleton, List.count_append, List.count_singleton, hload, beq_iff_eq]
  omega

/-- What waited for a start that is over does not wait any more. -/
theorem onTheirWay_setStartup (workshop : Workshop W C) {number : Nat} {waiting : List (Lookup W)}
    (startup : Startup W) (key : Text)
    (hstartup : workshop.grammars.startups[number]? = some (.pending waiting))
    (hnone : startup.waiting = []) :
    (workshop.withGrammars (workshop.grammars.setStartup number startup)).onTheirWay key +
        waiting.countP (fun lookup => lookup.key = key) = workshop.onTheirWay key := by
  have hsum := sum_map_set (Startup.waitingFor key) hstartup startup
  have hover : startup.waitingFor key = 0 := by simp [Startup.waitingFor, hnone]
  have hwaiting : (Startup.pending waiting).waitingFor key =
      waiting.countP (fun lookup => lookup.key = key) := rfl
  have hkeys : (workshop.withGrammars (workshop.grammars.setStartup number startup)).loadKeys =
      workshop.loadKeys := rfl
  simp only [onTheirWay, hkeys]
  simp only [withGrammars, Grammars.setStartup]
  omega

/-- A step of loading brings no lookup on its way that was not. -/
theorem Took.onTheirWay (h : Took before job outcome) (key : Text) :
    outcome.state.onTheirWay key ≤
      before.onTheirWay key + if Task.enters key (.job job : Task W C) then 1 else 0 := by
  have hjoin (lookup : Lookup W) : (if lookup.key = key then 1 else 0) =
      if Task.enters key (.job (.enter lookup) : Task W C) then 1 else 0 := by simp [Task.enters]
  cases h with
  | @ready number waiting hstartup =>
    have hset := onTheirWay_setStartup before.launch .ready key hstartup rfl
    have hlaunch : before.launch.onTheirWay key = before.onTheirWay key := rfl
    have hwaiting : (waiting.map fun lookup => (.job (.enter lookup) : Task W C)).countP
        (Task.enters key) = waiting.countP (fun lookup => lookup.key = key) := List.countP_map
    rw [onTheirWay_enqueue, hwaiting]
    omega
  | @failed number fault waiting hstartup =>
    have hset := onTheirWay_setStartup before (.failed fault) key hstartup rfl
    rw [onTheirWay_enqueue_idle _ (by simp [Task.enters])]
    omega
  | @entered lookup hbefore =>
    rw [onTheirWay_enqueue_idle _ (by simp [Task.enters]),
      onTheirWay_joins before key (by rfl) (Grammars.toLoad_extend _ _), hjoin]
  | @queued lookup last hlast hopen =>
    rw [onTheirWay_enqueue_idle _ (by simp [Task.enters]), onTheirWay_joins before key (by rfl)
      ((Grammars.toLoad_follow _ _ _).trans (Grammars.toLoad_extend _ _)), hjoin]
  | @spoiled lookup last fault hlast hfault =>
    rw [onTheirWay_enqueue_idle _ (by simp [Task.enters]),
      onTheirWay_joins before key (by rfl) (Grammars.toLoad_extend _ _), hjoin]
  | missing hlink hnew hgrammar hfile =>
    rw [onTheirWay_enqueue_idle _ (by simp [Task.enters]), onTheirWay_mark]
    exact Nat.le_add_right _ _
  | refused hlink =>
    rw [onTheirWay_enqueue_idle _ (by simp [Task.enters]), onTheirWay_mark]
    exact Nat.le_add_right _ _
  | @settled link answer found hlink =>
    rw [onTheirWay_enqueue_idle _ ?_, onTheirWay_withGrammars before key (by rfl)
      (Grammars.toLoad_close _ _ _)]
    · exact Nat.le_add_right _ _
    · intro task htask
      obtain ⟨follower, -, rfl⟩ := List.mem_map.mp htask
      cases follower with
      | answer waiter => rfl
      | start next => cases answer <;> rfl
  | following hlink hopen =>
    rw [onTheirWay_withGrammars before key (by rfl) (Grammars.toLoad_follow _ _ _)]
    exact Nat.le_add_right _ _
  | loaded hlink =>
    rw [onTheirWay_enqueue_idle _ (by simp [Task.enters]),
      onTheirWay_withGrammars before key (by rfl) (by rfl)]
    exact Nat.le_add_right _ _
  | spare hstartup => exact Nat.le_add_right _ _
  | failedUnheard hstartup => exact Nat.le_add_right _ _
  | astray hjob hlink => exact Nat.le_add_right _ _
  | loading hlink hnew hgrammar hfile => exact Nat.le_add_right _ _
  | _ =>
    rw [onTheirWay_enqueue_idle _ (by simp [Task.enters])]
    exact Nat.le_add_right _ _

/-- A lookup brings itself on its way, or nothing. -/
theorem Sought.onTheirWay {resolve : Text → Option GrammarName} {waiter : W} {asked : Text}
    (h : Sought resolve asked waiter before outcome) (key : Text) :
    outcome.state.onTheirWay key ≤ before.onTheirWay key + if asked = key then 1 else 0 := by
  cases h with
  | unnamed hnew hname =>
    rw [onTheirWay_enqueue_idle _ (by simp [Task.enters]), onTheirWay_mark]
    exact Nat.le_add_right _ _
  | @starting grammar hnew hname hcurrent =>
    have hone : (Startup.pending [(⟨asked, grammar, waiter⟩ : Lookup W)]).waitingFor key =
        if asked = key then 1 else 0 := by
      simp [Startup.waitingFor, Startup.waiting, List.countP_cons]
    simp only [Workshop.onTheirWay, withGrammars, ask, Grammars.addStartup, loadKeys,
      Grammars.toLoad, List.map_append, List.map_singleton, List.sum_append, List.sum_singleton,
      hone]
    omega
  | @waiting grammar number others hnew hname hcurrent hstartup =>
    let joined : Startup W := .pending (others ++ [⟨asked, grammar, waiter⟩])
    have hone : joined.waitingFor key =
        (Startup.pending others).waitingFor key + if asked = key then 1 else 0 := by
      simp [joined, Startup.waitingFor, Startup.waiting, List.countP_append, List.countP_cons]
    have hsum := sum_map_set (Startup.waitingFor key) hstartup joined
    have hkeys : (before.withGrammars (before.grammars.setStartup number joined)).loadKeys =
        before.loadKeys := rfl
    change (before.withGrammars (before.grammars.setStartup number joined)).onTheirWay key ≤ _
    simp only [Workshop.onTheirWay, hkeys]
    simp only [withGrammars, Grammars.setStartup]
    omega
  | entering hnew hname hcurrent hstartup =>
    rw [onTheirWay_enqueue]
    simp [List.countP_cons, Task.enters]
  | lost hnew hname hcurrent hstartup => exact Nat.le_add_right _ _
  | _ =>
    rw [onTheirWay_enqueue_idle _ (by simp [Task.enters])]
    exact Nat.le_add_right _ _

/-- Finishing a request brings no lookup on its way. -/
theorem Completed.onTheirWay {asked : Request} (h : Completed before asked outcome) (key : Text) :
    outcome.state.onTheirWay key = before.onTheirWay key := by
  cases h with
  | loaded herror => exact onTheirWay_enqueue_idle before.addLanguage (by simp [Task.enters])
  | _ => exact onTheirWay_enqueue_idle _ (by simp [Task.enters])

end Workshop

end ClosingLabels
