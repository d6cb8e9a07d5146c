import ClosingLabels.Proofs.Progress

/-!
# Whoever waits has asked

Loading passes those who wait for a language from the starts of the toolkit to tasks and
from tasks to the links of the chain, but it never makes anyone up. So what is true of
everyone who asks is true of everyone who is answered.
-/

namespace ClosingLabels.Workshop

variable {W C : Type} {P : W → Prop} {workshop : Workshop W C}

/-- Something is true of everyone who waits. -/
structure Vouched (P : W → Prop) (workshop : Workshop W C) : Prop where
  startups : ∀ startup ∈ workshop.grammars.startups, ∀ lookup ∈ startup.waiting, P lookup.waiter
  tasks : ∀ task ∈ workshop.tasks, ∀ waiter ∈ task.waiter, P waiter
  links : ∀ (number : Nat) (link : Link W), workshop.grammars.links[number]? = some link →
    ∀ waiter, .answer waiter ∈ link.followers → P waiter

namespace Vouched

/-- At first nobody waits. -/
theorem fresh (toolkit : Toolkit) : Vouched P ({ toolkit } : Workshop W C) :=
  ⟨by simp, by simp, by simp⟩

/-- What is true of everyone may be weakened. -/
theorem mono (h : workshop.Vouched P) {Q : W → Prop} (himp : ∀ waiter, P waiter → Q waiter) :
    workshop.Vouched Q where
  startups startup hstartup lookup hlookup := himp _ (h.startups startup hstartup lookup hlookup)
  tasks task htask waiter hwaiter := himp _ (h.tasks task htask waiter hwaiter)
  links number link hlink waiter hfollower := himp _ (h.links number link hlink waiter hfollower)

/-- Only starts, tasks and links matter. -/
theorem of_eq (h : workshop.Vouched P) {after : Workshop W C}
    (hstartups : after.grammars.startups = workshop.grammars.startups)
    (htasks : after.tasks = workshop.tasks)
    (hlinks : after.grammars.links = workshop.grammars.links) : after.Vouched P :=
  ⟨hstartups ▸ h.startups, htasks ▸ h.tasks, hlinks ▸ h.links⟩

theorem enqueue (h : workshop.Vouched P) {tasks : List (Task W C)}
    (htasks : ∀ task ∈ tasks, ∀ waiter ∈ task.waiter, P waiter) :
    (workshop.enqueue tasks).Vouched P where
  startups := h.startups
  tasks task hmem := by
    rcases List.mem_append.mp hmem with hold | hnew
    · exact h.tasks task hold
    · exact htasks task hnew
  links := h.links

/-- A task about nobody else may be added. -/
theorem push (h : workshop.Vouched P) {task : Task W C} (htask : ∀ waiter ∈ task.waiter, P waiter) :
    (workshop.enqueue [task]).Vouched P :=
  h.enqueue fun _ hother => List.mem_singleton.mp hother ▸ htask

/-- A start may change if those who wait for it are vouched for. -/
theorem setStartup (h : workshop.Vouched P) (number : Nat) {startup : Startup W}
    (hstartup : ∀ lookup ∈ startup.waiting, P lookup.waiter) :
    (workshop.withGrammars (workshop.grammars.setStartup number startup)).Vouched P where
  startups other hother := by
    rcases List.mem_or_eq_of_mem_set hother with hold | rfl
    · exact h.startups other hold
    · exact hstartup
  tasks := h.tasks
  links := h.links

theorem extend (h : workshop.Vouched P) (lookup : Lookup W) :
    (workshop.withGrammars (workshop.grammars.extend lookup)).Vouched P where
  startups := h.startups
  tasks := h.tasks
  links number link hlink := by
    rcases Grammars.extend_cases hlink with ⟨_, hold⟩ | ⟨_, rfl⟩
    · exact h.links number link hold
    · exact fun _ hnone => by cases hnone

/-- A link may be followed by someone who is vouched for. -/
theorem follow (h : workshop.Vouched P) (number : Nat) {follower : Follower W}
    (hfollower : ∀ waiter, follower = .answer waiter → P waiter) :
    (workshop.withGrammars (workshop.grammars.follow number follower)).Vouched P where
  startups := h.startups
  tasks := h.tasks
  links other link hlink waiter hwaiter := by
    obtain ⟨old, hold, rfl⟩ := Grammars.editLink_cases hlink
    split at hwaiter
    · rcases List.mem_append.mp hwaiter with hbefore | hnew
      · exact h.links other old hold waiter hbefore
      · exact hfollower waiter (List.mem_singleton.mp hnew).symm
    · exact h.links other old hold waiter hwaiter

theorem close (h : workshop.Vouched P) (number : Nat) (answer : Answer) :
    (workshop.withGrammars (workshop.grammars.close number answer)).Vouched P where
  startups := h.startups
  tasks := h.tasks
  links other link hlink waiter hwaiter := by
    obtain ⟨old, hold, rfl⟩ := Grammars.editLink_cases hlink
    split at hwaiter
    · cases hwaiter
    · exact h.links other old hold waiter hwaiter

theorem mark (h : workshop.Vouched P) (key : Text) :
    (workshop.withGrammars (workshop.grammars.markUnavailable key)).Vouched P :=
  h.of_eq (Grammars.startups_markUnavailable _ _) rfl (Grammars.links_markUnavailable _ _)

/-- The lookups that wait for a start. -/
theorem of_pending (h : workshop.Vouched P) {number : Nat} {waiting : List (Lookup W)}
    (hstartup : workshop.grammars.startups[number]? = some (.pending waiting)) :
    ∀ lookup ∈ waiting, P lookup.waiter :=
  h.startups _ (List.mem_of_getElem? hstartup)

/-- The end of a start passes those who waited for it on to tasks. -/
theorem endStartup (h : workshop.Vouched P) {number : Nat} {waiting : List (Lookup W)}
    (hstartup : workshop.grammars.startups[number]? = some (.pending waiting))
    {startup : Startup W} (hended : startup.waiting = []) {next : Lookup W → Job W}
    (hnext : ∀ lookup, Task.waiter (.job (next lookup) : Task W C) = some lookup.waiter) :
    ((workshop.withGrammars (workshop.grammars.setStartup number startup)).enqueue
      (waiting.map fun lookup => .job (next lookup))).Vouched P := by
  refine (h.setStartup number (by simp [hended])).enqueue fun task htask waiter hwaiter => ?_
  obtain ⟨lookup, hlookup, rfl⟩ := List.mem_map.mp htask
  rw [hnext] at hwaiter
  obtain rfl := Option.some.inj hwaiter
  exact h.of_pending hstartup lookup hlookup

/-- A step of loading makes nobody up. -/
theorem perform (h : workshop.Vouched P) {job : Job W}
    (hjob : ∀ waiter ∈ Task.waiter (.job job : Task W C), P waiter)
    {outcome : Outcome (Workshop W C) Unit} (htook : Took workshop job outcome) :
    outcome.state.Vouched P := by
  have hlaunch : workshop.launch.Vouched P := h.of_eq rfl rfl rfl
  have hnobody {next : Job W} (hnext : Task.waiter (.job next : Task W C) = none) :
      ∀ waiter ∈ Task.waiter (.job next : Task W C), P waiter := by simp [hnext]
  cases htook with
  | ready hstartup => exact hlaunch.endStartup hstartup rfl fun _ => rfl
  | spare hstartup => exact hlaunch
  | failed hstartup => exact h.endStartup hstartup rfl fun _ => rfl
  | failedUnheard hstartup => exact h
  | @entered lookup hbefore =>
    exact (h.extend lookup).enqueue (by simpa [Task.waiter] using hjob)
  | @queued lookup before hlast hopen =>
    refine Vouched.push ?_ hjob
    exact (h.extend lookup).follow _ fun _ hstart => by cases hstart
  | @spoiled lookup before fault hlast hfault =>
    exact (h.extend lookup).enqueue (by simpa [Task.waiter] using hjob)
  | astray hlink hnone => exact h
  | told hlink hanswer => exact h.push hjob
  | @following link waiter found hlink hopen =>
    exact h.follow link fun other hother => by cases hother; exact hjob waiter rfl
  | known hlink hknown => exact h.push (hnobody rfl)
  | nameless hlink hnew hgrammar => exact h.push (hnobody rfl)
  | missing hlink hnew hgrammar hfile => exact (h.mark _).push (hnobody rfl)
  | loading hlink hnew hgrammar hfile => exact h.of_eq rfl rfl rfl
  | @loaded link found language hlink =>
    have hlearned : (workshop.withGrammars (workshop.grammars.learn found.key language)).Vouched P :=
      h.of_eq rfl rfl rfl
    exact hlearned.push (hnobody rfl)
  | refused hlink => exact (h.mark _).push (hnobody rfl)
  | adopted => exact h.push (hnobody rfl)
  | @settled link answer found hlink =>
    refine (h.close link answer).enqueue fun task htask waiter hwaiter => ?_
    obtain ⟨follower, hfollower, rfl⟩ := List.mem_map.mp htask
    cases follower with
    | start next => cases answer <;> cases hwaiter
    | answer other =>
      obtain rfl := Option.some.inj hwaiter
      exact h.links link found hlink other hfollower
  | relayed => exact h.push hjob

/-- Looking up a language makes nobody wait but who asks. -/
theorem lookup (h : workshop.Vouched P) {waiter : W} (hwaiter : P waiter)
    {resolve : Text → Option GrammarName} {key : Text} {outcome : Outcome (Workshop W C) Unit}
    (hsought : Sought resolve key waiter workshop outcome) : outcome.state.Vouched P := by
  have hasker {task : Task W C} (htask : task.waiter = some waiter) :
      ∀ other ∈ task.waiter, P other := by
    intro other hother
    rw [htask] at hother
    exact Option.some.inj hother ▸ hwaiter
  cases hsought with
  | known hknown => exact h.push (hasker rfl)
  | unavailable hnew hkey => exact h.push (hasker rfl)
  | unnamed hnew hname => exact (h.mark _).push (hasker rfl)
  | @starting grammar hnew hname hcurrent =>
    refine ⟨fun startup hstartup => ?_, h.tasks, h.links⟩
    rcases List.mem_append.mp hstartup with hold | hadded
    · exact h.startups startup hold
    · rw [List.mem_singleton.mp hadded]
      simpa [Startup.waiting] using hwaiter
  | @waiting grammar number others hnew hname hcurrent hstartup =>
    refine h.setStartup number fun asked hasked => ?_
    rcases List.mem_append.mp hasked with hold | hadded
    · exact h.of_pending hstartup asked hold
    · exact List.mem_singleton.mp hadded ▸ hwaiter
  | entering hnew hname hcurrent hstartup => exact h.push (hasker rfl)
  | hopeless hnew hname hcurrent hstartup => exact h.push (hasker rfl)
  | lost hnew hname hcurrent hstartup => exact h

/-- Neither does the end of a request. -/
theorem complete (h : workshop.Vouched P) {asked : Request}
    {outcome : Outcome (Workshop W C) Unit} (hcompleted : Completed workshop asked outcome) :
    outcome.state.Vouched P := by
  have hlanguage : workshop.addLanguage.Vouched P := h.of_eq rfl rfl rfl
  cases hcompleted with
  | started hstart => exact h.push fun _ hnone => by cases hnone
  | unstarted hstart => exact h.push fun _ hnone => by cases hnone
  | refused herror => exact h.push fun _ hnone => by cases hnone
  | loaded herror => exact hlanguage.push fun _ hnone => by cases hnone

end Vouched

end ClosingLabels.Workshop
