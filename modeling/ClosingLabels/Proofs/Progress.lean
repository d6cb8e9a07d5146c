import ClosingLabels.Proofs.Answers

/-!
# Nobody is forgotten

At any moment a lookup waits for a start of the toolkit, is in a task, or follows a link
that is not done, and there is always something that brings the start or the link
forward. So once all tasks are taken and all requests finished, everyone is answered.
-/

namespace ClosingLabels

/-- The start of the toolkit that a task ends. -/
def Task.startup {W C : Type} : Task W C → Option Nat
  | .job (.makeParser number) => some number
  | .job (.failStartup number _) => some number
  | _ => none

/-- Whom a task is about. -/
def Task.waiter {W C : Type} : Task W C → Option W
  | .job (.enter lookup) => some lookup.waiter
  | .job (.subscribe _ waiter) => some waiter
  | .job (.relay waiter _) => some waiter
  | .deliver waiter _ => some waiter
  | _ => none

namespace Workshop

variable {W C : Type} {workshop : Workshop W C}

/-- Where someone can be who waits for a language. -/
inductive Awaits (workshop : Workshop W C) (waiter : W) : Prop
  /-- He waits for a start of the toolkit. -/
  | startup {number : Nat} {waiting : List (Lookup W)} {lookup : Lookup W}
      (hstartup : workshop.grammars.startups[number]? = some (.pending waiting))
      (hlookup : lookup ∈ waiting) (hwaiter : lookup.waiter = waiter)
  /-- There is a task about him. -/
  | task {task : Task W C} (htask : task ∈ workshop.tasks) (hwaiter : task.waiter = some waiter)
  /-- He follows a link. -/
  | link {number : Nat} {link : Link W} (hlink : workshop.grammars.links[number]? = some link)
      (hfollower : .answer waiter ∈ link.followers)

/-- Something brings a start of the toolkit forward. -/
def Starts (workshop : Workshop W C) (number : Nat) : Prop :=
  .startup number ∈ workshop.requests ∨ .job (.makeParser number) ∈ workshop.tasks ∨
    ∃ fault, .job (.failStartup number fault) ∈ workshop.tasks

/-- Everything that someone may wait for is brought forward. -/
structure Attended (workshop : Workshop W C) : Prop where
  /-- A start that lookups wait for is under way. -/
  starting : ∀ number waiting, workshop.grammars.startups[number]? = some (.pending waiting) →
    workshop.Starts number
  /-- The start that counts is there. -/
  current : ∀ number, workshop.grammars.current = some number →
    number < workshop.grammars.startups.length
  /-- Nothing follows a link that is done. -/
  unanswered : ∀ (number : Nat) (link : Link W), workshop.grammars.links[number]? = some link →
    link.followers ≠ [] → link.answer = none
  /-- Nobody asks for a link that is not there. -/
  within : ∀ link waiter, .job (.subscribe link waiter) ∈ workshop.tasks →
    link < workshop.grammars.links.length

/-- A workshop in which nothing has happened. -/
theorem Attended.fresh (toolkit : Toolkit) : Attended ({ toolkit } : Workshop W C) :=
  ⟨by simp, by simp, by simp, by simp⟩

/-- With no task left and no request, nobody waits any more. -/
theorem Attended.not_awaits (h : workshop.Attended) {done : Nat} (hturn : workshop.InTurn done)
    (htasks : workshop.tasks = []) (hrequests : workshop.requests = []) (waiter : W) :
    ¬workshop.Awaits waiter := by
  have hdone : ¬done < workshop.grammars.links.length := by
    intro hlt
    have hdriven := hturn.driven
    rw [if_pos hlt, driven, htasks, hrequests] at hdriven
    cases hdriven
  rintro (⟨hstartup, _, _⟩ | ⟨htask, _⟩ | ⟨hlink, hfollower⟩)
  · rcases h.starting _ _ hstartup with hrequest | htask | ⟨_, htask⟩
    · rw [hrequests] at hrequest
      cases hrequest
    · rw [htasks] at htask
      cases htask
    · rw [htasks] at htask
      cases htask
  · rw [htasks] at htask
    cases htask
  · have hopen := h.unanswered _ _ hlink (List.ne_nil_of_mem hfollower)
    have hanswered := hturn.chained.answered _ _ hlink
    obtain ⟨hlt, _⟩ := List.getElem?_eq_some_iff.mp hlink
    rw [hopen] at hanswered
    simp at hanswered
    omega

/-- Whoever waits still does, if each place he may be in is accounted for. -/
theorem Awaits.mono {waiter : W} (h : workshop.Awaits waiter) {after : Workshop W C}
    (hstartups : ∀ (number : Nat) (waiting : List (Lookup W)),
      workshop.grammars.startups[number]? = some (.pending waiting) →
      ∀ lookup ∈ waiting, after.Awaits lookup.waiter)
    (htasks : ∀ task ∈ workshop.tasks, task ∈ after.tasks)
    (hlinks : ∀ (number : Nat) (link : Link W), workshop.grammars.links[number]? = some link →
      ∀ other, .answer other ∈ link.followers → after.Awaits other) :
    after.Awaits waiter := by
  cases h with
  | startup hstartup hlookup hwaiter => exact hwaiter ▸ hstartups _ _ hstartup _ hlookup
  | task htask hwaiter => exact .task (htasks _ htask) hwaiter
  | link hlink hfollower => exact hlinks _ _ hlink _ hfollower

/-- Where only other things changed, everyone still waits where he did. -/
theorem Awaits.of_same {waiter : W} (h : workshop.Awaits waiter) {after : Workshop W C}
    (hstartups : after.grammars.startups = workshop.grammars.startups)
    (hlinks : after.grammars.links = workshop.grammars.links)
    (htasks : ∀ task ∈ workshop.tasks, task ∈ after.tasks) : after.Awaits waiter :=
  h.mono (fun _ _ hstartup _ hlookup => .startup (hstartups.symm ▸ hstartup) hlookup rfl) htasks
    fun _ _ hlink _ hfollower => .link (hlinks.symm ▸ hlink) hfollower

/-- Taking a task loses nobody but those the task is about. -/
theorem Awaits.take {waiter : W} (h : workshop.Awaits waiter) {task : Task W C}
    {rest : List (Task W C)} (htasks : workshop.tasks = task :: rest) :
    (workshop.withTasks rest).Awaits waiter ∨ task.waiter = some waiter := by
  cases h with
  | startup hstartup hlookup hwaiter => exact .inl (.startup hstartup hlookup hwaiter)
  | link hlink hfollower => exact .inl (.link hlink hfollower)
  | task htask hwaiter =>
    rw [htasks] at htask
    rcases List.mem_cons.mp htask with rfl | hrest
    · exact .inr hwaiter
    · exact .inl (.task hrest hwaiter)

/-- Nobody is lost when the chain only grows. -/
theorem Awaits.change {waiter : W} (h : workshop.Awaits waiter) (grammars : Grammars W)
    (hstartups : grammars.startups = workshop.grammars.startups)
    (hlinks : ∀ (number : Nat) (link : Link W), workshop.grammars.links[number]? = some link →
      ∃ after, grammars.links[number]? = some after ∧
        ∀ follower ∈ link.followers, follower ∈ after.followers) :
    (workshop.withGrammars grammars).Awaits waiter := by
  refine h.mono (fun number waiting hstartup lookup hlookup => ?_) (fun _ => id) ?_
  · exact .startup (hstartups.symm ▸ hstartup) hlookup rfl
  · intro number link hlink other hfollower
    obtain ⟨after, hafter, hkept⟩ := hlinks number link hlink
    exact .link hafter (hkept _ hfollower)

theorem Awaits.mark {waiter : W} (h : workshop.Awaits waiter) (key : Text) :
    (workshop.withGrammars (workshop.grammars.markUnavailable key)).Awaits waiter :=
  h.of_same (Grammars.startups_markUnavailable _ _) (Grammars.links_markUnavailable _ _)
    fun _ => id

/-- Nobody is lost when tasks are added. -/
theorem Awaits.enqueue {waiter : W} (h : workshop.Awaits waiter) (tasks : List (Task W C)) :
    (workshop.enqueue tasks).Awaits waiter :=
  h.of_same rfl rfl fun _ htask => List.mem_append_left _ htask

/-- A task that was just added. -/
theorem Awaits.of_enqueued {waiter : W} {tasks : List (Task W C)} {task : Task W C}
    (hmem : task ∈ tasks) (hwaiter : task.waiter = some waiter) :
    (workshop.enqueue tasks).Awaits waiter := .task (List.mem_append_right _ hmem) hwaiter

/-- A task is added, and the one it is about may have waited nowhere else. -/
theorem Awaits.push {waiter : W} {task : Task W C}
    (h : workshop.Awaits waiter ∨ task.waiter = some waiter) :
    (workshop.enqueue [task]).Awaits waiter := by
  rcases h with hawaits | htold
  · exact hawaits.enqueue _
  · exact .of_enqueued List.mem_cons_self htold

/-- The end of a start passes those who waited for it on to tasks. -/
theorem Awaits.endStartup {waiter : W} (h : workshop.Awaits waiter) {number : Nat}
    {waiting : List (Lookup W)}
    (hstartup : workshop.grammars.startups[number]? = some (.pending waiting))
    (startup : Startup W) {next : Lookup W → Job W}
    (hnext : ∀ lookup, Task.waiter (.job (next lookup) : Task W C) = some lookup.waiter) :
    ((workshop.withGrammars (workshop.grammars.setStartup number startup)).enqueue
      (waiting.map fun lookup => .job (next lookup))).Awaits waiter := by
  refine h.mono (fun other others hother lookup hlookup => ?_) ?_ ?_
  · by_cases hsame : number = other
    · subst hsame
      obtain rfl := Startup.pending.inj (Option.some.inj (hstartup.symm.trans hother))
      exact .of_enqueued (List.mem_map_of_mem hlookup) (hnext lookup)
    · have hkept : (workshop.grammars.setStartup number startup).startups[other]? =
          some (.pending others) := (List.getElem?_set_ne hsame).trans hother
      exact .startup hkept hlookup rfl
  · exact fun task htask => List.mem_append_left _ htask
  · exact fun number link hlink other hfollower => .link hlink hfollower

/-- A lookup that joins the chain takes no follower away. -/
theorem followers_extend (grammars : Grammars W) (lookup : Lookup W) (number : Nat)
    (link : Link W) (hlink : grammars.links[number]? = some link) :
    ∃ after, (grammars.extend lookup).links[number]? = some after ∧
      ∀ follower ∈ link.followers, follower ∈ after.followers := by
  obtain ⟨hlt, _⟩ := List.getElem?_eq_some_iff.mp hlink
  exact ⟨link, (List.getElem?_append_left hlt).trans hlink, fun _ => id⟩

/-- Another follower takes none away. -/
theorem followers_follow (grammars : Grammars W) (changed : Nat) (added : Follower W)
    (number : Nat) (link : Link W) (hlink : grammars.links[number]? = some link) :
    ∃ after, (grammars.follow changed added).links[number]? = some after ∧
      ∀ follower ∈ link.followers, follower ∈ after.followers := by
  refine ⟨if changed = number then { link with followers := link.followers ++ [added] } else link,
    ?_, fun follower hmem => ?_⟩
  · rw [Grammars.follow, Grammars.editLink, List.getElem?_modify, hlink]
    rfl
  · split
    · exact List.mem_append_left _ hmem
    · exact hmem

theorem Awaits.extend {waiter : W} (h : workshop.Awaits waiter) (lookup : Lookup W) :
    (workshop.withGrammars (workshop.grammars.extend lookup)).Awaits waiter :=
  h.change (workshop.grammars.extend lookup) rfl (followers_extend workshop.grammars lookup)

theorem Awaits.addFollower {waiter : W} (h : workshop.Awaits waiter) (number : Nat)
    (added : Follower W) :
    (workshop.withGrammars (workshop.grammars.follow number added)).Awaits waiter :=
  h.change (workshop.grammars.follow number added) rfl
    (followers_follow workshop.grammars number added)

/-- A lookup joins the chain, and a task asks for the new link. -/
theorem Awaits.join {waiter : W} {lookup : Lookup W} {tasks : List (Task W C)} {asks : Task W C}
    (h : workshop.Awaits waiter ∨ lookup.waiter = waiter) (hmem : asks ∈ tasks)
    (hasks : asks.waiter = some lookup.waiter) :
    ((workshop.withGrammars (workshop.grammars.extend lookup)).enqueue tasks).Awaits waiter := by
  rcases h with hawaits | rfl
  · exact (hawaits.extend lookup).enqueue tasks
  · exact .of_enqueued hmem hasks

/-- Someone who asks for a link that is there follows it from now on. -/
theorem Awaits.follow {waiter asker : W} (h : workshop.Awaits waiter ∨ asker = waiter)
    {number : Nat} {found : Link W} (hlink : workshop.grammars.links[number]? = some found) :
    (workshop.withGrammars (workshop.grammars.follow number (.answer asker))).Awaits waiter := by
  rcases h with hawaits | rfl
  · exact hawaits.addFollower number (.answer asker)
  · set told : Link W := { found with followers := found.followers ++ [.answer asker] }
    have hfollows : (workshop.grammars.follow number (.answer asker)).links[number]? =
        some told := by
      simp [told, Grammars.follow, Grammars.editLink, hlink]
    exact .link hfollows (by simp [told])

/-- A link is done, and whoever followed it is told by a task. -/
theorem Awaits.settle {waiter : W} (h : workshop.Awaits waiter) {number : Nat} {found : Link W}
    (hlink : workshop.grammars.links[number]? = some found) (answer : Answer) :
    ((workshop.withGrammars (workshop.grammars.close number answer)).enqueue
      (found.followers.map fun follower => .job (followerJob answer follower))).Awaits waiter := by
  refine h.mono (fun _ _ hother _ hlookup => .startup hother hlookup rfl)
    (fun task htask => List.mem_append_left _ htask) fun other link hother asker hasker => ?_
  by_cases hsame : number = other
  · subst hsame
    obtain rfl := Option.some.inj (hlink.symm.trans hother)
    exact .of_enqueued (List.mem_map_of_mem hasker) rfl
  · have hkept : (workshop.grammars.close number answer).links[other]? = some link := by
      simp [Grammars.close, Grammars.editLink, hsame, hother]
    exact .link hkept hasker

/-- Taking a step of loading forgets nobody. -/
theorem Awaits.perform (h : workshop.Attended) {waiter : W} (hawaits : workshop.Awaits waiter)
    {job : Job W} {rest : List (Task W C)} (htasks : workshop.tasks = .job job :: rest)
    {outcome : Outcome (Workshop W C) Unit}
    (htook : Took (workshop.withTasks rest) job outcome) : outcome.state.Awaits waiter := by
  have htaken := hawaits.take htasks
  set rested := workshop.withTasks rest with hrested
  have hstay (hnobody : Task.waiter (.job job : Task W C) = none) : rested.Awaits waiter := by
    refine htaken.resolve_right fun htold => ?_
    rw [hnobody] at htold
    cases htold
  cases htook with
  | ready hstartup =>
    have hlaunched : rested.launch.Awaits waiter := (hstay rfl).of_same rfl rfl fun _ => id
    exact hlaunched.endStartup hstartup .ready fun _ => rfl
  | spare hstartup => exact (hstay rfl).of_same rfl rfl fun _ => id
  | @failed number fault waiting hstartup =>
    exact (hstay rfl).endStartup hstartup (.failed fault) fun _ => rfl
  | failedUnheard hstartup => exact hstay rfl
  | entered hbefore =>
    exact .join (htaken.imp_right Option.some.inj) (List.mem_cons_of_mem _ List.mem_cons_self) rfl
  | @queued lookup before hlast hopen =>
    rcases htaken with hstays | htold
    · exact ((hstays.extend lookup).addFollower (rested.grammars.links.length - 1)
        (.start rested.grammars.links.length)).enqueue _
    · exact .of_enqueued List.mem_cons_self htold
  | spoiled hlast hfault =>
    exact .join (htaken.imp_right Option.some.inj) (List.mem_cons_of_mem _ List.mem_cons_self) rfl
  | @astray _ link hjob hlink =>
    refine htaken.resolve_right fun htold => ?_
    have hbeyond : workshop.grammars.links.length ≤ link := List.getElem?_eq_none_iff.mp hlink
    cases job <;> cases hjob <;> cases htold
    have hwithin := h.within link waiter (htasks ▸ List.mem_cons_self)
    omega
  | told hlink hanswer => exact .push htaken
  | following hlink hopen => exact .follow (htaken.imp_right Option.some.inj) hlink
  | known hlink hknown => exact (hstay rfl).enqueue _
  | nameless hlink hnew hgrammar => exact (hstay rfl).enqueue _
  | missing hlink hnew hgrammar hfile => exact ((hstay rfl).mark _).enqueue _
  | loading hlink hnew hgrammar hfile => exact (hstay rfl).of_same rfl rfl fun _ => id
  | @loaded link found language hlink =>
    have hlearned : (rested.withGrammars (rested.grammars.learn found.key language)).Awaits
        waiter := (hstay rfl).of_same rfl rfl fun _ => id
    exact hlearned.enqueue _
  | refused hlink => exact ((hstay rfl).mark _).enqueue _
  | adopted => exact (hstay rfl).enqueue _
  | @settled link answer found hlink => exact (hstay rfl).settle hlink answer
  | relayed => exact .push htaken

namespace Attended

/-- A start is still brought forward, unless the task that was taken ends it. -/
theorem starts_take {task : Task W C} {rest : List (Task W C)}
    (htasks : workshop.tasks = task :: rest) {number : Nat}
    (hother : task.startup ≠ some number) (hstarts : workshop.Starts number) :
    (workshop.withTasks rest).Starts number := by
  rw [Starts, htasks] at hstarts
  rcases hstarts with hrequest | hmake | ⟨fault, hfail⟩
  · exact .inl hrequest
  · rcases List.mem_cons.mp hmake with hsame | hrest
    · subst hsame
      exact absurd rfl hother
    · exact .inr (.inl hrest)
  · rcases List.mem_cons.mp hfail with hsame | hrest
    · subst hsame
      exact absurd rfl hother
    · exact .inr (.inr ⟨fault, hrest⟩)

/-- Starts are brought forward by more tasks and requests too. -/
theorem starts_mono {after : Workshop W C} {number : Nat} (hstarts : workshop.Starts number)
    (htasks : ∀ task ∈ workshop.tasks, task ∈ after.tasks)
    (hrequests : ∀ asked ∈ workshop.requests, asked ∈ after.requests) : after.Starts number := by
  rcases hstarts with hrequest | hmake | ⟨fault, hfail⟩
  · exact .inl (hrequests _ hrequest)
  · exact .inr (.inl (htasks _ hmake))
  · exact .inr (.inr ⟨fault, htasks _ hfail⟩)

/-- A start is still brought forward when a request for something else is taken up. -/
theorem starts_without {place : Nat} {asked : Request}
    (hplace : workshop.requests[place]? = some asked) {number : Nat}
    (hother : asked ≠ .startup number) (hstarts : workshop.Starts number) :
    (workshop.without place).Starts number := by
  refine hstarts.imp_left fun hrequest => ?_
  obtain ⟨other, hget⟩ := List.getElem?_of_mem hrequest
  refine List.mem_eraseIdx_iff_getElem?.mpr ⟨other, ?_, hget⟩
  rintro rfl
  exact hother (Option.some.inj (hplace.symm.trans hget))

/-- A task that ends a start brings it forward. -/
theorem starts_of_mem {task : Task W C} (hmem : task ∈ workshop.tasks) {number : Nat}
    (htask : task.startup = some number) : workshop.Starts number := by
  unfold Task.startup at htask
  split at htask
  · obtain rfl := Option.some.inj htask
    exact .inr (.inl hmem)
  · obtain rfl := Option.some.inj htask
    exact .inr (.inr ⟨_, hmem⟩)
  · cases htask

/-- New tasks must not ask for a link that is not there. -/
theorem enqueue (h : workshop.Attended) {tasks : List (Task W C)}
    (hwithin : ∀ link waiter, .job (.subscribe link waiter) ∈ tasks →
      link < workshop.grammars.links.length) : (workshop.enqueue tasks).Attended := by
  refine ⟨fun number waiting hstartup => ?_, h.current, h.unanswered, fun link waiter hmem => ?_⟩
  · exact starts_mono (h.starting number waiting hstartup)
      (fun _ htask => List.mem_append_left _ htask) fun _ => id
  · rcases List.mem_append.mp hmem with hold | hnew
    · exact h.within link waiter hold
    · exact hwithin link waiter hnew

/-- A new task that asks for no link. -/
theorem push (h : workshop.Attended) {task : Task W C}
    (htask : ∀ link waiter, task ≠ .job (.subscribe link waiter)) :
    (workshop.enqueue [task]).Attended :=
  h.enqueue fun link waiter hmem => absurd (List.mem_singleton.mp hmem).symm (htask link waiter)

theorem launch (h : workshop.Attended) : workshop.launch.Attended :=
  ⟨h.starting, h.current, h.unanswered, h.within⟩

/-- The chain may grow, as long as nothing follows a link that is done, and the start that counts
may be forgotten. -/
theorem change (h : workshop.Attended) (grammars : Grammars W)
    (hstartups : grammars.startups = workshop.grammars.startups)
    (hcurrent : ∀ number, grammars.current = some number →
      workshop.grammars.current = some number)
    (hlength : workshop.grammars.links.length ≤ grammars.links.length)
    (hunanswered : ∀ (number : Nat) (link : Link W), grammars.links[number]? = some link →
      link.followers ≠ [] → link.answer = none) :
    (workshop.withGrammars grammars).Attended := by
  refine ⟨?_, ?_, hunanswered, fun link waiter hmem => ?_⟩
  · simp only [withGrammars, hstartups]
    exact h.starting
  · intro number hsome
    have hlt := h.current number (hcurrent number hsome)
    simpa only [withGrammars, hstartups] using hlt
  · exact Nat.lt_of_lt_of_le (h.within link waiter hmem) hlength

theorem mark (h : workshop.Attended) (key : Text) :
    (workshop.withGrammars (workshop.grammars.markUnavailable key)).Attended := by
  have hlinks := Grammars.links_markUnavailable workshop.grammars key
  refine h.change _ (Grammars.startups_markUnavailable _ _) ?_ (Nat.le_of_eq (by rw [hlinks])) ?_
  · intro number hsome
    unfold Grammars.markUnavailable at hsome
    split at hsome <;> exact hsome
  · rw [hlinks]
    exact h.unanswered

/-- A new link is followed by nothing yet. -/
theorem extend (h : workshop.Attended) (lookup : Lookup W) :
    (workshop.withGrammars (workshop.grammars.extend lookup)).Attended := by
  refine h.change _ rfl (fun _ => id) (Grammars.length_extend _ lookup ▸ Nat.le_succ _) ?_
  intro number link hget hfollowers
  rcases Grammars.extend_cases hget with ⟨_, hold⟩ | ⟨rfl, rfl⟩
  · exact h.unanswered number link hold hfollowers
  · rfl

/-- A lookup joins the chain, and new tasks ask for the new link only. -/
theorem join (h : workshop.Attended) (lookup : Lookup W) {tasks : List (Task W C)}
    (hnew : ∀ link waiter, .job (.subscribe link waiter) ∈ tasks →
      link = workshop.grammars.links.length) :
    ((workshop.withGrammars (workshop.grammars.extend lookup)).enqueue tasks).Attended := by
  refine (h.extend lookup).enqueue fun link waiter hmem => ?_
  obtain rfl := hnew link waiter hmem
  exact Grammars.length_extend _ lookup ▸ Nat.lt_succ_self _

/-- A link that is not done may be followed. -/
theorem follow (h : workshop.Attended) {number : Nat} {found : Link W}
    (hlink : workshop.grammars.links[number]? = some found) (hopen : found.answer = none)
    (follower : Follower W) :
    (workshop.withGrammars (workshop.grammars.follow number follower)).Attended := by
  refine h.change _ rfl (fun _ => id) (Nat.le_of_eq (Grammars.length_editLink ..).symm) ?_
  intro other link hget hfollowers
  obtain ⟨old, hold, rfl⟩ := Grammars.editLink_cases hget
  split at hfollowers
  · subst other
    obtain rfl := Option.some.inj (hlink.symm.trans hold)
    rw [if_pos rfl]
    exact hopen
  · rw [if_neg ‹_›]
    exact h.unanswered other old hold hfollowers

/-- A link that is done is followed by nothing. -/
theorem close (h : workshop.Attended) (number : Nat) (answer : Answer) :
    (workshop.withGrammars (workshop.grammars.close number answer)).Attended := by
  refine h.change _ rfl (fun _ => id) (Nat.le_of_eq (Grammars.length_editLink ..).symm) ?_
  intro other link hget hfollowers
  obtain ⟨old, hold, rfl⟩ := Grammars.editLink_cases hget
  split at hfollowers
  · exact absurd rfl hfollowers
  · rw [if_neg ‹_›]
    exact h.unanswered other old hold hfollowers

/-- A start that was brought forward to its end is not pending any more. -/
theorem endStartup {task : Task W C} {rest : List (Task W C)} (h : workshop.Attended)
    (htasks : workshop.tasks = task :: rest) {number : Nat}
    (htask : task.startup = some number) (startup : Startup W)
    (hended : ∀ waiting, startup ≠ .pending waiting) :
    ((workshop.withTasks rest).withGrammars
      (workshop.grammars.setStartup number startup)).Attended := by
  refine ⟨fun other waiting hstartup => ?_, fun other hcurrent => ?_, h.unanswered, ?_⟩
  · by_cases hsame : number = other
    · subst hsame
      obtain ⟨hlt, hget⟩ := List.getElem?_eq_some_iff.mp hstartup
      simp only [withGrammars, Grammars.setStartup, List.getElem_set_self] at hget
      exact absurd hget (hended waiting)
    · have hold : workshop.grammars.startups[other]? = some (.pending waiting) :=
        (List.getElem?_set_ne hsame).symm.trans hstartup
      have hother : task.startup ≠ some other := by
        rw [htask]
        exact fun heq => hsame (Option.some.inj heq)
      exact starts_mono (starts_take htasks hother (h.starting other waiting hold))
        (fun _ => id) fun _ => id
  · have hlt := h.current other hcurrent
    simpa [withGrammars, Grammars.setStartup] using hlt
  · exact fun link waiter hmem => h.within link waiter (htasks ▸ List.mem_cons_of_mem _ hmem)

/-- Taking a task that ends no pending start. -/
theorem take (h : workshop.Attended) {task : Task W C} {rest : List (Task W C)}
    (htasks : workshop.tasks = task :: rest)
    (hended : ∀ number waiting, task.startup = some number →
      workshop.grammars.startups[number]? ≠ some (.pending waiting)) :
    (workshop.withTasks rest).Attended := by
  refine ⟨fun other waiting hother => ?_, h.current, h.unanswered, fun link waiter hmem => ?_⟩
  · refine starts_take htasks (fun hsame => ?_) (h.starting other waiting hother)
    exact hended other waiting hsame hother
  · exact h.within link waiter (htasks ▸ List.mem_cons_of_mem _ hmem)

/-- Taking a task that ends a start for which nobody waits. -/
theorem takeUnheard (h : workshop.Attended) {task : Task W C} {rest : List (Task W C)}
    (htasks : workshop.tasks = task :: rest) {number : Nat} (htask : task.startup = some number)
    (hstartup : ∀ waiting, workshop.grammars.startups[number]? ≠ some (.pending waiting)) :
    (workshop.withTasks rest).Attended := by
  refine h.take htasks fun other waiting hsame => ?_
  obtain rfl := Option.some.inj (htask.symm.trans hsame)
  exact hstartup waiting

/-- Taking a step of loading leaves everything attended. -/
theorem perform (h : workshop.Attended) {job : Job W} {rest : List (Task W C)}
    (htasks : workshop.tasks = .job job :: rest) {outcome : Outcome (Workshop W C) Unit}
    (htook : Took (workshop.withTasks rest) job outcome) : outcome.state.Attended := by
  have htake (hjob : Task.startup (.job job : Task W C) = none) :
      (workshop.withTasks rest).Attended :=
    h.take htasks fun number waiting hsame => by cases hjob.symm.trans hsame
  cases htook with
  | ready hstartup => exact (h.endStartup htasks rfl .ready (by simp)).launch.enqueue (by simp)
  | spare hstartup => exact (h.takeUnheard htasks rfl hstartup).launch
  | @failed number fault waiting hstartup =>
    exact (h.endStartup htasks rfl (.failed fault) (by simp)).enqueue (by simp)
  | failedUnheard hstartup => exact h.takeUnheard htasks rfl hstartup
  | @entered lookup hbefore => exact (htake rfl).join lookup (by simp)
  | @queued lookup before hlast hopen =>
    rw [List.getLast?_eq_getElem?] at hlast
    obtain ⟨hlt, _⟩ := List.getElem?_eq_some_iff.mp hlast
    have hbefore : ((workshop.withTasks rest).grammars.extend lookup).links[
        (workshop.withTasks rest).grammars.links.length - 1]? = some before :=
      (List.getElem?_append_left hlt).trans hlast
    refine (((htake rfl).extend lookup).follow hbefore hopen _).enqueue fun link waiter hmem => ?_
    obtain ⟨rfl, rfl⟩ : link = (workshop.withTasks rest).grammars.links.length ∧
      waiter = lookup.waiter := by simpa using hmem
    simp [withGrammars, Grammars.follow, Grammars.length_extend]
  | @spoiled lookup before fault hlast hfault => exact (htake rfl).join lookup (by simp)
  | @astray _ link hjob hlink =>
    exact htake (by cases job <;> first | rfl | cases hjob)
  | told hlink hanswer => exact (htake rfl).push (by simp)
  | following hlink hopen => exact (htake rfl).follow hlink hopen _
  | known hlink hknown => exact (htake rfl).push (by simp)
  | nameless hlink hnew hgrammar => exact (htake rfl).push (by simp)
  | missing hlink hnew hgrammar hfile => exact ((htake rfl).mark _).push (by simp)
  | loading hlink hnew hgrammar hfile =>
    obtain ⟨hstarting, hcurrent, hunanswered, hwithin⟩ := htake rfl
    refine ⟨fun number waiting hstartup => ?_, hcurrent, hunanswered, hwithin⟩
    exact starts_mono (hstarting number waiting hstartup) (fun _ => id)
      fun _ hasked => List.mem_append_left _ hasked
  | @loaded link found language hlink =>
    have hlearned := (htake rfl).change ((workshop.withTasks rest).grammars.learn found.key
      language) rfl (fun _ => id) (Nat.le_refl _) h.unanswered
    exact hlearned.push (by simp)
  | refused hlink => exact ((htake rfl).mark _).push (by simp)
  | adopted => exact (htake rfl).push (by simp)
  | @settled link answer found hlink =>
    refine ((htake rfl).close link answer).enqueue fun other waiter hmem => ?_
    obtain ⟨follower, _, heq⟩ := List.mem_map.mp hmem
    rcases follower with _ | _
    · cases answer <;> cases heq
    · cases heq
  | relayed => exact (htake rfl).push (by simp)

/-- Looking up a language leaves everything attended. -/
theorem lookup (h : workshop.Attended) {resolve : Text → Option GrammarName} {key : Text}
    {waiter : W} {outcome : Outcome (Workshop W C) Unit}
    (hsought : Sought resolve key waiter workshop outcome) : outcome.state.Attended := by
  cases hsought with
  | known hknown => exact h.enqueue (by simp)
  | unavailable hnew hkey => exact h.enqueue (by simp)
  | unnamed hnew hname => exact (h.mark key).enqueue (by simp)
  | @starting grammar hnew hname hcurrent =>
    refine ⟨fun number waiting hstartup => ?_, fun number hnow => ?_, h.unanswered, h.within⟩
    · by_cases hold : number < workshop.grammars.startups.length
      · have hbefore : workshop.grammars.startups[number]? = some (.pending waiting) :=
          (List.getElem?_append_left hold).symm.trans hstartup
        exact starts_mono (h.starting number waiting hbefore) (fun _ => id)
          fun _ hasked => List.mem_append_left _ hasked
      · obtain ⟨hlt, _⟩ := List.getElem?_eq_some_iff.mp hstartup
        simp only [ask, withGrammars, Grammars.addStartup, List.length_append,
          List.length_singleton] at hlt
        obtain rfl : number = workshop.grammars.startups.length := by omega
        exact .inl (List.mem_append_right _ List.mem_cons_self)
    · obtain rfl := Option.some.inj hnow
      simp [ask, withGrammars, Grammars.addStartup]
  | @waiting grammar number others hnew hname hcurrent hstartup =>
    refine ⟨fun other waiting hother => ?_, fun other hnow => ?_, h.unanswered, h.within⟩
    · by_cases hsame : number = other
      · subst hsame
        exact h.starting number others hstartup
      · exact h.starting other waiting ((List.getElem?_set_ne hsame).symm.trans hother)
    · have hlt := h.current other hnow
      simpa [withGrammars, Grammars.setStartup] using hlt
  | entering hnew hname hcurrent hstartup => exact h.enqueue (by simp)
  | hopeless hnew hname hcurrent hstartup => exact h.enqueue (by simp)
  | lost hnew hname hcurrent hstartup => exact h

/-- Taking up a request for anything but a start. -/
theorem without (h : workshop.Attended) {place : Nat} {asked : Request}
    (hplace : workshop.requests[place]? = some asked) (hasked : ∀ number, asked ≠ .startup number) :
    (workshop.without place).Attended := by
  refine ⟨fun number waiting hstartup => ?_, h.current, h.unanswered, h.within⟩
  exact starts_without hplace (hasked number) (h.starting number waiting hstartup)

/-- A start whose request was finished is brought forward by the task that comes of it. -/
theorem finishStartup (h : workshop.Attended) {place number : Nat}
    (hplace : workshop.requests[place]? = some (.startup number)) {task : Task W C}
    (htask : task.startup = some number) : ((workshop.without place).enqueue [task]).Attended := by
  refine ⟨fun other waiting hstartup => ?_, h.current, h.unanswered, fun link waiter hmem => ?_⟩
  · by_cases hsame : number = other
    · subst hsame
      exact starts_of_mem (List.mem_append_right _ List.mem_cons_self) htask
    · have hother : Request.startup number ≠ .startup other :=
        fun heq => hsame (Request.startup.inj heq)
      exact starts_mono (starts_without hplace hother (h.starting other waiting hstartup))
        (fun _ hold => List.mem_append_left _ hold) fun _ => id
  · rcases List.mem_append.mp hmem with hold | hnew
    · exact h.within link waiter hold
    · rw [← List.mem_singleton.mp hnew] at htask
      cases htask

/-- Finishing a request leaves everything attended. -/
theorem complete (h : workshop.Attended) {place : Nat} {asked : Request}
    (hplace : workshop.requests[place]? = some asked) {outcome : Outcome (Workshop W C) Unit}
    (hcompleted : Completed (workshop.without place) asked outcome) :
    outcome.state.Attended := by
  cases hcompleted with
  | started hstart => exact h.finishStartup hplace rfl
  | unstarted hstart => exact h.finishStartup hplace rfl
  | refused herror => exact (h.without hplace (by simp)).push (by simp)
  | loaded herror =>
    have hadded : (workshop.without place).addLanguage.Attended := by
      obtain ⟨hstarting, hcurrent, hunanswered, hwithin⟩ := h.without hplace (by simp)
      exact ⟨hstarting, hcurrent, hunanswered, hwithin⟩
    exact hadded.push (by simp)

end Attended

/-- Looking up a language forgets nobody, and the one who asks waits too. -/
theorem Awaits.lookup (h : workshop.Attended) {resolve : Text → Option GrammarName} {key : Text}
    {waiter asker : W} {outcome : Outcome (Workshop W C) Unit}
    (hsought : Sought resolve key asker workshop outcome)
    (hwaiter : workshop.Awaits waiter ∨ waiter = asker) : outcome.state.Awaits waiter := by
  have hpush {task : Task W C} (htask : task.waiter = some asker) :
      (workshop.enqueue [task]).Awaits waiter := by
    refine .push (hwaiter.imp_right fun hsame => ?_)
    rw [hsame, htask]
  cases hsought with
  | known hknown => exact hpush rfl
  | unavailable hnew hkey => exact hpush rfl
  | unnamed hnew hname =>
    rcases hwaiter with hawaits | rfl
    · exact (hawaits.mark key).enqueue _
    · exact .of_enqueued List.mem_cons_self rfl
  | @starting grammar hnew hname hcurrent =>
    rcases hwaiter with hawaits | rfl
    · refine hawaits.mono (fun number waiting hstartup lookup hlookup => ?_) (fun _ => id)
        fun _ _ hlink _ hfollower => .link hlink hfollower
      obtain ⟨hlt, _⟩ := List.getElem?_eq_some_iff.mp hstartup
      exact .startup ((List.getElem?_append_left hlt).trans hstartup) hlookup rfl
    · exact .startup (List.getElem?_concat_length ..) List.mem_cons_self rfl
  | @waiting grammar number others hnew hname hcurrent hstartup =>
    obtain ⟨hlt, _⟩ := List.getElem?_eq_some_iff.mp hstartup
    have hnow : (workshop.grammars.setStartup number
        (.pending (others ++ [⟨key, grammar, asker⟩]))).startups[number]? =
        some (.pending (others ++ [⟨key, grammar, asker⟩])) := List.getElem?_set_self hlt
    rcases hwaiter with hawaits | rfl
    · refine hawaits.mono (fun other waiting hother lookup hlookup => ?_) (fun _ => id)
        fun _ _ hlink _ hfollower => .link hlink hfollower
      by_cases hsame : number = other
      · subst hsame
        obtain rfl := Startup.pending.inj (Option.some.inj (hstartup.symm.trans hother))
        exact .startup hnow (List.mem_append_left _ hlookup) rfl
      · exact .startup ((List.getElem?_set_ne hsame).trans hother) hlookup rfl
    · exact .startup hnow (List.mem_append_right _ List.mem_cons_self) rfl
  | entering hnew hname hcurrent hstartup => exact hpush rfl
  | hopeless hnew hname hcurrent hstartup => exact hpush rfl
  | lost hnew hname hcurrent hstartup =>
    have hlt := h.current _ hcurrent
    exact absurd (List.getElem?_eq_none_iff.mp hstartup) (Nat.not_le.mpr hlt)

/-- Finishing a request forgets nobody. -/
theorem Awaits.complete {waiter : W} (h : workshop.Awaits waiter) {place : Nat} {asked : Request}
    {outcome : Outcome (Workshop W C) Unit}
    (hcompleted : Completed (workshop.without place) asked outcome) :
    outcome.state.Awaits waiter := by
  have hrested : (workshop.without place).Awaits waiter := h.of_same rfl rfl fun _ => id
  have hadded : (workshop.without place).addLanguage.Awaits waiter :=
    h.of_same rfl rfl fun _ => id
  cases hcompleted with
  | started hstart => exact hrested.enqueue _
  | unstarted hstart => exact hrested.enqueue _
  | refused herror => exact hrested.enqueue _
  | loaded herror => exact hadded.enqueue _

end Workshop

end ClosingLabels
