import ClosingLabels.Proofs.Chain
import Mathlib.Algebra.GroupWithZero.Nat
import Mathlib.Algebra.Order.BigOperators.Group.List
import Mathlib.Algebra.Order.Group.Nat

/-!
# Loading comes to an end

Every task, every request, every waiting lookup and every follower of a link counts for
what it can still lead to. No step of loading and no finished request leaves more of
this than it takes away, so the tasks and requests run out, in whatever order they are
taken.
-/

namespace ClosingLabels

/-- What a follower can still lead to. -/
def Follower.effort {W : Type} : Follower W → Nat
  | .start _ => 5
  | .answer _ => 3

/-- What a step of loading can still lead to. -/
def Job.effort {W : Type} : Job W → Nat
  | .makeParser _ => 1
  | .failStartup _ _ => 1
  | .enter _ => 10
  | .subscribe _ _ => 4
  | .start _ => 4
  | .finish _ _ => 2
  | .adopt _ _ => 2
  | .settle _ _ => 1
  | .relay _ _ => 2

theorem Job.effort_pos {W : Type} (job : Job W) : 0 < job.effort := by
  cases job <;> exact Nat.succ_pos _

/-- What a task can still lead to, as far as loading goes. -/
def Task.effort {W C : Type} : Task W C → Nat
  | .job step => step.effort
  | .deliver _ _ => 1
  | .client _ => 1

/-- What a request can still lead to. -/
def Request.effort : Request → Nat
  | .startup _ => 2
  | .load _ _ _ => 3

/-- What the lookups that wait for a start can still lead to. -/
def Startup.effort {W : Type} (startup : Startup W) : Nat :=
  (startup.waiting.map fun _ => 11).sum

/-- What the followers of a link can still lead to. -/
def Link.effort {W : Type} (link : Link W) : Nat := (link.followers.map Follower.effort).sum

/-- What is replaced in a list is replaced in its sum. -/
theorem sum_map_set {α : Type} (f : α → Nat) {items : List α} {place : Nat} {old : α}
    (hold : items[place]? = some old) (item : α) :
    ((items.set place item).map f).sum + f old = (items.map f).sum + f item := by
  induction items generalizing place with
  | nil => cases hold
  | cons first rest ih =>
    cases place with
    | zero =>
      obtain rfl := Option.some.inj hold
      simp only [List.set_cons_zero, List.map_cons, List.sum_cons]
      omega
    | succ place =>
      have hrest : ((rest.set place item).map f).sum + f old = (rest.map f).sum + f item := ih hold
      simp only [List.set_cons_succ, List.map_cons, List.sum_cons]
      omega

namespace Grammars

variable {W : Type} {grammars : Grammars W}

/-- What waits in the grammars can still lead to. -/
def effort (grammars : Grammars W) : Nat :=
  (grammars.startups.map Startup.effort).sum + (grammars.links.map Link.effort).sum

theorem effort_markUnavailable (grammars : Grammars W) (key : Text) :
    (grammars.markUnavailable key).effort = grammars.effort := by
  unfold markUnavailable
  split <;> rfl

theorem effort_extend (grammars : Grammars W) (lookup : Lookup W) :
    (grammars.extend lookup).effort = grammars.effort := by
  simp [effort, extend, Link.effort]

theorem effort_setStartup (grammars : Grammars W) {number : Nat} {old : Startup W}
    (hold : grammars.startups[number]? = some old) (startup : Startup W) :
    (grammars.setStartup number startup).effort + old.effort =
      grammars.effort + startup.effort := by
  have hsum := sum_map_set Startup.effort hold startup
  simp only [effort, setStartup]
  omega

theorem effort_editLink {number : Nat} {link : Link W}
    (hlink : grammars.links[number]? = some link) (f : Link W → Link W) :
    (grammars.editLink number f).effort + link.effort = grammars.effort + (f link).effort := by
  have hset : grammars.links.modify number f = grammars.links.set number (f link) := by
    rw [List.modify_eq_set_getElem?, hlink]
    rfl
  have hsum := sum_map_set Link.effort hlink (f link)
  simp only [effort, editLink, hset]
  omega

theorem effort_follow {number : Nat} {link : Link W}
    (hlink : grammars.links[number]? = some link) (follower : Follower W) :
    (grammars.follow number follower).effort = grammars.effort + follower.effort := by
  have hedit := effort_editLink hlink fun l => { l with followers := l.followers ++ [follower] }
  simp only [Link.effort, List.map_append, List.sum_append, List.map_cons, List.map_nil,
    List.sum_cons, List.sum_nil] at hedit
  simp only [follow]
  omega

theorem effort_close {number : Nat} {link : Link W}
    (hlink : grammars.links[number]? = some link) (answer : Answer) :
    (grammars.close number answer).effort + link.effort = grammars.effort :=
  effort_editLink hlink _

end Grammars

namespace Workshop

variable {W C : Type} {workshop : Workshop W C}

/-- What is left to be done, counted by what each task, request and waiting lookup can still
lead to. -/
def effort (workshop : Workshop W C) : Nat :=
  (workshop.tasks.map Task.effort).sum + (workshop.requests.map Request.effort).sum +
    workshop.grammars.effort

theorem effort_enqueue (workshop : Workshop W C) (tasks : List (Task W C)) :
    (workshop.enqueue tasks).effort = workshop.effort + (tasks.map Task.effort).sum := by
  simp only [effort, enqueue, List.map_append, List.sum_append]
  omega

theorem effort_ask (workshop : Workshop W C) (asked : Request) :
    (workshop.ask asked).effort = workshop.effort + asked.effort := by
  simp only [effort, ask, List.map_append, List.sum_append, List.map_cons, List.map_nil,
    List.sum_cons, List.sum_nil]
  omega

/-- The grammars changed and tasks were added. -/
theorem effort_advance (workshop : Workshop W C) (grammars : Grammars W)
    (tasks : List (Task W C)) :
    ((workshop.withGrammars grammars).enqueue tasks).effort + workshop.grammars.effort =
      workshop.effort + grammars.effort + (tasks.map Task.effort).sum := by
  rw [effort_enqueue]
  simp only [effort, withGrammars]
  omega

theorem effort_cons {task : Task W C} {rest : List (Task W C)}
    (htasks : workshop.tasks = task :: rest) :
    workshop.effort = task.effort + (workshop.withTasks rest).effort := by
  simp only [effort, withTasks, htasks, List.map_cons, List.sum_cons]
  omega

theorem effort_without {place : Nat} {asked : Request}
    (hplace : workshop.requests[place]? = some asked) :
    workshop.effort = asked.effort + (workshop.without place).effort := by
  obtain ⟨hlt, hget⟩ := List.getElem?_eq_some_iff.mp hplace
  have hperm : workshop.requests.Perm (asked :: workshop.requests.eraseIdx place) :=
    hget ▸ (List.getElem_cons_eraseIdx_perm hlt).symm
  have hsum := (hperm.map Request.effort).sum_nat
  simp only [List.map_cons, List.sum_cons] at hsum
  simp only [effort, without]
  omega

/-- One task was added. -/
theorem effort_push (workshop : Workshop W C) (task : Task W C) :
    (workshop.enqueue [task]).effort = workshop.effort + task.effort := by
  simp [effort_enqueue]

/-- A language was marked and one task added. -/
theorem effort_mark (workshop : Workshop W C) (key : Text) (task : Task W C) :
    ((workshop.withGrammars (workshop.grammars.markUnavailable key)).enqueue [task]).effort =
      workshop.effort + task.effort := by
  rw [effort_push]
  simp only [effort, withGrammars, Grammars.effort_markUnavailable]

/-- A lookup joined the chain and tasks were added. -/
theorem effort_join (workshop : Workshop W C) (lookup : Lookup W) (tasks : List (Task W C)) :
    ((workshop.withGrammars (workshop.grammars.extend lookup)).enqueue tasks).effort =
      workshop.effort + (tasks.map Task.effort).sum := by
  rw [effort_enqueue]
  simp only [effort, withGrammars, Grammars.effort_extend]

/-- What waited for a start leads to less once the start is over. -/
theorem sum_effort_waiting (waiting : List (Lookup W)) (next : Lookup W → Job W)
    (hnext : ∀ lookup, (next lookup).effort ≤ 11) :
    ((waiting.map fun lookup => (.job (next lookup) : Task W C)).map Task.effort).sum ≤
      (Startup.pending waiting).effort := by
  rw [List.map_map]
  exact List.sum_le_sum fun lookup _ => hnext lookup

/-- A start has ended, and its lookups went on with less to be done. -/
theorem effort_endStartup (workshop : Workshop W C) {number : Nat} {waiting : List (Lookup W)}
    (hstartup : workshop.grammars.startups[number]? = some (.pending waiting))
    {startup : Startup W} (hended : startup.effort = 0) {next : Lookup W → Job W}
    (hnext : ∀ lookup, (next lookup).effort ≤ 11) :
    ((workshop.withGrammars (workshop.grammars.setStartup number startup)).enqueue
      (waiting.map fun lookup => .job (next lookup))).effort ≤ workshop.effort := by
  have hset := Grammars.effort_setStartup workshop.grammars hstartup startup
  have hadvance := effort_advance workshop (workshop.grammars.setStartup number startup)
    (waiting.map fun lookup => .job (next lookup))
  have hwaiting := sum_effort_waiting (C := C) waiting next hnext
  omega

/-- What followed a link leads to less once the link is done. -/
theorem sum_effort_followers (answer : Answer) (followers : List (Follower W)) :
    ((followers.map fun follower => (.job (followerJob answer follower) : Task W C)).map
      Task.effort).sum ≤ (followers.map Follower.effort).sum := by
  rw [List.map_map]
  refine List.sum_le_sum fun follower _ => ?_
  cases follower with
  | answer waiter => exact (by decide : 2 ≤ 3)
  | start link =>
    cases answer with
    | ok found => exact (by decide : 4 ≤ 5)
    | error fault => exact (by decide : 1 ≤ 5)

/-- A link is done, and what followed it went on with less to be done. -/
theorem effort_settle (workshop : Workshop W C) {link : Nat} {found : Link W}
    (hlink : workshop.grammars.links[link]? = some found) (answer : Answer) :
    ((workshop.withGrammars (workshop.grammars.close link answer)).enqueue
      (found.followers.map fun follower => .job (followerJob answer follower))).effort ≤
        workshop.effort := by
  have hclose := Grammars.effort_close hlink answer
  have hadvance := effort_advance workshop (workshop.grammars.close link answer)
    (found.followers.map fun follower => .job (followerJob answer follower))
  have hfollowers := sum_effort_followers (C := C) answer found.followers
  simp only [Link.effort] at hclose
  omega

/-- Taking a step of loading leaves less to be done. -/
theorem effort_perform {job : Job W} {rest : List (Task W C)}
    (htasks : workshop.tasks = .job job :: rest) {outcome : Outcome (Workshop W C) Unit}
    (htook : Took (workshop.withTasks rest) job outcome) :
    outcome.state.effort < workshop.effort := by
  rw [effort_cons htasks]
  set rested := workshop.withTasks rest
  have hspent {after : Workshop W C} (hless : after.effort ≤ rested.effort) :
      after.effort < Task.effort (.job job : Task W C) + rested.effort :=
    Nat.lt_of_le_of_lt hless (Nat.lt_add_of_pos_left job.effort_pos)
  -- Where only one task was added, it can lead to less than the one taken.
  have hhand {after : Workshop W C} {task : Task W C} (hless : task.effort < job.effort)
      (hafter : after.effort = rested.effort + task.effort) :
      after.effort < Task.effort (.job job : Task W C) + rested.effort := by
    rw [hafter, Nat.add_comm]
    exact Nat.add_lt_add_right hless _
  have hpush (task : Task W C) (hless : task.effort < job.effort) :=
    hhand hless (effort_push rested task)
  have hmark (key : Text) (task : Task W C) (hless : task.effort < job.effort) :=
    hhand hless (effort_mark rested key task)
  cases htook with
  | ready hstartup =>
    exact hspent (effort_endStartup rested.launch hstartup rfl fun _ => (by decide : 10 ≤ 11))
  | spare hstartup => exact hspent (Nat.le_refl _)
  | failed hstartup =>
    exact hspent (effort_endStartup rested hstartup rfl fun _ => (by decide : 2 ≤ 11))
  | failedUnheard hstartup => exact hspent (Nat.le_refl _)
  | entered hbefore =>
    rw [effort_join, Nat.add_comm]
    exact Nat.add_lt_add_right (by decide : 4 + (4 + 0) < 10) _
  | @queued lookup before hlast hopen =>
    rw [List.getLast?_eq_getElem?] at hlast
    obtain ⟨hlt, _⟩ := List.getElem?_eq_some_iff.mp hlast
    have hbefore : (rested.grammars.extend lookup).links[rested.grammars.links.length - 1]? =
        some before := (List.getElem?_append_left hlt).trans hlast
    have hfollow := Grammars.effort_follow hbefore (.start rested.grammars.links.length)
    have hadvance := effort_advance rested ((rested.grammars.extend lookup).follow
      (rested.grammars.links.length - 1) (.start rested.grammars.links.length))
      [.job (.subscribe rested.grammars.links.length lookup.waiter)]
    rw [Grammars.effort_extend] at hfollow
    simp only [List.map_cons, List.map_nil, List.sum_cons, List.sum_nil, Task.effort, Job.effort,
      Follower.effort] at hfollow hadvance ⊢
    omega
  | spoiled hlast hfault =>
    rw [effort_join, Nat.add_comm]
    exact Nat.add_lt_add_right (by decide : 1 + (4 + 0) < 10) _
  | astray hjob hlink => exact hspent (Nat.le_refl _)
  | told hlink hanswer => exact hpush _ (by decide : 2 < 4)
  | @following link waiter found hlink hopen =>
    have hfollow := Grammars.effort_follow hlink (.answer waiter)
    have hchanged : (rested.withGrammars (rested.grammars.follow link (.answer waiter))).effort =
        rested.effort + 3 := by
      simp only [effort, withGrammars, hfollow, Follower.effort]
      omega
    rw [hchanged, Nat.add_comm]
    exact Nat.add_lt_add_right (by decide : 3 < 4) _
  | known hlink hknown => exact hpush _ (by decide : 2 < 4)
  | nameless hlink hnew hgrammar => exact hpush _ (by decide : 2 < 4)
  | missing hlink hnew hgrammar hfile => exact hmark _ _ (by decide : 2 < 4)
  | loading hlink hnew hgrammar hfile =>
    rw [effort_ask, Nat.add_comm]
    exact Nat.add_lt_add_right (by decide : 3 < 4) _
  | loaded hlink => exact hpush _ (by decide : 1 < 2)
  | refused hlink => exact hmark _ _ (by decide : 1 < 2)
  | adopted => exact hpush _ (by decide : 1 < 2)
  | settled hlink => exact hspent (effort_settle rested hlink _)
  | relayed => exact hpush _ (by decide : 1 < 2)

/-- Finishing a request leaves less to be done. -/
theorem effort_complete {place : Nat} {asked : Request}
    (hplace : workshop.requests[place]? = some asked) {outcome : Outcome (Workshop W C) Unit}
    (hcompleted : Completed (workshop.without place) asked outcome) :
    outcome.state.effort < workshop.effort := by
  rw [effort_without hplace]
  cases hcompleted with
  | started hstart =>
    rw [effort_push, Nat.add_comm]
    exact Nat.add_lt_add_right (by decide : 1 < 2) _
  | unstarted hstart =>
    rw [effort_push, Nat.add_comm]
    exact Nat.add_lt_add_right (by decide : 1 < 2) _
  | refused herror =>
    rw [effort_push, Nat.add_comm]
    exact Nat.add_lt_add_right (by decide : 2 < 3) _
  | loaded herror =>
    rw [effort_push, Nat.add_comm]
    exact Nat.add_lt_add_right (by decide : 2 < 3) _

end Workshop

end ClosingLabels
