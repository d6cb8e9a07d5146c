import ClosingLabels.Proofs.Turns
import Mathlib.Data.List.Perm.Basic

/-!
# One load at a time

The links of the chain are done one after another, from the first on. At any moment the
first link that is not done is driven by exactly one task or request, and no other link
is driven at all: each waits for the link before it to start it. So no two grammars are
loaded at the same time, and while one is loaded nobody else can make a language known.
-/

namespace ClosingLabels

/-- The link that a step of loading brings forward. -/
def Job.drives {W : Type} : Job W → Option Nat
  | .start link => some link
  | .finish link _ => some link
  | .adopt link _ => some link
  | .settle link _ => some link
  | _ => none

/-- The link that a task brings forward. -/
def Task.drives {W C : Type} : Task W C → Option Nat
  | .job step => step.drives
  | _ => none

/-- The link that a request brings forward. -/
def Request.drives : Request → Option Nat
  | .load link _ _ => some link
  | .startup _ => none

/-- The link that a follower starts. -/
def Follower.starts {W : Type} : Follower W → Option Nat
  | .start link => some link
  | .answer _ => none

/-- The links that start when a link is done. -/
def Link.starts {W : Type} (link : Link W) : List Nat := link.followers.filterMap Follower.starts

namespace Grammars

variable {W : Type} {grammars : Grammars W}

@[simp] theorem length_extend (grammars : Grammars W) (lookup : Lookup W) :
    (grammars.extend lookup).links.length = grammars.links.length + 1 := by
  simp [extend]

/-- A link of a chain that was extended is an old one or the new one. -/
theorem extend_cases {lookup : Lookup W} {i : Nat} {link : Link W}
    (hget : (grammars.extend lookup).links[i]? = some link) :
    (i < grammars.links.length ∧ grammars.links[i]? = some link) ∨
      (i = grammars.links.length ∧ link = ⟨lookup.key, lookup.grammar, none, []⟩) := by
  obtain ⟨hlt, _⟩ := List.getElem?_eq_some_iff.mp hget
  rw [length_extend] at hlt
  rcases Nat.lt_succ_iff_lt_or_eq.mp hlt with hold | hnew
  · left
    rw [extend, List.getElem?_append_left hold] at hget
    exact ⟨hold, hget⟩
  · right
    subst hnew
    rw [extend, List.getElem?_concat_length] at hget
    exact ⟨rfl, (Option.some.inj hget).symm⟩

@[simp] theorem length_editLink (grammars : Grammars W) (number : Nat) (f : Link W → Link W) :
    (grammars.editLink number f).links.length = grammars.links.length :=
  List.length_modify ..

/-- A link of a chain in which one was changed is as it was, or is the changed one. -/
theorem editLink_cases {number : Nat} {f : Link W → Link W} {i : Nat} {link : Link W}
    (hget : (grammars.editLink number f).links[i]? = some link) :
    ∃ old, grammars.links[i]? = some old ∧ link = if number = i then f old else old := by
  rw [editLink, List.getElem?_modify] at hget
  obtain ⟨old, hold, heq⟩ := Option.map_eq_some_iff.mp hget
  exact ⟨old, hold, heq.symm⟩

@[simp] theorem links_markUnavailable (grammars : Grammars W) (key : Text) :
    (grammars.markUnavailable key).links = grammars.links := by
  unfold markUnavailable
  split <;> rfl

/-- The links are done in turn: those before `done` are, the others are not, and each of the
others starts the next. -/
structure Chained (grammars : Grammars W) (done : Nat) : Prop where
  le : done ≤ grammars.links.length
  answered : ∀ i link, grammars.links[i]? = some link → (link.answer.isSome ↔ i < done)
  starts : ∀ i link, grammars.links[i]? = some link →
    link.starts = if done ≤ i ∧ i + 1 < grammars.links.length then [i + 1] else []

namespace Chained

variable {done : Nat}

/-- Only the links matter. -/
theorem of_links (h : grammars.Chained done) {after : Grammars W}
    (hlinks : after.links = grammars.links) : after.Chained done := by
  obtain ⟨hle, hanswered, hstarts⟩ := h
  rw [← hlinks] at hle hanswered hstarts
  exact ⟨hle, hanswered, hstarts⟩

/-- When the last link is done or there is none, all links are done. -/
theorem eq_length (h : grammars.Chained done)
    (hlast : ∀ before, grammars.links.getLast? = some before → before.answer.isSome) :
    done = grammars.links.length := by
  rcases Nat.eq_zero_or_pos grammars.links.length with hnone | hsome
  · exact Nat.le_antisymm h.le (hnone ▸ Nat.zero_le _)
  · have hlt : grammars.links.length - 1 < grammars.links.length := by omega
    have hget := List.getElem?_eq_getElem hlt
    have hdone := (h.answered _ _ hget).mp (hlast _ (by rw [List.getLast?_eq_getElem?, hget]))
    have hle := h.le
    omega

/-- When the last link is not done, neither are all links. -/
theorem lt_length (h : grammars.Chained done) {before : Link W}
    (hlast : grammars.links.getLast? = some before) (hopen : before.answer = none) :
    done < grammars.links.length := by
  rw [List.getLast?_eq_getElem?] at hlast
  have hdone := h.answered _ _ hlast
  obtain ⟨hlt, _⟩ := List.getElem?_eq_some_iff.mp hlast
  rw [hopen] at hdone
  simp at hdone
  omega

/-- A link that another starts is there. -/
theorem lt_of_starts (h : grammars.Chained done) {number next : Nat} {link : Link W}
    (hlink : grammars.links[number]? = some link) (hnext : next ∈ link.starts) :
    next < grammars.links.length := by
  rw [h.starts number link hlink] at hnext
  split at hnext
  · rw [List.mem_singleton.mp hnext]
    exact (‹_ ∧ _›).2
  · cases hnext

/-- A link that starts after another lies behind it. -/
theorem lt_of_mem_starts (h : grammars.Chained done) {number next : Nat} {link : Link W}
    (hlink : grammars.links[number]? = some link) (hnext : next ∈ link.starts) : number < next := by
  rw [h.starts number link hlink] at hnext
  split at hnext
  · rw [List.mem_singleton.mp hnext]
    exact Nat.lt_succ_self number
  · cases hnext

/-- A link may join a chain that is done. -/
theorem extend (h : grammars.Chained grammars.links.length) (lookup : Lookup W) :
    (grammars.extend lookup).Chained grammars.links.length := by
  refine ⟨length_extend grammars lookup ▸ Nat.le_succ _, ?_, ?_⟩
  · intro i link hget
    rcases extend_cases hget with ⟨hlt, hold⟩ | ⟨rfl, rfl⟩
    · exact h.answered i link hold
    · simp
  · intro i link hget
    rcases extend_cases hget with ⟨hlt, hold⟩ | ⟨rfl, rfl⟩
    · rw [h.starts i link hold, if_neg (by omega), if_neg (by omega)]
    · simp [Link.starts]

/-- A link that joins a chain that is not done is started by the link before it. -/
theorem queue (h : grammars.Chained done) (hlt : done < grammars.links.length)
    (lookup : Lookup W) :
    ((grammars.extend lookup).follow (grammars.links.length - 1)
      (.start grammars.links.length)).Chained done := by
  set last := grammars.links.length - 1 with hlast
  have hlength : ((grammars.extend lookup).follow last
      (.start grammars.links.length)).links.length = grammars.links.length + 1 := by
    simp [follow]
  refine ⟨hlength ▸ Nat.le_succ_of_le h.le, ?_, ?_⟩
  · intro i link hget
    obtain ⟨old, hold, rfl⟩ := editLink_cases hget
    have hanswer : (if last = i then { old with followers := old.followers ++
        [.start grammars.links.length] } else old).answer = old.answer := by
      split <;> rfl
    rw [hanswer]
    rcases extend_cases hold with ⟨_, hbefore⟩ | ⟨rfl, rfl⟩
    · exact h.answered i old hbefore
    · simp [h.le]
  · intro i link hget
    obtain ⟨old, hold, rfl⟩ := editLink_cases hget
    rw [hlength]
    rcases extend_cases hold with ⟨hi, hbefore⟩ | ⟨rfl, rfl⟩
    · have hstarts := h.starts i old hbefore
      by_cases hsame : last = i
      · rw [if_neg (by omega)] at hstarts
        rw [if_pos hsame, if_pos (by omega)]
        simp only [Link.starts, List.filterMap_append] at hstarts ⊢
        rw [hstarts]
        simp [Follower.starts]
        omega
      · have hiff : (done ≤ i ∧ i + 1 < grammars.links.length) ↔
            (done ≤ i ∧ i + 1 < grammars.links.length + 1) := by omega
        simp only [if_neg hsame, hstarts, hiff]
    · rw [if_neg (by omega), if_neg (by omega)]
      rfl

/-- Someone may wait for any link. -/
theorem follow (h : grammars.Chained done) (number : Nat) (waiter : W) :
    (grammars.follow number (.answer waiter)).Chained done := by
  have hlength : (grammars.follow number (.answer waiter)).links.length =
      grammars.links.length := length_editLink ..
  refine ⟨hlength ▸ h.le, ?_, ?_⟩
  · intro i link hget
    obtain ⟨old, hold, rfl⟩ := editLink_cases hget
    have hanswered := h.answered i old hold
    split
    · exact hanswered
    · exact hanswered
  · intro i link hget
    obtain ⟨old, hold, rfl⟩ := editLink_cases hget
    have hstarts := h.starts i old hold
    rw [hlength]
    split
    · rw [← hstarts]
      simp [Link.starts, Follower.starts]
    · exact hstarts

/-- The first link that is not done may be done. -/
theorem close (h : grammars.Chained done) (hlt : done < grammars.links.length)
    (answer : Answer) : (grammars.close done answer).Chained (done + 1) := by
  have hlength : (grammars.close done answer).links.length = grammars.links.length :=
    length_editLink ..
  refine ⟨hlength ▸ hlt, ?_, ?_⟩
  · intro i link hget
    obtain ⟨old, hold, rfl⟩ := editLink_cases hget
    have hanswered := h.answered i old hold
    by_cases hsame : done = i
    · simp [hsame]
    · rw [if_neg hsame, hanswered]
      omega
  · intro i link hget
    obtain ⟨old, hold, rfl⟩ := editLink_cases hget
    have hstarts := h.starts i old hold
    rw [hlength]
    by_cases hsame : done = i
    · rw [if_pos hsame, if_neg (by omega)]
      rfl
    · have hiff : (done ≤ i ∧ i + 1 < grammars.links.length) ↔
          (done + 1 ≤ i ∧ i + 1 < grammars.links.length) := by omega
      simp only [if_neg hsame, hstarts, hiff]

end Chained

end Grammars

namespace Workshop

variable {W C : Type} {workshop : Workshop W C}

/-- The links that are driven, by a task or by a request. -/
def driven (workshop : Workshop W C) : List Nat :=
  workshop.tasks.filterMap Task.drives ++ workshop.requests.filterMap Request.drives

/-- A workshop with other tasks waiting. -/
def withTasks (workshop : Workshop W C) (tasks : List (Task W C)) : Workshop W C :=
  { workshop with tasks }

/-- A workshop in which the request at some place was taken up. -/
def without (workshop : Workshop W C) (place : Nat) : Workshop W C :=
  { workshop with requests := workshop.requests.eraseIdx place }

/-- Tasks that drive nothing make no difference. -/
theorem driven_enqueue_of_none {tasks : List (Task W C)}
    (hnone : ∀ task ∈ tasks, task.drives = none) :
    (workshop.enqueue tasks).driven = workshop.driven := by
  have hidle : tasks.filterMap Task.drives = [] := List.filterMap_eq_nil_iff.mpr hnone
  simp only [driven, enqueue, List.filterMap_append, hidle, List.append_nil]

/-- Where nothing is driven, new tasks are all that drives. -/
theorem driven_enqueue (hidle : workshop.driven = []) (tasks : List (Task W C)) :
    (workshop.enqueue tasks).driven = tasks.filterMap Task.drives := by
  obtain ⟨htasks, hrequests⟩ := List.append_eq_nil_iff.mp hidle
  simp only [driven, enqueue, List.filterMap_append, htasks, hrequests, List.nil_append,
    List.append_nil]

/-- Where nothing is driven, a new request is all that drives. -/
theorem driven_ask (hidle : workshop.driven = []) (asked : Request) :
    (workshop.ask asked).driven = asked.drives.toList := by
  obtain ⟨htasks, hrequests⟩ := List.append_eq_nil_iff.mp hidle
  simp only [driven, ask, List.filterMap_append, htasks, hrequests, List.nil_append]
  cases hdrives : asked.drives with
  | none => simp [hdrives]
  | some link => simp [hdrives]

/-- A request for a start drives nothing. -/
theorem driven_ask_startup (number : Nat) :
    (workshop.ask (.startup number)).driven = workshop.driven := by
  simp [driven, ask, Request.drives]

/-- What the oldest task drives, and what the others drive. -/
theorem driven_cons {task : Task W C} {rest : List (Task W C)}
    (htasks : workshop.tasks = task :: rest) :
    workshop.driven = task.drives.toList ++ (workshop.withTasks rest).driven := by
  simp only [driven, withTasks, htasks]
  cases hdrives : task.drives with
  | none => simp [hdrives]
  | some link => simp [hdrives]

/-- What a request drives, and what everything else drives. -/
theorem driven_without {place : Nat} {asked : Request}
    (hplace : workshop.requests[place]? = some asked) :
    workshop.driven.Perm (asked.drives.toList ++ (workshop.without place).driven) := by
  obtain ⟨hlt, hget⟩ := List.getElem?_eq_some_iff.mp hplace
  have hperm : workshop.requests.Perm (asked :: workshop.requests.eraseIdx place) :=
    hget ▸ (List.getElem_cons_eraseIdx_perm hlt).symm
  have hrequests := hperm.filterMap Request.drives
  have hcons : (asked :: workshop.requests.eraseIdx place).filterMap Request.drives =
      asked.drives.toList ++ (workshop.requests.eraseIdx place).filterMap Request.drives := by
    cases hdrives : asked.drives with
    | none => simp [hdrives]
    | some link => simp [hdrives]
  rw [hcons] at hrequests
  refine (hrequests.append_left _).trans ?_
  rw [← List.append_assoc, without, driven, ← List.append_assoc]
  exact List.perm_append_comm.append_right _

/-- The links are done in turn, and the first that is not done is the only one driven. -/
structure InTurn (workshop : Workshop W C) (done : Nat) : Prop where
  chained : workshop.grammars.Chained done
  driven : workshop.driven = if done < workshop.grammars.links.length then [done] else []

/-- A workshop in which nothing has happened has no links. -/
theorem InTurn.fresh (toolkit : Toolkit) : InTurn ({ toolkit } : Workshop W C) 0 :=
  ⟨⟨Nat.le_refl 0, by simp, by simp⟩, rfl⟩

namespace InTurn

variable {done : Nat}

/-- Only the chain and what drives it matter. -/
theorem of_eq {after : Workshop W C} (h : workshop.InTurn done)
    (hlinks : after.grammars.links = workshop.grammars.links)
    (hdriven : after.driven = workshop.driven) : after.InTurn done := by
  refine ⟨h.chained.of_links hlinks, ?_⟩
  rw [hdriven, hlinks, h.driven]

/-- Whatever drives a link drives the first that is not done, and nothing else drives. -/
theorem of_perm (h : workshop.InTurn done) {link : Nat} {rest : List Nat}
    (hperm : workshop.driven.Perm (link :: rest)) :
    link = done ∧ done < workshop.grammars.links.length ∧ rest = [] := by
  rw [h.driven] at hperm
  split at hperm
  · obtain ⟨rfl, rfl⟩ := List.cons.inj (List.perm_singleton.mp hperm.symm)
    exact ⟨rfl, ‹_›, rfl⟩
  · exact absurd hperm.symm.eq_nil (List.cons_ne_nil _ _)

/-- A task that drives a link drives the first that is not done, and nothing else drives. -/
theorem of_task (h : workshop.InTurn done) {task : Task W C} {rest : List (Task W C)}
    (htasks : workshop.tasks = task :: rest) {link : Nat} (hdrives : task.drives = some link) :
    link = done ∧ done < workshop.grammars.links.length ∧
      (workshop.withTasks rest).driven = [] := by
  have hcons := driven_cons htasks
  rw [hdrives] at hcons
  exact h.of_perm (.of_eq hcons)

/-- Taking a task that drives no link leaves the chain in turn. -/
theorem take (h : workshop.InTurn done) {task : Task W C} {rest : List (Task W C)}
    (htasks : workshop.tasks = task :: rest) (hdrives : task.drives = none) :
    (workshop.withTasks rest).InTurn done := by
  have hcons := driven_cons htasks
  rw [hdrives] at hcons
  exact h.of_eq rfl hcons.symm

/-- A request that drives a link drives the first that is not done, and nothing else drives. -/
theorem of_request (h : workshop.InTurn done) {place : Nat} {asked : Request}
    (hplace : workshop.requests[place]? = some asked) {link : Nat}
    (hdrives : asked.drives = some link) :
    link = done ∧ done < workshop.grammars.links.length ∧ (workshop.without place).driven = [] := by
  have hperm := driven_without hplace
  rw [hdrives] at hperm
  exact h.of_perm hperm

/-- Taking up a request for a start leaves the chain in turn. -/
theorem takeStartup (h : workshop.InTurn done) {place number : Nat}
    (hplace : workshop.requests[place]? = some (.startup number)) :
    (workshop.without place).InTurn done := by
  refine h.of_eq rfl ?_
  have hperm : workshop.driven.Perm (workshop.without place).driven := driven_without hplace
  rw [h.driven] at hperm ⊢
  split at hperm
  · rw [if_pos ‹_›]
    exact List.perm_singleton.mp hperm.symm
  · rw [if_neg ‹_›]
    exact hperm.symm.eq_nil

/-- A link is handed on: where nothing else drives, new tasks drive it. -/
theorem hand {grammars : Grammars W} (h : grammars.Chained done)
    (hlt : done < grammars.links.length) (hidle : workshop.driven = []) (tasks : List (Task W C))
    (hdrives : tasks.filterMap Task.drives = [done]) :
    ((workshop.withGrammars grammars).enqueue tasks).InTurn done := by
  have hnone : (workshop.withGrammars grammars).driven = [] := hidle
  refine ⟨h, ?_⟩
  rw [driven_enqueue hnone, hdrives]
  exact (if_pos hlt).symm

/-- New tasks that drive nothing leave the chain in turn. -/
theorem enqueue (h : workshop.InTurn done) {tasks : List (Task W C)}
    (hnone : ∀ task ∈ tasks, task.drives = none) : (workshop.enqueue tasks).InTurn done :=
  h.of_eq rfl (driven_enqueue_of_none hnone)

theorem push (h : workshop.InTurn done) {task : Task W C} (hdrives : task.drives = none) :
    (workshop.enqueue [task]).InTurn done :=
  h.enqueue fun other hmem => by rw [List.mem_singleton.mp hmem, hdrives]

/-- Those who waited for a start go on, which drives nothing. -/
theorem endStartup (h : workshop.InTurn done) (number : Nat) (startup : Startup W)
    (waiting : List (Lookup W)) {next : Lookup W → Job W}
    (hnext : ∀ lookup, (next lookup).drives = none) :
    ((workshop.withGrammars (workshop.grammars.setStartup number startup)).enqueue
      (waiting.map fun lookup => .job (next lookup))).InTurn done := by
  have hset : (workshop.withGrammars (workshop.grammars.setStartup number startup)).InTurn done :=
    h.of_eq rfl rfl
  refine hset.enqueue fun task hmem => ?_
  obtain ⟨lookup, _, rfl⟩ := List.mem_map.mp hmem
  exact hnext lookup

theorem mark (h : workshop.InTurn done) (key : Text) :
    (workshop.withGrammars (workshop.grammars.markUnavailable key)).InTurn done :=
  h.of_eq (Grammars.links_markUnavailable _ _) rfl

/-- A lookup joins a chain that is done, and new tasks drive its link. -/
theorem join (h : workshop.InTurn done)
    (hdone : ∀ before, workshop.grammars.links.getLast? = some before → before.answer.isSome)
    (lookup : Lookup W) (tasks : List (Task W C))
    (hdrives : tasks.filterMap Task.drives = [workshop.grammars.links.length]) :
    ((workshop.withGrammars (workshop.grammars.extend lookup)).enqueue tasks).InTurn done := by
  obtain rfl := h.chained.eq_length hdone
  have hidle := h.driven
  rw [if_neg (Nat.lt_irrefl _)] at hidle
  have hlt : workshop.grammars.links.length <
      (workshop.grammars.extend lookup).links.length :=
    Grammars.length_extend _ lookup ▸ Nat.lt_succ_self _
  exact hand (h.chained.extend lookup) hlt hidle tasks hdrives

/-- What follows a link drives the links it starts. -/
theorem drives_followers (answer : Answer) (followers : List (Follower W)) :
    (followers.map fun follower => (.job (followerJob answer follower) : Task W C)).filterMap
      Task.drives = followers.filterMap Follower.starts := by
  rw [List.filterMap_map]
  refine List.filterMap_congr fun follower _ => ?_
  cases follower with
  | answer waiter => rfl
  | start link => cases answer <;> rfl

/-- A link is done: where nothing else drives, whatever starts after it is driven next. -/
theorem settle {grammars : Grammars W} (h : grammars.Chained done)
    (hlt : done < grammars.links.length) (hidle : workshop.driven = []) {found : Link W}
    (hlink : grammars.links[done]? = some found) (answer : Answer) :
    ((workshop.withGrammars (grammars.close done answer)).enqueue
      (found.followers.map fun follower => .job (followerJob answer follower))).InTurn
        (done + 1) := by
  have hnone : (workshop.withGrammars (grammars.close done answer)).driven = [] := hidle
  refine ⟨h.close hlt answer, ?_⟩
  rw [driven_enqueue hnone, drives_followers]
  refine (h.starts done found hlink).trans ?_
  simp only [Workshop.enqueue, withGrammars, Grammars.close, Grammars.length_editLink,
    Nat.le_refl, true_and]

/-- A step about a link that is not there drives nothing. -/
theorem drives_astray (h : workshop.InTurn done) {job : Job W} {rest : List (Task W C)}
    (htasks : workshop.tasks = .job job :: rest) {link : Nat} (hjob : job.link? = some link)
    (hlink : workshop.grammars.links[link]? = none) : job.drives = none := by
  have hbeyond : workshop.grammars.links.length ≤ link := List.getElem?_eq_none_iff.mp hlink
  cases hdrives : job.drives with
  | none => rfl
  | some driven =>
    have hsame : driven = link := by
      cases job <;> cases hjob <;> cases hdrives <;> rfl
    obtain ⟨rfl, hlt, _⟩ := h.of_task htasks hdrives
    omega

/-- Taking a step of loading leaves the chain in turn, perhaps with one more link done. -/
theorem perform (h : workshop.InTurn done) {job : Job W} {rest : List (Task W C)}
    (htasks : workshop.tasks = .job job :: rest) {outcome : Outcome (Workshop W C) Unit}
    (htook : Took (workshop.withTasks rest) job outcome) :
    ∃ later, done ≤ later ∧ outcome.state.InTurn later := by
  have hstay {after : Workshop W C} (hafter : after.InTurn done) :
      ∃ later, done ≤ later ∧ after.InTurn later := ⟨done, Nat.le_refl _, hafter⟩
  have hmark {key : Text} (hlt : done < workshop.grammars.links.length)
      (hidle : (workshop.withTasks rest).driven = []) (tasks : List (Task W C))
      (hdrives : tasks.filterMap Task.drives = [done]) :
      (((workshop.withTasks rest).withGrammars
        (workshop.grammars.markUnavailable key)).enqueue tasks).InTurn done := by
    have hlinks := Grammars.links_markUnavailable workshop.grammars key
    exact hand (h.chained.of_links hlinks) (hlinks ▸ hlt) hidle tasks hdrives
  cases htook with
  | @ready number waiting hstartup =>
    have hlaunched : (workshop.withTasks rest).launch.InTurn done :=
      (h.take htasks rfl).of_eq rfl rfl
    exact hstay (hlaunched.endStartup number .ready waiting fun _ => rfl)
  | spare hstartup => exact hstay ((h.take htasks rfl).of_eq rfl rfl)
  | @failed number fault waiting hstartup =>
    exact hstay ((h.take htasks rfl).endStartup number (.failed fault) waiting fun _ => rfl)
  | failedUnheard hstartup => exact hstay (h.take htasks rfl)
  | @entered lookup hbefore =>
    refine hstay ((h.take htasks rfl).join (fun before hlast => ?_) lookup _ rfl)
    obtain ⟨found, hfound⟩ := hbefore before hlast
    simp [hfound]
  | @queued lookup before hlast hopen =>
    have hturn := h.take htasks rfl
    have hlt := hturn.chained.lt_length hlast hopen
    refine hstay (InTurn.push ⟨hturn.chained.queue hlt lookup, ?_⟩ rfl)
    refine hturn.driven.trans ?_
    rw [if_pos hlt, if_pos]
    simp only [withGrammars, Grammars.follow, Grammars.length_editLink, Grammars.length_extend]
    exact Nat.lt_succ_of_lt hlt
  | @spoiled lookup before fault hlast hfault =>
    refine hstay ((h.take htasks rfl).join (fun other hother => ?_) lookup _ rfl)
    obtain rfl := Option.some.inj (hlast.symm.trans hother)
    simp [hfault]
  | astray hjob hlink => exact hstay (h.take htasks (h.drives_astray htasks hjob hlink))
  | told hlink hanswer => exact hstay ((h.take htasks rfl).push rfl)
  | @following link waiter found hlink hopen =>
    have hturn := h.take htasks rfl
    refine hstay ⟨hturn.chained.follow link waiter, hturn.driven.trans ?_⟩
    simp only [withGrammars, Grammars.follow, Grammars.length_editLink]
  | known hlink hknown =>
    obtain ⟨rfl, hlt, hidle⟩ := h.of_task htasks rfl
    exact hstay (hand h.chained hlt hidle _ rfl)
  | nameless hlink hnew hgrammar =>
    obtain ⟨rfl, hlt, hidle⟩ := h.of_task htasks rfl
    exact hstay (hand h.chained hlt hidle _ rfl)
  | missing hlink hnew hgrammar hfile =>
    obtain ⟨rfl, hlt, hidle⟩ := h.of_task htasks rfl
    exact hstay (hmark hlt hidle _ rfl)
  | loading hlink hnew hgrammar hfile =>
    obtain ⟨rfl, hlt, hidle⟩ := h.of_task htasks rfl
    refine hstay ⟨h.chained, ?_⟩
    rw [driven_ask hidle]
    exact (if_pos hlt).symm
  | @loaded link found language hlink =>
    obtain ⟨rfl, hlt, hidle⟩ := h.of_task htasks rfl
    have hchained : (workshop.grammars.learn found.key language).Chained link :=
      h.chained.of_links rfl
    exact hstay (hand hchained hlt hidle _ rfl)
  | refused hlink =>
    obtain ⟨rfl, hlt, hidle⟩ := h.of_task htasks rfl
    exact hstay (hmark hlt hidle _ rfl)
  | adopted =>
    obtain ⟨rfl, hlt, hidle⟩ := h.of_task htasks rfl
    exact hstay (hand h.chained hlt hidle _ rfl)
  | settled hlink =>
    obtain ⟨rfl, hlt, hidle⟩ := h.of_task htasks rfl
    exact ⟨_, Nat.le_succ _, settle h.chained hlt hidle hlink _⟩
  | relayed => exact hstay ((h.take htasks rfl).push rfl)

/-- Looking up a language drives no link. -/
theorem lookup (h : workshop.InTurn done) {resolve : Text → Option GrammarName} {key : Text}
    {waiter : W} {outcome : Outcome (Workshop W C) Unit}
    (hsought : Sought resolve key waiter workshop outcome) : outcome.state.InTurn done := by
  cases hsought with
  | known hknown => exact h.push rfl
  | unavailable hnew hkey => exact h.push rfl
  | unnamed hnew hname => exact (h.mark key).push rfl
  | starting hnew hname hcurrent => exact h.of_eq rfl (driven_ask_startup _)
  | waiting hnew hname hcurrent hstartup => exact h.of_eq rfl rfl
  | entering hnew hname hcurrent hstartup => exact h.push rfl
  | hopeless hnew hname hcurrent hstartup => exact h.push rfl
  | lost hnew hname hcurrent hstartup => exact h

/-- Finishing a request drives the link that the request drove. -/
theorem complete (h : workshop.InTurn done) {place : Nat} {asked : Request}
    (hplace : workshop.requests[place]? = some asked) {outcome : Outcome (Workshop W C) Unit}
    (hcompleted : Completed (workshop.without place) asked outcome) :
    outcome.state.InTurn done := by
  cases hcompleted with
  | started hstart => exact (h.takeStartup hplace).push rfl
  | unstarted hstart => exact (h.takeStartup hplace).push rfl
  | refused herror =>
    obtain ⟨rfl, hlt, hidle⟩ := h.of_request hplace rfl
    exact hand h.chained hlt hidle _ rfl
  | loaded herror =>
    obtain ⟨rfl, hlt, hidle⟩ := h.of_request hplace rfl
    have hnone : (workshop.without place).addLanguage.driven = [] := hidle
    exact hand h.chained hlt hnone _ rfl

end InTurn

end Workshop

end ClosingLabels
