import ClosingLabels.Proofs.Answers

/-!
# Milestones of the chain

A lookup joins the chain, its link starts, a grammar file is asked for, and the load ends. The
chain itself keeps no record of this, but every step of loading, every lookup and every
request that is finished tells which of it happened: by the task that is taken, and by the
requests and tasks that are added. Each of them is gone through once.
-/

namespace ClosingLabels

/-! ## Milestones -/

/-- Something that happens in the chain of loads. -/
inductive Milestone (W : Type) where
  /-- A lookup joins the chain. -/
  | joined (lookup : Lookup W)
  /-- It is the turn of a link. -/
  | started (link : Nat)
  /-- The toolkit is asked to load the grammar file of a link, for a language. -/
  | loading (link : Nat) (key : Text)
  /-- The toolkit has loaded it. -/
  | loaded (link : Nat) (key : Text)
  /-- The toolkit could not load it. -/
  | refused (link : Nat) (key : Text)

namespace Milestone

variable {W : Type}

/-- The lookup that joined the chain. -/
def joined? : Milestone W → Option (Lookup W)
  | .joined lookup => some lookup
  | _ => none

/-- The link whose turn it was. -/
def started? : Milestone W → Option Nat
  | .started link => some link
  | _ => none

/-- The link whose file was to be loaded. -/
def loading? : Milestone W → Option Nat
  | .loading link _ => some link
  | _ => none

/-- The link and the language of a load, whether it begins or ends. -/
def load? : Milestone W → Option (Nat × Text)
  | .loading link key => some (link, key)
  | .loaded link key => some (link, key)
  | .refused link key => some (link, key)
  | _ => none

/-- A later milestone does not begin a load of a language that was loaded at an earlier one. -/
def Once (earlier later : Milestone W) : Prop :=
  ∀ link other key, earlier = .loaded link key → later ≠ .loading other key

end Milestone

/-- The milestones of a step of loading that are known before it is taken. -/
def Job.milestones {W : Type} : Job W → List (Milestone W)
  | .enter lookup => [.joined lookup]
  | .start link => [.started link]
  | _ => []

namespace Workshop

variable {W C : Type}

/-- The language that a link of the chain is for. -/
def keyAt (workshop : Workshop W C) (link : Nat) : Text :=
  ((workshop.grammars.links[link]?).map Link.key).getD []

/-- The end of a load that a task tells of. -/
def ending? (workshop : Workshop W C) : Task W C → Option (Milestone W)
  | .job (.finish link (.ok _)) => some (.loaded link (workshop.keyAt link))
  | .job (.finish link (.error _)) => some (.refused link (workshop.keyAt link))
  | _ => none

/-- The milestones between two workshops, the second with more requests and more tasks: a load
begins with its request and ends with the task that tells so. -/
def milestones (before after : Workshop W C) : List (Milestone W) :=
  ((after.requests.drop before.requests.length).filterMap Request.drives).map
      (fun link => .loading link (after.keyAt link)) ++
    (after.tasks.drop before.tasks.length).filterMap after.ending?

end Workshop

/-! ## What a link loads -/

/-- The language that a link is for, and the name of its grammar. -/
def Link.load {W : Type} (link : Link W) : Text × GrammarName := (link.key, link.grammar)

/-- The language that is looked up, and the name of its grammar. -/
def Lookup.load {W : Type} (lookup : Lookup W) : Text × GrammarName :=
  (lookup.key, lookup.grammar)

namespace Grammars

variable {W : Type}

/-- What the links load, in the order of the chain. -/
def toLoad (grammars : Grammars W) : List (Text × GrammarName) := grammars.links.map Link.load

@[simp] theorem toLoad_extend (grammars : Grammars W) (lookup : Lookup W) :
    (grammars.extend lookup).toLoad = grammars.toLoad ++ [lookup.load] := by
  simp [toLoad, extend, Link.load, Lookup.load]

/-- It stays when answers or followers of a link change. -/
theorem toLoad_editLink (grammars : Grammars W) (number : Nat) {f : Link W → Link W}
    (hf : ∀ link, (f link).load = link.load) :
    (grammars.editLink number f).toLoad = grammars.toLoad := by
  refine List.ext_getElem? fun i => ?_
  rw [toLoad, toLoad, editLink, List.getElem?_map, List.getElem?_map, List.getElem?_modify]
  cases grammars.links[i]? with
  | none => rfl
  | some link =>
    change some (if number = i then f link else link).load = some link.load
    split
    · rw [hf]
    · rfl

@[simp] theorem toLoad_follow (grammars : Grammars W) (number : Nat) (follower : Follower W) :
    (grammars.follow number follower).toLoad = grammars.toLoad :=
  toLoad_editLink grammars number fun _ => rfl

@[simp] theorem toLoad_close (grammars : Grammars W) (number : Nat) (answer : Answer) :
    (grammars.close number answer).toLoad = grammars.toLoad :=
  toLoad_editLink grammars number fun _ => rfl

@[simp] theorem toLoad_markUnavailable (grammars : Grammars W) (key : Text) :
    (grammars.markUnavailable key).toLoad = grammars.toLoad := by
  rw [toLoad, links_markUnavailable, toLoad]

end Grammars

namespace Workshop

variable {W C : Type} {before : Workshop W C} {job : Job W}
  {outcome : Outcome (Workshop W C) Unit}

/-! ## One step of loading -/

/-- A lookup that enters is at the end of the chain; otherwise the links load what they did. -/
theorem Took.toLoad (h : Took before job outcome) :
    outcome.state.grammars.toLoad = before.grammars.toLoad ++
      (job.milestones.filterMap Milestone.joined?).map Lookup.load := by
  cases h with
  | entered hbefore => exact Grammars.toLoad_extend _ _
  | queued hlast hopen => exact (Grammars.toLoad_follow _ _ _).trans (Grammars.toLoad_extend _ _)
  | spoiled hlast hfault => exact Grammars.toLoad_extend _ _
  | astray hjob hlink =>
    cases job <;> cases hjob <;> simp [Job.milestones, Milestone.joined?]
  | missing hlink hnew hgrammar hfile =>
    simp [enqueue, withGrammars, Job.milestones, Milestone.joined?]
  | refused hlink => simp [enqueue, withGrammars, Job.milestones]
  | settled hlink => simp [enqueue, withGrammars, Job.milestones]
  | following hlink hopen => simp [withGrammars, Job.milestones]
  | _ =>
    simp [Grammars.toLoad, enqueue, withGrammars, launch, ask, Grammars.setStartup, Grammars.learn,
      Job.milestones, Milestone.joined?]

/-- A link is made to start when it joins a chain that is done, or when a link before it is. -/
theorem Took.mem_start (h : Took before job outcome) {link : Nat}
    (hmem : .job (.start link) ∈ outcome.state.tasks) :
    .job (.start link) ∈ before.tasks ∨ link = before.grammars.links.length ∨
      ∃ number answer found, job = .settle number answer ∧
        before.grammars.links[number]? = some found ∧ link ∈ found.starts := by
  cases h with
  | @settled number answer found hlink =>
    rcases List.mem_append.mp hmem with hold | hnew
    · exact .inl hold
    · obtain ⟨follower, hfollower, hstart⟩ := List.mem_map.mp hnew
      refine .inr (.inr ⟨number, answer, found, rfl, hlink, ?_⟩)
      refine List.mem_filterMap.mpr ⟨follower, hfollower, ?_⟩
      cases follower with
      | answer waiter => cases hstart
      | start other => cases answer <;> cases hstart; rfl
  | entered hbefore =>
    simp only [enqueue, withGrammars, List.mem_append, List.mem_cons, Task.job.injEq,
      Job.start.injEq, reduceCtorEq, List.not_mem_nil, or_false] at hmem
    rcases hmem with hold | hnew
    · exact .inl hold
    · exact .inr (.inl hnew)
  | _ =>
    left
    simpa [enqueue, withGrammars, launch, ask] using hmem

/-- No task is lost by taking a step of loading. -/
theorem Took.tasks_prefix (h : Took before job outcome) : before.tasks <+: outcome.state.tasks := by
  cases h with
  | spare hstartup => exact List.prefix_refl _
  | failedUnheard hstartup => exact List.prefix_refl _
  | astray hjob hlink => exact List.prefix_refl _
  | following hlink hopen => exact List.prefix_refl _
  | loading hlink hnew hgrammar hfile => exact List.prefix_refl _
  | _ => exact List.prefix_append _ _

/-- Between two workshops that differ by some requests and tasks lie these milestones. -/
theorem milestones_eq {before after : Workshop W C} {asked : List Request}
    {tasks : List (Task W C)} (hrequests : after.requests = before.requests ++ asked)
    (htasks : after.tasks = before.tasks ++ tasks) :
    before.milestones after =
      (asked.filterMap Request.drives).map (fun link => .loading link (after.keyAt link)) ++
        tasks.filterMap after.ending? := by
  rw [milestones, hrequests, htasks, List.drop_left, List.drop_left]

/-- Tasks that end no load are no milestones. -/
theorem milestones_of_tasks {before after : Workshop W C} {tasks : List (Task W C)}
    (hrequests : after.requests = before.requests) (htasks : after.tasks = before.tasks ++ tasks)
    (hnone : ∀ task ∈ tasks, after.ending? task = none) : before.milestones after = [] := by
  have hasked : after.requests = before.requests ++ [] := by rw [hrequests, List.append_nil]
  rw [milestones_eq hasked htasks, List.filterMap_eq_nil_iff.mpr hnone]
  rfl

/-- Where neither a request nor a task is added, there is no milestone. -/
theorem milestones_of_eq {before after : Workshop W C}
    (hrequests : after.requests = before.requests) (htasks : after.tasks = before.tasks) :
    before.milestones after = [] :=
  milestones_of_tasks hrequests (htasks.trans (List.append_nil _).symm) (by simp)

/-- Only a link whose turn it is makes a milestone: its load begins, and its language is not
known. -/
theorem Took.milestones (h : Took before job outcome) :
    before.milestones outcome.state = [] ∨
      ∃ link found, job = .start link ∧ before.grammars.links[link]? = some found ∧
        before.grammars.languages.get? found.key = none ∧
        before.milestones outcome.state = [.loading link found.key] := by
  cases h with
  | @loading link found name spec hlink hnew hgrammar hfile =>
    refine .inr ⟨link, found, rfl, hlink, hnew, ?_⟩
    have hkey : (before.ask (.load link (Path.below name) spec)).keyAt link = found.key := by
      simp [keyAt, ask, hlink]
    have hmilestones : before.milestones (before.ask (.load link (Path.below name) spec)) = _ :=
      milestones_eq rfl (List.append_nil _).symm
    rw [hmilestones, ← hkey]
    rfl
  | spare hstartup => exact .inl (milestones_of_eq rfl rfl)
  | failedUnheard hstartup => exact .inl (milestones_of_eq rfl rfl)
  | astray hjob hlink => exact .inl (milestones_of_eq rfl rfl)
  | following hlink hopen => exact .inl (milestones_of_eq rfl rfl)
  | @settled link answer found hlink =>
    refine .inl (milestones_of_tasks rfl rfl fun task htask => ?_)
    obtain ⟨follower, -, rfl⟩ := List.mem_map.mp htask
    cases follower with
    | answer waiter => rfl
    | start next => cases answer <;> rfl
  | _ => exact .inl (milestones_of_tasks rfl rfl (by simp [ending?]))

/-- No language that is known is lost by a step of loading. -/
theorem Took.languages (h : Took before job outcome) {key : Text}
    (hknown : (before.grammars.languages.get? key).isSome) :
    (outcome.state.grammars.languages.get? key).isSome := by
  cases h with
  | missing hlink hnew hgrammar hfile => simpa [enqueue, withGrammars] using hknown
  | refused hlink => simpa [enqueue, withGrammars] using hknown
  | @loaded link found language hlink =>
    change ((before.grammars.languages.insert found.key language).get? key).isSome
    by_cases hsame : key = found.key
    · rw [hsame, Table.get?_insert_self]
      rfl
    · rwa [Table.get?_insert_of_ne _ _ hsame]
  | _ => exact hknown

/-- A language is known as soon as note is taken of its load. -/
theorem Took.learns {link : Nat} {language : Language}
    (h : Took before (.finish link (.ok language)) outcome) {found : Link W}
    (hlink : before.grammars.links[link]? = some found) :
    (outcome.state.grammars.languages.get? found.key).isSome := by
  cases h with
  | @astray _ _ hjob hnone =>
    cases hjob
    cases hnone.symm.trans hlink
  | @loaded _ other _ hother =>
    obtain rfl := Option.some.inj (hother.symm.trans hlink)
    change ((before.grammars.languages.insert other.key language).get? other.key).isSome
    rw [Table.get?_insert_self]
    rfl

/-! ## Other steps -/

/-- Nothing happens in the chain between two workshops. -/
structure Still (before after : Workshop W C) : Prop where
  toLoad : after.grammars.toLoad = before.grammars.toLoad
  starts : ∀ link, .job (.start link) ∈ after.tasks → .job (.start link) ∈ before.tasks
  milestones : before.milestones after = []

/-- Tasks that drive no link make no difference to the chain. -/
theorem Still.of_tasks {before after : Workshop W C} {tasks : List (Task W C)}
    (htoLoad : after.grammars.toLoad = before.grammars.toLoad)
    (hrequests : after.requests = before.requests) (htasks : after.tasks = before.tasks ++ tasks)
    (hnone : ∀ task ∈ tasks, task.drives = none) : Still before after := by
  refine ⟨htoLoad, fun link hmem => ?_, milestones_of_tasks hrequests htasks fun task hmem => ?_⟩
  · rw [htasks] at hmem
    rcases List.mem_append.mp hmem with hold | hnew
    · exact hold
    · cases hnone _ hnew
  · have hdrives := hnone task hmem
    cases task with
    | deliver waiter answer => rfl
    | client work => rfl
    | job job =>
      cases job <;> first | rfl | cases hdrives

/-- Neither do changes that leave the links, the tasks and the requests alone. -/
theorem Still.of_eq {before after : Workshop W C}
    (htoLoad : after.grammars.toLoad = before.grammars.toLoad)
    (hrequests : after.requests = before.requests) (htasks : after.tasks = before.tasks) :
    Still before after :=
  .of_tasks htoLoad hrequests (htasks.trans (List.append_nil _).symm) (by simp)

/-- Looking up a language does not touch the chain. -/
theorem Sought.still {resolve : Text → Option GrammarName} {key : Text} {waiter : W}
    (h : Sought resolve key waiter before outcome) :
    Still before outcome.state ∧
      outcome.state.grammars.languages = before.grammars.languages ∧
      before.tasks <+: outcome.state.tasks := by
  cases h with
  | known hknown =>
    exact ⟨.of_tasks rfl rfl rfl (by simp [Task.drives]), rfl, List.prefix_append _ _⟩
  | unavailable hnew hkey =>
    exact ⟨.of_tasks rfl rfl rfl (by simp [Task.drives]), rfl, List.prefix_append _ _⟩
  | unnamed hnew hname =>
    exact ⟨.of_tasks (Grammars.toLoad_markUnavailable _ _) rfl rfl (by simp [Task.drives]),
      Grammars.languages_markUnavailable _ _, List.prefix_append _ _⟩
  | starting hnew hname hcurrent =>
    refine ⟨⟨rfl, fun _ hmem => hmem, ?_⟩, rfl, List.prefix_refl _⟩
    exact Eq.trans (milestones_eq rfl (List.append_nil _).symm) rfl
  | waiting hnew hname hcurrent hstartup => exact ⟨.of_eq rfl rfl rfl, rfl, List.prefix_refl _⟩
  | entering hnew hname hcurrent hstartup =>
    exact ⟨.of_tasks rfl rfl rfl (by simp [Task.drives, Job.drives]), rfl, List.prefix_append _ _⟩
  | hopeless hnew hname hcurrent hstartup =>
    exact ⟨.of_tasks rfl rfl rfl (by simp [Task.drives, Job.drives]), rfl, List.prefix_append _ _⟩
  | lost hnew hname hcurrent hstartup => exact ⟨.of_eq rfl rfl rfl, rfl, List.prefix_refl _⟩

/-- A request that is finished does not touch the chain, or it ends a load, and a task will take
note of that. -/
theorem Completed.still_or_ends {asked : Request} (h : Completed before asked outcome) :
    outcome.state.grammars = before.grammars ∧ before.tasks <+: outcome.state.tasks ∧
      (∀ link, .job (.start link) ∈ outcome.state.tasks → .job (.start link) ∈ before.tasks) ∧
      (before.milestones outcome.state = [] ∨
        ∃ link, asked.drives = some link ∧
          ((∃ language, .job (.finish link (.ok language)) ∈ outcome.state.tasks ∧
              before.milestones outcome.state = [.loaded link (before.keyAt link)]) ∨
            before.milestones outcome.state = [.refused link (before.keyAt link)])) := by
  have hstarts {job : Job W} (hjob : ∀ link, job ≠ .start link) (workshop : Workshop W C)
      (link : Nat) (hmem : .job (.start link) ∈ (workshop.enqueue [.job job]).tasks) :
      .job (.start link) ∈ workshop.tasks := by
    rcases List.mem_append.mp hmem with hold | hnew
    · exact hold
    · exact absurd (Task.job.inj (List.mem_singleton.mp hnew)).symm (hjob link)
  cases h with
  | started hstart =>
    exact ⟨rfl, List.prefix_append _ _, hstarts (by simp) _,
      .inl (milestones_of_tasks rfl rfl (by simp [ending?]))⟩
  | unstarted hstart =>
    exact ⟨rfl, List.prefix_append _ _, hstarts (by simp) _,
      .inl (milestones_of_tasks rfl rfl (by simp [ending?]))⟩
  | @refused link file message found herror =>
    refine ⟨rfl, List.prefix_append _ _, hstarts (by simp) _, .inr ⟨link, rfl, .inr ?_⟩⟩
    exact Eq.trans (milestones_eq (List.append_nil _).symm rfl) rfl
  | @loaded link file found herror =>
    refine ⟨rfl, List.prefix_append _ _, hstarts (by simp) _, .inr ⟨link, rfl, .inl ⟨_,
      List.mem_append_right _ (List.mem_singleton_self _), ?_⟩⟩⟩
    exact Eq.trans (milestones_eq (List.append_nil _).symm rfl) rfl

end Workshop

end ClosingLabels
