import ClosingLabels.Proofs.Loading
import ClosingLabels.Proofs.Milestones

/-!
# Loads in the order of the chain

Languages are looked up and forgotten, the workshop is taken down, tasks are taken and requests
are finished, in any order and with any outcome. Through all this at most one grammar file is
being loaded, the loads start in the order in which lookups joined the chain, and a language
that was loaded is not loaded again before it is forgotten.
-/

namespace ClosingLabels

/-! ## Runs -/

/-- A workshop together with the milestones of its chain so far. -/
structure LoaderRun (W C : Type) where
  workshop : Workshop W C
  past : List (Milestone W) := []

/-- Something that happens to a workshop. -/
inductive LoaderStep (W : Type) where
  /-- A language is looked up that goes by some name of a grammar, or by none. -/
  | lookup (key : Text) (grammar : Option GrammarName) (waiter : W)
  /-- All languages are forgotten. -/
  | forget
  /-- The workshop is taken down. -/
  | dispose
  /-- Other grammar files are there from now on, and the toolkit can start or cannot. -/
  | supply (files : Table String GrammarSpec) (startError : Option String)
  /-- The oldest task is taken. -/
  | task
  /-- The toolkit finishes the request at some place. -/
  | complete (place : Nat)

namespace LoaderRun

variable {W C : Type}

/-- A run in which nothing has happened. -/
def fresh (toolkit : Toolkit) : LoaderRun W C := { workshop := { toolkit } }

/-- A run that has come to another workshop, with more milestones on the way. -/
def reach (run : LoaderRun W C) (workshop : Workshop W C) (more : List (Milestone W)) :
    LoaderRun W C :=
  ⟨workshop, run.past ++ more⟩

/-- A run that goes on from one workshop to another. The milestones between them come after those
that are known before. -/
def observe (run : LoaderRun W C) (known : List (Milestone W)) (before after : Workshop W C) :
    LoaderRun W C :=
  run.reach after (known ++ before.milestones after)

/-- What a step leads to. -/
def next (run : LoaderRun W C) : LoaderStep W → LoaderRun W C
  | .lookup key grammar waiter =>
    run.observe [] run.workshop (Workshop.lookup (fun _ => grammar) key waiter run.workshop).state
  | .forget => run.observe [] run.workshop (Workshop.forgetLanguages run.workshop).state
  | .dispose => run.observe [] run.workshop (Workshop.dispose run.workshop).state
  | .supply files startError =>
    run.observe [] run.workshop
      { run.workshop with toolkit := { run.workshop.toolkit with files, startError } }
  | .task =>
    match run.workshop.tasks with
    | [] => run
    | .job job :: rest =>
      let before := run.workshop.withTasks rest
      run.observe job.milestones before (Workshop.perform job before).state
    | _ :: rest => run.observe [] (run.workshop.withTasks rest) (run.workshop.withTasks rest)
  | .complete place =>
    match run.workshop.requests[place]? with
    | none => run
    | some asked =>
      let before := run.workshop.without place
      run.observe [] before (Workshop.complete asked before).state

/-- What steps lead to, one after another. -/
def after (run : LoaderRun W C) (steps : List (LoaderStep W)) : LoaderRun W C :=
  steps.foldl next run

/-- The lookups that joined the chain, in order. -/
def joined (run : LoaderRun W C) : List (Lookup W) := run.past.filterMap Milestone.joined?

/-- The links whose turn has come, in order. -/
def started (run : LoaderRun W C) : List Nat := run.past.filterMap Milestone.started?

/-- The links whose files were to be loaded, in order. -/
def loads (run : LoaderRun W C) : List Nat := run.past.filterMap Milestone.loading?

/-- The links whose files are being loaded. -/
def inFlight (run : LoaderRun W C) : List Nat := run.workshop.requests.filterMap Request.drives

end LoaderRun

/-! ## Runs in order -/

namespace LoaderRun

variable {W C : Type} {run : LoaderRun W C} {done later : Nat}

/-- A run is in order: its chain is in turn, links load what those who joined asked for, they start
one after another, each once, and loads are for the languages of their links. -/
structure InOrder (run : LoaderRun W C) (done : Nat) : Prop where
  turn : run.workshop.InTurn done
  toLoad : run.workshop.grammars.toLoad = run.joined.map Lookup.load
  loads : run.loads.Sublist run.started
  ordered : run.started.Pairwise (· < ·)
  bounds : ∀ link ∈ run.started, link ≤ done ∧ link < run.workshop.grammars.links.length
  gone : ∀ link ∈ run.started, .job (.start link) ∉ run.workshop.tasks
  keys : ∀ milestone ∈ run.past, ∀ load, milestone.load? = some load →
    ((run.joined[load.1]?).map Lookup.key) = some load.2

namespace InOrder

theorem fresh (toolkit : Toolkit) : (LoaderRun.fresh toolkit : LoaderRun W C).InOrder 0 :=
  ⟨.fresh toolkit, rfl, List.Sublist.refl _, List.Pairwise.nil, by simp [started, LoaderRun.fresh],
    by simp [started, LoaderRun.fresh], by simp [LoaderRun.fresh]⟩

/-- The language of a link is the one that was looked up by whoever joined there. -/
theorem key_joined {toLoad : Grammars W} {joined : List (Lookup W)}
    (h : toLoad.toLoad = joined.map Lookup.load) (link : Nat) :
    (toLoad.links[link]?).map Link.key = (joined[link]?).map Lookup.key := by
  have hload := congrArg (fun loads => (loads[link]?).map Prod.fst) h
  simp only [Grammars.toLoad, List.getElem?_map, Option.map_map] at hload
  exact hload

/-- The links of a run that goes on are those that there were, and maybe more. -/
theorem length_links_le {before after : Grammars W} {more : List (Text × GrammarName)}
    (h : after.toLoad = before.toLoad ++ more) : before.links.length ≤ after.links.length := by
  have hlengths := congrArg List.length h
  rw [List.length_append, Grammars.toLoad, Grammars.toLoad, List.length_map, List.length_map]
    at hlengths
  omega

/-- A run goes on in order if no link starts, and no load. -/
theorem beside (h : run.InOrder done) {workshop : Workshop W C} {more : List (Milestone W)}
    (hturn : workshop.InTurn later) (hle : done ≤ later)
    (hquiet : ∀ milestone ∈ more, milestone.started? = none ∧ milestone.loading? = none)
    (htoLoad : workshop.grammars.toLoad = run.workshop.grammars.toLoad ++
      (more.filterMap Milestone.joined?).map Lookup.load)
    (hgone : ∀ link ∈ run.started, .job (.start link) ∉ workshop.tasks)
    (hkeys : ∀ milestone ∈ more, ∀ load, milestone.load? = some load →
      ((workshop.grammars.links[load.1]?).map Link.key) = some load.2) :
    (run.reach workshop more).InOrder later := by
  have hjoined : (run.reach workshop more).joined =
      run.joined ++ more.filterMap Milestone.joined? := List.filterMap_append
  have hstarted : (run.reach workshop more).started = run.started := by
    refine List.filterMap_append.trans ?_
    rw [List.filterMap_eq_nil_iff.mpr fun milestone hmem => (hquiet milestone hmem).1]
    exact List.append_nil _
  have hloads : (run.reach workshop more).loads = run.loads := by
    refine List.filterMap_append.trans ?_
    rw [List.filterMap_eq_nil_iff.mpr fun milestone hmem => (hquiet milestone hmem).2]
    exact List.append_nil _
  have hnow : workshop.grammars.toLoad = (run.reach workshop more).joined.map Lookup.load := by
    rw [htoLoad, h.toLoad, hjoined, List.map_append]
  refine ⟨hturn, hnow, by rw [hloads, hstarted]; exact h.loads, hstarted ▸ h.ordered,
    fun link hlink => ?_, fun link hlink => hgone link (hstarted ▸ hlink),
    fun milestone hmilestone load hload => ?_⟩
  · obtain ⟨hdone, hlt⟩ := h.bounds link (hstarted ▸ hlink)
    exact ⟨Nat.le_trans hdone hle, Nat.lt_of_lt_of_le hlt (length_links_le htoLoad)⟩
  · rcases List.mem_append.mp hmilestone with hold | hnew
    · have hkey := h.keys milestone hold load hload
      obtain ⟨lookup, hlookup, -⟩ := Option.map_eq_some_iff.mp hkey
      obtain ⟨hlt, -⟩ := List.getElem?_eq_some_iff.mp hlookup
      rw [hjoined, List.getElem?_append_left hlt]
      exact hkey
    · rw [← key_joined hnow]
      exact hkeys milestone hnew load hload

/-- It goes on in order if a link starts behind all that have started, and maybe its load. -/
theorem begins (h : run.InOrder done) {workshop : Workshop W C} {link : Nat}
    {more : List (Milestone W)} (hturn : workshop.InTurn later) (hle : done ≤ later)
    (hmore : more = [] ∨ ∃ key, more = [.loading link key] ∧
      (run.workshop.grammars.links[link]?).map Link.key = some key)
    (htoLoad : workshop.grammars.toLoad = run.workshop.grammars.toLoad)
    (hbefore : ∀ earlier ∈ run.started, earlier < link)
    (hlink : link ≤ later ∧ link < run.workshop.grammars.links.length)
    (hgone : ∀ other, other ∈ run.started ∨ other = link → .job (.start other) ∉ workshop.tasks) :
    (run.reach workshop (.started link :: more)).InOrder later := by
  have hjoined : (run.reach workshop (.started link :: more)).joined = run.joined := by
    refine List.filterMap_append.trans ?_
    rcases hmore with rfl | ⟨key, rfl, -⟩ <;> exact List.append_nil _
  have hstarted : (run.reach workshop (.started link :: more)).started = run.started ++ [link] := by
    refine List.filterMap_append.trans ?_
    rcases hmore with rfl | ⟨key, rfl, -⟩ <;> rfl
  have hloads : ((.started link :: more).filterMap Milestone.loading?).Sublist [link] := by
    rcases hmore with rfl | ⟨key, rfl, -⟩
    · exact List.nil_sublist _
    · exact List.Sublist.refl _
  have hlength := length_links_le (htoLoad.trans (List.append_nil _).symm)
  refine ⟨hturn, by rw [hjoined]; exact htoLoad.trans h.toLoad, ?_, ?_, fun other hother => ?_,
    fun other hother => ?_, fun milestone hmilestone load hload => ?_⟩
  · rw [hstarted]
    exact (congrArg (List.Sublist · _) List.filterMap_append).mpr (h.loads.append hloads)
  · rw [hstarted]
    refine List.pairwise_append.mpr ⟨h.ordered, List.pairwise_singleton _ _,
      fun earlier hearlier other hother => ?_⟩
    exact List.mem_singleton.mp hother ▸ hbefore earlier hearlier
  · rw [hstarted] at hother
    rcases List.mem_append.mp hother with hold | hnew
    · obtain ⟨hdone, hlt⟩ := h.bounds other hold
      exact ⟨Nat.le_trans hdone hle, Nat.lt_of_lt_of_le hlt hlength⟩
    · obtain rfl := List.mem_singleton.mp hnew
      exact ⟨hlink.1, Nat.lt_of_lt_of_le hlink.2 hlength⟩
  · rw [hstarted] at hother
    exact hgone other ((List.mem_append.mp hother).imp_right List.mem_singleton.mp)
  · rw [hjoined]
    rcases List.mem_append.mp hmilestone with hold | hnew
    · exact h.keys milestone hold load hload
    · rcases List.mem_cons.mp hnew with rfl | hnew
      · cases hload
      · rcases hmore with rfl | ⟨key, rfl, hkey⟩
        · cases hnew
        · obtain rfl := List.mem_singleton.mp hnew
          obtain rfl := Option.some.inj hload
          rw [← key_joined h.toLoad]
          exact hkey

/-- A run goes on in order while nothing happens in its chain. -/
theorem still (h : run.InOrder done) {before after : Workshop W C} (hturn : after.InTurn done)
    (htoLoad : before.grammars.toLoad = run.workshop.grammars.toLoad)
    (hstarts : ∀ link, .job (.start link) ∈ before.tasks → .job (.start link) ∈ run.workshop.tasks)
    (hstill : Workshop.Still before after) : (run.observe [] before after).InOrder done := by
  rw [observe, hstill.milestones]
  refine h.beside hturn (Nat.le_refl _) (by simp) ?_ (fun link hlink hmem => ?_) (by simp)
  · rw [hstill.toLoad, htoLoad]
    exact (List.append_nil _).symm
  · exact h.gone link hlink (hstarts link (hstill.starts link hmem))

/-- A link that has started is not made to start again. -/
theorem not_restarted (h : run.InOrder done) {job : Job W} {rest : List (Task W C)}
    (htasks : run.workshop.tasks = .job job :: rest) {outcome : Outcome (Workshop W C) Unit}
    (htook : Workshop.Took (run.workshop.withTasks rest) job outcome) {link : Nat}
    (hlink : link ∈ run.started) : .job (.start link) ∉ outcome.state.tasks := by
  intro hmem
  obtain ⟨hdone, hlt⟩ := h.bounds link hlink
  rcases htook.mem_start hmem with hold | rfl | ⟨number, answer, found, rfl, hfound, hstarts⟩
  · exact h.gone link hlink (htasks ▸ List.mem_cons_of_mem _ hold)
  · exact Nat.lt_irrefl _ hlt
  · -- The link that is done now starts the next one, which is behind all that have started.
    obtain ⟨rfl, -, -⟩ := h.turn.of_task htasks rfl
    rw [h.turn.chained.starts number found hfound] at hstarts
    split at hstarts
    · have := List.mem_singleton.mp hstarts
      omega
    · cases hstarts

/-- The start of a link keeps a run in order: all that have started are before it. -/
theorem perform_start (h : run.InOrder done) {link : Nat} {rest : List (Task W C)}
    (htasks : run.workshop.tasks = .job (.start link) :: rest)
    {outcome : Outcome (Workshop W C) Unit}
    (htook : Workshop.Took (run.workshop.withTasks rest) (.start link) outcome) :
    ∃ later, (run.observe (Job.start link : Job W).milestones (run.workshop.withTasks rest)
      outcome.state).InOrder later := by
  obtain ⟨later, hle, hturn⟩ := h.turn.perform htasks htook
  obtain ⟨rfl, hlt, hidle⟩ := h.turn.of_task htasks rfl
  have hmore : (run.workshop.withTasks rest).milestones outcome.state = [] ∨
      ∃ key, (run.workshop.withTasks rest).milestones outcome.state = [.loading link key] ∧
        (run.workshop.grammars.links[link]?).map Link.key = some key := by
    rcases htook.milestones with hnone | ⟨_, found, hsame, hfound, -, hloading⟩
    · exact .inl hnone
    · obtain rfl := Job.start.inj hsame
      exact .inr ⟨found.key, hloading, congrArg (Option.map Link.key) hfound⟩
  refine ⟨later, h.begins hturn hle hmore (htook.toLoad.trans (List.append_nil _))
    (fun earlier hearlier => ?_) ⟨hle, hlt⟩ ?_⟩
  · refine Nat.lt_of_le_of_ne (h.bounds earlier hearlier).1 ?_
    rintro rfl
    exact h.gone earlier hearlier (htasks ▸ List.mem_cons_self)
  · rintro other (hold | rfl) hmem
    · exact h.not_restarted htasks htook hold hmem
    · rcases htook.mem_start hmem with hagain | hlength | ⟨_, _, _, hjob, -, -⟩
      · -- Nothing else drives a link, so no other task starts this one.
        have hdriven : other ∈ (run.workshop.withTasks rest).driven :=
          List.mem_append_left _ (List.mem_filterMap.mpr ⟨_, hagain, rfl⟩)
        rw [hidle] at hdriven
        cases hdriven
      · exact Nat.lt_irrefl _ (hlength ▸ hlt)
      · cases hjob

/-- Any other step of loading keeps a run in order too, and starts nothing. -/
theorem perform_other (h : run.InOrder done) {job : Job W} {rest : List (Task W C)}
    (htasks : run.workshop.tasks = .job job :: rest) {outcome : Outcome (Workshop W C) Unit}
    (htook : Workshop.Took (run.workshop.withTasks rest) job outcome)
    (hother : ∀ link, job ≠ .start link) :
    ∃ later, (run.observe job.milestones (run.workshop.withTasks rest)
      outcome.state).InOrder later := by
  obtain ⟨later, hle, hturn⟩ := h.turn.perform htasks htook
  have hmore : job.milestones ++ (run.workshop.withTasks rest).milestones outcome.state =
      job.milestones := by
    rcases htook.milestones with hnone | ⟨link, -, hjob, -⟩
    · rw [hnone, List.append_nil]
    · exact absurd hjob (hother link)
  have hjoins : ∀ milestone ∈ job.milestones, ∃ lookup, milestone = .joined lookup := by
    intro milestone hmem
    cases job with
    | enter lookup => exact ⟨lookup, List.mem_singleton.mp hmem⟩
    | start link => exact absurd rfl (hother link)
    | _ => cases hmem
  rw [observe, hmore]
  refine ⟨later, h.beside hturn hle (fun milestone hmem => ?_) htook.toLoad
    (fun link hlink => h.not_restarted htasks htook hlink) fun milestone hmem load hload => ?_⟩
  · obtain ⟨lookup, rfl⟩ := hjoins milestone hmem
    exact ⟨rfl, rfl⟩
  · obtain ⟨lookup, rfl⟩ := hjoins milestone hmem
    cases hload

/-- Finishing a request keeps a run in order. -/
theorem complete (h : run.InOrder done) {place : Nat} {asked : Request}
    (hplace : run.workshop.requests[place]? = some asked)
    {outcome : Outcome (Workshop W C) Unit}
    (hcompleted : Workshop.Completed (run.workshop.without place) asked outcome) :
    (run.observe [] (run.workshop.without place) outcome.state).InOrder done := by
  obtain ⟨hgrammars, -, hstarts, hends⟩ := hcompleted.still_or_ends
  have hturn := h.turn.complete hplace hcompleted
  have htoLoad : outcome.state.grammars.toLoad = run.workshop.grammars.toLoad :=
    congrArg Grammars.toLoad hgrammars
  rcases hends with hnone | ⟨link, hdrives, hends⟩
  · exact h.still hturn rfl (fun _ hmem => hmem) ⟨htoLoad, hstarts, hnone⟩
  · obtain ⟨rfl, hlt, -⟩ := h.turn.of_request hplace hdrives
    have hkey : (outcome.state.grammars.links[link]?).map Link.key =
        some ((run.workshop.without place).keyAt link) := by
      rw [hgrammars]
      simp only [Workshop.keyAt, Workshop.without, List.getElem?_eq_getElem hlt, Option.map_some,
        Option.getD_some]
    have hends : ∃ milestone : Milestone W, (run.workshop.without place).milestones outcome.state =
        [milestone] ∧ milestone.joined? = none ∧ milestone.started? = none ∧
        milestone.loading? = none ∧
        milestone.load? = some (link, (run.workshop.without place).keyAt link) := by
      rcases hends with ⟨_, -, hloaded⟩ | hrefused
      · exact ⟨_, hloaded, rfl, rfl, rfl, rfl⟩
      · exact ⟨_, hrefused, rfl, rfl, rfl, rfl⟩
    obtain ⟨milestone, hmilestone, hjoined, hstarted, hloading, hload⟩ := hends
    rw [observe, hmilestone]
    refine h.beside hturn (Nat.le_refl _) ?_ ?_
      (fun other hother hmem => h.gone other hother (hstarts other hmem)) ?_
    · simp [hstarted, hloading]
    · simp [hjoined, htoLoad]
    · intro other hother load hother_load
      obtain rfl := List.mem_singleton.mp hother
      obtain rfl := Option.some.inj (hload.symm.trans hother_load)
      exact hkey

/-- Every step keeps a run in order. -/
theorem next (h : run.InOrder done) (step : LoaderStep W) :
    ∃ later, (run.next step).InOrder later := by
  cases step with
  | lookup key grammar waiter =>
    have hsought := Workshop.lookup_sought (fun _ => grammar) key waiter run.workshop
    exact ⟨done, h.still (h.turn.lookup hsought) rfl (fun _ hmem => hmem) hsought.still.1⟩
  | forget =>
    exact ⟨done, h.still (h.turn.of_eq rfl rfl) rfl (fun _ hmem => hmem) (.of_eq rfl rfl rfl)⟩
  | dispose =>
    obtain ⟨deleted, hdispose⟩ := Workshop.dispose_apply run.workshop
    refine ⟨done, ?_⟩
    rw [LoaderRun.next, hdispose]
    exact h.still (h.turn.of_eq rfl rfl) rfl (fun _ hmem => hmem) (.of_eq rfl rfl rfl)
  | supply files startError =>
    exact ⟨done, h.still (h.turn.of_eq rfl rfl) rfl (fun _ hmem => hmem) (.of_eq rfl rfl rfl)⟩
  | task =>
    have hdelivered {task : Task W C} {rest : List (Task W C)}
        (htasks : run.workshop.tasks = task :: rest) (hdrives : task.drives = none) :
        (run.observe [] (run.workshop.withTasks rest) (run.workshop.withTasks rest)).InOrder done :=
      h.still (h.turn.take htasks hdrives) rfl (fun _ hmem => htasks ▸ List.mem_cons_of_mem _ hmem)
        (.of_eq rfl rfl rfl)
    simp only [LoaderRun.next]
    match htasks : run.workshop.tasks with
    | [] => exact ⟨done, h⟩
    | .deliver waiter answer :: rest => exact ⟨done, hdelivered htasks rfl⟩
    | .client work :: rest => exact ⟨done, hdelivered htasks rfl⟩
    | .job job :: rest =>
      have htook := Workshop.perform_took job (run.workshop.withTasks rest)
      by_cases hstart : ∃ link, job = .start link
      · obtain ⟨link, rfl⟩ := hstart
        exact h.perform_start htasks htook
      · exact h.perform_other htasks htook (not_exists.mp hstart)
  | complete place =>
    simp only [LoaderRun.next]
    cases hplace : run.workshop.requests[place]? with
    | none => exact ⟨done, h⟩
    | some asked => exact ⟨done, h.complete hplace (Workshop.complete_completed _ _)⟩

/-- So do all steps, one after another. -/
theorem after (h : run.InOrder done) (steps : List (LoaderStep W)) :
    ∃ later, (run.after steps).InOrder later := by
  induction steps generalizing run done with
  | nil => exact ⟨done, h⟩
  | cons step rest ih =>
    obtain ⟨later, hnext⟩ := h.next step
    exact ih hnext

end InOrder

/-! ## Loaded once -/

/-- A language is known that was loaded for a link, or a task will take note of it. -/
def Keeps (workshop : Workshop W C) (link : Nat) (key : Text) : Prop :=
  (workshop.grammars.languages.get? key).isSome ∨
    ∃ language, .job (.finish link (.ok language)) ∈ workshop.tasks

/-- Nothing is lost while all tasks and all languages stay. -/
theorem Keeps.mono {before after : Workshop W C} {link : Nat} {key : Text}
    (h : Keeps before link key)
    (hlanguages : (before.grammars.languages.get? key).isSome →
      (after.grammars.languages.get? key).isSome)
    (htasks : ∀ language, .job (.finish link (.ok language)) ∈ before.tasks →
      .job (.finish link (.ok language)) ∈ after.tasks) : Keeps after link key := by
  rcases h with hknown | ⟨language, hmem⟩
  · exact .inl (hlanguages hknown)
  · exact .inr ⟨language, htasks language hmem⟩

/-- Every language that was loaded is kept, and none of them was loaded again. -/
structure Retains (run : LoaderRun W C) : Prop where
  keeps : ∀ link key, .loaded link key ∈ run.past → Keeps run.workshop link key
  once : run.past.Pairwise Milestone.Once

namespace Retains

theorem fresh (toolkit : Toolkit) : (LoaderRun.fresh toolkit : LoaderRun W C).Retains :=
  ⟨by simp [LoaderRun.fresh], List.Pairwise.nil⟩

/-- A run goes on without a second load if what happens next fits in. -/
theorem observe (h : run.Retains) {before after : Workshop W C} {known : List (Milestone W)}
    (hkeeps : ∀ link key, Keeps run.workshop link key → .loaded link key ∈ run.past →
      Keeps after link key)
    (hloaded : ∀ link key, .loaded link key ∈ known ++ before.milestones after →
      Keeps after link key)
    (hloading : ∀ link other key, .loaded link key ∈ run.past →
      .loading other key ∉ known ++ before.milestones after)
    (honce : (known ++ before.milestones after).Pairwise Milestone.Once) :
    (run.observe known before after).Retains := by
  refine ⟨fun link key hmem => ?_, ?_⟩
  · rcases List.mem_append.mp hmem with hold | hnew
    · exact hkeeps link key (h.keeps link key hold) hold
    · exact hloaded link key hnew
  · refine List.pairwise_append.mpr ⟨h.once, honce, fun earlier hearlier later hlater => ?_⟩
    rintro link other key rfl rfl
    exact hloading link other key hearlier hlater

/-- So it does while nothing happens in its chain and no language is lost. -/
theorem still (h : run.Retains) {before after : Workshop W C}
    (hlanguages : after.grammars.languages = run.workshop.grammars.languages)
    (htasks : ∀ link language, .job (.finish link (.ok language)) ∈ run.workshop.tasks →
      .job (.finish link (.ok language)) ∈ after.tasks)
    (hmilestones : before.milestones after = []) : (run.observe [] before after).Retains := by
  have hnone : ([] ++ before.milestones after : List (Milestone W)) = [] := hmilestones
  refine h.observe (fun link key hkeeps _ => ?_) ?_ ?_ ?_
  · exact hkeeps.mono (fun hknown => hlanguages ▸ hknown) (htasks link)
  · simp [hnone]
  · simp [hnone]
  · rw [hnone]
    exact List.Pairwise.nil

/-- When a link starts, every language that was loaded is known. -/
theorem known_of_start (h : run.Retains) (horder : run.InOrder done) {start : Nat}
    {rest : List (Task W C)} (htasks : run.workshop.tasks = .job (.start start) :: rest)
    {link : Nat} {key : Text} (hloaded : .loaded link key ∈ run.past) :
    (run.workshop.grammars.languages.get? key).isSome := by
  rcases h.keeps link key hloaded with hknown | ⟨language, hmem⟩
  · exact hknown
  · obtain ⟨-, -, hidle⟩ := horder.turn.of_task htasks rfl
    have hrest : (.job (.finish link (.ok language)) : Task W C) ∈ rest := by
      rw [htasks] at hmem
      rcases List.mem_cons.mp hmem with hsame | hrest
      · cases hsame
      · exact hrest
    have hdriven : link ∈ (run.workshop.withTasks rest).driven :=
      List.mem_append_left _ (List.mem_filterMap.mpr ⟨_, hrest, rfl⟩)
    rw [hidle] at hdriven
    cases hdriven

/-- Taking a step of loading loads nothing again. -/
theorem perform (h : run.Retains) (horder : run.InOrder done) {job : Job W}
    {rest : List (Task W C)} (htasks : run.workshop.tasks = .job job :: rest)
    {outcome : Outcome (Workshop W C) Unit}
    (htook : Workshop.Took (run.workshop.withTasks rest) job outcome) :
    (run.observe job.milestones (run.workshop.withTasks rest) outcome.state).Retains := by
  have hjob : ∀ milestone ∈ job.milestones, ∀ link key,
      milestone ≠ .loaded link key ∧ milestone ≠ .loading link key := by
    intro milestone hmem link key
    cases job with
    | enter lookup => obtain rfl := List.mem_singleton.mp hmem; simp
    | start start => obtain rfl := List.mem_singleton.mp hmem; simp
    | _ => cases hmem
  have hloaded (link : Nat) (key : Text) : Milestone.loaded link key ∉
      job.milestones ++ (run.workshop.withTasks rest).milestones outcome.state := by
    intro hmem
    rcases List.mem_append.mp hmem with hknown | hmilestone
    · exact (hjob _ hknown link key).1 rfl
    · rcases htook.milestones with hnone | ⟨_, _, _, _, _, hloading⟩
      · rw [hnone] at hmilestone
        cases hmilestone
      · rw [hloading] at hmilestone
        cases List.mem_singleton.mp hmilestone
  refine h.observe (fun link key hkeeps hpast => ?_) (fun link key hmem => ?_)
    (fun link other key hpast hmem => ?_) ?_
  · rcases hkeeps with hlanguage | ⟨language, hmem⟩
    · exact .inl (htook.languages hlanguage)
    · rw [htasks] at hmem
      rcases List.mem_cons.mp hmem with hsame | hrest
      · -- The task that takes note of the load is the one that is taken.
        obtain rfl := (Task.job.inj hsame).symm
        have hkey := horder.keys _ hpast _ rfl
        rw [← InOrder.key_joined horder.toLoad] at hkey
        obtain ⟨found, hfound, rfl⟩ := Option.map_eq_some_iff.mp hkey
        exact .inl (htook.learns hfound)
      · exact .inr ⟨language, htook.tasks_prefix.subset hrest⟩
  · exact absurd hmem (hloaded link key)
  · rcases List.mem_append.mp hmem with hknown | hmilestone
    · exact (hjob _ hknown other key).2 rfl
    · rcases htook.milestones with hnone | ⟨start, found, rfl, _, hnew, hloading⟩
      · rw [hnone] at hmilestone
        cases hmilestone
      · rw [hloading] at hmilestone
        obtain ⟨-, rfl⟩ := Milestone.loading.inj (List.mem_singleton.mp hmilestone)
        have hlanguage := h.known_of_start horder htasks hpast
        change run.workshop.grammars.languages.get? found.key = none at hnew
        rw [hnew] at hlanguage
        cases hlanguage
  · refine List.pairwise_of_forall_mem_list fun earlier hearlier later _ => ?_
    rintro link other key rfl
    exact absurd hearlier (hloaded link key)

/-- Finishing a request loads nothing again: the task that tells of a load takes note of it. -/
theorem complete (h : run.Retains) {place : Nat} {asked : Request}
    {outcome : Outcome (Workshop W C) Unit}
    (hcompleted : Workshop.Completed (run.workshop.without place) asked outcome) :
    (run.observe [] (run.workshop.without place) outcome.state).Retains := by
  obtain ⟨hgrammars, hprefix, -, hends⟩ := hcompleted.still_or_ends
  have hlanguages : outcome.state.grammars.languages = run.workshop.grammars.languages :=
    congrArg Grammars.languages hgrammars
  have htasks (link : Nat) (language : Language)
      (hmem : .job (.finish link (.ok language)) ∈ run.workshop.tasks) :
      .job (.finish link (.ok language)) ∈ outcome.state.tasks := hprefix.subset hmem
  have hkeeps (link : Nat) (key : Text) (hkeeps : Keeps run.workshop link key) :
      Keeps outcome.state link key :=
    hkeeps.mono (fun hknown => hlanguages ▸ hknown) (htasks link)
  rcases hends with hnone | ⟨link, -, ⟨language, hmem, hloaded⟩ | hrefused⟩
  · exact h.still hlanguages htasks hnone
  · refine h.observe (fun other key hpast _ => hkeeps other key hpast) (fun other key hnew => ?_)
      (fun other next key _ hnew => ?_) ?_
    · rw [hloaded] at hnew
      obtain ⟨rfl, -⟩ := Milestone.loaded.inj (List.mem_singleton.mp hnew)
      exact .inr ⟨language, hmem⟩
    · rw [hloaded] at hnew
      cases List.mem_singleton.mp hnew
    · rw [hloaded]
      exact List.pairwise_singleton _ _
  · refine h.observe (fun other key hpast _ => hkeeps other key hpast) (fun other key hnew => ?_)
      (fun other next key _ hnew => ?_) ?_
    · rw [hrefused] at hnew
      cases List.mem_singleton.mp hnew
    · rw [hrefused] at hnew
      cases List.mem_singleton.mp hnew
    · rw [hrefused]
      exact List.pairwise_singleton _ _

/-- No step loads anything again, short of one that loses languages. -/
theorem next (h : run.Retains) (horder : run.InOrder done) {step : LoaderStep W}
    (hforget : step ≠ .forget) (hdispose : step ≠ .dispose) : (run.next step).Retains := by
  cases step with
  | forget => exact absurd rfl hforget
  | dispose => exact absurd rfl hdispose
  | lookup key grammar waiter =>
    obtain ⟨hstill, hlanguages, hprefix⟩ :=
      (Workshop.lookup_sought (fun _ => grammar) key waiter run.workshop).still
    exact h.still hlanguages (fun _ _ hmem => hprefix.subset hmem) hstill.milestones
  | supply files startError =>
    exact h.still rfl (fun _ _ hmem => hmem) (Workshop.milestones_of_eq rfl rfl)
  | task =>
    have hdelivered {task : Task W C} {rest : List (Task W C)}
        (htasks : run.workshop.tasks = task :: rest) (hdrives : task.drives = none) :
        (run.observe [] (run.workshop.withTasks rest) (run.workshop.withTasks rest)).Retains := by
      refine h.still rfl (fun link language hmem => ?_) (Workshop.milestones_of_eq rfl rfl)
      rw [htasks] at hmem
      rcases List.mem_cons.mp hmem with rfl | hrest
      · cases hdrives
      · exact hrest
    simp only [LoaderRun.next]
    match htasks : run.workshop.tasks with
    | [] => exact h
    | .deliver waiter answer :: rest => exact hdelivered htasks rfl
    | .client work :: rest => exact hdelivered htasks rfl
    | .job job :: rest =>
      exact h.perform horder htasks (Workshop.perform_took job (run.workshop.withTasks rest))
  | complete place =>
    simp only [LoaderRun.next]
    cases hplace : run.workshop.requests[place]? with
    | none => exact h
    | some asked => exact h.complete (Workshop.complete_completed _ _)

/-- Nor do such steps one after another. -/
theorem after (h : run.Retains) (horder : run.InOrder done) {steps : List (LoaderStep W)}
    (hsteps : ∀ step ∈ steps, step ≠ .forget ∧ step ≠ .dispose) : (run.after steps).Retains := by
  induction steps generalizing run done with
  | nil => exact h
  | cons step rest ih =>
    obtain ⟨later, hnext⟩ := horder.next step
    obtain ⟨hforget, hdispose⟩ := hsteps step List.mem_cons_self
    exact ih (h.next horder hforget hdispose) hnext
      fun other hmem => hsteps other (List.mem_cons_of_mem _ hmem)

end Retains

/-- **One load at a time.** Whatever happens to a workshop, at most one grammar file is being
loaded. The chain is a record of the lookups that joined it, in order; its links start in this
order, each at most once, and only a link that starts asks for a load, which is that of the
language it is for. As long as nothing is forgotten, no language that was loaded is loaded
again. -/
theorem loads_in_order (toolkit : Toolkit) (steps : List (LoaderStep W)) :
    let run := (fresh toolkit : LoaderRun W C).after steps
    run.inFlight.length ≤ 1 ∧
    run.workshop.grammars.links.map Link.load = run.joined.map Lookup.load ∧
    run.started.Pairwise (· < ·) ∧ (∀ link ∈ run.started, link < run.joined.length) ∧
    run.loads.Sublist run.started ∧
    (∀ link key, .loading link key ∈ run.past →
      ∃ lookup, run.joined[link]? = some lookup ∧ lookup.key = key) ∧
    ((∀ step ∈ steps, step ≠ .forget ∧ step ≠ .dispose) → run.past.Pairwise Milestone.Once) := by
  intro run
  obtain ⟨done, horder⟩ := (InOrder.fresh toolkit : (fresh toolkit : LoaderRun W C).InOrder 0).after
    steps
  have hjoined := congrArg List.length horder.toLoad
  rw [Grammars.toLoad, List.length_map, List.length_map] at hjoined
  refine ⟨?_, horder.toLoad, horder.ordered, fun link hlink => ?_, horder.loads,
    fun link key hloading => ?_, fun hsteps => ?_⟩
  · have hdriven : run.inFlight.length ≤ run.workshop.driven.length :=
      (List.sublist_append_right _ _).length_le
    rw [horder.turn.driven] at hdriven
    refine Nat.le_trans hdriven ?_
    split <;> simp
  · exact hjoined ▸ (horder.bounds link hlink).2
  · exact Option.map_eq_some_iff.mp (horder.keys _ hloading _ rfl)
  · exact ((Retains.fresh toolkit).after (InOrder.fresh toolkit) hsteps).once

/-- Three lookups join the chain before anything is loaded, the third for the language of the first.
The second load fails, and the third lookup needs none. -/
theorem loads_in_order_three :
    let toolkit : Toolkit :=
      { files := (Table.empty.insert "a" ⟨[], false, none⟩).insert "b" ⟨[], false, some "broken"⟩ }
    let steps : List (LoaderStep Nat) :=
      [.lookup [97] (some (.file "a")) 1, .lookup [98] (some (.file "b")) 2,
        .lookup [97] (some (.file "a")) 3, .complete 0] ++ List.replicate 8 .task ++
        [.complete 0] ++ List.replicate 8 .task ++ [.complete 0] ++ List.replicate 8 .task
    let run := (fresh toolkit : LoaderRun Nat Empty).after steps
    run.joined.map Lookup.key = [[97], [98], [97]] ∧ run.started = [0, 1, 2] ∧ run.loads = [0, 1] ∧
      run.past.Pairwise Milestone.Once := by
  intro toolkit steps run
  have honce := (loads_in_order (C := Empty) toolkit steps).2.2.2.2.2.2
  exact ⟨by decide +kernel, by decide +kernel, by decide +kernel,
    honce (by simp [steps, List.replicate])⟩

end LoaderRun

end ClosingLabels
