import ClosingLabels.Workshop
import ClosingLabels.Proofs.Conduct

/-!
# One turn of loading at a time

Looking up a language, taking a step of loading and finishing a request can each end in
a few ways. They are listed here once, with what each leaves behind: what is known of
the grammars, the tasks and requests that were added, and the events. Whatever holds of
all loading is proved from these lists.
-/

namespace ClosingLabels

/-- The link that a step of loading is about, if it needs one that is there. -/
def Job.link? {W : Type} : Job W → Option Nat
  | .subscribe link _ => some link
  | .start link => some link
  | .finish link _ => some link
  | .settle link _ => some link
  | _ => none

/-- The name by which a grammar is reported as loaded. -/
def GrammarName.shown : GrammarName → String
  | .file name => name
  | .member name => name.toString

namespace Grammars

variable {W : Type}

/-- The grammars with a lookup at the end of the chain. -/
def extend (grammars : Grammars W) (lookup : Lookup W) : Grammars W :=
  { grammars with links := grammars.links ++ [⟨lookup.key, lookup.grammar, none, []⟩] }

/-- The grammars with one more start of the toolkit, which counts from now on. -/
def addStartup (grammars : Grammars W) (startup : Startup W) : Grammars W :=
  { grammars with
    startups := grammars.startups ++ [startup], current := some grammars.startups.length }

/-- The grammars with a language that was loaded. -/
def learn (grammars : Grammars W) (key : Text) (language : Language) : Grammars W :=
  { grammars with languages := grammars.languages.insert key language }

/-- The grammars with a link that is done. -/
def close (grammars : Grammars W) (link : Nat) (answer : Answer) : Grammars W :=
  grammars.editLink link fun l => { l with answer := some answer, followers := [] }

end Grammars

/-- The language that comes of a grammar file. -/
def GrammarSpec.language (spec : GrammarSpec) (file : String) (number : Nat) : Language :=
  ⟨s!"l{number}:{file}", spec.kinds, spec.noisy⟩

namespace Workshop

variable {W C : Type}

/-- A workshop with other grammars. -/
def withGrammars (workshop : Workshop W C) (grammars : Grammars W) : Workshop W C :=
  { workshop with grammars }

/-- A workshop with more tasks at the end of the queue. -/
def enqueue (workshop : Workshop W C) (tasks : List (Task W C)) : Workshop W C :=
  { workshop with tasks := workshop.tasks ++ tasks }

/-- A workshop with one more request. -/
def ask (workshop : Workshop W C) (asked : Request) : Workshop W C :=
  { workshop with requests := workshop.requests ++ [asked] }

/-- A workshop in which a parser was made. -/
def launch (workshop : Workshop W C) : Workshop W C :=
  let number := workshop.toolkit.parsers + 1
  { workshop with
    toolkit := { workshop.toolkit with parsers := number }
    grammars := { workshop.grammars with parser := some number } }

theorem push_apply (task : Task W C) (workshop : Workshop W C) :
    push task workshop = ⟨.ok (), workshop.enqueue [task], []⟩ := rfl

theorem pushJob_apply (job : Job W) (workshop : Workshop W C) :
    pushJob job workshop = ⟨.ok (), workshop.enqueue [.job job], []⟩ := rfl

theorem lookGrammars_apply (workshop : Workshop W C) :
    Action.look grammarsPart workshop = ⟨.ok workshop.grammars, workshop, []⟩ := rfl

theorem adjustGrammars_apply (f : Grammars W → Grammars W) (workshop : Workshop W C) :
    Action.adjust grammarsPart f workshop =
      ⟨.ok (), workshop.withGrammars (f workshop.grammars), []⟩ := rfl

theorem enqueue_enqueue (workshop : Workshop W C) (tasks more : List (Task W C)) :
    (workshop.enqueue tasks).enqueue more = workshop.enqueue (tasks ++ more) := by
  simp [enqueue]

/-- Pushing steps of loading one after another. -/
theorem eachPush_apply {α : Type} (items : List α) (job : α → Job W) (workshop : Workshop W C) :
    Action.each items (fun item => pushJob (job item)) workshop =
      ⟨.ok (), workshop.enqueue (items.map fun item => .job (job item)), []⟩ := by
  induction items generalizing workshop with
  | nil => simp [Action.each, enqueue]
  | cons item rest ih =>
    rw [Action.each, Action.bind_of_quiet (pushJob_apply _ _), ih, enqueue_enqueue]
    rfl

/-! ## Steps of loading -/

/-- The ways in which taking a step of loading can end. -/
inductive Took (workshop : Workshop W C) : Job W → Outcome (Workshop W C) Unit → Prop
  /-- A parser is made, and those who waited for the start go on. -/
  | ready {number : Nat} {waiting : List (Lookup W)}
      (hstartup : workshop.grammars.startups[number]? = some (.pending waiting)) :
      Took workshop (.makeParser number)
        ⟨.ok (), (workshop.launch.withGrammars
            (workshop.launch.grammars.setStartup number .ready)).enqueue
          (waiting.map fun lookup => .job (.enter lookup)),
          [.parserMade (workshop.toolkit.parsers + 1)]⟩
  /-- A parser is made for a start that nobody waits for. -/
  | spare {number : Nat}
      (hstartup : ∀ waiting, workshop.grammars.startups[number]? ≠ some (.pending waiting)) :
      Took workshop (.makeParser number)
        ⟨.ok (), workshop.launch, [.parserMade (workshop.toolkit.parsers + 1)]⟩
  /-- A start has failed, and so have the lookups that waited for it. -/
  | failed {number : Nat} {fault : Fault} {waiting : List (Lookup W)}
      (hstartup : workshop.grammars.startups[number]? = some (.pending waiting)) :
      Took workshop (.failStartup number fault)
        ⟨.ok (), (workshop.withGrammars
            (workshop.grammars.setStartup number (.failed fault))).enqueue
          (waiting.map fun lookup => .job (.relay lookup.waiter (.error fault))), []⟩
  /-- A start has failed that nobody waits for. -/
  | failedUnheard {number : Nat} {fault : Fault}
      (hstartup : ∀ waiting, workshop.grammars.startups[number]? ≠ some (.pending waiting)) :
      Took workshop (.failStartup number fault) ⟨.ok (), workshop, []⟩
  /-- A lookup joins a chain that is done, and starts. -/
  | entered {lookup : Lookup W}
      (hbefore : ∀ before, workshop.grammars.links.getLast? = some before →
        ∃ found, before.answer = some (.ok found)) :
      Took workshop (.enter lookup)
        ⟨.ok (), (workshop.withGrammars (workshop.grammars.extend lookup)).enqueue
          [.job (.start workshop.grammars.links.length),
            .job (.subscribe workshop.grammars.links.length lookup.waiter)], []⟩
  /-- A lookup joins a chain that is not done, and has to wait. -/
  | queued {lookup : Lookup W} {before : Link W}
      (hlast : workshop.grammars.links.getLast? = some before) (hopen : before.answer = none) :
      Took workshop (.enter lookup)
        ⟨.ok (), (workshop.withGrammars ((workshop.grammars.extend lookup).follow
            (workshop.grammars.links.length - 1) (.start workshop.grammars.links.length))).enqueue
          [.job (.subscribe workshop.grammars.links.length lookup.waiter)], []⟩
  /-- A lookup joins a chain that ended in a fault, which is its own fault too. -/
  | spoiled {lookup : Lookup W} {before : Link W} {fault : Fault}
      (hlast : workshop.grammars.links.getLast? = some before)
      (hfault : before.answer = some (.error fault)) :
      Took workshop (.enter lookup)
        ⟨.ok (), (workshop.withGrammars (workshop.grammars.extend lookup)).enqueue
          [.job (.settle workshop.grammars.links.length (.error fault)),
            .job (.subscribe workshop.grammars.links.length lookup.waiter)], []⟩
  /-- A link that is not there has no effect. -/
  | astray {job : Job W} {link : Nat} (hjob : job.link? = some link)
      (hlink : workshop.grammars.links[link]? = none) : Took workshop job ⟨.ok (), workshop, []⟩
  /-- The link is done, so the waiter is told. -/
  | told {link : Nat} {waiter : W} {found : Link W} {answer : Answer}
      (hlink : workshop.grammars.links[link]? = some found) (hanswer : found.answer = some answer) :
      Took workshop (.subscribe link waiter)
        ⟨.ok (), workshop.enqueue [.job (.relay waiter answer)], []⟩
  /-- The link is not done, so the waiter follows it. -/
  | following {link : Nat} {waiter : W} {found : Link W}
      (hlink : workshop.grammars.links[link]? = some found) (hopen : found.answer = none) :
      Took workshop (.subscribe link waiter)
        ⟨.ok (), workshop.withGrammars (workshop.grammars.follow link (.answer waiter)), []⟩
  /-- The language was loaded meanwhile. -/
  | known {link : Nat} {found : Link W} {language : Language}
      (hlink : workshop.grammars.links[link]? = some found)
      (hknown : workshop.grammars.languages.get? found.key = some language) :
      Took workshop (.start link)
        ⟨.ok (), workshop.enqueue [.job (.adopt link (.ok (some language)))], []⟩
  /-- The grammar is not named by a file. -/
  | nameless {link : Nat} {found : Link W} {name : Text}
      (hlink : workshop.grammars.links[link]? = some found)
      (hnew : workshop.grammars.languages.get? found.key = none)
      (hgrammar : found.grammar = .member name) :
      Took workshop (.start link)
        ⟨.ok (), workshop.enqueue [.job (.adopt link (.error .notAFileName))], []⟩
  /-- The grammar file is missing. -/
  | missing {link : Nat} {found : Link W} {name : String}
      (hlink : workshop.grammars.links[link]? = some found)
      (hnew : workshop.grammars.languages.get? found.key = none)
      (hgrammar : found.grammar = .file name)
      (hfile : workshop.toolkit.files.get? (Path.below name) = none) :
      Took workshop (.start link)
        ⟨.ok (), (workshop.withGrammars (workshop.grammars.markUnavailable found.key)).enqueue
          [.job (.adopt link (.ok none))], [.warn (.missingGrammar name found.key)]⟩
  /-- The grammar file starts to load. -/
  | loading {link : Nat} {found : Link W} {name : String} {spec : GrammarSpec}
      (hlink : workshop.grammars.links[link]? = some found)
      (hnew : workshop.grammars.languages.get? found.key = none)
      (hgrammar : found.grammar = .file name)
      (hfile : workshop.toolkit.files.get? (Path.below name) = some spec) :
      Took workshop (.start link)
        ⟨.ok (), workshop.ask (.load link (Path.below name) spec),
          [.grammarLoading (Path.below name)]⟩
  /-- The grammar was loaded. -/
  | loaded {link : Nat} {found : Link W} {language : Language}
      (hlink : workshop.grammars.links[link]? = some found) :
      Took workshop (.finish link (.ok language))
        ⟨.ok (), (workshop.withGrammars (workshop.grammars.learn found.key language)).enqueue
          [.job (.settle link (.ok (some language)))],
          [.log (.grammarLoaded found.grammar.shown found.key)]⟩
  /-- The grammar could not be loaded. -/
  | refused {link : Nat} {found : Link W} {fault : Fault}
      (hlink : workshop.grammars.links[link]? = some found) :
      Took workshop (.finish link (.error fault))
        ⟨.ok (), (workshop.withGrammars (workshop.grammars.markUnavailable found.key)).enqueue
          [.job (.settle link (.ok none))], [.error (.grammarLoad found.key) (some fault)]⟩
  /-- The answer of a link is known. -/
  | adopted {link : Nat} {answer : Answer} :
      Took workshop (.adopt link answer)
        ⟨.ok (), workshop.enqueue [.job (.settle link answer)], []⟩
  /-- A link is done, and what follows it goes on. -/
  | settled {link : Nat} {answer : Answer} {found : Link W}
      (hlink : workshop.grammars.links[link]? = some found) :
      Took workshop (.settle link answer)
        ⟨.ok (), (workshop.withGrammars (workshop.grammars.close link answer)).enqueue
          (found.followers.map fun follower => .job (followerJob answer follower)), []⟩
  /-- An answer is about to be delivered. -/
  | relayed {waiter : W} {answer : Answer} :
      Took workshop (.relay waiter answer) ⟨.ok (), workshop.enqueue [.deliver waiter answer], []⟩

/-- Ending a start that lookups wait for. -/
theorem endStartup_pending {number : Nat} {waiting : List (Lookup W)} {workshop : Workshop W C}
    (hstartup : workshop.grammars.startups[number]? = some (.pending waiting))
    (startup : Startup W) (next : Lookup W → Job W) :
    endStartup number startup next workshop =
      ⟨.ok (), (workshop.withGrammars (workshop.grammars.setStartup number startup)).enqueue
        (waiting.map fun lookup => .job (next lookup)), []⟩ := by
  unfold endStartup
  rw [Action.bind_of_quiet (lookGrammars_apply _), hstartup]
  dsimp only
  rw [Action.bind_of_quiet (adjustGrammars_apply _ _), eachPush_apply]

/-- Ending a start that nobody waits for. -/
theorem endStartup_other {number : Nat} {workshop : Workshop W C}
    (hstartup : ∀ waiting, workshop.grammars.startups[number]? ≠ some (.pending waiting))
    (startup : Startup W) (next : Lookup W → Job W) :
    endStartup number startup next workshop = ⟨.ok (), workshop, []⟩ := by
  unfold endStartup
  rw [Action.bind_of_quiet (lookGrammars_apply _)]
  match hfound : workshop.grammars.startups[number]? with
  | some (.pending waiting) => exact absurd hfound (hstartup waiting)
  | some .ready => rfl
  | some (.failed fault) => rfl
  | none => rfl

theorem makeParser_took (number : Nat) (workshop : Workshop W C) :
    Took workshop (.makeParser number) (perform (.makeParser number) workshop) := by
  have hlaunch (startup : Startup W) (next : Lookup W → Job W) :
      (do
        let parser ← Action.zoom toolkitPart Toolkit.newParser
        Action.adjust grammarsPart fun g => { g with parser := some parser }
        endStartup number startup next : Action (Workshop W C) Unit) workshop =
      ⟨(endStartup number startup next workshop.launch).result,
        (endStartup number startup next workshop.launch).state,
        .parserMade (workshop.toolkit.parsers + 1) ::
          (endStartup number startup next workshop.launch).trace⟩ := rfl
  rw [perform, hlaunch]
  by_cases hpending : ∃ waiting, workshop.grammars.startups[number]? = some (.pending waiting)
  · obtain ⟨waiting, hstartup⟩ := hpending
    have hlaunched : workshop.launch.grammars.startups[number]? = some (.pending waiting) :=
      hstartup
    rw [endStartup_pending hlaunched]
    exact .ready hstartup
  · have hother : ∀ waiting, workshop.grammars.startups[number]? ≠ some (.pending waiting) :=
      not_exists.mp hpending
    have hlaunched : ∀ waiting, workshop.launch.grammars.startups[number]? ≠
      some (.pending waiting) := hother
    rw [endStartup_other hlaunched]
    exact .spare hother

theorem failStartup_took (number : Nat) (fault : Fault) (workshop : Workshop W C) :
    Took workshop (.failStartup number fault) (perform (.failStartup number fault) workshop) := by
  rw [perform]
  by_cases hpending : ∃ waiting, workshop.grammars.startups[number]? = some (.pending waiting)
  · obtain ⟨waiting, hstartup⟩ := hpending
    rw [endStartup_pending hstartup]
    exact .failed hstartup
  · have hother : ∀ waiting, workshop.grammars.startups[number]? ≠ some (.pending waiting) :=
      not_exists.mp hpending
    rw [endStartup_other hother]
    exact .failedUnheard hother

theorem enter_took (lookup : Lookup W) (workshop : Workshop W C) :
    Took workshop (.enter lookup) (perform (.enter lookup) workshop) := by
  rw [perform]
  unfold enter
  rw [Action.bind_of_quiet (lookGrammars_apply _), Action.bind_of_quiet (adjustGrammars_apply _ _)]
  dsimp only
  cases hlast : workshop.grammars.links.getLast? with
  | none =>
    have hbefore : ∀ before, workshop.grammars.links.getLast? = some before →
        ∃ found, before.answer = some (.ok found) := by
      intro before hsome
      cases hlast.symm.trans hsome
    dsimp only
    rw [Action.bind_of_quiet (pushJob_apply _ _), pushJob_apply, enqueue_enqueue]
    exact .entered hbefore
  | some before =>
    dsimp only
    match hanswer : before.answer with
    | none =>
      dsimp only
      rw [Action.bind_of_quiet (adjustGrammars_apply _ _), pushJob_apply]
      exact .queued hlast hanswer
    | some (.ok found) =>
      have hbefore : ∀ other, workshop.grammars.links.getLast? = some other →
          ∃ found, other.answer = some (.ok found) := by
        intro other hsome
        obtain rfl := Option.some.inj (hlast.symm.trans hsome)
        exact ⟨found, hanswer⟩
      dsimp only
      rw [Action.bind_of_quiet (pushJob_apply _ _), pushJob_apply, enqueue_enqueue]
      exact .entered hbefore
    | some (.error fault) =>
      dsimp only
      rw [Action.bind_of_quiet (pushJob_apply _ _), pushJob_apply, enqueue_enqueue]
      exact .spoiled hlast hanswer

theorem subscribe_took (link : Nat) (waiter : W) (workshop : Workshop W C) :
    Took workshop (.subscribe link waiter) (perform (.subscribe link waiter) workshop) := by
  rw [perform]
  unfold subscribe
  rw [Action.bind_of_quiet (lookGrammars_apply _)]
  cases hlink : workshop.grammars.links[link]? with
  | none => exact .astray rfl hlink
  | some found =>
    dsimp only
    cases hanswer : found.answer with
    | some answer => exact .told hlink hanswer
    | none => exact .following hlink hanswer

theorem start_took (link : Nat) (workshop : Workshop W C) :
    Took workshop (.start link) (perform (.start link) workshop) := by
  rw [perform]
  unfold start
  rw [Action.bind_of_quiet (Action.get_apply _)]
  cases hlink : workshop.grammars.links[link]? with
  | none => exact .astray rfl hlink
  | some found =>
    dsimp only
    cases hknown : workshop.grammars.languages.get? found.key with
    | some language => exact .known hlink hknown
    | none =>
      dsimp only
      cases hgrammar : found.grammar with
      | member name => exact .nameless hlink hknown hgrammar
      | file name =>
        dsimp only
        cases hfile : workshop.toolkit.files.get? (Path.below name) with
        | none => exact .missing hlink hknown hgrammar hfile
        | some spec => exact .loading hlink hknown hgrammar hfile

theorem finish_took (link : Nat) (result : Except Fault Language) (workshop : Workshop W C) :
    Took workshop (.finish link result) (perform (.finish link result) workshop) := by
  rw [perform]
  unfold finish
  rw [Action.bind_of_quiet (lookGrammars_apply _)]
  cases hlink : workshop.grammars.links[link]? with
  | none => exact .astray rfl hlink
  | some found =>
    cases result with
    | ok language => exact .loaded hlink
    | error fault => exact .refused hlink

theorem settle_took (link : Nat) (answer : Answer) (workshop : Workshop W C) :
    Took workshop (.settle link answer) (perform (.settle link answer) workshop) := by
  rw [perform]
  unfold settle
  rw [Action.bind_of_quiet (lookGrammars_apply _)]
  cases hlink : workshop.grammars.links[link]? with
  | none => exact .astray rfl hlink
  | some found =>
    dsimp only
    rw [Action.bind_of_quiet (adjustGrammars_apply _ _), eachPush_apply]
    exact .settled hlink

/-- Taking a step of loading ends in one of these ways. -/
theorem perform_took (job : Job W) (workshop : Workshop W C) :
    Took workshop job (perform job workshop) := by
  cases job with
  | makeParser number => exact makeParser_took number workshop
  | failStartup number fault => exact failStartup_took number fault workshop
  | enter lookup => exact enter_took lookup workshop
  | subscribe link waiter => exact subscribe_took link waiter workshop
  | start link => exact start_took link workshop
  | finish link result => exact finish_took link result workshop
  | adopt link answer => exact .adopted
  | settle link answer => exact settle_took link answer workshop
  | relay waiter answer => exact .relayed

/-! ## Lookups -/

/-- The ways in which looking up a language can begin. -/
inductive Sought (resolve : Text → Option GrammarName) (key : Text) (waiter : W)
    (workshop : Workshop W C) : Outcome (Workshop W C) Unit → Prop
  /-- The language is loaded. -/
  | known {language : Language} (hknown : workshop.grammars.languages.get? key = some language) :
      Sought resolve key waiter workshop
        ⟨.ok (), workshop.enqueue [.deliver waiter (.ok (some language))], []⟩
  /-- The language is known to have no grammar. -/
  | unavailable (hnew : workshop.grammars.languages.get? key = none)
      (hkey : key ∈ workshop.grammars.unavailable) :
      Sought resolve key waiter workshop
        ⟨.ok (), workshop.enqueue [.deliver waiter (.ok none)], []⟩
  /-- No grammar is named for the language. -/
  | unnamed (hnew : workshop.grammars.languages.get? key = none) (hname : resolve key = none) :
      Sought resolve key waiter workshop
        ⟨.ok (), (workshop.withGrammars (workshop.grammars.markUnavailable key)).enqueue
          [.deliver waiter (.ok none)], []⟩
  /-- The toolkit has to be started first. -/
  | starting {grammar : GrammarName} (hnew : workshop.grammars.languages.get? key = none)
      (hname : resolve key = some grammar) (hcurrent : workshop.grammars.current = none) :
      Sought resolve key waiter workshop
        ⟨.ok (), (workshop.withGrammars
            (workshop.grammars.addStartup (.pending [⟨key, grammar, waiter⟩]))).ask
          (.startup workshop.grammars.startups.length), [.toolkitStarting]⟩
  /-- The toolkit is about to start. -/
  | waiting {grammar : GrammarName} {number : Nat} {others : List (Lookup W)}
      (hnew : workshop.grammars.languages.get? key = none) (hname : resolve key = some grammar)
      (hcurrent : workshop.grammars.current = some number)
      (hstartup : workshop.grammars.startups[number]? = some (.pending others)) :
      Sought resolve key waiter workshop
        ⟨.ok (), workshop.withGrammars (workshop.grammars.setStartup number
          (.pending (others ++ [⟨key, grammar, waiter⟩]))), []⟩
  /-- The toolkit has started. -/
  | entering {grammar : GrammarName} {number : Nat}
      (hnew : workshop.grammars.languages.get? key = none) (hname : resolve key = some grammar)
      (hcurrent : workshop.grammars.current = some number)
      (hstartup : workshop.grammars.startups[number]? = some .ready) :
      Sought resolve key waiter workshop
        ⟨.ok (), workshop.enqueue [.job (.enter ⟨key, grammar, waiter⟩)], []⟩
  /-- The toolkit could not start. -/
  | hopeless {grammar : GrammarName} {number : Nat} {fault : Fault}
      (hnew : workshop.grammars.languages.get? key = none) (hname : resolve key = some grammar)
      (hcurrent : workshop.grammars.current = some number)
      (hstartup : workshop.grammars.startups[number]? = some (.failed fault)) :
      Sought resolve key waiter workshop
        ⟨.ok (), workshop.enqueue [.job (.relay waiter (.error fault))], []⟩
  /-- The start that counts is not there. -/
  | lost {grammar : GrammarName} {number : Nat}
      (hnew : workshop.grammars.languages.get? key = none) (hname : resolve key = some grammar)
      (hcurrent : workshop.grammars.current = some number)
      (hstartup : workshop.grammars.startups[number]? = none) :
      Sought resolve key waiter workshop ⟨.ok (), workshop, []⟩

/-- Waiting for the parser when no start counts asks for one. -/
theorem awaitParser_first (lookup : Lookup W) {workshop : Workshop W C}
    (hcurrent : workshop.grammars.current = none) :
    awaitParser lookup workshop =
      ⟨.ok (), (workshop.withGrammars (workshop.grammars.addStartup (.pending [lookup]))).ask
        (.startup workshop.grammars.startups.length), [.toolkitStarting]⟩ := by
  have hensure : ensureStartup workshop =
      ⟨.ok workshop.grammars.startups.length,
        (workshop.withGrammars (workshop.grammars.addStartup (.pending []))).ask
          (.startup workshop.grammars.startups.length), [.toolkitStarting]⟩ := by
    unfold ensureStartup
    rw [Action.bind_of_quiet (lookGrammars_apply _), hcurrent]
    rfl
  have hstartup : (workshop.grammars.addStartup (.pending [])).startups[
      workshop.grammars.startups.length]? = some (.pending []) := by
    simp [Grammars.addStartup]
  have hset : (workshop.grammars.addStartup (.pending [])).setStartup
      workshop.grammars.startups.length (.pending ([] ++ [lookup])) =
      workshop.grammars.addStartup (.pending [lookup]) := by
    simp [Grammars.addStartup, Grammars.setStartup]
  unfold awaitParser
  rw [Action.bind_of_ok hensure, Action.bind_of_quiet (lookGrammars_apply _)]
  dsimp only [withGrammars, ask]
  rw [hstartup]
  dsimp only
  rw [adjustGrammars_apply, hset]
  rfl

/-- Looking up a language begins in one of these ways. -/
theorem lookup_sought (resolve : Text → Option GrammarName) (key : Text) (waiter : W)
    (workshop : Workshop W C) :
    Sought resolve key waiter workshop (lookup resolve key waiter workshop) := by
  unfold lookup
  rw [Action.bind_of_quiet (lookGrammars_apply _)]
  cases hnew : workshop.grammars.languages.get? key with
  | some language => exact .known hnew
  | none =>
    dsimp only
    by_cases hkey : key ∈ workshop.grammars.unavailable
    · rw [if_pos hkey]
      exact .unavailable hnew hkey
    rw [if_neg hkey]
    cases hname : resolve key with
    | none => exact .unnamed hnew hname
    | some grammar =>
      dsimp only
      cases hcurrent : workshop.grammars.current with
      | none =>
        rw [awaitParser_first _ hcurrent]
        exact .starting hnew hname hcurrent
      | some number =>
        have hensure : ensureStartup workshop = ⟨.ok number, workshop, []⟩ := by
          unfold ensureStartup
          rw [Action.bind_of_quiet (lookGrammars_apply _), hcurrent]
          rfl
        unfold awaitParser
        rw [Action.bind_of_quiet hensure, Action.bind_of_quiet (lookGrammars_apply _)]
        match hstartup : workshop.grammars.startups[number]? with
        | some (.pending others) => exact .waiting hnew hname hcurrent hstartup
        | some .ready => exact .entering hnew hname hcurrent hstartup
        | some (.failed fault) => exact .hopeless hnew hname hcurrent hstartup
        | none => exact .lost hnew hname hcurrent hstartup

/-! ## Requests -/

/-- What is in a grammar file when its load is finished: as it is then, or as it was found. -/
def specAt (workshop : Workshop W C) (file : String) (found : GrammarSpec) : GrammarSpec :=
  (workshop.toolkit.files.get? file).getD found

/-- A workshop in which a language was made. -/
def addLanguage (workshop : Workshop W C) : Workshop W C :=
  { workshop with
    toolkit := { workshop.toolkit with languages := workshop.toolkit.languages + 1 } }

/-- The ways in which a request can be finished. -/
inductive Completed (workshop : Workshop W C) : Request → Outcome (Workshop W C) Unit → Prop
  /-- The toolkit has started. -/
  | started {number : Nat} (hstart : workshop.toolkit.startError = none) :
      Completed workshop (.startup number)
        ⟨.ok (), workshop.enqueue [.job (.makeParser number)], []⟩
  /-- The toolkit could not start. -/
  | unstarted {number : Nat} {message : String}
      (hstart : workshop.toolkit.startError = some message) :
      Completed workshop (.startup number)
        ⟨.ok (), workshop.enqueue [.job (.failStartup number (.host message))], []⟩
  /-- The file could not be loaded. -/
  | refused {link : Nat} {file message : String} {found : GrammarSpec}
      (herror : (workshop.specAt file found).loadError = some message) :
      Completed workshop (.load link file found)
        ⟨.ok (), workshop.enqueue [.job (.finish link (.error (.host message)))], []⟩
  /-- The file was loaded. -/
  | loaded {link : Nat} {file : String} {found : GrammarSpec}
      (herror : (workshop.specAt file found).loadError = none) :
      Completed workshop (.load link file found)
        ⟨.ok (), workshop.addLanguage.enqueue [.job (.finish link (.ok
          ((workshop.specAt file found).language file (workshop.toolkit.languages + 1))))], []⟩

/-- A request is finished in one of these ways. -/
theorem complete_completed (asked : Request) (workshop : Workshop W C) :
    Completed workshop asked (complete asked workshop) := by
  have hlook : Action.look toolkitPart workshop = ⟨.ok workshop.toolkit, workshop, []⟩ := rfl
  cases asked with
  | startup number =>
    rw [complete, Action.bind_of_quiet hlook]
    cases hstart : workshop.toolkit.startError with
    | none => exact .started hstart
    | some message => exact .unstarted hstart
  | load link file found =>
    rw [complete, Action.bind_of_quiet hlook]
    cases herror : ((workshop.toolkit.files.get? file).getD found).loadError with
    | some message => exact .refused herror
    | none => exact .loaded herror

end Workshop

end ClosingLabels
