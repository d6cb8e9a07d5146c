import ClosingLabels.Proofs.Effort
import ClosingLabels.Proofs.Progress
import Mathlib.Data.List.Induction

/-!
# Languages are found

Languages are looked up at a workshop, in any order and at any time between its tasks
and requests, and now and then everything that is known of them is forgotten. A lookup
is always answered in the end, as the grammar files and the names they go by at the time
of the lookup demand, if no name leads to something other than a file and nobody waited
for that language when it was last forgotten.
-/

namespace ClosingLabels

/-! ## Inquiries -/

/-- Someone who looks a language up, by the number of the lookup. -/
structure Inquirer where
  number : Nat
  key : Text
deriving DecidableEq, Repr

/-- A workshop at which languages are looked up: how grammars are named, how many lookups there
were, and the answers they got, in order. -/
structure Inquiries where
  resolve : Text → Option GrammarName
  workshop : Workshop Inquirer Empty
  asked : Nat := 0
  answers : List (Inquirer × Answer) := []

/-- Something that happens at the workshop. -/
inductive Inquiry where
  /-- A language is looked up. -/
  | lookup (key : Text)
  /-- The languages are forgotten, and from now on their files are named in another way. -/
  | forget (names : Text → Option String)
  /-- The oldest task is taken. -/
  | task
  /-- The toolkit finishes the request at some place. -/
  | complete (place : Nat)

/-- The grammars by the names of their files. An empty name is none. -/
def GrammarName.byFile (names : Text → Option String) (key : Text) : Option GrammarName :=
  ((names key).filter fun name => decide (name ≠ "")).map .file

namespace Inquiries

/-- A workshop in which nothing has happened. -/
def fresh (resolve : Text → Option GrammarName) (toolkit : Toolkit) : Inquiries :=
  { resolve, workshop := { toolkit } }

/-- The next one to look up a language. -/
def inquirer (inquiries : Inquiries) (key : Text) : Inquirer := ⟨inquiries.asked, key⟩

/-- What an inquiry leads to. -/
def next (inquiries : Inquiries) : Inquiry → Inquiries
  | .lookup key =>
    { inquiries with
      workshop := (Workshop.lookup inquiries.resolve key (inquiries.inquirer key)
        inquiries.workshop).state
      asked := inquiries.asked + 1 }
  | .forget names =>
    { inquiries with
      resolve := GrammarName.byFile names
      workshop := (Workshop.forgetLanguages inquiries.workshop).state }
  | .task =>
    match inquiries.workshop.tasks with
    | .job job :: rest =>
      { inquiries with
        workshop := (Workshop.perform job (inquiries.workshop.withTasks rest)).state }
    | .deliver inquirer answer :: rest =>
      { inquiries with
        workshop := inquiries.workshop.withTasks rest
        answers := inquiries.answers ++ [(inquirer, answer)] }
    | _ => inquiries
  | .complete place =>
    match inquiries.workshop.requests[place]? with
    | some asked =>
      { inquiries with
        workshop := (Workshop.complete asked (inquiries.workshop.without place)).state }
    | none => inquiries

/-- What inquiries lead to, one after another. -/
def after (inquiries : Inquiries) (more : List Inquiry) : Inquiries := more.foldl next inquiries

/-- Nothing is left to be done. -/
def Settled (inquiries : Inquiries) : Prop :=
  inquiries.workshop.tasks = [] ∧ inquiries.workshop.requests = []

/-- An inquiry that does some of what is left to be done. -/
def Advances (inquiries : Inquiries) : Inquiry → Prop
  | .task => inquiries.workshop.tasks ≠ []
  | .complete place => place < inquiries.workshop.requests.length
  | _ => False

/-- Whoever takes a task or finishes a request leaves less to be done. -/
theorem effort_next (inquiries : Inquiries) {inquiry : Inquiry}
    (hadvances : inquiries.Advances inquiry) :
    (inquiries.next inquiry).workshop.effort < inquiries.workshop.effort := by
  cases inquiry with
  | lookup key => cases hadvances
  | forget names => cases hadvances
  | task =>
    simp only [next]
    match htasks : inquiries.workshop.tasks with
    | [] => exact absurd htasks hadvances
    | .job job :: rest => exact Workshop.effort_perform htasks (Workshop.perform_took job _)
    | .deliver inquirer answer :: rest =>
      rw [Workshop.effort_cons htasks]
      exact Nat.lt_add_of_pos_left Nat.one_pos
  | complete place =>
    have hplace := List.getElem?_eq_getElem hadvances
    simp only [next, hplace]
    exact Workshop.effort_complete hplace (Workshop.complete_completed _ _)

/-! ## Runs on terms -/

/-- A workshop that keeps to terms, one load at a time, and forgets nobody. -/
structure Orderly (terms : Terms Inquirer) (inquiries : Inquiries) : Prop where
  honest : terms.Honest inquiries.workshop
  attended : inquiries.workshop.Attended
  inTurn : ∃ done, inquiries.workshop.InTurn done

/-- Lookups of a language keep to the terms. -/
structure Serves (terms : Terms Inquirer) (resolve : Text → Option GrammarName) (key : Text) :
    Prop where
  asked : ∀ number, ∀ asked ∈ terms.asked ⟨number, key⟩, asked = key
  unnamed : resolve key = none → terms.lacks key
  named : ∀ grammar, resolve key = some grammar → terms.named key grammar

/-- An answer that was given on terms. -/
def Given (terms : Terms Inquirer) (inquirer : Inquirer) (answer : Answer) : Prop :=
  ∃ table, terms.Right table (terms.asked inquirer) answer

variable {terms : Terms Inquirer} {inquiries : Inquiries}

/-- An inquiry that keeps to the terms: nothing is forgotten, and lookups are served. -/
def Keeps (terms : Terms Inquirer) (resolve : Text → Option GrammarName) : Inquiry → Prop
  | .lookup key => Serves terms resolve key
  | .forget _ => False
  | _ => True

/-- Every inquiry on the terms leaves everything in order. -/
theorem Orderly.next (hsound : terms.Sound) (h : inquiries.Orderly terms) {inquiry : Inquiry}
    (hkeeps : Keeps terms inquiries.resolve inquiry) :
    (inquiries.next inquiry).Orderly terms := by
  obtain ⟨hhonest, hattended, done, hturn⟩ := h
  cases inquiry with
  | forget names => cases hkeeps
  | lookup key =>
    have hsought := Workshop.lookup_sought inquiries.resolve key (inquiries.inquirer key)
      inquiries.workshop
    exact ⟨hhonest.lookup (hkeeps.asked _) hkeeps.unnamed hkeeps.named hsought,
      hattended.lookup hsought, done, hturn.lookup hsought⟩
  | task =>
    simp only [Inquiries.next]
    match htasks : inquiries.workshop.tasks with
    | [] => exact ⟨hhonest, hattended, done, hturn⟩
    | .job job :: rest =>
      have htook := Workshop.perform_took job (inquiries.workshop.withTasks rest)
      obtain ⟨later, _, hlater⟩ := hturn.perform htasks htook
      exact ⟨hhonest.perform hsound hturn htasks htook, hattended.perform htasks htook, later,
        hlater⟩
    | .deliver inquirer answer :: rest =>
      have hrest := hattended.take htasks (by simp [Task.startup])
      exact ⟨hhonest.take htasks, hrest, done, hturn.take htasks rfl⟩
  | complete place =>
    simp only [Inquiries.next]
    cases hplace : inquiries.workshop.requests[place]? with
    | none => exact ⟨hhonest, hattended, done, hturn⟩
    | some asked =>
      have hcompleted := Workshop.complete_completed asked (inquiries.workshop.without place)
      exact ⟨hhonest.complete hsound hplace hcompleted, hattended.complete hplace hcompleted, done,
        hturn.complete hplace hcompleted⟩

/-- The answers that an inquiry gives are on the terms, and whoever waits still waits or is
answered. -/
theorem Orderly.answers_next (h : inquiries.Orderly terms) {inquiry : Inquiry}
    (hkeeps : Keeps terms inquiries.resolve inquiry) :
    ∃ given, (inquiries.next inquiry).answers = inquiries.answers ++ given ∧
      (∀ pair ∈ given, Given terms pair.1 pair.2) ∧
      ∀ inquirer, inquiries.workshop.Awaits inquirer →
        (inquiries.next inquiry).workshop.Awaits inquirer ∨
          ∃ answer, (inquirer, answer) ∈ given := by
  have hsilent {now : Inquiries} (hanswers : now.answers = inquiries.answers)
      (hawaits : ∀ inquirer, inquiries.workshop.Awaits inquirer → now.workshop.Awaits inquirer) :
      ∃ given, now.answers = inquiries.answers ++ given ∧
        (∀ pair ∈ given, Given terms pair.1 pair.2) ∧
        ∀ inquirer, inquiries.workshop.Awaits inquirer →
          now.workshop.Awaits inquirer ∨ ∃ answer, (inquirer, answer) ∈ given :=
    ⟨[], by simp [hanswers], by simp, fun inquirer hwaits => .inl (hawaits inquirer hwaits)⟩
  cases inquiry with
  | forget names => cases hkeeps
  | lookup key =>
    refine hsilent rfl fun inquirer hwaits => ?_
    exact Workshop.Awaits.lookup h.attended (Workshop.lookup_sought _ _ _ _) (.inl hwaits)
  | task =>
    simp only [Inquiries.next]
    match htasks : inquiries.workshop.tasks with
    | [] => exact hsilent rfl fun _ => id
    | .job job :: rest =>
      refine hsilent rfl fun inquirer hwaits => ?_
      exact hwaits.perform h.attended htasks (Workshop.perform_took job _)
    | .deliver inquirer answer :: rest =>
      have hright := h.honest.tasks (.deliver inquirer answer) (htasks ▸ List.mem_cons_self)
      refine ⟨[(inquirer, answer)], rfl, ?_, fun other hwaits => ?_⟩
      · simpa using ⟨_, hright⟩
      · rcases hwaits.take htasks with hstays | htold
        · exact .inl hstays
        · obtain rfl := Option.some.inj htold
          exact .inr ⟨answer, List.mem_cons_self⟩
  | complete place =>
    simp only [Inquiries.next]
    cases hplace : inquiries.workshop.requests[place]? with
    | none => exact hsilent rfl fun _ => id
    | some asked =>
      refine hsilent rfl fun inquirer hwaits => ?_
      exact hwaits.complete (Workshop.complete_completed asked _)

/-- Names stay as they are until something is forgotten. -/
theorem resolve_next {inquiry : Inquiry} (hkeeps : Keeps terms inquiries.resolve inquiry) :
    (inquiries.next inquiry).resolve = inquiries.resolve := by
  cases inquiry with
  | forget names => cases hkeeps
  | lookup key => rfl
  | task =>
    simp only [next]
    split <;> rfl
  | complete place =>
    simp only [next]
    split <;> rfl

/-- Inquiries on the terms leave everything in order. -/
theorem Orderly.after (hsound : terms.Sound) (h : inquiries.Orderly terms) {more : List Inquiry}
    (hkeeps : ∀ inquiry ∈ more, Keeps terms inquiries.resolve inquiry) :
    (inquiries.after more).Orderly terms ∧ (inquiries.after more).resolve = inquiries.resolve := by
  induction more generalizing inquiries with
  | nil => exact ⟨h, rfl⟩
  | cons inquiry rest ih =>
    have hfirst := hkeeps inquiry List.mem_cons_self
    have hresolve := resolve_next hfirst
    obtain ⟨horderly, hsame⟩ := ih (h.next hsound hfirst) fun other hother => by
      rw [hresolve]
      exact hkeeps other (List.mem_cons_of_mem _ hother)
    exact ⟨horderly, hsame.trans hresolve⟩

/-- What became of one who waits: all answers since then were given on the terms, and he still
waits or has his own. -/
def Continues (terms : Terms Inquirer) (inquirer : Inquirer) (before now : Inquiries)
    (given : List (Inquirer × Answer)) : Prop :=
  now.answers = before.answers ++ given ∧ (∀ pair ∈ given, Given terms pair.1 pair.2) ∧
    (now.workshop.Awaits inquirer ∨ ∃ answer, (inquirer, answer) ∈ given)

/-- Whoever waits still does, or is answered on the terms, after any inquiries on the terms. -/
theorem Orderly.continues (hsound : terms.Sound) (h : inquiries.Orderly terms)
    {inquirer : Inquirer} (hwaits : inquiries.workshop.Awaits inquirer) {more : List Inquiry}
    (hkeeps : ∀ inquiry ∈ more, Keeps terms inquiries.resolve inquiry) :
    ∃ given, Continues terms inquirer inquiries (inquiries.after more) given := by
  induction more using List.reverseRecOn with
  | nil => exact ⟨[], (List.append_nil _).symm, by simp, .inl hwaits⟩
  | append_singleton earlier inquiry ih =>
    have hearlier := fun other hother => hkeeps other (List.mem_append_left [inquiry] hother)
    obtain ⟨given, hgiven, hright, hstill⟩ := ih hearlier
    obtain ⟨horderly, hresolve⟩ := h.after hsound hearlier
    have hlast : Keeps terms (inquiries.after earlier).resolve inquiry := by
      rw [hresolve]
      exact hkeeps inquiry (List.mem_append_right _ List.mem_cons_self)
    obtain ⟨more, hmore, hmoreRight, hnext⟩ := horderly.answers_next hlast
    have hafter : inquiries.after (earlier ++ [inquiry]) =
        (inquiries.after earlier).next inquiry := List.foldl_concat ..
    refine ⟨given ++ more, ?_, fun pair hpair => ?_, ?_⟩
    · rw [hafter, hmore, hgiven, List.append_assoc]
    · rcases List.mem_append.mp hpair with hold | hnew
      · exact hright pair hold
      · exact hmoreRight pair hnew
    · rw [hafter]
      rcases hstill with hwaiting | ⟨answer, hanswer⟩
      · rcases hnext inquirer hwaiting with hwaiting | ⟨answer, hanswer⟩
        · exact .inl hwaiting
        · exact .inr ⟨answer, List.mem_append_right _ hanswer⟩
      · exact .inr ⟨answer, List.mem_append_left _ hanswer⟩

/-- **Lookups are answered.** When a language is looked up on the terms, all answers from then on
are given on the terms, and once nothing is left to be done the lookup has its own. -/
theorem Orderly.answered (hsound : terms.Sound) (h : inquiries.Orderly terms) {key : Text}
    (hserves : Serves terms inquiries.resolve key) (more : List Inquiry)
    (hkeeps : ∀ inquiry ∈ more, Keeps terms inquiries.resolve inquiry) :
    ∃ given, ((inquiries.next (.lookup key)).after more).answers = inquiries.answers ++ given ∧
      (∀ pair ∈ given, Given terms pair.1 pair.2) ∧
      (((inquiries.next (.lookup key)).after more).Settled →
        ∃ answer, (inquiries.inquirer key, answer) ∈ given) := by
  have hlookup : Keeps terms inquiries.resolve (.lookup key) := hserves
  have hresolve := resolve_next hlookup
  have horderly := h.next hsound hlookup
  have hwaits : (inquiries.next (.lookup key)).workshop.Awaits (inquiries.inquirer key) :=
    Workshop.Awaits.lookup h.attended (Workshop.lookup_sought _ _ _ _) (.inr rfl)
  obtain ⟨given, hgiven, hright, hstill⟩ :=
    horderly.continues hsound hwaits (by rwa [hresolve])
  obtain ⟨⟨_, hattended, done, hturn⟩, _⟩ := horderly.after hsound (by rwa [hresolve])
  refine ⟨given, hgiven, hright, fun hsettled => hstill.resolve_left ?_⟩
  exact hattended.not_awaits hturn hsettled.1 hsettled.2 _

/-! ## What the files demand -/

/-- The language of the file that is named for it, made after some number of others. -/
def Found (resolve : Text → Option GrammarName) (files : Table String GrammarSpec) (since : Nat)
    (key : Text) (language : Language) : Prop :=
  ∃ name spec number, resolve key = some (.file name) ∧
    files.get? (Path.below name) = some spec ∧ spec.loadError = none ∧ since < number ∧
    language = spec.language (Path.below name) number

/-- No file is named for a language, or it is missing, or it cannot be loaded. -/
def Unfound (resolve : Text → Option GrammarName) (files : Table String GrammarSpec)
    (key : Text) : Prop :=
  resolve key = none ∨ ∃ name, resolve key = some (.file name) ∧
    ∀ spec, files.get? (Path.below name) = some spec → spec.loadError ≠ none

/-- The answer that names and files demand. -/
def Demanded (resolve : Text → Option GrammarName) (files : Table String GrammarSpec)
    (since : Nat) (key : Text) : Answer → Prop
  | .ok (some language) => Found resolve files since key language
  | .ok none => Unfound resolve files key
  | .error _ => False

end Inquiries

open Inquiries (Found Unfound Demanded)

/-- Answers are to be as names and files demand, for the languages that count. -/
def Terms.demanding (resolve : Text → Option GrammarName) (heeds counts : Text → Bool)
    (files : Table String GrammarSpec) (since base : Nat) : Terms Inquirer where
  base := base
  asked inquirer := if heeds inquirer.key then some inquirer.key else none
  named key grammar :=
    (∃ name, grammar = .file name) ∧ (counts key = true → resolve key = some grammar)
  has _ key language := counts key = true → Found resolve files since key language
  made key language := counts key = true → Found resolve files since key language
  lacks key := counts key = true → Unfound resolve files key
  faults := False
  kept toolkit := toolkit.files = files ∧ toolkit.startError = none ∧ since ≤ toolkit.languages

section

variable (resolve : Text → Option GrammarName) (heeds counts : Text → Bool)
  (files : Table String GrammarSpec) (since base : Nat)

theorem Terms.demanding_sound : (demanding resolve heeds counts files since base).Sound where
  grow _ hhas := hhas
  learn _ hmade := hmade
  missing := by
    rintro toolkit key name ⟨rfl, _⟩ ⟨_, hresolve⟩ hfile hcounts
    refine .inr ⟨name, hresolve hcounts, fun spec hspec => ?_⟩
    rw [hfile] at hspec
    cases hspec
  refused := by
    rintro toolkit earlier key name message found ⟨rfl, _⟩ ⟨hfiles, _⟩ ⟨_, hresolve⟩ hfound herror
      hcounts
    rw [hfiles] at hfound
    refine .inr ⟨name, hresolve hcounts, fun spec hspec => ?_⟩
    rw [hfound, Option.getD_some] at herror
    obtain rfl := Option.some.inj (hfound.symm.trans hspec)
    simp [herror]
  loaded := by
    rintro toolkit earlier key name found spec ⟨rfl, _, hsince⟩ ⟨hfiles, _⟩ ⟨_, hresolve⟩ hfound
      rfl hloads hcounts
    rw [hfiles] at hfound
    rw [hfound, Option.getD_some] at hloads ⊢
    exact ⟨name, found, _, hresolve hcounts, hfound, hloads, Nat.lt_succ_of_le hsince, rfl⟩
  member := by
    rintro key name ⟨⟨file, hfile⟩, _⟩
    cases hfile
  start := by
    rintro toolkit message ⟨_, hstart, _⟩ herror
    cases hstart.symm.trans herror
  keep := by
    rintro toolkit after ⟨hfiles, hstart, hsince⟩ hsameFiles hsameStart hmore
    exact ⟨hsameFiles.trans hfiles, hsameStart.trans hstart, Nat.le_trans hsince hmore⟩

end

namespace Inquiries

variable {inquiries : Inquiries}

/-- A workshop in which nothing has happened is in order. -/
theorem Orderly.fresh (resolve names : Text → Option GrammarName) (heeds counts : Text → Bool)
    {toolkit : Toolkit} (hstart : toolkit.startError = none) :
    (Inquiries.fresh resolve toolkit).Orderly
      (Terms.demanding names heeds counts toolkit.files 0 0) := by
  refine ⟨⟨⟨rfl, hstart, Nat.zero_le _⟩, ?_, by simp [Inquiries.fresh], by simp [Inquiries.fresh]⟩,
    Workshop.Attended.fresh toolkit, 0, Workshop.InTurn.fresh toolkit⟩
  exact ⟨Nat.le_refl _, by simp [Inquiries.fresh], by simp [Inquiries.fresh],
    by simp [Inquiries.fresh], by simp [Inquiries.fresh]⟩

/-- Lookups are served where only files are named, and what counts is named as demanded. -/
theorem serves_of_file {resolve names : Text → Option GrammarName} {heeds counts : Text → Bool}
    {key : Text} (hfile : ∀ name, resolve key ≠ some (.member name))
    (hsame : counts key = true → names key = resolve key) (files : Table String GrammarSpec)
    (since base : Nat) :
    Serves (Terms.demanding names heeds counts files since base) resolve key := by
  refine ⟨fun number asked hasked => ?_, fun hnone hcounts => ?_, fun grammar hname => ?_⟩
  · simp only [Terms.demanding] at hasked
    split at hasked
    · exact (Option.some.inj hasked).symm
    · cases hasked
  · exact .inl ((hsame hcounts).trans hnone)
  · refine ⟨?_, fun hcounts => (hsame hcounts).trans hname⟩
    cases grammar with
    | file name => exact ⟨name, rfl⟩
    | member name => exact absurd hname (hfile name)

/-- An answer that was given to someone who counts is the one demanded. -/
theorem Given.demanded {resolve : Text → Option GrammarName} {heeds counts : Text → Bool}
    {files : Table String GrammarSpec} {since base : Nat} {inquirer : Inquirer} {answer : Answer}
    (h : Given (Terms.demanding resolve heeds counts files since base) inquirer answer)
    (hheeds : heeds inquirer.key = true) (hcounts : counts inquirer.key = true) :
    Demanded resolve files since inquirer.key answer := by
  obtain ⟨table, hright⟩ := h
  have hasked : inquirer.key ∈
      (Terms.demanding resolve heeds counts files since base).asked inquirer := by
    simp [Terms.demanding, hheeds]
  match answer with
  | .ok (some language) => exact hright _ hasked hcounts
  | .ok none => exact hright _ hasked hcounts
  | .error fault => exact hright

/-- **One language does not block another.** Whatever else is looked up before or meanwhile, and
however that ends, a language whose grammar file is there and can be loaded is found: as long as
no language that is looked up is named like a member of every table, all answers to the lookup
are that language, and it has one once all tasks are taken and all requests finished, which run
out. -/
theorem language_found (builtin overrides : Table Text (List Text))
    (grammars : Table Text String) (toolkit : Toolkit) (hstart : toolkit.startError = none)
    (before later : List Inquiry) (key : Text) (file : String) (spec : GrammarSpec)
    (hquiet : ∀ inquiry ∈ before ++ later, ∀ names, inquiry ≠ .forget names)
    (hfiles : ∀ other, .lookup other ∈ before ++ later →
      ∀ name, (Catalog.make builtin overrides grammars).grammar? other ≠ some (.member name))
    (hfile : (Catalog.make builtin overrides grammars).grammar? key = some (.file file))
    (hfound : toolkit.files.get? (Path.below file) = some spec) (hloads : spec.loadError = none) :
    let asking := (fresh (Catalog.make builtin overrides grammars).grammar? toolkit).after before
    let now := (asking.next (.lookup key)).after later
    ∃ given, now.answers = asking.answers ++ given ∧
      (∀ answer, (asking.inquirer key, answer) ∈ given →
        ∃ number, answer = .ok (some (spec.language (Path.below file) number))) ∧
      (now.Settled → ∃ answer, (asking.inquirer key, answer) ∈ given) ∧
      ∀ inquiry, now.Advances inquiry →
        (now.next inquiry).workshop.effort < now.workshop.effort := by
  intro asking now
  set resolve := (Catalog.make builtin overrides grammars).grammar?
  set terms := Terms.demanding resolve (fun _ => true) (fun _ => true) toolkit.files 0 0
  have hsound : terms.Sound := Terms.demanding_sound ..
  have hkeeps {inquiry : Inquiry} (hmem : inquiry ∈ before ++ later) :
      Keeps terms resolve inquiry := by
    cases inquiry with
    | lookup other => exact serves_of_file (hfiles other hmem) (fun _ => rfl) _ _ _
    | forget names => exact hquiet _ hmem names rfl
    | task => trivial
    | complete place => trivial
  obtain ⟨horderly, hresolve⟩ := (Orderly.fresh resolve resolve _ _ hstart).after hsound
    fun inquiry hmem => hkeeps (List.mem_append_left later hmem)
  have hserves : Serves terms asking.resolve key := by
    rw [hresolve]
    refine serves_of_file (fun name hmember => ?_) (fun _ => rfl) _ _ _
    cases hfile.symm.trans hmember
  obtain ⟨given, hgiven, hright, hsettled⟩ := horderly.answered hsound hserves later
    fun inquiry hmem => by
      rw [hresolve]
      exact hkeeps (List.mem_append_right before hmem)
  refine ⟨given, hgiven, fun answer hanswer => ?_, hsettled, fun inquiry => effort_next now⟩
  have hdemanded : Demanded resolve toolkit.files 0 key answer :=
    Given.demanded (hright _ hanswer) rfl rfl
  match answer with
  | .error fault => cases hdemanded
  | .ok none =>
    rcases hdemanded with hnone | ⟨name, hname, hbad⟩
    · cases hfile.symm.trans hnone
    · cases hfile.symm.trans hname
      exact absurd hloads (hbad spec hfound)
  | .ok (some language) =>
    obtain ⟨name, other, number, hname, hother, _, _, rfl⟩ := hdemanded
    cases hfile.symm.trans hname
    obtain rfl := Option.some.inj (hfound.symm.trans hother)
    exact ⟨number, rfl⟩

/-- A language is found although the one looked up before it has a file that cannot be loaded. -/
theorem language_found_after_failure :
    let builtin : Table Text (List Text) := .ofRows [("a", ["fn"]), ("b", ["fn"])]
    let grammars : Table Text String := .ofRows [("a", "a.wasm"), ("b", "b.wasm")]
    let spec : GrammarSpec := ⟨["fn"], false, none⟩
    let toolkit : Toolkit :=
      { files := .ofRows [("a.wasm", ⟨[], false, some "bad"⟩), ("b.wasm", spec)] }
    let later : List Inquiry := .complete 0 :: List.replicate 8 .task ++
      .complete 0 :: List.replicate 12 .task ++ .complete 0 :: List.replicate 12 .task
    let asking := (fresh (Catalog.make builtin .empty grammars).grammar? toolkit).after
      [.lookup "a"]
    ∃ answer, (asking.inquirer "b", answer) ∈ ((asking.next (.lookup "b")).after later).answers ∧
      ∃ number, answer = .ok (some (spec.language "b.wasm" number)) := by
  intro builtin grammars spec toolkit later asking
  have hpath : Path.below "b.wasm" = "b.wasm" := by decide +kernel
  have hquiet : ∀ inquiry ∈ [.lookup "a"] ++ later, ∀ names, inquiry ≠ .forget names := by
    intro inquiry hmem names hforget
    subst hforget
    simp [later] at hmem
  have hsettled : ((asking.next (.lookup "b")).after later).Settled :=
    ⟨by decide +kernel, by decide +kernel⟩
  have hfiles : ∀ other, .lookup other ∈ [.lookup "a"] ++ later →
      ∀ name, (Catalog.make builtin .empty grammars).grammar? other ≠ some (.member name) := by
    intro other hother name hmember
    have hfile : (Catalog.make builtin .empty grammars).grammar? "a" = some (.file "a.wasm") := by
      decide +kernel
    obtain rfl : other = "a" := by simpa [later] using hother
    cases hfile.symm.trans hmember
  have hfound := language_found builtin .empty grammars toolkit rfl [.lookup "a"] later "b" "b.wasm"
    spec hquiet hfiles (by decide +kernel) (by rw [hpath]; decide +kernel) rfl
  extract_lets at hfound
  obtain ⟨given, hgiven, hright, hanswered, _⟩ := hfound
  obtain ⟨answer, hanswer⟩ := hanswered hsettled
  refine ⟨answer, ?_, ?_⟩
  · rw [hgiven]
    exact List.mem_append_right _ hanswer
  · rw [← hpath]
    exact hright answer hanswer

/-- A language that is named like a member of every table blocks all others: its lookup ends in a
fault, and so does every lookup after it, whatever file it needs. -/
theorem language_blocked_by_member :
    let builtin : Table Text (List Text) := .ofRows [("constructor", ["fn"]), ("python", ["fn"])]
    let grammars : Table Text String := .ofRows [("python", "a.wasm")]
    let spec : GrammarSpec := ⟨["fn"], false, none⟩
    let toolkit : Toolkit := { files := .ofRows [("a.wasm", spec)] }
    let resolve := (Catalog.make builtin .empty grammars).grammar?
    let asking := (fresh resolve toolkit).after
      (.lookup "constructor" :: .complete 0 :: List.replicate 8 .task)
    let now := (asking.next (.lookup "python")).after (List.replicate 8 .task)
    resolve "python" = some (.file "a.wasm") ∧
      toolkit.files.get? (Path.below "a.wasm") = some spec ∧ now.Settled ∧
      now.answers = [(⟨0, "constructor"⟩, .error .notAFileName),
        (asking.inquirer "python", .error .notAFileName)] := by
  refine ⟨by decide +kernel, by decide +kernel, ⟨?_, ?_⟩, ?_⟩
  · decide +kernel
  · decide +kernel
  · decide +kernel

end Inquiries

end ClosingLabels
