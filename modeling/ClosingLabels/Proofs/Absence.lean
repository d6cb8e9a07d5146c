import ClosingLabels.Proofs.Forgetting
import ClosingLabels.Proofs.Tallies

/-!
# Grammars that are not there

Whoever looks up a language whose grammar file is missing, or cannot be loaded, is told that there is
none. The file is tried by those alone who looked the language up before it was known to have no
grammar, and each of them meets the failure once at most. When there was one of them only, all others
are answered without the file.
-/

namespace ClosingLabels

open Inquiries (Unfound)

/-! ## What is answered -/

/-- Nobody gets a language of one name, and a lookup fails only where the toolkit cannot start. -/
def Terms.barren (resolve : Text → Option GrammarName) (toolkit : Toolkit) (key : Text) :
    Terms Inquirer where
  base := 0
  asked inquirer := if inquirer.key = key then some key else none
  named other grammar := (∃ name, grammar = .file name) ∧ resolve other = some grammar
  has _ other _ := other ≠ key
  made other _ := other ≠ key
  lacks _ := True
  faults := toolkit.startError ≠ none
  kept now := now.files = toolkit.files ∧ now.startError = toolkit.startError

/-- Loading keeps to that if the grammar file is missing or cannot be loaded. -/
theorem Terms.barren_sound {resolve : Text → Option GrammarName} {toolkit : Toolkit} {key : Text}
    (hunfound : Unfound resolve toolkit.files key) : (barren resolve toolkit key).Sound where
  grow _ hhas := hhas
  learn _ hmade := hmade
  missing _ _ _ := trivial
  refused _ _ _ _ _ := trivial
  loaded := by
    rintro now earlier other name found spec ⟨hfiles, -⟩ ⟨hearlier, -⟩ ⟨-, hresolve⟩ hfound rfl
      hloads rfl
    rw [hearlier] at hfound
    rw [hfiles, hfound, Option.getD_some] at hloads
    rcases hunfound with hnone | ⟨file, hfile, hbad⟩
    · cases hnone.symm.trans hresolve
    · cases hfile.symm.trans hresolve
      exact hbad found hfound hloads
  member := by
    rintro other name ⟨⟨file, hfile⟩, -⟩
    cases hfile
  start := by
    rintro now message ⟨-, hstart⟩ herror
    rw [hstart] at herror
    simp [barren, herror]
  keep := by
    rintro now after ⟨hfiles, hstart⟩ hsameFiles hsameStart -
    exact ⟨hsameFiles.trans hfiles, hsameStart.trans hstart⟩

namespace Inquiries

variable {inquiries : Inquiries} {key : Text}

/-- A workshop in which nothing has happened keeps to any such terms. -/
theorem Orderly.barren (resolve : Text → Option GrammarName) (toolkit : Toolkit) (key : Text) :
    (Inquiries.fresh resolve toolkit).Orderly (.barren resolve toolkit key) := by
  refine ⟨⟨⟨rfl, rfl⟩, ?_, by simp [Inquiries.fresh], by simp [Inquiries.fresh]⟩,
    Workshop.Attended.fresh toolkit, 0, Workshop.InTurn.fresh toolkit⟩
  exact ⟨Nat.le_refl _, by simp [Inquiries.fresh], by simp [Inquiries.fresh],
    by simp [Inquiries.fresh], by simp [Inquiries.fresh]⟩

/-- Lookups of grammars that are named by files keep to them. -/
theorem keeps_barren {names : Text → Option String} {toolkit : Toolkit} {inquiry : Inquiry}
    (hquiet : ∀ names, inquiry ≠ .forget names) :
    Keeps (.barren (GrammarName.byFile names) toolkit key) (GrammarName.byFile names) inquiry := by
  cases inquiry with
  | forget names => exact hquiet names rfl
  | task => trivial
  | complete place => trivial
  | lookup other =>
    refine ⟨fun number asked hasked => ?_, fun _ => trivial, fun grammar hname => ⟨?_, hname⟩⟩
    · simp only [Terms.barren, Option.mem_def] at hasked
      split at hasked
      · rw [← Option.some.inj hasked]
        exact (‹other = key›).symm
      · cases hasked
    · cases grammar with
      | file name => exact ⟨name, rfl⟩
      | member name => exact absurd hname (GrammarName.byFile_ne_member names other name)

/-- Whoever asked for that language is told that there is none. -/
theorem Given.barren {resolve : Text → Option GrammarName} {toolkit : Toolkit} {number : Nat}
    {answer : Answer} (h : Given (.barren resolve toolkit key) ⟨number, key⟩ answer) :
    answer = .ok none ∨ toolkit.startError ≠ none ∧ ∃ fault, answer = .error fault := by
  obtain ⟨table, hright⟩ := h
  have hasked : (Terms.barren resolve toolkit key).asked ⟨number, key⟩ = some key := if_pos rfl
  match answer with
  | .ok none => exact .inl rfl
  | .ok (some language) =>
    rw [hasked] at hright
    exact absurd rfl (hright key rfl)
  | .error fault => exact .inr ⟨hright, fault, rfl⟩

/-- All answers of a run on terms are given on them. -/
theorem Orderly.given {terms : Terms Inquirer} (hsound : terms.Sound)
    (h : inquiries.Orderly terms) {run : List Inquiry}
    (hkeeps : ∀ inquiry ∈ run, Keeps terms inquiries.resolve inquiry) :
    ∀ pair ∈ (inquiries.after run).answers,
      pair ∈ inquiries.answers ∨ Given terms pair.1 pair.2 := by
  induction run generalizing inquiries with
  | nil => exact fun pair hpair => .inl hpair
  | cons inquiry rest ih =>
    intro pair hpair
    have hfirst := hkeeps inquiry List.mem_cons_self
    have hrest : ∀ other ∈ rest, Keeps terms (inquiries.next inquiry).resolve other := by
      rw [resolve_next hfirst]
      exact fun other hother => hkeeps other (List.mem_cons_of_mem inquiry hother)
    obtain ⟨given, hgiven, hright, -⟩ := h.answers_next hfirst
    rcases ih (h.next hsound hfirst) hrest pair hpair with hearlier | hlater
    · rw [hgiven] at hearlier
      exact (List.mem_append.mp hearlier).imp_right (hright pair)
    · exact .inr hlater

/-! ## What is tried -/

/-- The events of an inquiry. -/
def trace (inquiries : Inquiries) : Inquiry → List Event
  | .lookup key =>
    (Workshop.lookup inquiries.resolve key (inquiries.inquirer key) inquiries.workshop).trace
  | .forget _ => (Workshop.forgetLanguages inquiries.workshop).trace
  | .task =>
    match inquiries.workshop.tasks with
    | .job job :: rest => (Workshop.perform job (inquiries.workshop.withTasks rest)).trace
    | _ => []
  | .complete place =>
    match inquiries.workshop.requests[place]? with
    | some asked => (Workshop.complete asked (inquiries.workshop.without place)).trace
    | none => []

/-- The language whose grammar file an inquiry turns to: that of the link which starts, if this does
not pass without an event. -/
def turnsTo (inquiries : Inquiries) : Inquiry → Option Text
  | .task =>
    match inquiries.workshop.tasks with
    | .job (.start link) :: _ =>
      if (inquiries.trace .task).isEmpty then none
      else (inquiries.workshop.grammars.links[link]?).map Link.key
    | _ => none
  | _ => none

/-- An inquiry looks a language up before it is known, or known to have no grammar. -/
def early (inquiries : Inquiries) (key : Text) : Inquiry → Bool
  | .lookup other =>
    other = key && (inquiries.workshop.grammars.languages.get? key).isNone &&
      !inquiries.workshop.grammars.unavailable.contains key
  | _ => false

/-- What is counted at each inquiry of a run, all together. -/
def total (count : Inquiries → Inquiry → Nat) : Inquiries → List Inquiry → Nat
  | _, [] => 0
  | inquiries, inquiry :: more =>
    count inquiries inquiry + total count (inquiries.next inquiry) more

/-- How often a run tells that the grammar of a language is missing or could not be loaded. -/
def failures (key : Text) : Inquiries → List Inquiry → Nat :=
  total fun inquiries inquiry => (inquiries.trace inquiry).countP (Event.failsFor key)

/-- How often a run turns to the grammar file of a language. -/
def tries (key : Text) : Inquiries → List Inquiry → Nat :=
  total fun inquiries inquiry => if inquiries.turnsTo inquiry = some key then 1 else 0

/-- How often a language is looked up in a run before it is known, or known to have no grammar. -/
def earlyLookups (key : Text) : Inquiries → List Inquiry → Nat :=
  total fun inquiries inquiry => if inquiries.early key inquiry then 1 else 0

/-- The books on one language: how often it was looked up early, how often its file was tried and how
often that failed. -/
def Booked (inquiries : Inquiries) (key : Text) (early tried failed : Nat) : Prop :=
  ∃ done, inquiries.workshop.Tallied key tried failed done ∧
    inquiries.workshop.onTheirWay key ≤ early

/-- A workshop in which nothing has happened has nothing in its books. -/
theorem Booked.fresh (resolve : Text → Option GrammarName) (toolkit : Toolkit) (key : Text) :
    (Inquiries.fresh resolve toolkit).Booked key 0 0 0 :=
  ⟨0, .fresh toolkit key, Nat.le_refl 0⟩

/-- A lookup that is not early brings nothing on its way. -/
theorem onTheirWay_lookup (inquiries : Inquiries) (key other : Text) :
    (inquiries.next (.lookup other)).workshop.onTheirWay key ≤
      inquiries.workshop.onTheirWay key + if inquiries.early key (.lookup other) then 1 else 0 := by
  have hsought := Workshop.lookup_sought inquiries.resolve other (inquiries.inquirer other)
    inquiries.workshop
  have hdelivered (answer : Answer) : (inquiries.workshop.enqueue
      [.deliver (inquiries.inquirer other) answer]).onTheirWay key =
        inquiries.workshop.onTheirWay key :=
    Workshop.onTheirWay_enqueue_idle _ (by simp [Task.enters])
  by_cases hsame : other = key
  · subst hsame
    by_cases hearly : inquiries.early other (.lookup other) = true
    · simpa [hearly, Inquiries.next] using hsought.onTheirWay other
    -- The lookup is answered at once: the language is known, or known to have no grammar.
    · rw [if_neg hearly]
      simp only [Inquiries.next]
      unfold Workshop.lookup
      rw [Action.bind_of_quiet (Workshop.lookGrammars_apply _)]
      cases hknown : inquiries.workshop.grammars.languages.get? other with
      | some language => exact Nat.le_of_eq (hdelivered _)
      | none =>
        have hkey : other ∈ inquiries.workshop.grammars.unavailable := by
          simpa [early, hknown] using hearly
        dsimp only
        rw [if_pos hkey]
        exact Nat.le_of_eq (hdelivered _)
  · have hless := hsought.onTheirWay key
    rw [if_neg hsame] at hless
    exact Nat.le_trans hless (Nat.le_add_right _ _)

/-- Only the start of a link turns to a grammar file. -/
theorem turns_or_not (inquiries : Inquiries) {job : Job Inquirer} {rest : List (Task Inquirer Empty)}
    (htasks : inquiries.workshop.tasks = .job job :: rest) (key : Text) :
    let turns := if inquiries.turnsTo .task = some key then 1 else 0
    turns = 0 ∨ turns = 1 ∧ ∃ link found, job = .start link ∧
      inquiries.workshop.grammars.links[link]? = some found ∧ found.key = key := by
  intro turns
  by_cases hturns : inquiries.turnsTo .task = some key
  · refine .inr ⟨if_pos hturns, ?_⟩
    cases job with
    | start link =>
      simp only [turnsTo, htasks] at hturns
      split at hturns
      · cases hturns
      · obtain ⟨found, hfound, hkey⟩ := Option.map_eq_some_iff.mp hturns
        exact ⟨link, found, rfl, hfound, hkey⟩
    | _ => simp [turnsTo, htasks] at hturns
  · exact .inl (if_neg hturns)

/-- A step of loading is entered in the books. -/
theorem Booked.perform {early tried failed : Nat} (h : inquiries.Booked key early tried failed)
    {job : Job Inquirer} {rest : List (Task Inquirer Empty)}
    (htasks : inquiries.workshop.tasks = .job job :: rest) :
    (inquiries.next .task).Booked key early
      (tried + if inquiries.turnsTo .task = some key then 1 else 0)
      (failed + (inquiries.trace .task).countP (Event.failsFor key)) := by
  obtain ⟨done, htallied, hearly⟩ := h
  have htook := Workshop.perform_took job (inquiries.workshop.withTasks rest)
  have hstate : (inquiries.next .task).workshop =
      (Workshop.perform job (inquiries.workshop.withTasks rest)).state := by
    simp only [Inquiries.next, htasks]
  have htrace : inquiries.trace .task =
      (Workshop.perform job (inquiries.workshop.withTasks rest)).trace := by
    simp only [trace, htasks]
  obtain ⟨later, hlater⟩ := htallied.perform htasks htook (inquiries.turns_or_not htasks key)
  refine ⟨later, by rwa [hstate, htrace], ?_⟩
  rw [hstate]
  refine Nat.le_trans (htook.onTheirWay key) (Nat.le_trans (Nat.le_of_eq ?_) hearly)
  simp only [Workshop.onTheirWay, Workshop.withTasks, Workshop.loadKeys, htasks,
    List.countP_cons]
  omega

/-- Every inquiry is entered in the books. -/
theorem Booked.next {early tried failed : Nat} (h : inquiries.Booked key early tried failed)
    (inquiry : Inquiry) :
    (inquiries.next inquiry).Booked key
      (early + if inquiries.early key inquiry then 1 else 0)
      (tried + if inquiries.turnsTo inquiry = some key then 1 else 0)
      (failed + (inquiries.trace inquiry).countP (Event.failsFor key)) := by
  obtain ⟨done, htallied, hearly⟩ := h
  cases inquiry with
  | forget names =>
    have hstill : (inquiries.next (.forget names)).workshop.Tallied key tried failed done :=
      htallied.still (htallied.turn.of_eq rfl rfl) rfl (fun link h => h) fun link h => h
    exact ⟨done, hstill, hearly⟩
  | lookup other =>
    have hsought := Workshop.lookup_sought inquiries.resolve other (inquiries.inquirer other)
      inquiries.workshop
    have hnone : (inquiries.trace (.lookup other)).countP (Event.failsFor key) = 0 :=
      hsought.unmet.2 key
    rw [hnone]
    refine ⟨done, htallied.lookup hsought, ?_⟩
    exact Nat.le_trans (onTheirWay_lookup inquiries key other) (Nat.add_le_add_right hearly _)
  | complete place =>
    simp only [Inquiries.next, trace]
    cases hplace : inquiries.workshop.requests[place]? with
    | none => exact ⟨done, htallied, hearly⟩
    | some asked =>
      have hcompleted := Workshop.complete_completed asked (inquiries.workshop.without place)
      dsimp only
      rw [hcompleted.unmet.2 key]
      refine ⟨done, htallied.complete hplace hcompleted, ?_⟩
      rw [hcompleted.onTheirWay key]
      exact hearly
  | task =>
    rw [if_neg (by simp [Inquiries.early])]
    cases htasks : inquiries.workshop.tasks with
    | nil =>
      simp only [Inquiries.next, trace, turnsTo, htasks]
      exact ⟨done, htallied, hearly⟩
    | cons task rest =>
      cases task with
      | deliver inquirer answer =>
        simp only [Inquiries.next, trace, turnsTo, htasks]
        refine ⟨done, htallied.take htasks rfl, Nat.le_trans (Nat.le_of_eq ?_) hearly⟩
        simp only [Workshop.onTheirWay, Workshop.withTasks, Workshop.loadKeys, htasks]
        rfl
      | client nobody => exact nobody.elim
      | job job => exact Booked.perform ⟨done, htallied, hearly⟩ htasks

/-- So is every run. -/
theorem Booked.after {early tried failed : Nat} (h : inquiries.Booked key early tried failed)
    (run : List Inquiry) :
    (inquiries.after run).Booked key (early + earlyLookups key inquiries run)
      (tried + tries key inquiries run) (failed + failures key inquiries run) := by
  induction run generalizing inquiries early tried failed with
  | nil => exact h
  | cons inquiry rest ih =>
    have hrest := ih (h.next inquiry)
    rw [Nat.add_assoc, Nat.add_assoc, Nat.add_assoc] at hrest
    exact hrest

/-- A grammar file is tried, and fails, no more often than its language is looked up early. -/
theorem tries_le_earlyLookups (resolve : Text → Option GrammarName) (toolkit : Toolkit) (key : Text)
    (run : List Inquiry) :
    tries key (fresh resolve toolkit) run ≤ earlyLookups key (fresh resolve toolkit) run ∧
      failures key (fresh resolve toolkit) run ≤ earlyLookups key (fresh resolve toolkit) run := by
  obtain ⟨done, htallied, hearly⟩ := (Booked.fresh resolve toolkit key).after run
  obtain ⟨htries, hfailures⟩ := htallied.le_onTheirWay
  omega

/-- **A grammar that is not there is tried once.** If the grammar file of a language is missing or
cannot be loaded, and the language is looked up once at most before it is known to have no grammar,
then the file is tried once at most and its failure is met once at most, however many lookups there
are and in whatever order tasks and requests are finished. Every lookup of the language is told that
there is none, unless the toolkit itself cannot start, and it is told so once all tasks are taken and
all requests finished, which run out. -/
theorem unavailable_tried_once (names : Text → Option String) (toolkit : Toolkit)
    (run : List Inquiry) (key : Text) (hquiet : ∀ inquiry ∈ run, ∀ others, inquiry ≠ .forget others)
    (hunfound : Unfound (GrammarName.byFile names) toolkit.files key)
    (hearly : earlyLookups key (fresh (GrammarName.byFile names) toolkit) run ≤ 1) :
    let start := fresh (GrammarName.byFile names) toolkit
    let now := start.after run
    failures key start run ≤ 1 ∧ tries key start run ≤ 1 ∧
      (∀ number answer, (⟨number, key⟩, answer) ∈ now.answers →
        answer = .ok none ∨ toolkit.startError ≠ none ∧ ∃ fault, answer = .error fault) ∧
      (now.Settled → ∀ before later, run = before ++ .lookup key :: later →
        ∃ answer, ((start.after before).inquirer key, answer) ∈ now.answers) ∧
      ∀ inquiry, now.Advances inquiry →
        (now.next inquiry).workshop.effort < now.workshop.effort := by
  intro start now
  obtain ⟨htries, hfailures⟩ := tries_le_earlyLookups (GrammarName.byFile names) toolkit key run
  have hsound := Terms.barren_sound hunfound
  have horderly := Orderly.barren (GrammarName.byFile names) toolkit key
  have hkeeps : ∀ inquiry ∈ run, Keeps (.barren (GrammarName.byFile names) toolkit key)
      (GrammarName.byFile names) inquiry := fun inquiry hmem => keeps_barren (hquiet inquiry hmem)
  refine ⟨Nat.le_trans hfailures hearly, Nat.le_trans htries hearly, fun number answer hanswer => ?_,
    fun hsettled before later hrun => ?_, fun inquiry => effort_next now⟩
  · rcases horderly.given hsound hkeeps _ hanswer with hnever | hgiven
    · cases hnever
    · exact hgiven.barren
  · have hbefore : ∀ inquiry ∈ before, Keeps (.barren (GrammarName.byFile names) toolkit key)
        (GrammarName.byFile names) inquiry := fun inquiry hmem =>
      hkeeps inquiry (hrun ▸ List.mem_append_left _ hmem)
    obtain ⟨hasking, hresolve⟩ := horderly.after hsound hbefore
    have hserves : Keeps (.barren (GrammarName.byFile names) toolkit key)
        (start.after before).resolve (.lookup key) := by
      rw [hresolve]
      exact hkeeps _ (by simp [hrun])
    obtain ⟨given, hgiven, -, hanswered⟩ := hasking.answered hsound hserves later
      fun inquiry hmem => by
        rw [hresolve]
        exact hkeeps inquiry (by simp [hrun, hmem])
    have hnow : now = ((start.after before).next (.lookup key)).after later := by
      simp only [now, hrun, Inquiries.after, List.foldl_append, List.foldl_cons]
    rw [hnow] at hsettled ⊢
    obtain ⟨answer, hanswer⟩ := hanswered hsettled
    exact ⟨answer, hgiven ▸ List.mem_append_right _ hanswer⟩

/-- A language is looked up again after its file was found to be missing. -/
theorem unavailable_tried_once_before_again :
    let names (key : Text) : Option String := if key = "python" then some "a.wasm" else none
    let start := fresh (GrammarName.byFile names) {}
    let before : List Inquiry := .lookup "python" :: .complete 0 :: List.replicate 9 .task
    let run := before ++ .lookup "python" :: [.task]
    failures "python" start run = 1 ∧ tries "python" start run = 1 ∧
      ∃ answer, ((start.after before).inquirer "python", answer) ∈ (start.after run).answers ∧
        answer = .ok none := by
  intro names start before run
  have hquiet : ∀ inquiry ∈ run, ∀ others, inquiry ≠ .forget others := by
    intro inquiry hmem others hforget
    subst hforget
    simp [run, before] at hmem
  have hunfound : Unfound (GrammarName.byFile names) ({} : Toolkit).files "python" :=
    .inr ⟨"a.wasm", by decide +kernel, fun spec hspec => by cases hspec⟩
  have honce := unavailable_tried_once names {} run "python" hquiet hunfound (by decide +kernel)
  extract_lets at honce
  obtain ⟨-, -, hnone, hanswered, -⟩ := honce
  obtain ⟨answer, hanswer⟩ :=
    hanswered ⟨by decide +kernel, by decide +kernel⟩ before [.task] rfl
  refine ⟨by decide +kernel, by decide +kernel, answer, hanswer, ?_⟩
  exact (hnone _ answer hanswer).resolve_right fun hstart => hstart.1 rfl

/-- When a language is looked up twice before its file is found to be missing, the file is tried
twice, and the failure is met twice. -/
theorem unavailable_tried_twice :
    let names (key : Text) : Option String := if key = "python" then some "a.wasm" else none
    let start := fresh (GrammarName.byFile names) {}
    let run : List Inquiry :=
      .lookup "python" :: .lookup "python" :: .complete 0 :: List.replicate 17 .task
    Unfound (GrammarName.byFile names) ({} : Toolkit).files "python" ∧
      failures "python" start run = 2 ∧ tries "python" start run = 2 ∧
      (start.after run).Settled := by
  refine ⟨.inr ⟨"a.wasm", by decide +kernel, fun spec hspec => by cases hspec⟩, ?_, ?_, ?_, ?_⟩
  · decide +kernel
  · decide +kernel
  · decide +kernel
  · decide +kernel

end Inquiries

end ClosingLabels
