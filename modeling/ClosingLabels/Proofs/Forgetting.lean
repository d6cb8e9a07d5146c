import ClosingLabels.Proofs.Lookups

/-!
# Forgotten languages are looked up anew

When the languages are forgotten, the names of their files may change. Nothing that was
known of a language before can then show in an answer, as long as nobody was waiting for
that language: a load that is under way while the languages are forgotten is not
stopped, and what it makes becomes known all the same.
-/

namespace ClosingLabels

/-- Someone waits for a language, or a link that loads it is not done. -/
def Workshop.Busy (workshop : Workshop Inquirer Empty) (key : Text) : Prop :=
  (∃ inquirer : Inquirer, workshop.Awaits inquirer ∧ inquirer.key = key) ∨
    ∃ link ∈ workshop.grammars.links, link.answer = none ∧ link.key = key

/-- The terms of any run at all: only files are named, and nothing fails. -/
def Terms.loose (files : Table String GrammarSpec) : Terms Inquirer :=
  demanding (fun _ => none) (fun _ => true) (fun _ => false) files 0 0

/-- The terms after the languages were forgotten: one of them counts, as it is named now. -/
def Terms.anew (names : Text → Option String) (key : Text) (files : Table String GrammarSpec)
    (since base : Nat) : Terms Inquirer :=
  demanding (GrammarName.byFile names) (fun other => decide (other = key))
    (fun other => decide (other = key)) files since base

namespace GrammarName

/-- What is named by its file is named by a file. -/
theorem byFile_ne_member (names : Text → Option String) (key name : Text) :
    byFile names key ≠ some (.member name) := by
  unfold byFile
  cases (names key).filter fun name => decide (name ≠ "") <;> simp

end GrammarName

namespace Inquiries

variable {inquiries : Inquiries} {files : Table String GrammarSpec}

/-- Forgetting the languages leaves loose terms in force. -/
theorem Orderly.forget (h : inquiries.Orderly (.loose files)) (names : Text → Option String) :
    (inquiries.next (.forget names)).Orderly (.loose files) := by
  obtain ⟨hhonest, hattended, done, hturn⟩ := h
  refine ⟨hhonest.reset id, ?_, done, hturn.of_eq rfl rfl⟩
  exact hattended.change inquiries.workshop.grammars.reset rfl (fun _ => id) (Nat.le_refl _)
    hattended.unanswered

/-- All inquiries keep to loose terms, also those that forget. -/
theorem Orderly.roam (h : inquiries.Orderly (.loose files))
    (hnames : ∃ names, inquiries.resolve = GrammarName.byFile names) (more : List Inquiry) :
    (inquiries.after more).Orderly (.loose files) := by
  induction more generalizing inquiries with
  | nil => exact h
  | cons inquiry rest ih =>
    by_cases hforget : ∃ names, inquiry = .forget names
    · obtain ⟨names, rfl⟩ := hforget
      exact ih (h.forget names) ⟨names, rfl⟩
    · have hkeeps : Keeps (.loose files) inquiries.resolve inquiry := by
        cases inquiry with
        | forget names => exact hforget ⟨names, rfl⟩
        | lookup key =>
          obtain ⟨names, hnames⟩ := hnames
          rw [hnames]
          exact serves_of_file (GrammarName.byFile_ne_member names key) (by simp) _ _ _
        | task => trivial
        | complete place => trivial
      exact ih (h.next (Terms.demanding_sound ..) hkeeps) (by rwa [resolve_next hkeeps])

/-! ## The languages are forgotten -/

section

variable {key : Text} {done : Nat}

/-- Nobody who waits asked for a language that is not busy. -/
theorem not_asked (hidle : ¬inquiries.workshop.Busy key) {names : Text → Option String}
    {since base : Nat} {inquirer : Inquirer} (hawaits : inquiries.workshop.Awaits inquirer) :
    (Terms.anew names key files since base).asked inquirer = none := by
  have hkey : inquirer.key ≠ key := fun hkey => hidle (.inl ⟨inquirer, hawaits, hkey⟩)
  simp [Terms.anew, Terms.demanding, hkey]

/-- Nothing that is driven loads a language that is not busy. -/
theorem ne_of_driven (hidle : ¬inquiries.workshop.Busy key)
    (hturn : inquiries.workshop.InTurn done) {number : Nat}
    (hdriven : number ∈ inquiries.workshop.driven) {other : Text} {grammar : GrammarName}
    (hat : inquiries.workshop.grammars.LinkAt number other grammar) : other ≠ key := by
  rintro rfl
  obtain ⟨link, hlink, hkey, -⟩ := hat
  rw [hturn.driven] at hdriven
  split at hdriven
  · rw [List.mem_singleton.mp hdriven] at hlink
    refine hidle (.inr ⟨link, List.mem_of_getElem? hlink, ?_, hkey⟩)
    simpa using hturn.chained.answered done link hlink
  · cases hdriven

/-- A lookup on loose terms that does not count keeps to the new terms. -/
theorem fits_anew (hidle : ¬inquiries.workshop.Busy key) {names : Text → Option String}
    {since base : Nat} {lookup : Lookup Inquirer} (hfits : (Terms.loose files).Fits lookup)
    (hawaits : inquiries.workshop.Awaits lookup.waiter) :
    (Terms.anew names key files since base).Fits lookup := by
  obtain ⟨⟨hfile, -⟩, hasked⟩ := hfits
  have hwaiter : lookup.waiter.key = lookup.key := hasked _ rfl
  refine ⟨⟨hfile, fun hcounts => ?_⟩, by simp [not_asked hidle hawaits]⟩
  have hkey : lookup.key = key := by simpa using hcounts
  exact absurd (.inl ⟨lookup.waiter, hawaits, hwaiter.trans hkey⟩) hidle

/-- An answer on loose terms is right for anyone who asked for nothing. -/
theorem right_of_none {names : Text → Option String} {since base : Nat}
    {table after : Table Text Language} {asked : Option Text} {answer : Answer}
    (h : (Terms.loose files).Right table asked answer) :
    (Terms.anew names key files since base).Right after none answer := by
  match answer with
  | .ok (some language) => exact fun _ hnone => by cases hnone
  | .ok none => exact fun _ hnone => by cases hnone
  | .error fault => exact h

/-- The links of a chain keep to the new terms: those that are done count no longer. -/
theorem fitsLink_anew (hidle : ¬inquiries.workshop.Busy key) {names : Text → Option String}
    {since base number : Nat} {link : Link Inquirer} {table after : Table Text Language}
    (hlink : inquiries.workshop.grammars.links[number]? = some link) (hbase : number < base)
    (h : (Terms.loose files).FitsLink table number link) :
    (Terms.anew names key files since base).FitsLink after number link := by
  have huncounted : (Terms.anew names key files since base).counted number link.key = none :=
    if_neg (Nat.not_le_of_lt hbase)
  refine ⟨fun hopen => ⟨(h.named hopen).1, fun hcounts => ?_⟩, fun answer hgiven => ?_, ?_⟩
  · have hkey : link.key = key := by simpa using hcounts
    exact absurd (.inr ⟨link, List.mem_of_getElem? hlink, hopen, hkey⟩) hidle
  · rw [huncounted]
    exact right_of_none (h.answer answer hgiven)
  · intro waiter hfollower asked hasked
    rw [not_asked hidle (.link hlink hfollower)] at hasked
    cases hasked

/-- The tasks keep to the new terms. -/
theorem fitsTask_anew (hidle : ¬inquiries.workshop.Busy key)
    (hturn : inquiries.workshop.InTurn done) {names : Text → Option String} {since : Nat}
    {task : Task Inquirer Empty} (hmem : task ∈ inquiries.workshop.tasks)
    (h : (Terms.loose files).FitsTask inquiries.workshop.grammars task) :
    (Terms.anew names key files since inquiries.workshop.grammars.links.length).FitsTask
      inquiries.workshop.grammars.reset task := by
  have hdriven {number : Nat} (hdrives : task.drives = some number) :
      number ∈ inquiries.workshop.driven :=
    List.mem_append_left _ (List.mem_filterMap.mpr ⟨task, hmem, hdrives⟩)
  have huncounted {number : Nat} {other : Text} {grammar : GrammarName}
      (hat : inquiries.workshop.grammars.LinkAt number other grammar) :
      (Terms.anew names key files since inquiries.workshop.grammars.links.length).counted
        number other = none := by
    obtain ⟨link, hlink, -⟩ := hat
    obtain ⟨hlt, -⟩ := List.getElem?_eq_some_iff.mp hlink
    exact if_neg (Nat.not_le_of_lt hlt)
  -- What a driven link loads does not count, whatever comes of it.
  have hexempt {number : Nat} (hdrives : task.drives = some number) {other : Text}
      {grammar : GrammarName} (hat : inquiries.workshop.grammars.LinkAt number other grammar)
      (hcounts : decide (other = key) = true) : False :=
    ne_of_driven hidle hturn (hdriven hdrives) hat (by simpa using hcounts)
  match task with
  | .deliver waiter answer =>
    simp only [Terms.FitsTask, not_asked hidle (.task hmem rfl)]
    exact right_of_none h
  | .job (.makeParser _) => trivial
  | .job (.failStartup _ _) => exact h
  | .job (.enter lookup) => exact fits_anew hidle h (.task hmem rfl)
  | .job (.start _) => trivial
  | .job (.relay waiter answer) =>
    simp only [Terms.FitsTask, Terms.FitsJob, not_asked hidle (.task hmem rfl)]
    exact right_of_none h
  | .job (.subscribe link waiter) =>
    obtain ⟨other, grammar, hat, -⟩ := h
    refine ⟨other, grammar, hat, fun asked hasked => ?_⟩
    rw [not_asked hidle (.task hmem rfl)] at hasked
    cases hasked
  | .job (.adopt link answer) =>
    obtain ⟨other, grammar, hat, hright⟩ := h
    exact ⟨other, grammar, hat, huncounted hat ▸ right_of_none hright⟩
  | .job (.settle link answer) =>
    obtain ⟨other, grammar, hat, hright⟩ := h
    exact ⟨other, grammar, hat, huncounted hat ▸ right_of_none hright⟩
  | .job (.finish link (.error fault)) =>
    obtain ⟨other, grammar, hat, -⟩ := h
    exact ⟨other, grammar, hat, fun hcounts => (hexempt rfl hat hcounts).elim⟩
  | .job (.finish link (.ok language)) =>
    obtain ⟨other, grammar, hat, -, -⟩ := h
    exact ⟨other, grammar, hat, rfl, fun hcounts => (hexempt rfl hat hcounts).elim⟩

/-- The requests keep to the new terms. -/
theorem fitsRequest_anew (hidle : ¬inquiries.workshop.Busy key)
    (hturn : inquiries.workshop.InTurn done) {names : Text → Option String} {since base : Nat}
    {asked : Request} (hmem : asked ∈ inquiries.workshop.requests)
    (hkept : (Terms.anew names key files since base).kept inquiries.workshop.toolkit)
    (h : (Terms.loose files).FitsRequest inquiries.workshop.grammars asked) :
    (Terms.anew names key files since base).FitsRequest inquiries.workshop.grammars.reset
      asked := by
  match asked with
  | .startup _ => trivial
  | .load link file found =>
    obtain ⟨other, name, hat, hfile, -, ⟨hnamed, -⟩, earlier, ⟨hsame, -⟩, hfound⟩ := h
    have hdriven : link ∈ inquiries.workshop.driven :=
      List.mem_append_right _ (List.mem_filterMap.mpr ⟨_, hmem, rfl⟩)
    refine ⟨other, name, hat, hfile, rfl, ⟨hnamed, fun hcounts => ?_⟩,
      inquiries.workshop.toolkit, hkept, ?_⟩
    · exact absurd (by simpa using hcounts) (ne_of_driven hidle hturn hdriven hat)
    · rw [hkept.1, ← hsame]
      exact hfound

/-- When the languages are forgotten, one that is not busy can count from then on. -/
theorem Orderly.renew (h : inquiries.Orderly (.loose files))
    (hidle : ¬inquiries.workshop.Busy key) (names : Text → Option String) :
    (inquiries.next (.forget names)).Orderly (.anew names key files
      inquiries.workshop.toolkit.languages inquiries.workshop.grammars.links.length) := by
  obtain ⟨-, hattended, hturned⟩ := h.forget names
  obtain ⟨hhonest, -, done, hturn⟩ := h
  obtain ⟨hfiles, hstart, -⟩ := hhonest.kept
  have hkept : (Terms.anew names key files inquiries.workshop.toolkit.languages
      inquiries.workshop.grammars.links.length).kept inquiries.workshop.toolkit :=
    ⟨hfiles, hstart, Nat.le_refl _⟩
  refine ⟨⟨hkept, ⟨Nat.le_refl _, ?_, ?_, ?_, ?_⟩, ?_, ?_⟩, hattended, hturned⟩
  · exact fun other language hnone => by cases hnone
  · exact fun other hnone => by cases hnone
  · intro startup hstartup
    have hfits := hhonest.grammars.startups startup hstartup
    cases startup with
    | ready => trivial
    | failed fault => exact hfits
    | pending waiting =>
      obtain ⟨number, hnumber⟩ := List.getElem?_of_mem hstartup
      exact fun lookup hlookup =>
        fits_anew hidle (hfits lookup hlookup) (.startup hnumber hlookup rfl)
  · intro number link hlink
    obtain ⟨hlt, -⟩ := List.getElem?_eq_some_iff.mp hlink
    exact fitsLink_anew hidle hlink hlt (hhonest.grammars.links number link hlink)
  · exact fun task hmem => fitsTask_anew hidle hturn hmem (hhonest.tasks task hmem)
  · exact fun asked hmem =>
      fitsRequest_anew hidle hturn hmem hkept (hhonest.requests asked hmem)

end

/-- Once nothing is left to be done, no language is busy. -/
theorem Settled.not_busy {terms : Terms Inquirer} (hsettled : inquiries.Settled)
    (h : inquiries.Orderly terms) (key : Text) : ¬inquiries.workshop.Busy key := by
  obtain ⟨-, hattended, done, hturn⟩ := h
  rintro (⟨inquirer, hawaits, -⟩ | ⟨link, hmem, hopen, -⟩)
  · exact hattended.not_awaits hturn hsettled.1 hsettled.2 inquirer hawaits
  · obtain ⟨number, hlink⟩ := List.getElem?_of_mem hmem
    obtain ⟨hlt, -⟩ := List.getElem?_eq_some_iff.mp hlink
    have hdriven := hturn.driven
    rw [Workshop.driven, hsettled.1, hsettled.2] at hdriven
    have hdone : number < done := by
      split at hdriven
      · cases hdriven
      · omega
    simpa [hopen] using (hturn.chained.answered number link hlink).mpr hdone

/-- **Forgetting takes effect.** Whatever happened before the languages were forgotten, and
whatever is looked up since, every answer about a language that nobody waited for at that time is
as the names and files of that time demand, from a file that was loaded since. A lookup has such
an answer once all tasks are taken and all requests finished, which run out. -/
theorem forgetting_takes_effect (toolkit : Toolkit) (hstart : toolkit.startError = none)
    (first names : Text → Option String) (before between later : List Inquiry) (key : Text)
    (hquiet : ∀ inquiry ∈ between ++ later, ∀ others, inquiry ≠ .forget others) :
    let earlier := (fresh (GrammarName.byFile first) toolkit).after before
    let asking := (earlier.next (.forget names)).after between
    let now := (asking.next (.lookup key)).after later
    ¬earlier.workshop.Busy key →
      ∃ given, now.answers = asking.answers ++ given ∧
        (∀ inquirer answer, (inquirer, answer) ∈ given → inquirer.key = key →
          Demanded (GrammarName.byFile names) toolkit.files earlier.workshop.toolkit.languages
            key answer) ∧
        (now.Settled → ∃ answer, (asking.inquirer key, answer) ∈ given) ∧
        ∀ inquiry, now.Advances inquiry →
          (now.next inquiry).workshop.effort < now.workshop.effort := by
  intro earlier asking now hidle
  have hearlier : earlier.Orderly (.loose toolkit.files) :=
    (Orderly.fresh _ _ _ _ hstart).roam ⟨first, rfl⟩ before
  have hrenewed := hearlier.renew hidle names
  set terms := Terms.anew names key toolkit.files earlier.workshop.toolkit.languages
    earlier.workshop.grammars.links.length
  have hsound : terms.Sound := Terms.demanding_sound ..
  have hserves (other : Text) : Serves terms (GrammarName.byFile names) other :=
    serves_of_file (GrammarName.byFile_ne_member names other) (fun _ => rfl) _ _ _
  have hkeeps {inquiry : Inquiry} (hmem : inquiry ∈ between ++ later) :
      Keeps terms (GrammarName.byFile names) inquiry := by
    cases inquiry with
    | lookup other => exact hserves other
    | forget others => exact hquiet _ hmem others rfl
    | task => trivial
    | complete place => trivial
  obtain ⟨horderly, hresolve⟩ := hrenewed.after hsound
    fun inquiry hmem => hkeeps (List.mem_append_left later hmem)
  have hasking : asking.resolve = GrammarName.byFile names := hresolve
  obtain ⟨given, hgiven, hright, hsettled⟩ := horderly.answered hsound
    (hasking.symm ▸ hserves key) later fun inquiry hmem => by
      rw [hresolve]
      exact hkeeps (List.mem_append_right between hmem)
  refine ⟨given, hgiven, fun inquirer answer hanswer hkey => ?_, hsettled,
    fun inquiry => effort_next now⟩
  subst hkey
  exact Given.demanded (hright _ hanswer) (by simp) (by simp)

/-- A language is loaded from the file that is named for it now, although another one is known
from before. -/
theorem forgetting_takes_effect_after_load :
    let spec : GrammarSpec := ⟨["fn"], false, none⟩
    let toolkit : Toolkit := { files := .ofRows [("a.wasm", spec), ("b.wasm", spec)] }
    let names (file : String) (key : Text) := if key = "python" then some file else none
    let load : List Inquiry := .complete 0 :: List.replicate 8 .task
    let earlier := (fresh (GrammarName.byFile (names "a.wasm")) toolkit).after
      (.lookup "python" :: .complete 0 :: List.replicate 8 .task ++ load)
    let asking := earlier.next (.forget (names "b.wasm"))
    let now := (asking.next (.lookup "python")).after (List.replicate 8 .task ++ load)
    earlier.answers = [(⟨0, "python"⟩, .ok (some (spec.language "a.wasm" 1)))] ∧
      ∃ answer, (⟨1, "python"⟩, answer) ∈ now.answers ∧
        Demanded (GrammarName.byFile (names "b.wasm")) toolkit.files 1 "python" answer := by
  intro spec toolkit names load earlier asking now
  have hanswers : earlier.answers = [(⟨0, "python"⟩, .ok (some (spec.language "a.wasm" 1)))] := by
    decide +kernel
  have hasked : asking.inquirer "python" = ⟨1, "python"⟩ := by decide +kernel
  have hlanguages : earlier.workshop.toolkit.languages = 1 := by decide +kernel
  have hearlier : earlier.Orderly (.loose toolkit.files) :=
    (Orderly.fresh _ _ _ _ rfl).roam ⟨names "a.wasm", rfl⟩ _
  have hbefore : earlier.Settled := ⟨by decide +kernel, by decide +kernel⟩
  have hsettled : now.Settled := ⟨by decide +kernel, by decide +kernel⟩
  have hquiet : ∀ inquiry ∈ [] ++ (List.replicate 8 .task ++ load), ∀ others,
      inquiry ≠ .forget others := by
    intro inquiry hmem others hforget
    subst hforget
    simp [load] at hmem
  have heffect := forgetting_takes_effect toolkit rfl (names "a.wasm") (names "b.wasm")
    (.lookup "python" :: .complete 0 :: List.replicate 8 .task ++ load) []
    (List.replicate 8 .task ++ load) "python" hquiet
  extract_lets at heffect
  obtain ⟨given, hgiven, hright, hanswered, -⟩ := heffect (hbefore.not_busy hearlier "python")
  obtain ⟨answer, hanswer⟩ := hanswered hsettled
  have hnow : now.answers = asking.answers ++ given := hgiven
  have hmem : (asking.inquirer "python", answer) ∈ now.answers := by
    rw [hnow]
    exact List.mem_append_right _ hanswer
  have hdemanded := hright _ answer hanswer rfl
  rw [hlanguages] at hdemanded
  exact ⟨hanswers, answer, hasked ▸ hmem, hdemanded⟩

/-- A load that is under way while the languages are forgotten decides later lookups: one finds
the language of a file that is no longer named for it. -/
theorem forgetting_undone_by_load :
    let spec : GrammarSpec := ⟨["fn"], false, none⟩
    let toolkit : Toolkit := { files := .ofRows [("a.wasm", spec), ("b.wasm", spec)] }
    let names (file : String) (key : Text) := if key = "python" then some file else none
    let earlier := (fresh (GrammarName.byFile (names "a.wasm")) toolkit).after
      (.lookup "python" :: .complete 0 :: List.replicate 4 .task)
    let asking := (earlier.next (.forget (names "b.wasm"))).after
      (.complete 0 :: List.replicate 8 .task)
    let now := (asking.next (.lookup "python")).after [.task]
    asking.resolve "python" = some (.file "b.wasm") ∧
      toolkit.files.get? (Path.below "b.wasm") = some spec ∧ now.Settled ∧
      now.answers = asking.answers ++
        [(asking.inquirer "python", .ok (some (spec.language "a.wasm" 1)))] := by
  refine ⟨by decide +kernel, by decide +kernel, ⟨?_, ?_⟩, ?_⟩
  · decide +kernel
  · decide +kernel
  · decide +kernel

end Inquiries

end ClosingLabels
