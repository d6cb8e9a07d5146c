import ClosingLabels.Proofs.Chain
import ClosingLabels.Proofs.Tables

/-!
# Where answers come from

An answer passes through many hands before it is delivered: it may be read from the
languages that are known, be made by a load, wait in a link of the chain, and travel in
several tasks. What is to be shown of it differs from case to case, but the way is the
same, so it is gone once, for any terms: which waiters and links count, which grammars
are asked for, which languages a name can have and which names can have none.
-/

namespace ClosingLabels

/-- What is to hold of answers. Links before `base` do not count, and neither does a waiter
who asked for nothing. -/
structure Terms (W : Type) where
  base : Nat
  /-- The language that a waiter asked for. -/
  asked : W → Option Text
  /-- The grammars that are looked up for a language. -/
  named : Text → GrammarName → Prop
  /-- What a language can be, given the languages that are known. -/
  has : Table Text Language → Text → Language → Prop
  /-- What can be loaded for a language. -/
  made : Text → Language → Prop
  /-- The languages that may have no grammar. -/
  lacks : Text → Prop
  /-- Whether a lookup may fail. -/
  faults : Prop
  /-- What is known of the toolkit at any time. -/
  kept : Toolkit → Prop

namespace Terms

variable {W C : Type}

/-- Terms that loading keeps to. -/
structure Sound (terms : Terms W) : Prop where
  /-- A language that becomes known does not change what the others can be. -/
  grow : ∀ {table : Table Text Language} {key other : Text} {language found : Language},
    table.get? key = none → terms.has table other found →
    terms.has (table.insert key language) other found
  /-- A language that was loaded can become known. -/
  learn : ∀ {table : Table Text Language} {key : Text} {language : Language},
    table.get? key = none → terms.made key language →
    terms.has (table.insert key language) key language
  missing : ∀ {toolkit : Toolkit} {key : Text} {name : String},
    terms.kept toolkit → terms.named key (.file name) →
    toolkit.files.get? (Path.below name) = none → terms.lacks key
  refused : ∀ {toolkit earlier : Toolkit} {key : Text} {name message : String}
    {found : GrammarSpec}, terms.kept toolkit → terms.kept earlier →
    terms.named key (.file name) → earlier.files.get? (Path.below name) = some found →
    ((toolkit.files.get? (Path.below name)).getD found).loadError = some message →
    terms.lacks key
  loaded : ∀ {toolkit earlier : Toolkit} {key : Text} {name : String} {found spec : GrammarSpec},
    terms.kept toolkit → terms.kept earlier → terms.named key (.file name) →
    earlier.files.get? (Path.below name) = some found →
    spec = (toolkit.files.get? (Path.below name)).getD found → spec.loadError = none →
    terms.made key (spec.language (Path.below name) (toolkit.languages + 1))
  member : ∀ {key name : Text}, terms.named key (.member name) → terms.faults
  start : ∀ {toolkit : Toolkit} {message : String}, terms.kept toolkit →
    toolkit.startError = some message → terms.faults
  keep : ∀ {toolkit after : Toolkit}, terms.kept toolkit → after.files = toolkit.files →
    after.startError = toolkit.startError → toolkit.languages ≤ after.languages →
    terms.kept after

/-- An answer that someone may get who asked for a language, or for nothing. -/
def Right (terms : Terms W) (table : Table Text Language) (asked : Option Text) : Answer → Prop
  | .ok (some language) => ∀ key ∈ asked, terms.has table key language
  | .ok none => ∀ key ∈ asked, terms.lacks key
  | .error _ => terms.faults

/-- The language that a link counts for. -/
def counted (terms : Terms W) (link : Nat) (key : Text) : Option Text :=
  if terms.base ≤ link then some key else none

/-- A waiter may wait for a link that loads what he asked for. -/
def Attached (terms : Terms W) (link : Nat) (key : Text) (waiter : W) : Prop :=
  ∀ asked ∈ terms.asked waiter, asked ∈ terms.counted link key

/-- A lookup is for what its waiter asked for, and for a grammar of that language. -/
def Fits (terms : Terms W) (lookup : Lookup W) : Prop :=
  terms.named lookup.key lookup.grammar ∧ ∀ asked ∈ terms.asked lookup.waiter, asked = lookup.key

variable {terms : Terms W} {table : Table Text Language}

theorem mem_counted {link : Nat} {key asked : Text} :
    asked ∈ terms.counted link key ↔ terms.base ≤ link ∧ asked = key := by
  unfold counted
  split
  · simp [*, eq_comm]
  · simp [*]

theorem eq_of_mem_counted {link : Nat} {key : Text} :
    ∀ asked ∈ terms.counted link key, asked = key :=
  fun _ hmem => (mem_counted.mp hmem).2

/-- What is right for more is right for less. -/
theorem Right.of_asked {asked less : Option Text} {answer : Answer}
    (h : terms.Right table asked answer) (hless : ∀ key ∈ less, key ∈ asked) :
    terms.Right table less answer := by
  match answer with
  | .ok (some language) => exact fun key hkey => h key (hless key hkey)
  | .ok none => exact fun key hkey => h key (hless key hkey)
  | .error fault => exact h

/-- A language is a right answer for those who asked for no other. -/
theorem right_some {asked : Option Text} {key : Text} {language : Language}
    (hasked : ∀ other ∈ asked, other = key) (hhas : terms.has table key language) :
    terms.Right table asked (.ok (some language)) := by
  intro other hother
  rw [hasked other hother]
  exact hhas

variable (table) in
/-- That there is none is a right answer for those who asked for no other. -/
theorem right_none {asked : Option Text} {key : Text} (hasked : ∀ other ∈ asked, other = key)
    (hlacks : terms.lacks key) : terms.Right table asked (.ok none) := by
  intro other hother
  rw [hasked other hother]
  exact hlacks

/-- What is right stays right when the languages only ever grow. -/
theorem Right.mono {after : Table Text Language} {asked : Option Text} {answer : Answer}
    (h : terms.Right table asked answer)
    (hgrow : ∀ key language, terms.has table key language → terms.has after key language) :
    terms.Right after asked answer := by
  match answer with
  | .ok (some language) => exact fun key hkey => hgrow key language (h key hkey)
  | .ok none => exact h
  | .error fault => exact h

/-! ## Grammars, tasks and requests on terms -/

/-- A start whose lookups keep to the terms. -/
def FitsStartup (terms : Terms W) : Startup W → Prop
  | .pending waiting => ∀ lookup ∈ waiting, terms.Fits lookup
  | .ready => True
  | .failed _ => terms.faults

/-- A link that keeps to the terms. What a link loads does not matter any more once it is
done. -/
structure FitsLink (terms : Terms W) (table : Table Text Language) (number : Nat)
    (link : Link W) : Prop where
  named : link.answer = none → terms.named link.key link.grammar
  answer : ∀ answer ∈ link.answer, terms.Right table (terms.counted number link.key) answer
  followers : ∀ waiter, .answer waiter ∈ link.followers → terms.Attached number link.key waiter

/-- Grammars that keep to the terms. -/
structure FitsGrammars (terms : Terms W) (grammars : Grammars W) : Prop where
  base : terms.base ≤ grammars.links.length
  languages : ∀ key language, grammars.languages.get? key = some language →
    terms.has grammars.languages key language
  unavailable : ∀ key ∈ grammars.unavailable, terms.lacks key
  startups : ∀ startup ∈ grammars.startups, terms.FitsStartup startup
  links : ∀ number link, grammars.links[number]? = some link →
    terms.FitsLink grammars.languages number link

end Terms

/-- A link of the chain, by what it loads. -/
def Grammars.LinkAt {W : Type} (grammars : Grammars W) (number : Nat) (key : Text)
    (grammar : GrammarName) : Prop :=
  ∃ link, grammars.links[number]? = some link ∧ link.key = key ∧ link.grammar = grammar

namespace Grammars

variable {W : Type} {grammars : Grammars W} {number : Nat} {key : Text} {grammar : GrammarName}

theorem linkAt_of_getElem? {link : Link W} (hlink : grammars.links[number]? = some link) :
    grammars.LinkAt number link.key link.grammar := ⟨link, hlink, rfl, rfl⟩

/-- What a link loads is known by its number. -/
theorem LinkAt.key_eq (h : grammars.LinkAt number key grammar) {link : Link W}
    (hlink : grammars.links[number]? = some link) : link.key = key ∧ link.grammar = grammar := by
  obtain ⟨found, hfound, hkey, hgrammar⟩ := h
  obtain rfl := Option.some.inj (hfound.symm.trans hlink)
  exact ⟨hkey, hgrammar⟩

/-- A link stays where it is when the chain is extended. -/
theorem LinkAt.extend (h : grammars.LinkAt number key grammar) (lookup : Lookup W) :
    (grammars.extend lookup).LinkAt number key grammar := by
  obtain ⟨link, hlink, hloads⟩ := h
  obtain ⟨hlt, _⟩ := List.getElem?_eq_some_iff.mp hlink
  exact ⟨link, (List.getElem?_append_left hlt).trans hlink, hloads⟩

/-- A link still loads the same when its answer or its followers change. -/
theorem LinkAt.editLink (h : grammars.LinkAt number key grammar) (changed : Nat)
    {f : Link W → Link W} (hkey : ∀ link, (f link).key = link.key)
    (hgrammar : ∀ link, (f link).grammar = link.grammar) :
    (grammars.editLink changed f).LinkAt number key grammar := by
  obtain ⟨link, hlink, rfl, rfl⟩ := h
  refine ⟨if changed = number then f link else link, ?_, ?_, ?_⟩
  · rw [Grammars.editLink, List.getElem?_modify, hlink]
    rfl
  · split
    · exact hkey link
    · rfl
  · split
    · exact hgrammar link
    · rfl

@[simp] theorem languages_markUnavailable (grammars : Grammars W) (key : Text) :
    (grammars.markUnavailable key).languages = grammars.languages := by
  unfold markUnavailable
  split <;> rfl

@[simp] theorem startups_markUnavailable (grammars : Grammars W) (key : Text) :
    (grammars.markUnavailable key).startups = grammars.startups := by
  unfold markUnavailable
  split <;> rfl

theorem LinkAt.markUnavailable (h : grammars.LinkAt number key grammar) (marked : Text) :
    (grammars.markUnavailable marked).LinkAt number key grammar := by
  obtain ⟨link, hlink, hloads⟩ := h
  exact ⟨link, (links_markUnavailable _ _).symm ▸ hlink, hloads⟩

theorem mem_markUnavailable {key other : Text}
    (hmem : other ∈ (grammars.markUnavailable key).unavailable) :
    other ∈ grammars.unavailable ∨ other = key := by
  unfold markUnavailable at hmem
  split at hmem
  · exact .inl hmem
  · simpa using hmem

end Grammars

namespace Terms

variable {W C : Type}

/-- A step of loading that keeps to the terms. A load can only be under way for a language that
is not known. -/
def FitsJob (terms : Terms W) (grammars : Grammars W) : Job W → Prop
  | .makeParser _ => True
  | .failStartup _ _ => terms.faults
  | .enter lookup => terms.Fits lookup
  | .subscribe link waiter =>
    ∃ key grammar, grammars.LinkAt link key grammar ∧ terms.Attached link key waiter
  | .start _ => True
  | .finish link (.ok language) =>
    ∃ key grammar, grammars.LinkAt link key grammar ∧ grammars.languages.get? key = none ∧
      terms.made key language
  | .finish link (.error _) =>
    ∃ key grammar, grammars.LinkAt link key grammar ∧ terms.lacks key
  | .adopt link answer =>
    ∃ key grammar, grammars.LinkAt link key grammar ∧
      terms.Right grammars.languages (terms.counted link key) answer
  | .settle link answer =>
    ∃ key grammar, grammars.LinkAt link key grammar ∧
      terms.Right grammars.languages (terms.counted link key) answer
  | .relay waiter answer => terms.Right grammars.languages (terms.asked waiter) answer

/-- A task that keeps to the terms. -/
def FitsTask (terms : Terms W) (grammars : Grammars W) : Task W C → Prop
  | .job step => terms.FitsJob grammars step
  | .deliver waiter answer => terms.Right grammars.languages (terms.asked waiter) answer
  | .client _ => True

/-- A request that keeps to the terms: the file was found when the load was asked for. -/
def FitsRequest (terms : Terms W) (grammars : Grammars W) : Request → Prop
  | .startup _ => True
  | .load link file found =>
    ∃ key name, grammars.LinkAt link key (.file name) ∧ file = Path.below name ∧
      grammars.languages.get? key = none ∧ terms.named key (.file name) ∧
      ∃ earlier, terms.kept earlier ∧ earlier.files.get? file = some found

/-- A workshop that keeps to the terms. -/
structure Honest (terms : Terms W) (workshop : Workshop W C) : Prop where
  kept : terms.kept workshop.toolkit
  grammars : terms.FitsGrammars workshop.grammars
  tasks : ∀ task ∈ workshop.tasks, terms.FitsTask workshop.grammars task
  requests : ∀ asked ∈ workshop.requests, terms.FitsRequest workshop.grammars asked

section

variable {terms : Terms W} {before after : Grammars W}

/-- A task keeps to the terms when links stay where they are and languages only grow. The task
of a load must not see a language become known. -/
theorem FitsTask.mono {task : Task W C} (h : terms.FitsTask before task)
    (hlinks : ∀ number key grammar, before.LinkAt number key grammar →
      after.LinkAt number key grammar)
    (hgrow : ∀ key language, terms.has before.languages key language →
      terms.has after.languages key language)
    (hload : task.drives = none ∨
      ∀ key, before.languages.get? key = none → after.languages.get? key = none) :
    terms.FitsTask after task := by
  match task with
  | .client _ => trivial
  | .deliver waiter answer => exact Right.mono h hgrow
  | .job (.makeParser _) => trivial
  | .job (.failStartup _ _) => exact h
  | .job (.enter _) => exact h
  | .job (.start _) => trivial
  | .job (.relay waiter answer) => exact Right.mono h hgrow
  | .job (.subscribe link waiter) =>
    obtain ⟨key, grammar, hat, hattached⟩ := h
    exact ⟨key, grammar, hlinks _ _ _ hat, hattached⟩
  | .job (.adopt link answer) =>
    obtain ⟨key, grammar, hat, hright⟩ := h
    exact ⟨key, grammar, hlinks _ _ _ hat, hright.mono hgrow⟩
  | .job (.settle link answer) =>
    obtain ⟨key, grammar, hat, hright⟩ := h
    exact ⟨key, grammar, hlinks _ _ _ hat, hright.mono hgrow⟩
  | .job (.finish link (.error fault)) =>
    obtain ⟨key, grammar, hat, hlacks⟩ := h
    exact ⟨key, grammar, hlinks _ _ _ hat, hlacks⟩
  | .job (.finish link (.ok language)) =>
    obtain ⟨key, grammar, hat, hnew, hmade⟩ := h
    rcases hload with hdrives | hunknown
    · cases hdrives
    · exact ⟨key, grammar, hlinks _ _ _ hat, hunknown key hnew, hmade⟩

/-- A request keeps to the terms in the same way. -/
theorem FitsRequest.mono {asked : Request} (h : terms.FitsRequest before asked)
    (hlinks : ∀ number key grammar, before.LinkAt number key grammar →
      after.LinkAt number key grammar)
    (hload : asked.drives = none ∨
      ∀ key, before.languages.get? key = none → after.languages.get? key = none) :
    terms.FitsRequest after asked := by
  match asked with
  | .startup _ => trivial
  | .load link file found =>
    obtain ⟨key, name, hat, hfile, hnew, hnamed, hfound⟩ := h
    rcases hload with hdrives | hunknown
    · cases hdrives
    · exact ⟨key, name, hlinks _ _ _ hat, hfile, hunknown key hnew, hnamed, hfound⟩

end

/-! ## Changes of the grammars -/

namespace FitsGrammars

variable {terms : Terms W} {grammars : Grammars W}

theorem markUnavailable (h : terms.FitsGrammars grammars) {key : Text} (hlacks : terms.lacks key) :
    terms.FitsGrammars (grammars.markUnavailable key) := by
  refine ⟨?_, ?_, ?_, ?_, ?_⟩
  · rw [Grammars.links_markUnavailable]
    exact h.base
  · rw [Grammars.languages_markUnavailable]
    exact h.languages
  · intro other hmem
    rcases Grammars.mem_markUnavailable hmem with hold | rfl
    · exact h.unavailable other hold
    · exact hlacks
  · rw [Grammars.startups_markUnavailable]
    exact h.startups
  · rw [Grammars.links_markUnavailable, Grammars.languages_markUnavailable]
    exact h.links

theorem setStartup (h : terms.FitsGrammars grammars) (number : Nat) {startup : Startup W}
    (hfits : terms.FitsStartup startup) :
    terms.FitsGrammars (grammars.setStartup number startup) := by
  refine ⟨h.base, h.languages, h.unavailable, ?_, h.links⟩
  intro other hmem
  rcases List.mem_or_eq_of_mem_set hmem with hold | rfl
  · exact h.startups other hold
  · exact hfits

theorem addStartup (h : terms.FitsGrammars grammars) {startup : Startup W}
    (hfits : terms.FitsStartup startup) : terms.FitsGrammars (grammars.addStartup startup) := by
  refine ⟨h.base, h.languages, h.unavailable, ?_, h.links⟩
  intro other hmem
  rcases List.mem_append.mp hmem with hold | hnew
  · exact h.startups other hold
  · rw [List.mem_singleton.mp hnew]
    exact hfits

theorem extend (h : terms.FitsGrammars grammars) {lookup : Lookup W} (hfits : terms.Fits lookup) :
    terms.FitsGrammars (grammars.extend lookup) := by
  refine ⟨?_, h.languages, h.unavailable, h.startups, ?_⟩
  · rw [Grammars.length_extend]
    exact Nat.le_succ_of_le h.base
  · intro number link hget
    rcases Grammars.extend_cases hget with ⟨_, hold⟩ | ⟨rfl, rfl⟩
    · exact h.links number link hold
    · exact ⟨fun _ => hfits.1, by simp, by simp⟩

/-- Changing a link as the terms allow. -/
theorem editLink (h : terms.FitsGrammars grammars) (number : Nat) {f : Link W → Link W}
    (hf : ∀ link, grammars.links[number]? = some link →
      terms.FitsLink grammars.languages number link →
      terms.FitsLink grammars.languages number (f link)) :
    terms.FitsGrammars (grammars.editLink number f) := by
  refine ⟨?_, h.languages, h.unavailable, h.startups, ?_⟩
  · rw [Grammars.length_editLink]
    exact h.base
  · intro i link hget
    obtain ⟨old, hold, rfl⟩ := Grammars.editLink_cases hget
    have hfits := h.links i old hold
    split
    · subst i
      exact hf old hold hfits
    · exact hfits

theorem followStart (h : terms.FitsGrammars grammars) (number link : Nat) :
    terms.FitsGrammars (grammars.follow number (.start link)) := by
  refine h.editLink number fun found _ hfits => ⟨hfits.named, hfits.answer, ?_⟩
  intro waiter hmem
  rcases List.mem_append.mp hmem with hold | hnew
  · exact hfits.followers waiter hold
  · cases List.mem_singleton.mp hnew

theorem followAnswer (h : terms.FitsGrammars grammars) {number : Nat} {waiter : W} {key : Text}
    {grammar : GrammarName} (hat : grammars.LinkAt number key grammar)
    (hattached : terms.Attached number key waiter) :
    terms.FitsGrammars (grammars.follow number (.answer waiter)) := by
  refine h.editLink number fun found hfound hfits => ⟨hfits.named, hfits.answer, ?_⟩
  intro other hmem
  rcases List.mem_append.mp hmem with hold | hnew
  · exact hfits.followers other hold
  · cases List.mem_singleton.mp hnew
    rw [(hat.key_eq hfound).1]
    exact hattached

theorem close (h : terms.FitsGrammars grammars) {number : Nat} {answer : Answer} {key : Text}
    {grammar : GrammarName} (hat : grammars.LinkAt number key grammar)
    (hright : terms.Right grammars.languages (terms.counted number key) answer) :
    terms.FitsGrammars (grammars.close number answer) := by
  refine h.editLink number fun found hfound hfits => ⟨by simp, ?_, by simp⟩
  intro given hgiven
  obtain rfl := Option.some.inj hgiven
  rw [(hat.key_eq hfound).1]
  exact hright

theorem learn (hsound : terms.Sound) (h : terms.FitsGrammars grammars) {key : Text}
    {language : Language} (hnew : grammars.languages.get? key = none)
    (hmade : terms.made key language) : terms.FitsGrammars (grammars.learn key language) := by
  refine ⟨h.base, ?_, h.unavailable, h.startups, ?_⟩
  · intro other found hget
    simp only [Grammars.learn, Table.get?_insert] at hget ⊢
    split at hget
    · obtain rfl := Option.some.inj hget
      subst other
      exact hsound.learn hnew hmade
    · exact hsound.grow hnew (h.languages other found hget)
  · intro number link hlink
    obtain ⟨hnamed, hanswer, hfollowers⟩ := h.links number link hlink
    refine ⟨hnamed, fun answer hgiven => ?_, hfollowers⟩
    exact (hanswer answer hgiven).mono fun _ _ => hsound.grow hnew

end FitsGrammars

/-! ## Steps -/

namespace Honest

open Workshop (Took Sought Completed)

variable {terms : Terms W} {workshop : Workshop W C} {done : Nat}

/-- Taking a task leaves those that keep to the terms. -/
theorem take (h : terms.Honest workshop) {task : Task W C} {rest : List (Task W C)}
    (htasks : workshop.tasks = task :: rest) : terms.Honest (workshop.withTasks rest) := by
  refine ⟨h.kept, h.grammars, fun other hmem => ?_, h.requests⟩
  exact h.tasks other (htasks ▸ List.mem_cons_of_mem _ hmem)

/-- New tasks have to keep to the terms. -/
theorem enqueue (h : terms.Honest workshop) {tasks : List (Task W C)}
    (htasks : ∀ task ∈ tasks, terms.FitsTask workshop.grammars task) :
    terms.Honest (workshop.enqueue tasks) := by
  refine ⟨h.kept, h.grammars, fun task hmem => ?_, h.requests⟩
  rcases List.mem_append.mp hmem with hold | hnew
  · exact h.tasks task hold
  · exact htasks task hnew

theorem push (h : terms.Honest workshop) {task : Task W C}
    (htask : terms.FitsTask workshop.grammars task) : terms.Honest (workshop.enqueue [task]) := by
  refine h.enqueue fun other hmem => ?_
  rw [List.mem_singleton.mp hmem]
  exact htask

/-- A new request has to keep to the terms. -/
theorem ask (h : terms.Honest workshop) {asked : Request}
    (hasked : terms.FitsRequest workshop.grammars asked) : terms.Honest (workshop.ask asked) := by
  refine ⟨h.kept, h.grammars, h.tasks, fun other hmem => ?_⟩
  rcases List.mem_append.mp hmem with hold | hnew
  · exact h.requests other hold
  · rw [List.mem_singleton.mp hnew]
    exact hasked

/-- The grammars may change as long as links stay where they are and languages as they are. -/
theorem change (h : terms.Honest workshop) {grammars : Grammars W}
    (hfits : terms.FitsGrammars grammars)
    (hlinks : ∀ number key grammar, workshop.grammars.LinkAt number key grammar →
      grammars.LinkAt number key grammar)
    (hsame : grammars.languages = workshop.grammars.languages) :
    terms.Honest (workshop.withGrammars grammars) := by
  have hunknown (key : Text) (hnew : workshop.grammars.languages.get? key = none) :
      grammars.languages.get? key = none := hsame ▸ hnew
  refine ⟨h.kept, hfits, fun task hmem => ?_, fun asked hmem => ?_⟩
  · exact (h.tasks task hmem).mono hlinks (fun key language hhas => hsame ▸ hhas) (.inr hunknown)
  · exact (h.requests asked hmem).mono hlinks (.inr hunknown)

/-- Marking a language as having no grammar. -/
theorem mark (h : terms.Honest workshop) {key : Text} (hlacks : terms.lacks key) :
    terms.Honest (workshop.withGrammars (workshop.grammars.markUnavailable key)) := by
  exact h.change (h.grammars.markUnavailable hlacks) (fun _ _ _ hat => hat.markUnavailable key)
    (Grammars.languages_markUnavailable _ _)

/-- A language becomes known while nothing drives a link. -/
theorem learn (hsound : terms.Sound) (h : terms.Honest workshop) (hidle : workshop.driven = [])
    {key : Text} {language : Language} (hnew : workshop.grammars.languages.get? key = none)
    (hmade : terms.made key language) :
    terms.Honest (workshop.withGrammars (workshop.grammars.learn key language)) := by
  obtain ⟨htasks, hrequests⟩ := List.append_eq_nil_iff.mp hidle
  rw [List.filterMap_eq_nil_iff] at htasks hrequests
  refine ⟨h.kept, h.grammars.learn hsound hnew hmade, fun task hmem => ?_, fun asked hmem => ?_⟩
  · exact (h.tasks task hmem).mono (fun _ _ _ hat => hat) (fun _ _ => hsound.grow hnew)
      (.inl (htasks task hmem))
  · exact (h.requests asked hmem).mono (fun _ _ _ hat => hat) (.inl (hrequests asked hmem))

/-- The languages may be forgotten, if it does not matter which others are known. -/
theorem reset (h : terms.Honest workshop)
    (hfree : ∀ {table after : Table Text Language} {key : Text} {language : Language},
      terms.has table key language → terms.has after key language) :
    terms.Honest (workshop.withGrammars workshop.grammars.reset) := by
  have hfits : terms.FitsGrammars workshop.grammars.reset := by
    refine ⟨h.grammars.base, by simp [Grammars.reset], by simp [Grammars.reset],
      h.grammars.startups, fun number link hlink => ?_⟩
    obtain ⟨hnamed, hanswer, hfollowers⟩ := h.grammars.links number link hlink
    exact ⟨hnamed, fun answer hgiven => (hanswer answer hgiven).mono fun _ _ => hfree, hfollowers⟩
  refine ⟨h.kept, hfits, fun task hmem => ?_, fun asked hmem => ?_⟩
  · exact (h.tasks task hmem).mono (fun _ _ _ hat => hat) (fun _ _ => hfree)
      (.inr fun _ _ => rfl)
  · exact (h.requests asked hmem).mono (fun _ _ _ hat => hat) (.inr fun _ _ => rfl)

/-- A lookup joins the chain, and its waiter may wait for the new link. -/
theorem join (h : terms.Honest workshop) {lookup : Lookup W} (hfits : terms.Fits lookup) :
    terms.Honest (workshop.withGrammars (workshop.grammars.extend lookup)) ∧
      terms.FitsTask (C := C) (workshop.grammars.extend lookup)
        (.job (.subscribe workshop.grammars.links.length lookup.waiter)) := by
  refine ⟨h.change (h.grammars.extend hfits) (fun _ _ _ hat => hat.extend lookup) rfl, ?_⟩
  refine ⟨lookup.key, lookup.grammar, ⟨_, List.getElem?_concat_length .., rfl, rfl⟩, ?_⟩
  exact fun asked hasked => mem_counted.mpr ⟨h.grammars.base, hfits.2 asked hasked⟩

/-- Making a parser does not touch what the terms are about. -/
theorem launch (hsound : terms.Sound) (h : terms.Honest workshop) :
    terms.Honest workshop.launch := by
  refine ⟨hsound.keep h.kept rfl rfl (Nat.le_refl _), ?_, h.tasks, h.requests⟩
  exact ⟨h.grammars.base, h.grammars.languages, h.grammars.unavailable, h.grammars.startups,
    h.grammars.links⟩

/-- A start ends, and each lookup that waited for it goes on. -/
theorem endStartup (h : terms.Honest workshop) {number : Nat} {startup : Startup W}
    (hfits : terms.FitsStartup startup) {waiting : List (Lookup W)} {next : Lookup W → Job W}
    (hnext : ∀ lookup ∈ waiting,
      terms.FitsJob (workshop.grammars.setStartup number startup) (next lookup)) :
    terms.Honest ((workshop.withGrammars (workshop.grammars.setStartup number startup)).enqueue
      (waiting.map fun lookup => .job (next lookup))) := by
  have hset := h.change (h.grammars.setStartup number hfits) (fun _ _ _ hat => hat) rfl
  refine hset.enqueue fun task hmem => ?_
  obtain ⟨lookup, hlookup, rfl⟩ := List.mem_map.mp hmem
  exact hnext lookup hlookup

/-- A lookup enters the chain. -/
theorem enter (h : terms.Honest workshop) {lookup : Lookup W} (hfits : terms.Fits lookup)
    {outcome : Outcome (Workshop W C) Unit} (htook : Took workshop (.enter lookup) outcome) :
    terms.Honest outcome.state := by
  obtain ⟨hjoined, hsubscribe⟩ := h.join (C := C) hfits
  cases htook with
  | entered hbefore => exact hjoined.enqueue (by simpa using ⟨trivial, hsubscribe⟩)
  | queued hlast hopen =>
    have hlinks (number : Nat) (key : Text) (grammar : GrammarName)
        (hat : (workshop.grammars.extend lookup).LinkAt number key grammar) :
        ((workshop.grammars.extend lookup).follow (workshop.grammars.links.length - 1)
          (.start workshop.grammars.links.length)).LinkAt number key grammar :=
      hat.editLink _ (fun _ => rfl) fun _ => rfl
    have hfollowed := hjoined.change (hjoined.grammars.followStart _ _) hlinks rfl
    exact hfollowed.push (hsubscribe.mono hlinks (fun _ _ => id) (.inr fun _ => id))
  | @spoiled _ before fault hlast hfault =>
    rw [List.getLast?_eq_getElem?] at hlast
    have hfaults : terms.faults := (h.grammars.links _ before hlast).answer _ hfault
    have hsettle : terms.FitsTask (C := C) (workshop.grammars.extend lookup)
        (.job (.settle workshop.grammars.links.length (.error fault))) :=
      ⟨lookup.key, lookup.grammar, ⟨_, List.getElem?_concat_length .., rfl, rfl⟩, hfaults⟩
    exact hjoined.enqueue (by simpa using ⟨hsettle, hsubscribe⟩)
  | astray hjob hlink => exact h

/-- A waiter is told the answer of a link, or follows it. -/
theorem subscribe (h : terms.Honest workshop) {link : Nat} {waiter : W}
    (hjob : terms.FitsJob workshop.grammars (.subscribe link waiter))
    {outcome : Outcome (Workshop W C) Unit}
    (htook : Took workshop (.subscribe link waiter) outcome) : terms.Honest outcome.state := by
  obtain ⟨key, grammar, hat, hattached⟩ := hjob
  cases htook with
  | @told _ _ found answer hlink hanswer =>
    have hright := (h.grammars.links link found hlink).answer answer hanswer
    rw [(hat.key_eq hlink).1] at hright
    exact h.push (hright.of_asked hattached)
  | following hlink hopen =>
    exact h.change (h.grammars.followAnswer hat hattached)
      (fun _ _ _ hother => hother.editLink _ (fun _ => rfl) fun _ => rfl) rfl
  | astray hjob hlink => exact h

/-- A link starts. It is not done, so it still matters what it loads. -/
theorem start (hsound : terms.Sound) (h : terms.Honest workshop) {link : Nat}
    (hnamed : ∀ found, workshop.grammars.links[link]? = some found →
      terms.named found.key found.grammar)
    {outcome : Outcome (Workshop W C) Unit} (htook : Took workshop (.start link) outcome) :
    terms.Honest outcome.state := by
  cases htook with
  | known hlink hknown =>
    exact h.push ⟨_, _, Grammars.linkAt_of_getElem? hlink,
      right_some eq_of_mem_counted (h.grammars.languages _ _ hknown)⟩
  | @nameless _ found name hlink hnew hgrammar =>
    have hmember : terms.named found.key (.member name) := hgrammar ▸ hnamed found hlink
    exact h.push ⟨_, _, Grammars.linkAt_of_getElem? hlink, hsound.member hmember⟩
  | @missing _ found name hlink hnew hgrammar hfile =>
    have hlacks : terms.lacks found.key :=
      hsound.missing h.kept (hgrammar ▸ hnamed found hlink) hfile
    exact (h.mark hlacks).push ⟨_, _, (Grammars.linkAt_of_getElem? hlink).markUnavailable _,
      right_none _ eq_of_mem_counted hlacks⟩
  | @loading _ found name spec hlink hnew hgrammar hfile =>
    exact h.ask ⟨found.key, name, ⟨found, hlink, rfl, hgrammar⟩, rfl, hnew,
      hgrammar ▸ hnamed found hlink, workshop.toolkit, h.kept, hfile⟩
  | astray hjob hlink => exact h

/-- A load is finished while nothing else drives a link. -/
theorem finish (hsound : terms.Sound) (h : terms.Honest workshop) (hidle : workshop.driven = [])
    {link : Nat} {result : Except Fault Language}
    (hjob : terms.FitsJob workshop.grammars (.finish link result))
    {outcome : Outcome (Workshop W C) Unit} (htook : Took workshop (.finish link result) outcome) :
    terms.Honest outcome.state := by
  cases htook with
  | loaded hlink =>
    obtain ⟨key, grammar, hat, hnew, hmade⟩ := hjob
    obtain ⟨rfl, rfl⟩ := hat.key_eq hlink
    exact (h.learn hsound hidle hnew hmade).push ⟨_, _, Grammars.linkAt_of_getElem? hlink,
      right_some eq_of_mem_counted (hsound.learn hnew hmade)⟩
  | refused hlink =>
    obtain ⟨key, grammar, hat, hlacks⟩ := hjob
    obtain ⟨rfl, rfl⟩ := hat.key_eq hlink
    exact (h.mark hlacks).push ⟨_, _, (Grammars.linkAt_of_getElem? hlink).markUnavailable _,
      right_none _ eq_of_mem_counted hlacks⟩
  | astray hjob hlink => exact h

/-- A link is done, and all that follow it go on. A link that starts next is there, and the
fault of the one before is all that it needs to know. -/
theorem settle (h : terms.Honest workshop) {link : Nat} {answer : Answer}
    (hstarts : ∀ found, workshop.grammars.links[link]? = some found →
      ∀ next ∈ found.starts, next < workshop.grammars.links.length)
    (hjob : terms.FitsJob workshop.grammars (.settle link answer))
    {outcome : Outcome (Workshop W C) Unit} (htook : Took workshop (.settle link answer) outcome) :
    terms.Honest outcome.state := by
  obtain ⟨key, grammar, hat, hright⟩ := hjob
  cases htook with
  | @settled _ _ found hlink =>
    have hlinks (number : Nat) (key : Text) (grammar : GrammarName)
        (hother : workshop.grammars.LinkAt number key grammar) :
        (workshop.grammars.close link answer).LinkAt number key grammar :=
      hother.editLink _ (fun _ => rfl) fun _ => rfl
    have hclosed := h.change (h.grammars.close hat hright) hlinks rfl
    refine hclosed.enqueue fun task hmem => ?_
    obtain ⟨follower, hfollower, rfl⟩ := List.mem_map.mp hmem
    cases follower with
    | answer waiter =>
      have hattached := (h.grammars.links link found hlink).followers waiter hfollower
      rw [(hat.key_eq hlink).1] at hattached
      exact hright.of_asked hattached
    | start next =>
      cases answer with
      | ok found => trivial
      | error fault =>
        have hlt := hstarts found hlink next (List.mem_filterMap.mpr ⟨.start next, hfollower, rfl⟩)
        exact ⟨_, _, hlinks _ _ _ (Grammars.linkAt_of_getElem? (List.getElem?_eq_getElem hlt)),
          hright⟩
  | astray hjob hlink => exact h

/-- Taking a step of loading keeps to the terms. -/
theorem perform (hsound : terms.Sound) (h : terms.Honest workshop) (hturn : workshop.InTurn done)
    {job : Job W} {rest : List (Task W C)} (htasks : workshop.tasks = .job job :: rest)
    {outcome : Outcome (Workshop W C) Unit}
    (htook : Took (workshop.withTasks rest) job outcome) : terms.Honest outcome.state := by
  have hrest := h.take htasks
  have hjob : terms.FitsJob workshop.grammars job :=
    h.tasks (.job job) (htasks ▸ List.mem_cons_self)
  cases job with
  | makeParser number =>
    have hlaunched := hrest.launch hsound
    cases htook with
    | ready hstartup =>
      have hready : terms.FitsStartup (.ready : Startup W) := trivial
      exact hlaunched.endStartup hready (h.grammars.startups _ (List.mem_of_getElem? hstartup))
    | spare hstartup => exact hlaunched
    | astray hjob hlink => cases hjob
  | failStartup number fault =>
    cases htook with
    | failed hstartup =>
      have hfailed : terms.FitsStartup (.failed fault : Startup W) := hjob
      exact hrest.endStartup hfailed fun _ _ => hjob
    | failedUnheard hstartup => exact hrest
    | astray hjob hlink => cases hjob
  | enter lookup => exact hrest.enter hjob htook
  | subscribe link waiter => exact hrest.subscribe hjob htook
  | start link =>
    obtain ⟨rfl, _, _⟩ := hturn.of_task htasks rfl
    refine hrest.start hsound (fun found hlink => ?_) htook
    refine (h.grammars.links link found hlink).named ?_
    simpa using hturn.chained.answered link found hlink
  | finish link result =>
    obtain ⟨_, _, hidle⟩ := hturn.of_task htasks rfl
    exact hrest.finish hsound hidle hjob htook
  | adopt link answer =>
    cases htook with
    | adopted => exact hrest.push hjob
    | astray hjob hlink => cases hjob
  | settle link answer =>
    exact hrest.settle (fun found hlink _ => hturn.chained.lt_of_starts hlink) hjob htook
  | relay waiter answer =>
    cases htook with
    | relayed => exact hrest.push hjob
    | astray hjob hlink => cases hjob

/-- Looking up a language keeps to the terms, if its waiter and its grammar do. -/
theorem lookup (h : terms.Honest workshop) {resolve : Text → Option GrammarName} {key : Text}
    {waiter : W} (hasked : ∀ asked ∈ terms.asked waiter, asked = key)
    (hunnamed : resolve key = none → terms.lacks key)
    (hnamed : ∀ grammar, resolve key = some grammar → terms.named key grammar)
    {outcome : Outcome (Workshop W C) Unit}
    (hsought : Sought resolve key waiter workshop outcome) : terms.Honest outcome.state := by
  have hfits {grammar : GrammarName} (hname : resolve key = some grammar) :
      terms.Fits ⟨key, grammar, waiter⟩ := ⟨hnamed grammar hname, hasked⟩
  cases hsought with
  | @known language hknown =>
    exact h.push (right_some hasked (h.grammars.languages key language hknown))
  | unavailable hnew hkey =>
    exact h.push (right_none workshop.grammars.languages hasked (h.grammars.unavailable key hkey))
  | unnamed hnew hname =>
    exact (h.mark (hunnamed hname)).push
      (right_none workshop.grammars.languages hasked (hunnamed hname))
  | @starting grammar hnew hname hcurrent =>
    have hpending : terms.FitsStartup (.pending [⟨key, grammar, waiter⟩]) := by
      simpa [FitsStartup] using hfits hname
    have hadded := h.change (h.grammars.addStartup hpending) (fun _ _ _ hat => hat) rfl
    exact hadded.ask trivial
  | @waiting grammar number others hnew hname hcurrent hstartup =>
    have hothers : ∀ lookup ∈ others, terms.Fits lookup :=
      h.grammars.startups _ (List.mem_of_getElem? hstartup)
    have hpending : terms.FitsStartup (.pending (others ++ [⟨key, grammar, waiter⟩])) := by
      intro lookup hmem
      rcases List.mem_append.mp hmem with hold | hnew
      · exact hothers lookup hold
      · rw [List.mem_singleton.mp hnew]
        exact hfits hname
    exact h.change (h.grammars.setStartup number hpending) (fun _ _ _ hat => hat) rfl
  | entering hnew hname hcurrent hstartup => exact h.push (hfits hname)
  | @hopeless grammar number fault hnew hname hcurrent hstartup =>
    have hfaults : terms.faults := h.grammars.startups _ (List.mem_of_getElem? hstartup)
    exact h.push hfaults
  | lost hnew hname hcurrent hstartup => exact h

/-- Finishing a request keeps to the terms. -/
theorem complete (hsound : terms.Sound) (h : terms.Honest workshop) {place : Nat}
    {asked : Request} (hplace : workshop.requests[place]? = some asked)
    {outcome : Outcome (Workshop W C) Unit}
    (hcompleted : Completed (workshop.without place) asked outcome) :
    terms.Honest outcome.state := by
  have hrest : terms.Honest (workshop.without place) := by
    refine ⟨h.kept, h.grammars, h.tasks, fun other hmem => ?_⟩
    exact h.requests other ((List.eraseIdx_sublist _ _).subset hmem)
  have hasked := h.requests asked (List.mem_of_getElem? hplace)
  cases hcompleted with
  | started hstart => exact hrest.push trivial
  | unstarted hstart => exact hrest.push (hsound.start h.kept hstart)
  | refused herror =>
    obtain ⟨key, name, hat, rfl, hnew, hnamed, earlier, hkept, hfound⟩ := hasked
    exact hrest.push ⟨key, .file name, hat, hsound.refused h.kept hkept hnamed hfound herror⟩
  | loaded herror =>
    obtain ⟨key, name, hat, rfl, hnew, hnamed, earlier, hkept, hfound⟩ := hasked
    have hadded : terms.Honest (workshop.without place).addLanguage :=
      ⟨hsound.keep h.kept rfl rfl (Nat.le_succ _), hrest.grammars, hrest.tasks, hrest.requests⟩
    exact hadded.push
      ⟨key, .file name, hat, hnew, hsound.loaded h.kept hkept hnamed hfound rfl herror⟩

/-- No language that is known is lost or replaced by a step of loading. -/
theorem languages_perform (h : terms.Honest workshop) {job : Job W} {rest : List (Task W C)}
    (htasks : workshop.tasks = .job job :: rest) {outcome : Outcome (Workshop W C) Unit}
    (htook : Took (workshop.withTasks rest) job outcome) {key : Text} {language : Language}
    (hget : workshop.grammars.languages.get? key = some language) :
    outcome.state.grammars.languages.get? key = some language := by
  cases htook with
  | missing hlink hnew hgrammar hfile =>
    exact (Grammars.languages_markUnavailable _ _).symm ▸ hget
  | refused hlink => exact (Grammars.languages_markUnavailable _ _).symm ▸ hget
  | @loaded link found loaded hlink =>
    obtain ⟨_, _, hat, hnew, _⟩ := h.tasks (.job (.finish link (.ok loaded)))
      (htasks ▸ List.mem_cons_self)
    rw [← (hat.key_eq hlink).1] at hnew
    have hne : key ≠ found.key := by
      rintro rfl
      rw [hnew] at hget
      cases hget
    exact (Table.get?_insert_of_ne _ _ hne).trans hget
  | _ => exact hget

end Honest

end Terms

end ClosingLabels
