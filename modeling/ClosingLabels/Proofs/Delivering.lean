import ClosingLabels.Proofs.Decorating

/-!
# Who is called

A listener is called from its registration on until the registration is given up or the forest is
taken down. Whether a step ends a registration can be told from its trigger, its document and its
number, and no number is given out twice: so a registration that has ended can be given up again at
any time, and nobody else falls silent. The sets in which listeners are kept come and go, and grips
on old sets stay behind; none of this shows in who is called.
-/

namespace ClosingLabels

/-- The first of two parts of a state. -/
def Lens.first {σ τ : Type} : Lens (σ × τ) σ where
  get s := s.1
  set t s := (t, s.2)

namespace Forest

variable {σ D L : Type}

/-! ## Steps -/

/-- Something that happens to the listeners of a forest, or beside them. -/
inductive ListenerStep (D L : Type) where
  /-- A listener is registered. -/
  | register (trigger : Trigger) (document : String) (listener : L)
  /-- A registration is given up. -/
  | unregister (trigger : Trigger) (document : String) (number : Nat)
  /-- The forest is taken down. -/
  | dispose
  /-- The grove becomes another one, with the same listeners. -/
  | beside (rest : Grove D L)

/-- A grove with the listeners of another. -/
def listeningAs (rest grove : Grove D L) : Grove D L :=
  { rest with forest := { rest.forest with audience := grove.forest.audience } }

namespace ListenerStep

/-- Performs a step. -/
def perform (part : Lens σ (Grove D L)) : ListenerStep D L → Action σ Unit
  | .register trigger document listener => do
    let _ ← Forest.register part trigger document listener
  | .unregister trigger document number => Forest.unregister part trigger document number
  | .dispose => Forest.dispose part
  | .beside rest => Action.adjust part (listeningAs rest)

/-- How many registrations a step makes. -/
def made : ListenerStep D L → Nat
  | .register _ _ _ => 1
  | _ => 0

variable (trigger : Trigger) (document : String)

/-- The registration for a trigger of a document that a step makes, if the next number is this. -/
def brings (next : Nat) : ListenerStep D L → List (Registration L)
  | .register kind name listener =>
    if trigger = kind ∧ document = name then [⟨next, listener⟩] else []
  | _ => []

/-- Whether a step ends the registration of this number. -/
def ends (number : Nat) : ListenerStep D L → Bool
  | .unregister kind name other => decide (trigger = kind ∧ document = name ∧ number = other)
  | .dispose => true
  | _ => false

end ListenerStep

/-- How many registrations are made in all. -/
def madeIn : List (ListenerStep D L) → Nat
  | [] => 0
  | step :: later => step.made + madeIn later

section

variable (trigger : Trigger) (document : String)

/-- Whether the registration of this number outlasts all the steps. -/
def outlasts (steps : List (ListenerStep D L)) (number : Nat) : Bool :=
  steps.all fun step => !step.ends trigger document number

/-- The registrations for a trigger of a document that are made in these steps and that no later
step ends, in the order in which they were made, when the first number is this. -/
def standing : Nat → List (ListenerStep D L) → List (Registration L)
  | _, [] => []
  | next, step :: later =>
    (step.brings trigger document next).filter
        (fun registration => outlasts trigger document later registration.number) ++
      standing (next + step.made) later

/-- The registration of this number was made and has ended since. -/
def Ended (number : Nat) (steps : List (ListenerStep D L)) : Prop :=
  ∃ before step later, steps = before ++ step :: later ∧ number < madeIn before ∧
    step.ends trigger document number = true

end

/-! ## What stands -/

section

variable {trigger : Trigger} {document : String}

/-- The registration that a step brings has the next number. -/
theorem ListenerStep.number_of_brings {step : ListenerStep D L} {next : Nat}
    {registration : Registration L} (h : registration ∈ step.brings trigger document next) :
    registration.number = next ∧ step.made = 1 := by
  cases step with
  | register kind name listener =>
    rw [brings] at h
    split at h
    · rw [List.mem_singleton.mp h]
      exact ⟨rfl, rfl⟩
    · cases h
  | unregister kind name number => cases h
  | dispose => cases h
  | beside rest => cases h

/-- Numbers are given out from the first one on. -/
theorem le_number {next : Nat} {steps : List (ListenerStep D L)} {registration : Registration L}
    (h : registration ∈ standing trigger document next steps) : next ≤ registration.number := by
  induction steps generalizing next with
  | nil => cases h
  | cons step later ih =>
    rcases List.mem_append.mp h with hbrought | hlater
    · exact Nat.le_of_eq (ListenerStep.number_of_brings (List.mem_filter.mp hbrought).1).1.symm
    · have := ih hlater
      omega

/-- Numbers increase, so none is given out twice. -/
theorem standing_increasing (next : Nat) (steps : List (ListenerStep D L)) :
    (standing trigger document next steps).Pairwise fun a b => a.number < b.number := by
  induction steps generalizing next with
  | nil => exact .nil
  | cons step later ih =>
    rw [standing, List.pairwise_append]
    refine ⟨?_, ih _, fun a ha b hb => ?_⟩
    · refine List.Pairwise.filter _ ?_
      cases step with
      | register kind name listener =>
        rw [ListenerStep.brings]
        split
        · exact List.pairwise_singleton _ _
        · exact .nil
      | unregister kind name number => exact .nil
      | dispose => exact .nil
      | beside rest => exact .nil
    · have hfirst := ListenerStep.number_of_brings (List.mem_filter.mp ha).1
      have hlater := le_number hb
      omega

/-- More steps end some of what stands, and bring more. -/
theorem standing_append (next : Nat) (steps more : List (ListenerStep D L)) :
    standing trigger document next (steps ++ more) =
      (standing trigger document next steps).filter
          (fun registration => outlasts trigger document more registration.number) ++
        standing trigger document (next + madeIn steps) more := by
  induction steps generalizing next with
  | nil => rfl
  | cons step later ih =>
    have houtlasts (number : Nat) : outlasts trigger document (later ++ more) number =
        (outlasts trigger document more number && outlasts trigger document later number) := by
      rw [outlasts, List.all_append, Bool.and_comm]
      rfl
    have hnumber : next + step.made + madeIn later = next + madeIn (step :: later) :=
      Nat.add_assoc _ _ _
    simp only [List.cons_append, standing, ih, List.filter_append, List.filter_filter, houtlasts,
      hnumber, List.append_assoc]

/-- A registration that has ended does not stand. -/
theorem Ended.not_standing {number : Nat} {steps : List (ListenerStep D L)}
    (h : Ended trigger document number steps) {registration : Registration L}
    (hstands : registration ∈ standing trigger document 0 steps) :
    registration.number ≠ number := by
  rintro rfl
  obtain ⟨before, step, later, rfl, hmade, hends⟩ := h
  rw [standing_append, Nat.zero_add] at hstands
  rcases List.mem_append.mp hstands with hearlier | hlater
  · have houtlasts := (List.mem_filter.mp hearlier).2
    rw [outlasts, List.all_cons, hends] at houtlasts
    cases houtlasts
  · have := le_number hlater
    omega

end

/-! ## What a forest keeps -/

section

variable (part : Lens σ (Grove D L))

/-- Taking a forest down forgets all listeners, and leaves everyone the grips handed out. -/
theorem dispose_silences (s : σ) :
    (part.get (dispose part s).state).forest.audience = (part.get s).forest.audience.clear := by
  have hclosed := closeAll_leaves part (fun grove => grove.forest.audience) (fun _ _ => rfl)
    (part.get s).forest.entries.keys
  obtain ⟨closed, trace, heq, -⟩ := closeEvery_apply part s
  have hkept := hclosed.state s
  rw [heq] at hkept
  unfold dispose
  rw [Action.bind_of_quiet (Action.look_apply _ _), Action.bind_of_ok heq,
    Action.bind_of_quiet (edit_apply _ _ _), resetPatterns_apply]
  simp only [part.get_set]
  exact congrArg Audience.clear hkept

/-- A registration is given the next number. -/
theorem register_apply (trigger : Trigger) (document : String) (listener : L) (s : σ) :
    register part trigger document listener s =
      ⟨.ok (part.get s).forest.registrations,
        part.set { part.get s with
          forest := (part.get s).forest.addListener trigger document listener } s, []⟩ := rfl

/-- What a step does to the listeners: it ends some registrations and may bring one. -/
theorem listeners_perform (step : ListenerStep D L) (trigger : Trigger) (document : String)
    (s : σ) :
    (part.get (step.perform part s).state).forest.listeners trigger document =
      ((part.get s).forest.listeners trigger document).filter
          (fun registration => !step.ends trigger document registration.number) ++
        step.brings trigger document (part.get s).forest.registrations := by
  cases step with
  | register kind name listener =>
    simp only [ListenerStep.perform, Action.state_bind_pure, register_apply, part.get_set,
      ListenerStep.ends, ListenerStep.brings, Bool.not_false, List.filter_true]
    rw [listeners_addListener]
    split
    · rfl
    · rw [List.append_nil]
  | unregister kind name number =>
    simp only [ListenerStep.perform, unregister, Action.adjust_apply, part.get_set,
      ListenerStep.ends, ListenerStep.brings, List.append_nil]
    rw [listeners_removeListener]
    split
    · next hsame =>
      simp [hsame]
    · next hother =>
      have hkept (number' : Nat) :
          ¬(trigger = kind ∧ document = name ∧ number' = number) :=
        fun hends => hother ⟨hends.1, hends.2.1⟩
      simp [hkept]
  | dispose =>
    simp only [ListenerStep.ends, ListenerStep.brings, Bool.not_true, List.filter_false,
      List.append_nil]
    rw [ListenerStep.perform, listeners, dispose_silences]
    exact Listeners.members_clear _ _
  | beside rest =>
    simp only [ListenerStep.perform, Action.adjust_apply, part.get_set, ListenerStep.ends,
      ListenerStep.brings, Bool.not_false, List.filter_true, List.append_nil]
    rfl

/-- As many numbers are given out as registrations are made. -/
theorem registrations_perform (step : ListenerStep D L) (s : σ) :
    (part.get (step.perform part s).state).forest.registrations =
      (part.get s).forest.registrations + step.made := by
  cases step with
  | register kind name listener =>
    simp only [ListenerStep.perform, Action.state_bind_pure, register_apply, part.get_set]
    exact Listeners.length_grips_add _ _ _ _
  | unregister kind name number =>
    simp only [ListenerStep.perform, unregister, Action.adjust_apply, part.get_set]
    exact congrArg List.length (Listeners.grips_remove _ _ _ _)
  | dispose =>
    rw [ListenerStep.perform, registrations, dispose_silences]
    rfl
  | beside rest =>
    simp only [ListenerStep.perform, Action.adjust_apply, part.get_set]
    rfl

/-- Of the listeners that there were, and of those registered since, those are left whose
registration nothing has ended. -/
theorem listeners_finish (steps : List (ListenerStep D L)) (trigger : Trigger)
    (document : String) (s : σ) :
    (part.get (Action.finish (ListenerStep.perform part) s steps)).forest.listeners trigger
        document =
      ((part.get s).forest.listeners trigger document).filter
          (fun registration => outlasts trigger document steps registration.number) ++
        standing trigger document (part.get s).forest.registrations steps := by
  induction steps generalizing s with
  | nil => simp [outlasts, standing]
  | cons step later ih =>
    rw [Action.finish_cons, ih, listeners_perform, registrations_perform]
    simp only [standing, List.filter_append, List.filter_filter, outlasts, List.all_cons,
      Bool.and_comm, List.append_assoc]

/-- The next number after some steps. -/
theorem registrations_finish (steps : List (ListenerStep D L)) (s : σ) :
    (part.get (Action.finish (ListenerStep.perform part) s steps)).forest.registrations =
      (part.get s).forest.registrations + madeIn steps := by
  induction steps generalizing s with
  | nil => rfl
  | cons step later ih =>
    rw [Action.finish_cons, ih, registrations_perform, madeIn, Nat.add_assoc]

end

/-- No set of a document is empty. -/
def Peopled (forest : Forest D L) : Prop :=
  ∀ trigger document place, forest.audience.place? trigger document = some place →
    forest.audience.setAt place ≠ []

/-! ## Calls -/

/-- The same surroundings, in which it is written down who is called. -/
def Ground.recording (ground : Ground σ D L) : Ground (σ × List L) D L where
  part := Lens.first.comp ground.part
  read s := ground.read s.1
  notify listener := do
    Action.modify fun s => (s.1, s.2 ++ [listener])
    Action.zoom Lens.first (ground.notify listener)

/-- A listener is written down when it is called, and whether it fails or not the rest is as it
would have been. -/
theorem rescue_recording (ground : Ground σ D L) (document : String) (listener : L) (s : σ)
    (called : List L) :
    let calling (ground : Ground σ D L) :=
      Action.rescue (ground.notify listener) fun fault => Action.report (.listener document) fault
    Action.rescue (ground.recording.notify listener)
        (fun fault => Action.report (.listener document) fault) (s, called) =
      ⟨.ok (), ((calling ground s).state, called ++ [listener]), (calling ground s).trace⟩ := by
  have hnotify : ground.recording.notify listener (s, called) =
      ⟨(ground.notify listener s).result,
        ((ground.notify listener s).state, called ++ [listener]),
        (ground.notify listener s).trace⟩ := rfl
  dsimp only
  rcases hcalled : ground.notify listener s with ⟨fault | done, after, trace⟩
  · rw [hcalled] at hnotify
    rw [Action.rescue_of_error hnotify, Action.rescue_of_error hcalled]
    rfl
  · rw [hcalled] at hnotify
    rw [Action.rescue_of_ok hnotify, Action.rescue_of_ok hcalled]

/-- Everyone is called who was registered when the call went out, in order; and writing it down
changes nothing else. -/
theorem announce_recording (ground : Ground σ D L) (trigger : Trigger) (document : String) (s : σ)
    (called : List L) :
    announce ground.recording trigger document (s, called) =
      ⟨.ok (),
        ((announce ground trigger document s).state,
          called ++ ((ground.part.get s).forest.listeners trigger document).map (·.listener)),
        (announce ground trigger document s).trace⟩ := by
  unfold announce
  rw [Action.bind_of_quiet (Action.look_apply _ _), Action.bind_of_quiet (Action.look_apply _ _)]
  change Action.each ((ground.part.get s).forest.listeners trigger document) _ (s, called) = _
  -- What is called was read before the first call, so a call cannot change who comes after it.
  generalize (ground.part.get s).forest.listeners trigger document = registrations
  induction registrations generalizing s called with
  | nil => simp [Action.each]
  | cons first rest ih =>
    have hfirst := rescue_recording ground document first.listener s called
    have hplain := calling_result ground document first.listener s
    rw [Action.each, Action.each, Action.bind_of_ok hfirst,
      Action.bind_of_ok (Action.eq_of_result hplain), ih]
    simp [List.append_assoc]

/-- **Who is called.** Whatever was registered, given up and taken down before, and whatever else
has happened to the trees, all those are called whose registration for the trigger and the document
stands, each once and in the order in which they registered, also when some of them fail. A new
registration has a number that none had before, giving up one that has ended silences nobody,
whichever set its grip is on, and no document has an empty set. -/
theorem called_while_registered (ground : Ground σ D L) (steps : List (ListenerStep D L))
    (trigger : Trigger) (document : String) (s : σ) :
    let reached := Action.finish (ListenerStep.perform ground.part) (ground.part.set {} s) steps
    let registered := standing trigger document 0 steps
    let announced := announce ground trigger document reached
    let without number :=
      ground.part.get (unregister ground.part trigger document number reached).state
    (announced.result = .ok () ∧
      announce ground.recording trigger document (reached, []) =
        ⟨.ok (), (announced.state, registered.map (·.listener)), announced.trace⟩) ∧
    registered.Pairwise (fun a b => a.number < b.number) ∧
    (∀ listener,
      (register ground.part trigger document listener reached).result = .ok (madeIn steps)) ∧
    (∀ number, Ended trigger document number steps → ∀ kind name,
      (without number).forest.listeners kind name =
        (ground.part.get reached).forest.listeners kind name) ∧
    (ground.part.get reached).forest.Peopled := by
  intro reached registered announced without
  have hlisteners (kind : Trigger) (name : String) :
      (ground.part.get reached).forest.listeners kind name = standing kind name 0 steps := by
    rw [listeners_finish, ground.part.get_set]
    cases kind <;> rfl
  refine ⟨⟨announce_result ground trigger document reached, ?_⟩, standing_increasing 0 steps,
    fun listener => ?_, fun number hended kind name => ?_, ?_⟩
  · rw [announce_recording, hlisteners, List.nil_append]
  · rw [register_apply, registrations_finish, ground.part.get_set]
    exact congrArg Except.ok (Nat.zero_add _)
  · simp only [without, unregister, Action.adjust_apply, ground.part.get_set]
    rw [listeners_removeListener]
    split
    · next hsame =>
      obtain ⟨rfl, rfl⟩ := hsame
      rw [List.filter_eq_self, hlisteners]
      intro registration hstands
      exact decide_eq_true (hended.not_standing hstands)
    · rfl
  · intro kind name place hplace
    exact ((ground.part.get reached).forest.audience.filed kind name place hplace).1

/-- One listener is there when the forest is taken down. Of those that come after it one is given up
at once, before its document gets others, and one fails. To give up the first two again is in
vain. -/
theorem called_while_registered_past_failure :
    let ground : Ground (Grove Document String) Document String := {
      part := Lens.whole
      read := fun _ document => document
      notify := fun name =>
        if name = "moody" then Action.fail (.host "not now") else pure () }
    let steps : List (ListenerStep Document String) :=
      [.register .parsed "a" "early", .dispose, .register .parsed "a" "brief",
        .unregister .parsed "a" 1, .register .parsed "a" "moody", .register .changed "a" "other",
        .register .parsed "a" "steady", .unregister .parsed "a" 1, .unregister .parsed "a" 0]
    let reached := Action.finish (ListenerStep.perform ground.part) (ground.part.set {} {}) steps
    (announce ground.recording .parsed "a" (reached, [])).state.2 = ["moody", "steady"] ∧
      Ended .parsed "a" 0 steps ∧ Ended .parsed "a" 1 steps ∧
      (unregister ground.part .parsed "a" 0 reached).state.forest.listeners .parsed "a" =
        [⟨2, "moody"⟩, ⟨4, "steady"⟩] ∧
      (unregister ground.part .parsed "a" 1 reached).state.forest.listeners .parsed "a" =
        [⟨2, "moody"⟩, ⟨4, "steady"⟩] := by
  intro ground steps reached
  obtain ⟨⟨-, hcalled⟩, -, -, hspared, -⟩ :=
    called_while_registered ground steps .parsed "a" {}
  have hstanding : standing .parsed "a" 0 steps = [⟨2, "moody"⟩, ⟨4, "steady"⟩] := by
    decide +kernel
  have hearly : Ended .parsed "a" 0 steps :=
    ⟨steps.take 1, .dispose, steps.drop 2, rfl, by decide, rfl⟩
  have hbrief : Ended .parsed "a" 1 steps :=
    ⟨steps.take 3, .unregister .parsed "a" 1, steps.drop 4, rfl, by decide, rfl⟩
  have hkept : reached.forest.listeners .parsed "a" = [⟨2, "moody"⟩, ⟨4, "steady"⟩] := by
    decide +kernel
  refine ⟨?_, hearly, hbrief, ?_, ?_⟩
  · rw [hcalled, hstanding]
    rfl
  · exact (hspared 0 hearly .parsed "a").trans hkept
  · exact (hspared 1 hbrief .parsed "a").trans hkept

end Forest

end ClosingLabels
