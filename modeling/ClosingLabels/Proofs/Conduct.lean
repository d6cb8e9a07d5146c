import ClosingLabels.Action

/-!
# What actions maintain

Ways to speak about an action without opening it. An action maintains an
invariant of past and state if the invariant survives whatever the action does, also
when it fails half way, and it leads from one condition to another if the second holds
after it wherever the first held before. An action leaves a view alone if it changes nothing in that
view and all its events are of a harmless sort. All of this passes from the parts of an
action to the whole, so most operations never have to be unfolded.
-/

namespace ClosingLabels.Action

variable {σ τ υ α β : Type}

/-! ## Running -/

@[simp] theorem pure_apply (a : α) (s : σ) : (pure a : Action σ α) s = ⟨.ok a, s, []⟩ := rfl

@[simp] theorem map_apply (f : α → β) (x : Action σ α) (s : σ) :
    (f <$> x) s = ⟨(x s).result.map f, (x s).state, (x s).trace⟩ := by
  rw [← bind_pure_comp, bind_apply]
  rcases x s with ⟨_ | a, t, trace⟩ <;> simp [Except.map]

/-- Choosing what to give at the end does not change the state. -/
theorem state_bind_pure (x : Action σ α) (f : α → β) (s : σ) :
    ((x >>= fun a => pure (f a)) s).state = (x s).state := by
  rw [bind_pure_comp, map_apply]

@[simp] theorem fail_apply (fault : Fault) (s : σ) :
    (fail fault : Action σ α) s = ⟨.error fault, s, []⟩ := rfl

@[simp] theorem emit_apply (event : Event) (s : σ) : emit event s = ⟨.ok (), s, [event]⟩ := rfl

@[simp] theorem log_apply (notice : Notice) (s : σ) :
    log notice s = ⟨.ok (), s, [.log notice]⟩ := rfl

@[simp] theorem report_apply (failure : Failure) (cause : Fault) (s : σ) :
    report failure cause s = ⟨.ok (), s, [.error failure (some cause)]⟩ := rfl

@[simp] theorem get_apply (s : σ) : (get : Action σ σ) s = ⟨.ok s, s, []⟩ := rfl

@[simp] theorem gets_apply (g : σ → α) (s : σ) : gets g s = ⟨.ok (g s), s, []⟩ := rfl

@[simp] theorem modify_apply (f : σ → σ) (s : σ) : modify f s = ⟨.ok (), f s, []⟩ := rfl

@[simp] theorem look_apply (part : Lens σ τ) (s : σ) :
    look part s = ⟨.ok (part.get s), s, []⟩ := rfl

@[simp] theorem adjust_apply (part : Lens σ τ) (f : τ → τ) (s : σ) :
    adjust part f s = ⟨.ok (), part.set (f (part.get s)) s, []⟩ := rfl

@[simp] theorem ofExcept_apply (value : Except Fault α) (s : σ) :
    (ofExcept value : Action σ α) s = ⟨value, s, []⟩ := rfl

@[simp] theorem attempt_apply (x : Action σ α) (s : σ) :
    attempt x s = ⟨.ok (x s).result, (x s).state, (x s).trace⟩ := rfl

@[simp] theorem zoom_apply (part : Lens σ τ) (x : Action τ α) (s : σ) :
    zoom part x s =
      ⟨(x (part.get s)).result, part.set (x (part.get s)).state s, (x (part.get s)).trace⟩ := rfl

/-- The outcome of an action that succeeds. -/
theorem eq_of_result {x : Action σ α} {s : σ} {a : α} (h : (x s).result = .ok a) :
    x s = ⟨.ok a, (x s).state, (x s).trace⟩ := by
  rw [← h]

/-- Running two actions in a row when the first succeeds. -/
theorem bind_of_ok {x : Action σ α} {s t : σ} {a : α} {trace : List Event}
    (hx : x s = ⟨.ok a, t, trace⟩) (f : α → Action σ β) :
    (x >>= f) s = ⟨(f a t).result, (f a t).state, trace ++ (f a t).trace⟩ := by
  rw [bind_apply, hx]

/-- Running two actions in a row when the first fails. -/
theorem bind_of_error {x : Action σ α} {s t : σ} {fault : Fault} {trace : List Event}
    (hx : x s = ⟨.error fault, t, trace⟩) (f : α → Action σ β) :
    (x >>= f) s = ⟨.error fault, t, trace⟩ := by
  rw [bind_apply, hx]

/-- Two actions in a row that succeed both succeed. -/
theorem ok_of_bind {x : Action σ α} {f : α → Action σ β} {s : σ} {b : β}
    (h : ((x >>= f) s).result = .ok b) :
    ∃ a, (x s).result = .ok a ∧ (f a (x s).state).result = .ok b ∧
      ((x >>= f) s).state = (f a (x s).state).state := by
  rcases hx : x s with ⟨fault | a, t, trace⟩
  · rw [bind_of_error hx] at h
    cases h
  · rw [bind_of_ok hx] at h ⊢
    exact ⟨a, rfl, h, rfl⟩

/-- Running two actions in a row when the first succeeds without an event. -/
theorem bind_of_quiet {x : Action σ α} {s t : σ} {a : α} (hx : x s = ⟨.ok a, t, []⟩)
    (f : α → Action σ β) : (x >>= f) s = f a t := by
  rw [bind_of_ok hx, List.nil_append]

/-- Two computations without effects in a row are one. -/
theorem ofExcept_bind (value : Except Fault α) (f : α → Except Fault β) :
    (ofExcept value >>= fun a => ofExcept (f a) : Action σ β) = ofExcept (value >>= f) := by
  funext s
  cases value with
  | error fault => exact bind_of_error (ofExcept_apply _ s) _
  | ok a => exact bind_of_ok (ofExcept_apply _ s) _

/-- A rescued action that succeeds is as it was without the rescue. -/
theorem rescue_of_ok {x : Action σ α} {s t : σ} {a : α} {trace : List Event}
    (hx : x s = ⟨.ok a, t, trace⟩) (handle : Fault → Action σ α) :
    rescue x handle s = ⟨.ok a, t, trace⟩ := by
  simp [rescue, bind_apply, hx]

/-- A rescued action that fails goes on with the handler. -/
theorem rescue_of_error {x : Action σ α} {s t : σ} {fault : Fault} {trace : List Event}
    (hx : x s = ⟨.error fault, t, trace⟩) (handle : Fault → Action σ α) :
    rescue x handle s =
      ⟨(handle fault t).result, (handle fault t).state, trace ++ (handle fault t).trace⟩ := by
  simp [rescue, bind_apply, hx]

/-- Actions that all succeed succeed in a row. -/
theorem each_result {items : List β} {f : β → Action σ Unit}
    (hf : ∀ b ∈ items, ∀ s, (f b s).result = .ok ()) (s : σ) :
    (each items f s).result = .ok () := by
  induction items generalizing s with
  | nil => rfl
  | cons b rest ih =>
    rw [each, bind_of_ok (eq_of_result (hf b List.mem_cons_self s))]
    exact ih (fun c hc => hf c (List.mem_cons_of_mem b hc)) _

/-- The result of an action that gives nothing and meets this fault, or none. -/
def resultOf : Option Fault → Except Fault Unit
  | none => .ok ()
  | some fault => .error fault

theorem resultOf_eq_error {fault? : Option Fault} {fault : Fault} :
    resultOf fault? = .error fault ↔ fault? = some fault := by
  cases fault? <;> simp [resultOf]

/-- In a row the first fault counts, and nothing is told of what would have come after it. -/
theorem each_until {γ : Type} {items : List β} {f : β → Action σ Unit} {fine : σ → Prop}
    {fault? : β → Option Fault} {told? : Event → Option γ} {tells : β → List γ}
    (hf : ∀ b ∈ items, ∀ s, fine s →
      (f b s).result = resultOf (fault? b) ∧ fine (f b s).state ∧
        (f b s).trace.filterMap told? = if (fault? b).isNone then tells b else [])
    {s : σ} (hs : fine s) :
    let done := each items f s
    done.result = resultOf (items.findSome? fault?) ∧ fine done.state ∧
      done.trace.filterMap told? = (items.takeWhile fun b => (fault? b).isNone).flatMap tells := by
  dsimp only
  induction items generalizing s with
  | nil => exact ⟨rfl, hs, rfl⟩
  | cons first rest ih =>
    obtain ⟨hresult, hnext, htold⟩ := hf first List.mem_cons_self s hs
    cases hfault : fault? first with
    | some fault =>
      rw [hfault] at hresult htold
      have hrun : f first s = ⟨.error fault, (f first s).state, (f first s).trace⟩ := by
        rw [show Except.error fault = (f first s).result from hresult.symm]
      rw [each, bind_of_error hrun]
      refine ⟨?_, hnext, ?_⟩
      · rw [List.findSome?_cons_of_isSome (by simp [hfault]), hfault]
        rfl
      · rw [List.takeWhile_cons_of_neg (by simp [hfault])]
        exact htold
    | none =>
      rw [hfault] at hresult htold
      obtain ⟨hlast, hdone, hrest⟩ :=
        ih (fun b hb => hf b (List.mem_cons_of_mem first hb)) hnext
      rw [each, bind_of_ok (eq_of_result hresult)]
      refine ⟨?_, hdone, ?_⟩
      · rw [List.findSome?_cons_of_isNone (by simp [hfault])]
        exact hlast
      · rw [List.filterMap_append, htold, hrest, List.takeWhile_cons_of_pos (by simp [hfault]),
          List.flatMap_cons]
        rfl

/-- Items are done away with one after another, each when its turn comes, even if that fails. So
either none of them is left, or they are gone up to one that failed. -/
theorem each_discards [DecidableEq β] (items : List β) {f : β → Action σ Unit} {fine : σ → Prop}
    {present : σ → β → Bool}
    (hf : ∀ b s, fine s → fine (f b s).state ∧
      ∀ c, present (f b s).state c = (decide (c ≠ b) && present s c))
    {s : σ} (hs : fine s) :
    match (each items f s).result with
    | .ok _ => ∀ c, present (each items f s).state c = (decide (c ∉ items) && present s c)
    | .error fault => ∃ gone last rest t, items = gone ++ last :: rest ∧ fine t ∧
        (f last t).result = .error fault ∧
        ∀ c, present (each items f s).state c = (decide (c ∉ gone ++ [last]) && present s c) := by
  induction items generalizing s with
  | nil => simp [each]
  | cons first rest ih =>
    -- The first item is gone whether it failed or not, so what is present only shrinks.
    obtain ⟨hnext, hpresent⟩ := hf first s hs
    have hmore := ih hnext
    rcases hrun : f first s with ⟨fault | done, after, trace⟩
    · rw [each, bind_of_error hrun]
      refine ⟨[], first, rest, s, rfl, hs, by rw [hrun], fun c => ?_⟩
      rw [hrun] at hpresent
      simpa using hpresent c
    · have hshorter (others : List β) (c : β) :
          (decide (c ∉ others) && (decide (c ≠ first) && present s c)) =
            (decide (c ∉ first :: others) && present s c) := by
        rw [← Bool.and_assoc, ← Bool.decide_and]
        simp [and_comm]
      rw [hrun] at hpresent hmore
      rw [each, bind_of_ok hrun]
      dsimp only at hpresent hmore ⊢
      split
      · rename_i hlast
        rw [hlast] at hmore
        intro c
        rw [hmore c, hpresent c, hshorter]
      · rename_i fault hlast
        rw [hlast] at hmore
        obtain ⟨gone, last, left, t, hitems, ht, hfail, hgone⟩ := hmore
        refine ⟨first :: gone, last, left, t, by rw [hitems]; rfl, ht, hfail, fun c => ?_⟩
        rw [hgone c, hpresent c, hshorter]
        rfl

/-- How items were done away with one after another: either all of them are gone, or those up to
one that failed, which is gone as well. It says which are left and who may fail with which fault. -/
def TornDown (items : List β) (left : β → Bool) (failing : β → Fault → Prop) : Except Fault α → Prop
  | .ok _ => ∀ b, left b = false
  | .error fault => ∃ gone last rest, items = gone ++ last :: rest ∧ failing last fault ∧
      ∀ b, left b = true ↔ b ∈ rest ∧ b ∉ gone ++ [last]

theorem TornDown.mono {items : List β} {left : β → Bool} {failing failing' : β → Fault → Prop}
    {result : Except Fault α} (h : TornDown items left failing result)
    (himp : ∀ b fault, failing b fault → failing' b fault) :
    TornDown items left failing' result := by
  cases result with
  | ok a => exact h
  | error fault =>
    obtain ⟨gone, last, rest, hitems, hlast, hleft⟩ := h
    exact ⟨gone, last, rest, hitems, himp last fault hlast, hleft⟩

theorem TornDown.map {items : List β} {left : β → Bool} {failing : β → Fault → Prop} {γ : Type}
    {result : Except Fault α} (h : TornDown items left failing result) (f : α → γ) :
    TornDown items left failing (result.map f) := by
  cases result <;> exact h

/-- Doing away with all items there are. -/
theorem each_tornDown [DecidableEq β] {items : List β} {f : β → Action σ Unit} {fine : σ → Prop}
    (present : σ → β → Bool)
    (hf : ∀ b s, fine s → fine (f b s).state ∧
      ∀ c, present (f b s).state c = (decide (c ≠ b) && present s c))
    {s : σ} (hs : fine s) (hitems : ∀ c, present s c = true ↔ c ∈ items) :
    TornDown items (present (each items f s).state)
      (fun last fault => ∃ t, fine t ∧ (f last t).result = .error fault)
      (each items f s).result := by
  have hdone := each_discards items hf hs
  cases hresult : (each items f s).result with
  | ok done =>
    rw [hresult] at hdone
    intro c
    rw [hdone c, Bool.eq_false_iff, Ne, Bool.and_eq_true, hitems, decide_eq_true_eq]
    exact fun hboth => hboth.1 hboth.2
  | error fault =>
    rw [hresult] at hdone
    obtain ⟨gone, last, rest, t, rfl, ht, hfail, hleft⟩ := hdone
    refine ⟨gone, last, rest, rfl, ⟨t, ht, hfail⟩, fun c => ?_⟩
    rw [hleft c, Bool.and_eq_true, hitems, decide_eq_true_eq, List.append_cons gone last rest,
      List.mem_append (t := rest)]
    exact ⟨fun ⟨hnot, hmem⟩ => ⟨hmem.resolve_left hnot, hnot⟩,
      fun ⟨hrest, hnot⟩ => ⟨hnot, .inr hrest⟩⟩

/-- The state in which a script ends, whether its steps succeeded or not. -/
def finish (perform : β → Action σ α) (s : σ) (steps : List β) : σ :=
  ((script perform s steps).getLast?.map Outcome.state).getD s

@[simp] theorem finish_nil (perform : β → Action σ α) (s : σ) : finish perform s [] = s := rfl

/-- A script goes on from the state that its first step reached. -/
@[simp] theorem finish_cons (perform : β → Action σ α) (s : σ) (step : β) (rest : List β) :
    finish perform s (step :: rest) = finish perform (perform step s).state rest := by
  simp only [finish, script]
  cases h : script perform (perform step s).state rest with
  | nil => simp
  | cons first more => simp [List.getLast?_eq_some_getLast]

/-- A script in two parts. -/
theorem finish_append (perform : β → Action σ α) (s : σ) (steps more : List β) :
    finish perform s (steps ++ more) = finish perform (finish perform s steps) more := by
  induction steps generalizing s with
  | nil => rfl
  | cons step rest ih => rw [List.cons_append, finish_cons, finish_cons, ih]

/-- Everything that happens in a script, in order. -/
def history (perform : β → Action σ α) (s : σ) (steps : List β) : List Event :=
  (script perform s steps).flatMap Outcome.trace

@[simp] theorem history_cons (perform : β → Action σ α) (s : σ) (step : β) (rest : List β) :
    history perform s (step :: rest) =
      (perform step s).trace ++ history perform (perform step s).state rest := rfl

/-! ## Invariants of past and state -/

/-- The invariant survives the action: it holds of the longer past and the new state. -/
def Maintains (holds : List Event → σ → Prop) (x : Action σ α) : Prop :=
  ∀ past s, holds past s → holds (past ++ (x s).trace) (x s).state

namespace Maintains

variable {holds : List Event → σ → Prop}

protected theorem pure (a : α) : Maintains holds (pure a : Action σ α) := by
  intro past s h
  simpa using h

protected theorem bind {x : Action σ α} {f : α → Action σ β} (hx : Maintains holds x)
    (hf : ∀ a, Maintains holds (f a)) : Maintains holds (x >>= f) := by
  intro past s h
  have hnext := hx past s h
  rcases hrun : x s with ⟨_ | a, t, trace⟩
  · rw [bind_of_error hrun]
    simpa [hrun] using hnext
  · rw [bind_of_ok hrun]
    simp only [hrun] at hnext
    simpa [List.append_assoc] using hf a _ _ hnext

/-- What follows a reading of the state may count on what was read. -/
theorem gets_bind {g : σ → α} {f : α → Action σ β}
    (hf : ∀ past s, holds past s → holds (past ++ (f (g s) s).trace) (f (g s) s).state) :
    Maintains holds (gets g >>= f) := by
  intro past s h
  simpa [bind_apply] using hf past s h

protected theorem gets (g : σ → α) : Maintains holds (gets g) := by
  intro past s h
  simpa using h

protected theorem fail (fault : Fault) : Maintains holds (fail fault : Action σ α) := by
  intro past s h
  simpa using h

protected theorem ofExcept (value : Except Fault α) : Maintains holds (ofExcept value) := by
  intro past s h
  simpa using h

protected theorem emit {event : Event} (h : ∀ past s, holds past s → holds (past ++ [event]) s) :
    Maintains holds (emit event) := h

protected theorem adjust {part : Lens σ τ} {f : τ → τ}
    (h : ∀ past s, holds past s → holds past (part.set (f (part.get s)) s)) :
    Maintains holds (adjust part f) := by
  intro past s hs
  simpa using h past s hs

protected theorem modify {f : σ → σ} (h : ∀ past s, holds past s → holds past (f s)) :
    Maintains holds (modify f) := by
  intro past s hs
  simpa using h past s hs

protected theorem ofOption (value : Option α) (fault : Fault) :
    Maintains holds (ofOption value fault) := by
  cases value with
  | none => exact .fail fault
  | some a => exact .pure a

protected theorem attempt {x : Action σ α} (hx : Maintains holds x) :
    Maintains holds (attempt x) := hx

protected theorem rescue {x : Action σ α} {handle : Fault → Action σ α} (hx : Maintains holds x)
    (hhandle : ∀ fault, Maintains holds (handle fault)) : Maintains holds (rescue x handle) := by
  refine hx.attempt.bind fun result => ?_
  cases result with
  | ok a => exact .pure a
  | error fault => exact hhandle fault

protected theorem ensure {x : Action σ α} {after : Action σ Unit} (hx : Maintains holds x)
    (hafter : Maintains holds after) : Maintains holds (ensure x after) :=
  hx.attempt.bind fun result => hafter.bind fun _ => .ofExcept result

protected theorem each {items : List β} {f : β → Action σ Unit}
    (hf : ∀ b ∈ items, Maintains holds (f b)) : Maintains holds (each items f) := by
  induction items with
  | nil => exact .pure ()
  | cons b rest ih =>
    refine (hf b List.mem_cons_self).bind fun _ => ih fun c hc => ?_
    exact hf c (List.mem_cons_of_mem b hc)

protected theorem ite {c : Prop} [Decidable c] {x y : Action σ α} (hx : Maintains holds x)
    (hy : Maintains holds y) : Maintains holds (if c then x else y) := by
  split
  · exact hx
  · exact hy

/-- An action on a part maintains what it maintains with the part in its place. -/
protected theorem zoom {part : Lens σ τ} {x : Action τ α}
    (hx : ∀ s, Maintains (fun past t => holds past (part.set t s)) x) :
    Maintains holds (zoom part x) := by
  intro past s h
  have hplace : holds past (part.set (part.get s) s) := by rwa [part.set_get]
  exact hx s past (part.get s) hplace

/-- A script maintains what each of its steps maintains. -/
theorem steps {perform : β → Action σ α} {steps : List β}
    (hperform : ∀ step ∈ steps, Maintains holds (perform step)) {past : List Event} {s : σ}
    (h : holds past s) : holds (past ++ history perform s steps) (finish perform s steps) := by
  induction steps generalizing past s with
  | nil => simpa [history, Action.script] using h
  | cons step rest ih =>
    rw [history_cons, finish_cons, ← List.append_assoc]
    refine ih (fun other hother => hperform other (List.mem_cons_of_mem step hother)) ?_
    exact hperform step List.mem_cons_self past s h

/-- So it does if every step there is maintains it. -/
theorem script {perform : β → Action σ α} (hperform : ∀ step, Maintains holds (perform step))
    {past : List Event} {s : σ} (h : holds past s) (steps : List β) :
    holds (past ++ history perform s steps) (finish perform s steps) :=
  Maintains.steps (fun step _ => hperform step) h

end Maintains

/-! ## From one condition to another -/

/-- What holds before the action leads to what holds after it, also when it fails half way. -/
def Leads (before after : List Event → σ → Prop) (x : Action σ α) : Prop :=
  ∀ past s, before past s → after (past ++ (x s).trace) (x s).state

/-- What is maintained leads to itself. -/
theorem Maintains.leads {holds : List Event → σ → Prop} {x : Action σ α}
    (hx : Maintains holds x) : Leads holds holds x := hx

namespace Leads

variable {before between after : List Event → σ → Prop}

/-- What is reached may be weakened. -/
theorem mono {x : Action σ α} (hx : Leads before between x)
    (himp : ∀ past s, between past s → after past s) : Leads before after x :=
  fun past s h => himp _ _ (hx past s h)

/-- The first of two actions may fail, so what it reaches has to do for the end as well. -/
protected theorem bind {x : Action σ α} {f : α → Action σ β} (hx : Leads before between x)
    (hf : ∀ a, Leads between after (f a)) (himp : ∀ past s, between past s → after past s) :
    Leads before after (x >>= f) := by
  intro past s h
  have hnext := hx past s h
  rcases hrun : x s with ⟨_ | a, t, trace⟩
  · rw [bind_of_error hrun]
    simpa [hrun] using himp _ _ hnext
  · rw [bind_of_ok hrun]
    simp only [hrun] at hnext
    simpa [List.append_assoc] using hf a _ _ hnext

/-- What follows may be anything that maintains what was reached. -/
theorem bind_maintains {x : Action σ α} {f : α → Action σ β} (hx : Leads before after x)
    (hf : ∀ a, Maintains after (f a)) : Leads before after (x >>= f) :=
  hx.bind (fun a => (hf a).leads) fun _ _ => id

protected theorem attempt {x : Action σ α} (hx : Leads before after x) :
    Leads before after (attempt x) := hx

protected theorem rescue {x : Action σ α} {handle : Fault → Action σ α}
    (hx : Leads before after x) (hhandle : ∀ fault, Maintains after (handle fault)) :
    Leads before after (rescue x handle) := by
  refine hx.attempt.bind_maintains fun result => ?_
  cases result with
  | ok a => exact .pure a
  | error fault => exact hhandle fault

end Leads

/-! ## Success -/

/-- From a state of a certain sort the action succeeds, and it ends in such a state. -/
def Succeeds (fine : σ → Prop) (x : Action σ α) : Prop :=
  ∀ s, fine s → (∃ a, (x s).result = .ok a) ∧ fine (x s).state

namespace Succeeds

variable {fine : σ → Prop}

protected theorem pure (a : α) : Succeeds fine (pure a : Action σ α) := fun _ hs => ⟨⟨a, rfl⟩, hs⟩

protected theorem gets (g : σ → α) : Succeeds fine (gets g) := fun s hs => ⟨⟨g s, rfl⟩, hs⟩

protected theorem emit (event : Event) : Succeeds fine (emit event) := fun _ hs => ⟨⟨(), rfl⟩, hs⟩

protected theorem adjust {part : Lens σ τ} {f : τ → τ}
    (h : ∀ s, fine s → fine (part.set (f (part.get s)) s)) : Succeeds fine (adjust part f) :=
  fun s hs => ⟨⟨(), rfl⟩, h s hs⟩

protected theorem bind {x : Action σ α} {f : α → Action σ β} (hx : Succeeds fine x)
    (hf : ∀ a, Succeeds fine (f a)) : Succeeds fine (x >>= f) := by
  intro s hs
  obtain ⟨⟨a, ha⟩, hnext⟩ := hx s hs
  rw [bind_of_ok (eq_of_result ha)]
  exact hf a _ hnext

protected theorem ite {c : Prop} [Decidable c] {x y : Action σ α} (hx : Succeeds fine x)
    (hy : Succeeds fine y) : Succeeds fine (if c then x else y) := by
  split
  · exact hx
  · exact hy

/-- What may fail is rescued by what succeeds. -/
protected theorem rescue {x : Action σ α} {handle : Fault → Action σ α}
    (hx : ∀ s, fine s → fine (x s).state) (hhandle : ∀ fault, Succeeds fine (handle fault)) :
    Succeeds fine (rescue x handle) := by
  intro s hs
  have hnext := hx s hs
  rcases hrun : x s with ⟨fault | a, t, trace⟩
  · rw [hrun] at hnext
    rw [rescue_of_error hrun]
    exact hhandle fault t hnext
  · rw [hrun] at hnext
    rw [rescue_of_ok hrun]
    exact ⟨⟨a, rfl⟩, hnext⟩

protected theorem each {items : List β} {f : β → Action σ Unit}
    (hf : ∀ b ∈ items, Succeeds fine (f b)) : Succeeds fine (each items f) := by
  induction items with
  | nil => exact .pure ()
  | cons b rest ih =>
    refine (hf b List.mem_cons_self).bind fun _ => ih fun c hc => ?_
    exact hf c (List.mem_cons_of_mem b hc)

protected theorem modify {f : σ → σ} (h : ∀ s, fine s → fine (f s)) : Succeeds fine (modify f) :=
  fun s hs => ⟨⟨(), rfl⟩, h s hs⟩

end Succeeds

/-- The action succeeds from every state. -/
abbrev Unfailing (x : Action σ α) : Prop := Succeeds (fun _ => True) x

namespace Succeeds

theorem of_result {x : Action σ Unit} (h : ∀ s, (x s).result = .ok ()) : Unfailing x :=
  fun s _ => ⟨⟨(), h s⟩, trivial⟩

theorem result {x : Action σ Unit} (h : Unfailing x) (s : σ) : (x s).result = .ok () := by
  obtain ⟨⟨done, hdone⟩, _⟩ := h s trivial
  exact hdone

protected theorem zoom {part : Lens σ τ} {x : Action τ α} (h : Unfailing x) :
    Unfailing (zoom part x) :=
  fun s _ => ⟨(h (part.get s) trivial).1, trivial⟩

end Succeeds

/-! ## Leaving a view alone -/

/-- What is seen of the state is as it was, and only harmless events have happened. -/
def Keeping (view : σ → υ) (harmless : Event → Prop) (seen : υ) (past : List Event) (s : σ) :
    Prop := view s = seen ∧ ∀ event ∈ past, harmless event

/-- The action changes nothing that is seen and leaves harmless events only. -/
def Leaves (view : σ → υ) (harmless : Event → Prop) (x : Action σ α) : Prop :=
  ∀ seen, Maintains (Keeping view harmless seen) x

namespace Leaves

variable {view : σ → υ} {harmless : Event → Prop} {x : Action σ α}

/-- Nothing that is seen has changed. -/
theorem state (h : Leaves view harmless x) (s : σ) : view (x s).state = view s :=
  (h (view s) [] s ⟨rfl, by simp⟩).1

/-- All events are harmless. -/
theorem trace (h : Leaves view harmless x) (s : σ) : ∀ event ∈ (x s).trace, harmless event := by
  simpa using (h (view s) [] s ⟨rfl, by simp⟩).2

/-- An action that leaves everything seen as it was, from any state. -/
theorem intro (hstate : ∀ s, view (x s).state = view s)
    (htrace : ∀ s, ∀ event ∈ (x s).trace, harmless event) : Leaves view harmless x := by
  intro seen past s hs
  refine ⟨(hstate s).trans hs.1, fun event hevent => ?_⟩
  rcases List.mem_append.mp hevent with hold | hnew
  · exact hs.2 event hold
  · exact htrace s event hnew

/-- What is harmless in a narrow sense is so in a wide one. -/
theorem mono {wide : Event → Prop} (h : Leaves view harmless x)
    (hwide : ∀ event, harmless event → wide event) : Leaves view wide x :=
  intro h.state fun s event hevent => hwide event (h.trace s event hevent)

/-- Whoever sees less sees no change either. -/
theorem of_view {ω : Type} (h : Leaves view harmless x) (f : υ → ω) :
    Leaves (fun s => f (view s)) harmless x := by
  intro seen past s hs
  obtain ⟨hview, hpast⟩ := h (view s) past s ⟨rfl, hs.2⟩
  exact ⟨(congrArg f hview).trans hs.1, hpast⟩

end Leaves

namespace Keeping

variable {view : σ → υ} {harmless : Event → Prop} {seen : υ}

/-- A harmless event changes nothing. -/
theorem emit {event : Event} (h : harmless event) :
    Maintains (Keeping view harmless seen) (emit event) := by
  refine Maintains.emit fun past s hs => ⟨hs.1, fun other hother => ?_⟩
  rcases List.mem_append.mp hother with hold | hnew
  · exact hs.2 other hold
  · rw [List.mem_singleton.mp hnew]
    exact h

/-- Changing what is not seen changes nothing. -/
theorem modify {f : σ → σ} (h : ∀ s, view (f s) = view s) :
    Maintains (Keeping view harmless seen) (modify f) :=
  Maintains.modify fun _ s hs => ⟨(h s).trans hs.1, hs.2⟩

/-- Changing a part that is not seen changes nothing. -/
theorem adjust {part : Lens σ τ} (h : ∀ t s, view (part.set t s) = view s) (f : τ → τ) :
    Maintains (Keeping view harmless seen) (adjust part f) :=
  Maintains.adjust fun _ s hs => ⟨(h _ s).trans hs.1, hs.2⟩

/-- An action on a part, when the whole shows no more of that part than the action leaves
alone. -/
theorem zoom {ω : Type} {inner : τ → ω} {part : Lens σ τ} {y : Action τ α}
    (h : ∀ t u s, inner t = inner u → view (part.set t s) = view (part.set u s))
    (hy : Leaves inner harmless y) : Maintains (Keeping view harmless seen) (zoom part y) := by
  intro past s hs
  have hview := h _ _ s (hy.state (part.get s))
  rw [part.set_get, hs.1] at hview
  refine ⟨hview, fun event hevent => ?_⟩
  rcases List.mem_append.mp hevent with hold | hnew
  · exact hs.2 event hold
  · exact hy.trace _ event hnew

end Keeping

end ClosingLabels.Action
