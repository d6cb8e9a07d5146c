import ClosingLabels.Proofs.Canvases

/-!
# One overlay on two canvases

What an overlay does to a willing canvas does not depend on the canvas, but for the handles
it is given. So the same steps, taken on a display and on a recorder, lead to the same labels
on record and on both canvases, in the same order, even though one canvas keeps its labels by
document and the other all in one list. The editors of the display may come and go meanwhile.
-/

namespace ClosingLabels

variable {σ τ H K : Type}

/-! ## Sheets up to handles -/

namespace Sheet

/-- A sheet with all documents wiped off. -/
def blank (sheet : Sheet H) : Sheet H := ⟨sheet.options, fun _ => [], fun _ => []⟩

/-- Two sheets that differ in nothing but handles. -/
structure Alike (one : Sheet H) (other : Sheet K) : Prop where
  options : one.options = other.options
  labels : ∀ document, (one.labels document).map Placed.content =
    (other.labels document).map Placed.content
  marks : ∀ document, (one.marks document).map Mark.look = (other.marks document).map Mark.look

/-- Labels that say the same look the same in the same options. -/
theorem map_look_mark (options : OverlayOptions) (placed : List (Placed H)) :
    (placed.map options.mark).map Mark.look = (placed.map Placed.content).map options.look := by
  rw [List.map_map, List.map_map]
  rfl

theorem map_anchor_content (placed : List (Placed H)) :
    placed.map Placed.anchor = (placed.map Placed.content).map Prod.fst := by
  rw [List.map_map]
  rfl

namespace Alike

variable {one : Sheet H} {other : Sheet K}

theorem blank (h : one.Alike other) : one.blank.Alike other.blank :=
  ⟨h.options, fun _ => rfl, fun _ => rfl⟩

theorem withOptions (h : one.Alike other) (options : OverlayOptions) :
    Alike { one with options } { other with options } :=
  ⟨rfl, h.labels, h.marks⟩

theorem wipe (h : one.Alike other) (document : String) :
    (one.wipe document).Alike (other.wipe document) where
  options := h.options
  labels name := by
    by_cases hname : name = document
    · simp [Sheet.wipe, hname]
    · simpa [Sheet.wipe, hname] using h.labels name
  marks name := by
    by_cases hname : name = document
    · simp [Sheet.wipe, hname]
    · simpa [Sheet.wipe, hname] using h.marks name

/-- Labels that say the same may be added to both. -/
theorem append (h : one.Alike other) (options : OverlayOptions) (document : String)
    {placed : List (Placed H)} {copied : List (Placed K)}
    (hsame : placed.map Placed.content = copied.map Placed.content) :
    (one.append options document placed).Alike (other.append options document copied) where
  options := h.options
  labels name := by
    by_cases hname : name = document
    · simp [Sheet.append, hname, h.labels document, hsame]
    · simpa [Sheet.append, hname] using h.labels name
  marks name := by
    by_cases hname : name = document
    · simp only [Sheet.append, if_pos hname, List.map_append, h.marks name, map_look_mark, hsame]
    · simpa [Sheet.append, hname] using h.marks name

/-- A document may be renewed on both by the same labels. -/
theorem renewed (h : one.Alike other) {document : String} {chosen : List Label} {after : Sheet H}
    {later : Sheet K} (hone : Renewed document chosen one after)
    (hother : Renewed document chosen other later) : after.Alike later := by
  have hlabels : (after.labels document).map Placed.content =
      (later.labels document).map Placed.content := hone.labels.trans hother.labels.symm
  constructor
  · rw [hone.options, hother.options, h.options]
  · intro name
    by_cases hname : name = document
    · rw [hname, hlabels]
    · rw [(hone.others name hname).1, (hother.others name hname).1, h.labels name]
  · intro name
    by_cases hname : name = document
    · rw [hname, hone.marks, hother.marks, map_look_mark, map_look_mark, hlabels, h.options]
    · rw [(hone.others name hname).2, (hother.others name hname).2, h.marks name]

end Alike

/-- Wiping documents off one after another. -/
theorem labels_wipeEach (sheet : Sheet H) (documents : List String) (name : String) :
    (documents.foldl wipe sheet).labels name =
      if name ∈ documents then [] else sheet.labels name := by
  induction documents generalizing sheet with
  | nil => rfl
  | cons first rest ih =>
    rw [List.foldl_cons, ih]
    by_cases hrest : name ∈ rest
    · simp [hrest]
    · by_cases hfirst : name = first <;> simp [Sheet.wipe, hrest, hfirst]

theorem options_wipeEach (sheet : Sheet H) (documents : List String) :
    (documents.foldl wipe sheet).options = sheet.options := by
  induction documents generalizing sheet with
  | nil => rfl
  | cons first rest ih => exact ih _

/-- Nothing is left once all documents with labels are wiped off. -/
theorem Owned.wipeEach_eq_blank {sheet : Sheet H} (h : sheet.Owned) {documents : List String}
    (hall : ∀ name, name ∉ documents → sheet.labels name = []) :
    documents.foldl Sheet.wipe sheet = sheet.blank := by
  have howned : (documents.foldl Sheet.wipe sheet).Owned :=
    List.foldlRecOn documents Sheet.wipe h fun _ howned name _ => howned.wipe name
  have hlabels (name : String) : (documents.foldl Sheet.wipe sheet).labels name = [] := by
    rw [labels_wipeEach]
    by_cases hname : name ∈ documents
    · exact if_pos hname
    · rw [if_neg hname, hall name hname]
  have hmarks (name : String) : (documents.foldl Sheet.wipe sheet).marks name = [] :=
    howned.marks_eq_nil (hlabels name)
  rcases hsheet : documents.foldl Sheet.wipe sheet with ⟨options, labels, marks⟩
  rw [hsheet] at hlabels hmarks
  obtain rfl : options = sheet.options := by
    rw [← options_wipeEach sheet documents, hsheet]
  obtain rfl : labels = fun _ => [] := funext hlabels
  obtain rfl : marks = fun _ => [] := funext hmarks
  rfl

end Sheet

/-! ## More on willing sites -/

namespace Overlay.Site.Willing

variable [DecidableEq H] {site : Site σ H} {marks : σ → String → List (Mark H)}
  {apt beside : σ → Prop} {s : σ}

/-- What drawing keeps may be added to what it takes. -/
theorem and (h : site.Willing marks apt)
    (hpart : ∀ overlay s, beside s → beside (site.part.set overlay s))
    (hdraw : ∀ document anchor text style s, beside s →
      beside (site.canvas.draw document anchor text style s).state)
    (herase : ∀ document handle s, beside s → beside (site.canvas.erase document handle s).state)
    (hflush : ∀ document s, beside s → beside (site.canvas.flush document s).state) :
    site.Willing marks fun s => apt s ∧ beside s where
  part overlay s hs := ⟨h.part overlay s hs.1, hpart overlay s hs.2⟩
  still := h.still
  draw document anchor text style s hs := by
    obtain ⟨handle, after, trace, hrun, hapt, hrest⟩ :=
      h.draw document anchor text style s hs.1
    have hbeside := hdraw document anchor text style s hs.2
    rw [hrun] at hbeside
    exact ⟨handle, after, trace, hrun, ⟨hapt, hbeside⟩, hrest⟩
  erase document handle s hs hforeign := by
    obtain ⟨after, trace, hrun, hapt, hrest⟩ := h.erase document handle s hs.1 hforeign
    have hbeside := herase document handle s hs.2
    rw [hrun] at hbeside
    exact ⟨after, trace, hrun, ⟨hapt, hbeside⟩, hrest⟩
  flush document seen past s hs := by
    obtain ⟨hapt, hseen⟩ := h.flush document seen past s ⟨hs.1.1, hs.2⟩
    exact ⟨⟨hapt, hflush document s hs.1.2⟩, hseen⟩

/-- Adding labels draws those whose place is free. -/
theorem add (h : site.Willing marks apt) (document : String) (labels : List Label) (hapt : apt s)
    (howned : (site.sheet marks s).Owned) :
    ∃ placed : List (Placed H),
      apt (Overlay.add site document labels s).state ∧
      (site.sheet marks (Overlay.add site document labels s).state).Owned ∧
      site.sheet marks (Overlay.add site document labels s).state =
        (site.sheet marks s).append (site.part.get s).options document placed ∧
      placed.map Placed.content = ((site.part.get s).options.selectFrom
        (((site.part.get s).labels document).map Placed.anchor) labels).map Label.content := by
  obtain ⟨placed, drawn, trace, hrun, hdrawn, hstays, hshows, hcontent⟩ :=
    h.drawAll document labels hapt howned
  have hflush : site.Rests marks apt
      (if labels.isEmpty then pure () else site.canvas.flush document) :=
    fun seen => .ite (.pure ()) (h.flush document seen)
  have hstate : (Overlay.add site document labels s).state =
      ((if labels.isEmpty then pure () else site.canvas.flush document : Action σ Unit)
        drawn).state := by
    have hdraw : (do let _ ← Overlay.drawAll site document labels : Action σ Unit) s =
        ⟨.ok (), drawn, trace⟩ := by
      rw [Action.bind_of_ok hrun, Action.pure_apply, List.append_nil]
    unfold Overlay.add Action.ensure
    rw [Action.bind_of_ok (Action.attempt_apply _ _), hdraw]
    exact Action.state_bind_pure _ _ _
  obtain ⟨hafter, hsame⟩ := hflush.state hdrawn
  refine ⟨placed, ?_, ?_, ?_, hcontent⟩
  · rwa [hstate]
  · rw [hstate, hsame]
    exact hstays
  · rw [hstate, hsame, hshows]

/-- Clearing documents one after another wipes them all off, if none breaks it off. -/
theorem clearEach (h : site.Willing marks apt) (documents : List String) (hapt : apt s)
    (howned : (site.sheet marks s).Owned)
    (hresult : (Action.each documents (Overlay.clear site) s).result = .ok ()) :
    apt (Action.each documents (Overlay.clear site) s).state ∧
      site.sheet marks (Action.each documents (Overlay.clear site) s).state =
        documents.foldl Sheet.wipe (site.sheet marks s) := by
  induction documents generalizing s with
  | nil => exact ⟨hapt, rfl⟩
  | cons first rest ih =>
    obtain ⟨hcleared, hwiped⟩ := h.clear first hapt howned
    rw [Action.each] at hresult ⊢
    rcases hrun : Overlay.clear site first s with ⟨fault | done, cleared, trace⟩
    · rw [Action.bind_of_error hrun] at hresult
      cases hresult
    · rw [Action.bind_of_ok hrun] at hresult ⊢
      rw [hrun] at hcleared hwiped
      dsimp only at hresult hcleared hwiped ⊢
      rw [List.foldl_cons, ← hwiped]
      exact ih hcleared (hwiped ▸ howned.wipe first) hresult

/-- A disposal that is not broken off leaves nothing. -/
theorem dispose (h : site.Willing marks apt) (hapt : apt s) (howned : (site.sheet marks s).Owned)
    (hresult : (Overlay.dispose site s).result = .ok ()) :
    apt (Overlay.dispose site s).state ∧
      site.sheet marks (Overlay.dispose site s).state = (site.sheet marks s).blank := by
  unfold Overlay.dispose at hresult ⊢
  rw [Action.bind_of_quiet (Action.look_apply _ _)] at hresult ⊢
  obtain ⟨hafter, hwiped⟩ := h.clearEach _ hapt howned hresult
  refine ⟨hafter, hwiped.trans (howned.wipeEach_eq_blank fun name hname => ?_)⟩
  have hnone : (site.part.get s).tracked.get? name = none := by
    rw [← Option.not_isSome_iff_eq_none]
    exact fun hsome => hname ((Table.mem_keys_iff _ _).mpr hsome)
  change ((site.part.get s).tracked.get? name).getD [] = []
  rw [hnone]
  rfl

/-- No disposal is broken off where no flush fails. -/
theorem dispose_result (h : site.Willing marks apt)
    (hflush : ∀ document t, apt t → (site.canvas.flush document t).result = .ok ()) (hapt : apt s)
    (howned : (site.sheet marks s).Owned) : (Overlay.dispose site s).result = .ok () := by
  unfold Overlay.dispose
  rw [Action.bind_of_quiet (Action.look_apply _ _)]
  generalize (site.part.get s).tracked.keys = documents
  induction documents generalizing s with
  | nil => rfl
  | cons first rest ih =>
    obtain ⟨count, retracted, _, hretract, hretracted, _⟩ := h.retract first hapt howned
    have hresult : (Overlay.clear site first s).result = .ok () := by
      rw [clear_result, hretract]
      split
      · rfl
      · exact hflush first retracted hretracted
    obtain ⟨hcleared, hwiped⟩ := h.clear first hapt howned
    rw [Action.each, Action.bind_of_ok (Action.eq_of_result hresult)]
    exact ih hcleared (hwiped ▸ howned.wipe first)

end Overlay.Site.Willing

/-! ## Steps -/

/-- The canvas of an overlay is willing, and the catalog it goes by lies beside them. -/
structure Overlay.Site.Guided [DecidableEq H] (site : Overlay.Site σ H) (catalog : Lens σ Catalog)
    (marks : σ → String → List (Mark H)) (apt : σ → Prop) : Prop where
  willing : ∀ current, site.Willing marks fun s => apt s ∧ catalog.get s = current
  reload : ∀ current s, apt s →
    apt (catalog.set current s) ∧ site.sheet marks (catalog.set current s) = site.sheet marks s

namespace Scenario.OverlayStep

/-- Does a step with the overlay of any site and the catalog beside it. -/
def act (site : Overlay.Site σ H) (catalog : Lens σ Catalog) :
    OverlayStep → Action σ (Option (List (Placed H)))
  | add document labels => do
    Overlay.add site document labels
    return none
  | clear document => do
    Overlay.clear site document
    return none
  | redraw document publication minLines => do
    let publication ← Action.ofExcept publication
    let current ← Action.look catalog
    Overlay.redraw site current document publication.view minLines
    return none
  | setOptions options => do
    Overlay.setOptions site options
    return none
  | reload overrides grammars => do
    Catalog.reloadIn catalog overrides grammars
    return none
  | tracked document => Action.gets fun s => some ((site.part.get s).labels document)
  | dispose => do
    Overlay.dispose site
    return none

/-- On a recorder this is what steps of scenarios do. -/
theorem perform_eq_act : perform = act OverlayRun.site OverlayRun.catalogPart := by
  funext step
  cases step <;> rfl

/-- The catalog after a step. -/
def nextCatalog (catalog : Catalog) : OverlayStep → Catalog
  | reload overrides grammars => catalog.reload overrides grammars
  | _ => catalog

/-- A step is not broken off on its way through several documents. -/
def Unbroken (result : Except Fault (Option (List (Placed H)))) : OverlayStep → Prop
  | dispose => result.isOk
  | _ => True

instance (result : Except Fault (Option (List (Placed H)))) (step : OverlayStep) :
    Decidable (step.Unbroken result) := by
  unfold Unbroken
  split <;> infer_instance

/-- What a step makes of the sheet of a willing canvas. -/
def Leads (catalog : Catalog) (before after : Sheet H) : OverlayStep → Prop
  | add document labels => ∃ placed : List (Placed H),
      placed.map Placed.content = (before.options.selectFrom
        ((before.labels document).map Placed.anchor) labels).map Label.content ∧
      after = before.append before.options document placed
  | clear document => after = before.wipe document
  | redraw document (.ok publication) minLines =>
      let kinds := catalog.kinds publication.language
      before.Renewed document (before.options.select
        (Label.gather publication.document minLines kinds (publication.find kinds))) after
  | redraw _ (.error _) _ | reload _ _ | tracked _ => after = before
  | setOptions options => after = { before with options }
  | dispose => after = before.blank

/-- Steps from sheets that are alike lead to sheets that are alike. -/
theorem Leads.alike {catalog : Catalog} {step : OverlayStep} {one after : Sheet H}
    {other later : Sheet K} (h : one.Alike other) (hone : step.Leads catalog one after)
    (hother : step.Leads catalog other later) : after.Alike later := by
  cases step with
  | add document labels =>
    obtain ⟨placed, hplaced, rfl⟩ := hone
    obtain ⟨copied, hcopied, rfl⟩ := hother
    rw [← h.options] at hcopied ⊢
    refine h.append one.options document ?_
    rw [hplaced, hcopied, Sheet.map_anchor_content, Sheet.map_anchor_content, h.labels document]
  | clear document =>
    obtain rfl := hone
    obtain rfl := hother
    exact h.wipe document
  | redraw document publication minLines =>
    cases publication with
    | ok publication =>
      rw [Leads, ← h.options] at hother
      exact h.renewed hone hother
    | error fault =>
      obtain rfl := hone
      obtain rfl := hother
      exact h
  | setOptions options =>
    obtain rfl := hone
    obtain rfl := hother
    exact h.withOptions options
  | reload overrides grammars =>
    obtain rfl := hone
    obtain rfl := hother
    exact h
  | tracked document =>
    obtain rfl := hone
    obtain rfl := hother
    exact h
  | dispose =>
    obtain rfl := hone
    obtain rfl := hother
    exact h.blank

variable [DecidableEq H] {site : Overlay.Site σ H} {catalog : Lens σ Catalog}
  {marks : σ → String → List (Mark H)} {apt : σ → Prop} {s : σ}

/-- On a willing canvas a step does what it is to do, unless it is broken off. -/
theorem act_leads (h : site.Guided catalog marks apt) (step : OverlayStep) (hapt : apt s)
    (howned : (site.sheet marks s).Owned)
    (hunbroken : step.Unbroken (act site catalog step s).result) :
    let after := (act site catalog step s).state
    apt after ∧ (site.sheet marks after).Owned ∧
      catalog.get after = step.nextCatalog (catalog.get s) ∧
      step.Leads (catalog.get s) (site.sheet marks s) (site.sheet marks after) := by
  have hwilling := h.willing (catalog.get s)
  cases step with
  | add document labels =>
    obtain ⟨placed, hafter, hstays, hshows, hcontent⟩ :=
      hwilling.add document labels ⟨hapt, rfl⟩ howned
    rw [act, Action.state_bind_pure]
    exact ⟨hafter.1, hstays, hafter.2, placed, hcontent, hshows⟩
  | clear document =>
    obtain ⟨hafter, hwiped⟩ := hwilling.clear document ⟨hapt, rfl⟩ howned
    rw [act, Action.state_bind_pure]
    exact ⟨hafter.1, hwiped ▸ howned.wipe document, hafter.2, hwiped⟩
  | redraw document publication minLines =>
    cases publication with
    | error fault => exact ⟨hapt, howned, rfl, rfl⟩
    | ok publication =>
      have hstate : (act site catalog (.redraw document (.ok publication) minLines) s).state =
          (Overlay.redraw site (catalog.get s) document publication.view minLines s).state := by
        rw [act, Action.bind_of_quiet (Action.ofExcept_apply _ _),
          Action.bind_of_quiet (Action.look_apply _ _), Action.state_bind_pure]
      have hfind (kinds : List Text) : site.Rests marks
          (fun t => apt t ∧ catalog.get t = catalog.get s) (publication.view.find kinds) :=
        fun _ => .ofExcept _
      obtain ⟨hafter, hstays, hrenewed⟩ :=
        hwilling.redraw hfind (catalog.get s) document minLines ⟨hapt, rfl⟩ howned
      rw [hstate]
      exact ⟨hafter.1, hstays, hafter.2, hrenewed⟩
  | setOptions options =>
    obtain ⟨hafter, hcatalog⟩ := hwilling.part { site.part.get s with options } s ⟨hapt, rfl⟩
    have hsheet : site.sheet marks (site.part.set { site.part.get s with options } s) =
        { site.sheet marks s with options } := by
      simp only [Overlay.Site.sheet, site.part.get_set, hwilling.still]
      rfl
    refine ⟨hafter, ?_, hcatalog, hsheet⟩
    change (site.sheet marks (site.part.set { site.part.get s with options } s)).Owned
    rw [hsheet]
    exact ⟨howned.handles, howned.apart⟩
  | reload overrides grammars =>
    have hstate : (act site catalog (.reload overrides grammars) s).state =
        catalog.set ((catalog.get s).reload overrides grammars) s := by
      rw [act, Action.state_bind_pure]
      rfl
    obtain ⟨hafter, hsheet⟩ := h.reload ((catalog.get s).reload overrides grammars) s hapt
    rw [hstate]
    exact ⟨hafter, hsheet ▸ howned, catalog.get_set _ _, hsheet⟩
  | tracked document => exact ⟨hapt, howned, rfl, rfl⟩
  | dispose =>
    rw [act] at hunbroken ⊢
    rw [Action.state_bind_pure]
    rcases hrun : Overlay.dispose site s with ⟨fault | done, after, trace⟩
    · rw [Action.bind_of_error hrun] at hunbroken
      cases hunbroken
    · obtain ⟨hafter, hblank⟩ := hwilling.dispose ⟨hapt, rfl⟩ howned (by rw [hrun])
      rw [hrun] at hafter hblank
      refine ⟨hafter.1, ?_, hafter.2, hblank⟩
      rw [hblank]
      exact ⟨fun _ => rfl, fun _ _ _ mark hmark => by cases hmark⟩

end Scenario.OverlayStep

end ClosingLabels
