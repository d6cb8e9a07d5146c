import ClosingLabels.Proofs.Drawing
import ClosingLabels.Proofs.Redrawing

/-!
# What shows on a willing canvas

A canvas is willing if it refuses no drawing and no erasure and never gives a handle out
twice. An overlay on such a canvas keeps marks and labels in step: every mark stands for
one label on record. Redrawing a document then shows exactly the labels selected from
those extracted, in the look now in force, whatever the document showed before, and
leaves all other documents alone.
-/

namespace ClosingLabels

open ClosingLabels.Action (Maintains)

/-! ## Sheets -/

/-- A label as a canvas shows it. -/
structure Mark (H : Type) where
  handle : H
  anchor : Rat
  text : Text
  style : Style
deriving DecidableEq, Repr

/-- What a mark looks like, whatever its handle. -/
def Mark.look {H : Type} (mark : Mark H) : Rat × Text × Style :=
  (mark.anchor, mark.text, mark.style)

namespace OverlayOptions

variable {H : Type}

/-- The mark of a label on record. -/
def mark (options : OverlayOptions) (label : Placed H) : Mark H :=
  ⟨label.handle, label.anchor, options.marker ++ label.text, options.style⟩

/-- What a label looks like on a canvas. -/
def look (options : OverlayOptions) (content : Rat × Text) : Rat × Text × Style :=
  (content.1, options.marker ++ content.2, options.style)

end OverlayOptions

/-- An overlay with its canvas: the options in force, and for each document the labels on record
and the marks on the canvas. -/
structure Sheet (H : Type) where
  options : OverlayOptions
  labels : String → List (Placed H)
  marks : String → List (Mark H)

namespace Sheet

variable {H : Type} {sheet : Sheet H} {document : String}

/-- A sheet without the labels of a document. -/
def wipe (sheet : Sheet H) (document : String) : Sheet H where
  options := sheet.options
  labels other := if other = document then [] else sheet.labels other
  marks other := if other = document then [] else sheet.marks other

/-- A sheet with more labels in a document. -/
def append (sheet : Sheet H) (options : OverlayOptions) (document : String)
    (placed : List (Placed H)) : Sheet H where
  options := sheet.options
  labels other := sheet.labels other ++ if other = document then placed else []
  marks other := sheet.marks other ++ if other = document then placed.map options.mark else []

@[simp] theorem append_nil (sheet : Sheet H) (options : OverlayOptions) (document : String) :
    sheet.append options document [] = sheet := by
  simp [append]

theorem append_append (sheet : Sheet H) (options : OverlayOptions) (document : String)
    (placed more : List (Placed H)) :
    (sheet.append options document placed).append options document more =
      sheet.append options document (placed ++ more) := by
  simp only [append, mk.injEq, true_and]
  constructor
  · funext other
    by_cases h : other = document <;> simp [h]
  · funext other
    by_cases h : other = document <;> simp [h]

/-- Every mark stands for one label on record, and no handle is in use in two documents. -/
structure Owned (sheet : Sheet H) : Prop where
  handles : ∀ document,
    (sheet.marks document).map Mark.handle = (sheet.labels document).map Placed.handle
  apart : ∀ document other, other ≠ document →
    ∀ mark ∈ sheet.marks other, ∀ label ∈ sheet.labels document, mark.handle ≠ label.handle

namespace Owned

/-- A document without labels has no marks. -/
theorem marks_eq_nil (h : sheet.Owned) (hlabels : sheet.labels document = []) :
    sheet.marks document = [] := by
  have hhandles := h.handles document
  rw [hlabels, List.map_nil] at hhandles
  exact List.map_eq_nil_iff.mp hhandles

theorem wipe (h : sheet.Owned) (document : String) : (sheet.wipe document).Owned where
  handles other := by
    by_cases hother : other = document
    · simp [Sheet.wipe, hother]
    · simpa [Sheet.wipe, hother] using h.handles other
  apart one other hne mark hmark label hlabel := by
    by_cases hone : one = document
    · simp [Sheet.wipe, hone] at hlabel
    · by_cases hother : other = document
      · simp [Sheet.wipe, hother] at hmark
      · simp only [Sheet.wipe, if_neg hother] at hmark
        simp only [Sheet.wipe, if_neg hone] at hlabel
        exact h.apart one other hne mark hmark label hlabel

/-- A mark with a handle that is not in use may be added with its label. -/
theorem append (h : sheet.Owned) (options : OverlayOptions) {label : Placed H}
    (hnew : ∀ other, ∀ mark ∈ sheet.marks other, mark.handle ≠ label.handle) :
    (sheet.append options document [label]).Owned where
  handles other := by
    by_cases hother : other = document
    · simp [Sheet.append, hother, h.handles document, OverlayOptions.mark]
    · simpa [Sheet.append, hother] using h.handles other
  apart one other hne mark hmark found hfound := by
    simp only [Sheet.append, List.mem_append] at hmark hfound
    rcases hmark with hmark | hmark
    · rcases hfound with hfound | hfound
      · exact h.apart one other hne mark hmark found hfound
      · by_cases hone : one = document
        · simp only [if_pos hone, List.mem_singleton] at hfound
          rw [hfound]
          exact hnew other mark hmark
        · simp [hone] at hfound
    · by_cases hother : other = document
      · rw [if_pos hother, List.map_singleton, List.mem_singleton] at hmark
        rcases hfound with hfound | hfound
        · -- The labels of a document have the handles of its marks, which are not new.
          have hhandle : found.handle ∈ (sheet.marks one).map Mark.handle := by
            rw [h.handles one]
            exact List.mem_map_of_mem hfound
          obtain ⟨old, hold, heq⟩ := List.mem_map.mp hhandle
          rw [← heq, hmark]
          exact fun hsame => hnew one old hold hsame.symm
        · have hone : one ≠ document := fun hone => hne (hother.trans hone.symm)
          simp [hone] at hfound
      · simp [hother] at hmark

end Owned

/-- A document was redrawn: it shows the chosen labels in the look in force, and nothing else has
changed. -/
structure Renewed (document : String) (chosen : List Label) (before after : Sheet H) : Prop where
  options : after.options = before.options
  labels : (after.labels document).map Placed.content = chosen.map Label.content
  marks : after.marks document = (after.labels document).map before.options.mark
  others : ∀ other, other ≠ document →
    after.labels other = before.labels other ∧ after.marks other = before.marks other

end Sheet

/-! ## Willing canvases -/

namespace Overlay

variable {σ H : Type}

/-- What shows at the site of an overlay. -/
def Site.sheet (site : Site σ H) (marks : σ → String → List (Mark H)) (s : σ) : Sheet H :=
  ⟨(site.part.get s).options, (site.part.get s).labels, marks s⟩

/-- The state is apt for drawing, and a certain sheet shows. -/
def Site.Showing (site : Site σ H) (marks : σ → String → List (Mark H)) (apt : σ → Prop)
    (seen : Sheet H) (_ : List Event) (s : σ) : Prop := apt s ∧ site.sheet marks s = seen

/-- Nothing that shows changes, and drawing goes on as before. -/
def Site.Rests {α : Type} (site : Site σ H) (marks : σ → String → List (Mark H))
    (apt : σ → Prop) (x : Action σ α) : Prop :=
  ∀ seen, Maintains (site.Showing marks apt seen) x

/-- What rests leaves sheet and canvas as they were. -/
theorem Site.Rests.state {α : Type} {site : Site σ H} {marks : σ → String → List (Mark H)}
    {apt : σ → Prop} {x : Action σ α} {s : σ} (hx : site.Rests marks apt x) (hapt : apt s) :
    apt (x s).state ∧ site.sheet marks (x s).state = site.sheet marks s :=
  hx _ [] s ⟨hapt, rfl⟩

/-- Reports change nothing that shows. -/
theorem Site.rests_report (site : Site σ H) (marks : σ → String → List (Mark H)) (apt : σ → Prop)
    (failure : Failure) (cause : Fault) : site.Rests marks apt (Action.report failure cause) :=
  fun _ _ _ hs => hs

variable [DecidableEq H]

/-- The canvas of an overlay refuses no drawing and no erasure in a state that is apt, and gives
out new handles only. An erasure removes the marks with that handle, as long as no other document
has one. -/
structure Site.Willing (site : Site σ H) (marks : σ → String → List (Mark H)) (apt : σ → Prop) :
    Prop where
  part : ∀ overlay s, apt s → apt (site.part.set overlay s)
  still : ∀ overlay s, marks (site.part.set overlay s) = marks s
  draw : ∀ document anchor text style s, apt s → ∃ handle after trace,
    site.canvas.draw document anchor text style s = ⟨.ok handle, after, trace⟩ ∧ apt after ∧
      site.part.get after = site.part.get s ∧
      (∀ other, ∀ mark ∈ marks s other, mark.handle ≠ handle) ∧
      marks after = fun other =>
        marks s other ++ if other = document then [⟨handle, anchor, text, style⟩] else []
  erase : ∀ document handle s, apt s →
    (∀ other, other ≠ document → ∀ mark ∈ marks s other, mark.handle ≠ handle) →
    ∃ after trace, site.canvas.erase document handle s = ⟨.ok (), after, trace⟩ ∧ apt after ∧
      site.part.get after = site.part.get s ∧
      marks after = fun other =>
        if other = document then (marks s document).filter (·.handle ≠ handle)
        else marks s other
  flush : ∀ document, site.Rests marks apt (site.canvas.flush document)

namespace Site.Willing

variable {site : Site σ H} {marks : σ → String → List (Mark H)} {apt : σ → Prop}
  {document : String} {s : σ}

/-- Erasing labels removes the marks with their handles. -/
theorem eraseAll (h : site.Willing marks apt) (labels : List (Placed H)) (hapt : apt s)
    (hforeign : ∀ other, other ≠ document → ∀ mark ∈ marks s other, ∀ label ∈ labels,
      mark.handle ≠ label.handle) :
    ∃ after trace, Overlay.eraseAll site document labels s = ⟨.ok (), after, trace⟩ ∧
      apt after ∧ site.part.get after = site.part.get s ∧
      marks after = fun other =>
        if other = document then
          (marks s document).filter fun mark => mark.handle ∉ labels.map Placed.handle
        else marks s other := by
  unfold Overlay.eraseAll
  induction labels generalizing s with
  | nil =>
    refine ⟨s, [], rfl, hapt, rfl, ?_⟩
    funext other
    by_cases hother : other = document <;> simp [hother]
  | cons label rest ih =>
    obtain ⟨first, trace, hrun, hfirst, hpart, hmarks⟩ := h.erase document label.handle s hapt
      fun other hother mark hmark => hforeign other hother mark hmark label List.mem_cons_self
    have hrest : ∀ other, other ≠ document → ∀ mark ∈ marks first other, ∀ label ∈ rest,
        mark.handle ≠ label.handle := by
      intro other hother mark hmark found hfound
      rw [hmarks] at hmark
      simp only [if_neg hother] at hmark
      exact hforeign other hother mark hmark found (List.mem_cons_of_mem label hfound)
    obtain ⟨last, more, hlater, hlast, hsame, hleft⟩ := ih hfirst hrest
    refine ⟨last, trace ++ more, ?_, hlast, hsame.trans hpart, ?_⟩
    · rw [Action.each, Action.bind_of_ok (Action.rescue_of_ok hrun _), hlater]
    · rw [hleft, hmarks]
      funext other
      by_cases hother : other = document
      · simp only [if_pos hother, if_true, List.filter_filter, List.map_cons, List.mem_cons, not_or]
        apply List.filter_congr
        intro mark _
        simp [Bool.and_comm]
      · simp only [if_neg hother]

/-- Retracting a document wipes it off the sheet. -/
theorem retract (h : site.Willing marks apt) (document : String) (hapt : apt s)
    (howned : (site.sheet marks s).Owned) :
    ∃ count after trace, Overlay.retract site document s = ⟨.ok count, after, trace⟩ ∧ apt after ∧
      site.sheet marks after = (site.sheet marks s).wipe document := by
  have hmarks : marks (site.part.set ((site.part.get s).forget document) s) = marks s :=
    h.still _ s
  have hforeign : ∀ other, other ≠ document →
      ∀ mark ∈ marks (site.part.set ((site.part.get s).forget document) s) other,
        ∀ label ∈ (site.part.get s).labels document, mark.handle ≠ label.handle := by
    rw [hmarks]
    exact fun other => howned.apart document other
  obtain ⟨after, trace, hrun, hafter, hpart, hleft⟩ :=
    h.eraseAll ((site.part.get s).labels document) (h.part _ s hapt) hforeign
  refine ⟨((site.part.get s).labels document).length, after, trace, ?_, hafter, ?_⟩
  · rw [Overlay.retract, Action.bind_of_quiet (Action.look_apply _ _),
      Action.bind_of_quiet (Action.adjust_apply _ _ _), Action.bind_of_ok hrun]
    simp
  · have hhandles : (marks s document).map Mark.handle =
        ((site.part.get s).labels document).map Placed.handle := howned.handles document
    have hnone : (marks s document).filter
        (fun mark => mark.handle ∉ ((site.part.get s).labels document).map Placed.handle) = [] := by
      rw [← hhandles, List.filter_eq_nil_iff]
      intro mark hmark
      simpa using ⟨mark, hmark, rfl⟩
    have hlabels : site.part.get after = (site.part.get s).forget document := by
      rw [hpart, site.part.get_set]
    rw [hmarks, hnone] at hleft
    simp only [Site.sheet, Sheet.wipe, hlabels, hleft, Sheet.mk.injEq]
    refine ⟨rfl, ?_, trivial⟩
    funext other
    exact Overlay.labels_forget _ _ _

/-- Drawing one label adds it to the sheet under a new handle. -/
theorem drawOne (h : site.Willing marks apt) (options : OverlayOptions) (document : String)
    (label : Label) (hapt : apt s) :
    ∃ handle after trace, Overlay.drawOne site options document label s = ⟨.ok (), after, trace⟩ ∧
      apt after ∧ (∀ other, ∀ mark ∈ marks s other, mark.handle ≠ handle) ∧
      site.sheet marks after =
        (site.sheet marks s).append options document [⟨handle, label.anchor, label.text⟩] := by
  obtain ⟨handle, drawn, trace, hrun, hdrawn, hpart, hnew, hmarks⟩ :=
    h.draw document label.anchor (options.marker ++ label.text) options.style s hapt
  set placed : Placed H := ⟨handle, label.anchor, label.text⟩
  refine ⟨handle, site.part.set ((site.part.get drawn).push document placed) drawn, trace, ?_,
    h.part _ drawn hdrawn, hnew, ?_⟩
  · rw [Overlay.drawOne, Action.bind_of_ok hrun, Action.adjust_apply]
    simp [placed]
  · simp only [Site.sheet, Sheet.append, h.still, site.part.get_set, hpart, hmarks, Sheet.mk.injEq]
    refine ⟨rfl, ?_, ?_⟩
    · funext other
      by_cases hother : other = document <;> simp [Overlay.labels_push, hother, placed]
    · funext other
      by_cases hother : other = document <;> simp [hother, OverlayOptions.mark]

/-- Drawing a list adds the labels whose place is free. -/
theorem drawEach (h : site.Willing marks apt) (options : OverlayOptions) (document : String)
    (labels : List Label) (hapt : apt s) (howned : (site.sheet marks s).Owned) :
    ∃ placed after trace,
      Overlay.drawEach site options document labels s = ⟨.ok placed.length, after, trace⟩ ∧
      apt after ∧ (site.sheet marks after).Owned ∧
      site.sheet marks after = (site.sheet marks s).append options document placed ∧
      placed.map Placed.content = (options.selectFrom
        (((site.part.get s).labels document).map Placed.anchor) labels).map Label.content := by
  induction labels generalizing s with
  | nil => exact ⟨[], s, [], rfl, hapt, howned, by simp, rfl⟩
  | cons label rest ih =>
    set taken := ((site.part.get s).labels document).map Placed.anchor with htaken
    have hany : (((site.part.get s).labels document).any fun l => decide (l.anchor = label.anchor)) =
        decide (label.anchor ∈ taken) := by
      rw [Bool.eq_iff_iff]
      simp only [List.any_eq_true, decide_eq_true_eq, htaken, List.mem_map]
    rw [Overlay.drawEach_cons, Action.bind_of_quiet (Action.look_apply _ _)]
    simp only [hany]
    by_cases hskip : options.oneForEachAnchor = true ∧ label.anchor ∈ taken
    · have hcond : (options.oneForEachAnchor && decide (label.anchor ∈ taken)) = true := by
        simpa using hskip
      rw [if_pos hcond, OverlayOptions.selectFrom, if_pos hskip]
      exact ih hapt howned
    · have hcond : ¬(options.oneForEachAnchor && decide (label.anchor ∈ taken)) = true := by
        simpa using hskip
      obtain ⟨handle, first, trace, hrun, hfirst, hnew, hsheet⟩ :=
        h.drawOne options document label hapt
      have hstill : ((site.part.get first).labels document).map Placed.anchor =
          taken ++ [label.anchor] := by
        have hlabels := congrFun (congrArg Sheet.labels hsheet) document
        simp only [Site.sheet, Sheet.append, if_true] at hlabels
        rw [hlabels, List.map_append, htaken, List.map_singleton]
      obtain ⟨placed, last, more, hlater, hlast, hstays, hmore, hcontent⟩ :=
        ih hfirst (hsheet ▸ howned.append options hnew)
      rw [if_neg hcond, OverlayOptions.selectFrom, if_neg hskip]
      refine ⟨⟨handle, label.anchor, label.text⟩ :: placed, last, trace ++ more, ?_, hlast, hstays,
        ?_, ?_⟩
      · rw [Action.bind_of_ok hrun, Action.bind_of_ok hlater]
        simp
      · rw [hmore, hsheet, Sheet.append_append, List.singleton_append]
      · rw [List.map_cons, hcontent, hstill]
        rfl

/-- Drawing into a document adds the labels whose place is free. -/
theorem drawAll (h : site.Willing marks apt) (document : String) (labels : List Label)
    (hapt : apt s) (howned : (site.sheet marks s).Owned) :
    ∃ placed after trace,
      Overlay.drawAll site document labels s = ⟨.ok placed.length, after, trace⟩ ∧
      apt after ∧ (site.sheet marks after).Owned ∧
      site.sheet marks after =
        (site.sheet marks s).append (site.part.get s).options document placed ∧
      placed.map Placed.content = ((site.part.get s).options.selectFrom
        (((site.part.get s).labels document).map Placed.anchor) labels).map Label.content := by
  unfold Overlay.drawAll
  cases labels with
  | nil => exact ⟨[], s, [], rfl, hapt, howned, by simp, rfl⟩
  | cons label rest =>
    set registered := site.part.set ((site.part.get s).register document) s
    have hpart : site.part.get registered = (site.part.get s).register document :=
      site.part.get_set _ s
    have hsheet : site.sheet marks registered = site.sheet marks s := by
      have hlabels : ((site.part.get s).register document).labels = (site.part.get s).labels := by
        funext other
        exact Overlay.labels_register _ _ _
      simp only [Site.sheet, hpart, Overlay.options_register, hlabels, registered, h.still]
    obtain ⟨placed, after, trace, hrun, hafter, hstays, hshows, hcontent⟩ :=
      h.drawEach (site.part.get s).options document (label :: rest) (h.part _ s hapt)
        (hsheet ▸ howned)
    rw [hpart, Overlay.labels_register] at hcontent
    refine ⟨placed, after, trace, ?_, hafter, hstays, hshows.trans (by rw [hsheet]), hcontent⟩
    rw [List.isEmpty_cons, if_neg (by simp), Action.bind_of_quiet (Action.adjust_apply _ _ _),
      Action.bind_of_quiet (Action.look_apply _ _), site.part.get_set, Overlay.options_register,
      hrun]

/-- Clearing a document wipes it off the sheet. -/
theorem clear (h : site.Willing marks apt) (document : String) (hapt : apt s)
    (howned : (site.sheet marks s).Owned) :
    apt (Overlay.clear site document s).state ∧
      site.sheet marks (Overlay.clear site document s).state =
        (site.sheet marks s).wipe document := by
  obtain ⟨count, cleared, trace, hrun, hcleared, hwiped⟩ := h.retract document hapt howned
  rw [Overlay.clear, Action.bind_of_ok hrun]
  split
  · obtain ⟨hafter, hsame⟩ := (h.flush document).state hcleared
    exact ⟨hafter, hsame.trans hwiped⟩
  · exact ⟨hcleared, hwiped⟩

/-- Redrawing a document wipes it off the sheet, searches it, draws the labels found, and flushes
it if there were labels before or are now. -/
theorem redraw_drafts (h : site.Willing marks apt) {shown : View σ}
    (hfind : ∀ kinds, site.Rests marks apt (shown.find kinds)) (catalog : Catalog)
    (document : String) (minLines : Rat) (hapt : apt s) (howned : (site.sheet marks s).Owned) :
    let retracted := Overlay.retract site document s
    let searched := Label.extract shown minLines catalog retracted.state
    let records := Label.gather shown.document minLines (catalog.kinds shown.language)
      (shown.find (catalog.kinds shown.language) retracted.state).result
    let drawn := Overlay.drawAll site document records searched.state
    site.sheet marks searched.state = (site.sheet marks s).wipe document ∧
    ∃ placed : List (Placed H),
      placed.map Placed.content = ((site.part.get s).options.select records).map Label.content ∧
      apt drawn.state ∧ (site.sheet marks drawn.state).Owned ∧
      site.sheet marks drawn.state =
        ((site.sheet marks s).wipe document).append (site.part.get s).options document placed ∧
      let shows : Action σ Unit :=
        if 0 < ((site.part.get s).labels document).length ∨ 0 < placed.length then
          Action.rescue (site.canvas.flush document) fun fault =>
            Action.report (.repaint document) fault
        else pure ()
      Overlay.redraw site catalog document shown minLines s =
        ⟨(shows drawn.state).result, (shows drawn.state).state,
          retracted.trace ++ searched.trace ++ drawn.trace ++ (shows drawn.state).trace⟩ := by
  dsimp only
  obtain ⟨count, cleared, erasing, hretract, hcleared, hwiped⟩ := h.retract document hapt howned
  obtain rfl : count = ((site.part.get s).labels document).length := by
    have hcount := retract_result site document s
    rw [hretract] at hcount
    exact Except.ok.inj hcount
  rw [hretract]
  dsimp only
  have hextract : site.Rests marks apt (Label.extract shown minLines catalog) := fun seen =>
    extract_maintains (fun kinds => hfind kinds seen)
      (fun failure cause => site.rests_report marks apt failure cause seen) minLines catalog
  obtain ⟨hsearched, hsame⟩ := hextract.state hcleared
  have hrecords := Label.extract_result shown minLines catalog cleared
  set records := Label.gather shown.document minLines (catalog.kinds shown.language)
    (shown.find (catalog.kinds shown.language) cleared).result
  rcases hfound : Label.extract shown minLines catalog cleared with ⟨result, searched, searching⟩
  rw [hfound] at hsearched hsame hrecords
  obtain rfl : result = .ok records := hrecords
  dsimp only at hsearched hsame ⊢
  have hsheet : site.sheet marks searched = (site.sheet marks s).wipe document :=
    hsame.trans hwiped
  have hempty : (site.part.get searched).labels document = [] := by
    have hlabels := congrFun (congrArg Sheet.labels hsheet) document
    simpa only [Site.sheet, Sheet.wipe, if_true] using hlabels
  have hoptions : (site.part.get searched).options = (site.part.get s).options :=
    congrArg Sheet.options hsheet
  obtain ⟨placed, drawn, drawing, hdraw, hdrawn, hstays, hshows, hcontent⟩ :=
    h.drawAll document records hsearched (hsheet ▸ howned.wipe document)
  rw [hempty, List.map_nil, OverlayOptions.selectFrom_nil] at hcontent
  rw [hoptions] at hshows hcontent
  rw [hsheet] at hshows
  rw [hdraw]
  refine ⟨hsheet, placed, hcontent, hdrawn, hstays, hshows, ?_⟩
  rw [Overlay.redraw, Action.bind_of_ok (Action.attempt_apply _ _), Action.bind_of_ok hretract,
    Action.bind_of_ok hfound, Action.bind_of_ok hdraw]
  simp only [Action.pure_apply, pure_bind, decide_eq_true_eq, List.append_nil, List.append_assoc]

/-- Redrawing a document renews it by the labels extracted when its old ones are gone. -/
theorem redraw (h : site.Willing marks apt) {shown : View σ}
    (hfind : ∀ kinds, site.Rests marks apt (shown.find kinds)) (catalog : Catalog)
    (document : String) (minLines : Rat) (hapt : apt s) (howned : (site.sheet marks s).Owned) :
    let cleared := (Overlay.retract site document s).state
    let after := (Overlay.redraw site catalog document shown minLines s).state
    let records := Label.gather shown.document minLines (catalog.kinds shown.language)
      (shown.find (catalog.kinds shown.language) cleared).result
    apt after ∧ (site.sheet marks after).Owned ∧
      Sheet.Renewed document ((site.part.get s).options.select records) (site.sheet marks s)
        (site.sheet marks after) := by
  dsimp only
  obtain ⟨_, placed, hcontent, hdrawn, hstays, hshows, hrun⟩ :=
    h.redraw_drafts hfind catalog document minLines hapt howned
  have hflush (changed : Prop) [Decidable changed] : site.Rests marks apt (if changed then
      Action.rescue (site.canvas.flush document) fun fault =>
        Action.report (.repaint document) fault
      else pure ()) := fun seen =>
    .ite (.rescue (h.flush document seen) fun fault => site.rests_report marks apt _ fault seen)
      (.pure ())
  obtain ⟨hafter, hlast⟩ :=
    (hflush (0 < ((site.part.get s).labels document).length ∨ 0 < placed.length)).state hdrawn
  rw [hrun]
  dsimp only
  refine ⟨hafter, hlast ▸ hstays, ?_⟩
  rw [hlast, hshows]
  constructor
  · rfl
  · simpa [Sheet.append, Sheet.wipe] using hcontent
  · simp [Sheet.append, Sheet.wipe, Site.sheet]
  · intro other hother
    simp [Sheet.append, Sheet.wipe, hother]

end Site.Willing

end Overlay

end ClosingLabels
