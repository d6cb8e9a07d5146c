import ClosingLabels.Forest
import ClosingLabels.Proofs.Drawing
import ClosingLabels.Proofs.Tables

/-!
# How a switchboard is wired

A switchboard, the feed it listens to and the overlay it redraws are three states that
have to agree: a document whose labels are on hears of each trigger once, one whose
labels are off hears of none, and only documents whose labels are on are on record.
Switching off can be cut short by a canvas that fails, and the three agree even then,
since the wires are cut and the record is cleared before the canvas is asked to show it.
-/

namespace ClosingLabels

open ClosingLabels.Action (Maintains Leads Succeeds)

/-! ## Tables and records -/

namespace Table

variable {κ α : Type} [DecidableEq κ]

theorem contains_insert (table : Table κ α) (key other : κ) (value : α) :
    (table.insert key value).contains other = (decide (other = key) || table.contains other) := by
  rw [contains, get?_insert]
  by_cases h : other = key
  · simp [h]
  · simp [h, contains]

theorem contains_erase (table : Table κ α) (key other : κ) :
    (table.erase key).contains other = (decide (other ≠ key) && table.contains other) := by
  rw [contains, get?_erase]
  by_cases h : other = key
  · simp [h]
  · simp [h, contains]

end Table

namespace Overlay

variable {H : Type}

/-- Whether a document is on record, be it without a label. -/
def tracks (overlay : Overlay H) (document : String) : Bool := overlay.tracked.contains document

theorem tracks_forget (overlay : Overlay H) (document other : String) :
    (overlay.forget document).tracks other = (decide (other ≠ document) && overlay.tracks other) :=
  Table.contains_erase _ _ _

theorem tracks_push (overlay : Overlay H) (document other : String) (label : Placed H) :
    (overlay.push document label).tracks other =
      (decide (other = document) || overlay.tracks other) :=
  Table.contains_insert _ _ _ _

theorem tracks_register (overlay : Overlay H) (document other : String) :
    (overlay.register document).tracks other =
      (decide (other = document) || overlay.tracks other) := by
  unfold register
  split
  · next hold =>
    by_cases h : other = document
    · simp [h, tracks, hold]
    · simp [h]
  · exact Table.contains_insert _ _ _ _

/-- A document with labels is on record. -/
theorem tracks_of_labels {overlay : Overlay H} {document : String}
    (h : overlay.labels document ≠ []) : overlay.tracks document = true := by
  unfold labels at h
  unfold tracks Table.contains
  cases hget : overlay.tracked.get? document with
  | none => simp [hget] at h
  | some found => rfl

end Overlay

/-! ## Wires, listeners and the record -/

/-- The subscription to a trigger. -/
def Wires.number (wires : Wires) : Trigger → Nat
  | .parsed => wires.parsed
  | .changed => wires.changed

/-- Who hears of a trigger of a document. A listener is the document that is redrawn. -/
abbrev Hearing := Trigger → String → List (Registration String)

namespace Hearing

/-- One more listener. -/
def add (hearing : Hearing) (trigger : Trigger) (document : String)
    (registration : Registration String) : Hearing := fun t d =>
  if t = trigger ∧ d = document then hearing t d ++ [registration] else hearing t d

/-- One registration less. -/
def drop (hearing : Hearing) (trigger : Trigger) (document : String) (number : Nat) : Hearing :=
  fun t d =>
    if t = trigger ∧ d = document then (hearing t d).filter (·.number ≠ number)
    else hearing t d

end Hearing

namespace Switchboard

/-- The labels of a document are off just when it has no wires. -/
theorem isOn_eq_false {board : Switchboard} {document : String} :
    board.isOn document = false ↔ board.wires.get? document = none := by
  simp [isOn, Table.contains]

/-- What is seen of a switchboard: its wires, the overlay it redraws, and who hears of what. -/
structure Stand (H : Type) where
  board : Switchboard
  overlay : Overlay H
  hearing : Hearing

namespace Stand

variable {H : Type} {stand : Stand H} {document : String}

/-- Wires, listeners and record agree. -/
structure Sound (stand : Stand H) : Prop where
  on : ∀ document wires, stand.board.wires.get? document = some wires →
    ∀ trigger, stand.hearing trigger document = [⟨wires.number trigger, document⟩]
  off : ∀ document, stand.board.wires.get? document = none →
    ∀ trigger, stand.hearing trigger document = []
  lit : ∀ document, stand.overlay.tracks document = true → stand.board.isOn document = true

namespace Sound

/-- Only documents whose labels are on may be put on record. -/
theorem withOverlay (h : stand.Sound) {overlay : Overlay H}
    (hlit : ∀ document, overlay.tracks document = true →
      stand.overlay.tracks document = true ∨ stand.board.isOn document = true) :
    Sound { stand with overlay } where
  on := h.on
  off := h.off
  lit other hother := (hlit other hother).elim (h.lit other) id

/-- New wires go with new listeners. -/
theorem enable (h : stand.Sound) (hoff : stand.board.isOn document = false) (wires : Wires) :
    Sound { stand with
      board := ⟨stand.board.wires.insert document wires⟩
      hearing := (stand.hearing.add .parsed document ⟨wires.parsed, document⟩).add .changed
        document ⟨wires.changed, document⟩ } := by
  have hnone : stand.board.wires.get? document = none := isOn_eq_false.mp hoff
  constructor
  · intro other found hfound trigger
    dsimp only at hfound ⊢
    rw [Table.get?_insert] at hfound
    by_cases hother : other = document
    · rw [if_pos hother] at hfound
      obtain rfl := Option.some.inj hfound
      subst hother
      cases trigger <;> simp [Hearing.add, h.off other hnone, Wires.number]
    · rw [if_neg hother] at hfound
      simp [Hearing.add, hother, h.on other found hfound trigger]
  · intro other hfound trigger
    dsimp only at hfound ⊢
    rw [Table.get?_insert] at hfound
    by_cases hother : other = document
    · rw [if_pos hother] at hfound
      cases hfound
    · rw [if_neg hother] at hfound
      simp [Hearing.add, hother, h.off other hfound trigger]
  · intro other hother
    have hon := h.lit other hother
    simp only [isOn, Table.contains_insert, Bool.or_eq_true]
    exact Or.inr hon

/-- Cut wires go with listeners that are gone, and the document has to leave the record. -/
theorem disable (h : stand.Sound) {wires : Wires}
    (hon : stand.board.wires.get? document = some wires) :
    Sound { stand with
      board := ⟨stand.board.wires.erase document⟩
      hearing := (stand.hearing.drop .parsed document wires.parsed).drop .changed
        document wires.changed
      overlay := stand.overlay.forget document } := by
  constructor
  · intro other found hfound trigger
    dsimp only at hfound ⊢
    rw [Table.get?_erase] at hfound
    by_cases hother : other = document
    · rw [if_pos hother] at hfound
      cases hfound
    · rw [if_neg hother] at hfound
      simp [Hearing.drop, hother, h.on other found hfound trigger]
  · intro other hfound trigger
    dsimp only at hfound ⊢
    rw [Table.get?_erase] at hfound
    by_cases hother : other = document
    · subst hother
      cases trigger <;> simp [Hearing.drop, h.on other wires hon, Wires.number]
    · rw [if_neg hother] at hfound
      simp [Hearing.drop, hother, h.off other hfound trigger]
  · intro other hother
    dsimp only at hother ⊢
    rw [Overlay.tracks_forget, Bool.and_eq_true, decide_eq_true_eq] at hother
    have hstill := h.lit other hother.2
    simp only [isOn, Table.contains_erase, Bool.and_eq_true, decide_eq_true_eq]
    exact ⟨hother.1, hstill⟩

/-- Whoever hears of a document is that document, with its labels on. -/
theorem isOn_of_hearing (h : stand.Sound) {trigger : Trigger}
    {registration : Registration String}
    (hmem : registration ∈ stand.hearing trigger document) :
    registration.listener = document ∧ stand.board.isOn document = true := by
  cases hwires : stand.board.wires.get? document with
  | none =>
    rw [h.off document hwires trigger] at hmem
    cases hmem
  | some wires =>
    rw [h.on document wires hwires trigger, List.mem_singleton] at hmem
    refine ⟨by rw [hmem], ?_⟩
    simp [isOn, Table.contains, hwires]

/-- A document whose labels are off is not on record, so it has no labels. -/
theorem labels_of_off (h : stand.Sound) (hoff : stand.board.isOn document = false) :
    stand.overlay.tracks document = false ∧ stand.overlay.labels document = [] := by
  have huntracked : stand.overlay.tracks document = false := by
    refine Bool.eq_false_iff.mpr fun htracks => ?_
    have hon := h.lit document htracks
    rw [hoff] at hon
    cases hon
  refine ⟨huntracked, ?_⟩
  by_contra hsome
  rw [Overlay.tracks_of_labels hsome] at huntracked
  cases huntracked

/-- A document whose labels are on hears of each trigger once, any other never. -/
theorem length_hearing (h : stand.Sound) (trigger : Trigger) (document : String) :
    (stand.hearing trigger document).length = if stand.board.isOn document then 1 else 0 := by
  cases hwires : stand.board.wires.get? document with
  | none => simp [h.off document hwires trigger, isOn, Table.contains, hwires]
  | some wires => simp [h.on document wires hwires trigger, isOn, Table.contains, hwires]

end Sound

end Stand

/-! ## What the operations maintain -/

variable {σ H : Type} {site : Site σ H} {hearing : σ → Hearing}

/-- What is seen of the switchboard of a site. -/
def Site.stand (site : Site σ H) (hearing : σ → Hearing) (s : σ) : Stand H :=
  ⟨site.part.get s, site.overlay.part.get s, hearing s⟩

/-- Something holds of what is seen. -/
def Site.Seen (site : Site σ H) (hearing : σ → Hearing) (p : Stand H → Prop)
    (_ : List Event) (s : σ) : Prop := p (site.stand hearing s)

/-- Nothing that is seen changes. -/
def Site.Still {α : Type} (site : Site σ H) (hearing : σ → Hearing) (x : Action σ α) : Prop :=
  ∀ s, site.stand hearing (x s).state = site.stand hearing s

/-- The parts of a site keep out of each other's way: subscriptions are heard of, giving one up
ends that, and neither the canvas nor a search touches wires, record or listeners. -/
structure Site.Tidy (site : Site σ H) (hearing : σ → Hearing) : Prop where
  board : ∀ board s, site.stand hearing (site.part.set board s) =
    { site.stand hearing s with board }
  overlay : ∀ overlay s, site.stand hearing (site.overlay.part.set overlay s) =
    { site.stand hearing s with overlay }
  draw : ∀ document anchor text style,
    site.Still hearing (site.overlay.canvas.draw document anchor text style)
  erase : ∀ document handle, site.Still hearing (site.overlay.canvas.erase document handle)
  flush : ∀ document, site.Still hearing (site.overlay.canvas.flush document)
  subscribe : ∀ trigger document s, ∃ number after,
    site.feed.subscribe trigger document s = ⟨.ok number, after, []⟩ ∧
      site.stand hearing after =
        { site.stand hearing s with
          hearing := (hearing s).add trigger document ⟨number, document⟩ }
  unsubscribe : ∀ trigger document number s, ∃ after,
    site.feed.unsubscribe trigger document number s = ⟨.ok (), after, []⟩ ∧
      site.stand hearing after =
        { site.stand hearing s with hearing := (hearing s).drop trigger document number }
  view : ∀ document s, ∃ found, site.feed.view? document s = ⟨.ok found, s, []⟩ ∧
    ∀ shown, found = some shown → ∀ kinds, site.Still hearing (shown.find kinds)
  minLines : site.Still hearing site.minLines
  answers : ∀ s, ∃ value, (site.minLines s).result = .ok value

/-- What holds of what is seen survives whatever leaves that alone. -/
theorem Site.Still.maintains {α : Type} {p : Stand H → Prop} {x : Action σ α}
    (hx : site.Still hearing x) : Maintains (site.Seen hearing p) x := by
  intro past s hs
  rw [Site.Seen, hx s]
  exact hs

theorem Site.still_emit (site : Site σ H) (hearing : σ → Hearing) (event : Event) :
    site.Still hearing (Action.emit event) := fun _ => rfl

/-- Labels that are on already are not switched on again. -/
theorem enable_of_on {document : String} {s : σ}
    (hon : (site.part.get s).isOn document = true) :
    enable site document s = ⟨.ok (), s, []⟩ := by
  rw [enable, Action.bind_of_quiet (Action.look_apply _ _), hon]
  rfl

/-- Labels that are off already are not switched off again. -/
theorem disable_of_off {document : String} {s : σ}
    (hoff : (site.part.get s).isOn document = false) :
    disable site document s = ⟨.ok (), s, []⟩ := by
  rw [disable, Action.bind_of_quiet (Action.look_apply _ _), isOn_eq_false.mp hoff]
  rfl

/-- Where erasing leaves everything fine, giving up a subscription succeeds and a flush succeeds,
labels can be switched off. -/
theorem disable_succeeds {fine : σ → Prop} {document : String}
    (hboard : ∀ board s, fine s → fine (site.part.set board s))
    (hoverlay : ∀ overlay s, fine s → fine (site.overlay.part.set overlay s))
    (hunsubscribe : ∀ trigger number,
      Succeeds fine (site.feed.unsubscribe trigger document number))
    (herase : ∀ handle s, fine s → fine (site.overlay.canvas.erase document handle s).state)
    (hflush : Succeeds fine (site.overlay.canvas.flush document)) :
    Succeeds fine (disable site document) := by
  have hretract : Succeeds fine (Overlay.retract site.overlay document) := by
    refine .bind (.gets _) fun overlay => .bind (.adjust fun _ => hoverlay _ _) fun _ => ?_
    refine .bind (.each fun label _ => .rescue (herase _) fun _ => .emit _) fun _ => .pure _
  refine .bind (.gets _) fun board => ?_
  cases board.wires.get? document with
  | none => exact .pure ()
  | some wires =>
    refine .bind (.adjust fun _ => hboard _ _) fun _ => .bind (hunsubscribe _ _) fun _ => ?_
    refine .bind (hunsubscribe _ _) fun _ => .bind ?_ fun _ => .emit _
    exact .bind hretract fun count => .ite hflush (.pure ())

/-- Refreshing a document maintains what drawing it, searching it and reading the least height
maintain. -/
theorem refresh_maintains {holds : List Event → σ → Prop} {document : String}
    (htends : site.overlay.Tends document holds) (hminLines : Maintains holds site.minLines)
    (hview : ∀ s, ∃ found, site.feed.view? document s = ⟨.ok found, s, []⟩ ∧
      ∀ shown, found = some shown → ∀ kinds, Maintains holds (shown.find kinds)) :
    Maintains holds (refresh site document) := by
  intro past s hs
  obtain ⟨found, hfound, hfind⟩ := hview s
  rw [refresh, Action.bind_of_quiet hfound]
  cases found with
  | none => simpa using hs
  | some shown =>
    have hredraw : Maintains holds (do
        let minLines ← site.minLines
        let catalog ← Action.gets site.catalog
        Overlay.redraw site.overlay catalog document shown minLines) := by
      refine .bind hminLines fun minLines => .bind (.gets _) fun catalog => ?_
      exact htends.redraw (hfind shown rfl) catalog minLines
    exact hredraw past s hs

/-- A condition to which the labels of a document do not matter: it survives every change of the
record that brings no other document onto it. -/
def Stand.Tolerates (document : String) (p : Stand H → Prop) : Prop :=
  ∀ stand overlay, p stand →
    (∀ other, overlay.tracks other = true → other = document ∨ stand.overlay.tracks other = true) →
    p { stand with overlay }

/-- Wires, listeners and record agree, and the wires are those of a certain board. -/
def Stand.SoundWith (board : Switchboard) (stand : Stand H) : Prop :=
  stand.Sound ∧ stand.board = board

/-- A document whose labels are on may be on record. -/
theorem Stand.soundWith_tolerates {board : Switchboard} {document : String}
    (hon : board.isOn document = true) : Tolerates document (SoundWith board (H := H)) := by
  rintro stand overlay ⟨hsound, rfl⟩ hrecord
  refine ⟨hsound.withOverlay fun other hother => ?_, rfl⟩
  rcases hrecord other hother with rfl | hold
  · exact Or.inr hon
  · exact Or.inl hold

namespace Site.Tidy

/-- Drawing a document maintains what tolerates it. -/
theorem tends (h : site.Tidy hearing) {document : String} {p : Stand H → Prop}
    (hp : Stand.Tolerates document p) : site.overlay.Tends document (site.Seen hearing p) where
  forget past s hs := by
    rw [Seen, h.overlay]
    refine hp _ _ hs fun other hother => Or.inr ?_
    rw [Overlay.tracks_forget, Bool.and_eq_true] at hother
    exact hother.2
  register past s hs := by
    rw [Seen, h.overlay]
    refine hp _ _ hs fun other hother => ?_
    rwa [Overlay.tracks_register, Bool.or_eq_true, decide_eq_true_eq] at hother
  push label past s hs := by
    rw [Seen, h.overlay]
    refine hp _ _ hs fun other hother => ?_
    rwa [Overlay.tracks_push, Bool.or_eq_true, decide_eq_true_eq] at hother
  draw _ _ _ := (h.draw _ _ _ _).maintains
  erase _ := (h.erase _ _).maintains
  flush := (h.flush _).maintains
  report _ _ := (site.still_emit hearing _).maintains

/-- So does refreshing it. -/
theorem refresh_of_tolerates (h : site.Tidy hearing) {document : String} {p : Stand H → Prop}
    (hp : Stand.Tolerates document p) :
    Maintains (site.Seen hearing p) (Switchboard.refresh site document) := by
  refine refresh_maintains (h.tends hp) h.minLines.maintains fun s => ?_
  obtain ⟨found, hview, hfind⟩ := h.view document s
  exact ⟨found, hview, fun shown hshown kinds => (hfind shown hshown kinds).maintains⟩

/-- Refreshing a document whose labels are on keeps everything wired. -/
theorem refresh (h : site.Tidy hearing) {board : Switchboard} {document : String}
    (hon : board.isOn document = true) :
    Maintains (site.Seen hearing (Stand.SoundWith board)) (Switchboard.refresh site document) :=
  h.refresh_of_tolerates (Stand.soundWith_tolerates hon)

/-- Refreshing the documents that are on keeps everything wired. -/
theorem refreshEach (h : site.Tidy hearing) {board : Switchboard} {documents : List String}
    (hon : ∀ document ∈ documents, board.isOn document = true) :
    Maintains (site.Seen hearing (Stand.SoundWith board))
      (Action.each documents (Switchboard.refresh site)) :=
  .each fun document hdocument => h.refresh (hon document hdocument)

/-- Switching labels on, where they are off, makes new wires and then refreshes the document. -/
theorem enable_of_off (h : site.Tidy hearing) {document : String} {s : σ}
    (hoff : (site.part.get s).isOn document = false) :
    ∃ wires : Wires, ∃ ready,
      site.stand hearing ready =
        { site.stand hearing s with
          board := ⟨(site.part.get s).wires.insert document wires⟩
          hearing := ((hearing s).add .parsed document ⟨wires.parsed, document⟩).add .changed
            document ⟨wires.changed, document⟩ } ∧
      Switchboard.enable site document s = (do
        Action.log (.enabled document)
        Switchboard.refresh site document) ready := by
  obtain ⟨parsed, first, hparsed, hfirst⟩ := h.subscribe .parsed document s
  obtain ⟨changed, second, hchanged, hsecond⟩ := h.subscribe .changed document first
  have hheard : hearing first = (hearing s).add .parsed document ⟨parsed, document⟩ :=
    congrArg Stand.hearing hfirst
  have hsame : site.part.get second = site.part.get s :=
    (congrArg Stand.board hsecond).trans (congrArg Stand.board hfirst)
  refine ⟨⟨parsed, changed⟩,
    site.part.set ⟨(site.part.get s).wires.insert document ⟨parsed, changed⟩⟩ second, ?_, ?_⟩
  · rw [h.board, hsecond, hfirst, hheard]
  · rw [Switchboard.enable, Action.bind_of_quiet (Action.look_apply _ _), hoff, if_neg (by simp),
      Action.bind_of_quiet hparsed, Action.bind_of_quiet hchanged,
      Action.bind_of_quiet (Action.adjust_apply _ _ _), hsame]

/-- Switching labels off, where they are on, cuts the wires and then clears the document. -/
theorem disable_of_on (h : site.Tidy hearing) {document : String} {s : σ} {wires : Wires}
    (hon : (site.part.get s).wires.get? document = some wires) :
    ∃ ready,
      site.stand hearing ready =
        { site.stand hearing s with
          board := ⟨(site.part.get s).wires.erase document⟩
          hearing := ((hearing s).drop .parsed document wires.parsed).drop .changed document
            wires.changed } ∧
      Switchboard.disable site document s = (do
        Overlay.clear site.overlay document
        Action.log (.disabled document)) ready := by
  set cut := site.part.set ⟨(site.part.get s).wires.erase document⟩ s
  obtain ⟨first, hparsed, hfirst⟩ := h.unsubscribe .parsed document wires.parsed cut
  obtain ⟨second, hchanged, hsecond⟩ := h.unsubscribe .changed document wires.changed first
  have hcut : site.stand hearing cut =
      { site.stand hearing s with board := ⟨(site.part.get s).wires.erase document⟩ } :=
    h.board _ s
  have hheard : hearing first = (hearing s).drop .parsed document wires.parsed := by
    have hsame : hearing cut = hearing s := congrArg Stand.hearing hcut
    rw [← hsame]
    exact congrArg Stand.hearing hfirst
  refine ⟨second, by rw [hsecond, hheard, hfirst, hcut], ?_⟩
  rw [Switchboard.disable, Action.bind_of_quiet (Action.look_apply _ _), hon]
  dsimp only
  rw [Action.bind_of_quiet (Action.adjust_apply _ _ _), Action.bind_of_quiet hparsed,
    Action.bind_of_quiet hchanged]

/-- Switching labels on keeps everything wired. -/
theorem enable (h : site.Tidy hearing) (document : String) :
    Maintains (site.Seen hearing Stand.Sound) (Switchboard.enable site document) := by
  intro past s hs
  cases hon : (site.part.get s).isOn document with
  | true =>
    rw [enable_of_on hon]
    simpa using hs
  | false =>
    obtain ⟨wires, ready, hready, hrun⟩ := h.enable_of_off hon
    set board : Switchboard := ⟨(site.part.get s).wires.insert document wires⟩
    have hboard : board.isOn document = true := by simp [board, isOn, Table.contains]
    have hwired : (site.stand hearing ready).SoundWith board := by
      rw [hready]
      exact ⟨hs.enable hon wires, rfl⟩
    have hrest : Maintains (site.Seen hearing (Stand.SoundWith board)) (do
        Action.log (.enabled document)
        Switchboard.refresh site document) :=
      .bind (site.still_emit hearing _).maintains fun _ => h.refresh hboard
    rw [hrun]
    exact (hrest past ready hwired).1

/-- Switching labels off keeps everything wired, also when the canvas fails. -/
theorem disable (h : site.Tidy hearing) (document : String) :
    Maintains (site.Seen hearing Stand.Sound) (Switchboard.disable site document) := by
  intro past s hs
  cases hon : (site.part.get s).wires.get? document with
  | none =>
    rw [disable_of_off (isOn_eq_false.mpr hon)]
    simpa using hs
  | some wires =>
    obtain ⟨ready, hready, hrun⟩ := h.disable_of_on hon
    -- The document leaves the record before the canvas is asked for anything.
    have hclear : Leads (fun _ t => t = ready) (site.Seen hearing Stand.Sound)
        (Overlay.clear site.overlay document) := by
      refine Overlay.clear_leads ?_ (fun _ => (h.erase _ _).maintains) (h.flush _).maintains
        fun _ _ => (site.still_emit hearing _).maintains
      intro past t ht
      have hoverlay : site.overlay.part.get ready = (site.stand hearing s).overlay :=
        congrArg Stand.overlay hready
      rw [Seen, ht, h.overlay, hready, hoverlay]
      exact hs.disable hon
    have hrest := hclear.bind_maintains fun _ =>
      (site.still_emit hearing (.log (.disabled document))).maintains
    rw [hrun]
    exact hrest past ready rfl

/-- Switching labels over keeps everything wired. -/
theorem toggle (h : site.Tidy hearing) (document : String) :
    Maintains (site.Seen hearing Stand.Sound) (Switchboard.toggle site document) := by
  refine .bind (.gets _) fun board => .ite ?_ ?_
  · exact .bind (h.disable document) fun _ => .pure _
  · exact .bind (h.enable document) fun _ => .pure _

/-- Redrawing everything keeps everything wired. -/
theorem redrawAll (h : site.Tidy hearing) :
    Maintains (site.Seen hearing Stand.Sound) (Switchboard.redrawAll site) := by
  refine .gets_bind fun past s hs => ?_
  have hon : ∀ document ∈ (site.part.get s).documents, (site.part.get s).isOn document = true :=
    fun document hdocument => (Table.mem_keys_iff _ _).mp hdocument
  exact (h.refreshEach hon past s ⟨hs, rfl⟩).1

/-- Switching everything off keeps everything wired, also when it stops half way. -/
theorem dispose (h : site.Tidy hearing) :
    Maintains (site.Seen hearing Stand.Sound) (Switchboard.dispose site) :=
  .bind (.gets _) fun _ => .each fun document _ => h.disable document

/-! ## What the operations answer -/

/-- Refreshing never fails. -/
theorem refresh_result (h : site.Tidy hearing) (document : String) (s : σ) :
    (Switchboard.refresh site document s).result = .ok () := by
  obtain ⟨found, hview, _⟩ := h.view document s
  rw [Switchboard.refresh, Action.bind_of_quiet hview]
  cases found with
  | none => rfl
  | some shown =>
    obtain ⟨minLines, hminLines⟩ := h.answers s
    dsimp only
    rw [Action.bind_of_ok (Action.eq_of_result hminLines),
      Action.bind_of_ok (Action.gets_apply _ _)]
    exact Overlay.redraw_result _ _ _ _ _ _

/-- Neither does redrawing everything. -/
theorem redrawAll_result (h : site.Tidy hearing) (s : σ) :
    (Switchboard.redrawAll site s).result = .ok () := by
  rw [Switchboard.redrawAll, Action.bind_of_quiet (Action.look_apply _ _)]
  exact Action.each_result (fun document _ t => h.refresh_result document t) s

/-- Refreshing leaves the wires alone. -/
theorem refresh_board (h : site.Tidy hearing) (document : String) (s : σ) :
    site.part.get (Switchboard.refresh site document s).state = site.part.get s :=
  h.refresh_of_tolerates (p := fun stand => stand.board = site.part.get s)
    (fun _ _ hboard _ => hboard) [] s rfl

/-- However many documents are refreshed. -/
theorem refreshEach_board {β : Type} (h : site.Tidy hearing) (items : List β) (name : β → String)
    (s : σ) :
    site.part.get (Action.each items (fun item => Switchboard.refresh site (name item)) s).state =
      site.part.get s := by
  have hkeeps : Maintains (fun _ after => site.part.get after = site.part.get s)
      (Action.each items fun item => Switchboard.refresh site (name item)) :=
    .each fun item _ _ after hafter => (h.refresh_board (name item) after).trans hafter
  exact hkeeps [] s rfl

/-- Switching labels on never fails, and they are on then. -/
theorem enable_spec (h : site.Tidy hearing) (document : String) (s : σ) :
    let done := Switchboard.enable site document s
    done.result = .ok () ∧ ∀ other,
      (site.part.get done.state).isOn other =
        (decide (other = document) || (site.part.get s).isOn other) := by
  dsimp only
  cases hon : (site.part.get s).isOn document with
  | true =>
    rw [enable_of_on hon]
    refine ⟨rfl, fun other => ?_⟩
    by_cases hother : other = document
    · simp [hother, hon]
    · simp [hother]
  | false =>
    obtain ⟨wires, ready, hready, hrun⟩ := h.enable_of_off hon
    have hboard : site.part.get ready = ⟨(site.part.get s).wires.insert document wires⟩ :=
      congrArg Stand.board hready
    rw [hrun, Action.bind_of_ok (Action.log_apply _ _)]
    refine ⟨h.refresh_result _ _, fun other => ?_⟩
    simp only [h.refresh_board, hboard, isOn, Table.contains_insert]

/-- Switching labels off can fail only as a flush does. -/
theorem disable_error (h : site.Tidy hearing) {document : String} {s : σ} {fault : Fault}
    (hfail : (Switchboard.disable site document s).result = .error fault) :
    ∃ t, (site.overlay.canvas.flush document t).result = .error fault := by
  cases hon : (site.part.get s).wires.get? document with
  | none =>
    rw [disable_of_off (isOn_eq_false.mpr hon)] at hfail
    cases hfail
  | some wires =>
    obtain ⟨ready, _, hrun⟩ := h.disable_of_on hon
    rw [hrun] at hfail
    rcases hclear : Overlay.clear site.overlay document ready with ⟨fault' | done, after, trace⟩
    · rw [Action.bind_of_error hclear] at hfail
      exact Overlay.clear_error (congrArg Outcome.result hclear |>.trans hfail)
    · rw [Action.bind_of_ok hclear] at hfail
      cases hfail

/-- After an attempt to switch labels off they are off. -/
theorem disable_board (h : site.Tidy hearing) (document other : String) (s : σ) :
    (site.part.get (Switchboard.disable site document s).state).isOn other =
      (decide (other ≠ document) && (site.part.get s).isOn other) := by
  cases hon : (site.part.get s).wires.get? document with
  | none =>
    rw [disable_of_off (isOn_eq_false.mpr hon)]
    by_cases hother : other = document
    · simp [hother, isOn, Table.contains, hon]
    · simp [hother]
  | some wires =>
    obtain ⟨ready, hready, hrun⟩ := h.disable_of_on hon
    set board : Switchboard := ⟨(site.part.get s).wires.erase document⟩
    have hrest : Maintains (site.Seen hearing fun stand => stand.board = board) (do
        Overlay.clear site.overlay document
        Action.log (.disabled document)) :=
      .bind (h.tends fun _ _ hsame _ => hsame).clear fun _ =>
        (site.still_emit hearing _).maintains
    have hlast : site.part.get ((do
        Overlay.clear site.overlay document
        Action.log (.disabled document) : Action σ Unit) ready).state = board :=
      hrest [] ready (congrArg Stand.board hready)
    rw [hrun, hlast]
    exact Table.contains_erase _ _ _

/-- Switching everything off leaves nothing on, or stops at a document that fails and leaves on
those behind it. -/
theorem dispose_tornDown (h : site.Tidy hearing) (fine : σ → Prop)
    (hfine : ∀ document t, fine t → fine (Switchboard.disable site document t).state)
    {s : σ} (hs : fine s) :
    let done := Switchboard.dispose site s
    Action.TornDown (site.part.get s).documents (site.part.get done.state).isOn
      (fun last fault => ∃ t, fine t ∧ (Switchboard.disable site last t).result = .error fault)
      done.result := by
  dsimp only
  rw [Switchboard.dispose, Action.bind_of_quiet (Action.look_apply _ _)]
  refine Action.each_tornDown (fun t => (site.part.get t).isOn)
    (fun document t ht => ⟨hfine document t ht, fun other => h.disable_board document other t⟩)
    hs ?_
  exact fun document => (Table.mem_keys_iff _ _).symm

/-- When everything could be switched off, everything is off. -/
theorem dispose_board (h : site.Tidy hearing) {s : σ}
    (hdone : (Switchboard.dispose site s).result = .ok ()) (document : String) :
    (site.part.get (Switchboard.dispose site s).state).isOn document = false := by
  have htorn := h.dispose_tornDown (fun _ => True) (fun _ _ _ => trivial) (s := s) trivial
  dsimp only at htorn
  rw [hdone] at htorn
  exact htorn document

/-- Switching labels over tells whether they are on then, and changes it. -/
theorem toggle_spec (h : site.Tidy hearing) (document : String) (s : σ) :
    let done := Switchboard.toggle site document s
    ((site.part.get s).isOn document = false → done.result = .ok true) ∧
    ∀ answer, done.result = .ok answer →
      (site.part.get done.state).isOn document = answer ∧
      answer = !(site.part.get s).isOn document := by
  dsimp only
  rw [Switchboard.toggle, Action.bind_of_quiet (Action.look_apply _ _)]
  cases hon : (site.part.get s).isOn document with
  | true =>
    refine ⟨by simp, fun answer hanswer => ?_⟩
    rw [if_pos rfl] at hanswer ⊢
    have hoff := h.disable_board document document s
    rcases hrun : Switchboard.disable site document s with ⟨fault | done, after, trace⟩
    · rw [Action.bind_of_error hrun] at hanswer
      cases hanswer
    · rw [Action.bind_of_ok hrun] at hanswer ⊢
      obtain rfl := Except.ok.inj hanswer
      rw [hrun] at hoff
      simpa using hoff
  | false =>
    obtain ⟨hresult, hboard⟩ := h.enable_spec document s
    rw [if_neg (by simp), Action.bind_of_ok (Action.eq_of_result hresult)]
    refine ⟨fun _ => rfl, fun answer hanswer => ?_⟩
    obtain rfl := Except.ok.inj hanswer
    simpa using hboard document

end Site.Tidy

end Switchboard

end ClosingLabels
