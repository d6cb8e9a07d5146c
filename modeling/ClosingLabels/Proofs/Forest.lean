import ClosingLabels.Forest
import ClosingLabels.Proofs.Loading
import ClosingLabels.Proofs.Tables

/-!
# What happens to the trees of a forest

Each operation of a forest is described by what it does to its holdings: the entries,
the openings on their way and how many trees were made. Listeners and patterns do not
show in the holdings. Going on with an opening, and bringing a document up to date, can
end in a few ways each, which are listed once.
-/

namespace ClosingLabels

open ClosingLabels.Action (Leaves Maintains Keeping)

/-! ## The holdings of a forest -/

/-- What counts of a forest: the entries, the openings on their way, how many openings there
were and how many trees were made. -/
structure Holdings (D : Type) where
  entries : Table String (Entry D)
  pending : Table String Nat
  openings : Nat
  trees : Nat

namespace Grove

variable {D L : Type}

/-- The holdings of a grove. -/
def holdings (grove : Grove D L) : Holdings D :=
  ⟨grove.forest.entries, grove.forest.pending, grove.forest.openings, grove.workshop.trees⟩

/-- A grove without its listeners. -/
def bare (grove : Grove D L) : Grove D L :=
  { grove with forest := { grove.forest with audience := .empty } }

/-- The events of deleting the tree of a document, if it has one. -/
def deletions (grove : Grove D L) (document : String) : List Event :=
  (grove.forest.entries.get? document).toList.map fun entry => .treeDeleted entry.tree.number

/-- A grove in which the tree of a document, if it has one, was deleted. -/
def fell (grove : Grove D L) (document : String) : Grove D L :=
  let deleted := (grove.forest.entries.get? document).toList.map (·.tree.number)
  { grove with
    workshop := { grove.workshop with
      toolkit := { grove.workshop.toolkit with
        deletedTrees := deleted ++ grove.workshop.toolkit.deletedTrees } } }

/-- A grove in which no opening of a document is awaited. -/
def settle (grove : Grove D L) (document : String) : Grove D L :=
  { grove with forest := { grove.forest with pending := grove.forest.pending.erase document } }

/-- A grove in which a document was closed: its opening is not awaited, and its tree is deleted. -/
def uproot (grove : Grove D L) (document : String) : Grove D L :=
  { (grove.settle document).fell document with
    forest := { (grove.settle document).forest with
      entries := grove.forest.entries.erase document } }

/-- A grove in which a document has an entry, in place of the one it had. -/
def plant (grove : Grove D L) (document : String) (entry : Entry D) : Grove D L :=
  { grove.fell document with
    forest := { grove.forest with entries := grove.forest.entries.insert document entry } }

/-- A grove in which the tree of an entry was told of changes. -/
def tell (grove : Grove D L) (document : String) (entry : Entry D) (changes : List Change) :
    Grove D L :=
  { grove with
    forest := { grove.forest with
      entries := grove.forest.entries.insert document
        { entry with told := entry.told ++ changes } } }

theorem zoomToolkit_leaves {α : Type} {harmless : Event → Prop} {x : Action Toolkit α}
    (hx : Leaves Toolkit.trees harmless x) :
    Leaves (holdings (D := D) (L := L)) harmless (Action.zoom toolkitPart x) := by
  refine fun _ => Keeping.zoom (fun t u s htrees => ?_) hx
  simp only [holdings, toolkitPart, Lens.comp, workshopPart, Workshop.toolkitPart, Workshop.trees,
    htrees]

end Grove

/-- Looking for blocks changes nothing but the patterns that are kept. -/
theorem PatternCache.find_leaves {D L : Type} (key : Text) (language : Language) (tree : Tree)
    (kinds : List Text) :
    Leaves (Grove.holdings (D := D) (L := L)) Event.OfSearch
      (find Grove.cacheSite key language tree kinds) := by
  have hadjust (f : PatternCache → PatternCache) :
      Leaves (Grove.holdings (D := D) (L := L)) Event.OfSearch
        (Action.adjust Grove.cacheSite.part f) := fun _ => Keeping.adjust (fun _ _ => rfl) f
  have hbuild : Leaves (Grove.holdings (D := D) (L := L)) Event.OfSearch
      (build Grove.cacheSite (some language) kinds) := by
    intro seen
    refine .bind (.ofOption _ _) fun language => .bind (.ofExcept _) fun pattern => ?_
    exact Grove.zoomToolkit_leaves (Toolkit.compile_leaves _ _) seen
  have hget : Leaves (Grove.holdings (D := D) (L := L)) Event.OfSearch
      (get Grove.cacheSite key (some language) kinds) := by
    intro seen
    refine .bind (.gets _) fun cache => ?_
    dsimp only
    cases cache.queries.get? (keyOf key kinds) with
    | some query => exact .pure _
    | none =>
      refine .bind (hbuild seen).attempt fun built => ?_
      cases built with
      | ok query => exact .bind (hadjust _ seen) fun _ => .pure _
      | error fault =>
        refine .bind (.gets _) fun _ => .ite ?_ (.pure _)
        refine .bind (hadjust _ seen) fun _ => ?_
        exact .bind (Keeping.emit trivial) fun _ => .pure _
  intro seen
  refine .bind (hget seen) fun query? => ?_
  cases query? with
  | none => exact .pure _
  | some query =>
    refine .bind ?_ fun _ => .pure _
    exact Grove.zoomToolkit_leaves (Toolkit.runQuery_leaves _ _) seen

/-- So does dropping them. -/
theorem PatternCache.clear_leaves {D L : Type} :
    Leaves (Grove.holdings (D := D) (L := L)) Event.SparesTrees (clear Grove.cacheSite) := by
  intro seen
  refine .bind (.gets _) fun cache => .bind ?_ fun _ => Keeping.adjust (fun _ _ => rfl) _
  exact .each fun query _ => Grove.zoomToolkit_leaves (Toolkit.deleteQuery_leaves query) seen

namespace Forest

variable {σ D L : Type}

/-- The holdings of the forest in a state. -/
def holdings (part : Lens σ (Grove D L)) (s : σ) : Holdings D := (part.get s).holdings

/-- What happens to the holdings is what happens to the grove. -/
@[simp] theorem holdings_set (part : Lens σ (Grove D L)) (grove : Grove D L) (s : σ) :
    holdings part (part.set grove s) = grove.holdings := by
  rw [holdings, part.get_set]

/-- A view that shows no more of a grove than its holdings. -/
def Shows {υ : Type} (part : Lens σ (Grove D L)) (view : σ → υ) : Prop :=
  ∀ t u s, t.holdings = u.holdings → view (part.set t s) = view (part.set u s)

theorem shows_holdings (part : Lens σ (Grove D L)) : Shows part (holdings part) := by
  intro t u s hsame
  rw [holdings_set, holdings_set, hsame]

section

variable {α υ : Type} {part : Lens σ (Grove D L)} {view : σ → υ} {harmless : Event → Prop}

theorem zoomGrove_leaves (hview : Shows part view) {x : Action (Grove D L) α}
    (hx : Leaves Grove.holdings harmless x) : Leaves view harmless (Action.zoom part x) :=
  fun _ => Keeping.zoom hview hx

theorem zoomWorkshop_leaves (hview : Shows part view)
    {x : Action (Workshop (Waiter D) (Work D)) α} (hx : Leaves Workshop.trees harmless x) :
    Leaves view harmless (Action.zoom (part.comp Grove.workshopPart) x) := by
  refine fun _ => Keeping.zoom (fun t u s htrees => hview _ _ s ?_) hx
  simp only [Grove.workshopPart, Grove.holdings, htrees]

/-- A view that does not show the listeners of a grove. -/
def Deaf {υ : Type} (part : Lens σ (Grove D L)) (view : σ → υ) : Prop :=
  ∀ t u s, t.bare = u.bare → view (part.set t s) = view (part.set u s)

/-- Listeners do not show in the holdings. -/
theorem Shows.deaf (hview : Shows part view) : Deaf part view := by
  intro t u s hsame
  have hholdings : t.bare.holdings = u.bare.holdings := congrArg Grove.holdings hsame
  exact hview t u s hholdings

/-- Changing the listeners of a forest changes nothing else. -/
theorem adjust_deaf (hview : Deaf part view) {f : Grove D L → Grove D L}
    (hf : ∀ grove, (f grove).bare = grove.bare) : Leaves view harmless (Action.adjust part f) := by
  refine fun _ => Maintains.adjust fun _ s hs => ⟨?_, hs.2⟩
  rw [hview _ _ s (hf (part.get s)), part.set_get]
  exact hs.1

/-- Giving up a registration changes nothing but the listeners. -/
theorem unregister_leaves (hview : Deaf part view) (trigger : Trigger) (document : String)
    (number : Nat) : Leaves view harmless (unregister part trigger document number) :=
  adjust_deaf hview fun _ => rfl

/-- Neither does a new registration. -/
theorem register_leaves (hview : Deaf part view) (trigger : Trigger) (document : String)
    (listener : L) : Leaves view harmless (register part trigger document listener) := by
  intro seen
  refine .bind (.gets _) fun grove => .bind (adjust_deaf hview ?_ seen) fun _ => .pure _
  exact fun _ => rfl

/-- Telling the listeners leaves alone what every listener leaves alone. -/
theorem announce_leaves {ground : Ground σ D L}
    (hnotify : ∀ listener, Leaves view harmless (ground.notify listener))
    (hreport : ∀ failure cause, harmless (.error failure cause)) (trigger : Trigger)
    (document : String) : Leaves view harmless (announce ground trigger document) := by
  intro seen
  refine .bind (.gets _) fun grove => .each fun registration _ => ?_
  exact .rescue (hnotify _ seen) fun fault => Keeping.emit (hreport _ _)

end

/-- Calling a listener succeeds: if it fails, that is reported. -/
theorem calling_result (ground : Ground σ D L) (document : String) (listener : L) (s : σ) :
    (Action.rescue (ground.notify listener)
      (fun fault => Action.report (.listener document) fault) s).result = .ok () := by
  rcases hnotify : ground.notify listener s with ⟨_ | _, t, trace⟩
  · rw [Action.rescue_of_error hnotify, Action.report_apply]
  · rw [Action.rescue_of_ok hnotify]

/-- So telling all listeners succeeds. -/
theorem announce_result (ground : Ground σ D L) (trigger : Trigger) (document : String) (s : σ) :
    (announce ground trigger document s).result = .ok () := by
  unfold announce
  rw [Action.bind_of_ok (Action.look_apply _ _)]
  exact Action.each_result (fun registration _ t => calling_result ground document _ t) s

/-! ## Opening and closing -/

@[simp] theorem edit_apply (part : Lens σ (Grove D L)) (f : Forest D L → Forest D L) (s : σ) :
    edit part f s =
      ⟨.ok (), part.set { part.get s with forest := f (part.get s).forest } s, []⟩ := rfl

/-- Starting an opening gives it the next ticket, which is now the awaited one, and touches no
tree. -/
theorem start_apply (part : Lens σ (Grove D L)) (resolve : Text → Option GrammarName)
    (document : String) (source : D) (language : Text) (caller : Caller) (s : σ) :
    ∃ (grove : Grove D L) (result : Except Fault Unit) (trace : List Event),
      start part resolve document source language caller s =
        ⟨result, part.set grove s, trace⟩ ∧
      grove.holdings =
        { holdings part s with
          openings := (holdings part s).openings + 1
          pending := (holdings part s).pending.insert document
            ((holdings part s).openings + 1) } ∧
      ∀ event ∈ trace, event.SparesTrees := by
  unfold start
  rw [Action.bind_of_quiet (Action.look_apply _ _), Action.bind_of_quiet (edit_apply _ _ _)]
  simp only [Action.zoom_apply, Lens.comp, part.get_set, part.set_set]
  have hlookup : Leaves Workshop.trees Event.SparesTrees
      (Workshop.lookup resolve language (.opening
        ⟨document, (part.get s).forest.openings + 1, source, language, caller⟩) :
        Action (Workshop (Waiter D) (Work D)) Unit) :=
      Workshop.leaves_of_idle (Workshop.lookup_idle _ _ _)
  refine ⟨_, _, _, rfl, ?_, hlookup.trace _⟩
  simp only [Grove.workshopPart, Grove.holdings, hlookup.state]
  rfl

theorem deleteTree_apply (part : Lens σ (Grove D L)) (document : String) (s : σ) :
    deleteTree part document s =
      ⟨.ok (), part.set ((part.get s).fell document) s, (part.get s).deletions document⟩ := by
  unfold deleteTree
  rw [Action.bind_of_ok (Action.look_apply _ _)]
  cases hentry : (part.get s).forest.entries.get? document with
  | none => simp [Grove.fell, Grove.deletions, hentry, part.set_get]
  | some entry =>
    simp [Grove.fell, Grove.deletions, hentry, Toolkit.deleteTree, Action.bind_apply, Lens.comp,
      Grove.toolkitPart, Grove.workshopPart, Workshop.toolkitPart]

/-- Closing a document drops its opening and its tree. -/
theorem close_eq (part : Lens σ (Grove D L)) (document : String) (s : σ) :
    close part document s =
      ⟨.ok (), part.set ((part.get s).uproot document) s, (part.get s).deletions document⟩ := by
  unfold close
  rw [Action.bind_of_ok (edit_apply _ _ _), Action.bind_of_ok (deleteTree_apply _ _ _), edit_apply]
  simp only [part.get_set, part.set_set, List.nil_append, List.append_nil]
  rfl

/-- What closing a document does to the holdings. -/
theorem close_apply (part : Lens σ (Grove D L)) (document : String) (s : σ) :
    ∃ grove : Grove D L,
      close part document s = ⟨.ok (), part.set grove s, (part.get s).deletions document⟩ ∧
      grove.holdings =
        { holdings part s with
          pending := (holdings part s).pending.erase document
          entries := (holdings part s).entries.erase document } :=
  ⟨_, close_eq part document s, rfl⟩

/-- Closing documents one after another changes nothing that closing one does not change. -/
theorem closeAll_leaves (part : Lens σ (Grove D L)) {υ : Type} (view : Grove D L → υ)
    (huproot : ∀ grove document, view (grove.uproot document) = view grove)
    (documents : List String) :
    Leaves (fun s => view (part.get s)) (fun _ => True)
      (Action.each documents (close part)) := by
  refine fun seen => .each fun document _ past s hs => ⟨?_, fun _ _ => trivial⟩
  simp only [close_eq, part.get_set]
  exact (huproot _ _).trans hs.1

/-- It drops their entries and no others. -/
theorem closeAll_apply (part : Lens σ (Grove D L)) (documents : List String) (s : σ) :
    ∃ t trace, Action.each documents (close part) s = ⟨.ok (), t, trace⟩ ∧
      ∀ document, (holdings part t).entries.get? document =
        if document ∈ documents then none else (holdings part s).entries.get? document := by
  induction documents generalizing s with
  | nil => exact ⟨s, [], rfl, fun document => by simp⟩
  | cons first rest ih =>
    obtain ⟨t, trace, hrest, hentries⟩ := ih (part.set ((part.get s).uproot first) s)
    refine ⟨t, (part.get s).deletions first ++ trace, ?_, fun document => ?_⟩
    · rw [Action.each, Action.bind_of_ok (close_eq part first s), hrest]
    · have herased : (holdings part (part.set ((part.get s).uproot first) s)).entries.get?
          document = if document = first then none
            else (holdings part s).entries.get? document := by
        rw [holdings_set]
        exact Table.get?_erase _ _ _
      rw [hentries, herased]
      by_cases hfirst : document = first
      · simp [hfirst]
      · simp [hfirst]

/-- Closing every document that has an entry leaves no entry. -/
theorem closeEvery_apply (part : Lens σ (Grove D L)) (s : σ) :
    ∃ t trace, Action.each (part.get s).forest.entries.keys (close part) s =
        ⟨.ok (), t, trace⟩ ∧
      ∀ document, (holdings part t).entries.get? document = none := by
  obtain ⟨t, trace, hclosed, hentries⟩ := closeAll_apply part (part.get s).forest.entries.keys s
  refine ⟨t, trace, hclosed, fun document => (hentries document).trans ?_⟩
  split
  · rfl
  · cases hget : (part.get s).forest.entries.get? document with
    | none => exact hget
    | some entry =>
      have hkey : document ∈ (part.get s).forest.entries.keys :=
        List.mem_map_of_mem (f := Prod.fst) (Table.mem_rows_of_get? hget)
      exact absurd hkey ‹_›

/-- Disposing of a forest drops every opening and forgets none of the tickets given out. -/
theorem holdings_dispose (part : Lens σ (Grove D L)) (s : σ) :
    (holdings part (dispose part s).state).pending = .empty ∧
      (holdings part (dispose part s).state).openings = (holdings part s).openings := by
  have hclose (document : String) (t : σ) : (close part document t).result = .ok () := by
    rw [close_eq]
  have hclosed := closeAll_leaves part (fun grove => grove.holdings.openings) (fun _ _ => rfl)
    (part.get s).forest.entries.keys
  have hreset : Leaves (holdings part) Event.SparesTrees (resetPatterns part) :=
    zoomGrove_leaves (shows_holdings part) PatternCache.clear_leaves
  unfold dispose
  rw [Action.bind_of_quiet (Action.look_apply _ _),
    Action.bind_of_ok (Action.eq_of_result (Action.each_result (fun d _ => hclose d) s)),
    Action.bind_of_quiet (edit_apply _ _ _)]
  dsimp only
  rw [hreset.state, holdings_set]
  exact ⟨rfl, hclosed.state s⟩

/-- The workshop's parser at work on a text of the forest. -/
def parsing (part : Lens σ (Grove D L)) (language : Language) (text : Text) (old : Option Tree)
    (s : σ) : Outcome (Workshop (Waiter D) (Work D)) Tree :=
  Workshop.parse (some language) text old (part.get s).workshop

/-- Parsing for the forest fails and changes nothing, or it makes the tree of the text. -/
theorem parsing_cases (part : Lens σ (Grove D L)) (language : Language) (text : Text)
    (old : Option Tree) (s : σ) :
    ∃ trace, (∀ event ∈ trace, event.OfParser (old.map Tree.number)) ∧
      ((∃ fault,
          parsing part language text old s = ⟨.error fault, (part.get s).workshop, trace⟩ ∧
          Action.zoom (part.comp Grove.workshopPart) (Workshop.parse (some language) text old) s =
            ⟨.error fault, s, trace⟩) ∨
        ∃ tree,
          tree = ⟨(holdings part s).trees + 1, some language, text, Braces.parse text⟩ ∧
          parsing part language text old s = ⟨.ok tree, (part.get s).workshop.grow, trace⟩ ∧
          Action.zoom (part.comp Grove.workshopPart) (Workshop.parse (some language) text old) s =
            ⟨.ok tree, part.set { part.get s with workshop := (part.get s).workshop.grow } s,
              trace⟩) := by
  obtain ⟨trace, hparser, hparse⟩ :=
    Workshop.parse_cases (some language) text old (part.get s).workshop
  refine ⟨trace, hparser, ?_⟩
  rcases hparse with ⟨fault, hfails⟩ | hmakes
  · refine .inl ⟨fault, hfails, ?_⟩
    simp [Lens.comp, Grove.workshopPart, hfails, part.set_get]
  · refine .inr ⟨_, rfl, hmakes, ?_⟩
    simp [Lens.comp, Grove.workshopPart, hmakes, holdings, Grove.holdings]

/-- The ways in which going on with an opening can end. -/
inductive Resumed (ground : Ground σ D L) (opening : Opening D) (s : σ) :
    Answer → Outcome σ Bool → Prop
  /-- The lookup of the language failed. -/
  | rejected (fault : Fault) : Resumed ground opening s (.error fault) ⟨.error fault, s, []⟩
  /-- The opening is not the latest of its document any more. -/
  | stale (found : Option Language)
      (hstale : (holdings ground.part s).pending.get? opening.document ≠ some opening.ticket) :
      Resumed ground opening s (.ok found)
        ⟨.ok false, s, [.log (.staleParse opening.document)]⟩
  /-- There is no grammar for the language. -/
  | unavailable
      (hlatest : (holdings ground.part s).pending.get? opening.document = some opening.ticket) :
      Resumed ground opening s (.ok none)
        ⟨.ok false, ground.part.set ((ground.part.get s).settle opening.document) s, []⟩
  /-- The text could not be parsed. -/
  | unparsed {settled : σ} {language : Language} {fault : Fault} {trace : List Event}
      (hlatest : (holdings ground.part s).pending.get? opening.document = some opening.ticket)
      (hsettled : settled = ground.part.set ((ground.part.get s).settle opening.document) s)
      (hparse : parsing ground.part language (ground.read settled opening.source).text none s =
        ⟨.error fault, (ground.part.get s).workshop, trace⟩)
      (hparser : ∀ event ∈ trace, event.OfParser none) :
      Resumed ground opening s (.ok (some language)) ⟨.error fault, settled, trace⟩
  /-- The document was parsed, and its listeners were told. -/
  | stored {settled planted : σ} {language : Language} {tree : Tree} {trace : List Event}
      (hlatest : (holdings ground.part s).pending.get? opening.document = some opening.ticket)
      (hsettled : settled = ground.part.set ((ground.part.get s).settle opening.document) s)
      (htree : tree = ⟨(holdings ground.part s).trees + 1, some language,
        (ground.read settled opening.source).text,
        Braces.parse (ground.read settled opening.source).text⟩)
      (hparse : parsing ground.part language (ground.read settled opening.source).text none s =
        ⟨.ok tree, (ground.part.get s).workshop.grow, trace⟩)
      (hparser : ∀ event ∈ trace, event.OfParser none)
      (hplanted : planted = ground.part.set
        (({ (ground.part.get s).settle opening.document with
            workshop := (ground.part.get s).workshop.grow } : Grove D L).plant opening.document
          { tree, language, source := opening.source, key := opening.language }) s) :
      Resumed ground opening s (.ok (some language))
        ⟨.ok true, (announce ground .parsed opening.document planted).state,
          trace ++ (ground.part.get s).deletions opening.document ++
            .log (.parsed opening.document opening.language) ::
              (announce ground .parsed opening.document planted).trace⟩

/-- Storing an entry deletes the tree it replaces, and then the listeners are told. -/
theorem storing_apply (ground : Ground σ D L) (document : String) (entry : Entry D)
    (notice : Notice) {s planted : σ}
    (hplanted : planted = ground.part.set ((ground.part.get s).plant document entry) s) :
    (do
      deleteTree ground.part document
      edit ground.part fun f => { f with entries := f.entries.insert document entry }
      Action.log notice
      announce ground .parsed document
      return true : Action σ Bool) s =
    ⟨.ok true, (announce ground .parsed document planted).state,
      (ground.part.get s).deletions document ++
        .log notice :: (announce ground .parsed document planted).trace⟩ := by
  have hedit : edit ground.part (fun f => { f with entries := f.entries.insert document entry })
      (ground.part.set ((ground.part.get s).fell document) s) = ⟨.ok (), planted, []⟩ := by
    rw [edit_apply, ground.part.get_set, ground.part.set_set, hplanted]
    rfl
  have hannounce := announce_result ground .parsed document planted
  rw [Action.bind_of_ok (deleteTree_apply _ _ _), Action.bind_of_quiet hedit,
    Action.bind_of_ok (Action.log_apply _ _), Action.bind_of_ok (Action.eq_of_result hannounce)]
  simp

/-- Going on with an opening ends in one of these ways. -/
theorem resume_resumed (ground : Ground σ D L) (opening : Opening D) (answer : Answer) (s : σ) :
    Resumed ground opening s answer (resume ground opening answer s) := by
  unfold resume
  cases answer with
  | error fault =>
    rw [Action.bind_of_error (Action.ofExcept_apply _ _)]
    exact .rejected fault
  | ok found =>
    rw [Action.bind_of_quiet (Action.ofExcept_apply _ _),
      Action.bind_of_quiet (Action.look_apply _ _)]
    dsimp only
    by_cases hlatest :
        (holdings ground.part s).pending.get? opening.document = some opening.ticket
    swap
    · have hstale : (ground.part.get s).forest.pending.get? opening.document ≠
          some opening.ticket := hlatest
      rw [if_pos hstale, Action.bind_of_ok (Action.log_apply _ _)]
      exact .stale found hlatest
    have hnot : ¬(ground.part.get s).forest.pending.get? opening.document ≠
        some opening.ticket := not_not.mpr hlatest
    set settled := ground.part.set ((ground.part.get s).settle opening.document) s with hsettled
    have hedit : edit ground.part (fun f => { f with pending := f.pending.erase opening.document })
        s = ⟨.ok (), settled, []⟩ := rfl
    rw [if_neg hnot, Action.bind_of_quiet hedit]
    cases found with
    | none => exact .unavailable hlatest
    | some language =>
      dsimp only
      rw [Action.bind_of_quiet (Action.gets_apply _ _)]
      have hgrove : ground.part.get settled = (ground.part.get s).settle opening.document :=
        ground.part.get_set _ s
      obtain ⟨trace, hparser, hparse⟩ := parsing_cases ground.part language
        (ground.read settled opening.source).text none settled
      -- Settling touches the forest alone, so the parser is as it was before.
      simp only [parsing, holdings, hgrove] at hparse
      rcases hparse with ⟨fault, hfails, hzoom⟩ | ⟨tree, htree, hmakes, hzoom⟩
      · rw [Action.bind_of_error hzoom]
        exact .unparsed hlatest hsettled hfails hparser
      · rw [Action.bind_of_ok hzoom, storing_apply ground _ _ _ rfl]
        simp only [ground.part.get_set]
        rw [hsettled]
        simp only [ground.part.set_set]
        have hstored := Resumed.stored hlatest hsettled htree hmakes hparser rfl
        rw [List.append_assoc] at hstored
        exact hstored

/-! ## Changing -/

/-- The events of telling a tree of changes. -/
def editing (tree : Tree) (changes : List Change) : List Event :=
  changes.map fun change => .treeEdited tree.number change.toEdit

/-- The ways in which bringing a document up to date can end. -/
inductive Updated (ground : Ground σ D L) (document : String) (source : D)
    (changes : List Change) (s : σ) : Outcome σ Unit → Prop
  /-- The document has no tree. -/
  | absent (hentry : (holdings ground.part s).entries.get? document = none) :
      Updated ground document source changes s ⟨.ok (), s, []⟩
  /-- There are no changes. -/
  | idle (hchanges : changes = []) : Updated ground document source changes s ⟨.ok (), s, []⟩
  /-- The tree was told, but the new text could not be parsed. -/
  | unparsed {entry : Entry D} {told : σ} {fault : Fault} {trace : List Event}
      (hchanges : changes ≠ [])
      (hentry : (holdings ground.part s).entries.get? document = some entry)
      (htold : told = ground.part.set ((ground.part.get s).tell document entry changes) s)
      (hparse : parsing ground.part entry.language (ground.read told source).text
        (some entry.tree) s = ⟨.error fault, (ground.part.get s).workshop, trace⟩)
      (hparser : ∀ event ∈ trace, event.OfParser (some entry.tree.number)) :
      Updated ground document source changes s
        ⟨.error fault, told, editing entry.tree changes ++ trace⟩
  /-- The tree was told and replaced by that of the new text, and the listeners were told. -/
  | replaced {entry : Entry D} {told planted : σ} {tree : Tree} {trace : List Event}
      (hchanges : changes ≠ [])
      (hentry : (holdings ground.part s).entries.get? document = some entry)
      (htold : told = ground.part.set ((ground.part.get s).tell document entry changes) s)
      (htree : tree = ⟨(holdings ground.part s).trees + 1, some entry.language,
        (ground.read told source).text, Braces.parse (ground.read told source).text⟩)
      (hparse : parsing ground.part entry.language (ground.read told source).text
        (some entry.tree) s = ⟨.ok tree, (ground.part.get s).workshop.grow, trace⟩)
      (hparser : ∀ event ∈ trace, event.OfParser (some entry.tree.number))
      (hplanted : planted = ground.part.set
        (({ (ground.part.get s).tell document entry changes with
            workshop := (ground.part.get s).workshop.grow } : Grove D L).plant document
          { entry with tree, source, told := [] }) s) :
      Updated ground document source changes s
        ⟨.ok (), (announce ground .changed document planted).state,
          editing entry.tree changes ++ (trace ++ (.treeDeleted entry.tree.number ::
            (announce ground .changed document planted).trace))⟩

/-- Telling a tree of changes leaves the events and does nothing else. -/
theorem editing_apply (part : Lens σ Toolkit) (tree : Tree) (changes : List Change) (s : σ) :
    Action.each changes (fun change => Action.zoom part (Toolkit.editTree tree change.toEdit)) s =
      ⟨.ok (), s, editing tree changes⟩ := by
  induction changes with
  | nil => rfl
  | cons change rest ih =>
    have hfirst : Action.zoom part (Toolkit.editTree tree change.toEdit) s =
        ⟨.ok (), s, [.treeEdited tree.number change.toEdit]⟩ := by
      simp [Toolkit.editTree, part.set_get]
    rw [Action.each, Action.bind_of_ok hfirst, ih]
    rfl

/-- Replacing the tree of an entry deletes the old one, and then the listeners are told. -/
theorem replacing_apply (ground : Ground σ D L) (document : String) {old : Entry D}
    (entry : Entry D) {s planted : σ}
    (hold : (holdings ground.part s).entries.get? document = some old)
    (hplanted : planted = ground.part.set ((ground.part.get s).plant document entry) s) :
    (do
      Action.zoom (ground.part.comp Grove.toolkitPart) (Toolkit.deleteTree old.tree)
      edit ground.part fun f => { f with entries := f.entries.insert document entry }
      announce ground .changed document : Action σ Unit) s =
    ⟨.ok (), (announce ground .changed document planted).state,
      .treeDeleted old.tree.number :: (announce ground .changed document planted).trace⟩ := by
  have hentry : (ground.part.get s).forest.entries.get? document = some old := hold
  have hdelete : Action.zoom (ground.part.comp Grove.toolkitPart) (Toolkit.deleteTree old.tree) s =
      ⟨.ok (), ground.part.set ((ground.part.get s).fell document) s,
        [.treeDeleted old.tree.number]⟩ := by
    simp [Grove.fell, hentry, Toolkit.deleteTree, Action.bind_apply, Lens.comp, Grove.toolkitPart,
      Grove.workshopPart, Workshop.toolkitPart]
  have hedit : edit ground.part (fun f => { f with entries := f.entries.insert document entry })
      (ground.part.set ((ground.part.get s).fell document) s) = ⟨.ok (), planted, []⟩ := by
    rw [edit_apply, ground.part.get_set, ground.part.set_set, hplanted]
    rfl
  rw [Action.bind_of_ok hdelete, Action.bind_of_quiet hedit,
    Action.eq_of_result (announce_result ground .changed document planted)]
  rfl

/-- Without a tree or without changes there is nothing to do. -/
theorem update_idle (ground : Ground σ D L) {document : String} (source : D)
    {changes : List Change} {s : σ}
    (hidle : ¬((ground.part.get s).forest.has document && !changes.isEmpty) = true) :
    update ground document source changes s = ⟨.ok (), s, []⟩ := by
  unfold update
  rw [Action.bind_of_quiet (Action.look_apply _ _)]
  cases hentry : (ground.part.get s).forest.entries.get? document with
  | none => rfl
  | some entry =>
    have hempty : changes.isEmpty = true := by
      simpa [has, Table.contains, hentry] using hidle
    dsimp only
    rw [if_pos hempty]
    rfl

/-- Bringing a document up to date ends in one of these ways. -/
theorem update_updated (ground : Ground σ D L) (document : String) (source : D)
    (changes : List Change) (s : σ) :
    Updated ground document source changes s (update ground document source changes s) := by
  unfold update
  rw [Action.bind_of_quiet (Action.look_apply _ _)]
  cases hentry : (ground.part.get s).forest.entries.get? document with
  | none => exact .absent hentry
  | some entry =>
    dsimp only
    by_cases hchanges : changes = []
    · subst hchanges
      exact .idle rfl
    have hsome : ¬changes.isEmpty = true := by simpa using hchanges
    set told := ground.part.set ((ground.part.get s).tell document entry changes) s with htold
    have hedit : edit ground.part (fun f => { f with
        entries := f.entries.insert document { entry with told := entry.told ++ changes } }) s =
        ⟨.ok (), told, []⟩ := rfl
    rw [if_neg hsome, Action.bind_of_ok (editing_apply _ _ _ _), Action.bind_of_quiet hedit,
      Action.bind_of_quiet (Action.gets_apply _ _)]
    have hgrove : ground.part.get told = (ground.part.get s).tell document entry changes :=
      ground.part.get_set _ s
    obtain ⟨trace, hparser, hparse⟩ := parsing_cases ground.part entry.language
      (ground.read told source).text (some entry.tree) told
    -- Telling touches the forest alone, so the parser is as it was before.
    simp only [parsing, holdings, hgrove] at hparse
    rcases hparse with ⟨fault, hfails, hzoom⟩ | ⟨tree, htree, hmakes, hzoom⟩
    · rw [Action.bind_of_error hzoom]
      exact .unparsed hchanges hentry htold hfails hparser
    · set grown := ground.part.set { (ground.part.get s).tell document entry changes with
        workshop := ((ground.part.get s).tell document entry changes).workshop.grow } told
        with hgrown
      have hold : (holdings ground.part grown).entries.get? document =
          some { entry with told := entry.told ++ changes } := by
        rw [hgrown, holdings_set]
        exact Table.get?_insert_self _ _ _
      rw [Action.bind_of_ok hzoom, replacing_apply ground document _ hold rfl]
      rw [hgrown, htold]
      simp only [ground.part.get_set, ground.part.set_set]
      exact .replaced hchanges hentry htold htree hmakes hparser rfl

end Forest

end ClosingLabels
