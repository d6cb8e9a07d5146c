import ClosingLabels.Proofs.Refreshing

/-!
# Trees in step with their documents

A tree is in step with its document when the changes it was told of since it was parsed
lead from the text it was parsed from to the text of the document now. The few ways in
which a scene changes while documents are opened, edited and closed keep all trees in
step, each for its own reason.
-/

namespace ClosingLabels

/-! ## Changes -/

/-- A text after changes were made in it, one after another. -/
def Change.replay (changes : List Change) (text : Text) : Text :=
  changes.foldl (fun text change => change.apply text) text

theorem Change.replay_append (changes more : List Change) (text : Text) :
    replay (changes ++ more) text = replay more (replay changes text) :=
  List.foldl_append

/-- The changes that replacements amount to lead to the text that they leave. -/
theorem Workbench.replay_applyAll (text : Text) (replacements : List Replacement) :
    Change.replay (applyAll text replacements).1 text = (applyAll text replacements).2 := by
  induction replacements generalizing text with
  | nil => rfl
  | cons replacement rest ih => exact ih _

/-- Every replacement amounts to a change. -/
theorem Workbench.applyAll_ne_nil (text : Text) {replacements : List Replacement}
    (hsome : replacements ≠ []) : (applyAll text replacements).1 ≠ [] := by
  cases replacements with
  | nil => exact absurd rfl hsome
  | cons replacement rest => exact List.cons_ne_nil _ _

/-- The edit of a tree that an event tells of. -/
def editOf? (tree : Nat) : Event → Option Edit
  | .treeEdited number edit => if number = tree then some edit else none
  | _ => none

/-- The edits that a tree was told of, in order. -/
def editsOf (tree : Nat) (past : List Event) : List Edit := past.filterMap (editOf? tree)

@[simp] theorem editsOf_append (tree : Nat) (past trace : List Event) :
    editsOf tree (past ++ trace) = editsOf tree past ++ editsOf tree trace :=
  List.filterMap_append

/-- What spares the trees tells none of an edit. -/
theorem editsOf_of_spares {trace : List Event} (h : ∀ event ∈ trace, event.SparesTrees)
    (tree : Nat) : editsOf tree trace = [] := by
  refine List.filterMap_eq_nil_iff.mpr fun event hevent => ?_
  have hspares := h event hevent
  cases event <;> first | rfl | exact hspares.elim

/-- Neither does a parser at work. -/
theorem editsOf_parsing {trace : List Event} {old : Option Nat}
    (h : ∀ event ∈ trace, event.OfParser old) (tree : Nat) : editsOf tree trace = [] := by
  refine List.filterMap_eq_nil_iff.mpr fun event hevent => ?_
  have hparser := h event hevent
  cases event <;> first | rfl | exact hparser.elim

/-- Deleting a tree is no edit of it. -/
theorem editsOf_deletions {D L : Type} (number : Nat) (grove : Grove D L) (document : String) :
    editsOf number (grove.deletions document) = [] := by
  refine List.filterMap_eq_nil_iff.mpr fun event hevent => ?_
  obtain ⟨entry, _, rfl⟩ := List.mem_map.mp hevent
  rfl

/-- Telling a tree of changes is seen in the edits of that tree alone. -/
theorem editsOf_editing (number : Nat) (tree : Tree) (changes : List Change) :
    editsOf number (Forest.editing tree changes) =
      if tree.number = number then changes.map Change.toEdit else [] := by
  induction changes with
  | nil => simp [Forest.editing, editsOf]
  | cons change rest ih =>
    simp only [Forest.editing, editsOf, List.map_cons, List.filterMap_cons, editOf?] at ih ⊢
    by_cases hsame : tree.number = number
    · simp only [hsame, if_true] at ih ⊢
      rw [← ih]
    · simp only [hsame, if_false] at ih ⊢
      exact ih

/-! ## Scenes in step -/

namespace Scene

/-- A buffer by number. -/
def buffer (scene : Scene) (number : Nat) : Buffer :=
  (scene.buffers[number]?).getD ⟨"", ⟨[], ""⟩⟩

/-- The present text of a buffer. -/
def textOf (scene : Scene) (number : Nat) : Text := (scene.buffer number).document.text

/-- An entry is in step: its source is the open document, the changes its tree was told of lead
to the present text, and they are all that the tree was ever told. -/
structure Follows (scene : Scene) (past : List Event) (uri : String) (entry : Entry Nat) :
    Prop where
  shown : scene.documents.get? uri = some entry.source
  text : Change.replay entry.told entry.tree.text = scene.textOf entry.source
  told : editsOf entry.tree.number past = entry.told.map Change.toEdit
  made : entry.tree.number ≤ scene.holdings.trees

/-- When the tree of an entry is told of changes, they join those it was told of before. -/
theorem Follows.editsOf_told {scene : Scene} {past : List Event} {uri : String}
    {entry : Entry Nat} (h : scene.Follows past uri entry) (changes : List Change) :
    editsOf entry.tree.number (past ++ Forest.editing entry.tree changes) =
      (entry.told ++ changes).map Change.toEdit := by
  rw [editsOf_append, h.told, editsOf_editing, if_pos rfl, List.map_append]

/-- Trees and documents are in step. The openings on their way matter too: one that is awaited
will read the document that is open. -/
structure InStep (scene : Scene) (waiting : List (Opening Nat)) (past : List Event) : Prop where
  named : ∀ uri number, scene.documents.get? uri = some number →
    number < scene.buffers.length ∧ (scene.buffer number).uri = uri
  follows : ∀ uri entry, scene.holdings.entries.get? uri = some entry →
    scene.Follows past uri entry
  distinct : ∀ uri other entry rival, scene.holdings.entries.get? uri = some entry →
    scene.holdings.entries.get? other = some rival →
    entry.tree.number = rival.tree.number → uri = other
  unborn : ∀ number, scene.holdings.trees < number → editsOf number past = []
  given : ∀ opening ∈ waiting, opening.ticket ≤ scene.holdings.openings
  awaited : ∀ opening ∈ waiting,
    scene.holdings.pending.get? opening.document = some opening.ticket →
    scene.documents.get? opening.document = some opening.source

variable {scene : Scene} {waiting : List (Opening Nat)} {past : List Event} {number : Nat}

/-- Events that tell no tree of an edit make no difference. -/
theorem InStep.quiet (h : scene.InStep waiting past) {trace : List Event}
    (hquiet : ∀ number, editsOf number trace = []) : scene.InStep waiting (past ++ trace) := by
  have hedits (number : Nat) : editsOf number (past ++ trace) = editsOf number past := by
    rw [editsOf_append, hquiet, List.append_nil]
  refine ⟨h.named, ?_, h.distinct, ?_, h.given, h.awaited⟩
  · intro uri entry hentry
    obtain ⟨hshown, htext, htold, hmade⟩ := h.follows uri entry hentry
    exact ⟨hshown, htext, by rw [hedits, htold], hmade⟩
  · exact fun number hnumber => (hedits number).trans (h.unborn number hnumber)

/-- Fewer openings wait, or fewer are awaited. -/
theorem InStep.settle (h : scene.InStep waiting past) {pending : Table String Nat}
    {fewer : List (Opening Nat)} (hfewer : ∀ opening ∈ fewer, opening ∈ waiting)
    (hpending : ∀ uri ticket, pending.get? uri = some ticket →
      scene.holdings.pending.get? uri = some ticket) :
    InStep { scene with holdings := { scene.holdings with pending } } fewer past := by
  refine ⟨h.named, fun uri entry hentry => ?_, h.distinct, h.unborn, ?_, ?_⟩
  · obtain ⟨hshown, htext, htold, hmade⟩ := h.follows uri entry hentry
    exact ⟨hshown, htext, htold, hmade⟩
  · exact fun opening hmem => h.given opening (hfewer opening hmem)
  · exact fun opening hmem hawaited =>
      h.awaited opening (hfewer opening hmem) (hpending _ _ hawaited)

/-- The next opening of an open document is the awaited one. -/
theorem InStep.start (h : scene.InStep waiting past) {opening : Opening Nat}
    (hshown : scene.documents.get? opening.document = some opening.source)
    (hticket : opening.ticket = scene.holdings.openings + 1) :
    InStep { scene with holdings := { scene.holdings with
        openings := scene.holdings.openings + 1
        pending := scene.holdings.pending.insert opening.document
          (scene.holdings.openings + 1) } }
      (waiting ++ [opening]) past := by
  refine ⟨h.named, fun uri entry hentry => ?_, h.distinct, h.unborn, ?_, ?_⟩
  · obtain ⟨hentered, htext, htold, hmade⟩ := h.follows uri entry hentry
    exact ⟨hentered, htext, htold, hmade⟩
  · intro other hother
    rcases List.mem_append.mp hother with hold | hnew
    · exact Nat.le_succ_of_le (h.given other hold)
    · rw [List.mem_singleton.mp hnew]
      exact Nat.le_of_eq hticket
  · intro other hother hawaited
    rw [Table.get?_insert] at hawaited
    rcases List.mem_append.mp hother with hold | hnew
    · have hgiven := h.given other hold
      split at hawaited
      · have hsame := Option.some.inj hawaited
        omega
      · exact h.awaited other hold hawaited
    · rw [List.mem_singleton.mp hnew]
      exact hshown

/-- Closing a document takes its entry and its opening along. -/
theorem InStep.close (h : scene.InStep waiting past) (uri : String) :
    InStep
      { scene with
        holdings := { scene.holdings with
          pending := scene.holdings.pending.erase uri
          entries := scene.holdings.entries.erase uri }
        documents := scene.documents.erase uri }
      waiting past := by
  have hkept {α : Type} {table : Table String α} {name : String} {value : α}
      (hget : (table.erase uri).get? name = some value) :
      name ≠ uri ∧ table.get? name = some value := by
    rw [Table.get?_erase] at hget
    split at hget
    · cases hget
    · exact ⟨‹_›, hget⟩
  have hstay {name : String} {number : Nat} (hname : name ≠ uri)
      (hget : scene.documents.get? name = some number) :
      (scene.documents.erase uri).get? name = some number := by
    rw [Table.get?_erase, if_neg hname, hget]
  refine ⟨?_, ?_, ?_, h.unborn, h.given, ?_⟩
  · exact fun name number hget => h.named name number (hkept hget).2
  · intro name entry hget
    obtain ⟨hname, hentry⟩ := hkept hget
    obtain ⟨hshown, htext, htold, hmade⟩ := h.follows name entry hentry
    exact ⟨hstay hname hshown, htext, htold, hmade⟩
  · exact fun name other entry rival hentry hrival =>
      h.distinct name other entry rival (hkept hentry).2 (hkept hrival).2
  · intro opening hmem hget
    obtain ⟨hname, hpending⟩ := hkept hget
    exact hstay hname (h.awaited opening hmem hpending)

/-- The old buffers stay when one is added. -/
theorem buffer_append (hlt : number < scene.buffers.length) (added : Buffer)
    (documents : Table String Nat) :
    Scene.buffer { scene with buffers := scene.buffers ++ [added], documents } number =
      scene.buffer number := by
  simp only [buffer, List.getElem?_append_left hlt]

/-- Opening a document that is not open gives it a buffer of its own. -/
theorem InStep.appear (h : scene.InStep waiting past) {uri : String} (document : Document)
    (hnew : scene.documents.get? uri = none) :
    InStep
      { scene with
        buffers := scene.buffers ++ [⟨uri, document⟩]
        documents := scene.documents.insert uri scene.buffers.length }
      waiting past := by
  have hstay {name : String} {number : Nat} (hget : scene.documents.get? name = some number) :
      (scene.documents.insert uri scene.buffers.length).get? name = some number := by
    have hname : name ≠ uri := by
      rintro rfl
      rw [hnew] at hget
      cases hget
    rw [Table.get?_insert, if_neg hname, hget]
  refine ⟨?_, ?_, h.distinct, h.unborn, h.given, ?_⟩
  · intro name number hget
    rw [Table.get?_insert] at hget
    simp only [List.length_append, List.length_singleton]
    split at hget
    · obtain rfl := Option.some.inj hget
      refine ⟨Nat.lt_succ_self _, ?_⟩
      simp [buffer, *]
    · obtain ⟨hlt, hnamed⟩ := h.named name number hget
      exact ⟨Nat.lt_succ_of_lt hlt, by rw [buffer_append hlt, hnamed]⟩
  · intro name entry hentry
    obtain ⟨hshown, htext, htold, hmade⟩ := h.follows name entry hentry
    obtain ⟨hlt, _⟩ := h.named name _ hshown
    refine ⟨hstay hshown, ?_, htold, hmade⟩
    rw [textOf, buffer_append hlt, htext, textOf]
  · exact fun opening hmem hpending => hstay (h.awaited opening hmem hpending)

/-- A new tree of the present text of an open document. -/
theorem InStep.plant (h : scene.InStep waiting past) {uri : String} {entry : Entry Nat}
    (hshown : scene.documents.get? uri = some entry.source)
    (hnumber : entry.tree.number = scene.holdings.trees + 1)
    (htext : entry.tree.text = scene.textOf entry.source) (htold : entry.told = []) :
    InStep { scene with holdings := { scene.holdings with
        entries := scene.holdings.entries.insert uri entry
        trees := scene.holdings.trees + 1 } } waiting past := by
  refine ⟨h.named, ?_, ?_, ?_, h.given, h.awaited⟩
  · intro name other hget
    rw [Table.get?_insert] at hget
    split at hget
    · obtain rfl := Option.some.inj hget
      rename_i hname
      subst hname
      refine ⟨hshown, ?_, ?_, Nat.le_of_eq hnumber⟩
      · rw [htold]
        exact htext
      · rw [htold, hnumber]
        exact h.unborn _ (Nat.lt_succ_self _)
    · obtain ⟨hentered, hreplay, hedits, hmade⟩ := h.follows name other hget
      exact ⟨hentered, hreplay, hedits, Nat.le_succ_of_le hmade⟩
  · intro name other first second hfirst hsecond hsame
    rw [Table.get?_insert] at hfirst hsecond
    split at hfirst <;> split at hsecond
    · rename_i hname hother
      exact hname.trans hother.symm
    · obtain rfl := Option.some.inj hfirst
      have hmade := (h.follows other second hsecond).made
      omega
    · obtain rfl := Option.some.inj hsecond
      have hmade := (h.follows name first hfirst).made
      omega
    · exact h.distinct name other first second hfirst hsecond hsame
  · exact fun number hnumber => h.unborn number (Nat.lt_of_succ_lt hnumber)

/-- A scene in which the text of a buffer was replaced. -/
def write (scene : Scene) (number : Nat) (text : Text) : Scene :=
  { scene with
    buffers := scene.buffers.modify number fun found =>
      { found with document := { found.document with text } } }

/-- Writing changes the text of one buffer and the name of none. -/
theorem buffer_write (scene : Scene) (number other : Nat) (text : Text) :
    ((scene.write number text).buffer other).uri = (scene.buffer other).uri ∧
      (other ≠ number → (scene.write number text).textOf other = scene.textOf other) ∧
      (number < scene.buffers.length → (scene.write number text).textOf number = text) := by
  refine ⟨?_, ?_, ?_⟩
  · simp only [buffer, write, List.getElem?_modify]
    cases scene.buffers[other]? with
    | none => rfl
    | some found =>
      by_cases hsame : number = other
      · simp [hsame]
      · simp [hsame]
  · intro hother
    have hne : number ≠ other := fun heq => hother heq.symm
    simp only [textOf, buffer, write, List.getElem?_modify, hne, if_false, Option.map_eq_map,
      Option.map_id']
  · intro hlt
    simp [textOf, buffer, write, List.getElem?_eq_getElem hlt]

/-- Writing what is there changes nothing. -/
theorem write_textOf (scene : Scene) (number : Nat) :
    scene.write number (scene.textOf number) = scene := by
  refine congrArg (Scene.mk scene.holdings · scene.documents) ?_
  refine List.ext_getElem? fun other => ?_
  rw [List.getElem?_modify]
  cases hfound : scene.buffers[other]? with
  | none => rfl
  | some found =>
    by_cases hsame : number = other
    · subst hsame
      simp [textOf, buffer, hfound]
    · simp [hsame]

/-- Two documents that are open have different buffers. -/
theorem InStep.source_ne (h : scene.InStep waiting past) {uri name : String} {other : Nat}
    (hopen : scene.documents.get? uri = some number)
    (hget : scene.documents.get? name = some other) (hname : name ≠ uri) : other ≠ number := by
  rintro rfl
  have hfirst := (h.named uri other hopen).2
  have hsecond := (h.named name other hget).2
  exact hname (hsecond.symm.trans hfirst)

/-- Writing to a buffer keeps the names of all documents. -/
theorem InStep.named_write (h : scene.InStep waiting past) (number : Nat) (text : Text)
    {uri : String} {other : Nat} (hget : scene.documents.get? uri = some other) :
    other < (scene.write number text).buffers.length ∧
      ((scene.write number text).buffer other).uri = uri := by
  obtain ⟨hlt, hnamed⟩ := h.named uri other hget
  refine ⟨?_, (buffer_write scene number other text).1.trans hnamed⟩
  simpa [write] using hlt

/-- Writing to a document without a tree concerns no tree. -/
theorem InStep.write (h : scene.InStep waiting past) {uri : String} (text : Text)
    (hopen : scene.documents.get? uri = some number)
    (hnone : scene.holdings.entries.get? uri = none) :
    (scene.write number text).InStep waiting past := by
  refine ⟨fun name other hget => h.named_write number text hget, ?_, h.distinct, h.unborn, h.given,
    h.awaited⟩
  intro name entry hentry
  obtain ⟨hshown, htext, htold, hmade⟩ := h.follows name entry hentry
  have hname : name ≠ uri := by
    rintro rfl
    cases hnone.symm.trans hentry
  refine ⟨hshown, ?_, htold, hmade⟩
  rw [(buffer_write scene number _ text).2.1 (h.source_ne hopen hshown hname), htext]

/-- Writing to a document with a tree, which is told of the changes that lead to the new text. -/
theorem InStep.tell (h : scene.InStep waiting past) {uri : String} {entry : Entry Nat}
    (changes : List Change) {text : Text}
    (hentry : scene.holdings.entries.get? uri = some entry)
    (hreplay : Change.replay changes (scene.textOf entry.source) = text) :
    InStep { scene.write entry.source text with holdings := { scene.holdings with
        entries := scene.holdings.entries.insert uri
          { entry with told := entry.told ++ changes } } }
      waiting (past ++ Forest.editing entry.tree changes) := by
  have hfollows := h.follows uri entry hentry
  obtain ⟨hlt, _⟩ := h.named uri _ hfollows.shown
  refine ⟨fun name other hget => h.named_write entry.source text hget, ?_, ?_, ?_, h.given,
    h.awaited⟩
  · intro name other hget
    rw [Table.get?_insert] at hget
    split at hget
    · obtain rfl := Option.some.inj hget
      rename_i hname
      subst hname
      refine ⟨hfollows.shown, ?_, ?_, hfollows.made⟩
      · rw [Change.replay_append, hfollows.text, hreplay]
        exact ((buffer_write scene entry.source entry.source text).2.2 hlt).symm
      · exact hfollows.editsOf_told changes
    · rename_i hname
      obtain ⟨hshown, htext, htold, hmade⟩ := h.follows name other hget
      have hnumber : entry.tree.number ≠ other.tree.number := fun hsame =>
        hname (h.distinct uri name entry other hentry hget hsame).symm
      refine ⟨hshown, ?_, ?_, hmade⟩
      · rw [htext]
        exact ((buffer_write scene entry.source _ text).2.1
          (h.source_ne hfollows.shown hshown hname)).symm
      · rw [editsOf_append, htold, editsOf_editing, if_neg hnumber, List.append_nil]
  · have hnumber {name : String} {found : Entry Nat}
        (hget : (scene.holdings.entries.insert uri
          { entry with told := entry.told ++ changes }).get? name = some found) :
        ∃ first, scene.holdings.entries.get? name = some first ∧
          first.tree.number = found.tree.number := by
      rw [Table.get?_insert] at hget
      split at hget
      · obtain rfl := Option.some.inj hget
        exact ⟨entry, by rw [‹name = uri›, hentry], rfl⟩
      · exact ⟨found, hget, rfl⟩
    intro name other found rival hfound hrival hsame
    obtain ⟨first, hfirst, hfirstNumber⟩ := hnumber hfound
    obtain ⟨second, hsecond, hsecondNumber⟩ := hnumber hrival
    exact h.distinct name other first second hfirst hsecond (by omega)
  · intro number hnumber
    have hmade := hfollows.made
    have hne : entry.tree.number ≠ number := by
      have hlater : scene.holdings.trees < number := hnumber
      omega
    rw [editsOf_append, h.unborn number hnumber, editsOf_editing, if_neg hne, List.append_nil]

end Scene

end ClosingLabels
