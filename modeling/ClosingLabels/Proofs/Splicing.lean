import ClosingLabels.Proofs.Following
import ClosingLabels.Proofs.Lines
import Mathlib.Data.List.Chain

/-!
# Batches of changes

Changes that the editor reports together are all stated in the text as it was before any of
them, the last place first, and a tree is told of them one after another. So every change
but the first is told of while the text is no longer the one it was stated in. That does no
harm, because the text differs only behind the change: what was replaced so far starts where
the change before it started, and that is not before its own end.
-/

namespace ClosingLabels

open Text (newline)

namespace Number

/-- Whole numbers that stay in the range of exact ones are added exactly. -/
theorem sum_natCast {a b : Nat} (h : a + b ≤ exactLimit) : sum a b = ((a + b : Nat) : Rat) := by
  have hsum : ((a : Rat) + b) = (((a + b : Nat) : Int) : Rat) := by push_cast; rfl
  rw [sum, hsum, rounded_of_le (by rwa [Int.natAbs_natCast])]
  rfl

end Number

namespace Change

/-! ## One change -/

/-- A change as it is stated in a document: its range runs between two positions that the
document has, and its offset and its length are those of the range. -/
structure StatedIn (document : Document) (change : Change) : Prop where
  start : document.Has change.start
  stop : document.Has change.stop
  order : change.start.NotAfter change.stop
  offset : document.offsetOf change.start = .ok change.offset
  length : document.offsetOf change.stop = .ok (change.offset + change.length)

/-- A change as a replacement of one stretch of text behind another: where it lies depends on
these two alone, and not on what comes behind them. -/
structure At (change : Change) (first old : Text) : Prop where
  offset : change.offset = (first.length : Rat)
  length : change.length = (old.length : Rat)
  start : change.start = ⟨first.count newline, first.lastLine.length⟩
  stop : change.stop = ⟨(first ++ old).count newline, (first ++ old).lastLine.length⟩

/-- A change replaces in a text the stretch that starts at its offset and has its length. -/
def Splices (change : Change) (before after : Text) : Prop :=
  ∃ first old behind, before = first ++ old ++ behind ∧ after = first ++ change.text ++ behind ∧
    change.offset = (first.length : Rat) ∧ change.length = (old.length : Rat)

variable {change next : Change} {first old behind : Text}

/-- What a change was stated to replace is in the document. -/
theorem StatedIn.exists_at {document : Document} (h : change.StatedIn document) :
    ∃ first old, change.At first old ∧ first ++ old <+: document.text := by
  obtain ⟨first, second, hfirst, hstart⟩ := h.start.exists_cut
  obtain ⟨whole, behind, hwhole, hstop⟩ := h.stop.exists_cut
  have hle : first.length ≤ whole.length := by
    have horder := h.order
    rw [hstart, hstop] at horder
    exact Document.length_le_of_notAfter hfirst hwhole horder
  -- Both are where the text begins, so the longer one begins with the shorter one.
  obtain ⟨old, rfl⟩ := List.prefix_of_prefix_length_le (hfirst ▸ List.prefix_append first second)
    (hwhole ▸ List.prefix_append whole behind) hle
  have hoffset : change.offset = (first.length : Rat) := by
    have hoffset := h.offset
    rw [hstart, Document.offsetOf_cut hfirst] at hoffset
    exact (Except.ok.inj hoffset).symm
  refine ⟨first, old, ⟨hoffset, ?_, hstart, hstop⟩, hwhole ▸ List.prefix_append _ _⟩
  have hlength := h.length
  rw [hstop, Document.offsetOf_cut hwhole, hoffset, List.length_append] at hlength
  have hsum := Except.ok.inj hlength
  push_cast at hsum
  exact (add_left_cancel hsum).symm

theorem cutAt_natCast {text : Text} {place : Nat} (h : place ≤ text.length) :
    text.cutAt place = place := by
  simp [Text.cutAt, h]

theorem At.stopIndex (h : change.At first old)
    (hshort : (first ++ old).length < Number.exactLimit) :
    Number.sum change.offset change.length = ((first ++ old).length : Nat) := by
  rw [List.length_append] at hshort ⊢
  rw [h.offset, h.length, Number.sum_natCast hshort.le]

/-- Making a change replaces what it was stated to replace. -/
theorem At.apply (h : change.At first old) {text : Text} (htext : text = first ++ old ++ behind)
    (hshort : text.length < Number.exactLimit) :
    change.apply text = first ++ change.text ++ behind := by
  have hwhole : (first ++ old).length ≤ text.length := by
    rw [htext]
    exact (List.prefix_append _ _).length_le
  have hfirst : first.length ≤ text.length := (List.prefix_append _ _).length_le.trans hwhole
  rw [Change.apply, h.stopIndex (lt_of_le_of_lt hwhole hshort), h.offset, cutAt_natCast hfirst,
    cutAt_natCast hwhole, htext, List.drop_left, List.append_assoc first, List.take_left]

/-- A text that begins where a first part ends brings it to where both together end. -/
theorem endOf_append {text : Text} (hshort : (first ++ text).length < Number.exactLimit) :
    endOf ⟨first.count newline, first.lastLine.length⟩ text =
      ⟨(first ++ text).count newline, (first ++ text).lastLine.length⟩ := by
  have hcount : first.count newline + text.count newline + 1 ≤ Number.exactLimit := by
    rw [← List.count_append]
    exact lt_of_le_of_lt List.count_le_length hshort
  rw [endOf, Text.getLast?_lines, Text.length_lines, Option.getD_some]
  by_cases hmem : newline ∈ text
  · -- The text has lines of its own, and the last of them is its end.
    have hmore : ¬ text.count newline + 1 = 1 := by
      have := List.count_pos_iff.mpr hmem
      omega
    have hlines : Number.sum (first.count newline : Nat) ((text.count newline + 1 : Nat) : Rat) =
        ((first.count newline + (text.count newline + 1) : Nat) : Rat) :=
      Number.sum_natCast (by omega)
    have hback : Number.sum ((first.count newline + (text.count newline + 1) : Nat) : Rat) (-1) =
        ((first ++ text).count newline : Nat) := by
      have hwhole : ((first.count newline + (text.count newline + 1) : Nat) : Rat) + -1 =
          (((first ++ text).count newline : Nat) : Int) := by
        rw [List.count_append]
        push_cast
        ring
      rw [Number.sum, hwhole, Number.rounded_of_le (by
        rw [Int.natAbs_natCast, List.count_append]; omega)]
      rfl
    rw [if_neg hmore, hlines, hback, Text.lastLine_append_of_mem first hmem]
  · have hlength : first.lastLine.length + text.length ≤ Number.exactLimit := by
      rw [List.length_append] at hshort
      have hlast := Lines.startOf_append first []
      omega
    rw [if_pos (by rw [List.count_eq_zero_of_not_mem hmem]), Text.lastLine_of_notMem hmem,
      Number.sum_natCast hlength, List.count_append, List.count_eq_zero_of_not_mem hmem,
      Text.lastLine_append_of_notMem first hmem, List.length_append, Nat.add_zero]

end Change

/-- An edit that is right for two texts, the one before it and the one after it: its positions
are those of its offsets, and the texts differ in length as its ends do. -/
structure Edit.Exact (edit : Edit) (before after : Document) : Prop where
  startBefore : before.positionOf edit.startIndex = edit.startPosition
  startAfter : after.positionOf edit.startIndex = edit.startPosition
  oldEnd : before.positionOf edit.oldEndIndex = edit.oldEndPosition
  newEnd : after.positionOf edit.newEndIndex = edit.newEndPosition
  growth : (after.text.length : Rat) - before.text.length = edit.newEndIndex - edit.oldEndIndex
  within : 0 ≤ edit.startIndex ∧
    edit.startIndex ≤ edit.oldEndIndex ∧ edit.oldEndIndex ≤ before.text.length ∧
    edit.startIndex ≤ edit.newEndIndex ∧ edit.newEndIndex ≤ after.text.length

namespace Change

variable {change next : Change} {first old behind : Text}

/-- The edit of a change is right for every text in which the change finds what it was stated
to replace, also for one in which it was not stated. -/
theorem At.exact (h : change.At first old) {before after : Document}
    (hbefore : before.text = first ++ old ++ behind)
    (hafter : after.text = first ++ change.text ++ behind)
    (hshortBefore : before.text.length < Number.exactLimit)
    (hshortAfter : after.text.length < Number.exactLimit) : change.toEdit.Exact before after := by
  have hold : (first ++ old).length < Number.exactLimit :=
    lt_of_le_of_lt (by rw [hbefore]; exact (List.prefix_append _ _).length_le) hshortBefore
  have hnew : (first ++ change.text).length < Number.exactLimit :=
    lt_of_le_of_lt (by rw [hafter]; exact (List.prefix_append _ _).length_le) hshortAfter
  have hstart : change.toEdit.startIndex = (first.length : Rat) := h.offset
  have holdEnd : change.toEdit.oldEndIndex = ((first ++ old).length : Nat) := h.stopIndex hold
  have hnewEnd : change.toEdit.newEndIndex = ((first ++ change.text).length : Nat) := by
    rw [List.length_append] at hnew ⊢
    rw [toEdit, h.offset, Number.sum_natCast hnew.le]
  have hnewPosition : change.toEdit.newEndPosition =
      ⟨(first ++ change.text).count newline, (first ++ change.text).lastLine.length⟩ := by
    rw [toEdit, h.start, endOf_append hnew]
  refine ⟨?_, ?_, ?_, ?_, ?_, ?_⟩
  · rw [hstart]
    exact (Document.positionOf_cut (hbefore.trans (List.append_assoc ..))).trans h.start.symm
  · rw [hstart]
    exact (Document.positionOf_cut (hafter.trans (List.append_assoc ..))).trans h.start.symm
  · rw [holdEnd]
    exact (Document.positionOf_cut hbefore).trans h.stop.symm
  · rw [hnewEnd, hnewPosition]
    exact Document.positionOf_cut hafter
  · rw [holdEnd, hnewEnd, hbefore, hafter]
    simp only [List.length_append]
    push_cast
    ring
  · rw [hstart, holdEnd, hnewEnd, hbefore, hafter]
    simp only [List.length_append]
    refine ⟨Nat.cast_nonneg _, ?_, ?_, ?_, ?_⟩ <;> exact Nat.cast_le.mpr (by omega)

/-! ## One change after another -/

/-- The next change of a batch lies where the text is as it was. -/
theorem At.next_prefix {document : Document} (h : change.At first old)
    (htext : first ++ old <+: document.text) {nextFirst nextOld : Text}
    (hnext : next.At nextFirst nextOld) (hnextText : nextFirst ++ nextOld <+: document.text)
    (horder : next.stop.NotAfter change.start) : nextFirst ++ nextOld <+: first := by
  obtain ⟨behind, hbehind⟩ := htext
  obtain ⟨nextBehind, hnextBehind⟩ := hnextText
  have hcut : document.text = first ++ (old ++ behind) := by rw [← hbehind, List.append_assoc]
  rw [hnext.stop, h.start] at horder
  exact List.prefix_of_prefix_length_le ⟨nextBehind, hnextBehind⟩ (hcut ▸ List.prefix_append _ _)
    (Document.length_le_of_notAfter hnextBehind.symm hcut horder)

/-- A batch of changes: each of them is stated in the document, and none ends behind the start of
the one before it. The texts of the document and on the way are no longer than a text can be: their
lengths stay below the number up to which all whole ones are exact. -/
structure Batch (document : Document) (changes : List Change) : Prop where
  stated : ∀ change ∈ changes, change.StatedIn document
  descending : changes.IsChain fun change next => next.stop.NotAfter change.start
  short : ∀ made, made <+: changes → (replay made document.text).length < Number.exactLimit

/-- The next change finds in a text what it was stated to replace in a document. -/
def Finds (document : Document) (text : Text) (change : Change) : Prop :=
  ∃ first old, change.At first old ∧ first ++ old <+: document.text ∧ first ++ old <+: text

/-- Making a change keeps what the next one was stated to replace. -/
theorem Finds.apply {document : Document} {text : Text} (h : Finds document text change)
    (hnext : next.StatedIn document) (horder : next.stop.NotAfter change.start)
    (hshort : text.length < Number.exactLimit) : Finds document (change.apply text) next := by
  obtain ⟨first, old, hat, hdocument, behind, htext⟩ := h
  obtain ⟨nextFirst, nextOld, hnextAt, hnextDocument⟩ := hnext.exists_at
  refine ⟨nextFirst, nextOld, hnextAt, hnextDocument, ?_⟩
  rw [hat.apply htext.symm hshort, List.append_assoc]
  exact (hat.next_prefix hdocument hnextAt hnextDocument horder).trans (List.prefix_append _ _)

/-- From a text in which the first change finds what it replaces, all edits are right. -/
theorem exact_from {document : Document} {changes : List Change}
    (stated : ∀ change ∈ changes, change.StatedIn document)
    (descending : changes.IsChain fun change next => next.stop.NotAfter change.start)
    {text : Text} (hfinds : ∀ change ∈ changes.head?, Finds document text change)
    (short : ∀ made, made <+: changes → (replay made text).length < Number.exactLimit)
    {earlier later : List Change} (hchanges : changes = earlier ++ change :: later) :
    change.Splices (replay earlier text) (replay (earlier ++ [change]) text) ∧
      change.toEdit.Exact { document with text := replay earlier text }
        { document with text := replay (earlier ++ [change]) text } := by
  induction earlier generalizing changes text with
  | nil =>
    subst hchanges
    obtain ⟨first, old, hat, -, behind, htext⟩ := hfinds change rfl
    have hshort := short [] List.nil_prefix
    have hshortAfter := short [change] ⟨later, rfl⟩
    have hafter : replay [change] text = first ++ change.text ++ behind :=
      hat.apply htext.symm hshort
    exact ⟨⟨first, old, behind, htext.symm, hafter, hat.offset, hat.length⟩,
      hat.exact htext.symm hafter hshort hshortAfter⟩
  | cons head earlier ih =>
    subst hchanges
    have hshort := short [] List.nil_prefix
    obtain ⟨hfirst, hrest⟩ := List.isChain_cons.mp descending
    refine ih (fun other hmem => stated other (List.mem_cons_of_mem _ hmem)) hrest
      (fun next hnext => ?_) (fun made hmade => ?_) rfl
    · have hstated := stated next (List.mem_cons_of_mem _ (List.mem_of_mem_head? hnext))
      exact (hfinds head rfl).apply hstated (hfirst next hnext) hshort
    · exact short (head :: made) (List.cons_prefix_cons.mpr ⟨rfl, hmade⟩)

/-- Whatever is told of some changes, the tree is told of them first, in their order. -/
theorem editing_prefix {σ D L : Type} (ground : Forest.Ground σ D L) (name : String) (source : D)
    (changes : List Change) {s : σ} {entry : Entry D}
    (hentry : (Forest.holdings ground.part s).entries.get? name = some entry) :
    Forest.editing entry.tree changes <+: (Forest.update ground name source changes s).trace := by
  have hupdated := Forest.update_updated ground name source changes s
  generalize Forest.update ground name source changes s = done at hupdated
  cases hupdated with
  | absent habsent => rw [habsent] at hentry; cases hentry
  | idle hchanges => rw [hchanges]; exact List.nil_prefix
  | unparsed _ hfound _ _ _ =>
    obtain rfl := Option.some.inj (hfound.symm.trans hentry)
    exact List.prefix_append _ _
  | replaced _ hfound _ _ _ _ _ =>
    obtain rfl := Option.some.inj (hfound.symm.trans hentry)
    exact List.prefix_append _ _

/-- A tree is told of a batch of changes exactly. They are told of in their order, and although
each is stated in the document, its edit is right for the texts that it is really between: the one
that the changes before it leave, and that text with this change spliced in. -/
theorem Batch.edits_exact {document : Document} {changes : List Change}
    (h : Batch document changes) :
    (∀ earlier change later, changes = earlier ++ change :: later →
      change.Splices (replay earlier document.text) (replay (earlier ++ [change]) document.text) ∧
      change.toEdit.Exact { document with text := replay earlier document.text }
        { document with text := replay (earlier ++ [change]) document.text }) ∧
    ∀ {σ D L : Type} (ground : Forest.Ground σ D L) (name : String) (source : D) (s : σ)
      (entry : Entry D), (Forest.holdings ground.part s).entries.get? name = some entry →
      (changes.map fun change => Event.treeEdited entry.tree.number change.toEdit) <+:
        (Forest.update ground name source changes s).trace := by
  refine ⟨fun earlier change later hchanges => ?_, fun ground name source s entry hentry =>
    editing_prefix ground name source changes hentry⟩
  refine exact_from h.stated h.descending (fun first hfirst => ?_) h.short hchanges
  obtain ⟨begins, old, hat, hprefix⟩ :=
    (h.stated first (List.mem_of_mem_head? hfirst)).exists_at
  exact ⟨begins, old, hat, hprefix, hprefix⟩

/-- The last of three lines is replaced by two, and then, by a change stated before it was, the
first line feed is removed with a unit on either side. -/
theorem Batch.edits_exact_twice :
    let document : Document := ⟨[97, 98, newline, 99, 100, newline, 101], []⟩
    let later : Change := ⟨⟨2, 0⟩, ⟨2, 1⟩, 6, 1, [102, newline, 103, 104]⟩
    let earlier : Change := ⟨⟨0, 1⟩, ⟨1, 1⟩, 1, 3, []⟩
    let language : Language := ⟨"b", [], false⟩
    let tree : Tree := ⟨3, some language, document.text, Braces.parse document.text⟩
    let entry : Entry Unit := ⟨tree, language, (), [], []⟩
    let grove : Grove Unit Empty := { forest := { entries := Table.empty.insert "a" entry } }
    let ground : Forest.Ground (Grove Unit Empty) Unit Empty :=
      ⟨Lens.whole, fun _ _ => document, fun listener => listener.elim⟩
    Batch document [later, earlier] ∧
      later.toEdit.Exact document
        ⟨[97, 98, newline, 99, 100, newline, 102, newline, 103, 104], []⟩ ∧
      earlier.toEdit.Exact ⟨[97, 98, newline, 99, 100, newline, 102, newline, 103, 104], []⟩
        ⟨[97, 100, newline, 102, newline, 103, 104], []⟩ ∧
      [.treeEdited 3 later.toEdit, .treeEdited 3 earlier.toEdit] <+:
        (Forest.update ground "a" () [later, earlier] grove).trace := by
  intro document later earlier language tree entry grove ground
  have hbatch : Batch document [later, earlier] := by
    refine ⟨?_, ?_, ?_⟩
    · simp only [List.mem_cons, List.not_mem_nil, or_false, forall_eq_or_imp, forall_eq]
      exact ⟨⟨⟨2, 0, [101], rfl, rfl, by decide⟩, ⟨2, 1, [101], rfl, rfl, by decide⟩,
          .inr ⟨rfl, by decide⟩, by decide +kernel, by decide +kernel⟩,
        ⟨⟨0, 1, [97, 98], rfl, rfl, by decide⟩, ⟨1, 1, [99, 100], rfl, rfl, by decide⟩,
          .inl (by decide), by decide +kernel, by decide +kernel⟩⟩
    · exact .cons_cons (.inl (by decide)) (.singleton _)
    · intro made hmade
      rcases List.prefix_cons_iff.mp hmade with rfl | ⟨more, rfl, hmore⟩
      · decide +kernel
      rcases List.prefix_cons_iff.mp hmore with rfl | ⟨rest, rfl, hrest⟩
      · decide +kernel
      · obtain rfl := List.prefix_nil.mp hrest
        decide +kernel
  obtain ⟨hexact, htold⟩ := hbatch.edits_exact
  have hfirst : apply later document.text =
      [97, 98, newline, 99, 100, newline, 102, newline, 103, 104] := by decide +kernel
  have hsecond : apply earlier [97, 98, newline, 99, 100, newline, 102, newline, 103, 104] =
      [97, 100, newline, 102, newline, 103, 104] := by decide +kernel
  have hlater := (hexact [] later [earlier] rfl).2
  have hearlier := (hexact [later] earlier [] rfl).2
  simp only [replay, List.nil_append, List.singleton_append, List.foldl_cons, List.foldl_nil,
    hfirst, hsecond] at hlater hearlier
  exact ⟨hbatch, hlater, hearlier, htold ground "a" () grove entry rfl⟩

end Change

end ClosingLabels
