import ClosingLabels.Proofs.Lifetime
import ClosingLabels.Proofs.Recomputing
import ClosingLabels.Proofs.Vouching

/-!
# What labels rest on

Every entry has the text of a buffer that goes by the name of its document, and a tree of
its own that was not deleted. Every opening that is on its way will make such an entry.
This survives whatever happens to entries, openings and documents.
-/

namespace ClosingLabels

/-- A buffer is there and goes by the name of a document. -/
def Named (buffers : List Buffer) (number : Nat) (document : String) : Prop :=
  (buffers[number]?).map Buffer.uri = some document

instance (buffers : List Buffer) (number : Nat) (document : String) :
    Decidable (Named buffers number document) :=
  inferInstanceAs (Decidable (_ = _))

namespace Named

variable {buffers : List Buffer} {number : Nat} {document other : String}

theorem unique (h : Named buffers number document) (hother : Named buffers number other) :
    document = other := Option.some.inj (h.symm.trans hother)

theorem lt (h : Named buffers number document) : number < buffers.length := by
  by_contra hge
  rw [Named, List.getElem?_eq_none (Nat.le_of_not_lt hge)] at h
  cases h

/-- More buffers take no name away. -/
theorem append (h : Named buffers number document) (more : List Buffer) :
    Named (buffers ++ more) number document := by
  rw [Named, List.getElem?_append_left h.lt]
  exact h

end Named

/-- The name of a buffer that is there. -/
theorem named_of_lt {screen : Screen} {number : Nat} (hlt : number < screen.buffers.length) :
    Named screen.buffers number (screen.buffer number).uri := by
  simp [Named, Screen.buffer, List.getElem?_eq_getElem hlt]

/-- Writing to a buffer takes no name away. -/
theorem named_write (screen : Screen) (written : Nat) (text : Text) (number : Nat)
    (document : String) :
    Named (screen.write written text).buffers number document ↔
      Named screen.buffers number document := by
  rw [Named, Named, Screen.write, List.getElem?_modify]
  cases screen.buffers[number]? with
  | none => rfl
  | some found =>
    by_cases hsame : written = number
    · simp [hsame]
    · simp [hsame]

/-- Whoever waits for a language has a buffer to be parsed. -/
def Waiter.Rooted (buffers : List Buffer) : Waiter Nat → Prop
  | .opening asked => Named buffers asked.source asked.document
  | .bare _ => True

/-- What labels rest on: trees and those who wait for them, and the documents that the editor has
open and in front. -/
structure Roots where
  workshop : Workshop (Waiter Nat) (Work Nat)
  entries : Table String (Entry Nat)
  buffers : List Buffer
  documents : Table String Nat
  active : Option (Option Nat)

/-- Everything has its place: documents and openings have buffers, and entries have trees. -/
structure Roots.Rooted (roots : Roots) : Prop where
  listed : ∀ row ∈ roots.documents.rows, Named roots.buffers row.2 row.1
  front : ∀ buffer, roots.active = some (some buffer) → buffer < roots.buffers.length
  waiting : roots.workshop.Vouched (Waiter.Rooted roots.buffers)
  entries : ∀ document entry, roots.entries.get? document = some entry →
    Named roots.buffers entry.source document
  trees : Kept .tree Entry.number roots.entries roots.workshop.trees
    (roots.workshop.toolkit.deletedTrees.map .tree)

namespace Roots.Rooted

variable {roots : Roots} {document : String} {entry : Entry Nat}

/-- The tree of an entry was not deleted. -/
theorem alive (h : roots.Rooted) (hentry : roots.entries.get? document = some entry) :
    entry.tree.number ∉ roots.workshop.toolkit.deletedTrees := by
  intro hdeleted
  exact (h.trees.of_get? hentry).2 (List.mem_map_of_mem hdeleted)

/-- Loading may go on as long as everyone who waits is vouched for. -/
theorem withWorkshop (h : roots.Rooted) {workshop : Workshop (Waiter Nat) (Work Nat)}
    (hwaiting : workshop.Vouched (Waiter.Rooted roots.buffers))
    (htrees : workshop.trees = roots.workshop.trees)
    (hdeleted : workshop.toolkit.deletedTrees = roots.workshop.toolkit.deletedTrees) :
    Rooted { roots with workshop } where
  listed := h.listed
  front := h.front
  waiting := hwaiting
  entries := h.entries
  trees := by
    change Kept .tree Entry.number roots.entries workshop.trees
      (workshop.toolkit.deletedTrees.map .tree)
    rw [htrees, hdeleted]
    exact h.trees

/-- An entry with the tree made last may be put down, if the tree it replaces is deleted. -/
theorem plant (h : roots.Rooted) (hname : Named roots.buffers entry.source document)
    (htree : entry.number = roots.workshop.trees + 1)
    {workshop : Workshop (Waiter Nat) (Work Nat)}
    (hwaiting : workshop.Vouched (Waiter.Rooted roots.buffers))
    (htrees : workshop.trees = roots.workshop.trees + 1)
    (hdeleted : workshop.toolkit.deletedTrees =
      (roots.entries.get? document).toList.map Entry.number ++
        roots.workshop.toolkit.deletedTrees) :
    Rooted { roots with workshop, entries := roots.entries.insert document entry } where
  listed := h.listed
  front := h.front
  waiting := hwaiting
  entries other found hget := by
    change (roots.entries.insert document entry).get? other = some found at hget
    rw [Table.get?_insert] at hget
    split at hget
    · obtain rfl := Option.some.inj hget
      exact ‹other = document› ▸ hname
    · exact h.entries other found hget
  trees := by
    have hreplaced := h.trees.replace (fun _ _ => Thing.tree.inj) document htree
    change Kept .tree Entry.number (roots.entries.insert document entry) workshop.trees
      (workshop.toolkit.deletedTrees.map .tree)
    rw [htrees, hdeleted]
    refine hreplaced.of_gone fun n => ?_
    simp [or_comm]

/-- An entry may be told of changes. -/
theorem tell (h : roots.Rooted) (hentry : roots.entries.get? document = some entry)
    (told : List Change) :
    Rooted { roots with entries := roots.entries.insert document { entry with told } } where
  listed := h.listed
  front := h.front
  waiting := h.waiting
  entries other found hget := by
    change (roots.entries.insert document _).get? other = some found at hget
    rw [Table.get?_insert] at hget
    split at hget
    · obtain rfl := Option.some.inj hget
      exact ‹other = document› ▸ h.entries document entry hentry
    · exact h.entries other found hget
  trees := h.trees.rewrite hentry rfl

/-- An entry may be dropped with its tree. -/
theorem uproot (h : roots.Rooted) (document : String)
    {workshop : Workshop (Waiter Nat) (Work Nat)}
    (hwaiting : workshop.Vouched (Waiter.Rooted roots.buffers))
    (htrees : workshop.trees = roots.workshop.trees)
    (hdeleted : workshop.toolkit.deletedTrees =
      (roots.entries.get? document).toList.map Entry.number ++
        roots.workshop.toolkit.deletedTrees) :
    Rooted { roots with workshop, entries := roots.entries.erase document } where
  listed := h.listed
  front := h.front
  waiting := hwaiting
  entries other found hget := by
    change (roots.entries.erase document).get? other = some found at hget
    rw [Table.get?_erase] at hget
    split at hget
    · cases hget
    · exact h.entries other found hget
  trees := by
    have hremoved := h.trees.remove (fun _ _ => Thing.tree.inj) document
    change Kept .tree Entry.number (roots.entries.erase document) workshop.trees
      (workshop.toolkit.deletedTrees.map .tree)
    rw [htrees, hdeleted]
    refine hremoved.of_gone fun n => ?_
    simp [or_comm]

/-- Other documents may be open, as long as every buffer keeps its name. -/
theorem withBuffers (h : roots.Rooted) {buffers : List Buffer} {documents : Table String Nat}
    {active : Option (Option Nat)}
    (hnames : ∀ number document, Named roots.buffers number document →
      Named buffers number document)
    (hlisted : ∀ row ∈ documents.rows, Named buffers row.2 row.1)
    (hfront : ∀ buffer, active = some (some buffer) → buffer < buffers.length) :
    Rooted { roots with buffers, documents, active } where
  listed := hlisted
  front := hfront
  waiting := by
    refine h.waiting.mono fun waiter hwaiter => ?_
    cases waiter with
    | bare key => trivial
    | opening opening => exact hnames _ _ hwaiter
  entries other found hget := hnames _ _ (h.entries other found hget)
  trees := h.trees

end Roots.Rooted

/-- What labels rest on is all backstage. -/
def Backstage.roots (stage : Backstage) : Roots where
  workshop := stage.grove.workshop
  entries := stage.grove.forest.entries
  buffers := stage.buffers
  documents := stage.documents
  active := stage.active

namespace Desk

/-- What the labels of a desk rest on. -/
def roots (desk : Desk) : Roots := desk.backstage.roots

/-- A search keeps everything in its place. -/
theorem searched_rooted {desk : Desk} (h : desk.roots.Rooted) (document : String) :
    Roots.Rooted (Backstage.roots { desk.backstage with grove := desk.searched document }) := by
  rw [searched]
  cases desk.plugin.forest.entries.get? document with
  | none => exact h
  | some entry =>
    dsimp only
    split
    · exact h
    · have hsearched := PatternCache.find_searched entry.key entry.language entry.tree
        (desk.plugin.catalog.kinds entry.key) (grovePart.get desk)
      generalize PatternCache.find Grove.cacheSite entry.key entry.language entry.tree
        (desk.plugin.catalog.kinds entry.key) (grovePart.get desk) = outcome at hsearched
      cases hsearched with
      | kept hkept => exact h
      | failed reported hidle => exact h
      | compiled hnew hquery hpattern => exact h.withWorkshop (h.waiting.of_eq rfl rfl rfl) rfl rfl

end Desk

end ClosingLabels
