import ClosingLabels.Forest
import ClosingLabels.Proofs.Tables

/-!
# Sets of listeners and lists of registrations

Listeners are kept in sets that tables and grips refer to by place. Seen from outside there is a
list of numbered registrations for each trigger of each document: one more listener goes to the
end of one list, giving up a registration takes its number out of one list, and forgetting all
listeners empties them all. Which sets there were before, and who still has a grip on them, cannot
be seen.
-/

namespace ClosingLabels

variable {L : Type}

namespace Listeners

variable {listeners : Listeners L}

/-- The listeners of a document with a set are those in the set. -/
theorem members_of_place? {trigger : Trigger} {document : String} {place : Nat}
    (hplace : listeners.place? trigger document = some place) :
    listeners.members trigger document = listeners.setAt place := by
  rw [members, hplace]
  rfl

/-- A document without a set has no listeners. -/
theorem members_of_no_place {trigger : Trigger} {document : String}
    (hplace : listeners.place? trigger document = none) :
    listeners.members trigger document = [] := by
  rw [members, hplace]
  rfl

/-- The set that a new listener is put into holds the listeners that the document has. -/
theorem setAt_nextPlace (listeners : Listeners L) (trigger : Trigger) (document : String) :
    listeners.setAt (listeners.nextPlace trigger document) = listeners.members trigger document := by
  unfold nextPlace
  cases hplace : listeners.place? trigger document with
  | some place => exact (members_of_place? hplace).symm
  | none =>
    rw [members_of_no_place hplace, Option.getD_none, setAt, List.getElem?_eq_none (Nat.le_refl _)]
    rfl

namespace Filed

variable {trigger other : Trigger} {document name : String} {number : Nat}

/-- One more listener is the last one to its trigger of its document. -/
theorem members_add (h : listeners.Filed) (listener : L) :
    (listeners.add trigger document listener).members other name =
      if other = trigger ∧ name = document then
        listeners.members other name ++ [⟨listeners.grips.length, listener⟩]
      else listeners.members other name := by
  have hplaces := listeners.place?_add trigger document listener other name
  by_cases hsame : other = trigger ∧ name = document
  · obtain ⟨rfl, rfl⟩ := hsame
    rw [if_pos ⟨rfl, rfl⟩] at hplaces ⊢
    rw [members_of_place? hplaces, setAt_add _ _ _ _ h, if_pos rfl, setAt_nextPlace]
  · rw [if_neg hsame] at hplaces ⊢
    cases hplace : listeners.place? other name with
    | none => rw [members_of_no_place hplace, members_of_no_place (hplaces.trans hplace)]
    | some place =>
      rw [members_of_place? hplace, members_of_place? (hplaces.trans hplace), setAt_add _ _ _ _ h,
        if_neg (h.ne_nextPlace hplace hsame)]

/-- A number without a grip for this trigger of this document is that of no listener there. -/
theorem filter_members (h : listeners.Filed)
    (hgrip : ∀ place, listeners.grips[number]? ≠ some ⟨other, name, place⟩) :
    (listeners.members other name).filter (·.number ≠ number) = listeners.members other name := by
  cases hplace : listeners.place? other name with
  | none => rw [members_of_no_place hplace]; rfl
  | some place => rw [members_of_place? hplace, h.filter_setAt hplace (hgrip place)]

/-- A listener that is given up by its grip leaves the list it is in, and nobody else does: not
where the grip is on an old set, and not where the set is dropped. -/
theorem members_release (h : listeners.Filed) {grip : Grip}
    (hgrip : listeners.grips[number]? = some grip) :
    (listeners.release grip number).members other name =
      if other = grip.trigger ∧ name = grip.document then
        (listeners.members other name).filter (·.number ≠ number)
      else listeners.members other name := by
  have hplaces := listeners.place?_release grip number other name
  cases hplace : listeners.place? other name with
  | none =>
    have hnowhere : (listeners.release grip number).place? other name = none := by
      rw [hplaces, hplace, ite_self]
    rw [members_of_no_place hplace, members_of_no_place hnowhere]
    simp
  | some place =>
    rw [members_of_place? hplace]
    split at hplaces
    · next hdropped =>
      obtain ⟨⟨rfl, rfl⟩, hnone, hlast⟩ := hdropped
      obtain rfl : place = grip.place := Option.some.inj (hplace.symm.trans hlast)
      rw [members_of_no_place hplaces, if_pos ⟨rfl, rfl⟩, hnone]
    · rw [members_of_place? (hplaces.trans hplace), setAt_release]
      by_cases hown : grip = ⟨other, name, place⟩
      · subst hown
        rw [if_pos rfl, if_pos ⟨rfl, rfl⟩]
      · have hkept := h.filter_setAt hplace fun hother =>
          hown (Option.some.inj (hgrip.symm.trans hother))
        rw [hkept, ite_self, ite_self]

/-- A registration that is given up is missing in the list it was in, and no other one is. -/
theorem members_remove (h : listeners.Filed) (number : Nat) :
    (listeners.remove trigger document number).members other name =
      if other = trigger ∧ name = document then
        (listeners.members other name).filter (·.number ≠ number)
      else listeners.members other name := by
  have hnothing (hgrip : ∀ place, listeners.grips[number]? ≠ some ⟨trigger, document, place⟩) :
      listeners.members other name =
        if other = trigger ∧ name = document then
          (listeners.members other name).filter (·.number ≠ number)
        else listeners.members other name := by
    split
    · next hsame =>
      obtain ⟨rfl, rfl⟩ := hsame
      exact (h.filter_members hgrip).symm
    · rfl
  unfold Listeners.remove
  split
  · next hnone => exact hnothing fun place hgrip => by cases hnone.symm.trans hgrip
  · next grip hgrip =>
    split
    · next hmine =>
      obtain ⟨rfl, rfl⟩ := hmine
      exact h.members_release hgrip
    · next hother =>
      refine hnothing fun place hown => hother ?_
      rw [Option.some.inj (hgrip.symm.trans hown)]
      exact ⟨rfl, rfl⟩

end Filed

/-- A first listener is given up and a second one registered. The second one is in a set of its own,
and giving up the first one again does not reach it. -/
example :
    let listeners := ((({} : Listeners Nat).add .parsed "a" 7).remove .parsed "a" 0).add .parsed "a" 8
    listeners.sets = [[], [⟨1, 8⟩]] ∧ listeners.place? .parsed "a" = some 1 ∧
      listeners.remove .parsed "a" 0 = listeners := by decide

/-- A registration takes the next number. -/
theorem length_grips_add (listeners : Listeners L) (trigger : Trigger) (document : String)
    (listener : L) :
    (listeners.add trigger document listener).grips.length = listeners.grips.length + 1 := by
  rw [grips_add, List.length_append, List.length_singleton]

/-- Giving one up takes back none of the grips. -/
theorem grips_remove (listeners : Listeners L) (trigger : Trigger) (document : String)
    (number : Nat) : (listeners.remove trigger document number).grips = listeners.grips := by
  unfold remove
  split
  · rfl
  · split
    · exact grips_dropIfEmpty _ _ _ _
    · rfl

/-- Nobody is left when all listeners are forgotten. -/
theorem members_clear (trigger : Trigger) (document : String) :
    listeners.clear.members trigger document = [] := by
  cases trigger <;> rfl

end Listeners

end ClosingLabels
