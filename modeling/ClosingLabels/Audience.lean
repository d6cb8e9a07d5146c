import ClosingLabels.Switchboard
import ClosingLabels.Table

/-!
# Who listens

Listeners wait for a trigger of a document in sets. Each set has a place of its own, and is
known by that place to whoever refers to it: to the table of its trigger, while it is the
set of its document, and to everyone who has registered a listener in it and may want to
give it up. A set without listeners leaves the table, and the next listener of the document
opens a new one. Whoever gives up a listener of the old set must not touch the new one.
-/

namespace ClosingLabels

/-- One value for each trigger. -/
structure EachTrigger (α : Type) where
  parsed : α
  changed : α
deriving DecidableEq, Repr

namespace EachTrigger

variable {α : Type}

/-- The value for a trigger. -/
def of (values : EachTrigger α) : Trigger → α
  | .parsed => values.parsed
  | .changed => values.changed

/-- Replaces the value for a trigger. -/
def put (values : EachTrigger α) (trigger : Trigger) (value : α) : EachTrigger α :=
  match trigger with
  | .parsed => { values with parsed := value }
  | .changed => { values with changed := value }

@[simp] theorem of_put (values : EachTrigger α) (trigger other : Trigger) (value : α) :
    (values.put trigger value).of other = if other = trigger then value else values.of other := by
  cases trigger <;> cases other <;> rfl

end EachTrigger

/-- A listener with the number of its registration. -/
structure Registration (L : Type) where
  number : Nat
  listener : L
deriving DecidableEq, Repr

/-- What is held by whoever has registered a listener: what it waits for, and the place of the
set that it was put into. -/
structure Grip where
  trigger : Trigger
  document : String
  place : Nat
deriving DecidableEq, Repr

/-- The places of the sets that documents have, all sets by place, and the grips handed out so
far, by number of registration. -/
structure Listeners (L : Type) where
  tables : EachTrigger (Table String Nat) := ⟨.empty, .empty⟩
  sets : List (List (Registration L)) := []
  grips : List Grip := []
deriving DecidableEq, Repr

namespace Listeners

variable {L : Type}

/-- The place of the set that a document has for a trigger. -/
def place? (listeners : Listeners L) (trigger : Trigger) (document : String) : Option Nat :=
  (listeners.tables.of trigger).get? document

/-- The set at a place, in order of registration. -/
def setAt (listeners : Listeners L) (place : Nat) : List (Registration L) :=
  listeners.sets[place]?.getD []

/-- The listeners to a trigger of a document, in order of registration. -/
def members (listeners : Listeners L) (trigger : Trigger) (document : String) :
    List (Registration L) :=
  ((listeners.place? trigger document).map listeners.setAt).getD []

/-- Puts a listener into the set of a document, or into a new one if the document has none.
Every listener is registered once, so it is not in the set yet. -/
def add (listeners : Listeners L) (trigger : Trigger) (document : String) (listener : L) :
    Listeners L :=
  let registration := Registration.mk listeners.grips.length listener
  match listeners.place? trigger document with
  | some place =>
    { listeners with
      sets := listeners.sets.set place (listeners.setAt place ++ [registration])
      grips := listeners.grips ++ [⟨trigger, document, place⟩] }
  | none =>
    let place := listeners.sets.length
    { tables :=
        listeners.tables.put trigger ((listeners.tables.of trigger).insert document place)
      sets := listeners.sets ++ [[registration]]
      grips := listeners.grips ++ [⟨trigger, document, place⟩] }

/-- Takes the listener of a registration out of the set at a place. -/
def take (listeners : Listeners L) (place number : Nat) : Listeners L :=
  { listeners with
    sets := listeners.sets.set place ((listeners.setAt place).filter (·.number ≠ number)) }

/-- Drops the set at a place from its document if it has no listeners. It may be that the document
has another set by now, which stays. -/
def dropIfEmpty (listeners : Listeners L) (trigger : Trigger) (document : String) (place : Nat) :
    Listeners L :=
  if listeners.setAt place = [] ∧ listeners.place? trigger document = some place then
    { listeners with
      tables := listeners.tables.put trigger ((listeners.tables.of trigger).erase document) }
  else listeners

/-- Gives up the registration of a number by its grip. -/
def release (listeners : Listeners L) (grip : Grip) (number : Nat) : Listeners L :=
  (listeners.take grip.place number).dropIfEmpty grip.trigger grip.document grip.place

/-- Gives up the registration of a number. A number that was not handed out for this trigger of
this document means nothing. -/
def remove (listeners : Listeners L) (trigger : Trigger) (document : String) (number : Nat) :
    Listeners L :=
  match listeners.grips[number]? with
  | none => listeners
  | some grip =>
    if grip.trigger = trigger ∧ grip.document = document then listeners.release grip number
    else listeners

/-- Leaves every document without a set. The sets themselves stay as they are, and so do the
grips. -/
def clear (listeners : Listeners L) : Listeners L :=
  { listeners with tables := ⟨.empty, .empty⟩ }

/-! ## What an operation does -/

/-- There is nobody where no set was ever opened. -/
theorem lt_of_setAt {listeners : Listeners L} {place : Nat} (h : listeners.setAt place ≠ []) :
    place < listeners.sets.length := by
  refine Nat.lt_of_not_le fun hout => h ?_
  rw [setAt, List.getElem?_eq_none hout]
  rfl

/-- The sets after one of them was written. -/
theorem setAt_of_set {listeners written : Listeners L} {place : Nat} {set : List (Registration L)}
    (hsets : written.sets = listeners.sets.set place set)
    (hplace : set ≠ [] → listeners.setAt place ≠ []) (other : Nat) :
    written.setAt other = if other = place then set else listeners.setAt other := by
  rw [setAt, hsets, List.getElem?_set]
  by_cases hsame : other = place
  · subst hsame
    rw [if_pos rfl, if_pos rfl]
    by_cases hset : set = []
    · subst hset
      split <;> rfl
    · rw [if_pos (lt_of_setAt (hplace hset))]
      rfl
  · rw [if_neg (Ne.symm hsame), if_neg hsame]
    rfl

/-- Every set that a document has holds listeners, and whoever registered one of them has a grip
on this set as a set of this document. -/
def Filed (listeners : Listeners L) : Prop :=
  ∀ trigger document place, listeners.place? trigger document = some place →
    listeners.setAt place ≠ [] ∧ ∀ registration ∈ listeners.setAt place,
      listeners.grips[registration.number]? = some ⟨trigger, document, place⟩

section

variable (listeners : Listeners L) (trigger : Trigger) (document : String) (listener : L)

/-- The place of the set that the next listener is put into. -/
def nextPlace : Nat := (listeners.place? trigger document).getD listeners.sets.length

theorem place?_add (other : Trigger) (name : String) :
    (listeners.add trigger document listener).place? other name =
      if other = trigger ∧ name = document then some (listeners.nextPlace trigger document)
      else listeners.place? other name := by
  unfold add nextPlace
  cases hfound : listeners.place? trigger document with
  | some place =>
    by_cases hsame : other = trigger ∧ name = document
    · rw [if_pos hsame, hsame.1, hsame.2]
      exact hfound
    · rw [if_neg hsame]
      rfl
  | none =>
    dsimp only
    rw [place?, EachTrigger.of_put]
    by_cases htrigger : other = trigger
    · by_cases hname : name = document
      · simp [htrigger, hname]
      · simp [htrigger, hname, place?, Table.get?_insert_of_ne]
    · simp [htrigger, place?]

theorem setAt_add (h : listeners.Filed) (place : Nat) :
    (listeners.add trigger document listener).setAt place =
      if place = listeners.nextPlace trigger document then
        listeners.setAt place ++ [⟨listeners.grips.length, listener⟩]
      else listeners.setAt place := by
  unfold add nextPlace
  cases hfound : listeners.place? trigger document with
  | some found =>
    dsimp only [Option.getD_some]
    rw [setAt_of_set rfl fun _ => (h _ _ _ hfound).1]
    split
    · next hsame => rw [hsame]
    · rfl
  | none =>
    dsimp only [Option.getD_none]
    rw [setAt, setAt, List.getElem?_append]
    split
    · next hold => rw [if_neg (Nat.ne_of_lt hold)]
    · next hnew =>
      rw [List.getElem?_eq_none (Nat.le_of_not_lt hnew)]
      by_cases hsame : place = listeners.sets.length
      · subst hsame
        simp
      · have hbeyond : 1 ≤ place - listeners.sets.length := by omega
        rw [if_neg hsame, List.getElem?_eq_none hbeyond]

theorem grips_add : (listeners.add trigger document listener).grips =
    listeners.grips ++ [⟨trigger, document, listeners.nextPlace trigger document⟩] := by
  unfold add nextPlace
  cases listeners.place? trigger document <;> rfl

end

theorem setAt_take (listeners : Listeners L) (place number other : Nat) :
    (listeners.take place number).setAt other =
      if other = place then (listeners.setAt place).filter (·.number ≠ number)
      else listeners.setAt other :=
  setAt_of_set rfl (fun hsome hnone => hsome (by rw [hnone]; rfl)) other

section

variable (listeners : Listeners L) (trigger : Trigger) (document : String) (place : Nat)

theorem place?_dropIfEmpty (other : Trigger) (name : String) :
    (listeners.dropIfEmpty trigger document place).place? other name =
      if (other = trigger ∧ name = document) ∧ listeners.setAt place = [] ∧
        listeners.place? trigger document = some place then none
      else listeners.place? other name := by
  unfold dropIfEmpty
  split
  · next hempty =>
    rw [place?, EachTrigger.of_put]
    by_cases htrigger : other = trigger
    · by_cases hname : name = document
      · simp [htrigger, hname, hempty]
      · simp [htrigger, hname, place?, Table.get?_erase_of_ne]
    · simp [htrigger, place?]
  · next hkept => rw [if_neg fun hdropped => hkept hdropped.2]

theorem setAt_dropIfEmpty : (listeners.dropIfEmpty trigger document place).setAt =
    listeners.setAt := by
  unfold dropIfEmpty
  split <;> rfl

theorem grips_dropIfEmpty : (listeners.dropIfEmpty trigger document place).grips =
    listeners.grips := by
  unfold dropIfEmpty
  split <;> rfl

end

section

variable (listeners : Listeners L) (grip : Grip) (number : Nat)

/-- A document loses its set when the grip was on this set and its last listener is gone. -/
theorem place?_release (trigger : Trigger) (document : String) :
    (listeners.release grip number).place? trigger document =
      if (trigger = grip.trigger ∧ document = grip.document) ∧
          (listeners.setAt grip.place).filter (·.number ≠ number) = [] ∧
          listeners.place? grip.trigger grip.document = some grip.place then none
      else listeners.place? trigger document := by
  rw [release, place?_dropIfEmpty, setAt_take, if_pos rfl]
  rfl

theorem setAt_release (place : Nat) :
    (listeners.release grip number).setAt place =
      if place = grip.place then (listeners.setAt place).filter (·.number ≠ number)
      else listeners.setAt place := by
  rw [release, setAt_dropIfEmpty, setAt_take]
  split
  · next hsame => rw [hsame]
  · rfl

theorem grips_release : (listeners.release grip number).grips = listeners.grips :=
  grips_dropIfEmpty _ _ _ _

end

/-! ## Good order is kept -/

namespace Filed

variable {listeners : Listeners L} {trigger kind : Trigger} {document name : String}
  {place number : Nat}

/-- Another grip than that on a set is on none of the listeners in it. -/
theorem filter_setAt (h : listeners.Filed) (hplace : listeners.place? trigger document = some place)
    (hgrip : listeners.grips[number]? ≠ some ⟨trigger, document, place⟩) :
    (listeners.setAt place).filter (·.number ≠ number) = listeners.setAt place := by
  refine List.filter_eq_self.mpr fun registration hmem => decide_eq_true ?_
  rintro rfl
  exact hgrip ((h _ _ _ hplace).2 registration hmem)

/-- The listeners that a new one is put with have grips on their set. -/
theorem grip_of_nextPlace (h : listeners.Filed) {registration : Registration L}
    (hmem : registration ∈ listeners.setAt (listeners.nextPlace trigger document)) :
    listeners.grips[registration.number]? =
      some ⟨trigger, document, listeners.nextPlace trigger document⟩ := by
  unfold nextPlace at hmem ⊢
  cases hfound : listeners.place? trigger document with
  | some found =>
    rw [hfound] at hmem
    exact (h _ _ _ hfound).2 registration hmem
  | none =>
    rw [hfound] at hmem
    exact absurd (lt_of_setAt (List.ne_nil_of_mem hmem)) (Nat.lt_irrefl _)

/-- They are not the listeners of another document. -/
theorem ne_nextPlace (h : listeners.Filed) (hplace : listeners.place? kind name = some place)
    (hother : ¬(kind = trigger ∧ name = document)) :
    place ≠ listeners.nextPlace trigger document := by
  rintro rfl
  obtain ⟨registration, hmem⟩ := List.exists_mem_of_ne_nil _ (h _ _ _ hplace).1
  have hsame := (h.grip_of_nextPlace hmem).symm.trans ((h _ _ _ hplace).2 registration hmem)
  obtain ⟨rfl, rfl, -⟩ := Grip.mk.inj (Option.some.inj hsame)
  exact hother ⟨rfl, rfl⟩

theorem clear : listeners.clear.Filed := by
  intro trigger document place hplace
  cases trigger <;> cases hplace

/-- A new listener gets a grip on the set it is put into, and all others keep theirs. -/
theorem add (h : listeners.Filed) (trigger : Trigger) (document : String) (listener : L) :
    (listeners.add trigger document listener).Filed := by
  have hkeep {number : Nat} {grip : Grip} (hgrip : listeners.grips[number]? = some grip) :
      (listeners.add trigger document listener).grips[number]? = some grip := by
    rw [grips_add, List.getElem?_append_left (List.getElem?_eq_some_iff.mp hgrip).1]
    exact hgrip
  intro kind name place hplace
  rw [place?_add] at hplace
  rw [setAt_add _ _ _ _ h]
  by_cases hsame : kind = trigger ∧ name = document
  · obtain ⟨rfl, rfl⟩ := hsame
    rw [if_pos ⟨rfl, rfl⟩] at hplace
    obtain rfl := Option.some.inj hplace
    rw [if_pos rfl]
    refine ⟨by simp, fun registration hmem => ?_⟩
    rcases List.mem_append.mp hmem with hold | hnew
    · exact hkeep (h.grip_of_nextPlace hold)
    · rw [List.mem_singleton.mp hnew, grips_add]
      exact List.getElem?_concat_length
  · rw [if_neg hsame] at hplace
    rw [if_neg (h.ne_nextPlace hplace hsame)]
    obtain ⟨hsome, hgrips⟩ := h _ _ _ hplace
    exact ⟨hsome, fun registration hmem => hkeep (hgrips registration hmem)⟩

/-- A set that loses its last listener is dropped, if it is that of a document. -/
theorem release (h : listeners.Filed) {grip : Grip} (hgrip : listeners.grips[number]? = some grip) :
    (listeners.release grip number).Filed := by
  intro kind name place hplace
  rw [place?_release] at hplace
  rw [setAt_release, grips_release]
  split at hplace
  · cases hplace
  · next hstays =>
    obtain ⟨hsome, hgrips⟩ := h _ _ _ hplace
    by_cases htouched : place = grip.place
    · subst htouched
      rw [if_pos rfl]
      refine ⟨fun hnone => ?_, fun registration hmem =>
        hgrips registration (List.mem_filter.mp hmem).1⟩
      by_cases hsame : kind = grip.trigger ∧ name = grip.document
      · obtain ⟨rfl, rfl⟩ := hsame
        exact hstays ⟨⟨rfl, rfl⟩, hnone, hplace⟩
      · -- A listener of another document is not the one whose grip this is.
        have hother : listeners.grips[number]? ≠ some ⟨kind, name, grip.place⟩ := fun hown =>
          have hgrips := Option.some.inj (hown.symm.trans hgrip)
          hsame ⟨congrArg Grip.trigger hgrips, congrArg Grip.document hgrips⟩
        exact hsome ((h.filter_setAt hplace hother).symm.trans hnone)
    · rw [if_neg htouched]
      exact ⟨hsome, hgrips⟩

theorem remove (h : listeners.Filed) (trigger : Trigger) (document : String) (number : Nat) :
    (listeners.remove trigger document number).Filed := by
  unfold Listeners.remove
  split
  · exact h
  · next grip hgrip =>
    split
    · exact h.release hgrip
    · exact h

end Filed

end Listeners

/-- Listeners in good order: whatever set a document has holds listeners of this document. -/
structure Audience (L : Type) extends Listeners L where
  filed : toListeners.Filed

namespace Audience

variable {L : Type}

/-- Nobody listens, and nobody ever has. -/
def empty : Audience L where
  filed := by
    intro trigger document place hplace
    cases trigger <;> cases hplace

/-- Adds a listener. -/
def add (audience : Audience L) (trigger : Trigger) (document : String) (listener : L) :
    Audience L :=
  ⟨audience.toListeners.add trigger document listener, audience.filed.add trigger document listener⟩

/-- Gives up a registration. -/
def remove (audience : Audience L) (trigger : Trigger) (document : String) (number : Nat) :
    Audience L :=
  ⟨audience.toListeners.remove trigger document number,
    audience.filed.remove trigger document number⟩

/-- Forgets all listeners. -/
def clear (audience : Audience L) : Audience L :=
  ⟨audience.toListeners.clear, Listeners.Filed.clear⟩

end Audience

end ClosingLabels
