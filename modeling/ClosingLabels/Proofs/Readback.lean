import ClosingLabels.Pattern.Reader
import Mathlib.Data.List.Basic

/-!
# What is read in a pattern

A pattern is handed over as a text. The names in it hold no bracket, no space and no sign, so the
text falls apart in one way only: what is read in it are the kinds that the pattern asks for and
the name under which it captures their blocks.
-/

namespace ClosingLabels

/-- What stands in texts that are joined stands in one of them or between them. -/
theorem Text.mem_join {separator : Text} {parts : List Text} {unit : UInt16}
    (h : unit ∈ Text.join separator parts) : unit ∈ separator ∨ ∃ part ∈ parts, unit ∈ part := by
  induction parts with
  | nil => cases h
  | cons part rest ih =>
    cases rest with
    | nil =>
      rw [Text.join, List.intercalate_singleton] at h
      exact .inr ⟨part, List.mem_cons_self, h⟩
    | cons next later =>
      rw [Text.join, List.intercalate_cons_cons, List.mem_append, List.mem_append] at h
      rcases h with (hpart | hseparator) | hlater
      · exact .inr ⟨part, List.mem_cons_self, hpart⟩
      · exact .inl hseparator
      · exact (ih hlater).imp_right fun ⟨other, hother, hunit⟩ =>
          ⟨other, List.mem_cons_of_mem _ hother, hunit⟩

namespace Pattern

theorem between?_eq_some_iff {opening closing text inner : Text} :
    between? opening closing text = some inner ↔ text = opening ++ inner ++ closing := by
  rw [between?, Option.bind_eq_some_iff]
  simp only [List.isPrefixOf?_eq_some_iff_append_eq, List.isSuffixOf?_eq_some_iff_append_eq]
  constructor
  · rintro ⟨rest, rfl, rfl⟩
    exact (List.append_assoc _ _ _).symm
  · rintro rfl
    exact ⟨inner ++ closing, (List.append_assoc _ _ _).symm, rfl⟩

theorem readAlternative?_eq_some_iff {text name : Text} :
    readAlternative? text = some name ↔ isKindName name = true ∧ text = alternative name := by
  rw [readAlternative?, Option.filter_eq_some_iff, between?_eq_some_iff, and_comm]
  rfl

theorem readAlternatives?_eq_some_iff {texts names : List Text} :
    readAlternatives? texts = some names ↔
      (∀ name ∈ names, isKindName name = true) ∧ texts = names.map alternative := by
  induction texts generalizing names with
  | nil =>
    cases names <;> simp [readAlternatives?]
  | cons text rest ih =>
    simp only [readAlternatives?, Option.bind_eq_bind, Option.bind_eq_some_iff,
      readAlternative?_eq_some_iff, ih, Option.pure_def, Option.some.injEq]
    constructor
    · rintro ⟨name, ⟨hname, rfl⟩, others, ⟨hothers, rfl⟩, rfl⟩
      exact ⟨List.forall_mem_cons.mpr ⟨hname, hothers⟩, rfl⟩
    · rintro ⟨hnames, htexts⟩
      cases names with
      | nil => cases htexts
      | cons name others =>
        obtain ⟨rfl, rfl⟩ := List.cons.inj htexts
        obtain ⟨hname, hothers⟩ := List.forall_mem_cons.mp hnames
        exact ⟨name, ⟨hname, rfl⟩, others, ⟨hothers, rfl⟩, rfl⟩

/-- A name is a word. -/
theorem isWord_of_mem {name : Text} (hname : isKindName name = true) {unit : UInt16}
    (hunit : unit ∈ name) : Text.isWord unit = true := by
  cases name with
  | nil => cases hunit
  | cons first rest =>
    simp only [isKindName, Bool.and_eq_true, List.all_eq_true] at hname
    rcases List.mem_cons.mp hunit with rfl | hrest
    · exact hname.1.1
    · exact hname.2 unit hrest

/-- Besides words, only parentheses stand in the alternative for a name. -/
theorem notMem_alternative {name : Text} (hname : isKindName name = true) {unit : UInt16}
    (hword : Text.isWord unit = false) (hparentheses : unit ∉ ("()" : Text)) :
    unit ∉ alternative name := by
  intro hmem
  rw [alternative, List.mem_append, List.mem_append] at hmem
  rcases hmem with (hopen | hinside) | hclose
  · exact hparentheses (List.mem_append_left _ hopen)
  · exact absurd (isWord_of_mem hname hinside) (by simp [hword])
  · exact hparentheses (List.mem_append_right "(" hclose)

/-- Alternatives with a space between them fall apart into the alternatives. -/
theorem splitOn_join {names : List Text} (hne : names ≠ [])
    (hnames : ∀ name ∈ names, isKindName name = true) :
    (Text.join " " (names.map alternative)).splitOn space = names.map alternative := by
  refine List.splitOn_intercalate space ?_ (by simpa using hne)
  intro text htext
  obtain ⟨name, hname, rfl⟩ := List.mem_map.mp htext
  exact notMem_alternative (hnames name hname) (by decide) (by decide)

end Pattern

/-- **A pattern says what it asks for.** Whoever reads the text of a pattern finds its kinds and
the name of its captures. -/
theorem Reading.ofText?_text {pattern : Pattern} (hne : pattern.kinds ≠ [])
    (hnames : ∀ kind ∈ pattern.kinds, Pattern.isKindName kind = true) :
    ofText? pattern.text = some ⟨pattern.kinds, Pattern.capture⟩ := by
  let inner := Text.join " " (pattern.kinds.map Pattern.alternative)
  -- The sign stands in no alternative and between none, so the text falls apart at the one sign.
  have hinside : Pattern.captureSign ∉ inner := by
    intro hmem
    rcases Text.mem_join hmem with hspace | ⟨part, hpart, hmem⟩
    · exact absurd hspace (by decide)
    · obtain ⟨name, hname, rfl⟩ := List.mem_map.mp hpart
      exact Pattern.notMem_alternative (hnames name hname) (by decide) (by decide) hmem
  have hbefore : Pattern.captureSign ∉ ("[" : Text) ++ inner ++ ("] " : Text) := by
    rw [List.mem_append, List.mem_append]
    rintro ((hopen | hmem) | hclose)
    · exact absurd hopen (by decide)
    · exact hinside hmem
    · exact absurd hclose (by decide)
  have hsplit : pattern.text.splitOn Pattern.captureSign =
      [("[" : Text) ++ inner ++ ("] " : Text), (Pattern.capture : Text)] := by
    have htext : pattern.text = List.intercalate [Pattern.captureSign]
        [("[" : Text) ++ inner ++ ("] " : Text), (Pattern.capture : Text)] := by
      rw [List.intercalate_cons_cons, List.intercalate_singleton]
      simp only [Pattern.text, List.append_assoc]
      rfl
    rw [htext]
    refine List.splitOn_intercalate Pattern.captureSign ?_ (List.cons_ne_nil _ _)
    exact List.forall_mem_cons.mpr ⟨hbefore, List.forall_mem_singleton.mpr (by decide)⟩
  have hinner : Pattern.between? "[" "] " (("[" : Text) ++ inner ++ ("] " : Text)) = some inner :=
    Pattern.between?_eq_some_iff.mpr rfl
  have hkinds : Pattern.readAlternatives? (inner.splitOn Pattern.space) = some pattern.kinds :=
    Pattern.readAlternatives?_eq_some_iff.mpr ⟨hnames, Pattern.splitOn_join hne hnames⟩
  rw [ofText?, hsplit]
  simp only [hinner, Option.bind_eq_bind, Option.bind_some, hkinds]
  rfl

end ClosingLabels
