import ClosingLabels.Proofs.Isolation
import ClosingLabels.Proofs.Searching
import Mathlib.Data.List.Basic

/-!
# Patterns written and read back

The text of a pattern is a bracket with one name in parentheses after another. A name is an
identifier, so no bracket, space or quote of a kind that someone made up gets into the text, and the
text can be read in one way only: as the identifiers among the kinds that it was made for.
-/

namespace ClosingLabels

namespace Pattern

/-! ## Identifiers -/

/-- A character that an identifier may begin with. -/
def isInitial (c : Char) : Bool := c.isAlpha || c == '_'

/-- A character that an identifier may go on with. -/
def isInner (c : Char) : Bool := c.isAlphanum || c == '_'

/-- A text is an identifier: letters of the basic alphabet, digits and underscores, of which a digit
is not the first. -/
def IsIdentifier (kind : Text) : Prop :=
  ∃ first rest, kind = Text.ofString (String.ofList (first :: rest)) ∧ isInitial first = true ∧
    ∀ c ∈ rest, isInner c = true

theorem isInner_of_isInitial {c : Char} (hc : isInitial c = true) : isInner c = true := by
  rw [isInitial, Bool.or_eq_true] at hc
  rw [isInner, Char.isAlphanum, Bool.or_eq_true, Bool.or_eq_true]
  exact hc.imp_left .inl

theorem lt_of_isInner {c : Char} (hc : isInner c = true) : c.toNat < 128 := by
  rw [isInner, Bool.or_eq_true, beq_iff_eq] at hc
  exact Settings.fileChar_lt (hc.imp_right .inl)

theorem lt_of_isWord {u : UInt16} (hu : Text.isWord u = true) : u.toNat < 128 := by
  simp only [Text.isWord, Text.isDigit, Bool.or_eq_true, Bool.and_eq_true, decide_eq_true_eq,
    beq_iff_eq] at hu
  omega

/-- A test of units that agrees with a test of characters below 128, and passes nothing above, passes
the units of those characters. -/
theorem unit_iff {unit : UInt16 → Bool} {char : Char → Bool}
    (hcheck : ∀ n < 128, unit (UInt16.ofNat n) = char (Char.ofNat n))
    (hunit : ∀ u, unit u = true → u.toNat < 128) (hchar : ∀ c, char c = true → c.toNat < 128)
    (u : UInt16) : unit u = true ↔ ∃ c, char c = true ∧ Text.ofChar c = [u] := by
  constructor
  · intro hu
    have hlt := hunit u hu
    have hnat : (Char.ofNat u.toNat).toNat = u.toNat := by
      have hvalid : u.toNat.isValidChar := .inl (by omega)
      rw [Char.ofNat, dif_pos hvalid]
      rfl
    refine ⟨Char.ofNat u.toNat, ?_, ?_⟩
    · rwa [← hcheck u.toNat hlt, UInt16.ofNat_toNat]
    · rw [Text.ofChar, hnat, if_pos (by omega), UInt16.ofNat_toNat]
  · rintro ⟨c, hc, hspelled⟩
    have hlt := hchar c hc
    rw [Text.ofChar, if_pos (by omega)] at hspelled
    rw [← List.singleton_inj.mp hspelled, hcheck c.toNat hlt, Char.ofNat_toNat]
    exact hc

theorem isWord_iff (u : UInt16) :
    Text.isWord u = true ↔ ∃ c, isInner c = true ∧ Text.ofChar c = [u] :=
  unit_iff (by decide +kernel) (fun _ => lt_of_isWord) (fun _ => lt_of_isInner) u

theorem isLetter_iff (u : UInt16) :
    (Text.isWord u && !Text.isDigit u) = true ↔ ∃ c, isInitial c = true ∧ Text.ofChar c = [u] :=
  @unit_iff (fun u => Text.isWord u && !Text.isDigit u) isInitial (by decide +kernel)
    (fun _ hu => lt_of_isWord (Bool.and_eq_true_iff.mp hu).1)
    (fun _ hc => lt_of_isInner (isInner_of_isInitial hc)) u

theorem ofString_cons (c : Char) (rest : List Char) :
    Text.ofString (String.ofList (c :: rest)) =
      Text.ofChar c ++ Text.ofString (String.ofList rest) := by
  simp [Text.ofString]

/-- The words are the texts of inner characters. -/
theorem all_isWord_iff (text : Text) :
    text.all Text.isWord = true ↔
      ∃ chars, text = Text.ofString (String.ofList chars) ∧ ∀ c ∈ chars, isInner c = true := by
  constructor
  · intro h
    induction text with
    | nil => exact ⟨[], rfl, by simp⟩
    | cons u rest ih =>
      rw [List.all_cons, Bool.and_eq_true] at h
      obtain ⟨c, hc, hspelled⟩ := (isWord_iff u).mp h.1
      obtain ⟨chars, hrest, hchars⟩ := ih h.2
      refine ⟨c :: chars, ?_, List.forall_mem_cons.mpr ⟨hc, hchars⟩⟩
      rw [ofString_cons, hspelled, ← hrest]
      rfl
  · rintro ⟨chars, rfl, hchars⟩
    induction chars with
    | nil => rfl
    | cons c rest ih =>
      obtain ⟨hc, hrest⟩ := List.forall_mem_cons.mp hchars
      have hspelled : Text.ofChar c = [UInt16.ofNat c.toNat] :=
        if_pos (Nat.lt_trans (lt_of_isInner hc) (by decide))
      rw [ofString_cons, hspelled, List.singleton_append, List.all_cons, Bool.and_eq_true]
      exact ⟨(isWord_iff _).mpr ⟨c, hc, hspelled⟩, ih hrest⟩

/-- The kinds that a pattern can ask for are the identifiers. -/
theorem isKindName_iff (kind : Text) : isKindName kind = true ↔ IsIdentifier kind := by
  constructor
  · intro h
    cases kind with
    | nil => cases h
    | cons u rest =>
      obtain ⟨hfirst, hrest⟩ := Bool.and_eq_true_iff.mp h
      obtain ⟨c, hc, hspelled⟩ := (isLetter_iff u).mp hfirst
      obtain ⟨chars, rfl, hchars⟩ := (all_isWord_iff rest).mp hrest
      refine ⟨c, chars, ?_, hc, hchars⟩
      rw [ofString_cons, hspelled]
      rfl
  · rintro ⟨c, chars, rfl, hc, hchars⟩
    have hlt := lt_of_isInner (isInner_of_isInitial hc)
    have hspelled : Text.ofChar c = [UInt16.ofNat c.toNat] := if_pos (Nat.lt_trans hlt (by decide))
    rw [ofString_cons, hspelled]
    exact Bool.and_eq_true_iff.mpr
      ⟨(isLetter_iff _).mpr ⟨c, hc, hspelled⟩, (all_isWord_iff _).mpr ⟨chars, rfl, hchars⟩⟩

instance : DecidablePred IsIdentifier := fun kind => decidable_of_iff _ (isKindName_iff kind)

/-- The identifiers among some kinds, in order and as often as they occur. -/
def identifiers (kinds : List Text) : List Text := kinds.filter fun kind => decide (IsIdentifier kind)

theorem names_eq (kinds : List Text) : names kinds = identifiers kinds :=
  List.filter_congr fun kind _ => Bool.eq_iff_iff.mpr (by rw [isKindName_iff, decide_eq_true_eq])

/-! ## The grammar -/

/-- What follows one of the names: further names in parentheses, each after a space, and the end. -/
inductive SpellsMore : Text → List Text → Prop
  | done : SpellsMore "] @scope" []
  | next {name text : Text} {names : List Text} (hname : IsIdentifier name)
      (h : SpellsMore text names) : SpellsMore (" (" ++ name ++ ")" ++ text) (name :: names)

/-- A text is that of a pattern which asks for some names: a bracket, the first name in parentheses,
and what follows it. -/
inductive Spells : Text → List Text → Prop
  | first {name text : Text} {names : List Text} (hname : IsIdentifier name)
      (h : SpellsMore text names) : Spells ("[(" ++ name ++ ")" ++ text) (name :: names)

/-- The texts that go on in this way are those of lists of identifiers. -/
theorem spellsMore_iff (text : Text) (names : List Text) :
    SpellsMore text names ↔ (∀ name ∈ names, IsIdentifier name) ∧
      text = names.flatMap (fun name => (" " : Text) ++ alternative name) ++ ("] @scope" : Text) := by
  constructor
  · intro h
    induction h with
    | done => exact ⟨by simp, rfl⟩
    | @next name text names hname _ ih =>
      refine ⟨List.forall_mem_cons.mpr ⟨hname, ih.1⟩, ?_⟩
      rw [ih.2, List.flatMap_cons]
      simp only [alternative, List.append_assoc]
      rfl
  · rintro ⟨hnames, rfl⟩
    induction names with
    | nil => exact .done
    | cons name rest ih =>
      obtain ⟨hname, hrest⟩ := List.forall_mem_cons.mp hnames
      rw [List.flatMap_cons, List.append_assoc]
      exact .next hname (ih hrest)

/-- The text of a pattern, one name after another. -/
theorem text_cons (name : Text) (names : List Text) :
    (Pattern.mk (name :: names)).text = ("[" : Text) ++ alternative name ++
      (names.flatMap (fun name => (" " : Text) ++ alternative name) ++ ("] @scope" : Text)) := by
  have hjoin : Text.join " " ((name :: names).map alternative) =
      alternative name ++ names.flatMap (fun name => (" " : Text) ++ alternative name) := by
    induction names generalizing name with
    | nil => simp [Text.join]
    | cons other rest ih =>
      rw [Text.join, List.map_cons, List.map_cons, List.intercalate_cons_cons, List.flatMap_cons]
      have hrest := ih other
      rw [Text.join, List.map_cons] at hrest
      rw [hrest, List.append_assoc, List.append_assoc]
  rw [text, hjoin]
  simp only [List.append_assoc]
  rfl

/-- The grammar is that of the texts of patterns for identifiers. -/
theorem spells_iff (text : Text) (names : List Text) :
    Spells text names ↔ names ≠ [] ∧ (∀ name ∈ names, IsIdentifier name) ∧
      text = (Pattern.mk names).text := by
  constructor
  · rintro ⟨hname, h⟩
    obtain ⟨hnames, rfl⟩ := (spellsMore_iff _ _).mp h
    refine ⟨List.cons_ne_nil _ _, List.forall_mem_cons.mpr ⟨hname, hnames⟩, ?_⟩
    rw [text_cons]
    rfl
  · rintro ⟨hne, hnames, rfl⟩
    cases names with
    | nil => exact absurd rfl hne
    | cons name rest =>
      obtain ⟨hname, hrest⟩ := List.forall_mem_cons.mp hnames
      rw [text_cons]
      exact .first hname ((spellsMore_iff _ _).mpr ⟨hrest, rfl⟩)

/-! ## The reader -/

/-- The names that the text of a pattern asks for. -/
def read? (text : Text) : Option (List Text) := do
  let inner ← between? "[" "] @scope" text
  readAlternatives? (inner.splitOn space)

/-- The reader reads the texts of the grammar, and nothing else. -/
theorem read?_eq_some_iff (text : Text) (names : List Text) :
    read? text = some names ↔ Spells text names := by
  rw [spells_iff, read?, Option.bind_eq_bind, Option.bind_eq_some_iff]
  simp only [between?_eq_some_iff, readAlternatives?_eq_some_iff, isKindName_iff]
  constructor
  · rintro ⟨inner, rfl, hnames, hsplit⟩
    refine ⟨?_, hnames, ?_⟩
    · rintro rfl
      exact List.splitOn_ne_nil space inner hsplit
    · have hinner : inner = Text.join " " (names.map alternative) := by
        rw [← hsplit]
        exact (List.intercalate_splitOn space).symm
      rw [hinner, Pattern.text]
      simp only [List.append_assoc]
      rfl
  · rintro ⟨hne, hnames, rfl⟩
    refine ⟨Text.join " " (names.map alternative), ?_, hnames, ?_⟩
    · rw [Pattern.text]
      simp only [List.append_assoc]
      rfl
    · exact splitOn_join hne fun name hname => (isKindName_iff name).mpr (hnames name hname)

/-! ## What is written -/

/-- The text of the pattern for some kinds, if there is one. -/
def written? (kinds : List Text) : Option Text := (ofKinds kinds).toOption.map text

theorem identifiers_eq_nil (kinds : List Text) :
    identifiers kinds = [] ↔ ∀ kind ∈ kinds, ¬ IsIdentifier kind := by
  rw [identifiers, List.filter_eq_nil_iff]
  simp only [decide_eq_true_eq]

/-- There is a pattern as soon as there is an identifier, and its text spells the identifiers. -/
theorem ofKinds_spells (kinds : List Text) :
    identifiers kinds = [] ∧ ofKinds kinds = .error (.noValidKinds kinds) ∨
      ∃ pattern, ofKinds kinds = .ok pattern ∧ Spells pattern.text (identifiers kinds) := by
  rcases ofKinds_cases kinds with ⟨hnames, hpattern⟩ | ⟨hnone, hfault⟩
  · rw [names_eq] at hnames hpattern
    refine .inr ⟨_, hpattern, (spells_iff _ _).mpr ⟨hnames, fun name hname => ?_, rfl⟩⟩
    simpa using List.of_mem_filter hname
  · rw [names_eq] at hnone
    exact .inl ⟨hnone, hfault⟩

/-- The identifiers are what is read from the text, and there are none where there is no text. -/
theorem identifiers_eq (kinds : List Text) :
    identifiers kinds = ((written? kinds).bind read?).getD [] := by
  rcases ofKinds_spells kinds with ⟨hnone, hfault⟩ | ⟨pattern, hpattern, hspells⟩
  · rw [written?, hfault, hnone]
    rfl
  · have hread : read? pattern.text = some (identifiers kinds) :=
      (read?_eq_some_iff _ _).mpr hspells
    have hwritten : written? kinds = some pattern.text := by
      rw [written?, hpattern]
      rfl
    rw [hwritten, Option.bind_some, hread, Option.getD_some]

/-- What is written depends on the identifiers alone. -/
theorem written?_eq (kinds : List Text) :
    written? kinds = if identifiers kinds = [] then none else some (mk (identifiers kinds)).text := by
  rcases ofKinds_spells kinds with ⟨hnone, hfault⟩ | ⟨pattern, hpattern, hspells⟩
  · rw [written?, hfault, if_pos hnone]
    rfl
  · obtain ⟨hne, -, htext⟩ := (spells_iff _ _).mp hspells
    rw [written?, hpattern, if_neg hne, ← htext]
    rfl

/-- **Patterns read back.** There is no pattern for some kinds exactly if no kind is an identifier.
Where there is one, its text is read by the grammar of patterns in one way and no other: as the
identifiers among the kinds, in order and as often as they occur. So the patterns for two lists of
kinds have the same text if and only if their identifiers are the same. -/
theorem ofKinds_reads_back (kinds : List Text) :
    ((∃ fault, ofKinds kinds = .error fault) ↔ ∀ kind ∈ kinds, ¬ IsIdentifier kind) ∧
    (∀ pattern, ofKinds kinds = .ok pattern →
      read? pattern.text = some (identifiers kinds) ∧
      ∀ names, Spells pattern.text names ↔ names = identifiers kinds) ∧
    ∀ others, written? kinds = written? others ↔ identifiers kinds = identifiers others := by
  refine ⟨?_, fun pattern hpattern => ?_, fun others => ⟨fun hsame => ?_, fun hsame => ?_⟩⟩
  · rw [← identifiers_eq_nil]
    rcases ofKinds_spells kinds with ⟨hnone, hfault⟩ | ⟨pattern, hpattern, hspells⟩
    · simp [hfault, hnone]
    · simp [hpattern, ((spells_iff _ _).mp hspells).1]
  · rcases ofKinds_spells kinds with ⟨-, hfault⟩ | ⟨found, hfound, hspells⟩
    · cases hfault.symm.trans hpattern
    · obtain rfl : found = pattern := Except.ok.inj (hfound.symm.trans hpattern)
      have hread : read? found.text = some (identifiers kinds) :=
        (read?_eq_some_iff _ _).mpr hspells
      refine ⟨hread, fun names => ?_⟩
      rw [← read?_eq_some_iff, hread, Option.some.injEq, eq_comm]
  · rw [identifiers_eq kinds, identifiers_eq others, hsame]
  · rw [written?_eq, written?_eq, hsame]

/-- Kinds that were made to break out of the pattern, a blank, a letter outside the basic alphabet, a
name that begins with a digit, and a name that is given twice. -/
theorem ofKinds_reads_back_past_injection :
    let kinds : List Text := ["fn", "a) @scope] (b", "", "é", "9a", "_x1", "fn", "fn\n"]
    let names : List Text := ["fn", "_x1", "fn"]
    let pattern : Pattern := ⟨names⟩
    ofKinds kinds = .ok pattern ∧ pattern.text = ("[(fn) (_x1) (fn)] @scope" : Text) ∧
      read? pattern.text = some names ∧ ∀ others, Spells pattern.text others ↔ others = names := by
  intro kinds names pattern
  have hpattern : ofKinds kinds = .ok pattern := by decide +kernel
  have hnames : identifiers kinds = names := by decide +kernel
  have hread := (ofKinds_reads_back kinds).2.1 pattern hpattern
  rw [hnames] at hread
  exact ⟨hpattern, by decide +kernel, hread⟩

end Pattern

end ClosingLabels
