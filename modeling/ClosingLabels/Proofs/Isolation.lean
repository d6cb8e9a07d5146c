import ClosingLabels.Proofs.Confinement
import Mathlib.Data.Rat.Defs
import Mathlib.Logic.Relator

/-!
# Each part of the settings by itself

Settings are read from a value place by place: a field, a part of the style, a row of a table. What
is found at one place decides about that part of the settings and about the warning for it, and
about nothing else. So a part is the given value where that is of the right shape, and what it would
be without one where it is not; and the warnings name the places at fault, each once, in the order
in which places are checked.
-/

namespace ClosingLabels

/-- The member of a value under any name, if it is an object and has it. -/
def Json.member? : Json → Text → Option Json
  | .object members, name => Table.find name members
  | _, _ => none

/-- The names of the members of a value. -/
def Json.names : Json → List Text
  | .object members => members.map Prod.fst
  | _ => []

namespace Settings

open Reader

/-! ## Places -/

/-- The parts of a style. -/
inductive StylePart where
  | color
  | fontStyle
  | fontWeight
  | margin
deriving DecidableEq, Repr

/-- The name under which a part of the style is given. -/
def StylePart.name : StylePart → String
  | color => "color"
  | fontStyle => "fontStyle"
  | fontWeight => "fontWeight"
  | margin => "margin"

/-- The part of a style. -/
def StylePart.of : StylePart → Style → Option Text
  | color, style => style.color
  | fontStyle, style => style.fontStyle
  | fontWeight, style => style.fontWeight
  | margin, style => style.margin

/-- The parts in the order in which they are checked. -/
def StylePart.all : List StylePart := [color, fontStyle, fontWeight, margin]

/-- The places of a value from which settings are read. -/
inductive Place where
  | minLines
  | marker
  | oneForEachAnchor
  | onByDefault
  | style
  | stylePart (part : StylePart)
  | targets
  | target (language : Text)
  | grammars
  | grammar (language : Text)
  | version
deriving DecidableEq, Repr

/-- What a value gives at a place. -/
def Place.given? (raw : Json) : Place → Option Json
  | minLines => raw.get? "minLines"
  | marker => raw.get? "overlayPrefix"
  | oneForEachAnchor => raw.get? "deduplicateAnchors"
  | onByDefault => raw.get? "enableByDefault"
  | style => raw.get? "style"
  | stylePart part => (raw.get? "style").bind (·.get? part.name)
  | targets => raw.get? "scopeTargets"
  | target language => (raw.get? "scopeTargets").bind (·.member? language)
  | grammars => raw.get? "grammars"
  | grammar language => (raw.get? "grammars").bind (·.member? language)
  | version => raw.get? "version"

/-- The rows that a value gives for a table. -/
def rowNames (given : Option Json) : List Text := (given.map Json.names).getD []

/-- The places of a value in the order in which they are checked: the fields in an order of their
own, and the rows of a table as the object lists them. -/
def places (raw : Json) : List Place :=
  [.minLines, .marker, .oneForEachAnchor, .onByDefault] ++
    (.style :: StylePart.all.map .stylePart) ++
    (.targets :: (rowNames (raw.get? "scopeTargets")).map .target) ++
    (.grammars :: (rowNames (raw.get? "grammars")).map .grammar) ++ [.version]

/-! ## Shapes -/

/-- A whole number that is not negative. -/
def IsHeight (value : Json) (height : Nat) : Prop := value = .number (.finite height)

/-- A string. -/
def IsText (value : Json) (text : Text) : Prop := value = .string text

/-- A truth value. -/
def IsFlag (value : Json) (flag : Bool) : Prop := value = .bool flag

/-- A list of strings. -/
def IsKinds (value : Json) (kinds : List Text) : Prop := value = .array (kinds.map Json.string)

/-- The name of a grammar file. -/
def IsGrammar (value : Json) (file : String) : Prop :=
  IsGrammarName file ∧ value = .string (Text.ofString file)

/-- An object. -/
def IsObject (value : Json) (members : List (Text × Json)) : Prop := value = .object members

/-- What may stand at a place. -/
def Place.Fits : Place → Json → Prop
  | minLines, value => ∃ height, IsHeight value height
  | marker, value => ∃ text, IsText value text
  | oneForEachAnchor, value => ∃ flag, IsFlag value flag
  | onByDefault, value => ∃ flag, IsFlag value flag
  | style, value => ∃ members, IsObject value members
  | stylePart _, value => ∃ text, IsText value text
  | targets, value => ∃ members, IsObject value members
  | target _, value => ∃ kinds, IsKinds value kinds
  | grammars, value => ∃ members, IsObject value members
  | grammar _, value => ∃ file, IsGrammar value file
  | version, value => ∃ text, IsText value text

/-- Something stands at the place that may not. -/
def Place.Faulty (raw : Json) (place : Place) : Prop :=
  ∃ value, place.given? raw = some value ∧ ¬ place.Fits value

/-- The warning about a place. There is none about the version. -/
def Place.warning? (raw : Json) : Place → Option Warning
  | minLines => (raw.get? "minLines").map .ignoredMinLines
  | marker => some .ignoredMarker
  | oneForEachAnchor => some (.ignoredFlag "deduplicateAnchors")
  | onByDefault => some (.ignoredFlag "enableByDefault")
  | style => some .ignoredStyle
  | stylePart part => some (.ignoredStylePart part.name)
  | targets => some .ignoredTargets
  | target language => some (.ignoredTarget language)
  | grammars => some .ignoredGrammars
  | grammar language => some (.ignoredGrammar language)
  | version => none

open Classical in
/-- The warnings about those of some places that are at fault, in the order of the places. -/
noncomputable def complaints (raw : Json) (places : List Place) : List Warning :=
  (places.filter fun place => place.Faulty raw).filterMap fun place => place.warning? raw

/-- A part of the settings is what is given for it, if that has the right shape, and is left as usual
if nothing of that shape is given. -/
structure Chosen {α : Type} (shape : Json → α → Prop) (given : Option Json)
    (usual result : Option α) : Prop where
  kept : ∀ value a, given = some value → shape value a → result = some a
  usual : (∀ value a, given = some value → ¬ shape value a) → result = usual

/-- What settings hold for a place is chosen from what stands there. A row is absent unless it is
given well, and there is none under the one name that a table cannot hold. -/
def Place.Chooses (raw : Json) (settings : Settings) : Place → Prop
  | minLines =>
    Chosen IsHeight (minLines.given? raw) (some standard.minLines) (some settings.minLines)
  | marker => Chosen IsText (marker.given? raw) (some standard.marker) (some settings.marker)
  | oneForEachAnchor => Chosen IsFlag (oneForEachAnchor.given? raw) (some standard.oneForEachAnchor)
      (some settings.oneForEachAnchor)
  | onByDefault => Chosen IsFlag (onByDefault.given? raw) (some standard.onByDefault)
      (some settings.onByDefault)
  | style => ¬ (∃ value members, style.given? raw = some value ∧ IsObject value members) →
      settings.style = standard.style
  | stylePart part => Chosen IsText ((stylePart part).given? raw) (part.of standard.style)
      (part.of settings.style)
  | targets => ¬ (∃ value members, targets.given? raw = some value ∧ IsObject value members) →
      settings.targets = .empty
  | target language =>
      if language = unheldName then settings.targets.get? language = none
      else Chosen IsKinds ((target language).given? raw) none (settings.targets.get? language)
  | grammars => ¬ (∃ value members, grammars.given? raw = some value ∧ IsObject value members) →
      settings.grammars = .empty
  | grammar language =>
      if language = unheldName then settings.grammars.get? language = none
      else Chosen IsGrammar ((grammar language).given? raw) none (settings.grammars.get? language)
  | version => Chosen IsText (version.given? raw) (some standard.version) (some settings.version)

/-- Two settings hold the same for a place. -/
def Place.Same (settings other : Settings) : Place → Prop
  | minLines => settings.minLines = other.minLines
  | marker => settings.marker = other.marker
  | oneForEachAnchor => settings.oneForEachAnchor = other.oneForEachAnchor
  | onByDefault => settings.onByDefault = other.onByDefault
  | style => settings.style = other.style
  | stylePart part => part.of settings.style = part.of other.style
  | targets => settings.targets = other.targets
  | target language => settings.targets.get? language = other.targets.get? language
  | grammars => settings.grammars = other.grammars
  | grammar language => settings.grammars.get? language = other.grammars.get? language
  | version => settings.version = other.version

/-! ## Reading one place -/

/-- How one place is read: nothing is given there, or something of the right shape, or something
else, which is warned about. -/
inductive Checked {α : Type} (shape : Json → α → Prop) (usual : Option α)
    (warning : Json → Option Warning) : Option Json → Option α → List Warning → Prop
  | absent : Checked shape usual warning none usual []
  | kept {value : Json} {a : α} (hshape : shape value a) :
      Checked shape usual warning (some value) (some a) []
  | ignored {value : Json} (hshape : ∀ a, ¬ shape value a) :
      Checked shape usual warning (some value) usual (warning value).toList

section

variable {α : Type} {shape : Json → α → Prop} {usual result : Option α}
  {warning : Json → Option Warning} {given : Option Json} {warnings : List Warning} {raw : Json}

/-- What is read at a place is chosen from what is given there, if a value is of the shape of one
thing at most. -/
theorem Checked.chosen (h : Checked shape usual warning given result warnings)
    (hone : Relator.RightUnique shape) : Chosen shape given usual result := by
  cases h with
  | absent =>
    constructor
    · intro value a hvalue
      cases hvalue
    · intro _
      rfl
  | kept hshape =>
    constructor
    · rintro value a ⟨rfl⟩ ha
      rw [hone ha hshape]
    · intro hnone
      exact absurd hshape (hnone _ _ rfl)
  | ignored hshape =>
    constructor
    · rintro value a ⟨rfl⟩ ha
      exact absurd ha (hshape a)
    · intro _
      rfl

theorem complaints_append (raw : Json) (places more : List Place) :
    complaints raw (places ++ more) = complaints raw places ++ complaints raw more := by
  rw [complaints, List.filter_append, List.filterMap_append]
  rfl

theorem complaints_cons (raw : Json) (place : Place) (places : List Place) :
    complaints raw (place :: places) = complaints raw [place] ++ complaints raw places :=
  complaints_append raw [place] places

theorem complaints_of_faulty {place : Place} (h : place.Faulty raw) :
    complaints raw [place] = (place.warning? raw).toList := by
  classical
  rw [complaints, List.filter_cons_of_pos (by simpa using h), List.filter_nil]
  cases hwarning : place.warning? raw <;> simp [hwarning]

/-- No place is at fault where nothing is given that may not stand there. -/
theorem complaints_of_fits {places : List Place}
    (h : ∀ place ∈ places, ∀ value, place.given? raw = some value → place.Fits value) :
    complaints raw places = [] := by
  classical
  rw [complaints, List.filter_eq_nil_iff.mpr]
  · rfl
  · intro place hplace hfaulty
    obtain ⟨value, hvalue, hfits⟩ := of_decide_eq_true hfaulty
    exact hfits (h place hplace value hvalue)

/-- The warnings that come of reading a place are those about it. -/
theorem Checked.complaints (h : Checked shape usual warning given result warnings) {place : Place}
    (hgiven : place.given? raw = given) (hfits : ∀ value, place.Fits value ↔ ∃ a, shape value a)
    (hwarning : ∀ value, given = some value → place.warning? raw = warning value) :
    complaints raw [place] = warnings := by
  cases h with
  | absent =>
    apply complaints_of_fits
    intro other hother value hvalue
    rw [List.mem_singleton.mp hother, hgiven] at hvalue
    cases hvalue
  | kept hshape =>
    apply complaints_of_fits
    intro other hother value hvalue
    obtain rfl := List.mem_singleton.mp hother
    obtain rfl := Option.some.inj (hgiven.symm.trans hvalue)
    exact (hfits _).mpr ⟨_, hshape⟩
  | ignored hshape =>
    rw [complaints_of_faulty ⟨_, hgiven, fun h => ?_⟩, hwarning _ rfl]
    obtain ⟨a, ha⟩ := (hfits _).mp h
    exact hshape a ha

end

/-! ## The fields -/

/-- A number is a whole one that is not negative if its whole value is. -/
theorem isHeight_iff (n : Number) (height : Nat) :
    IsHeight (.number n) height ↔ n.whole? = some (.ofNat height) := by
  rw [IsHeight, Json.number.injEq]
  cases n with
  | infinite negative => simp [Number.whole?]
  | finite value =>
    rw [Number.finite.injEq, Number.whole?]
    constructor
    · rintro rfl
      simp
    · intro h
      split at h
      · next hden =>
        have hnum : value.num = height := Option.some.inj h
        rw [← (Rat.den_eq_one_iff value).mp hden, hnum]
        rfl
      · cases h

theorem checked_minLines (given : Option Json) :
    Checked IsHeight (some standard.minLines) (fun value => some (.ignoredMinLines value)) given
      (some (Reader.minLines given).1) (Reader.minLines given).2 := by
  match given with
  | none => exact .absent
  | some (.number n) =>
    simp only [Reader.minLines]
    split
    · next k hwhole => exact .kept ((isHeight_iff n k).mpr hwhole)
    · next hwhole => exact .ignored fun k hk => hwhole k ((isHeight_iff n k).mp hk)
  | some .null | some (.bool _) | some (.string _) | some (.array _) | some (.object _) =>
    exact .ignored fun _ h => by cases h

theorem checked_marker (given : Option Json) :
    Checked IsText (some standard.marker) (fun _ => some .ignoredMarker) given
      (some (Reader.marker given).1) (Reader.marker given).2 := by
  match given with
  | none => exact .absent
  | some (.string _) => exact .kept rfl
  | some .null | some (.bool _) | some (.number _) | some (.array _) | some (.object _) =>
    exact .ignored fun _ h => by cases h

theorem checked_flag (name : String) (usual : Bool) (given : Option Json) :
    Checked IsFlag (some usual) (fun _ => some (.ignoredFlag name)) given
      (some (flag name usual given).1) (flag name usual given).2 := by
  match given with
  | none => exact .absent
  | some (.bool _) => exact .kept rfl
  | some .null | some (.string _) | some (.number _) | some (.array _) | some (.object _) =>
    exact .ignored fun _ h => by cases h

theorem checked_stylePart (name : String) (usual : Option Text) (given : Option Json) :
    Checked IsText usual (fun _ => some (.ignoredStylePart name)) given
      (stylePart name usual given).1 (stylePart name usual given).2 := by
  match given with
  | none => exact .absent
  | some (.string _) => exact .kept rfl
  | some .null | some (.bool _) | some (.number _) | some (.array _) | some (.object _) =>
    exact .ignored fun _ h => by cases h

theorem checked_version (given : Option Json) :
    Checked IsText (some standard.version) (fun _ => none) given
      (some (Reader.version given)) [] := by
  match given with
  | none => exact .absent
  | some (.string _) => exact .kept rfl
  | some .null | some (.bool _) | some (.number _) | some (.array _) | some (.object _) =>
    exact .ignored fun _ h => by cases h

/-! ## Grammar files -/

/-- The characters of a grammar name are in the first half of a byte. -/
theorem fileChar_lt {c : Char} (hc : c.isAlphanum ∨ c = '_' ∨ c = '.' ∨ c = '-') :
    c.toNat < 128 := by
  rcases hc with h | rfl | rfl | rfl
  · delta Char.isAlphanum Char.isAlpha Char.isUpper Char.isLower Char.isDigit at h
    simp only [Bool.or_eq_true, Bool.and_eq_true, decide_eq_true_eq, ge_iff_le,
      UInt32.le_iff_toNat_le, Char.reduceVal, UInt32.reduceToNat, Char.toNat_val] at h
    omega
  · decide
  · decide
  · decide

/-- The characters of a grammar name are one unit each. -/
theorem unit_of_fileChar {c : Char} (hc : c.isAlphanum ∨ c = '_' ∨ c = '.' ∨ c = '-') :
    Text.ofChar c = [UInt16.ofNat c.toNat] ∧ isFileUnit (UInt16.ofNat c.toNat) = true ∧
      Char.ofNat (UInt16.ofNat c.toNat).toNat = c := by
  have hcheck : ∀ n < 128, (Char.ofNat n).isAlphanum = true ∨ Char.ofNat n = '_' ∨
      Char.ofNat n = '.' ∨ Char.ofNat n = '-' → isFileUnit (UInt16.ofNat n) = true := by
    decide +kernel
  have hlt := fileChar_lt hc
  refine ⟨?_, ?_, ?_⟩
  · rw [Text.ofChar, if_pos (by omega)]
  · apply hcheck c.toNat hlt
    rwa [Char.ofNat_toNat]
  · rw [UInt16.toNat_ofNat', Nat.mod_eq_of_lt (by omega), Char.ofNat_toNat]

/-- The name of a grammar file is accepted as it is written. -/
theorem isGrammarFile_ofString {file : String} (h : IsGrammarName file) :
    isGrammarFile (Text.ofString file) = true ∧ (Text.ofString file).toString = file := by
  have hunits : Text.ofString file = file.toList.map fun c => UInt16.ofNat c.toNat := by
    rw [Text.ofString, List.map_eq_flatMap]
    exact List.flatMap_congr fun c hc => (unit_of_fileChar (h.chars c hc)).1
  have hall : ∀ u ∈ Text.ofString file, isFileUnit u = true := by
    intro u hu
    rw [hunits] at hu
    obtain ⟨c, hc, rfl⟩ := List.mem_map.mp hu
    exact (unit_of_fileChar (h.chars c hc)).2.1
  constructor
  · obtain ⟨stem, hstem, hfile⟩ := h.ending
    have hsplit : Text.ofString file = Text.ofString stem ++ grammarEnding := by
      rw [hfile, Text.ofString, String.toList_append, List.flatMap_append]
      rfl
    have hlength : 5 < (Text.ofString file).length := by
      have hpositive : 0 < stem.toList.length := by
        rw [List.length_pos_iff]
        exact fun hnil => hstem (String.toList_eq_nil_iff.mp hnil)
      have hfive : ".wasm".toList.length = 5 := rfl
      rw [hunits, List.length_map, hfile, String.toList_append, List.length_append]
      omega
    rw [isGrammarFile, Bool.and_eq_true, Bool.and_eq_true, List.all_eq_true,
      List.isSuffixOf_iff_suffix, decide_eq_true_eq]
    exact ⟨⟨hall, Text.ofString stem, hsplit.symm⟩, hlength⟩
  · rw [← String.toList_inj, Text.toList_toString fun u hu => (fileUnit_shown (hall u hu)).1,
      hunits, List.map_map]
    exact (List.map_congr_left fun c hc => (unit_of_fileChar (h.chars c hc)).2.2).trans
      (List.map_id _)

/-- The reader of file names accepts the names of grammar files, and nothing else. -/
theorem grammarFile?_eq_some_iff (value : Json) (file : String) :
    grammarFile? value = some file ↔ IsGrammar value file := by
  constructor
  · intro h
    have hname := isGrammarName_of_grammarFile? h
    unfold grammarFile? at h
    split at h
    · split at h
      · next hfile =>
        obtain rfl := Option.some.inj h
        exact ⟨hname, by rw [ofString_grammarFile hfile]⟩
      · cases h
    · cases h
  · rintro ⟨hname, rfl⟩
    obtain ⟨haccepted, hshown⟩ := isGrammarFile_ofString hname
    rw [grammarFile?, if_pos haccepted, hshown]

theorem kinds?_eq_some_iff (value : Json) (kinds : List Text) :
    kinds? value = some kinds ↔ IsKinds value kinds := by
  constructor
  · intro h
    unfold kinds? at h
    split at h
    · next items =>
      rw [IsKinds, Json.array.injEq]
      induction items generalizing kinds with
      | nil =>
        obtain rfl : [] = kinds := Option.some.inj h
        rfl
      | cons item rest ih =>
        cases item with
        | string s =>
          obtain ⟨more, hmore, rfl⟩ := Option.map_eq_some_iff.mp h
          rw [ih more hmore, List.map_cons]
        | _ => cases h
    · cases h
  · rintro rfl
    exact kinds?_strings kinds

/-! ## Rows -/

/-- A row is there if what is given under its name is accepted, unless no table can hold it. -/
theorem find_rows {α : Type} (read : Json → Option α) (warning : Text → Warning)
    {members : List (Text × Json)} (hnames : (members.map Prod.fst).Nodup) (key : Text) :
    Table.find key (rows read warning members).1 =
      if key = unheldName then none else (Table.find key members).bind read := by
  induction members with
  | nil => simp [rows, Table.find]
  | cons member rest ih =>
    obtain ⟨name, value⟩ := member
    obtain ⟨hnew, hrest⟩ := List.nodup_cons.mp hnames
    have hlater := ih hrest
    by_cases hname : name = key
    · obtain rfl := hname
      rw [Table.find_eq_none hnew] at hlater
      rw [Table.find, if_pos rfl]
      cases hread : read value with
      | none =>
        simp only [rows, hread]
        simpa [hread] using hlater
      | some a =>
        simp only [rows, hread]
        by_cases hunheld : name = unheldName
        · simpa [hunheld] using hlater
        · simp [hunheld, hread, Table.find]
    · rw [Table.find, if_neg hname]
      cases hread : read value with
      | none =>
        simp only [rows, hread]
        exact hlater
      | some a =>
        simp only [rows, hread]
        split
        · exact hlater
        · rw [Table.find, if_neg hname]
          exact hlater

/-- The warnings about rows are those about their places. -/
theorem complaints_rows {α : Type} {read : Json → Option α} {warning : Text → Warning} {raw : Json}
    {place : Text → Place} {members : List (Text × Json)}
    (hgiven : ∀ member ∈ members, (place member.1).given? raw = some member.2)
    (hfits : ∀ name value, (place name).Fits value ↔ ∃ a, read value = some a)
    (hwarning : ∀ name, (place name).warning? raw = some (warning name)) :
    complaints raw ((members.map Prod.fst).map place) = (rows read warning members).2 := by
  induction members with
  | nil => rfl
  | cons member rest ih =>
    obtain ⟨name, value⟩ := member
    have hhere := hgiven _ List.mem_cons_self
    rw [List.map_cons, List.map_cons, complaints_cons,
      ih fun other hother => hgiven other (List.mem_cons_of_mem _ hother)]
    cases hread : read value with
    | none =>
      simp only [rows, hread]
      rw [complaints_of_faulty ⟨value, hhere, fun hfit => ?_⟩, hwarning]
      · rfl
      · obtain ⟨a, ha⟩ := (hfits name value).mp hfit
        exact absurd (hread.symm.trans ha) (by simp)
    | some a =>
      simp only [rows, hread]
      rw [complaints_of_fits, List.nil_append]
      intro other hother given hvalue
      obtain rfl := List.mem_singleton.mp hother
      obtain rfl := Option.some.inj (hhere.symm.trans hvalue)
      exact (hfits name value).mpr ⟨a, hread⟩

/-! ## Tables and the style -/

/-- A row of a table is read from what is given under its name. -/
theorem get?_table {fits : Number → Prop} {α : Type} (read : Json → Option α)
    (warning : Text → Warning) (whole : Warning) {given : Option Json}
    (hgiven : ∀ value ∈ given, Json.Sound fits value) (key : Text) :
    (table read warning whole given).1.get? key =
      if key = unheldName then none else (given.bind (·.member? key)).bind read := by
  match given with
  | none => simp [table]
  | some (.object members) =>
    cases hgiven _ rfl with
    | object hnames _ _ => exact find_rows read warning hnames key
  | some .null | some (.bool _) | some (.string _) | some (.number _) | some (.array _) =>
    simp [table, Json.member?]

/-- So it is chosen from what is given there, unless no table can hold it. -/
theorem chosen_table {fits : Number → Prop} {α : Type} {shape : Json → α → Prop}
    {read : Json → Option α} (hread : ∀ value a, read value = some a ↔ shape value a)
    (warning : Text → Warning) (whole : Warning) {given : Option Json}
    (hgiven : ∀ value ∈ given, Json.Sound fits value) (key : Text) :
    if key = unheldName then (table read warning whole given).1.get? key = none
    else Chosen shape (given.bind (·.member? key)) none
      ((table read warning whole given).1.get? key) := by
  rw [get?_table read warning whole hgiven key]
  split
  · rfl
  · constructor
    · intro value a hvalue ha
      rw [hvalue]
      exact (hread value a).mpr ha
    · intro hnone
      rw [Option.bind_eq_none_iff]
      intro value hvalue
      rw [Option.eq_none_iff_forall_ne_some]
      intro a ha
      exact hnone value a hvalue ((hread value a).mp ha)

/-- The warnings about a table and its rows are those about their places. -/
theorem complaints_table {fits : Number → Prop} {α : Type} {shape : Json → α → Prop}
    {read : Json → Option α} (hread : ∀ value a, read value = some a ↔ shape value a)
    {warning : Text → Warning} {whole : Warning} {given : Option Json}
    (hgiven : ∀ value ∈ given, Json.Sound fits value) {raw : Json} {entire : Place}
    {place : Text → Place} (hentire : entire.given? raw = given)
    (hobject : ∀ value, entire.Fits value ↔ ∃ members, IsObject value members)
    (hwhole : entire.warning? raw = some whole)
    (hrow : ∀ name, (place name).given? raw = given.bind (·.member? name))
    (hfits : ∀ name value, (place name).Fits value ↔ ∃ a, shape value a)
    (hwarning : ∀ name, (place name).warning? raw = some (warning name)) :
    complaints raw (entire :: (rowNames given).map place) =
      (table read warning whole given).2 := by
  have hfaulty {value : Json} (hvalue : given = some value)
      (hnot : ∀ members, value ≠ .object members) : complaints raw [entire] = [whole] := by
    rw [complaints_of_faulty ⟨value, hentire.trans hvalue, fun h => ?_⟩, hwhole]
    · rfl
    · obtain ⟨members, hmembers⟩ := (hobject value).mp h
      exact hnot members hmembers
  match given with
  | none =>
    apply complaints_of_fits
    intro other hother value hvalue
    rw [List.mem_singleton.mp hother, hentire] at hvalue
    cases hvalue
  | some (.object members) =>
    cases hgiven _ rfl with
    | object hnames _ _ =>
      have hplaces : ∀ member ∈ members, (place member.1).given? raw = some member.2 := by
        intro member hmember
        rw [hrow]
        exact (@Table.mem_rows_iff _ _ _ ⟨members⟩ hnames member.1 member.2).mp hmember
      have hfits (name : Text) (value : Json) :
          (place name).Fits value ↔ ∃ a, read value = some a :=
        (hfits name value).trans (exists_congr fun a => (hread value a).symm)
      rw [complaints_cons, complaints_of_fits]
      · exact complaints_rows hplaces hfits hwarning
      · intro other hother value hvalue
        rw [List.mem_singleton.mp hother] at hvalue ⊢
        exact (hobject value).mpr ⟨members, Option.some.inj (hvalue.symm.trans hentire)⟩
  | some .null | some (.bool _) | some (.string _) | some (.number _) | some (.array _) =>
    exact hfaulty rfl fun _ h => by cases h

/-- A part of the style is read from its own place. -/
theorem of_style (part : StylePart) (given : Option Json) :
    part.of (Reader.style given).1 = (Reader.stylePart part.name (part.of standard.style)
      (given.bind (·.get? part.name))).1 := by
  match given with
  | none => cases part <;> rfl
  | some (.object _) => cases part <;> rfl
  | some .null | some (.bool _) | some (.string _) | some (.number _) | some (.array _) =>
    cases part <;> rfl

/-- The warnings about the style are those about it and its parts. -/
theorem complaints_style (raw : Json) :
    complaints raw (.style :: StylePart.all.map .stylePart) =
      (Reader.style (raw.get? "style")).2 := by
  have hpart (part : StylePart) : complaints raw [.stylePart part] =
      (Reader.stylePart part.name (part.of standard.style)
        ((raw.get? "style").bind (·.get? part.name))).2 :=
    (checked_stylePart part.name _ _).complaints rfl (fun _ => Iff.rfl) fun _ _ => rfl
  have hsplit : complaints raw (.style :: StylePart.all.map .stylePart) =
      complaints raw [.style] ++ (complaints raw [.stylePart .color] ++
        (complaints raw [.stylePart .fontStyle] ++ (complaints raw [.stylePart .fontWeight] ++
          complaints raw [.stylePart .margin]))) := by
    rw [StylePart.all, List.map_cons, List.map_cons, List.map_cons, List.map_singleton,
      complaints_cons raw .style, complaints_cons raw (.stylePart .color),
      complaints_cons raw (.stylePart .fontStyle), complaints_cons raw (.stylePart .fontWeight)]
  rw [hsplit, hpart, hpart, hpart, hpart]
  have hgiven : Place.style.given? raw = raw.get? "style" := rfl
  match hraw : raw.get? "style" with
  | none =>
    rw [complaints_of_fits]
    · rfl
    · intro other hother value hvalue
      rw [List.mem_singleton.mp hother, hgiven, hraw] at hvalue
      cases hvalue
  | some (.object members) =>
    rw [complaints_of_fits]
    · simp [Reader.style, StylePart.name, StylePart.of, Json.get?]
    · intro other hother value hvalue
      rw [List.mem_singleton.mp hother] at hvalue ⊢
      exact ⟨members, Option.some.inj (hvalue.symm.trans (hgiven.trans hraw))⟩
  | some .null | some (.bool _) | some (.string _) | some (.number _) | some (.array _) =>
    rw [complaints_of_faulty ⟨_, hgiven.trans hraw, fun h => by obtain ⟨_, h⟩ := h; cases h⟩]
    rfl

/-! ## All of the settings -/

/-- Every part of the settings is read from its own member. -/
theorem ofJson_settings (raw : Json) : (ofJson raw).1 =
    { minLines := (Reader.minLines (raw.get? "minLines")).1
      marker := (Reader.marker (raw.get? "overlayPrefix")).1
      style := (Reader.style (raw.get? "style")).1
      oneForEachAnchor := (flag "deduplicateAnchors" standard.oneForEachAnchor
        (raw.get? "deduplicateAnchors")).1
      onByDefault := (flag "enableByDefault" standard.onByDefault (raw.get? "enableByDefault")).1
      targets := (table kinds? .ignoredTarget .ignoredTargets (raw.get? "scopeTargets")).1
      grammars := (table grammarFile? .ignoredGrammar .ignoredGrammars (raw.get? "grammars")).1
      version := Reader.version (raw.get? "version") } := by
  cases raw <;> rfl

/-- What a sound value gives under a name is sound. -/
theorem sound_of_get? {fits : Number → Prop} {raw value : Json} (h : raw.Sound fits) {name : String}
    (hvalue : raw.get? name = some value) : value.Sound fits := by
  cases h with
  | @object members _ _ hmembers =>
    exact hmembers _ (@Table.mem_rows_of_get? _ _ _ ⟨members⟩ _ _ hvalue)
  | _ => cases hvalue

/-- The settings read from a value are chosen place by place. -/
theorem ofJson_chooses {raw : Json} {fits : Number → Prop} (hraw : raw.Sound fits) (place : Place) :
    place.Chooses raw (ofJson raw).1 := by
  have htext : Relator.RightUnique IsText := by
    rintro value text other rfl h
    cases h
    rfl
  have hflag : Relator.RightUnique IsFlag := by
    rintro value flag other rfl h
    cases h
    rfl
  have hheight : Relator.RightUnique IsHeight := by
    rintro value height other rfl h
    rw [IsHeight, Json.number.injEq, Number.finite.injEq] at h
    exact_mod_cast h
  have hsound (name : String) : ∀ value ∈ raw.get? name, value.Sound fits :=
    fun value hvalue => sound_of_get? hraw hvalue
  rw [ofJson_settings]
  cases place with
  | minLines => exact (checked_minLines _).chosen hheight
  | marker => exact (checked_marker _).chosen htext
  | oneForEachAnchor => exact (checked_flag _ _ _).chosen hflag
  | onByDefault => exact (checked_flag _ _ _).chosen hflag
  | version => exact (checked_version _).chosen htext
  | stylePart part =>
    rw [Place.Chooses, of_style]
    exact (checked_stylePart _ _ _).chosen htext
  | target language => exact chosen_table kinds?_eq_some_iff _ _ (hsound _) language
  | grammar language => exact chosen_table grammarFile?_eq_some_iff _ _ (hsound _) language
  | style =>
    intro hnot
    match hgiven : raw.get? "style" with
    | none => rfl
    | some (.object members) => exact absurd ⟨_, members, hgiven, rfl⟩ hnot
    | some .null | some (.bool _) | some (.string _) | some (.number _) | some (.array _) => rfl
  | targets =>
    intro hnot
    match hgiven : raw.get? "scopeTargets" with
    | none => rfl
    | some (.object members) => exact absurd ⟨_, members, hgiven, rfl⟩ hnot
    | some .null | some (.bool _) | some (.string _) | some (.number _) | some (.array _) => rfl
  | grammars =>
    intro hnot
    match hgiven : raw.get? "grammars" with
    | none => rfl
    | some (.object members) => exact absurd ⟨_, members, hgiven, rfl⟩ hnot
    | some .null | some (.bool _) | some (.string _) | some (.number _) | some (.array _) => rfl

/-- Values that give the same at a place are read alike there, whatever else they hold. -/
theorem ofJson_same {raw other : Json} {fits : Number → Prop} (hraw : raw.Sound fits)
    (hother : other.Sound fits) {place : Place} (h : place.given? raw = place.given? other) :
    place.Same (ofJson raw).1 (ofJson other).1 := by
  have hsound {raw : Json} (hraw : raw.Sound fits) (name : String) :
      ∀ value ∈ raw.get? name, value.Sound fits := fun value hvalue => sound_of_get? hraw hvalue
  rw [ofJson_settings raw, ofJson_settings other]
  cases place with
  | minLines => exact congrArg (fun given => (Reader.minLines given).1) h
  | marker => exact congrArg (fun given => (Reader.marker given).1) h
  | oneForEachAnchor => exact congrArg (fun given => (flag _ _ given).1) h
  | onByDefault => exact congrArg (fun given => (flag _ _ given).1) h
  | version => exact congrArg Reader.version h
  | style => exact congrArg (fun given => (Reader.style given).1) h
  | targets => exact congrArg (fun given => (table _ _ _ given).1) h
  | grammars => exact congrArg (fun given => (table _ _ _ given).1) h
  | stylePart part =>
    rw [Place.given?, Place.given?] at h
    rw [Place.Same, of_style, of_style, h]
  | target language =>
    rw [Place.given?, Place.given?] at h
    simp only [Place.Same]
    rw [get?_table _ _ _ (hsound hraw _), get?_table _ _ _ (hsound hother _), h]
  | grammar language =>
    rw [Place.given?, Place.given?] at h
    simp only [Place.Same]
    rw [get?_table _ _ _ (hsound hraw _), get?_table _ _ _ (hsound hother _), h]

/-- The warnings about the members of an object are those about its places. -/
theorem ofJson_complaints {members : List (Text × Json)} {fits : Number → Prop}
    (hraw : (Json.object members).Sound fits) :
    (ofJson (.object members)).2 = complaints (.object members) (places (.object members)) := by
  let raw : Json := .object members
  have hsound (name : String) : ∀ value ∈ raw.get? name, value.Sound fits :=
    fun value hvalue => sound_of_get? hraw hvalue
  have hheight : complaints raw [.minLines] = (Reader.minLines (raw.get? "minLines")).2 :=
    (checked_minLines _).complaints rfl (fun _ => Iff.rfl) fun value hvalue =>
      congrArg (Option.map Warning.ignoredMinLines) hvalue
  have hmarker : complaints raw [.marker] = (Reader.marker (raw.get? "overlayPrefix")).2 :=
    (checked_marker _).complaints rfl (fun _ => Iff.rfl) fun _ _ => rfl
  have hone : complaints raw [.oneForEachAnchor] = (flag "deduplicateAnchors"
      standard.oneForEachAnchor (raw.get? "deduplicateAnchors")).2 :=
    (checked_flag _ _ _).complaints rfl (fun _ => Iff.rfl) fun _ _ => rfl
  have hon : complaints raw [.onByDefault] =
      (flag "enableByDefault" standard.onByDefault (raw.get? "enableByDefault")).2 :=
    (checked_flag _ _ _).complaints rfl (fun _ => Iff.rfl) fun _ _ => rfl
  have htargets : complaints raw (.targets :: (rowNames (raw.get? "scopeTargets")).map .target) =
      (table kinds? .ignoredTarget .ignoredTargets (raw.get? "scopeTargets")).2 :=
    complaints_table kinds?_eq_some_iff (hsound _) rfl (fun _ => Iff.rfl) rfl (fun _ => rfl)
      (fun _ _ => Iff.rfl) fun _ => rfl
  have hgrammars : complaints raw (.grammars :: (rowNames (raw.get? "grammars")).map .grammar) =
      (table grammarFile? .ignoredGrammar .ignoredGrammars (raw.get? "grammars")).2 :=
    complaints_table grammarFile?_eq_some_iff (hsound _) rfl (fun _ => Iff.rfl) rfl (fun _ => rfl)
      (fun _ _ => Iff.rfl) fun _ => rfl
  have hversion : complaints raw [.version] = [] :=
    (checked_version _).complaints rfl (fun _ => Iff.rfl) fun _ _ => rfl
  change _ = complaints raw (places raw)
  rw [places, complaints_append, complaints_append, complaints_append, complaints_append,
    complaints_cons raw .minLines, complaints_cons raw .marker,
    complaints_cons raw .oneForEachAnchor, hheight, hmarker, hone, hon, complaints_style, htargets,
    hgrammars, hversion]
  simp [ofJson, ofMembers, raw, Json.get?]

/-- The rows of a table of a sound value are listed as in an object. -/
theorem listed_rowNames {raw : Json} {fits : Number → Prop} (hraw : raw.Sound fits)
    (name : String) : Listed (rowNames (raw.get? name)) := by
  have hempty : Listed [] := ⟨List.nodup_nil, .nil⟩
  cases hgiven : raw.get? name with
  | none => exact hempty
  | some value =>
    cases sound_of_get? hraw hgiven with
    | object hnames horder _ => exact ⟨hnames, List.pairwise_map.mpr horder⟩
    | _ => exact hempty

/-- The places of a sound value are checked once each. -/
theorem nodup_places {raw : Json} {fits : Number → Prop} (hraw : raw.Sound fits) :
    (places raw).Nodup := by
  have htargets : ((rowNames (raw.get? "scopeTargets")).map Place.target).Nodup :=
    (listed_rowNames hraw _).once.map fun _ _ h => Place.target.inj h
  have hgrammars : ((rowNames (raw.get? "grammars")).map Place.grammar).Nodup :=
    (listed_rowNames hraw _).once.map fun _ _ h => Place.grammar.inj h
  have hapart (name : Text) (place : Place)
      (h : (∃ row ∈ rowNames (raw.get? "grammars"), Place.grammar row = place) ∨ place = .version) :
      ¬ Place.target name = place := by
    rcases h with ⟨row, -, rfl⟩ | rfl <;> simp
  simpa [places, StylePart.all, List.nodup_append, htargets, hgrammars]
    using fun name _ place => hapart name place

/-- What a value gives stands under one of its names. -/
theorem mem_rowNames {given : Option Json} {name : Text} {value : Json}
    (h : given.bind (·.member? name) = some value) : name ∈ rowNames given := by
  match given with
  | some (.object members) =>
    exact List.mem_map_of_mem (@Table.mem_rows_of_get? _ _ _ ⟨members⟩ _ _ h)

/-- Whatever is given stands at a place that is checked. -/
theorem mem_places {raw value : Json} {place : Place} (h : place.given? raw = some value) :
    place ∈ places raw := by
  cases place with
  | target language => simp [places, mem_rowNames h]
  | grammar language => simp [places, mem_rowNames h]
  | stylePart part => cases part <;> simp [places, StylePart.all]
  | _ => simp [places]

/-- Settings are read from any value, and they are well formed. What they hold for a place is chosen
from what is given there, and depends on nothing else. The warnings about an object are those about
the places at fault, each of which is checked once, tables row by row in the order in which objects
list them; what is not an object gives the standard settings and one warning. -/
theorem ofJson_isolated {raw other : Json} (hraw : raw.Sound fun _ => True)
    (hother : other.Sound fun _ => True) :
    ((ofJson raw).1.WellFormed ∧ ∀ row ∈ (ofJson raw).1.grammars.rows, IsGrammarName row.2) ∧
    (∀ place : Place, place.Chooses raw (ofJson raw).1) ∧
    (∀ place : Place, place.given? raw = place.given? other →
      place.Same (ofJson raw).1 (ofJson other).1) ∧
    (∀ members, raw = .object members →
      (ofJson raw).2 = complaints raw (places raw) ∧ (places raw).Nodup ∧
      (∀ place : Place, place.Faulty raw → place ∈ places raw) ∧
      Listed (rowNames (raw.get? "scopeTargets")) ∧ Listed (rowNames (raw.get? "grammars"))) ∧
    ((∀ members, raw ≠ .object members) → ofJson raw = (standard, [.settingsNotObject])) := by
  refine ⟨⟨ofJson_wellFormed raw, ?_⟩, ofJson_chooses hraw, fun _ => ofJson_same hraw hother, ?_,
    ?_⟩
  · intro row hrow
    exact isGrammarName_of_grammarFile? ((ofJson_wellFormed raw).grammars row hrow).2
  · rintro members rfl
    refine ⟨ofJson_complaints hraw, nodup_places hraw, ?_, listed_rowNames hraw _,
      listed_rowNames hraw _⟩
    rintro place ⟨value, hvalue, -⟩
    exact mem_places hvalue
  · intro hnot
    cases raw with
    | object members => exact absurd rfl (hnot members)
    | _ => rfl

/-- Two objects that share one row among fields, parts and rows of the wrong shape. -/
theorem ofJson_isolated_with_one_good_row :
    let raw : Json := .object [("minLines", .number (.finite (-1))),
      ("style", .object [("color", .null), ("margin", .string "0 1ch")]),
      ("scopeTargets", .object [("7", .array [.string "block"]), ("go", .array [.null]),
        ("__proto__", .array [.string "lost"])]),
      ("version", .bool true), ("other", .null)]
    let other : Json := .object [("scopeTargets", .object [("7", .array [.string "block"])]),
      ("grammars", .string "no table")]
    Place.Same (ofJson raw).1 (ofJson other).1 (.target "7") ∧
      Place.Chooses raw (ofJson raw).1 (.target "7") ∧
      (ofJson raw).2 = complaints raw (places raw) ∧
      (ofJson raw).2 = [.ignoredMinLines (.number (.finite (-1))), .ignoredStylePart "color",
        .ignoredTarget "go"] := by
  intro raw other
  have hraw : raw.Sound fun _ => True := by
    refine .object (by decide +kernel) (by decide +kernel) ?_
    simp only [List.forall_mem_cons, List.not_mem_nil, false_implies, implies_true, and_true]
    refine ⟨.number trivial, .object (by decide +kernel) (by decide +kernel) ?_,
      .object (by decide +kernel) (by decide +kernel) ?_, .bool true, .null⟩
    · simp only [List.forall_mem_cons, List.not_mem_nil, false_implies, implies_true, and_true]
      exact ⟨.null, .string _⟩
    · simp only [List.forall_mem_cons, List.not_mem_nil, false_implies, implies_true, and_true]
      exact ⟨.array (by simpa using Json.Sound.string _), .array (by simpa using Json.Sound.null),
        .array (by simpa using Json.Sound.string _)⟩
  have hother : other.Sound fun _ => True := by
    refine .object (by decide +kernel) (by decide +kernel) ?_
    simp only [List.forall_mem_cons, List.not_mem_nil, false_implies, implies_true, and_true]
    refine ⟨.object (by decide +kernel) (by decide +kernel) ?_, .string _⟩
    simpa using Json.Sound.array (by simpa using Json.Sound.string _)
  obtain ⟨-, hchosen, hsame, hwarnings, -⟩ := ofJson_isolated hraw hother
  exact ⟨hsame (.target "7") rfl, hchosen (.target "7"), (hwarnings _ rfl).1, rfl⟩

end Settings

end ClosingLabels
