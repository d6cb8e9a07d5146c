import ClosingLabels.Proofs.Reading
import ClosingLabels.Settings.Printer
import ClosingLabels.Settings.Reader

/-!
# Settings read back

Settings that were read from some value are well formed: the color and the slant of labels are
set, tables hold no row that no table can hold, and every grammar is a bare file name. Well-formed
settings are read back from what is written for them, and without a warning.
-/

namespace ClosingLabels

namespace Settings

open Reader

/-! ## Rows -/

/-- A file name of a grammar is spelled as it is written. -/
theorem ofString_grammarFile {name : Text} (h : isGrammarFile name = true) :
    Text.ofString name.toString = name := by
  rw [isGrammarFile, Bool.and_eq_true, Bool.and_eq_true, List.all_eq_true] at h
  refine Text.ofString_toString fun u hu => ?_
  have hunit := h.1.1 u hu
  have hsmall : u.toNat < 0x80 := by
    simp only [isFileUnit, Text.isWord, Text.isDigit, Bool.or_eq_true, Bool.and_eq_true,
      decide_eq_true_eq, beq_iff_eq, ← UInt16.toNat_inj, UInt16.reduceToNat] at hunit
    omega
  constructor
  · rw [← Bool.not_eq_true, Text.isHigh_iff]
    omega
  · rw [← Bool.not_eq_true, Text.isLow_iff]
    omega

/-- A list of kinds reads back. -/
theorem kinds?_strings (kinds : List Text) : kinds? (.array (kinds.map Json.string)) = some kinds := by
  induction kinds with
  | nil => rfl
  | cons kind rest ih =>
    rw [kinds?] at ih
    rw [kinds?, List.map_cons, strings?, ih]
    rfl

/-- Rows whose values read back are read back without a warning. -/
theorem rows_readBack {α : Type} {read : Json → Option α} (write : α → Json)
    {warning : Text → Warning} {list : List (Text × α)}
    (hread : ∀ row ∈ list, row.1 ≠ unheldName ∧ read (write row.2) = some row.2) :
    rows read warning (list.map fun row => (row.1, write row.2)) = (list, []) := by
  induction list with
  | nil => rfl
  | cons row rest ih =>
    obtain ⟨hname, hvalue⟩ := hread row List.mem_cons_self
    rw [List.map_cons, rows, ih fun other hother => hread other (List.mem_cons_of_mem row hother)]
    simp only [hvalue, if_neg hname]

/-- A table whose rows read back is read back without a warning. -/
theorem table_readBack {α : Type} {read : Json → Option α} (write : α → Json)
    {warning : Text → Warning} {whole : Warning} {rows : Table Text α}
    (hread : ∀ row ∈ rows.rows, row.1 ≠ unheldName ∧ read (write row.2) = some row.2) :
    table read warning whole (some (.object (rows.rows.map fun row => (row.1, write row.2)))) =
      (rows, []) := by
  rw [table, rows_readBack write hread]

/-- Every row that is kept was read from some member of the same name. -/
theorem mem_rows {α : Type} {read : Json → Option α} {warning : Text → Warning}
    {members : List (Text × Json)} {row : Text × α}
    (h : row ∈ (rows read warning members).1) :
    row.1 ≠ unheldName ∧ ∃ member ∈ members, member.1 = row.1 ∧ read member.2 = some row.2 := by
  induction members with
  | nil => cases h
  | cons member rest ih =>
    obtain ⟨name, value⟩ := member
    have hlater (h : row ∈ (rows read warning rest).1) :
        row.1 ≠ unheldName ∧ ∃ member ∈ (name, value) :: rest, member.1 = row.1 ∧
          read member.2 = some row.2 := by
      obtain ⟨hname, member, hmem, hrow⟩ := ih h
      exact ⟨hname, member, List.mem_cons_of_mem _ hmem, hrow⟩
    cases hread : read value with
    | none =>
      simp only [rows, hread] at h
      exact hlater h
    | some a =>
      simp only [rows, hread] at h
      split at h
      · exact hlater h
      · rcases List.mem_cons.mp h with rfl | h
        · exact ⟨‹_›, _, List.mem_cons_self, rfl, hread⟩
        · exact hlater h

/-- The names of the rows that are kept are some of those that are there, in their order. -/
theorem rows_sublist {α : Type} (read : Json → Option α) (warning : Text → Warning)
    (members : List (Text × Json)) :
    ((rows read warning members).1.map Prod.fst).Sublist (members.map Prod.fst) := by
  induction members with
  | nil => exact List.Sublist.refl _
  | cons member rest ih =>
    obtain ⟨name, value⟩ := member
    cases hread : read value with
    | none =>
      simp only [rows, hread]
      exact ih.cons name
    | some a =>
      simp only [rows, hread]
      split
      · exact ih.cons name
      · exact ih.cons_cons name

/-! ## What was read -/

/-- What settings are that were read from a value. -/
structure WellFormed (settings : Settings) : Prop where
  color : settings.style.color.isSome
  fontStyle : settings.style.fontStyle.isSome
  targets : ∀ row ∈ settings.targets.rows, row.1 ≠ unheldName
  grammars : ∀ row ∈ settings.grammars.rows, row.1 ≠ unheldName ∧
    grammarFile? (.string (Text.ofString row.2)) = some row.2

/-- A file name that was accepted is accepted again as it was kept. -/
theorem grammarFile?_again {value : Json} {file : String} (h : grammarFile? value = some file) :
    grammarFile? (.string (Text.ofString file)) = some file := by
  unfold grammarFile? at h
  split at h
  · next name =>
    split at h
    · next hname =>
      obtain rfl := Option.some.inj h
      rw [ofString_grammarFile hname, grammarFile?, if_pos hname]
    · cases h
  · cases h

/-- A part of the style stays set. -/
theorem isSome_stylePart {usual : Option Text} (h : usual.isSome) (name : String)
    (field : Option Json) : (stylePart name usual field).1.isSome := by
  unfold stylePart
  split <;> first | exact h | rfl

/-- A row of a table was read from some value. -/
theorem mem_table {α : Type} {read : Json → Option α} {warning : Text → Warning}
    {whole : Warning} {field : Option Json} {row : Text × α}
    (h : row ∈ (table read warning whole field).1.rows) :
    row.1 ≠ unheldName ∧ ∃ value, read value = some row.2 := by
  unfold table at h
  split at h
  · cases h
  · obtain ⟨hname, member, -, -, hread⟩ := mem_rows h
    exact ⟨hname, member.2, hread⟩
  · cases h

theorem ofJson_wellFormed (raw : Json) : (ofJson raw).1.WellFormed := by
  cases raw with
  | object members =>
    have hstyle (field : Option Json) :
        (Reader.style field).1.color.isSome ∧ (Reader.style field).1.fontStyle.isSome := by
      unfold Reader.style
      split
      · exact ⟨rfl, rfl⟩
      · exact ⟨isSome_stylePart rfl _ _, isSome_stylePart rfl _ _⟩
      · exact ⟨rfl, rfl⟩
    constructor
    case color => exact (hstyle _).1
    case fontStyle => exact (hstyle _).2
    case targets => exact fun row hrow => (mem_table hrow).1
    case grammars =>
      intro row hrow
      obtain ⟨hname, value, hread⟩ := mem_table hrow
      exact ⟨hname, grammarFile?_again hread⟩
  | _ => exact ⟨rfl, rfl, fun _ h => absurd h List.not_mem_nil, fun _ h => absurd h List.not_mem_nil⟩

/-! ## Values -/

/-- A height reads back. -/
theorem minLines_readBack (n : Nat) :
    Reader.minLines (some (.number (.finite (n : Rat)))) = (n, []) := by
  simp [Reader.minLines, Number.whole?]

/-- A style reads back, whatever parts of it may be unset. -/
theorem style_readBack {look : Style} (hcolor : look.color.isSome) (hslant : look.fontStyle.isSome) :
    Reader.style (some (styleJson look)) = (look, []) := by
  obtain ⟨color, fontStyle, fontWeight, margin⟩ := look
  obtain ⟨color, rfl⟩ := Option.isSome_iff_exists.mp hcolor
  obtain ⟨fontStyle, rfl⟩ := Option.isSome_iff_exists.mp hslant
  cases fontWeight <;> cases margin <;> rfl

/-- Well-formed settings read back from their value. -/
theorem WellFormed.ofJson_toJson {settings : Settings} (h : settings.WellFormed) :
    ofJson settings.toJson = (settings, []) := by
  let height := Reader.minLines (some (.number (.finite (settings.minLines : Rat))))
  let look := Reader.style (some (styleJson settings.style))
  let targets := table kinds? .ignoredTarget .ignoredTargets (some (.object
    (settings.targets.rows.map fun row => (row.1, .array (row.2.map Json.string)))))
  let grammars := table grammarFile? .ignoredGrammar .ignoredGrammars (some (.object
    (settings.grammars.rows.map fun row => (row.1, .string (Text.ofString row.2)))))
  have hheight : height = (settings.minLines, []) := minLines_readBack settings.minLines
  have hlook : look = (settings.style, []) := style_readBack h.color h.fontStyle
  have htargets : targets = (settings.targets, []) :=
    table_readBack (fun kinds => .array (kinds.map Json.string)) fun row hrow =>
      ⟨h.targets row hrow, kinds?_strings row.2⟩
  have hgrammars : grammars = (settings.grammars, []) :=
    table_readBack (fun file => .string (Text.ofString file)) h.grammars
  calc ofJson settings.toJson
      = ({ settings with
            minLines := height.1
            style := look.1
            targets := targets.1
            grammars := grammars.1 },
          height.2 ++ [] ++ [] ++ [] ++ look.2 ++ targets.2 ++ grammars.2) := rfl
    _ = (settings, []) := by rw [hheight, hlook, htargets, hgrammars]; rfl

/-! ## Texts -/

/-- The names of an object: each once, and in the order in which objects list them. -/
structure Listed (names : List Text) : Prop where
  once : names.Nodup
  order : names.Pairwise Json.Precedes

/-- The tables of settings could be objects. -/
structure Orderly (settings : Settings) : Prop where
  targets : Listed settings.targets.keys
  grammars : Listed settings.grammars.keys

/-- Some of the names of an object could be those of another one. -/
theorem Listed.sublist {names some : List Text} (h : Listed names) (hsome : some.Sublist names) :
    Listed some :=
  ⟨h.once.sublist hsome, h.order.sublist hsome⟩

/-- Members whose names are listed as in an object make a sound one. -/
theorem Listed.sound {fits : Number → Prop} {members : List (Text × Json)}
    (h : Listed (members.map Prod.fst)) (hmembers : ∀ member ∈ members, Json.Sound fits member.2) :
    Json.Sound fits (.object members) :=
  .object h.once (List.pairwise_map.mp h.order) hmembers

/-- A table that is read from a sound value lists its names as an object does. -/
theorem listed_table {fits : Number → Prop} {α : Type} {read : Json → Option α}
    {warning : Text → Warning} {whole : Warning} {field : Option Json}
    (h : ∀ value ∈ field, Json.Sound fits value) : Listed (table read warning whole field).1.keys := by
  unfold table
  split
  · exact ⟨List.nodup_nil, .nil⟩
  · next members =>
    cases h _ rfl with
    | object hnames horder hmembers =>
      exact .sublist ⟨hnames, List.pairwise_map.mpr horder⟩ (rows_sublist read warning members)
  · exact ⟨List.nodup_nil, .nil⟩

/-- Settings read from a sound value are orderly. -/
theorem ofJson_orderly {fits : Number → Prop} {raw : Json} (h : raw.Sound fits) :
    (ofJson raw).1.Orderly := by
  have hempty : Listed [] := ⟨List.nodup_nil, .nil⟩
  cases h with
  | @object members hnames horder hmembers =>
    have hfield (name : Text) : ∀ value ∈ Table.find name members, Json.Sound fits value := by
      intro value hvalue
      have hget : (Table.mk members).get? name = some value := hvalue
      exact hmembers (name, value) (Table.mem_rows_of_get? hget)
    exact ⟨listed_table (hfield _), listed_table (hfield _)⟩
  | _ => exact ⟨hempty, hempty⟩

/-- The style is written as a sound object. -/
theorem styleJson_sound (fits : Number → Prop) (look : Style) : (styleJson look).Sound fits := by
  have hall : Listed ["color", "fontStyle", "fontWeight", "margin"] :=
    ⟨by decide +kernel, by decide +kernel⟩
  have hname (name : Text) (part : Option Text) :
      ((styleMember name part).map Prod.fst).Sublist [name] := by
    cases part <;> simp [styleMember]
  refine (hall.sublist ?_).sound fun member hmember => ?_
  · rw [List.map_append, List.map_append, List.map_append]
    exact (((hname _ _).append (hname _ _)).append (hname _ _)).append (hname _ _)
  · have hpart (name : Text) (part : Option Text) (h : member ∈ styleMember name part) :
        member.2.Sound fits := by
      cases part with
      | none => cases h
      | some value =>
        rw [List.mem_singleton.mp h]
        exact .string value
    simp only [List.mem_append] at hmember
    rcases hmember with ((h | h) | h) | h <;> exact hpart _ _ h

/-- Orderly settings are written as a sound value, if their height is exact. -/
theorem Orderly.toJson_sound {settings : Settings} (h : settings.Orderly)
    (hheight : settings.minLines < Number.exactLimit) : settings.toJson.Sound Json.Exact := by
  have htable {α : Type} (write : α → Json) (hwrite : ∀ a, (write a).Sound Json.Exact)
      {table : Table Text α} (hkeys : Listed table.keys) :
      Json.Sound Json.Exact (.object (table.rows.map fun row => (row.1, write row.2))) := by
    refine Listed.sound ?_ fun member hmember => ?_
    · rw [List.map_map]
      exact hkeys
    · obtain ⟨row, -, rfl⟩ := List.mem_map.mp hmember
      exact hwrite row.2
  have hnames : Listed ["minLines", "overlayPrefix", "style", "deduplicateAnchors",
      "enableByDefault", "scopeTargets", "grammars", "version"] :=
    ⟨by decide +kernel, by decide +kernel⟩
  refine Listed.sound hnames fun member hmember => ?_
  simp only [List.mem_cons, List.not_mem_nil, or_false] at hmember
  rcases hmember with rfl | rfl | rfl | rfl | rfl | rfl | rfl | rfl
  · exact .number ⟨_, hheight, rfl⟩
  · exact .string _
  · exact styleJson_sound _ _
  · exact .bool _
  · exact .bool _
  · refine htable (fun kinds => .array (kinds.map Json.string)) (fun kinds => .array ?_) h.targets
    intro item hitem
    obtain ⟨kind, -, rfl⟩ := List.mem_map.mp hitem
    exact .string kind
  · exact htable (fun file => .string (Text.ofString file)) (fun file => .string _) h.grammars
  · exact .string _

end Settings

end ClosingLabels
