import ClosingLabels.Catalog
import ClosingLabels.Path
import ClosingLabels.Proofs.Restoring

/-!
# Grammar files stay in their directory

A grammar file may be named by the settings of a workspace, which anyone can write, by the shipped
table, or after the language itself. Whichever it is, and whatever the settings say, the name is a
bare file name, so the path that is made of it leads to something directly in the directory of
grammars.
-/

namespace ClosingLabels

/-! ## Paths -/

namespace Path

variable {absolute : Bool} {before segments : List String}

/-- Whether a path starts at the top. -/
def isAbsolute (path : String) : Bool := path.startsWith "/"

/-- The names that a path leads through, with the way up before them if it needs one. -/
def names (path : String) : List String :=
  ((split path).foldl (step (isAbsolute path)) []).reverse

/-- Names written as a path. -/
def ofNames (absolute : Bool) (names : List String) : String :=
  (if absolute then "/" else "") ++ String.intercalate "/" names

/-- A name that something in a directory can have. -/
structure IsName (name : String) : Prop where
  ne_empty : name ≠ ""
  ne_dot : name ≠ "."
  ne_dots : name ≠ ".."
  slash_notMem : '/' ∉ name.toList

/-- What remains of a path, last name first: names, and before them the way up, which an absolute
path does not have. -/
inductive Resolved (absolute : Bool) : List String → Prop
  | start : Resolved absolute []
  | up {before : List String} (habsolute : absolute = false)
      (hup : ∀ last ∈ before.head?, last = "..") (h : Resolved absolute before) :
      Resolved absolute (".." :: before)
  | into {name : String} {before : List String} (hname : IsName name)
      (h : Resolved absolute before) : Resolved absolute (name :: before)

/-- A name is always gone into. -/
theorem step_of_isName {name : String} (hname : IsName name) (absolute : Bool)
    (before : List String) : step absolute before name = name :: before := by
  obtain ⟨hempty, hdot, hdots, -⟩ := hname
  simp [step, hempty, hdot, hdots]

/-- One more segment leaves a path that is resolved so far resolved. -/
theorem Resolved.step (h : Resolved absolute before) {segment : String}
    (hslash : '/' ∉ segment.toList) : Resolved absolute (Path.step absolute before segment) := by
  unfold Path.step
  split
  · exact h
  split
  · cases h with
    | start =>
      cases absolute with
      | true => exact .start
      | false => exact .up rfl (by simp) .start
    | up habsolute hup hbefore =>
      dsimp only
      rw [if_pos rfl]
      exact .up habsolute (by simp) (.up habsolute hup hbefore)
    | into hname hbefore =>
      dsimp only
      rw [if_neg hname.ne_dots]
      exact hbefore
  · next hstay hdots =>
    rw [not_or] at hstay
    exact .into ⟨hstay.1, hstay.2, hdots, hslash⟩ h

/-- The names of a resolved path lead to themselves. -/
theorem Resolved.foldl_reverse (h : Resolved absolute before) :
    before.reverse.foldl (Path.step absolute) [] = before := by
  induction h with
  | start => rfl
  | @up before habsolute hup h ih =>
    rw [List.reverse_cons, List.foldl_append, ih, List.foldl_cons, List.foldl_nil]
    cases before with
    | nil => simp [Path.step, habsolute]
    | cons last rest =>
      obtain rfl := hup last rfl
      simp [Path.step]
  | into hname h ih =>
    rw [List.reverse_cons, List.foldl_append, ih, List.foldl_cons, List.foldl_nil]
    exact step_of_isName hname _ _

/-- No name of a resolved path is empty or holds a slash. -/
theorem Resolved.slash_notMem (h : Resolved absolute before) :
    ∀ name ∈ before, name ≠ "" ∧ '/' ∉ name.toList := by
  induction h with
  | start => simp
  | up habsolute hup h ih =>
    intro name hmem
    rcases List.mem_cons.mp hmem with rfl | hrest
    · decide
    · exact ih name hrest
  | into hname h ih =>
    intro name hmem
    rcases List.mem_cons.mp hmem with rfl | hrest
    · exact ⟨hname.ne_empty, hname.slash_notMem⟩
    · exact ih name hrest

/-! ### Segments -/

theorem split_append (path rest : String) :
    split (path ++ "/" ++ rest) = split path ++ split rest := by
  have hchars : (path ++ "/" ++ rest).toList = path.toList ++ '/' :: rest.toList := by simp
  rw [split, hchars, List.splitOn_append_cons_self, List.map_append]
  rfl

theorem split_of_slash_notMem {name : String} (hslash : '/' ∉ name.toList) :
    split name = [name] := by
  rw [split, List.splitOn_eq_singleton hslash, List.map_singleton, String.ofList_toList]

theorem slash_notMem_of_mem_split {path segment : String} (h : segment ∈ split path) :
    '/' ∉ segment.toList := by
  obtain ⟨chars, hchars, rfl⟩ := List.mem_map.mp h
  rw [String.toList_ofList]
  clear h
  generalize path.toList = text at hchars
  induction text generalizing chars with
  | nil =>
    rw [List.splitOn_nil, List.mem_singleton] at hchars
    simp [hchars]
  | cons c rest ih =>
    obtain ⟨first, more, hmore⟩ := List.exists_cons_of_ne_nil (List.splitOn_ne_nil '/' rest)
    rw [List.splitOn_cons_eq_if_modifyHead, hmore] at hchars
    rw [hmore] at ih
    split at hchars
    · rcases List.mem_cons.mp hchars with rfl | hlater
      · exact List.not_mem_nil
      · exact ih chars hlater
    · next hc =>
      rcases List.mem_cons.mp hchars with rfl | hlater
      · have hfirst := ih first List.mem_cons_self
        have hne : '/' ≠ c := by
          rintro rfl
          exact hc rfl
        simp [hfirst, hne]
      · exact ih chars (List.mem_cons_of_mem _ hlater)

theorem split_intercalate (hne : segments ≠ [])
    (hslash : ∀ segment ∈ segments, '/' ∉ segment.toList) :
    split (String.intercalate "/" segments) = segments := by
  have hchars : (String.intercalate "/" segments).toList =
      List.intercalate ['/'] (segments.map String.toList) := by
    rw [String.toList_intercalate]
    rfl
  rw [split, hchars, List.splitOn_intercalate]
  · simp
  · simpa using hslash
  · simpa using hne

theorem isAbsolute_iff (path : String) : isAbsolute path = true ↔ path.toList.head? = some '/' := by
  rw [isAbsolute, String.startsWith_string_iff]
  cases path.toList with
  | nil => simp
  | cons c rest => simp [List.cons_prefix_cons, eq_comm]

/-! ### Names of a path -/

/-- What is left of a path is resolved. -/
theorem resolved_names (path : String) : Resolved (isAbsolute path) (names path).reverse := by
  have hfold (segments before : List String) (hbefore : Resolved (isAbsolute path) before)
      (hslash : ∀ segment ∈ segments, '/' ∉ segment.toList) :
      Resolved (isAbsolute path) (segments.foldl (step (isAbsolute path)) before) := by
    induction segments generalizing before with
    | nil => exact hbefore
    | cons segment rest ih =>
      apply ih
      · exact hbefore.step (hslash segment List.mem_cons_self)
      · exact fun other hother => hslash other (List.mem_cons_of_mem _ hother)
  rw [names, List.reverse_reverse]
  exact hfold _ [] .start fun segment => slash_notMem_of_mem_split

/-- A name at the end of a path is one more name. -/
theorem names_append {path name : String} (hpath : path ≠ "") (hname : IsName name) :
    isAbsolute (path ++ "/" ++ name) = isAbsolute path ∧
      names (path ++ "/" ++ name) = names path ++ [name] := by
  have habsolute : isAbsolute (path ++ "/" ++ name) = isAbsolute path := by
    rw [Bool.eq_iff_iff, isAbsolute_iff, isAbsolute_iff]
    have hchars : path.toList ≠ [] := by simpa using hpath
    obtain ⟨c, rest, hrest⟩ := List.exists_cons_of_ne_nil hchars
    simp [hrest]
  constructor
  · exact habsolute
  · rw [names, habsolute, split_append, split_of_slash_notMem hname.slash_notMem, List.foldl_append,
      List.foldl_cons, List.foldl_nil, step_of_isName hname, List.reverse_cons, names]

/-- Names that begin with a name are written from where they start. -/
theorem isAbsolute_ofNames (hne : segments ≠ [])
    (h : ∀ name ∈ segments, name ≠ "" ∧ '/' ∉ name.toList) :
    isAbsolute (ofNames absolute segments) = absolute := by
  cases absolute with
  | true =>
    rw [isAbsolute_iff]
    simp [ofNames]
  | false =>
    obtain ⟨first, rest, rfl⟩ := List.exists_cons_of_ne_nil hne
    obtain ⟨hempty, hslash⟩ := h first List.mem_cons_self
    rw [Bool.eq_false_iff, ne_eq, isAbsolute_iff]
    have hchars : first.toList ≠ [] := by simpa using hempty
    obtain ⟨c, chars, hfirst⟩ := List.exists_cons_of_ne_nil hchars
    have hc : c ≠ '/' := by
      rintro rfl
      simp [hfirst] at hslash
    have hhead : (ofNames false (first :: rest)).toList.head? = some c := by
      simp only [ofNames, String.toList_append, String.toList_intercalate]
      cases rest <;> simp [hfirst]
    simpa [hhead] using hc

/-- Names that are resolved are read back from the path that is written for them. -/
theorem names_ofNames (hne : segments ≠ []) (h : Resolved absolute segments.reverse) :
    isAbsolute (ofNames absolute segments) = absolute ∧
      names (ofNames absolute segments) = segments := by
  have hnames : ∀ name ∈ segments, name ≠ "" ∧ '/' ∉ name.toList := fun name hmem =>
    h.slash_notMem name (List.mem_reverse.mpr hmem)
  have hsplit := split_intercalate hne fun name hmem => (hnames name hmem).2
  have hfold := h.foldl_reverse
  rw [List.reverse_reverse] at hfold
  have habsolute : isAbsolute (ofNames absolute segments) = absolute :=
    isAbsolute_ofNames hne hnames
  refine ⟨habsolute, ?_⟩
  rw [names, habsolute]
  cases absolute with
  | false =>
    rw [ofNames, if_neg Bool.false_ne_true, String.empty_append, hsplit, hfold,
      List.reverse_reverse]
  | true =>
    have hpath : ofNames true segments = "" ++ "/" ++ String.intercalate "/" segments := by
      simp [ofNames]
    have hempty : split "" = [""] := by decide +kernel
    have hskip : step true [] "" = [] := by simp [step]
    rw [hpath, split_append, hempty, hsplit, List.singleton_append, List.foldl_cons, hskip, hfold,
      List.reverse_reverse]

/-- A path that ends in a name does not end in a slash. -/
theorem endsWith_slash_of_isName {path name : String} (hname : IsName name)
    (hends : name.toList <:+ path.toList) : path.endsWith "/" = false := by
  rw [Bool.eq_false_iff]
  intro hslash
  have hsuffix : "/".toList <:+ path.toList := by
    simpa using (String.Slice.endsWith_string_iff (s := path.toSlice)).mp hslash
  have hempty : name.toList ≠ [] := by simpa using hname.ne_empty
  rcases List.suffix_or_suffix_of_suffix hsuffix hends with hinside | haround
  · exact hname.slash_notMem (hinside.subset (by simp))
  · obtain ⟨c, rest, hrest⟩ := List.exists_cons_of_ne_nil hempty
    have hmem : c ∈ name.toList := hrest ▸ List.mem_cons_self
    have hc : c = '/' := by simpa using haround.subset hmem
    exact hname.slash_notMem (hc ▸ hmem)

/-- The shortest form of a path that ends in a name. -/
theorem normalize_of_isName {path name : String} {before : List String} (hname : IsName name)
    (hends : name.toList <:+ path.toList) (hnames : names path = before ++ [name]) :
    normalize path = ofNames (isAbsolute path) (before ++ [name]) := by
  have hresolved : ((split path).foldl (step (path.startsWith "/")) []).reverse =
      before ++ [name] := hnames
  rw [normalize, hresolved, endsWith_slash_of_isName hname hends]
  cases before <;> simp [ofNames, isAbsolute]

/-- A name is a path of its own. -/
theorem names_of_isName {name : String} (hname : IsName name) :
    isAbsolute name = false ∧ names name = [name] := by
  have habsolute : isAbsolute name = false := by
    rw [Bool.eq_false_iff, ne_eq, isAbsolute_iff]
    intro hhead
    exact hname.slash_notMem (List.mem_of_head? hhead)
  constructor
  · exact habsolute
  · rw [names, habsolute, split_of_slash_notMem hname.slash_notMem, List.foldl_cons,
      List.foldl_nil, step_of_isName hname, List.reverse_singleton]

/-- A name joined to a directory leads to something directly in it. -/
theorem join_of_isName (directory : String) {name : String} (hname : IsName name) :
    join [directory, name] = ofNames (isAbsolute directory) (names directory ++ [name]) := by
  by_cases hempty : directory = ""
  · obtain ⟨habsolute, hnames⟩ := names_of_isName hname
    have hjoin : join [directory, name] = normalize name := by
      simp [join, hempty, hname.ne_empty]
    have htop : isAbsolute "" = false ∧ names "" = [] := by decide +kernel
    have hfirst : names name = [] ++ [name] := hnames
    rw [hjoin, normalize_of_isName hname (List.suffix_refl _) hfirst, habsolute, hempty, htop.1,
      htop.2]
  · obtain ⟨habsolute, hnames⟩ := names_append hempty hname
    have hjoin : join [directory, name] = normalize (directory ++ "/" ++ name) := by
      simp [join, hempty, hname.ne_empty, String.intercalate_cons_cons]
    have hends : name.toList <:+ (directory ++ "/" ++ name).toList := by
      rw [String.toList_append]
      exact List.suffix_append _ _
    rw [hjoin, normalize_of_isName hname hends hnames, habsolute]

/-- What a directory joined with a name leads through: the names of the directory, and then the
name. -/
theorem names_join (directory : String) {name : String} (hname : IsName name) :
    isAbsolute (join [directory, name]) = isAbsolute directory ∧
      names (join [directory, name]) = names directory ++ [name] := by
  rw [join_of_isName directory hname]
  apply names_ofNames
  · simp
  · rw [List.reverse_append, List.reverse_singleton, List.singleton_append]
    exact .into hname (resolved_names directory)

/-- A name below some directory is left as it is. -/
theorem below_of_isName {name : String} (hname : IsName name) : below name = name := by
  have hdot : "." ≠ "" := by decide
  have hhere : isAbsolute "." = false ∧ names "." = [] := by decide +kernel
  obtain ⟨habsolute, hnames⟩ := names_append hdot hname
  rw [hhere.2] at hnames
  have hends : name.toList <:+ ("." ++ "/" ++ name).toList := by
    rw [String.toList_append]
    exact List.suffix_append _ _
  have hbelow : below name = normalize ("." ++ "/" ++ name) := rfl
  rw [hbelow, normalize_of_isName hname hends hnames, habsolute, hhere.1]
  simp [ofNames]

end Path

/-! ## Names of grammar files -/

open Settings.Reader (isFileUnit isGrammarFile grammarFile?)

/-- The name of a grammar file: letters of the basic alphabet, digits, underscores, dots and
dashes, and at the end that of a grammar. -/
structure IsGrammarName (name : String) : Prop where
  chars : ∀ c ∈ name.toList, c.isAlphanum ∨ c = '_' ∨ c = '.' ∨ c = '-'
  ending : ∃ stem, stem ≠ "" ∧ name = stem ++ ".wasm"

/-- Such a name is that of something in a directory. -/
theorem IsGrammarName.isName {name : String} (h : IsGrammarName name) : Path.IsName name := by
  obtain ⟨hchars, stem, -, rfl⟩ := h
  have hlength : 5 ≤ (stem ++ ".wasm").length := by
    rw [String.length_append]
    exact Nat.le_add_left 5 _
  constructor
  · intro hempty
    exact absurd (hempty ▸ hlength) (by decide)
  · intro hdot
    exact absurd (hdot ▸ hlength) (by decide)
  · intro hdots
    exact absurd (hdots ▸ hlength) (by decide)
  · intro hslash
    exact absurd (hchars '/' hslash) (by decide)

/-- A text without halves is shown unit by unit. -/
theorem Text.toList_toString {text : Text}
    (hplain : ∀ u ∈ text, isHigh u = false ∧ isLow u = false) :
    text.toString.toList = text.map fun u => Char.ofNat u.toNat := by
  have hone {u : UInt16} (hu : isHigh u = false ∧ isLow u = false) :
      (Symbol.ofUnit u).shown = Char.ofNat u.toNat := by
    simp [Symbol.ofUnit, hu.1, hu.2, Symbol.shown]
  rw [toString, String.toList_ofList]
  fun_induction symbols text with
  | case1 => rfl
  | case2 u v rest hpair ih =>
    have hu := (hplain u List.mem_cons_self).1
    simp [hu] at hpair
  | case3 u v rest hpair ih =>
    rw [List.map_cons, List.map_cons, hone (hplain u List.mem_cons_self),
      ih fun w hw => hplain w (List.mem_cons_of_mem u hw)]
  | case4 u => rw [List.map_singleton, List.map_singleton, hone (hplain u List.mem_cons_self)]

/-- The units of a file name are shown as characters that the name of a grammar may hold. -/
theorem fileUnit_shown {u : UInt16} (hu : isFileUnit u = true) :
    (Text.isHigh u = false ∧ Text.isLow u = false) ∧
      ((Char.ofNat u.toNat).isAlphanum ∨ Char.ofNat u.toNat = '_' ∨ Char.ofNat u.toNat = '.' ∨
        Char.ofNat u.toNat = '-') := by
  have hcheck : ∀ n < 128, isFileUnit (UInt16.ofNat n) = true →
      (Text.isHigh (UInt16.ofNat n) = false ∧ Text.isLow (UInt16.ofNat n) = false) ∧
        ((Char.ofNat n).isAlphanum = true ∨ Char.ofNat n = '_' ∨ Char.ofNat n = '.' ∨
          Char.ofNat n = '-') := by
    decide +kernel
  have hlt : u.toNat < 128 := by
    simp only [isFileUnit, Text.isWord, Text.isDigit, Bool.or_eq_true, Bool.and_eq_true,
      decide_eq_true_eq, beq_iff_eq] at hu
    rcases hu with (hword | rfl) | rfl
    · omega
    · decide
    · decide
  have h := hcheck u.toNat hlt
  rw [UInt16.ofNat_toNat] at h
  exact h hu

/-- Letters, digits, the underscore, the dot and the dash are shown as such. -/
theorem chars_toString {text : Text} (hunits : ∀ u ∈ text, isFileUnit u = true) :
    ∀ c ∈ text.toString.toList, c.isAlphanum ∨ c = '_' ∨ c = '.' ∨ c = '-' := by
  intro c hc
  rw [Text.toList_toString fun u hu => (fileUnit_shown (hunits u hu)).1] at hc
  obtain ⟨u, hu, rfl⟩ := List.mem_map.mp hc
  exact (fileUnit_shown (hunits u hu)).2

/-- A name that is accepted in the settings is that of a grammar file. -/
theorem isGrammarName_toString {name : Text} (h : isGrammarFile name = true) :
    IsGrammarName name.toString := by
  rw [isGrammarFile, Bool.and_eq_true, Bool.and_eq_true, List.all_eq_true,
    List.isSuffixOf_iff_suffix, decide_eq_true_eq] at h
  obtain ⟨⟨hunits, stem, rfl⟩, hlength⟩ := h
  constructor
  · exact chars_toString hunits
  · refine ⟨String.ofList (stem.map fun u => Char.ofNat u.toNat), ?_, ?_⟩
    · intro hempty
      have hstem : stem = [] := by simpa using hempty
      rw [hstem] at hlength
      exact absurd hlength (by decide)
    · rw [← String.toList_inj, Text.toList_toString fun u hu => (fileUnit_shown (hunits u hu)).1,
        List.map_append, String.toList_append, String.toList_ofList]
      congr 1

theorem isGrammarName_of_grammarFile? {value : Json} {file : String}
    (h : grammarFile? value = some file) : IsGrammarName file := by
  unfold grammarFile? at h
  split at h
  · split at h
    · next hname =>
      obtain rfl := Option.some.inj h
      exact isGrammarName_toString hname
    · cases h
  · cases h

/-! ## Grammars of a catalog -/

namespace Catalog

variable {catalog : Catalog} {key : Text} {file : String}

/-- The shipped grammars are named in this way. -/
theorem isGrammarName_shipped (h : shippedGrammar? key = some file) : IsGrammarName file := by
  have hcheck : ∀ row ∈ shippedLanguages.rows,
      isGrammarFile (Text.ofString row.2.grammar) = true ∧
        (Text.ofString row.2.grammar).toString = row.2.grammar := by
    decide +kernel
  obtain ⟨entry, hentry, rfl⟩ := Option.map_eq_some_iff.mp h
  obtain ⟨hname, hshown⟩ := hcheck _ (Table.mem_rows_of_get? hentry)
  exact hshown ▸ isGrammarName_toString hname

/-- The characters of a given text are looked at one by one. -/
theorem chars_of_all {name : String}
    (h : (name.toList.all fun c => decide (c.isAlphanum ∨ c = '_' ∨ c = '.' ∨ c = '-')) = true) :
    ∀ c ∈ name.toList, c.isAlphanum ∨ c = '_' ∨ c = '.' ∨ c = '-' := by
  simpa only [List.all_eq_true, decide_eq_true_eq] using h

/-- So is the grammar that is named after a plainly named language. -/
theorem isGrammarName_conventional (h : isPlainName key = true) :
    IsGrammarName (conventionalFile key) := by
  rw [isPlainName, Bool.and_eq_true, List.all_eq_true] at h
  have hunits : ∀ u ∈ key.map fun u => if u = dash then underscore else u, isFileUnit u = true := by
    intro u hu
    obtain ⟨v, hv, rfl⟩ := List.mem_map.mp hu
    have hplain := h.2 v hv
    split
    · decide
    · next hdash =>
      have hword : Text.isWord v = true := by simpa [hdash] using hplain
      simp [isFileUnit, hword]
  constructor
  · intro c hc
    simp only [conventionalFile, String.toList_append, List.mem_append] at hc
    rcases hc with (hc | hc) | hc
    · exact chars_of_all rfl c hc
    · exact chars_toString hunits c hc
    · exact chars_of_all rfl c hc
  · refine ⟨"tree-sitter-" ++ Text.toString (key.map fun u => if u = dash then underscore else u),
      ?_, rfl⟩
    intro hempty
    have hlength := congrArg String.length hempty
    have hfirst : "tree-sitter-".length = 12 := by decide
    have hnone : "".length = 0 := by decide
    rw [String.length_append] at hlength
    omega

/-- Which file parses a covered language: the configured one, or else the shipped one, or else the
one that is named after it. A language that is named like a member of every table has none but a
configured one. -/
theorem grammar?_eq_file_iff (hnamed : catalog.grammars.get? key ≠ some "") :
    catalog.grammar? key = some (.file file) ↔
      catalog.kinds key ≠ [] ∧ (catalog.grammars.get? key = some file ∨
        catalog.grammars.get? key = none ∧ key ∉ GrammarName.members ∧
          (shippedGrammar? key = some file ∨
            shippedGrammar? key = none ∧ isPlainName key = true ∧ file = conventionalFile key)) := by
  have hcovers : catalog.covers key = true ↔ catalog.kinds key ≠ [] := by
    simp [covers]
  rw [grammar?, ← hcovers]
  by_cases hcovered : catalog.covers key = true
  swap
  · simp [hcovered]
  rw [if_pos hcovered, namedGrammar?]
  cases hgrammar : catalog.grammars.get? key with
  | some name =>
    have hname : name ≠ "" := by
      rintro rfl
      exact hnamed hgrammar
    simp [hname, hcovered]
  | none =>
    by_cases hmember : key ∈ GrammarName.members
    · simp [hmember]
    cases hshipped : shippedGrammar? key with
    | some name =>
      have hname : name ≠ "" := (isGrammarName_shipped hshipped).isName.ne_empty
      simp [hmember, hname, hcovered]
    | none =>
      by_cases hplain : isPlainName key = true
      · simp [hmember, hplain, hcovered, eq_comm]
      · simp [hmember, hplain]

/-- **Grammar files are confined.** Whatever the settings of a workspace say, and whatever the
catalog held before they were loaded into it: a language without kinds has no grammar, and any
other has the configured file, or else the shipped one, or else the one named after it. Each of
these is a bare name with the ending of a grammar, so that joined to any directory it leads to
something directly in it. -/
theorem grammar_confined (raw : Json) (table : Table Text (List Text))
    (grammars : Table Text String) (key : Text) (directory : String) :
    let settings := (Settings.ofJson raw).1
    let catalog := reload ⟨shippedTargets, table, grammars⟩ settings.targets settings.grammars
    (catalog.kinds key = [] → catalog.grammar? key = none) ∧
    ∀ file,
      (catalog.grammar? key = some (.file file) ↔
        catalog.kinds key ≠ [] ∧ (settings.grammars.get? key = some file ∨
          settings.grammars.get? key = none ∧ key ∉ GrammarName.members ∧
            (shippedGrammar? key = some file ∨ shippedGrammar? key = none ∧
              isPlainName key = true ∧ file = conventionalFile key))) ∧
      (catalog.grammar? key = some (.file file) →
        IsGrammarName file ∧ Path.IsName file ∧ Path.below file = file ∧
        Path.isAbsolute (Path.join [directory, file]) = Path.isAbsolute directory ∧
        Path.names (Path.join [directory, file]) = Path.names directory ++ [file]) := by
  intro settings catalog
  have hconfigured {name : String} (hname : settings.grammars.get? key = some name) :
      IsGrammarName name := by
    obtain ⟨-, hread⟩ := (Settings.ofJson_wellFormed raw).grammars _ (Table.mem_rows_of_get? hname)
    exact isGrammarName_of_grammarFile? hread
  have hnamed : catalog.grammars.get? key ≠ some "" := fun hempty =>
    (hconfigured hempty).isName.ne_empty rfl
  constructor
  · intro hnone
    simp [grammar?, covers, hnone]
  intro file
  have hfile : catalog.grammar? key = some (.file file) ↔ _ := grammar?_eq_file_iff hnamed
  refine ⟨hfile, fun hgrammar => ?_⟩
  have hname : IsGrammarName file := by
    obtain ⟨-, hchosen | ⟨-, -, hshipped | ⟨-, hplain, rfl⟩⟩⟩ := hfile.mp hgrammar
    · exact hconfigured hchosen
    · exact isGrammarName_shipped hshipped
    · exact isGrammarName_conventional hplain
  exact ⟨hname, hname.isName, Path.below_of_isName hname.isName,
    Path.names_join directory hname.isName⟩

/-- Each way to a grammar, next to a directory that is not in shortest form: a configured name that
begins with dots, a shipped one, and one made of a name with a dash. A configured path is no name,
so it is passed over. -/
theorem grammar_confined_three_ways :
    let raw : Json := .object
      [("scopeTargets", .object [("my-lang", .array [.string "fn"])]),
        ("grammars", .object [("python", .string "..wasm"), ("go", .string "../go.wasm")])]
    let settings := (Settings.ofJson raw).1
    let catalog := make shippedTargets settings.targets settings.grammars
    catalog.grammar? "python" = some (.file "..wasm") ∧
      Path.names (Path.join ["/opt/../g/", "..wasm"]) = Path.names "/opt/../g/" ++ ["..wasm"] ∧
      catalog.grammar? "go" = some (.file "tree-sitter-go.wasm") ∧
      IsGrammarName "tree-sitter-go.wasm" ∧
      catalog.grammar? "my-lang" = some (.file "tree-sitter-my_lang.wasm") ∧
      Path.below "tree-sitter-my_lang.wasm" = "tree-sitter-my_lang.wasm" := by
  intro raw settings catalog
  have hpython : catalog.grammar? "python" = some (.file "..wasm") := by decide +kernel
  have hgo : catalog.grammar? "go" = some (.file "tree-sitter-go.wasm") := by decide +kernel
  have hplain : catalog.grammar? "my-lang" = some (.file "tree-sitter-my_lang.wasm") := by
    decide +kernel
  have hdots := (grammar_confined raw .empty .empty "python" "/opt/../g/").2 "..wasm"
  have hshipped := (grammar_confined raw .empty .empty "go" "").2 "tree-sitter-go.wasm"
  have hmade := (grammar_confined raw .empty .empty "my-lang" "").2 "tree-sitter-my_lang.wasm"
  exact ⟨hpython, (hdots.2 hpython).2.2.2.2, hgo, (hshipped.2 hgo).1, hplain,
    (hmade.2 hplain).2.2.1⟩

end Catalog

end ClosingLabels
