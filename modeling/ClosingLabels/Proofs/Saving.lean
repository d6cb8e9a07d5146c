import ClosingLabels.Proofs.Decorating
import ClosingLabels.Proofs.Restoring
import ClosingLabels.Settings.Store

/-!
# Settings saved and read again

A file that was written is found and has the text that was written. So settings that were saved
for a workspace are the ones that are read there next, without a warning and without an error.
-/

namespace ClosingLabels

namespace Disk

variable {disk written : Disk} {path other : List String} {location : Location} {text : String}

/-! ## Files -/

theorem find?_put_self (disk : Disk) (hpath : path ≠ []) (entry : DiskEntry) :
    (disk.put path entry).find? path = some entry := by
  cases path with
  | nil => exact absurd rfl hpath
  | cons name rest => simp [put, find?]

theorem find?_put_of_ne (disk : Disk) (hother : other ≠ path) (entry : DiskEntry) :
    (disk.put path entry).find? other = disk.find? other := by
  cases other with
  | nil => rfl
  | cons name rest =>
    obtain ⟨entries⟩ := disk
    simp only [put, find?]
    rw [List.lookup_cons, beq_eq_false_iff_ne.mpr hother]
    dsimp only
    induction entries with
    | nil => rfl
    | cons row more ih =>
      by_cases hrow : row.1 = path
      · rw [List.filter_cons_of_neg (by simp [hrow]), ih, List.lookup_cons,
          beq_eq_false_iff_ne.mpr (hrow ▸ hother)]
      · rw [List.filter_cons_of_pos (by simp [hrow]), List.lookup_cons, List.lookup_cons, ih]

/-- The way to a directory leads over directories only. -/
theorem walk_cons_directory {done rest : List String} {name : String}
    (h : disk.walk done (name :: rest) = .ok (some .directory)) :
    isTooLong name = false ∧ disk.find? (done ++ [name]) = some .directory ∧
      disk.walk (done ++ [name]) rest = .ok (some .directory) := by
  rw [walk] at h
  split at h
  · cases h
  · next hlong =>
    refine ⟨by simpa using hlong, ?_⟩
    split at h
    · cases h
    · next hfind => exact ⟨hfind, h⟩
    · split at h <;> cases h

/-- The way to a new file leads over the directories that were there before. -/
theorem walk_put {done : List String} (rest : List String) (last : String)
    (hparent : disk.walk done rest = .ok (some .directory)) (hlast : isTooLong last = false) :
    (disk.put (done ++ (rest ++ [last])) (.file text)).walk done (rest ++ [last]) =
      .ok (some (.file text)) := by
  induction rest generalizing done with
  | nil =>
    rw [List.nil_append, walk]
    rw [if_neg (by simp [hlast]), find?_put_self disk (by simp)]
    rfl
  | cons name more ih =>
    obtain ⟨hlong, hfind, hrest⟩ := walk_cons_directory hparent
    have hne : done ++ [name] ≠ done ++ (name :: more ++ [last]) := by simp
    have hpath : done ++ [name] ++ (more ++ [last]) = done ++ (name :: more ++ [last]) := by simp
    have hbelow := ih hrest
    rw [hpath] at hbelow
    rw [List.cons_append, walk]
    rw [if_neg (by simp [hlong]), ← List.cons_append, find?_put_of_ne disk hne, hfind]
    exact hbelow

/-- A name on the way that is found is not too long. -/
theorem not_tooLong_of_walk {done : List String} (rest : List String) {last : String}
    {found : Option DiskEntry} (hparent : disk.walk done rest = .ok (some .directory))
    (h : disk.walk done (rest ++ [last]) = .ok found) : isTooLong last = false := by
  induction rest generalizing done with
  | nil =>
    rw [List.nil_append, walk] at h
    split at h
    · cases h
    · next hlong => simpa using hlong
  | cons name more ih =>
    obtain ⟨hlong, hfind, hrest⟩ := walk_cons_directory hparent
    rw [List.cons_append, walk, if_neg (by simp [hlong]), hfind] at h
    exact ih hrest h

/-- What comes to an end comes to an end in both of its parts. -/
theorem ok_of_bind {α β : Type} {x : Except DiskFault α} {f : α → Except DiskFault β} {b : β}
    (h : x >>= f = .ok b) : ∃ a, x = .ok a ∧ f a = .ok b := by
  cases x with
  | error fault => cases h
  | ok a => exact ⟨a, rfl, h⟩

/-- A place that was looked up may be asked for, and the way there was walked to its end. -/
theorem walk_of_lookup {found : Option DiskEntry} (h : disk.lookup location = .ok found) :
    check location = .ok () ∧ disk.walk [] location.names = .ok found := by
  obtain ⟨_, hcheck, h⟩ := ok_of_bind h
  obtain ⟨entry, hwalk, h⟩ := ok_of_bind h
  refine ⟨hcheck, ?_⟩
  split at h
  · split at h <;> cases h
    exact hwalk
  · cases h
    exact hwalk

/-- What is at the end of the way is found, unless only a directory will do. -/
theorem lookup_of_walk {found : Option DiskEntry} (hcheck : check location = .ok ())
    (hplace : location.asDirectory = false) (hwalk : disk.walk [] location.names = .ok found) :
    disk.lookup location = .ok found := by
  rw [lookup, hcheck]
  change (disk.walk [] location.names).bind _ = _
  rw [hwalk]
  match found with
  | none => rfl
  | some .directory => rfl
  | some (.file text) =>
    change (if location.asDirectory = true then _ else _) = _
    rw [hplace]
    rfl

/-- A file can be written in a directory, at a place where no directory is. -/
theorem of_write (h : disk.write location text = .ok written) :
    check location = .ok () ∧ location.asDirectory = false ∧
      disk.walk [] location.names.dropLast = .ok (some .directory) ∧
      (∃ found, disk.walk [] location.names = .ok found ∧ found ≠ some .directory) ∧
      written = disk.put location.names (.file text) := by
  obtain ⟨_, hcheck, h⟩ := ok_of_bind h
  obtain ⟨above, hparent, h⟩ := ok_of_bind h
  split at h
  · cases h
  · cases h
  by_cases hplace : location.asDirectory = true
  · rw [if_pos hplace] at h
    cases h
  rw [if_neg hplace] at h
  obtain ⟨found, hfound, h⟩ := ok_of_bind h
  split at h
  · cases h
  next hfile =>
  cases h
  exact ⟨hcheck, by simpa using hplace, (walk_of_lookup hparent).2,
    ⟨found, (walk_of_lookup hfound).2, hfile⟩, rfl⟩

/-- A file that was written has its text. -/
theorem lookup_write (h : disk.write location text = .ok written) :
    written.lookup location = .ok (some (.file text)) := by
  obtain ⟨hcheck, hplace, hparent, ⟨found, hwalk, hfile⟩, rfl⟩ := of_write h
  rcases List.eq_nil_or_concat location.names with hnames | ⟨above, last, hnames⟩
  · rw [hnames, walk] at hwalk
    cases hwalk
    exact absurd rfl hfile
  · rw [List.concat_eq_append] at hnames
    rw [hnames] at hwalk
    rw [hnames, List.dropLast_concat] at hparent
    have hlast := not_tooLong_of_walk above hparent hwalk
    refine lookup_of_walk hcheck hplace ?_
    rw [hnames]
    exact walk_put above last hparent hlast

/-- A file that is found is there and can be read. -/
theorem read_of_lookup (h : disk.lookup location = .ok (some (.file text))) :
    disk.has location = true ∧ disk.read location = .ok text := by
  refine ⟨by rw [has, h], ?_⟩
  rw [read, h]
  rfl

end Disk

namespace SettingsStore

variable {root : Option String} {store : SettingsStore} {settings : Settings} {path text : String}

theorem lookup_of_writeFile {location : Location}
    (h : (writeFile location text store).result = .ok ()) :
    (writeFile location text store).state.disk.lookup location = .ok (some (.file text)) := by
  have hrun : writeFile location text store = (do
      let disk ← Action.ofExcept ((store.disk.write location text).mapError Fault.disk)
      Action.modify fun s => { s with disk } : Action SettingsStore Unit) store := rfl
  rw [hrun] at h ⊢
  cases hwrite : store.disk.write location text with
  | error fault =>
    rw [hwrite] at h
    cases h
  | ok disk => exact Disk.lookup_write hwrite

/-- After the settings were saved their file holds them. -/
theorem lookup_of_save (hpath : path? root = some path)
    (h : (save root settings store).result = .ok true) :
    (save root settings store).state.disk.lookup (.ofPath path) =
      .ok (some (.file (encode settings))) := by
  let attempt : Action SettingsStore Bool := do
    ensureDirectory (Location.ofPath path).parent
    writeFile (.ofPath path) (encode settings)
    Action.log (.settingsSaved path)
    return true
  have hsave : save root settings = Action.rescue attempt fun fault => do
      Action.report .settingsSave fault
      return false := by
    rw [save, hpath]
  rw [hsave] at h ⊢
  rcases hrun : attempt store with ⟨fault | saved, after, trace⟩
  · rw [Action.rescue_of_error hrun] at h
    cases h
  · rw [Action.rescue_of_ok hrun] at h ⊢
    have hdone : (attempt store).result = .ok saved := by rw [hrun]
    obtain ⟨_, _, hrest, hstate⟩ := Action.ok_of_bind hdone
    obtain ⟨_, hwrite, _, hlast⟩ := Action.ok_of_bind hrest
    have hafter : after = (writeFile (.ofPath path) (encode settings)
        (ensureDirectory (Location.ofPath path).parent store).state).state := by
      rw [show after = (attempt store).state by rw [hrun], hstate, hlast]
      rfl
    rw [hafter]
    exact lookup_of_writeFile hwrite

/-- Settings that a file holds are the ones that are read anew. -/
theorem refresh_of_lookup (hpath : path? root = some path)
    (hfile : store.disk.lookup (.ofPath path) = .ok (some (.file text)))
    (hdecode : decode text = .ok (settings, [])) :
    refresh root store = ⟨.ok settings, { store with remembered := some (root, settings) },
      [.log .settingsRefreshing, .log (.settingsLoaded path)]⟩ := by
  obtain ⟨hhas, hread⟩ := Disk.read_of_lookup hfile
  let forgotten : SettingsStore := { store with remembered := none }
  have hreadFile : readFile path forgotten =
      ⟨.ok settings, forgotten, [.log (.settingsLoaded path)]⟩ := by
    rw [readFile, Action.bind_of_quiet (Action.get_apply _),
      Action.bind_of_quiet (by rw [Action.ofExcept_apply, hread]; rfl),
      Action.bind_of_quiet (by rw [Action.ofExcept_apply, hdecode])]
    rfl
  have hreadNow : readNow root forgotten =
      ⟨.ok settings, forgotten, [.log (.settingsLoaded path)]⟩ := by
    have hthere : (some path).filter (fun path => forgotten.disk.has (.ofPath path)) = some path := by
      rw [Option.filter_some, if_pos hhas]
    rw [readNow, Action.bind_of_quiet (Action.get_apply _), hpath, hthere]
    exact Action.rescue_of_ok hreadFile _
  have hload : load root forgotten = ⟨.ok settings, { store with remembered := some (root, settings) },
      [.log (.settingsLoaded path)]⟩ := by
    rw [load, Action.bind_of_quiet (Action.get_apply _)]
    dsimp only [forgotten, Option.filter]
    rw [Action.bind_of_ok hreadNow]
    rfl
  rw [refresh, Action.bind_of_ok (Action.log_apply _ _),
    Action.bind_of_quiet (Action.modify_apply _ _), hload]
  rfl

/-- What is written for orderly settings is decoded as what was written. -/
theorem decode_encode (hformed : settings.WellFormed) (horderly : settings.Orderly)
    (hheight : settings.minLines < Number.exactLimit) :
    decode (encode settings) = .ok (settings, []) := by
  rw [decode, encode, Json.parse?_pretty (horderly.toJson_sound hheight)]
  exact congrArg Except.ok hformed.ofJson_toJson

/-- Whatever value settings were read from, they read back from the value that is made of them,
and without a warning. If that value was one that a text can show and the height is exact, settings
that were saved are those that are read anew from the file, and only messages of success are left.
Every value that was read from a text is one that a text can show. -/
theorem refresh_of_save (raw : Json) (root : Option String) (store : SettingsStore) :
    let settings := (Settings.ofJson raw).1
    let saved := save root settings store
    Settings.ofJson settings.toJson = (settings, []) ∧
      (raw.Sound (fun _ => True) → settings.minLines ≤ 2 ^ 53 - 1 → saved.result = .ok true →
        ∃ path, path? root = some path ∧ refresh root saved.state =
          ⟨.ok settings, { saved.state with remembered := some (root, settings) },
            [.log .settingsRefreshing, .log (.settingsLoaded path)]⟩) ∧
      (∀ text, Json.parse? text = some raw → raw.Sound fun _ => True) := by
  intro settings saved
  have hformed : settings.WellFormed := Settings.ofJson_wellFormed raw
  refine ⟨hformed.ofJson_toJson, fun hsound hheight hsaved => ?_, fun _ => Json.sound_of_parse?⟩
  have horderly : settings.Orderly := Settings.ofJson_orderly hsound
  have hexact : settings.minLines < Number.exactLimit := by
    change settings.minLines < 2 ^ 53
    omega
  cases hpath : path? root with
  | none =>
    have hrefused : saved.result = .ok false := by
      dsimp only [saved]
      rw [save, hpath]
      rfl
    rw [hrefused] at hsaved
    cases hsaved
  | some path =>
    exact ⟨path, rfl, refresh_of_lookup hpath (lookup_of_save hpath hsaved)
      (decode_encode hformed horderly hexact)⟩

/-- Names that are indices, a name no table holds, a character outside the basic plane, and fields
that are ignored. -/
theorem refresh_of_save_with_awkward_names :
    let raw : Json := .object [
      ("minLines", .number (.finite 4503599627370497)),
      ("style", .object [("margin", .string "0 \"1\"\\"), ("color", .null)]),
      ("scopeTargets", .object [("7", .array [.string "𝒦\n"]), ("10", .array []),
        ("__proto__", .array [.string "lost"]), ("go", .array [.null])]),
      ("grammars", .object [("tri-x", .string "tree_x-1.wasm"), ("bad", .string "../x.wasm")])]
    let settings := (Settings.ofJson raw).1
    let saved := save (some "/w") settings (holding "/w")
    ∃ path, path? (some "/w") = some path ∧ refresh (some "/w") saved.state =
      ⟨.ok settings, { saved.state with remembered := some (some "/w", settings) },
        [.log .settingsRefreshing, .log (.settingsLoaded path)]⟩ := by
  intro raw
  have hstring (text : Text) : Json.Sound (fun _ => True) (.string text) := .string text
  have hsound : raw.Sound fun _ => True := by
    refine .object (by decide +kernel) (by decide +kernel) ?_
    simp only [List.forall_mem_cons, List.not_mem_nil, false_implies, implies_true, and_true]
    refine ⟨.number trivial, .object (by decide +kernel) (by decide +kernel) ?_,
      .object (by decide +kernel) (by decide +kernel) ?_,
      .object (by decide +kernel) (by decide +kernel) ?_⟩
    · simp only [List.forall_mem_cons, List.not_mem_nil, false_implies, implies_true, and_true]
      exact ⟨.string _, .null⟩
    · simp only [List.forall_mem_cons, List.not_mem_nil, false_implies, implies_true, and_true]
      exact ⟨.array (by simpa using hstring _), .array (by simp), .array (by simpa using hstring _),
        .array (by simpa using Json.Sound.null)⟩
    · simp only [List.forall_mem_cons, List.not_mem_nil, false_implies, implies_true, and_true]
      exact ⟨.string _, .string _⟩
  exact (refresh_of_save raw (some "/w") (holding "/w")).2.1 hsound (by decide +kernel)
    (by decide +kernel)

end SettingsStore

end ClosingLabels
