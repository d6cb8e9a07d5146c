import ClosingLabels.Proofs.Conduct
import ClosingLabels.Settings.Store

/-!
# What a settings file says

Whatever is at the place of a settings file, there are settings in the end: those that the file
holds, or the standard ones. Reading them changes nothing. Those of the workspace that was asked
for last are remembered, and all others are read.
-/

namespace ClosingLabels.SettingsStore

/-- The settings in a file, if there is one that can be read as JSON. -/
def inFile? (disk : Disk) (path : String) : Option Settings :=
  ((disk.read (.ofPath path)).toOption.bind Json.parse?).map fun json => (Settings.ofJson json).1

/-- The settings of a workspace as its file says, or else the standard ones. -/
def reading (disk : Disk) (root : Option String) : Settings :=
  ((path? root).bind (inFile? disk)).getD .standard

/-- There are no settings where there is nothing. -/
theorem inFile?_of_has {disk : Disk} {path : String} (h : disk.has (.ofPath path) = false) :
    inFile? disk path = none := by
  rw [Disk.has] at h
  rw [inFile?, Disk.read]
  match hfound : disk.lookup (.ofPath path) with
  | .error fault => rfl
  | .ok none => rfl
  | .ok (some entry) =>
    rw [hfound] at h
    cases h

/-- Warnings change nothing. -/
theorem warnings_apply (warnings : List Warning) (store : SettingsStore) :
    ∃ trace, Action.each warnings Action.warn store = ⟨.ok (), store, trace⟩ := by
  induction warnings with
  | nil => exact ⟨[], rfl⟩
  | cons warning rest ih =>
    obtain ⟨trace, hrest⟩ := ih
    have hwarn : Action.warn warning store = ⟨.ok (), store, [.warn warning]⟩ := rfl
    exact ⟨_, by rw [Action.each, Action.bind_of_ok hwarn, hrest]⟩

/-- A file is read if it can be, and nothing changes either way. -/
theorem readFile_apply (path : String) (store : SettingsStore) :
    ∃ trace,
      (∃ settings, inFile? store.disk path = some settings ∧
        readFile path store = ⟨.ok settings, store, trace⟩) ∨
      (inFile? store.disk path = none ∧ ∃ fault,
        readFile path store = ⟨.error fault, store, trace⟩) := by
  unfold readFile inFile?
  rw [Action.bind_of_quiet (Action.get_apply _)]
  cases hread : store.disk.read (.ofPath path) with
  | error fault => exact ⟨[], .inr ⟨rfl, _, rfl⟩⟩
  | ok text =>
    have htext : (Action.ofExcept ((Except.ok text).mapError Fault.disk) :
        Action SettingsStore String) store = ⟨.ok text, store, []⟩ := rfl
    rw [Action.bind_of_quiet htext]
    cases hparse : Json.parse? text with
    | none =>
      refine ⟨[], .inr ⟨?_, .malformedJson, ?_⟩⟩
      · rw [Except.toOption, Option.bind_some, hparse]
        rfl
      · rw [decode, hparse]
        rfl
    | some json =>
      obtain ⟨trace, hwarnings⟩ := warnings_apply (Settings.ofJson json).2 store
      have hdecode : (Action.ofExcept (decode text) : Action SettingsStore _) store =
          ⟨.ok (Settings.ofJson json), store, []⟩ := by
        rw [decode, hparse]
        rfl
      refine ⟨trace ++ [.log (.settingsLoaded path)],
        .inl ⟨(Settings.ofJson json).1, ?_, ?_⟩⟩
      · rw [Except.toOption, Option.bind_some, hparse]
        rfl
      · rw [Action.bind_of_quiet hdecode]
        dsimp only
        rw [Action.bind_of_ok hwarnings, Action.bind_of_ok (Action.log_apply _ _)]
        rfl

/-- What is read is what the file says, and reading changes nothing. -/
theorem readNow_apply (root : Option String) (store : SettingsStore) :
    ∃ trace, readNow root store = ⟨.ok (reading store.disk root), store, trace⟩ := by
  unfold readNow reading
  rw [Action.bind_of_quiet (Action.get_apply _)]
  cases path? root with
  | none => exact ⟨[.log .settingsMissing], rfl⟩
  | some path =>
    rw [Option.filter_some, Option.bind_some]
    cases hhas : store.disk.has (.ofPath path) with
    | false =>
      rw [inFile?_of_has hhas]
      exact ⟨[.log .settingsMissing], rfl⟩
    | true =>
      rw [if_pos rfl]
      dsimp only
      obtain ⟨trace, ⟨settings, hsettings, hfile⟩ | ⟨hnone, fault, hfile⟩⟩ :=
        readFile_apply path store
      · rw [hsettings, Action.rescue_of_ok hfile]
        exact ⟨trace, rfl⟩
      · rw [hnone, Action.rescue_of_error hfile, Action.bind_of_ok (Action.report_apply _ _ _)]
        exact ⟨_, rfl⟩

/-- Settings that were the last ones read are not read again. -/
theorem load_of_remembered {root : Option String} {store : SettingsStore}
    {settings : Settings} (h : store.remembered = some (root, settings)) :
    load root store = ⟨.ok settings, store, []⟩ := by
  have hfilter : (some (root, settings)).filter (·.1 = root) = some (root, settings) := by
    simp [Option.filter]
  rw [load, Action.bind_of_quiet (Action.get_apply _), h, hfilter]
  rfl

/-- Settings of a workspace that was not the last asked for are read. -/
theorem load_of_other {root : Option String} {store : SettingsStore}
    (h : store.remembered.map Prod.fst ≠ some root) :
    ∃ trace, load root store =
      ⟨.ok (reading store.disk root),
        { store with remembered := some (root, reading store.disk root) }, trace⟩ := by
  have hforgotten : store.remembered.filter (·.1 = root) = none := by
    rw [Option.filter_eq_none_iff]
    rintro found hfound hroot
    rw [hfound, Option.map_some, of_decide_eq_true hroot] at h
    exact h rfl
  obtain ⟨trace, hread⟩ := readNow_apply root store
  unfold load
  rw [Action.bind_of_quiet (Action.get_apply _), hforgotten]
  dsimp only
  rw [Action.bind_of_ok hread, Action.bind_of_quiet (Action.modify_apply _ _)]
  exact ⟨_, rfl⟩

/-- A refresh reads in any case. -/
theorem refresh_apply (root : Option String) (store : SettingsStore) :
    ∃ trace, refresh root store =
      ⟨.ok (reading store.disk root),
        { store with remembered := some (root, reading store.disk root) }, trace⟩ := by
  obtain ⟨trace, hload⟩ := @load_of_other root { store with remembered := none } nofun
  unfold refresh
  rw [Action.bind_of_ok (Action.log_apply _ _), Action.bind_of_quiet (Action.modify_apply _ _),
    hload]
  exact ⟨_, rfl⟩

end ClosingLabels.SettingsStore
