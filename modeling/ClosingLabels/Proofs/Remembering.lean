import ClosingLabels.Proofs.Escaping
import ClosingLabels.Proofs.Saving
import Mathlib.Data.List.Induction

/-!
# Settings as they were read last

Files come, change and go while settings are loaded, refreshed, saved and prepared for any
workspaces. Settings that are loaded are those of the latest reading for their workspace, unless
those of another workspace were asked for since; then the file is read. Saving and preparing are no
readings, and preparing leaves alone whatever is on the disk already.
-/

namespace ClosingLabels

open ClosingLabels.Action (Leads Maintains)

/-! ## What stays on a disk -/

namespace Disk

variable {disk between other written : Disk} {location : Location} {entry found : DiskEntry}
  {text : String}

/-- Everything that is listed on one disk is listed on another. -/
def Within (disk other : Disk) : Prop :=
  ∀ path entry, disk.find? path = some entry → other.find? path = some entry

/-- Everything that is found on one disk is found on another. -/
def Spared (disk other : Disk) : Prop :=
  ∀ location entry, disk.lookup location = .ok (some entry) →
    other.lookup location = .ok (some entry)

/-- What is found at the end of a way is listed there. -/
theorem find?_of_walk {done rest : List String} (h : disk.walk done rest = .ok (some entry)) :
    disk.find? (done ++ rest) = some entry := by
  induction rest generalizing done with
  | nil =>
    rw [walk] at h
    rw [List.append_nil]
    exact Except.ok.inj h
  | cons name more ih =>
    rw [walk] at h
    split at h
    · cases h
    · split at h
      · cases h
      · have hbelow := ih h
        rwa [List.append_assoc] at hbelow
      · next text hfile =>
        split at h
        · next hlast =>
          rw [List.isEmpty_iff.mp hlast]
          cases h
          exact hfile
        · cases h

/-- Where everything that is found on the way is listed, the same is found at its end. -/
theorem walk_of_listed {done rest : List String} (h : disk.walk done rest = .ok (some entry))
    (hlisted : ∀ way found, way <+: rest → disk.walk done way = .ok (some found) →
      other.find? (done ++ way) = some found) :
    other.walk done rest = .ok (some entry) := by
  induction rest generalizing done with
  | nil =>
    have hend := hlisted [] entry List.nil_prefix h
    rw [List.append_nil] at hend
    rw [walk, hend]
  | cons name more ih =>
    rw [walk] at h ⊢
    split at h
    · cases h
    · next hlong =>
      rw [if_neg hlong]
      split at h
      · cases h
      · next hdirectory =>
        have hbelow (way : List String) :
            disk.walk done (name :: way) = disk.walk (done ++ [name]) way := by
          rw [walk, if_neg hlong, hdirectory]
        have hhere : other.find? (done ++ [name]) = some .directory := by
          refine hlisted [name] _ ⟨more, rfl⟩ ?_
          rw [hbelow, walk, hdirectory]
        rw [hhere]
        refine ih h fun way found hway hfound => ?_
        rw [List.append_assoc]
        refine hlisted (name :: way) found ?_ ((hbelow way).trans hfound)
        exact (List.prefix_cons_inj name).mpr hway
      · next text hfile =>
        split at h
        · next hlast =>
          have hhere : other.find? (done ++ [name]) = some (.file text) := by
            refine hlisted [name] _ ⟨more, rfl⟩ ?_
            rw [walk, if_neg hlong, hfile]
            rfl
          rw [hhere]
          dsimp only
          rw [if_pos hlast]
          exact h
        · cases h

/-- What is found at a place depends on the way there only. -/
theorem lookup_congr (h : other.walk [] location.names = disk.walk [] location.names) :
    other.lookup location = disk.lookup location := by
  rw [lookup, lookup, h]

theorem Within.spared (h : disk.Within other) : disk.Spared other := by
  intro location entry hfound
  have hwalk := (walk_of_lookup hfound).2
  rw [lookup_congr ((walk_of_listed hwalk fun way found _ hway => ?_).trans hwalk.symm), hfound]
  exact h _ _ (find?_of_walk hway)

/-- Making directories takes nothing away. -/
theorem within_makeBelow (done names : List String) (asDirectory : Bool) :
    disk.Within (disk.makeBelow done asDirectory names).1 := by
  induction names generalizing disk done with
  | nil => exact fun _ _ h => h
  | cons name rest ih =>
    rw [makeBelow]
    split
    · exact fun _ _ h => h
    · split
      · exact ih _
      · exact fun _ _ h => h
      · next hnothing =>
        refine fun path entry hentry => ih _ path entry ?_
        rw [find?_put_of_ne disk (fun heq => ?_)]
        · exact hentry
        · rw [heq, hnothing] at hentry
          cases hentry

theorem within_makeDirectory (location : Location) :
    disk.Within (disk.makeDirectory location).1 := by
  rw [makeDirectory]
  split
  · exact fun _ _ h => h
  · exact within_makeBelow _ _ _

/-- A file that is written where nothing was takes nothing away, even if directories were made
before. -/
theorem spared_write (hnothing : disk.has location = false) (hbetween : disk.Within between)
    (h : between.write location text = .ok written) : disk.Spared written := by
  obtain ⟨hcheck, hplace, -, -, rfl⟩ := of_write h
  intro other entry hfound
  have hwalk := (walk_of_lookup hfound).2
  rw [lookup_congr ((walk_of_listed hwalk fun way found _ hway => ?_).trans hwalk.symm), hfound]
  have hne : [] ++ way ≠ location.names := by
    -- Otherwise there was something at the place of the file.
    intro heq
    rw [List.nil_append] at heq
    rw [has, lookup_of_walk hcheck hplace (heq ▸ hway)] at hnothing
    cases hnothing
  rw [find?_put_of_ne between hne]
  exact hbetween _ _ (find?_of_walk hway)

end Disk

namespace SettingsStore

/-! ## Writings -/

/-- A directory is made where there was none, and nothing is taken away. -/
theorem ensureDirectory_maintains (disk : Disk) (location : Location) :
    Maintains (fun _ store => disk.Within store.disk) (ensureDirectory location) := by
  refine .bind (.gets _) fun _ => .ite ?_ (.pure _)
  intro past store hwithin path entry hentry
  rw [makeDirectory, Action.bind_of_quiet (Action.get_apply _)]
  have hmade := Disk.within_makeDirectory location path entry (hwithin path entry hentry)
  rcases hrun : store.disk.makeDirectory location with ⟨made, fault | _⟩
  · rw [hrun] at hmade
    exact hmade
  · rw [hrun] at hmade
    exact hmade

/-- A file that is written where nothing was spares everything else. -/
theorem writeFile_leads {disk : Disk} {location : Location} (text : String)
    (hnothing : disk.has location = false) :
    Leads (fun _ store => disk.Within store.disk) (fun _ store => disk.Spared store.disk)
      (writeFile location text) := by
  intro past store hwithin
  rw [writeFile, change, Action.bind_of_quiet (Action.get_apply _)]
  cases hwritten : store.disk.write location text with
  | error fault => exact hwithin.spared
  | ok written => exact Disk.spared_write hnothing hwithin hwritten

/-- So settings that are saved where there was no file spare everything else. -/
theorem save_leads {disk : Disk} {root : Option String}
    (hnothing : ∀ path, path? root = some path → disk.has (.ofPath path) = false)
    (settings : Settings) :
    Leads (fun _ store => disk.Within store.disk) (fun _ store => disk.Spared store.disk)
      (save root settings) := by
  have hstill (event : Event) (answer : Bool) :
      Maintains (fun _ store => disk.Spared store.disk)
        (do Action.emit event; return answer : Action SettingsStore Bool) :=
    .bind (.emit fun _ _ h => h) fun _ => .pure _
  unfold save
  cases hpath : path? root with
  | none => exact fun _ _ hwithin => hwithin.spared
  | some path =>
    refine .rescue ?_ fun fault => hstill _ _
    refine (ensureDirectory_maintains disk _).leads.bind (fun _ => ?_) fun _ _ h => h.spared
    exact (writeFile_leads _ (hnothing path hpath)).bind_maintains fun _ => hstill _ _

/-- The standard settings are written where nothing was, if at all. -/
theorem prepare_spares (root : Option String) (store : SettingsStore) :
    store.disk.Spared (prepare root store).state.disk := by
  have hwithin : store.disk.Within store.disk := fun _ _ h => h
  unfold prepare
  cases hpath : path? root with
  | none => exact hwithin.spared
  | some path =>
    dsimp only
    rw [Action.bind_of_quiet (Action.get_apply _)]
    split
    · exact hwithin.spared
    · next hnothing =>
      refine save_leads (fun other hother => ?_) .standard [] store hwithin
      rw [← Option.some.inj (hpath.symm.trans hother)]
      simpa using hnothing

/-! ## Steps -/

/-- Something that is done to settings, or to the disk beside them. -/
inductive Step where
  | load (root : Option String)
  | refresh (root : Option String)
  | save (root : Option String) (settings : Settings)
  | prepare (root : Option String)
  /-- Files and directories come, change and go. -/
  | outside (disk : Disk)

namespace Step

/-- Performs a step. -/
def perform : Step → Action SettingsStore Unit
  | .load root => do
    let _ ← SettingsStore.load root
  | .refresh root => do
    let _ ← SettingsStore.refresh root
  | .save root settings => do
    let _ ← SettingsStore.save root settings
  | .prepare root => do
    let _ ← SettingsStore.prepare root
  | .outside disk => Action.modify fun store => { store with disk }

/-- The workspace whose settings a step asks for. -/
def asked? : Step → Option (Option String)
  | .load root => some root
  | .refresh root => some root
  | _ => none

end Step

/-- The workspace whose settings were asked for last. -/
def lastAsked (steps : List Step) : Option (Option String) :=
  (steps.filterMap Step.asked?).getLast?

/-- Whether a step that comes after others reads the file of a workspace: a refresh does, and
loading does if the settings asked for last were not those of the workspace. -/
def Step.Reads (earlier : List Step) (root : Option String) : Step → Prop
  | .load other => other = root ∧ lastAsked earlier ≠ some root
  | .refresh other => other = root
  | _ => False

/-- The latest of the earlier steps to read the file of a workspace came after those before, and
settings of no other workspace were asked for since. -/
inductive LastRead (root : Option String) : (earlier before : List Step) → Prop
  | now {before : List Step} {step : Step} (hreads : step.Reads before root) :
      LastRead root (before ++ [step]) before
  | since {earlier before : List Step} {step : Step} (hlast : LastRead root earlier before)
      (hquiet : ¬step.Reads earlier root)
      (hsame : ∀ other, step.asked? = some other → other = root) :
      LastRead root (earlier ++ [step]) before

/-- The disk and what is remembered of it after some steps, when nothing was at first. -/
def after (disk : Disk) (steps : List Step) : SettingsStore :=
  Action.finish Step.perform { disk } steps

section

variable {disk : Disk} {root : Option String} {earlier before : List Step} {step : Step}

theorem after_concat : after disk (earlier ++ [step]) =
    (step.perform (after disk earlier)).state := by
  rw [after, Action.finish_append]
  rfl

theorem lastAsked_concat : lastAsked (earlier ++ [step]) = step.asked?.or (lastAsked earlier) := by
  rw [lastAsked, List.filterMap_append, List.getLast?_append]
  cases step <;> rfl

/-- After a step the settings that it asked for are remembered; if it asked for none, those that
were remembered before still are. -/
theorem remembered_perform (step : Step) (store : SettingsStore) :
    (step.perform store).state.remembered.map Prod.fst =
      step.asked?.or (store.remembered.map Prod.fst) := by
  cases step with
  | load root =>
    obtain ⟨settings, -, hremembered⟩ := load_remembers root store
    rw [Step.perform, Action.state_bind_pure, hremembered]
    rfl
  | refresh root =>
    obtain ⟨trace, happly⟩ := refresh_apply root store
    rw [Step.perform, Action.state_bind_pure, happly]
    rfl
  | save root settings =>
    rw [Step.perform, Action.state_bind_pure, (save_leaves root settings).state]
    rfl
  | prepare root =>
    rw [Step.perform, Action.state_bind_pure, (prepare_leaves root).state]
    rfl
  | outside disk => rfl

/-- What is remembered is of the workspace that was asked for last. -/
theorem remembered_after (disk : Disk) (steps : List Step) :
    (after disk steps).remembered.map Prod.fst = lastAsked steps := by
  induction steps using List.reverseRecOn with
  | nil => rfl
  | append_singleton earlier step ih =>
    rw [after_concat, remembered_perform, ih, lastAsked_concat]

/-- A step that reads the file of a workspace remembers what it read. -/
theorem Step.Reads.remembered (h : step.Reads before root) :
    (after disk (before ++ [step])).remembered =
      some (root, reading (after disk before).disk root) := by
  rw [after_concat]
  cases step with
  | load other =>
    obtain ⟨rfl, hother⟩ := h
    rw [← remembered_after disk] at hother
    obtain ⟨trace, happly⟩ := load_of_other hother
    rw [Step.perform, Action.state_bind_pure, happly]
  | refresh other =>
    obtain rfl : other = root := h
    obtain ⟨trace, happly⟩ := refresh_apply other (after disk before)
    rw [Step.perform, Action.state_bind_pure, happly]
  | save other settings => cases h
  | prepare other => cases h
  | outside files => cases h

/-- And that is what is remembered until it is read anew, or another workspace asked for. -/
theorem LastRead.remembered (h : LastRead root earlier before) :
    (after disk earlier).remembered = some (root, reading (after disk before).disk root) := by
  induction h with
  | now hreads => exact hreads.remembered
  | @since earlier before step _ hquiet hsame ih =>
    rw [after_concat]
    cases step with
    | load other =>
      rw [Step.perform, Action.state_bind_pure, hsame other rfl, load_of_remembered ih]
      exact ih
    | refresh other => exact absurd (hsame other rfl) hquiet
    | save other settings =>
      rw [Step.perform, Action.state_bind_pure, (save_leaves other settings).state]
      exact ih
    | prepare other =>
      rw [Step.perform, Action.state_bind_pure, (prepare_leaves other).state]
      exact ih
    | outside files => exact ih

/-- So they are the settings that were asked for last. -/
theorem LastRead.asked (h : LastRead root earlier before) : lastAsked earlier = some root := by
  rw [← remembered_after {}, h.remembered]
  rfl

/-- And whatever settings were asked for last were read at some time. -/
theorem exists_lastRead (h : lastAsked earlier = some root) :
    ∃ before, LastRead root earlier before := by
  induction earlier using List.reverseRecOn with
  | nil => cases h
  | append_singleton earlier step ih =>
    by_cases hreads : step.Reads earlier root
    · exact ⟨earlier, .now hreads⟩
    · have hsame (other : Option String) (hother : step.asked? = some other) : other = root := by
        rw [lastAsked_concat, hother] at h
        exact Option.some.inj h
      have hlast : lastAsked earlier = some root := by
        cases step with
        | load other =>
          obtain rfl : other = root := hsame other rfl
          exact not_not.mp fun hother => hreads ⟨rfl, hother⟩
        | refresh other => exact absurd (hsame other rfl) hreads
        | save other settings => rwa [lastAsked_concat] at h
        | prepare other => rwa [lastAsked_concat] at h
        | outside files => rwa [lastAsked_concat] at h
      obtain ⟨before, hbefore⟩ := ih hlast
      exact ⟨before, .since hbefore hreads hsame⟩

end

/-- **What loading gives.** Whatever was done before to the settings of any workspaces, and whatever
became of the files, the settings of a workspace that are loaded are those that its file held when
it was last read, if no other workspace was asked for since, and else they are read now. A refresh
reads in any case. Saving and preparing remember nothing and forget nothing, neither of them fails,
and preparing leaves everything as it was found. -/
theorem load_gives_last_reading (disk : Disk) (earlier : List Step) (root : Option String) :
    let store := after disk earlier
    (∀ before, LastRead root earlier before →
      load root store = ⟨.ok (reading (after disk before).disk root), store, []⟩) ∧
    ((∀ before, ¬LastRead root earlier before) →
      (load root store).result = .ok (reading store.disk root)) ∧
    (refresh root store).result = .ok (reading store.disk root) ∧
    (∀ settings, ∃ saved, (save root settings store).result = .ok saved ∧
      (save root settings store).state.remembered = store.remembered) ∧
    (∃ ready, (prepare root store).result = .ok ready) ∧
    (prepare root store).state.remembered = store.remembered ∧
    store.disk.Spared (prepare root store).state.disk := by
  intro store
  refine ⟨fun before hlast => load_of_remembered hlast.remembered, fun hnever => ?_, ?_,
    fun settings => ?_, ?_, (prepare_leaves root).state store, prepare_spares root store⟩
  · have hother : store.remembered.map Prod.fst ≠ some root := by
      rw [remembered_after]
      intro hasked
      obtain ⟨before, hbefore⟩ := exists_lastRead hasked
      exact hnever before hbefore
    obtain ⟨trace, happly⟩ := load_of_other hother
    rw [happly]
  · obtain ⟨trace, happly⟩ := refresh_apply root store
    rw [happly]
  · obtain ⟨⟨saved, hsaved⟩, -⟩ := save_unfailing root settings store trivial
    exact ⟨saved, hsaved, (save_leaves root settings).state store⟩
  · exact (prepare_unfailing root store trivial).1

/-- A file changes after it was read, settings are saved for one workspace and prepared for
another, and in the end those of no workspace are asked for. -/
theorem load_gives_last_reading_before_change :
    let files (text : String) : Disk :=
      ⟨[(["a"], .directory), (["a", ".vscode"], .directory),
        (["a", ".vscode", "scope-echo.json"], .file text)]⟩
    let old := files "\x7b\"minLines\": 3\x7d"
    let new := files "\x7b\"minLines\": 9\x7d"
    let earlier : List Step :=
      [.outside old, .load (some "/a"), .outside new, .save (some "/b") .standard,
        .prepare (some "/a")]
    let later := earlier ++ [.load none]
    LastRead (some "/a") earlier [.outside old] ∧
      (load (some "/a") (after {} earlier)).result = .ok { minLines := 3 } ∧
      (refresh (some "/a") (after {} earlier)).result = .ok { minLines := 9 } ∧
      (∀ before, ¬LastRead (some "/a") later before) ∧
      (load (some "/a") (after {} later)).result = .ok { minLines := 9 } := by
  intro files old new earlier later
  have hread : LastRead (some "/a") [.outside old, .load (some "/a")] [.outside old] :=
    @LastRead.now _ [.outside old] (.load (some "/a")) ⟨rfl, nofun⟩
  have hchanged := @LastRead.since _ _ _ (.outside new) hread id nofun
  have hsaved := @LastRead.since _ _ _ (.save (some "/b") .standard) hchanged id nofun
  have hlast : LastRead (some "/a") earlier [.outside old] :=
    @LastRead.since _ _ _ (.prepare (some "/a")) hsaved id nofun
  have hnever (before : List Step) : ¬LastRead (some "/a") later before := by
    intro h
    have hasked := h.asked
    rw [lastAsked_concat] at hasked
    exact absurd (Option.some.inj hasked) (by decide)
  obtain ⟨hkept, -, hrefreshed, -⟩ := load_gives_last_reading {} earlier (some "/a")
  obtain ⟨-, hnow, -⟩ := load_gives_last_reading {} later (some "/a")
  refine ⟨hlast, ?_, ?_, hnever, ?_⟩
  · rw [hkept _ hlast]
    decide +kernel
  · rw [hrefreshed]
    decide +kernel
  · rw [hnow hnever]
    decide +kernel

end SettingsStore

end ClosingLabels
