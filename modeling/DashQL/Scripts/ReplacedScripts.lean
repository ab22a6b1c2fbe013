import DashQL.Scripts.ReorderedViews
import DashQL.Scripts.Replacement

/-!
# The replaced notebook

A notebook that was replaced by a snapshot matches it, scripts keep their keys,
and nothing is done to a notebook that matched before, except that a composer
that it does not have is created (`replaced`).
-/

namespace DashQL.Scripts

open List
open InsertionMap (get?_set mem_keys_iff mem_values_iff)

open Storage Notebook

/-! ## The match -/

/-- The folders that are compared: the virtual folder of an empty notebook does not count. -/
def memoryPages (state : NotebookScripts) (snapshot : Snapshot) : List Text :=
  if (snapshot.folders.map StoredFolder.name).eraseDups = [] ∧
      state.scriptFolders.keys = ["Untitled".toList] then []
  else state.scriptFolders.keys

def memoryScripts (state : NotebookScripts) : List ScriptData :=
  state.scripts.values.filter fun script => decide script.HasPath

def diskScripts (snapshot : Snapshot) : InsertionMap Text Text :=
  snapshot.files.foldl (fun m file => m.set file.1 file.2) .empty

section Match

variable {state : NotebookScripts} {snapshot : Snapshot}

/-- What the match compares. -/
structure Matches (state : NotebookScripts) (snapshot : Snapshot) : Prop where
  pagesLength : (snapshot.folders.map StoredFolder.name).eraseDups.length =
    (memoryPages state snapshot).length
  pages : ∀ page ∈ (snapshot.folders.map StoredFolder.name).eraseDups,
    page ∈ memoryPages state snapshot
  scriptsLength : (memoryScripts state).length = (diskScripts snapshot).keys.length
  scripts : ∀ script ∈ memoryScripts state,
    (diskScripts snapshot).get? script.path = some script.text
  draft : state.draftText = snapshot.draft.getD []

theorem matches_iff :
    notebookScriptsMatchStorageSnapshot state snapshot = true ↔ Matches state snapshot := by
  have heq : notebookScriptsMatchStorageSnapshot state snapshot =
      if (snapshot.folders.map StoredFolder.name).eraseDups.length ≠
            (memoryPages state snapshot).length ∨
          ∃ page ∈ (snapshot.folders.map StoredFolder.name).eraseDups,
            page ∉ memoryPages state snapshot then false
      else if (memoryScripts state).length ≠ (diskScripts snapshot).keys.length then false
      else if ∃ script ∈ memoryScripts state,
          (diskScripts snapshot).get? script.path ≠ some script.text then false
      else decide (state.draftText = snapshot.draft.getD []) := rfl
  rw [heq]
  split_ifs with hpages hlength hscripts
  · refine iff_of_false not_false fun h => ?_
    rcases hpages with hpages | ⟨page, hpage, hmem⟩
    · exact hpages h.pagesLength
    · exact hmem (h.pages page hpage)
  · exact iff_of_false not_false fun h => hlength h.scriptsLength
  · refine iff_of_false not_false fun h => ?_
    obtain ⟨script, hscript, hne⟩ := hscripts
    exact hne (h.scripts script hscript)
  · simp only [not_or, not_not, not_exists, not_and, ne_eq] at hpages hlength hscripts
    rw [decide_eq_true_iff]
    exact ⟨fun hdraft => ⟨hpages.1, hpages.2, hlength, hscripts, hdraft⟩, Matches.draft⟩

section WellFormed

variable (h : snapshot.WellFormed)

include h

theorem nodup_files : (snapshot.files.map Prod.fst).Nodup := by
  rw [files_eq_map_stored, map_map]
  exact nodup_storedPaths h

theorem keys_diskScripts : (diskScripts snapshot).keys = snapshot.files.map Prod.fst := by
  rw [diskScripts, InsertionMap.keys_foldl_set (nodup_files h) (by simp)]
  rfl

theorem get?_diskScripts {entry : Text × StoredScript} (hentry : entry ∈ snapshot.stored) :
    (diskScripts snapshot).get? (storedPath entry) = some entry.2.sql := by
  refine InsertionMap.get?_foldl_set_of_mem (nodup_files h) ?_
  rw [files_eq_map_stored]
  exact mem_map_of_mem hentry

theorem existing_of_matches (hstate : state.Consistent) (hmatch : Matches state snapshot)
    {entry : Text × StoredScript} (hentry : entry ∈ snapshot.stored) :
    ∃ script, (existingByPath state).get? (storedPath entry) = some script ∧
      script.text = entry.2.sql := by
  have hmemory : ∀ script, script ∈ memoryScripts state ↔
      script ∈ state.scripts.values ∧ script.HasPath :=
    fun script => by rw [memoryScripts, mem_filter, decide_eq_true_iff]
  have hvalues : (memoryScripts state).Nodup := nodup_memoryScripts hstate
  have hnodup : ((memoryScripts state).map ScriptData.path).Nodup := by
    refine List.Nodup.map_on ?_ hvalues
    intro script hscript other hother heq
    rw [hmemory] at hscript hother
    exact hstate.paths script hscript.1 other hother.1 hscript.2 hother.2 heq
  have hsub : (memoryScripts state).map ScriptData.path ⊆ (diskScripts snapshot).keys := by
    intro path hpath
    obtain ⟨script, hscript, rfl⟩ := mem_map.mp hpath
    exact mem_keys_iff.mpr ⟨_, hmatch.scripts script hscript⟩
  have hperm := (subperm_of_subset hnodup hsub).perm_of_length_le
    (by rw [length_map, hmatch.scriptsLength])
  have hmem : storedPath entry ∈ (diskScripts snapshot).keys :=
    mem_keys_iff.mpr ⟨_, get?_diskScripts h hentry⟩
  obtain ⟨script, hscript, hpath⟩ := mem_map.mp (hperm.mem_iff.mpr hmem)
  obtain ⟨hvalue, hhas⟩ := (hmemory script).mp hscript
  refine ⟨script, (get?_existingByPath hstate).mpr ⟨hvalue, hhas, hpath⟩, ?_⟩
  have htext := hmatch.scripts script hscript
  rw [hpath, get?_diskScripts h hentry] at htext
  exact (Option.some.inj htext).symm

end WellFormed

end Match

/-! ## The composer -/

variable {script : ScriptData}

section Composer

variable {freshKey : ℕ → ℕ} {state : NotebookScripts} {snapshot : Snapshot} {created : ℕ}

def composer (freshKey : ℕ → ℕ) (state : NotebookScripts) (created : ℕ) : ScriptData :=
  (state.scripts.get? state.uncommittedScriptId).getD ⟨freshKey created, [], [], []⟩

def drafted (freshKey : ℕ → ℕ) (state : NotebookScripts) (snapshot : Snapshot) (created : ℕ) :
    ScriptData :=
  if (composer freshKey state created).text ≠ snapshot.draft.getD [] then
    { composer freshKey state created with text := snapshot.draft.getD [] }
  else composer freshKey state created

theorem text_drafted : (drafted freshKey state snapshot created).text = snapshot.draft.getD [] := by
  unfold drafted
  split_ifs with hsame
  · rfl
  · exact not_not.mp hsame

theorem scriptKey_drafted : (drafted freshKey state snapshot created).scriptKey =
    (composer freshKey state created).scriptKey := by
  unfold drafted
  split_ifs <;> rfl

theorem composer_of_some (h : state.scripts.get? state.uncommittedScriptId = some script) :
    composer freshKey state created = script := by
  rw [composer, h]
  rfl

theorem composer_of_none (h : state.scripts.get? state.uncommittedScriptId = none) :
    composer freshKey state created = ⟨freshKey created, [], [], []⟩ := by
  rw [composer, h]
  rfl

theorem not_hasPath_drafted (hstate : state.Consistent) :
    ¬ (drafted freshKey state snapshot created).HasPath := by
  have hcomposer : ¬ (composer freshKey state created).HasPath := by
    cases hget : state.scripts.get? state.uncommittedScriptId with
    | some script =>
      rw [composer_of_some hget]
      exact hstate.draft script hget
    | none =>
      rw [composer_of_none hget]
      exact fun h => h.1 rfl
  unfold drafted
  split_ifs
  · exact hcomposer
  · exact hcomposer

/-- The composer has another key than the scripts of the files. -/
theorem scriptKey_drafted_ne (hstate : state.Consistent) (hkeys : FreshKeys freshKey state)
    {entry : Text × StoredScript} (h : Restored freshKey state created entry script) :
    script.scriptKey ≠ (drafted freshKey state snapshot created).scriptKey := by
  rw [scriptKey_drafted]
  intro heq
  cases hget : state.scripts.get? state.uncommittedScriptId with
  | some draft =>
    have hdraft := hstate.keyed _ _ hget
    rw [composer_of_some hget, hdraft] at heq
    cases hold : (existingByPath state).get? (storedPath entry) with
    | some old =>
      have hsome := scriptKey_mem_keys hstate hold
      rw [← (h.existing old hold).1, heq] at hsome
      exact hstate.draft old hsome ((get?_existingByPath hstate).mp hold).2.1
    | none =>
      obtain ⟨i, -, hkey⟩ := h.fresh hold
      refine hkeys.fresh i (mem_keys_iff.mpr ⟨draft, ?_⟩)
      rw [← hkey, heq, hget]
  | none =>
    rw [composer_of_none hget] at heq
    cases hold : (existingByPath state).get? (storedPath entry) with
    | some old =>
      have hsome := scriptKey_mem_keys hstate hold
      rw [← (h.existing old hold).1, heq] at hsome
      exact hkeys.fresh created (mem_keys_iff.mpr ⟨old, hsome⟩)
    | none =>
      obtain ⟨i, hi, hkey⟩ := h.fresh hold
      exact hi.ne (hkeys.injective (hkey.symm.trans heq))

end Composer

/-! ## The focus -/

/-- A focus is found as long as it does not name a folder that is merely inherited. -/
theorem exists_refocus (localeCompare : Text → Text → ℤ)
    {scriptFolders : InsertionMap Text ScriptFolder} (focus : ScriptFocus)
    (hne : scriptFolders.keys ≠ [])
    (hfocus : focus.folderName ∈ objectPrototype → focus.folderName ∈ scriptFolders.keys) :
    ∃ focus', refocus localeCompare scriptFolders focus = some focus' := by
  have hpage : ∃ page, scriptFolders.get?
      (if (readMember scriptFolders inheritedFolder focus.folderName).isSome then focus.folderName
        else (getSortedScriptFolderNames localeCompare scriptFolders).headD []) = some page := by
    refine mem_keys_iff.mp ?_
    split_ifs with hread
    · exact (isSome_readMember.mp hread).elim id hfocus
    · have hperm := sorted_perm_keys localeCompare scriptFolders
      refine hperm.mem_iff.mp ?_
      cases hview : getSortedScriptFolderNames localeCompare scriptFolders with
      | nil =>
        have hnil : sortNumerically localeCompare (objectKeys scriptFolders) = [] := hview
        rw [hnil] at hperm
        exact absurd (nil_perm.mp hperm) hne
      | cons first rest =>
        have hcons : sortNumerically localeCompare (objectKeys scriptFolders) = first :: rest :=
          hview
        rw [hcons]
        exact mem_cons_self
  obtain ⟨page, hpage⟩ := hpage
  unfold refocus
  dsimp only
  rw [hpage]
  exact ⟨_, rfl⟩

/-! ## The replacement -/

section Replaced

variable {freshKey : ℕ → ℕ} {state next : NotebookScripts} {snapshot : Snapshot}
  {localeCompare : Text → Text → ℤ}

/-- The loops over a snapshot. -/
abbrev replacing (freshKey : ℕ → ℕ) (state : NotebookScripts) (snapshot : Snapshot) : Replacing :=
  snapshot.folders.foldl (replacePage freshKey) ⟨existingByPath state, .empty, .empty, 0⟩

theorem uncommittedScriptId_eq (hstate : state.Consistent) (created : ℕ) :
    (if (state.scripts.get? state.uncommittedScriptId).isSome then state.uncommittedScriptId
      else (composer freshKey state created).scriptKey) =
      (drafted freshKey state snapshot created).scriptKey := by
  rw [scriptKey_drafted]
  cases hget : state.scripts.get? state.uncommittedScriptId with
  | some script =>
    rw [composer_of_some hget, hstate.keyed _ _ hget]
    rfl
  | none => rfl

structure NextState (freshKey : ℕ → ℕ) (state : NotebookScripts) (snapshot : Snapshot)
    (scripts : List ScriptData) (created : ℕ) (next : NotebookScripts) : Prop where
  entries : next.scripts.entries =
    (scripts ++ [drafted freshKey state snapshot created]).map
      fun script => (script.scriptKey, script)
  restored : List.Forall₂ (Restored freshKey state created) snapshot.stored scripts
  folders : next.scriptFolders.keys =
    if snapshot.folders = [] then ["Untitled".toList] else snapshot.folders.map StoredFolder.name
  uncommitted : next.uncommittedScriptId = (drafted freshKey state snapshot created).scriptKey

theorem exists_nextState (hstate : state.Consistent) (h : snapshot.WellFormed)
    (hproto : "__proto__".toList ∉ snapshot.folders.map StoredFolder.name)
    (hkeys : FreshKeys freshKey state) (hfocus : state.scriptFocus.folderName ∈ objectPrototype →
      state.scriptFocus.folderName ∈ snapshot.folders.map StoredFolder.name) :
    ∃ next scripts created,
      replaceNotebookScriptsFromStorage freshKey localeCompare state snapshot = some next ∧
        NextState freshKey state snapshot scripts created next := by
  obtain ⟨⟨scripts, hwork⟩, hfolders⟩ := restoring_snapshot hstate hkeys h hproto
  -- the virtual folder is there if and only if the snapshot has none
  have hpages : (if objectKeys (replacing freshKey state snapshot).scriptFolders = [] then
      (replacing freshKey state snapshot).scriptFolders.set "Untitled".toList
        ⟨"Untitled".toList, .empty⟩
      else (replacing freshKey state snapshot).scriptFolders).keys =
        if snapshot.folders = [] then ["Untitled".toList]
        else snapshot.folders.map StoredFolder.name := by
    have hperm := objectKeys_perm (replacing freshKey state snapshot).scriptFolders
    rw [hfolders] at hperm
    by_cases hnil : snapshot.folders = []
    · have hempty : snapshot.folders.map StoredFolder.name = [] := by rw [hnil]; rfl
      rw [hempty] at hperm hfolders
      have hnew : "Untitled".toList ∉ (replacing freshKey state snapshot).scriptFolders.keys := by
        rw [hfolders]
        exact not_mem_nil
      rw [if_pos (perm_nil.mp hperm), if_pos hnil, InsertionMap.keys_set_of_not_mem hnew, hfolders]
      rfl
    · have hne : objectKeys (replacing freshKey state snapshot).scriptFolders ≠ [] := by
        intro hkeys
        rw [hkeys] at hperm
        exact hnil (map_eq_nil_iff.mp (nil_perm.mp hperm))
      rw [if_neg hne, if_neg hnil, hfolders]
  obtain ⟨focus', hrefocus⟩ := exists_refocus localeCompare state.scriptFocus
    (by rw [hpages]; split_ifs with hnil <;> simp [hnil])
    (fun hinherited => by
      have hmem := hfocus hinherited
      rw [hpages, if_neg]
      · exact hmem
      · intro hnil
        rw [hnil] at hmem
        exact not_mem_nil hmem)
  have hfresh : (drafted freshKey state snapshot
      (replacing freshKey state snapshot).created).scriptKey ∉
        (replacing freshKey state snapshot).scripts.keys := by
    rw [InsertionMap.keys, hwork.entries, map_map]
    intro hmem
    obtain ⟨script, hscript, hkey⟩ := mem_map.mp hmem
    obtain ⟨entry, -, hrestored⟩ := exists_stored hwork.restored hscript
    exact scriptKey_drafted_ne hstate hkeys hrestored hkey
  refine ⟨_, scripts, (replacing freshKey state snapshot).created,
    congrArg (Option.map _) hrefocus, ?_, hwork.restored, hpages, uncommittedScriptId_eq hstate _⟩
  show ((replacing freshKey state snapshot).scripts.set
    (drafted freshKey state snapshot (replacing freshKey state snapshot).created).scriptKey
    (drafted freshKey state snapshot (replacing freshKey state snapshot).created)).entries = _
  rw [InsertionMap.set_of_not_mem hfresh, hwork.entries, map_append]
  rfl

section NextState

variable {scripts : List ScriptData} {created : ℕ}
  (hnext : NextState freshKey state snapshot scripts created next)

include hnext

theorem values_next : next.scripts.values = scripts ++ [drafted freshKey state snapshot created] := by
  rw [InsertionMap.values, hnext.entries, map_map]
  exact map_id _

theorem get?_next (h : script ∈ scripts ++ [drafted freshKey state snapshot created]) :
    next.scripts.get? script.scriptKey = some script := by
  rw [InsertionMap.get?_eq_some_iff, hnext.entries]
  exact mem_map_of_mem h

theorem hasPath_of_mem (h : snapshot.WellFormed) (hmem : script ∈ scripts) : script.HasPath := by
  obtain ⟨entry, hentry, hrestored⟩ := exists_stored hnext.restored hmem
  have hnames := (names_of_mem_stored h hentry).2
  exact ⟨hrestored.folderName ▸ hnames.1, hrestored.fileName ▸ hnames.2⟩

theorem memoryScripts_next (hstate : state.Consistent) (h : snapshot.WellFormed) :
    memoryScripts next = scripts := by
  have hall : (scripts.filter fun script => decide script.HasPath) = scripts :=
    filter_eq_self.mpr fun script hmem => decide_eq_true (hasPath_of_mem hnext h hmem)
  rw [memoryScripts, values_next hnext, filter_append, hall,
    filter_cons_of_neg (by simpa using not_hasPath_drafted hstate), filter_nil,
    append_nil]

/-- The virtual folder of an empty snapshot does not count, and all other folders are those of the
snapshot. -/
theorem memoryPages_next (h : snapshot.WellFormed) :
    memoryPages next snapshot = snapshot.folders.map StoredFolder.name := by
  rw [memoryPages, eraseDups_of_nodup h.folders, hnext.folders]
  by_cases hnil : snapshot.folders = []
  · rw [if_pos hnil, if_pos ⟨by rw [hnil]; rfl, rfl⟩, hnil]
    rfl
  · rw [if_neg hnil, if_neg fun hboth => hnil (map_eq_nil_iff.mp hboth.1)]

section

variable (hstate : state.Consistent)

include hstate

theorem matches_next (h : snapshot.WellFormed) : Matches next snapshot where
  pagesLength := by rw [eraseDups_of_nodup h.folders, memoryPages_next hnext h]
  pages page hpage := by
    rw [memoryPages_next hnext h]
    rwa [eraseDups_of_nodup h.folders] at hpage
  scriptsLength := by
    rw [memoryScripts_next hnext hstate h, keys_diskScripts h, files_eq_map_stored, map_map,
      length_map, hnext.restored.length_eq]
  scripts script hmem := by
    rw [memoryScripts_next hnext hstate h] at hmem
    obtain ⟨entry, hentry, hrestored⟩ := exists_stored hnext.restored hmem
    have hpath : script.path = storedPath entry := by
      rw [ScriptData.path, hrestored.folderName, hrestored.fileName]
      rfl
    rw [hpath, get?_diskScripts h hentry, hrestored.text]
  draft := by
    have hget := get?_next hnext
      (mem_append_right scripts (mem_singleton_self (drafted freshKey state snapshot created)))
    rw [NotebookScripts.draftText, NotebookScripts.text, hnext.uncommitted, hget, Option.map_some,
      text_drafted]
    rfl

theorem keeps_next {key : ℕ} (hget : state.scripts.get? key = some script) (hhas : script.HasPath)
    (hpath : script.path ∈ snapshot.files.map Prod.fst) :
    ∃ script', next.scripts.get? key = some script' ∧ script'.path = script.path := by
  rw [files_eq_map_stored, map_map] at hpath
  obtain ⟨entry, hentry, hpath⟩ := mem_map.mp hpath
  have hold : (existingByPath state).get? (storedPath entry) = some script :=
    (get?_existingByPath hstate).mpr ⟨mem_values_iff.mpr ⟨key, hget⟩, hhas, hpath.symm⟩
  obtain ⟨script', hmem, hrestored⟩ := exists_restored hnext.restored hentry
  have hkey : script'.scriptKey = key :=
    (hrestored.existing script hold).1.trans (hstate.keyed key script hget)
  refine ⟨script', ?_, ?_⟩
  · rw [← hkey]
    exact get?_next hnext (mem_append_left _ hmem)
  · rw [ScriptData.path, hrestored.folderName, hrestored.fileName]
    exact hpath

theorem unchanged_next (h : snapshot.WellFormed) (hmatch : Matches state snapshot) {key : ℕ}
    (hget : state.scripts.get? key = some script) : next.scripts.get? key = some script := by
  have hkey := hstate.keyed key script hget
  by_cases hhas : script.HasPath
  · have hmem : script.path ∈ (diskScripts snapshot).keys := by
      refine mem_keys_iff.mpr ⟨_, hmatch.scripts script ?_⟩
      exact mem_filter.mpr ⟨mem_values_iff.mpr ⟨key, hget⟩, decide_eq_true hhas⟩
    rw [keys_diskScripts h, files_eq_map_stored, map_map] at hmem
    obtain ⟨entry, hentry, hpath⟩ := mem_map.mp hmem
    have hold : (existingByPath state).get? (storedPath entry) = some script :=
      (get?_existingByPath hstate).mpr ⟨mem_values_iff.mpr ⟨key, hget⟩, hhas, hpath.symm⟩
    obtain ⟨script', hmem', hrestored⟩ := exists_restored hnext.restored hentry
    obtain ⟨old, hold', htext⟩ := existing_of_matches h hstate hmatch hentry
    obtain rfl := Option.some.inj (hold.symm.trans hold')
    obtain rfl := (hrestored.existing script hold).2 htext
    rw [← hkey]
    exact get?_next hnext (mem_append_left _ hmem')
  · have huncommitted : key = state.uncommittedScriptId :=
      (hstate.owned key script hget).resolve_left hhas
    rw [huncommitted] at hget
    have htext : script.text = snapshot.draft.getD [] := by
      have hdraft := hmatch.draft
      rwa [NotebookScripts.draftText, NotebookScripts.text, hget] at hdraft
    have hdrafted : drafted freshKey state snapshot created = script := by
      rw [drafted, composer_of_some hget, if_neg (not_not.mpr htext)]
    rw [← hkey, ← hdrafted]
    exact get?_next hnext (mem_append_right _ (mem_singleton_self _))

/-- In a notebook that matched, no script is new but that of a composer that there was not. -/
theorem keys_next (h : snapshot.WellFormed) (hmatch : Matches state snapshot) {key : ℕ}
    (hkey : key ∈ next.scripts.keys) :
    key ∈ state.scripts.keys ∨
      key = next.uncommittedScriptId ∧ state.uncommittedScriptId ∉ state.scripts.keys := by
  rw [InsertionMap.keys, hnext.entries, map_map] at hkey
  obtain ⟨script, hmem, rfl⟩ := mem_map.mp hkey
  rcases mem_append.mp hmem with hmem | hmem
  · obtain ⟨entry, hentry, hrestored⟩ := exists_stored hnext.restored hmem
    obtain ⟨old, hold, -⟩ := existing_of_matches h hstate hmatch hentry
    refine .inl (mem_keys_iff.mpr ⟨old, ?_⟩)
    show state.scripts.get? script.scriptKey = some old
    rw [(hrestored.existing old hold).1]
    exact scriptKey_mem_keys hstate hold
  · obtain rfl := mem_singleton.mp hmem
    cases hget : state.scripts.get? state.uncommittedScriptId with
    | some draft =>
      refine .inl (mem_keys_iff.mpr ⟨draft, ?_⟩)
      show state.scripts.get? (drafted freshKey state snapshot created).scriptKey = some draft
      rw [scriptKey_drafted, composer_of_some hget, hstate.keyed _ _ hget, hget]
    | none => exact .inr ⟨hnext.uncommitted.symm, InsertionMap.get?_eq_none_iff.mp hget⟩

end

end NextState

/-- A replacement does what it is for. -/
theorem replaced_of_wellFormed (hstate : state.Consistent) (h : snapshot.WellFormed)
    (hproto : "__proto__".toList ∉ snapshot.folders.map StoredFolder.name)
    (hkeys : FreshKeys freshKey state) (hfocus : state.scriptFocus.folderName ∈ objectPrototype →
      state.scriptFocus.folderName ∈ snapshot.folders.map StoredFolder.name) :
    ∃ next, replaceNotebookScriptsFromStorage freshKey localeCompare state snapshot = some next ∧
      Replaced snapshot state next := by
  obtain ⟨next, scripts, created, hreplace, hnext⟩ :=
    exists_nextState hstate h hproto hkeys hfocus
  refine ⟨next, hreplace, matches_iff.mpr (matches_next hnext hstate h),
    fun key script hget hhas hpath => keeps_next hnext hstate hget hhas hpath, fun hmatch => ?_⟩
  have hmatch := matches_iff.mp hmatch
  refine ⟨fun key hkey => ?_, fun key hkey => keys_next hnext hstate h hmatch hkey⟩
  obtain ⟨script, hget⟩ := mem_keys_iff.mp hkey
  rw [hget]
  exact unchanged_next hnext hstate h hmatch hget

end Replaced

/-! ## A small notebook -/

def oneScript : NotebookScripts where
  scripts := (InsertionMap.empty.set 1 ⟨1, "SELECT 1".toList, "1_a.sql".toList, "main".toList⟩).set 9
    ⟨9, [], [], []⟩
  scriptFolders := InsertionMap.empty.set "main".toList
    ⟨"main".toList, InsertionMap.empty.set "1_a.sql".toList ⟨some 1, "1_a.sql".toList⟩⟩
  uncommittedScriptId := 9
  scriptFocus := ⟨"main".toList, "1_a.sql".toList⟩

/-- Another text for the script, and one more file. -/
def twoFiles : Snapshot where
  folders := [⟨"main".toList,
    [⟨"1_a.sql".toList, "SELECT 2".toList⟩, ⟨"2_b.sql".toList, "SELECT 3".toList⟩]⟩]
  draft := none

theorem consistent_oneScript : oneScript.Consistent := by
  have hentries : ∀ key script, oneScript.scripts.get? key = some script →
      key = 1 ∧ script = ⟨1, "SELECT 1".toList, "1_a.sql".toList, "main".toList⟩ ∨
        key = 9 ∧ script = ⟨9, [], [], []⟩ := by
    intro key script hget
    rw [oneScript, get?_set, get?_set] at hget
    split_ifs at hget with hnine hone
    · exact .inr ⟨hnine, (Option.some.inj hget).symm⟩
    · exact .inl ⟨hone, (Option.some.inj hget).symm⟩
    · exact absurd hget (Option.some_ne_none script).symm
  refine ⟨fun key script hget => ?_, fun script hscript other hother hhas hhas' _ => ?_,
    fun script hget hhas => ?_, fun key script hget => ?_⟩
  · rcases hentries key script hget with ⟨rfl, rfl⟩ | ⟨rfl, rfl⟩ <;> rfl
  · obtain ⟨key, hget⟩ := mem_values_iff.mp hscript
    obtain ⟨key', hget'⟩ := mem_values_iff.mp hother
    rcases hentries key script hget with ⟨-, rfl⟩ | ⟨-, rfl⟩
    · rcases hentries key' other hget' with ⟨-, rfl⟩ | ⟨-, rfl⟩
      · rfl
      · exact absurd rfl hhas'.1
    · exact absurd rfl hhas.1
  · rcases hentries _ script hget with ⟨hkey, -⟩ | ⟨-, rfl⟩
    · exact absurd hkey (by decide)
    · exact hhas.1 rfl
  · rcases hentries key script hget with ⟨-, rfl⟩ | ⟨rfl, -⟩
    · exact .inl (by decide)
    · exact .inr rfl

theorem wellFormed_twoFiles : twoFiles.WellFormed := by
  constructor <;> decide +kernel

theorem freshKeys_oneScript : FreshKeys (· + 10) oneScript where
  injective n m h := Nat.add_right_cancel h
  fresh n hmem := by
    have hkeys : oneScript.scripts.keys = [1, 9] := by decide +kernel
    rw [hkeys] at hmem
    simp at hmem

theorem replaced_twoFiles :
    ∃ next, replaceNotebookScriptsFromStorage (· + 10) numericCompare oneScript twoFiles =
      some next ∧ Replaced twoFiles oneScript next :=
  replaced_of_wellFormed consistent_oneScript wellFormed_twoFiles (by decide +kernel)
    freshKeys_oneScript (by decide +kernel)

/-- A notebook without scripts and without a composer. -/
def noScripts : NotebookScripts where
  scripts := .empty
  scriptFolders := InsertionMap.empty.set "Untitled".toList ⟨"Untitled".toList, .empty⟩
  uncommittedScriptId := 0
  scriptFocus := ⟨"Untitled".toList, []⟩

/-- A notebook without a composer matches a storage without files, and still gets a new script;
a folder `__proto__` is not listed afterwards, and a file without a name counts as no file. -/
theorem not_replaced :
    (notebookScriptsMatchStorageSnapshot noScripts ⟨[], none⟩ = true ∧
      (replaceNotebookScriptsFromStorage (· + 10) numericCompare noScripts ⟨[], none⟩).map
        (fun next => next.scripts.keys) = some [10]) ∧
    (replaceNotebookScriptsFromStorage (· + 10) numericCompare oneScript
        ⟨[⟨"__proto__".toList, []⟩], none⟩).map
      (fun next => notebookScriptsMatchStorageSnapshot next ⟨[⟨"__proto__".toList, []⟩], none⟩) =
        some false ∧
    (replaceNotebookScriptsFromStorage (· + 10) numericCompare oneScript
        ⟨[⟨"main".toList, [⟨[], []⟩]⟩], none⟩).map
      (fun next => notebookScriptsMatchStorageSnapshot next ⟨[⟨"main".toList, [⟨[], []⟩]⟩], none⟩) =
        some false := by
  refine ⟨⟨?_, ?_⟩, ?_, ?_⟩ <;> decide +kernel

end DashQL.Scripts
