import DashQL.Storage.ArchiveEntries

/-!
# Notebooks that pass through an archive

A notebook is exported and imported under a fresh id.  `survives_of_export` says what
is there then, folder by folder, and `archived_iff` when this is the whole notebook:
a script that is called like the draft is skipped, and an empty draft counts as none
on the way out.

An import that fails is rolled back (`rollsBack`), whatever the failing write left.
-/

namespace DashQL.Storage

open Function List Option

variable {R S Z B : Type}

/-! ## What is asked for -/

/-- The notebook under the new id has the scripts of the source, and its manifest but for the id
and the path. -/
structure Recreated (source : StoredNotebook R) (newNotebookId : Text) (files : OpfsFiles R) :
    Prop where
  manifest : files.manifest =
    some { source.data with notebookId := newNotebookId, notebookPath := none }
  scripts : ∃ scripts, files.directory.scripts = some scripts ∧ SameScripts source.scripts scripts

section Statements

variable (zip : JSZip Z B) (json : ManifestJson R) (naturalSort : Text → Text → Bool)

def RoundTrips (source : StoredNotebook R) (newNotebookId : Text) (store : OpfsStore R S) : Prop :=
  ∃ zipBlob, exportNotebookAsZip zip json naturalSort none source = some zipBlob ∧
    ∃ store', importNotebookFromZip zip json naturalSort (fun _ => none) true newNotebookId zipBlob
        store = (some newNotebookId, store') ∧
      Recreated source newNotebookId (store'.notebooks newNotebookId)

/-- An import that throws leaves no file of the new notebook, whichever write failed. -/
def RollsBack (newNotebookId : Text) (store : OpfsStore R S) : Prop :=
  ∀ zipBlob fate store', importNotebookFromZip zip json naturalSort fate true newNotebookId zipBlob
    store = (none, store') → store'.notebooks newNotebookId = {}

end Statements

/-- A notebook that an archive can hold: nothing but a draft with a text has the name of the draft,
in the scripts directory as in its folders.  The draft is read from OPFS also where a folder has
its name. -/
structure Portable (source : StoredNotebook R) : Prop where
  scripts : ∀ name files, source.scripts.get? name = some (.folder files) →
    files.get? scriptDraft = none
  draft : source.scripts.get? scriptDraft ≠ some (.file [])
  folder : source.backend = .native →
    ∀ files, source.scripts.get? scriptDraft ≠ some (.folder files)

/-! ## The rollback -/

theorem notebooks_deleteNotebook (notebookId : Text) (store : OpfsStore R S) :
    (store.deleteNotebook notebookId).notebooks notebookId = {} := by
  dsimp only [OpfsStore.deleteNotebook]
  rw [update_self]

theorem rollsBack (zip : JSZip Z B) (json : ManifestJson R) (naturalSort : Text → Text → Bool)
    (newNotebookId : Text) {store : OpfsStore R S} (hfresh : store.notebooks newNotebookId = {}) :
    RollsBack zip json naturalSort newNotebookId store := by
  intro zipBlob fate store' himport
  unfold importNotebookFromZip at himport
  split at himport
  next => exact (Prod.mk.inj himport).2 ▸ hfresh
  next z _ =>
    split at himport
    next => exact (Prod.mk.inj himport).2 ▸ hfresh
    next data _ =>
      dsimp only at himport
      generalize performWrites newNotebookId fate 0 _ store = result at himport
      cases hdone : result.2 with
      | true =>
        rw [hdone, if_pos rfl] at himport
        exact absurd (Prod.mk.inj himport).1 (some_ne_none _)
      | false =>
        rw [hdone, if_neg Bool.false_ne_true, if_pos rfl] at himport
        rw [← (Prod.mk.inj himport).2]
        exact notebooks_deleteNotebook newNotebookId result.1

/-! ## The export -/

section Export

variable {zip : JSZip Z B} {json : ManifestJson R} {naturalSort : Text → Text → Bool}
  {source : StoredNotebook R}

def StoredNotebook.draft (source : StoredNotebook R) : Option Text :=
  match source.scripts.get? scriptDraft with
  | some (.file sql) => some sql
  | _ => none

theorem wellListed_loadFolders (source : StoredNotebook R) :
    WellListed (loadFolders naturalSort source.scripts) where
  nodup := loadFolders_nodup source.scripts
  names := by
    intro folder hfolder
    obtain ⟨files, hget, -⟩ := (mem_loadFolders naturalSort).mp hfolder
    exact source.folderNames _ _ hget
  scripts := by
    intro folder hfolder
    obtain ⟨files, -, hlisting⟩ := (mem_loadFolders naturalSort).mp hfolder
    rw [hlisting]
    exact nodup_loadScriptsInFolder naturalSort
  scriptNames := by
    intro folder hfolder script hscript
    obtain ⟨files, hget, hlisting⟩ := (mem_loadFolders naturalSort).mp hfolder
    rw [hlisting] at hscript
    exact (source.fileNames _ _ hget _ _ ((mem_loadScriptsInFolder naturalSort).mp hscript).1).1
  taken := by
    intro folder hfolder script hscript
    obtain ⟨files, -, hlisting⟩ := (mem_loadFolders naturalSort).mp hfolder
    rw [hlisting] at hscript
    exact ((mem_loadScriptsInFolder naturalSort).mp hscript).2

/-- The draft is loaded unless a folder of a directory is read in its place. -/
theorem loadScriptDraft_iff {draftSql : Option Text} :
    source.loadScriptDraft = some draftSql ↔
      (source.backend = .native → ∀ files, source.scripts.get? scriptDraft ≠ some (.folder files)) ∧
      draftSql = source.draft := by
  unfold StoredNotebook.loadScriptDraft StoredNotebook.draft
  cases source.backend with
  | opfs =>
    have hopfs : ¬ StorageBackendType.opfs = .native := by decide
    rw [and_iff_right fun hnative => absurd hnative hopfs]
    dsimp only [OPFSStorageBackend.loadScriptDraft, bind_some]
    cases source.scripts.get? scriptDraft with
    | none => exact some_inj.trans eq_comm
    | some entry => cases entry <;> exact some_inj.trans eq_comm
  | native =>
    dsimp only [NativeStorageBackend.loadScriptDraft]
    cases source.scripts.get? scriptDraft with
    | none =>
      rw [and_iff_right fun _ _ => (some_ne_none _).symm]
      exact some_inj.trans eq_comm
    | some entry =>
      cases entry with
      | file sql =>
        have hfile : ∀ files, some (ScriptsEntry.file sql) ≠ some (.folder files) := by
          intro files heq
          cases heq
        rw [and_iff_right fun _ => hfile]
        exact some_inj.trans eq_comm
      | folder files =>
        exact iff_of_false (some_ne_none _).symm fun h => h.1 rfl files rfl

theorem loadNotebook_eq : source.loadNotebook = some source.data := by
  unfold StoredNotebook.loadNotebook
  cases source.backend with
  | opfs => exact if_neg source.identified
  | native => rfl

theorem loadScriptFolders_eq :
    source.loadScriptFolders naturalSort = some (loadFolders naturalSort source.scripts) := by
  unfold StoredNotebook.loadScriptFolders
  cases source.backend <;> rfl

theorem export_iff {zipBlob : B} :
    exportNotebookAsZip zip json naturalSort none source = some zipBlob ↔
      (source.backend = .native → ∀ files, source.scripts.get? scriptDraft ≠ some (.folder files)) ∧
      zipBlob = createNotebookZip zip json source.data (loadFolders naturalSort source.scripts)
        source.draft := by
  unfold exportNotebookAsZip
  rw [loadNotebook_eq, bind_some, loadScriptFolders_eq, bind_some, bind_eq_some_iff]
  constructor
  · rintro ⟨draftSql, hdraft, hblob⟩
    obtain ⟨hreadable, rfl⟩ := loadScriptDraft_iff.mp hdraft
    exact ⟨hreadable, (some.inj hblob).symm⟩
  · rintro ⟨hreadable, rfl⟩
    exact ⟨source.draft, loadScriptDraft_iff.mpr ⟨hreadable, rfl⟩, rfl⟩

end Export

/-! ## The writes -/

section Writes

variable {notebookId : Text} {scripts : ScriptsDir} {folderName : Text}
  {folders : List (Text × List (Text × Text))}

def runOpfs (operations : List ScriptOperation) (directory : OpfsNotebook) : Option OpfsNotebook :=
  operations.foldlM (fun directory operation => OPFSStorageBackend.perform operation directory)
    directory

theorem performWrites_scripts {operations : List ScriptOperation} {directory : OpfsNotebook} :
    ∀ {n : ℕ} {store : OpfsStore R S},
      runOpfs operations (store.notebooks notebookId).directory = some directory →
      performWrites notebookId (fun _ => none) n (operations.map .scripts) store =
        ({ store with
           notebooks := Function.update store.notebooks notebookId
             { store.notebooks notebookId with directory } }, true) := by
  induction operations with
  | nil =>
    intro n store hrun
    obtain rfl := some.inj hrun
    have hsame : Function.update store.notebooks notebookId (store.notebooks notebookId) =
        store.notebooks := update_eq_self _ _
    change (store, true) = ({ store with
      notebooks := Function.update store.notebooks notebookId (store.notebooks notebookId) },
      true)
    rw [hsame]
  | cons operation operations ih =>
    intro n store hrun
    unfold runOpfs at hrun ih
    rw [foldlM_cons] at hrun
    obtain ⟨middle, hfirst, hrest⟩ := bind_eq_some_iff.mp hrun
    rw [map_cons, performWrites]
    dsimp only [ImportCall.perform]
    rw [hfirst, map_some]
    dsimp only
    rw [ih]
    · dsimp only
      rw [update_self, update_idem]
    · dsimp only
      rw [update_self]
      exact hrest

theorem runOpfs_copyFolder (files : List (Text × Text)) (hfree : scripts.get? folderName = none) :
    runOpfs (.createScriptFolder folderName ::
        files.map fun file => .saveScript folderName file.1 file.2) ⟨some scripts⟩ =
      some ⟨some (scripts.set folderName (.folder (setFiles files .empty)))⟩ := by
  have hsaves : ∀ (files : List (Text × Text)) (folder : Folder),
      runOpfs (files.map fun file => .saveScript folderName file.1 file.2)
          ⟨some (scripts.set folderName (.folder folder))⟩ =
        some ⟨some (scripts.set folderName (.folder (setFiles files folder)))⟩ := by
    intro files
    induction files with
    | nil => intro folder; rfl
    | cons file files ih =>
      intro folder
      unfold runOpfs at ih ⊢
      have hsaved : OPFSStorageBackend.perform (.saveScript folderName file.1 file.2)
          ⟨some (scripts.set folderName (.folder folder))⟩ =
          some ⟨some (scripts.set folderName (.folder (folder.set file.1 file.2)))⟩ := by
        rw [OPFSStorageBackend.perform, OPFSStorageBackend.saveScript, getD_some,
          OPFSStorageBackend.createDirectory, InsertionMap.get?_set_self]
        dsimp only
        rw [InsertionMap.set_set]
      rw [map_cons, foldlM_cons, hsaved]
      exact ih (folder.set file.1 file.2)
  unfold runOpfs at hsaves ⊢
  have hcreated : OPFSStorageBackend.perform (.createScriptFolder folderName) ⟨some scripts⟩ =
      some ⟨some (scripts.set folderName (.folder .empty))⟩ := by
    rw [OPFSStorageBackend.perform, OPFSStorageBackend.createScriptFolder, getD_some,
      OPFSStorageBackend.createDirectory, hfree]
    rfl
  rw [foldlM_cons, hcreated]
  exact hsaves files .empty

def setFolders (folders : List (Text × List (Text × Text))) (scripts : ScriptsDir) : ScriptsDir :=
  (folders.map fun folder => (folder.1, ScriptsEntry.folder (setFiles folder.2 .empty))).foldl
    (fun scripts entry => scripts.set entry.1 entry.2) scripts

theorem runOpfs_copyFolders (hnodup : (folders.map Prod.fst).Nodup) :
    ∀ {scripts : ScriptsDir}, (∀ folder ∈ folders, scripts.get? folder.1 = none) →
      runOpfs (copyFolders folders) ⟨some scripts⟩ = some ⟨some (setFolders folders scripts)⟩ := by
  induction folders with
  | nil => intro scripts _; rfl
  | cons folder folders ih =>
    intro scripts hfree
    obtain ⟨hhead, htail⟩ := nodup_cons.mp hnodup
    have hfolder := runOpfs_copyFolder folder.2 (hfree folder mem_cons_self)
    have hfree' : ∀ other ∈ folders,
        (scripts.set folder.1 (.folder (setFiles folder.2 .empty))).get? other.1 = none := by
      intro other hother
      rw [InsertionMap.get?_set_of_ne]
      · exact hfree other (mem_cons_of_mem _ hother)
      · intro heq
        exact hhead (heq ▸ List.mem_map_of_mem hother)
    have hrest := ih htail hfree'
    unfold runOpfs copyFolders at *
    rw [flatMap_cons, foldlM_append, hfolder]
    exact hrest

theorem map_fst_setFolders :
    (folders.map fun folder => (folder.1, ScriptsEntry.folder (setFiles folder.2 .empty))).map
      Prod.fst = folders.map Prod.fst := by
  rw [List.map_map]
  rfl

theorem get?_setFolders_of_mem (hnodup : (folders.map Prod.fst).Nodup)
    {folder : Text × List (Text × Text)} (hfolder : folder ∈ folders) :
    (setFolders folders scripts).get? folder.1 = some (.folder (setFiles folder.2 .empty)) := by
  unfold setFolders
  apply InsertionMap.get?_foldl_set_of_mem
  · rw [map_fst_setFolders]
    exact hnodup
  · exact List.mem_map.mpr ⟨folder, hfolder, rfl⟩

theorem get?_setFolders_of_not_mem (hnew : folderName ∉ folders.map Prod.fst) :
    (setFolders folders scripts).get? folderName = scripts.get? folderName := by
  unfold setFolders
  apply InsertionMap.get?_foldl_set_of_not_mem
  rw [map_fst_setFolders]
  exact hnew

theorem get?_setFiles {files : List (Text × Text)} (hnodup : (files.map Prod.fst).Nodup)
    {name sql : Text} : (setFiles files .empty).get? name = some sql ↔ (name, sql) ∈ files := by
  unfold setFiles
  constructor
  · intro hget
    by_cases hname : name ∈ files.map Prod.fst
    · obtain ⟨file, hfile, rfl⟩ := List.mem_map.mp hname
      rw [InsertionMap.get?_foldl_set_of_mem hnodup hfile] at hget
      rw [← some.inj hget]
      exact hfile
    · rw [InsertionMap.get?_foldl_set_of_not_mem hname] at hget
      cases hget
  · exact InsertionMap.get?_foldl_set_of_mem hnodup

end Writes

/-! ## What comes through -/

section Survival

variable {zip : JSZip Z B} {json : ManifestJson R} {naturalSort : Text → Text → Bool}
  {source : StoredNotebook R} {newNotebookId : Text} {store : OpfsStore R S}
  {scripts : ScriptsDir}

/-- What an archive brings through: the folders with all scripts that are not called like the
draft, and a draft that has a text. -/
structure Survives (source : StoredNotebook R) (scripts : ScriptsDir) : Prop where
  folder : ∀ name files, source.scripts.get? name = some (.folder files) →
    ∃ files', scripts.get? name = some (.folder files') ∧
      ∀ fileName, files'.get? fileName =
        if fileName = scriptDraft then none else files.get? fileName
  file : ∀ name sql, source.scripts.get? name = some (.file sql) →
    scripts.get? name = if sql = [] then none else some (.file sql)
  missing : ∀ name, source.scripts.get? name = none → scripts.get? name = none

/-- Everything comes through unless something has the name of the draft, or no text. -/
theorem Survives.sameScripts_iff (h : Survives source scripts) :
    SameScripts source.scripts scripts ↔
      (∀ name files, source.scripts.get? name = some (.folder files) →
        files.get? scriptDraft = none) ∧
      source.scripts.get? scriptDraft ≠ some (.file []) := by
  constructor
  · intro hsame
    refine ⟨?_, ?_⟩
    · intro name files hfolder
      obtain ⟨files', hfolder', hfiles⟩ := h.folder name files hfolder
      have hname := hsame name
      rw [hfolder, hfolder'] at hname
      cases hname with
      | some hentry =>
        cases hentry with
        | folder heq => rw [heq, hfiles, if_pos rfl]
    · intro hempty
      have hname := hsame scriptDraft
      rw [hempty, h.file _ _ hempty, if_pos rfl] at hname
      cases hname
  · rintro ⟨hscripts, hdraft⟩ name
    cases hget : source.scripts.get? name with
    | none =>
      rw [h.missing name hget]
      exact .none
    | some entry =>
      cases entry with
      | file sql =>
        have hne : sql ≠ [] := by
          rintro rfl
          obtain rfl := source.draftOnly name [] hget
          exact hdraft hget
        rw [h.file name sql hget, if_neg hne]
        exact .some (.file sql)
      | folder files =>
        obtain ⟨files', hfolder', hfiles⟩ := h.folder name files hget
        rw [hfolder']
        refine .some (.folder fun fileName => ?_)
        rw [hfiles]
        split_ifs with heq
        · rw [heq, hscripts name files hget]
        · rfl

theorem draft_eq_some_iff {sql : Text} :
    source.draft = some sql ↔ source.scripts.get? scriptDraft = some (.file sql) := by
  unfold StoredNotebook.draft
  cases source.scripts.get? scriptDraft with
  | none => exact iff_of_false (some_ne_none _).symm (some_ne_none _).symm
  | some entry =>
    cases entry with
    | file text => rw [some_inj, some_inj, ScriptsEntry.file.injEq]
    | folder files =>
      refine iff_of_false (some_ne_none _).symm ?_
      intro heq
      cases heq

section Imported

variable {z : Z}

def importedScripts (zip : JSZip Z B) (naturalSort : Text → Text → Bool) (z : Z)
    (draftSql : Option Text) : ScriptsDir :=
  match draftSql with
  | none => setFolders (importedFolders zip naturalSort z) .empty
  | some sql => (setFolders (importedFolders zip naturalSort z) .empty).set scriptDraft (.file sql)

variable (h : Holds zip (archiveEntries json source.data
  (loadFolders naturalSort source.scripts) source.draft) z)

include h

theorem mem_map_fst_importedFolders {name : Text} :
    name ∈ (importedFolders zip naturalSort z).map Prod.fst ↔
      ∃ files, source.scripts.get? name = some (.folder files) := by
  constructor
  · intro hname
    obtain ⟨⟨_, scripts⟩, hmem, rfl⟩ := List.mem_map.mp hname
    obtain ⟨folder, hfolder, hsame⟩ := (mem_importedFolders h).mp hmem
    obtain ⟨files, hget, -⟩ := (mem_loadFolders naturalSort).mp hfolder
    exact ⟨files, (Prod.mk.inj hsame).1 ▸ hget⟩
  · rintro ⟨files, hget⟩
    have hfolder := (mem_loadFolders naturalSort).mpr ⟨files, hget, rfl⟩
    exact List.mem_map.mpr ⟨_, (mem_importedFolders h).mpr ⟨_, hfolder, rfl⟩, rfl⟩

theorem draft_not_mem_importedFolders {sql : Text} (hdraft : source.draft = some sql) :
    scriptDraft ∉ (importedFolders zip naturalSort z).map Prod.fst := by
  rw [mem_map_fst_importedFolders h]
  rintro ⟨files, hget⟩
  rw [draft_eq_some_iff, hget] at hdraft
  cases hdraft

theorem get?_importedScripts_of_folder {name : Text} {files : Folder}
    (hget : source.scripts.get? name = some (.folder files)) :
    (importedScripts zip naturalSort z (source.draft.filter fun sql => sql ≠ [])).get? name =
      some (.folder (setFiles (scriptsInFolder zip naturalSort (name ++ ['/']) z) .empty)) := by
  have hfolder := (mem_loadFolders naturalSort).mpr ⟨files, hget, rfl⟩
  have himported : (name, scriptsInFolder zip naturalSort (name ++ ['/']) z) ∈
      importedFolders zip naturalSort z :=
    (mem_importedFolders h).mpr ⟨_, hfolder, rfl⟩
  have hset := @get?_setFolders_of_mem .empty _ (nodup_importedFolders h) _ himported
  unfold importedScripts
  split
  next => exact hset
  next sql hsql =>
    rw [InsertionMap.get?_set_of_ne]
    · exact hset
    · rintro rfl
      have hdraft := (filter_eq_some_iff.mp hsql).1
      rw [draft_eq_some_iff, hget] at hdraft
      cases hdraft

theorem survives_importedScripts :
    Survives source
      (importedScripts zip naturalSort z (source.draft.filter fun sql => sql ≠ [])) where
  folder := by
    intro name files hget
    have hfolder := (mem_loadFolders naturalSort).mpr ⟨files, hget, rfl⟩
    have hlisted := @wellListed_loadFolders R naturalSort source
    refine ⟨_, get?_importedScripts_of_folder h hget, ?_⟩
    intro fileName
    apply Option.ext
    intro sql
    rw [get?_setFiles (nodup_scriptsInFolder hlisted h hfolder),
      mem_scriptsInFolder hlisted h hfolder, mem_loadScriptsInFolder]
    constructor
    · rintro ⟨hsql, -, hne⟩
      rw [if_neg hne]
      exact hsql
    · intro hsql
      obtain ⟨hne, hsql⟩ := ite_none_left_eq_some.mp hsql
      exact ⟨hsql, (source.fileNames name files hget fileName sql hsql).2, hne⟩
  file := by
    intro name sql hget
    obtain rfl := source.draftOnly name sql hget
    have hdraft := draft_eq_some_iff.mpr hget
    rw [hdraft]
    unfold importedScripts
    by_cases hempty : sql = []
    · rw [if_pos hempty, filter_some, if_neg (by simpa using hempty)]
      exact get?_setFolders_of_not_mem (draft_not_mem_importedFolders h hdraft)
    · rw [if_neg hempty, filter_some, if_pos (decide_eq_true hempty)]
      exact InsertionMap.get?_set_self
  missing := by
    intro name hget
    have hfree : (setFolders (importedFolders zip naturalSort z) .empty).get? name = none := by
      refine get?_setFolders_of_not_mem ?_
      rw [mem_map_fst_importedFolders h]
      rintro ⟨files, hfolder⟩
      rw [hget] at hfolder
      cases hfolder
    unfold importedScripts
    split
    next => exact hfree
    next sql hsql =>
      rw [InsertionMap.get?_set_of_ne]
      · exact hfree
      · rintro rfl
        have hdraft := (filter_eq_some_iff.mp hsql).1
        rw [draft_eq_some_iff, hget] at hdraft
        cases hdraft

/-- The script operations of an import make exactly that directory. -/
theorem runOpfs_import :
    runOpfs (copyFolders (importedFolders zip naturalSort z) ++
        (zip.readFile (scriptsPath scriptDraft) z).toList.map .saveScriptDraft)
        ⟨some .empty⟩ =
      some ⟨some
        (importedScripts zip naturalSort z (source.draft.filter fun sql => sql ≠ []))⟩ := by
  have hfolders := @runOpfs_copyFolders _ (@nodup_importedFolders _ _ _ _ _ _ _ _ _ naturalSort h)
    .empty fun _ _ => rfl
  unfold runOpfs at hfolders ⊢
  rw [foldlM_append, hfolders, readFile_draft h]
  unfold importedScripts
  cases hsql : source.draft.filter fun sql => sql ≠ [] with
  | none => rfl
  | some sql =>
    have hfree := @get?_setFolders_of_not_mem .empty _ _
      (draft_not_mem_importedFolders h (filter_eq_some_iff.mp hsql).1)
    have hsaved : OPFSStorageBackend.perform (.saveScriptDraft sql)
        ⟨some (setFolders (importedFolders zip naturalSort z) .empty)⟩ =
        some ⟨some ((setFolders (importedFolders zip naturalSort z) .empty).set scriptDraft
          (.file sql))⟩ := by
      rw [OPFSStorageBackend.perform, OPFSStorageBackend.saveScriptDraft]
      dsimp only [getD_some]
      rw [hfree]
      rfl
    simp only [toList_some, map_cons, map_nil, foldlM_cons,
      foldlM_nil, bind_eq_bind, bind_some, hsaved]
    rfl

end Imported

theorem performWrites_import {z : Z} (hfresh : store.notebooks newNotebookId = {})
    (h : Holds zip (archiveEntries json source.data
      (loadFolders naturalSort source.scripts) source.draft) z) (data : StoredManifest R) :
    ∃ store', performWrites newNotebookId (fun _ => none) 0 (importCalls zip naturalSort data z)
        store = (store', true) ∧
      store'.notebooks newNotebookId =
        { manifest := some data
          directory := ⟨some
            (importedScripts zip naturalSort z (source.draft.filter fun sql => sql ≠ []))⟩ } := by
  have hdraft : (zip.readFile (scriptsPath scriptDraft) z).toList.map
      (fun sql => (.scripts (.saveScriptDraft sql) : ImportCall R)) =
      ((zip.readFile (scriptsPath scriptDraft) z).toList.map .saveScriptDraft).map .scripts := by
    rw [List.map_map]
    rfl
  unfold importCalls
  rw [performWrites, hdraft, ← map_append]
  dsimp only [ImportCall.perform]
  rw [performWrites_scripts]
  · refine ⟨_, rfl, ?_⟩
    dsimp only
    rw [update_self, update_self]
  · dsimp only
    rw [update_self, hfresh]
    exact runOpfs_import h

/-- What is exported is imported, and what an archive brings through is there. -/
theorem survives_of_export (hzip : zip.Faithful) (hfresh : store.notebooks newNotebookId = {}) :
    ∃ store' scripts, importNotebookFromZip zip json naturalSort (fun _ => none) true newNotebookId
        (createNotebookZip zip json source.data (loadFolders naturalSort source.scripts)
          source.draft) store = (some newNotebookId, store') ∧
      (store'.notebooks newNotebookId).manifest =
        some { source.data with notebookId := newNotebookId, notebookPath := none } ∧
      (store'.notebooks newNotebookId).directory.scripts = some scripts ∧
      Survives source scripts := by
  obtain ⟨z, hload, hentries⟩ := hzip.load (notebookArchive zip json source.data
    (loadFolders naturalSort source.scripts) source.draft)
  have h : Holds zip (archiveEntries json source.data
      (loadFolders naturalSort source.scripts) source.draft) z := by
    intro path e
    rw [hentries]
    exact holds_notebookArchive hzip (wellListed_loadFolders source) path e
  obtain ⟨store', hwrites, hfiles⟩ := performWrites_import hfresh h
    { source.data with notebookId := newNotebookId, notebookPath := none }
  refine ⟨store', _, ?_, by rw [hfiles], by rw [hfiles], survives_importedScripts h⟩
  unfold importNotebookFromZip createNotebookZip
  rw [hload]
  dsimp only
  rw [readFile_manifest h, bind_some, json.parse_stringify]
  dsimp only
  rw [hwrites]
  rfl

theorem roundTrips_iff (hzip : zip.Faithful) (hfresh : store.notebooks newNotebookId = {}) :
    RoundTrips zip json naturalSort source newNotebookId store ↔ Portable source := by
  obtain ⟨final, scripts, himport, hmanifest, hscripts, hsurvives⟩ :=
    @survives_of_export R S Z B zip json naturalSort source newNotebookId store hzip hfresh
  have hsame := hsurvives.sameScripts_iff
  unfold RoundTrips
  constructor
  · rintro ⟨zipBlob, hexport, store', himport', hrecreated⟩
    obtain ⟨hreadable, rfl⟩ := export_iff.mp hexport
    rw [himport] at himport'
    obtain rfl := (Prod.mk.inj himport').2
    obtain ⟨scripts', hscripts', hsame'⟩ := hrecreated.scripts
    rw [hscripts] at hscripts'
    obtain rfl := some.inj hscripts'
    obtain ⟨hnames, hdraft⟩ := hsame.mp hsame'
    exact ⟨hnames, hdraft, hreadable⟩
  · intro hportable
    refine ⟨_, export_iff.mpr ⟨hportable.folder, rfl⟩, final, himport, hmanifest, scripts, hscripts,
      ?_⟩
    exact hsame.mpr ⟨hportable.scripts, hportable.draft⟩

end Survival

/-- A notebook passes through an archive, and a failed import leaves nothing of it, exactly if
nothing but a draft with a text has the name of the draft. -/
theorem archived_iff (zip : JSZip Z B) (hzip : zip.Faithful) (json : ManifestJson R)
    (naturalSort : Text → Text → Bool) (source : StoredNotebook R) (newNotebookId : Text)
    (store : OpfsStore R S) (hfresh : store.notebooks newNotebookId = {}) :
    RoundTrips zip json naturalSort source newNotebookId store ∧
        RollsBack zip json naturalSort newNotebookId store ↔
      Portable source := by
  rw [and_iff_left (rollsBack zip json naturalSort newNotebookId hfresh)]
  exact roundTrips_iff hzip hfresh

/-! ## An archive in memory -/

/-- An archive that is kept as it is. -/
def plainZip : JSZip (InsertionMap Text ZipEntry) (InsertionMap Text ZipEntry) where
  create := .empty
  folder path z := z.set (path ++ ['/']) .dir
  file path text z := z.set path (.file text)
  entries z := z
  generateAsync z := z
  loadAsync z := some z

theorem plainZip_faithful : plainZip.Faithful where
  create _ := rfl
  folder _ _ _ _ _ _ := InsertionMap.get?_set
  file _ _ _ _ _ _ _ := InsertionMap.get?_set
  load z := ⟨z, rfl, fun _ => rfl⟩

/-- A string in JSON, up to control characters. -/
def escape (text : Text) : Text :=
  text.flatMap fun c => if c = '"' ∨ c = '\\' then ['\\', c] else [c]

/-- A string that was escaped, and what follows its closing quote. -/
def unescape : Text → Option (Text × Text)
  | [] => none
  | '"' :: rest => some ([], rest)
  | '\\' :: c :: rest => (unescape rest).map fun parsed => (c :: parsed.1, parsed.2)
  | c :: rest => (unescape rest).map fun parsed => (c :: parsed.1, parsed.2)

theorem unescape_escape (text rest : Text) :
    unescape (escape text ++ '"' :: rest) = some (text, rest) := by
  induction text with
  | nil => rfl
  | cons c text ih =>
    unfold escape at ih ⊢
    rw [List.flatMap_cons, List.append_assoc]
    split_ifs with hc
    · rw [List.cons_append, List.singleton_append, unescape, ih]
      rfl
    · obtain ⟨hquote, hslash⟩ := not_or.mp hc
      have hplain : ∀ rest', unescape (c :: rest') =
          (unescape rest').map fun parsed => (c :: parsed.1, parsed.2) := by
        intro rest'
        rw [unescape]
        · exact hquote
        · exact fun _ _ h => absurd h hslash
      rw [List.singleton_append, hplain, ih]
      rfl

/-- The text of a manifest up to the id, before a path, and behind everything. -/
def manifestHead : Text := "\x7b\n  \"notebookId\": \"".toList
def manifestPath : Text := ",\n  \"notebookPath\": \"".toList
def manifestTail : Text := "\n\x7d".toList

/-- The JSON text of manifests that have no other members. -/
def shortJson : ManifestJson Unit where
  stringify data :=
    manifestHead ++ (escape data.notebookId ++ '"' ::
      match data.notebookPath with
      | none => manifestTail
      | some path => manifestPath ++ (escape path ++ '"' :: manifestTail))
  parse text :=
    (unescape (text.drop manifestHead.length)).bind fun identified =>
      if identified.2 = manifestTail then
        some { notebookId := identified.1, rest := () }
      else
        (unescape (identified.2.drop manifestPath.length)).map fun located =>
          { notebookId := identified.1, notebookPath := some located.1, rest := () }
  parse_stringify data := by
    rw [drop_left, unescape_escape, bind_some]
    obtain ⟨notebookId, notebookPath, rest⟩ := data
    cases notebookPath with
    | none => exact if_pos rfl
    | some path =>
      have hpath : manifestPath ++ (escape path ++ '"' :: manifestTail) ≠ manifestTail := by
        intro heq
        have hhead := congrArg List.head? heq
        exact absurd (some.inj hhead) (by decide)
      dsimp only
      rw [if_neg hpath, List.drop_left, unescape_escape]
      rfl

def emptyStore : OpfsStore Unit Unit where
  registry := { notebooks := [] }
  notebooks := fun _ => {}

def twoFolders : StoredNotebook Unit where
  backend := .opfs
  data := { notebookId := ['o'], notebookPath := some ['p'], rest := () }
  scripts := ((InsertionMap.empty.set ['a']
    (.folder (InsertionMap.empty.set "x.sql".toList ['1']))).set
    ['a', 'b'] (.folder .empty)).set scriptDraft (.file ['2'])
  identified := by decide
  folderNames := by
    intro name files hget
    rw [InsertionMap.get?_set, InsertionMap.get?_set, InsertionMap.get?_set] at hget
    split_ifs at hget with hdraft hab ha
    · cases hget
    · exact hab ▸ ⟨by decide, by decide⟩
    · exact ha ▸ ⟨by decide, by decide⟩
    · cases hget
  fileNames := by
    intro name files hget fileName sql hsql
    rw [InsertionMap.get?_set, InsertionMap.get?_set, InsertionMap.get?_set] at hget
    split_ifs at hget with hdraft hab ha
    · cases hget
    · cases hget
      cases hsql
    · cases hget
      rw [InsertionMap.get?_set] at hsql
      split_ifs at hsql with hname
      · exact hname ▸ ⟨⟨by decide, by decide⟩, by decide⟩
      · cases hsql
    · cases hget
  draftOnly := by
    intro name text hget
    rw [InsertionMap.get?_set, InsertionMap.get?_set, InsertionMap.get?_set] at hget
    split_ifs at hget with hdraft hab ha
    · exact hdraft
    · cases hget
    · cases hget
    · cases hget

def emptyDraft : StoredNotebook Unit where
  backend := .opfs
  data := { notebookId := ['o'], rest := () }
  scripts := InsertionMap.empty.set scriptDraft (.file [])
  identified := by decide
  folderNames := by
    intro name files hget
    rw [InsertionMap.get?_set] at hget
    split_ifs at hget
    · cases hget
    · cases hget
  fileNames := by
    intro name files hget
    rw [InsertionMap.get?_set] at hget
    split_ifs at hget
    · cases hget
    · cases hget
  draftOnly := by
    intro name text hget
    rw [InsertionMap.get?_set] at hget
    split_ifs at hget with hdraft
    · exact hdraft
    · cases hget

theorem archived_twoFolders :
    RoundTrips plainZip shortJson (fun _ _ => true) twoFolders ['n'] emptyStore ∧
      RollsBack plainZip shortJson (fun _ _ => true) ['n'] emptyStore := by
  refine (archived_iff plainZip plainZip_faithful shortJson (fun _ _ => true) twoFolders ['n']
    emptyStore rfl).mpr ⟨?_, ?_, fun hnative => absurd hnative (by decide)⟩
  · intro name files hget
    unfold twoFolders at hget
    rw [InsertionMap.get?_set, InsertionMap.get?_set, InsertionMap.get?_set] at hget
    split_ifs at hget
    · cases hget
    · cases hget
      rfl
    · cases hget
      decide
    · cases hget
  · intro hempty
    have hdraft : twoFolders.scripts.get? scriptDraft = some (.file ['2']) :=
      InsertionMap.get?_set_self
    rw [hdraft] at hempty
    cases hempty

/-- An empty draft is not in the archive. -/
theorem not_archived_emptyDraft :
    ¬ RoundTrips plainZip shortJson (fun _ _ => true) emptyDraft ['n'] emptyStore := by
  rw [roundTrips_iff plainZip_faithful rfl]
  intro hportable
  exact hportable.draft InsertionMap.get?_set_self

end DashQL.Storage
