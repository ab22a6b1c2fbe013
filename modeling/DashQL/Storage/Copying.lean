import DashQL.Storage.Agreement
import DashQL.Storage.Composite
import DashQL.Storage.Tasks

/-!
# Copying a notebook

`copyNotebook` writes the files of an OPFS notebook into a directory, and `verifyNotebook` compares
the number of scripts.  The copy writes what the source has and deletes nothing, and the directory
may hold any files.

`copied_complete_iff` says when no call of the copy throws, `copyComplete_of_copied` what is there
then, and `CopyComplete.listsNoOther` what the verification finds out.
-/

namespace DashQL.Storage

open List Option

/-! ## The files of a notebook -/

inductive NotebookFile (P : Type)
  | missing
  | malformed
  | written (data : NotebookData P)

/-- The files of a notebook, in OPFS or in a directory. -/
structure NotebookFiles (P : Type) where
  notebook : NotebookFile P := .missing
  relations : Option Text := none
  functions : Option Text := none
  scripts : ScriptsDir := .empty

variable {P S : Type}

def NotebookFiles.loadNative (files : NotebookFiles P) : Option (NotebookData P) :=
  match files.notebook with
  | .written data => some data
  | _ => none

/-- `OPFSStorageBackend.loadNotebook`, which asks for an id. -/
def NotebookFiles.loadOpfs (files : NotebookFiles P) : Option (NotebookData P) :=
  files.loadNative.bind fun data => if data.notebookId = [] then none else some data

/-- `OPFSStorageBackend.loadScriptDraft`. -/
def NotebookFiles.draft (files : NotebookFiles P) : Option Text :=
  match files.scripts.get? scriptDraft with
  | some (.file sql) => some sql
  | _ => none

/-! ## Copying -/

/-- The calls of the native backend that write files. -/
inductive NativeCall (P : Type)
  | saveNotebookManifest (data : NotebookData P)
  | saveNotebookSchema (sql : Text)
  | saveNotebookFunctions (sql : Text)
  | scripts (operation : ScriptOperation)

/-- A call, unless it throws. -/
def NativeCall.perform : NativeCall P → NotebookFiles P → Option (NotebookFiles P)
  | .saveNotebookManifest data, files => some { files with notebook := .written data }
  | .saveNotebookSchema sql, files => some { files with relations := some sql }
  | .saveNotebookFunctions sql, files => some { files with functions := some sql }
  | .scripts operation, files =>
    (NativeStorageBackend.perform operation files.scripts).map fun scripts =>
      { files with scripts }

/-- Calls one after another, up to the first that throws: only so many get past the file system
anyway.  Returns the files that are there then, and whether all calls were made. -/
def performCalls : ℕ → List (NativeCall P) → NotebookFiles P → NotebookFiles P × Bool
  | _, [], files => (files, true)
  | 0, _ :: _, files => (files, false)
  | budget + 1, call :: calls, files =>
    match call.perform files with
    | some files => performCalls budget calls files
    | none => (files, false)

section Copying

variable (naturalSort : Text → Text → Bool)

def copyFolders (folders : List (Text × List (Text × Text))) : List ScriptOperation :=
  folders.flatMap fun folder =>
    .createScriptFolder folder.1 ::
      folder.2.map fun script => .saveScript folder.1 script.1 script.2

def copyNotebook (source : NotebookFiles P) (data : NotebookData P) : List (NativeCall P) :=
  .saveNotebookManifest data ::
    (source.relations.toList.map .saveNotebookSchema ++
      source.functions.toList.map .saveNotebookFunctions ++
      (copyFolders (loadFolders naturalSort source.scripts)).map .scripts ++
      source.draft.toList.map fun sql => .scripts (.saveScriptDraft sql))

def countScripts (folders : List (Text × List (Text × Text))) : ℕ :=
  folders.foldl (fun sum folder => sum + folder.2.length) 0

def verifyNotebook (source target : NotebookFiles P) : Bool :=
  match target.loadNative with
  | none => false
  | some targetData =>
    targetData.notebookId ≠ [] ∧
      countScripts (loadFolders naturalSort source.scripts) =
        countScripts (loadFolders naturalSort target.scripts)

/-- What the file system lets pass: so many calls of the copy, the write of the registry, and the
deletion of the OPFS files. -/
structure FileSystem where
  calls : ℕ
  registry : Bool
  deletion : Bool

/-- The copy of a notebook, stamped with its new location. -/
def copied (system : FileSystem) (source : NotebookFiles P) (data : NotebookData P) (dir : Text)
    (target : NotebookFiles P) : NotebookFiles P × Bool :=
  performCalls system.calls
    (copyNotebook naturalSort source data ++
      [.saveNotebookManifest { data with storageType := some .native, nativePath := some dir }])
    target

end Copying

/-! ## What the copy leaves -/

def runOperations (operations : List ScriptOperation) (scripts : ScriptsDir) : Option ScriptsDir :=
  operations.foldlM (fun scripts operation => NativeStorageBackend.perform operation scripts) scripts

/-- Calls one after another, all of which succeed. -/
def performAll (calls : List (NativeCall P)) (files : NotebookFiles P) : Option (NotebookFiles P) :=
  calls.foldlM (fun files call => call.perform files) files

variable {calls : List (NativeCall P)}

theorem performAll_of_complete :
    ∀ {budget : ℕ} {files : NotebookFiles P}, (performCalls budget calls files).2 = true →
      performAll calls files = some (performCalls budget calls files).1 := by
  induction calls with
  | nil => intro budget files _; cases budget <;> rfl
  | cons call calls ih =>
    intro budget files hcomplete
    cases budget with
    | zero => cases hcomplete
    | succ budget =>
      unfold performCalls at hcomplete ⊢
      unfold performAll at ih ⊢
      rw [foldlM_cons]
      cases hcall : call.perform files with
      | none =>
        rw [hcall] at hcomplete
        cases hcomplete
      | some files' =>
        rw [hcall] at hcomplete
        exact ih hcomplete

theorem performCalls_complete_iff :
    ∀ {budget : ℕ} {files : NotebookFiles P}, (performCalls budget calls files).2 = true ↔
      calls.length ≤ budget ∧ (performAll calls files).isSome := by
  induction calls with
  | nil =>
    intro budget files
    cases budget <;> exact ⟨fun _ => ⟨Nat.zero_le _, rfl⟩, fun _ => rfl⟩
  | cons call calls ih =>
    intro budget files
    cases budget with
    | zero => exact ⟨fun h => absurd h Bool.false_ne_true, fun h => absurd h.1 (Nat.not_succ_le_zero _)⟩
    | succ budget =>
      unfold performCalls performAll
      rw [foldlM_cons, length_cons, Nat.succ_le_succ_iff]
      cases hcall : call.perform files with
      | none => exact ⟨fun h => absurd h Bool.false_ne_true, fun h => absurd h.2 Bool.false_ne_true⟩
      | some files' => exact ih

theorem performAll_append {calls' : List (NativeCall P)} {files : NotebookFiles P} :
    performAll (calls ++ calls') files = (performAll calls files).bind (performAll calls') :=
  foldlM_append

theorem performAll_scripts {operations : List ScriptOperation} :
    ∀ {files : NotebookFiles P}, performAll (operations.map .scripts) files =
      (runOperations operations files.scripts).map fun scripts => { files with scripts } := by
  induction operations with
  | nil => intro files; rfl
  | cons operation operations ih =>
    intro files
    unfold performAll runOperations at ih ⊢
    rw [map_cons, foldlM_cons, foldlM_cons, NativeCall.perform]
    cases NativeStorageBackend.perform operation files.scripts with
    | none => rfl
    | some scripts => exact ih

theorem performAll_schema (relations : Option Text) (files : NotebookFiles P) :
    performAll (relations.toList.map .saveNotebookSchema) files =
      some { files with relations := relations.or files.relations } := by
  cases relations <;> rfl

theorem performAll_functions (functions : Option Text) (files : NotebookFiles P) :
    performAll (functions.toList.map .saveNotebookFunctions) files =
      some { files with functions := functions.or files.functions } := by
  cases functions <;> rfl

section Folders

variable {scripts scripts' : ScriptsDir} {folderName name : Text} {files : List (Text × Text)}
  {folders : List (Text × List (Text × Text))}

def folderFiles (scripts : ScriptsDir) (folderName : Text) : Folder :=
  match scripts.get? folderName with
  | some (.folder files) => files
  | _ => .empty

def setFiles (files : List (Text × Text)) (folder : Folder) : Folder :=
  files.foldl (fun folder file => folder.set file.1 file.2) folder

theorem runOperations_saveScripts :
    ∀ {scripts : ScriptsDir} {folder : Folder}, scripts.get? folderName = some (.folder folder) →
      runOperations (files.map fun file => .saveScript folderName file.1 file.2) scripts =
        some (scripts.set folderName (.folder (setFiles files folder))) := by
  induction files with
  | nil =>
    intro scripts folder hfolder
    rw [setFiles, foldl_nil, InsertionMap.set_of_get? hfolder]
    rfl
  | cons file files ih =>
    intro scripts folder hfolder
    unfold runOperations at ih ⊢
    have hsaved : NativeStorageBackend.perform (.saveScript folderName file.1 file.2) scripts =
        some (scripts.set folderName (.folder (folder.set file.1 file.2))) := by
      rw [NativeStorageBackend.perform, NativeStorageBackend.saveScript, hfolder]
    rw [map_cons, foldlM_cons, hsaved]
    have hrest := ih (@InsertionMap.get?_set_self Text ScriptsEntry _ scripts folderName
      (.folder (folder.set file.1 file.2)))
    rw [InsertionMap.set_set] at hrest
    exact hrest

def copyFolder (folderName : Text) (files : List (Text × Text)) (scripts : ScriptsDir) :
    Option ScriptsDir :=
  match scripts.get? folderName with
  | some (.file _) => if files = [] then some scripts else none
  | _ => some (scripts.set folderName (.folder (setFiles files (folderFiles scripts folderName))))

theorem runOperations_copyFolder :
    runOperations (.createScriptFolder folderName ::
      files.map fun file => .saveScript folderName file.1 file.2) scripts =
      copyFolder folderName files scripts := by
  unfold runOperations copyFolder
  rw [foldlM_cons, NativeStorageBackend.perform, NativeStorageBackend.createScriptFolder]
  cases hget : scripts.get? folderName with
  | none =>
    have hsaves := @runOperations_saveScripts folderName files
      (scripts.set folderName (.folder .empty)) .empty InsertionMap.get?_set_self
    rw [InsertionMap.set_set] at hsaves
    rw [folderFiles, hget]
    exact hsaves
  | some entry =>
    cases entry with
    | folder folder =>
      rw [folderFiles, hget]
      exact runOperations_saveScripts hget
    | file text =>
      cases files with
      | nil => rfl
      | cons file files =>
        -- the first script throws
        have hthrow : NativeStorageBackend.perform (.saveScript folderName file.1 file.2)
            scripts = none := by
          rw [NativeStorageBackend.perform, NativeStorageBackend.saveScript, hget]
        change (NativeStorageBackend.perform (.saveScript folderName file.1 file.2)
          scripts).bind _ = none
        rw [hthrow]
        rfl

/-- What copying one folder does to the names of a directory. -/
structure CopiedFolder (folderName : Text) (files : List (Text × Text))
    (scripts scripts' : ScriptsDir) : Prop where
  other : ∀ name, name ≠ folderName → scripts'.get? name = scripts.get? name
  file : ∀ text, scripts.get? folderName = some (.file text) →
    files = [] ∧ scripts'.get? folderName = some (.file text)
  folder : (∀ text, scripts.get? folderName ≠ some (.file text)) →
    scripts'.get? folderName = some (.folder (setFiles files (folderFiles scripts folderName)))

theorem copiedFolder_of_eq (hcopy : copyFolder folderName files scripts = some scripts') :
    CopiedFolder folderName files scripts scripts' := by
  unfold copyFolder at hcopy
  split at hcopy
  next text hget =>
    obtain ⟨hempty, hsame⟩ := ite_none_right_eq_some.mp hcopy
    obtain rfl := some.inj hsame
    exact ⟨fun _ _ => rfl, fun _ hfile => ⟨hempty, hfile⟩, fun hfree => absurd hget (hfree text)⟩
  next hfree =>
    obtain rfl := some.inj hcopy
    exact ⟨fun name hname => InsertionMap.get?_set_of_ne hname,
      fun text hfile => absurd hfile (hfree text), fun _ => InsertionMap.get?_set_self⟩

theorem copyFolder_isSome_iff : (copyFolder folderName files scripts).isSome ↔
    ∀ text, scripts.get? folderName = some (.file text) → files = [] := by
  unfold copyFolder
  split
  next text hget =>
    constructor
    · intro hsome _ _
      by_contra hfiles
      rw [if_neg hfiles] at hsome
      cases hsome
    · intro hempty
      rw [if_pos (hempty text hget)]
      rfl
  next hfree => exact ⟨fun _ text hfile => absurd hfile (hfree text), fun _ => rfl⟩

/-- What copying folders does to the names of a directory. -/
structure CopiedFolders (folders : List (Text × List (Text × Text)))
    (scripts scripts' : ScriptsDir) : Prop where
  other : ∀ name, name ∉ folders.map Prod.fst → scripts'.get? name = scripts.get? name
  file : ∀ folder ∈ folders, ∀ text, scripts.get? folder.1 = some (.file text) →
    folder.2 = [] ∧ scripts'.get? folder.1 = some (.file text)
  folder : ∀ folder ∈ folders, (∀ text, scripts.get? folder.1 ≠ some (.file text)) →
    scripts'.get? folder.1 = some (.folder (setFiles folder.2 (folderFiles scripts folder.1)))

theorem copiedFolders_of_run (hnodup : (folders.map Prod.fst).Nodup) :
    ∀ {scripts : ScriptsDir}, runOperations (copyFolders folders) scripts = some scripts' →
      CopiedFolders folders scripts scripts' := by
  induction folders with
  | nil =>
    intro scripts hrun
    obtain rfl := some.inj hrun
    exact ⟨fun _ _ => rfl, fun folder hfolder => absurd hfolder not_mem_nil,
      fun folder hfolder => absurd hfolder not_mem_nil⟩
  | cons head folders ih =>
    intro scripts hrun
    obtain ⟨hhead, htail⟩ := nodup_cons.mp hnodup
    unfold copyFolders runOperations at hrun ih
    rw [flatMap_cons, foldlM_append] at hrun
    obtain ⟨middle, hfirst, hrest⟩ := bind_eq_some_iff.mp hrun
    have hcopied := copiedFolder_of_eq (runOperations_copyFolder.symm.trans hfirst)
    have hcopies := ih htail hrest
    -- the other folders do not touch the first one, nor the first one them
    have hkept : ∀ folder ∈ folders, middle.get? folder.1 = scripts.get? folder.1 := by
      intro folder hfolder
      apply hcopied.other
      intro heq
      exact hhead (heq ▸ List.mem_map_of_mem hfolder)
    refine ⟨?_, ?_, ?_⟩
    · intro name hname
      rw [map_cons, mem_cons, not_or] at hname
      rw [hcopies.other name hname.2, hcopied.other name hname.1]
    · intro folder hfolder text hfile
      rcases mem_cons.mp hfolder with rfl | hmem
      · rw [hcopies.other _ hhead]
        exact hcopied.file text hfile
      · rw [← hkept folder hmem] at hfile
        exact hcopies.file folder hmem text hfile
    · intro folder hfolder hnot
      rcases mem_cons.mp hfolder with rfl | hmem
      · rw [hcopies.other _ hhead]
        exact hcopied.folder hnot
      · rw [← hkept folder hmem] at hnot
        have hfiles : folderFiles scripts folder.1 = folderFiles middle folder.1 := by
          rw [folderFiles, folderFiles, hkept folder hmem]
        rw [hfiles]
        exact hcopies.folder folder hmem hnot

theorem runOperations_copyFolders_isSome_iff (hnodup : (folders.map Prod.fst).Nodup) :
    ∀ {scripts : ScriptsDir}, (runOperations (copyFolders folders) scripts).isSome ↔
      ∀ folder ∈ folders, ∀ text, scripts.get? folder.1 = some (.file text) → folder.2 = [] := by
  induction folders with
  | nil => exact ⟨fun _ folder hfolder => absurd hfolder not_mem_nil, fun _ => rfl⟩
  | cons head folders ih =>
    intro scripts
    obtain ⟨hhead, htail⟩ := nodup_cons.mp hnodup
    have hfirst : runOperations (copyFolders (head :: folders)) scripts =
        (copyFolder head.1 head.2 scripts).bind (runOperations (copyFolders folders)) := by
      rw [← runOperations_copyFolder]
      exact foldlM_append
    rw [hfirst, forall_mem_cons, ← copyFolder_isSome_iff]
    cases hcopy : copyFolder head.1 head.2 scripts with
    | none => exact ⟨fun h => absurd h Bool.false_ne_true, fun h => absurd h.1 Bool.false_ne_true⟩
    | some middle =>
      have hkept : ∀ folder ∈ folders, middle.get? folder.1 = scripts.get? folder.1 := by
        intro folder hfolder
        apply (copiedFolder_of_eq hcopy).other
        intro heq
        exact hhead (heq ▸ List.mem_map_of_mem hfolder)
      rw [bind_some, ih htail]
      constructor
      · intro h
        refine ⟨rfl, fun folder hfolder => ?_⟩
        rw [← hkept folder hfolder]
        exact h folder hfolder
      · intro h folder hfolder
        rw [hkept folder hfolder]
        exact h.2 folder hfolder

end Folders

section Complete

variable {naturalSort : Text → Text → Bool} {source target final : NotebookFiles P}
  {data : NotebookData P} {dir : Text} {system : FileSystem}

/-- The target after all calls of the copy were made. -/
structure CopyComplete (naturalSort : Text → Text → Bool) (source target final : NotebookFiles P)
    (data : NotebookData P) (dir : Text) : Prop where
  notebook : final.notebook =
    .written { data with storageType := some .native, nativePath := some dir }
  relations : final.relations = source.relations.or target.relations
  functions : final.functions = source.functions.or target.functions
  scripts : ∃ scripts, CopiedFolders (loadFolders naturalSort source.scripts) target.scripts scripts ∧
    match source.draft with
    | none => final.scripts = scripts
    | some sql => final.scripts = scripts.set scriptDraft (.file sql) ∧
        ∀ files, scripts.get? scriptDraft ≠ some (.folder files)

theorem loadFolders_nodup (scripts : ScriptsDir) :
    ((loadFolders naturalSort scripts).map Prod.fst).Nodup := by
  have hperm : ((loadFolders naturalSort scripts).map Prod.fst).Perm
      ((folderListing naturalSort scripts).map Prod.fst) := (mergeSort_perm _ _).map _
  rw [hperm.nodup_iff, folderListing_eq, map_filterMap]
  have hsub : ∀ names : List Text,
      (names.filterMap fun name => (listName naturalSort scripts name).map Prod.fst).Sublist names := by
    intro names
    induction names with
    | nil => exact .slnil
    | cons name names ih =>
      rw [filterMap_cons]
      unfold listName at ih ⊢
      split
      next => exact ih.cons _
      next found hfound =>
        have hname : found = name := by
          split at hfound
          · exact (some.inj hfound).symm
          · cases hfound
        rw [hname]
        exact ih.cons_cons _
  exact scripts.nodup_keys.sublist (hsub scripts.keys)

/-- All calls of the copy, one after another. -/
theorem performAll_copy (data' : NotebookData P) :
    performAll (copyNotebook naturalSort source data ++ [.saveNotebookManifest data']) target =
      ((runOperations (copyFolders (loadFolders naturalSort source.scripts)) target.scripts).bind
        (runOperations (source.draft.toList.map .saveScriptDraft))).map fun scripts =>
          { notebook := .written data'
            relations := source.relations.or target.relations
            functions := source.functions.or target.functions
            scripts } := by
  have hdraft : (source.draft.toList.map fun sql => NativeCall.scripts (P := P) (.saveScriptDraft sql)) =
      (source.draft.toList.map .saveScriptDraft).map .scripts := by rw [List.map_map]; rfl
  unfold copyNotebook
  rw [hdraft, cons_append, performAll, foldlM_cons]
  change performAll _ { target with notebook := .written data } = _
  rw [performAll_append, performAll_append, performAll_append, performAll_append,
    performAll_schema, bind_some, performAll_functions, bind_some,
    performAll_scripts]
  dsimp only
  cases runOperations (copyFolders (loadFolders naturalSort source.scripts)) target.scripts with
  | none => rfl
  | some scripts =>
    rw [map_some, bind_some, performAll_scripts, bind_some]
    dsimp only
    cases runOperations (source.draft.toList.map .saveScriptDraft) scripts <;> rfl

theorem runOperations_draft_isSome_iff (draft : Option Text) (scripts : ScriptsDir) :
    (runOperations (draft.toList.map .saveScriptDraft) scripts).isSome ↔
      (draft.isSome → ∀ files, scripts.get? scriptDraft ≠ some (.folder files)) := by
  cases draft with
  | none => exact ⟨fun _ h => absurd h Bool.false_ne_true, fun _ => rfl⟩
  | some sql =>
    have hrun : runOperations ([sql].map .saveScriptDraft) scripts =
        NativeStorageBackend.saveScriptDraft sql scripts := by
      unfold runOperations
      rw [map_singleton, foldlM_cons, NativeStorageBackend.perform]
      cases NativeStorageBackend.saveScriptDraft sql scripts <;> rfl
    rw [toList_some, hrun, NativeStorageBackend.saveScriptDraft]
    split
    next files hget => exact ⟨fun h => absurd h Bool.false_ne_true, fun h => absurd hget (h rfl files)⟩
    next hfree => exact ⟨fun _ _ => hfree, fun _ => rfl⟩

end Complete

/-! ## Listings and counts -/

section Counts

variable (naturalSort : Text → Text → Bool) {files : Folder} {scripts : ScriptsDir}

theorem mem_loadScriptsInFolder {name sql : Text} :
    (name, sql) ∈ loadScriptsInFolder naturalSort files ↔
      files.get? name = some sql ∧ scriptExtension.isSuffixOf name ∧ name ≠ scriptDraft := by
  rw [loadScriptsInFolder, (mergeSort_perm _ _).mem_iff, mem_filter,
    InsertionMap.get?_eq_some_iff, decide_eq_true_iff]

theorem nodup_loadScriptsInFolder : ((loadScriptsInFolder naturalSort files).map Prod.fst).Nodup := by
  have hperm := (mergeSort_perm
    (files.entries.filter fun script =>
      scriptExtension.isSuffixOf script.1 ∧ script.1 ≠ scriptDraft)
    fun a b => naturalSort a.1 b.1).map Prod.fst
  rw [loadScriptsInFolder, hperm.nodup_iff]
  exact files.nodup.sublist (filter_sublist.map _)

theorem mem_loadFolders {name : Text} {listing : List (Text × Text)} :
    (name, listing) ∈ loadFolders naturalSort scripts ↔
      ∃ files, scripts.get? name = some (.folder files) ∧
        listing = loadScriptsInFolder naturalSort files := by
  rw [loadFolders, (mergeSort_perm _ _).mem_iff, folderListing_eq, mem_filterMap]
  constructor
  · rintro ⟨name', _, hlisted⟩
    unfold listName at hlisted
    split at hlisted
    next files hget =>
      obtain ⟨rfl, rfl⟩ := Prod.mk.inj (some.inj hlisted)
      exact ⟨files, hget, rfl⟩
    next => cases hlisted
  · rintro ⟨files, hget, hlisting⟩
    refine ⟨name, InsertionMap.mem_keys_iff.mpr ⟨_, hget⟩, ?_⟩
    rw [listName, hget, hlisting]

theorem listName_of_folder {name : Text} (hget : scripts.get? name = some (.folder files)) :
    listName naturalSort scripts name = some (name, loadScriptsInFolder naturalSort files) := by
  rw [listName, hget]

theorem listName_eq_none {name : Text} (hfree : ∀ files, scripts.get? name ≠ some (.folder files)) :
    listName naturalSort scripts name = none := by
  unfold listName
  split
  next files hget => exact absurd hget (hfree files)
  next => rfl

/-- How many scripts are listed for a name. -/
def listedCount (scripts : ScriptsDir) (name : Text) : ℕ :=
  ((listName naturalSort scripts name).map fun folder => folder.2.length).getD 0

theorem listedCount_of_folder {name : Text} (hget : scripts.get? name = some (.folder files)) :
    listedCount naturalSort scripts name = (loadScriptsInFolder naturalSort files).length := by
  rw [listedCount, listName_of_folder naturalSort hget]
  rfl

theorem listedCount_eq_zero {name : Text}
    (hfree : ∀ files, scripts.get? name ≠ some (.folder files)) :
    listedCount naturalSort scripts name = 0 := by
  rw [listedCount, listName_eq_none naturalSort hfree]
  rfl

theorem countScripts_eq_sum (folders : List (Text × List (Text × Text))) :
    countScripts folders = (folders.map fun folder => folder.2.length).sum := by
  have hloop : ∀ (folders : List (Text × List (Text × Text))) (sum : ℕ),
      folders.foldl (fun sum folder => sum + folder.2.length) sum =
        sum + (folders.map fun folder => folder.2.length).sum := by
    intro folders
    induction folders with
    | nil => intro sum; rfl
    | cons folder folders ih =>
      intro sum
      rw [foldl_cons, ih, map_cons, sum_cons, Nat.add_assoc]
  rw [countScripts, hloop, Nat.zero_add]

/-- The count of a listing is the sum over any names that are all of the directory's. -/
theorem countScripts_loadFolders {names : Finset Text} (hnames : ∀ name ∈ scripts.keys, name ∈ names) :
    countScripts (loadFolders naturalSort scripts) =
      ∑ name ∈ names, listedCount naturalSort scripts name := by
  have hlisting : ∀ keys : List Text,
      ((keys.filterMap (listName naturalSort scripts)).map fun folder => folder.2.length).sum =
        (keys.map (listedCount naturalSort scripts)).sum := by
    intro keys
    induction keys with
    | nil => rfl
    | cons key keys ih =>
      rw [map_cons, sum_cons, ← ih, filterMap_cons, listedCount]
      cases listName naturalSort scripts key with
      | none => exact (Nat.zero_add _).symm
      | some folder => rw [map_cons, sum_cons, map_some, getD_some]
  have hperm : ((loadFolders naturalSort scripts).map fun folder => folder.2.length).Perm
      ((folderListing naturalSort scripts).map fun folder => folder.2.length) :=
    (mergeSort_perm _ _).map _
  calc countScripts (loadFolders naturalSort scripts)
      = ((folderListing naturalSort scripts).map fun folder => folder.2.length).sum := by
        rw [countScripts_eq_sum, hperm.sum_eq]
    _ = (scripts.keys.map (listedCount naturalSort scripts)).sum := by
        rw [folderListing_eq, hlisting]
    _ = ∑ name ∈ scripts.keys.toFinset, listedCount naturalSort scripts name :=
        (sum_toFinset _ scripts.nodup_keys).symm
    _ = ∑ name ∈ names, listedCount naturalSort scripts name := by
        apply Finset.sum_subset
        · intro name hname
          exact hnames name (List.mem_toFinset.mp hname)
        · intro name _ hunknown
          rw [List.mem_toFinset, ← InsertionMap.get?_eq_none_iff] at hunknown
          rw [listedCount, listName, hunknown]
          rfl

end Counts

section CanCopy

variable {naturalSort : Text → Text → Bool} {source target : NotebookFiles P}
  {data : NotebookData P} {dir : Text} {system : FileSystem}

/-- A directory that the copy gets through: no folder with scripts has the name of a file there, and
no folder has the name of the draft. -/
structure CanCopy (naturalSort : Text → Text → Bool) (source target : NotebookFiles P) : Prop where
  folders : ∀ folderName files text, source.scripts.get? folderName = some (.folder files) →
    target.scripts.get? folderName = some (.file text) → loadScriptsInFolder naturalSort files = []
  draft : source.draft.isSome → ∀ files, target.scripts.get? scriptDraft ≠ some (.folder files)

theorem performAll_copy_isSome_iff (data' : NotebookData P) :
    (performAll (copyNotebook naturalSort source data ++ [.saveNotebookManifest data'])
      target).isSome ↔ CanCopy naturalSort source target := by
  rw [performAll_copy, isSome_map]
  have hnodup := @loadFolders_nodup naturalSort source.scripts
  have hfolders := @runOperations_copyFolders_isSome_iff _ hnodup target.scripts
  have hlisted : (∀ folder ∈ loadFolders naturalSort source.scripts, ∀ text,
      target.scripts.get? folder.1 = some (.file text) → folder.2 = []) ↔
      ∀ folderName files text, source.scripts.get? folderName = some (.folder files) →
        target.scripts.get? folderName = some (.file text) →
          loadScriptsInFolder naturalSort files = [] := by
    constructor
    · intro h folderName files text hsource
      exact h (folderName, _) ((mem_loadFolders naturalSort).mpr ⟨files, hsource, rfl⟩) text
    · intro h folder hfolder text hfile
      obtain ⟨files, hsource, hlisting⟩ := (mem_loadFolders naturalSort).mp hfolder
      rw [hlisting]
      exact h folder.1 files text hsource hfile
  rw [hlisted] at hfolders
  cases hrun : runOperations (copyFolders (loadFolders naturalSort source.scripts))
      target.scripts with
  | none =>
    rw [hrun] at hfolders
    exact ⟨fun h => absurd h Bool.false_ne_true, fun h => hfolders.mpr h.folders⟩
  | some scripts =>
    rw [hrun] at hfolders
    have hcopied := copiedFolders_of_run hnodup hrun
    -- a notebook with a draft has no folder of that name
    have hdraft : (source.draft.isSome →
        ∀ files, scripts.get? scriptDraft ≠ some (.folder files)) ↔
        (source.draft.isSome →
          ∀ files, target.scripts.get? scriptDraft ≠ some (.folder files)) := by
      apply imp_congr_right
      intro hsome
      rw [hcopied.other scriptDraft]
      rw [mem_map_fst_loadFolders]
      rintro ⟨files, hfiles⟩
      rw [NotebookFiles.draft, hfiles] at hsome
      cases hsome
    rw [bind_some, runOperations_draft_isSome_iff, hdraft]
    exact ⟨fun h => ⟨hfolders.mp rfl, h⟩, fun h => h.draft⟩

theorem copied_complete_iff : (copied naturalSort system source data dir target).2 = true ↔
    (copyNotebook naturalSort source data).length < system.calls ∧
      CanCopy naturalSort source target := by
  unfold copied
  rw [performCalls_complete_iff, performAll_copy_isSome_iff, length_append,
    length_singleton, Nat.add_one_le_iff]

theorem copyComplete_of_copied
    (hcomplete : (copied naturalSort system source data dir target).2 = true) :
    CopyComplete naturalSort source target (copied naturalSort system source data dir target).1
      data dir := by
  have hall := performAll_of_complete hcomplete
  change _ = some (copied naturalSort system source data dir target).1 at hall
  rw [performAll_copy, map_eq_some_iff] at hall
  obtain ⟨final, hruns, hfinal⟩ := hall
  obtain ⟨scripts, hfolders, hdraft⟩ := bind_eq_some_iff.mp hruns
  rw [← hfinal]
  refine ⟨rfl, rfl, rfl, scripts,
    copiedFolders_of_run (loadFolders_nodup source.scripts) hfolders, ?_⟩
  have hfree := (runOperations_draft_isSome_iff source.draft scripts).mp (hdraft ▸ rfl)
  cases hsome : source.draft with
  | none =>
    rw [hsome] at hdraft
    exact (some.inj hdraft).symm
  | some sql =>
    rw [hsome] at hdraft hfree
    refine ⟨?_, hfree rfl⟩
    have hsaved : NativeStorageBackend.saveScriptDraft sql scripts = some final := by
      unfold runOperations at hdraft
      rw [toList_some, map_singleton, foldlM_cons, NativeStorageBackend.perform] at hdraft
      obtain ⟨scripts', hsave, hend⟩ := bind_eq_some_iff.mp hdraft
      rw [hsave, ← hend]
      rfl
    unfold NativeStorageBackend.saveScriptDraft at hsaved
    split at hsaved
    · cases hsaved
    · exact (some.inj hsaved).symm

end CanCopy

section Copied

variable {naturalSort : Text → Text → Bool} {source target final : NotebookFiles P}
  {data : NotebookData P} {dir name text sql : Text} {files : Folder}

theorem CopyComplete.get?_folder (h : CopyComplete naturalSort source target final data dir)
    (hsource : source.scripts.get? name = some (.folder files))
    (hfree : ∀ text, target.scripts.get? name ≠ some (.file text)) :
    final.scripts.get? name = some (.folder
      (setFiles (loadScriptsInFolder naturalSort files) (folderFiles target.scripts name))) := by
  obtain ⟨scripts, hcopied, hdraft⟩ := h.scripts
  have hfolder := hcopied.folder (name, loadScriptsInFolder naturalSort files)
    ((mem_loadFolders naturalSort).mpr ⟨files, hsource, rfl⟩) hfree
  cases hsome : source.draft with
  | none =>
    rw [hsome] at hdraft
    rw [hdraft]
    exact hfolder
  | some sql =>
    rw [hsome] at hdraft
    have hne : name ≠ scriptDraft := by
      rintro rfl
      rw [NotebookFiles.draft, hsource] at hsome
      cases hsome
    rw [hdraft.1, InsertionMap.get?_set_of_ne hne]
    exact hfolder

theorem CopyComplete.get?_file (h : CopyComplete naturalSort source target final data dir)
    (hsource : source.scripts.get? name = some (.folder files))
    (hfile : target.scripts.get? name = some (.file text)) :
    loadScriptsInFolder naturalSort files = [] ∧ final.scripts.get? name = some (.file text) := by
  obtain ⟨scripts, hcopied, hdraft⟩ := h.scripts
  obtain ⟨hempty, hkept⟩ := hcopied.file (name, loadScriptsInFolder naturalSort files)
    ((mem_loadFolders naturalSort).mpr ⟨files, hsource, rfl⟩) text hfile
  refine ⟨hempty, ?_⟩
  cases hsome : source.draft with
  | none =>
    rw [hsome] at hdraft
    rw [hdraft]
    exact hkept
  | some sql =>
    rw [hsome] at hdraft
    have hne : name ≠ scriptDraft := by
      rintro rfl
      rw [NotebookFiles.draft, hsource] at hsome
      cases hsome
    rw [hdraft.1, InsertionMap.get?_set_of_ne hne]
    exact hkept

theorem CopyComplete.get?_other (h : CopyComplete naturalSort source target final data dir)
    (hsource : ∀ files, source.scripts.get? name ≠ some (.folder files))
    (hdraftName : name = scriptDraft → source.draft = none) :
    final.scripts.get? name = target.scripts.get? name := by
  obtain ⟨scripts, hcopied, hdraft⟩ := h.scripts
  have hunlisted : name ∉ (loadFolders naturalSort source.scripts).map Prod.fst := by
    rw [mem_map_fst_loadFolders]
    exact fun ⟨files, hfiles⟩ => hsource files hfiles
  cases hsome : source.draft with
  | none =>
    rw [hsome] at hdraft
    rw [hdraft]
    exact hcopied.other name hunlisted
  | some sql =>
    rw [hsome] at hdraft
    have hne : name ≠ scriptDraft := by
      intro heq
      rw [hdraftName heq] at hsome
      cases hsome
    rw [hdraft.1, InsertionMap.get?_set_of_ne hne]
    exact hcopied.other name hunlisted

theorem CopyComplete.get?_draft (h : CopyComplete naturalSort source target final data dir)
    (hsource : source.draft = some sql) :
    final.scripts.get? scriptDraft = some (.file sql) ∧
      ∀ files, target.scripts.get? scriptDraft ≠ some (.folder files) := by
  obtain ⟨scripts, hcopied, hdraft⟩ := h.scripts
  rw [hsource] at hdraft
  have hunlisted : scriptDraft ∉ (loadFolders naturalSort source.scripts).map Prod.fst := by
    rw [mem_map_fst_loadFolders]
    rintro ⟨files, hfiles⟩
    rw [NotebookFiles.draft, hfiles] at hsource
    cases hsource
  rw [hdraft.1, ← hcopied.other _ hunlisted]
  exact ⟨InsertionMap.get?_set_self, hdraft.2⟩

/-- The scripts of a folder that was copied are among those that are listed afterwards. -/
theorem subperm_setFiles (folder : Folder) :
    (loadScriptsInFolder naturalSort files).Subperm
      (loadScriptsInFolder naturalSort
        (setFiles (loadScriptsInFolder naturalSort files) folder)) := by
  apply List.Nodup.subperm (nodup_loadScriptsInFolder naturalSort).of_map
  intro script hscript
  obtain ⟨name, sql⟩ := script
  have hlisted := (mem_loadScriptsInFolder naturalSort).mp hscript
  rw [mem_loadScriptsInFolder]
  exact ⟨InsertionMap.get?_foldl_set_of_mem (nodup_loadScriptsInFolder naturalSort) hscript,
    hlisted.2⟩

theorem CopyComplete.listedCount_le (h : CopyComplete naturalSort source target final data dir)
    (name : Text) :
    listedCount naturalSort source.scripts name ≤ listedCount naturalSort final.scripts name := by
  unfold listedCount listName
  cases hsource : source.scripts.get? name with
  | none => exact Nat.zero_le _
  | some entry =>
    cases entry with
    | file text => exact Nat.zero_le _
    | folder files =>
      by_cases hfree : ∀ text, target.scripts.get? name ≠ some (.file text)
      · rw [h.get?_folder hsource hfree]
        exact (subperm_setFiles _).length_le
      · obtain ⟨text, hfile⟩ := not_forall_not.mp hfree
        rw [(h.get?_file hsource hfile).2]
        simp [(h.get?_file hsource hfile).1]

theorem CopyComplete.listedCount_eq (h : CopyComplete naturalSort source target final data dir)
    (hverified : verifyNotebook naturalSort source final = true) (name : Text) :
    listedCount naturalSort source.scripts name = listedCount naturalSort final.scripts name := by
  unfold verifyNotebook NotebookFiles.loadNative at hverified
  rw [h.notebook] at hverified
  have hcount := (of_decide_eq_true hverified).2
  let names := (name :: (source.scripts.keys ++ final.scripts.keys)).toFinset
  have hnames : ∀ probe, probe ∈ source.scripts.keys ∨ probe ∈ final.scripts.keys →
      probe ∈ names := by
    intro probe hprobe
    exact List.mem_toFinset.mpr (mem_cons_of_mem _ (mem_append.mpr hprobe))
  rw [countScripts_loadFolders naturalSort fun probe hprobe => hnames probe (.inl hprobe),
    countScripts_loadFolders naturalSort fun probe hprobe => hnames probe (.inr hprobe)] at hcount
  refine (Finset.sum_eq_sum_iff_of_le fun probe _ => h.listedCount_le probe).mp hcount name ?_
  exact List.mem_toFinset.mpr mem_cons_self

/-- Where the source has no folder, there is one exactly if there was one. -/
theorem CopyComplete.folder_iff (h : CopyComplete naturalSort source target final data dir)
    (hsource : ∀ files, source.scripts.get? name ≠ some (.folder files)) :
    final.scripts.get? name = some (.folder files) ↔
      target.scripts.get? name = some (.folder files) := by
  by_cases hdraftName : name = scriptDraft → source.draft = none
  · rw [h.get?_other hsource hdraftName]
  · obtain ⟨rfl, hdraft⟩ := Classical.not_imp.mp hdraftName
    obtain ⟨sql, hsome⟩ := ne_none_iff_exists'.mp hdraft
    obtain ⟨hfinal, htarget⟩ := h.get?_draft hsome
    rw [hfinal]
    constructor
    · intro hfile
      cases hfile
    · intro hfolder
      exact absurd hfolder (htarget files)

/-- A directory that lists no script but those of the notebook. -/
def ListsNoOther (naturalSort : Text → Text → Bool) (source target : NotebookFiles P) : Prop :=
  ∀ folderName files script, target.scripts.get? folderName = some (.folder files) →
    script ∈ loadScriptsInFolder naturalSort files →
      ∃ files', source.scripts.get? folderName = some (.folder files') ∧
        script.1 ∈ (loadScriptsInFolder naturalSort files').map Prod.fst

theorem mem_folderFiles_listing {script : Text × Text}
    (hget : (folderFiles target.scripts name).get? script.1 = some script.2)
    (hlisted : scriptExtension.isSuffixOf script.1 ∧ script.1 ≠ scriptDraft) :
    ∃ files, target.scripts.get? name = some (.folder files) ∧
      script ∈ loadScriptsInFolder naturalSort files := by
  unfold folderFiles at hget
  split at hget
  next files hfolder =>
    exact ⟨files, hfolder, (mem_loadScriptsInFolder naturalSort).mpr ⟨hget, hlisted⟩⟩
  next => cases hget

/-- In such a directory a copied folder lists the scripts of the notebook. -/
theorem listing_perm (hlists : ListsNoOther naturalSort source target)
    (hsource : source.scripts.get? name = some (.folder files)) :
    (loadScriptsInFolder naturalSort files).Perm (loadScriptsInFolder naturalSort
      (setFiles (loadScriptsInFolder naturalSort files) (folderFiles target.scripts name))) := by
  apply (subperm_setFiles _).antisymm
  apply List.Nodup.subperm (nodup_loadScriptsInFolder naturalSort).of_map
  intro script hscript
  obtain ⟨scriptName, sql⟩ := script
  obtain ⟨hget, hlisted⟩ := (mem_loadScriptsInFolder naturalSort).mp hscript
  by_cases hname : scriptName ∈ (loadScriptsInFolder naturalSort files).map Prod.fst
  · obtain ⟨⟨_, sql'⟩, hmem, rfl⟩ := List.mem_map.mp hname
    have hset := InsertionMap.get?_foldl_set_of_mem (m := folderFiles target.scripts name)
      (nodup_loadScriptsInFolder naturalSort) hmem
    obtain rfl := some.inj (hset.symm.trans hget)
    exact hmem
  · -- a script that the target had
    rw [setFiles, InsertionMap.get?_foldl_set_of_not_mem hname] at hget
    have hfound : ∃ files', target.scripts.get? name = some (.folder files') ∧
        (scriptName, sql) ∈ loadScriptsInFolder naturalSort files' :=
      mem_folderFiles_listing hget hlisted
    obtain ⟨files', hfolder, hmem⟩ := hfound
    obtain ⟨files'', hsource', hfound⟩ := hlists name files' _ hfolder hmem
    obtain rfl := ScriptsEntry.folder.inj (some.inj (hsource.symm.trans hsource'))
    exact absurd hfound hname

/-- A verified copy was made into a directory that lists no other script. -/
theorem CopyComplete.listsNoOther (h : CopyComplete naturalSort source target final data dir)
    (hverified : verifyNotebook naturalSort source final = true) :
    ListsNoOther naturalSort source target := by
  intro folderName files' script htarget hscript
  have hcount := h.listedCount_eq hverified folderName
  by_cases hsource : ∃ files, source.scripts.get? folderName = some (.folder files)
  · obtain ⟨files, hfolder⟩ := hsource
    refine ⟨files, hfolder, ?_⟩
    by_contra hother
    have hfree : ∀ text, target.scripts.get? folderName ≠ some (.file text) := by
      intro text hfile
      rw [htarget] at hfile
      cases hfile
    rw [listedCount_of_folder naturalSort hfolder,
      listedCount_of_folder naturalSort (h.get?_folder hfolder hfree)] at hcount
    have hperm := (@subperm_setFiles naturalSort files
      (folderFiles target.scripts folderName)).perm_of_length_le hcount.ge
    -- it is still listed, so it is in the folder of the notebook
    have hlisted := (mem_loadScriptsInFolder naturalSort).mp hscript
    have hkept : script ∈ loadScriptsInFolder naturalSort
        (setFiles (loadScriptsInFolder naturalSort files)
          (folderFiles target.scripts folderName)) := by
      refine (mem_loadScriptsInFolder naturalSort).mpr ⟨?_, hlisted.2⟩
      rw [setFiles, InsertionMap.get?_foldl_set_of_not_mem hother, folderFiles, htarget]
      exact hlisted.1
    exact hother (List.mem_map_of_mem (hperm.mem_iff.mpr hkept))
  · -- its scripts would be counted besides those of the notebook
    have hfree := fun files hfolder => hsource ⟨files, hfolder⟩
    have hfinal := (h.folder_iff hfree).mpr htarget
    rw [listedCount_eq_zero naturalSort hfree, listedCount_of_folder naturalSort hfinal] at hcount
    rw [length_eq_zero_iff.mp hcount.symm] at hscript
    cases hscript

theorem CopyComplete.verified (h : CopyComplete naturalSort source target final data dir)
    (hid : data.notebookId ≠ []) (hlists : ListsNoOther naturalSort source target) :
    verifyNotebook naturalSort source final = true := by
  have hcount : ∀ name, listedCount naturalSort source.scripts name =
      listedCount naturalSort final.scripts name := by
    intro name
    by_cases hsource : ∃ files, source.scripts.get? name = some (.folder files)
    · obtain ⟨files, hfolder⟩ := hsource
      rw [listedCount_of_folder naturalSort hfolder]
      by_cases hfree : ∀ text, target.scripts.get? name ≠ some (.file text)
      · rw [listedCount_of_folder naturalSort (h.get?_folder hfolder hfree)]
        exact (listing_perm hlists hfolder).length_eq
      · obtain ⟨text, hfile⟩ := not_forall_not.mp hfree
        obtain ⟨hempty, hfinal⟩ := h.get?_file hfolder hfile
        rw [hempty, listedCount_eq_zero naturalSort]
        · rfl
        · intro files' hfolder'
          rw [hfinal] at hfolder'
          cases hfolder'
    · have hfree := fun files hfolder => hsource ⟨files, hfolder⟩
      rw [listedCount_eq_zero naturalSort hfree]
      by_cases hfinal : ∃ files, final.scripts.get? name = some (.folder files)
      · obtain ⟨files, hfolder⟩ := hfinal
        rw [listedCount_of_folder naturalSort hfolder]
        cases hlisting : loadScriptsInFolder naturalSort files with
        | nil => rfl
        | cons script scripts =>
          obtain ⟨files', hfolder', -⟩ := hlists name files script
            ((h.folder_iff hfree).mp hfolder) (hlisting ▸ mem_cons_self)
          exact absurd hfolder' (hfree files')
      · rw [listedCount_eq_zero naturalSort fun files hfolder => hfinal ⟨files, hfolder⟩]
  unfold verifyNotebook NotebookFiles.loadNative
  rw [h.notebook]
  refine decide_eq_true ⟨hid, ?_⟩
  let names := (source.scripts.keys ++ final.scripts.keys).toFinset
  have hnames : ∀ probe, probe ∈ source.scripts.keys ∨ probe ∈ final.scripts.keys →
      probe ∈ names := by
    intro probe hprobe
    exact List.mem_toFinset.mpr (mem_append.mpr hprobe)
  rw [countScripts_loadFolders naturalSort fun probe hprobe => hnames probe (.inl hprobe),
    countScripts_loadFolders naturalSort fun probe hprobe => hnames probe (.inr hprobe)]
  exact Finset.sum_congr rfl fun name _ => hcount name

end Copied

end DashQL.Storage
