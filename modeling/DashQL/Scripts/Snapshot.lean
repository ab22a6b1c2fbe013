import DashQL.Scripts.Reorder

/-!
# Snapshots of the storage

When the files of a notebook change outside of it, its scripts are replaced by the
files that the storage has now (`replaceNotebookScriptsFromStorage`), unless they
are the same already (`notebookScriptsMatchStorageSnapshot`).  A script that is
found under its old path stays what it is but for its text.
-/

namespace DashQL.Scripts

open Storage Notebook

/-! ## Snapshots -/

/-- A file of a snapshot. -/
structure StoredScript where
  name : Text
  sql : Text

structure StoredFolder where
  name : Text
  scripts : List StoredScript

/-- `NotebookScriptsStorageSnapshot`. -/
structure Snapshot where
  folders : List StoredFolder
  draft : Option Text

def pathOf (folderName fileName : Text) : Text := folderName ++ '/' :: fileName

/-- A script is in a folder.  The draft has neither a folder nor a file name. -/
def ScriptData.HasPath (script : ScriptData) : Prop := script.folderName ≠ [] ∧ script.fileName ≠ []

instance (script : ScriptData) : Decidable script.HasPath := inferInstanceAs (Decidable (_ ∧ _))

def ScriptData.path (script : ScriptData) : Text := pathOf script.folderName script.fileName

def Snapshot.files (snapshot : Snapshot) : List (Text × Text) :=
  snapshot.folders.flatMap fun folder =>
    folder.scripts.map fun stored => (pathOf folder.name stored.name, stored.sql)

/-- The text of the composer, or none. -/
def NotebookScripts.draftText (state : NotebookScripts) : Text :=
  (state.text state.uncommittedScriptId).getD []

def notebookScriptsMatchStorageSnapshot (state : NotebookScripts) (snapshot : Snapshot) : Bool :=
  let diskPages := (snapshot.folders.map StoredFolder.name).eraseDups
  let allPages := state.scriptFolders.keys
  let memoryPages := if diskPages = [] ∧ allPages = ["Untitled".toList] then [] else allPages
  if diskPages.length ≠ memoryPages.length ∨ ∃ page ∈ diskPages, page ∉ memoryPages then false
  else
    let diskScripts : InsertionMap Text Text :=
      snapshot.files.foldl (fun m file => m.set file.1 file.2) .empty
    let memoryScripts := state.scripts.values.filter fun script => decide script.HasPath
    if memoryScripts.length ≠ diskScripts.keys.length then false
    else if ∃ script ∈ memoryScripts, diskScripts.get? script.path ≠ some script.text then false
    else decide (state.draftText = snapshot.draft.getD [])

/-! ## The replacement -/

/-- `m[name] = value`: the name `__proto__` sets the prototype and adds no entry. -/
def assignMember {α : Type} (m : InsertionMap Text α) (name : Text) (value : α) :
    InsertionMap Text α :=
  if name = "__proto__".toList then m else m.set name value

/-- The variables of the loops over the snapshot.  Scripts are created under the keys of a
supply, of which the first ones are used up. -/
structure Replacing where
  existingByPath : InsertionMap Text ScriptData
  scripts : InsertionMap ℕ ScriptData
  scriptFolders : InsertionMap Text ScriptFolder
  created : ℕ

section Replace

variable (freshKey : ℕ → ℕ)

/-- The loop over the files of a folder. -/
def replaceScript (pageName : Text) (work : Replacing × InsertionMap Text ScriptRef)
    (stored : StoredScript) : Replacing × InsertionMap Text ScriptRef :=
  let path := pathOf pageName stored.name
  match work.1.existingByPath.get? path with
  | some existing =>
    let scriptData :=
      if existing.text ≠ stored.sql then { existing with text := stored.sql } else existing
    ({ work.1 with
        existingByPath := work.1.existingByPath.delete path
        scripts := work.1.scripts.set scriptData.scriptKey scriptData },
      assignMember work.2 stored.name ⟨some scriptData.scriptKey, stored.name⟩)
  | none =>
    let scriptKey := freshKey work.1.created
    let scriptData : ScriptData := ⟨scriptKey, stored.sql, stored.name, pageName⟩
    ({ work.1 with
        scripts := work.1.scripts.set scriptKey scriptData
        created := work.1.created + 1 },
      assignMember work.2 stored.name ⟨some scriptKey, stored.name⟩)

/-- The loop over the folders. -/
def replacePage (work : Replacing) (page : StoredFolder) : Replacing :=
  let done := page.scripts.foldl (replaceScript freshKey page.name) (work, .empty)
  { done.1 with
    scriptFolders := assignMember done.1.scriptFolders page.name ⟨page.name, done.2⟩ }

def existingByPath (state : NotebookScripts) : InsertionMap Text ScriptData :=
  (state.scripts.values.filter fun script => decide script.HasPath).foldl
    (fun m script => m.set script.path script) .empty

/-- The focus after the replacement.  An inherited function that passes for the folder in focus
has no files that could be listed. -/
def refocus (localeCompare : Text → Text → ℤ) (scriptFolders : InsertionMap Text ScriptFolder)
    (focus : ScriptFocus) : Option ScriptFocus :=
  let folders := getSortedScriptFolderNames localeCompare scriptFolders
  let folderName :=
    if (readMember scriptFolders inheritedFolder focus.folderName).isSome then focus.folderName
    else folders.headD []
  match scriptFolders.get? folderName with
  | none => if folderName = [] then some ⟨folderName, []⟩ else none
  | some page =>
    let files := if folderName = [] then [] else getSortedScriptFileNames localeCompare page
    let fileName :=
      if (readMember page.scripts inheritedRef focus.fileName).isSome then focus.fileName
      else files.headD []
    some ⟨folderName, fileName⟩

/-- `replaceNotebookScriptsFromStorage`.  What it destroys and what it analyzes again is not part of
the state here. -/
def replaceNotebookScriptsFromStorage (localeCompare : Text → Text → ℤ) (state : NotebookScripts)
    (snapshot : Snapshot) : Option NotebookScripts :=
  let work := snapshot.folders.foldl (replacePage freshKey) ⟨existingByPath state, .empty, .empty, 0⟩
  let draft := (state.scripts.get? state.uncommittedScriptId).getD
    ⟨freshKey work.created, [], [], []⟩
  let uncommittedScriptId :=
    if (state.scripts.get? state.uncommittedScriptId).isSome then state.uncommittedScriptId
    else draft.scriptKey
  let draftSql := snapshot.draft.getD []
  let draft := if draft.text ≠ draftSql then { draft with text := draftSql } else draft
  let scriptFolders :=
    if objectKeys work.scriptFolders = [] then
      work.scriptFolders.set "Untitled".toList ⟨"Untitled".toList, .empty⟩
    else work.scriptFolders
  (refocus localeCompare scriptFolders state.scriptFocus).map fun scriptFocus =>
    { scripts := work.scripts.set draft.scriptKey draft
      scriptFolders := scriptFolders
      uncommittedScriptId := uncommittedScriptId
      scriptFocus := scriptFocus }

end Replace

/-! ## What a replacement is for -/

/-- What the actions keep true of a notebook: scripts are kept under their own keys, the paths are
distinct, the composer has no path, and every other script has one. -/
structure NotebookScripts.Consistent (state : NotebookScripts) : Prop where
  keyed : ∀ key script, state.scripts.get? key = some script → script.scriptKey = key
  paths : ∀ script ∈ state.scripts.values, ∀ other ∈ state.scripts.values,
    script.HasPath → other.HasPath → script.path = other.path → script = other
  draft : ∀ script, state.scripts.get? state.uncommittedScriptId = some script → ¬ script.HasPath
  owned : ∀ key script, state.scripts.get? key = some script →
    script.HasPath ∨ key = state.uncommittedScriptId

/-- A snapshot as the storage takes it: names are neither empty nor repeated, and have no slash in
them. -/
structure Snapshot.WellFormed (snapshot : Snapshot) : Prop where
  folders : (snapshot.folders.map StoredFolder.name).Nodup
  files : ∀ folder ∈ snapshot.folders, (folder.scripts.map StoredScript.name).Nodup
  folder_ne_nil : ∀ folder ∈ snapshot.folders, folder.name ≠ []
  file_ne_nil : ∀ folder ∈ snapshot.folders, ∀ stored ∈ folder.scripts, stored.name ≠ []
  folder_slash : ∀ folder ∈ snapshot.folders, '/' ∉ folder.name
  file_slash : ∀ folder ∈ snapshot.folders, ∀ stored ∈ folder.scripts, '/' ∉ stored.name

/-- A supply of keys that no script has. -/
structure FreshKeys (freshKey : ℕ → ℕ) (state : NotebookScripts) : Prop where
  injective : Function.Injective freshKey
  fresh : ∀ n, freshKey n ∉ state.scripts.keys

/-- The state after a replacement: it matches the snapshot, the scripts of paths that stay keep
their keys, and if it matched before then every script is what it was, and none is new but that of a
composer that there was not. -/
structure Replaced (snapshot : Snapshot) (state next : NotebookScripts) : Prop where
  matched : notebookScriptsMatchStorageSnapshot next snapshot = true
  keeps : ∀ key script, state.scripts.get? key = some script → script.HasPath →
    script.path ∈ snapshot.files.map Prod.fst →
      ∃ script', next.scripts.get? key = some script' ∧ script'.path = script.path
  unchanged : notebookScriptsMatchStorageSnapshot state snapshot = true →
    (∀ key ∈ state.scripts.keys, next.scripts.get? key = state.scripts.get? key) ∧
      ∀ key ∈ next.scripts.keys, key ∈ state.scripts.keys ∨
        key = next.uncommittedScriptId ∧ state.uncommittedScriptId ∉ state.scripts.keys

end DashQL.Scripts
