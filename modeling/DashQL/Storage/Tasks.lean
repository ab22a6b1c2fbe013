import DashQL.Library.Knowledge
import DashQL.Storage.Manifest
import DashQL.Storage.Backend

/-!
# The tasks of the storage writer

All tasks that the writer executes, what they do to the files of the backend, and what
the writer records of the files in `completedFileContents`.  Tasks run one after
another, and the calls of the backend succeed.

The files are given by their paths below the notebooks.  A backend removes a folder
with everything below it and moves one with everything below it; directories without
files are left out.  How a manifest is written down as text is a parameter.
-/

namespace DashQL.Storage

/-! ## Notebook manifests -/

structure NotebookMetadata where
  originalFileName : Option Text := none
  createdAt : Option Text := none
  deriving DecidableEq

structure NotebookData (P : Type) where
  notebookId : Text
  name : Option Text := none
  connectionParams : P
  metadata : Option NotebookMetadata := none
  storageType : Option StorageBackendType := none
  nativePath : Option Text := none
  deriving DecidableEq

/-- `JSON.stringify` and `loadNotebook`, which throws at a text that is no manifest. -/
structure ManifestFormat (P : Type) where
  stringify : NotebookData P → Text
  parse : Text → Option (NotebookData P)

variable {P : Type} [DecidableEq P]

def notebookManifestEquals (a b : NotebookData P) : Bool :=
  a.notebookId = b.notebookId ∧ a.name = b.name ∧ a.connectionParams = b.connectionParams ∧
    a.metadata = b.metadata

/-- What a manifest task reads of `ConnectionState`; the parameters are missing until the
connection is configured. -/
structure ConnectionState (P : Type) where
  notebookId : Text
  name : Option Text := none
  connectionParams : Option P := none

/-- What a replacing task reads of `NotebookScripts`: the scripts of each folder with their texts,
where they have one, the text of the draft, and what the manifest is made of. -/
structure NotebookScriptsData (P : Type) where
  notebookId : Text
  scriptFolders : List (Text × List (Text × Option Text))
  uncommittedScript : Option Text
  originalFileName : Option Text
  defaultConnectionParams : P

/-- `StorageWriteTaskVariant`.  `now` is the time at which the task runs. -/
inductive StorageWriteTaskVariant (P : Type)
  | writeNotebookManifest (notebookId : Text) (conn : ConnectionState P) (now : Text)
  | writeNotebookCatalogScript (notebookId schemaSQL : Text)
  | writeNotebookFunctionScript (notebookId functionsSQL : Text)
  | replaceNotebookScripts (notebookScripts : NotebookScriptsData P) (now : Text)
  | scripts (task : ScriptTask)
  | deleteNotebook (notebookId : Text)

/-! ## Paths -/

def groupNotebookManifestWrites (notebookId : Text) : StorageWriteKey :=
  notebookId ++ "/dashql-notebook.json".toList

def groupNotebookSchemaWrites (notebookId : Text) : StorageWriteKey :=
  notebookId ++ "/dashql-relations.sql".toList

def groupNotebookFunctionWrites (notebookId : Text) : StorageWriteKey :=
  notebookId ++ "/dashql-functions.sql".toList

/-- The path of a folder, up to the names in it. -/
def folderPrefix (notebookId folderName : Text) : Text :=
  groupScriptFolderWrites notebookId folderName ++ ['/']

/-! ## Execution -/

/-- The files of the backend, by path, and what the writer recorded of them. -/
structure WriterFiles where
  files : Text → Option Text
  completedFileContents : InsertionMap Text (Option Text) := .empty

namespace WriterFiles

/-- A file is written and recorded. -/
def write (path content : Text) (w : WriterFiles) : WriterFiles where
  files := Function.update w.files path (some content)
  completedFileContents := w.completedFileContents.set path (some content)

/-- A loop that records paths as missing. -/
def forget (dropped : Text → Bool) (completed : InsertionMap Text (Option Text)) :
    InsertionMap Text (Option Text) :=
  completed.keys.foldl
    (fun completed path => if dropped path then completed.set path none else completed) completed

def drop (dropped : Text → Bool) (removed : Bool) (w : WriterFiles) : WriterFiles where
  files := fun path => if removed && dropped path then none else w.files path
  completedFileContents := forget dropped w.completedFileContents

/-- `CREATE_SCRIPT_FOLDER` and the folders of `REPLACE_NOTEBOOK_SCRIPTS`. -/
def saveScripts (notebookId folderName : Text) (scripts : List (Text × Text)) (w : WriterFiles) :
    WriterFiles :=
  scripts.foldl
    (fun w script => w.write (groupScriptWrites notebookId folderName script.1) script.2) w

def deleteScript (path : Text) (w : WriterFiles) : WriterFiles where
  files := Function.update w.files path none
  completedFileContents := w.completedFileContents.set path none

/-- `RENAME_SCRIPT`.  The backend does nothing at a missing file. -/
def renameScript (oldPath newPath : Text) (w : WriterFiles) : WriterFiles where
  files :=
    if oldPath = newPath ∨ w.files oldPath = none then w.files
    else Function.update (Function.update w.files oldPath none) newPath (w.files oldPath)
  completedFileContents :=
    let completed := w.completedFileContents.set oldPath none
    match w.completedFileContents.get? oldPath with
    | some content => completed.set newPath content
    | none => completed

/-- The loop of `RENAME_SCRIPT_FOLDER` over a copy of the record. -/
def moveRecords (oldPrefix newPrefix : Text) (entries : List (Text × Option Text))
    (completed : InsertionMap Text (Option Text)) : InsertionMap Text (Option Text) :=
  entries.foldl
    (fun completed (path, content) =>
      if oldPrefix.isPrefixOf path then
        (completed.set path none).set (newPrefix ++ path.drop oldPrefix.length) content
      else completed)
    completed

/-- `RENAME_SCRIPT_FOLDER`.  A file that is moved replaces what was there. -/
def renameScriptFolder (oldPrefix newPrefix : Text) (w : WriterFiles) : WriterFiles where
  files := fun path =>
    if oldPrefix = newPrefix then w.files path
    else if newPrefix.isPrefixOf path then
      (w.files (oldPrefix ++ path.drop newPrefix.length)).or (w.files path)
    else if oldPrefix.isPrefixOf path then none
    else w.files path
  completedFileContents :=
    moveRecords oldPrefix newPrefix w.completedFileContents.entries w.completedFileContents

def executeScriptTask : ScriptTask → WriterFiles → WriterFiles
  | .writeScript notebookId folderName fileName sql =>
    write (groupScriptWrites notebookId folderName fileName) sql
  | .writeScriptDraft notebookId sql => write (groupDraftWrites notebookId) sql
  | .createScriptFolder notebookId folderName scripts => saveScripts notebookId folderName scripts
  | .deleteScriptFolder notebookId folderName =>
    drop (folderPrefix notebookId folderName).isPrefixOf true
  | .renameScriptFolder notebookId oldFolderName newFolderName =>
    renameScriptFolder (folderPrefix notebookId oldFolderName)
      (folderPrefix notebookId newFolderName)
  | .deleteScript notebookId folderName scriptName =>
    deleteScript (groupScriptWrites notebookId folderName scriptName)
  | .renameScript notebookId folderName oldScriptName newScriptName =>
    renameScript (groupScriptWrites notebookId folderName oldScriptName)
      (groupScriptWrites notebookId folderName newScriptName)

section Manifest

variable (format : ManifestFormat P)

def writeNotebookManifest (notebookId : Text) (conn : ConnectionState P) (now : Text)
    (w : WriterFiles) : WriterFiles :=
  match conn.connectionParams with
  | none => w
  | some connectionParams =>
    let path := groupNotebookManifestWrites notebookId
    let existingNotebook := (w.files path).bind format.parse
    let createdAt :=
      ((existingNotebook.bind NotebookData.metadata).bind NotebookMetadata.createdAt).getD now
    let connData : NotebookData P :=
      { notebookId := conn.notebookId
        name := conn.name.filter (· ≠ [])
        connectionParams
        metadata := some { createdAt := some createdAt } }
    if existingNotebook.any fun existing => notebookManifestEquals existing connData then w
    else w.write path (format.stringify connData)

def replaceNotebookScripts (notebookScripts : NotebookScriptsData P) (now : Text)
    (w : WriterFiles) : WriterFiles :=
  let notebookId := notebookScripts.notebookId
  let path := groupNotebookManifestWrites notebookId
  let withFolders := notebookScripts.scriptFolders.foldl
    (fun w folder =>
      w.saveScripts notebookId folder.1
        (folder.2.filterMap fun script => script.2.map fun sql => (script.1, sql))) w
  let withDraft := match notebookScripts.uncommittedScript with
    | some composerSql => withFolders.write (groupDraftWrites notebookId) composerSql
    | none => withFolders
  let existingNotebook := (withDraft.files path).bind format.parse
  let connData : NotebookData P :=
    { notebookId
      name := (existingNotebook.bind NotebookData.name).filter (· ≠ [])
      connectionParams :=
        (existingNotebook.map NotebookData.connectionParams).getD
          notebookScripts.defaultConnectionParams
      metadata := some
        { originalFileName := notebookScripts.originalFileName
          createdAt := some
            (((existingNotebook.bind NotebookData.metadata).bind
              NotebookMetadata.createdAt).getD now) } }
  withDraft.write path (format.stringify connData)

variable (keepsFiles : Text → Bool)

/-- `StorageWriter.executeTask`, on a backend that may keep the files of some notebooks when it
deletes them, as the native backend does. -/
def executeTask : StorageWriteTaskVariant P → WriterFiles → WriterFiles
  | .writeNotebookManifest notebookId conn now => writeNotebookManifest format notebookId conn now
  | .writeNotebookCatalogScript notebookId schemaSQL =>
    write (groupNotebookSchemaWrites notebookId) schemaSQL
  | .writeNotebookFunctionScript notebookId functionsSQL =>
    write (groupNotebookFunctionWrites notebookId) functionsSQL
  | .replaceNotebookScripts notebookScripts now =>
    replaceNotebookScripts format notebookScripts now
  | .scripts task => executeScriptTask task
  | .deleteNotebook notebookId =>
    drop (storageWriteKeyBelongsToNotebook · notebookId) (!keepsFiles notebookId)

end Manifest

end WriterFiles

end DashQL.Storage
