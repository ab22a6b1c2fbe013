import DashQL.Storage.Backend

/-!
# The script operations of the two backends

A notebook keeps its scripts in a directory: a subdirectory for every folder, and the
draft as a file beside them.  The OPFS backend and the native backend implement the
same operations on it over different primitives.

A name in the directory is one path component.  Whether the scripts directory itself
exists cannot be told from a directory without entries; whether an OPFS notebook has a
directory at all can.  A call that throws leaves everything as it is.
-/

namespace DashQL.Storage

/-! ## The scripts directory -/

/-- What a name in the scripts directory stands for. -/
inductive ScriptsEntry
  | folder (files : Folder)
  | file (text : Text)

/-- The scripts directory of a notebook, in the order in which the file system lists it. -/
abbrev ScriptsDir := InsertionMap Text ScriptsEntry

def scriptExtension : Text := ".sql".toList

section Loading

variable (naturalSort : Text → Text → Bool)

/-- `loadScriptsInFolder`; `naturalSort` compares names. -/
def loadScriptsInFolder (files : Folder) : List (Text × Text) :=
  (files.entries.filter fun script =>
    scriptExtension.isSuffixOf script.1 ∧ script.1 ≠ scriptDraft).mergeSort
      fun a b => naturalSort a.1 b.1

def folderListing (scripts : ScriptsDir) : List (Text × List (Text × Text)) :=
  scripts.entries.filterMap fun entry =>
    match entry.2 with
    | .folder files => some (entry.1, loadScriptsInFolder naturalSort files)
    | .file _ => none

def loadFolders (scripts : ScriptsDir) : List (Text × List (Text × Text)) :=
  (folderListing naturalSort scripts).mergeSort fun a b => naturalSort a.1 b.1

end Loading

/-- `loadScript` on a scripts directory, which throws where there is no such script. -/
def readScript (folderName scriptName : Text) (scripts : ScriptsDir) : Option Text :=
  match scripts.get? folderName with
  | some (.folder files) => files.get? scriptName
  | _ => none

inductive ScriptOperation
  | createScriptFolder (folderName : Text)
  | deleteScriptFolder (folderName : Text)
  | renameScriptFolder (oldFolderName newFolderName : Text)
  | saveScript (folderName scriptName sql : Text)
  | deleteScript (folderName scriptName : Text)
  | renameScript (folderName oldScriptName newScriptName : Text)
  | saveScriptDraft (sql : Text)
  deriving DecidableEq

/-! ## The native backend -/

namespace NativeStorageBackend

/-- The `rename` of the file system: a file replaces a file, and a directory an empty one. -/
def rename (old new : Text) (source : ScriptsEntry) (scripts : ScriptsDir) : Option ScriptsDir :=
  let moved := (scripts.delete old).set new source
  match source, scripts.get? new with
  | _, none => some moved
  | .file _, some (.file _) => some moved
  | .folder _, some (.folder files) => if files.entries = [] then some moved else none
  | _, _ => none

/-- `createScriptFolder`: `ensureDir`, which only asks whether the name exists. -/
def createScriptFolder (folderName : Text) (scripts : ScriptsDir) : Option ScriptsDir :=
  match scripts.get? folderName with
  | some _ => some scripts
  | none => some (scripts.set folderName (.folder .empty))

def deleteScriptFolder (folderName : Text) (scripts : ScriptsDir) : Option ScriptsDir :=
  some (scripts.delete folderName)

def renameScriptFolder (oldFolderName newFolderName : Text) (scripts : ScriptsDir) :
    Option ScriptsDir :=
  if oldFolderName = newFolderName then some scripts
  else
    match scripts.get? oldFolderName with
    | none => some scripts
    | some source => rename oldFolderName newFolderName source scripts

def saveScript (folderName scriptName sql : Text) (scripts : ScriptsDir) : Option ScriptsDir :=
  match scripts.get? folderName with
  | none => some (scripts.set folderName (.folder (InsertionMap.empty.set scriptName sql)))
  | some (.folder files) => some (scripts.set folderName (.folder (files.set scriptName sql)))
  | some (.file _) => none

def deleteScript (folderName scriptName : Text) (scripts : ScriptsDir) : Option ScriptsDir :=
  match scripts.get? folderName with
  | some (.folder files) => some (scripts.set folderName (.folder (files.delete scriptName)))
  | _ => some scripts

def renameScript (folderName oldScriptName newScriptName : Text) (scripts : ScriptsDir) :
    Option ScriptsDir :=
  if oldScriptName = newScriptName then some scripts
  else
    match scripts.get? folderName with
    | some (.folder files) =>
      match files.get? oldScriptName with
      | none => some scripts
      | some sql =>
        some (scripts.set folderName (.folder ((files.delete oldScriptName).set newScriptName sql)))
    | _ => some scripts

def saveScriptDraft (sql : Text) (scripts : ScriptsDir) : Option ScriptsDir :=
  match scripts.get? scriptDraft with
  | some (.folder _) => none
  | _ => some (scripts.set scriptDraft (.file sql))

def perform : ScriptOperation → ScriptsDir → Option ScriptsDir
  | .createScriptFolder folderName => createScriptFolder folderName
  | .deleteScriptFolder folderName => deleteScriptFolder folderName
  | .renameScriptFolder oldFolderName newFolderName =>
    renameScriptFolder oldFolderName newFolderName
  | .saveScript folderName scriptName sql => saveScript folderName scriptName sql
  | .deleteScript folderName scriptName => deleteScript folderName scriptName
  | .renameScript folderName oldScriptName newScriptName =>
    renameScript folderName oldScriptName newScriptName
  | .saveScriptDraft sql => saveScriptDraft sql

def loadScriptFolders (naturalSort : Text → Text → Bool) (scripts : ScriptsDir) :
    Option (List (Text × List (Text × Text))) :=
  some (loadFolders naturalSort scripts)

def loadScript (folderName scriptName : Text) (scripts : ScriptsDir) : Option Text :=
  readScript folderName scriptName scripts

/-- `loadScriptDraft`, which throws at a directory. -/
def loadScriptDraft (scripts : ScriptsDir) : Option (Option Text) :=
  match scripts.get? scriptDraft with
  | none => some none
  | some (.file sql) => some (some sql)
  | some (.folder _) => none

end NativeStorageBackend

/-! ## The OPFS backend -/

/-- An OPFS notebook: its scripts directory, once the notebook has a directory of its own. -/
structure OpfsNotebook where
  scripts : Option ScriptsDir

namespace OPFSStorageBackend

/-- `getDirectoryHandle` with `create`, unless the name is that of a file. -/
def createDirectory (folderName : Text) (scripts : ScriptsDir) : Option (Folder × ScriptsDir) :=
  match scripts.get? folderName with
  | none => some (.empty, scripts.set folderName (.folder .empty))
  | some (.folder files) => some (files, scripts)
  | some (.file _) => none

def createScriptFolder (folderName : Text) (notebook : OpfsNotebook) : Option OpfsNotebook :=
  (createDirectory folderName (notebook.scripts.getD .empty)).map fun created => ⟨some created.2⟩

/-- `deleteScriptFolder`; `removeEntry` throws at a missing name. -/
def deleteScriptFolder (folderName : Text) (notebook : OpfsNotebook) : Option OpfsNotebook :=
  match notebook.scripts with
  | none => none
  | some scripts =>
    match scripts.get? folderName with
    | none => none
    | some _ => some ⟨some (scripts.delete folderName)⟩

/-- `renameScriptFolder`.  The files are moved one by one, and what is left of the old folder is
removed. -/
def renameScriptFolder (oldFolderName newFolderName : Text) (notebook : OpfsNotebook) :
    Option OpfsNotebook :=
  if oldFolderName = newFolderName then some notebook
  else
    let scripts := notebook.scripts.getD .empty
    match scripts.get? oldFolderName with
    | none => some ⟨some scripts⟩
    | some (.file _) => none
    | some (.folder oldFiles) =>
      match createDirectory newFolderName scripts with
      | none => none
      | some (newFiles, created) =>
        let moved := oldFiles.entries.foldl
          (fun files script => files.set script.1 script.2) newFiles
        some ⟨some ((created.set newFolderName (.folder moved)).delete oldFolderName)⟩

def saveScript (folderName scriptName sql : Text) (notebook : OpfsNotebook) : Option OpfsNotebook :=
  match createDirectory folderName (notebook.scripts.getD .empty) with
  | none => none
  | some (files, created) =>
    some ⟨some (created.set folderName (.folder (files.set scriptName sql)))⟩

/-- `deleteScript`; `removeEntry` throws at a missing name. -/
def deleteScript (folderName scriptName : Text) (notebook : OpfsNotebook) : Option OpfsNotebook :=
  match notebook.scripts with
  | none => none
  | some scripts =>
    match scripts.get? folderName with
    | some (.folder files) =>
      match files.get? scriptName with
      | none => none
      | some _ =>
        some ⟨some (scripts.set folderName (.folder (files.delete scriptName)))⟩
    | _ => none

def renameScript (folderName oldScriptName newScriptName : Text) (notebook : OpfsNotebook) :
    Option OpfsNotebook :=
  if oldScriptName = newScriptName then some notebook
  else
    match notebook.scripts with
    | none => some notebook
    | some scripts =>
      match scripts.get? folderName with
      | none => some notebook
      | some (.file _) => none
      | some (.folder files) =>
        match files.get? oldScriptName with
        | none => some notebook
        | some sql =>
          some ⟨some (scripts.set folderName
            (.folder ((files.delete oldScriptName).set newScriptName sql)))⟩

def saveScriptDraft (sql : Text) (notebook : OpfsNotebook) : Option OpfsNotebook :=
  let scripts := notebook.scripts.getD .empty
  match scripts.get? scriptDraft with
  | some (.folder _) => none
  | _ => some ⟨some (scripts.set scriptDraft (.file sql))⟩

def perform : ScriptOperation → OpfsNotebook → Option OpfsNotebook
  | .createScriptFolder folderName => createScriptFolder folderName
  | .deleteScriptFolder folderName => deleteScriptFolder folderName
  | .renameScriptFolder oldFolderName newFolderName =>
    renameScriptFolder oldFolderName newFolderName
  | .saveScript folderName scriptName sql => saveScript folderName scriptName sql
  | .deleteScript folderName scriptName => deleteScript folderName scriptName
  | .renameScript folderName oldScriptName newScriptName =>
    renameScript folderName oldScriptName newScriptName
  | .saveScriptDraft sql => saveScriptDraft sql

/-- `loadScriptFolders`.  The error of `getNotebookDir` is not recognised as a missing
directory, and passed on. -/
def loadScriptFolders (naturalSort : Text → Text → Bool) (notebook : OpfsNotebook) :
    Option (List (Text × List (Text × Text))) :=
  notebook.scripts.map (loadFolders naturalSort)

def loadScript (folderName scriptName : Text) (notebook : OpfsNotebook) : Option Text :=
  notebook.scripts.bind (readScript folderName scriptName)

/-- `loadScriptDraft`, which never throws. -/
def loadScriptDraft (notebook : OpfsNotebook) : Option (Option Text) :=
  match notebook.scripts.bind fun scripts => scripts.get? scriptDraft with
  | some (.file sql) => some (some sql)
  | _ => some none

end OPFSStorageBackend

end DashQL.Storage
