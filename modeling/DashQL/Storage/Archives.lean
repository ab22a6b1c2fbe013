import DashQL.Library.Paths
import DashQL.Storage.Copying

/-!
# Notebook archives

`exportNotebookAsZip` packs a notebook into a ZIP file, and `importNotebookFromZip`
unpacks one under a fresh id.  An archive is a flat list of paths: a folder is a path
that ends in a separator, and the import tells folders and scripts apart by comparing
the beginnings and the ends of paths.

JSZip is a parameter.  What is relied on is that it adds, stores and returns entries
as documented (`JSZip.Faithful`).
-/

namespace DashQL.Storage

open Paths

/-! ## JSZip -/

/-- What a path of an archive stands for. -/
inductive ZipEntry
  | dir
  | file (text : Text)
  deriving DecidableEq

/-- `JSZip`: its archives, and the blobs that they are stored in.  The paths are from the root, and
the path of a folder is given without the separator at its end. -/
structure JSZip (Z B : Type) where
  create : Z
  folder : Text → Z → Z
  file : Text → Text → Z → Z
  entries : Z → InsertionMap Text ZipEntry
  generateAsync : Z → B
  loadAsync : B → Option Z

namespace JSZip

variable {Z B : Type}

def entry? (zip : JSZip Z B) (path : Text) (z : Z) : Option ZipEntry := (zip.entries z).get? path

/-- `zip.file` with a path only, which finds no folders, and the text of the file. -/
def readFile (zip : JSZip Z B) (path : Text) (z : Z) : Option Text :=
  match zip.entry? path z with
  | some (.file text) => some text
  | _ => none

/-- The folders of a path are there. -/
def HasParents (zip : JSZip Z B) (path : Text) (z : Z) : Prop :=
  ∀ front back, path = front ++ '/' :: back → zip.entry? (front ++ ['/']) z = some .dir

/-- Entries are added, stored and returned as they are. -/
structure Faithful (zip : JSZip Z B) : Prop where
  create : ∀ path, zip.entry? path zip.create = none
  folder : ∀ path z, path ≠ [] → path.getLast? ≠ some '/' → zip.HasParents path z → ∀ probe,
    zip.entry? probe (zip.folder path z) =
      if probe = path ++ ['/'] then some .dir else zip.entry? probe z
  file : ∀ path text z, path ≠ [] → path.getLast? ≠ some '/' → zip.HasParents path z → ∀ probe,
    zip.entry? probe (zip.file path text z) =
      if probe = path then some (.file text) else zip.entry? probe z
  load : ∀ z, ∃ z', zip.loadAsync (zip.generateAsync z) = some z' ∧
    ∀ path, zip.entry? path z' = zip.entry? path z

end JSZip

/-! ## Stored notebooks -/

/-- `NotebookData`: the id, the display path, and the other members of the object. -/
structure StoredManifest (R : Type) where
  notebookId : Text
  notebookPath : Option Text := none
  rest : R

structure ManifestJson (R : Type) where
  stringify : StoredManifest R → Text
  parse : Text → Option (StoredManifest R)
  parse_stringify : ∀ data, parse (stringify data) = some data

/-- A name of a folder or a file. -/
def IsName (name : Text) : Prop := name ≠ [] ∧ '/' ∉ name

/-- A notebook in OPFS or in a directory: its manifest, its script folders, and the draft. -/
structure StoredNotebook (R : Type) where
  backend : StorageBackendType
  data : StoredManifest R
  scripts : ScriptsDir
  identified : data.notebookId ≠ []
  folderNames : ∀ name files, scripts.get? name = some (.folder files) → IsName name
  fileNames : ∀ name files, scripts.get? name = some (.folder files) →
    ∀ fileName sql, files.get? fileName = some sql →
      IsName fileName ∧ scriptExtension.isSuffixOf fileName
  draftOnly : ∀ name text, scripts.get? name = some (.file text) → name = scriptDraft

namespace StoredNotebook

variable {R : Type}

/-- `loadNotebook`; OPFS asks for an id. -/
def loadNotebook (notebook : StoredNotebook R) : Option (StoredManifest R) :=
  match notebook.backend with
  | .opfs => if notebook.data.notebookId = [] then none else some notebook.data
  | .native => some notebook.data

def loadScriptFolders (naturalSort : Text → Text → Bool) (notebook : StoredNotebook R) :
    Option (List (Text × List (Text × Text))) :=
  match notebook.backend with
  | .opfs => OPFSStorageBackend.loadScriptFolders naturalSort ⟨some notebook.scripts⟩
  | .native => NativeStorageBackend.loadScriptFolders naturalSort notebook.scripts

def loadScriptDraft (notebook : StoredNotebook R) : Option (Option Text) :=
  match notebook.backend with
  | .opfs => OPFSStorageBackend.loadScriptDraft ⟨some notebook.scripts⟩
  | .native => NativeStorageBackend.loadScriptDraft notebook.scripts

end StoredNotebook

def notebookFile : Text := "dashql-notebook.json".toList

def scriptsPath (name : Text) : Text := scriptsFolder ++ '/' :: name

variable {R S Z B : Type}

/-! ## Export -/

def addScripts (zip : JSZip Z B) (folderName : Text) (scripts : List (Text × Text)) (z : Z) : Z :=
  scripts.foldl
    (fun z script => zip.file (scriptsPath (folderName ++ '/' :: script.1)) script.2 z) z

def addFolders (zip : JSZip Z B) (folders : List (Text × List (Text × Text))) (z : Z) : Z :=
  folders.foldl
    (fun z folder => addScripts zip folder.1 folder.2 (zip.folder (scriptsPath folder.1) z)) z

def addDraft (zip : JSZip Z B) (draftSql : Option Text) (z : Z) : Z :=
  match draftSql with
  | some (c :: sql) => zip.file (scriptsPath scriptDraft) (c :: sql) z
  | _ => z

def notebookArchive (zip : JSZip Z B) (json : ManifestJson R) (data : StoredManifest R)
    (folders : List (Text × List (Text × Text))) (draftSql : Option Text) : Z :=
  addDraft zip draftSql
    (addFolders zip folders
      (zip.folder scriptsFolder (zip.file notebookFile (json.stringify data) zip.create)))

def createNotebookZip (zip : JSZip Z B) (json : ManifestJson R) (data : StoredManifest R)
    (folders : List (Text × List (Text × Text))) (draftSql : Option Text) : B :=
  zip.generateAsync (notebookArchive zip json data folders draftSql)

/-- `exportNotebookAsZip`, unless the notebook cannot be loaded. -/
def exportNotebookAsZip (zip : JSZip Z B) (json : ManifestJson R)
    (naturalSort : Text → Text → Bool)
    (transformNotebook : Option (StoredManifest R → StoredManifest R))
    (notebook : StoredNotebook R) : Option B :=
  notebook.loadNotebook.bind fun notebookData =>
    (notebook.loadScriptFolders naturalSort).bind fun folders =>
      notebook.loadScriptDraft.bind fun draftSql =>
        let outNotebook := match transformNotebook with
          | some transform => transform notebookData
          | none => notebookData
        some (createNotebookZip zip json outNotebook folders draftSql)

/-! ## Reading an archive -/

/-- `scriptsFolder.forEach`: what is below the scripts folder, with the paths in it. -/
def scriptEntries (zip : JSZip Z B) (z : Z) : List (Text × ZipEntry) :=
  (zip.entries z).entries.filterMap fun entry =>
    if (scriptsPath []).isPrefixOf entry.1 ∧ entry.1 ≠ scriptsPath [] then
      some (entry.1.drop (scriptsPath []).length, entry.2)
    else none

/-- `relativePath.replace(/\/$/, '')`. -/
def withoutSlash (relativePath : Text) : Text :=
  if relativePath.getLast? = some '/' then relativePath.dropLast else relativePath

def pageEntries (zip : JSZip Z B) (naturalSort : Text → Text → Bool) (z : Z) : List (Text × Text) :=
  ((scriptEntries zip z).filterMap fun entry =>
    if entry.2 = .dir ∧ entry.1 ≠ [] then some (withoutSlash entry.1, entry.1) else none).mergeSort
      fun a b => naturalSort a.1 b.1

def scriptFiles (zip : JSZip Z B) (naturalSort : Text → Text → Bool) (folderPath : Text) (z : Z) :
    List (Text × Text) :=
  ((scriptEntries zip z).filterMap fun entry =>
    let fileName := lastComponent '/' entry.1
    if entry.2 ≠ .dir ∧ folderPath.isPrefixOf entry.1 ∧ scriptExtension.isSuffixOf entry.1 ∧
        fileName ≠ [] ∧ fileName ≠ scriptDraft then
      some (fileName, entry.1)
    else none).mergeSort fun a b => naturalSort a.1 b.1

def scriptsInFolder (zip : JSZip Z B) (naturalSort : Text → Text → Bool) (folderPath : Text)
    (z : Z) : List (Text × Text) :=
  (scriptFiles zip naturalSort folderPath z).filterMap fun script =>
    (zip.readFile (scriptsPath script.2) z).map fun content => (script.1, content)

/-- The folders that an import creates, with the scripts that it saves there. -/
def importedFolders (zip : JSZip Z B) (naturalSort : Text → Text → Bool) (z : Z) :
    List (Text × List (Text × Text)) :=
  (pageEntries zip naturalSort z).map fun page =>
    (page.1, scriptsInFolder zip naturalSort page.2 z)

/-! ## Import -/

structure OpfsFiles (R : Type) where
  manifest : Option (StoredManifest R) := none
  directory : OpfsNotebook := ⟨none⟩

/-- The registry, and the files of the notebooks by their ids. -/
structure OpfsStore (R S : Type) where
  registry : StorageManifest S
  notebooks : Text → OpfsFiles R

inductive ImportCall (R : Type)
  | saveNotebookManifest (data : StoredManifest R)
  | scripts (operation : ScriptOperation)

/-- A write to the notebook, unless it throws. -/
def ImportCall.perform (notebookId : Text) : ImportCall R → OpfsStore R S → Option (OpfsStore R S)
  | .saveNotebookManifest data, store =>
    some
      { registry := store.registry.upsertNotebookEntry
          { path := notebookId, storageType := some .opfs }
        notebooks := Function.update store.notebooks notebookId
          { manifest := some data
            directory := ⟨some ((store.notebooks notebookId).directory.scripts.getD .empty)⟩ } }
  | .scripts operation, store =>
    let files := store.notebooks notebookId
    (OPFSStorageBackend.perform operation files.directory).map fun directory =>
      { store with
        notebooks := Function.update store.notebooks notebookId { files with directory } }

def OpfsStore.deleteNotebook (notebookId : Text) (store : OpfsStore R S) : OpfsStore R S :=
  { registry := store.registry.removeNotebookEntry notebookId
    notebooks := Function.update store.notebooks notebookId {} }

/-- What the file system does to the writes of an import, by their number: it lets a write pass, or
fails and leaves any files of the notebook behind. -/
abbrev Fate (R : Type) := ℕ → Option (OpfsFiles R → OpfsFiles R)

/-- Writes one after another, up to the first that fails.  Returns what is stored then, and whether
all writes were made. -/
def performWrites (notebookId : Text) (fate : Fate R) :
    ℕ → List (ImportCall R) → OpfsStore R S → OpfsStore R S × Bool
  | _, [], store => (store, true)
  | n, call :: calls, store =>
    match fate n with
    | some torn =>
      ({ store with
         notebooks := Function.update store.notebooks notebookId
           (torn (store.notebooks notebookId)) }, false)
    | none =>
      match call.perform notebookId store with
      | some store => performWrites notebookId fate (n + 1) calls store
      | none => (store, false)

def importCalls (zip : JSZip Z B) (naturalSort : Text → Text → Bool) (data : StoredManifest R)
    (z : Z) : List (ImportCall R) :=
  .saveNotebookManifest data ::
    ((copyFolders (importedFolders zip naturalSort z)).map .scripts ++
      (zip.readFile (scriptsPath scriptDraft) z).toList.map fun sql =>
        .scripts (.saveScriptDraft sql))

/-- `importNotebookFromZip` with the id that it allocates, which is in OPFS.  Returns the id unless
the import throws; a rollback that fails leaves the notebook as it is. -/
def importNotebookFromZip (zip : JSZip Z B) (json : ManifestJson R)
    (naturalSort : Text → Text → Bool) (fate : Fate R) (rollback : Bool) (newNotebookId : Text)
    (zipBlob : B) (store : OpfsStore R S) : Option Text × OpfsStore R S :=
  match zip.loadAsync zipBlob with
  | none => (none, store)
  | some z =>
    match (zip.readFile notebookFile z).bind json.parse with
    | none => (none, store)
    | some notebookData =>
      let result := performWrites newNotebookId fate 0
        (importCalls zip naturalSort
          { notebookData with notebookId := newNotebookId, notebookPath := none } z) store
      if result.2 then (some newNotebookId, result.1)
      else
        (none, if rollback then result.1.deleteNotebook newNotebookId else result.1)

end DashQL.Storage
