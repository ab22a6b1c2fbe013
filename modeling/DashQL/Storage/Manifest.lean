import DashQL.Library.ReadModifyWrite
import DashQL.Storage.Writer

/-!
# The notebook registry

The registry is one JSON file, the root manifest of the OPFS backend.  Every registry
operation reads it, changes what it read and writes it back, with awaits in between
and without a lock, and the storage writer runs tasks of different keys side by side.
So a write can undo what another operation wrote after the read.

`registry_serial_of_run` says that this is all that can go wrong: if every write finds
the manifest that its operation read, the operations could have run one after the
other, and nothing that they did is lost.

The text of a manifest is the manifest that `JSON.parse` returns; a single read and a
single write are atomic.
-/

namespace DashQL.Storage

open ReadModifyWrite

/-! ## Manifests -/

inductive StorageBackendType
  | opfs
  | native
  deriving DecidableEq

structure NotebookEntry where
  path : Text
  storageType : Option StorageBackendType := none
  nativePath : Option Text := none
  deriving DecidableEq

structure StorageManifest (S : Type) where
  notebooks : List NotebookEntry
  appSettings : Option S := none
  deriving DecidableEq

inductive ManifestFile (S : Type)
  | missing
  | malformed
  | written (manifest : StorageManifest S)
  deriving DecidableEq

variable {S : Type}

/-- `readManifest`, which throws at a text that is not a manifest. -/
def readManifest : ManifestFile S → Option (StorageManifest S)
  | .missing => some { notebooks := [] }
  | .malformed => none
  | .written manifest => some manifest

namespace StorageManifest

def upsertNotebookEntry (entry : NotebookEntry) (manifest : StorageManifest S) :
    StorageManifest S :=
  match manifest.notebooks.findIdx? fun s => s.path = entry.path with
  | none => { manifest with notebooks := manifest.notebooks ++ [entry] }
  | some existingIndex =>
    { manifest with notebooks := manifest.notebooks.set existingIndex entry }

def removeNotebookEntry (notebookId : Text) (manifest : StorageManifest S) : StorageManifest S :=
  { manifest with notebooks := manifest.notebooks.filter fun s => s.path ≠ notebookId }

/-- The loop of `reorderNotebooks` over the ids: the reordered entries, and the taken ids.  In
`byId` a later entry takes the place of an earlier one. -/
def takeListed (notebooks : List NotebookEntry) (orderedIds : List Text) :
    List NotebookEntry × List Text :=
  orderedIds.foldl
    (fun (reordered, taken) id =>
      match notebooks.reverse.find? fun s => s.path = id with
      | some entry =>
        if id ∈ taken then (reordered, taken) else (reordered ++ [entry], taken ++ [id])
      | none => (reordered, taken))
    ([], [])

def reorderNotebooks (orderedIds : List Text) (manifest : StorageManifest S) : StorageManifest S :=
  let (reordered, taken) := takeListed manifest.notebooks orderedIds
  { manifest with
    notebooks := reordered ++ manifest.notebooks.filter fun entry => entry.path ∉ taken }

def saveAppSettings (settings : S) (manifest : StorageManifest S) : StorageManifest S :=
  { manifest with appSettings := some settings }

end StorageManifest

/-! ## Operations -/

/-- The registry operations, and the two that also write or delete files of a notebook. -/
inductive RegistryOperation (S : Type)
  | upsertNotebookEntry (entry : NotebookEntry)
  | removeNotebookEntry (notebookId : Text)
  | reorderNotebooks (orderedIds : List Text)
  | saveAppSettings (settings : S)
  | saveNotebookManifest (notebookId : Text)
  | deleteNotebook (notebookId : Text)
  deriving DecidableEq

namespace RegistryOperation

/-- The change that an operation makes to the manifest that it read. -/
def update : RegistryOperation S → StorageManifest S → StorageManifest S
  | .upsertNotebookEntry entry => StorageManifest.upsertNotebookEntry entry
  | .removeNotebookEntry notebookId => StorageManifest.removeNotebookEntry notebookId
  | .reorderNotebooks orderedIds => StorageManifest.reorderNotebooks orderedIds
  | .saveAppSettings settings => StorageManifest.saveAppSettings settings
  | .saveNotebookManifest notebookId =>
    StorageManifest.upsertNotebookEntry { path := notebookId, storageType := some .opfs }
  | .deleteNotebook notebookId => StorageManifest.removeNotebookEntry notebookId

/-- The operation puts an entry of the notebook into the registry. -/
def Inserts (path : Text) : RegistryOperation S → Prop
  | .upsertNotebookEntry entry => entry.path = path
  | .saveNotebookManifest notebookId => notebookId = path
  | _ => False

/-- The operation takes the entry of the notebook from the registry. -/
def Removes (path : Text) : RegistryOperation S → Prop
  | .removeNotebookEntry notebookId | .deleteNotebook notebookId => notebookId = path
  | _ => False

/-- The operation changes the settings. -/
def Saves (settings : S) : RegistryOperation S → Prop
  | .saveAppSettings saved => saved = settings
  | _ => False

end RegistryOperation

/-- The manifest file, and the operations on it that are on their way. -/
abbrev Registry (S : Type) := Shared (RegistryOperation S) (ManifestFile S) (StorageManifest S)

/-- The registry when some operations are called; each has awaits of its own in front of its
read of the manifest, such as those for the files of a notebook. -/
def Registry.called (file : ManifestFile S) (operations : List (RegistryOperation S × ℕ)) :
    Registry S :=
  ⟨file, operations.map fun entry => (entry.1, .entered entry.2)⟩

/-- The operations go on to their next awaits in some order. -/
def Registry.run (registry : Registry S) (steps : List ℕ) : Option (Registry S) :=
  ReadModifyWrite.run readManifest RegistryOperation.update .written registry steps

def runOperation : RegistryOperation S → ManifestFile S → ManifestFile S :=
  runAlone readManifest RegistryOperation.update .written

end DashQL.Storage
