import DashQL.Storage.Backend

/-!
# The folders of a notebook

A page of a notebook is a folder of scripts.  The tabs are ordered by a numeric
prefix of the folder names, so that a reorder renames folders, and so does a
rename, which puts the page back into its slot.  `reduceNotebookScripts` returns
the new state together with the folder renames that it passes to the storage
writer; `Editing.step` passes them.

The collation of `localeCompare` is not part of the program and stays a
parameter.  A folder name is the name of one directory.
-/

namespace DashQL.Notebook

open Storage

/-! ## Names -/

/-- `String(n)`. -/
def decimal (n : ℕ) : Text := Nat.toDigits 10 n

/-- `normalizeScriptFolderName`: what `PAGE_ORDER_PREFIX_RE` matches is removed. -/
def normalizeScriptFolderName (folderName : Text) : Text :=
  match folderName.takeWhile Char.isDigit, folderName.dropWhile Char.isDigit with
  | _ :: _, '_' :: cleanName => cleanName
  | _, _ => folderName

def formatScriptFolderOrderPrefix (index1 total : ℕ) : Text :=
  let width := (decimal (max total 1)).length
  (decimal index1).leftpad width '0' ++ ['_']

/-- The candidates of `uniqueScriptFolderName`, from the first one on. -/
def candidate (base : Text) (suffix : ℕ) : Text :=
  if suffix = 1 then base else base ++ ' ' :: decimal suffix

/-- The loop of `uniqueScriptFolderName`, with as many tries as can be needed. -/
def firstFree (taken : List Text) (base : Text) : ℕ → ℕ → Text
  | 0, suffix => candidate base suffix
  | tries + 1, suffix =>
    if candidate base suffix ∈ taken then firstFree taken base tries (suffix + 1)
    else candidate base suffix

/-! ## State -/

structure ScriptData where
  folderName : Text
  sql : Text

/-- `ScriptFolder`, with the script ids of its entries by file name. -/
structure ScriptFolder where
  folderName : Text
  scripts : InsertionMap Text ℕ

structure ScriptFocus where
  folderName : Text

structure NotebookScripts where
  notebookId : Text
  scripts : InsertionMap ℕ ScriptData
  scriptFolders : InsertionMap Text ScriptFolder
  scriptFocus : ScriptFocus

/-- The number of a property that is an array index. -/
def arrayIndex? (key : Text) : Option ℕ :=
  let index := Nat.ofDigitChars 10 key 0
  if key = decimal index ∧ index < 2 ^ 32 - 1 then some index else none

/-- `Object.keys`: array indices come first, in numeric order. -/
def objectKeys {α : Type} (m : InsertionMap Text α) : List Text :=
  (m.keys.filter fun key => (arrayIndex? key).isSome).insertionSort
      (fun a b => (arrayIndex? a).getD 0 ≤ (arrayIndex? b).getD 0) ++
    m.keys.filter fun key => !(arrayIndex? key).isSome

section Reducer

variable (localeCompare : Text → Text → ℤ)

def getSortedScriptFolderNames (pages : InsertionMap Text ScriptFolder) : List Text :=
  (objectKeys pages).insertionSort fun a b => localeCompare a b ≤ 0

def uniqueScriptFolderName (baseName : Text) (pages : InsertionMap Text ScriptFolder)
    (excludeFolder : Text) : Text :=
  let takenCleanNames := (pages.keys.filter (· ≠ excludeFolder)).map normalizeScriptFolderName
  firstFree takenCleanNames (normalizeScriptFolderName baseName) takenCleanNames.length 1

/-! ## Renaming folders -/

def moveScripts (page : ScriptFolder) (newFolder : Text) (scripts : InsertionMap ℕ ScriptData) :
    InsertionMap ℕ ScriptData :=
  page.scripts.values.foldl
    (fun scripts scriptId =>
      match scripts.get? scriptId with
      | some scriptData => scripts.set scriptId { scriptData with folderName := newFolder }
      | none => scripts)
    scripts

structure Reprefixed where
  renames : List (Text × Text)
  newPages : InsertionMap Text ScriptFolder
  newScripts : InsertionMap ℕ ScriptData

/-- The loop body of `reprefixPages`.  Its callers only list existing pages. -/
def reprefixPage (total : ℕ) (state : NotebookScripts) (done : Reprefixed)
    (entry : Text × ℕ) : Reprefixed :=
  let oldFolder := entry.1
  match state.scriptFolders.get? oldFolder with
  | none => done
  | some page =>
    let newFolder :=
      formatScriptFolderOrderPrefix (entry.2 + 1) total ++ normalizeScriptFolderName oldFolder
    if newFolder = oldFolder then { done with newPages := done.newPages.set oldFolder page }
    else
      { renames := done.renames ++ [(oldFolder, newFolder)]
        newPages := done.newPages.set newFolder { page with folderName := newFolder }
        newScripts := moveScripts page newFolder done.newScripts }

/-- `reprefixPages`, of pages that were all written before. -/
def reprefixPages (order : List Text) (state : NotebookScripts) :
    Option (NotebookScripts × List (Text × Text)) :=
  let done := order.zipIdx.foldl (reprefixPage order.length state) ⟨[], .empty, state.scripts⟩
  if done.renames = [] then none
  else
    let newFocusFolder :=
      match done.renames.find? fun rename => rename.1 = state.scriptFocus.folderName with
      | some rename => rename.2
      | none => state.scriptFocus.folderName
    some
      ({ state with
          scriptFolders := done.newPages
          scripts := done.newScripts
          scriptFocus := ⟨newFocusFolder⟩ },
        done.renames)

/-- The `RENAME_SCRIPT_FOLDER` action up to its call of `reprefixPages`. -/
def renamePage (oldFolderName newFolderName : Text) (page : ScriptFolder)
    (state : NotebookScripts) : NotebookScripts :=
  { state with
    scriptFolders := (state.scriptFolders.delete oldFolderName).set newFolderName
      { page with folderName := newFolderName }
    scripts := moveScripts page newFolderName state.scripts
    scriptFocus :=
      if state.scriptFocus.folderName = oldFolderName then ⟨newFolderName⟩ else state.scriptFocus }

inductive NotebookScriptsAction
  | renameScriptFolder (folderName newFolderName : Text)
  | reorderScriptFolders (folderNames : List Text)

def appendUnseen (order : List Text) (folder : Text) : List Text :=
  if folder ∈ order then order else order ++ [folder]

/-- The order that `REORDER_SCRIPT_FOLDERS` resolves. -/
def resolveOrder (requestedOrder currentOrder : List Text) (pages : InsertionMap Text ScriptFolder) :
    List Text :=
  currentOrder.foldl appendUnseen
    ((requestedOrder.filter fun folder => (pages.get? folder).isSome).foldl appendUnseen [])

/-- `reduceNotebookScripts`, with the folder renames that it writes. -/
def reduceNotebookScripts (state : NotebookScripts) :
    NotebookScriptsAction → NotebookScripts × List (Text × Text)
  | .renameScriptFolder oldFolderName requestedName =>
    match state.scriptFolders.get? oldFolderName with
    | none => (state, [])
    | some page =>
      let cleanName := uniqueScriptFolderName requestedName state.scriptFolders oldFolderName
      if normalizeScriptFolderName oldFolderName = cleanName then (state, [])
      else
        let viewOrder := getSortedScriptFolderNames localeCompare state.scriptFolders
        let slot := viewOrder.idxOf oldFolderName
        let newFolderName :=
          formatScriptFolderOrderPrefix (slot + 1) viewOrder.length ++ cleanName
        let renamedState := renamePage oldFolderName newFolderName page state
        let order := viewOrder.map fun f => if f = oldFolderName then newFolderName else f
        match reprefixPages order renamedState with
        | none => (renamedState, [(oldFolderName, newFolderName)])
        | some (reprefixed, renames) => (reprefixed, (oldFolderName, newFolderName) :: renames)
  | .reorderScriptFolders requestedOrder =>
    let currentOrder := getSortedScriptFolderNames localeCompare state.scriptFolders
    let order := resolveOrder requestedOrder currentOrder state.scriptFolders
    if order = currentOrder then (state, [])
    else (reprefixPages order state).getD (state, [])

/-! ## Edits -/

def debounceDurationScriptWrite : ℕ := 100

structure Editing where
  state : NotebookScripts
  writer : Writer ScriptTask

def writeRename (notebookId : Text) (writer : Writer ScriptTask) (rename : Text × Text) :
    Writer ScriptTask :=
  writer.write (groupScriptFolderRenames notebookId rename.1)
    (.renameScriptFolder notebookId rename.1 rename.2) debounceDurationScriptWrite

/-- An action is reduced, and its renames are written. -/
def Editing.step (e : Editing) (action : NotebookScriptsAction) : Editing :=
  let reduced := reduceNotebookScripts localeCompare e.state action
  { state := reduced.1
    writer := reduced.2.foldl (writeRename e.state.notebookId) e.writer }

/-- The notebooks that are reached by actions that meet a condition, while no
pending task runs. -/
inductive Edits (condition : Editing → NotebookScriptsAction → Prop) (first : Editing) :
    Editing → Prop
  | start : Edits condition first first
  | step {e : Editing} (action : NotebookScriptsAction) (edits : Edits condition first e)
      (met : condition e action) : Edits condition first (e.step localeCompare action)

end Reducer

end DashQL.Notebook
