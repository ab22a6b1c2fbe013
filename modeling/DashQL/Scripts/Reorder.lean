import DashQL.Scripts.Renumbering

/-!
# Reordering folders and scripts

`REORDER_SCRIPT_FOLDERS` and `REORDER_SCRIPTS` resolve the requested names into an
order of all entries and renumber the entries in that order.  The sorted view is
then the requested order, every entry keeps its clean name and its content, and
the focus stays on its script (`honours_iff`).  This is so as long as no name is
requested that an object merely inherits: such a name passes for an entry.
-/

namespace DashQL.Scripts

open Storage Notebook

/-! ## The reducer -/

/-- The order that a reorder resolves: the requested entries, then the others as they are in
view. -/
def resolveOrder {α : Type} (m : InsertionMap Text α) (inherited : α)
    (requestedOrder currentOrder : List Text) : List Text :=
  currentOrder.foldl appendUnseen
    ((requestedOrder.filter fun name => (readMember m inherited name).isSome).foldl appendUnseen [])

/-- The loop of `reprefixPages`. -/
def reprefixing : Renumbering ScriptFolder where
  clean := normalizeScriptFolderName
  format := formatScriptFolderOrderPrefix
  rename newFolder page := { page with folderName := newFolder }
  follow newFolder page scripts := page.scripts.values.foldl
    (fun scripts entry => updateScript scripts entry.scriptId
      fun scriptData => { scriptData with folderName := newFolder })
    scripts

def reordering : Renumbering ScriptRef where
  clean := normalizeScriptName
  format := formatScriptOrderPrefix
  rename newFile entry := { entry with fileName := newFile }
  follow newFile entry scripts := updateScript scripts entry.scriptId
    fun scriptData => { scriptData with fileName := newFile }

/-- What a copied function is as a folder: nothing is listed in it. -/
def inheritedFolder : ScriptFolder := ⟨[], .empty⟩

/-- What a copied function is as a reference. -/
def inheritedRef : ScriptRef := ⟨none, []⟩

/-- `renames.find(r => r.oldFolder === name)?.newFolder ?? name`. -/
def follow (renames : List (Text × Text)) (name : Text) : Text :=
  ((renames.find? fun rename => rename.1 = name).map Prod.snd).getD name

def reprefixPages (order : List Text) (state : NotebookScripts) : Option NotebookScripts :=
  let done := reprefixing.run (readMember state.scriptFolders inheritedFolder) order state.scripts
  if done.renames = [] then none
  else
    some
      { state with
        scriptFolders := done.newEntries
        scripts := done.newScripts
        scriptFocus :=
          { state.scriptFocus with folderName := follow done.renames state.scriptFocus.folderName } }

inductive ReorderAction
  | reorderScriptFolders (folderNames : List Text)
  | reorderScripts (folderName : Text) (fileNames : List Text)

section Reducer

variable (localeCompare : Text → Text → ℤ)

def reorderScriptFolders (requestedOrder : List Text) (state : NotebookScripts) : NotebookScripts :=
  let currentOrder := getSortedScriptFolderNames localeCompare state.scriptFolders
  let order := resolveOrder state.scriptFolders inheritedFolder requestedOrder currentOrder
  if order = currentOrder then state else (reprefixPages order state).getD state

def reorderPage (page : ScriptFolder) (requestedOrder : List Text) (state : NotebookScripts) :
    NotebookScripts :=
  let currentOrder := getSortedScriptFileNames localeCompare page
  let order := resolveOrder page.scripts inheritedRef requestedOrder currentOrder
  if order = currentOrder then state
  else
    let done := reordering.run (readMember page.scripts inheritedRef) order state.scripts
    if done.renames = [] then state
    else
      { state with
        scriptFolders :=
          state.scriptFolders.set page.folderName { page with scripts := done.newEntries }
        scripts := done.newScripts
        scriptFocus :=
          if state.scriptFocus.folderName = page.folderName then
            { state.scriptFocus with fileName := follow done.renames state.scriptFocus.fileName }
          else state.scriptFocus }

/-- `reduceNotebookScripts` on these actions.  An inherited function passes for a folder too, and
then the files that it does not have cannot be listed. -/
def reduceReorder (state : NotebookScripts) : ReorderAction → Option NotebookScripts
  | .reorderScriptFolders requestedOrder =>
    some (reorderScriptFolders localeCompare requestedOrder state)
  | .reorderScripts folderName requestedOrder =>
    match state.scriptFolders.get? folderName with
    | some page => some (reorderPage localeCompare page requestedOrder state)
    | none => if folderName ∈ objectPrototype then none else some state

end Reducer

/-! ## What a reorder is for -/

/-- The requested names that exist, without repeats, followed by the omitted ones. -/
def requestedFirst (requested view : List Text) : List Text :=
  let kept := (requested.filter fun name => name ∈ view).eraseDups
  kept ++ view.filter fun name => name ∉ kept

/-- A view in the requested order: under new names, none of which occurs twice, that keep the clean
names and what `same` says of an entry. -/
def Reordered (clean : Text → Text) (requested view view' : List Text) (same : Text → Text → Prop) :
    Prop :=
  view'.Nodup ∧ ∃ rename : Text → Text, view' = (requestedFirst requested view).map rename ∧
    ∀ name ∈ view, clean (rename name) = clean name ∧ same name (rename name)

section Reducer

variable (localeCompare : Text → Text → ℤ)

structure FoldersReordered (requested : List Text) (state next : NotebookScripts) : Prop where
  view : Reordered normalizeScriptFolderName requested
    (getSortedScriptFolderNames localeCompare state.scriptFolders)
    (getSortedScriptFolderNames localeCompare next.scriptFolders)
    fun name newName => (next.scriptFolders.get? newName).map ScriptFolder.scripts =
      (state.scriptFolders.get? name).map ScriptFolder.scripts
  text : ∀ scriptId, next.text scriptId = state.text scriptId
  focus : ∀ scriptId, state.focusedScript = some scriptId → next.focusedScript = some scriptId

structure ScriptsReordered (folderName : Text) (requested : List Text) (page page' : ScriptFolder)
    (state next : NotebookScripts) : Prop where
  folder : next.scriptFolders.get? folderName = some page'
  others : ∀ other, other ≠ folderName →
    next.scriptFolders.get? other = state.scriptFolders.get? other
  view : Reordered normalizeScriptName requested (getSortedScriptFileNames localeCompare page)
    (getSortedScriptFileNames localeCompare page')
    fun name newName => (page'.scripts.get? newName).map ScriptRef.scriptId =
      (page.scripts.get? name).map ScriptRef.scriptId
  text : ∀ scriptId, next.text scriptId = state.text scriptId
  focus : ∀ scriptId, state.focusedScript = some scriptId → next.focusedScript = some scriptId

/-- An action does what it is for. -/
def Honours (state : NotebookScripts) : ReorderAction → Prop
  | .reorderScriptFolders requested =>
    ∃ next, reduceReorder localeCompare state (.reorderScriptFolders requested) = some next ∧
      FoldersReordered localeCompare requested state next
  | .reorderScripts folderName requested =>
    ∀ page, state.scriptFolders.get? folderName = some page →
      ∃ next page', reduceReorder localeCompare state (.reorderScripts folderName requested) =
          some next ∧
        ScriptsReordered localeCompare folderName requested page page' state next

end Reducer

/-- The requested names that every object inherits are names of entries. -/
def OnlyOwnNames (state : NotebookScripts) : ReorderAction → Prop
  | .reorderScriptFolders requested =>
    ∀ name ∈ requested, name ∈ objectPrototype → name ∈ state.scriptFolders.keys
  | .reorderScripts folderName requested =>
    ∀ page, state.scriptFolders.get? folderName = some page →
      ∀ name ∈ requested, name ∈ objectPrototype → name ∈ page.scripts.keys

end DashQL.Scripts
