import DashQL.Storage.Writer

/-!
# Script tasks and the native backend

The tasks that concern the scripts of a notebook, the keys that the `group*`
helpers build for them, and what the native backend does with the directory
tree.  A call that throws leaves the tree as it is: `processTask` catches the
error and drops the task.

`effect` is what a task means for the script files alone, directories left out;
`readFile_executeTask` connects the two.
-/

namespace DashQL.Storage

open Function
open InsertionMap (get?_delete get?_set)

/-! ## Keys -/

def scriptsFolder : Text := "scripts".toList

def scriptDraft : Text := "dashql-draft.sql".toList

def groupScriptFolderWrites (notebookId folderName : Text) : StorageWriteKey :=
  notebookId ++ '/' :: scriptsFolder ++ '/' :: folderName

def groupDraftWrites (notebookId : Text) : StorageWriteKey :=
  notebookId ++ '/' :: scriptsFolder ++ '/' :: scriptDraft

def groupScriptWrites (notebookId folderName fileName : Text) : StorageWriteKey :=
  notebookId ++ '/' :: scriptsFolder ++ '/' :: folderName ++ '/' :: fileName

def groupScriptDeletes (notebookId folderName scriptName : Text) : StorageWriteKey :=
  notebookId ++ '/' :: scriptsFolder ++ '/' :: folderName ++ '/' :: scriptName ++ ":delete".toList

def groupScriptFolderRenames (notebookId oldFolderName : Text) : StorageWriteKey :=
  notebookId ++ '/' :: scriptsFolder ++ '/' :: oldFolderName ++ ":rename".toList

def groupScriptRenames (notebookId folderName oldScriptName : Text) : StorageWriteKey :=
  notebookId ++ '/' :: scriptsFolder ++ '/' :: folderName ++ '/' :: oldScriptName ++
    ":rename".toList

/-- The variants of `StorageWriteTaskVariant` that concern scripts. -/
inductive ScriptTask
  | writeScript (notebookId folderName fileName sql : Text)
  | writeScriptDraft (notebookId sql : Text)
  | createScriptFolder (notebookId folderName : Text) (scripts : List (Text × Text))
  | deleteScriptFolder (notebookId folderName : Text)
  | renameScriptFolder (notebookId oldFolderName newFolderName : Text)
  | deleteScript (notebookId folderName scriptName : Text)
  | renameScript (notebookId folderName oldScriptName newScriptName : Text)
  deriving DecidableEq

def ScriptTask.key : ScriptTask → StorageWriteKey
  | .writeScript notebookId folderName fileName _ => groupScriptWrites notebookId folderName fileName
  | .writeScriptDraft notebookId _ => groupDraftWrites notebookId
  | .createScriptFolder notebookId folderName _ | .deleteScriptFolder notebookId folderName =>
    groupScriptFolderWrites notebookId folderName
  | .renameScriptFolder notebookId oldFolderName _ =>
    groupScriptFolderRenames notebookId oldFolderName
  | .deleteScript notebookId folderName scriptName =>
    groupScriptDeletes notebookId folderName scriptName
  | .renameScript notebookId folderName oldScriptName _ =>
    groupScriptRenames notebookId folderName oldScriptName

/-! ## The directory tree -/

/-- The script files of a folder. -/
abbrev Folder := InsertionMap Text Text

/-- The script folders of the notebooks, and their drafts. -/
structure Disk where
  folders : InsertionMap (Text × Text) Folder := .empty
  drafts : InsertionMap Text Text := .empty

namespace Disk

/-- `createScriptFolder`, and `ensureDir` on the folder of a script. -/
def createScriptFolder (notebookId folderName : Text) (d : Disk) : Disk :=
  match d.folders.get? (notebookId, folderName) with
  | some _ => d
  | none => { d with folders := d.folders.set (notebookId, folderName) .empty }

def deleteScriptFolder (notebookId folderName : Text) (d : Disk) : Disk :=
  { d with folders := d.folders.delete (notebookId, folderName) }

/-- `renameScriptFolder`.  A directory is renamed onto a missing or an empty
one; the rename onto any other throws. -/
def renameScriptFolder (notebookId oldFolderName newFolderName : Text) (d : Disk) : Option Disk :=
  if oldFolderName = newFolderName then some d
  else
    match d.folders.get? (notebookId, oldFolderName) with
    | none => some d
    | some files =>
      let free := match d.folders.get? (notebookId, newFolderName) with
        | none => true
        | some occupied => occupied.entries.isEmpty
      if free then
        some { d with
          folders := (d.folders.delete (notebookId, oldFolderName)).set
            (notebookId, newFolderName) files }
      else none

def saveScript (notebookId folderName scriptName sql : Text) (d : Disk) : Disk :=
  let files := (d.folders.get? (notebookId, folderName)).getD .empty
  { d with folders := d.folders.set (notebookId, folderName) (files.set scriptName sql) }

def deleteScript (notebookId folderName scriptName : Text) (d : Disk) : Disk :=
  match d.folders.get? (notebookId, folderName) with
  | none => d
  | some files =>
    { d with folders := d.folders.set (notebookId, folderName) (files.delete scriptName) }

/-- `renameScript`.  A file is renamed onto any other. -/
def renameScript (notebookId folderName oldScriptName newScriptName : Text) (d : Disk) : Disk :=
  if oldScriptName = newScriptName then d
  else
    match d.folders.get? (notebookId, folderName) with
    | none => d
    | some files =>
      match files.get? oldScriptName with
      | none => d
      | some sql =>
        { d with
          folders := d.folders.set (notebookId, folderName)
            ((files.delete oldScriptName).set newScriptName sql) }

def saveScriptDraft (notebookId sql : Text) (d : Disk) : Disk :=
  { d with drafts := d.drafts.set notebookId sql }

end Disk

/-- `StorageWriter.executeTask`, with the error of a call caught. -/
def executeTask : ScriptTask → Disk → Disk
  | .writeScript notebookId folderName fileName sql, d =>
    d.saveScript notebookId folderName fileName sql
  | .writeScriptDraft notebookId sql, d => d.saveScriptDraft notebookId sql
  | .createScriptFolder notebookId folderName scripts, d =>
    scripts.foldl (fun d script => d.saveScript notebookId folderName script.1 script.2)
      (d.createScriptFolder notebookId folderName)
  | .deleteScriptFolder notebookId folderName, d => d.deleteScriptFolder notebookId folderName
  | .renameScriptFolder notebookId oldFolderName newFolderName, d =>
    (d.renameScriptFolder notebookId oldFolderName newFolderName).getD d
  | .deleteScript notebookId folderName scriptName, d =>
    d.deleteScript notebookId folderName scriptName
  | .renameScript notebookId folderName oldScriptName newScriptName, d =>
    d.renameScript notebookId folderName oldScriptName newScriptName

/-! ## Script files -/

inductive Location
  | script (notebookId folderName fileName : Text)
  | draft (notebookId : Text)
  deriving DecidableEq

/-- The contents of the script files. -/
abbrev Files := Location → Option Text

def Disk.readFile (d : Disk) : Files
  | .script notebookId folderName fileName =>
    (d.folders.get? (notebookId, folderName)).bind fun files => files.get? fileName
  | .draft notebookId => d.drafts.get? notebookId

def Occupied (files : Files) (notebookId folderName : Text) : Prop :=
  ∃ fileName, files (.script notebookId folderName fileName) ≠ none

def moveFolder (notebookId oldFolderName newFolderName : Text) (files : Files) : Files
  | .script n f x =>
    if n = notebookId ∧ f = newFolderName then files (.script notebookId oldFolderName x)
    else if n = notebookId ∧ f = oldFolderName then none
    else files (.script n f x)
  | .draft n => files (.draft n)

def dropFolder (notebookId folderName : Text) (files : Files) : Files
  | .script n f x => if n = notebookId ∧ f = folderName then none else files (.script n f x)
  | .draft n => files (.draft n)

def saveFiles (notebookId folderName : Text) (scripts : List (Text × Text)) (files : Files) : Files :=
  scripts.foldl
    (fun files script =>
      Function.update files (.script notebookId folderName script.1) (some script.2))
    files

open Classical in
/-- What a task does to the script files. -/
noncomputable def effect : ScriptTask → Files → Files
  | .writeScript n f x sql, files => Function.update files (.script n f x) (some sql)
  | .writeScriptDraft n sql, files => Function.update files (.draft n) (some sql)
  | .createScriptFolder n f scripts, files => saveFiles n f scripts files
  | .deleteScriptFolder n f, files => dropFolder n f files
  | .renameScriptFolder n a b, files =>
    if a = b ∨ Occupied files n b then files else moveFolder n a b files
  | .deleteScript n f x, files => Function.update files (.script n f x) none
  | .renameScript n f x y, files =>
    if x = y ∨ files (.script n f x) = none then files
    else Function.update (Function.update files (.script n f x) none) (.script n f y)
      (files (.script n f x))

/-! ## The backend has these effects -/

theorem readFile_saveScript (n f x sql : Text) (d : Disk) :
    (d.saveScript n f x sql).readFile = Function.update d.readFile (.script n f x) (some sql) := by
  funext l
  cases l with
  | script n' f' x' =>
    simp only [Disk.readFile, Disk.saveScript, get?_set, update_apply,
      Location.script.injEq, Prod.mk.injEq]
    by_cases hfolder : n' = n ∧ f' = f
    · obtain ⟨rfl, rfl⟩ := hfolder
      by_cases hx : x' = x
      · simp [hx, get?_set]
      · cases hget : d.folders.get? (n', f') <;> simp [hx, get?_set]
    · have hother : ¬ (n' = n ∧ f' = f ∧ x' = x) := fun h => hfolder ⟨h.1, h.2.1⟩
      simp [hfolder, hother]
  | draft n' => simp [Disk.readFile, Disk.saveScript]

theorem readFile_foldl_saveScript (n f : Text) (scripts : List (Text × Text)) (d : Disk) :
    (scripts.foldl (fun d script => d.saveScript n f script.1 script.2) d).readFile =
      saveFiles n f scripts d.readFile := by
  induction scripts generalizing d with
  | nil => rfl
  | cons script scripts ih =>
    rw [List.foldl_cons, ih, readFile_saveScript]
    rfl

theorem readFile_createScriptFolder (n f : Text) (d : Disk) :
    (d.createScriptFolder n f).readFile = d.readFile := by
  unfold Disk.createScriptFolder
  cases hget : d.folders.get? (n, f) with
  | some files => rfl
  | none =>
    funext l
    cases l with
    | script n' f' x' =>
      simp only [Disk.readFile, get?_set]
      split_ifs with hfolder
      · rw [hfolder, hget]
        rfl
      · rfl
    | draft n' => rfl

theorem readFile_deleteScriptFolder (n f : Text) (d : Disk) :
    (d.deleteScriptFolder n f).readFile = dropFolder n f d.readFile := by
  funext l
  cases l with
  | script n' f' x' =>
    simp only [Disk.readFile, Disk.deleteScriptFolder, get?_delete, dropFolder, Prod.mk.injEq]
    split_ifs <;> rfl
  | draft n' => rfl

theorem readFile_deleteScript (n f x : Text) (d : Disk) :
    (d.deleteScript n f x).readFile = Function.update d.readFile (.script n f x) none := by
  funext l
  unfold Disk.deleteScript
  cases l with
  | script n' f' x' =>
    cases hget : d.folders.get? (n, f) with
    | none =>
      simp only [Disk.readFile, update_apply, Location.script.injEq]
      split_ifs with hloc
      · obtain ⟨rfl, rfl, rfl⟩ := hloc
        simp [hget]
      · rfl
    | some files =>
      simp only [Disk.readFile, get?_set, update_apply, Location.script.injEq, Prod.mk.injEq]
      by_cases hfolder : n' = n ∧ f' = f
      · obtain ⟨rfl, rfl⟩ := hfolder
        by_cases hx : x' = x <;> simp [hx, hget, get?_delete]
      · have hother : ¬ (n' = n ∧ f' = f ∧ x' = x) := fun h => hfolder ⟨h.1, h.2.1⟩
        simp [hfolder, hother]
  | draft n' => cases d.folders.get? (n, f) <;> simp [Disk.readFile]

theorem readFile_renameScript (n f x y : Text) (d : Disk) :
    (d.renameScript n f x y).readFile = effect (.renameScript n f x y) d.readFile := by
  unfold Disk.renameScript effect
  by_cases hxy : x = y
  · simp [hxy]
  rw [if_neg hxy]
  have hread : d.readFile (.script n f x) =
      (d.folders.get? (n, f)).bind fun files => files.get? x := rfl
  cases hget : d.folders.get? (n, f) with
  | none => simp [hread, hget]
  | some files =>
    cases hsql : files.get? x with
    | none => simp [hread, hget, hsql]
    | some sql =>
      simp only [hread, hget, hsql, Option.bind_some, hxy, reduceCtorEq, or_self, if_false]
      funext l
      cases l with
      | script n' f' x' =>
        simp only [Disk.readFile, get?_set, update_apply, Location.script.injEq, Prod.mk.injEq]
        by_cases hfolder : n' = n ∧ f' = f
        · obtain ⟨rfl, rfl⟩ := hfolder
          by_cases hy : x' = y
          · simp [hy, get?_set]
          · by_cases hx : x' = x <;> simp [hx, hy, hget, get?_set, get?_delete]
        · have hother : ∀ z, ¬ (n' = n ∧ f' = f ∧ x' = z) := fun z h => hfolder ⟨h.1, h.2.1⟩
          simp [hfolder, hother]
      | draft n' => simp [Disk.readFile]

theorem occupied_readFile_iff (n f : Text) (d : Disk) :
    Occupied d.readFile n f ↔ ∃ files, d.folders.get? (n, f) = some files ∧ files.entries ≠ [] := by
  cases hget : d.folders.get? (n, f) with
  | none => simp [Occupied, Disk.readFile, hget]
  | some files =>
    have hempty := @InsertionMap.entries_eq_nil_iff Text Text _ files
    simp only [Occupied, Disk.readFile, hget, Option.bind_some, Option.some.injEq,
      exists_eq_left', ne_eq, hempty, not_forall]

theorem readFile_renameScriptFolder (n a b : Text) (d : Disk) :
    ((d.renameScriptFolder n a b).getD d).readFile =
      effect (.renameScriptFolder n a b) d.readFile := by
  unfold Disk.renameScriptFolder effect
  by_cases hab : a = b
  · simp [hab]
  rw [if_neg hab]
  have hoccupied := occupied_readFile_iff n b d
  cases hold : d.folders.get? (n, a) with
  | none =>
    -- nothing moves, and a free destination has no files either
    dsimp only [Option.getD_some]
    split_ifs with hcond
    · rfl
    · have hfree : ¬ Occupied d.readFile n b := fun h => hcond (.inr h)
      have hmissing : ∀ x, d.readFile (.script n a x) = none := by
        intro x
        simp [Disk.readFile, hold]
      funext l
      cases l with
      | script n' f' x' =>
        simp only [moveFolder]
        split_ifs with hnew hold'
        · obtain ⟨rfl, rfl⟩ := hnew
          rw [hmissing x']
          by_contra hne
          exact hfree ⟨x', hne⟩
        · obtain ⟨rfl, rfl⟩ := hold'
          exact hmissing x'
        · rfl
      | draft n' => rfl
  | some files =>
    have hfree : (match d.folders.get? (n, b) with
        | none => true
        | some occupied => occupied.entries.isEmpty) = true ↔ ¬ Occupied d.readFile n b := by
      rw [hoccupied]
      cases d.folders.get? (n, b) <;> simp
    dsimp only
    by_cases hocc : Occupied d.readFile n b
    · rw [if_neg (fun h => hfree.mp h hocc), if_pos (.inr hocc)]
      rfl
    · rw [if_pos (hfree.mpr hocc), if_neg (by simp [hab, hocc])]
      funext l
      cases l with
      | script n' f' x' =>
        simp only [Option.getD_some, Disk.readFile, get?_set,
          get?_delete, moveFolder, Prod.mk.injEq]
        split_ifs with hnew hold'
        · simp [hold]
        · rfl
        · rfl
      | draft n' => rfl

/-- The native backend does to the script files what the tasks mean. -/
theorem readFile_executeTask (task : ScriptTask) (d : Disk) :
    (executeTask task d).readFile = effect task d.readFile := by
  cases task with
  | writeScript n f x sql => exact readFile_saveScript n f x sql d
  | writeScriptDraft n sql =>
    funext l
    cases l with
    | script n' f' x' => simp [executeTask, Disk.saveScriptDraft, Disk.readFile, effect]
    | draft n' =>
      simp [executeTask, Disk.saveScriptDraft, Disk.readFile, effect, get?_set, update_apply]
  | createScriptFolder n f scripts =>
    rw [executeTask, effect, readFile_foldl_saveScript, readFile_createScriptFolder]
  | deleteScriptFolder n f => exact readFile_deleteScriptFolder n f d
  | renameScriptFolder n a b => exact readFile_renameScriptFolder n a b d
  | deleteScript n f x => exact readFile_deleteScript n f x d
  | renameScript n f x y => exact readFile_renameScript n f x y d

end DashQL.Storage
