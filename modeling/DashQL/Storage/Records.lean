import DashQL.Storage.Tasks

/-!
# What the writer records of its files

Files may be there that the writer never wrote, and of these it has no record.  Most
tasks keep the record right all the same; a rename may move such a file over one that is
recorded, or a record over such a file.

`records_step_iff` says when a task leaves a right record right, and
`records_right_of_run` what follows for the tasks that are executed one after another.
-/

namespace DashQL.Storage

open Function List Option

namespace WriterFiles

def RecordsRight (w : WriterFiles) : Prop := Knows w.completedFileContents.get? w.files

/-- Neither path begins with the other one. -/
def Apart (path path' : Text) : Prop := ¬ path <+: path' ∧ ¬ path' <+: path

/-- A task leaves a right record right: a renamed script or folder moves no file without a record
over a recorded one, and no recorded absence over a file; a script without a record is not
renamed to itself; and a notebook whose files are kept is not deleted while they are recorded. -/
def KeepsRecords {P : Type} (keepsFiles : Text → Bool) (task : StorageWriteTaskVariant P)
    (w : WriterFiles) : Prop :=
  match task with
  | .deleteNotebook notebookId =>
    keepsFiles notebookId → ∀ path ∈ w.completedFileContents.keys,
      storageWriteKeyBelongsToNotebook path notebookId → w.files path = none
  | .scripts (.renameScript notebookId folderName oldScriptName newScriptName) =>
    let oldPath := groupScriptWrites notebookId folderName oldScriptName
    let newPath := groupScriptWrites notebookId folderName newScriptName
    if oldPath = newPath then w.completedFileContents.get? oldPath = none → w.files oldPath = none
    else MovesRight w.completedFileContents.get? w.files oldPath newPath
  | .scripts (.renameScriptFolder notebookId oldFolderName newFolderName) =>
    let oldPrefix := folderPrefix notebookId oldFolderName
    let newPrefix := folderPrefix notebookId newFolderName
    oldPrefix = newPrefix ∨ Apart oldPrefix newPrefix ∧
      ∀ rest, MovesRight w.completedFileContents.get? w.files (oldPrefix ++ rest)
        (newPrefix ++ rest)
  | _ => True

section Steps

variable {w : WriterFiles} {path oldPath newPath oldPrefix newPrefix : Text}

/-! ## Writing and removing -/

theorem RecordsRight.write (h : w.RecordsRight) (path content : Text) :
    (w.write path content).RecordsRight := by
  unfold RecordsRight WriterFiles.write
  dsimp only
  rw [InsertionMap.get?_set_eq_update]
  exact h.update

theorem RecordsRight.saveScripts (h : w.RecordsRight) (notebookId folderName : Text)
    (scripts : List (Text × Text)) : (w.saveScripts notebookId folderName scripts).RecordsRight := by
  unfold WriterFiles.saveScripts
  induction scripts generalizing w with
  | nil => exact h
  | cons script scripts ih => exact ih (h.write _ _)

theorem RecordsRight.deleteScript (h : w.RecordsRight) (path : Text) :
    (w.deleteScript path).RecordsRight := by
  unfold RecordsRight WriterFiles.deleteScript
  dsimp only
  rw [InsertionMap.get?_set_eq_update]
  exact h.update

theorem get?_forget (dropped : Text → Bool) (completed : InsertionMap Text (Option Text))
    (path : Text) :
    (forget dropped completed).get? path =
      if dropped path then (completed.get? path).map fun _ => none else completed.get? path := by
  have hloop : ∀ (paths : List Text) (completed : InsertionMap Text (Option Text)),
      (paths.foldl
        (fun completed path => if dropped path then completed.set path none else completed)
        completed).get? path =
      if dropped path ∧ path ∈ paths then some none else completed.get? path := by
    intro paths
    induction paths with
    | nil => intro completed; simp
    | cons head paths ih =>
      intro completed
      rw [foldl_cons, ih]
      by_cases hpath : dropped path
      · by_cases hhead : path = head
        · subst hhead
          by_cases hmem : path ∈ paths <;> simp [hpath, hmem, InsertionMap.get?_set]
        · by_cases hdropped : dropped head <;> simp [hpath, hhead, hdropped, InsertionMap.get?_set]
      · by_cases hdropped : dropped head
        · have hne : path ≠ head := fun heq => hpath (heq ▸ hdropped)
          simp [hpath, hdropped, InsertionMap.get?_set, hne]
        · simp [hpath, hdropped]
  rw [forget, hloop]
  by_cases hpath : dropped path
  · cases hget : completed.get? path with
    | none => simp [hpath, InsertionMap.get?_eq_none_iff.mp hget]
    | some content => simp [hpath, InsertionMap.mem_keys_iff.mpr ⟨content, hget⟩]
  · simp [hpath]

theorem records_drop_iff (h : w.RecordsRight) {dropped : Text → Bool} {removed : Bool} :
    (w.drop dropped removed).RecordsRight ↔
      (removed = false → ∀ path ∈ w.completedFileContents.keys,
        dropped path → w.files path = none) := by
  constructor
  · intro hafter hremoved path hknown hdropped
    obtain ⟨content, hcontent⟩ := InsertionMap.mem_keys_iff.mp hknown
    have hforgotten : (w.drop dropped removed).completedFileContents.get? path = some none := by
      rw [WriterFiles.drop, get?_forget, if_pos hdropped, hcontent, map_some]
    have hgone := hafter path none hforgotten
    simp only [WriterFiles.drop, hremoved, Bool.false_and, Bool.false_eq_true, if_false] at hgone
    exact hgone
  · intro hmissing path content hcontent
    simp only [WriterFiles.drop] at hcontent ⊢
    rw [get?_forget] at hcontent
    by_cases hdropped : dropped path
    · rw [if_pos hdropped] at hcontent
      obtain ⟨old, hold, rfl⟩ := map_eq_some_iff.mp hcontent
      cases removed with
      | true => rw [if_pos (by simpa using hdropped)]
      | false =>
        rw [if_neg (by simp)]
        exact hmissing rfl path (InsertionMap.mem_keys_iff.mpr ⟨old, hold⟩) hdropped
    · rw [if_neg hdropped] at hcontent
      rw [if_neg (by simp [hdropped])]
      exact h path content hcontent

/-! ## Renaming a script -/

theorem moved_renameScript (hne : oldPath ≠ newPath) :
    Moved (Function.update (fun _ => none) newPath (some oldPath)) {oldPath}
      w.completedFileContents.get? (w.renameScript oldPath newPath).completedFileContents.get?
      w.files (w.renameScript oldPath newPath).files := by
  have hfiles : ∀ path, (w.renameScript oldPath newPath).files path =
      if path = newPath then (w.files oldPath).or (w.files newPath)
      else if path = oldPath then none else w.files path := by
    intro path
    simp only [WriterFiles.renameScript, hne, false_or]
    cases hold : w.files oldPath with
    | none =>
      rw [if_pos rfl, none_or]
      split_ifs with hnew hpath
      · rw [hnew]
      · rw [hpath, hold]
      · rfl
    | some content =>
      rw [if_neg (by simp), update_apply, update_apply]
      rfl
  have hrecord : ∀ path, (w.renameScript oldPath newPath).completedFileContents.get? path =
      if path = newPath then
        (w.completedFileContents.get? oldPath).or (w.completedFileContents.get? newPath)
      else if path = oldPath then some none else w.completedFileContents.get? path := by
    intro path
    simp only [WriterFiles.renameScript]
    cases hold : w.completedFileContents.get? oldPath with
    | none =>
      rw [none_or, InsertionMap.get?_set]
      split_ifs with hpath hnew hnew
      · exact absurd (hpath.symm.trans hnew) hne
      · rfl
      · rw [hnew]
      · rfl
    | some content =>
      rw [InsertionMap.get?_set, InsertionMap.get?_set]
      rfl
  have horigin : ∀ {source target}, Function.update (fun _ : Text => (none : Option Text)) newPath
      (some oldPath) target = some source → target = newPath ∧ source = oldPath := by
    intro source target horigin
    by_cases htarget : target = newPath
    · rw [htarget, update_self] at horigin
      exact ⟨htarget, (some.inj horigin).symm⟩
    · rw [update_of_ne htarget] at horigin
      cases horigin
  have hother : ∀ {key}, Function.update (fun _ : Text => (none : Option Text)) newPath
      (some oldPath) key = none → key ≠ newPath := by
    rintro key hnone rfl
    rw [update_self] at hnone
    cases hnone
  refine ⟨?_, ?_, ?_, ?_, ?_, ?_⟩
  · intro source target hmove
    obtain ⟨rfl, rfl⟩ := horigin hmove
    rw [hfiles, if_pos rfl]
  · intro source target hmove
    obtain ⟨rfl, rfl⟩ := horigin hmove
    rw [hrecord, if_pos rfl]
  · intro key hnone hvacated
    rw [hfiles, if_neg (hother hnone), if_pos (Set.mem_singleton_iff.mp hvacated)]
  · intro key hnone hvacated content hcontent
    rw [hrecord, if_neg (hother hnone), if_pos (Set.mem_singleton_iff.mp hvacated)] at hcontent
    exact (some.inj hcontent).symm
  · intro key hnone hkept
    rw [hfiles, if_neg (hother hnone), if_neg fun heq => hkept (Set.mem_singleton_iff.mpr heq)]
  · intro key hnone hkept
    rw [hrecord, if_neg (hother hnone), if_neg fun heq => hkept (Set.mem_singleton_iff.mpr heq)]

theorem records_renameScript_iff (h : w.RecordsRight) :
    (w.renameScript oldPath newPath).RecordsRight ↔
      if oldPath = newPath then w.completedFileContents.get? oldPath = none → w.files oldPath = none
      else MovesRight w.completedFileContents.get? w.files oldPath newPath := by
  by_cases hsame : oldPath = newPath
  · subst hsame
    rw [if_pos rfl]
    unfold RecordsRight WriterFiles.renameScript
    simp only [true_or, if_true]
    cases hget : w.completedFileContents.get? oldPath with
    | some content =>
      dsimp only
      rw [InsertionMap.set_set, InsertionMap.set_of_get? hget]
      exact iff_of_true h fun hnone => absurd hnone (some_ne_none _)
    | none =>
      dsimp only
      rw [InsertionMap.get?_set_eq_update]
      constructor
      · intro hafter _
        exact hafter oldPath none (update_self ..)
      · intro hmissing path content hcontent
        by_cases hpath : path = oldPath
        · rw [hpath, update_self] at hcontent
          rw [hpath, hmissing rfl]
          exact some.inj hcontent
        · rw [update_of_ne hpath] at hcontent
          exact h path content hcontent
  · rw [if_neg hsame]
    rw [RecordsRight, knows_move_iff h (moved_renameScript hsame)]
    constructor
    · intro hright
      exact hright oldPath newPath (update_self ..)
    · intro hright source target horigin
      by_cases htarget : target = newPath
      · rw [htarget, update_self] at horigin
        rw [htarget, ← some.inj horigin]
        exact hright
      · rw [update_of_ne htarget] at horigin
        cases horigin

/-! ## Renaming a folder -/

def lookup (entries : List (Text × Option Text)) (path : Text) : Option (Option Text) :=
  (entries.find? fun entry => entry.1 = path).map Prod.snd

theorem lookup_cons (entry : Text × Option Text) (entries : List (Text × Option Text))
    (path : Text) :
    lookup (entry :: entries) path = if entry.1 = path then some entry.2 else lookup entries path := by
  unfold lookup
  rw [find?_cons]
  by_cases hpath : entry.1 = path <;> simp [hpath]

theorem lookup_eq_none {entries : List (Text × Option Text)} (h : path ∉ entries.map Prod.fst) :
    lookup entries path = none := by
  rw [lookup, map_eq_none_iff, find?_eq_none]
  intro entry hentry hpath
  exact h (List.mem_map.mpr ⟨entry, hentry, of_decide_eq_true hpath⟩)

theorem Apart.append_ne (h : Apart oldPrefix newPrefix) (rest rest' : Text) :
    newPrefix ++ rest ≠ oldPrefix ++ rest' := by
  intro heq
  have hold : oldPrefix <+: newPrefix ++ rest := ⟨rest', heq.symm⟩
  rcases List.prefix_or_prefix_of_prefix hold (List.prefix_append newPrefix rest) with hp | hp
  · exact h.1 hp
  · exact h.2 hp

theorem get?_moveRecords (hapart : Apart oldPrefix newPrefix)
    {entries : List (Text × Option Text)} :
    ∀ {completed : InsertionMap Text (Option Text)}, (entries.map Prod.fst).Nodup →
      (∀ rest, (moveRecords oldPrefix newPrefix entries completed).get? (newPrefix ++ rest) =
        (lookup entries (oldPrefix ++ rest)).or (completed.get? (newPrefix ++ rest))) ∧
      (∀ rest, (moveRecords oldPrefix newPrefix entries completed).get? (oldPrefix ++ rest) =
        if (lookup entries (oldPrefix ++ rest)).isSome then some none
        else completed.get? (oldPrefix ++ rest)) ∧
      ∀ path, ¬ newPrefix <+: path → ¬ oldPrefix <+: path →
        (moveRecords oldPrefix newPrefix entries completed).get? path = completed.get? path := by
  induction entries with
  | nil =>
    intro completed _
    exact ⟨fun rest => rfl, fun rest => rfl, fun path _ _ => rfl⟩
  | cons entry entries ih =>
    intro completed hnodup
    obtain ⟨path, content⟩ := entry
    obtain ⟨hhead, htail⟩ := nodup_cons.mp hnodup
    unfold moveRecords at ih ⊢
    rw [foldl_cons]
    dsimp only
    by_cases hold : oldPrefix <+: path
    · obtain ⟨moved, rfl⟩ := hold
      rw [if_pos (List.isPrefixOf_iff_prefix.mpr (List.prefix_append _ _)), drop_left]
      obtain ⟨htarget, hsource, hrest⟩ := @ih ((completed.set (oldPrefix ++ moved) none).set
        (newPrefix ++ moved) content) htail
      refine ⟨?_, ?_, ?_⟩
      · intro rest
        rw [htarget, lookup_cons, InsertionMap.get?_set]
        by_cases hsame : rest = moved
        · rw [hsame, lookup_eq_none hhead, if_pos rfl, if_pos rfl]
          rfl
        · have hne : oldPrefix ++ moved ≠ oldPrefix ++ rest := by simpa using Ne.symm hsame
          rw [if_neg (by simpa using hsame), if_neg hne,
            InsertionMap.get?_set_of_ne (hapart.append_ne rest moved)]
      · intro rest
        rw [hsource, lookup_cons, InsertionMap.get?_set_of_ne (hapart.append_ne moved rest).symm,
          InsertionMap.get?_set]
        by_cases hsame : rest = moved
        · rw [hsame, if_pos rfl, if_pos rfl]
          simp
        · have hne : oldPrefix ++ moved ≠ oldPrefix ++ rest := by simpa using Ne.symm hsame
          rw [if_neg hne, if_neg hne.symm]
      · intro other hnew hother
        rw [hrest other hnew hother]
        have hnew' : other ≠ newPrefix ++ moved := by
          rintro rfl
          exact hnew (List.prefix_append _ _)
        have hold' : other ≠ oldPrefix ++ moved := by
          rintro rfl
          exact hother (List.prefix_append _ _)
        rw [InsertionMap.get?_set_of_ne hnew', InsertionMap.get?_set_of_ne hold']
    · rw [if_neg fun hbegins => hold (List.isPrefixOf_iff_prefix.mp hbegins)]
      obtain ⟨htarget, hsource, hrest⟩ := @ih completed htail
      have hne : ∀ rest, path ≠ oldPrefix ++ rest := by
        rintro rest rfl
        exact hold (List.prefix_append _ _)
      refine ⟨?_, ?_, hrest⟩
      · intro rest
        rw [htarget, lookup_cons, if_neg (hne rest)]
      · intro rest
        rw [hsource, lookup_cons, if_neg (hne rest)]

/-- What moves to a path when a folder is renamed. -/
def folderOrigin (oldPrefix newPrefix path : Text) : Option Text :=
  if newPrefix.isPrefixOf path then some (oldPrefix ++ path.drop newPrefix.length) else none

/-- The files of a folder move, and their records with them. -/
theorem moved_renameScriptFolder (hapart : Apart oldPrefix newPrefix) :
    Moved (folderOrigin oldPrefix newPrefix) {path | oldPrefix <+: path}
      w.completedFileContents.get?
      (w.renameScriptFolder oldPrefix newPrefix).completedFileContents.get?
      w.files (w.renameScriptFolder oldPrefix newPrefix).files := by
  have hne : oldPrefix ≠ newPrefix := fun heq => hapart.1 (heq ▸ List.prefix_rfl)
  obtain ⟨htarget, hsource, hrest⟩ := @get?_moveRecords oldPrefix newPrefix hapart
    w.completedFileContents.entries w.completedFileContents w.completedFileContents.nodup
  have horigin : ∀ {source target}, folderOrigin oldPrefix newPrefix target = some source →
      ∃ rest, target = newPrefix ++ rest ∧ source = oldPrefix ++ rest := by
    intro source target hmove
    unfold folderOrigin at hmove
    split_ifs at hmove with hbegins
    obtain ⟨rest, rfl⟩ := List.isPrefixOf_iff_prefix.mp hbegins
    rw [drop_left] at hmove
    exact ⟨rest, rfl, (some.inj hmove).symm⟩
  have hother : ∀ {key}, folderOrigin oldPrefix newPrefix key = none → ¬ newPrefix <+: key := by
    intro key hnone hbegins
    rw [folderOrigin, if_pos (List.isPrefixOf_iff_prefix.mpr hbegins)] at hnone
    cases hnone
  refine ⟨?_, ?_, ?_, ?_, ?_, ?_⟩
  · intro source target hmove
    obtain ⟨rest, rfl, rfl⟩ := horigin hmove
    simp only [WriterFiles.renameScriptFolder, hne, if_false]
    rw [if_pos (List.isPrefixOf_iff_prefix.mpr (List.prefix_append _ _)), drop_left]
  · intro source target hmove
    obtain ⟨rest, rfl, rfl⟩ := horigin hmove
    exact htarget rest
  · intro key hnone hvacated
    simp only [WriterFiles.renameScriptFolder, hne, if_false]
    rw [if_neg fun hbegins => hother hnone (List.isPrefixOf_iff_prefix.mp hbegins),
      if_pos (List.isPrefixOf_iff_prefix.mpr hvacated)]
  · intro key hnone hvacated content hcontent
    obtain ⟨rest, rfl⟩ := hvacated
    have hrecord := (hsource rest).symm.trans hcontent
    split_ifs at hrecord with hknown
    · exact (some.inj hrecord).symm
    · -- a recorded path of the folder is among the records
      exact absurd (show (lookup _ _).isSome from isSome_iff_exists.mpr ⟨_, hrecord⟩) hknown
  · intro key hnone hkept
    simp only [WriterFiles.renameScriptFolder, hne, if_false]
    rw [if_neg fun hbegins => hother hnone (List.isPrefixOf_iff_prefix.mp hbegins),
      if_neg fun hbegins => hkept (List.isPrefixOf_iff_prefix.mp hbegins)]
  · intro key hnone hkept
    exact hrest key (hother hnone) hkept

/-- A folder that is renamed to itself keeps its records. -/
theorem moveRecords_self (folder : Text) :
    ∀ (entries : List (Text × Option Text)) {completed : InsertionMap Text (Option Text)},
      (∀ entry ∈ entries, completed.get? entry.1 = some entry.2) →
      moveRecords folder folder entries completed = completed := by
  intro entries
  induction entries with
  | nil => intro completed _; rfl
  | cons entry entries ih =>
    intro completed hknown
    unfold moveRecords at ih ⊢
    rw [foldl_cons]
    have hstep : (if folder.isPrefixOf entry.1 then
        (completed.set entry.1 none).set (folder ++ entry.1.drop folder.length) entry.2
        else completed) = completed := by
      split_ifs with hbegins
      · obtain ⟨rest, hrest⟩ := List.isPrefixOf_iff_prefix.mp hbegins
        rw [← hrest, drop_left, hrest, InsertionMap.set_set,
          InsertionMap.set_of_get? (hknown entry mem_cons_self)]
      · rfl
    have hrest := ih fun other hother => hknown other (mem_cons_of_mem _ hother)
    exact (congrArg (fun start => moveRecords folder folder entries start) hstep).trans hrest

theorem records_renameScriptFolder_iff (h : w.RecordsRight)
    (hbegins : oldPrefix = newPrefix ∨ Apart oldPrefix newPrefix) :
    (w.renameScriptFolder oldPrefix newPrefix).RecordsRight ↔
      oldPrefix = newPrefix ∨ Apart oldPrefix newPrefix ∧
        ∀ rest, MovesRight w.completedFileContents.get? w.files (oldPrefix ++ rest)
          (newPrefix ++ rest) := by
  rcases hbegins with rfl | hapart
  · refine iff_of_true ?_ (.inl rfl)
    have hrecord : moveRecords oldPrefix oldPrefix w.completedFileContents.entries
        w.completedFileContents = w.completedFileContents :=
      moveRecords_self oldPrefix _ fun entry hentry => InsertionMap.get?_eq_some_iff.mpr hentry
    unfold RecordsRight WriterFiles.renameScriptFolder
    simp only [if_true, hrecord]
    exact h
  · have hne : oldPrefix ≠ newPrefix := fun heq => hapart.1 (heq ▸ List.prefix_rfl)
    rw [RecordsRight, knows_move_iff h (moved_renameScriptFolder hapart)]
    constructor
    · intro hright
      refine .inr ⟨hapart, fun rest => hright _ _ ?_⟩
      rw [folderOrigin, if_pos (List.isPrefixOf_iff_prefix.mpr (List.prefix_append _ _)), drop_left]
    · intro hright source target horigin
      unfold folderOrigin at horigin
      split_ifs at horigin with hnew
      obtain ⟨rest, rfl⟩ := List.isPrefixOf_iff_prefix.mp hnew
      rw [drop_left] at horigin
      obtain rfl := some.inj horigin
      exact (hright.resolve_left hne).2 rest

/-! ## Steps -/

variable {P : Type} (format : ManifestFormat P) (keepsFiles : Text → Bool)

theorem RecordsRight.replaceNotebookScripts (h : w.RecordsRight)
    (notebookScripts : NotebookScriptsData P) (now : Text) :
    (w.replaceNotebookScripts format notebookScripts now).RecordsRight := by
  unfold WriterFiles.replaceNotebookScripts
  have hfolders : ∀ (folders : List (Text × List (Text × Option Text))) {w : WriterFiles},
      w.RecordsRight →
      (folders.foldl
        (fun w folder => w.saveScripts notebookScripts.notebookId folder.1
          (folder.2.filterMap fun script => script.2.map fun sql => (script.1, sql))) w).RecordsRight := by
    intro folders
    induction folders with
    | nil => intro w hw; exact hw
    | cons folder folders ih => intro w hw; exact ih (hw.saveScripts _ _ _)
  have hsaved := hfolders notebookScripts.scriptFolders h
  cases notebookScripts.uncommittedScript with
  | none => exact hsaved.write _ _
  | some composerSql => exact (hsaved.write _ _).write _ _

/-- The folders of a task lie apart, unless they are the same. -/
def FoldersApart : StorageWriteTaskVariant P → Prop
  | .scripts (.renameScriptFolder notebookId oldFolderName newFolderName) =>
    let oldPrefix := folderPrefix notebookId oldFolderName
    let newPrefix := folderPrefix notebookId newFolderName
    oldPrefix = newPrefix ∨ Apart oldPrefix newPrefix
  | _ => True

theorem foldersApart_of_keepsRecords {task : StorageWriteTaskVariant P}
    (h : KeepsRecords keepsFiles task w) : FoldersApart task := by
  cases task with
  | scripts task =>
    cases task with
    | renameScriptFolder n a b => exact h.imp_right And.left
    | _ => trivial
  | _ => trivial

variable [DecidableEq P]

theorem RecordsRight.writeNotebookManifest (h : w.RecordsRight) (notebookId : Text)
    (conn : ConnectionState P) (now : Text) :
    (w.writeNotebookManifest format notebookId conn now).RecordsRight := by
  unfold WriterFiles.writeNotebookManifest
  cases conn.connectionParams with
  | none => exact h
  | some connectionParams =>
    dsimp only
    split_ifs with hequal
    · exact h
    · exact h.write _ _

/-- A task leaves a right record right exactly if it meets the condition. -/
theorem records_step_iff (h : w.RecordsRight) (task : StorageWriteTaskVariant P)
    (hapart : FoldersApart task) :
    (executeTask format keepsFiles task w).RecordsRight ↔ KeepsRecords keepsFiles task w := by
  cases task with
  | writeNotebookManifest notebookId conn now =>
    exact iff_of_true (h.writeNotebookManifest format notebookId conn now) trivial
  | writeNotebookCatalogScript notebookId schemaSQL => exact iff_of_true (h.write _ _) trivial
  | writeNotebookFunctionScript notebookId functionsSQL => exact iff_of_true (h.write _ _) trivial
  | replaceNotebookScripts notebookScripts now =>
    exact iff_of_true (h.replaceNotebookScripts format notebookScripts now) trivial
  | deleteNotebook notebookId =>
    rw [executeTask, records_drop_iff h, KeepsRecords]
    cases keepsFiles notebookId <;> simp
  | scripts task =>
    cases task with
    | writeScript n f x sql => exact iff_of_true (h.write _ _) trivial
    | writeScriptDraft n sql => exact iff_of_true (h.write _ _) trivial
    | createScriptFolder n f scripts => exact iff_of_true (h.saveScripts n f scripts) trivial
    | deleteScriptFolder n f =>
      refine iff_of_true ?_ trivial
      exact (records_drop_iff h).mpr fun hkept => absurd hkept (by decide)
    | renameScriptFolder n a b => exact records_renameScriptFolder_iff h hapart
    | deleteScript n f x => exact iff_of_true (h.deleteScript _) trivial
    | renameScript n f x y => exact records_renameScript_iff h

end Steps

/-! ## Runs -/

section Runs

variable {P : Type} [DecidableEq P]

/-- If all tasks of a run meet the condition, then after each of them what is recorded as a text is
the content of the file, and what is recorded as missing does not exist. -/
theorem records_right_of_run (format : ManifestFormat P) {keepsFiles : Text → Bool}
    {tasks : List (StorageWriteTaskVariant P)} {files : Text → Option Text}
    (hkeeps : ReplayMeets (executeTask format keepsFiles) (KeepsRecords keepsFiles) tasks { files })
    (front back : List (StorageWriteTaskVariant P)) (hreached : tasks = front ++ back) :
    let reached := replay (executeTask format keepsFiles) front { files }
    (∀ path content, reached.completedFileContents.get? path = some (some content) →
        reached.files path = some content) ∧
      ∀ path, reached.completedFileContents.get? path = some none → reached.files path = none := by
  intro reached
  rw [hreached] at hkeeps
  have hright : reached.RecordsRight := replay_invariant RecordsRight
    (fun task w h hstep =>
      (records_step_iff format keepsFiles h task
        (foldersApart_of_keepsRecords keepsFiles hstep)).mpr hstep)
    (fun path content hnone => absurd hnone.symm (some_ne_none _)) hkeeps.left
  exact ⟨fun path content => hright path (some content), fun path => hright path none⟩

/-- The parameters are numbers, and the text of a manifest is its id. -/
def idFormat : ManifestFormat ℕ where
  stringify data := data.notebookId
  parse text := some { notebookId := text, connectionParams := 0 }

/-- A script is written beside one without a record, and renamed. -/
theorem records_right_renamed :
    let files : Text → Option Text :=
      Function.update (fun _ => none) (groupScriptWrites ['n'] ['f'] ['a']) (some ['A'])
    let tasks : List (StorageWriteTaskVariant ℕ) :=
      [.scripts (.writeScript ['n'] ['f'] ['b'] ['B']),
        .scripts (.renameScript ['n'] ['f'] ['b'] ['c'])]
    let reached := replay (executeTask idFormat fun _ => false) tasks { files }
    (∀ path content, reached.completedFileContents.get? path = some (some content) →
        reached.files path = some content) ∧
      ∀ path, reached.completedFileContents.get? path = some none → reached.files path = none := by
  intro files tasks
  have hkeeps : ReplayMeets (executeTask idFormat fun _ => false) (KeepsRecords fun _ => false)
      tasks { files } := ⟨trivial, trivial, trivial⟩
  exact records_right_of_run idFormat hkeeps tasks [] rfl

/-- A script is written and deleted, and a file that the writer never wrote is renamed to its free
name: the record still says that there is no such file. -/
theorem renameScript_keeps_stale_record :
    let files : Text → Option Text :=
      Function.update (fun _ => none) (groupScriptWrites ['n'] ['f'] ['a']) (some ['A'])
    let reached := replay (executeTask idFormat fun _ => false)
      [.scripts (.writeScript ['n'] ['f'] ['b'] ['B']), .scripts (.deleteScript ['n'] ['f'] ['b']),
        .scripts (.renameScript ['n'] ['f'] ['a'] ['b'])] { files }
    let path := groupScriptWrites ['n'] ['f'] ['b']
    reached.completedFileContents.get? path = some none ∧ reached.files path = some ['A'] := by
  decide

end Runs

end WriterFiles

end DashQL.Storage
