import DashQL.Notebook.Reprefix
import DashQL.Storage.Flushing

/-!
# The disk mirrors the notebook

The renames that actions write stay in the order in which they were written, as
long as no rename starts at a folder that a pending rename starts at; a second
one of this kind takes the place of the first.  Without it, a flush that goes
through the pending renames finds every destination free, and leaves on the disk
the folders of the state with the files of their pages.
-/

namespace DashQL.Notebook

open List
open InsertionMap (get?_delete get?_empty get?_set mem_keys_iff)

open Storage

/-! ## Actions -/

variable {oldFolderName : Text}

theorem view_renamePage {newFolderName : Text} {page : ScriptFolder} {state : NotebookScripts}
    (hpage : state.scriptFolders.get? oldFolderName = some page) :
    (renamePage oldFolderName newFolderName page state).view =
      relabel (oldFolderName, newFolderName) state.view := by
  have htext : (renamePage oldFolderName newFolderName page state).text = state.text :=
    funext fun scriptId => get?_moveScripts page newFolderName state.scripts scriptId
  have hfound : state.view oldFolderName = some (page.files state.text) := by
    rw [NotebookScripts.view, viewOf, hpage]
    rfl
  funext folder
  rw [NotebookScripts.view, htext]
  simp only [renamePage, viewOf_set, relabel, hfound]
  rw [Function.update_apply]
  split_ifs with hnew hold
  · rfl
  · rw [viewOf, get?_delete, if_pos hold]
    rfl
  · rw [viewOf, get?_delete, if_neg hold]
    rfl

theorem mem_keys_renamePage {newFolderName folder : Text} {page : ScriptFolder}
    {state : NotebookScripts} :
    folder ∈ (renamePage oldFolderName newFolderName page state).scriptFolders.keys ↔
      folder = newFolderName ∨ folder ≠ oldFolderName ∧ folder ∈ state.scriptFolders.keys := by
  rw [renamePage, InsertionMap.mem_keys_set, InsertionMap.mem_keys_delete]

theorem moved_renamePage {requestedName : Text} {page : ScriptFolder} {state : NotebookScripts}
    {index1 total : ℕ} (h : Labelled normalizeScriptFolderName state.view)
    (hpage : state.scriptFolders.get? oldFolderName = some page)
    (hchanged : normalizeScriptFolderName oldFolderName ≠
      uniqueScriptFolderName requestedName state.scriptFolders oldFolderName) :
    let newFolderName := formatScriptFolderOrderPrefix index1 total ++
      uniqueScriptFolderName requestedName state.scriptFolders oldFolderName
    Moved state (renamePage oldFolderName newFolderName page state)
      [(oldFolderName, newFolderName)] := by
  intro newFolderName
  have hclean : normalizeScriptFolderName newFolderName =
      uniqueScriptFolderName requestedName state.scriptFolders oldFolderName :=
    normalize_format index1 total _
  have hother : ∀ folder, state.view folder ≠ none → folder ≠ oldFolderName →
      normalizeScriptFolderName folder ≠ normalizeScriptFolderName newFolderName := by
    intro folder hfolder hne
    rw [hclean]
    exact uniqueScriptFolderName_ne (view_ne_none_iff.mp hfolder) hne
  have hne : oldFolderName ≠ newFolderName := by
    intro heq
    rw [← hclean, ← heq] at hchanged
    exact hchanged rfl
  have hold : state.view oldFolderName ≠ none :=
    view_ne_none_iff.mpr (mem_keys_iff.mpr ⟨page, hpage⟩)
  have hfree : state.view newFolderName = none := by
    by_contra hfolder
    exact hother newFolderName hfolder hne.symm rfl
  refine ⟨rfl, ⟨⟨hne, hold, hfree⟩, trivial⟩, view_renamePage hpage, ?_, nodup_singleton _⟩
  rw [view_renamePage hpage]
  exact labelled_relabel h hother

variable {renames : List (Text × Text)}

/-- A rename, and then the renames of a pass that does not start at its source. -/
theorem moved_cons {state renamed next : NotebookScripts} {rename : Text × Text}
    (hfirst : Moved state renamed [rename]) (hrest : Moved renamed next renames)
    (hsource : ∀ other ∈ renames, other.1 ≠ rename.1) : Moved state next (rename :: renames) := by
  have hview : renamed.view = relabel rename state.view := hfirst.view
  refine ⟨hrest.notebookId.trans hfirst.notebookId, ⟨hfirst.vacant.1, ?_⟩, ?_, hrest.labelled, ?_⟩
  · rw [← hview]
    exact hrest.vacant
  · rw [replay_cons, ← hview]
    exact hrest.view
  · rw [map_cons, nodup_cons]
    refine ⟨?_, hrest.nodup⟩
    intro hmem
    obtain ⟨other, hother, heq⟩ := mem_map.mp hmem
    exact hsource other hother heq

theorem order_renamePage {viewOrder : List Text} {newFolderName : Text} {page : ScriptFolder}
    {state : NotebookScripts} (hview : viewOrder.Perm state.scriptFolders.keys)
    (hold : oldFolderName ∈ state.scriptFolders.keys)
    (hnew : newFolderName ∉ state.scriptFolders.keys) :
    (viewOrder.map fun f => if f = oldFolderName then newFolderName else f).Nodup ∧
      ∀ folder, folder ∈ (viewOrder.map fun f => if f = oldFolderName then newFolderName else f) ↔
        folder ∈ (renamePage oldFolderName newFolderName page state).scriptFolders.keys := by
  constructor
  · refine List.Nodup.map_on ?_ (hview.nodup_iff.mpr state.scriptFolders.nodup)
    intro f hf f' hf' heq
    rw [hview.mem_iff] at hf hf'
    split_ifs at heq with h h'
    · rw [h, h']
    · exact absurd (heq ▸ hf') hnew
    · exact absurd (heq ▸ hf) hnew
    · exact heq
  · intro folder
    rw [mem_keys_renamePage, mem_map]
    constructor
    · intro h
      obtain ⟨f, hf, rfl⟩ := h
      split_ifs with h'
      · exact .inl rfl
      · exact .inr ⟨h', hview.mem_iff.mp hf⟩
    · intro h
      rcases h with rfl | ⟨hne, hmem⟩
      · exact ⟨oldFolderName, hview.mem_iff.mpr hold, if_pos rfl⟩
      · exact ⟨folder, hview.mem_iff.mpr hmem, if_neg hne⟩

/-- The renames of an action move the pages. -/
theorem moved_reduce (localeCompare : Text → Text → ℤ) {state : NotebookScripts}
    (h : Labelled normalizeScriptFolderName state.view) (action : NotebookScriptsAction) :
    Moved state (reduceNotebookScripts localeCompare state action).1
      (reduceNotebookScripts localeCompare state action).2 := by
  have hsorted := getSortedScriptFolderNames_perm localeCompare state.scriptFolders
  cases action with
  | reorderScriptFolders requestedOrder =>
    simp only [reduceNotebookScripts]
    split_ifs with hsame
    · exact moved_refl h
    · obtain ⟨hnodup, horder⟩ := @resolveOrder_spec requestedOrder _ _ hsorted
      exact (moved_reprefixPages h hnodup horder).1
  | renameScriptFolder oldFolderName requestedName =>
    simp only [reduceNotebookScripts]
    cases hpage : state.scriptFolders.get? oldFolderName with
    | none => exact moved_refl h
    | some page =>
      dsimp only
      split_ifs with hsame
      · exact moved_refl h
      · have hfirst := @moved_renamePage oldFolderName requestedName page state
          ((getSortedScriptFolderNames localeCompare state.scriptFolders).idxOf oldFolderName + 1)
          (getSortedScriptFolderNames localeCompare state.scriptFolders).length h hpage hsame
        dsimp only at hfirst
        generalize hnew : formatScriptFolderOrderPrefix _ _ ++ _ = newFolderName at hfirst ⊢
        have hold : oldFolderName ∈ state.scriptFolders.keys :=
          mem_keys_iff.mpr ⟨page, hpage⟩
        obtain ⟨hne, -, hfree⟩ := hfirst.vacant.1
        have hfresh : newFolderName ∉ state.scriptFolders.keys := by
          rw [← view_ne_none_iff, not_not]
          exact hfree
        obtain ⟨hnodup, horder⟩ := @order_renamePage _ _ _ page state hsorted hold hfresh
        obtain ⟨hpass, hsources⟩ := moved_reprefixPages hfirst.labelled hnodup horder
        have hmoved := moved_cons hfirst hpass fun rename hrename heq => by
          have hmem := hsources rename hrename
          rw [heq, mem_keys_renamePage] at hmem
          exact hmem.elim hne fun hother => hother.1 rfl
        revert hmoved
        cases reprefixPages _ (renamePage oldFolderName newFolderName page state) with
        | none => exact id
        | some reprefixed => exact id

/-! ## The pending renames -/

def renameTask (notebookId : Text) (rename : Text × Text) : ScriptTask :=
  .renameScriptFolder notebookId rename.1 rename.2

def startsAfresh (localeCompare : Text → Text → ℤ) (e : Editing) (action : NotebookScriptsAction) :
    Bool :=
  (reduceNotebookScripts localeCompare e.state action).2.all fun rename =>
    (e.writer.pendingTasks.get? (groupScriptFolderRenames e.state.notebookId rename.1)).isNone

/-- The pending tasks, in the order of a flush. -/
def Editing.tasks (e : Editing) : List ScriptTask := e.writer.queue.map Prod.snd

theorem groupScriptFolderRenames_injective (notebookId : Text) :
    Function.Injective (groupScriptFolderRenames notebookId) := by
  intro folder folder' h
  unfold groupScriptFolderRenames at h
  exact cons_injective (append_cancel_left (append_cancel_right h))

variable {notebookId : Text}

theorem queue_foldl_writeRename {w : Writer ScriptTask} (hnodup : (renames.map Prod.fst).Nodup)
    (hfresh : ∀ rename ∈ renames,
      w.pendingTasks.get? (groupScriptFolderRenames notebookId rename.1) = none) :
    (renames.foldl (writeRename notebookId) w).queue.map Prod.snd =
      w.queue.map Prod.snd ++ renames.map (renameTask notebookId) := by
  induction renames generalizing w with
  | nil => simp
  | cons rename renames ih =>
    simp only [mem_cons, forall_eq_or_imp] at hfresh
    rw [map_cons, nodup_cons] at hnodup
    have hentries := @InsertionMap.set_of_not_mem _ _ _ w.pendingTasks
      (groupScriptFolderRenames notebookId rename.1)
      ⟨renameTask notebookId rename, debounceDurationScriptWrite, w.nextTimer⟩
      (InsertionMap.get?_eq_none_iff.mp hfresh.1)
    have hwrite : writeRename notebookId w rename =
        { w with
          timers := w.timers.set w.nextTimer
            ⟨groupScriptFolderRenames notebookId rename.1, debounceDurationScriptWrite⟩
          nextTimer := w.nextTimer + 1
          pendingTasks := w.pendingTasks.set (groupScriptFolderRenames notebookId rename.1)
            ⟨renameTask notebookId rename, debounceDurationScriptWrite, w.nextTimer⟩ } := by
      rw [writeRename, Writer.write, hfresh.1]
      rfl
    have hothers : ∀ other ∈ renames, (writeRename notebookId w rename).pendingTasks.get?
        (groupScriptFolderRenames notebookId other.1) = none := by
      intro other hother
      rw [hwrite, InsertionMap.get?_set_of_ne]
      · exact hfresh.2 other hother
      · intro heq
        rw [← groupScriptFolderRenames_injective notebookId heq] at hnodup
        exact hnodup.1 (mem_map_of_mem hother)
    rw [foldl_cons, ih hnodup.2 hothers, hwrite, Writer.queue]
    simp [hentries, Writer.queue]

theorem inFlight_foldl_writeRename (notebookId : Text) (renames : List (Text × Text))
    (w : Writer ScriptTask) :
    (renames.foldl (writeRename notebookId) w).inFlight = w.inFlight := by
  induction renames generalizing w with
  | nil => rfl
  | cons rename renames ih =>
    rw [foldl_cons, ih, writeRename, Writer.write]
    split <;> rfl

/-- What the pending renames make of the first state is the state that is reached. -/
structure Pending (first e : Editing) : Prop where
  inFlight : e.writer.inFlight = first.writer.inFlight
  notebookId : e.state.notebookId = first.state.notebookId
  labelled : Labelled normalizeScriptFolderName e.state.view
  renames : ∃ renames, e.tasks = renames.map (renameTask first.state.notebookId) ∧
    Vacant renames first.state.view ∧ e.state.view = replay relabel renames first.state.view

theorem pending_step {localeCompare : Text → Text → ℤ} {first e : Editing}
    {action : NotebookScriptsAction} (h : Pending first e)
    (met : startsAfresh localeCompare e action = true) :
    Pending first (e.step localeCompare action) := by
  obtain ⟨renames, htasks, hvacant, hview⟩ := h.renames
  have hmoved := moved_reduce localeCompare h.labelled action
  have hfresh : ∀ rename ∈ (reduceNotebookScripts localeCompare e.state action).2,
      e.writer.pendingTasks.get? (groupScriptFolderRenames e.state.notebookId rename.1) = none := by
    intro rename hrename
    exact Option.isNone_iff_eq_none.mp (all_eq_true.mp met rename hrename)
  refine ⟨(inFlight_foldl_writeRename _ _ _).trans h.inFlight,
    hmoved.notebookId.trans h.notebookId, hmoved.labelled,
    renames ++ (reduceNotebookScripts localeCompare e.state action).2, ?_, ?_, ?_⟩
  · have hqueue := queue_foldl_writeRename hmoved.nodup hfresh
    have htasks : e.writer.queue.map Prod.snd = _ := htasks
    rw [Editing.tasks, Editing.step, hqueue, htasks, map_append, h.notebookId]
  · rw [vacant_append, ← hview]
    exact ⟨hvacant, hmoved.vacant⟩
  · rw [replay_append, ← hview]
    exact hmoved.view

theorem pending_of_edits {localeCompare : Text → Text → ℤ} {first e : Editing}
    (edits : Edits localeCompare (fun e action => startsAfresh localeCompare e action = true)
      first e)
    (hdistinct : first.state.CleanNamesDistinct) (hidle : first.tasks = []) : Pending first e := by
  induction edits with
  | start => exact ⟨rfl, rfl, labelled_view hdistinct, [], hidle, trivial, rfl⟩
  | step action _ met ih => exact pending_step ih met

/-! ## The disk -/

def diskView (notebookId : Text) (disk : Disk) : Text → Option (Text → Option Text) :=
  fun folderName => (disk.folders.get? (notebookId, folderName)).map InsertionMap.get?

/-- The disk has exactly the folders of the notebook, each with the files of its page. -/
def Mirrors (state : NotebookScripts) (disk : Disk) : Prop :=
  diskView state.notebookId disk = state.view

/-- Every task renames a folder of the disk onto a free destination. -/
def RenamesOntoFree : List ScriptTask → Disk → Prop
  | [], _ => True
  | task :: tasks, disk =>
    (∃ notebookId oldFolderName newFolderName,
      task = .renameScriptFolder notebookId oldFolderName newFolderName ∧
        disk.folders.get? (notebookId, oldFolderName) ≠ none ∧
        disk.folders.get? (notebookId, newFolderName) = none) ∧
      RenamesOntoFree tasks (executeTask task disk)

theorem diskView_rename {rename : Text × Text} {disk : Disk} (hne : rename.1 ≠ rename.2)
    (hold : diskView notebookId disk rename.1 ≠ none)
    (hfree : diskView notebookId disk rename.2 = none) :
    diskView notebookId (executeTask (renameTask notebookId rename) disk) =
      relabel rename (diskView notebookId disk) := by
  have hfree' : disk.folders.get? (notebookId, rename.2) = none := Option.map_eq_none_iff.mp hfree
  obtain ⟨files, hfiles⟩ := Option.ne_none_iff_exists'.mp hold
  obtain ⟨folder, hfolder, rfl⟩ := Option.map_eq_some_iff.mp hfiles
  have hexecute : executeTask (renameTask notebookId rename) disk =
      { disk with
        folders := (disk.folders.delete (notebookId, rename.1)).set (notebookId, rename.2)
          folder } := by
    simp only [renameTask, executeTask, Disk.renameScriptFolder, hfolder, hfree', if_neg hne,
      if_true, Option.getD_some]
  funext probe
  rw [hexecute]
  simp only [diskView, relabel, get?_set, get?_delete, Prod.mk.injEq, true_and]
  split_ifs
  · rw [hfolder]
  · rfl
  · rfl

theorem renamesOntoFree_of_vacant {disk : Disk} (h : Vacant renames (diskView notebookId disk)) :
    RenamesOntoFree (renames.map (renameTask notebookId)) disk ∧
      diskView notebookId (replay executeTask (renames.map (renameTask notebookId)) disk) =
        replay relabel renames (diskView notebookId disk) := by
  induction renames generalizing disk with
  | nil => exact ⟨trivial, rfl⟩
  | cons rename renames ih =>
    obtain ⟨⟨hne, hold, hfree⟩, hrest⟩ := h
    have hrename := diskView_rename hne hold hfree
    rw [← hrename] at hrest
    obtain ⟨hfrees, hview⟩ := ih hrest
    rw [map_cons, replay_cons, hview, hrename, replay_cons]
    refine ⟨⟨⟨notebookId, rename.1, rename.2, rfl, ?_, ?_⟩, hfrees⟩, rfl⟩
    · intro hnone
      rw [diskView, hnone] at hold
      exact hold rfl
    · exact Option.map_eq_none_iff.mp hfree

/-- If no rename starts at a folder at which a pending rename starts, a flush renames
every folder onto a free destination and leaves the folders of the state on the disk. -/
theorem mirrors_of_edits {localeCompare : Text → Text → ℤ} {first e : Editing} {disk : Disk}
    (edits : Edits localeCompare (fun e action => startsAfresh localeCompare e action = true)
      first e) (hdistinct : first.state.CleanNamesDistinct) (hmirrors : Mirrors first.state disk)
    (htasks : first.tasks = []) (hidle : first.writer.inFlight = []) :
    ∃ w : Writer ScriptTask, e.writer.steps e.writer.flushEvents = some w ∧
      w.executions = e.writer.executions ++ e.tasks ∧ RenamesOntoFree e.tasks disk ∧
      Mirrors e.state (replay executeTask e.tasks disk) := by
  obtain ⟨hinFlight, hid, -, renames, hpending, hvacant, hview⟩ :=
    pending_of_edits edits hdistinct htasks
  obtain ⟨w, hw, hflushed⟩ := Writer.steps_flushEvents (hinFlight.trans hidle)
  rw [← hmirrors] at hvacant hview
  obtain ⟨hfrees, hdisk⟩ := renamesOntoFree_of_vacant hvacant
  refine ⟨w, hw, hflushed.executions, ?_⟩
  rw [hpending]
  refine ⟨hfrees, ?_⟩
  rw [Mirrors, hid, hdisk, hview]

/-! ## Two pages -/

/-- The order of names of ASCII letters and one digit. -/
def compareNames (a b : Text) : ℤ := if a < b then -1 else if a = b then 0 else 1

def twoPages : Editing where
  state :=
    { notebookId := ['n']
      scripts := (InsertionMap.empty.set 0 ⟨['1', '_', 'a'], ['A']⟩).set 1 ⟨['2', '_', 'b'], ['B']⟩
      scriptFolders :=
        (InsertionMap.empty.set ['1', '_', 'a']
            ⟨['1', '_', 'a'], InsertionMap.empty.set ['x'] 0⟩).set ['2', '_', 'b']
          ⟨['2', '_', 'b'], InsertionMap.empty.set ['x'] 1⟩
      scriptFocus := ⟨['1', '_', 'a']⟩ }
  writer := {}

def twoFolders : Disk where
  folders :=
    (InsertionMap.empty.set (['n'], ['1', '_', 'a']) (InsertionMap.empty.set ['x'] ['A'])).set
      (['n'], ['2', '_', 'b']) (InsertionMap.empty.set ['x'] ['B'])

theorem cleanNamesDistinct_twoPages : twoPages.state.CleanNamesDistinct := by
  unfold NotebookScripts.CleanNamesDistinct
  decide +kernel

theorem mirrors_twoPages : Mirrors twoPages.state twoFolders := by
  have hfiles : ∀ (text : ℕ → Option Text) (folderName sql : Text) (scriptId : ℕ),
      text scriptId = some sql →
      (InsertionMap.empty.set ['x'] sql).get? =
        ScriptFolder.files text ⟨folderName, InsertionMap.empty.set ['x'] scriptId⟩ := by
    intro text folderName sql scriptId htext
    funext fileName
    simp only [ScriptFolder.files, get?_set, get?_empty]
    split_ifs
    · exact htext.symm
    · rfl
  funext folderName
  simp only [diskView, NotebookScripts.view, viewOf, twoFolders, twoPages, get?_set,
    get?_empty, Prod.mk.injEq, true_and]
  split_ifs with hb ha
  · exact congrArg some (hfiles _ _ _ 1 (by decide +kernel))
  · exact congrArg some (hfiles _ _ _ 0 (by decide +kernel))
  · rfl

/-- A swap of two pages is on the disk after a flush. -/
theorem mirrors_swap :
    ∃ e : Editing, e.state.scriptFolders.keys = [['1', '_', 'b'], ['2', '_', 'a']] ∧
      ∃ w : Writer ScriptTask, e.writer.steps e.writer.flushEvents = some w ∧
        w.executions = e.writer.executions ++ e.tasks ∧ RenamesOntoFree e.tasks twoFolders ∧
        Mirrors e.state (replay executeTask e.tasks twoFolders) :=
  ⟨_, by decide +kernel,
    mirrors_of_edits
      (.step (.reorderScriptFolders [['2', '_', 'b']]) (@Edits.start compareNames _ _)
        (by decide +kernel))
      cleanNamesDistinct_twoPages mirrors_twoPages (by decide +kernel) (by decide +kernel)⟩

/-- Two pages are swapped, swapped back and swapped again before a flush: the last two
renames are written in the place of the first two, and the flush undoes them. -/
theorem swap_lost :
    ∃ e : Editing, Edits compareNames (fun _ _ => True) twoPages e ∧
      twoPages.state.CleanNamesDistinct ∧ Mirrors twoPages.state twoFolders ∧
      twoPages.tasks = [] ∧
      e.state.scriptFolders.keys = [['1', '_', 'b'], ['2', '_', 'a']] ∧
      (replay executeTask e.tasks twoFolders).folders.keys =
        [(['n'], ['1', '_', 'a']), (['n'], ['2', '_', 'b'])] ∧
      ¬ Mirrors e.state (replay executeTask e.tasks twoFolders) := by
  refine ⟨_, .step (.reorderScriptFolders [['2', '_', 'b']])
    (.step (.reorderScriptFolders [['2', '_', 'a']])
      (.step (.reorderScriptFolders [['2', '_', 'b']]) .start trivial) trivial) trivial,
    cleanNamesDistinct_twoPages, mirrors_twoPages, by decide +kernel, by decide +kernel, by decide +kernel, ?_⟩
  intro hmirrors
  have hview := congrArg Option.isSome (congrFun hmirrors ['1', '_', 'b'])
  revert hview
  decide +kernel

end DashQL.Notebook
