import DashQL.Library.Relabel
import DashQL.Notebook.Names

/-!
# What an action does to the folders

Seen as a map from folder names to the files of a page, a notebook changes by the
folder renames that its actions write, and by nothing else: the state after an
action is what these renames make of the state before (`Moved`).  Every rename
goes to a free name, since pages keep their clean names when they are moved and a
page that is renamed gets a new one.
-/

namespace DashQL.Notebook

open List

open Storage

/-! ## Pages as files -/

def NotebookScripts.text (state : NotebookScripts) (scriptId : ℕ) : Option Text :=
  (state.scripts.get? scriptId).map ScriptData.sql

def ScriptFolder.files (text : ℕ → Option Text) (page : ScriptFolder) : Text → Option Text :=
  fun fileName => (page.scripts.get? fileName).bind text

def viewOf (text : ℕ → Option Text) (pages : InsertionMap Text ScriptFolder) :
    Text → Option (Text → Option Text) :=
  fun folderName => (pages.get? folderName).map (ScriptFolder.files text)

/-- The pages of a notebook, as files. -/
def NotebookScripts.view (state : NotebookScripts) : Text → Option (Text → Option Text) :=
  viewOf state.text state.scriptFolders

/-- The clean names of the pages are pairwise distinct. -/
def NotebookScripts.CleanNamesDistinct (state : NotebookScripts) : Prop :=
  (state.scriptFolders.keys.map normalizeScriptFolderName).Nodup

theorem view_ne_none_iff {state : NotebookScripts} {folder : Text} :
    state.view folder ≠ none ↔ folder ∈ state.scriptFolders.keys := by
  rw [InsertionMap.mem_keys_iff, NotebookScripts.view, viewOf, ne_eq, Option.map_eq_none_iff]
  exact Option.ne_none_iff_exists'

theorem labelled_view {state : NotebookScripts} (h : state.CleanNamesDistinct) :
    Labelled normalizeScriptFolderName state.view := by
  intro folder folder' hfolder hfolder' heq
  exact inj_on_of_nodup_map h (view_ne_none_iff.mp hfolder) (view_ne_none_iff.mp hfolder') heq

theorem viewOf_set (text : ℕ → Option Text) (pages : InsertionMap Text ScriptFolder)
    (folder : Text) (page : ScriptFolder) :
    viewOf text (pages.set folder page) =
      Function.update (viewOf text pages) folder (some (page.files text)) := by
  funext probe
  rw [viewOf, InsertionMap.get?_set, Function.update_apply]
  split_ifs <;> rfl

theorem get?_moveScripts (page : ScriptFolder) (newFolder : Text)
    (scripts : InsertionMap ℕ ScriptData) (scriptId : ℕ) :
    ((moveScripts page newFolder scripts).get? scriptId).map ScriptData.sql =
      (scripts.get? scriptId).map ScriptData.sql := by
  unfold moveScripts
  induction page.scripts.values generalizing scripts with
  | nil => rfl
  | cons moved ids ih =>
    rw [foldl_cons, ih]
    cases hmoved : scripts.get? moved with
    | none => rfl
    | some scriptData =>
      rw [InsertionMap.get?_set]
      split_ifs with hsame
      · rw [hsame, hmoved]
        rfl
      · rfl

/-! ## One pass -/

/-- Where the pages of a pass go. -/
def moves (total : ℕ) (entries : List (Text × ℕ)) : List (Text × Text) :=
  entries.map fun entry =>
    (entry.1, formatScriptFolderOrderPrefix (entry.2 + 1) total ++ normalizeScriptFolderName entry.1)

theorem foldl_reprefixPage (total : ℕ) (state : NotebookScripts) (text : ℕ → Option Text)
    (entries : List (Text × ℕ)) (done : Reprefixed)
    (hpages : ∀ entry ∈ entries, entry.1 ∈ state.scriptFolders.keys) :
    (entries.foldl (reprefixPage total state) done).renames =
        done.renames ++ (moves total entries).filter (fun move => move.1 ≠ move.2) ∧
      viewOf text (entries.foldl (reprefixPage total state) done).newPages =
        (moves total entries).foldl
          (fun gathered move =>
            Function.update gathered move.2 (viewOf text state.scriptFolders move.1))
          (viewOf text done.newPages) ∧
      ∀ scriptId,
        ((entries.foldl (reprefixPage total state) done).newScripts.get? scriptId).map
            ScriptData.sql =
          (done.newScripts.get? scriptId).map ScriptData.sql := by
  induction entries generalizing done with
  | nil => simp [moves]
  | cons entry entries ih =>
    simp only [mem_cons, forall_eq_or_imp] at hpages
    obtain ⟨page, hpage⟩ := InsertionMap.mem_keys_iff.mp hpages.1
    obtain ⟨hrenames, hview, htext⟩ := ih (reprefixPage total state done entry) hpages.2
    have hfound : viewOf text state.scriptFolders entry.1 = some (page.files text) := by
      rw [viewOf, hpage]
      rfl
    rw [foldl_cons, hrenames, hview]
    simp only [moves, map_cons, foldl_cons, hfound]
    refine ⟨?_, ?_, ?_⟩
    · rw [reprefixPage]
      simp only [hpage]
      split_ifs with hsame
      · simp [hsame]
      · have hmoves : entry.1 ≠ formatScriptFolderOrderPrefix (entry.2 + 1) total ++
            normalizeScriptFolderName entry.1 := fun h => hsame h.symm
        rw [filter_cons_of_pos (by simpa using hmoves)]
        simp
    · rw [reprefixPage]
      simp only [hpage]
      split_ifs with hsame
      · rw [viewOf_set, hsame]
      · rw [viewOf_set]
        rfl
    · intro scriptId
      rw [htext, reprefixPage]
      simp only [hpage]
      split_ifs
      · rfl
      · exact get?_moveScripts page _ done.newScripts scriptId

/-! ## Moved pages -/

/-- A state whose pages were moved by renames, each from a page of its own onto a free
name. -/
structure Moved (state next : NotebookScripts) (renames : List (Text × Text)) : Prop where
  notebookId : next.notebookId = state.notebookId
  vacant : Vacant renames state.view
  view : next.view = replay relabel renames state.view
  labelled : Labelled normalizeScriptFolderName next.view
  nodup : (renames.map Prod.fst).Nodup

theorem moved_refl {state : NotebookScripts}
    (h : Labelled normalizeScriptFolderName state.view) : Moved state state [] :=
  ⟨rfl, trivial, rfl, h, nodup_nil⟩

/-- A pass over all pages moves them onto free names. -/
theorem moved_reprefixPages {state : NotebookScripts} {order : List Text}
    (h : Labelled normalizeScriptFolderName state.view) (hnodup : order.Nodup)
    (horder : ∀ folder, folder ∈ order ↔ folder ∈ state.scriptFolders.keys) :
    Moved state ((reprefixPages order state).getD (state, [])).1
        ((reprefixPages order state).getD (state, [])).2 ∧
      ∀ rename ∈ ((reprefixPages order state).getD (state, [])).2,
        rename.1 ∈ state.scriptFolders.keys := by
  have hsources : (moves order.length order.zipIdx).map Prod.fst = order := by
    rw [moves, map_map]
    exact zipIdx_map_fst 0 order
  have hpages : ∀ entry ∈ order.zipIdx, entry.1 ∈ state.scriptFolders.keys := by
    intro entry hentry
    exact (horder entry.1).mp (fst_mem_of_mem_zipIdx hentry)
  obtain ⟨hrenames, hview, htext⟩ := foldl_reprefixPage order.length state state.text order.zipIdx
    ⟨[], .empty, state.scripts⟩ hpages
  have hkeep : ∀ move ∈ moves order.length order.zipIdx,
      normalizeScriptFolderName move.2 = normalizeScriptFolderName move.1 := by
    intro move hmove
    obtain ⟨entry, -, rfl⟩ := mem_map.mp hmove
    exact normalize_format _ _ _
  obtain ⟨hvacant, hreplay⟩ := replay_relabel_of_labels h hkeep (hsources.symm ▸ hnodup)
    fun folder => by rw [hsources, horder, view_ne_none_iff]
  rw [nil_append] at hrenames
  unfold reprefixPages
  dsimp only
  split_ifs with hnone
  · exact ⟨moved_refl h, by simp⟩
  · rw [Option.getD_some]
    dsimp only
    rw [hrenames]
    have hnext : NotebookScripts.view
        { state with
          scriptFolders := (order.zipIdx.foldl (reprefixPage order.length state)
            ⟨[], .empty, state.scripts⟩).newPages
          scripts := (order.zipIdx.foldl (reprefixPage order.length state)
            ⟨[], .empty, state.scripts⟩).newScripts } =
        gather (moves order.length order.zipIdx) state.view := by
      unfold NotebookScripts.view
      have htext' : NotebookScripts.text
          { state with
            scriptFolders := (order.zipIdx.foldl (reprefixPage order.length state)
              ⟨[], .empty, state.scripts⟩).newPages
            scripts := (order.zipIdx.foldl (reprefixPage order.length state)
              ⟨[], .empty, state.scripts⟩).newScripts } = state.text := funext htext
      rw [htext', hview]
      rfl
    refine ⟨⟨rfl, hvacant, ?_, ?_, ?_⟩, ?_⟩
    · exact hnext.trans hreplay.symm
    · have hlabelled := labelled_replay h hvacant fun move hmove =>
        hkeep move (mem_of_mem_filter hmove)
      rw [hreplay, ← hnext] at hlabelled
      exact hlabelled
    · have hsub := (filter_sublist (p := fun move : Text × Text => decide (move.1 ≠ move.2))
        (l := moves order.length order.zipIdx)).map Prod.fst
      rw [hsources] at hsub
      exact hsub.nodup hnodup
    · intro rename hrename
      rw [← horder, ← hsources]
      exact mem_map_of_mem (mem_of_mem_filter hrename)

end DashQL.Notebook
