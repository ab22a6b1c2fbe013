import DashQL.Scripts.ReorderedViews

/-!
# The reorder actions

The two actions that reorder do what they are for if and only if no name is
requested that the object merely inherits (`honours_iff`).
-/

namespace DashQL.Scripts

open Storage Notebook Option
open InsertionMap (get?_set mem_keys_iff)

/-! ## The two loops -/

theorem lawful_reprefixing : reprefixing.Lawful where
  format_append := formatScriptFolderOrderPrefix_append
  clean_padNumber n width cleanName :=
    normalize_of_digits (padNumber_ne_nil n width) (fun _ hc => isDigit_of_mem_padNumber hc) cleanName
  text_follow newName page scripts scriptId := by
    show ((page.scripts.values.foldl _ scripts).get? scriptId).map ScriptData.text = _
    induction page.scripts.values generalizing scripts with
    | nil => rfl
    | cons entry entries ih =>
      rw [List.foldl_cons, ih]
      apply text_updateScript
      intro scriptData
      rfl

theorem lawful_reordering : reordering.Lawful where
  format_append := formatScriptOrderPrefix_append
  clean_padNumber := normalizeScriptName_padNumber
  text_follow newFile entry scripts scriptId := by
    apply text_updateScript
    intro scriptData
    rfl

@[simp] theorem scripts_moved (total : ℕ) (position : Text × ℕ) (page : ScriptFolder) :
    (reprefixing.moved total position page).scripts = page.scripts := by
  unfold Renumbering.moved
  split_ifs <;> rfl

@[simp] theorem scriptId_moved (total : ℕ) (position : Text × ℕ) (entry : ScriptRef) :
    (reordering.moved total position entry).scriptId = entry.scriptId := by
  unfold Renumbering.moved
  split_ifs <;> rfl

/-! ## Folders -/

section Actions

variable {localeCompare : Text → Text → ℤ} {state : NotebookScripts} {requested : List Text}

theorem focusedScript_eq_some_iff {scriptId : ℕ} :
    state.focusedScript = some scriptId ↔
      ∃ page entry, state.scriptFolders.get? state.scriptFocus.folderName = some page ∧
        page.scripts.get? state.scriptFocus.fileName = some entry ∧
        entry.scriptId = some scriptId := by
  rw [NotebookScripts.focusedScript]
  simp only [bind_eq_some_iff]
  constructor
  · rintro ⟨entry, ⟨page, hpage, hentry⟩, hid⟩
    exact ⟨page, entry, hpage, hentry, hid⟩
  · rintro ⟨page, entry, hpage, hentry, hid⟩
    exact ⟨entry, ⟨page, hpage, hentry⟩, hid⟩

abbrev reprefixed (localeCompare : Text → Text → ℤ) (requested : List Text)
    (state : NotebookScripts) : Renumbered ScriptFolder :=
  reprefixing.run (readMember state.scriptFolders inheritedFolder)
    (orderOf localeCompare state.scriptFolders inheritedFolder requested) state.scripts

theorem renumbers_reprefixed (localeCompare : Text → Text → ℤ) (requested : List Text)
    (state : NotebookScripts) :
    Renumbering.Renumbers reprefixing (readMember state.scriptFolders inheritedFolder)
      (orderOf localeCompare state.scriptFolders inheritedFolder requested) state.scripts
      (reprefixed localeCompare requested state) :=
  renumbers_orderOf lawful_reprefixing

theorem reorderScriptFolders_eq : reorderScriptFolders localeCompare requested state =
    if orderOf localeCompare state.scriptFolders inheritedFolder requested =
        viewOf localeCompare state.scriptFolders ∨
        (reprefixed localeCompare requested state).renames = [] then state
    else
      { state with
        scriptFolders := (reprefixed localeCompare requested state).newEntries
        scripts := (reprefixed localeCompare requested state).newScripts
        scriptFocus :=
          { state.scriptFocus with
            folderName := follow (reprefixed localeCompare requested state).renames
              state.scriptFocus.folderName } } := by
  rw [ite_or]
  unfold reorderScriptFolders getSortedScriptFolderNames
  dsimp only
  by_cases horder : orderOf localeCompare state.scriptFolders inheritedFolder requested =
      viewOf localeCompare state.scriptFolders
  · rw [if_pos horder, if_pos horder]
  · rw [if_neg horder, if_neg horder]
    unfold reprefixPages
    dsimp only
    by_cases hnone : (reprefixed localeCompare requested state).renames = []
    · rw [if_pos hnone, if_pos hnone]
      rfl
    · rw [if_neg hnone, if_neg hnone]
      rfl

theorem foldersReordered (hcompare : ComparesNumbers localeCompare)
    (hown : ∀ name ∈ requested, name ∈ objectPrototype → name ∈ state.scriptFolders.keys) :
    FoldersReordered localeCompare requested state
      (reorderScriptFolders localeCompare requested state) := by
  have hdone := renumbers_reprefixed localeCompare requested state
  rw [reorderScriptFolders_eq]
  by_cases hkept : orderOf localeCompare state.scriptFolders inheritedFolder requested =
      viewOf localeCompare state.scriptFolders ∨
      (reprefixed localeCompare requested state).renames = []
  · rw [if_pos hkept]
    have horder : orderOf localeCompare state.scriptFolders inheritedFolder requested =
        viewOf localeCompare state.scriptFolders :=
      hkept.elim id (orderOf_eq_view hown hcompare lawful_reprefixing hdone)
    rw [orderOf_eq hown] at horder
    exact ⟨reordered_refl nodup_view horder fun _ _ => rfl, fun _ => rfl, fun _ h => h⟩
  · rw [if_neg hkept]
    refine ⟨?_, hdone.text, fun scriptId hfocus => ?_⟩
    · refine reordered_renumbered hown hcompare lawful_reprefixing hdone fun name hname => ?_
      obtain ⟨page, hpage⟩ := mem_keys_iff.mp hname
      show ((reprefixed localeCompare requested state).newEntries.get? _).map _ = _
      rw [get?_renumbered hown hdone hpage, hpage, map_some, map_some, scripts_moved]
    · obtain ⟨page, entry, hpage, hentry, hid⟩ := focusedScript_eq_some_iff.mp hfocus
      have hmem := mem_keys_iff.mpr ⟨page, hpage⟩
      have hfollow : follow (reprefixed localeCompare requested state).renames
          state.scriptFocus.folderName = reprefixing.newName _ state.scriptFocus.folderName :=
        Renumbering.find?_renames hdone ((mem_orderOf hown).mpr hmem)
      refine focusedScript_eq_some_iff.mpr
        ⟨_, entry, (congrArg _ hfollow).trans (get?_renumbered hown hdone hpage), ?_, hid⟩
      rw [scripts_moved]
      exact hentry

theorem not_foldersReordered (hcompare : ComparesNumbers localeCompare) {name : Text}
    (hrequested : name ∈ requested) (hinherited : name ∈ objectPrototype)
    (hforeign : name ∉ state.scriptFolders.keys) :
    ¬ FoldersReordered localeCompare requested state
      (reorderScriptFolders localeCompare requested state) := by
  have hdone := renumbers_reprefixed localeCompare requested state
  rw [reorderScriptFolders_eq, if_neg]
  · intro h
    exact not_reordered_renumbered hrequested hinherited hforeign hcompare lawful_reprefixing hdone
      h.view
  · rintro (horder | hnone)
    · exact orderOf_ne_view hrequested hinherited hforeign horder
    · exact renames_ne_nil hrequested hinherited lawful_reprefixing hdone hnone

/-! ## Scripts -/

variable {page : ScriptFolder} {folderName : Text}

abbrev reordered (localeCompare : Text → Text → ℤ) (page : ScriptFolder) (requested : List Text)
    (state : NotebookScripts) : Renumbered ScriptRef :=
  reordering.run (readMember page.scripts inheritedRef)
    (orderOf localeCompare page.scripts inheritedRef requested) state.scripts

theorem renumbers_reordered (localeCompare : Text → Text → ℤ) (page : ScriptFolder)
    (requested : List Text) (state : NotebookScripts) :
    Renumbering.Renumbers reordering (readMember page.scripts inheritedRef)
      (orderOf localeCompare page.scripts inheritedRef requested) state.scripts
      (reordered localeCompare page requested state) :=
  renumbers_orderOf lawful_reordering

def reorderedPage (localeCompare : Text → Text → ℤ) (page : ScriptFolder) (requested : List Text)
    (state : NotebookScripts) : ScriptFolder :=
  if orderOf localeCompare page.scripts inheritedRef requested =
      viewOf localeCompare page.scripts ∨
      (reordered localeCompare page requested state).renames = [] then page
  else { page with scripts := (reordered localeCompare page requested state).newEntries }

theorem reorderPage_eq : reorderPage localeCompare page requested state =
    if orderOf localeCompare page.scripts inheritedRef requested =
        viewOf localeCompare page.scripts ∨
        (reordered localeCompare page requested state).renames = [] then state
    else
      { state with
        scriptFolders := state.scriptFolders.set page.folderName
          { page with scripts := (reordered localeCompare page requested state).newEntries }
        scripts := (reordered localeCompare page requested state).newScripts
        scriptFocus :=
          if state.scriptFocus.folderName = page.folderName then
            { state.scriptFocus with
              fileName := follow (reordered localeCompare page requested state).renames
                state.scriptFocus.fileName }
          else state.scriptFocus } := by
  rw [ite_or]
  rfl

theorem get?_reorderPage (hpage : state.scriptFolders.get? folderName = some page)
    (hname : page.folderName = folderName) (other : Text) :
    (reorderPage localeCompare page requested state).scriptFolders.get? other =
      if other = folderName then some (reorderedPage localeCompare page requested state)
      else state.scriptFolders.get? other := by
  rw [reorderPage_eq, reorderedPage]
  by_cases hkept : orderOf localeCompare page.scripts inheritedRef requested =
      viewOf localeCompare page.scripts ∨
      (reordered localeCompare page requested state).renames = []
  · rw [if_pos hkept, if_pos hkept]
    split_ifs with hother
    · rw [hother, hpage]
    · rfl
  · rw [if_neg hkept, if_neg hkept, hname]
    exact get?_set

/-- The script in focus is found under its new name. -/
theorem focusedScript_reorderPage
    (hpage : state.scriptFolders.get? folderName = some page) (hname : page.folderName = folderName)
    (hown : ∀ name ∈ requested, name ∈ objectPrototype → name ∈ page.scripts.keys) {scriptId : ℕ}
    (hfocus : state.focusedScript = some scriptId) :
    (reorderPage localeCompare page requested state).focusedScript = some scriptId := by
  have hdone := renumbers_reordered localeCompare page requested state
  obtain ⟨focused, entry, hfocused, hentry, hid⟩ := focusedScript_eq_some_iff.mp hfocus
  refine focusedScript_eq_some_iff.mpr ?_
  rw [get?_reorderPage hpage hname, reorderedPage]
  by_cases hkept : orderOf localeCompare page.scripts inheritedRef requested =
      viewOf localeCompare page.scripts ∨
      (reordered localeCompare page requested state).renames = []
  · rw [reorderPage_eq, if_pos hkept, if_pos hkept]
    refine ⟨focused, entry, ?_, hentry, hid⟩
    split_ifs with hfolder
    · rw [← hpage, ← hfolder, hfocused]
    · exact hfocused
  · rw [reorderPage_eq, if_neg hkept, if_neg hkept]
    dsimp only
    by_cases hfolder : state.scriptFocus.folderName = page.folderName
    · obtain rfl : page = focused := by
        rw [hfolder, hname, hpage] at hfocused
        exact some.inj hfocused
      have hmem := mem_keys_iff.mpr ⟨entry, hentry⟩
      have hfollow : follow (reordered localeCompare page requested state).renames
          state.scriptFocus.fileName = reordering.newName _ state.scriptFocus.fileName :=
        Renumbering.find?_renames hdone ((mem_orderOf hown).mpr hmem)
      rw [if_pos hfolder]
      refine ⟨_, _, if_pos (hfolder.trans hname),
        (congrArg _ hfollow).trans (get?_renumbered hown hdone hentry), ?_⟩
      rw [scriptId_moved, hid]
    · rw [if_neg hfolder]
      exact ⟨focused, entry, (if_neg fun h => hfolder (h.trans hname.symm)).trans hfocused, hentry,
        hid⟩

theorem scriptsReordered (hcompare : ComparesNumbers localeCompare)
    (hpage : state.scriptFolders.get? folderName = some page) (hname : page.folderName = folderName)
    (hown : ∀ name ∈ requested, name ∈ objectPrototype → name ∈ page.scripts.keys) :
    ScriptsReordered localeCompare folderName requested page
      (reorderedPage localeCompare page requested state) state
      (reorderPage localeCompare page requested state) where
  folder := by rw [get?_reorderPage hpage hname, if_pos rfl]
  others other hother := by rw [get?_reorderPage hpage hname, if_neg hother]
  view := by
    have hdone := renumbers_reordered localeCompare page requested state
    rw [reorderedPage]
    by_cases hkept : orderOf localeCompare page.scripts inheritedRef requested =
        viewOf localeCompare page.scripts ∨
        (reordered localeCompare page requested state).renames = []
    · have horder : orderOf localeCompare page.scripts inheritedRef requested =
          viewOf localeCompare page.scripts :=
        hkept.elim id (orderOf_eq_view hown hcompare lawful_reordering hdone)
      rw [orderOf_eq hown] at horder
      rw [if_pos hkept]
      exact reordered_refl nodup_view horder fun _ _ => rfl
    · rw [if_neg hkept]
      refine reordered_renumbered hown hcompare lawful_reordering hdone fun name hmem => ?_
      obtain ⟨entry, hentry⟩ := mem_keys_iff.mp hmem
      show ((reordered localeCompare page requested state).newEntries.get? _).map _ = _
      rw [get?_renumbered hown hdone hentry, hentry, map_some, map_some, scriptId_moved]
  text scriptId := by
    rw [reorderPage_eq]
    by_cases hkept : orderOf localeCompare page.scripts inheritedRef requested =
        viewOf localeCompare page.scripts ∨
        (reordered localeCompare page requested state).renames = []
    · rw [if_pos hkept]
    · rw [if_neg hkept]
      exact (renumbers_reordered localeCompare page requested state).text scriptId
  focus _ hfocus := focusedScript_reorderPage hpage hname hown hfocus

theorem not_scriptsReordered (hcompare : ComparesNumbers localeCompare)
    (hpage : state.scriptFolders.get? folderName = some page)
    (hname : page.folderName = folderName) {name : Text} (hrequested : name ∈ requested)
    (hinherited : name ∈ objectPrototype) (hforeign : name ∉ page.scripts.keys)
    (page' : ScriptFolder) :
    ¬ ScriptsReordered localeCompare folderName requested page page' state
      (reorderPage localeCompare page requested state) := by
  have hdone := renumbers_reordered localeCompare page requested state
  intro h
  have hfolder := h.folder
  rw [get?_reorderPage hpage hname, if_pos rfl, reorderedPage, if_neg] at hfolder
  · obtain rfl := some.inj hfolder
    exact not_reordered_renumbered hrequested hinherited hforeign hcompare lawful_reordering hdone
      h.view
  · rintro (horder | hnone)
    · exact orderOf_ne_view hrequested hinherited hforeign horder
    · exact renames_ne_nil hrequested hinherited lawful_reordering hdone hnone

end Actions

/-- An action does what it is for exactly as long as the names that it requests are names of
entries when every object inherits them. -/
theorem honours_iff {localeCompare : Text → Text → ℤ} (hcompare : ComparesNumbers localeCompare)
    {state : NotebookScripts} (hkeyed : state.Keyed) (action : ReorderAction) :
    Honours localeCompare state action ↔ OnlyOwnNames state action := by
  cases action with
  | reorderScriptFolders requested =>
    constructor
    · rintro ⟨next, hnext, h⟩ name hrequested hinherited
      obtain rfl := some.inj hnext
      by_contra hforeign
      exact not_foldersReordered hcompare hrequested hinherited hforeign h
    · intro hown
      exact ⟨_, rfl, foldersReordered hcompare hown⟩
  | reorderScripts folderName requested =>
    constructor
    · intro h page hpage name hrequested hinherited
      obtain ⟨next, page', hnext, h⟩ := h page hpage
      rw [reduceReorder, hpage] at hnext
      obtain rfl := some.inj hnext
      by_contra hforeign
      exact not_scriptsReordered hcompare hpage (hkeyed _ _ hpage) hrequested hinherited hforeign
        page' h
    · intro hown page hpage
      refine ⟨_, _, ?_, scriptsReordered hcompare hpage (hkeyed _ _ hpage) (hown page hpage)⟩
      rw [reduceReorder, hpage]

/-! ## Two folders -/

def twoFolders : NotebookScripts where
  scripts := (InsertionMap.empty.set 1 ⟨1, "SELECT 1".toList, "1_x.sql".toList, "a".toList⟩).set 2
    ⟨2, "SELECT 2".toList, "1_x.sql".toList, "b".toList⟩
  scriptFolders :=
    (InsertionMap.empty.set "a".toList
        ⟨"a".toList, InsertionMap.empty.set "1_x.sql".toList ⟨some 1, "1_x.sql".toList⟩⟩).set
      "b".toList ⟨"b".toList, InsertionMap.empty.set "1_x.sql".toList ⟨some 2, "1_x.sql".toList⟩⟩
  uncommittedScriptId := 0
  scriptFocus := ⟨"a".toList, "1_x.sql".toList⟩

theorem keyed_twoFolders : twoFolders.Keyed := by
  intro name page hpage
  rw [twoFolders, get?_set, get?_set] at hpage
  split_ifs at hpage with hb ha
  · rw [hb, ← some.inj hpage]
  · rw [ha, ← some.inj hpage]
  · exact absurd hpage (some_ne_none page).symm

theorem honours_twoFolders : Honours numericCompare twoFolders
    (.reorderScriptFolders ["b".toList, "unknown".toList, "b".toList]) :=
  (honours_iff comparesNumbers_numericCompare keyed_twoFolders _).mpr
    (show ∀ name ∈ ["b".toList, "unknown".toList, "b".toList], name ∈ objectPrototype →
      name ∈ twoFolders.scriptFolders.keys by decide)

/-- The name of a method of every object passes for a folder. -/
theorem not_honours_toString : twoFolders.Keyed ∧
    ¬ Honours numericCompare twoFolders (.reorderScriptFolders ["toString".toList]) := by
  refine ⟨keyed_twoFolders, ?_⟩
  rintro ⟨next, hnext, h⟩
  obtain rfl := some.inj hnext
  exact not_foldersReordered comparesNumbers_numericCompare
    (show "toString".toList ∈ ["toString".toList] by decide) (by decide) (by decide) h

end DashQL.Scripts
