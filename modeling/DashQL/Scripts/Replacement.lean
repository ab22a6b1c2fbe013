import DashQL.Scripts.Snapshot

/-!
# Scripts after a replacement

While the loops of `replaceNotebookScriptsFromStorage` go over the files of a
snapshot, every file that they have seen has a script of its own: the one that was
at its path, with the text of the file, or a new one (`Restoring`).  In the end
these are all scripts with a path, and the notebook matches the snapshot
(`replaced`).
-/

namespace DashQL.Scripts

open List

open Storage Notebook

/-! ## Paths -/

/-- A path with one slash can only be read in one way. -/
theorem pathOf_inj {folder file folder' file' : Text} (hfolder : '/' ∉ folder) (hfile : '/' ∉ file)
    (h : pathOf folder' file' = pathOf folder file) : folder' = folder ∧ file' = file := by
  have hcount := congrArg (List.count '/') h
  rw [pathOf, pathOf, count_append, count_append, count_cons_self,
    count_cons_self, count_eq_zero.mpr hfolder, count_eq_zero.mpr hfile] at hcount
  have hfolder' : '/' ∉ folder' := count_eq_zero.mp (by omega)
  have hsplit : ∀ folder file : Text, '/' ∉ folder →
      (folder ++ '/' :: file).takeWhile (· ≠ '/') = folder ∧
        (folder ++ '/' :: file).dropWhile (· ≠ '/') = '/' :: file := by
    intro folder file hfolder
    have hall : ∀ c ∈ folder, decide (c ≠ '/') = true :=
      fun c hc => decide_eq_true fun heq => hfolder (heq ▸ hc)
    rw [takeWhile_append_of_pos hall, dropWhile_append_of_pos hall]
    simp
  rw [pathOf, pathOf] at h
  have hleft := hsplit folder' file' hfolder'
  rw [h, (hsplit folder file hfolder).1, (hsplit folder file hfolder).2] at hleft
  exact ⟨hleft.1.symm, (List.cons.inj hleft.2).2.symm⟩

/-- The files of a snapshot with the names of their folders. -/
def Snapshot.stored (snapshot : Snapshot) : List (Text × StoredScript) :=
  snapshot.folders.flatMap fun folder => folder.scripts.map fun stored => (folder.name, stored)

def storedPath (entry : Text × StoredScript) : Text := pathOf entry.1 entry.2.name

theorem files_eq_map_stored (snapshot : Snapshot) :
    snapshot.files = snapshot.stored.map fun entry => (storedPath entry, entry.2.sql) := by
  rw [Snapshot.files, Snapshot.stored, map_flatMap]
  refine congrArg (fun f => snapshot.folders.flatMap f) (funext fun folder => ?_)
  rw [map_map]
  rfl

section WellFormed

variable {snapshot : Snapshot} (h : snapshot.WellFormed)

include h

/-- The names of a stored file have no slash in them and are not empty. -/
theorem names_of_mem_stored {entry : Text × StoredScript} (hentry : entry ∈ snapshot.stored) :
    ('/' ∉ entry.1 ∧ '/' ∉ entry.2.name) ∧ entry.1 ≠ [] ∧ entry.2.name ≠ [] := by
  obtain ⟨folder, hfolder, hmem⟩ := mem_flatMap.mp hentry
  obtain ⟨stored, hstored, rfl⟩ := mem_map.mp hmem
  exact ⟨⟨h.folder_slash folder hfolder, h.file_slash folder hfolder stored hstored⟩,
    h.folder_ne_nil folder hfolder, h.file_ne_nil folder hfolder stored hstored⟩

theorem nodup_storedPaths : (snapshot.stored.map storedPath).Nodup := by
  have hnodup : (snapshot.stored.map fun entry => (entry.1, entry.2.name)).Nodup := by
    rw [Snapshot.stored, map_flatMap, nodup_flatMap]
    refine ⟨fun folder hfolder => ?_, ?_⟩
    · rw [map_map]
      have hnames := h.files folder hfolder
      have hpairs := hnames.map (f := fun name => (folder.name, name))
        (fun _ _ heq => (Prod.mk.inj heq).2)
      rw [map_map] at hpairs
      exact hpairs
    · have hfolders := pairwise_map.mp h.folders
      refine hfolders.imp fun {folder other} hne => ?_
      rw [Function.onFun, disjoint_left]
      intro pair hpair hpair'
      rw [map_map] at hpair hpair'
      obtain ⟨stored, -, rfl⟩ := mem_map.mp hpair
      obtain ⟨stored', -, heq⟩ := mem_map.mp hpair'
      exact hne (Prod.mk.inj heq).1.symm
  refine List.Nodup.map_on ?_ (List.Nodup.of_map _ hnodup)
  intro entry hentry other hother heq
  have hnames := (names_of_mem_stored h hother).1
  obtain ⟨hfolder, hfile⟩ := pathOf_inj hnames.1 hnames.2 heq
  exact inj_on_of_nodup_map hnodup hentry hother (Prod.ext hfolder hfile)

end WellFormed

/-! ## The scripts by path -/

variable {script : ScriptData}

section Existing

variable {state : NotebookScripts} (hstate : state.Consistent)

include hstate

theorem nodup_memoryScripts :
    (state.scripts.values.filter fun script => decide script.HasPath).Nodup := by
  have hkeys : state.scripts.values.map ScriptData.scriptKey = state.scripts.keys := by
    rw [InsertionMap.values, InsertionMap.keys, map_map]
    refine map_congr_left fun entry hentry => ?_
    exact hstate.keyed entry.1 entry.2 (InsertionMap.get?_eq_some_iff.mpr hentry)
  exact (List.Nodup.of_map _ (hkeys ▸ state.scripts.nodup_keys)).filter _

theorem get?_existingByPath {path : Text} :
    (existingByPath state).get? path = some script ↔
      script ∈ state.scripts.values ∧ script.HasPath ∧ script.path = path := by
  have hfilter : ∀ script : ScriptData,
      script ∈ state.scripts.values.filter (fun script => decide script.HasPath) ↔
        script ∈ state.scripts.values ∧ script.HasPath :=
    fun script => by rw [mem_filter, decide_eq_true_iff]
  have hfold : existingByPath state =
      ((state.scripts.values.filter fun script => decide script.HasPath).map
        fun script => (script.path, script)).foldl (fun m entry => m.set entry.1 entry.2) .empty := by
    rw [foldl_map]
    rfl
  have hvalues := nodup_memoryScripts hstate
  have hnodup : (((state.scripts.values.filter fun script => decide script.HasPath).map
      fun script => (script.path, script)).map Prod.fst).Nodup := by
    rw [map_map]
    refine List.Nodup.map_on ?_ hvalues
    intro script hscript other hother heq
    rw [hfilter] at hscript hother
    exact hstate.paths script hscript.1 other hother.1 hscript.2 hother.2 heq
  rw [hfold]
  constructor
  · intro hget
    by_cases hmem : path ∈ ((state.scripts.values.filter fun script => decide script.HasPath).map
        fun script => (script.path, script)).map Prod.fst
    · obtain ⟨entry, hentry, rfl⟩ := mem_map.mp hmem
      obtain ⟨other, hother, rfl⟩ := mem_map.mp hentry
      rw [InsertionMap.get?_foldl_set_of_mem hnodup hentry] at hget
      obtain rfl := Option.some.inj hget
      exact ⟨((hfilter _).mp hother).1, ((hfilter _).mp hother).2, rfl⟩
    · rw [InsertionMap.get?_foldl_set_of_not_mem hmem] at hget
      exact absurd hget (Option.some_ne_none script).symm
  · rintro ⟨hmem, hpath, rfl⟩
    refine InsertionMap.get?_foldl_set_of_mem hnodup ?_
    exact mem_map_of_mem ((hfilter script).mpr ⟨hmem, hpath⟩)

theorem path_eq_of_scriptKey_eq {path path' : Text} {script' : ScriptData}
    (h : (existingByPath state).get? path = some script)
    (h' : (existingByPath state).get? path' = some script')
    (hkey : script.scriptKey = script'.scriptKey) : path = path' := by
  obtain ⟨hmem, -, rfl⟩ := (get?_existingByPath hstate).mp h
  obtain ⟨hmem', -, rfl⟩ := (get?_existingByPath hstate).mp h'
  obtain ⟨key, hget⟩ := InsertionMap.mem_values_iff.mp hmem
  obtain ⟨key', hget'⟩ := InsertionMap.mem_values_iff.mp hmem'
  rw [hstate.keyed key script hget, hstate.keyed key' script' hget'] at hkey
  rw [hkey, hget'] at hget
  rw [Option.some.inj hget]

theorem scriptKey_mem_keys {path : Text} (h : (existingByPath state).get? path = some script) :
    state.scripts.get? script.scriptKey = some script := by
  obtain ⟨hmem, -, -⟩ := (get?_existingByPath hstate).mp h
  obtain ⟨key, hget⟩ := InsertionMap.mem_values_iff.mp hmem
  rwa [hstate.keyed key script hget]

end Existing

/-! ## The loops -/

section Loops

variable {freshKey : ℕ → ℕ} {state : NotebookScripts}

/-- The script that a stored file has in the end: the one that was at its path, or a new one. -/
structure Restored (freshKey : ℕ → ℕ) (state : NotebookScripts) (created : ℕ)
    (entry : Text × StoredScript) (script : ScriptData) : Prop where
  folderName : script.folderName = entry.1
  fileName : script.fileName = entry.2.name
  text : script.text = entry.2.sql
  existing : ∀ old, (existingByPath state).get? (storedPath entry) = some old →
    script.scriptKey = old.scriptKey ∧ (old.text = entry.2.sql → script = old)
  fresh : (existingByPath state).get? (storedPath entry) = none →
    ∃ i < created, script.scriptKey = freshKey i

variable {created : ℕ}

theorem Restored.mono {created' : ℕ} {entry : Text × StoredScript}
    (h : Restored freshKey state created entry script) (hle : created ≤ created') :
    Restored freshKey state created' entry script where
  folderName := h.folderName
  fileName := h.fileName
  text := h.text
  existing := h.existing
  fresh hnone := by
    obtain ⟨i, hi, hkey⟩ := h.fresh hnone
    exact ⟨i, lt_of_lt_of_le hi hle, hkey⟩

/-- The loops after some files: these files have scripts, and the scripts at other paths wait. -/
structure Restoring (freshKey : ℕ → ℕ) (state : NotebookScripts) (work : Replacing)
    (done : List (Text × StoredScript)) (scripts : List ScriptData) : Prop where
  waiting : ∀ path, path ∉ done.map storedPath →
    work.existingByPath.get? path = (existingByPath state).get? path
  entries : work.scripts.entries = scripts.map fun script => (script.scriptKey, script)
  restored : List.Forall₂ (Restored freshKey state work.created) done scripts

variable {done : List (Text × StoredScript)} {scripts : List ScriptData}

theorem exists_stored (h : List.Forall₂ (Restored freshKey state created) done scripts)
    (hmem : script ∈ scripts) : ∃ entry ∈ done, Restored freshKey state created entry script := by
  induction h with
  | nil => exact absurd hmem not_mem_nil
  | @cons entry first done scripts hfirst _ ih =>
    rcases mem_cons.mp hmem with rfl | hrest
    · exact ⟨entry, mem_cons_self, hfirst⟩
    · obtain ⟨other, hother, hrestored⟩ := ih hrest
      exact ⟨other, mem_cons_of_mem entry hother, hrestored⟩

theorem exists_restored (h : List.Forall₂ (Restored freshKey state created) done scripts)
    {entry : Text × StoredScript} (hmem : entry ∈ done) :
    ∃ script ∈ scripts, Restored freshKey state created entry script := by
  induction h with
  | nil => exact absurd hmem not_mem_nil
  | @cons first script done scripts hfirst _ ih =>
    rcases mem_cons.mp hmem with rfl | hrest
    · exact ⟨script, mem_cons_self, hfirst⟩
    · obtain ⟨other, hother, hrestored⟩ := ih hrest
      exact ⟨other, mem_cons_of_mem script hother, hrestored⟩

theorem Restored.scriptKey_ne (hstate : state.Consistent) (hkeys : FreshKeys freshKey state)
    {created' : ℕ} {entry other : Text × StoredScript} {script' : ScriptData}
    (h : Restored freshKey state created entry script)
    (h' : Restored freshKey state created' other script')
    (hpath : storedPath entry ≠ storedPath other)
    (hnew : (existingByPath state).get? (storedPath other) = none →
      script'.scriptKey = freshKey created) : script.scriptKey ≠ script'.scriptKey := by
  intro heq
  have hforeign : ∀ i path old, (existingByPath state).get? path = some old →
      old.scriptKey ≠ freshKey i := by
    intro i path old hold hkey
    refine hkeys.fresh i (InsertionMap.mem_keys_iff.mpr ⟨old, ?_⟩)
    rw [← hkey]
    exact scriptKey_mem_keys hstate hold
  cases hold : (existingByPath state).get? (storedPath entry) with
  | some old =>
    have hkey := (h.existing old hold).1
    cases hold' : (existingByPath state).get? (storedPath other) with
    | some old' =>
      have hkey' := (h'.existing old' hold').1
      exact hpath (path_eq_of_scriptKey_eq hstate hold hold' (by rw [← hkey, heq, hkey']))
    | none =>
      obtain ⟨i, -, hkey'⟩ := h'.fresh hold'
      exact hforeign i _ old hold (by rw [← hkey, heq, hkey'])
  | none =>
    obtain ⟨i, hi, hkey⟩ := h.fresh hold
    cases hold' : (existingByPath state).get? (storedPath other) with
    | some old' =>
      exact hforeign i _ old' hold' (by rw [← (h'.existing old' hold').1, ← heq, hkey])
    | none =>
      rw [hkey, hnew hold'] at heq
      exact absurd (hkeys.injective heq) hi.ne

variable {work : Replacing}

section

variable (hstate : state.Consistent)

include hstate

/-- One more file. -/
theorem Restoring.step (hkeys : FreshKeys freshKey state)
    (h : Restoring freshKey state work done scripts) {pageName : Text} {stored : StoredScript}
    (hslash : '/' ∉ pageName ∧ '/' ∉ stored.name)
    (hpath : storedPath (pageName, stored) ∉ done.map storedPath)
    (pageScripts : InsertionMap Text ScriptRef) :
    (∃ script, Restoring freshKey state (replaceScript freshKey pageName (work, pageScripts) stored).1
        (done ++ [(pageName, stored)]) (scripts ++ [script])) ∧
      (replaceScript freshKey pageName (work, pageScripts) stored).1.scriptFolders =
        work.scriptFolders := by
  have hget := h.waiting _ hpath
  have hne : ∀ path, path ∉ (done ++ [(pageName, stored)]).map storedPath →
      path ∉ done.map storedPath ∧ path ≠ storedPath (pageName, stored) := by
    intro path hnot
    rw [map_append, mem_append, not_or] at hnot
    exact ⟨hnot.1, fun heq => hnot.2 (mem_singleton.mpr heq)⟩
  -- a script that is restored goes behind the others
  have happend : ∀ created script, work.created ≤ created →
      Restored freshKey state created (pageName, stored) script →
      ((existingByPath state).get? (storedPath (pageName, stored)) = none →
        script.scriptKey = freshKey work.created) →
      (work.scripts.set script.scriptKey script).entries =
          (scripts ++ [script]).map (fun script => (script.scriptKey, script)) ∧
        List.Forall₂ (Restored freshKey state created) (done ++ [(pageName, stored)])
          (scripts ++ [script]) := by
    intro created script hle hscript hnew
    have hfresh : script.scriptKey ∉ work.scripts.keys := by
      rw [InsertionMap.keys, h.entries, map_map]
      intro hmem
      obtain ⟨other, hother, hkey⟩ := mem_map.mp hmem
      obtain ⟨entry, hentry, hrestored⟩ := exists_stored h.restored hother
      refine hrestored.scriptKey_ne hstate hkeys hscript (fun heq => hpath ?_) hnew hkey
      rw [← heq]
      exact mem_map_of_mem hentry
    constructor
    · rw [InsertionMap.set_of_not_mem hfresh, h.entries, map_append]
      rfl
    · exact rel_append (h.restored.imp fun _ _ hrest => hrest.mono hle) (.cons hscript .nil)
  have hwork : work.existingByPath.get? (pathOf pageName stored.name) =
      (existingByPath state).get? (storedPath (pageName, stored)) := hget
  cases hold : (existingByPath state).get? (storedPath (pageName, stored)) with
  | some old =>
    rw [hold] at hwork
    have hnames : old.folderName = pageName ∧ old.fileName = stored.name :=
      pathOf_inj hslash.1 hslash.2 ((get?_existingByPath hstate).mp hold).2.2
    have hscript : Restored freshKey state work.created (pageName, stored)
        (if old.text ≠ stored.sql then { old with text := stored.sql } else old) := by
      by_cases hsame : old.text = stored.sql
      · rw [if_neg (not_not.mpr hsame)]
        refine ⟨hnames.1, hnames.2, hsame, fun old' hold' => ?_, fun hnone => ?_⟩
        · obtain rfl := Option.some.inj (hold.symm.trans hold')
          exact ⟨rfl, fun _ => rfl⟩
        · exact absurd (hold.symm.trans hnone) (Option.some_ne_none old)
      · rw [if_pos hsame]
        refine ⟨hnames.1, hnames.2, rfl, fun old' hold' => ?_, fun hnone => ?_⟩
        · obtain rfl := Option.some.inj (hold.symm.trans hold')
          exact ⟨rfl, fun htext => absurd htext hsame⟩
        · exact absurd (hold.symm.trans hnone) (Option.some_ne_none old)
    obtain ⟨hentries, hrestored⟩ := happend work.created _ le_rfl hscript
      fun hnone => absurd (hold.symm.trans hnone) (Option.some_ne_none old)
    have hstep : (replaceScript freshKey pageName (work, pageScripts) stored).1 =
        { work with
          existingByPath := work.existingByPath.delete (pathOf pageName stored.name)
          scripts := work.scripts.set
            (if old.text ≠ stored.sql then { old with text := stored.sql } else old).scriptKey
            (if old.text ≠ stored.sql then { old with text := stored.sql } else old) } := by
      rw [replaceScript]
      simp only [hwork]
    rw [hstep]
    refine ⟨⟨_, fun path hnot => ?_, hentries, hrestored⟩, rfl⟩
    show (work.existingByPath.delete (storedPath (pageName, stored))).get? path = _
    rw [InsertionMap.get?_delete, if_neg (hne path hnot).2]
    exact h.waiting path (hne path hnot).1
  | none =>
    rw [hold] at hwork
    have hscript : Restored freshKey state (work.created + 1) (pageName, stored)
        ⟨freshKey work.created, stored.sql, stored.name, pageName⟩ := by
      refine ⟨rfl, rfl, rfl, fun old hsome => ?_, fun _ => ⟨work.created, Nat.lt_succ_self _, rfl⟩⟩
      exact absurd (hold.symm.trans hsome) (Option.some_ne_none old).symm
    obtain ⟨hentries, hrestored⟩ := happend (work.created + 1) _ (Nat.le_succ _) hscript
      fun _ => rfl
    have hstep : (replaceScript freshKey pageName (work, pageScripts) stored).1 =
        { work with
          scripts := work.scripts.set (freshKey work.created)
            ⟨freshKey work.created, stored.sql, stored.name, pageName⟩
          created := work.created + 1 } := by
      rw [replaceScript]
      simp only [hwork]
    rw [hstep]
    exact ⟨⟨_, fun path hnot => h.waiting path (hne path hnot).1, hentries, hrestored⟩, rfl⟩

theorem Restoring.page (hkeys : FreshKeys freshKey state) {pageName : Text}
    (hpage : '/' ∉ pageName) {files : List StoredScript}
    (hslash : ∀ stored ∈ files, '/' ∉ stored.name) (h : Restoring freshKey state work done scripts)
    (hnodup : ((done ++ files.map fun stored => (pageName, stored)).map storedPath).Nodup)
    (pageScripts : InsertionMap Text ScriptRef) :
    (∃ scripts', Restoring freshKey state
        (files.foldl (replaceScript freshKey pageName) (work, pageScripts)).1
        (done ++ files.map fun stored => (pageName, stored)) scripts') ∧
      (files.foldl (replaceScript freshKey pageName) (work, pageScripts)).1.scriptFolders =
        work.scriptFolders := by
  induction files generalizing work done scripts pageScripts with
  | nil =>
    rw [map_nil, append_nil]
    exact ⟨⟨scripts, h⟩, rfl⟩
  | cons stored files ih =>
    rw [map_cons, append_cons] at hnodup ⊢
    have hpath : storedPath (pageName, stored) ∉ done.map storedPath := by
      rw [map_append, map_append, nodup_append, nodup_append] at hnodup
      exact fun hmem => hnodup.1.2.2 _ hmem _ (mem_singleton_self _) rfl
    obtain ⟨⟨script, hstep⟩, hfolders⟩ := h.step hstate hkeys
      ⟨hpage, hslash stored mem_cons_self⟩ hpath pageScripts
    obtain ⟨hrest, hfolders'⟩ := ih (fun other hother => hslash other (mem_cons_of_mem _ hother))
      hstep hnodup (replaceScript freshKey pageName (work, pageScripts) stored).2
    exact ⟨hrest, hfolders'.trans hfolders⟩

theorem Restoring.pages (hkeys : FreshKeys freshKey state) {folders : List StoredFolder}
    (hfolder : ∀ folder ∈ folders, '/' ∉ folder.name)
    (hfile : ∀ folder ∈ folders, ∀ stored ∈ folder.scripts, '/' ∉ stored.name)
    (hproto : ∀ folder ∈ folders, folder.name ≠ "__proto__".toList)
    (h : Restoring freshKey state work done scripts)
    (hnodup : ((done ++ folders.flatMap fun folder => folder.scripts.map fun stored => (folder.name, stored)).map storedPath).Nodup)
    (hnames : (work.scriptFolders.keys ++ folders.map StoredFolder.name).Nodup) :
    (∃ scripts', Restoring freshKey state (folders.foldl (replacePage freshKey) work)
        (done ++ folders.flatMap fun folder => folder.scripts.map fun stored =>
          (folder.name, stored)) scripts') ∧
      (folders.foldl (replacePage freshKey) work).scriptFolders.keys =
        work.scriptFolders.keys ++ folders.map StoredFolder.name := by
  induction folders generalizing work done scripts with
  | nil =>
    rw [flatMap_nil, append_nil, map_nil, append_nil]
    exact ⟨⟨scripts, h⟩, rfl⟩
  | cons folder folders ih =>
    rw [flatMap_cons, ← append_assoc] at hnodup ⊢
    have hfront : ((done ++ folder.scripts.map fun stored => (folder.name, stored)).map
        storedPath).Nodup := by
      rw [map_append] at hnodup
      exact (nodup_append.mp hnodup).1
    obtain ⟨⟨scripts', hpage⟩, hfolders⟩ := h.page hstate hkeys
      (hfolder folder mem_cons_self) (hfile folder mem_cons_self) hfront .empty
    have hkeep : (replacePage freshKey work folder).scriptFolders.keys =
        work.scriptFolders.keys ++ [folder.name] := by
      have hnew : folder.name ∉ work.scriptFolders.keys := by
        rw [map_cons, nodup_append] at hnames
        exact fun hmem => hnames.2.2 _ hmem _ mem_cons_self rfl
      unfold replacePage
      dsimp only
      rw [hfolders, assignMember, if_neg (hproto folder mem_cons_self),
        InsertionMap.keys_set_of_not_mem hnew]
    have hwork : Restoring freshKey state (replacePage freshKey work folder)
        (done ++ folder.scripts.map fun stored => (folder.name, stored)) scripts' :=
      ⟨hpage.waiting, hpage.entries, hpage.restored⟩
    obtain ⟨hrest, hnames'⟩ := ih
      (fun other hother => hfolder other (mem_cons_of_mem _ hother))
      (fun other hother => hfile other (mem_cons_of_mem _ hother))
      (fun other hother => hproto other (mem_cons_of_mem _ hother)) hwork hnodup
      (by rwa [hkeep, append_assoc])
    refine ⟨hrest, hnames'.trans ?_⟩
    rw [hkeep, append_assoc]
    rfl

/-- The loops over a snapshot. -/
theorem restoring_snapshot (hkeys : FreshKeys freshKey state) {snapshot : Snapshot}
    (h : snapshot.WellFormed)
    (hproto : "__proto__".toList ∉ snapshot.folders.map StoredFolder.name) :
    (∃ scripts, Restoring freshKey state
        (snapshot.folders.foldl (replacePage freshKey) ⟨existingByPath state, .empty, .empty, 0⟩)
        snapshot.stored scripts) ∧
      (snapshot.folders.foldl (replacePage freshKey)
        ⟨existingByPath state, .empty, .empty, 0⟩).scriptFolders.keys =
          snapshot.folders.map StoredFolder.name := by
  have hstart : Restoring freshKey state ⟨existingByPath state, .empty, .empty, 0⟩ [] [] :=
    ⟨fun _ _ => rfl, rfl, .nil⟩
  refine hstart.pages hstate hkeys h.folder_slash h.file_slash (fun folder hfolder heq => ?_)
    (nodup_storedPaths h) h.folders
  exact hproto (heq ▸ mem_map_of_mem hfolder)

end

end Loops

end DashQL.Scripts
