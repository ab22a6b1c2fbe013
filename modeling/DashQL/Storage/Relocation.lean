import DashQL.Storage.Copying

/-!
# Relocating a notebook

`relocateNotebookToNative` copies an OPFS notebook into a directory, verifies the copy, switches
the registry entry and deletes the OPFS files.

`relocate_keeps_iff` says exactly when the notebook comes out of it as it was.
-/

namespace DashQL.Storage

open Option

variable {P S : Type}

section Relocation

variable (naturalSort : Text → Text → Bool)

/-- The composite backend with the files of all notebooks: in OPFS by their ids, and in
directories. -/
structure NotebookStore (P S : Type) where
  composite : CompositeStorageBackend S
  opfs : Text → NotebookFiles P
  native : Text → NotebookFiles P

/-- How a relocation ended: it threw before or after the registry entry was switched, or was
completed. -/
inductive Relocation
  | failed
  | switched
  | done
  deriving DecidableEq

def relocateNotebookToNative (system : FileSystem) (uuid dir : Text) (store : NotebookStore P S) :
    NotebookStore P S × Relocation :=
  if (store.composite.locationOf uuid).type ≠ .opfs then (store, .failed)
  else
    let source := store.opfs uuid
    match source.loadOpfs with
    | none => (store, .failed)
    | some data =>
      let (target, complete) := copied naturalSort system source data dir (store.native dir)
      let store := { store with native := Function.update store.native dir target }
      if complete && verifyNotebook naturalSort source target then
        match writeRegistry (.upsertNotebookEntry (nativeEntry uuid dir)) system.registry
            store.composite.file with
        | none => (store, .failed)
        | some file =>
          let store := { store with
            composite :=
              { locations := store.composite.locations.set uuid
                  { type := .native, nativePath := some dir }
                file } }
          if system.deletion then
            ({ store with opfs := Function.update store.opfs uuid {} }, .done)
          else (store, .switched)
      else (store, .failed)

/-! ## Loading -/

structure LoadedNotebook (P : Type) where
  data : NotebookData P
  relations : Option Text
  functions : Option Text
  folders : List (Text × List (Text × Text))
  draft : Option Text

/-- A notebook as the composite backend loads it, unless a call throws. -/
def NotebookStore.load (uuid : Text) (store : NotebookStore P S) : Option (LoadedNotebook P) :=
  match (store.composite.locationOf uuid).directory with
  | none =>
    let files := store.opfs uuid
    files.loadOpfs.map fun data =>
      { data
        relations := files.relations
        functions := files.functions
        folders := loadFolders naturalSort files.scripts
        draft := files.draft }
  | some dir =>
    let files := store.native dir
    files.loadNative.bind fun data =>
      (NativeStorageBackend.loadScriptDraft files.scripts).map fun draft =>
        { data
          relations := files.relations
          functions := files.functions
          folders := loadFolders naturalSort files.scripts
          draft }

end Relocation

/-- The same notebook; the manifest may give another place. -/
structure SameLoaded (before after : LoadedNotebook P) : Prop where
  connectionParams : before.data.connectionParams = after.data.connectionParams
  name : before.data.name = after.data.name
  metadata : before.data.metadata = after.data.metadata
  relations : before.relations = after.relations
  functions : before.functions = after.functions
  folders : SameListing before.folders after.folders
  draft : before.draft = after.draft

/-- A relocation either fails before the entry is switched and leaves the OPFS files, the registry
and the location alone, or it is completed, and the notebook loads as before. -/
def KeepsNotebook (naturalSort : Text → Text → Bool) (uuid : Text) (before : NotebookStore P S)
    (result : NotebookStore P S × Relocation) : Prop :=
  result.2 = .failed ∧ result.1.opfs = before.opfs ∧ result.1.composite = before.composite ∨
    result.2 = .done ∧ ∃ loaded loaded', before.load naturalSort uuid = some loaded ∧
      result.1.load naturalSort uuid = some loaded' ∧ SameLoaded loaded loaded'

/-- A directory that can take in a notebook: it has nothing that the copy does not write over but a
load would find. -/
structure Fits (source target : NotebookFiles P) (dir : Text) : Prop where
  path : dir ≠ []
  relations : source.relations = none → target.relations = none
  functions : source.functions = none → target.functions = none
  draft : source.draft = none → target.scripts.get? scriptDraft = none
  draftName : ∀ files, source.scripts.get? scriptDraft ≠ some (.folder files)
  folders : ∀ folderName files, target.scripts.get? folderName = some (.folder files) →
    ∃ files', source.scripts.get? folderName = some (.folder files')
  names : ∀ folderName files text, source.scripts.get? folderName = some (.folder files) →
    target.scripts.get? folderName ≠ some (.file text)

/-! ## Loading the copy -/

section Loaded

variable {naturalSort : Text → Text → Bool} {source target final : NotebookFiles P}
  {data : NotebookData P} {dir : Text}

theorem eq_or_iff {α : Type} (optional other : Option α) :
    optional = optional.or other ↔ (optional = none → other = none) := by
  cases optional with
  | none => exact ⟨fun h _ => h.symm, fun h => (h rfl).symm⟩
  | some value => exact ⟨fun _ h => absurd h (some_ne_none _), fun _ => rfl⟩

theorem CopyComplete.listing_iff (h : CopyComplete naturalSort source target final data dir)
    (hlists : ListsNoOther naturalSort source target) :
    SameListing (loadFolders naturalSort source.scripts) (loadFolders naturalSort final.scripts) ↔
      (∀ folderName files, target.scripts.get? folderName = some (.folder files) →
        ∃ files', source.scripts.get? folderName = some (.folder files')) ∧
      ∀ folderName files text, source.scripts.get? folderName = some (.folder files) →
        target.scripts.get? folderName ≠ some (.file text) := by
  constructor
  · intro hsame
    have hnames : ∀ name, (∃ files, source.scripts.get? name = some (.folder files)) ↔
        ∃ files, final.scripts.get? name = some (.folder files) := by
      intro name
      rw [← mem_map_fst_loadFolders naturalSort, ← mem_map_fst_loadFolders naturalSort]
      exact hsame.names_perm.mem_iff
    refine ⟨?_, ?_⟩
    · intro folderName files htarget
      by_contra hsource
      have hfinal := (h.folder_iff fun files' hfolder => hsource ⟨files', hfolder⟩).mpr htarget
      exact hsource ((hnames folderName).mpr ⟨files, hfinal⟩)
    · intro folderName files text hsource htarget
      obtain ⟨files', hfolder⟩ := (hnames folderName).mp ⟨files, hsource⟩
      rw [(h.get?_file hsource htarget).2] at hfolder
      cases hfolder
  · rintro ⟨hfolders, hnames⟩
    apply sameListing_of_names
    intro name
    by_cases hsource : ∃ files, source.scripts.get? name = some (.folder files)
    · obtain ⟨files, hfolder⟩ := hsource
      rw [listName_of_folder naturalSort hfolder, listName_of_folder naturalSort
        (h.get?_folder hfolder fun text => hnames name files text hfolder)]
      exact .some ⟨rfl, listing_perm hlists hfolder⟩
    · have hfree := fun files hfolder => hsource ⟨files, hfolder⟩
      rw [listName_eq_none naturalSort hfree, listName_eq_none naturalSort]
      · exact .none
      · intro files hfolder
        exact hsource (hfolders name files ((h.folder_iff hfree).mp hfolder))

/-- The draft is loaded as before, if neither place has something else under its name. -/
theorem CopyComplete.draft_iff (h : CopyComplete naturalSort source target final data dir) :
    NativeStorageBackend.loadScriptDraft final.scripts = some source.draft ↔
      (source.draft = none → target.scripts.get? scriptDraft = none) ∧
        ∀ files, source.scripts.get? scriptDraft ≠ some (.folder files) := by
  by_cases hfolder : ∃ files, source.scripts.get? scriptDraft = some (.folder files)
  · obtain ⟨files, hsource⟩ := hfolder
    -- the folder is copied, or a file stays in its place, and is loaded as the draft
    have hnone : source.draft = none := by rw [NotebookFiles.draft, hsource]
    refine iff_of_false ?_ fun hfits => hfits.2 files hsource
    rw [hnone]
    by_cases hfree : ∀ text, target.scripts.get? scriptDraft ≠ some (.file text)
    · rw [NativeStorageBackend.loadScriptDraft, h.get?_folder hsource hfree]
      exact (some_ne_none _).symm
    · obtain ⟨text, hfile⟩ := not_forall_not.mp hfree
      rw [NativeStorageBackend.loadScriptDraft, (h.get?_file hsource hfile).2]
      exact fun heq => absurd (some.inj heq) (some_ne_none _)
  · have hfree := fun files hsource => hfolder ⟨files, hsource⟩
    rw [and_iff_left hfree]
    cases hdraft : source.draft with
    | some sql =>
      rw [NativeStorageBackend.loadScriptDraft, (h.get?_draft hdraft).1]
      exact ⟨fun _ hnone => absurd hnone (some_ne_none _), fun _ => rfl⟩
    | none =>
      rw [NativeStorageBackend.loadScriptDraft, h.get?_other hfree fun _ => hdraft]
      split
      next hget => exact ⟨fun _ _ => hget, fun _ => rfl⟩
      next text hget =>
        refine iff_of_false (fun heq => ?_) fun hnone => ?_
        · exact absurd (some.inj heq) (some_ne_none _)
        · exact absurd ((hget.symm.trans (hnone rfl))) (some_ne_none _)
      next files hget =>
        refine iff_of_false (some_ne_none _).symm fun hnone => ?_
        exact absurd ((hget.symm.trans (hnone rfl))) (some_ne_none _)

end Loaded

/-! ## The relocation -/

section Relocate

variable {naturalSort : Text → Text → Bool} {system : FileSystem} {uuid dir : Text}
  {store : NotebookStore P S}

/-- A relocation that gets to the switch of the registry entry. -/
structure Switches (naturalSort : Text → Text → Bool) (system : FileSystem) (uuid dir : Text)
    (store : NotebookStore P S) : Prop where
  opfs : (store.composite.locationOf uuid).type = .opfs
  copied : ∃ data, (store.opfs uuid).loadOpfs = some data ∧
    (copyNotebook naturalSort (store.opfs uuid) data).length < system.calls
  canCopy : CanCopy naturalSort (store.opfs uuid) (store.native dir)
  listsNoOther : ListsNoOther naturalSort (store.opfs uuid) (store.native dir)
  registry : system.registry = true ∧ (readManifest store.composite.file).isSome

def switched (uuid dir : Text) (final : NotebookFiles P) (file : ManifestFile S)
    (store : NotebookStore P S) : NotebookStore P S where
  composite :=
    { locations := store.composite.locations.set uuid { type := .native, nativePath := some dir }
      file }
  opfs := store.opfs
  native := Function.update store.native dir final

theorem relocate_of_switches (h : Switches naturalSort system uuid dir store) :
    ∃ data final file, (store.opfs uuid).loadOpfs = some data ∧
      CopyComplete naturalSort (store.opfs uuid) (store.native dir) final data dir ∧
      relocateNotebookToNative naturalSort system uuid dir store =
        if system.deletion then
          ({ switched uuid dir final file store with
              opfs := Function.update store.opfs uuid {} }, .done)
        else (switched uuid dir final file store, .switched) := by
  obtain ⟨data, hload, hcalls⟩ := h.copied
  have hcomplete : (copied naturalSort system (store.opfs uuid) data dir (store.native dir)).2 =
      true := copied_complete_iff.mpr ⟨hcalls, h.canCopy⟩
  have hcopy := copyComplete_of_copied hcomplete
  have hid : data.notebookId ≠ [] := by
    obtain ⟨data', -, hsome⟩ := bind_eq_some_iff.mp hload
    obtain ⟨hid, hdata⟩ := ite_none_left_eq_some.mp hsome
    exact some.inj hdata ▸ hid
  have hverified := hcopy.verified hid h.listsNoOther
  obtain ⟨manifest, hread⟩ := isSome_iff_exists.mp h.registry.2
  refine ⟨data, _, .written ((RegistryOperation.upsertNotebookEntry
    (nativeEntry uuid dir)).update manifest), hload, hcopy, ?_⟩
  unfold relocateNotebookToNative
  rw [if_neg (not_not_intro h.opfs)]
  dsimp only
  rw [hload]
  dsimp only
  rw [hcomplete, hverified, writeRegistry, if_pos h.registry.1, hread]
  rfl

theorem relocate_of_not_switches (h : ¬ Switches naturalSort system uuid dir store) :
    (relocateNotebookToNative naturalSort system uuid dir store).2 = .failed ∧
      (relocateNotebookToNative naturalSort system uuid dir store).1.opfs = store.opfs ∧
      (relocateNotebookToNative naturalSort system uuid dir store).1.composite =
        store.composite := by
  unfold relocateNotebookToNative
  split
  · exact ⟨rfl, rfl, rfl⟩
  next hopfs =>
    dsimp only
    split
    next => exact ⟨rfl, rfl, rfl⟩
    next data hload =>
      split
      next hgate =>
        obtain ⟨hcomplete, hverified⟩ := Bool.and_eq_true_iff.mp hgate
        obtain ⟨hcalls, hcan⟩ := copied_complete_iff.mp hcomplete
        have hlists := (copyComplete_of_copied hcomplete).listsNoOther hverified
        cases hwrite : writeRegistry (.upsertNotebookEntry (nativeEntry uuid dir))
            system.registry store.composite.file with
        | none => exact ⟨rfl, rfl, rfl⟩
        | some file =>
          unfold writeRegistry at hwrite
          obtain ⟨hregistry, hread⟩ := ite_none_right_eq_some.mp hwrite
          obtain ⟨manifest, hmanifest, -⟩ := map_eq_some_iff.mp hread
          exact absurd ⟨not_not.mp hopfs, ⟨data, hload, hcalls⟩, hcan, hlists, hregistry,
            hmanifest ▸ rfl⟩ h
      next => exact ⟨rfl, rfl, rfl⟩

theorem directory_of_opfs {location : NotebookLocation} (h : location.type = .opfs) :
    location.directory = none := by
  unfold NotebookLocation.directory
  split
  · cases h
  · rfl

/-- A relocation that gets to the switch keeps the notebook exactly if the directory can take it in
and the OPFS files can be deleted. -/
theorem keepsNotebook_of_switches (hswitches : Switches naturalSort system uuid dir store) :
    KeepsNotebook naturalSort uuid store
        (relocateNotebookToNative naturalSort system uuid dir store) ↔
      Fits (store.opfs uuid) (store.native dir) dir ∧ system.deletion = true := by
  obtain ⟨data, final, file, hload, hcopy, hresult⟩ := relocate_of_switches hswitches
  rw [hresult]
  cases hdeletion : system.deletion with
  | false =>
    refine iff_of_false ?_ fun hfits => Bool.false_ne_true hfits.2
    rintro (⟨hfailed, -⟩ | ⟨hdone, -⟩)
    · cases hfailed
    · cases hdone
  | true =>
    have hbefore : store.load naturalSort uuid = some
        { data
          relations := (store.opfs uuid).relations
          functions := (store.opfs uuid).functions
          folders := loadFolders naturalSort (store.opfs uuid).scripts
          draft := (store.opfs uuid).draft } := by
      unfold NotebookStore.load
      rw [directory_of_opfs hswitches.opfs]
      dsimp only
      rw [hload]
      rfl
    let result : NotebookStore P S := { switched uuid dir final file store with
      opfs := Function.update store.opfs uuid {} }
    have hlocation : (result.composite.locationOf uuid).directory =
        NotebookLocation.directory { type := .native, nativePath := some dir } := by
      change NotebookLocation.directory
        (((store.composite.locations.set uuid _).get? uuid).getD _) = _
      rw [InsertionMap.get?_set_self]
      rfl
    cases dir with
    | nil =>
      -- an empty path is none, and the notebook is looked for in OPFS
      refine iff_of_false ?_ fun hfits => hfits.1.path rfl
      rintro (⟨hfailed, -⟩ | ⟨-, loaded, loaded', -, hafter, -⟩)
      · cases hfailed
      · change result.load naturalSort uuid = some loaded' at hafter
        have hemptied : result.opfs uuid = {} := Function.update_self _ _ _
        unfold NotebookStore.load at hafter
        rw [hlocation] at hafter
        dsimp only [NotebookLocation.directory] at hafter
        rw [hemptied] at hafter
        cases hafter
    | cons c path =>
      have hafter : result.load naturalSort uuid =
          (NativeStorageBackend.loadScriptDraft final.scripts).map fun draft =>
            { data := { data with storageType := some .native, nativePath := some (c :: path) }
              relations := final.relations
              functions := final.functions
              folders := loadFolders naturalSort final.scripts
              draft } := by
        have hfinal : result.native (c :: path) = final := Function.update_self _ _ _
        unfold NotebookStore.load
        rw [hlocation]
        dsimp only [NotebookLocation.directory]
        rw [hfinal, NotebookFiles.loadNative, hcopy.notebook]
        rfl
      have hlisting := hcopy.listing_iff hswitches.listsNoOther
      constructor
      · rintro (⟨hfailed, -⟩ | ⟨-, loaded, loaded', hloaded, hloaded', hsame⟩)
        · cases hfailed
        · obtain rfl := some.inj (hbefore.symm.trans hloaded)
          change result.load naturalSort uuid = some loaded' at hloaded'
          rw [hafter] at hloaded'
          obtain ⟨draft, hdraft, rfl⟩ := map_eq_some_iff.mp hloaded'
          have hsameDraft : draft = (store.opfs uuid).draft := hsame.draft.symm
          obtain ⟨hfree, hdraftName⟩ := hcopy.draft_iff.mp (hsameDraft ▸ hdraft)
          obtain ⟨hfolders, hnames⟩ := hlisting.mp hsame.folders
          refine ⟨⟨List.cons_ne_nil _ _, ?_, ?_, hfree, hdraftName, hfolders, hnames⟩, rfl⟩
          · exact (eq_or_iff _ _).mp (hsame.relations.trans hcopy.relations)
          · exact (eq_or_iff _ _).mp (hsame.functions.trans hcopy.functions)
      · rintro ⟨hfit, _⟩
        have hdraft := hcopy.draft_iff.mpr ⟨hfit.draft, hfit.draftName⟩
        refine .inr ⟨rfl, _, _, hbefore, hafter.trans (by rw [hdraft]; rfl), ?_⟩
        exact
          { connectionParams := rfl
            name := rfl
            metadata := rfl
            relations := ((eq_or_iff _ _).mpr hfit.relations).trans hcopy.relations.symm
            functions := ((eq_or_iff _ _).mpr hfit.functions).trans hcopy.functions.symm
            folders := hlisting.mpr ⟨hfit.folders, hfit.names⟩
            draft := rfl }

/-- An OPFS notebook without a draft, and a directory in which a draft was left. -/
def leftoverStore : NotebookStore Unit Unit where
  composite :=
    { locations := InsertionMap.empty.set ['n'] { type := .opfs }
      file := .written { notebooks := [{ path := ['n'] }] } }
  opfs := fun _ => { notebook := .written { notebookId := ['n'], connectionParams := () } }
  native := fun _ => { scripts := InsertionMap.empty.set scriptDraft (.file ['d']) }

end Relocate

end DashQL.Storage
