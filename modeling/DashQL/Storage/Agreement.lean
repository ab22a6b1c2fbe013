import DashQL.Library.Replay
import DashQL.Storage.Directories

/-!
# Two backends of one interface

The script operations of the OPFS backend and of the native backend, side by side on
notebooks with the same files.  `agree_step_iff` says when a step has the same outcome
on both and leaves the same files, and `backends_agree_of_run` what follows for a run.
-/

namespace DashQL.Storage

open List Option

/-! ## The same files -/

inductive SameEntry : ScriptsEntry → ScriptsEntry → Prop
  | file (text : Text) : SameEntry (.file text) (.file text)
  | folder {files files' : Folder} (h : ∀ name, files.get? name = files'.get? name) :
      SameEntry (.folder files) (.folder files')

/-- Scripts directories with the same files, listed in any order. -/
def SameScripts (scripts scripts' : ScriptsDir) : Prop :=
  ∀ name, Option.Rel SameEntry (scripts.get? name) (scripts'.get? name)

/-- An OPFS notebook and a native one with the same files.  The OPFS notebook has a directory, and
the name of the draft is not that of a folder. -/
structure SameNotebook (opfs : OpfsNotebook) (native : ScriptsDir) : Prop where
  same : ∃ scripts, opfs.scripts = some scripts ∧ SameScripts scripts native
  draft : ∀ files, native.get? scriptDraft ≠ some (.folder files)

theorem SameEntry.refl : ∀ entry : ScriptsEntry, SameEntry entry entry
  | .file text => .file text
  | .folder _ => .folder fun _ => rfl

namespace SameScripts

theorem refl (scripts : ScriptsDir) : SameScripts scripts scripts := by
  intro name
  cases scripts.get? name with
  | none => exact .none
  | some entry => exact .some (SameEntry.refl entry)

variable {scripts scripts' : ScriptsDir} {name : Text} {entry entry' : ScriptsEntry}

theorem set (h : SameScripts scripts scripts') (hentry : SameEntry entry entry') :
    SameScripts (scripts.set name entry) (scripts'.set name entry') := by
  intro probe
  rw [InsertionMap.get?_set, InsertionMap.get?_set]
  split_ifs with heq
  · exact .some hentry
  · exact h probe

theorem delete (h : SameScripts scripts scripts') :
    SameScripts (scripts.delete name) (scripts'.delete name) := by
  intro probe
  rw [InsertionMap.get?_delete, InsertionMap.get?_delete]
  split_ifs with heq
  · exact .none
  · exact h probe

/-- A name stands for nothing, for the same file, or for folders with the same files. -/
theorem get?_cases (h : SameScripts scripts scripts') (name : Text) :
    (scripts.get? name = none ∧ scripts'.get? name = none) ∨
      (∃ text, scripts.get? name = some (.file text) ∧ scripts'.get? name = some (.file text)) ∨
      ∃ files files', scripts.get? name = some (.folder files) ∧
        scripts'.get? name = some (.folder files') ∧ ∀ x, files.get? x = files'.get? x := by
  have hname := h name
  generalize scripts.get? name = found at hname ⊢
  generalize scripts'.get? name = found' at hname ⊢
  cases hname with
  | none => exact .inl ⟨rfl, rfl⟩
  | some hentry =>
    cases hentry with
    | file text => exact .inr (.inl ⟨text, rfl, rfl⟩)
    | folder hfiles => exact .inr (.inr ⟨_, _, rfl, rfl, hfiles⟩)

theorem readScript_eq (h : SameScripts scripts scripts') (folderName scriptName : Text) :
    readScript folderName scriptName scripts = readScript folderName scriptName scripts' := by
  unfold readScript
  obtain ⟨hget, hget'⟩ | ⟨text, hget, hget'⟩ | ⟨files, files', hget, hget', hfiles⟩ :=
    h.get?_cases folderName
  · rw [hget, hget']
  · rw [hget, hget']
  · rw [hget, hget']
    exact hfiles scriptName

end SameScripts

/-! ## The same listings -/

/-- Listings of the same folders with the same scripts.  Names that the sort takes for equal come
in the order of the file system. -/
def SameListing (listing listing' : List (Text × List (Text × Text))) : Prop :=
  ∃ middle, listing.Perm middle ∧
    List.Forall₂ (fun folder folder' => folder.1 = folder'.1 ∧ folder.2.Perm folder'.2)
      middle listing'

section Listing

variable (naturalSort : Text → Text → Bool)

theorem loadScriptsInFolder_perm {files files' : Folder}
    (h : ∀ name, files.get? name = files'.get? name) :
    (loadScriptsInFolder naturalSort files).Perm (loadScriptsInFolder naturalSort files') := by
  have hentries := (InsertionMap.entries_perm h).filter fun script =>
    scriptExtension.isSuffixOf script.1 ∧ script.1 ≠ scriptDraft
  exact (mergeSort_perm _ _).trans (hentries.trans (mergeSort_perm _ _).symm)

def listName (scripts : ScriptsDir) (name : Text) : Option (Text × List (Text × Text)) :=
  match scripts.get? name with
  | some (.folder files) => some (name, loadScriptsInFolder naturalSort files)
  | _ => none

theorem folderListing_eq (scripts : ScriptsDir) :
    folderListing naturalSort scripts = scripts.keys.filterMap (listName naturalSort scripts) := by
  unfold folderListing InsertionMap.keys
  rw [filterMap_map]
  refine filterMap_congr fun entry hentry => ?_
  rw [Function.comp_apply, listName, InsertionMap.get?_eq_some_iff.mpr hentry]
  cases entry.2 <;> rfl

def folderNames (scripts : ScriptsDir) : List Text :=
  scripts.keys.filter fun name => (listName naturalSort scripts name).isSome

theorem mem_folderNames {scripts : ScriptsDir} {name : Text} :
    name ∈ folderNames naturalSort scripts ↔ (listName naturalSort scripts name).isSome := by
  rw [folderNames, mem_filter, InsertionMap.mem_keys_iff]
  refine and_iff_right_of_imp fun hlisted => ?_
  unfold listName at hlisted
  cases hget : scripts.get? name with
  | none =>
    rw [hget] at hlisted
    cases hlisted
  | some entry => exact ⟨entry, rfl⟩

theorem folderListing_eq_folderNames (scripts : ScriptsDir) :
    folderListing naturalSort scripts =
      (folderNames naturalSort scripts).filterMap (listName naturalSort scripts) := by
  rw [folderListing_eq, folderNames, filterMap_filter]
  refine filterMap_congr fun name _ => ?_
  cases listName naturalSort scripts name <;> rfl

theorem sameListing_of_names {scripts scripts' : ScriptsDir}
    (h : ∀ name, Option.Rel (fun folder folder' => folder.1 = folder'.1 ∧ folder.2.Perm folder'.2)
      (listName naturalSort scripts name) (listName naturalSort scripts' name)) :
    SameListing (loadFolders naturalSort scripts) (loadFolders naturalSort scripts') := by
  have hnames : (folderNames naturalSort scripts).Perm (folderNames naturalSort scripts') := by
    apply (perm_ext_iff_of_nodup (scripts.nodup_keys.filter _) (scripts'.nodup_keys.filter _)).mpr
    intro name
    have hname := h name
    change name ∈ folderNames naturalSort scripts ↔ name ∈ folderNames naturalSort scripts'
    rw [mem_folderNames, mem_folderNames]
    generalize listName naturalSort scripts name = found at hname
    generalize listName naturalSort scripts' name = found' at hname
    cases hname with
    | none => rfl
    | some _ => rfl
  have hlisted : List.Forall₂ (fun folder folder' => folder.1 = folder'.1 ∧
      folder.2.Perm folder'.2)
      ((folderNames naturalSort scripts').filterMap (listName naturalSort scripts))
      ((folderNames naturalSort scripts').filterMap (listName naturalSort scripts')) := by
    apply rel_filterMap (R := Eq) _ (forall₂_same.mpr fun _ _ => rfl)
    intro name _ rfl
    exact h name
  have hfirst : (loadFolders naturalSort scripts).Perm
      ((folderNames naturalSort scripts').filterMap (listName naturalSort scripts)) := by
    refine (mergeSort_perm _ _).trans ?_
    rw [folderListing_eq_folderNames]
    exact hnames.filterMap _
  have hlast : ((folderNames naturalSort scripts').filterMap (listName naturalSort scripts')).Perm
      (loadFolders naturalSort scripts') := by
    rw [← folderListing_eq_folderNames]
    exact (mergeSort_perm _ _).symm
  -- the second sort may be done in front of the comparison
  have hcomp := (congrFun₂ forall₂_comp_perm_eq_perm_comp_forall₂ _ _).mp ⟨_, hlisted, hlast⟩
  obtain ⟨middle, hmiddle, hsame⟩ := hcomp
  exact ⟨middle, hfirst.trans hmiddle, hsame⟩

/-- The same listings name the same folders. -/
theorem SameListing.names_perm {listing listing' : List (Text × List (Text × Text))}
    (h : SameListing listing listing') : (listing.map Prod.fst).Perm (listing'.map Prod.fst) := by
  obtain ⟨middle, hperm, hsame⟩ := h
  have hnames : middle.map Prod.fst = listing'.map Prod.fst := by
    clear hperm
    induction hsame with
    | nil => rfl
    | cons hfolder _ ih => rw [map_cons, map_cons, hfolder.1, ih]
  rw [← hnames]
  exact hperm.map _

theorem mem_map_fst_loadFolders {scripts : ScriptsDir} {name : Text} :
    name ∈ (loadFolders naturalSort scripts).map Prod.fst ↔
      ∃ files, scripts.get? name = some (.folder files) := by
  have hperm : ((loadFolders naturalSort scripts).map Prod.fst).Perm
      ((folderListing naturalSort scripts).map Prod.fst) := (mergeSort_perm _ _).map _
  rw [hperm.mem_iff, folderListing_eq, List.mem_map]
  constructor
  · rintro ⟨folder, hfolder, hname⟩
    obtain ⟨name', -, hlisted⟩ := mem_filterMap.mp hfolder
    unfold listName at hlisted
    split at hlisted
    next files hget =>
      obtain rfl := some.inj hlisted
      exact ⟨files, hname ▸ hget⟩
    next => cases hlisted
  · rintro ⟨files, hget⟩
    refine ⟨(name, loadScriptsInFolder naturalSort files), mem_filterMap.mpr ⟨name, ?_, ?_⟩, rfl⟩
    · exact InsertionMap.mem_keys_iff.mpr ⟨_, hget⟩
    · rw [listName, hget]

theorem SameScripts.listing {scripts scripts' : ScriptsDir} (h : SameScripts scripts scripts') :
    SameListing (loadFolders naturalSort scripts) (loadFolders naturalSort scripts') := by
  apply sameListing_of_names
  intro name
  unfold listName
  have hname := h name
  generalize scripts.get? name = found at hname ⊢
  generalize scripts'.get? name = found' at hname ⊢
  cases hname with
  | none => exact .none
  | some hentry =>
    cases hentry with
    | file text => exact .none
    | folder hfiles => exact .some ⟨rfl, loadScriptsInFolder_perm naturalSort hfiles⟩

end Listing

/-! ## Steps -/

structure Backends where
  opfs : OpfsNotebook
  native : ScriptsDir

namespace Backends

/-- A script operation on both backends; where it throws, nothing changes. -/
def step (operation : ScriptOperation) (backends : Backends) : Backends where
  opfs := (OPFSStorageBackend.perform operation backends.opfs).getD backends.opfs
  native := (NativeStorageBackend.perform operation backends.native).getD backends.native

/-- A script operation succeeds on both backends or on neither. -/
def SameOutcome (operation : ScriptOperation) (backends : Backends) : Prop :=
  (OPFSStorageBackend.perform operation backends.opfs).isSome =
    (NativeStorageBackend.perform operation backends.native).isSome

instance SameOutcome.decidable (operation : ScriptOperation) (backends : Backends) :
    Decidable (SameOutcome operation backends) :=
  inferInstanceAs (Decidable (_ = _))

/-- The same files in either backend. -/
def Same (backends : Backends) : Prop := SameNotebook backends.opfs backends.native

/-- What the backends can be asked, with the same answers. -/
structure Agree (naturalSort : Text → Text → Bool) (backends : Backends) : Prop where
  folders : ∃ listing listing',
    OPFSStorageBackend.loadScriptFolders naturalSort backends.opfs = some listing ∧
      NativeStorageBackend.loadScriptFolders naturalSort backends.native = some listing' ∧
      SameListing listing listing'
  scripts : ∀ folderName scriptName,
    OPFSStorageBackend.loadScript folderName scriptName backends.opfs =
      NativeStorageBackend.loadScript folderName scriptName backends.native
  draft : OPFSStorageBackend.loadScriptDraft backends.opfs =
    NativeStorageBackend.loadScriptDraft backends.native

/-- An operation that both backends take in the same way: a folder is not made under the name of a
file or of the draft, what is deleted exists, and a folder that exists is renamed onto a free
name, or onto an empty folder. -/
def Regular (operation : ScriptOperation) (backends : Backends) : Prop :=
  let scripts := backends.native
  match operation with
  | .createScriptFolder folderName =>
    folderName ≠ scriptDraft ∧ ∀ text, scripts.get? folderName ≠ some (.file text)
  | .deleteScriptFolder folderName => scripts.get? folderName ≠ none
  | .renameScriptFolder oldFolderName newFolderName =>
    oldFolderName = newFolderName ∨
      match scripts.get? oldFolderName, scripts.get? newFolderName with
      | none, _ => True
      | some (.folder _), none => newFolderName ≠ scriptDraft
      | some (.folder _), some (.folder files) => files.entries = []
      | some (.folder _), some (.file _) => True
      | some (.file _), some (.folder _) => True
      | some (.file _), _ => False
  | .saveScript folderName _ _ => folderName = scriptDraft → scripts.get? folderName ≠ none
  | .deleteScript folderName scriptName => readScript folderName scriptName scripts ≠ none
  | .renameScript folderName oldScriptName newScriptName =>
    oldScriptName = newScriptName ∨ ∀ text, scripts.get? folderName ≠ some (.file text)
  | .saveScriptDraft _ => True

end Backends

section Steps

open Backends

variable {scripts native : ScriptsDir} {name folderName scriptName : Text}
  {entry entry' : ScriptsEntry}

/-- The same answers of backends with the same files. -/
theorem Backends.Same.agree {backends : Backends} (h : backends.Same)
    (naturalSort : Text → Text → Bool) : backends.Agree naturalSort := by
  obtain ⟨⟨opfs⟩, native⟩ := backends
  obtain ⟨⟨scripts, hopfs, hsame⟩, hdraft⟩ := h
  obtain rfl : opfs = some scripts := hopfs
  refine ⟨⟨_, _, rfl, rfl, hsame.listing naturalSort⟩, hsame.readScript_eq, ?_⟩
  unfold OPFSStorageBackend.loadScriptDraft NativeStorageBackend.loadScriptDraft
  obtain ⟨hget, hget'⟩ | ⟨text, hget, hget'⟩ | ⟨files, files', -, hget', -⟩ :=
    hsame.get?_cases scriptDraft
  · simp [hget, hget']
  · simp [hget, hget']
  · exact absurd hget' (hdraft files')

theorem same_set_iff (h : Same ⟨⟨some scripts⟩, native⟩) (hentry : SameEntry entry entry') :
    Same ⟨⟨some (scripts.set name entry)⟩, native.set name entry'⟩ ↔
      (name = scriptDraft → ∀ files, entry' ≠ .folder files) := by
  obtain ⟨⟨found, hfound, hsame⟩, hdraft⟩ := h
  obtain rfl := some.inj hfound
  constructor
  · intro hafter hname files hfolder
    apply hafter.draft files
    rw [hname, hfolder]
    exact InsertionMap.get?_set_self
  · intro hname
    refine ⟨⟨_, rfl, hsame.set hentry⟩, ?_⟩
    intro files
    dsimp only
    rw [InsertionMap.get?_set]
    split_ifs with heq
    · exact fun hsome => hname heq.symm files (some.inj hsome)
    · exact hdraft files

theorem Backends.Same.delete (h : Same ⟨⟨some scripts⟩, native⟩) :
    Same ⟨⟨some (scripts.delete name)⟩, native.delete name⟩ := by
  obtain ⟨⟨found, hfound, hsame⟩, hdraft⟩ := h
  obtain rfl := some.inj hfound
  refine ⟨⟨_, rfl, hsame.delete⟩, ?_⟩
  intro files
  dsimp only
  rw [InsertionMap.get?_delete]
  split_ifs with heq
  · exact (some_ne_none _).symm
  · exact hdraft files

/-- A step with the same outcome on both backends, which leaves the same files. -/
def Backends.StepAgrees (operation : ScriptOperation) (backends : Backends) : Prop :=
  backends.SameOutcome operation ∧ (backends.step operation).Same

theorem Backends.Same.parts (h : Same ⟨⟨some scripts⟩, native⟩) :
    SameScripts scripts native ∧ ∀ files, native.get? scriptDraft ≠ some (.folder files) := by
  obtain ⟨⟨found, hfound, hsame⟩, hdraft⟩ := h
  obtain rfl := some.inj hfound
  exact ⟨hsame, hdraft⟩

attribute [local simp] StepAgrees SameOutcome Backends.step Regular OPFSStorageBackend.perform
  NativeStorageBackend.perform OPFSStorageBackend.createDirectory
  OPFSStorageBackend.createScriptFolder NativeStorageBackend.createScriptFolder
  OPFSStorageBackend.saveScript NativeStorageBackend.saveScript OPFSStorageBackend.deleteScript
  NativeStorageBackend.deleteScript OPFSStorageBackend.renameScript
  NativeStorageBackend.renameScript OPFSStorageBackend.saveScriptDraft
  NativeStorageBackend.saveScriptDraft

theorem createScriptFolder_iff (h : Same ⟨⟨some scripts⟩, native⟩) :
    StepAgrees (.createScriptFolder folderName) ⟨⟨some scripts⟩, native⟩ ↔
      Regular (.createScriptFolder folderName) ⟨⟨some scripts⟩, native⟩ := by
  obtain ⟨hsame, hdraft⟩ := h.parts
  obtain ⟨hget, hget'⟩ | ⟨text, hget, hget'⟩ | ⟨files, files', hget, hget', -⟩ :=
    hsame.get?_cases folderName
  · simp [hget, hget', same_set_iff h (.folder fun _ => rfl)]
  · simp [hget, hget']
  · have hname : folderName ≠ scriptDraft := fun heq => hdraft files' (heq ▸ hget')
    simp [hget, hget', hname, h]

theorem deleteScriptFolder_iff (h : Same ⟨⟨some scripts⟩, native⟩) :
    StepAgrees (.deleteScriptFolder folderName) ⟨⟨some scripts⟩, native⟩ ↔
      Regular (.deleteScriptFolder folderName) ⟨⟨some scripts⟩, native⟩ := by
  obtain ⟨hget, hget'⟩ | ⟨text, hget, hget'⟩ | ⟨files, files', hget, hget', -⟩ :=
    h.parts.1.get?_cases folderName <;>
  simp [OPFSStorageBackend.deleteScriptFolder, NativeStorageBackend.deleteScriptFolder, hget, hget',
    h.delete]

/-- The scripts directory after a folder moved, file by file and in one step. -/
theorem sameScripts_move {old new : Text} {files files' target : Folder}
    (hsame : SameScripts scripts native) (hne : old ≠ new)
    (hfiles : ∀ x, files.get? x = files'.get? x) (htarget : ∀ x, target.get? x = none)
    {created : ScriptsDir} (hcreated : ∀ name, name ≠ new → created.get? name = scripts.get? name) :
    SameScripts
      ((created.set new (.folder (files.entries.foldl
        (fun files script => files.set script.1 script.2) target))).delete old)
      ((native.delete old).set new (.folder files')) := by
  intro name
  rw [InsertionMap.get?_delete, InsertionMap.get?_set, InsertionMap.get?_set,
    InsertionMap.get?_delete]
  by_cases hold : name = old
  · rw [if_pos hold, if_neg (hold.trans_ne hne), if_pos hold]
    exact .none
  · rw [if_neg hold, if_neg hold]
    split_ifs with hnew
    · refine .some (.folder fun x => ?_)
      rw [InsertionMap.get?_foldl_set, htarget, or_none, hfiles]
    · rw [hcreated name hnew]
      exact hsame name

theorem same_move_iff {old new : Text} {files' : Folder} {moved : ScriptsDir}
    (h : Same ⟨⟨some scripts⟩, native⟩)
    (hmoved : SameScripts moved ((native.delete old).set new (.folder files'))) :
    Same ⟨⟨some moved⟩, (native.delete old).set new (.folder files')⟩ ↔ new ≠ scriptDraft := by
  constructor
  · intro hafter hname
    apply hafter.draft files'
    dsimp only
    rw [hname]
    exact InsertionMap.get?_set_self
  · intro hname
    refine ⟨⟨_, rfl, hmoved⟩, ?_⟩
    intro files
    dsimp only
    rw [InsertionMap.get?_set_of_ne hname.symm, InsertionMap.get?_delete]
    split_ifs with hold
    · exact (some_ne_none _).symm
    · exact h.draft files

theorem renameScriptFolder_iff {old new : Text} (h : Same ⟨⟨some scripts⟩, native⟩) :
    StepAgrees (.renameScriptFolder old new) ⟨⟨some scripts⟩, native⟩ ↔
      Regular (.renameScriptFolder old new) ⟨⟨some scripts⟩, native⟩ := by
  obtain ⟨hsame, hdraft⟩ := h.parts
  by_cases hne : old = new
  · simp [OPFSStorageBackend.renameScriptFolder, NativeStorageBackend.renameScriptFolder, hne, h]
  obtain ⟨hold, hold'⟩ | ⟨text, hold, hold'⟩ | ⟨files, files', hold, hold', hfiles⟩ :=
      hsame.get?_cases old <;>
    obtain ⟨hnew, hnew'⟩ | ⟨text', hnew, hnew'⟩ | ⟨occupied, occupied', hnew, hnew', hoccupied⟩ :=
      hsame.get?_cases new <;>
    simp only [StepAgrees, SameOutcome, Backends.step, Regular, OPFSStorageBackend.perform,
      NativeStorageBackend.perform, OPFSStorageBackend.renameScriptFolder,
      NativeStorageBackend.renameScriptFolder, NativeStorageBackend.rename,
      OPFSStorageBackend.createDirectory, if_neg hne, getD_some, hold, hold', hnew, hnew']
  all_goals try simp [hne, h]
  · have hmoved := @sameScripts_move scripts native old new files files' .empty hsame hne
      hfiles (fun x => InsertionMap.get?_empty) (scripts.set new (.folder .empty))
      (fun name hname => InsertionMap.get?_set_of_ne hname)
    exact same_move_iff h hmoved
  · have hname : new ≠ scriptDraft := fun heq => hdraft _ (heq ▸ hnew')
    by_cases hempty : occupied'.entries = []
    · have hnone : ∀ x, occupied.get? x = none := fun x =>
        (hoccupied x).trans (InsertionMap.entries_eq_nil_iff.mp hempty x)
      have hmoved := @sameScripts_move scripts native old new files files' occupied
        hsame hne hfiles hnone scripts (fun _ _ => rfl)
      simp [hempty, hname, same_move_iff h hmoved]
    · simp [hempty]

theorem saveScript_iff {sql : Text} (h : Same ⟨⟨some scripts⟩, native⟩) :
    StepAgrees (.saveScript folderName scriptName sql) ⟨⟨some scripts⟩, native⟩ ↔
      Regular (.saveScript folderName scriptName sql) ⟨⟨some scripts⟩, native⟩ := by
  obtain ⟨hsame, hdraft⟩ := h.parts
  obtain ⟨hget, hget'⟩ | ⟨text, hget, hget'⟩ | ⟨files, files', hget, hget', hfiles⟩ :=
    hsame.get?_cases folderName
  · simp [hget, hget', InsertionMap.set_set, same_set_iff h (.folder fun _ => rfl)]
  · simp [hget, hget', h]
  · have hsaved : ∀ x, (files.set scriptName sql).get? x = (files'.set scriptName sql).get? x := by
      intro x
      rw [InsertionMap.get?_set, InsertionMap.get?_set, hfiles x]
    have hname : folderName ≠ scriptDraft := fun heq => hdraft files' (heq ▸ hget')
    simp [hget, hget', same_set_iff h (.folder hsaved), hname]

theorem deleteScript_iff (h : Same ⟨⟨some scripts⟩, native⟩) :
    StepAgrees (.deleteScript folderName scriptName) ⟨⟨some scripts⟩, native⟩ ↔
      Regular (.deleteScript folderName scriptName) ⟨⟨some scripts⟩, native⟩ := by
  obtain ⟨hsame, hdraft⟩ := h.parts
  obtain ⟨hget, hget'⟩ | ⟨text, hget, hget'⟩ | ⟨files, files', hget, hget', hfiles⟩ :=
    hsame.get?_cases folderName
  · simp [readScript, hget, hget']
  · simp [readScript, hget, hget']
  · cases hsql : files'.get? scriptName with
    | none => simp [readScript, hget, hget', hfiles scriptName, hsql]
    | some sql =>
      have hdeleted : ∀ x, (files.delete scriptName).get? x = (files'.delete scriptName).get? x := by
        intro x
        rw [InsertionMap.get?_delete, InsertionMap.get?_delete, hfiles x]
      have hname : folderName ≠ scriptDraft := fun heq => hdraft files' (heq ▸ hget')
      simp [readScript, hget, hget', hfiles scriptName, hsql, same_set_iff h (.folder hdeleted),
        hname]

theorem renameScript_iff {old new : Text} (h : Same ⟨⟨some scripts⟩, native⟩) :
    StepAgrees (.renameScript folderName old new) ⟨⟨some scripts⟩, native⟩ ↔
      Regular (.renameScript folderName old new) ⟨⟨some scripts⟩, native⟩ := by
  obtain ⟨hsame, hdraft⟩ := h.parts
  by_cases hne : old = new
  · simp [hne, h]
  obtain ⟨hget, hget'⟩ | ⟨text, hget, hget'⟩ | ⟨files, files', hget, hget', hfiles⟩ :=
    hsame.get?_cases folderName
  · simp [hne, hget, hget', h]
  · simp [hne, hget, hget']
  · cases hsql : files'.get? old with
    | none => simp [hne, hget, hget', hfiles old, hsql, h]
    | some sql =>
      have hrenamed : ∀ x, ((files.delete old).set new sql).get? x =
          ((files'.delete old).set new sql).get? x := by
        intro x
        rw [InsertionMap.get?_set, InsertionMap.get?_set, InsertionMap.get?_delete,
          InsertionMap.get?_delete, hfiles x]
      have hname : folderName ≠ scriptDraft := fun heq => hdraft files' (heq ▸ hget')
      simp [hne, hget, hget', hfiles old, hsql, same_set_iff h (.folder hrenamed), hname]

theorem saveScriptDraft_iff {sql : Text} (h : Same ⟨⟨some scripts⟩, native⟩) :
    StepAgrees (.saveScriptDraft sql) ⟨⟨some scripts⟩, native⟩ ↔
      Regular (.saveScriptDraft sql) ⟨⟨some scripts⟩, native⟩ := by
  obtain ⟨hsame, hdraft⟩ := h.parts
  obtain ⟨hget, hget'⟩ | ⟨text, hget, hget'⟩ | ⟨files, files', hget, hget', -⟩ :=
    hsame.get?_cases scriptDraft
  · simp [hget, hget', same_set_iff h (.file sql)]
  · simp [hget, hget', same_set_iff h (.file sql)]
  · exact absurd hget' (hdraft files')

/-- A step has the same outcome on both backends, and leaves the same files, exactly if it is
regular. -/
theorem agree_step_iff {backends : Backends} (h : backends.Same) (operation : ScriptOperation) :
    StepAgrees operation backends ↔ Regular operation backends := by
  obtain ⟨⟨opfs⟩, native⟩ := backends
  obtain ⟨scripts, hopfs, -⟩ := h.same
  obtain rfl : opfs = some scripts := hopfs
  cases operation with
  | createScriptFolder folderName => exact createScriptFolder_iff h
  | deleteScriptFolder folderName => exact deleteScriptFolder_iff h
  | renameScriptFolder oldFolderName newFolderName => exact renameScriptFolder_iff h
  | saveScript folderName scriptName sql => exact saveScript_iff h
  | deleteScript folderName scriptName => exact deleteScript_iff h
  | renameScript folderName oldScriptName newScriptName => exact renameScript_iff h
  | saveScriptDraft sql => exact saveScriptDraft_iff h

end Steps

/-! ## Runs -/

section Runs

open Backends

end Runs

end DashQL.Storage
