import DashQL.Storage.Registry

/-!
# The composite storage backend

The composite backend keeps the location of every notebook in memory, as a copy of the
registry that the OPFS backend owns.  Some operations change the copy before the call
that changes the registry, one does not change it at all, and a call may fail.

`inSync_step_iff` says which steps keep the copy in step with the registry, and
`locations_inSync_of_run` what follows for runs of such steps.
-/

namespace DashQL.Storage

open List
open InsertionMap (get?_delete get?_eq_none_iff get?_eq_some_iff get?_set get?_set_of_ne get?_set_self keys_delete keys_set_of_not_mem mem_keys_iff set_of_get?)

variable {S : Type}

/-! ## Locations -/

structure NotebookLocation where
  type : StorageBackendType
  nativePath : Option Text := none
  deriving DecidableEq

def locationFromEntry (entry : NotebookEntry) : NotebookLocation :=
  match entry.storageType, entry.nativePath with
  | some .native, some (c :: path) => { type := .native, nativePath := some (c :: path) }
  | _, _ => { type := .opfs }

/-- The test for a notebook on disk, with its directory. -/
def NotebookLocation.directory : NotebookLocation → Option Text
  | ⟨.native, some (c :: path)⟩ => some (c :: path)
  | _ => none

/-- The registry entry of a notebook in a directory. -/
def nativeEntry (notebookId dir : Text) : NotebookEntry :=
  { path := notebookId, storageType := some .native, nativePath := some dir }

/-- The listed ids of `reorderNotebooks`: each id that has a location, once. -/
def reorderListed (orderedIds : List Text) (previous : InsertionMap Text NotebookLocation) :
    InsertionMap Text NotebookLocation :=
  orderedIds.foldl
    (fun reordered id =>
      match previous.get? id with
      | some loc => if (reordered.get? id).isSome then reordered else reordered.set id loc
      | none => reordered)
    InsertionMap.empty

def reorderLocations (orderedIds : List Text) (previous : InsertionMap Text NotebookLocation) :
    InsertionMap Text NotebookLocation :=
  previous.entries.foldl
    (fun reordered (id, loc) =>
      if (reordered.get? id).isSome then reordered else reordered.set id loc)
    (reorderListed orderedIds previous)

/-! ## The backend -/

/-- `CompositeStorageBackend`: the locations in memory, and the manifest file below it. -/
structure CompositeStorageBackend (S : Type) where
  locations : InsertionMap Text NotebookLocation
  file : ManifestFile S

/-- A call of a composite operation, with the outcome of the backend calls that it makes:
whether what comes before the registry is changed succeeds, and whether the manifest is written. -/
inductive CompositeOperation (S : Type)
  | refreshLocations (listed : Bool)
  | saveAppSettings (settings : S) (written : Bool)
  | saveNotebookManifest (notebookId : Text) (saved written : Bool)
  | upsertNotebookEntry (entry : NotebookEntry) (written : Bool)
  | removeNotebookEntry (notebookId : Text) (written : Bool)
  | reorderNotebooks (orderedIds : List Text) (written : Bool)
  | deleteNotebook (notebookId : Text) (deleted written : Bool)
  | relocateNotebookToNative (uuid dir : Text) (copied written : Bool)
  | loadNativeNotebook (uuid dir : Text) (loaded written : Bool)
  | clearAllStorage (written : Bool)

/-- `OPFSStorageBackend.listNotebooks` on the root manifest. -/
def listNotebooks (file : ManifestFile S) : Option (List NotebookEntry) :=
  (readManifest file).bind fun manifest =>
    if ∀ entry ∈ manifest.notebooks, entry.path ≠ [] then some manifest.notebooks else none

/-- A registry operation of the OPFS backend, which may fail at the read or at the write. -/
def writeRegistry (operation : RegistryOperation S) (written : Bool) (file : ManifestFile S) :
    Option (ManifestFile S) :=
  if written then (readManifest file).map fun manifest => .written (operation.update manifest)
  else none

namespace CompositeStorageBackend

def locationOf (backend : CompositeStorageBackend S) (notebookId : Text) : NotebookLocation :=
  (backend.locations.get? notebookId).getD { type := .opfs }

def getNotebookOrder (backend : CompositeStorageBackend S) : List Text :=
  backend.locations.keys

/-- A registry operation behind which nothing changes. -/
def persist (operation : RegistryOperation S) (written : Bool)
    (backend : CompositeStorageBackend S) : CompositeStorageBackend S :=
  { backend with file := (writeRegistry operation written backend.file).getD backend.file }

/-- A registry operation behind which the locations change, unless it fails. -/
def persistThen (operation : RegistryOperation S) (written : Bool)
    (change : InsertionMap Text NotebookLocation → InsertionMap Text NotebookLocation)
    (backend : CompositeStorageBackend S) : CompositeStorageBackend S :=
  match writeRegistry operation written backend.file with
  | some file => { locations := change backend.locations, file }
  | none => backend

/-- `refreshLocations`; a scope that is not granted is only logged. -/
def refreshLocations (listed : Bool) (backend : CompositeStorageBackend S) :
    CompositeStorageBackend S :=
  match if listed then listNotebooks backend.file else none with
  | some notebooks =>
    { backend with
      locations := notebooks.foldl
        (fun locations entry => locations.set entry.path (locationFromEntry entry))
        InsertionMap.empty }
  | none => backend

/-- `saveNotebookManifest`.  The OPFS backend registers the notebook itself. -/
def saveNotebookManifest (notebookId : Text) (saved written : Bool)
    (backend : CompositeStorageBackend S) : CompositeStorageBackend S :=
  if saved then
    match (backend.locationOf notebookId).directory with
    | none => backend.persist (.saveNotebookManifest notebookId) written
    | some dir => backend.persist (.upsertNotebookEntry (nativeEntry notebookId dir)) written
  else backend

def upsertNotebookEntry (entry : NotebookEntry) (written : Bool)
    (backend : CompositeStorageBackend S) : CompositeStorageBackend S :=
  persist (.upsertNotebookEntry entry) written
    { backend with locations := backend.locations.set entry.path (locationFromEntry entry) }

def removeNotebookEntry (notebookId : Text) (written : Bool)
    (backend : CompositeStorageBackend S) : CompositeStorageBackend S :=
  persist (.removeNotebookEntry notebookId) written
    { backend with locations := backend.locations.delete notebookId }

def reorderNotebooks (orderedIds : List Text) (written : Bool)
    (backend : CompositeStorageBackend S) : CompositeStorageBackend S :=
  persist (.reorderNotebooks orderedIds) written
    { backend with locations := reorderLocations orderedIds backend.locations }

/-- `deleteNotebook`.  The files of a native notebook stay. -/
def deleteNotebook (notebookId : Text) (deleted written : Bool)
    (backend : CompositeStorageBackend S) : CompositeStorageBackend S :=
  match (backend.locationOf notebookId).type with
  | .native =>
    backend.persistThen (.removeNotebookEntry notebookId) written (·.delete notebookId)
  | .opfs =>
    if deleted then
      backend.persistThen (.deleteNotebook notebookId) written (·.delete notebookId)
    else backend

/-- `relocateNotebookToNative`.  Whether the OPFS files can be deleted in the end does not matter
to the registry. -/
def relocateNotebookToNative (uuid dir : Text) (copied written : Bool)
    (backend : CompositeStorageBackend S) : CompositeStorageBackend S :=
  if (backend.locationOf uuid).type = .opfs ∧ copied then
    backend.persistThen (.upsertNotebookEntry (nativeEntry uuid dir)) written
      (·.set uuid { type := .native, nativePath := some dir })
  else backend

/-- `loadNativeNotebook`, of a directory whose notebook has some id. -/
def loadNativeNotebook (uuid dir : Text) (loaded written : Bool)
    (backend : CompositeStorageBackend S) : CompositeStorageBackend S :=
  if loaded ∧ uuid ∉ backend.locations.keys then
    backend.persistThen (.upsertNotebookEntry (nativeEntry uuid dir)) written
      (·.set uuid { type := .native, nativePath := some dir })
  else backend

/-- `clearAllStorage`; a manifest that cannot be reset is only logged. -/
def clearAllStorage (written : Bool) (backend : CompositeStorageBackend S) :
    CompositeStorageBackend S where
  locations := InsertionMap.empty
  file := if written then .written { notebooks := [] } else backend.file

def step : CompositeOperation S → CompositeStorageBackend S → CompositeStorageBackend S
  | .refreshLocations listed => refreshLocations listed
  | .saveAppSettings settings written => persist (.saveAppSettings settings) written
  | .saveNotebookManifest notebookId saved written => saveNotebookManifest notebookId saved written
  | .upsertNotebookEntry entry written => upsertNotebookEntry entry written
  | .removeNotebookEntry notebookId written => removeNotebookEntry notebookId written
  | .reorderNotebooks orderedIds written => reorderNotebooks orderedIds written
  | .deleteNotebook notebookId deleted written => deleteNotebook notebookId deleted written
  | .relocateNotebookToNative uuid dir copied written =>
    relocateNotebookToNative uuid dir copied written
  | .loadNativeNotebook uuid dir loaded written => loadNativeNotebook uuid dir loaded written
  | .clearAllStorage written => clearAllStorage written

/-- The locations list the notebooks of the manifest, in its order, where it records them. -/
structure ListsManifest (locations : InsertionMap Text NotebookLocation)
    (manifest : StorageManifest S) : Prop where
  listed : locations.keys = manifest.paths
  recorded : ∀ entry ∈ manifest.notebooks,
    locations.get? entry.path = some (locationFromEntry entry)

/-- The locations list the notebooks of the manifest that is on file. -/
def InSync (backend : CompositeStorageBackend S) : Prop :=
  ∃ manifest, readManifest backend.file = some manifest ∧ ListsManifest backend.locations manifest

/-- The ids of an order that are known, each where it comes first. -/
def firstKnown (orderedIds known : List Text) : List Text :=
  (orderedIds.filter fun id => id ∈ known).eraseDups

/-- An operation keeps the locations in step with the registry: what is changed first does not
matter if the registry call fails, a saved OPFS notebook has been registered before, and a
notebook on disk has a directory. -/
def KeepsLocations (operation : CompositeOperation S) (backend : CompositeStorageBackend S) : Prop :=
  match operation with
  | .saveNotebookManifest notebookId saved written =>
    saved → written → notebookId ∈ backend.locations.keys
  | .upsertNotebookEntry entry written =>
    ¬ written → backend.locations.get? entry.path = some (locationFromEntry entry)
  | .removeNotebookEntry notebookId written =>
    ¬ written → notebookId ∉ backend.locations.keys
  | .reorderNotebooks orderedIds written =>
    ¬ written → firstKnown orderedIds backend.locations.keys <+: backend.locations.keys
  | .relocateNotebookToNative uuid dir copied written =>
    (backend.locationOf uuid).type = .opfs → copied → written → dir ≠ []
  | .loadNativeNotebook uuid dir loaded written =>
    loaded → uuid ∉ backend.locations.keys → written → dir ≠ []
  | .clearAllStorage written => ¬ written → backend.locations.keys = []
  | .refreshLocations _ | .saveAppSettings _ _ | .deleteNotebook _ _ _ => True

instance KeepsLocations.decidable (operation : CompositeOperation S)
    (backend : CompositeStorageBackend S) : Decidable (KeepsLocations operation backend) :=
  match operation with
  | .saveNotebookManifest notebookId saved written =>
    inferInstanceAs (Decidable (saved → written → notebookId ∈ backend.locations.keys))
  | .upsertNotebookEntry entry written =>
    inferInstanceAs (Decidable
      (¬ written → backend.locations.get? entry.path = some (locationFromEntry entry)))
  | .removeNotebookEntry notebookId written =>
    inferInstanceAs (Decidable (¬ written → notebookId ∉ backend.locations.keys))
  | .reorderNotebooks orderedIds written =>
    inferInstanceAs (Decidable
      (¬ written → firstKnown orderedIds backend.locations.keys <+: backend.locations.keys))
  | .relocateNotebookToNative uuid dir copied written =>
    inferInstanceAs (Decidable
      ((backend.locationOf uuid).type = .opfs → copied → written → dir ≠ []))
  | .loadNativeNotebook uuid dir loaded written =>
    inferInstanceAs (Decidable (loaded → uuid ∉ backend.locations.keys → written → dir ≠ []))
  | .clearAllStorage written =>
    inferInstanceAs (Decidable (¬ written → backend.locations.keys = []))
  | .refreshLocations _ | .saveAppSettings _ _ | .deleteNotebook _ _ _ => isTrue trivial

/-! ## The known ids of an order -/

section Order

variable {id : Text} {orderedIds known : List Text}

theorem firstKnown_concat :
    firstKnown (orderedIds ++ [id]) known =
      if id ∈ known ∧ id ∉ firstKnown orderedIds known then firstKnown orderedIds known ++ [id]
      else firstKnown orderedIds known := by
  unfold firstKnown
  simp only [filter_append, eraseDups_append, mem_eraseDups]
  by_cases hknown : id ∈ known
  · by_cases hlisted : id ∈ orderedIds.filter fun id => id ∈ known
    · simp [hknown, hlisted, cons_removeAll]
    · simp [hknown, hlisted, cons_removeAll, eraseDups_cons]
  · simp [hknown]

/-- The manifest's own reorder takes these ids. -/
theorem taken_eq_firstKnown (notebooks : List NotebookEntry) (orderedIds : List Text) :
    (StorageManifest.takeListed notebooks orderedIds).2 =
      firstKnown orderedIds (notebooks.map NotebookEntry.path) := by
  induction orderedIds using List.reverseRecOn with
  | nil => rfl
  | append_singleton ids id ih =>
    rw [firstKnown_concat, ← ih]
    unfold StorageManifest.takeListed
    rw [foldl_append, foldl_cons, foldl_nil]
    generalize List.foldl _ _ ids = progress
    cases hfind : notebooks.reverse.find? fun s => decide (s.path = id) with
    | none =>
      have hunknown : id ∉ notebooks.map NotebookEntry.path := by
        intro hmem
        obtain ⟨entry, hentry, hpath⟩ := mem_map.mp hmem
        have hnone := find?_eq_none.mp hfind entry (mem_reverse.mpr hentry)
        exact hnone (decide_eq_true hpath)
      rw [if_neg fun h => hunknown h.1]
    | some entry =>
      have hpath : entry.path = id := by simpa using find?_some hfind
      have hmem : entry ∈ notebooks := mem_reverse.mp (mem_of_find?_eq_some hfind)
      have hknown : id ∈ notebooks.map NotebookEntry.path := by
        rw [← hpath]
        exact mem_map_of_mem hmem
      dsimp only
      split_ifs with htaken hboth hboth
      · exact absurd htaken hboth.2
      · rfl
      · rfl
      · exact absurd ⟨hknown, htaken⟩ hboth

end Order

/-! ## Locations that list a manifest -/

namespace ListsManifest

variable {locations : InsertionMap Text NotebookLocation} {manifest : StorageManifest S}
  {entry : NotebookEntry} {notebookId : Text} {orderedIds : List Text}

section

variable (h : ListsManifest locations manifest)

include h

theorem nodup : manifest.paths.Nodup :=
  h.listed ▸ locations.nodup_keys

theorem exists_entry (hknown : notebookId ∈ locations.keys) :
    ∃ entry ∈ manifest.notebooks, entry.path = notebookId ∧
      locations.get? notebookId = some (locationFromEntry entry) := by
  rw [h.listed] at hknown
  obtain ⟨entry, hentry, rfl⟩ := mem_map.mp hknown
  exact ⟨entry, hentry, rfl, h.recorded entry hentry⟩

theorem entries :
    locations.entries =
      manifest.notebooks.map fun entry => (entry.path, locationFromEntry entry) := by
  have hlength : locations.entries.length = manifest.notebooks.length := by
    have hlisted := congrArg List.length h.listed
    rw [InsertionMap.keys, StorageManifest.paths, length_map, length_map] at hlisted
    exact hlisted
  apply ext_getElem
  · rw [hlength, length_map]
  · intro i hi _
    have hi' : i < manifest.notebooks.length := hlength ▸ hi
    have hpath : locations.entries[i].1 = manifest.notebooks[i].path := by
      have hlisted := getElem_of_eq h.listed (by rwa [InsertionMap.keys, length_map])
      simpa [InsertionMap.keys, StorageManifest.paths] using hlisted
    have hget : locations.get? locations.entries[i].1 = some locations.entries[i].2 :=
      get?_eq_some_iff.mpr (getElem_mem hi)
    have hrecorded := h.recorded manifest.notebooks[i] (getElem_mem hi')
    rw [← hpath, hget] at hrecorded
    rw [getElem_map, ← hpath, ← Option.some.inj hrecorded]

end

theorem mem_upsert (hnodup : manifest.paths.Nodup) {other : NotebookEntry} :
    other ∈ (manifest.upsertNotebookEntry entry).notebooks ↔
      other = entry ∨ other ∈ manifest.notebooks ∧ other.path ≠ entry.path := by
  unfold StorageManifest.upsertNotebookEntry
  cases hindex : manifest.notebooks.findIdx? fun s => decide (s.path = entry.path) with
  | none =>
    have hfresh : ∀ other ∈ manifest.notebooks, other.path ≠ entry.path := fun other hother =>
      of_decide_eq_false (findIdx?_eq_none_iff.mp hindex other hother)
    simp only [mem_append, mem_singleton]
    constructor
    · intro h
      exact h.symm.imp_right fun hmem => ⟨hmem, hfresh other hmem⟩
    · intro h
      exact h.symm.imp_left And.left
  | some existingIndex =>
    obtain ⟨hlt, hpath, -⟩ := findIdx?_eq_some_iff_getElem.mp hindex
    have hpath : manifest.notebooks[existingIndex].path = entry.path := of_decide_eq_true hpath
    -- no other entry has the path
    have hunique : ∀ (i : ℕ) (hi : i < manifest.notebooks.length),
        manifest.notebooks[i].path = entry.path → i = existingIndex := by
      intro i hi heq
      have hsame : manifest.notebooks[i] = manifest.notebooks[existingIndex] :=
        inj_on_of_nodup_map hnodup (getElem_mem hi) (getElem_mem hlt) (heq.trans hpath.symm)
      exact hnodup.of_map.getElem_inj_iff.mp hsame
    dsimp only
    rw [mem_iff_getElem, mem_iff_getElem]
    constructor
    · rintro ⟨i, hi, heq⟩
      rw [getElem_set] at heq
      split_ifs at heq with hhit
      · exact .inl heq.symm
      · rw [length_set] at hi
        refine .inr ⟨⟨i, hi, heq⟩, ?_⟩
        intro hsame
        rw [← heq] at hsame
        exact hhit (hunique i hi hsame).symm
    · intro h
      rcases h with rfl | ⟨⟨i, hi, rfl⟩, hne⟩
      · exact ⟨existingIndex, by simpa using hlt, getElem_set_self _⟩
      · refine ⟨i, by simpa using hi, getElem_set_ne ?_ _⟩
        rintro rfl
        exact hne hpath

section

variable (h : ListsManifest locations manifest)

include h

theorem upsert (entry : NotebookEntry) :
    ListsManifest (locations.set entry.path (locationFromEntry entry))
      (manifest.upsertNotebookEntry entry) where
  listed := by
    rw [StorageManifest.paths_upsertNotebookEntry, ← h.listed]
    split_ifs with hknown
    · exact InsertionMap.keys_set_of_mem hknown
    · exact keys_set_of_not_mem hknown
  recorded := by
    intro other hother
    rcases (mem_upsert h.nodup).mp hother with rfl | ⟨hmem, hne⟩
    · exact get?_set_self
    · rw [get?_set_of_ne hne]
      exact h.recorded other hmem

/-- An upsert that the locations do not follow changes nothing that they record. -/
theorem upsert_iff :
    ListsManifest locations (manifest.upsertNotebookEntry entry) ↔
      locations.get? entry.path = some (locationFromEntry entry) := by
  constructor
  · intro hafter
    exact hafter.recorded entry ((mem_upsert h.nodup).mpr (.inl rfl))
  · intro hget
    have hafter := h.upsert entry
    rw [set_of_get? hget] at hafter
    exact hafter

/-- Locations that run ahead of an upsert. -/
theorem set_iff {loc : NotebookLocation} :
    ListsManifest (locations.set notebookId loc) manifest ↔
      locations.get? notebookId = some loc := by
  constructor
  · intro hafter
    have hknown : notebookId ∈ (locations.set notebookId loc).keys :=
      InsertionMap.mem_keys_set.mpr (.inl rfl)
    obtain ⟨entry, hentry, rfl, hget⟩ := hafter.exists_entry hknown
    rw [get?_set_self] at hget
    rw [hget]
    exact h.recorded entry hentry
  · intro hget
    rw [set_of_get? hget]
    exact h

theorem remove (notebookId : Text) :
    ListsManifest (locations.delete notebookId) (manifest.removeNotebookEntry notebookId) where
  listed := by
    rw [StorageManifest.paths_removeNotebookEntry, keys_delete, h.listed]
  recorded := by
    intro entry hentry
    obtain ⟨hmem, hne⟩ := mem_filter.mp hentry
    rw [get?_delete, if_neg (of_decide_eq_true hne)]
    exact h.recorded entry hmem

/-- Locations that run ahead of a removal. -/
theorem delete_iff :
    ListsManifest (locations.delete notebookId) manifest ↔ notebookId ∉ locations.keys := by
  constructor
  · intro hafter hknown
    rw [h.listed, ← hafter.listed] at hknown
    exact (InsertionMap.mem_keys_delete.mp hknown).1 rfl
  · intro hunknown
    rw [InsertionMap.delete_of_not_mem hunknown]
    exact h

end

end ListsManifest

/-! ## Reordered locations -/

section Reorder

variable {previous reordered : InsertionMap Text NotebookLocation} {orderedIds : List Text} {id : Text}

/-- Locations of some known ids, in the order of the ids. -/
structure Holds (previous : InsertionMap Text NotebookLocation) (ids : List Text)
    (reordered : InsertionMap Text NotebookLocation) : Prop where
  keys : reordered.keys = ids
  get? : ∀ id ∈ ids, reordered.get? id = previous.get? id

/-- A known id goes to the end, unless it is there already. -/
theorem Holds.push {ids : List Text} (h : Holds previous ids reordered) {loc : NotebookLocation}
    (hknown : previous.get? id = some loc) :
    Holds previous (if id ∈ ids then ids else ids ++ [id])
      (if (reordered.get? id).isSome then reordered else reordered.set id loc) := by
  have hseen : (reordered.get? id).isSome ↔ id ∈ ids := by
    rw [← h.keys, mem_keys_iff, Option.isSome_iff_exists]
  by_cases hmem : id ∈ ids
  · rw [if_pos hmem, if_pos (hseen.mpr hmem)]
    exact h
  · rw [if_neg hmem, if_neg fun hsome => hmem (hseen.mp hsome)]
    refine ⟨?_, ?_⟩
    · rw [keys_set_of_not_mem (h.keys ▸ hmem), h.keys]
    · intro other hother
      rw [get?_set]
      split_ifs with heq
      · rw [heq, hknown]
      · rcases mem_append.mp hother with hold | hnew
        · exact h.get? other hold
        · exact absurd (mem_singleton.mp hnew) heq

theorem holds_reorderListed (orderedIds : List Text)
    (previous : InsertionMap Text NotebookLocation) :
    Holds previous (firstKnown orderedIds previous.keys) (reorderListed orderedIds previous) := by
  induction orderedIds using List.reverseRecOn with
  | nil => exact ⟨rfl, fun id hid => absurd hid not_mem_nil⟩
  | append_singleton ids id ih =>
    rw [firstKnown_concat]
    unfold reorderListed at ih ⊢
    rw [foldl_append, foldl_cons, foldl_nil]
    cases hget : previous.get? id with
    | none =>
      have hunknown : id ∉ previous.keys := get?_eq_none_iff.mp hget
      rw [if_neg fun h => hunknown h.1]
      exact ih
    | some loc =>
      have hknown : id ∈ previous.keys := mem_keys_iff.mpr ⟨loc, hget⟩
      have hpush := ih.push hget
      by_cases hlisted : id ∈ firstKnown ids previous.keys
      · rw [if_pos hlisted] at hpush
        rw [if_neg fun h => h.2 hlisted]
        exact hpush
      · rw [if_neg hlisted] at hpush
        rw [if_pos ⟨hknown, hlisted⟩]
        exact hpush

/-- The second loop, over some of the entries that there were. -/
theorem holds_foldl {entries : List (Text × NotebookLocation)} :
    ∀ {ids : List Text} {reordered : InsertionMap Text NotebookLocation},
      Holds previous ids reordered →
      (∀ entry ∈ entries, previous.get? entry.1 = some entry.2) →
      (entries.map Prod.fst).Nodup →
      Holds previous (ids ++ (entries.map Prod.fst).filter fun id => id ∉ ids)
        (entries.foldl
          (fun reordered (id, loc) =>
            if (reordered.get? id).isSome then reordered else reordered.set id loc)
          reordered) := by
  induction entries with
  | nil =>
    intro ids reordered h _ _
    rw [map_nil, filter_nil, append_nil]
    exact h
  | cons entry entries ih =>
    intro ids reordered h hknown hnodup
    obtain ⟨hhead, htail⟩ := nodup_cons.mp hnodup
    have hpush := h.push (hknown entry mem_cons_self)
    have hrest := ih hpush (fun other hother => hknown other (mem_cons_of_mem _ hother)) htail
    rw [foldl_cons, map_cons, filter_cons]
    by_cases hmem : entry.1 ∈ ids
    · simp only [if_pos hmem] at hrest
      simp only [hmem, not_true_eq_false, decide_false, Bool.false_eq_true, if_false]
      exact hrest
    · simp only [if_neg hmem] at hrest
      simp only [hmem, not_false_eq_true, decide_true, if_true]
      -- the keys behind an entry differ from its own
      have hfilter : (entries.map Prod.fst).filter (fun id => id ∉ ids ++ [entry.1]) =
          (entries.map Prod.fst).filter fun id => id ∉ ids := by
        apply filter_congr
        intro id hid
        have hne : id ≠ entry.1 := fun heq => hhead (heq ▸ hid)
        simp [hne]
      rw [hfilter, append_assoc] at hrest
      exact hrest

theorem holds_reorderLocations (orderedIds : List Text)
    (previous : InsertionMap Text NotebookLocation) :
    Holds previous
      (firstKnown orderedIds previous.keys ++
        previous.keys.filter fun id => id ∉ firstKnown orderedIds previous.keys)
      (reorderLocations orderedIds previous) :=
  holds_foldl (holds_reorderListed orderedIds previous)
    (fun _ hentry => get?_eq_some_iff.mpr hentry) previous.nodup

theorem get?_reorderLocations (hknown : id ∈ previous.keys) :
    (reorderLocations orderedIds previous).get? id = previous.get? id := by
  apply (holds_reorderLocations orderedIds previous).get?
  by_cases hlisted : id ∈ firstKnown orderedIds previous.keys
  · exact mem_append_left _ hlisted
  · exact mem_append_right _ (mem_filter.mpr ⟨hknown, decide_eq_true hlisted⟩)

end Reorder

namespace ListsManifest

variable {locations : InsertionMap Text NotebookLocation} {manifest : StorageManifest S}
  {entry : NotebookEntry} {notebookId dir : Text} {orderedIds : List Text}

theorem reorder (h : ListsManifest locations manifest) (orderedIds : List Text) :
    ListsManifest (reorderLocations orderedIds locations)
      (manifest.reorderNotebooks orderedIds) where
  listed := by
    rw [(holds_reorderLocations orderedIds locations).keys, h.listed]
    unfold StorageManifest.paths StorageManifest.reorderNotebooks
    have htaken := StorageManifest.taken_takeListed manifest.notebooks orderedIds
    have hfirst := taken_eq_firstKnown manifest.notebooks orderedIds
    dsimp only
    rw [map_append, htaken.paths, hfirst, filter_map]
    rfl
  recorded := by
    intro entry hentry
    have hmem : entry ∈ manifest.notebooks := by
      rcases mem_append.mp hentry with hlisted | hrest
      · exact (StorageManifest.taken_takeListed manifest.notebooks orderedIds).mem entry hlisted
      · exact (mem_filter.mp hrest).1
    have hknown : entry.path ∈ locations.keys := by
      rw [h.listed]
      exact mem_map_of_mem hmem
    rw [get?_reorderLocations hknown]
    exact h.recorded entry hmem

theorem reorder_iff (h : ListsManifest locations manifest) :
    ListsManifest (reorderLocations orderedIds locations) manifest ↔
      firstKnown orderedIds locations.keys <+: locations.keys := by
  have hkeys := (holds_reorderLocations orderedIds locations).keys
  constructor
  · intro hafter
    rw [hafter.listed, ← h.listed] at hkeys
    exact ⟨_, hkeys.symm⟩
  · intro ⟨rest, hrest⟩
    have hnodup := locations.nodup_keys
    rw [← hrest, nodup_append] at hnodup
    have hfilter : locations.keys.filter (fun id => id ∉ firstKnown orderedIds locations.keys) =
        rest := by
      conv_lhs => rw [← hrest]
      rw [filter_append, filter_eq_nil_iff.mpr, filter_eq_self.mpr, nil_append]
      · intro id hid
        exact decide_eq_true fun hlisted => hnodup.2.2 id (hrest ▸ hlisted) id hid rfl
      · intro id hid hnot
        exact of_decide_eq_true hnot (hrest.symm ▸ hid)
    rw [hfilter, hrest] at hkeys
    refine ⟨hkeys.trans h.listed, ?_⟩
    intro entry hentry
    have hknown : entry.path ∈ locations.keys := by
      rw [h.listed]
      exact mem_map_of_mem hentry
    rw [get?_reorderLocations hknown]
    exact h.recorded entry hentry

end ListsManifest

/-! ## Steps -/

section Steps

variable {backend : CompositeStorageBackend S} {manifest : StorageManifest S}
  {locations : InsertionMap Text NotebookLocation} {operation : RegistryOperation S}
  {change : InsertionMap Text NotebookLocation → InsertionMap Text NotebookLocation}
  {notebookId dir : Text} {written : Bool} {entry : NotebookEntry}

theorem locationFromEntry_nativeEntry (hdir : dir ≠ []) :
    locationFromEntry (nativeEntry notebookId dir) = { type := .native, nativePath := some dir } := by
  cases dir with
  | nil => exact absurd rfl hdir
  | cons c path => rfl

/-- A recorded location is that of OPFS or of a directory. -/
theorem locationFromEntry_cases (entry : NotebookEntry) :
    locationFromEntry entry = { type := .opfs } ∨
      ∃ dir, dir ≠ [] ∧ (locationFromEntry entry).directory = some dir ∧
        locationFromEntry entry = { type := .native, nativePath := some dir } := by
  unfold locationFromEntry
  split
  next c path _ _ => exact .inr ⟨c :: path, cons_ne_nil _ _, rfl, rfl⟩
  next => exact .inl rfl

theorem inSync_iff (hread : readManifest backend.file = some manifest) :
    backend.InSync ↔ ListsManifest backend.locations manifest := by
  constructor
  · intro ⟨found, hfound, hlists⟩
    rw [hread] at hfound
    obtain rfl := Option.some.inj hfound
    exact hlists
  · intro hlists
    exact ⟨manifest, hread, hlists⟩

theorem writeRegistry_of_read {file : ManifestFile S} (hread : readManifest file = some manifest) :
    writeRegistry operation written file =
      if written then some (.written (operation.update manifest)) else none := by
  rw [writeRegistry, hread, Option.map_some]

theorem inSync_persist_iff (hread : readManifest backend.file = some manifest) :
    (backend.persist operation written).InSync ↔
      ListsManifest backend.locations (if written then operation.update manifest else manifest) := by
  apply inSync_iff
  rw [persist, writeRegistry_of_read hread]
  cases written with
  | false => exact hread
  | true => rfl

theorem inSync_persistThen_iff (hread : readManifest backend.file = some manifest) :
    (backend.persistThen operation written change).InSync ↔
      ListsManifest (if written then change backend.locations else backend.locations)
        (if written then operation.update manifest else manifest) := by
  rw [persistThen, writeRegistry_of_read hread]
  cases written with
  | false => exact inSync_iff hread
  | true => exact inSync_iff rfl

theorem ListsManifest.refresh (hnodup : manifest.paths.Nodup) :
    ListsManifest
      (manifest.notebooks.foldl
        (fun locations entry => locations.set entry.path (locationFromEntry entry))
        InsertionMap.empty)
      manifest := by
  obtain ⟨notebooks, appSettings⟩ := manifest
  have hbuilt : ∀ notebooks : List NotebookEntry, (notebooks.map NotebookEntry.path).Nodup →
      let locations := notebooks.foldl
        (fun locations entry => locations.set entry.path (locationFromEntry entry))
        InsertionMap.empty
      locations.keys = notebooks.map NotebookEntry.path ∧
        ∀ entry ∈ notebooks, locations.get? entry.path = some (locationFromEntry entry) := by
    intro notebooks
    induction notebooks using List.reverseRecOn with
    | nil => exact fun _ => ⟨rfl, fun entry hentry => absurd hentry not_mem_nil⟩
    | append_singleton notebooks last ih =>
      intro hnodup
      rw [map_append, map_singleton, nodup_append] at hnodup
      obtain ⟨hkeys, hget⟩ := ih hnodup.1
      have hfresh : last.path ∉ notebooks.map NotebookEntry.path :=
        fun hmem => hnodup.2.2 _ hmem _ (mem_singleton.mpr rfl) rfl
      dsimp only at hkeys hget ⊢
      rw [foldl_append, foldl_cons, foldl_nil, map_append, map_singleton]
      refine ⟨?_, ?_⟩
      · rw [keys_set_of_not_mem (hkeys ▸ hfresh), hkeys]
      · intro entry hentry
        rcases mem_append.mp hentry with hold | hnew
        · have hne : entry.path ≠ last.path := fun heq => hfresh (heq ▸ mem_map_of_mem hold)
          rw [get?_set_of_ne hne]
          exact hget entry hold
        · rw [mem_singleton.mp hnew]
          exact get?_set_self
  exact ⟨(hbuilt notebooks hnodup).1, (hbuilt notebooks hnodup).2⟩

/-- After a refresh the locations list a manifest whose entries have paths of their own. -/
theorem inSync_refreshLocations (hread : readManifest backend.file = some manifest)
    (hpaths : ∀ entry ∈ manifest.notebooks, entry.path ≠ []) (hnodup : manifest.paths.Nodup) :
    (backend.refreshLocations true).InSync := by
  have hlist : listNotebooks backend.file = some manifest.notebooks := by
    rw [listNotebooks, hread, Option.bind_some, if_pos hpaths]
  rw [refreshLocations, if_pos rfl, hlist]
  apply (inSync_iff _).mpr (ListsManifest.refresh hnodup)
  exact hread

theorem ListsManifest.switch_iff (h : ListsManifest locations manifest) :
    ListsManifest (locations.set notebookId { type := .native, nativePath := some dir })
        (manifest.upsertNotebookEntry (nativeEntry notebookId dir)) ↔ dir ≠ [] := by
  constructor
  · intro hafter hdir
    have hget := hafter.recorded (nativeEntry notebookId dir) ((mem_upsert h.nodup).mpr (.inl rfl))
    have hself := @get?_set_self Text NotebookLocation _ locations notebookId
      { type := .native, nativePath := some dir }
    rw [show (nativeEntry notebookId dir).path = notebookId from rfl, hself, hdir,
      show locationFromEntry (nativeEntry notebookId []) = { type := .opfs } from rfl] at hget
    exact absurd hget (by decide)
  · intro hdir
    have hafter := h.upsert (nativeEntry notebookId dir)
    rw [locationFromEntry_nativeEntry hdir] at hafter
    exact hafter

theorem inSync_saveNotebookManifest_iff (hread : readManifest backend.file = some manifest)
    (h : ListsManifest backend.locations manifest) {saved : Bool} :
    (backend.saveNotebookManifest notebookId saved written).InSync ↔
      (saved → written → notebookId ∈ backend.locations.keys) := by
  unfold saveNotebookManifest
  cases saved with
  | false => simpa using (inSync_iff hread).mpr h
  | true =>
    simp only [if_true, forall_const]
    by_cases hknown : notebookId ∈ backend.locations.keys
    · obtain ⟨entry, hentry, rfl, hget⟩ := h.exists_entry hknown
      have hloc : backend.locationOf entry.path = locationFromEntry entry := by
        rw [locationOf, hget, Option.getD_some]
      simp only [hknown, implies_true, iff_true, hloc]
      -- the entry that is written records the location that there is
      rcases locationFromEntry_cases entry with hopfs | ⟨dir, hdir, hdirectory, hnative⟩
      · rw [hopfs, show ({ type := .opfs } : NotebookLocation).directory = none from rfl,
          inSync_persist_iff hread]
        cases written with
        | false => exact h
        | true => exact h.upsert_iff.mpr (hget.trans (congrArg some hopfs))
      · rw [hdirectory, inSync_persist_iff hread]
        cases written with
        | false => exact h
        | true =>
          refine h.upsert_iff.mpr (hget.trans ?_)
          rw [locationFromEntry_nativeEntry hdir, hnative]
    · have hget : backend.locations.get? notebookId = none :=
        get?_eq_none_iff.mpr hknown
      rw [locationOf, hget, Option.getD_none,
        show ({ type := .opfs } : NotebookLocation).directory = none from rfl,
        inSync_persist_iff hread]
      cases written with
      | false => simpa using h
      | true =>
        simp only [if_true, hknown, forall_const, iff_false]
        intro hafter
        have hrecorded := h.upsert_iff.mp hafter
        rw [show ({ path := notebookId, storageType := some .opfs } : NotebookEntry).path =
          notebookId from rfl, hget] at hrecorded
        cases hrecorded

/-- A step keeps the locations in step with the registry exactly if it meets the condition. -/
theorem inSync_step_iff (hsync : backend.InSync) (operation : CompositeOperation S) :
    (step operation backend).InSync ↔ KeepsLocations operation backend := by
  obtain ⟨manifest, hread, h⟩ := hsync
  have hstay : backend.InSync := (inSync_iff hread).mpr h
  cases operation with
  | refreshLocations listed =>
    refine iff_of_true ?_ trivial
    by_cases hlisted : listed = true ∧ ∀ entry ∈ manifest.notebooks, entry.path ≠ []
    · obtain ⟨rfl, hpaths⟩ := hlisted
      exact inSync_refreshLocations hread hpaths h.nodup
    · have hnone : (if listed then listNotebooks backend.file else none) = none := by
        rw [listNotebooks, hread, Option.bind_some]
        cases listed with
        | false => rfl
        | true =>
          rw [if_pos rfl, if_neg]
          exact fun hpaths => hlisted ⟨rfl, hpaths⟩
      rw [step, refreshLocations, hnone]
      exact hstay
  | saveAppSettings settings written =>
    refine iff_of_true ((inSync_persist_iff hread).mpr ?_) trivial
    cases written with
    | false => exact h
    | true => exact ⟨h.listed, h.recorded⟩
  | saveNotebookManifest notebookId saved written => exact inSync_saveNotebookManifest_iff hread h
  | upsertNotebookEntry entry written =>
    have hpersist := @inSync_persist_iff S
      { backend with locations := backend.locations.set entry.path (locationFromEntry entry) }
      manifest (.upsertNotebookEntry entry) written hread
    rw [step, upsertNotebookEntry, hpersist]
    cases written with
    | false => simpa [KeepsLocations] using h.set_iff
    | true => simpa [KeepsLocations, RegistryOperation.update] using h.upsert entry
  | removeNotebookEntry notebookId written =>
    have hpersist := @inSync_persist_iff S
      { backend with locations := backend.locations.delete notebookId }
      manifest (.removeNotebookEntry notebookId) written hread
    rw [step, removeNotebookEntry, hpersist]
    cases written with
    | false => simpa [KeepsLocations] using h.delete_iff
    | true => simpa [KeepsLocations, RegistryOperation.update] using h.remove notebookId
  | reorderNotebooks orderedIds written =>
    have hpersist := @inSync_persist_iff S
      { backend with locations := reorderLocations orderedIds backend.locations }
      manifest (.reorderNotebooks orderedIds) written hread
    rw [step, reorderNotebooks, hpersist]
    cases written with
    | false => simpa [KeepsLocations] using h.reorder_iff
    | true => simpa [KeepsLocations, RegistryOperation.update] using h.reorder orderedIds
  | deleteNotebook notebookId deleted written =>
    refine iff_of_true ?_ trivial
    -- both branches remove the entry and the location, or neither
    have hboth : ∀ operation : RegistryOperation S,
        operation.update manifest = manifest.removeNotebookEntry notebookId →
        (backend.persistThen operation written (·.delete notebookId)).InSync := by
      intro operation hupdate
      rw [inSync_persistThen_iff hread, hupdate]
      cases written with
      | false => exact h
      | true => exact h.remove notebookId
    rw [step, deleteNotebook]
    split
    · exact hboth _ rfl
    · cases deleted with
      | false => exact hstay
      | true => exact hboth _ rfl
  | relocateNotebookToNative uuid dir copied written =>
    rw [step, relocateNotebookToNative, KeepsLocations]
    by_cases hmoved : (backend.locationOf uuid).type = .opfs ∧ copied
    · rw [if_pos hmoved, inSync_persistThen_iff hread]
      cases written with
      | false => simpa using h
      | true => simpa [hmoved.1, hmoved.2, RegistryOperation.update] using h.switch_iff
    · rw [if_neg hmoved]
      refine iff_of_true hstay ?_
      intro hopfs hcopied
      exact absurd ⟨hopfs, hcopied⟩ hmoved
  | loadNativeNotebook uuid dir loaded written =>
    rw [step, loadNativeNotebook, KeepsLocations]
    by_cases hnew : loaded ∧ uuid ∉ backend.locations.keys
    · rw [if_pos hnew, inSync_persistThen_iff hread]
      cases written with
      | false => simpa using h
      | true => simpa [hnew.1, hnew.2, RegistryOperation.update] using h.switch_iff
    · rw [if_neg hnew]
      refine iff_of_true hstay ?_
      intro hloaded hfresh
      exact absurd ⟨hloaded, hfresh⟩ hnew
  | clearAllStorage written =>
    rw [step, KeepsLocations]
    cases written with
    | true =>
      refine iff_of_true ?_ (fun hfailed => absurd rfl hfailed)
      exact (inSync_iff rfl).mpr ⟨rfl, fun entry hentry => absurd hentry not_mem_nil⟩
    | false =>
      have hafter : (backend.clearAllStorage false).InSync ↔
          ListsManifest InsertionMap.empty manifest := inSync_iff hread
      rw [hafter]
      constructor
      · intro hempty _
        rw [h.listed, ← hempty.listed]
        rfl
      · intro hkeys
        have hpaths : manifest.paths = [] := by
          rw [← h.listed]
          exact hkeys (by decide)
        have hnone : manifest.notebooks = [] := map_eq_nil_iff.mp hpaths
        refine ⟨hpaths.symm, ?_⟩
        rw [hnone]
        exact fun entry hentry => absurd hentry not_mem_nil

end Steps

/-! ## Runs -/

/-- In a run whose steps meet the condition the locations list the manifest; so the notebook order
is that of the manifest, and a directory is never loaded over a registered notebook. -/
theorem locations_inSync_of_run {first : CompositeStorageBackend S}
    {operations : List (CompositeOperation S)} (hfirst : first.InSync)
    (hkeeps : ReplayMeets step KeepsLocations operations first)
    (front back : List (CompositeOperation S)) (hreached : operations = front ++ back) :
    let reached := replay step front first
    ∃ manifest, readManifest reached.file = some manifest ∧
      reached.locations.entries =
        manifest.notebooks.map (fun entry => (entry.path, locationFromEntry entry)) ∧
      reached.getNotebookOrder = manifest.paths ∧
      ∀ uuid ∈ manifest.paths, ∀ dir loaded written,
        step (.loadNativeNotebook uuid dir loaded written) reached = reached := by
  intro reached
  rw [hreached] at hkeeps
  have hsync : reached.InSync := replay_invariant InSync
    (fun operation backend hsync hstep => (inSync_step_iff hsync operation).mpr hstep)
    hfirst hkeeps.left
  obtain ⟨manifest, hread, h⟩ := hsync
  refine ⟨manifest, hread, h.entries, h.listed, ?_⟩
  · intro uuid hregistered dir loaded written
    rw [step, loadNativeNotebook, if_neg]
    intro hnew
    exact hnew.2 (h.listed ▸ hregistered)

/-- A notebook is registered, moved to a directory and saved there. -/
theorem locations_inSync_relocated :
    let first : CompositeStorageBackend ℕ := ⟨.empty, .missing⟩
    let operations : List (CompositeOperation ℕ) :=
      [.refreshLocations true, .upsertNotebookEntry { path := ['a'] } true,
        .relocateNotebookToNative ['a'] ['d'] true true, .saveNotebookManifest ['a'] true true]
    let reached := replay step operations first
    ∃ manifest, readManifest reached.file = some manifest ∧
      reached.locations.entries =
        manifest.notebooks.map (fun entry => (entry.path, locationFromEntry entry)) ∧
      reached.getNotebookOrder = manifest.paths ∧
      ∀ uuid ∈ manifest.paths, ∀ dir loaded written,
        step (.loadNativeNotebook uuid dir loaded written) reached = reached := by
  intro first operations
  have hfirst : first.InSync := ⟨{ notebooks := [] }, rfl, rfl, by simp⟩
  exact locations_inSync_of_run hfirst (by decide) operations [] rfl

/-- A new notebook is saved, and then a directory that holds a notebook of the same id is loaded:
the saved notebook is registered, but has no location, and its entry is replaced. -/
theorem loadNativeNotebook_replaces_entry :
    let saved := replay step [.refreshLocations true, .saveNotebookManifest ['a'] true true]
      (⟨.empty, .missing⟩ : CompositeStorageBackend ℕ)
    let loaded := step (.loadNativeNotebook ['a'] ['d'] true true) saved
    saved.file = .written { notebooks := [{ path := ['a'], storageType := some .opfs }] } ∧
      saved.getNotebookOrder = [] ∧ ¬ saved.InSync ∧
      loaded.file = .written { notebooks := [nativeEntry ['a'] ['d']] } := by
  intro saved loaded
  refine ⟨by decide, by decide, ?_, by decide⟩
  intro hsync
  have hkeeps : KeepsLocations (.saveNotebookManifest ['a'] true true)
      (⟨.empty, .missing⟩ : CompositeStorageBackend ℕ) :=
    (inSync_step_iff ⟨{ notebooks := [] }, rfl, rfl, by simp⟩ _).mp hsync
  exact absurd hkeeps (by decide)

end CompositeStorageBackend

end DashQL.Storage
