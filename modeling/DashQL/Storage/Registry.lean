import DashQL.Storage.Manifest

/-!
# Registry operations side by side

What the operations do to the notebooks that a manifest lists (`mem_paths_update`), what
that means for operations one after the other (`NothingLost`), and for operations whose
awaits interleave (`registry_serial_of_run`).
-/

namespace DashQL.Storage

open List

open ReadModifyWrite

variable {S : Type}

/-! ## The notebooks of a manifest -/

namespace StorageManifest

def paths (manifest : StorageManifest S) : List Text :=
  manifest.notebooks.map NotebookEntry.path

variable {manifest : StorageManifest S} {entry : NotebookEntry} {path notebookId : Text}
  {orderedIds : List Text}

/-- A known notebook keeps its place; a new one comes last. -/
theorem paths_upsertNotebookEntry :
    (manifest.upsertNotebookEntry entry).paths =
      if entry.path ∈ manifest.paths then manifest.paths else manifest.paths ++ [entry.path] := by
  unfold upsertNotebookEntry paths
  cases hindex : manifest.notebooks.findIdx? fun s => decide (s.path = entry.path) with
  | none =>
    have hfresh : entry.path ∉ manifest.notebooks.map NotebookEntry.path := by
      intro hmem
      obtain ⟨s, hs, hpath⟩ := mem_map.mp hmem
      have hnone := findIdx?_eq_none_iff.mp hindex s hs
      exact absurd hpath (of_decide_eq_false hnone)
    rw [if_neg hfresh, map_append, map_singleton]
  | some existingIndex =>
    obtain ⟨hlt, hpath, -⟩ := findIdx?_eq_some_iff_getElem.mp hindex
    have hpath : manifest.notebooks[existingIndex].path = entry.path := of_decide_eq_true hpath
    have hmem : entry.path ∈ manifest.notebooks.map NotebookEntry.path := by
      rw [← hpath]
      exact mem_map_of_mem (getElem_mem hlt)
    have hlength : existingIndex < (manifest.notebooks.map NotebookEntry.path).length := by
      rw [length_map]
      exact hlt
    have hget : (manifest.notebooks.map NotebookEntry.path)[existingIndex] = entry.path := by
      rw [getElem_map, hpath]
    rw [if_pos hmem, map_set, ← hget, set_getElem_self]

theorem paths_removeNotebookEntry :
    (manifest.removeNotebookEntry notebookId).paths =
      manifest.paths.filter fun path => path ≠ notebookId := by
  unfold removeNotebookEntry paths
  rw [filter_map]
  rfl

/-- What the loop over the ids has taken so far. -/
structure Taken (notebooks reordered : List NotebookEntry) (taken : List Text) : Prop where
  paths : reordered.map NotebookEntry.path = taken
  mem : ∀ entry ∈ reordered, entry ∈ notebooks
  nodup : taken.Nodup

theorem taken_takeListed (notebooks : List NotebookEntry) (orderedIds : List Text) :
    Taken notebooks (takeListed notebooks orderedIds).1 (takeListed notebooks orderedIds).2 := by
  induction orderedIds using List.reverseRecOn with
  | nil => exact ⟨rfl, by simp [takeListed], nodup_nil⟩
  | append_singleton ids id ih =>
    unfold takeListed at ih ⊢
    rw [foldl_append, foldl_cons, foldl_nil]
    -- what the ids before the last one have left
    generalize List.foldl _ _ ids = progress at ih ⊢
    obtain ⟨reordered, taken⟩ := progress
    dsimp only at ih ⊢
    cases hfind : notebooks.reverse.find? fun s => decide (s.path = id) with
    | none => exact ih
    | some entry =>
      have hpath : entry.path = id := by simpa using find?_some hfind
      have hmem : entry ∈ notebooks := mem_reverse.mp (mem_of_find?_eq_some hfind)
      dsimp only
      split_ifs with htaken
      · exact ih
      · refine ⟨?_, ?_, ?_⟩
        · dsimp only
          rw [map_append, ih.paths, map_singleton, hpath]
        · intro other hother
          rcases mem_append.mp hother with hold | hnew
          · exact ih.mem other hold
          · rw [mem_singleton.mp hnew]
            exact hmem
        · exact nodup_append.mpr ⟨ih.nodup, nodup_singleton id,
            fun _ hold _ hnew heq => htaken (mem_singleton.mp hnew ▸ heq ▸ hold)⟩

theorem mem_paths_reorderNotebooks :
    path ∈ (manifest.reorderNotebooks orderedIds).paths ↔ path ∈ manifest.paths := by
  have htaken := taken_takeListed manifest.notebooks orderedIds
  have hpaths : (manifest.reorderNotebooks orderedIds).paths =
      (takeListed manifest.notebooks orderedIds).2 ++
        (manifest.paths.filter fun path => path ∉ (takeListed manifest.notebooks orderedIds).2) := by
    unfold reorderNotebooks paths
    rw [map_append, htaken.paths, filter_map]
    rfl
  rw [hpaths, mem_append, mem_filter]
  constructor
  · intro h
    rcases h with hlisted | ⟨hmem, -⟩
    · rw [← htaken.paths] at hlisted
      obtain ⟨entry, hentry, rfl⟩ := mem_map.mp hlisted
      exact mem_map_of_mem (htaken.mem entry hentry)
    · exact hmem
  · intro hmem
    by_cases hlisted : path ∈ (takeListed manifest.notebooks orderedIds).2
    · exact .inl hlisted
    · exact .inr ⟨hmem, decide_eq_true hlisted⟩

end StorageManifest

/-! ## One operation after the other -/

section Sequential

variable {manifest : StorageManifest S}

/-- The notebooks that are listed after an operation. -/
theorem mem_paths_update (operation : RegistryOperation S) {path : Text} :
    path ∈ (operation.update manifest).paths ↔
      operation.Inserts path ∨ path ∈ manifest.paths ∧ ¬ operation.Removes path := by
  have hupsert : ∀ entry : NotebookEntry, path ∈ (manifest.upsertNotebookEntry entry).paths ↔
      entry.path = path ∨ path ∈ manifest.paths := by
    intro entry
    rw [StorageManifest.paths_upsertNotebookEntry]
    split_ifs with hmem
    · rw [or_iff_right_of_imp]
      intro heq
      rw [← heq]
      exact hmem
    · rw [mem_append, mem_singleton, or_comm, eq_comm]
  have hremove : ∀ notebookId, path ∈ (manifest.removeNotebookEntry notebookId).paths ↔
      path ∈ manifest.paths ∧ ¬ notebookId = path := by
    intro notebookId
    rw [StorageManifest.paths_removeNotebookEntry, mem_filter, decide_eq_true_iff, ne_comm]
  cases operation with
  | upsertNotebookEntry entry =>
    simp [RegistryOperation.update, RegistryOperation.Inserts, RegistryOperation.Removes, hupsert]
  | removeNotebookEntry notebookId =>
    simp [RegistryOperation.update, RegistryOperation.Inserts, RegistryOperation.Removes, hremove]
  | reorderNotebooks orderedIds =>
    simp [RegistryOperation.update, RegistryOperation.Inserts, RegistryOperation.Removes,
      StorageManifest.mem_paths_reorderNotebooks]
  | saveAppSettings settings =>
    simp [RegistryOperation.update, RegistryOperation.Inserts, RegistryOperation.Removes,
      StorageManifest.saveAppSettings, StorageManifest.paths]
  | saveNotebookManifest notebookId =>
    simp [RegistryOperation.update, RegistryOperation.Inserts, RegistryOperation.Removes, hupsert]
  | deleteNotebook notebookId =>
    simp [RegistryOperation.update, RegistryOperation.Inserts, RegistryOperation.Removes, hremove]

theorem appSettings_update (operation : RegistryOperation S) :
    (∃ settings, operation.Saves settings ∧
        (operation.update manifest).appSettings = some settings) ∨
      (∀ settings, ¬ operation.Saves settings) ∧
        (operation.update manifest).appSettings = manifest.appSettings := by
  cases operation with
  | saveAppSettings settings => exact .inl ⟨settings, rfl, rfl⟩
  | reorderNotebooks orderedIds => exact .inr ⟨fun _ => id, rfl⟩
  | removeNotebookEntry notebookId => exact .inr ⟨fun _ => id, rfl⟩
  | deleteNotebook notebookId => exact .inr ⟨fun _ => id, rfl⟩
  | upsertNotebookEntry entry =>
    refine .inr ⟨fun _ => id, ?_⟩
    rw [RegistryOperation.update, StorageManifest.upsertNotebookEntry]
    split <;> rfl
  | saveNotebookManifest notebookId =>
    refine .inr ⟨fun _ => id, ?_⟩
    rw [RegistryOperation.update, StorageManifest.upsertNotebookEntry]
    split <;> rfl

/-- A manifest has what some operations did. -/
structure NothingLost (operations : List (RegistryOperation S)) (manifest : StorageManifest S) :
    Prop where
  inserted : ∀ path, (∃ operation ∈ operations, operation.Inserts path) →
    (∀ operation ∈ operations, ¬ operation.Removes path) → path ∈ manifest.paths
  removed : ∀ path, (∃ operation ∈ operations, operation.Removes path) →
    (∀ operation ∈ operations, ¬ operation.Inserts path) → path ∉ manifest.paths
  saved : (∃ operation ∈ operations, ∃ settings, operation.Saves settings) →
    ∃ operation ∈ operations, ∃ settings, operation.Saves settings ∧
      manifest.appSettings = some settings

theorem NothingLost.update {operations : List (RegistryOperation S)}
    (h : NothingLost operations manifest) (operation : RegistryOperation S) :
    NothingLost (operations ++ [operation]) (operation.update manifest) := by
  have hlast : operation ∈ operations ++ [operation] := by simp
  have hfront : ∀ other ∈ operations, other ∈ operations ++ [operation] :=
    fun other hother => mem_append_left _ hother
  refine ⟨?_, ?_, ?_⟩
  · intro path ⟨found, hfound, hinserts⟩ hremoves
    rw [mem_paths_update]
    rcases mem_append.mp hfound with hold | hnew
    · refine .inr ⟨h.inserted path ⟨found, hold, hinserts⟩ ?_, hremoves operation hlast⟩
      exact fun other hother => hremoves other (hfront other hother)
    · rw [← mem_singleton.mp hnew]
      exact .inl hinserts
  · intro path ⟨found, hfound, hremoves⟩ hinserts
    rw [mem_paths_update]
    intro hmem
    rcases hmem with hinserted | ⟨hmem, hkept⟩
    · exact hinserts operation hlast hinserted
    · rcases mem_append.mp hfound with hold | hnew
      · refine h.removed path ⟨found, hold, hremoves⟩ ?_ hmem
        exact fun other hother => hinserts other (hfront other hother)
      · rw [← mem_singleton.mp hnew] at hkept
        exact hkept hremoves
  · intro ⟨found, hfound, settings, hsaves⟩
    rcases @appSettings_update S manifest operation with ⟨last, hlastSaves, heq⟩ | ⟨hnone, heq⟩
    · exact ⟨operation, hlast, last, hlastSaves, heq⟩
    · rcases mem_append.mp hfound with hold | hnew
      · obtain ⟨other, hother, saved, hother_saves, hsaved⟩ := h.saved ⟨found, hold, settings, hsaves⟩
        exact ⟨other, hfront other hother, saved, hother_saves, heq.trans hsaved⟩
      · rw [mem_singleton.mp hnew] at hsaves
        exact absurd hsaves (hnone settings)

theorem NothingLost.perm {operations operations' : List (RegistryOperation S)}
    (h : NothingLost operations manifest) (hperm : operations.Perm operations') :
    NothingLost operations' manifest := by
  refine ⟨?_, ?_, ?_⟩
  · intro path ⟨operation, hmem, hinserts⟩ hremoves
    exact h.inserted path ⟨operation, hperm.mem_iff.mpr hmem, hinserts⟩
      fun other hother => hremoves other (hperm.mem_iff.mp hother)
  · intro path ⟨operation, hmem, hremoves⟩ hinserts
    exact h.removed path ⟨operation, hperm.mem_iff.mpr hmem, hremoves⟩
      fun other hother => hinserts other (hperm.mem_iff.mp hother)
  · intro ⟨operation, hmem, hsaves⟩
    obtain ⟨other, hother, hsaved⟩ := h.saved ⟨operation, hperm.mem_iff.mpr hmem, hsaves⟩
    exact ⟨other, hperm.mem_iff.mp hother, hsaved⟩

theorem nothingLost_replay {file : ManifestFile S} (order : List (RegistryOperation S)) :
    ∀ {manifest : StorageManifest S},
      readManifest (replay runOperation order file) = some manifest → NothingLost order manifest := by
  induction order using List.reverseRecOn with
  | nil => intro manifest _; exact ⟨by simp, by simp, by simp⟩
  | append_singleton order operation ih =>
    intro manifest hmanifest
    rw [replay_append, replay_cons, replay_nil, runOperation, runAlone] at hmanifest
    split at hmanifest
    next hnone =>
      rw [hnone] at hmanifest
      cases hmanifest
    next seen hseen =>
      obtain rfl := Option.some.inj hmanifest
      exact (ih hseen).update operation

end Sequential

/-! ## Interleaved operations -/

/-- Registry operations that interleave at their awaits, each of whose writes finds the manifest
that was read for it, leave what they leave in some order, one after the other, and lose nothing. -/
theorem registry_serial_of_run {file : ManifestFile S} {operations : List (RegistryOperation S × ℕ)}
    {steps : List ℕ} {last : Registry S}
    (hundisturbed : RunUndisturbed readManifest RegistryOperation.update .written
      (Registry.called file operations) steps)
    (hrun : (Registry.called file operations).run steps = some last) (hended : AllEnded last) :
    (∃ order, order.Perm (operations.map Prod.fst) ∧
        last.content = replay runOperation order file) ∧
      ∀ manifest, readManifest last.content = some manifest →
        NothingLost (operations.map Prod.fst) manifest := by
  obtain ⟨order, hperm, hcontent⟩ := exists_order_of_run hundisturbed hrun hended
  refine ⟨⟨order, hperm, hcontent⟩, ?_⟩
  intro manifest hmanifest
  rw [hcontent] at hmanifest
  exact (nothingLost_replay order hmanifest).perm hperm

/-- A notebook is inserted after another one. -/
theorem registry_serial_oneByOne :
    let operations : List (RegistryOperation ℕ × ℕ) :=
      [(.upsertNotebookEntry { path := ['a'] }, 0), (.upsertNotebookEntry { path := ['b'] }, 1)]
    let last : Registry ℕ :=
      ⟨.written { notebooks := [{ path := ['a'] }, { path := ['b'] }] },
        [(.upsertNotebookEntry { path := ['a'] }, .ended),
          (.upsertNotebookEntry { path := ['b'] }, .ended)]⟩
    (∃ order, order.Perm (operations.map Prod.fst) ∧
        last.content = replay runOperation order .missing) ∧
      ∀ manifest, readManifest last.content = some manifest →
        NothingLost (operations.map Prod.fst) manifest := by
  intro operations last
  exact @registry_serial_of_run ℕ .missing operations [1, 0, 0, 1, 1] last (by decide) (by decide)
    (by decide)

/-! ## A lost notebook -/

/-- Two notebooks are inserted side by side, and both reads come before both writes. -/
theorem registry_loses_notebook :
    ∃ last : Registry ℕ,
      (Registry.called .missing
        [(.upsertNotebookEntry { path := ['a'] }, 0), (.upsertNotebookEntry { path := ['b'] }, 0)]).run
          [0, 1, 0, 1] = some last ∧
      AllEnded last ∧
      ¬ ∃ order, order.Perm
          [.upsertNotebookEntry { path := ['a'] }, .upsertNotebookEntry { path := ['b'] }] ∧
        last.content = replay runOperation order .missing := by
  refine ⟨⟨.written { notebooks := [{ path := ['b'] }] },
    [(.upsertNotebookEntry { path := ['a'] }, .ended),
      (.upsertNotebookEntry { path := ['b'] }, .ended)]⟩, by decide, by decide, ?_⟩
  intro ⟨order, hperm, hcontent⟩
  have hlost := (nothingLost_replay order (congrArg readManifest hcontent).symm).perm hperm
  have hmem := hlost.inserted ['a'] ⟨_, mem_cons_self, rfl⟩ (by
    simp [RegistryOperation.Removes])
  exact absurd hmem (by decide)

end DashQL.Storage
