import Mathlib

/-!
# Evicting cached query results

Before a query result is cached, the files that were accessed the longest ago are deleted until
the new one fits, both by the bytes and by the number of files.  The totals are counted along
while the files are deleted, and what the loop keeps of them is what they say about the files
that are left (`EvictionState.Counts`).
-/

namespace DashQL.Storage

open List

structure CacheFileStat where
  name : String
  size : ℚ
  mtimeMs : ℚ
  lastAccessMs : ℚ
  deriving DecidableEq

/-- The cache folder of a notebook, in which a name stands for one file. -/
structure CacheFolder where
  files : List CacheFileStat
  nodup : (files.map CacheFileStat.name).Nodup

/-- `deleteCacheFile`, which tolerates a missing file. -/
def CacheFolder.deleteCacheFile (folder : CacheFolder) (name : String) : CacheFolder where
  files := folder.files.filter fun file => file.name ≠ name
  nodup := folder.nodup.sublist (filter_sublist.map _)

/-- What a new entry has to fit into. -/
structure CacheLimits where
  incomingBytes : ℚ
  maxBytes : ℚ := 512 * 1024 * 1024
  maxFiles : ℚ := 200

/-- The variables of `evictToFit`, with the files that were deleted. -/
structure EvictionState where
  folder : CacheFolder
  totalBytes : ℚ
  count : ℚ
  deleted : List CacheFileStat := []

section Evict

variable (limits : CacheLimits)

/-- Whether there is room for the incoming entry. -/
def EvictionState.hasRoom (state : EvictionState) : Bool :=
  state.totalBytes + limits.incomingBytes ≤ limits.maxBytes ∧ state.count + 1 ≤ limits.maxFiles

/-- The loop over the files by their age. -/
def evictLoop : List CacheFileStat → EvictionState → EvictionState
  | [], state => state
  | file :: byAge, state =>
    if state.hasRoom limits then state
    else
      evictLoop byAge
        { folder := state.folder.deleteCacheFile file.name
          totalBytes := state.totalBytes - file.size
          count := state.count - 1
          deleted := state.deleted ++ [file] }

/-- The files, the ones that were accessed the longest ago first. -/
def byAge (files : List CacheFileStat) : List CacheFileStat :=
  files.mergeSort fun a b => a.lastAccessMs - b.lastAccessMs ≤ 0

/-- The sum of the sizes, as the first loop adds them up. -/
def totalSize (files : List CacheFileStat) : ℚ :=
  files.foldl (fun totalBytes file => totalBytes + file.size) 0

def evictToFit (folder : CacheFolder) : EvictionState :=
  let state : EvictionState :=
    { folder := folder, totalBytes := totalSize folder.files, count := folder.files.length }
  if state.hasRoom limits then state else evictLoop limits (byAge folder.files) state

end Evict

/-! ## What was deleted -/

/-- Files leave room for the incoming entry. -/
def CacheFits (limits : CacheLimits) (files : List CacheFileStat) : Prop :=
  (files.map CacheFileStat.size).sum + limits.incomingBytes ≤ limits.maxBytes ∧
    (files.length : ℚ) + 1 ≤ limits.maxFiles

/-- Files were deleted to make room: the ones that were accessed the longest ago, in that order,
and no more than necessary. -/
structure Evicts (limits : CacheLimits) (files deleted kept : List CacheFileStat) : Prop where
  deleted_subset : deleted ⊆ files
  kept_eq : kept = files.filter fun file => file ∉ deleted
  oldest_first : deleted.Pairwise fun file later => file.lastAccessMs ≤ later.lastAccessMs
  accessed : ∀ file ∈ deleted, ∀ other ∈ kept, file.lastAccessMs ≤ other.lastAccessMs
  fits : CacheFits limits kept ∨ kept = []
  necessary : ∀ front last back, deleted = front ++ last :: back →
    ¬ CacheFits limits (files.filter fun file => file ∉ front)

theorem totalSize_eq (files : List CacheFileStat) :
    totalSize files = (files.map CacheFileStat.size).sum := by
  have hfold : ∀ (files : List CacheFileStat) (start : ℚ),
      files.foldl (fun totalBytes file => totalBytes + file.size) start =
        start + (files.map CacheFileStat.size).sum := by
    intro files
    induction files with
    | nil => exact fun start => (add_zero start).symm
    | cons file files ih =>
      intro start
      rw [foldl_cons, ih, map_cons, sum_cons, add_assoc]
  rw [totalSize, hfold, zero_add]

theorem byAge_perm (files : List CacheFileStat) : (byAge files).Perm files :=
  mergeSort_perm _ _

theorem byAge_pairwise (files : List CacheFileStat) :
    (byAge files).Pairwise fun file later => file.lastAccessMs ≤ later.lastAccessMs := by
  have hsorted : (byAge files).Pairwise fun a b =>
      decide (a.lastAccessMs - b.lastAccessMs ≤ 0) = true := by
    apply pairwise_mergeSort
    · intro a b c
      simp only [decide_eq_true_eq, sub_nonpos]
      exact le_trans
    · intro a b
      simp only [Bool.or_eq_true, decide_eq_true_eq, sub_nonpos]
      exact le_total _ _
  exact hsorted.imp fun h => sub_nonpos.mp (of_decide_eq_true h)

/-- The files of a folder that are left, in the order of their age, and the totals of them. -/
structure EvictionState.Counts (state : EvictionState) (pending : List CacheFileStat) : Prop where
  perm : state.folder.files.Perm pending
  totalBytes : state.totalBytes = (pending.map CacheFileStat.size).sum
  count : state.count = (pending.length : ℚ)

variable {limits : CacheLimits} {state : EvictionState} {pending : List CacheFileStat}

theorem cacheFits_perm {files files' : List CacheFileStat} (h : files.Perm files') :
    CacheFits limits files ↔ CacheFits limits files' := by
  rw [CacheFits, CacheFits, (h.map _).sum_eq, h.length_eq]

/-- The totals say whether there is room. -/
theorem EvictionState.Counts.hasRoom_iff (h : state.Counts pending) :
    state.hasRoom limits = true ↔ CacheFits limits pending := by
  rw [EvictionState.hasRoom, decide_eq_true_eq, h.totalBytes, h.count, CacheFits]

/-- A deleted file leaves the other ones, and their totals. -/
theorem EvictionState.Counts.delete {file : CacheFileStat} (h : state.Counts (file :: pending)) :
    EvictionState.Counts
      { folder := state.folder.deleteCacheFile file.name
        totalBytes := state.totalBytes - file.size
        count := state.count - 1
        deleted := state.deleted ++ [file] } pending where
  perm := by
    have hnodup := (h.perm.map CacheFileStat.name).nodup_iff.mp state.folder.nodup
    obtain ⟨hnew, -⟩ := nodup_cons.mp hnodup
    have hfilter := h.perm.filter fun other => other.name ≠ file.name
    have hpending : (pending.filter fun other => other.name ≠ file.name) = pending := by
      rw [filter_eq_self]
      intro other hother
      have hne : other.name ≠ file.name := fun heq => hnew (heq ▸ mem_map_of_mem hother)
      exact decide_eq_true hne
    rw [filter_cons_of_neg (by simp), hpending] at hfilter
    exact hfilter
  totalBytes := by
    show state.totalBytes - file.size = _
    rw [h.totalBytes, map_cons, sum_cons, add_sub_cancel_left]
  count := by
    show state.count - 1 = _
    rw [h.count, length_cons, Nat.cast_succ, add_sub_cancel_right]

/-- The loop deletes a front part of the files by their age: it ends as soon as the rest fits. -/
theorem evictLoop_spec (limits : CacheLimits) (h : state.Counts pending) :
    ∃ front back, pending = front ++ back ∧
      (evictLoop limits pending state).deleted = state.deleted ++ front ∧
      (evictLoop limits pending state).folder.files =
        state.folder.files.filter (fun file => file.name ∉ front.map CacheFileStat.name) ∧
      (CacheFits limits back ∨ back = []) ∧
      ∀ before last after, front = before ++ last :: after →
        ¬ CacheFits limits (last :: after ++ back) := by
  induction pending generalizing state with
  | nil =>
    refine ⟨[], [], rfl, (append_nil _).symm, ?_, .inr rfl, ?_⟩
    · simp [evictLoop]
    · intro before last after heq
      simp at heq
  | cons file pending ih =>
    by_cases hroom : state.hasRoom limits = true
    · refine ⟨[], file :: pending, rfl, ?_, ?_, .inl (h.hasRoom_iff.mp hroom), ?_⟩
      · rw [evictLoop, if_pos hroom, append_nil]
      · simp [evictLoop, hroom]
      · intro before last after heq
        simp at heq
    · obtain ⟨front, back, hsplit, hdeleted, hfiles, hfits, hnecessary⟩ := ih h.delete
      refine ⟨file :: front, back, by rw [hsplit, cons_append], ?_, ?_, hfits, ?_⟩
      · rw [evictLoop, if_neg hroom, hdeleted, append_assoc, singleton_append]
      · rw [evictLoop, if_neg hroom, hfiles, CacheFolder.deleteCacheFile, filter_filter]
        apply filter_congr
        intro other _
        by_cases hfirst : other.name = file.name
        · simp [hfirst]
        · by_cases hrest : other.name ∈ front.map CacheFileStat.name
          · simp [hfirst, hrest]
          · simp only [hfirst, hrest, map_cons, mem_cons, or_self, not_false_eq_true,
              decide_true, ne_eq, Bool.and_self]
      · intro before last after heq
        cases before with
        | nil =>
          -- the file was deleted because the files from it on did not fit
          obtain ⟨rfl, rfl⟩ := cons_eq_cons.mp heq
          rw [cons_append, ← hsplit]
          exact fun hfit => hroom (h.hasRoom_iff.mpr hfit)
        | cons first before =>
          obtain ⟨-, heq⟩ := cons_eq_cons.mp heq
          exact hnecessary before last after heq

/-- What is left of files without the ones of a front part. -/
theorem filter_perm_of_split {files front back : List CacheFileStat}
    (hperm : (front ++ back).Perm files) (hnodup : files.Nodup) :
    (files.filter fun file => file ∉ front).Perm back := by
  have hfilter := hperm.symm.filter fun file => file ∉ front
  have hdisjoint := (nodup_append.mp (hperm.nodup_iff.mpr hnodup)).2.2
  have hfront : (front.filter fun file => file ∉ front) = [] := by
    simp
  have hback : (back.filter fun file => file ∉ front) = back := by
    rw [filter_eq_self]
    intro file hfile
    exact decide_eq_true fun hmem => hdisjoint file hmem file hfile rfl
  rwa [filter_append, hfront, hback, nil_append] at hfilter

theorem evictToFit_eq (limits : CacheLimits) (folder : CacheFolder) :
    evictToFit limits folder = evictLoop limits (byAge folder.files)
      { folder := folder, totalBytes := totalSize folder.files, count := folder.files.length } := by
  rw [evictToFit]
  split_ifs with hroom
  · -- the loop ends at once where there is room already
    cases byAge folder.files with
    | nil => rfl
    | cons file pending => rw [evictLoop, if_pos hroom]
  · rfl

/-- `evictToFit` makes room by deleting the least recently accessed files, as far as there are
any and no further than necessary. -/
theorem evictToFit_evicts (limits : CacheLimits) (folder : CacheFolder) :
    Evicts limits folder.files (evictToFit limits folder).deleted
      (evictToFit limits folder).folder.files := by
  have hperm := byAge_perm folder.files
  have hsorted := byAge_pairwise folder.files
  have hnodup : folder.files.Nodup := List.Nodup.of_map _ folder.nodup
  have hcounts : EvictionState.Counts
      { folder := folder, totalBytes := totalSize folder.files, count := folder.files.length }
      (byAge folder.files) :=
    { perm := hperm.symm
      totalBytes := by rw [totalSize_eq, (hperm.map CacheFileStat.size).sum_eq]
      count := by rw [hperm.length_eq] }
  obtain ⟨front, back, hsplit, hdeleted, hfiles, hfits, hnecessary⟩ :=
    evictLoop_spec limits hcounts
  rw [nil_append] at hdeleted
  rw [hsplit] at hperm hsorted
  rw [evictToFit_eq, hdeleted, hfiles]
  have hkept : (folder.files.filter fun file => file.name ∉ front.map CacheFileStat.name) =
      folder.files.filter fun file => file ∉ front := by
    apply filter_congr
    intro file hfile
    -- a name stands for one file of the folder
    have hname : file.name ∈ front.map CacheFileStat.name ↔ file ∈ front := by
      rw [mem_map]
      constructor
      · rintro ⟨other, hother, heq⟩
        have hmem : other ∈ folder.files := hperm.subset (mem_append_left _ hother)
        rwa [← inj_on_of_nodup_map folder.nodup hmem hfile heq]
      · exact fun hmem => ⟨file, hmem, rfl⟩
    exact decide_eq_decide.mpr (not_congr hname)
  have hback := filter_perm_of_split hperm hnodup
  rw [hkept]
  refine ⟨fun file hfile => hperm.subset (mem_append_left _ hfile), rfl, ?_, ?_, ?_, ?_⟩
  · exact (pairwise_append.mp hsorted).1
  · intro file hfile other hother
    exact (pairwise_append.mp hsorted).2.2 file hfile other (hback.subset hother)
  · rw [cacheFits_perm hback]
    rcases hfits with hfit | rfl
    · exact .inl hfit
    · exact .inr (perm_nil.mp hback)
  · intro before last after heq
    have hrest : (before ++ (last :: after ++ back)).Perm folder.files := by
      rw [← append_assoc, ← heq]
      exact hperm
    rw [cacheFits_perm (filter_perm_of_split hrest hnodup)]
    exact hnecessary before last after heq

end DashQL.Storage
