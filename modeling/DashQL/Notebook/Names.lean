import DashQL.Library.Candidates
import DashQL.Notebook.Folders

/-!
# Clean names

The clean name of a page is what its folder is called without the prefix.  A
prefix that `formatScriptFolderOrderPrefix` puts in front of a name is taken off
again by `normalizeScriptFolderName`, and `uniqueScriptFolderName` finds a clean
name that no other page has.
-/

namespace DashQL.Notebook

open List

open Storage

/-! ## Prefixes -/

theorem normalize_of_digits {digits : Text} (hne : digits ≠ [])
    (hdigits : ∀ c ∈ digits, c.isDigit = true) (cleanName : Text) :
    normalizeScriptFolderName (digits ++ '_' :: cleanName) = cleanName := by
  obtain ⟨first, others, rfl⟩ := exists_cons_of_ne_nil hne
  have hstop : Char.isDigit '_' = false := by decide
  unfold normalizeScriptFolderName
  rw [takeWhile_append_of_pos hdigits, dropWhile_append_of_pos hdigits,
    dropWhile_cons_of_neg (by simp [hstop])]
  rfl

/-- A page keeps its clean name when it gets another prefix. -/
theorem normalize_format (index1 total : ℕ) (cleanName : Text) :
    normalizeScriptFolderName (formatScriptFolderOrderPrefix index1 total ++ cleanName) =
      cleanName := by
  unfold formatScriptFolderOrderPrefix
  dsimp only
  rw [append_assoc, singleton_append]
  apply normalize_of_digits
  · intro hnil
    have hlength := congrArg List.length hnil
    rw [List.leftpad, length_append] at hlength
    have hpos : decimal index1 ≠ [] := Nat.toDigits_ne_nil
    exact hpos (length_eq_zero_iff.mp (by simp at hlength; simp [hlength.2]))
  · intro c hc
    rw [List.leftpad, mem_append] at hc
    rcases hc with hzero | hdigit
    · rw [eq_of_mem_replicate hzero]
      decide
    · exact Nat.isDigit_of_mem_toDigits (by decide) (by decide) hdigit

/-! ## Unique names -/

/-- The candidates are tried in order. -/
theorem firstFree_eq (taken : List Text) (base : Text) (tries suffix : ℕ) :
    firstFree taken base tries suffix =
      Candidates.firstFree (Candidates.numbered ' ' base) taken tries suffix := by
  induction tries generalizing suffix with
  | zero => rfl
  | succ tries ih =>
    unfold firstFree Candidates.firstFree
    by_cases htaken : candidate base suffix ∈ taken
    · rw [if_pos htaken, ih]
      exact (if_pos htaken).symm
    · rw [if_neg htaken]
      exact (if_neg htaken).symm

theorem firstFree_not_mem (taken : List Text) (base : Text) :
    firstFree taken base taken.length 1 ∉ taken := by
  rw [firstFree_eq]
  exact Candidates.firstFree_not_mem (Candidates.numbered_injective ' ' base) 1

theorem uniqueScriptFolderName_ne {baseName excludeFolder folder : Text}
    {pages : InsertionMap Text ScriptFolder} (hmem : folder ∈ pages.keys)
    (hne : folder ≠ excludeFolder) :
    normalizeScriptFolderName folder ≠ uniqueScriptFolderName baseName pages excludeFolder := by
  intro heq
  apply firstFree_not_mem ((pages.keys.filter (· ≠ excludeFolder)).map normalizeScriptFolderName)
    (normalizeScriptFolderName baseName)
  have hname : uniqueScriptFolderName baseName pages excludeFolder ∈
      (pages.keys.filter (· ≠ excludeFolder)).map normalizeScriptFolderName := by
    rw [← heq]
    exact mem_map_of_mem (mem_filter.mpr ⟨hmem, by simpa using hne⟩)
  exact hname

/-! ## Orders -/

theorem objectKeys_perm {α : Type} (m : InsertionMap Text α) : (objectKeys m).Perm m.keys := by
  unfold objectKeys
  have hsorted := perm_insertionSort
    (fun a b => (arrayIndex? a).getD 0 ≤ (arrayIndex? b).getD 0)
    (m.keys.filter fun key => (arrayIndex? key).isSome)
  have hsplit := filter_append_perm (fun key => (arrayIndex? key).isSome) m.keys
  exact (hsorted.append_right _).trans hsplit

theorem getSortedScriptFolderNames_perm (localeCompare : Text → Text → ℤ)
    (pages : InsertionMap Text ScriptFolder) :
    (getSortedScriptFolderNames localeCompare pages).Perm pages.keys :=
  (perm_insertionSort _ _).trans (objectKeys_perm pages)

variable {order : List Text}

theorem mem_appendUnseen {folder probe : Text} :
    probe ∈ appendUnseen order folder ↔ probe ∈ order ∨ probe = folder := by
  unfold appendUnseen
  split_ifs with hmem
  · constructor
    · intro h
      exact .inl h
    · intro h
      rcases h with h | rfl
      · exact h
      · exact hmem
  · simp

theorem nodup_appendUnseen {folder : Text} (h : order.Nodup) :
    (appendUnseen order folder).Nodup := by
  unfold appendUnseen
  split_ifs with hmem
  · exact h
  · rw [nodup_append]
    refine ⟨h, nodup_singleton folder, ?_⟩
    intro a ha b hb
    rw [mem_singleton.mp hb]
    intro heq
    exact hmem (heq ▸ ha)

theorem mem_foldl_appendUnseen {folders : List Text} {probe : Text} :
    probe ∈ folders.foldl appendUnseen order ↔ probe ∈ order ∨ probe ∈ folders := by
  induction folders generalizing order with
  | nil => simp
  | cons folder folders ih => rw [foldl_cons, ih, mem_appendUnseen, mem_cons, or_assoc]

theorem nodup_foldl_appendUnseen {folders : List Text} (h : order.Nodup) :
    (folders.foldl appendUnseen order).Nodup := by
  induction folders generalizing order with
  | nil => exact h
  | cons folder folders ih => exact ih (nodup_appendUnseen h)

/-- A reorder resolves an order of exactly the pages. -/
theorem resolveOrder_spec {requestedOrder currentOrder : List Text}
    {pages : InsertionMap Text ScriptFolder} (hcurrent : currentOrder.Perm pages.keys) :
    (resolveOrder requestedOrder currentOrder pages).Nodup ∧
      ∀ folder, folder ∈ resolveOrder requestedOrder currentOrder pages ↔ folder ∈ pages.keys := by
  refine ⟨nodup_foldl_appendUnseen (nodup_foldl_appendUnseen nodup_nil), ?_⟩
  intro folder
  unfold resolveOrder
  rw [mem_foldl_appendUnseen, mem_foldl_appendUnseen, hcurrent.mem_iff]
  constructor
  · intro h
    rcases h with (hnil | hrequested) | hmem
    · exact absurd hnil not_mem_nil
    · have hsome := (mem_filter.mp hrequested).2
      obtain ⟨page, hpage⟩ := Option.isSome_iff_exists.mp hsome
      exact InsertionMap.mem_keys_iff.mpr ⟨page, hpage⟩
    · exact hmem
  · intro h
    exact .inr h

end DashQL.Notebook
