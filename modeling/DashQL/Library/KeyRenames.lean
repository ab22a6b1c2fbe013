import DashQL.Library.InsertionMap

/-!
# Renaming keys of a map

Keys are renamed one after another, and an entry that is renamed replaces whatever has its new name
(`renameKeys`).  A renaming that settles names leaves the entries under the settled names of the
keys (`keys_renameKeys_subset`), and loses none of them if it settles different keys differently
(`get?_renameKeys`).
-/

namespace DashQL.InsertionMap

open List Option

variable {κ α : Type*} [DecidableEq κ]

/-- The entry of a key goes to another key; an absent key is passed over. -/
def renameKey (change : κ → α → α) (m : InsertionMap κ α) (move : κ × κ) : InsertionMap κ α :=
  match m.get? move.1 with
  | none => m
  | some value => (m.delete move.1).set move.2 (change move.2 value)

/-- Keys are renamed one after another. -/
def renameKeys (change : κ → α → α) (moves : List (κ × κ)) (m : InsertionMap κ α) :
    InsertionMap κ α :=
  moves.foldl (renameKey change) m

variable {change : κ → α → α} {m : InsertionMap κ α} {settle : κ → κ} {moves : List (κ × κ)}

theorem mem_keys_renameKey {move : κ × κ} {key : κ} (h : key ∈ (renameKey change m move).keys) :
    key ∈ m.keys ∧ key ≠ move.1 ∨ key = move.2 ∧ move.1 ∈ m.keys ∨ key ∈ m.keys ∧ move.1 ∉ m.keys := by
  rw [renameKey] at h
  cases hget : m.get? move.1 with
  | none =>
    rw [hget] at h
    exact .inr (.inr ⟨h, get?_eq_none_iff.mp hget⟩)
  | some value =>
    rw [hget] at h
    rcases mem_keys_set.mp h with rfl | h
    · exact .inr (.inl ⟨rfl, mem_keys_iff.mpr ⟨value, hget⟩⟩)
    · exact .inl ⟨(mem_keys_delete.mp h).2, (mem_keys_delete.mp h).1⟩

/-- Every name that is left over is the settled name of a key. -/
theorem keys_renameKeys_subset {keys : List κ} (hmoves : ∀ move ∈ moves, move.2 = settle move.1)
    (hsources : ∀ move ∈ moves, move.1 ∈ keys)
    (hkeys : ∀ key ∈ m.keys, key ∈ keys.map settle ∨ key ∈ moves.map Prod.fst) :
    ∀ key ∈ (renameKeys change moves m).keys, key ∈ keys.map settle := by
  induction moves generalizing m with
  | nil => exact fun key hkey => (hkeys key hkey).resolve_right not_mem_nil
  | cons move moves ih =>
    refine ih (fun other hother => hmoves other (mem_cons_of_mem move hother))
      (fun other hother => hsources other (mem_cons_of_mem move hother)) fun key hkey => ?_
    have hsettled : move.2 ∈ keys.map settle := by
      rw [hmoves move mem_cons_self]
      exact mem_map_of_mem (hsources move mem_cons_self)
    have hrest : ∀ key ∈ m.keys, key ≠ move.1 → key ∈ keys.map settle ∨ key ∈ moves.map Prod.fst := by
      intro key hkey hne
      refine (hkeys key hkey).imp_right fun hmem => ?_
      rw [map_cons, mem_cons] at hmem
      exact hmem.resolve_left hne
    rcases mem_keys_renameKey hkey with ⟨hmem, hne⟩ | ⟨rfl, -⟩ | ⟨hmem, habsent⟩
    · exact hrest key hmem hne
    · exact .inl hsettled
    · exact hrest key hmem fun heq => habsent (heq ▸ hmem)

/-- What is said of the entries while keys are renamed: those that are still to be renamed are
where they were, and the others have their settled names. -/
theorem get?_renameKeys_loop {start : InsertionMap κ α} {keys : List κ}
    (hidempotent : ∀ key, settle (settle key) = settle key)
    (hinjective : ∀ key ∈ keys, ∀ other ∈ keys, settle key = settle other → key = other)
    (hpresent : ∀ key ∈ keys, start.get? key ≠ none)
    (hmoves : ∀ move ∈ moves, move.2 = settle move.1 ∧ move.1 ∈ keys ∧ settle move.1 ≠ move.1)
    (hnodup : (moves.map Prod.fst).Nodup)
    (hwaiting : ∀ key ∈ moves.map Prod.fst, m.get? key = start.get? key)
    (hsettled : ∀ key ∈ keys, key ∉ moves.map Prod.fst → m.get? (settle key) =
      (start.get? key).map fun value => if settle key = key then value else change (settle key) value)
    {key : κ} (hkey : key ∈ keys) :
    (renameKeys change moves m).get? (settle key) =
      (start.get? key).map fun value =>
        if settle key = key then value else change (settle key) value := by
  induction moves generalizing m with
  | nil => exact hsettled key hkey not_mem_nil
  | cons move moves ih =>
    obtain ⟨hfirst, hrest⟩ := nodup_cons.mp hnodup
    obtain ⟨hsettle, hmem, hmoved⟩ := hmoves move mem_cons_self
    have hstart := hwaiting move.1 mem_cons_self
    -- the settled name is not that of an entry that waits
    have hnew : ∀ other ∈ moves, other.1 ≠ move.2 := by
      intro other hother heq
      refine (hmoves other (mem_cons_of_mem move hother)).2.2 ?_
      rw [heq, hsettle, hidempotent]
    refine ih (fun other hother => hmoves other (mem_cons_of_mem move hother)) hrest ?_ ?_
    · intro other hother
      obtain ⟨entry, hentry, rfl⟩ := mem_map.mp hother
      have hne : entry.1 ≠ move.1 := fun heq => hfirst (heq ▸ hother)
      rw [← hwaiting entry.1 (mem_cons_of_mem _ hother), renameKey]
      cases m.get? move.1 with
      | none => rfl
      | some value =>
        dsimp only
        rw [get?_set_of_ne (hnew entry hentry), get?_delete, if_neg hne]
    · intro other hother hdone
      by_cases hsame : other = move.1
      · rw [hsame, renameKey, ← hstart]
        cases hget : m.get? move.1 with
        | none =>
          exact absurd (hstart.symm.trans hget) (hpresent move.1 hmem)
        | some value =>
          dsimp only
          rw [← hsettle, get?_set_self, map_some, if_neg (hsettle ▸ hmoved)]
      · have hnot : other ∉ (move :: moves).map Prod.fst := by
          rw [map_cons, mem_cons, not_or]
          exact ⟨hsame, hdone⟩
        have hne : settle other ≠ move.2 := by
          rw [hsettle]
          exact fun heq => hsame (hinjective other hother move.1 hmem heq)
        have hne' : settle other ≠ move.1 := by
          intro heq
          refine hmoved ?_
          rw [← heq, hidempotent]
        rw [← hsettled other hother hnot, renameKey]
        cases m.get? move.1 with
        | none => rfl
        | some value =>
          dsimp only
          rw [get?_set_of_ne hne, get?_delete, if_neg hne']

/-- The keys of a map that are not settled, with their settled names. -/
def unsettled (settle : κ → κ) (keys : List κ) : List (κ × κ) :=
  keys.filterMap fun key => if settle key = key then none else some (key, settle key)

theorem mem_unsettled {keys : List κ} {move : κ × κ} : move ∈ unsettled settle keys ↔
    move.2 = settle move.1 ∧ move.1 ∈ keys ∧ settle move.1 ≠ move.1 := by
  obtain ⟨old, new⟩ := move
  simp only [unsettled, mem_filterMap]
  constructor
  · rintro ⟨key, hkey, h⟩
    split_ifs at h with hsame
    obtain ⟨rfl, rfl⟩ := Prod.mk.inj (some.inj h)
    exact ⟨rfl, hkey, hsame⟩
  · rintro ⟨rfl, hkey, hmoved⟩
    exact ⟨old, hkey, if_neg hmoved⟩

theorem map_fst_unsettled (keys : List κ) :
    (unsettled settle keys).map Prod.fst = keys.filter fun key => settle key ≠ key := by
  induction keys with
  | nil => rfl
  | cons key keys ih =>
    rw [unsettled] at ih ⊢
    by_cases hsame : settle key = key
    · rw [filterMap_cons, if_pos hsame, filter_cons_of_neg (by simpa using hsame)]
      exact ih
    · rw [filterMap_cons, if_neg hsame, filter_cons_of_pos (by simpa using hsame), map_cons, ih]

section Settle

variable {keys : List κ} (hkeys : keys.Perm m.keys)

include hkeys

/-- When all keys are settled, only settled names are left. -/
theorem keys_settled_subset :
    ∀ key ∈ (renameKeys change (unsettled settle keys) m).keys, key ∈ m.keys.map settle := by
  refine keys_renameKeys_subset (fun move hmove => (mem_unsettled.mp hmove).1)
    (fun move hmove => hkeys.mem_iff.mp (mem_unsettled.mp hmove).2.1) fun key hkey => ?_
  rw [map_fst_unsettled, mem_filter]
  by_cases hsame : settle key = key
  · exact .inl (mem_map.mpr ⟨key, hkey, hsame⟩)
  · exact .inr ⟨hkeys.mem_iff.mpr hkey, by simpa using hsame⟩

/-- When all keys are settled, and differently, every entry is found under its settled name. -/
theorem get?_settled (hidempotent : ∀ key, settle (settle key) = settle key)
    (hinjective : ∀ key ∈ m.keys, ∀ other ∈ m.keys, settle key = settle other → key = other)
    {key : κ} (hkey : key ∈ m.keys) :
    (renameKeys change (unsettled settle keys) m).get? (settle key) =
      (m.get? key).map fun value =>
        if settle key = key then value else change (settle key) value := by
  refine get?_renameKeys_loop hidempotent hinjective
    (fun other hother h => get?_eq_none_iff.mp h hother) (fun move hmove => ?_) ?_
    (fun _ _ => rfl) (fun other hother hdone => ?_) hkey
  · obtain ⟨hsettle, hmem, hmoved⟩ := mem_unsettled.mp hmove
    exact ⟨hsettle, hkeys.mem_iff.mp hmem, hmoved⟩
  · rw [map_fst_unsettled]
    exact (hkeys.nodup_iff.mpr m.nodup_keys).filter _
  · have hsame : settle other = other := by
      by_contra hmoved
      refine hdone ?_
      rw [map_fst_unsettled]
      exact mem_filter.mpr ⟨hkeys.mem_iff.mpr hother, by simpa using hmoved⟩
    obtain ⟨value, hvalue⟩ := mem_keys_iff.mp hother
    rw [hsame, hvalue, map_some, if_pos rfl]

end Settle

end DashQL.InsertionMap
