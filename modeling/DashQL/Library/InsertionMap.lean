import Mathlib

/-!
# Insertion-ordered maps

A map that iterates in the order in which its keys were first inserted: setting a
key that is present replaces its value where it stands, and a new key goes to
the end.  The entries of a key are reached by splitting them around it
(`exists_split`), and `set` and `delete` say what becomes of the split.
-/

namespace DashQL

open List Option

/-- A list of entries with distinct keys. -/
structure InsertionMap (κ α : Type*) where
  entries : List (κ × α)
  nodup : (entries.map Prod.fst).Nodup

namespace InsertionMap

variable {κ α : Type*}

/-- The map without entries. -/
def empty : InsertionMap κ α := ⟨[], nodup_nil⟩

def keys (m : InsertionMap κ α) : List κ := m.entries.map Prod.fst

def values (m : InsertionMap κ α) : List α := m.entries.map Prod.snd

theorem nodup_keys (m : InsertionMap κ α) : m.keys.Nodup := m.nodup

@[simp] theorem entries_empty : (empty : InsertionMap κ α).entries = [] := rfl

@[simp] theorem keys_empty : (empty : InsertionMap κ α).keys = [] := rfl

theorem ext_entries {m m' : InsertionMap κ α} (h : m.entries = m'.entries) : m = m' := by
  obtain ⟨entries, nodup⟩ := m
  obtain ⟨entries', nodup'⟩ := m'
  obtain rfl : entries = entries' := h
  rfl

variable {front back : List (κ × α)}

/-- Around an entry its key does not occur again. -/
theorem not_mem_of_split {m : InsertionMap κ α} {key : κ} {value : α}
    (h : m.entries = front ++ (key, value) :: back) :
    key ∉ front.map Prod.fst ∧ key ∉ back.map Prod.fst := by
  have hnodup := m.nodup
  rw [h, map_append, map_cons, nodup_append, nodup_cons] at hnodup
  refine ⟨?_, hnodup.2.1.1⟩
  intro hmem
  exact hnodup.2.2 key hmem key (by simp) rfl

variable [DecidableEq κ]

def get? (m : InsertionMap κ α) (key : κ) : Option α :=
  (m.entries.find? fun entry => entry.1 = key).map Prod.snd

def replace (key : κ) (value : α) (entries : List (κ × α)) : List (κ × α) :=
  entries.map fun entry => if entry.1 = key then (key, value) else entry

theorem map_fst_replace (key : κ) (value : α) (entries : List (κ × α)) :
    (replace key value entries).map Prod.fst = entries.map Prod.fst := by
  rw [replace, List.map_map]
  apply map_congr_left
  intro entry _
  simp only [Function.comp_apply]
  split_ifs with hkey
  · exact hkey.symm
  · rfl

theorem nodup_set (m : InsertionMap κ α) (key : κ) (value : α) :
    ((if key ∈ m.keys then replace key value m.entries else m.entries ++ [(key, value)]).map
      Prod.fst).Nodup := by
  split_ifs with hmem
  · rw [map_fst_replace]
    exact m.nodup
  · rw [map_append, nodup_append]
    refine ⟨m.nodup, by simp, ?_⟩
    intro a ha b hb heq
    simp only [map_cons, map_nil, mem_singleton] at hb
    exact hmem (hb ▸ heq ▸ ha)

def set (m : InsertionMap κ α) (key : κ) (value : α) : InsertionMap κ α where
  entries := if key ∈ m.keys then replace key value m.entries else m.entries ++ [(key, value)]
  nodup := m.nodup_set key value

theorem nodup_delete (m : InsertionMap κ α) (key : κ) :
    ((m.entries.filter fun entry => entry.1 ≠ key).map Prod.fst).Nodup :=
  m.nodup.sublist (filter_sublist.map _)

def delete (m : InsertionMap κ α) (key : κ) : InsertionMap κ α where
  entries := m.entries.filter fun entry => entry.1 ≠ key
  nodup := m.nodup_delete key

/-! ## Reading an entry -/

variable {m : InsertionMap κ α} {key probe : κ} {value : α}

@[simp] theorem get?_empty : (empty : InsertionMap κ α).get? key = none := rfl

theorem get?_eq_some_iff : m.get? key = some value ↔ (key, value) ∈ m.entries := by
  obtain ⟨entries, nodup⟩ := m
  unfold get?
  induction entries with
  | nil => simp
  | cons entry entries ih =>
    obtain ⟨hhead, htail⟩ := nodup_cons.mp nodup
    by_cases hkey : entry.1 = key
    · simp only [find?_cons, hkey, decide_true, map_some, some.injEq, mem_cons]
      constructor
      · rintro rfl
        exact .inl (Prod.ext hkey.symm rfl)
      · rintro (rfl | hmem)
        · rfl
        · exact absurd (List.mem_map_of_mem hmem) (hkey ▸ hhead)
    · have hne : (key, value) ≠ entry := by
        rintro rfl
        exact hkey rfl
      simpa [find?_cons, hkey, hne] using ih htail

theorem mem_keys_iff : key ∈ m.keys ↔ ∃ value, m.get? key = some value := by
  simp only [keys, List.mem_map, get?_eq_some_iff]
  constructor
  · rintro ⟨⟨key, value⟩, hmem, rfl⟩
    exact ⟨value, hmem⟩
  · rintro ⟨value, hmem⟩
    exact ⟨(key, value), hmem, rfl⟩

theorem get?_eq_none_iff : m.get? key = none ↔ key ∉ m.keys := by
  rw [mem_keys_iff, eq_none_iff_forall_ne_some, not_exists]

theorem mem_values_iff : value ∈ m.values ↔ ∃ key, m.get? key = some value := by
  simp only [values, List.mem_map, get?_eq_some_iff]
  constructor
  · rintro ⟨⟨key, value⟩, hmem, rfl⟩
    exact ⟨key, hmem⟩
  · rintro ⟨key, hmem⟩
    exact ⟨(key, value), hmem, rfl⟩

theorem filterMap_get?_keys (m : InsertionMap κ α) : m.keys.filterMap m.get? = m.values := by
  unfold keys values
  rw [filterMap_map, ← filterMap_eq_map]
  refine filterMap_congr fun entry hentry => ?_
  exact get?_eq_some_iff.mpr hentry

/-! ## Splitting the entries around a key -/

theorem exists_split (h : m.get? key = some value) :
    ∃ front back, m.entries = front ++ (key, value) :: back := by
  obtain ⟨front, back, heq⟩ := append_of_mem (get?_eq_some_iff.mp h)
  exact ⟨front, back, heq⟩

theorem replace_of_not_mem {entries : List (κ × α)} (h : key ∉ entries.map Prod.fst) :
    replace key value entries = entries := by
  rw [replace]
  conv_rhs => rw [← List.map_id entries]
  apply map_congr_left
  intro entry hentry
  have hne : entry.1 ≠ key := by
    rintro rfl
    exact h (List.mem_map_of_mem hentry)
  simp [hne]

theorem set_of_split {old : α} (h : m.entries = front ++ (key, old) :: back) :
    (m.set key value).entries = front ++ (key, value) :: back := by
  obtain ⟨hfront, hback⟩ := not_mem_of_split h
  have hmem : key ∈ m.keys := by simp [keys, h]
  change (if key ∈ m.keys then _ else _) = _
  rw [if_pos hmem, h, replace, map_append, map_cons]
  have hfront := @replace_of_not_mem κ α _ key value front hfront
  have hback := @replace_of_not_mem κ α _ key value back hback
  rw [replace] at hfront hback
  rw [hfront, hback]
  simp

theorem set_of_not_mem (h : key ∉ m.keys) : (m.set key value).entries = m.entries ++ [(key, value)] :=
  if_neg h

theorem delete_of_split (h : m.entries = front ++ (key, value) :: back) :
    (m.delete key).entries = front ++ back := by
  obtain ⟨hfront, hback⟩ := not_mem_of_split h
  have hkept : ∀ entries : List (κ × α), key ∉ entries.map Prod.fst →
      entries.filter (fun entry => entry.1 ≠ key) = entries := by
    intro entries hentries
    rw [filter_eq_self]
    intro entry hentry
    have hne : entry.1 ≠ key := by
      rintro rfl
      exact hentries (List.mem_map_of_mem hentry)
    simpa using hne
  change m.entries.filter _ = _
  rw [h, filter_append, filter_cons]
  simp only [ne_eq, not_true_eq_false, decide_false, Bool.false_eq_true, if_false]
  rw [← hkept front hfront, ← hkept back hback]
  simp

theorem delete_of_not_mem (h : key ∉ m.keys) : m.delete key = m := by
  apply ext_entries
  change m.entries.filter _ = _
  rw [filter_eq_self]
  intro entry hentry
  have hne : entry.1 ≠ key := by
    rintro rfl
    exact h (List.mem_map_of_mem hentry)
  simpa using hne

/-! ## Reading after one operation -/

theorem get?_set : (m.set key value).get? probe = if probe = key then some value else m.get? probe := by
  have hentries : ∀ found, (m.set key value).get? probe = some found ↔
      (if probe = key then some value else m.get? probe) = some found := by
    intro found
    rw [get?_eq_some_iff]
    by_cases hmem : key ∈ m.keys
    · obtain ⟨old, hold⟩ := mem_keys_iff.mp hmem
      obtain ⟨front, back, heq⟩ := exists_split hold
      obtain ⟨hfront, hback⟩ := not_mem_of_split heq
      rw [set_of_split heq]
      by_cases hprobe : probe = key
      · subst hprobe
        have hne : ∀ entries : List (κ × α), probe ∉ entries.map Prod.fst →
            (probe, found) ∉ entries := fun _ h hmem => h (List.mem_map_of_mem hmem)
        simp [hne front hfront, hne back hback, eq_comm]
      · rw [if_neg hprobe, get?_eq_some_iff, heq]
        simp [hprobe]
    · rw [set_of_not_mem hmem, mem_append, mem_singleton, Prod.mk.injEq]
      by_cases hprobe : probe = key
      · subst hprobe
        rw [if_pos rfl]
        constructor
        · rintro (hold | ⟨-, rfl⟩)
          · exact absurd (mem_keys_iff.mpr ⟨found, get?_eq_some_iff.mpr hold⟩) hmem
          · rfl
        · intro h
          exact .inr ⟨rfl, (some.inj h).symm⟩
      · rw [if_neg hprobe, get?_eq_some_iff]
        simp [hprobe]
  exact Option.ext hentries

/-- Setting a key updates the lookups. -/
theorem get?_set_eq_update : (m.set key value).get? = Function.update m.get? key (some value) := by
  funext probe
  rw [get?_set, Function.update_apply]

theorem get?_set_self : (m.set key value).get? key = some value := by
  rw [get?_set, if_pos rfl]

theorem get?_set_of_ne (h : probe ≠ key) : (m.set key value).get? probe = m.get? probe := by
  rw [get?_set, if_neg h]

theorem get?_delete : (m.delete key).get? probe = if probe = key then none else m.get? probe := by
  apply Option.ext
  intro found
  rw [get?_eq_some_iff]
  change (probe, found) ∈ m.entries.filter _ ↔ _
  rw [mem_filter, ← get?_eq_some_iff]
  by_cases hprobe : probe = key <;> simp [hprobe]

theorem mem_keys_set : probe ∈ (m.set key value).keys ↔ probe = key ∨ probe ∈ m.keys := by
  rw [mem_keys_iff, mem_keys_iff]
  by_cases hprobe : probe = key <;> simp [get?_set, hprobe]

theorem mem_keys_delete : probe ∈ (m.delete key).keys ↔ probe ≠ key ∧ probe ∈ m.keys := by
  rw [mem_keys_iff, mem_keys_iff]
  by_cases hprobe : probe = key <;> simp [get?_delete, hprobe]

/-- Replacing the value of a key that is present keeps the keys. -/
theorem keys_set_of_mem (h : key ∈ m.keys) : (m.set key value).keys = m.keys := by
  change (if key ∈ m.keys then _ else _ : List (κ × α)).map Prod.fst = _
  rw [if_pos h, map_fst_replace]
  rfl

theorem keys_set_of_not_mem (h : key ∉ m.keys) : (m.set key value).keys = m.keys ++ [key] := by
  rw [keys, set_of_not_mem h, map_append]
  rfl

theorem keys_delete : (m.delete key).keys = m.keys.filter fun probe => probe ≠ key := by
  change (m.entries.filter _).map Prod.fst = (m.entries.map Prod.fst).filter _
  rw [List.filter_map]
  rfl

theorem set_of_get? (h : m.get? key = some value) : m.set key value = m := by
  obtain ⟨front, back, heq⟩ := exists_split h
  apply ext_entries
  rw [set_of_split heq, heq]

theorem set_set {other : α} : (m.set key other).set key value = m.set key value := by
  apply ext_entries
  by_cases hmem : key ∈ m.keys
  · obtain ⟨old, hold⟩ := mem_keys_iff.mp hmem
    obtain ⟨front, back, heq⟩ := exists_split hold
    rw [set_of_split heq, set_of_split (set_of_split heq)]
  · have hsplit : (m.set key other).entries = m.entries ++ (key, other) :: [] :=
      set_of_not_mem hmem
    rw [set_of_not_mem hmem, set_of_split hsplit]

theorem delete_set {other : α} : (m.set key other).delete key = m.delete key := by
  apply ext_entries
  by_cases hmem : key ∈ m.keys
  · obtain ⟨old, hold⟩ := mem_keys_iff.mp hmem
    obtain ⟨front, back, heq⟩ := exists_split hold
    rw [delete_of_split heq, delete_of_split (set_of_split heq)]
  · have hsplit : (m.set key other).entries = m.entries ++ (key, other) :: [] :=
      set_of_not_mem hmem
    rw [delete_of_not_mem hmem, delete_of_split hsplit, append_nil]

/-! ## Setting many keys -/

section SetAll

variable {entries : List (κ × α)}

theorem get?_foldl_set_of_not_mem (h : key ∉ entries.map Prod.fst) :
    (entries.foldl (fun m entry => m.set entry.1 entry.2) m).get? key = m.get? key := by
  induction entries generalizing m with
  | nil => rfl
  | cons entry entries ih =>
    rw [map_cons, mem_cons, not_or] at h
    rw [foldl_cons, ih h.2, get?_set_of_ne h.1]

theorem get?_foldl_set_of_mem (hnodup : (entries.map Prod.fst).Nodup) (h : (key, value) ∈ entries) :
    (entries.foldl (fun m entry => m.set entry.1 entry.2) m).get? key = some value := by
  induction entries generalizing m with
  | nil => exact absurd h not_mem_nil
  | cons entry entries ih =>
    obtain ⟨hhead, htail⟩ := nodup_cons.mp hnodup
    rw [foldl_cons]
    rcases mem_cons.mp h with rfl | hmem
    · rw [get?_foldl_set_of_not_mem hhead, get?_set_self]
    · exact ih htail hmem

/-- Keys that are new go to the end, one after the other. -/
theorem keys_foldl_set (hnodup : (entries.map Prod.fst).Nodup)
    (hfresh : ∀ key ∈ entries.map Prod.fst, key ∉ m.keys) :
    (entries.foldl (fun m entry => m.set entry.1 entry.2) m).keys =
      m.keys ++ entries.map Prod.fst := by
  induction entries generalizing m with
  | nil => exact (append_nil m.keys).symm
  | cons entry entries ih =>
    obtain ⟨hhead, htail⟩ := nodup_cons.mp hnodup
    have hkeys : (m.set entry.1 entry.2).keys = m.keys ++ [entry.1] :=
      keys_set_of_not_mem (hfresh entry.1 mem_cons_self)
    rw [foldl_cons, ih htail, hkeys, append_assoc]
    · rfl
    · intro key hkey
      rw [hkeys, mem_append, mem_singleton, not_or]
      refine ⟨hfresh key (mem_cons_of_mem _ hkey), ?_⟩
      rintro rfl
      exact hhead hkey

/-- Setting all entries of a map: they win over those that were there. -/
theorem get?_foldl_set {source : InsertionMap κ α} :
    (source.entries.foldl (fun m entry => m.set entry.1 entry.2) m).get? key =
      (source.get? key).or (m.get? key) := by
  cases hget : source.get? key with
  | none => exact get?_foldl_set_of_not_mem (get?_eq_none_iff.mp hget)
  | some value => exact get?_foldl_set_of_mem source.nodup (get?_eq_some_iff.mp hget)

end SetAll

/-! ## Maps with the same lookups -/

theorem entries_perm {m' : InsertionMap κ α} (h : ∀ key, m.get? key = m'.get? key) :
    m.entries.Perm m'.entries := by
  apply (perm_ext_iff_of_nodup m.nodup.of_map m'.nodup.of_map).mpr
  intro entry
  rw [← get?_eq_some_iff, ← get?_eq_some_iff, h]

/-- A map is empty where no key has a value. -/
theorem entries_eq_nil_iff : m.entries = [] ↔ ∀ key, m.get? key = none := by
  constructor
  · intro h key
    rw [get?_eq_none_iff, keys, h]
    simp
  · intro h
    by_contra hne
    obtain ⟨entry, hentry⟩ := exists_mem_of_ne_nil _ hne
    have hget : m.get? entry.1 = some entry.2 := get?_eq_some_iff.mpr hentry
    simp [h entry.1] at hget

/-! ## Totals over the values -/

section Totals

variable {M : Type*} [AddCommMonoid M] {weight : α → M}

def total (weight : α → M) (m : InsertionMap κ α) : M := (m.values.map weight).sum

theorem total_of_split (h : m.entries = front ++ (key, value) :: back) :
    m.total weight = (front.map fun entry => weight entry.2).sum +
      (weight value + (back.map fun entry => weight entry.2).sum) := by
  rw [total, values, h, List.map_map, map_append, map_cons, sum_append, sum_cons]
  rfl

/-- Setting a key replaces what its old value weighed. -/
theorem total_set :
    (m.set key value).total weight + (m.get? key).elim 0 weight =
      m.total weight + weight value := by
  by_cases hmem : key ∈ m.keys
  · obtain ⟨old, hold⟩ := mem_keys_iff.mp hmem
    obtain ⟨front, back, heq⟩ := exists_split hold
    rw [total_of_split heq, total_of_split (set_of_split heq), hold, elim_some]
    abel
  · rw [get?_eq_none_iff.mpr hmem, elim_none, add_zero, total, total, values, values,
      set_of_not_mem hmem, map_append, map_append, sum_append]
    simp

/-- Deleting a key takes out what its value weighed. -/
theorem total_delete :
    (m.delete key).total weight + (m.get? key).elim 0 weight = m.total weight := by
  by_cases hmem : key ∈ m.keys
  · obtain ⟨old, hold⟩ := mem_keys_iff.mp hmem
    obtain ⟨front, back, heq⟩ := exists_split hold
    rw [total_of_split heq, hold, elim_some, total, values, delete_of_split heq,
      List.map_map, map_append, sum_append]
    change _ + (back.map fun entry => weight entry.2).sum + _ = _
    rw [add_assoc, add_comm (weight old)]
    rfl
  · rw [get?_eq_none_iff.mpr hmem, elim_none, add_zero, delete_of_not_mem hmem]

end Totals

/-! ## Changing the value of a key -/

section Updates

variable {m : InsertionMap κ α} {key probe : κ}

def modify (key : κ) (change : α → α) (m : InsertionMap κ α) : InsertionMap κ α :=
  match m.get? key with
  | some value => m.set key (change value)
  | none => m

theorem get?_modify {change : α → α} :
    (m.modify key change).get? probe =
      if probe = key then (m.get? key).map change else m.get? probe := by
  unfold modify
  split
  next value hget => rw [get?_set, hget, map_some]
  next hget =>
    split_ifs with hprobe
    · rw [hprobe, hget, map_none]
    · rfl

@[simp] theorem keys_modify {change : α → α} : (m.modify key change).keys = m.keys := by
  unfold modify
  split
  next value hget => exact keys_set_of_mem (mem_keys_iff.mpr ⟨value, hget⟩)
  next => rfl

end Updates

end InsertionMap

end DashQL
