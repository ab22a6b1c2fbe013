import Mathlib

/-!
# Ordered maps with lower bounds

An ordered map over a linearly ordered key type is `Std.ExtTreeMap` at the
comparison of that order.  This file adds what the standard lemmas do not say:
`lowerBound`, the first entry at or above a key, which is what an iterator
obtained from a sorted container points to, and the effect of a run of
insertions or erasures on the keys.

The one fact a client needs about `lowerBound` is `exists_lowerBound_iff`: for a
set of keys closed under going down to the probe, the entry found lies in the
set exactly when the map has a key in the set.  A prefix search over a composite
key is the special case where the set is "all keys with this prefix".

A scan starts at the first key that is not below a probe and stops at the first key
outside of a group.  If the probe is below the group and nothing of the map lies between
the keys of the group, the scan finds the entries of the group.
-/

namespace DashQL

open List

/-- A map sorted by its keys. -/
abbrev OrderedMap (κ α : Type) [LinearOrder κ] : Type :=
  Std.ExtTreeMap κ α (@compare κ LinearOrder.toOrd)

namespace OrderedMap

variable {κ α β : Type} [LinearOrder κ]

instance transCmp : Std.TransCmp (@compare κ LinearOrder.toOrd) := inferInstance

/-! ## Keys after one operation -/

variable {m : OrderedMap κ α} {probe : κ}

theorem mem_insertIfNew_iff {key : κ} {value : α} :
    probe ∈ m.insertIfNew key value ↔ probe = key ∨ probe ∈ m := by
  rw [Std.ExtTreeMap.mem_insertIfNew, compare_eq_iff_eq, eq_comm]

theorem mem_erase_iff {key : κ} : probe ∈ m.erase key ↔ probe ≠ key ∧ probe ∈ m := by
  rw [Std.ExtTreeMap.mem_erase, ne_eq, compare_eq_iff_eq, eq_comm]

theorem getElem?_eq_none_iff {key : κ} : m[key]? = none ↔ key ∉ m := by
  rw [Std.ExtTreeMap.mem_iff_isSome_getElem?, Bool.not_eq_true, Option.isSome_eq_false_iff,
    Option.isNone_iff_eq_none]

theorem getElem?_insertIfNew_of_mem {key : κ} {value : α} (hmem : probe ∈ m) :
    (m.insertIfNew key value)[probe]? = m[probe]? := by
  rw [Std.ExtTreeMap.getElem?_insertIfNew, if_neg]
  rintro ⟨heq, hfresh⟩
  rw [compare_eq_iff_eq] at heq
  exact hfresh (heq ▸ hmem)

theorem getElem?_insertIfNew_of_fresh {key : κ} {value : α} (hfresh : key ∉ m) :
    (m.insertIfNew key value)[key]? = some value := by
  rw [Std.ExtTreeMap.getElem?_insertIfNew, if_pos ⟨compare_eq_iff_eq.mpr rfl, hfresh⟩]

theorem getElem?_insertIfNew_of_ne {key : κ} {value : α} (hne : probe ≠ key) :
    (m.insertIfNew key value)[probe]? = m[probe]? := by
  rw [Std.ExtTreeMap.getElem?_insertIfNew, if_neg]
  rintro ⟨heq, -⟩
  exact hne (compare_eq_iff_eq.mp heq).symm

theorem getElem?_erase_of_ne {key : κ} (hne : probe ≠ key) : (m.erase key)[probe]? = m[probe]? := by
  rw [Std.ExtTreeMap.getElem?_erase, if_neg]
  exact fun heq => hne (compare_eq_iff_eq.mp heq).symm

theorem getElem?_erase_self {key : κ} : (m.erase key)[key]? = none :=
  getElem?_eq_none_iff.mpr fun hmem => (mem_erase_iff.mp hmem).1 rfl

theorem getElem?_insert_self {key : κ} {value : α} : (m.insert key value)[key]? = some value := by
  rw [Std.ExtTreeMap.getElem?_insert, if_pos (compare_eq_iff_eq.mpr rfl)]

theorem getElem?_insert_of_ne {key : κ} {value : α} (hne : probe ≠ key) :
    (m.insert key value)[probe]? = m[probe]? := by
  rw [Std.ExtTreeMap.getElem?_insert, if_neg]
  exact fun heq => hne (compare_eq_iff_eq.mp heq).symm

theorem insertIfNew_of_mem {key : κ} {value : α} (hmem : key ∈ m) :
    m.insertIfNew key value = m := by
  apply Std.ExtTreeMap.ext_getElem?
  intro probe
  rw [Std.ExtTreeMap.getElem?_insertIfNew, if_neg]
  exact fun h => h.2 hmem

theorem exists_getElem?_of_mem {key : κ} (hmem : key ∈ m) : ∃ value, m[key]? = some value := by
  rw [Std.ExtTreeMap.mem_iff_isSome_getElem?] at hmem
  exact Option.isSome_iff_exists.mp hmem

theorem mem_iff_exists_getElem? {key : κ} : key ∈ m ↔ ∃ value, m[key]? = some value := by
  rw [Std.ExtTreeMap.mem_iff_isSome_getElem?, Option.isSome_iff_exists]

theorem mem_of_getElem? {key : κ} {value : α} (h : m[key]? = some value) : key ∈ m := by
  rw [Std.ExtTreeMap.mem_iff_isSome_getElem?, h]
  rfl

/-! ## Iteration -/

theorem mem_toList_iff {entry : κ × α} : entry ∈ m.toList ↔ m[entry.1]? = some entry.2 :=
  Std.ExtTreeMap.mem_toList_iff_getElem?_eq_some

/-- Iteration visits the keys in increasing order. -/
theorem keys_sorted (m : OrderedMap κ α) : m.toList.Pairwise fun a b => a.1 < b.1 := by
  have hordered : m.toList.Pairwise fun a b => compare a.1 b.1 = .lt :=
    Std.ExtTreeMap.ordered_keys_toList
  exact hordered.imp fun h => compare_lt_iff_lt.mp h

theorem keys_nodup (m : OrderedMap κ α) : (m.toList.map Prod.fst).Nodup := by
  rw [List.Nodup, pairwise_map]
  exact m.keys_sorted.imp fun h => h.ne

theorem mem_values_iff {value : α} :
    value ∈ m.toList.map Prod.snd ↔ ∃ key : κ, m[key]? = some value := by
  rw [mem_map]
  constructor
  · rintro ⟨⟨key, value⟩, hmem, rfl⟩
    exact ⟨key, mem_toList_iff.mp hmem⟩
  · rintro ⟨key, hkey⟩
    exact ⟨(key, value), mem_toList_iff.mpr hkey, rfl⟩

theorem nodup_values
    (h : ∀ (key key' : κ) (value : α), m[key]? = some value → m[key']? = some value → key = key') :
    (m.toList.map Prod.snd).Nodup := by
  refine pairwise_map.mpr (List.Pairwise.imp_of_mem ?_ m.keys_sorted)
  intro entry other hentry hother hlt heq
  have hvalue := mem_toList_iff.mp hentry
  rw [heq] at hvalue
  exact hlt.ne (h _ _ _ hvalue (mem_toList_iff.mp hother))

/-- A key above all others comes last. -/
theorem toList_insertIfNew_of_lt {key : κ} {value : α}
    (habove : ∀ entry ∈ m.toList, entry.1 < key) :
    (m.insertIfNew key value).toList = m.toList ++ [(key, value)] := by
  have hfresh : key ∉ m := by
    intro hmem
    obtain ⟨found, hfound⟩ := exists_getElem?_of_mem hmem
    exact lt_irrefl key (habove (key, found) (mem_toList_iff.mpr hfound))
  have hsorted : (m.toList ++ [(key, value)]).Pairwise fun a b => a.1 < b.1 := by
    refine pairwise_append.mpr ⟨m.keys_sorted, pairwise_singleton _ _, ?_⟩
    intro entry hentry last hlast
    rw [mem_singleton.mp hlast]
    exact habove entry hentry
  have hirrefl : Std.Irrefl fun a b : κ × α => a.1 < b.1 := ⟨fun a => lt_irrefl a.1⟩
  have hantisymm : Std.Antisymm fun a b : κ × α => a.1 < b.1 :=
    ⟨fun a b hab hba => absurd hba hab.asymm⟩
  apply List.Pairwise.eq_of_mem_iff (keys_sorted _) hsorted
  intro entry
  rw [mem_toList_iff, mem_append, mem_toList_iff, mem_singleton]
  by_cases hkey : entry.1 = key
  · rw [hkey, getElem?_insertIfNew_of_fresh hfresh, getElem?_eq_none_iff.mpr hfresh,
      Option.some.injEq, Prod.ext_iff]
    simp [hkey, eq_comm]
  · rw [getElem?_insertIfNew_of_ne hkey, or_iff_left]
    exact fun h => hkey (congrArg Prod.fst h)

/-! ## A run of insertions or erasures -/

variable {items : List β}

theorem mem_foldl_insertIfNew {key : β → κ} {value : β → α} :
    ∀ {m : OrderedMap κ α},
      probe ∈ items.foldl (fun m item => m.insertIfNew (key item) (value item)) m ↔
        (∃ item ∈ items, key item = probe) ∨ probe ∈ m := by
  induction items with
  | nil => simp
  | cons item rest ih =>
    intro m
    rw [foldl_cons, ih, mem_insertIfNew_iff]
    simp only [mem_cons, exists_eq_or_imp, eq_comm (a := probe), or_assoc, or_left_comm]

/-- Inserting items with distinct keys keeps the entries there are and adds the
items whose keys are fresh. -/
theorem getElem?_foldl_insertIfNew_eq_some_iff {key : β → κ} {value : β → α} {found : α} :
    ∀ {m : OrderedMap κ α}, (items.map key).Nodup →
      ((items.foldl (fun m item => m.insertIfNew (key item) (value item)) m)[probe]? = some found ↔
        m[probe]? = some found ∨
          probe ∉ m ∧ ∃ item ∈ items, key item = probe ∧ value item = found) := by
  induction items with
  | nil => simp
  | cons head rest ih =>
    intro m hnodup
    rw [map_cons, nodup_cons] at hnodup
    rw [foldl_cons, ih hnodup.2, mem_insertIfNew_iff]
    simp only [exists_mem_cons_iff]
    by_cases hkey : probe = key head
    · subst hkey
      have hother : ¬ ∃ item ∈ rest, key item = key head ∧ value item = found := by
        rintro ⟨item, hitem, heq, -⟩
        exact hnodup.1 (heq ▸ mem_map_of_mem hitem)
      by_cases hmem : key head ∈ m
      · rw [getElem?_insertIfNew_of_mem hmem]
        simp [hmem]
      · rw [getElem?_insertIfNew_of_fresh hmem, getElem?_eq_none_iff.mpr hmem]
        simp [hmem, hother]
    · simp [getElem?_insertIfNew_of_ne hkey, hkey, Ne.symm hkey]

theorem getElem?_foldl_erase_eq_some_iff {key : β → κ} {found : α} :
    ∀ {m : OrderedMap κ α},
      (items.foldl (fun m item => m.erase (key item)) m)[probe]? = some found ↔
        (∀ item ∈ items, key item ≠ probe) ∧ m[probe]? = some found := by
  induction items with
  | nil => simp
  | cons item rest ih =>
    intro m
    rw [foldl_cons, ih, forall_mem_cons]
    by_cases hkey : key item = probe
    · subst hkey
      simp
    · simp [getElem?_erase_of_ne (Ne.symm hkey), hkey]

theorem mem_foldl_erase {key : β → κ} :
    ∀ {m : OrderedMap κ α},
      probe ∈ items.foldl (fun m item => m.erase (key item)) m ↔
        (¬ ∃ item ∈ items, key item = probe) ∧ probe ∈ m := by
  induction items with
  | nil => simp
  | cons item rest ih =>
    intro m
    rw [foldl_cons, ih, mem_erase_iff, exists_mem_cons_iff, not_or, ne_comm]
    tauto

/-! ## Lower bounds -/

/-- The first entry whose key is at or above `probe`. -/
def lowerBound (m : OrderedMap κ α) (probe : κ) : Option (κ × α) :=
  m.toList.find? fun entry => decide (probe ≤ entry.1)

theorem mem_of_lowerBound {entry : κ × α} (h : m.lowerBound probe = some entry) :
    m[entry.1]? = some entry.2 :=
  mem_toList_iff.mp (mem_of_find?_eq_some h)

theorem le_of_lowerBound {entry : κ × α} (h : m.lowerBound probe = some entry) :
    probe ≤ entry.1 := by
  simpa using find?_some h

/-- Nothing at or above the probe precedes the entry found. -/
theorem lowerBound_le {key : κ} (hkey : key ∈ m) (hle : probe ≤ key) :
    ∃ entry, m.lowerBound probe = some entry ∧ entry.1 ≤ key := by
  obtain ⟨value, hvalue⟩ := exists_getElem?_of_mem hkey
  have hmem : (key, value) ∈ m.toList := mem_toList_iff.mpr hvalue
  obtain ⟨before, after, hsplit⟩ := append_of_mem hmem
  have hsorted := m.keys_sorted
  unfold lowerBound
  rw [hsplit] at hsorted ⊢
  rw [find?_append]
  cases hfound : before.find? fun entry => decide (probe ≤ entry.1) with
  | none => exact ⟨(key, value), by simp [hle], le_rfl⟩
  | some entry =>
    refine ⟨entry, rfl, ?_⟩
    exact ((pairwise_append.mp hsorted).2.2 entry (mem_of_find?_eq_some hfound)
      (key, value) (mem_cons_self ..)).le

/-- Let `group` hold of the keys of interest.  If every key between the probe
and a key of the group is itself in the group, then the lower bound of the probe
lies in the group exactly when some key of the map does. -/
theorem exists_lowerBound_iff (m : OrderedMap κ α) (probe : κ) (group : κ → Prop)
    (hprobe : ∀ key, group key → probe ≤ key)
    (hdown : ∀ lower key, probe ≤ lower → lower ≤ key → group key → group lower) :
    (∃ entry, m.lowerBound probe = some entry ∧ group entry.1) ↔ ∃ key ∈ m, group key := by
  constructor
  · rintro ⟨entry, hentry, hgroup⟩
    exact ⟨entry.1, mem_of_getElem? (mem_of_lowerBound hentry), hgroup⟩
  · rintro ⟨key, hkey, hgroup⟩
    obtain ⟨entry, hentry, hle⟩ := lowerBound_le hkey (hprobe key hgroup)
    exact ⟨entry, hentry, hdown entry.1 key (le_of_lowerBound hentry) hle hgroup⟩

end OrderedMap

/-! ## Scans -/

/-- In a sorted list, the elements of a group that has no gaps are found from a probe on. -/
theorem takeWhile_dropWhile_eq_filter {κ : Type} [LinearOrder κ] {probe : κ} {group : κ → Bool}
    (hprobe : ∀ key, group key = true → probe ≤ key)
    (hdown : ∀ lower key, probe ≤ lower → lower ≤ key → group key = true → group lower = true)
    {keys : List κ} (hsorted : keys.Pairwise (· < ·)) :
    (keys.dropWhile (· < probe)).takeWhile group = keys.filter group := by
  have hrest : ∀ keys : List κ, keys.Pairwise (· < ·) → (∀ key ∈ keys, probe ≤ key) →
      keys.takeWhile group = keys.filter group := by
    intro keys hsorted hge
    induction keys with
    | nil => rfl
    | cons key keys ih =>
      rw [pairwise_cons] at hsorted
      rw [forall_mem_cons] at hge
      by_cases hkey : group key = true
      · rw [takeWhile_cons_of_pos hkey, filter_cons_of_pos hkey, ih hsorted.2 hge.2]
      · rw [takeWhile_cons_of_neg hkey, filter_cons_of_neg hkey]
        refine (filter_eq_nil_iff.mpr fun later hlater hgroup => hkey ?_).symm
        exact hdown key later hge.1 (hsorted.1 later hlater).le hgroup
  induction keys with
  | nil => rfl
  | cons key keys ih =>
    by_cases hkey : key < probe
    · have hnot : ¬ group key = true := fun hgroup => not_lt.mpr (hprobe key hgroup) hkey
      rw [dropWhile_cons, if_pos (decide_eq_true hkey), filter_cons_of_neg hnot]
      exact ih (pairwise_cons.mp hsorted).2
    · rw [dropWhile_cons, if_neg (by rwa [decide_eq_true_eq])]
      refine hrest _ hsorted fun later hlater => ?_
      rcases mem_cons.mp hlater with rfl | hmem
      · exact not_lt.mp hkey
      · exact (not_lt.mp hkey).trans ((pairwise_cons.mp hsorted).1 later hmem).le

namespace OrderedMap

variable {κ α : Type} [LinearOrder κ]

/-- The keys from a probe on, as long as they are in a group. -/
def scan (m : OrderedMap κ α) (probe : κ) (group : κ → Bool) : List κ :=
  (m.keys.dropWhile (· < probe)).takeWhile group

theorem keys_pairwise_lt (m : OrderedMap κ α) : m.keys.Pairwise (· < ·) := by
  have hordered : m.keys.Pairwise fun a b => compare a b = .lt := Std.ExtTreeMap.ordered_keys
  exact hordered.imp fun h => compare_lt_iff_lt.mp h

section Group

variable {m : OrderedMap κ α} {probe : κ} {group : κ → Bool}
  (hprobe : ∀ key, group key = true → probe ≤ key)
  (hdown : ∀ lower key, probe ≤ lower → lower ≤ key → group key = true → group lower = true)

include hprobe hdown

theorem scan_eq_filter : m.scan probe group = m.keys.filter group :=
  takeWhile_dropWhile_eq_filter hprobe hdown m.keys_pairwise_lt

theorem mem_scan_iff {key : κ} : key ∈ m.scan probe group ↔ key ∈ m ∧ group key = true := by
  rw [scan_eq_filter hprobe hdown, mem_filter, Std.ExtTreeMap.mem_keys]

theorem nodup_scan : (m.scan probe group).Nodup := by
  rw [scan_eq_filter hprobe hdown]
  exact (m.keys_pairwise_lt.imp fun h => h.ne).filter _

end Group

end OrderedMap

end DashQL
