import Mathlib

/-!
# Arenas

The entries of an arena refer to earlier entries by their index, so that what an entry stands
for can be computed from the first entry on.  `Arena.value` is such a meaning, `value_eq` says
that it is the one that an entry has by the meanings of the entries it refers to, and
`Arena.induction` goes from the entries that are referred to, to the entry.
-/

namespace DashQL.Arena

open List

variable {ι β : Type*} (refs : ι → List ℕ) (eval : ι → (ℕ → β) → β) (default : β)

/-- Every entry refers to earlier entries. -/
def Ordered (entries : List ι) : Prop :=
  ∀ i entry, entries[i]? = some entry → ∀ r ∈ refs entry, r < i

/-- The meanings of the entries, from the first one on. -/
def values (entries : List ι) : List β :=
  entries.foldl (fun found entry => found ++ [eval entry fun r => found.getD r default]) []

/-- The meaning of an entry. -/
def value (entries : List ι) (i : ℕ) : β := (values eval default entries).getD i default

variable {refs eval default}

theorem values_concat (entries : List ι) (entry : ι) :
    values eval default (entries ++ [entry]) =
      values eval default entries ++ [eval entry (value eval default entries)] := by
  rw [values, foldl_append]
  rfl

theorem length_values (entries : List ι) :
    (values eval default entries).length = entries.length := by
  induction entries using List.reverseRecOn with
  | nil => rfl
  | append_singleton entries entry ih =>
    rw [values_concat, length_append, length_append, ih]
    rfl

theorem value_append_left {entries : List ι} (entry : ι) {i : ℕ} (h : i < entries.length) :
    value eval default (entries ++ [entry]) i = value eval default entries i := by
  rw [value, values_concat, getD_append _ _ _ _ (by rwa [length_values])]
  rfl

/-- The meaning of an entry comes from the meanings of the entries it refers to. -/
theorem value_eq {entries : List ι} (hordered : Ordered refs entries)
    (hlocal : ∀ entry (f g : ℕ → β), (∀ r ∈ refs entry, f r = g r) → eval entry f = eval entry g)
    {i : ℕ} {entry : ι} (h : entries[i]? = some entry) :
    value eval default entries i = eval entry (value eval default entries) := by
  induction entries using List.reverseRecOn with
  | nil => simp at h
  | append_singleton entries last ih =>
    have hfront : Ordered refs entries := by
      intro j other hother
      apply hordered j other
      rw [getElem?_append_left (List.getElem?_eq_some_iff.mp hother).1, hother]
    have hi := (List.getElem?_eq_some_iff.mp h).1
    rw [length_append, length_singleton] at hi
    -- the meanings of earlier entries are not changed by the last one
    have hkept : ∀ r ∈ refs entry, value eval default entries r =
        value eval default (entries ++ [last]) r := by
      intro r hr
      have hlt := hordered i entry h r hr
      exact (value_append_left last (by omega)).symm
    rcases Nat.lt_succ_iff_lt_or_eq.mp hi with hlt | rfl
    · rw [getElem?_append_left hlt] at h
      rw [value_append_left last hlt, ih hfront h]
      exact hlocal entry _ _ hkept
    · rw [getElem?_concat_length, Option.some_inj] at h
      subst h
      have hlast : value eval default (entries ++ [last]) entries.length =
          eval last (value eval default entries) := by
        rw [value, values_concat, getD_eq_getElem?_getD,
          getElem?_append_right (length_values entries).le, length_values, Nat.sub_self]
        rfl
      rw [hlast]
      exact hlocal last _ _ hkept

theorem induction {entries : List ι} (hordered : Ordered refs entries) {motive : ℕ → Prop}
    (step : ∀ i entry, entries[i]? = some entry → (∀ r ∈ refs entry, motive r) → motive i)
    {i : ℕ} (h : i < entries.length) : motive i := by
  induction i using Nat.strongRecOn with
  | ind i ih =>
    have hentry := getElem?_eq_getElem h
    apply step i _ hentry
    intro r hr
    have hlt := hordered i _ hentry r hr
    exact ih r hlt (hlt.trans h)

theorem ordered_of_zipIdx {entries : List ι}
    (h : ∀ entry ∈ entries.zipIdx, ∀ r ∈ refs entry.1, r < entry.2) : Ordered refs entries := by
  intro i entry hentry
  exact h (entry, i) (mk_mem_zipIdx_iff_getElem?.mpr hentry)

end DashQL.Arena
