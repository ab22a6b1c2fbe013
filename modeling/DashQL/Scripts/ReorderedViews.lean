import DashQL.Scripts.Reorder

/-!
# Views after a reorder

A resolved order has the requested names in front as long as it only lists
entries.  The renumbered entries are then in that order, and an action does what
it is for (`honours_iff`).
-/

namespace DashQL.Scripts

open List

open Storage Notebook

/-! ## The resolved order -/

theorem foldl_appendUnseen (names order : List Text) :
    names.foldl appendUnseen order = order ++ (names.filter fun name => name ∉ order).eraseDups := by
  induction names generalizing order with
  | nil => exact (append_nil order).symm
  | cons name names ih =>
    rw [foldl_cons, ih, appendUnseen]
    by_cases hmem : name ∈ order
    · rw [if_pos hmem, filter_cons_of_neg (by simpa using hmem)]
    · rw [if_neg hmem, filter_cons_of_pos (by simpa using hmem), eraseDups_cons,
        filter_filter, append_assoc, singleton_append]
      congr 3
      refine filter_congr fun other _ => ?_
      rw [Bool.eq_iff_iff]
      simp [and_comm, not_or]

theorem eraseDups_of_nodup {names : List Text} (h : names.Nodup) : names.eraseDups = names := by
  induction names with
  | nil => rfl
  | cons name names ih =>
    obtain ⟨hhead, htail⟩ := nodup_cons.mp h
    have hkeep : (names.filter fun other => !other == name) = names := by
      rw [filter_eq_self]
      intro other hother
      have hne : other ≠ name := fun heq => hhead (heq ▸ hother)
      simpa using hne
    rw [eraseDups_cons, hkeep, ih htail]

variable {same : Text → Text → Prop}

section Resolve

variable {α : Type} {m : InsertionMap Text α} {inherited : α} {requested view : List Text}

theorem isSome_readMember {name : Text} :
    (readMember m inherited name).isSome ↔ name ∈ m.keys ∨ name ∈ objectPrototype := by
  rw [readMember, InsertionMap.mem_keys_iff]
  cases hget : m.get? name with
  | some value => simp
  | none => split_ifs with hmem <;> simp [hmem]

/-- An order lists the entries, and the inherited names that were requested. -/
theorem mem_resolveOrder (hview : view.Perm m.keys) {name : Text} :
    name ∈ resolveOrder m inherited requested view ↔
      name ∈ m.keys ∨ (name ∈ requested ∧ name ∈ objectPrototype) := by
  rw [resolveOrder, mem_foldl_appendUnseen, mem_foldl_appendUnseen, mem_filter,
    isSome_readMember, hview.mem_iff]
  simp only [not_mem_nil, false_or]
  tauto

theorem nodup_resolveOrder : (resolveOrder m inherited requested view).Nodup :=
  nodup_foldl_appendUnseen (nodup_foldl_appendUnseen nodup_nil)

theorem resolveOrder_eq (hview : view.Perm m.keys)
    (hown : ∀ name ∈ requested, name ∈ objectPrototype → name ∈ m.keys) :
    resolveOrder m inherited requested view = requestedFirst requested view := by
  have hrequested : (requested.filter fun name => (readMember m inherited name).isSome) =
      requested.filter fun name => name ∈ view := by
    refine filter_congr fun name hname => ?_
    rw [Bool.eq_iff_iff, decide_eq_true_iff, isSome_readMember, hview.mem_iff]
    exact ⟨fun h => h.elim id (hown name hname), Or.inl⟩
  have hnodup : view.Nodup := hview.nodup_iff.mpr m.nodup_keys
  rw [resolveOrder, requestedFirst, hrequested, foldl_appendUnseen, foldl_appendUnseen, nil_append]
  have hall : ∀ names : List Text, (names.filter fun name => name ∉ ([] : List Text)) = names :=
    fun names => filter_eq_self.mpr fun name _ => by simp
  rw [hall, eraseDups_of_nodup (hnodup.filter _)]

theorem resolveOrder_perm (hview : view.Perm m.keys)
    (hown : ∀ name ∈ requested, name ∈ objectPrototype → name ∈ m.keys) :
    (resolveOrder m inherited requested view).Perm m.keys := by
  refine (perm_ext_iff_of_nodup nodup_resolveOrder m.nodup_keys).mpr fun name => ?_
  rw [mem_resolveOrder hview]
  exact ⟨fun h => h.elim id fun hname => hown name hname.1 hname.2, Or.inl⟩

theorem requestedFirst_perm (hnodup : view.Nodup) : (requestedFirst requested view).Perm view := by
  have hkeep : ∀ name, name ∈ requestedFirst requested view ↔ name ∈ view := by
    intro name
    rw [requestedFirst]
    simp only [mem_append, mem_eraseDups, mem_filter, decide_eq_true_iff]
    tauto
  refine (perm_ext_iff_of_nodup ?_ hnodup).mpr hkeep
  have heq : requestedFirst requested view =
      view.foldl appendUnseen
        ((requested.filter fun name => name ∈ view).foldl appendUnseen []) := by
    have hall : ∀ names : List Text, (names.filter fun name => name ∉ ([] : List Text)) = names :=
      fun names => filter_eq_self.mpr fun name _ => by simp
    rw [foldl_appendUnseen, foldl_appendUnseen, nil_append, hall,
      eraseDups_of_nodup (hnodup.filter _)]
    rfl
  rw [heq]
  exact nodup_foldl_appendUnseen (nodup_foldl_appendUnseen nodup_nil)

theorem Reordered.length_eq {clean : Text → Text} {view' : List Text}
    (h : Reordered clean requested view view' same) (hnodup : view.Nodup) :
    view'.length = view.length := by
  obtain ⟨-, rename, rfl, -⟩ := h
  rw [length_map, (requestedFirst_perm hnodup).length_eq]

theorem reordered_refl {clean : Text → Text} (hnodup : view.Nodup)
    (horder : requestedFirst requested view = view) (hsame : ∀ name ∈ view, same name name) :
    Reordered clean requested view view same :=
  ⟨hnodup, id, by rw [horder, map_id], fun name hname => ⟨rfl, hsame name hname⟩⟩

end Resolve

/-! ## Renumbered entries -/

section Renumber

variable {α : Type} {kind : Renumbering α} {m : InsertionMap Text α} {inherited : α}
  {requested : List Text} {localeCompare : Text → Text → ℤ} {scripts : InsertionMap ℕ ScriptData}
  {done : Renumbered α}

abbrev viewOf (localeCompare : Text → Text → ℤ) (m : InsertionMap Text α) : List Text :=
  sortNumerically localeCompare (objectKeys m)

theorem nodup_view : (viewOf localeCompare m).Nodup :=
  (sorted_perm_keys localeCompare m).nodup_iff.mpr m.nodup_keys

/-- The order that a reorder of an object resolves. -/
abbrev orderOf (localeCompare : Text → Text → ℤ) (m : InsertionMap Text α) (inherited : α)
    (requested : List Text) : List Text :=
  resolveOrder m inherited requested (viewOf localeCompare m)

theorem renumbers_orderOf (h : kind.Lawful) :
    Renumbering.Renumbers kind (readMember m inherited)
      (orderOf localeCompare m inherited requested) scripts
      (kind.run (readMember m inherited) (orderOf localeCompare m inherited requested) scripts) := by
  refine Renumbering.renumbers_run h nodup_resolveOrder (fun name hname => ?_) scripts
  rw [isSome_readMember]
  rw [mem_resolveOrder (sorted_perm_keys localeCompare m)] at hname
  exact hname.imp_right And.right

theorem view_renumbered (hcompare : ComparesNumbers localeCompare) (h : kind.Lawful)
    (hdone : Renumbering.Renumbers kind (readMember m inherited)
      (orderOf localeCompare m inherited requested) scripts done) :
    viewOf localeCompare done.newEntries = (orderOf localeCompare m inherited requested).map
      (kind.newName (orderOf localeCompare m inherited requested)) := by
  refine Renumbering.sortNumerically_newNames hcompare h nodup_resolveOrder ?_
  rw [← hdone.keys]
  exact objectKeys_perm done.newEntries

section OwnNames

variable (hown : ∀ name ∈ requested, name ∈ objectPrototype → name ∈ m.keys)

include hown

theorem orderOf_eq :
    orderOf localeCompare m inherited requested = requestedFirst requested (viewOf localeCompare m) :=
  resolveOrder_eq (sorted_perm_keys localeCompare m) hown

theorem mem_orderOf {name : Text} :
    name ∈ orderOf localeCompare m inherited requested ↔ name ∈ m.keys :=
  (resolveOrder_perm (sorted_perm_keys localeCompare m) hown).mem_iff

theorem get?_renumbered
    (hdone : Renumbering.Renumbers kind (readMember m inherited)
      (orderOf localeCompare m inherited requested) scripts done)
    {name : Text} {value : α} (hvalue : m.get? name = some value) :
    done.newEntries.get? (kind.newName (orderOf localeCompare m inherited requested) name) =
      some (kind.moved (orderOf localeCompare m inherited requested).length
        (name, (orderOf localeCompare m inherited requested).idxOf name) value) := by
  have hmem : name ∈ m.keys := InsertionMap.mem_keys_iff.mpr ⟨value, hvalue⟩
  rw [hdone.get? name ((mem_orderOf hown).mpr hmem), readMember, hvalue]
  rfl

theorem reordered_renumbered (hcompare : ComparesNumbers localeCompare) (h : kind.Lawful)
    (hdone : Renumbering.Renumbers kind (readMember m inherited)
      (orderOf localeCompare m inherited requested) scripts done) (hsame : ∀ name ∈ m.keys,
      same name (kind.newName (orderOf localeCompare m inherited requested) name)) :
    Reordered kind.clean requested (viewOf localeCompare m) (viewOf localeCompare done.newEntries)
      same := by
  refine ⟨nodup_view, kind.newName (orderOf localeCompare m inherited requested), ?_, ?_⟩
  · rw [view_renumbered hcompare h hdone, ← orderOf_eq hown]
  · intro name hname
    exact ⟨Renumbering.clean_newName h _ name,
      hsame name ((sorted_perm_keys localeCompare m).mem_iff.mp hname)⟩

/-- Entries that stay where they are were in order before. -/
theorem orderOf_eq_view (hcompare : ComparesNumbers localeCompare) (h : kind.Lawful)
    (hdone : Renumbering.Renumbers kind (readMember m inherited)
      (orderOf localeCompare m inherited requested) scripts done) (hnone : done.renames = []) :
    orderOf localeCompare m inherited requested = viewOf localeCompare m := by
  have hnames : (orderOf localeCompare m inherited requested).map
      (kind.newName (orderOf localeCompare m inherited requested)) =
        orderOf localeCompare m inherited requested := by
    refine (map_congr_left fun name hname => ?_).trans (map_id _)
    exact Renumbering.newName_of_renames_nil hdone hnone hname
  have hperm : (objectKeys m).Perm (orderOf localeCompare m inherited requested) :=
    (objectKeys_perm m).trans (resolveOrder_perm (sorted_perm_keys localeCompare m) hown).symm
  rw [← hnames] at hperm
  have hsorted := Renumbering.sortNumerically_newNames hcompare h nodup_resolveOrder hperm
  rw [hnames] at hsorted
  exact hsorted.symm

end OwnNames

/-! ## Inherited names -/

theorem leadingNumber?_of_mem_objectPrototype {name : Text} (h : name ∈ objectPrototype) :
    leadingNumber? name = none := by
  revert name
  decide

section InheritedName

variable {name : Text} (hrequested : name ∈ requested) (hinherited : name ∈ objectPrototype)
  (hforeign : name ∉ m.keys)

include hrequested hinherited

theorem mem_orderOf_inherited : name ∈ orderOf localeCompare m inherited requested :=
  (mem_resolveOrder (sorted_perm_keys localeCompare m)).mpr (.inr ⟨hrequested, hinherited⟩)

theorem renames_ne_nil (h : kind.Lawful)
    (hdone : Renumbering.Renumbers kind (readMember m inherited)
      (orderOf localeCompare m inherited requested) scripts done) : done.renames ≠ [] := by
  intro hnone
  have hkept := Renumbering.newName_of_renames_nil hdone hnone
    (mem_orderOf_inherited hrequested hinherited)
  have hnumber : leadingNumber? (kind.newName (orderOf localeCompare m inherited requested) name) =
      some ((orderOf localeCompare m inherited requested).idxOf name + 1) :=
    Renumbering.leadingNumber?_target h _
  rw [hkept, leadingNumber?_of_mem_objectPrototype hinherited] at hnumber
  exact absurd hnumber (Option.some_ne_none _).symm

include hforeign

/-- An inherited name passes for one more entry. -/
theorem length_lt_orderOf :
    (viewOf localeCompare m).length < (orderOf localeCompare m inherited requested).length := by
  have hperm := sorted_perm_keys localeCompare m
  have hnodup : (name :: viewOf localeCompare m).Nodup :=
    nodup_cons.mpr ⟨fun hmem => hforeign (hperm.mem_iff.mp hmem), nodup_view⟩
  have hsub : name :: viewOf localeCompare m ⊆ orderOf localeCompare m inherited requested := by
    intro other hother
    rcases mem_cons.mp hother with rfl | hother
    · exact mem_orderOf_inherited hrequested hinherited
    · exact (mem_resolveOrder hperm).mpr (.inl (hperm.mem_iff.mp hother))
  have hlength := (subperm_of_subset hnodup hsub).length_le
  rwa [length_cons] at hlength

theorem orderOf_ne_view : orderOf localeCompare m inherited requested ≠ viewOf localeCompare m := by
  intro heq
  have hlength : (viewOf localeCompare m).length <
      (orderOf localeCompare m inherited requested).length :=
    length_lt_orderOf hrequested hinherited hforeign
  rw [heq] at hlength
  exact absurd hlength (lt_irrefl _)

theorem not_reordered_renumbered (hcompare : ComparesNumbers localeCompare) (h : kind.Lawful)
    (hdone : Renumbering.Renumbers kind (readMember m inherited)
      (orderOf localeCompare m inherited requested) scripts done) :
    ¬ Reordered kind.clean requested (viewOf localeCompare m)
      (viewOf localeCompare done.newEntries) same := by
  intro hreordered
  have hlength := hreordered.length_eq nodup_view
  rw [view_renumbered hcompare h hdone, length_map] at hlength
  exact absurd (length_lt_orderOf hrequested hinherited hforeign) (by rw [hlength]; exact lt_irrefl _)

end InheritedName

end Renumber

end DashQL.Scripts
