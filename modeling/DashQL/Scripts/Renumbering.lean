import DashQL.Scripts.State

/-!
# Renumbering

`reprefixPages` and `REORDER_SCRIPTS` renumber the entries of an object in a given
order: every entry moves to its number and its clean name, and stays if it is
there already.  The new keys differ in their numbers, so none of them is used
twice, and sorting them brings back the order.
-/

namespace DashQL.Scripts

open List

open Storage Notebook

/-- The variables of the loop. -/
structure Renumbered (α : Type) where
  renames : List (Text × Text)
  newEntries : InsertionMap Text α
  newScripts : InsertionMap ℕ ScriptData

/-- What the loop does with an entry: its clean name, its number, and what it becomes under its
new name, with the scripts that follow it. -/
structure Renumbering (α : Type) where
  clean : Text → Text
  format : ℕ → ℕ → Text
  rename : Text → α → α
  follow : Text → α → InsertionMap ℕ ScriptData → InsertionMap ℕ ScriptData

namespace Renumbering

variable {α : Type} (kind : Renumbering α) (read : Text → Option α)

/-- The name of an entry at a position. -/
def target (total : ℕ) (position : Text × ℕ) : Text :=
  kind.format (position.2 + 1) total ++ kind.clean position.1

/-- The loop body. -/
def step (total : ℕ) (done : Renumbered α) (position : Text × ℕ) : Renumbered α :=
  match read position.1 with
  | none => done
  | some entry =>
    let newName := kind.target total position
    if newName = position.1 then { done with newEntries := done.newEntries.set position.1 entry }
    else
      { renames := done.renames ++ [(position.1, newName)]
        newEntries := done.newEntries.set newName (kind.rename newName entry)
        newScripts := kind.follow newName entry done.newScripts }

/-- The loop. -/
def run (order : List Text) (scripts : InsertionMap ℕ ScriptData) : Renumbered α :=
  order.zipIdx.foldl (kind.step read order.length) ⟨[], .empty, scripts⟩

/-- What the loop relies on: numbers are formatted as they are read, and scripts that follow an
entry keep their texts. -/
structure Lawful : Prop where
  format_append : ∀ index1 total cleanName, kind.format index1 total ++ cleanName =
    padNumber index1 (decimal (max total 1)).length ++ '_' :: cleanName
  clean_padNumber : ∀ n width cleanName, kind.clean (padNumber n width ++ '_' :: cleanName) =
    cleanName
  text_follow : ∀ newName entry scripts scriptId,
    ((kind.follow newName entry scripts).get? scriptId).map ScriptData.text =
      (scripts.get? scriptId).map ScriptData.text

/-- What becomes of an entry. -/
def moved (total : ℕ) (position : Text × ℕ) (entry : α) : α :=
  if kind.target total position = position.1 then entry
  else kind.rename (kind.target total position) entry

/-- The entries that the loop sets. -/
def entries (total : ℕ) (positions : List (Text × ℕ)) : List (Text × α) :=
  positions.filterMap fun position =>
    (read position.1).map fun entry => (kind.target total position, kind.moved total position entry)

variable {kind read} {total : ℕ}

variable (total) in
theorem foldl_step (h : kind.Lawful) (positions : List (Text × ℕ)) (done : Renumbered α)
    (hread : ∀ position ∈ positions, (read position.1).isSome) :
    (positions.foldl (kind.step read total) done).newEntries =
        (kind.entries read total positions).foldl (fun m entry => m.set entry.1 entry.2)
          done.newEntries ∧
      (positions.foldl (kind.step read total) done).renames =
        done.renames ++ (positions.map fun position => (position.1, kind.target total position)).filter
          (fun move => move.1 ≠ move.2) ∧
      ∀ scriptId,
        ((positions.foldl (kind.step read total) done).newScripts.get? scriptId).map
            ScriptData.text =
          (done.newScripts.get? scriptId).map ScriptData.text := by
  induction positions generalizing done with
  | nil => exact ⟨rfl, (append_nil _).symm, fun _ => rfl⟩
  | cons position positions ih =>
    obtain ⟨entry, hentry⟩ := Option.isSome_iff_exists.mp (hread position mem_cons_self)
    obtain ⟨hentries, hrenames, htexts⟩ := ih (kind.step read total done position)
      fun other hother => hread other (mem_cons_of_mem position hother)
    have hfirst : kind.entries read total (position :: positions) =
        (kind.target total position, kind.moved total position entry) ::
          kind.entries read total positions := by
      rw [entries, filterMap_cons, hentry]
      rfl
    rw [foldl_cons, hentries, hrenames, hfirst, foldl_cons, map_cons]
    by_cases hsame : kind.target total position = position.1
    · have hstep : kind.step read total done position =
          { done with newEntries := done.newEntries.set position.1 entry } := by
        rw [step, hentry]
        exact if_pos hsame
      have hmoved : kind.moved total position entry = entry := if_pos hsame
      rw [filter_cons_of_neg (by simp [hsame]), hmoved, hsame, hstep]
      refine ⟨rfl, rfl, fun scriptId => ?_⟩
      rw [← hstep, htexts, hstep]
    · have hstep : kind.step read total done position =
          { renames := done.renames ++ [(position.1, kind.target total position)]
            newEntries := done.newEntries.set (kind.target total position)
              (kind.rename (kind.target total position) entry)
            newScripts := kind.follow (kind.target total position) entry done.newScripts } := by
        rw [step, hentry]
        exact if_neg hsame
      have hmoved : kind.moved total position entry =
          kind.rename (kind.target total position) entry := if_neg hsame
      rw [filter_cons_of_pos (by simpa using Ne.symm hsame), hmoved, hstep]
      refine ⟨rfl, by rw [append_assoc]; rfl, fun scriptId => ?_⟩
      rw [← hstep, htexts, hstep, h.text_follow]

/-! ## The new names -/

theorem leadingNumber?_target (h : kind.Lawful) (position : Text × ℕ) :
    leadingNumber? (kind.target total position) = some (position.2 + 1) := by
  rw [target, h.format_append, leadingNumber?_padNumber]

theorem clean_target (h : kind.Lawful) (position : Text × ℕ) :
    kind.clean (kind.target total position) = kind.clean position.1 := by
  rw [target, h.format_append, h.clean_padNumber]

/-- The new names in the order of their numbers. -/
def targets (kind : Renumbering α) (order : List Text) : List Text :=
  order.zipIdx.map (kind.target order.length)

theorem pairwise_targets (h : kind.Lawful) (order : List Text) :
    (kind.targets order).Pairwise fun a b =>
      ∃ n m, leadingNumber? a = some n ∧ leadingNumber? b = some m ∧ n < m := by
  have hpositions : order.zipIdx.Pairwise fun p q => p.2 < q.2 := by
    have hindices : (order.zipIdx.map Prod.snd).Pairwise (· < ·) := by
      rw [zipIdx_map_snd]
      exact pairwise_lt_range'
    exact pairwise_map.mp hindices
  refine pairwise_map.mpr (hpositions.imp ?_)
  intro p q hlt
  exact ⟨p.2 + 1, q.2 + 1, leadingNumber?_target h p, leadingNumber?_target h q, by omega⟩

/-- No new name is used twice. -/
theorem nodup_targets (h : kind.Lawful) (order : List Text) : (kind.targets order).Nodup := by
  refine (pairwise_targets h order).imp ?_
  rintro a b ⟨n, m, ha, hb, hlt⟩ rfl
  exact absurd (Option.some.inj (ha.symm.trans hb)) hlt.ne

/-! ## The run -/

def newName (kind : Renumbering α) (order : List Text) (name : Text) : Text :=
  kind.target order.length (name, order.idxOf name)

variable {order : List Text}

theorem zipIdx_eq_map_idxOf (hnodup : order.Nodup) :
    order.zipIdx = order.map fun name => (name, order.idxOf name) := by
  refine ext_getElem (by simp) fun i hi hi' => ?_
  have hlt : i < order.length := by simpa using hi
  rw [getElem_zipIdx, getElem_map, Nat.zero_add, hnodup.idxOf_getElem i hlt]

theorem targets_eq_map (hnodup : order.Nodup) :
    kind.targets order = order.map (kind.newName order) := by
  rw [targets, zipIdx_eq_map_idxOf hnodup, map_map]
  rfl

/-- What the loop makes of an order of entries: every entry is found under its new name, and no
text changes. -/
structure Renumbers (kind : Renumbering α) (read : Text → Option α) (order : List Text)
    (scripts : InsertionMap ℕ ScriptData) (done : Renumbered α) : Prop where
  keys : done.newEntries.keys = order.map (kind.newName order)
  get? : ∀ name ∈ order, done.newEntries.get? (kind.newName order name) =
    (read name).map (kind.moved order.length (name, order.idxOf name))
  renames : done.renames = (order.map fun name => (name, kind.newName order name)).filter
    fun move => move.1 ≠ move.2
  text : ∀ scriptId, (done.newScripts.get? scriptId).map ScriptData.text =
    (scripts.get? scriptId).map ScriptData.text

theorem map_fst_entries {positions : List (Text × ℕ)}
    (hread : ∀ position ∈ positions, (read position.1).isSome) :
    (kind.entries read total positions).map Prod.fst = positions.map (kind.target total) := by
  induction positions with
  | nil => rfl
  | cons position positions ih =>
    obtain ⟨entry, hentry⟩ := Option.isSome_iff_exists.mp (hread position mem_cons_self)
    have hrest := ih fun other hother => hread other (mem_cons_of_mem position hother)
    rw [entries] at hrest ⊢
    rw [filterMap_cons, hentry, Option.map_some, map_cons, map_cons, hrest]

theorem renumbers_run (h : kind.Lawful) (hnodup : order.Nodup)
    (hread : ∀ name ∈ order, (read name).isSome) (scripts : InsertionMap ℕ ScriptData) :
    Renumbers kind read order scripts (kind.run read order scripts) := by
  have hreads : ∀ position ∈ order.zipIdx, (read position.1).isSome :=
    fun position hposition => hread position.1 (fst_mem_of_mem_zipIdx hposition)
  obtain ⟨hentries, hrenames, htext⟩ :=
    foldl_step order.length h order.zipIdx ⟨[], .empty, scripts⟩ hreads
  have hkeys : (kind.entries read order.length order.zipIdx).map Prod.fst = kind.targets order :=
    map_fst_entries hreads
  have hfresh : ((kind.entries read order.length order.zipIdx).map Prod.fst).Nodup :=
    hkeys ▸ nodup_targets h order
  have hpositions := zipIdx_eq_map_idxOf hnodup
  refine ⟨?_, fun name hname => ?_, ?_, htext⟩
  · rw [run, hentries, InsertionMap.keys_foldl_set hfresh (by simp), hkeys, targets_eq_map hnodup]
    rfl
  · obtain ⟨entry, hentry⟩ := Option.isSome_iff_exists.mp (hread name hname)
    rw [run, hentries, hentry]
    refine InsertionMap.get?_foldl_set_of_mem hfresh (mem_filterMap.mpr
      ⟨(name, order.idxOf name), ?_, ?_⟩)
    · rw [hpositions]
      exact mem_map_of_mem hname
    · rw [hentry]
      rfl
  · rw [run, hrenames, nil_append, hpositions, map_map]
    rfl

theorem clean_newName (h : kind.Lawful) (order : List Text) (name : Text) :
    kind.clean (kind.newName order name) = kind.clean name := clean_target h _

theorem sortNumerically_newNames {localeCompare : Text → Text → ℤ}
    (hcompare : ComparesNumbers localeCompare) (h : kind.Lawful) {names : List Text}
    (hnodup : order.Nodup) (hperm : names.Perm (order.map (kind.newName order))) :
    sortNumerically localeCompare names = order.map (kind.newName order) := by
  refine sortNumerically_eq hcompare hperm ?_
  rw [← targets_eq_map hnodup]
  exact pairwise_targets h order

/-- An order that is kept as it is was in order before. -/
theorem newName_of_renames_nil {scripts : InsertionMap ℕ ScriptData} {done : Renumbered α}
    (hdone : Renumbers kind read order scripts done) (hnone : done.renames = []) {name : Text}
    (hname : name ∈ order) : kind.newName order name = name := by
  by_contra hne
  have hmem : (name, kind.newName order name) ∈ done.renames := by
    rw [hdone.renames, mem_filter]
    exact ⟨mem_map_of_mem hname, by simpa using Ne.symm hne⟩
  rw [hnone] at hmem
  exact not_mem_nil hmem

/-- Where an entry was moved to. -/
theorem find?_renames {scripts : InsertionMap ℕ ScriptData} {done : Renumbered α}
    (hdone : Renumbers kind read order scripts done) {name : Text} (hname : name ∈ order) :
    ((done.renames.find? fun rename => rename.1 = name).map Prod.snd).getD name =
      kind.newName order name := by
  rw [hdone.renames]
  cases hfind : ((order.map fun other => (other, kind.newName order other)).filter
      fun move => move.1 ≠ move.2).find? fun rename => rename.1 = name with
  | none =>
    rw [Option.map_none, Option.getD_none]
    by_contra hne
    have hmem : (name, kind.newName order name) ∈
        (order.map fun other => (other, kind.newName order other)).filter
          fun move => move.1 ≠ move.2 :=
      mem_filter.mpr ⟨mem_map_of_mem hname, by simpa using hne⟩
    exact absurd (find?_eq_none.mp hfind _ hmem) (by simp)
  | some rename =>
    have hrename := find?_some hfind
    have hmem := mem_of_mem_filter (mem_of_find?_eq_some hfind)
    obtain ⟨other, -, rfl⟩ := mem_map.mp hmem
    obtain rfl : other = name := of_decide_eq_true hrename
    rfl

end Renumbering

end DashQL.Scripts
