import DashQL.Library.Replay

/-!
# Relabelling the keys of a partial map

A move takes the entry of a key to another key.  Keys carry a label that moves
keep, and the keys of the map have different labels.  Then a pass that moves
every key somewhere never runs into an occupied key, in whatever order it goes
through them, and the map is the one that is gathered from scratch
(`replay_relabel_of_labels`).
-/

namespace DashQL

open Function List

variable {κ α β : Type*} [DecidableEq κ]

/-- The entry of a key is moved to another key. -/
def relabel (move : κ × κ) (entries : κ → Option α) : κ → Option α := fun key =>
  if key = move.2 then entries move.1
  else if key = move.1 then none
  else entries key

/-- Moves that take, one after another, an existing key to a free one. -/
def Vacant : List (κ × κ) → (κ → Option α) → Prop
  | [], _ => True
  | move :: moves, entries =>
    (move.1 ≠ move.2 ∧ entries move.1 ≠ none ∧ entries move.2 = none) ∧
      Vacant moves (relabel move entries)

/-- The keys of a map have different labels. -/
def Labelled (label : κ → β) (entries : κ → Option α) : Prop :=
  ∀ key key', entries key ≠ none → entries key' ≠ none → label key = label key' → key = key'

/-- The map that is put together from the destinations of moves. -/
def gather (moves : List (κ × κ)) (entries : κ → Option α) : κ → Option α :=
  moves.foldl (fun gathered move => Function.update gathered move.2 (entries move.1)) fun _ => none

section Moves

variable {moves moves' : List (κ × κ)} {entries : κ → Option α} {label : κ → β} {old new : κ}

theorem vacant_append :
    Vacant (moves ++ moves') entries ↔
      Vacant moves entries ∧ Vacant moves' (replay relabel moves entries) := by
  induction moves generalizing entries with
  | nil => simp [Vacant]
  | cons move moves ih => simp only [cons_append, Vacant, ih, replay_cons, and_assoc]

/-- A move to a key whose label no other key has leaves the labels different. -/
theorem labelled_relabel (h : Labelled label entries)
    (hnew : ∀ key, entries key ≠ none → key ≠ old → label key ≠ label new) :
    Labelled label (relabel (old, new) entries) := by
  intro key key' hkey hkey' hlabel
  simp only [relabel] at hkey hkey'
  by_cases hk : key = new
  · by_cases hk' : key' = new
    · rw [hk, hk']
    · rw [if_neg hk'] at hkey'
      split_ifs at hkey' with hold
      · exact absurd rfl hkey'
      · rw [hk] at hlabel
        exact absurd hlabel.symm (hnew key' hkey' hold)
  · rw [if_neg hk] at hkey
    split_ifs at hkey with hold
    · exact absurd rfl hkey
    · by_cases hk' : key' = new
      · rw [hk'] at hlabel
        exact absurd hlabel (hnew key hkey hold)
      · rw [if_neg hk'] at hkey'
        split_ifs at hkey' with hold'
        · exact absurd rfl hkey'
        · exact h key key' hkey hkey' hlabel

/-- Moves that keep the labels leave them different. -/
theorem labelled_replay (h : Labelled label entries) (hvacant : Vacant moves entries)
    (hkeep : ∀ move ∈ moves, label move.2 = label move.1) :
    Labelled label (replay relabel moves entries) := by
  induction moves generalizing entries with
  | nil => exact h
  | cons move moves ih =>
    obtain ⟨⟨-, hpresent, -⟩, hrest⟩ := hvacant
    refine ih (labelled_relabel h ?_) hrest fun m hm => hkeep m (mem_cons_of_mem _ hm)
    intro key hkey hne heq
    have hlabel : label key = label move.1 := by rw [heq, hkeep move mem_cons_self]
    exact hne (h key move.1 hkey hpresent hlabel)

theorem relabel_loop {gathered current : κ → Option α}
    (hkeep : ∀ move ∈ moves, label move.2 = label move.1)
    (hnodup : (moves.map fun move => label move.1).Nodup)
    (hpresent : ∀ move ∈ moves, entries move.1 ≠ none)
    (hapart : ∀ key, gathered key ≠ none → ∀ move ∈ moves, label key ≠ label move.1)
    (hcurrent : ∀ key, current key =
      if key ∈ moves.map Prod.fst then entries key else gathered key) :
    Vacant (moves.filter fun move => move.1 ≠ move.2) current ∧
      replay relabel (moves.filter fun move => move.1 ≠ move.2) current =
        moves.foldl (fun gathered move => Function.update gathered move.2 (entries move.1))
          gathered := by
  induction moves generalizing gathered current with
  | nil =>
    refine ⟨trivial, ?_⟩
    funext key
    simpa using hcurrent key
  | cons move moves ih =>
    obtain ⟨old, new⟩ := move
    simp only [map_cons, nodup_cons, mem_map, not_exists, not_and] at hnodup
    simp only [mem_cons, forall_eq_or_imp] at hkeep hpresent hapart
    -- nothing else has the label of this move
    have hgathered : ∀ key, label key = label old → gathered key = none := by
      intro key hkey
      by_contra hne
      exact (hapart key hne).1 hkey
    have hrest : ∀ key, label key = label old → key ∉ moves.map Prod.fst := by
      intro key hkey hmem
      obtain ⟨move, hmove, rfl⟩ := mem_map.mp hmem
      exact hnodup.1 move hmove hkey
    have hupdate : ∀ key, Function.update gathered new (entries old) key ≠ none →
        ∀ move ∈ moves, label key ≠ label move.1 := by
      intro key hkey move hmove heq
      by_cases hnew : key = new
      · rw [hnew, hkeep.1] at heq
        exact hnodup.1 move hmove heq.symm
      · rw [update_of_ne hnew] at hkey
        exact (hapart key hkey).2 move hmove heq
    have hcons : ∀ key, key ≠ old →
        (key ∈ ((old, new) :: moves).map Prod.fst ↔ key ∈ moves.map Prod.fst) := by
      intro key hkey
      rw [map_cons, mem_cons, or_iff_right hkey]
    by_cases hsame : old = new
    · have hskip : ((old, new) :: moves).filter (fun move => move.1 ≠ move.2) =
          moves.filter fun move => move.1 ≠ move.2 := by simp [hsame]
      rw [hskip, foldl_cons]
      refine ih hkeep.2 hnodup.2 hpresent.2 hupdate ?_
      intro key
      rw [hcurrent key]
      by_cases hkey : key = old
      · have hnot := hrest key (by rw [hkey])
        rw [if_neg hnot, hkey, if_pos (by simp), ← hsame, update_self]
      · rw [← hsame, update_of_ne hkey]
        exact if_congr (hcons key hkey) rfl rfl
    · have hmove : ((old, new) :: moves).filter (fun move => move.1 ≠ move.2) =
          (old, new) :: moves.filter fun move => move.1 ≠ move.2 := by simp [hsame]
      have hold : current old = entries old := by rw [hcurrent old, if_pos (by simp)]
      have hnew : current new = none := by
        have hnot : new ∉ ((old, new) :: moves).map Prod.fst := by
          rw [map_cons, mem_cons, not_or]
          exact ⟨fun h => hsame h.symm, hrest new hkeep.1⟩
        rw [hcurrent new, if_neg hnot, hgathered new hkeep.1]
      rw [hmove, foldl_cons]
      have hnext : ∀ key, relabel (old, new) current key =
          if key ∈ moves.map Prod.fst then entries key
          else Function.update gathered new (entries old) key := by
        intro key
        simp only [relabel]
        by_cases hk : key = new
        · rw [if_pos hk, hold, if_neg (hrest key (by rw [hk, hkeep.1])), hk, update_self]
        · rw [if_neg hk, update_of_ne hk]
          by_cases hk' : key = old
          · rw [if_pos hk', if_neg (hrest key (by rw [hk'])), hgathered key (by rw [hk'])]
          · rw [if_neg hk', hcurrent key]
            exact if_congr (hcons key hk') rfl rfl
      have hloop := ih hkeep.2 hnodup.2 hpresent.2 hupdate hnext
      exact ⟨⟨⟨hsame, by rw [hold]; exact hpresent.1, hnew⟩, hloop.1⟩, hloop.2⟩

/-- A pass over all keys of a map that keeps their labels only moves onto free keys, and
leaves the gathered map. -/
theorem replay_relabel_of_labels (hlabels : Labelled label entries)
    (hkeep : ∀ move ∈ moves, label move.2 = label move.1) (hnodup : (moves.map Prod.fst).Nodup)
    (hall : ∀ key, entries key ≠ none ↔ key ∈ moves.map Prod.fst) :
    Vacant (moves.filter fun move => move.1 ≠ move.2) entries ∧
      replay relabel (moves.filter fun move => move.1 ≠ move.2) entries = gather moves entries := by
  have hpresent : ∀ move ∈ moves, entries move.1 ≠ none := fun move hmove =>
    (hall move.1).mpr (mem_map_of_mem hmove)
  refine relabel_loop hkeep ?_ hpresent (fun key hkey => absurd rfl hkey) ?_
  · have hmap : (moves.map fun move => label move.1) = (moves.map Prod.fst).map label := by simp
    rw [hmap]
    refine List.Nodup.map_on ?_ hnodup
    intro key hkey key' hkey' heq
    exact hlabels key key' ((hall key).mpr hkey) ((hall key').mpr hkey') heq
  · intro key
    by_cases hkey : key ∈ moves.map Prod.fst
    · rw [if_pos hkey]
    · rw [if_neg hkey]
      by_contra hne
      exact hkey ((hall key).mp hne)

end Moves

end DashQL
