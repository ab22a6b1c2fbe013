import Mathlib.Logic.Function.Basic
import Mathlib.Tactic.SplitIfs

/-!
# An index beside a table

Every holder in a table has a name, and an index finds the owner of a name.  The index
is kept beside the table: it has the entry of every holder and no other one
(`Indexed`), and a change of the table goes with one of the index.
-/

namespace DashQL

open Function Option

variable {ι σ ω : Type*}

/-- The index has the entries of the holders and no others, and no two holders have one name. -/
structure Indexed (holder : ι → Option (σ × ω)) (index : σ → Option ω) : Prop where
  index_iff : ∀ name owner, index name = some owner ↔ ∃ id, holder id = some (name, owner)
  unique : ∀ id id' name owner owner', holder id = some (name, owner) →
    holder id' = some (name, owner') → id = id'

namespace Indexed

variable [DecidableEq ι] [DecidableEq σ] {holder : ι → Option (σ × ω)} {index : σ → Option ω}
  {id : ι} {name other : σ} {owner other' : ω}

omit [DecidableEq ι] [DecidableEq σ] in
theorem empty : Indexed (fun _ : ι => none) (fun _ : σ => (none : Option ω)) := by
  refine ⟨fun name owner => ⟨(fun h => by cases h), ?_⟩, ?_⟩
  · rintro ⟨id, h⟩
    cases h
  · intro id id' name owner owner' h
    cases h

theorem insert (h : Indexed holder index) (hnew : holder id = none) (hfree : index name = none) :
    Indexed (Function.update holder id (some (name, owner)))
      (Function.update index name (some owner)) := by
  have hunused : ∀ id' owner', holder id' ≠ some (name, owner') := by
    intro id' owner' hheld
    rw [(h.index_iff name owner').mpr ⟨id', hheld⟩] at hfree
    cases hfree
  refine ⟨fun name' owner' => ?_, fun id' id'' name' owner' owner'' hheld hheld' => ?_⟩
  · by_cases hname : name' = name
    · subst hname
      rw [update_self]
      constructor
      · intro heq
        obtain rfl := some.inj heq
        exact ⟨id, update_self _ _ _⟩
      · rintro ⟨id', hheld⟩
        by_cases hid : id' = id
        · rw [hid, update_self] at hheld
          rw [(Prod.mk.inj (some.inj hheld)).2]
        · rw [update_of_ne hid] at hheld
          exact (hunused id' owner' hheld).elim
    · rw [update_of_ne hname, h.index_iff]
      refine exists_congr fun id' => ?_
      by_cases hid : id' = id
      · rw [hid, update_self, hnew]
        refine ⟨(fun heq => by cases heq), fun heq => ?_⟩
        exact (hname (Prod.mk.inj (some.inj heq)).1.symm).elim
      · rw [update_of_ne hid]
  · rw [update_apply] at hheld hheld'
    split_ifs at hheld hheld' with hid hid' hid'
    · exact hid.trans hid'.symm
    · rw [← (Prod.mk.inj (some.inj hheld)).1] at hheld'
      exact (hunused id'' owner'' hheld').elim
    · rw [← (Prod.mk.inj (some.inj hheld')).1] at hheld
      exact (hunused id' owner' hheld).elim
    · exact h.unique id' id'' name' owner' owner'' hheld hheld'

theorem remove (h : Indexed holder index) (hheld : holder id = some (name, owner)) :
    Indexed (Function.update holder id none) (Function.update index name none) := by
  refine ⟨fun name' owner' => ?_, fun id' id'' name' owner' owner'' hheld' hheld'' => ?_⟩
  · by_cases hname : name' = name
    · subst hname
      rw [update_self]
      refine ⟨(fun heq => by cases heq), ?_⟩
      rintro ⟨id', hheld'⟩
      rw [update_apply] at hheld'
      split_ifs at hheld' with hid
      exact (hid (h.unique id' id name' owner' owner hheld' hheld)).elim
    · rw [update_of_ne hname, h.index_iff]
      refine exists_congr fun id' => ?_
      by_cases hid : id' = id
      · rw [hid, update_self, hheld]
        refine ⟨fun heq => ?_, (fun heq => by cases heq)⟩
        exact (hname (Prod.mk.inj (some.inj heq)).1.symm).elim
      · rw [update_of_ne hid]
  · rw [update_apply] at hheld' hheld''
    split_ifs at hheld' hheld''
    exact h.unique id' id'' name' owner' owner'' hheld' hheld''

/-- A holder gets another name that is free without its old one, or another owner. -/
theorem rename (h : Indexed holder index) (hheld : holder id = some (name, owner))
    (hfree : Function.update index name none other = none) :
    Indexed (Function.update holder id (some (other, other')))
      (Function.update (Function.update index name none) other (some other')) := by
  have hinserted := @insert _ _ _ _ _ _ _ id other other' (h.remove hheld)
    (by rw [update_self]) hfree
  rw [update_idem] at hinserted
  exact hinserted

end Indexed

end DashQL
