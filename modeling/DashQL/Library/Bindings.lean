import Mathlib.Data.List.Nodup
import Mathlib.Logic.Function.Basic

/-!
# Bindings that are stored on both sides

A slot names the session that is active in it, and a session that is registered names its slot.  The
two sides are changed one after another, so that in between a session is in transit: active, but not
registered, either because it is still to be registered or because it was withdrawn already.

`Consistent` is what all changes keep; it says that the sides agree where nothing is in transit
(`Consistent.active_iff`).
-/

namespace DashQL

open Function List Option

/-- The active sessions of the slots, the slots of the registered sessions, and the sessions in
transit. -/
structure Bindings (ι : Type*) where
  active : ι → Option ℕ
  registered : ℕ → Option ι
  transit : List (ℕ × ι)

namespace Bindings

variable {ι : Type*}

/-- A session is registered or in transit once, it is active in its slot, and an active session of a
live slot is registered or in transit. -/
structure Consistent (live : ι → Prop) (bindings : Bindings ι) : Prop where
  nodup : (bindings.transit.map Prod.fst).Nodup
  notRegistered : ∀ id slot, (id, slot) ∈ bindings.transit → bindings.registered id = none
  transitActive : ∀ id slot, (id, slot) ∈ bindings.transit → bindings.active slot = some id
  registeredActive : ∀ id slot, bindings.registered id = some slot →
    bindings.active slot = some id
  held : ∀ slot id, live slot → bindings.active slot = some id →
    bindings.registered id = some slot ∨ (id, slot) ∈ bindings.transit

variable {live live' : ι → Prop} {active : ι → Option ℕ} {registered : ℕ → Option ι}
  {transit transit' : List (ℕ × ι)} {id : ℕ} {slot : ι}

/-- With nothing in transit the two sides agree. -/
theorem Consistent.active_iff (h : (Bindings.mk active registered []).Consistent live)
    (hlive : live slot) : active slot = some id ↔ registered id = some slot := by
  constructor
  · intro hactive
    exact (h.held slot id hlive hactive).resolve_right not_mem_nil
  · intro hregistered
    exact h.registeredActive id slot hregistered

section

variable (h : (Bindings.mk active registered transit).Consistent live)

include h

/-- The order of what is in transit does not matter. -/
theorem Consistent.perm (hperm : transit.Perm transit') :
    (Bindings.mk active registered transit').Consistent live where
  nodup := (hperm.map Prod.fst).nodup_iff.mp h.nodup
  notRegistered id slot hmem := h.notRegistered id slot (hperm.mem_iff.mpr hmem)
  transitActive id slot hmem := h.transitActive id slot (hperm.mem_iff.mpr hmem)
  registeredActive := h.registeredActive
  held slot id hlive hactive := (h.held slot id hlive hactive).imp_right hperm.mem_iff.mp

theorem Consistent.mono (hlive : ∀ slot, live' slot → live slot) :
    (Bindings.mk active registered transit).Consistent live' :=
  { h with held := fun slot id hslot => h.held slot id (hlive slot hslot) }

theorem Consistent.insertSlot (hlive : ∀ slot', live' slot' → slot' = slot ∨ live slot')
    (hnone : active slot = none) : (Bindings.mk active registered transit).Consistent live' :=
  { h with
    held := by
      intro slot' id hslot hactive
      rcases hlive slot' hslot with rfl | hslot
      · exact absurd (hnone.symm.trans hactive) (some_ne_none _).symm
      · exact h.held slot' id hslot hactive }

/-- A new session becomes active, and is in transit. -/
theorem Consistent.bind [DecidableEq ι] (hnone : active slot = none)
    (hnew : ∀ slot', active slot' ≠ some id) :
    (Bindings.mk (Function.update active slot (some id)) registered
      ((id, slot) :: transit)).Consistent live := by
  have hne : ∀ {id' slot'}, active slot' = some id' → slot' ≠ slot := by
    rintro id' slot' hactive rfl
    exact absurd (hnone.symm.trans hactive) (some_ne_none _).symm
  have hkept : ∀ {id' slot'}, active slot' = some id' →
      Function.update active slot (some id) slot' = some id' := by
    intro id' slot' hactive
    rw [update_of_ne (hne hactive), hactive]
  constructor
  · refine nodup_cons.mpr ⟨?_, h.nodup⟩
    intro hmem
    obtain ⟨⟨id', slot'⟩, htransit, rfl⟩ := mem_map.mp hmem
    exact hnew slot' (h.transitActive id' slot' htransit)
  · intro id' slot' hmem
    rcases mem_cons.mp hmem with heq | hmem
    · obtain ⟨rfl, rfl⟩ := Prod.mk.inj heq
      rw [eq_none_iff_forall_ne_some]
      intro slot'' hregistered
      exact hnew slot'' (h.registeredActive id' slot'' hregistered)
    · exact h.notRegistered id' slot' hmem
  · intro id' slot' hmem
    rcases mem_cons.mp hmem with heq | hmem
    · obtain ⟨rfl, rfl⟩ := Prod.mk.inj heq
      exact update_self _ _ _
    · exact hkept (h.transitActive id' slot' hmem)
  · intro id' slot' hregistered
    exact hkept (h.registeredActive id' slot' hregistered)
  · intro slot' id' hlive hactive
    change Function.update active slot (some id) slot' = some id' at hactive
    rw [update_apply] at hactive
    split_ifs at hactive with hslot
    · obtain rfl := some.inj hactive
      rw [hslot]
      exact .inr mem_cons_self
    · exact (h.held slot' id' hlive hactive).imp_right (mem_cons_of_mem _)

end

theorem Consistent.register
    (h : (Bindings.mk active registered ((id, slot) :: transit)).Consistent live) :
    (Bindings.mk active (Function.update registered id (some slot)) transit).Consistent live := by
  obtain ⟨hnew, hnodup⟩ := nodup_cons.mp h.nodup
  have hne : ∀ {id' slot'}, (id', slot') ∈ transit → id' ≠ id := by
    rintro id' slot' hmem rfl
    exact hnew (mem_map.mpr ⟨_, hmem, rfl⟩)
  have hactive : active slot = some id := h.transitActive id slot mem_cons_self
  constructor
  · exact hnodup
  · intro id' slot' hmem
    exact (update_of_ne (hne hmem) _ _).trans (h.notRegistered id' slot' (mem_cons_of_mem _ hmem))
  · intro id' slot' hmem
    exact h.transitActive id' slot' (mem_cons_of_mem _ hmem)
  · intro id' slot' hregistered
    change Function.update registered id (some slot) id' = some slot' at hregistered
    rw [update_apply] at hregistered
    split_ifs at hregistered with hid
    · obtain rfl := some.inj hregistered
      rw [hid]
      exact hactive
    · exact h.registeredActive id' slot' hregistered
  · intro slot' id' hlive hslot
    change Function.update registered id (some slot) id' = some slot' ∨ _
    rcases h.held slot' id' hlive hslot with hregistered | hmem
    · refine .inl ?_
      have hid : id' ≠ id := by
        rintro rfl
        exact absurd ((h.notRegistered id' slot mem_cons_self).symm.trans hregistered)
          (some_ne_none _).symm
      rw [update_of_ne hid]
      exact hregistered
    · rcases mem_cons.mp hmem with heq | hmem
      · obtain ⟨rfl, rfl⟩ := Prod.mk.inj heq
        exact .inl (update_self _ _ _)
      · exact .inr hmem

/-- A registered session is withdrawn, and in transit again. -/
theorem Consistent.withdraw (h : (Bindings.mk active registered transit).Consistent live)
    (hregistered : registered id = some slot) :
    (Bindings.mk active (Function.update registered id none)
      ((id, slot) :: transit)).Consistent live := by
  have hne : ∀ {id' slot'}, (id', slot') ∈ transit → id' ≠ id := by
    rintro id' slot' hmem rfl
    exact absurd ((h.notRegistered id' slot' hmem).symm.trans hregistered) (some_ne_none _).symm
  constructor
  · refine nodup_cons.mpr ⟨?_, h.nodup⟩
    intro hmem
    obtain ⟨⟨id', slot'⟩, htransit, rfl⟩ := mem_map.mp hmem
    exact hne htransit rfl
  · intro id' slot' hmem
    rcases mem_cons.mp hmem with heq | hmem
    · obtain ⟨rfl, rfl⟩ := Prod.mk.inj heq
      exact update_self _ _ _
    · exact (update_of_ne (hne hmem) _ _).trans (h.notRegistered id' slot' hmem)
  · intro id' slot' hmem
    rcases mem_cons.mp hmem with heq | hmem
    · obtain ⟨rfl, rfl⟩ := Prod.mk.inj heq
      exact h.registeredActive id' slot' hregistered
    · exact h.transitActive id' slot' hmem
  · intro id' slot' hupdated
    change Function.update registered id none id' = some slot' at hupdated
    rw [update_apply] at hupdated
    split_ifs at hupdated
    exact h.registeredActive id' slot' hupdated
  · intro slot' id' hlive hactive
    change Function.update registered id none id' = some slot' ∨ _
    rcases h.held slot' id' hlive hactive with hheld | hmem
    · by_cases hid : id' = id
      · obtain rfl := hid
        obtain rfl := some.inj (hregistered.symm.trans hheld)
        exact .inr mem_cons_self
      · rw [update_of_ne hid]
        exact .inl hheld
    · exact .inr (mem_cons_of_mem _ hmem)

theorem Consistent.unbind [DecidableEq ι]
    (h : (Bindings.mk active registered ((id, slot) :: transit)).Consistent live) :
    (Bindings.mk (Function.update active slot none) registered transit).Consistent live := by
  obtain ⟨hnew, hnodup⟩ := nodup_cons.mp h.nodup
  have hactive : active slot = some id := h.transitActive id slot mem_cons_self
  have hkept : ∀ {id' slot'}, active slot' = some id' → id' ≠ id →
      Function.update active slot none slot' = some id' := by
    intro id' slot' hslot hid
    rw [update_of_ne ?_, hslot]
    rintro rfl
    exact hid (some.inj (hslot.symm.trans hactive))
  constructor
  · exact hnodup
  · intro id' slot' hmem
    exact h.notRegistered id' slot' (mem_cons_of_mem _ hmem)
  · intro id' slot' hmem
    refine hkept (h.transitActive id' slot' (mem_cons_of_mem _ hmem)) ?_
    rintro rfl
    exact hnew (mem_map.mpr ⟨_, hmem, rfl⟩)
  · intro id' slot' hregistered
    refine hkept (h.registeredActive id' slot' hregistered) ?_
    rintro rfl
    exact absurd ((h.notRegistered id' slot mem_cons_self).symm.trans hregistered)
      (some_ne_none _).symm
  · intro slot' id' hlive hupdated
    change Function.update active slot none slot' = some id' at hupdated
    rw [update_apply] at hupdated
    split_ifs at hupdated with hslot
    rcases h.held slot' id' hlive hupdated with hregistered | hmem
    · exact .inl hregistered
    · rcases mem_cons.mp hmem with heq | hmem
      · exact absurd (Prod.mk.inj heq).2 hslot
      · exact .inr hmem

theorem Consistent.forget
    (h : (Bindings.mk active registered ((id, slot) :: transit)).Consistent live)
    (hdead : ¬ live slot) : (Bindings.mk active registered transit).Consistent live where
  nodup := (nodup_cons.mp h.nodup).2
  notRegistered id' slot' hmem := h.notRegistered id' slot' (mem_cons_of_mem _ hmem)
  transitActive id' slot' hmem := h.transitActive id' slot' (mem_cons_of_mem _ hmem)
  registeredActive := h.registeredActive
  held := by
    intro slot' id' hlive hactive
    rcases h.held slot' id' hlive hactive with hregistered | hmem
    · exact .inl hregistered
    · rcases mem_cons.mp hmem with heq | hmem
      · exact absurd ((Prod.mk.inj heq).2 ▸ hlive) hdead
      · exact .inr hmem

end Bindings

end DashQL
