import Mathlib.Data.List.Range
import Mathlib.Data.List.Perm.Basic
import Mathlib.Data.List.Nodup

/-!
# Tickets

Tickets are issued with consecutive numbers and wait in a queue.  A ticket leaves
the queue once: it is dropped, or it is taken.  `Balanced` is the invariant that no
ticket is lost or counted twice.
-/

namespace DashQL

open List

def Balanced (issued : ℕ) (dropped taken waiting : List ℕ) : Prop :=
  (dropped ++ taken ++ waiting).Perm (List.range issued)

namespace Balanced

variable {issued ticket : ℕ} {dropped taken waiting front back : List ℕ}

theorem nil : Balanced 0 [] [] [] := List.Perm.refl _

section

variable (h : Balanced issued dropped taken waiting)

include h

theorem nodup : (dropped ++ taken ++ waiting).Nodup :=
  h.nodup_iff.mpr nodup_range

theorem mem_iff : (ticket ∈ dropped ∨ ticket ∈ taken) ∨ ticket ∈ waiting ↔ ticket < issued := by
  rw [← mem_append, ← mem_append, List.Perm.mem_iff h, mem_range]

theorem issue : Balanced (issued + 1) dropped taken (waiting ++ [issued]) := by
  unfold Balanced
  rw [range_succ, ← append_assoc]
  exact h.append_right _

end

section

variable (h : Balanced issued dropped taken (front ++ ticket :: back))

include h

theorem replace : Balanced (issued + 1) (dropped ++ [ticket]) taken (front ++ issued :: back) := by
  unfold Balanced at h ⊢
  rw [range_succ]
  refine List.Perm.trans (perm_iff_count.mpr fun probe => ?_) (h.append_right [issued])
  simp only [count_append, count_cons, count_nil]
  omega

theorem take : Balanced issued dropped (taken ++ [ticket]) (front ++ back) := by
  refine List.Perm.trans (perm_iff_count.mpr fun probe => ?_) h
  simp only [count_append, count_cons, count_nil]
  omega

theorem drop : Balanced issued (dropped ++ [ticket]) taken (front ++ back) := by
  refine List.Perm.trans (perm_iff_count.mpr fun probe => ?_) h
  simp only [count_append, count_cons, count_nil]
  omega

end

section

variable (h : Balanced issued dropped taken waiting)

include h

theorem not_mem_of_taken (htaken : ticket ∈ taken) : ticket ∉ dropped ∧ ticket ∉ waiting := by
  have hnodup := h.nodup
  rw [append_assoc] at hnodup
  obtain ⟨-, hrest, hdropped⟩ := nodup_append.mp hnodup
  refine ⟨fun hmem => ?_, fun hmem => ?_⟩
  · exact hdropped ticket hmem ticket (mem_append_left _ htaken) rfl
  · exact (nodup_append.mp hrest).2.2 ticket htaken ticket hmem rfl

theorem not_mem_of_dropped (hdropped : ticket ∈ dropped) : ticket ∉ taken ∧ ticket ∉ waiting := by
  have hnodup := h.nodup
  rw [append_assoc] at hnodup
  obtain ⟨-, -, hrest⟩ := nodup_append.mp hnodup
  exact ⟨fun hmem => hrest ticket hdropped ticket (mem_append_left _ hmem) rfl,
    fun hmem => hrest ticket hdropped ticket (mem_append_right _ hmem) rfl⟩

theorem nodup_taken : taken.Nodup :=
  (nodup_append.mp (nodup_append.mp h.nodup).1).2.1

end

end Balanced

end DashQL
