import Mathlib.Data.List.DropRight

/-!
# Paths

A path is a list with separators in it, and a component of a path has none.  Where the first
component ends, and what the last one is, does not depend on the rest.
-/

namespace DashQL.Paths

open List

variable {α : Type*} {separator : α} {first first' name path front back : List α}

theorem cut_cases (hfirst : separator ∉ first)
    (h : first ++ separator :: path = front ++ separator :: back) :
    front = first ∧ back = path ∨
      ∃ middle, front = first ++ separator :: middle ∧ path = middle ++ separator :: back := by
  rcases append_eq_append_iff.mp h with ⟨middle, hfront, hback⟩ | ⟨middle, hfront, hback⟩
  · cases middle with
    | nil =>
      rw [nil_append] at hback
      exact .inl ⟨by rw [hfront, append_nil], (List.cons.inj hback).2.symm⟩
    | cons head middle =>
      obtain ⟨rfl, hpath⟩ := List.cons.inj hback
      exact .inr ⟨middle, hfront, hpath⟩
  · cases middle with
    | nil =>
      rw [nil_append] at hback
      exact .inl ⟨by rw [hfront, append_nil], (List.cons.inj hback).2⟩
    | cons head middle =>
      -- the first component would have a separator
      obtain ⟨rfl, -⟩ := List.cons.inj hback
      exact absurd (hfront ▸ mem_append_right front mem_cons_self) hfirst

theorem append_cons_inj (hfirst : separator ∉ first) (hfirst' : separator ∉ first') :
    first ++ separator :: path = first' ++ separator :: back ↔ first = first' ∧ path = back := by
  constructor
  · intro h
    rcases cut_cases hfirst h with ⟨heq, hback⟩ | ⟨middle, heq, -⟩
    · exact ⟨heq.symm, hback.symm⟩
    · exact absurd (heq ▸ mem_append_right first mem_cons_self) hfirst'
  · rintro ⟨rfl, rfl⟩
    rfl

theorem ne_cut (hfirst : separator ∉ first) : first ≠ front ++ separator :: back :=
  fun h => hfirst (h ▸ mem_append_right front mem_cons_self)

variable [DecidableEq α]

def lastComponent (separator : α) (path : List α) : List α :=
  path.rtakeWhile fun c => c ≠ separator

theorem lastComponent_append (hname : separator ∉ name) :
    lastComponent separator (front ++ separator :: name) = name := by
  unfold lastComponent
  induction name using List.reverseRecOn with
  | nil => exact rtakeWhile_concat_neg _ _ _ (by simp)
  | append_singleton name c ih =>
    rw [mem_append, mem_singleton, not_or] at hname
    have hkept : decide (c ≠ separator) = true := decide_eq_true (Ne.symm hname.2)
    rw [← cons_append, ← append_assoc, rtakeWhile_concat, if_pos hkept, ih hname.1]

end DashQL.Paths
