import Mathlib

/-!
# Records of what a store holds

A record says of some keys what a store holds there: a content, or that there is none.
Whoever changes the store without reading it changes the record by rules of its own.
The module says when a record is right (`Knows`), that writes and removals keep it so,
and exactly when a move does whose source or target the record may not have
(`knows_move_iff`).
-/

namespace DashQL

open Option

variable {κ α : Type*}

/-- What the record says about the store is right. -/
def Knows (known : κ → Option (Option α)) (store : κ → Option α) : Prop :=
  ∀ key content, known key = some content → store key = content

variable {known known' : κ → Option (Option α)} {store store' : κ → Option α}

section Update

variable [DecidableEq κ] {key : κ} {content : Option α}

/-- What is written or removed may be recorded. -/
theorem Knows.update (h : Knows known store) :
    Knows (Function.update known key (some content)) (Function.update store key content) := by
  intro probe found hfound
  by_cases hprobe : probe = key
  · rw [hprobe, Function.update_self] at hfound ⊢
    exact some.inj hfound
  · rw [Function.update_of_ne hprobe] at hfound ⊢
    exact h probe found hfound

end Update

/-! ## Moves -/

/-- The content of the source, if it has one, moves onto the target, and so does what is recorded
of it, if anything is: this is right if the source is recorded with a content, if neither has one,
or if an unrecorded content moves onto a target that is not recorded with another one. -/
def MovesRight (known : κ → Option (Option α)) (store : κ → Option α) (source target : κ) : Prop :=
  match known source with
  | some (some _) => True
  | some none => store target = none
  | none => store source = none ∨ ∀ content, known target = some content → content = store source

theorem movesRight_iff (h : Knows known store) (source target : κ) :
    MovesRight known store source target ↔
      ∀ content, (known source).or (known target) = some content →
        (store source).or (store target) = content := by
  unfold MovesRight
  cases hsource : known source with
  | some content =>
    have hstore : store source = content := h source content hsource
    cases content with
    | some value => simp [hstore]
    | none => simp [hstore]
  | none =>
    simp only [none_or]
    cases hstore : store source with
    | none =>
      simp only [none_or, true_or, true_iff]
      exact fun content hcontent => h target content hcontent
    | some value =>
      simp only [reduceCtorEq, false_or, some_or]
      exact forall₂_congr fun content _ => eq_comm

/-- A store and its record after some keys moved: `origin` says what moves where. -/
structure Moved (origin : κ → Option κ) (vacated : Set κ) (known known' : κ → Option (Option α))
    (store store' : κ → Option α) : Prop where
  content : ∀ source target, origin target = some source →
    store' target = (store source).or (store target)
  record : ∀ source target, origin target = some source →
    known' target = (known source).or (known target)
  gone : ∀ key, origin key = none → key ∈ vacated → store' key = none
  forgotten : ∀ key, origin key = none → key ∈ vacated →
    ∀ content, known' key = some content → content = none
  kept : ∀ key, origin key = none → key ∉ vacated → store' key = store key
  rest : ∀ key, origin key = none → key ∉ vacated → known' key = known key

/-- The record is right after the moves exactly if each of them was right. -/
theorem knows_move_iff {origin : κ → Option κ} {vacated : Set κ} (h : Knows known store)
    (hmoved : Moved origin vacated known known' store store') :
    Knows known' store' ↔
      ∀ source target, origin target = some source → MovesRight known store source target := by
  constructor
  · intro hafter source target horigin
    rw [movesRight_iff h, ← hmoved.record source target horigin,
      ← hmoved.content source target horigin]
    exact hafter target
  · intro hright key content hcontent
    cases horigin : origin key with
    | some source =>
      have hmove := (movesRight_iff h source key).mp (hright source key horigin) content
      rw [← hmoved.record source key horigin, ← hmoved.content source key horigin] at hmove
      exact hmove hcontent
    | none =>
      by_cases hmem : key ∈ vacated
      · rw [hmoved.gone key horigin hmem, hmoved.forgotten key horigin hmem content hcontent]
      · rw [hmoved.kept key horigin hmem]
        rw [hmoved.rest key horigin hmem] at hcontent
        exact h key content hcontent

end DashQL
