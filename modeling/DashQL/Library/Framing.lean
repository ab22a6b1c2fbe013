import Mathlib

/-!
# Self-synchronizing encodings

An encoding of symbols as code words is framed if the first unit of a code word
can be told apart from all other units.  Then the places between two code words
of an encoded text can be recognised locally, by looking at one unit, and a text
can be cut at any such place: `Framing.append` says that both sides of the cut
are again encoded texts, and of which symbols.

UTF-8 is framed, with every byte that is not a continuation byte as a first unit.
-/

namespace DashQL

open List

/-- Every code word begins with a start unit and contains no other. -/
structure Framing {α β : Type} (start : β → Bool) (encode : α → List β) : Prop where
  frame : ∀ symbol, ∃ unit rest, encode symbol = unit :: rest ∧ start unit = true ∧
    ∀ other ∈ rest, start other = false

/-- The index is at the end of the units or at a start unit. -/
def IsFrameBoundary {β : Type} (start : β → Bool) (units : List β) (idx : ℕ) : Prop :=
  idx ≤ units.length ∧ ∀ unit ∈ (units.drop idx).head?, start unit = true

namespace Framing

variable {α β : Type} {start : β → Bool} {encode : α → List β}

theorem encode_ne_nil (h : Framing start encode) (symbol : α) : encode symbol ≠ [] := by
  obtain ⟨unit, rest, heq, -⟩ := h.frame symbol
  rw [heq]
  exact cons_ne_nil unit rest

theorem countP_encode (h : Framing start encode) (symbol : α) :
    (encode symbol).countP start = 1 := by
  obtain ⟨unit, rest, heq, hunit, hrest⟩ := h.frame symbol
  have hnone : rest.countP start = 0 := by
    rw [countP_eq_zero]
    intro other hother
    simp [hrest other hother]
  rw [heq, countP_cons, hnone, hunit]
  rfl

theorem countP_flatMap (h : Framing start encode) (symbols : List α) :
    (symbols.flatMap encode).countP start = symbols.length := by
  induction symbols with
  | nil => rfl
  | cons symbol rest ih =>
    rw [flatMap_cons, countP_append, h.countP_encode, ih, length_cons, add_comm]

variable {symbols : List α}

section

variable (h : Framing start encode)

include h

theorem flatMap_eq_nil_iff : symbols.flatMap encode = [] ↔ symbols = [] := by
  constructor
  · intro hnil
    have hcount := h.countP_flatMap symbols
    rw [hnil, countP_nil] at hcount
    exact length_eq_zero_iff.mp hcount.symm
  · rintro rfl
    rfl

theorem head_start (symbols : List α) :
    ∀ unit ∈ (symbols.flatMap encode).head?, start unit = true := by
  cases symbols with
  | nil => simp
  | cons symbol rest =>
    obtain ⟨unit, tail, heq, hunit, -⟩ := h.frame symbol
    rw [flatMap_cons, heq]
    simpa using hunit

/-- If a text is cut in front of a start unit or at the end, then both parts are
texts: the first has as many symbols as it has start units. -/
theorem append {left right : List β} (heq : symbols.flatMap encode = left ++ right)
    (hright : ∀ unit ∈ right.head?, start unit = true) :
    left = (symbols.take (left.countP start)).flatMap encode ∧
      right = (symbols.drop (left.countP start)).flatMap encode := by
  induction symbols generalizing left with
  | nil =>
    obtain ⟨rfl, rfl⟩ := nil_eq_append_iff.mp heq
    exact ⟨rfl, rfl⟩
  | cons symbol rest ih =>
    rcases eq_nil_or_concat left with rfl | ⟨_, _, hne⟩
    · rw [nil_append] at heq
      exact ⟨rfl, heq.symm⟩
    have hleft : left ≠ [] := by rw [hne]; simp
    rw [flatMap_cons] at heq
    rcases append_eq_append_iff.mp heq with ⟨more, rfl, hmore⟩ | ⟨excess, hword, rfl⟩
    · -- the cut lies behind the first code word
      obtain ⟨htake, hdrop⟩ := ih hmore
      rw [countP_append, h.countP_encode, add_comm, take_succ_cons, drop_succ_cons, flatMap_cons]
      exact ⟨congrArg (encode symbol ++ ·) htake, hdrop⟩
    · -- the cut lies in the first code word, where only its very end is a boundary
      obtain ⟨unit, tail, hencode, hunit, htail⟩ := h.frame symbol
      have hexcess : excess = [] := by
        cases excess with
        | nil => rfl
        | cons other excess =>
          exfalso
          have hstart : start other = true := hright other (by simp)
          obtain ⟨first, left, rfl⟩ := exists_cons_of_ne_nil hleft
          rw [hencode, cons_append, List.cons.injEq] at hword
          have hinside : other ∈ tail := by rw [hword.2]; simp
          rw [htail other hinside] at hstart
          cases hstart
      subst hexcess
      rw [append_nil] at hword
      subst hword
      rw [h.countP_encode]
      simp

theorem isFrameBoundary_zero (symbols : List α) :
    IsFrameBoundary start (symbols.flatMap encode) 0 :=
  ⟨Nat.zero_le _, h.head_start symbols⟩

/-- Cutting a text at a boundary. -/
theorem take_drop {idx : ℕ} (hidx : IsFrameBoundary start (symbols.flatMap encode) idx) :
    ∃ count ≤ symbols.length,
      (symbols.flatMap encode).take idx = (symbols.take count).flatMap encode ∧
        (symbols.flatMap encode).drop idx = (symbols.drop count).flatMap encode := by
  obtain ⟨htake, hdrop⟩ := h.append (take_append_drop idx (symbols.flatMap encode)).symm hidx.2
  refine ⟨_, ?_, htake, hdrop⟩
  rw [← h.countP_flatMap symbols]
  exact (take_sublist idx _).countP_le

/-- A text ends at a boundary of every text it begins. -/
theorem isFrameBoundary_length (left right : List α) :
    IsFrameBoundary start ((left ++ right).flatMap encode) (left.flatMap encode).length := by
  rw [flatMap_append]
  refine ⟨by simp, ?_⟩
  rw [drop_left]
  exact h.head_start right

end

end Framing

end DashQL
