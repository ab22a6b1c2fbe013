import Mathlib.Computability.Language
import Mathlib.Tactic.SplitIfs

/-!
# Patterns and longest matches

The regular expressions of a scanner, with classes of letters instead of single letters.  What a
scanner takes at a position is the longest prefix that matches (`longest_eq_some_iff`), which is
found letter by letter with derivatives.  Of several rules the one with the longest match is taken,
and the first of them if there are more (`selectRule_split`, `selectRule_append`).
-/

namespace DashQL

open List Option

open scoped Computability

variable {α ρ : Type*}

/-- A regular expression over classes of letters. -/
inductive Pattern (α : Type*) where
  | never
  | empty
  | one (letters : α → Bool)
  | seq (p q : Pattern α)
  | alt (p q : Pattern α)
  | star (p : Pattern α)

namespace Pattern

/-- The words that match. -/
def language : Pattern α → Language α
  | never => 0
  | empty => 1
  | one letters => {w | ∃ a, letters a = true ∧ w = [a]}
  | seq p q => p.language * q.language
  | alt p q => p.language + q.language
  | star p => p.language∗

/-- Whether the empty word matches. -/
def nullable : Pattern α → Bool
  | never => false
  | empty => true
  | one _ => false
  | seq p q => p.nullable && q.nullable
  | alt p q => p.nullable || q.nullable
  | star _ => true

/-- A sequence that is simplified if nothing or only the empty word matches its front. -/
def andThen : Pattern α → Pattern α → Pattern α
  | never, _ => never
  | empty, q => q
  | p, q => seq p q

/-- An alternative that is simplified if nothing matches one side. -/
def orElse : Pattern α → Pattern α → Pattern α
  | never, q => q
  | p, never => p
  | p, q => alt p q

/-- What is left to match after a letter. -/
def deriv (a : α) : Pattern α → Pattern α
  | never => never
  | empty => never
  | one letters => if letters a then empty else never
  | seq p q =>
    if p.nullable then orElse (andThen (p.deriv a) q) (q.deriv a) else andThen (p.deriv a) q
  | alt p q => orElse (p.deriv a) (q.deriv a)
  | star p => andThen (p.deriv a) (star p)

/-- The length of the longest prefix that matches. -/
def longest : Pattern α → List α → Option ℕ
  | p, [] => if p.nullable then some 0 else none
  | p, a :: s =>
    match longest (p.deriv a) s with
    | some n => some (n + 1)
    | none => if p.nullable then some 0 else none

/-- One or more. -/
def plus (p : Pattern α) : Pattern α := seq p (star p)

/-- A word, letter by letter, and a pattern behind it. -/
def literal [DecidableEq α] (w : List α) (q : Pattern α) : Pattern α :=
  w.foldr (fun a p => seq (one fun b => decide (b = a)) p) q

def word [DecidableEq α] (w : List α) : Pattern α := literal w empty

/-- The letters that a match can start with. -/
def firsts : Pattern α → α → Bool
  | never, _ => false
  | empty, _ => false
  | one letters, a => letters a
  | seq p q, a => p.firsts a || (p.nullable && q.firsts a)
  | alt p q, a => p.firsts a || q.firsts a
  | star p, a => p.firsts a

/-- The letters that can occur in a match. -/
def occurs : Pattern α → α → Bool
  | never, _ => false
  | empty, _ => false
  | one letters, a => letters a
  | seq p q, a => p.occurs a || q.occurs a
  | alt p q, a => p.occurs a || q.occurs a
  | star p, a => p.occurs a

/-- A match has at least this many letters. -/
def shortest : Pattern α → ℕ
  | never => 0
  | empty => 0
  | one _ => 1
  | seq p q => p.shortest + q.shortest
  | alt p q => min p.shortest q.shortest
  | star _ => 0

/-! ## Languages -/

variable {p q : Pattern α} {a : α} {s w : List α} {n : ℕ}

theorem nullable_iff (p : Pattern α) : p.nullable = true ↔ [] ∈ p.language := by
  induction p with
  | never => simp [nullable, language]
  | empty => simp [nullable, language]
  | one letters =>
    refine iff_of_false Bool.false_ne_true ?_
    rintro ⟨a, -, ha⟩
    exact cons_ne_nil a [] ha.symm
  | seq p q ihp ihq =>
    rw [nullable, Bool.and_eq_true, ihp, ihq, language, Language.mem_mul]
    constructor
    · rintro ⟨hp, hq⟩
      exact ⟨[], hp, [], hq, rfl⟩
    · rintro ⟨u, hu, v, hv, huv⟩
      obtain ⟨rfl, rfl⟩ := append_eq_nil_iff.mp huv
      exact ⟨hu, hv⟩
  | alt p q ihp ihq => rw [nullable, Bool.or_eq_true, ihp, ihq, language, Language.mem_add]
  | star p _ => simp [nullable, language, Language.nil_mem_kstar]

theorem language_andThen (p q : Pattern α) : (andThen p q).language = p.language * q.language := by
  cases p with
  | never => exact (zero_mul q.language).symm
  | empty => exact (one_mul q.language).symm
  | _ => rfl

theorem language_orElse (p q : Pattern α) : (orElse p q).language = p.language + q.language := by
  have hnever : ∀ r : Pattern α, r.language = r.language + (never : Pattern α).language :=
    fun r => (add_zero r.language).symm
  cases p with
  | never => exact (zero_add q.language).symm
  | _ =>
    cases q with
    | never => exact hnever _
    | _ => rfl

/-- The words that a sequence starts with a letter. -/
theorem cons_mem_mul {l m : Language α} :
    a :: w ∈ l * m ↔ (∃ u v, a :: u ∈ l ∧ v ∈ m ∧ w = u ++ v) ∨ ([] ∈ l ∧ a :: w ∈ m) := by
  rw [Language.mem_mul]
  constructor
  · rintro ⟨u, hu, v, hv, huv⟩
    cases u with
    | nil => exact Or.inr ⟨hu, huv ▸ hv⟩
    | cons b u =>
      obtain ⟨rfl, rfl⟩ := List.cons.inj huv
      exact Or.inl ⟨u, v, hu, hv, rfl⟩
  · rintro (⟨u, v, hu, hv, rfl⟩ | ⟨hnil, hw⟩)
    · exact ⟨a :: u, hu, v, hv, rfl⟩
    · exact ⟨[], hnil, a :: w, hw, rfl⟩

theorem cons_mem_kstar {l : Language α} :
    a :: w ∈ l∗ ↔ ∃ u v, a :: u ∈ l ∧ v ∈ l∗ ∧ w = u ++ v := by
  constructor
  · intro h
    obtain ⟨words, hflat, hwords⟩ := Language.mem_kstar_iff_exists_nonempty.mp h
    cases words with
    | nil => cases hflat
    | cons first words =>
      obtain ⟨hfirst, hne⟩ := hwords first (by simp)
      cases first with
      | nil => exact absurd rfl hne
      | cons b u =>
        obtain ⟨rfl, rfl⟩ := List.cons.inj hflat
        refine ⟨u, words.flatten, hfirst, ?_, rfl⟩
        exact Language.mem_kstar.mpr ⟨words, rfl, fun y hy => (hwords y (by simp [hy])).1⟩
  · rintro ⟨u, v, hu, hv, rfl⟩
    obtain ⟨words, rfl, hwords⟩ := Language.mem_kstar.mp hv
    refine Language.mem_kstar.mpr ⟨(a :: u) :: words, rfl, ?_⟩
    rw [forall_mem_cons]
    exact ⟨hu, hwords⟩

theorem mem_language_deriv (p : Pattern α) (a : α) (w : List α) :
    w ∈ (p.deriv a).language ↔ a :: w ∈ p.language := by
  induction p generalizing w with
  | never => simp [deriv, language]
  | empty => simp [deriv, language]
  | one letters =>
    unfold deriv
    split_ifs with ha
    · simp only [language, Language.mem_one]
      constructor
      · rintro rfl
        exact ⟨a, ha, rfl⟩
      · rintro ⟨b, -, hb⟩
        exact (List.cons.inj hb).2
    · refine iff_of_false (Language.notMem_zero w) ?_
      rintro ⟨b, hb, heq⟩
      exact ha ((List.cons.inj heq).1 ▸ hb)
  | seq p q ihp ihq =>
    have hfront : w ∈ (p.deriv a).language * q.language ↔
        ∃ u v, a :: u ∈ p.language ∧ v ∈ q.language ∧ w = u ++ v := by
      rw [Language.mem_mul]
      constructor
      · rintro ⟨u, hu, v, hv, rfl⟩
        exact ⟨u, v, (ihp u).mp hu, hv, rfl⟩
      · rintro ⟨u, v, hu, hv, rfl⟩
        exact ⟨u, (ihp u).mpr hu, v, hv, rfl⟩
    rw [language, cons_mem_mul, ← hfront, ← nullable_iff, deriv]
    split_ifs with hnull
    · rw [language_orElse, Language.mem_add, language_andThen, ihq]
      simp [hnull]
    · rw [language_andThen]
      simp [hnull]
  | alt p q ihp ihq => rw [deriv, language_orElse, Language.mem_add, ihp, ihq, language,
      Language.mem_add]
  | star p ih =>
    rw [deriv, language_andThen, language, cons_mem_kstar, Language.mem_mul]
    constructor
    · rintro ⟨u, hu, v, hv, rfl⟩
      exact ⟨u, v, (ih u).mp hu, hv, rfl⟩
    · rintro ⟨u, v, hu, hv, rfl⟩
      exact ⟨u, (ih u).mpr hu, v, hv, rfl⟩

/-! ## Longest matches -/

theorem mem_of_longest (h : p.longest s = some n) : n ≤ s.length ∧ s.take n ∈ p.language := by
  induction s generalizing p n with
  | nil =>
    rw [longest] at h
    split_ifs at h with hnull
    obtain rfl := some.inj h
    exact ⟨le_rfl, (nullable_iff p).mp hnull⟩
  | cons a s ih =>
    rw [longest] at h
    cases hrest : (p.deriv a).longest s with
    | some m =>
      rw [hrest] at h
      obtain rfl := some.inj h
      obtain ⟨hle, hmem⟩ := ih hrest
      exact ⟨Nat.succ_le_succ hle, (mem_language_deriv p a _).mp hmem⟩
    | none =>
      simp only [hrest] at h
      split_ifs at h with hnull
      obtain rfl := some.inj h
      exact ⟨Nat.zero_le _, (nullable_iff p).mp hnull⟩

theorem exists_longest_ge {m : ℕ} (hm : m ≤ s.length) (hmem : s.take m ∈ p.language) :
    ∃ n, p.longest s = some n ∧ m ≤ n := by
  induction s generalizing p m with
  | nil =>
    obtain rfl := Nat.le_zero.mp hm
    exact ⟨0, by rw [longest, if_pos ((nullable_iff p).mpr hmem)], le_rfl⟩
  | cons a s ih =>
    rw [longest]
    cases m with
    | zero =>
      cases (p.deriv a).longest s with
      | some n => exact ⟨n + 1, rfl, Nat.zero_le _⟩
      | none => exact ⟨0, if_pos ((nullable_iff p).mpr hmem), le_rfl⟩
    | succ m =>
      have hrest : s.take m ∈ (p.deriv a).language := (mem_language_deriv p a _).mpr hmem
      obtain ⟨n, hn, hle⟩ := ih (Nat.le_of_succ_le_succ hm) hrest
      exact ⟨n + 1, by rw [hn], Nat.succ_le_succ hle⟩

@[simp]
theorem longest_never (s : List α) : (never : Pattern α).longest s = none := by
  induction s with
  | nil => rfl
  | cons a s ih => rw [longest, deriv, ih]; rfl

@[simp]
theorem longest_empty (s : List α) : (empty : Pattern α).longest s = some 0 := by
  cases s with
  | nil => rfl
  | cons a s => rw [longest, deriv, longest_never]; rfl

/-- A letter at the front of a pattern is read off the text. -/
theorem longest_one_seq (letters : α → Bool) (q : Pattern α) (a : α) (s : List α) :
    (seq (one letters) q).longest (a :: s) =
      if letters a then (q.longest s).map (· + 1) else none := by
  rw [longest, deriv, deriv]
  by_cases ha : letters a = true
  · simp only [ha, nullable, if_true, Bool.false_eq_true, if_false, andThen]
    cases q.longest s <;> rfl
  · simp [ha, nullable, andThen]

@[simp]
theorem longest_one (letters : α → Bool) (a : α) (s : List α) :
    (one letters).longest (a :: s) = if letters a then some 1 else none := by
  rw [longest, deriv]
  split_ifs with ha h <;> simp_all [nullable]

theorem longest_star_one (letters : α → Bool) (s : List α) :
    (star (one letters)).longest s = some (s.takeWhile letters).length := by
  induction s with
  | nil => rfl
  | cons a s ih =>
    rw [longest, deriv, deriv]
    by_cases ha : letters a = true
    · simp [ha, andThen, ih]
    · simp [ha, andThen, nullable]

theorem longest_plus_one (letters : α → Bool) (a : α) (s : List α) :
    (plus (one letters)).longest (a :: s) =
      if letters a then some ((a :: s).takeWhile letters).length else none := by
  rw [plus, longest_one_seq, longest_star_one]
  split_ifs with ha <;> simp [ha]

/-- A word at the front of a pattern is read off the text. -/
theorem longest_literal [DecidableEq α] (w : List α) (q : Pattern α) (s : List α) :
    (literal w q).longest s =
      if w <+: s then (q.longest (s.drop w.length)).map (· + w.length) else none := by
  induction w generalizing s with
  | nil => simp [literal]
  | cons b w ih =>
    cases s with
    | nil => simp [literal, longest, nullable]
    | cons a s =>
      have hcons : literal (b :: w) q = seq (one fun c => decide (c = b)) (literal w q) := rfl
      rw [hcons, longest_one_seq, ih]
      simp only [List.cons_prefix_cons, length_cons, drop_succ_cons]
      by_cases hb : a = b
      · subst hb
        by_cases hw : w <+: s
        · simp only [hw, decide_true, and_self, if_true, Option.map_map]
          rfl
        · simp [hw]
      · simp [hb, Ne.symm hb]

theorem longest_word [DecidableEq α] (w s : List α) :
    (word w).longest s = if w <+: s then some w.length else none := by
  rw [word, longest_literal, longest_empty, map_some, Nat.zero_add]

/-- Any number of letters up to one of another kind. -/
theorem longest_star_seq [DecidableEq α] {letters : α → Bool} {b : α} (hb : letters b = false)
    (s : List α) :
    (seq (star (one letters)) (word [b])).longest s =
      if (s.dropWhile letters).head? = some b then some ((s.takeWhile letters).length + 1)
      else none := by
  have hword : ∀ a, (word [b]).deriv a = if a = b then empty else never := by
    intro a
    simp [word, literal, deriv, nullable, andThen]
    split_ifs <;> rfl
  induction s with
  | nil => simp [longest, nullable, word, literal]
  | cons a s ih =>
    have hnull : (star (one letters)).nullable = true := rfl
    have hnone : (seq (star (one letters)) (word [b])).nullable = false := rfl
    rw [longest, deriv, if_pos hnull, hword, hnone]
    by_cases ha : letters a = true
    · have hne : a ≠ b := by
        rintro rfl
        exact Bool.false_ne_true (hb.symm.trans ha)
      have hrest : orElse (andThen ((star (one letters)).deriv a) (word [b])) never =
          seq (star (one letters)) (word [b]) := by
        simp [deriv, ha, andThen, orElse]
      rw [if_neg hne, hrest, ih, dropWhile_cons_of_pos ha, takeWhile_cons_of_pos ha]
      by_cases hd : (s.dropWhile letters).head? = some b
      · rw [if_pos hd, if_pos hd]
        rfl
      · rw [if_neg hd, if_neg hd]
        rfl
    · have hrest : ∀ p : Pattern α,
          orElse (andThen ((star (one letters)).deriv a) (word [b])) p = p := by
        intro p
        simp [deriv, ha, andThen, orElse]
      rw [hrest, dropWhile_cons_of_neg ha, takeWhile_cons_of_neg ha]
      by_cases hab : a = b
      · simp [hab]
      · simp [hab]

/-- The first letter of one or more. -/
theorem longest_plus_seq (letters : α → Bool) (q : Pattern α) (a : α) (s : List α) :
    (seq (plus (one letters)) q).longest (a :: s) =
      if letters a then ((seq (star (one letters)) q).longest s).map (· + 1) else none := by
  have hnone : (seq (plus (one letters)) q).nullable = false := rfl
  have hderiv : (seq (plus (one letters)) q).deriv a =
      if letters a then seq (star (one letters)) q else never := by
    simp only [plus, deriv, nullable, Bool.false_and, Bool.false_eq_true, if_false]
    by_cases ha : letters a = true
    · simp [ha, andThen]
    · simp [ha, andThen]
  rw [longest, hderiv, hnone]
  by_cases ha : letters a = true
  · rw [if_pos ha, if_pos ha]
    cases (seq (star (one letters)) q).longest s <;> rfl
  · rw [if_neg ha, if_neg ha, longest_never]
    rfl

/-! ## What a match consists of -/

theorem firsts_of_cons_mem (h : a :: w ∈ p.language) : p.firsts a = true := by
  induction p generalizing w with
  | never => exact absurd h (Language.notMem_zero _)
  | empty => exact absurd ((Language.mem_one _).mp h) (cons_ne_nil a w)
  | one letters =>
    obtain ⟨b, hb, heq⟩ := h
    obtain ⟨rfl, -⟩ := List.cons.inj heq
    exact hb
  | seq p q ihp ihq =>
    rw [firsts, Bool.or_eq_true, Bool.and_eq_true]
    rcases cons_mem_mul.mp h with ⟨u, v, hu, -, -⟩ | ⟨hnil, hw⟩
    · exact Or.inl (ihp hu)
    · exact Or.inr ⟨(nullable_iff p).mpr hnil, ihq hw⟩
  | alt p q ihp ihq =>
    rw [firsts, Bool.or_eq_true]
    exact ((Language.mem_add _ _ _).mp h).imp ihp ihq
  | star p ih =>
    obtain ⟨u, v, hu, -, -⟩ := cons_mem_kstar.mp h
    exact ih hu

theorem occurs_of_mem (h : w ∈ p.language) (ha : a ∈ w) : p.occurs a = true := by
  induction p generalizing w with
  | never => exact absurd h (Language.notMem_zero _)
  | empty => exact absurd ((Language.mem_one _).mp h ▸ ha) not_mem_nil
  | one letters =>
    obtain ⟨b, hb, rfl⟩ := h
    rw [mem_singleton.mp ha]
    exact hb
  | seq p q ihp ihq =>
    obtain ⟨u, hu, v, hv, rfl⟩ := Language.mem_mul.mp h
    rw [occurs, Bool.or_eq_true]
    exact (mem_append.mp ha).imp (ihp hu) (ihq hv)
  | alt p q ihp ihq =>
    rw [occurs, Bool.or_eq_true]
    exact ((Language.mem_add _ _ _).mp h).imp (fun h => ihp h ha) fun h => ihq h ha
  | star p ih =>
    obtain ⟨words, rfl, hwords⟩ := Language.mem_kstar.mp h
    obtain ⟨u, hu, ha⟩ := mem_flatten.mp ha
    exact ih (hwords u hu) ha

theorem shortest_le (h : w ∈ p.language) : p.shortest ≤ w.length := by
  induction p generalizing w with
  | never => exact absurd h (Language.notMem_zero _)
  | empty => exact Nat.zero_le _
  | one letters =>
    obtain ⟨b, -, rfl⟩ := h
    exact le_rfl
  | seq p q ihp ihq =>
    obtain ⟨u, hu, v, hv, rfl⟩ := Language.mem_mul.mp h
    rw [shortest, length_append]
    exact Nat.add_le_add (ihp hu) (ihq hv)
  | alt p q ihp ihq =>
    rcases (Language.mem_add _ _ _).mp h with h | h
    · exact (Nat.min_le_left _ _).trans (ihp h)
    · exact (Nat.min_le_right _ _).trans (ihq h)
  | star p _ => exact Nat.zero_le _

/-- Nothing is found in a text that starts with a letter no match starts with. -/
theorem longest_eq_none_of_firsts (hnull : p.nullable = false) (hfirst : p.firsts a = false)
    (s : List α) : p.longest (a :: s) = none := by
  cases h : p.longest (a :: s) with
  | none => rfl
  | some n =>
    obtain ⟨-, hmem⟩ := mem_of_longest h
    cases n with
    | zero => simp [(nullable_iff p).mpr hmem] at hnull
    | succ n => simp [firsts_of_cons_mem hmem] at hfirst

end Pattern

/-! ## Choosing a rule -/

variable {rules front back : List (ρ × Pattern α)} {rule : ρ} {p : Pattern α} {s : List α} {n : ℕ}

/-- The rule with the longest match, the first of them if there are more. -/
def selectRule : List (ρ × Pattern α) → List α → Option (ρ × ℕ)
  | [], _ => none
  | (rule, p) :: rules, s =>
    match p.longest s, selectRule rules s with
    | none, best => best
    | some n, none => some (rule, n)
    | some n, some (rule', n') => if n < n' then some (rule', n') else some (rule, n)

theorem selectRule_cons_none (h : p.longest s = none) :
    selectRule ((rule, p) :: rules) s = selectRule rules s := by
  rw [selectRule, h]

theorem selectRule_eq_none (h : selectRule rules s = none) :
    ∀ entry ∈ rules, entry.2.longest s = none := by
  induction rules with
  | nil => simp
  | cons entry rules ih =>
    cases hhead : entry.2.longest s with
    | none =>
      rw [selectRule_cons_none hhead] at h
      exact forall_mem_cons.mpr ⟨hhead, ih h⟩
    | some k =>
      rw [selectRule, hhead] at h
      cases hrest : selectRule rules s with
      | none => simp [hrest] at h
      | some best =>
        simp only [hrest] at h
        split_ifs at h

/-- The first rule with the longest match is chosen. -/
theorem selectRule_split (h : selectRule rules s = some (rule, n)) :
    ∃ front p back, rules = front ++ (rule, p) :: back ∧ p.longest s = some n ∧
      (∀ entry ∈ front, ∀ m, entry.2.longest s = some m → m < n) ∧
      ∀ entry ∈ back, ∀ m, entry.2.longest s = some m → m ≤ n := by
  induction rules generalizing rule n with
  | nil => cases h
  | cons entry rules ih =>
    obtain ⟨own, q⟩ := entry
    cases hhead : q.longest s with
    | none =>
      rw [selectRule_cons_none hhead] at h
      obtain ⟨front, p, back, rfl, hlong, hfront, hback⟩ := ih h
      refine ⟨(own, q) :: front, p, back, rfl, hlong, ?_, hback⟩
      refine forall_mem_cons.mpr ⟨fun m hm => ?_, hfront⟩
      exact absurd (hhead.symm.trans hm) (some_ne_none m).symm
    | some k =>
      rw [selectRule, hhead] at h
      cases hrest : selectRule rules s with
      | none =>
        simp only [hrest, some.injEq, Prod.mk.injEq] at h
        obtain ⟨rfl, rfl⟩ := h
        refine ⟨[], q, rules, rfl, hhead, by simp, fun entry hentry m hm => ?_⟩
        exact absurd (hm.symm.trans (selectRule_eq_none hrest entry hentry)) (some_ne_none m)
      | some best =>
        obtain ⟨rule', n'⟩ := best
        obtain ⟨front, p, back, hsplit, hlong, hfront, hback⟩ := ih hrest
        simp only [hrest] at h
        split_ifs at h with hlt
        · obtain ⟨rfl, rfl⟩ := Prod.mk.inj (some.inj h)
          refine ⟨(own, q) :: front, p, back, by rw [hsplit]; rfl, hlong, ?_, hback⟩
          refine forall_mem_cons.mpr ⟨fun m hm => ?_, hfront⟩
          exact some.inj (hhead.symm.trans hm) ▸ hlt
        · obtain ⟨rfl, rfl⟩ := Prod.mk.inj (some.inj h)
          refine ⟨[], q, rules, rfl, hhead, by simp, fun entry hentry m hm => ?_⟩
          have hle : m ≤ n' := by
            rw [hsplit, mem_append, mem_cons] at hentry
            rcases hentry with hin | rfl | hin
            · exact (hfront entry hin m hm).le
            · exact (some.inj (hlong.symm.trans hm)).ge
            · exact hback entry hin m hm
          exact hle.trans (Nat.le_of_not_lt hlt)

theorem selectRule_spec (h : selectRule rules s = some (rule, n)) :
    (∃ p, (rule, p) ∈ rules ∧ p.longest s = some n) ∧
      ∀ entry ∈ rules, ∀ m, entry.2.longest s = some m → m ≤ n := by
  obtain ⟨front, p, back, rfl, hlong, hfront, hback⟩ := selectRule_split h
  refine ⟨⟨p, by simp, hlong⟩, fun entry hentry m hm => ?_⟩
  rw [mem_append, mem_cons] at hentry
  rcases hentry with hin | rfl | hin
  · exact (hfront entry hin m hm).le
  · exact (some.inj (hlong.symm.trans hm)).ge
  · exact hback entry hin m hm

/-- No rule in front of the list matches as much as the chosen one, and none behind it more. -/
theorem selectRule_append (hfront : ∀ entry ∈ front, ∀ m, entry.2.longest s = some m → m < n)
    (hrule : p.longest s = some n)
    (hback : ∀ entry ∈ back, ∀ m, entry.2.longest s = some m → m ≤ n) :
    selectRule (front ++ (rule, p) :: back) s = some (rule, n) := by
  induction front with
  | nil =>
    rw [nil_append, selectRule, hrule]
    cases hrest : selectRule back s with
    | none => rfl
    | some best =>
      obtain ⟨hlong, -⟩ := selectRule_spec hrest
      obtain ⟨q, hq, hlong⟩ := hlong
      exact if_neg (Nat.not_lt.mpr (hback _ hq _ hlong))
  | cons entry front ih =>
    obtain ⟨hentry, hfront⟩ := forall_mem_cons.mp hfront
    rw [cons_append, selectRule, ih hfront]
    cases hhead : entry.2.longest s with
    | none => rfl
    | some m => exact if_pos (hentry m hhead)

/-- The first rule is chosen if none behind it matches more. -/
theorem selectRule_cons (hrule : p.longest s = some n)
    (hback : ∀ entry ∈ back, ∀ m, entry.2.longest s = some m → m ≤ n) :
    selectRule ((rule, p) :: back) s = some (rule, n) := by
  rw [← nil_append ((rule, p) :: back)]
  exact selectRule_append (by simp) hrule hback

/-- A rule is chosen as soon as one matches, and then with a match at least as long. -/
theorem exists_selectRule (hmem : (rule, p) ∈ rules) (hlong : p.longest s = some n) :
    ∃ rule' n', selectRule rules s = some (rule', n') ∧ n ≤ n' := by
  cases h : selectRule rules s with
  | none => exact absurd (hlong.symm.trans (selectRule_eq_none h _ hmem)) (some_ne_none n)
  | some best => exact ⟨best.1, best.2, rfl, (selectRule_spec h).2 _ hmem n hlong⟩

end DashQL
