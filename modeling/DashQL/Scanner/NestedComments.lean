import DashQL.Scanner.Selection

/-!
# Nested comments

Where a block comment ends (`closing`): openings and closings are read from left to right, and the
comment ends with the closing that brings the depth back to zero.  Read on from a text to its end,
the depth says how many closings are missing (`depthAfter`), and what is behind the text is read with
it (`closing_append`).
-/

namespace DashQL.Scanner

open List Option

variable {s t u v : List UInt8} {a b : UInt8} {depth k n : ℕ}

def opening : List UInt8 := bytes ['/', '*']
def closingMark : List UInt8 := bytes ['*', '/']

/-- How far a comment goes on whose depth is known, with the closing that ends it. -/
def closing : ℕ → List UInt8 → Option ℕ
  | depth, a :: b :: s =>
    if [a, b] = opening then (closing (depth + 1) s).map (· + 2)
    else if [a, b] = closingMark then
      if depth = 1 then some 2 else (closing (depth - 1) s).map (· + 2)
    else (closing depth (b :: s)).map (· + 1)
  | _, _ => none

/-- The depth at the end of a text that does not end the comment. -/
def depthAfter : ℕ → List UInt8 → ℕ
  | depth, a :: b :: s =>
    if [a, b] = opening then depthAfter (depth + 1) s
    else if [a, b] = closingMark then depthAfter (depth - 1) s
    else depthAfter depth (b :: s)
  | depth, _ => depth

/-- The first opening (`true`) or closing (`false`) in a text. -/
def mark : List UInt8 → Option (ℕ × Bool)
  | a :: b :: s =>
    if [a, b] = opening then some (0, true)
    else if [a, b] = closingMark then some (0, false)
    else (mark (b :: s)).map fun found => (found.1 + 1, found.2)
  | _ => none

/-- Two characters are neither an opening nor a closing. -/
def NoMark (a b : UInt8) : Prop := [a, b] ≠ opening ∧ [a, b] ≠ closingMark

theorem mark_cons (h : ∀ b, s.head? = some b → NoMark a b) :
    mark (a :: s) = (mark s).map fun found => (found.1 + 1, found.2) := by
  cases s with
  | nil => rfl
  | cons b s =>
    obtain ⟨hopen, hclose⟩ := h b rfl
    rw [mark, if_neg hopen, if_neg hclose]

theorem noMark_slash (h : b ≠ '*'.toUInt8) : NoMark '/'.toUInt8 b := by
  constructor
  · intro heq
    exact h (List.cons.inj (List.cons.inj heq).2).1
  · intro heq
    exact absurd (List.cons.inj heq).1 (by decide)

theorem noMark_star (h : b ≠ '/'.toUInt8) : NoMark '*'.toUInt8 b := by
  constructor
  · intro heq
    exact absurd (List.cons.inj heq).1 (by decide)
  · intro heq
    exact h (List.cons.inj (List.cons.inj heq).2).1

theorem isStar_iff : isStar a = true ↔ a = '*'.toUInt8 :=
  decide_eq_true_iff.trans mem_singleton

/-- The last of some stars closes a comment if a slash stands behind them. -/
theorem mark_stars (h : (s.dropWhile isStar).head? = some '/'.toUInt8) :
    mark ('*'.toUInt8 :: s) = some ((starRun s).length, false) := by
  induction s with
  | nil => cases h
  | cons c s ih =>
    by_cases hc : isStar c = true
    · rw [dropWhile_cons_of_pos hc] at h
      obtain rfl := isStar_iff.mp hc
      have hrun : starRun ('*'.toUInt8 :: s) = '*'.toUInt8 :: starRun s :=
        takeWhile_cons_of_pos hc
      rw [mark_cons, ih h, hrun]
      · rfl
      · rintro b hb
        obtain rfl := some.inj hb
        exact noMark_star (by decide)
    · rw [dropWhile_cons_of_neg hc] at h
      obtain rfl := some.inj h
      rw [starRun, takeWhile_cons_of_neg hc]
      rfl

/-- Other stars are passed over. -/
theorem mark_stars_skip (h : (s.dropWhile isStar).head? ≠ some '/'.toUInt8) :
    mark ('*'.toUInt8 :: s) = (mark (s.drop (starRun s).length)).map
      fun found => (found.1 + ((starRun s).length + 1), found.2) := by
  induction s with
  | nil => rfl
  | cons c s ih =>
    by_cases hc : isStar c = true
    · rw [dropWhile_cons_of_pos hc] at h
      obtain rfl := isStar_iff.mp hc
      have hrun : starRun ('*'.toUInt8 :: s) = '*'.toUInt8 :: starRun s :=
        takeWhile_cons_of_pos hc
      rw [mark_cons, ih h, hrun, length_cons, drop_succ_cons, Option.map_map]
      · rfl
      · rintro b hb
        obtain rfl := some.inj hb
        exact noMark_star (by decide)
    · rw [dropWhile_cons_of_neg hc] at h
      have hrun : starRun (c :: s) = [] := takeWhile_cons_of_neg hc
      rw [hrun, mark_cons]
      · rfl
      · rintro b hb
        obtain rfl := some.inj hb
        exact noMark_star fun hslash => h (congrArg some hslash)

/-- Characters other than stars and slashes are passed over. -/
theorem mark_plain (s : List UInt8) :
    mark s = (mark (s.drop (plainRun s).length)).map
      fun found => (found.1 + (plainRun s).length, found.2) := by
  induction s with
  | nil => rfl
  | cons c s ih =>
    by_cases hc : c ∈ bytes ['*', '/']
    · have hrun : plainRun (c :: s) = [] := takeWhile_cons_of_neg (by simp [hc])
      rw [hrun]
      exact Option.map_id'.symm
    · have hrun : plainRun (c :: s) = c :: plainRun s := takeWhile_cons_of_pos (by simp [hc])
      rw [hrun, length_cons, drop_succ_cons, mark_cons, ih, Option.map_map]
      · rfl
      · intro b hb
        constructor
        · intro heq
          rw [(List.cons.inj heq).1] at hc
          exact hc (by decide)
        · intro heq
          rw [(List.cons.inj heq).1] at hc
          exact hc (by decide)

/-- How a comment ends after the first mark, if this is a closing. -/
theorem closing_of_mark (h : mark s = some (k, false)) :
    closing depth s = if depth = 1 then some (k + 2)
      else (closing (depth - 1) (s.drop (k + 2))).map (· + (k + 2)) := by
  induction s using mark.induct generalizing k with
  | case1 a b s hopen =>
    rw [mark, if_pos hopen] at h
    simp at h
  | case2 a b s hopen hclose =>
    rw [mark, if_neg hopen, if_pos hclose] at h
    obtain ⟨rfl, -⟩ := Prod.mk.inj (some.inj h)
    rw [closing, if_neg hopen, if_pos hclose]
    rfl
  | case3 a b s hopen hclose ih =>
    rw [mark, if_neg hopen, if_neg hclose] at h
    obtain ⟨found, hfound, heq⟩ := map_eq_some_iff.mp h
    obtain ⟨rfl, hfalse⟩ := Prod.mk.inj heq
    rw [closing, if_neg hopen, if_neg hclose, ih (hfound.trans (by rw [← hfalse])),
      show found.1 + 1 + 2 = (found.1 + 2) + 1 by omega, drop_succ_cons]
    split_ifs
    · rfl
    · rw [Option.map_map]
      rfl
  | case4 s hs =>
    rw [mark] at h
    · cases h
    · exact hs

theorem opening_of_mark (h : mark s = some (k, true)) :
    ∃ t, s.drop k = '/'.toUInt8 :: '*'.toUInt8 :: t := by
  induction s using mark.induct generalizing k with
  | case1 a b s hopen =>
    rw [mark, if_pos hopen] at h
    obtain ⟨rfl, -⟩ := Prod.mk.inj (some.inj h)
    obtain ⟨rfl, hb⟩ := List.cons.inj hopen
    obtain ⟨rfl, -⟩ := List.cons.inj hb
    exact ⟨s, rfl⟩
  | case2 a b s hopen hclose =>
    rw [mark, if_neg hopen, if_pos hclose] at h
    simp at h
  | case3 a b s hopen hclose ih =>
    rw [mark, if_neg hopen, if_neg hclose] at h
    obtain ⟨found, hfound, heq⟩ := map_eq_some_iff.mp h
    obtain ⟨rfl, htrue⟩ := Prod.mk.inj heq
    exact ih (hfound.trans (by rw [← htrue]))
  | case4 s hs =>
    rw [mark] at h
    · cases h
    · exact hs

/-- A comment that ends has a mark. -/
theorem exists_mark_of_closing (h : closing depth s = some n) : ∃ found, mark s = some found := by
  induction s using mark.induct generalizing n with
  | case1 a b s hopen => exact ⟨(0, true), by rw [mark, if_pos hopen]⟩
  | case2 a b s hopen hclose => exact ⟨(0, false), by rw [mark, if_neg hopen, if_pos hclose]⟩
  | case3 a b s hopen hclose ih =>
    rw [closing, if_neg hopen, if_neg hclose] at h
    obtain ⟨m, hm, -⟩ := map_eq_some_iff.mp h
    obtain ⟨found, hfound⟩ := ih hm
    exact ⟨(found.1 + 1, found.2), by rw [mark, if_neg hopen, if_neg hclose, hfound]; rfl⟩
  | case4 s hs =>
    rw [closing] at h
    · cases h
    · exact hs

/-- What is behind the end of a comment does not matter. -/
theorem closing_append_of_some (h : closing depth u = some n) (v : List UInt8) :
    closing depth (u ++ v) = some n := by
  induction depth, u using closing.induct generalizing n with
  | case1 depth a b s hopen ih =>
    rw [closing, if_pos hopen] at h
    obtain ⟨m, hm, rfl⟩ := map_eq_some_iff.mp h
    rw [cons_append, cons_append, closing, if_pos hopen, ih hm]
    rfl
  | case2 a b s hopen hclose =>
    rw [closing, if_neg hopen, if_pos hclose] at h
    rw [cons_append, cons_append, closing, if_neg hopen, if_pos hclose]
    exact h
  | case3 depth a b s hopen hclose hdepth ih =>
    rw [closing, if_neg hopen, if_pos hclose, if_neg hdepth] at h
    obtain ⟨m, hm, rfl⟩ := map_eq_some_iff.mp h
    rw [cons_append, cons_append, closing, if_neg hopen, if_pos hclose, if_neg hdepth, ih hm]
    rfl
  | case4 depth a b s hopen hclose ih =>
    rw [closing, if_neg hopen, if_neg hclose] at h
    obtain ⟨m, hm, rfl⟩ := map_eq_some_iff.mp h
    have hrest := ih hm
    rw [cons_append] at hrest
    rw [cons_append, cons_append, closing, if_neg hopen, if_neg hclose, hrest]
    rfl
  | case5 s depth hs =>
    rw [closing] at h
    · cases h
    · exact hs

theorem getLast?_append_of_some {w : List UInt8} (h : s.getLast? = some a) :
    (w ++ s).getLast? = some a := by
  rw [getLast?_append, h]
  rfl

/-- What is behind a text is read with the depth at its end if no mark crosses it. -/
theorem closing_append_of_none (h : closing depth u = none)
    (hcross : ∀ a b, u.getLast? = some a → v.head? = some b → NoMark a b) :
    closing depth (u ++ v) = (closing (depthAfter depth u) v).map (· + u.length) := by
  induction depth, u using closing.induct with
  | case1 depth a b s hopen ih =>
    rw [closing, if_pos hopen, map_eq_none_iff] at h
    have hlast := fun c d hc => hcross c d (getLast?_append_of_some (w := [a, b]) hc)
    rw [cons_append, cons_append, closing, if_pos hopen, depthAfter, if_pos hopen,
      ih h hlast, Option.map_map]
    rfl
  | case2 a b s hopen hclose =>
    rw [closing, if_neg hopen, if_pos hclose] at h
    cases h
  | case3 depth a b s hopen hclose hdepth ih =>
    rw [closing, if_neg hopen, if_pos hclose, if_neg hdepth, map_eq_none_iff] at h
    have hlast := fun c d hc => hcross c d (getLast?_append_of_some (w := [a, b]) hc)
    rw [cons_append, cons_append, closing, if_neg hopen, if_pos hclose, if_neg hdepth,
      depthAfter, if_neg hopen, if_pos hclose, ih h hlast, Option.map_map]
    rfl
  | case4 depth a b s hopen hclose ih =>
    rw [closing, if_neg hopen, if_neg hclose, map_eq_none_iff] at h
    have hlast := fun c d hc => hcross c d (getLast?_append_of_some (w := [a]) hc)
    have hrest := ih h hlast
    rw [cons_append] at hrest
    rw [cons_append, cons_append, closing, if_neg hopen, if_neg hclose, depthAfter,
      if_neg hopen, if_neg hclose, hrest, Option.map_map]
    rfl
  | case5 s depth hs =>
    have hdepth : depthAfter depth s = depth := by
      rw [depthAfter]
      exact hs
    rw [hdepth]
    rcases s with _ | ⟨a, _ | ⟨b, s⟩⟩
    · exact Option.map_id'.symm
    · cases v with
      | nil => rfl
      | cons b v =>
        obtain ⟨hopen, hclose⟩ := hcross a b rfl rfl
        rw [singleton_append, closing, if_neg hopen, if_neg hclose]
        rfl
    · exact (hs a b s rfl).elim

/-- A comment ends with a closing inside of the text. -/
theorem closing_bounds (h : closing depth u = some n) : 2 ≤ n ∧ n ≤ u.length := by
  induction depth, u using closing.induct generalizing n with
  | case1 depth a b s hopen ih =>
    rw [closing, if_pos hopen] at h
    obtain ⟨m, hm, rfl⟩ := map_eq_some_iff.mp h
    obtain ⟨hpos, hle⟩ := ih hm
    exact ⟨by omega, Nat.add_le_add_right hle 2⟩
  | case2 a b s hopen hclose =>
    rw [closing, if_neg hopen, if_pos hclose, if_pos rfl] at h
    obtain rfl := some.inj h
    exact ⟨le_rfl, Nat.le_add_left 2 _⟩
  | case3 depth a b s hopen hclose hdepth ih =>
    rw [closing, if_neg hopen, if_pos hclose, if_neg hdepth] at h
    obtain ⟨m, hm, rfl⟩ := map_eq_some_iff.mp h
    obtain ⟨hpos, hle⟩ := ih hm
    exact ⟨by omega, Nat.add_le_add_right hle 2⟩
  | case4 depth a b s hopen hclose ih =>
    rw [closing, if_neg hopen, if_neg hclose] at h
    obtain ⟨m, hm, rfl⟩ := map_eq_some_iff.mp h
    obtain ⟨hpos, hle⟩ := ih hm
    exact ⟨by omega, Nat.add_le_add_right hle 1⟩
  | case5 s depth hs =>
    rw [closing] at h
    · cases h
    · exact hs

theorem opRun_append (s : List UInt8) : opRun s ++ s.drop (opRun s).length = s :=
  List.prefix_iff_eq_append.mp (opRun_start s)

theorem isOpChar_behind_run (h : (s.drop (opRun s).length).head? = some b) : isOpChar b = false := by
  induction s with
  | nil => cases h
  | cons c s ih =>
    by_cases hc : isOpChar c = true
    · have hrun : opRun (c :: s) = c :: opRun s := takeWhile_cons_of_pos hc
      rw [hrun] at h
      exact ih h
    · have hrun : opRun (c :: s) = [] := takeWhile_cons_of_neg hc
      rw [hrun] at h
      obtain rfl := some.inj h
      exact Bool.not_eq_true _ ▸ hc

/-- No mark crosses the end of a run of operator characters. -/
theorem noMark_of_opRun (h : (s.drop (opRun s).length).head? = some b) : NoMark a b := by
  have hb := isOpChar_behind_run h
  constructor
  · intro heq
    rw [(List.cons.inj (List.cons.inj heq).2).1] at hb
    exact absurd hb (by decide)
  · intro heq
    rw [(List.cons.inj (List.cons.inj heq).2).1] at hb
    exact absurd hb (by decide)

end DashQL.Scanner
