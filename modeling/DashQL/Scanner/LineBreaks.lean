import DashQL.Scanner.Progress

/-!
# Recorded line breaks

The newlines of a match are recorded before its action gives back a part of it, so a newline that is
given back is recorded once more when it is scanned again.  A step records the newlines between its
position and the next one and those that it gives back (`step_spec`).  Hence the recorded line breaks
are the newlines of the text exactly when no literal gives back a newline, which happens when a
single minus stands behind the line break after a closing quote (`lineBreaks_iff`).
-/

namespace DashQL.Scanner

open List Option

variable {κ : Type*} {findKeyword : List UInt8 → Option κ} {text a b : List UInt8}
  {state next final : State κ} {action : Action κ} {n p q : ℕ}

/-- The newlines of a text, in order. -/
def newlineSpans (text : List UInt8) : List SymbolSpan :=
  ((List.range text.length).filter fun i => decide (text[i]? = some '\n'.toUInt8)).map
    fun i => ⟨i, 1⟩

/-- What the chosen rule matches. -/
def matchText (text : List UInt8) (state : State κ) (n : ℕ) : List UInt8 :=
  (text.drop state.position).take n

/-- A step of the scanner goes well: it gives back no newline behind a closing quote, and the
operator rule does not run into the unreachable case. -/
def StepPlain (text : List UInt8) (state : State κ) : Prop :=
  (∀ kind n, matched text state = some (.failLiteral kind, n) →
    '\n'.toUInt8 ∉ (matchText text state n).drop 1) ∧
  ∀ n, matched text state = some (.readOperator, n) → ¬ Unreachable (matchText text state n)

/-! ## Newlines -/

theorem newlinesOf_append (offset : ℕ) (a b : List UInt8) :
    newlinesOf offset (a ++ b) = newlinesOf offset a ++ newlinesOf (offset + a.length) b := by
  rw [newlinesOf, zipIdx_append, filterMap_append]
  rfl

theorem newlinesOf_singleton (offset : ℕ) (c : UInt8) :
    newlinesOf offset [c] = if c = '\n'.toUInt8 then [⟨offset, 1⟩] else [] := by
  simp only [newlinesOf, zipIdx_cons, zipIdx_nil, filterMap_cons, filterMap_nil]
  split_ifs <;> rfl

theorem newlinesOf_eq_nil_iff (offset : ℕ) (a : List UInt8) :
    newlinesOf offset a = [] ↔ '\n'.toUInt8 ∉ a := by
  induction a generalizing offset with
  | nil => exact iff_of_true rfl not_mem_nil
  | cons c a ih =>
    rw [← singleton_append, newlinesOf_append, append_eq_nil_iff, ih,
      newlinesOf_singleton, singleton_append, mem_cons, not_or]
    refine and_congr ?_ Iff.rfl
    by_cases hc : c = '\n'.toUInt8
    · rw [if_pos hc]
      exact iff_of_false (cons_ne_nil _ _) fun h => h hc.symm
    · rw [if_neg hc]
      exact iff_of_true rfl fun h => hc h.symm

theorem newlinesOf_eq_newlineSpans (text : List UInt8) : newlinesOf 0 text = newlineSpans text := by
  induction text using List.reverseRecOn with
  | nil => rfl
  | append_singleton text c ih =>
    have hold : (List.range text.length).filter
          (fun i => decide ((text ++ [c])[i]? = some '\n'.toUInt8)) =
        (List.range text.length).filter fun i => decide (text[i]? = some '\n'.toUInt8) := by
      apply filter_congr
      intro i hi
      rw [getElem?_append_left (mem_range.mp hi)]
    rw [newlinesOf_append, ih, newlinesOf_singleton, newlineSpans, newlineSpans,
      length_append, length_singleton, range_succ, filter_append,
      map_append, hold, Nat.zero_add]
    congr 1
    by_cases hc : c = '\n'.toUInt8
    · simp [hc]
    · simp [hc]

/-- The newlines between two positions of a text. -/
def newlinesBetween (text : List UInt8) (p q : ℕ) : List SymbolSpan :=
  newlinesOf p ((text.drop p).take (q - p))

theorem newlinesBetween_append {r : ℕ} (hpq : p ≤ q) (hqr : q ≤ r) (hr : r ≤ text.length) :
    newlinesBetween text p q ++ newlinesBetween text q r = newlinesBetween text p r := by
  have hlength : ((text.drop p).take (q - p)).length = q - p := by
    rw [length_take, length_drop]
    omega
  rw [newlinesBetween, newlinesBetween, newlinesBetween]
  calc newlinesOf p ((text.drop p).take (q - p)) ++ newlinesOf q ((text.drop q).take (r - q))
      = newlinesOf p ((text.drop p).take (q - p) ++ (text.drop q).take (r - q)) := by
        rw [newlinesOf_append, hlength, Nat.add_sub_cancel' hpq]
    _ = newlinesOf p ((text.drop p).take (r - p)) := by
        rw [show r - p = (q - p) + (r - q) by omega, take_add, drop_drop, Nat.add_sub_cancel' hpq]

theorem newlinesBetween_self (text : List UInt8) (p : ℕ) : newlinesBetween text p p = [] := by
  rw [newlinesBetween, Nat.sub_self, take_zero]
  rfl

/-! ## Steps -/

theorem step_spec (hscan : isScanning state = true) (hle : state.position ≤ text.length)
    (h : step findKeyword text state = .ok next) :
    state.position ≤ next.position ∧ next.position ≤ text.length ∧
      (isScanning next = false → text.length ≤ next.position) ∧
      ∃ extra, next.lineBreaks =
          state.lineBreaks ++ newlinesBetween text state.position next.position ++ extra ∧
        (extra = [] ↔ ∀ kind n, matched text state = some (.failLiteral kind, n) →
          '\n'.toUInt8 ∉ (matchText text state n).drop 1) := by
  rcases hle.lt_or_eq with hlt | heq
  · obtain ⟨action, n, hmatch, hn⟩ := exists_matched (κ := κ) hlt
    obtain ⟨p, -, -, hlength, -⟩ := matched_spec hmatch
    rw [step_eq_act findKeyword hlt hmatch] at h
    obtain ⟨k, hk, hkn, hposition, hbreaks, hgoes, hback⟩ :=
      act_spec hmatch hn rfl (s := state.addLineBreaks _) hscan h
    have hmoved : next.position = state.position + k := hposition
    have hwhole : n ≤ text.length - state.position := by
      rw [← hlength, length_take, length_drop]
      exact Nat.min_le_right _ _
    have hkept : (matchText text state n).take k = (text.drop state.position).take k := by
      rw [matchText, take_take, Nat.min_eq_left hkn]
    have hkeptLength : ((matchText text state n).take k).length = k := by
      rw [hkept, length_take, length_drop]
      omega
    refine ⟨by omega, by omega, fun hdone => absurd (hgoes.symm.trans hdone) Bool.true_eq_false.mp,
      newlinesOf (state.position + k) ((matchText text state n).drop k), ?_, ?_⟩
    · have hsplit : newlinesOf state.position (matchText text state n) =
          newlinesBetween text state.position next.position ++
            newlinesOf (state.position + k) ((matchText text state n).drop k) := by
        rw [newlinesBetween, hmoved, Nat.add_sub_cancel_left, ← hkept]
        calc newlinesOf state.position (matchText text state n)
            = newlinesOf state.position
                ((matchText text state n).take k ++ (matchText text state n).drop k) := by
              rw [take_append_drop]
          _ = _ := by rw [newlinesOf_append, hkeptLength]
      rw [append_assoc, ← hsplit]
      exact hbreaks
    · rw [newlinesOf_eq_nil_iff]
      constructor
      · intro hplain kind n' hfail
        obtain ⟨haction, rfl⟩ := Prod.mk.inj (some.inj (hmatch.symm.trans hfail))
        rcases hback with ⟨-, hne⟩ | ⟨rfl, -⟩
        · exact absurd haction (hne kind)
        · exact hplain
      · intro hfail
        rcases hback with ⟨hplain, -⟩ | ⟨rfl, kind, rfl⟩
        · exact hplain
        · exact hfail kind n hmatch
  · obtain rfl := Except.ok.inj ((step_of_end heq.ge).symm.trans h)
    obtain ⟨hposition, hbreaks, -⟩ := endOfText_spec state
    refine ⟨hposition.ge, hposition.trans_le hle, fun _ => heq.ge.trans hposition.ge, [], ?_, ?_⟩
    · rw [hposition, newlinesBetween_self, append_nil, append_nil, hbreaks]
    · refine iff_of_true rfl fun kind n _ => ?_
      simp [matchText, heq]

theorem stepPlain_of_end (h : text.length ≤ state.position) : StepPlain text state := by
  have hnil : ∀ n, matchText text state n = [] := by
    intro n
    rw [matchText, drop_eq_nil_of_le h, take_nil]
  refine ⟨fun kind n _ => ?_, fun n _ hunreachable => ?_⟩
  · rw [hnil]
    exact not_mem_nil
  · rw [hnil] at hunreachable
    exact absurd hunreachable.2.1 (by simp)

/-! ## Runs -/

/-- What holds in every state of a run. -/
theorem position_le_of_reaches (h : Reaches findKeyword text {} state) :
    state.position ≤ text.length ∧ (isScanning state = false → text.length ≤ state.position) := by
  induction h with
  | refl => exact ⟨Nat.zero_le _, fun h => absurd h Bool.true_eq_false.mp⟩
  | tail _ hstep ih =>
    obtain ⟨-, hle, hend, -⟩ := step_spec hstep.1 ih.1 hstep.2
    exact ⟨hle, hend⟩

theorem isScanning_of_lt (h : Reaches findKeyword text {} state)
    (hlt : state.position < text.length) : isScanning state = true := by
  by_contra hstop
  have hend := (position_le_of_reaches h).2 (Bool.not_eq_true _ ▸ hstop)
  omega

/-- A run whose steps go well has recorded the newlines up to its position. -/
theorem lineBreaks_of_reaches
    (hplain : ∀ state, Reaches findKeyword text {} state → StepPlain text state)
    (h : Reaches findKeyword text {} state) :
    state.lineBreaks = newlinesBetween text 0 state.position := by
  induction h with
  | refl => exact (newlinesBetween_self text 0).symm
  | tail hreach hstep ih =>
    have hle := (position_le_of_reaches hreach).1
    obtain ⟨hmono, hle', -, extra, hbreaks, hextra⟩ := step_spec hstep.1 hle hstep.2
    rw [hbreaks, hextra.mpr (hplain _ hreach).1, append_nil, ih,
      newlinesBetween_append (Nat.zero_le _) hmono hle']

/-- Newlines that were recorded too often stay in the record. -/
theorem excess_of_reaches (excess : ℕ) (hle : state.position ≤ text.length)
    (h : Reaches findKeyword text state next)
    (hexcess : (newlinesBetween text 0 state.position).length + excess ≤ state.lineBreaks.length) :
    (newlinesBetween text 0 next.position).length + excess ≤ next.lineBreaks.length ∧
      next.position ≤ text.length := by
  induction h with
  | refl => exact ⟨hexcess, hle⟩
  | tail _ hstep ih =>
    obtain ⟨hmono, hle', -, extra, hbreaks, -⟩ := step_spec hstep.1 ih.2 hstep.2
    refine ⟨?_, hle'⟩
    rw [hbreaks, ← newlinesBetween_append (Nat.zero_le _) hmono hle', length_append,
      length_append, length_append]
    omega

theorem newlinesBetween_whole (text : List UInt8) :
    newlinesBetween text 0 text.length = newlineSpans text := by
  rw [newlinesBetween, drop_zero, Nat.sub_zero, List.take_length, newlinesOf_eq_newlineSpans]

/-- A scan whose steps go well ends. -/
theorem exists_scan_of_plain
    (hplain : ∀ state, Reaches findKeyword text {} state → StepPlain text state) :
    ∃ final, scan findKeyword text = some (.ok final) := by
  obtain ⟨result, hresult⟩ := exists_result findKeyword text {} text.length (Nat.sub_le _ _)
  cases result with
  | ok final => exact ⟨final, hresult⟩
  | error message =>
    exfalso
    obtain ⟨last, hreach, -, hfail⟩ := reaches_of_whileLoop_error hresult
    rcases (position_le_of_reaches hreach).1.lt_or_eq with hlt | heq
    · obtain ⟨action, n, hmatch, -⟩ := exists_matched (κ := κ) hlt
      have hact : action = .readOperator → ¬ Unreachable (matchText text last n) := by
        rintro rfl
        exact (hplain last hreach).2 n hmatch
      obtain ⟨next, hnext⟩ := exists_act findKeyword text hact
        (last.addLineBreaks (matchText text last n))
      rw [step_eq_act findKeyword hlt hmatch] at hfail
      exact absurd (hnext.symm.trans hfail) (by simp)
    · exact absurd ((step_of_end heq.ge).symm.trans hfail) (by simp)

/-- Every step of a scan that records the newlines of the text goes well. -/
theorem stepPlain_of_scan (hscan : scan findKeyword text = some (.ok final))
    (hbreaks : final.lineBreaks = newlineSpans text)
    (hreach : Reaches findKeyword text {} state) : StepPlain text state := by
  obtain ⟨hfinal, hstop⟩ := scan_eq_ok_iff.mp hscan
  have hend := (position_le_of_reaches hfinal).2 hstop
  obtain ⟨hle, hlast⟩ := position_le_of_reaches hreach
  rcases hle.lt_or_eq with hlt | heq
  · -- The scan goes on from the state, so its step does not fail.
    rcases Relation.ReflTransGen.cases_head (reaches_of_reaches hfinal hstop hreach) with
      rfl | ⟨next, hstep, hrest⟩
    · omega
    obtain ⟨hmono, hle', -, extra, hnext, hextra⟩ := step_spec hstep.1 hle hstep.2
    refine ⟨hextra.mp ?_, fun n hmatch hunreachable => ?_⟩
    · by_contra hne
      have hstart := (excess_of_reaches 0 (Nat.zero_le _) hreach (by simp [newlinesBetween_self])).1
      have hmore : (newlinesBetween text 0 next.position).length + 1 ≤ next.lineBreaks.length := by
        have hpos := length_pos_iff.mpr hne
        rw [hnext, ← newlinesBetween_append (Nat.zero_le _) hmono hle', length_append,
          length_append, length_append]
        omega
      have hfinalCount := (excess_of_reaches 1 hle' hrest hmore).1
      have hfinalPosition : final.position = text.length :=
        le_antisymm (position_le_of_reaches hfinal).1 hend
      rw [hbreaks, hfinalPosition, newlinesBetween_whole] at hfinalCount
      omega
    · have hfail := step_eq_act findKeyword hlt hmatch
      rw [hstep.2] at hfail
      exact absurd (hfail.trans (operatorAction_error hunreachable)) (by simp)
  · exact stepPlain_of_end heq.ge

/-- The recorded line breaks are the newlines of the text exactly when every step goes well. -/
theorem lineBreaks_iff (findKeyword : List UInt8 → Option κ) (text : List UInt8) :
    (∃ final, scan findKeyword text = some (.ok final) ∧ final.lineBreaks = newlineSpans text) ↔
      ∀ state, Reaches findKeyword text {} state → StepPlain text state := by
  constructor
  · rintro ⟨final, hscan, hbreaks⟩ state hreach
    exact stepPlain_of_scan hscan hbreaks hreach
  · intro hplain
    obtain ⟨final, hscan⟩ := exists_scan_of_plain hplain
    obtain ⟨hreach, hstop⟩ := scan_eq_ok_iff.mp hscan
    obtain ⟨hle, hend⟩ := position_le_of_reaches hreach
    refine ⟨final, hscan, ?_⟩
    rw [lineBreaks_of_reaches hplain hreach, le_antisymm hle (hend hstop), newlinesBetween_whole]

/-- A string, a line break and a minus: the line break is recorded twice. -/
theorem newline_recorded_twice :
    ¬ ∀ text : List UInt8, ∃ final,
      scan (fun _ => (none : Option Unit)) text = some (.ok final) ∧
        final.lineBreaks = newlineSpans text := by
  intro h
  obtain ⟨final, hscan, hbreaks⟩ := h (bytes ['\'', 'a', '\'', '\n', '-', '1'])
  have htwice : ((scan (fun _ => (none : Option Unit))
      (bytes ['\'', 'a', '\'', '\n', '-', '1'])).bind Except.toOption).map State.lineBreaks =
        some [⟨3, 1⟩, ⟨3, 1⟩] := by decide +kernel
  rw [hscan, bind_some, Except.toOption, map_some, hbreaks] at htwice
  exact absurd htwice (by decide +kernel)

end DashQL.Scanner
