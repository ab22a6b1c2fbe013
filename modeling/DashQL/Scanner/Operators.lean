import DashQL.Scanner.Selection

/-!
# Runs of operator characters

The operator rule matches a whole run of operator characters, decides how many of them to keep
(`nchars`) and gives back the others, but it keeps `yyleng - nchars` characters, and a single special
character that is kept ends in the unreachable case of `matchSpecialCharacter`.  So a run is scanned
into symbols of the lengths that the rule decides on (`OperatorsScanned`) exactly when the rule keeps
all of the run or half of it, with two characters at least, wherever it gets to work (`RunKept`).
-/

namespace DashQL.Scanner

open List Option

open Pattern

variable {κ : Type*} {findKeyword : List UInt8 → Option κ} {text : List UInt8}
  {state next final : State κ} {action : Action κ} {n : ℕ}

/-- What is left of a run of operator characters at the position of the scanner. -/
def operatorRun (text : List UInt8) (state : State κ) : List UInt8 :=
  opRun (text.drop state.position)

/-- The rest of a run of operator characters is scanned as the operator rule means it: symbol after
symbol for the characters that it decides to keep, the next one where the last one ends, up to the
end of the run or to a comment. -/
inductive OperatorsScanned (findKeyword : List UInt8 → Option κ) (text : List UInt8) :
    State κ → Prop
  | done {state : State κ} (h : operatorRun text state = []) : OperatorsScanned findKeyword text state
  | comment {state : State κ} (h : StartsComment (text.drop state.position)) :
      OperatorsScanned findKeyword text state
  | symbol {state next : State κ} {kind : SymbolKind κ} (hrun : operatorRun text state ≠ [])
      (hplain : ¬ StartsComment (text.drop state.position))
      (hstep : step findKeyword text state = .ok next)
      (hsymbol : next.symbols =
        state.symbols ++ [⟨kind, ⟨state.position, nchars (operatorRun text state)⟩⟩])
      (hposition : next.position = state.position + nchars (operatorRun text state))
      (hcomments : next.comments = state.comments) (hcondition : next.condition = .initial)
      (hrest : OperatorsScanned findKeyword text next) : OperatorsScanned findKeyword text state

/-- The operator rule keeps all of a run or half of it, with two characters at least, and so does it
with what is left of the run. -/
inductive RunKept : List UInt8 → Prop
  | done : RunKept []
  | comment {run : List UInt8} (h : StartsComment run) : RunKept run
  | symbol {run : List UInt8} (hplain : ¬ StartsComment run)
      (hkept : nchars run = run.length ∨ 2 ≤ nchars run ∧ run.length = 2 * nchars run)
      (hrest : RunKept (run.drop (nchars run))) : RunKept run

/-! ## The number of characters to keep -/

theorem strstr_spec {s word : List UInt8} {i : ℕ} (h : strstr s word = some i) :
    i < s.length ∧ word <+: s.drop i := by
  rw [strstr] at h
  have hprefix := find?_some h
  exact ⟨mem_range.mp (mem_of_find?_eq_some h), of_decide_eq_true hprefix⟩

theorem commentStart_bounds {run : List UInt8} {i : ℕ} (hplain : ¬ StartsComment run)
    (h : commentStart run = some i) : 1 ≤ i ∧ i < run.length := by
  have hpos : ∀ {word j}, ¬ word <+: run → strstr run word = some j → 1 ≤ j ∧ j < run.length := by
    intro word j hword hj
    obtain ⟨hlt, hprefix⟩ := strstr_spec hj
    refine ⟨Nat.one_le_iff_ne_zero.mpr ?_, hlt⟩
    rintro rfl
    exact hword hprefix
  have hdash : ¬ bytes ['-', '-'] <+: run := fun h => hplain (Or.inl h)
  have hslash : ¬ bytes ['/', '*'] <+: run := fun h => hplain (Or.inr h)
  unfold commentStart at h
  cases hs : strstr run (bytes ['/', '*']) with
  | none =>
    cases hd : strstr run (bytes ['-', '-']) with
    | none => simp [hs, hd] at h
    | some d =>
      simp only [hs, hd, some.injEq] at h
      exact h ▸ hpos hdash hd
  | some slash =>
    obtain ⟨hs1, hs2⟩ := hpos hslash hs
    cases hd : strstr run (bytes ['-', '-']) with
    | none =>
      simp only [hs, hd, some.injEq] at h
      omega
    | some d =>
      obtain ⟨hd1, hd2⟩ := hpos hdash hd
      simp only [hs, hd, some.injEq] at h
      omega

theorem stripSigns_bounds (yytext : List UInt8) {count : ℕ} (h : 1 ≤ count) :
    1 ≤ stripSigns yytext count ∧ stripSigns yytext count ≤ count := by
  induction count with
  | zero => exact absurd h (by omega)
  | succ count ih =>
    cases count with
    | zero => exact ⟨le_rfl, le_rfl⟩
    | succ count =>
      obtain ⟨hone, hle⟩ := ih (by omega)
      rw [stripSigns]
      split_ifs <;> omega

/-- The question mark is no operator character. -/
theorem nchars_eq {run : List UInt8} (hrun : ∀ b ∈ run, isOpChar b = true) :
    nchars run = stripSigns run ((commentStart run).getD run.length) := by
  have hquestion : '?'.toUInt8 ∉ run := fun h => absurd (hrun _ h) (by decide)
  unfold nchars
  dsimp only
  rw [if_neg, if_neg]
  · exact fun h => hquestion h.2
  · rintro ⟨hhead, -⟩
    exact hquestion (mem_of_mem_head? hhead)

/-- At least one character is kept, and not more than there are. -/
theorem nchars_bounds {run : List UInt8} (hne : run ≠ []) (hrun : ∀ b ∈ run, isOpChar b = true)
    (hplain : ¬ StartsComment run) : 1 ≤ nchars run ∧ nchars run ≤ run.length := by
  have hlength : 1 ≤ run.length := length_pos_iff.mpr hne
  rw [nchars_eq hrun]
  cases h : commentStart run with
  | none => exact stripSigns_bounds run hlength
  | some i =>
    obtain ⟨hone, hlt⟩ := commentStart_bounds hplain h
    obtain ⟨hpos, hle⟩ := stripSigns_bounds run hone
    exact ⟨hpos, hle.trans hlt.le⟩

theorem special_of_two : ∀ a ∈ opChars, ∀ b ∈ opChars, nchars [a, b] = 1 → a ∈ specialCharacters := by
  decide +kernel

/-- The rule keeps what it decides to keep in two cases only. -/
theorem keptLength_eq_nchars_iff {run : List UInt8} (hne : run ≠ [])
    (hrun : ∀ b ∈ run, isOpChar b = true) (hplain : ¬ StartsComment run) :
    (¬ Unreachable run ∧ keptLength run = nchars run) ↔
      nchars run = run.length ∨ 2 ≤ nchars run ∧ run.length = 2 * nchars run := by
  obtain ⟨hpos, hle⟩ := nchars_bounds hne hrun hplain
  constructor
  · rintro ⟨hreachable, hkept⟩
    rw [keptLength] at hkept
    split_ifs at hkept with hlt
    · have hhalf : run.length = 2 * nchars run := by omega
      refine Or.inr ⟨?_, hhalf⟩
      by_contra hone
      have hone' : nchars run = 1 := by omega
      rw [hone'] at hhalf
      obtain ⟨a, b, rfl⟩ := length_eq_two.mp hhalf
      refine hreachable ⟨hone', by simp, ?_⟩
      have ha := special_of_two a (isOpChar_iff.mp (hrun a (by simp))) b
        (isOpChar_iff.mp (hrun b (by simp))) hone'
      simpa using ha
    · exact Or.inl hkept.symm
  · intro h
    refine ⟨fun hunreachable => ?_, ?_⟩
    · obtain ⟨hone, hlt, -⟩ := hunreachable
      omega
    · rw [keptLength]
      split_ifs <;> omega

/-! ## Steps -/

instance (s : List UInt8) : Decidable (StartsComment s) :=
  inferInstanceAs (Decidable (bytes ['-', '-'] <+: s ∨ bytes ['/', '*'] <+: s))

/-- The comment characters are operator characters, so a comment starts a text exactly if it starts
its run of operator characters. -/
theorem startsComment_opRun (s : List UInt8) : StartsComment (opRun s) ↔ StartsComment s := by
  have hword : ∀ word : List UInt8, (∀ b ∈ word, isOpChar b = true) →
      (word <+: opRun s ↔ word <+: s) :=
    fun word hop => ⟨fun h => h.trans (opRun_start s), fun h => prefix_opRun h hop⟩
  exact or_congr (hword _ (by decide +kernel)) (hword _ (by decide +kernel))

theorem take_opRun (s : List UInt8) : s.take (opRun s).length = opRun s :=
  (List.prefix_iff_eq_take.mp (opRun_start s)).symm

theorem position_lt_of_run (h : operatorRun text state ≠ []) : state.position < text.length := by
  by_contra hle
  rw [operatorRun, drop_eq_nil_of_le (Nat.not_lt.mp hle)] at h
  exact h rfl

theorem operator_step (findKeyword : List UInt8 → Option κ) (hinitial : state.condition = .initial)
    (hrun : operatorRun text state ≠ []) (hplain : ¬ StartsComment (text.drop state.position)) :
    (Unreachable (operatorRun text state) ∧ step findKeyword text state = .error "unreachable") ∨
      ¬ Unreachable (operatorRun text state) ∧ ∃ kind errors,
        step findKeyword text state =
          .ok ((state.addLineBreaks (operatorRun text state)).returned kind errors
            (keptLength (operatorRun text state))) := by
  have hlt := position_lt_of_run hrun
  have hmatchText : (text.drop state.position).take (opRun (text.drop state.position)).length =
      operatorRun text state := take_opRun _
  rcases matched_operator hinitial hrun hplain with hmatch | ⟨kind, hkind, hall, hmatch⟩
  · rw [step_eq_act findKeyword hlt hmatch, hmatchText, act]
    by_cases hunreachable : Unreachable (operatorRun text state)
    · exact Or.inl ⟨hunreachable, operatorAction_error hunreachable⟩
    · obtain ⟨kind, errors, -, heq⟩ := operatorAction_eq hunreachable
        (state.addLineBreaks (operatorRun text state))
      exact Or.inr ⟨hunreachable, kind, errors, heq⟩
  · rw [step_eq_act findKeyword hlt hmatch, hmatchText]
    have hall' : nchars (operatorRun text state) = (operatorRun text state).length := hall
    have hkept : keptLength (operatorRun text state) = (operatorRun text state).length := by
      rw [keptLength, if_neg (Nat.not_lt.mpr hall'.ge)]
    refine Or.inr ⟨fun hunreachable => ?_, kind, state.errors, ?_⟩
    · obtain ⟨hone, hlong, -⟩ := hunreachable
      omega
    · rw [hkept]
      rfl

theorem opRun_drop (s : List UInt8) (h : n ≤ (opRun s).length) :
    opRun (s.drop n) = (opRun s).drop n := by
  induction n generalizing s with
  | zero => rfl
  | succ n ih =>
    cases s with
    | nil => rfl
    | cons b s =>
      by_cases hb : isOpChar b = true
      · have hcons : opRun (b :: s) = b :: opRun s := takeWhile_cons_of_pos hb
        rw [hcons] at h ⊢
        exact ih s (Nat.le_of_succ_le_succ h)
      · rw [opRun, takeWhile_cons_of_neg hb] at h
        exact absurd h (by simp)

/-- What is left of a run behind its first characters. -/
theorem operatorRun_of_position (hposition : next.position = state.position + n)
    (hn : n ≤ (operatorRun text state).length) :
    operatorRun text next = (operatorRun text state).drop n := by
  rw [operatorRun, hposition, ← drop_drop, opRun_drop _ hn]
  rfl

/-! ## Runs -/

theorem runKept_of_scanned (h : OperatorsScanned findKeyword text state)
    (hinitial : state.condition = .initial) : RunKept (operatorRun text state) := by
  induction h with
  | done h =>
    rw [h]
    exact .done
  | comment h => exact .comment ((startsComment_opRun _).mpr h)
  | @symbol state next kind hrun hplain hstep hsymbol hposition hcomments hcondition _ ih =>
    have hplain' : ¬ StartsComment (operatorRun text state) :=
      fun h => hplain ((startsComment_opRun _).mp h)
    have hbounds := nchars_bounds hrun (fun b => mem_opRun) hplain'
    rcases operator_step findKeyword hinitial hrun hplain with
      ⟨-, hfail⟩ | ⟨hreachable, kind', errors, hnext⟩
    · exact absurd (hfail.symm.trans hstep) (by simp)
    · obtain rfl := Except.ok.inj (hnext.symm.trans hstep)
      have hkept : keptLength (operatorRun text state) = nchars (operatorRun text state) :=
        Nat.add_left_cancel hposition
      refine .symbol hplain'
        ((keptLength_eq_nchars_iff hrun (fun b => mem_opRun) hplain').mp ⟨hreachable, hkept⟩) ?_
      rw [← operatorRun_of_position hposition hbounds.2]
      exact ih hcondition

theorem scanned_of_runKept {run : List UInt8} (h : RunKept run)
    (hinitial : state.condition = .initial) (hrun : operatorRun text state = run) :
    OperatorsScanned findKeyword text state := by
  induction h generalizing state with
  | done => exact .done hrun
  | comment h =>
    subst hrun
    exact .comment ((startsComment_opRun _).mp h)
  | @symbol run hplain hkept _ ih =>
    subst hrun
    by_cases hne : operatorRun text state = []
    · exact .done hne
    have hplain' : ¬ StartsComment (text.drop state.position) :=
      fun h => hplain ((startsComment_opRun _).mpr h)
    obtain ⟨hreachable, hlength⟩ :=
      (keptLength_eq_nchars_iff hne (fun b => mem_opRun) hplain).mpr hkept
    rcases operator_step findKeyword hinitial hne hplain' with
      ⟨hunreachable, -⟩ | ⟨-, kind, errors, hnext⟩
    · exact absurd hunreachable hreachable
    · rw [hlength] at hnext
      have hbounds := nchars_bounds hne (fun b => mem_opRun) hplain
      refine .symbol hne hplain' hnext rfl rfl rfl hinitial (ih hinitial ?_)
      exact operatorRun_of_position rfl hbounds.2

/-- A run of operator characters is scanned as the operator rule means it exactly when the rule keeps
all or half of what is left of it every time. -/
theorem operatorsScanned_iff (findKeyword : List UInt8 → Option κ) (text : List UInt8)
    (state : State κ) (hinitial : state.condition = .initial) :
    OperatorsScanned findKeyword text state ↔ RunKept (operatorRun text state) := by
  constructor
  · exact fun h => runKept_of_scanned h hinitial
  · exact fun h => scanned_of_runKept h hinitial rfl

/-- A run of which half is kept before a comment. -/
theorem operators_scanned_before_comment :
    OperatorsScanned (fun _ => (none : Option Unit)) (bytes ['@', '@', '-', '-']) {} := by
  refine (operatorsScanned_iff _ _ _ rfl).mpr (.symbol ?_ ?_ (.comment ?_)) <;> decide +kernel

/-- Of `<=-` two characters are to be kept, but the scanner goes on behind the first. -/
theorem one_kept_instead_of_two :
    ¬ ∀ (text : List UInt8) (state : State Unit), state.condition = .initial →
      OperatorsScanned (fun _ => none) text state := by
  intro h
  have hposition : (step (fun _ => none) (bytes ['<', '=', '-', '1']) ({} : State Unit)).toOption.map
      State.position = some 1 := by decide +kernel
  cases h (bytes ['<', '=', '-', '1']) {} rfl with
  | done h => exact absurd h (by decide +kernel)
  | comment h => exact absurd h (by decide +kernel)
  | symbol _ _ hstep _ hnext _ _ _ =>
    rw [hstep, Except.toOption, map_some, hnext] at hposition
    exact absurd hposition (by decide +kernel)

/-! ## The symbols of a run -/

end DashQL.Scanner
