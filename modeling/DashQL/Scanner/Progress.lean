import DashQL.Scanner.Scan

/-!
# Every step makes progress

In every state some rule matches a character at least (`exists_matched`), and every action keeps at
least one character of its match (`act_spec`), so the scanner comes to the end of the text.  Only a
quoted literal with a single minus behind it gives back characters that may be newlines.
-/

namespace DashQL.Scanner

open List

open Pattern

variable {κ : Type*} {findKeyword : List UInt8 → Option κ} {text : List UInt8}
  {state next final : State κ} {action : Action κ} {n : ℕ}

/-! ## Matches -/

/-- The rule that is chosen in a state, with the length of its match. -/
def matched (text : List UInt8) (state : State κ) : Option (Action κ × ℕ) :=
  selectRule (rules state.condition) (text.drop state.position)

/-- A rule for the characters outside of a class and one for those in it are enough. -/
theorem exists_entry {table : List (Action κ × Pattern UInt8)} {b : UInt8} (letters : List Char)
    (outside inside : Action κ × Pattern UInt8) (houtside : outside ∈ table)
    (hinside : inside ∈ table) (hout : (b ∉ bytes letters) → (outside.2.deriv b).nullable = true)
    (hin : ∀ c ∈ letters, (inside.2.deriv c.toUInt8).nullable = true) :
    ∃ entry ∈ table, (entry.2.deriv b).nullable = true := by
  by_cases hb : b ∈ bytes letters
  · obtain ⟨c, hc, rfl⟩ := mem_map.mp hb
    exact ⟨inside, hinside, hin c hc⟩
  · exact ⟨outside, houtside, hout hb⟩

theorem deriv_noneOf {letters : List Char} {b : UInt8} (hb : b ∉ bytes letters) :
    (noneOf letters).deriv b = empty ∧ ((plus (noneOf letters)).deriv b).nullable = true ∧
      ((Pattern.star (noneOf letters)).deriv b).nullable = true := by
  have hone : (noneOf letters).deriv b = empty := by
    rw [noneOf, Pattern.deriv]
    simp [hb]
  refine ⟨hone, ?_, ?_⟩
  · rw [plus, Pattern.deriv, hone]
    rfl
  · rw [Pattern.deriv, hone]
    rfl

/-- Under every start condition some rule matches any single character. -/
theorem exists_rule (condition : StartCondition) (b : UInt8) :
    ∃ entry ∈ (rules condition : List (Action κ × Pattern UInt8)),
      (entry.2.deriv b).nullable = true := by
  cases condition with
  | initial =>
    apply exists_entry ['\n'] (.emit .rawChar, other) (.skip, plus space)
    · simp [rules, initialRules, wordRules]
    · exact mem_cons_self
    · intro hb
      rw [other, (deriv_noneOf hb).1, nullable]
    · simp only [forall_mem_singleton]
      rfl
  | xb =>
    apply exists_entry quote (.skip, xbinside) (.closeLiteral .bconst, quotestop)
    · simp [rules, xbRules]
    · simp [rules, xbRules]
    · exact fun hb => (deriv_noneOf hb).2.2
    · simp only [quote, forall_mem_singleton]
      rfl
  | xbt =>
    apply exists_entry backtick (.skip, xbtinside) (.closeIdentifier '\x60'.toUInt8 _, xbtstop)
    · simp [rules, xbtRules]
    · exact mem_of_getLast? rfl
    · exact fun hb => (deriv_noneOf hb).2.1
    · simp only [backtick, forall_mem_singleton]
      rfl
  | xc =>
    apply exists_entry ['*', '/'] (.skip, xcinside) (.skip, opChar)
    · simp [rules, xcRules]
    · simp [rules, xcRules]
    · exact fun hb => (deriv_noneOf hb).2.1
    · simp only [forall_mem_cons]
      exact ⟨rfl, rfl, forall_mem_nil _⟩
  | xd =>
    apply exists_entry dquote (.skip, xdinside) (.closeIdentifier '"'.toUInt8 _, xdstop)
    · simp [rules, xdRules]
    · exact List.mem_of_getLast? rfl
    · exact fun hb => (deriv_noneOf hb).2.1
    · simp only [dquote, List.forall_mem_singleton]
      rfl
  | xh =>
    apply exists_entry quote (.skip, xhinside) (.closeLiteral .xconst, quotestop)
    · simp [rules, xhRules]
    · simp [rules, xhRules]
    · exact fun hb => (deriv_noneOf hb).2.2
    · simp only [quote, List.forall_mem_singleton]
      rfl
  | xq =>
    apply exists_entry quote (.skip, xqinside) (.closeLiteral .sconst, quotestop)
    · simp [rules, xqRules]
    · simp [rules, xqRules]
    · exact fun hb => (deriv_noneOf hb).2.1
    · simp only [quote, List.forall_mem_singleton]
      rfl

/-- Before the end of the text a rule is chosen, and it matches a character at least. -/
theorem exists_matched (h : state.position < text.length) :
    ∃ action n, matched text state = some (action, n) ∧ 1 ≤ n := by
  rw [matched, List.drop_eq_getElem_cons h]
  obtain ⟨entry, hentry, hsingle⟩ := exists_rule (κ := κ) state.condition text[state.position]
  have hmem : [text[state.position]] ∈ entry.2.language :=
    (mem_language_deriv entry.2 _ []).mp ((nullable_iff _).mp hsingle)
  have htake : (text[state.position] :: text.drop (state.position + 1)).take 1 ∈ entry.2.language :=
    hmem
  obtain ⟨m, hm, hle⟩ := exists_longest_ge (Nat.succ_le_succ (Nat.zero_le _)) htake
  obtain ⟨action, n, hn, hmn⟩ := exists_selectRule hentry hm
  exact ⟨action, n, hn, hle.trans hmn⟩

/-- What is known of a chosen rule. -/
theorem matched_spec (h : matched text state = some (action, n)) :
    ∃ p, (action, p) ∈ (rules state.condition : List (Action κ × Pattern UInt8)) ∧
      p.longest (text.drop state.position) = some n ∧
      ((text.drop state.position).take n).length = n ∧
      (text.drop state.position).take n ∈ p.language := by
  obtain ⟨⟨p, hp, hlong⟩, -⟩ := selectRule_spec h
  obtain ⟨hle, hmem⟩ := mem_of_longest hlong
  exact ⟨p, hp, hlong, List.length_take_of_le hle, hmem⟩

theorem step_eq_act (findKeyword : List UInt8 → Option κ) (hlt : state.position < text.length)
    (h : matched text state = some (action, n)) :
    step findKeyword text state =
      act findKeyword text action ((text.drop state.position).take n)
        (state.addLineBreaks ((text.drop state.position).take n)) := by
  unfold step
  dsimp only
  rw [matched] at h
  rw [if_neg, h]
  rw [List.drop_eq_nil_iff]
  exact Nat.not_le.mpr hlt

theorem step_of_end (h : text.length ≤ state.position) :
    step findKeyword text state = .ok (endOfText state) := by
  unfold step
  dsimp only
  rw [if_pos (List.drop_eq_nil_iff.mpr h)]

/-! ## Symbols -/

theorem isScanning_congr (h : next.symbols = state.symbols) : isScanning next = isScanning state := by
  rw [isScanning, isScanning, h]

/-- The scanner goes on after a symbol other than the one for the end. -/
theorem isScanning_of_symbol {kind : SymbolKind κ} {location : SymbolSpan}
    (h : next.symbols = state.symbols ++ [⟨kind, location⟩]) :
    isScanning next = !kind.isEof := by
  rw [isScanning, h, List.getLast?_concat, Option.any_some]

theorem comparison_isEof {yytext : List UInt8} {kind : SymbolKind κ}
    (h : comparison yytext = some kind) : kind.isEof = false := by
  unfold comparison at h
  dsimp only at h
  split_ifs at h <;> obtain rfl := Option.some.inj h <;> rfl

theorem readInteger_isEof (location : SymbolSpan) :
    (readInteger text location : SymbolKind κ).isEof = false := by
  rw [readInteger]
  split_ifs <;> rfl

theorem readIdentifier_isEof (location : SymbolSpan) :
    (readIdentifier findKeyword text location).isEof = false := by
  unfold readIdentifier
  dsimp only
  split <;> rfl

/-- How many characters of an operator are left in the match. -/
def keptLength (yytext : List UInt8) : ℕ :=
  if nchars yytext < yytext.length then yytext.length - nchars yytext else yytext.length

/-- The operator rule runs into the unreachable case. -/
def Unreachable (yytext : List UInt8) : Prop :=
  nchars yytext = 1 ∧ 1 < yytext.length ∧
    yytext.head?.any (fun b => decide (b ∈ specialCharacters)) = true

theorem operatorAction_error {yytext : List UInt8} (h : Unreachable yytext) :
    operatorAction state yytext = .error "unreachable" := by
  obtain ⟨hone, hlt, hspecial⟩ := h
  have htake : (yytext.take (yytext.length - 1)).head? = yytext.head? := by
    rw [List.head?_take, if_neg (by omega)]
  unfold operatorAction
  dsimp only
  rw [hone, if_pos hlt, htake, if_pos ⟨rfl, hspecial⟩]
  rfl

/-- A state after a symbol for the next characters, and perhaps an error. -/
def State.returned (state : State κ) (kind : SymbolKind κ) (errors : List (SymbolSpan × String))
    (kept : ℕ) : State κ :=
  { state with
    position := state.position + kept
    symbols := state.symbols ++ [⟨kind, ⟨state.position, kept⟩⟩]
    errors := errors }

theorem pushOp_eq (state : State κ) (count kept : ℕ) :
    ∃ errors, pushOp state count kept = state.returned .op errors kept := by
  unfold pushOp
  dsimp only
  split_ifs
  · exact ⟨_, rfl⟩
  · exact ⟨_, rfl⟩

/-- The operator rule returns one symbol, for what is left of its match. -/
theorem operatorAction_eq {yytext : List UInt8} (h : ¬ Unreachable yytext) (state : State κ) :
    ∃ kind errors, kind.isEof = false ∧
      operatorAction state yytext = .ok (state.returned kind errors (keptLength yytext)) := by
  have hop : ∀ count, ∃ kind errors, kind.isEof = false ∧
      (.ok (pushOp state count (keptLength yytext)) : Except String (State κ)) =
        .ok (state.returned kind errors (keptLength yytext)) := by
    intro count
    obtain ⟨errors, herrors⟩ := pushOp_eq state count (keptLength yytext)
    exact ⟨.op, errors, rfl, congrArg _ herrors⟩
  unfold operatorAction
  dsimp only
  by_cases hlt : nchars yytext < yytext.length
  · rw [show yytext.length - nchars yytext = keptLength yytext from (if_pos hlt).symm, if_pos hlt]
    have hlong : ¬ (nchars yytext = 1 ∧ ((yytext.take (keptLength yytext)).head?.any
        fun b => decide (b ∈ specialCharacters)) = true) := by
      rintro ⟨hone, hspecial⟩
      refine h ⟨hone, hone ▸ hlt, ?_⟩
      rwa [List.head?_take, if_neg (by rw [keptLength, if_pos hlt]; omega)] at hspecial
    rw [if_neg hlong]
    cases hcmp : (if nchars yytext = 2 then comparison (yytext.take (keptLength yytext)) else
        none : Option (SymbolKind κ)) with
    | none => exact hop _
    | some kind =>
      split_ifs at hcmp
      exact ⟨kind, _, comparison_isEof hcmp, rfl⟩
  · rw [if_neg hlt, show yytext.length = keptLength yytext from (if_neg hlt).symm]
    exact hop _

theorem keptLength_le (yytext : List UInt8) : keptLength yytext ≤ yytext.length := by
  rw [keptLength]
  split_ifs <;> omega

theorem keptLength_pos {yytext : List UInt8} (h : yytext ≠ []) : 1 ≤ keptLength yytext := by
  have hpos : 1 ≤ yytext.length := List.length_pos_iff.mpr h
  rw [keptLength]
  split_ifs <;> omega

/-! ## Actions -/

/-- A rule that gives back the end of its match leaves a character, and gives back no newline. -/
def givesBackPlain (entry : Action κ × Pattern UInt8) : Bool :=
  match entry.1 with
  | .emitLess count _ => decide (count < entry.2.shortest) && !entry.2.occurs '\n'.toUInt8
  | .readOperator => !entry.2.occurs '\n'.toUInt8
  | _ => true

theorem rules_givesBackPlain (condition : StartCondition) :
    (rules condition : List (Action κ × Pattern UInt8)).all givesBackPlain = true := by
  cases condition <;> rfl

/-- No rule returns the symbol for the end. -/
def returnsNoEof (entry : Action κ × Pattern UInt8) : Bool :=
  match entry.1 with
  | .emit kind => !kind.isEof
  | .emitFirst kind => !kind.isEof
  | .emitLess _ kind => !kind.isEof
  | .closeLiteral kind => !kind.isEof
  | .failLiteral kind => !kind.isEof
  | _ => true

theorem rules_returnsNoEof (condition : StartCondition) :
    (rules condition : List (Action κ × Pattern UInt8)).all returnsNoEof = true := by
  cases condition <;> rfl

/-- What an action keeps of its match, that it records no newline of its own, and that it does not
end the scan. -/
theorem act_spec (hmatch : matched text state = some (action, n)) (hn : 1 ≤ n)
    {yytext : List UInt8} (htext : yytext = (text.drop state.position).take n) {s : State κ}
    (hscan : isScanning s = true) (h : act findKeyword text action yytext s = .ok next) :
    ∃ k, 1 ≤ k ∧ k ≤ n ∧ next.position = s.position + k ∧ next.lineBreaks = s.lineBreaks ∧
      isScanning next = true ∧
      ('\n'.toUInt8 ∉ yytext.drop k ∧ (∀ kind, action ≠ .failLiteral kind) ∨
        k = 1 ∧ ∃ kind, action = .failLiteral kind) := by
  obtain ⟨p, hp, -, hlength, hmem⟩ := matched_spec hmatch
  have hplain := List.all_eq_true.mp (rules_givesBackPlain state.condition) _ hp
  have heof := List.all_eq_true.mp (rules_returnsNoEof state.condition) _ hp
  rw [← htext] at hlength hmem
  have hwhole : '\n'.toUInt8 ∉ yytext.drop n := by simp [← hlength]
  have hnone : p.occurs '\n'.toUInt8 = false → ∀ k, '\n'.toUInt8 ∉ yytext.drop k := by
    intro hfalse k hin
    have hocc := occurs_of_mem hmem (List.mem_of_mem_drop hin)
    rw [hfalse] at hocc
    exact Bool.false_ne_true hocc
  cases action with
  | emitLess count kind =>
    rw [givesBackPlain, Bool.and_eq_true, decide_eq_true_eq, Bool.not_eq_true'] at hplain
    have hlt : count < n := hplain.1.trans_le (hlength ▸ shortest_le hmem)
    obtain rfl := Except.ok.inj h
    exact ⟨yytext.length - count, by omega, by omega, rfl, rfl,
      (isScanning_of_symbol rfl).trans heof, Or.inl ⟨hnone hplain.2 _, by simp⟩⟩
  | readOperator =>
    rw [givesBackPlain, Bool.not_eq_true'] at hplain
    have hne : yytext ≠ [] := List.length_pos_iff.mp (hlength.symm ▸ hn)
    by_cases hunreachable : Unreachable yytext
    · rw [act, operatorAction_error hunreachable] at h
      cases h
    · obtain ⟨kind, errors, hkind, heq⟩ := operatorAction_eq hunreachable s
      obtain rfl := Except.ok.inj (heq.symm.trans h)
      exact ⟨keptLength yytext, keptLength_pos hne, (keptLength_le yytext).trans hlength.le, rfl,
        rfl, by rw [isScanning_of_symbol rfl, hkind]; rfl, Or.inl ⟨hnone hplain _, by simp⟩⟩
  | failLiteral kind =>
    obtain rfl := Except.ok.inj h
    exact ⟨1, le_rfl, hn, rfl, rfl, (isScanning_of_symbol rfl).trans heof, Or.inr ⟨rfl, kind, rfl⟩⟩
  | closeComment =>
    refine ⟨n, hn, le_rfl, ?_⟩
    unfold act at h
    dsimp only at h
    split_ifs at h <;> obtain rfl := Except.ok.inj h <;>
      exact ⟨by rw [← hlength]; rfl, rfl, hscan, Or.inl ⟨hwhole, by simp⟩⟩
  | closeIdentifier quote message =>
    refine ⟨n, hn, le_rfl, ?_⟩
    unfold act at h
    dsimp only at h
    split_ifs at h <;> obtain rfl := Except.ok.inj h <;>
      exact ⟨by rw [← hlength]; rfl, rfl, (isScanning_of_symbol rfl).trans rfl, Or.inl ⟨hwhole, by simp⟩⟩
  | emit kind =>
    obtain rfl := Except.ok.inj h
    exact ⟨n, hn, le_rfl, by rw [← hlength]; rfl, rfl, (isScanning_of_symbol rfl).trans heof,
      Or.inl ⟨hwhole, by simp⟩⟩
  | emitFirst kind =>
    obtain rfl := Except.ok.inj h
    exact ⟨n, hn, le_rfl, by rw [← hlength]; rfl, rfl, (isScanning_of_symbol rfl).trans heof,
      Or.inl ⟨hwhole, by simp⟩⟩
  | closeLiteral kind =>
    obtain rfl := Except.ok.inj h
    exact ⟨n, hn, le_rfl, by rw [← hlength]; rfl, rfl, (isScanning_of_symbol rfl).trans heof,
      Or.inl ⟨hwhole, by simp⟩⟩
  | readInteger =>
    obtain rfl := Except.ok.inj h
    exact ⟨n, hn, le_rfl, by rw [← hlength]; rfl, rfl,
      (isScanning_of_symbol rfl).trans (by rw [readInteger_isEof]; rfl), Or.inl ⟨hwhole, by simp⟩⟩
  | readIdentifier =>
    obtain rfl := Except.ok.inj h
    exact ⟨n, hn, le_rfl, by rw [← hlength]; rfl, rfl,
      (isScanning_of_symbol rfl).trans (by rw [readIdentifier_isEof]; rfl), Or.inl ⟨hwhole, by simp⟩⟩
  | _ =>
    obtain rfl := Except.ok.inj h
    exact ⟨n, hn, le_rfl, by rw [← hlength]; rfl, rfl, hscan, Or.inl ⟨hwhole, by simp⟩⟩

/-- Only the operator rule can fail. -/
theorem exists_act (findKeyword : List UInt8 → Option κ) (text : List UInt8)
    {yytext : List UInt8} (h : action = .readOperator → ¬ Unreachable yytext)
    (state : State κ) : ∃ next, act findKeyword text action yytext state = .ok next := by
  cases action with
  | readOperator =>
    obtain ⟨kind, errors, -, heq⟩ := operatorAction_eq (h rfl) state
    exact ⟨_, heq⟩
  | closeComment =>
    unfold act
    dsimp only
    split_ifs
    · exact ⟨_, rfl⟩
    · exact ⟨_, rfl⟩
  | _ => exact ⟨_, rfl⟩

/-! ## The end of the text -/

theorem endOfText_eq (h : state.condition = .initial) :
    endOfText state = state.push .eof ⟨state.position, 1⟩ := by
  rw [endOfText, h]
  rfl

theorem endOfText_spec (state : State κ) :
    (endOfText state).position = state.position ∧
      (endOfText state).lineBreaks = state.lineBreaks ∧
      ((endOfText state).condition = .initial ∨ isScanning (endOfText state) = false) := by
  rw [endOfText]
  split
  · exact ⟨rfl, rfl, Or.inl rfl⟩
  · refine ⟨rfl, rfl, Or.inr ?_⟩
    simp [isScanning, State.push, SymbolKind.isEof]

theorem whileLoop_of_stop {fuel : ℕ} (h : isScanning state = false) :
    whileLoop isScanning (step findKeyword text) (fuel + 1) state = some (.ok state) := by
  rw [whileLoop, h]
  rfl

theorem exists_result_of_end (h : text.length ≤ state.position) (fuel : ℕ) :
    ∃ result, whileLoop isScanning (step findKeyword text) (fuel + 3) state = some result := by
  cases hscan : isScanning state with
  | false => exact ⟨_, whileLoop_of_stop hscan⟩
  | true =>
    rw [whileLoop_succ hscan (step_of_end h)]
    obtain ⟨hposition, -, hnext⟩ := endOfText_spec state
    cases hscan' : isScanning (endOfText state) with
    | false => exact ⟨_, whileLoop_of_stop hscan'⟩
    | true =>
      have hinitial := hnext.resolve_right (by simp [hscan'])
      rw [whileLoop_succ hscan' (step_of_end (hposition.symm ▸ h)), endOfText_eq hinitial]
      refine ⟨_, whileLoop_of_stop ?_⟩
      simp [isScanning, State.push, SymbolKind.isEof]

theorem exists_result (findKeyword : List UInt8 → Option κ) (text : List UInt8) (state : State κ)
    (d : ℕ) (hd : text.length - state.position ≤ d) :
    ∃ result, whileLoop isScanning (step findKeyword text) (d + 3) state = some result := by
  induction d generalizing state with
  | zero => exact exists_result_of_end (Nat.sub_eq_zero_iff_le.mp (Nat.le_zero.mp hd)) 0
  | succ d ih =>
    by_cases hlt : state.position < text.length
    · cases hscan : isScanning state with
      | false => exact ⟨_, whileLoop_of_stop hscan⟩
      | true =>
        obtain ⟨action, n, hmatch, hn⟩ := exists_matched (κ := κ) hlt
        have hstep := step_eq_act findKeyword hlt hmatch
        cases hact : act findKeyword text action ((text.drop state.position).take n)
            (state.addLineBreaks ((text.drop state.position).take n)) with
        | error message =>
          refine ⟨.error message, ?_⟩
          rw [whileLoop, if_pos hscan, hstep, hact]
        | ok next =>
          obtain ⟨k, hk, -, hposition, -⟩ :=
            act_spec hmatch hn rfl (s := state.addLineBreaks _) hscan hact
          rw [show d + 1 + 3 = (d + 3) + 1 from rfl, whileLoop_succ hscan (hstep.trans hact)]
          have hmoved : next.position = state.position + k := hposition
          exact ih next (by omega)
    · exact exists_result_of_end (Nat.not_lt.mp hlt) (d + 1)

/-- A text is scanned with success if the scanner comes to a state with the last symbol. -/
theorem scan_eq_ok_iff :
    scan findKeyword text = some (.ok final) ↔
      Reaches findKeyword text {} final ∧ isScanning final = false := by
  constructor
  · exact reaches_of_whileLoop
  · rintro ⟨hreach, hstop⟩
    obtain ⟨result, hresult⟩ := exists_result findKeyword text {} text.length (Nat.sub_le _ _)
    rw [scan, hresult, whileLoop_of_reaches hreach hstop hresult]

end DashQL.Scanner
