import DashQL.Scanner.Progress

/-!
# Chosen rules

Which rule is chosen outside of the extended rules when the text goes on with spaces
(`matched_space`), with a comment (`matched_comment`, `matched_open`) or with operator characters
(`matched_operator`), and inside of a block comment (`matched_xc`).  The rules that cannot match are
ruled out by the characters they start with, the others by the length of their match.
-/

namespace DashQL.Scanner

open List

open Pattern

variable {κ : Type*} {findKeyword : List UInt8 → Option κ} {text : List UInt8}
  {state next final : State κ} {action : Action κ} {n : ℕ}

/-- The operator characters at the front of a text. -/
def opRun (s : List UInt8) : List UInt8 := s.takeWhile isOpChar

/-- A comment starts at the front of a text. -/
def StartsComment (s : List UInt8) : Prop := bytes ['-', '-'] <+: s ∨ bytes ['/', '*'] <+: s

/-! ## Rules that cannot match -/

/-- A rule that matches nothing at one of some characters. -/
def matchesNoneOf (letters : List UInt8) (entry : Action κ × Pattern UInt8) : Bool :=
  !entry.2.nullable && letters.all fun b => !entry.2.firsts b

variable {b : UInt8}

theorem longest_of_matchesNoneOf {letters : List UInt8} {entry : Action κ × Pattern UInt8}
    (h : matchesNoneOf letters entry = true) (hb : b ∈ letters) (s : List UInt8) :
    entry.2.longest (b :: s) = none := by
  rw [matchesNoneOf, Bool.and_eq_true, Bool.not_eq_true', all_eq_true] at h
  exact longest_eq_none_of_firsts h.1 (Bool.not_eq_true' _ |>.mp (h.2 b hb)) s

theorem isOpChar_iff : isOpChar b = true ↔ b ∈ opChars := decide_eq_true_iff

variable {s : List UInt8}

theorem longest_operator (hb : isOpChar b = true) :
    operator.longest (b :: s) = some (opRun (b :: s)).length := by
  rw [operator, opChar, longest_plus_one, if_pos hb, opRun]

/-- The text does not start with a typed block comment that stands for a literal. -/
def NoMarker (s : List UInt8) : Prop :=
  ∀ p ∈ [hyperObfuscatedString, hyperObfuscatedInteger, hyperObfuscatedFloat,
    hyperObfuscatedHexString, hyperObfuscatedBitString], p.longest s = none

instance (s : List UInt8) : Decidable (NoMarker s) :=
  inferInstanceAs (Decidable (∀ p ∈ [hyperObfuscatedString, hyperObfuscatedInteger,
    hyperObfuscatedFloat, hyperObfuscatedHexString, hyperObfuscatedBitString], p.longest s = none))

theorem hyperRules_of_noMarker (h : NoMarker s) {entry : Action κ × Pattern UInt8}
    (hentry : entry ∈ hyperRules) : entry.2.longest s = none := by
  have hmem : entry.2 ∈ (hyperRules : List (Action κ × Pattern UInt8)).map Prod.snd :=
    mem_map_of_mem hentry
  exact h _ hmem

theorem hyperRules_none (h : ¬ bytes ['/', '*'] <+: s) {entry : Action κ × Pattern UInt8}
    (hentry : entry ∈ hyperRules) : entry.2.longest s = none := by
  have hname : ∀ name, (hyperObfuscated name).longest s = none := by
    intro name
    unfold hyperObfuscated
    dsimp only
    rw [longest_literal, if_neg]
    intro hprefix
    exact h (.trans ⟨bytes (name ++ ['(']), by simp [bytes]⟩ hprefix)
  simp only [hyperRules, mem_cons, not_mem_nil, or_false] at hentry
  rcases hentry with rfl | rfl | rfl | rfl | rfl <;> exact hname _

/-- The operators that have symbols of their own. -/
def operatorWords : List (List Char) :=
  [['+'], ['-'], ['*'], ['/'], ['%'], ['^'], ['<'], ['>'], ['='], ['=', '>'], ['<', '='],
    ['>', '='], ['<', '>'], ['!', '=']]

theorem fixedRules_cases {entry : Action κ × Pattern UInt8} (h : entry ∈ fixedRules) :
    matchesNoneOf opChars entry = true ∨
      ∃ kind word, word ∈ operatorWords ∧ kind.isEof = false ∧ entry = (.emit kind, exactly word) := by
  simp only [fixedRules, mem_cons, not_mem_nil, or_false] at h
  rcases h with rfl | rfl | rfl | rfl | rfl | rfl | rfl | rfl | rfl | rfl | rfl | rfl | rfl | rfl |
    rfl | rfl | rfl | rfl | rfl | rfl | rfl | rfl | rfl | rfl | rfl | rfl | rfl | rfl | rfl | rfl |
    rfl | rfl | rfl <;>
  first
  | exact Or.inl rfl
  | exact Or.inr ⟨_, _, by decide, rfl, rfl⟩

theorem wordRules_cases {entry : Action κ × Pattern UInt8} (h : entry ∈ wordRules) :
    matchesNoneOf opChars entry = true ∨ entry = (.emit .rawChar, other) := by
  simp only [wordRules, mem_cons, not_mem_nil, or_false] at h
  rcases h with rfl | rfl | rfl | rfl | rfl | rfl | rfl | rfl
  case inr.inr.inr.inr.inr.inr.inr => exact Or.inr rfl
  all_goals exact Or.inl rfl

theorem mem_initialRules {entry : Action κ × Pattern UInt8} (h : entry ∈ initialRules) :
    entry = (.skip, plus space) ∨ entry = (.addComment, comment) ∨ entry ∈ hyperRules ∨
      entry = (.openComment, xcstart) ∨ entry ∈ fixedRules ∨ entry = (.readOperator, operator) ∨
      entry ∈ wordRules := by
  simpa [initialRules, or_assoc] using h

/-! ## Operators -/

/-- The number of characters to keep of an operator with a symbol of its own, or of one character. -/
theorem nchars_operatorWords : ∀ word ∈ operatorWords, nchars (bytes word) = (bytes word).length := by
  decide +kernel

theorem nchars_singleton : ∀ b ∈ opChars, nchars [b] = 1 := by decide +kernel

theorem operatorWords_isOpChar :
    ∀ word ∈ operatorWords, ∀ b ∈ bytes word, isOpChar b = true := by decide +kernel

theorem opRun_start (s : List UInt8) : opRun s <+: s := List.takeWhile_prefix _

theorem mem_opRun (h : b ∈ opRun s) : isOpChar b = true :=
  mem_takeWhile_imp h

theorem prefix_takeWhile {word : List UInt8} {letters : UInt8 → Bool} (h : word <+: s)
    (hword : ∀ b ∈ word, letters b = true) : word <+: s.takeWhile letters := by
  obtain ⟨rest, rfl⟩ := h
  rw [takeWhile_append_of_pos hword]
  exact List.prefix_append _ _

/-- A word of operator characters that a text starts with is a part of its first operator. -/
theorem prefix_opRun {word : List UInt8} (h : word <+: s) (hword : ∀ b ∈ word, isOpChar b = true) :
    word <+: opRun s := prefix_takeWhile h hword

/-- At an operator that is no comment the match is the whole run of operator characters, either of
the operator rule or of one that returns a symbol for it. -/
theorem matched_operator (hinitial : state.condition = .initial)
    (hrun : opRun (text.drop state.position) ≠ [])
    (hplain : ¬ StartsComment (text.drop state.position)) :
    matched text state = some (.readOperator, (opRun (text.drop state.position)).length) ∨
      ∃ kind, kind.isEof = false ∧
        nchars (opRun (text.drop state.position)) = (opRun (text.drop state.position)).length ∧
        matched text state = some (.emit kind, (opRun (text.drop state.position)).length) := by
  rw [matched, hinitial]
  obtain ⟨b, s, hs⟩ : ∃ b s, text.drop state.position = b :: s := by
    cases h : text.drop state.position with
    | nil => simp [h, opRun] at hrun
    | cons b s => exact ⟨b, s, rfl⟩
  rw [hs] at hrun hplain ⊢
  have hb : isOpChar b = true := by
    by_contra hb
    exact hrun (takeWhile_cons_of_neg hb)
  have hmem : b ∈ opChars := isOpChar_iff.mp hb
  have hoperator : (.readOperator, operator) ∈ (initialRules : List (Action κ × Pattern UInt8)) := by
    simp [initialRules]
  obtain ⟨action, n, hselect, hle⟩ := exists_selectRule hoperator (longest_operator hb)
  obtain ⟨⟨p, hp, hlong⟩, -⟩ := selectRule_spec hselect
  rw [rules, hselect]
  have hlongest : ∀ {entry : Action κ × Pattern UInt8}, entry.2.longest (b :: s) = none →
      (action, p) ≠ entry := by
    rintro entry hnone rfl
    exact absurd (hlong.symm.trans hnone) (Option.some_ne_none n)
  have hnever : ∀ {letters : List UInt8} {entry : Action κ × Pattern UInt8}, b ∈ letters →
      matchesNoneOf letters entry = true → (action, p) ≠ entry :=
    fun hin hnone => hlongest (longest_of_matchesNoneOf hnone hin s)
  rcases mem_initialRules hp with h | h | h | h | h | h | h
  · exact absurd h (hnever hmem rfl)
  · refine absurd h (hlongest ?_)
    exact (longest_literal _ _ _).trans (if_neg fun hcomment => hplain (Or.inl hcomment))
  · exact absurd rfl (hlongest (hyperRules_none (fun hcomment => hplain (Or.inr hcomment)) h))
  · refine absurd h (hlongest ?_)
    exact (longest_literal _ _ _).trans (if_neg fun hcomment => hplain (Or.inr hcomment))
  · rcases fixedRules_cases h with hnone | ⟨kind, word, hword, hkind, heq⟩
    · exact absurd rfl (hnever hmem hnone)
    · obtain ⟨rfl, rfl⟩ := Prod.mk.inj heq
      rw [exactly, longest_word] at hlong
      split_ifs at hlong with hprefix
      obtain rfl := Option.some.inj hlong
      -- The word is as long as the run, so it is the run.
      have hrunWord : opRun (b :: s) = bytes word := by
        have hpart := prefix_opRun hprefix (operatorWords_isOpChar word hword)
        exact (hpart.eq_of_length (le_antisymm hpart.length_le hle)).symm
      rw [hrunWord]
      exact Or.inr ⟨kind, hkind, nchars_operatorWords word hword, rfl⟩
  · obtain ⟨rfl, rfl⟩ := Prod.mk.inj h
    rw [longest_operator hb] at hlong
    obtain rfl := Option.some.inj hlong
    exact Or.inl rfl
  · rcases wordRules_cases h with hnone | heq
    · exact absurd rfl (hnever hmem hnone)
    · obtain ⟨rfl, rfl⟩ := Prod.mk.inj heq
      rw [other, noneOf, longest_one] at hlong
      split_ifs at hlong
      obtain rfl := Option.some.inj hlong
      have hsingle : opRun (b :: s) = [b] := by
        rw [opRun, takeWhile_cons_of_pos hb] at hle ⊢
        rw [length_eq_zero_iff.mp (Nat.le_zero.mp (Nat.le_of_succ_le_succ hle))]
      rw [hsingle]
      exact Or.inr ⟨.rawChar, rfl, nchars_singleton b hmem, rfl⟩

/-! ## Spaces and comments -/

theorem fixedRules_le (hb : isOpChar b = true) {entry : Action κ × Pattern UInt8}
    (hentry : entry ∈ fixedRules) {m : ℕ} (hm : entry.2.longest (b :: s) = some m) :
    m ≤ (opRun (b :: s)).length := by
  rcases fixedRules_cases hentry with hnone | ⟨kind, word, hword, -, rfl⟩
  · rw [longest_of_matchesNoneOf hnone (isOpChar_iff.mp hb)] at hm
    cases hm
  · dsimp only at hm
    rw [exactly, longest_word] at hm
    split_ifs at hm with hprefix
    obtain rfl := Option.some.inj hm
    exact (prefix_opRun hprefix (operatorWords_isOpChar word hword)).length_le

theorem wordRules_le (hb : isOpChar b = true) {entry : Action κ × Pattern UInt8}
    (hentry : entry ∈ wordRules) {m : ℕ} (hm : entry.2.longest (b :: s) = some m) : m ≤ 1 := by
  rcases wordRules_cases hentry with hnone | rfl
  · rw [longest_of_matchesNoneOf hnone (isOpChar_iff.mp hb)] at hm
    cases hm
  · dsimp only at hm
    rw [other, noneOf, longest_one] at hm
    split_ifs at hm
    exact (Option.some.inj hm).ge

/-- Nothing behind the rules for comments matches more than the run of operator characters. -/
theorem laterRules_le (hb : isOpChar b = true) {entry : Action κ × Pattern UInt8}
    (hentry : entry ∈ fixedRules ++ [(.readOperator, operator)] ++ wordRules) {m : ℕ}
    (hm : entry.2.longest (b :: s) = some m) : m ≤ (opRun (b :: s)).length := by
  have hpos : 1 ≤ (opRun (b :: s)).length := by
    rw [opRun, takeWhile_cons_of_pos hb]
    exact Nat.succ_le_succ (Nat.zero_le _)
  rcases mem_append.mp hentry with hentry | hentry
  · rcases mem_append.mp hentry with hentry | hentry
    · exact fixedRules_le hb hentry hm
    · obtain rfl := mem_singleton.mp hentry
      exact (Option.some.inj ((longest_operator hb).symm.trans hm)).ge
  · exact (wordRules_le hb hentry hm).trans hpos

/-- At spaces all of them are skipped. -/
theorem matched_space (hinitial : state.condition = .initial)
    (hrest : text.drop state.position = b :: s) (hb : isSpace b = true) :
    matched text state =
      some ((.skip : Action κ), ((b :: s).takeWhile isSpace).length) := by
  have hmem : b ∈ spaceChars := of_decide_eq_true hb
  have hsplit : (initialRules : List (Action κ × Pattern UInt8)) =
      (.skip, plus space) :: (initialRules.tail.dropLast ++ [(.emit .rawChar, other)]) := rfl
  have hnone : (initialRules.tail.dropLast : List (Action κ × Pattern UInt8)).all
      (matchesNoneOf spaceChars) = true := rfl
  rw [matched, hinitial, hrest, rules, hsplit]
  refine selectRule_cons ?_ fun entry hentry m hm => ?_
  · rw [space, longest_plus_one, if_pos hb]
  · rcases mem_append.mp hentry with hentry | hentry
    · rw [longest_of_matchesNoneOf (all_eq_true.mp hnone _ hentry) hmem] at hm
      cases hm
    · obtain rfl := mem_singleton.mp hentry
      dsimp only at hm
      rw [other, noneOf, longest_one] at hm
      split_ifs at hm
      obtain rfl := Option.some.inj hm
      rw [takeWhile_cons_of_pos hb]
      exact Nat.succ_le_succ (Nat.zero_le _)

/-- The characters of a comment up to the end of its line. -/
def lineComment (s : List UInt8) : List UInt8 := s.takeWhile fun b => !isNewline b

theorem opChars_not_newline : ∀ b ∈ opChars, (!isNewline b) = true := by decide +kernel

theorem opRun_le_lineComment (s : List UInt8) : (opRun s).length ≤ (lineComment s).length := by
  refine (prefix_takeWhile (opRun_start s) fun b hb => ?_).length_le
  exact opChars_not_newline b (isOpChar_iff.mp (mem_opRun hb))

/-- The opening of a block comment is matched with all operator characters behind it. -/
theorem longest_xcstart (s : List UInt8) :
    xcstart.longest s = if bytes ['/', '*'] <+: s then some (opRun s).length else none := by
  rw [xcstart, longest_literal]
  by_cases h : bytes ['/', '*'] <+: s
  · obtain ⟨s', rfl⟩ := h
    rw [if_pos (List.prefix_append _ _), if_pos (List.prefix_append _ _), drop_left, opChar,
      longest_star_one]
    rfl
  · rw [if_neg h, if_neg h]

/-- The rules outside of the extended ones, around those for comments. -/
theorem initialRules_eq : (initialRules : List (Action κ × Pattern UInt8)) =
    [(.skip, plus space)] ++ (.addComment, comment) :: (hyperRules ++ (.openComment, xcstart) ::
      (fixedRules ++ [(.readOperator, operator)] ++ wordRules)) := by
  simp [initialRules]

theorem space_none (hb : isSpace b = false) (s : List UInt8) :
    (plus space).longest (b :: s) = none := by
  rw [space, longest_plus_one, hb]
  rfl

theorem matched_comment (hinitial : state.condition = .initial)
    (hopen : bytes ['-', '-'] <+: text.drop state.position) :
    matched text state =
      some ((.addComment : Action κ), (lineComment (text.drop state.position)).length) := by
  rw [matched, hinitial, rules, initialRules_eq]
  obtain ⟨s, hs⟩ := hopen
  rw [← hs]
  have hnoblock : ¬ bytes ['/', '*'] <+: bytes ['-', '-'] ++ s := by
    rintro ⟨s', hs'⟩
    exact absurd (List.cons.inj hs').1 (by decide)
  refine selectRule_append ?_ ?_ fun entry hentry m hm => ?_
  · intro entry hentry m hm
    obtain rfl := mem_singleton.mp hentry
    have hnone : (plus space).longest (bytes ['-', '-'] ++ s) = none :=
      space_none (by decide) _
    exact absurd (hm.symm.trans hnone) (Option.some_ne_none m)
  · rw [comment, longest_literal, if_pos (List.prefix_append _ _), nonNewline, longest_star_one]
    rfl
  · rcases mem_append.mp hentry with hentry | hentry
    · exact absurd (hm.symm.trans (hyperRules_none hnoblock hentry)) (Option.some_ne_none m)
    · rcases mem_cons.mp hentry with rfl | hentry
      · rw [longest_xcstart, if_neg hnoblock] at hm
        cases hm
      · exact (laterRules_le (b := '-'.toUInt8) (by decide) hentry hm).trans
          (opRun_le_lineComment _)

/-- At the opening of a block comment that is no literal the whole run of operator characters is
taken. -/
theorem matched_open (hinitial : state.condition = .initial)
    (hopen : bytes ['/', '*'] <+: text.drop state.position)
    (hplain : NoMarker (text.drop state.position)) :
    matched text state =
      some ((.openComment : Action κ), (opRun (text.drop state.position)).length) := by
  have hsplit : (initialRules : List (Action κ × Pattern UInt8)) =
      ([(.skip, plus space), (.addComment, comment)] ++ hyperRules) ++ (.openComment, xcstart) ::
        (fixedRules ++ [(.readOperator, operator)] ++ wordRules) := by
    simp [initialRules]
  rw [matched, hinitial, rules, hsplit]
  obtain ⟨s, hs⟩ := hopen
  rw [← hs] at hplain ⊢
  have hnoline : ¬ bytes ['-', '-'] <+: bytes ['/', '*'] ++ s := by
    rintro ⟨s', hs'⟩
    exact absurd (List.cons.inj hs').1 (by decide)
  refine selectRule_append ?_ ?_ fun entry hentry m hm =>
    laterRules_le (b := '/'.toUInt8) (by decide) hentry hm
  · intro entry hentry m hm
    rcases mem_append.mp hentry with hentry | hentry
    · rcases mem_cons.mp hentry with rfl | hentry
      · have hnone : (plus space).longest (bytes ['/', '*'] ++ s) = none :=
          space_none (by decide) _
        exact absurd (hm.symm.trans hnone) (Option.some_ne_none m)
      · obtain rfl := mem_singleton.mp hentry
        have hnone : comment.longest (bytes ['/', '*'] ++ s) = none :=
          (longest_literal _ _ _).trans (if_neg hnoline)
        exact absurd (hm.symm.trans hnone) (Option.some_ne_none m)
    · exact absurd (hm.symm.trans (hyperRules_of_noMarker hplain hentry)) (Option.some_ne_none m)
  · rw [longest_xcstart, if_pos (List.prefix_append _ _)]

/-! ## Inside of a block comment -/

def isStar (b : UInt8) : Bool := decide (b ∈ bytes ['*'])

/-- The stars at the front of a text. -/
def starRun (s : List UInt8) : List UInt8 := s.takeWhile isStar

/-- The characters in front of the next star or slash. -/
def plainRun (s : List UInt8) : List UInt8 := s.takeWhile fun b => !decide (b ∈ bytes ['*', '/'])

/-- Stars are closing if a slash stands behind them. -/
theorem longest_xcstop (b : UInt8) (s : List UInt8) :
    xcstop.longest (b :: s) =
      if isStar b then
        if (s.dropWhile isStar).head? = some '/'.toUInt8 then some ((starRun s).length + 2) else none
      else none := by
  have hslash : isStar '/'.toUInt8 = false := by decide
  have hseq := @longest_star_seq _ _ isStar _ hslash s
  have hfirst := longest_plus_seq isStar (exactly ['/']) b s
  refine hfirst.trans ?_
  by_cases hb : isStar b = true
  · rw [if_pos hb, if_pos hb]
    refine (congrArg (Option.map (· + 1)) hseq).trans ?_
    by_cases h : (s.dropWhile isStar).head? = some '/'.toUInt8
    · rw [if_pos h, if_pos h]
      rfl
    · rw [if_neg h, if_neg h]
      rfl
  · rw [if_neg hb, if_neg hb]

theorem longest_xcinside (b : UInt8) (s : List UInt8) :
    xcinside.longest (b :: s) =
      if b ∈ bytes ['*', '/'] then none else some (plainRun (b :: s)).length := by
  rw [xcinside, noneOf, longest_plus_one]
  by_cases hb : b ∈ bytes ['*', '/']
  · simp [hb]
  · rw [if_neg hb, if_pos (by simp [hb]), plainRun]

theorem longest_stars (b : UInt8) (s : List UInt8) :
    stars.longest (b :: s) = if isStar b then some (starRun (b :: s)).length else none :=
  longest_plus_one isStar b s

theorem longest_opChar (b : UInt8) (s : List UInt8) :
    opChar.longest (b :: s) = if isOpChar b then some 1 else none := longest_one _ _ _

/-- A nested opening is matched with all operator characters behind it. -/
theorem matched_xc_nest (hcondition : state.condition = .xc)
    (hrest : text.drop state.position = '/'.toUInt8 :: '*'.toUInt8 :: s) :
    matched text state =
      some ((.nestComment : Action κ), (opRun (text.drop state.position)).length) := by
  rw [matched, hcondition, rules, hrest]
  refine selectRule_cons ((longest_xcstart _).trans (if_pos ⟨s, rfl⟩)) fun entry hentry m hm => ?_
  have hrun : 1 ≤ (opRun ('/'.toUInt8 :: '*'.toUInt8 :: s)).length := by
    rw [opRun, takeWhile_cons_of_pos (by decide)]
    exact Nat.succ_le_succ (Nat.zero_le _)
  simp only [mem_cons, not_mem_nil, or_false] at hentry
  rcases hentry with rfl | rfl | rfl | rfl
  · exact absurd (hm.symm.trans (longest_xcstop _ _)) (by rw [if_neg (by decide)]; simp)
  · exact absurd (hm.symm.trans (longest_xcinside _ _)) (by rw [if_pos (by decide)]; simp)
  · rw [longest_opChar, if_pos (by decide)] at hm
    exact Option.some.inj hm ▸ hrun
  · exact absurd (hm.symm.trans (longest_stars _ _)) (by rw [if_neg (by decide)]; simp)

theorem longest_xcstart_none (h : ¬ (b = '/'.toUInt8 ∧ s.head? = some '*'.toUInt8)) :
    xcstart.longest (b :: s) = none := by
  rw [longest_xcstart, if_neg]
  rintro ⟨s', hs'⟩
  obtain ⟨rfl, rfl⟩ := List.cons.inj hs'
  exact h ⟨rfl, rfl⟩

section

variable (hcondition : state.condition = .xc)

include hcondition

/-- A slash that opens nothing is skipped. -/
theorem matched_xc_slash (hrest : text.drop state.position = '/'.toUInt8 :: s)
    (hs : s.head? ≠ some '*'.toUInt8) : matched text state = some ((.skip : Action κ), 1) := by
  rw [matched, hcondition, rules, hrest, xcRules,
    selectRule_cons_none (longest_xcstart_none fun h => hs h.2),
    selectRule_cons_none ((longest_xcstop _ _).trans (if_neg (by decide))),
    selectRule_cons_none ((longest_xcinside _ _).trans (if_pos (by decide)))]
  refine selectRule_cons ((longest_opChar _ _).trans (if_pos (by decide))) fun entry hentry m hm => ?_
  obtain rfl := mem_singleton.mp hentry
  exact absurd (hm.symm.trans (longest_stars _ _)) (by rw [if_neg (by decide)]; simp)

theorem matched_xc_close (hrest : text.drop state.position = '*'.toUInt8 :: s)
    (hs : (s.dropWhile isStar).head? = some '/'.toUInt8) :
    matched text state = some ((.closeComment : Action κ), (starRun s).length + 2) := by
  rw [matched, hcondition, rules, hrest, xcRules,
    selectRule_cons_none (longest_xcstart_none fun h => absurd h.1 (by decide))]
  refine selectRule_cons ?_ fun entry hentry m hm => ?_
  · rw [longest_xcstop, if_pos (by decide), if_pos hs]
  simp only [mem_cons, not_mem_nil, or_false] at hentry
  rcases hentry with rfl | rfl | rfl
  · exact absurd (hm.symm.trans (longest_xcinside _ _)) (by rw [if_pos (by decide)]; simp)
  · rw [longest_opChar, if_pos (by decide)] at hm
    have hone := Option.some.inj hm
    omega
  · have hstar : isStar '*'.toUInt8 = true := by decide
    rw [longest_stars, if_pos hstar, starRun, takeWhile_cons_of_pos hstar] at hm
    have hlength : (s.takeWhile isStar).length + 1 = m := Option.some.inj hm
    rw [starRun]
    omega

theorem matched_xc_stars (hrest : text.drop state.position = '*'.toUInt8 :: s)
    (hs : (s.dropWhile isStar).head? ≠ some '/'.toUInt8) :
    matched text state = some ((.skip : Action κ), (starRun s).length + 1) := by
  have hstar : isStar '*'.toUInt8 = true := by decide
  have hlong : stars.longest ('*'.toUInt8 :: s) = some ((starRun s).length + 1) := by
    rw [longest_stars, if_pos hstar, starRun, takeWhile_cons_of_pos hstar]
    rfl
  have hlast : selectRule [((.skip : Action κ), stars)] ('*'.toUInt8 :: s) =
      some (.skip, (starRun s).length + 1) := selectRule_cons hlong (by simp)
  rw [matched, hcondition, rules, hrest, xcRules,
    selectRule_cons_none (longest_xcstart_none fun h => absurd h.1 (by decide)),
    selectRule_cons_none ((longest_xcstop _ _).trans ((if_pos hstar).trans (if_neg hs))),
    selectRule_cons_none ((longest_xcinside _ _).trans (if_pos (by decide))), selectRule,
    longest_opChar, if_pos (by decide), hlast]
  -- Of two rules that skip a single star the first is chosen.
  by_cases hmore : 1 < (starRun s).length + 1
  · exact if_pos hmore
  · refine (if_neg hmore).trans ?_
    rw [show (starRun s).length + 1 = 1 by omega]

/-- Everything up to the next star or slash is skipped. -/
theorem matched_xc_inside (hrest : text.drop state.position = b :: s) (hb : b ∉ bytes ['*', '/']) :
    matched text state = some ((.skip : Action κ), (plainRun (b :: s)).length) := by
  have hstar : isStar b = false := by
    refine decide_eq_false fun h => hb ?_
    rw [mem_singleton.mp h]
    decide
  have hslash : ¬ (b = '/'.toUInt8 ∧ s.head? = some '*'.toUInt8) := by
    rintro ⟨rfl, -⟩
    exact hb (by decide)
  have hrun : 1 ≤ (plainRun (b :: s)).length := by
    rw [plainRun, takeWhile_cons_of_pos (by simp [hb])]
    exact Nat.succ_le_succ (Nat.zero_le _)
  rw [matched, hcondition, rules, hrest, xcRules,
    selectRule_cons_none (longest_xcstart_none hslash),
    selectRule_cons_none ((longest_xcstop _ _).trans (if_neg (by simp [hstar])))]
  refine selectRule_cons ((longest_xcinside _ _).trans (if_neg hb)) fun entry hentry m hm => ?_
  simp only [mem_cons, not_mem_nil, or_false] at hentry
  rcases hentry with rfl | rfl
  · rw [longest_opChar] at hm
    split_ifs at hm
    exact Option.some.inj hm ▸ hrun
  · exact absurd (hm.symm.trans (longest_stars _ _)) (by simp [hstar])

end

end DashQL.Scanner
