import DashQL.Scanner.LineBreaks

/-!
# What the steps of a run keep

The steps that skip a match, open a comment and close one, and what every step keeps: recorded
comments stay (`reaches_comments`), so that one comment at most is recorded next
(`RecordsNext.unique`); outside of block comments the depth is zero (`depth_of_reaches`); and the
extended rule that is active began in front of the position (`behind_of_reaches`).
-/

namespace DashQL.Scanner

open List

open Pattern

variable {κ : Type*} {findKeyword : List UInt8 → Option κ} {text : List UInt8}
  {state next final : State κ} {action : Action κ} {n : ℕ}

/-- Two states of the scanner differ in the position and in the recorded line breaks only. -/
structure SameButPosition (state next : State κ) : Prop where
  condition : next.condition = state.condition
  extBegin : next.extBegin = state.extBegin
  extDepth : next.extDepth = state.extDepth
  symbols : next.symbols = state.symbols
  comments : next.comments = state.comments

def RecordsNext (findKeyword : List UInt8 → Option κ) (text : List UInt8) (state : State κ)
    (comment : SymbolSpan) : Prop :=
  ∃ next more, Reaches findKeyword text state next ∧
    next.comments = state.comments ++ comment :: more

namespace SameButPosition

theorem refl (state : State κ) : SameButPosition state state := ⟨rfl, rfl, rfl, rfl, rfl⟩

theorem trans (h : SameButPosition state next) (h' : SameButPosition next final) :
    SameButPosition state final :=
  ⟨h'.condition.trans h.condition, h'.extBegin.trans h.extBegin, h'.extDepth.trans h.extDepth,
    h'.symbols.trans h.symbols, h'.comments.trans h.comments⟩

theorem isScanning (h : SameButPosition state next) :
    Scanner.isScanning next = Scanner.isScanning state := isScanning_congr h.symbols

end SameButPosition

/-! ## Steps -/

theorem take_length (h : matched text state = some (action, n)) :
    ((text.drop state.position).take n).length = n := by
  obtain ⟨-, -, -, hlength, -⟩ := matched_spec h
  exact hlength

theorem step_skip (findKeyword : List UInt8 → Option κ) (hlt : state.position < text.length)
    (h : matched text state = some (.skip, n)) :
    ∃ next, step findKeyword text state = .ok next ∧ SameButPosition state next ∧
      next.position = state.position + n := by
  refine ⟨_, step_eq_act findKeyword hlt h, ⟨rfl, rfl, rfl, rfl, rfl⟩, ?_⟩
  exact congrArg (state.position + ·) (take_length h)

/-- What an opening leaves behind. -/
structure Opened (state next : State κ) (n : ℕ) : Prop where
  condition : next.condition = .xc
  extBegin : next.extBegin = ⟨state.position, n⟩
  extDepth : next.extDepth = state.extDepth + 1
  symbols : next.symbols = state.symbols
  comments : next.comments = state.comments
  position : next.position = state.position + n

theorem step_open (findKeyword : List UInt8 → Option κ) (hlt : state.position < text.length)
    (h : matched text state = some (.openComment, n)) :
    ∃ next, step findKeyword text state = .ok next ∧ Opened state next n := by
  have hlength := take_length h
  refine ⟨_, step_eq_act findKeyword hlt h, rfl, ?_, rfl, rfl, rfl, ?_⟩
  · exact congrArg (SymbolSpan.mk state.position) hlength
  · exact congrArg (state.position + ·) hlength

theorem step_nest (findKeyword : List UInt8 → Option κ) (hlt : state.position < text.length)
    (hcondition : state.condition = .xc) (h : matched text state = some (.nestComment, n)) :
    ∃ next, step findKeyword text state = .ok next ∧ Opened state next n := by
  have hlength := take_length h
  refine ⟨_, step_eq_act findKeyword hlt h, hcondition, ?_, rfl, rfl, rfl, ?_⟩
  · exact congrArg (SymbolSpan.mk state.position) hlength
  · exact congrArg (state.position + ·) hlength

theorem step_close_inner (findKeyword : List UInt8 → Option κ) (hlt : state.position < text.length)
    (h : matched text state = some (.closeComment, n)) (hdepth : state.extDepth - 1 ≠ 0) :
    ∃ next, step findKeyword text state = .ok next ∧ next.condition = state.condition ∧
      next.extBegin = state.extBegin ∧ next.extDepth = state.extDepth - 1 ∧
      next.symbols = state.symbols ∧ next.comments = state.comments ∧
      next.position = state.position + n := by
  refine ⟨_, (step_eq_act findKeyword hlt h).trans (if_neg hdepth), rfl, rfl, rfl, rfl, rfl, ?_⟩
  exact congrArg (state.position + ·) (take_length h)

theorem step_close_outer (findKeyword : List UInt8 → Option κ) (hlt : state.position < text.length)
    (h : matched text state = some (.closeComment, n)) (hdepth : state.extDepth - 1 = 0) :
    ∃ next, step findKeyword text state = .ok next ∧ next.condition = .initial ∧
      next.extDepth = 0 ∧ next.symbols = state.symbols ∧
      next.comments = state.comments ++ [loc state.extBegin ⟨state.position, n⟩] ∧
      next.position = state.position + n := by
  have hlength := take_length h
  refine ⟨_, (step_eq_act findKeyword hlt h).trans (if_pos hdepth), rfl, hdepth, rfl, ?_, ?_⟩
  · exact congrArg (fun m => state.comments ++ [loc state.extBegin ⟨state.position, m⟩]) hlength
  · exact congrArg (state.position + ·) hlength

theorem Reaches.head {mid : State κ} (hscan : isScanning state = true)
    (hstep : step findKeyword text state = .ok mid) (h : Reaches findKeyword text mid next) :
    Reaches findKeyword text state next := Relation.ReflTransGen.head ⟨hscan, hstep⟩ h

theorem xcRules_cases {p : Pattern UInt8} (h : (action, p) ∈ (xcRules : List (Action κ × _))) :
    action = .nestComment ∨ action = .closeComment ∨ action = .skip := by
  simp only [xcRules, mem_cons, not_mem_nil, or_false, Prod.mk.injEq] at h
  rcases h with ⟨h, -⟩ | ⟨h, -⟩ | ⟨h, -⟩ | ⟨h, -⟩ | ⟨h, -⟩
  · exact Or.inl h
  · exact Or.inr (Or.inl h)
  all_goals exact Or.inr (Or.inr h)

/-! ## Recorded comments stay -/

theorem act_comments {yytext : List UInt8} (h : act findKeyword text action yytext state = .ok next) :
    state.comments <+: next.comments := by
  cases action with
  | readOperator =>
    by_cases hunreachable : Unreachable yytext
    · rw [act, operatorAction_error hunreachable] at h
      cases h
    · obtain ⟨kind, errors, -, heq⟩ := operatorAction_eq hunreachable state
      obtain rfl := Except.ok.inj (heq.symm.trans h)
      exact List.prefix_rfl
  | addComment =>
    obtain rfl := Except.ok.inj h
    exact List.prefix_append _ _
  | closeComment =>
    unfold act at h
    dsimp only at h
    split_ifs at h
    · obtain rfl := Except.ok.inj h
      exact List.prefix_append _ _
    · obtain rfl := Except.ok.inj h
      exact List.prefix_rfl
  | closeIdentifier quote message =>
    unfold act at h
    dsimp only at h
    obtain rfl := Except.ok.inj h
    split_ifs
    · exact List.prefix_rfl
    · exact List.prefix_rfl
  | _ =>
    obtain rfl := Except.ok.inj h
    exact List.prefix_rfl

theorem step_comments (h : step findKeyword text state = .ok next) :
    state.comments <+: next.comments := by
  by_cases hlt : state.position < text.length
  · obtain ⟨action, n, hmatch, -⟩ := exists_matched (κ := κ) hlt
    rw [step_eq_act findKeyword hlt hmatch] at h
    have hprefix := act_comments h
    exact hprefix
  · rw [step_of_end (Nat.not_lt.mp hlt)] at h
    obtain rfl := Except.ok.inj h
    rw [endOfText]
    split
    · exact List.prefix_rfl
    · exact List.prefix_rfl

theorem reaches_comments (h : Reaches findKeyword text state next) :
    state.comments <+: next.comments := by
  induction h with
  | refl => exact List.prefix_rfl
  | tail _ hstep ih => exact ih.trans (step_comments hstep.2)

/-- Of two states that a run comes to, one is reached from the other. -/
theorem reaches_total {mid : State κ} (h : Reaches findKeyword text state next)
    (h' : Reaches findKeyword text state mid) :
    Reaches findKeyword text next mid ∨ Reaches findKeyword text mid next := by
  refine Relation.ReflTransGen.total_of_right_unique ?_ h h'
  intro a b c hb hc
  exact Except.ok.inj (hb.2.symm.trans hc.2)

theorem RecordsNext.unique {comment comment' : SymbolSpan}
    (h : RecordsNext findKeyword text state comment)
    (h' : RecordsNext findKeyword text state comment') : comment = comment' := by
  have hsame : ∀ {c c' : SymbolSpan} {more more' : List SymbolSpan},
      state.comments ++ c :: more <+: state.comments ++ c' :: more' → c = c' :=
    fun hpre => (List.cons_prefix_cons.mp ((List.prefix_append_right_inj _).mp hpre)).1
  obtain ⟨next, more, hreach, hcomments⟩ := h
  obtain ⟨next', more', hreach', hcomments'⟩ := h'
  rcases reaches_total hreach hreach' with hforth | hback
  · exact hsame (hcomments ▸ hcomments' ▸ reaches_comments hforth)
  · exact (hsame (hcomments ▸ hcomments' ▸ reaches_comments hback)).symm

/-- A run that ends without another comment records none. -/
theorem not_recordsNext_of_end {comment : SymbolSpan} (h : Reaches findKeyword text state next)
    (hend : isScanning next = false) (hnext : next.comments = state.comments) :
    ¬ RecordsNext findKeyword text state comment := by
  rintro ⟨mid, more, hmid, hcomments⟩
  have hprefix := reaches_comments (reaches_of_reaches h hend hmid)
  rw [hcomments, hnext] at hprefix
  exact absurd hprefix.length_le (by simp)

theorem recordsNext_of_reaches {mid : State κ} {comment : SymbolSpan}
    (h : RecordsNext findKeyword text state comment) (hmid : Reaches findKeyword text state mid)
    (hsame : mid.comments = state.comments) : RecordsNext findKeyword text mid comment := by
  obtain ⟨next, more, hnext, hcomments⟩ := h
  rcases reaches_total hnext hmid with hback | hforth
  · have hprefix := reaches_comments hback
    rw [hcomments, hsame] at hprefix
    exact absurd hprefix.length_le (by simp)
  · exact ⟨next, more, hforth, hsame.symm ▸ hcomments⟩

/-! ## The depth outside of comments -/

/-- A rule outside of block comments neither goes deeper nor comes out of one, and only the rule for
the opening begins one. -/
def leavesDepth (entry : Action κ × Pattern UInt8) : Bool :=
  match entry.1 with
  | .nestComment => false
  | .closeComment => false
  | .beginExtended condition => !decide (condition = .xc)
  | _ => true

theorem rules_leavesDepth {condition : StartCondition} (h : condition ≠ .xc) :
    (rules condition : List (Action κ × Pattern UInt8)).all leavesDepth = true := by
  cases condition with
  | xc => exact absurd rfl h
  | _ => rfl

/-- Before the end of the text the depth is zero outside of block comments. -/
def DepthFits (text : List UInt8) (state : State κ) : Prop :=
  text.length ≤ state.position ∨
    (state.condition = .xc → 1 ≤ state.extDepth) ∧ (state.condition ≠ .xc → state.extDepth = 0)

theorem act_depth {yytext : List UInt8} {p : Pattern UInt8}
    (h : act findKeyword text action yytext state = .ok next) (hcondition : state.condition ≠ .xc)
    (hdepth : state.extDepth = 0)
    (hp : (action, p) ∈ (rules state.condition : List (Action κ × Pattern UInt8))) :
    (next.condition = .xc → 1 ≤ next.extDepth) ∧ (next.condition ≠ .xc → next.extDepth = 0) := by
  have hleaves := all_eq_true.mp (rules_leavesDepth hcondition) _ hp
  have hsame : next.condition = state.condition → next.extDepth = state.extDepth →
      (next.condition = .xc → 1 ≤ next.extDepth) ∧ (next.condition ≠ .xc → next.extDepth = 0) :=
    fun hcond hext => ⟨fun hxc => absurd (hcond.symm.trans hxc) hcondition, fun _ => hext.trans hdepth⟩
  have hback : next.condition = .initial → next.extDepth = state.extDepth →
      (next.condition = .xc → 1 ≤ next.extDepth) ∧ (next.condition ≠ .xc → next.extDepth = 0) :=
    fun hcond hext => ⟨fun hxc => absurd (hcond.symm.trans hxc) (by decide), fun _ => hext.trans hdepth⟩
  cases action with
  | nestComment => exact absurd hleaves Bool.false_ne_true
  | closeComment => exact absurd hleaves Bool.false_ne_true
  | beginExtended condition =>
    obtain rfl := Except.ok.inj h
    refine ⟨fun hxc => ?_, fun _ => hdepth⟩
    rw [leavesDepth, Bool.not_eq_true', decide_eq_false_iff_not] at hleaves
    exact absurd hxc hleaves
  | openComment =>
    obtain rfl := Except.ok.inj h
    exact ⟨fun _ => Nat.succ_pos _, fun hne => absurd rfl hne⟩
  | readOperator =>
    by_cases hunreachable : Unreachable yytext
    · rw [act, operatorAction_error hunreachable] at h
      cases h
    · obtain ⟨kind, errors, -, heq⟩ := operatorAction_eq hunreachable state
      obtain rfl := Except.ok.inj (heq.symm.trans h)
      exact hsame rfl rfl
  | closeLiteral kind =>
    obtain rfl := Except.ok.inj h
    exact hback rfl rfl
  | failLiteral kind =>
    obtain rfl := Except.ok.inj h
    exact hback rfl rfl
  | closeIdentifier quote message =>
    unfold act at h
    dsimp only at h
    obtain rfl := Except.ok.inj h
    refine hback rfl ?_
    split_ifs
    · rfl
    · rfl
  | _ =>
    obtain rfl := Except.ok.inj h
    exact hsame rfl rfl

theorem depth_of_reaches (h : Reaches findKeyword text {} state) : DepthFits text state := by
  induction h with
  | refl => exact Or.inr ⟨fun h => absurd h (by simp), fun _ => rfl⟩
  | @tail state next _ hstep ih =>
    by_cases hlt : state.position < text.length
    · obtain ⟨hxc, hother⟩ := ih.resolve_left (Nat.not_le.mpr hlt)
      obtain ⟨action, n, hmatch, -⟩ := exists_matched (κ := κ) hlt
      obtain ⟨p, hp, -⟩ := matched_spec hmatch
      by_cases hcondition : state.condition = .xc
      · rw [hcondition] at hp
        rcases xcRules_cases hp with rfl | rfl | rfl
        · obtain ⟨mid, hmid, hopened⟩ := step_nest findKeyword hlt hcondition hmatch
          obtain rfl := Except.ok.inj (hmid.symm.trans hstep.2)
          refine Or.inr ⟨fun _ => ?_, fun hne => absurd hopened.condition hne⟩
          rw [hopened.extDepth]
          exact Nat.succ_pos _
        · by_cases hdepth : state.extDepth - 1 = 0
          · obtain ⟨mid, hmid, hcond, hzero, -⟩ := step_close_outer findKeyword hlt hmatch hdepth
            obtain rfl := Except.ok.inj (hmid.symm.trans hstep.2)
            exact Or.inr ⟨fun hxc => absurd (hcond.symm.trans hxc) (by decide), fun _ => hzero⟩
          · obtain ⟨mid, hmid, hcond, -, hext, -⟩ :=
              step_close_inner findKeyword hlt hmatch hdepth
            obtain rfl := Except.ok.inj (hmid.symm.trans hstep.2)
            exact Or.inr ⟨fun _ => by omega, fun hne => absurd (hcond.trans hcondition) hne⟩
        · obtain ⟨mid, hmid, hsame, -⟩ := step_skip findKeyword hlt hmatch
          obtain rfl := Except.ok.inj (hmid.symm.trans hstep.2)
          refine Or.inr ⟨fun _ => hsame.extDepth ▸ hxc hcondition, fun hne => ?_⟩
          exact absurd (hsame.condition.trans hcondition) hne
      · have hact := (step_eq_act findKeyword hlt hmatch).symm.trans hstep.2
        have hfits := act_depth hact hcondition (hother hcondition) hp
        exact Or.inr hfits
    · obtain rfl := Except.ok.inj ((step_of_end (Nat.not_lt.mp hlt)).symm.trans hstep.2)
      exact Or.inl ((Nat.not_lt.mp hlt).trans (endOfText_spec state).1.ge)

/-! ## What lies in front of the position -/

/-- A state that is reached from a position outside of the extended rules: the extended rule that is
active began behind that position and has not ended, and so did the comments recorded since then. -/
structure Behind (start : ℕ) (old : List SymbolSpan) (state : State κ) : Prop where
  start_le : start ≤ state.position
  extBegin : state.condition ≠ .initial → start ≤ state.extBegin.offset ∧
    state.extBegin.offset + state.extBegin.length ≤ state.position
  comments : ∃ more, state.comments = old ++ more ∧ ∀ comment ∈ more, start ≤ comment.offset

variable {old : List SymbolSpan}

theorem Behind.of_same {start : ℕ} (h : Behind start old state)
    (hposition : state.position ≤ next.position)
    (hcondition : next.condition = state.condition ∧ next.extBegin = state.extBegin ∨
      next.condition = .initial) (hcomments : next.comments = state.comments) :
    Behind start old next := by
  refine ⟨h.start_le.trans hposition, fun hne => ?_, hcomments.symm ▸ h.comments⟩
  rcases hcondition with ⟨hcond, hext⟩ | hinitial
  · obtain ⟨hle, hend⟩ := h.extBegin (hcond ▸ hne)
    exact hext.symm ▸ ⟨hle, hend.trans hposition⟩
  · exact absurd hinitial hne

theorem Behind.of_begin {start length : ℕ} (h : Behind start old state)
    (hposition : next.position = state.position + length)
    (hext : next.extBegin = ⟨state.position, length⟩) (hcomments : next.comments = state.comments) :
    Behind start old next := by
  refine ⟨h.start_le.trans (by omega), fun _ => ?_, hcomments.symm ▸ h.comments⟩
  rw [hext]
  exact ⟨h.start_le, hposition.ge⟩

theorem Behind.of_comment {start : ℕ} {comment : SymbolSpan} (h : Behind start old state)
    (hposition : state.position ≤ next.position)
    (hcondition : next.condition = state.condition ∧ next.extBegin = state.extBegin ∨
      next.condition = .initial) (hcomments : next.comments = state.comments ++ [comment])
    (hstart : start ≤ comment.offset) : Behind start old next := by
  obtain ⟨more, hmore, hoffsets⟩ := h.comments
  have hbehind : Behind start old { next with comments := state.comments } :=
    h.of_same hposition hcondition rfl
  refine ⟨hbehind.start_le, hbehind.extBegin, more ++ [comment], ?_, ?_⟩
  · rw [hcomments, hmore, append_assoc]
  · intro c hc
    rcases mem_append.mp hc with hc | hc
    · exact hoffsets c hc
    · exact mem_singleton.mp hc ▸ hstart

theorem step_behind {start : ℕ} (hscan : isScanning state = true) (h : Behind start old state)
    (hstep : step findKeyword text state = .ok next) : Behind start old next := by
  by_cases hlt : state.position < text.length
  · obtain ⟨action, n, hmatch, hn⟩ := exists_matched (κ := κ) hlt
    obtain ⟨p, hp, -, hlength, -⟩ := matched_spec hmatch
    have hact := (step_eq_act findKeyword hlt hmatch).symm.trans hstep
    obtain ⟨k, -, -, hposition, -⟩ := act_spec hmatch hn rfl (s := state.addLineBreaks _) hscan hact
    have hle : state.position ≤ next.position := hposition.symm ▸ Nat.le_add_right _ _
    cases action with
    | addComment =>
      obtain rfl := Except.ok.inj hact
      exact h.of_comment hle (Or.inl ⟨rfl, rfl⟩) rfl h.start_le
    | closeComment =>
      have hxc : state.condition = .xc := by
        by_contra hne
        exact absurd (all_eq_true.mp (rules_leavesDepth hne) _ hp) Bool.false_ne_true
      by_cases hdepth : state.extDepth - 1 = 0
      · obtain ⟨mid, hmid, hcond, -, -, hcomments, -⟩ :=
          step_close_outer findKeyword hlt hmatch hdepth
        obtain rfl := Except.ok.inj (hmid.symm.trans hstep)
        refine h.of_comment hle (Or.inr hcond) hcomments ?_
        exact le_min (h.extBegin (by rw [hxc]; decide)).1 h.start_le
      · obtain ⟨mid, hmid, hcond, hext, -, -, hcomments, -⟩ :=
          step_close_inner findKeyword hlt hmatch hdepth
        obtain rfl := Except.ok.inj (hmid.symm.trans hstep)
        exact h.of_same hle (Or.inl ⟨hcond, hext⟩) hcomments
    | beginExtended condition =>
      obtain rfl := Except.ok.inj hact
      exact h.of_begin rfl rfl rfl
    | openComment =>
      obtain rfl := Except.ok.inj hact
      exact h.of_begin rfl rfl rfl
    | nestComment =>
      obtain rfl := Except.ok.inj hact
      exact h.of_begin rfl rfl rfl
    | readOperator =>
      by_cases hunreachable : Unreachable ((text.drop state.position).take n)
      · rw [act, operatorAction_error hunreachable] at hact
        cases hact
      · obtain ⟨kind, errors, -, heq⟩ := operatorAction_eq hunreachable
          (state.addLineBreaks ((text.drop state.position).take n))
        obtain rfl := Except.ok.inj (heq.symm.trans hact)
        exact h.of_same hle (Or.inl ⟨rfl, rfl⟩) rfl
    | closeLiteral kind =>
      obtain rfl := Except.ok.inj hact
      exact h.of_same hle (Or.inr rfl) rfl
    | failLiteral kind =>
      obtain rfl := Except.ok.inj hact
      exact h.of_same hle (Or.inr rfl) rfl
    | closeIdentifier quote message =>
      unfold act at hact
      dsimp only at hact
      obtain rfl := Except.ok.inj hact
      refine h.of_same hle (Or.inr rfl) ?_
      split_ifs
      · rfl
      · rfl
    | _ =>
      obtain rfl := Except.ok.inj hact
      exact h.of_same hle (Or.inl ⟨rfl, rfl⟩) rfl
  · obtain rfl := Except.ok.inj ((step_of_end (Nat.not_lt.mp hlt)).symm.trans hstep)
    rw [endOfText]
    split
    · exact h.of_same le_rfl (Or.inr rfl) rfl
    · exact h.of_same le_rfl (Or.inl ⟨rfl, rfl⟩) rfl

/-- What is reached from a state outside of the extended rules lies behind it. -/
theorem behind_of_reaches (hinitial : state.condition = .initial)
    (h : Reaches findKeyword text state next) :
    Behind state.position state.comments next := by
  induction h with
  | refl =>
    exact ⟨le_rfl, fun hne => absurd hinitial hne, [], (append_nil _).symm, by simp⟩
  | tail _ hstep ih => exact step_behind hstep.1 ih hstep.2

theorem RecordsNext.offset_ge {comment : SymbolSpan}
    (h : RecordsNext findKeyword text state comment) (hinitial : state.condition = .initial) :
    state.position ≤ comment.offset := by
  obtain ⟨next, more, hreach, hcomments⟩ := h
  obtain ⟨more', hmore, hoffsets⟩ := (behind_of_reaches hinitial hreach).comments
  rw [hcomments] at hmore
  exact hoffsets comment (append_cancel_left hmore ▸ mem_cons_self)

end DashQL.Scanner
