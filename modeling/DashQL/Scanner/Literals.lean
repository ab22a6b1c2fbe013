import DashQL.Scanner.BlockComments

/-!
# Quoted literals

The closing quote of a literal is matched together with the spaces and line comments behind it, of
which only trailing spaces and newlines are trimmed off the location again.  So the location ends at
the quote (`literal_length_iff`), and the comments up to the next symbol (`Gap`) are recorded, exactly
when nothing but spaces and newlines was matched with the quote, or the quote was matched with a
single minus behind it and everything behind the quote is scanned again, and every block comment in
the gap is kept (`literal_iff`).
-/

namespace DashQL.Scanner

open List Option

open Pattern

variable {κ : Type*} {findKeyword : List UInt8 → Option κ} {text : List UInt8}
  {state next final : State κ} {action : Action κ} {kind : SymbolKind κ} {n m p q : ℕ}
  {comments : List SymbolSpan}

/-- Neither a space nor a comment stands at a position. -/
def GapEnds (text : List UInt8) (p : ℕ) : Prop :=
  (∀ b, (text.drop p).head? = some b → isSpace b = false) ∧
    ¬ bytes ['-', '-'] <+: text.drop p ∧ ∀ n, ¬ BlockAt text p n

/-- Between two positions there are only spaces and comments, with the comments that there are. -/
inductive Gap (text : List UInt8) : ℕ → List SymbolSpan → ℕ → Prop
  | done {p : ℕ} (h : GapEnds text p) : Gap text p [] p
  | space {p q : ℕ} {comments : List SymbolSpan} {b : UInt8} (h : (text.drop p).head? = some b)
      (hb : isSpace b = true) (hrest : Gap text (p + 1) comments q) : Gap text p comments q
  | line {p q : ℕ} {comments : List SymbolSpan} (h : bytes ['-', '-'] <+: text.drop p)
      (hrest : Gap text (p + (lineComment (text.drop p)).length) comments q) :
      Gap text p (⟨p, (lineComment (text.drop p)).length⟩ :: comments) q
  | block {p q n : ℕ} {comments : List SymbolSpan} (h : BlockAt text p n)
      (hrest : Gap text (p + (n + 2)) comments q) : Gap text p (⟨p, n + 2⟩ :: comments) q

/-- The symbol for a literal ends at its closing quote, and the scanner goes on at the next symbol
with the comments in between recorded. -/
def LiteralRecorded (findKeyword : List UInt8 → Option κ) (text : List UInt8) (state : State κ)
    (kind : SymbolKind κ) (comments : List SymbolSpan) (q : ℕ) : Prop :=
  ∃ next last, step findKeyword text state = .ok next ∧
    next.symbols = state.symbols ++
      [⟨kind, ⟨state.extBegin.offset, state.position + 1 - state.extBegin.offset⟩⟩] ∧
    Reaches findKeyword text next last ∧ last.condition = .initial ∧ last.position = q ∧
    last.symbols = next.symbols ∧ last.comments = state.comments ++ comments

/-- The block comments among some comments are kept. -/
def BlocksKept (text : List UInt8) (comments : List SymbolSpan) : Prop :=
  ∀ comment ∈ comments, opening <+: text.drop comment.offset →
    CommentKept (text.drop (comment.offset + 2))

/-- Only spaces and newlines are matched with a closing quote. -/
def QuotePlain (text : List UInt8) (state : State κ) : Prop :=
  ∀ kind n, matched text state = some (.closeLiteral kind, n) →
    ∀ b ∈ (matchText text state n).drop 1, b ∈ bytes [' ', '\n']

/-! ## Gaps -/

theorem head_of_front {b : UInt8} {word s : List UInt8} (h : b :: word <+: s) :
    s.head? = some b := by
  obtain ⟨rest, rfl⟩ := h
  rfl

theorem position_lt_of_head {b : UInt8} (h : (text.drop p).head? = some b) : p < text.length := by
  by_contra hle
  rw [drop_eq_nil_of_le (Nat.not_lt.mp hle)] at h
  cases h

theorem lineComment_pos {s : List UInt8} (h : bytes ['-', '-'] <+: s) :
    1 ≤ (lineComment s).length :=
  (prefix_takeWhile h (by decide +kernel)).length_le.trans' (by decide)

/-- The spaces at the front of a gap can be left out. -/
theorem Gap.drop_spaces (h : Gap text p comments q) (hm : m ≤ (text.drop p).length)
    (hspace : ∀ b ∈ (text.drop p).take m, isSpace b = true) : Gap text (p + m) comments q := by
  induction m generalizing p with
  | zero => exact h
  | succ m ih =>
    obtain ⟨b, s, hs⟩ : ∃ b s, text.drop p = b :: s := by
      cases hrest : text.drop p with
      | nil => simp [hrest] at hm
      | cons b s => exact ⟨b, s, rfl⟩
    have hdrop : text.drop (p + 1) = s := by
      rw [← drop_drop, hs]
      rfl
    rw [hs] at hm hspace
    have hb : isSpace b = true := hspace b (by simp)
    have hrest : Gap text (p + 1) comments q := by
      cases h with
      | done h => exact absurd (hb.symm.trans (h.1 b (by rw [hs]; rfl))) (by simp)
      | space _ _ hrest => exact hrest
      | line h =>
        have hhead := head_of_front h
        rw [hs] at hhead
        obtain rfl := some.inj hhead
        exact absurd hb (by decide)
      | block h =>
        have hhead := head_of_front h.opens
        rw [hs] at hhead
        obtain rfl := some.inj hhead
        exact absurd hb (by decide)
    have hgap := ih hrest (by rw [hdrop]; exact Nat.le_of_succ_le_succ hm) (by
      rw [hdrop]
      exact fun c hc => hspace c (mem_cons_of_mem _ hc))
    rwa [Nat.add_assoc, Nat.add_comm 1] at hgap

theorem reaches_spaces (findKeyword : List UInt8 → Option κ) {b : UInt8}
    (hreach : Reaches findKeyword text {} state) (hinitial : state.condition = .initial)
    (h : (text.drop state.position).head? = some b) (hb : isSpace b = true)
    (hgap : Gap text state.position comments q) :
    ∃ next, Reaches findKeyword text state next ∧ SameButPosition state next ∧
      state.position < next.position ∧ Gap text next.position comments q := by
  have hlt := position_lt_of_head h
  obtain ⟨s, hs⟩ := head?_eq_some_iff.mp h
  have hmatch := matched_space (κ := κ) hinitial hs hb
  obtain ⟨next, hstep, hsame, hposition⟩ := step_skip findKeyword hlt hmatch
  have hprefix : (b :: s).takeWhile isSpace <+: text.drop state.position :=
    hs ▸ List.takeWhile_prefix _
  have hpos : 1 ≤ ((b :: s).takeWhile isSpace).length := by
    rw [takeWhile_cons_of_pos hb]
    exact Nat.succ_le_succ (Nat.zero_le _)
  refine ⟨next, Reaches.head (isScanning_of_lt hreach hlt) hstep .refl, hsame, by omega, ?_⟩
  rw [hposition]
  refine hgap.drop_spaces hprefix.length_le ?_
  rw [← List.prefix_iff_eq_take.mp hprefix]
  exact fun c hc => mem_takeWhile_imp hc

theorem reaches_line (findKeyword : List UInt8 → Option κ)
    (hreach : Reaches findKeyword text {} state) (hinitial : state.condition = .initial)
    (h : bytes ['-', '-'] <+: text.drop state.position) :
    ∃ next, Reaches findKeyword text state next ∧ next.condition = .initial ∧
      next.position = state.position + (lineComment (text.drop state.position)).length ∧
      next.symbols = state.symbols ∧ next.comments = state.comments ++
        [⟨state.position, (lineComment (text.drop state.position)).length⟩] := by
  have hlt := position_lt_of_head (head_of_front h)
  have hmatch := matched_comment (κ := κ) hinitial h
  have hlength := take_length hmatch
  refine ⟨_, Reaches.head (isScanning_of_lt hreach hlt) (step_eq_act findKeyword hlt hmatch) .refl,
    hinitial, congrArg (state.position + ·) hlength, rfl, ?_⟩
  exact congrArg (fun m => state.comments ++ [⟨state.position, m⟩]) hlength

/-- The scanner comes through a gap whose block comments are kept, and records its comments. -/
theorem reaches_gap (findKeyword : List UInt8 → Option κ) (d : ℕ)
    (hd : text.length - state.position = d) (hreach : Reaches findKeyword text {} state)
    (hinitial : state.condition = .initial) (hgap : Gap text state.position comments q)
    (hkept : BlocksKept text comments) :
    ∃ last, Reaches findKeyword text state last ∧ last.condition = .initial ∧ last.position = q ∧
      last.symbols = state.symbols ∧ last.comments = state.comments ++ comments := by
  induction d using Nat.strong_induction_on generalizing state comments with
  | _ d ih =>
    cases hgap with
    | done h => exact ⟨state, .refl, hinitial, rfl, rfl, (append_nil _).symm⟩
    | space h hb hrest =>
      have hlt := position_lt_of_head h
      obtain ⟨mid, hmid, hsame, hmoved, hgap'⟩ :=
        reaches_spaces findKeyword hreach hinitial h hb (.space h hb hrest)
      obtain ⟨last, hlast, hcond, hend, hsymbols, hcomments⟩ :=
        ih _ (by omega) rfl (hreach.trans hmid) (hsame.condition.trans hinitial) hgap' hkept
      exact ⟨last, hmid.trans hlast, hcond, hend, hsymbols.trans hsame.symbols,
        hsame.comments ▸ hcomments⟩
    | line h hrest =>
      have hlt := position_lt_of_head (head_of_front h)
      have hpos := lineComment_pos h
      obtain ⟨mid, hmid, hcond, hposition, hsymbols, hcomments⟩ :=
        reaches_line findKeyword hreach hinitial h
      obtain ⟨last, hlast, hcond', hend, hsymbols', hcomments'⟩ :=
        ih _ (by omega) rfl (hreach.trans hmid) hcond (hposition ▸ hrest)
          fun c hc => hkept c (mem_cons_of_mem _ hc)
      refine ⟨last, hmid.trans hlast, hcond', hend, hsymbols'.trans hsymbols, ?_⟩
      rw [hcomments', hcomments, append_assoc]
      rfl
    | block h hrest =>
      have hlt := position_lt_of_head (head_of_front h.opens)
      obtain ⟨mid, hmid, hcond, hposition, hcomments, hsymbols⟩ :=
        recorded_of_kept findKeyword hreach hinitial h (hkept _ mem_cons_self h.opens)
      obtain ⟨last, hlast, hcond', hend, hsymbols', hcomments'⟩ :=
        ih _ (by omega) rfl (hreach.trans hmid) hcond (hposition ▸ hrest)
          fun c hc => hkept c (mem_cons_of_mem _ hc)
      refine ⟨last, hmid.trans hlast, hcond', hend, hsymbols'.trans hsymbols, ?_⟩
      rw [hcomments', hcomments, append_assoc]
      rfl

def RecordsAll (findKeyword : List UInt8 → Option κ) (text : List UInt8) (state : State κ)
    (comments : List SymbolSpan) : Prop :=
  ∃ last more, Reaches findKeyword text state last ∧
    last.comments = state.comments ++ comments ++ more

theorem RecordsAll.later {mid : State κ} (first : List SymbolSpan) {rest : List SymbolSpan}
    (h : RecordsAll findKeyword text state (first ++ rest)) (hmid : Reaches findKeyword text state mid)
    (hcomments : mid.comments = state.comments ++ first) :
    rest = [] ∨ RecordsAll findKeyword text mid rest := by
  obtain ⟨last, more, hlast, hrecorded⟩ := h
  rcases reaches_total hmid hlast with hforth | hback
  · refine Or.inr ⟨last, more, hforth, ?_⟩
    rw [hrecorded, hcomments]
    simp
  · have hlength := (reaches_comments hback).length_le
    rw [hrecorded, hcomments] at hlength
    simp only [length_append] at hlength
    exact Or.inl (length_eq_zero_iff.mp (by omega))

theorem blocksKept_of_reaches (d : ℕ) (hd : text.length - state.position = d)
    (hreach : Reaches findKeyword text {} state) (hinitial : state.condition = .initial)
    (hgap : Gap text state.position comments q)
    (hlast : RecordsAll findKeyword text state comments) : BlocksKept text comments := by
  induction d using Nat.strong_induction_on generalizing state comments with
  | _ d ih =>
    cases hgap with
    | done h => exact fun c hc => absurd hc not_mem_nil
    | space h hb hrest =>
      have hlt := position_lt_of_head h
      obtain ⟨mid, hmid, hsame, hmoved, hgap'⟩ :=
        reaches_spaces findKeyword hreach hinitial h hb (.space h hb hrest)
      have hsameComments : mid.comments = state.comments ++ [] :=
        hsame.comments.trans (append_nil _).symm
      rcases RecordsAll.later [] hlast hmid hsameComments with rfl | hlast'
      · exact fun c hc => absurd hc not_mem_nil
      · exact ih _ (by omega) rfl (hreach.trans hmid) (hsame.condition.trans hinitial) hgap' hlast'
    | line h hrest =>
      have hlt := position_lt_of_head (head_of_front h)
      have hpos := lineComment_pos h
      obtain ⟨mid, hmid, hcond, hposition, -, hcomments⟩ :=
        reaches_line findKeyword hreach hinitial h
      refine forall_mem_cons.mpr ⟨fun hopen => ?_, ?_⟩
      · have hheads := (head_of_front h).symm.trans (head_of_front hopen)
        exact absurd hheads (by decide)
      · rcases RecordsAll.later [_] hlast hmid hcomments with rfl | hlast'
        · exact fun c hc => absurd hc not_mem_nil
        · exact ih _ (by omega) rfl (hreach.trans hmid) hcond (hposition ▸ hrest) hlast'
    | @block _ _ n _ h hrest =>
      have hlt := position_lt_of_head (head_of_front h.opens)
      have hnext : RecordsNext findKeyword text state ⟨state.position, n + 2⟩ := by
        obtain ⟨last, more, hreachLast, hrecorded⟩ := hlast
        exact ⟨last, _, hreachLast, hrecorded.trans (append_assoc _ _ _)⟩
      have hkept := kept_of_recordsNext hreach hinitial h hnext
      obtain ⟨mid, hmid, hcond, hposition, hcomments, -⟩ :=
        recorded_of_kept findKeyword hreach hinitial h hkept
      refine forall_mem_cons.mpr ⟨fun _ => hkept, ?_⟩
      rcases RecordsAll.later [_] hlast hmid hcomments with rfl | hlast'
      · exact fun c hc => absurd hc not_mem_nil
      · exact ih _ (by omega) rfl (hreach.trans hmid) hcond (hposition ▸ hrest) hlast'

/-! ## Closing quotes -/

/-- A rule is none for the closing quote of a literal, or its pattern starts with the quote. -/
def QuoteRule (condition : StartCondition) (entry : Action κ × Pattern UInt8) : Prop :=
  (∀ kind, entry.1 ≠ .closeLiteral kind ∧ entry.1 ≠ .failLiteral kind) ∨
    condition ≠ .initial ∧ ∃ r, entry.2 = literal (bytes quote) r

def leavesLiterals (entry : Action κ × Pattern UInt8) : Bool :=
  match entry.1 with
  | .closeLiteral _ => false
  | .failLiteral _ => false
  | _ => true

theorem quoteRule_of_leavesLiterals {condition : StartCondition} {entry : Action κ × Pattern UInt8}
    (h : leavesLiterals entry = true) : QuoteRule condition entry := by
  obtain ⟨action, p⟩ := entry
  refine Or.inl fun kind => ⟨?_, ?_⟩
  · rintro rfl
    exact Bool.false_ne_true h
  · rintro rfl
    exact Bool.false_ne_true h

theorem quoteRule_of_mem {condition : StartCondition} {entry : Action κ × Pattern UInt8}
    (h : entry ∈ (rules condition : List (Action κ × Pattern UInt8))) :
    QuoteRule condition entry := by
  have hall : ∀ {table : List (Action κ × Pattern UInt8)}, entry ∈ table →
      table.all leavesLiterals = true → QuoteRule condition entry :=
    fun hmem hall => quoteRule_of_leavesLiterals (all_eq_true.mp hall _ hmem)
  cases condition with
  | initial => exact hall h rfl
  | xbt => exact hall h rfl
  | xc => exact hall h rfl
  | xd => exact hall h rfl
  | xb =>
    simp only [rules, xbRules, mem_cons, not_mem_nil, or_false] at h
    rcases h with rfl | rfl | rfl | rfl
    · exact Or.inr ⟨by decide, _, rfl⟩
    · exact Or.inr ⟨by decide, _, rfl⟩
    · exact quoteRule_of_leavesLiterals rfl
    · exact quoteRule_of_leavesLiterals rfl
  | xh =>
    simp only [rules, xhRules, mem_cons, not_mem_nil, or_false] at h
    rcases h with rfl | rfl | rfl | rfl
    · exact quoteRule_of_leavesLiterals rfl
    · exact quoteRule_of_leavesLiterals rfl
    · exact Or.inr ⟨by decide, _, rfl⟩
    · exact Or.inr ⟨by decide, _, rfl⟩
  | xq =>
    simp only [rules, xqRules, mem_cons, not_mem_nil, or_false] at h
    rcases h with rfl | rfl | rfl | rfl
    · exact Or.inr ⟨by decide, _, rfl⟩
    · exact Or.inr ⟨by decide, _, rfl⟩
    · exact quoteRule_of_leavesLiterals rfl
    · exact quoteRule_of_leavesLiterals rfl

/-- How many characters are left when the spaces at the end are trimmed off. -/
theorem trimViewRight_length (front back : List UInt8) {b : UInt8} (hb : isNoSpace b = true) :
    (trimViewRight (front ++ b :: back) isNoSpace).length = front.length + 1 ↔
      ∀ c ∈ back, c ∈ bytes [' ', '\n'] := by
  have hspace : ∀ c, (!isNoSpace c) = true ↔ c ∈ bytes [' ', '\n'] := by
    intro c
    rw [isNoSpace, Bool.not_not, decide_eq_true_iff]
  rw [trimViewRight]
  induction back using List.reverseRecOn with
  | nil =>
    rw [rdropWhile_concat_neg (fun b => !isNoSpace b) front b (by simp [hb])]
    simp
  | append_singleton back c ih =>
    have hassoc : front ++ b :: (back ++ [c]) = (front ++ b :: back) ++ [c] := by simp
    rw [hassoc]
    by_cases hc : (!isNoSpace c) = true
    · rw [rdropWhile_concat_pos (fun b => !isNoSpace b) _ c hc]
      refine ih.trans ?_
      constructor
      · intro h d hd
        rcases mem_append.mp hd with hd | hd
        · exact h d hd
        · exact mem_singleton.mp hd ▸ (hspace c).mp hc
      · exact fun h d hd => h d (mem_append_left _ hd)
    · rw [rdropWhile_concat_neg (fun b => !isNoSpace b) _ c hc]
      refine iff_of_false ?_ fun h => hc ((hspace c).mpr (h c (by simp)))
      simp only [length_append, length_cons, length_nil]
      omega

/-- A state in which the closing quote of a literal is matched, with what is matched behind it. -/
structure AtQuote (text : List UInt8) (state : State κ) (back : List UInt8) : Prop where
  lt : state.position < text.length
  begin_le : state.extBegin.offset ≤ state.position
  begin_end : state.extBegin.offset + state.extBegin.length ≤ state.position
  quoted : ∃ rest, text.drop state.position = '\''.toUInt8 :: back ++ rest

theorem atQuote_of_reaches (hreach : Reaches findKeyword text {} state)
    (hmatch : matched text state = some (.closeLiteral kind, n) ∨
      matched text state = some (.failLiteral kind, n)) :
    AtQuote text state ((matchText text state n).drop 1) ∧
      n = ((matchText text state n).drop 1).length + 1 := by
  obtain ⟨action, hmatch, haction⟩ : ∃ action, matched text state = some (action, n) ∧
      (action = .closeLiteral kind ∨ action = .failLiteral kind) := by
    rcases hmatch with h | h
    · exact ⟨_, h, Or.inl rfl⟩
    · exact ⟨_, h, Or.inr rfl⟩
  obtain ⟨p, hp, hlong, hlength, -⟩ := matched_spec hmatch
  obtain ⟨hcondition, r, hr⟩ : state.condition ≠ .initial ∧ ∃ r, p = literal (bytes quote) r := by
    rcases quoteRule_of_mem hp with hnone | hquote
    · rcases haction with h | h
      · exact absurd h (hnone kind).1
      · exact absurd h (hnone kind).2
    · exact hquote
  have hprefix : bytes quote <+: text.drop state.position := by
    by_contra hnot
    rw [hr, longest_literal, if_neg hnot] at hlong
    cases hlong
  have hbehind := behind_of_reaches rfl hreach
  obtain ⟨-, hend⟩ := hbehind.extBegin hcondition
  obtain ⟨s, hs⟩ := head?_eq_some_iff.mp (head_of_front hprefix)
  have hpos : 1 ≤ n := by
    rw [hr, longest_literal, if_pos hprefix] at hlong
    obtain ⟨m, -, rfl⟩ := map_eq_some_iff.mp hlong
    exact Nat.le_add_left _ _
  obtain ⟨m, rfl⟩ := Nat.exists_eq_add_of_le hpos
  have hback : (matchText text state (1 + m)).drop 1 = s.take m := by
    rw [matchText, hs, Nat.add_comm, take_succ_cons]
    rfl
  rw [hback]
  refine ⟨⟨position_lt_of_head (head_of_front hprefix), by omega, hend, s.drop m, ?_⟩, ?_⟩
  · rw [hs, cons_append, take_append_drop]
  · rw [← hback, length_drop, matchText, hlength]
    omega

/-- The location of a literal whose match goes on behind its closing quote. -/
theorem readLiteral_of_quote {back : List UInt8} (h : AtQuote text state back) :
    readLiteral text (loc state.extBegin ⟨state.position, back.length + 1⟩) =
        ⟨state.extBegin.offset, state.position + 1 - state.extBegin.offset⟩ ↔
      ∀ b ∈ back, b ∈ bytes [' ', '\n'] := by
  obtain ⟨rest, hrest⟩ := h.quoted
  have hle := h.begin_le
  have hend := h.begin_end
  have hlt := h.lt
  have hbegin : state.extBegin = ⟨state.extBegin.offset, state.extBegin.length⟩ := rfl
  have htext : substr text ⟨state.extBegin.offset,
        state.position + (back.length + 1) - state.extBegin.offset⟩ =
      (text.drop state.extBegin.offset).take (state.position - state.extBegin.offset) ++
        '\''.toUInt8 :: back := by
    have hsplit : state.position + (back.length + 1) - state.extBegin.offset =
        (state.position - state.extBegin.offset) + (back.length + 1) := by omega
    have hquote : (text.drop state.position).take (back.length + 1) = '\''.toUInt8 :: back := by
      rw [hrest, ← length_cons, take_left]
    rw [substr, hsplit, take_add, drop_drop, Nat.add_sub_cancel' hle, hquote]
  have hfront : ((text.drop state.extBegin.offset).take
      (state.position - state.extBegin.offset)).length = state.position - state.extBegin.offset := by
    rw [length_take, length_drop]
    omega
  rw [hbegin, loc_of_begin hle (by omega), readLiteral, htext]
  have htrim := trimViewRight_length ((text.drop state.extBegin.offset).take
    (state.position - state.extBegin.offset)) back (b := '\''.toUInt8) (by decide)
  rw [hfront, show state.position - state.extBegin.offset + 1 =
    state.position + 1 - state.extBegin.offset by omega] at htrim
  rw [← htrim]
  exact ⟨fun h => congrArg SymbolSpan.length h, fun h => congrArg (SymbolSpan.mk _) h⟩

/-- The step at a closing quote with spaces and comments behind it. -/
theorem step_close_literal (findKeyword : List UInt8 → Option κ)
    (hlt : state.position < text.length) (h : matched text state = some (.closeLiteral kind, n)) :
    ∃ next, step findKeyword text state = .ok next ∧ next.condition = .initial ∧
      next.position = state.position + n ∧ next.comments = state.comments ∧
      next.symbols = state.symbols ++
        [⟨kind, readLiteral text (loc state.extBegin ⟨state.position, n⟩)⟩] := by
  have hlength := take_length h
  refine ⟨_, step_eq_act findKeyword hlt h, rfl, congrArg (state.position + ·) hlength, rfl, ?_⟩
  exact congrArg (fun m => state.symbols ++
    [⟨kind, readLiteral text (loc state.extBegin ⟨state.position, m⟩)⟩]) hlength

/-- The step at a closing quote with a single minus behind it. -/
theorem step_fail_literal (findKeyword : List UInt8 → Option κ)
    (hlt : state.position < text.length) (h : matched text state = some (.failLiteral kind, n)) :
    ∃ next, step findKeyword text state = .ok next ∧ next.condition = .initial ∧
      next.position = state.position + 1 ∧ next.comments = state.comments ∧
      next.symbols = state.symbols ++
        [⟨kind, readLiteral text (loc state.extBegin ⟨state.position, 1⟩)⟩] :=
  ⟨_, step_eq_act findKeyword hlt h, rfl, rfl, rfl, rfl⟩

/-- Behind a literal the scanner comes through a gap exactly when its block comments are kept. -/
theorem gap_iff (findKeyword : List UInt8 → Option κ) (hreach : Reaches findKeyword text {} state)
    (hinitial : state.condition = .initial) (hgap : Gap text state.position comments q) :
    (∃ last, Reaches findKeyword text state last ∧ last.condition = .initial ∧ last.position = q ∧
      last.symbols = state.symbols ∧ last.comments = state.comments ++ comments) ↔
      BlocksKept text comments := by
  constructor
  · rintro ⟨last, hlast, -, -, -, hcomments⟩
    exact blocksKept_of_reaches _ rfl hreach hinitial hgap
      ⟨last, [], hlast, hcomments.trans (append_nil _).symm⟩
  · exact reaches_gap findKeyword _ rfl hreach hinitial hgap

/-- What is left to show behind the step at a closing quote. -/
theorem literalRecorded_iff {location : SymbolSpan} (hstep : step findKeyword text state = .ok next)
    (hsymbols : next.symbols = state.symbols ++ [⟨kind, location⟩])
    (hcomments : next.comments = state.comments) :
    LiteralRecorded findKeyword text state kind comments q ↔
      location = ⟨state.extBegin.offset, state.position + 1 - state.extBegin.offset⟩ ∧
        ∃ last, Reaches findKeyword text next last ∧ last.condition = .initial ∧ last.position = q ∧
          last.symbols = next.symbols ∧ last.comments = next.comments ++ comments := by
  constructor
  · rintro ⟨next', last, hstep', hsymbols', hlast, hcond, hend, hsame, hrecorded⟩
    obtain rfl := Except.ok.inj (hstep.symm.trans hstep')
    have hsymbol := singleton_inj.mp (append_cancel_left (hsymbols.symm.trans hsymbols'))
    exact ⟨congrArg Symbol.location hsymbol, last, hlast, hcond, hend, hsame, hcomments ▸ hrecorded⟩
  · rintro ⟨rfl, last, hlast, hcond, hend, hsame, hrecorded⟩
    exact ⟨next, last, hstep, hsymbols, hlast, hcond, hend, hsame, hcomments ▸ hrecorded⟩

theorem spaces_isSpace : ∀ b ∈ bytes [' ', '\n'], isSpace b = true := by decide +kernel

/-- A literal ends at its closing quote and the comments behind it are recorded exactly when only
spaces and newlines are matched with the quote, or it is scanned again from behind the quote, and the
block comments behind it are kept. -/
theorem literal_iff (findKeyword : List UInt8 → Option κ) (text : List UInt8) (state : State κ)
    (kind : SymbolKind κ) (n : ℕ) (comments : List SymbolSpan) (q : ℕ)
    (hreach : Reaches findKeyword text {} state)
    (hmatch : matched text state = some (.closeLiteral kind, n) ∨
      matched text state = some (.failLiteral kind, n))
    (hgap : Gap text (state.position + 1) comments q) :
    LiteralRecorded findKeyword text state kind comments q ↔
      QuotePlain text state ∧ BlocksKept text comments := by
  obtain ⟨hquote, hlength⟩ := atQuote_of_reaches hreach hmatch
  have hlt := hquote.lt
  have hscan := isScanning_of_lt hreach hlt
  rcases hmatch with hclose | hfail
  · obtain ⟨next, hstep, hcond, hposition, hcomments, hsymbols⟩ :=
      step_close_literal findKeyword hlt hclose
    have hplain : QuotePlain text state ↔
        ∀ b ∈ (matchText text state n).drop 1, b ∈ bytes [' ', '\n'] := by
      refine ⟨fun h => h kind n hclose, fun h kind' n' h' => ?_⟩
      obtain ⟨-, rfl⟩ := Prod.mk.inj (some.inj (hclose.symm.trans h'))
      exact h
    rw [literalRecorded_iff hstep hsymbols hcomments, hplain, ← readLiteral_of_quote hquote, ← hlength]
    refine and_congr_right fun hlocation => ?_
    rw [hlength, readLiteral_of_quote hquote] at hlocation
    refine gap_iff findKeyword (hreach.tail ⟨hscan, hstep⟩) hcond ?_
    -- Only spaces were matched with the quote, so the gap goes on behind them.
    obtain ⟨rest, hrest⟩ := hquote.quoted
    have hbehind : text.drop (state.position + 1) = (matchText text state n).drop 1 ++ rest := by
      rw [← drop_drop, hrest]
      rfl
    have hend : next.position = state.position + 1 + ((matchText text state n).drop 1).length := by
      omega
    rw [hend]
    refine hgap.drop_spaces ?_ ?_
    · rw [hbehind, length_append]
      exact Nat.le_add_right _ _
    · rw [hbehind, take_left]
      exact fun b hb => spaces_isSpace b (hlocation b hb)
  · obtain ⟨next, hstep, hcond, hposition, hcomments, hsymbols⟩ :=
      step_fail_literal findKeyword hlt hfail
    have hplain : QuotePlain text state := by
      intro kind' n' h'
      obtain ⟨haction, -⟩ := Prod.mk.inj (some.inj (hfail.symm.trans h'))
      cases haction
    have hbare : AtQuote text state [] := by
      obtain ⟨rest, hrest⟩ := hquote.quoted
      exact ⟨hlt, hquote.begin_le, hquote.begin_end, _, hrest⟩
    have hlocation := (readLiteral_of_quote hbare).mpr (by simp)
    rw [literalRecorded_iff hstep hsymbols hcomments]
    have hgap' := gap_iff findKeyword (hreach.tail ⟨hscan, hstep⟩) hcond (hposition ▸ hgap)
    exact and_congr (iff_of_true hlocation hplain) hgap'

theorem gapEnds_of_end (h : text.length ≤ p) : GapEnds text p := by
  have hnil : text.drop p = [] := drop_eq_nil_of_le h
  refine ⟨fun b hb => ?_, fun hline => ?_, fun n hblock => ?_⟩
  · rw [hnil] at hb
    cases hb
  · exact absurd (position_lt_of_head (head_of_front hline)) (Nat.not_lt.mpr h)
  · exact absurd (position_lt_of_head (head_of_front hblock.opens)) (Nat.not_lt.mpr h)

/-- A string with a space behind it. -/
theorem literal_before_space : LiteralRecorded (fun _ => (none : Option Unit))
    (bytes ['\'', 'a', '\'', ' '])
    { position := 2, condition := .xq, extBegin := ⟨0, 1⟩ } .sconst [] 4 := by
  have hreach : Reaches (fun _ => (none : Option Unit)) (bytes ['\'', 'a', '\'', ' ']) {}
      { position := 2, condition := .xq, extBegin := ⟨0, 1⟩ } :=
    @Reaches.head Unit _ _ _ _ { position := 1, condition := .xq, extBegin := ⟨0, 1⟩ } rfl rfl
      (Reaches.head rfl rfl .refl)
  have hmatch : matched (bytes ['\'', 'a', '\'', ' '])
      ({ position := 2, condition := .xq, extBegin := ⟨0, 1⟩ } : State Unit) =
        some (.closeLiteral .sconst, 2) := by decide +kernel
  refine (literal_iff _ _ _ .sconst 2 [] 4 hreach (Or.inl hmatch)
    (.space rfl rfl (.done (gapEnds_of_end ?_)))).mpr ⟨fun kind n h => ?_, by simp [BlocksKept]⟩
  · decide +kernel
  · obtain ⟨-, rfl⟩ := Prod.mk.inj (some.inj (hmatch.symm.trans h))
    decide +kernel

/-- A line comment behind a string is taken for a part of it. -/
theorem comment_in_literal :
    ¬ ∀ (text : List UInt8) (state : State Unit) (kind : SymbolKind Unit) (n : ℕ)
      (comments : List SymbolSpan) (q : ℕ), Reaches (fun _ => none) text {} state →
        matched text state = some (.closeLiteral kind, n) ∨
          matched text state = some (.failLiteral kind, n) →
        Gap text (state.position + 1) comments q →
          LiteralRecorded (fun _ => none) text state kind comments q := by
  intro h
  have hreach : Reaches (fun _ => (none : Option Unit))
      (bytes ['\'', 'a', '\'', ' ', '-', '-', 'b']) {}
      { position := 2, condition := .xq, extBegin := ⟨0, 1⟩ } :=
    @Reaches.head Unit _ _ _ _ { position := 1, condition := .xq, extBegin := ⟨0, 1⟩ } rfl rfl
      (Reaches.head rfl rfl .refl)
  have hmatch : matched (bytes ['\'', 'a', '\'', ' ', '-', '-', 'b'])
      ({ position := 2, condition := .xq, extBegin := ⟨0, 1⟩ } : State Unit) =
        some (.closeLiteral .sconst, 5) := by decide +kernel
  have hlong : ((step (fun _ => (none : Option Unit))
      (bytes ['\'', 'a', '\'', ' ', '-', '-', 'b'])
      { position := 2, condition := .xq, extBegin := ⟨0, 1⟩ }).toOption.map State.symbols) =
        some [⟨.sconst, ⟨0, 7⟩⟩] := by decide +kernel
  obtain ⟨next, last, hstep, hsymbols, -⟩ := h _ _ .sconst 5 _ 7 hreach (Or.inl hmatch)
    (.space rfl rfl (.line (by decide +kernel) (.done (gapEnds_of_end (by decide +kernel)))))
  rw [hstep, Except.toOption, map_some, hsymbols] at hlong
  exact absurd hlong (by decide +kernel)

end DashQL.Scanner
