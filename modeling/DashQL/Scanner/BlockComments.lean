import DashQL.Scanner.NestedComments
import DashQL.Scanner.Operators
import DashQL.Scanner.Steps

/-!
# Block comments

The opening of a block comment is matched together with the operator characters behind it, which may
hold the closing, and a nested opening overwrites where the comment began.  So a comment is recorded
as it stands (`Recorded`) exactly when the operator characters behind its opening bring the depth
back to one without ending the comment, and no further opening stands in front of the next closing
(`CommentKept`).

From inside of a comment the scanner comes to the first mark (`reaches_mark`), and in any case it
either records one comment that ends behind its position, or comes to the end of the text
(`reaches_comment`).

If operators stand directly in front of the comment, the scanner has to come to its opening in the
first place: the lengths that the operator rule keeps have to add up to it (`ArrivesAt`), else the
opening is taken for a part of an operator and no later comment begins there.
-/

namespace DashQL.Scanner

open List Option

variable {κ : Type*} {findKeyword : List UInt8 → Option κ} {text : List UInt8}
  {state next final : State κ} {action : Action κ} {n k : ℕ} {s : List UInt8}

/-- The comment of a length at the position of the scanner is recorded, no symbol is returned in it,
and the scanner goes on behind it outside of the extended rules. -/
def Recorded (findKeyword : List UInt8 → Option κ) (text : List UInt8) (state : State κ)
    (length : ℕ) : Prop :=
  ∃ next, Reaches findKeyword text state next ∧ next.condition = .initial ∧
    next.position = state.position + length ∧
    next.comments = state.comments ++ [⟨state.position, length⟩] ∧ next.symbols = state.symbols

/-- A properly closed block comment, with a length behind its opening, stands at a position of the
text. -/
structure BlockAt (text : List UInt8) (position length : ℕ) : Prop where
  opens : opening <+: text.drop position
  plain : NoMarker (text.drop position)
  closed : closing 1 (text.drop (position + 2)) = some length

/-- Behind the opening of a comment: the operator characters there do not end it and bring the depth
back to one, and the next mark is a closing. -/
def CommentKept (s : List UInt8) : Prop :=
  closing 1 (opRun s) = none ∧ depthAfter 1 (opRun s) = 1 ∧
    ∃ k, mark (s.drop (opRun s).length) = some (k, false)

/-! ## Up to the next mark -/

theorem mark_lt {found : ℕ × Bool} (h : mark (text.drop state.position) = some found) :
    state.position < text.length := by
  by_contra hle
  rw [drop_eq_nil_of_le (Nat.not_lt.mp hle)] at h
  cases h

/-- From inside of a comment the scanner comes to the next opening, or to the closing of the stars in
front of the next slash. -/
theorem reaches_mark (findKeyword : List UInt8 → Option κ) (d : ℕ)
    (hd : text.length - state.position ≤ d) (hcondition : state.condition = .xc) (hscan : isScanning state = true) {opens : Bool}
    (hmark : mark (text.drop state.position) = some (k, opens)) :
    ∃ next, Reaches findKeyword text state next ∧ SameButPosition state next ∧
      state.position ≤ next.position ∧ next.position < text.length ∧
      (opens = true → next.position = state.position + k) ∧
      (opens = false → ∃ n, matched text next = some ((.closeComment : Action κ), n) ∧
        next.position + n = state.position + k + 2) := by
  induction d generalizing state k with
  | zero => exact absurd (mark_lt hmark) (by omega)
  | succ d ih =>
    have hlt := mark_lt hmark
    -- After characters without a mark the rest of the text is read in the same way.
    have hskip : ∀ m, 1 ≤ m → matched text state = some ((.skip : Action κ), m) →
        mark (text.drop state.position) = (mark (text.drop (state.position + m))).map
          (fun found => (found.1 + m, found.2)) →
        ∃ next, Reaches findKeyword text state next ∧ SameButPosition state next ∧
          state.position ≤ next.position ∧ next.position < text.length ∧
          (opens = true → next.position = state.position + k) ∧
          (opens = false → ∃ n, matched text next = some ((.closeComment : Action κ), n) ∧
            next.position + n = state.position + k + 2) := by
      intro m hm hmatch hpassed
      obtain ⟨mid, hstep, hsame, hposition⟩ := step_skip findKeyword hlt hmatch
      obtain ⟨found, hfound, hshift⟩ := map_eq_some_iff.mp (hpassed.symm.trans hmark)
      obtain ⟨hk, hopens⟩ := Prod.mk.inj hshift
      have hrest : mark (text.drop mid.position) = some (found.1, opens) := by
        rw [hposition, hfound, ← hopens]
      obtain ⟨next, hreach, hsame', hle, hend, hopen, hclose⟩ := ih (by omega)
        (hsame.condition.trans hcondition) (hsame.isScanning.trans hscan) hrest
      refine ⟨next, hreach.head hscan hstep, hsame.trans hsame', by omega, hend, ?_, ?_⟩
      · intro h
        rw [hopen h, hposition]
        omega
      · intro h
        obtain ⟨n, hn, hend⟩ := hclose h
        exact ⟨n, hn, by omega⟩
    obtain ⟨b, s, hs⟩ : ∃ b s, text.drop state.position = b :: s :=
      ⟨_, _, drop_eq_getElem_cons hlt⟩
    have hdrop : ∀ m, text.drop (state.position + (m + 1)) = s.drop m := by
      intro m
      rw [← drop_drop, hs, drop_succ_cons]
    by_cases hplain : b ∈ bytes ['*', '/']
    · rcases mem_cons.mp hplain with rfl | hslash
      · by_cases hclose : (s.dropWhile isStar).head? = some '/'.toUInt8
        · rw [hs, mark_stars hclose] at hmark
          obtain ⟨rfl, rfl⟩ := Prod.mk.inj (some.inj hmark)
          refine ⟨state, .refl, .refl state, le_rfl, hlt, fun h => absurd h (by decide), fun _ => ?_⟩
          exact ⟨_, matched_xc_close hcondition hs hclose, rfl⟩
        · refine hskip _ (Nat.succ_pos _) (matched_xc_stars hcondition hs hclose) ?_
          rw [hdrop, hs, mark_stars_skip hclose]
      · obtain rfl := mem_singleton.mp hslash
        by_cases hopen : s.head? = some '*'.toUInt8
        · obtain ⟨s', rfl⟩ := head?_eq_some_iff.mp hopen
          rw [hs] at hmark
          obtain ⟨rfl, rfl⟩ := Prod.mk.inj (some.inj hmark)
          exact ⟨state, .refl, .refl state, le_rfl, hlt, fun _ => rfl, fun h => absurd h (by decide)⟩
        · refine hskip 1 le_rfl (matched_xc_slash hcondition hs hopen) ?_
          rw [hdrop 0, hs, mark_cons]
          · rfl
          · intro b hb
            exact noMark_slash fun hstar => hopen (hstar ▸ hb)
    · refine hskip _ ?_ (matched_xc_inside hcondition hs hplain) ?_
      · rw [plainRun, takeWhile_cons_of_pos (by simp [hplain])]
        exact Nat.succ_pos _
      · rw [← drop_drop, hs]
        exact mark_plain (b :: s)

/-! ## The next recorded comment -/

theorem reaches_end_of_comment (findKeyword : List UInt8 → Option κ)
    (hend : text.length ≤ state.position) (hcondition : state.condition = .xc)
    (hscan : isScanning state = true) :
    ∃ next, Reaches findKeyword text state next ∧ isScanning next = false ∧
      next.comments = state.comments := by
  have hgiven : endOfText state =
      { state.addError (loc state.extBegin ⟨state.position, 1⟩) "unterminated comment" with
        condition := .initial } := by
    rw [endOfText, hcondition]
    rfl
  have hscan' : isScanning (endOfText state) = true := by
    rw [hgiven]
    exact hscan
  have hlast : endOfText (endOfText state) = (endOfText state).push .eof ⟨state.position, 1⟩ := by
    rw [endOfText_eq (by rw [hgiven]), hgiven]
    rfl
  have hend' : text.length ≤ (endOfText state).position := by
    rw [hgiven]
    exact hend
  refine ⟨_, Reaches.head hscan (step_of_end hend)
    (Reaches.head hscan' (step_of_end hend') .refl), ?_, ?_⟩
  · rw [hlast]
    simp [isScanning, State.push, SymbolKind.isEof]
  · rw [hlast, hgiven]
    rfl

/-- A state in a comment that has begun behind another state's comment. -/
structure StillInside (state next : State κ) : Prop where
  condition : next.condition = .xc
  symbols : next.symbols = state.symbols
  comments : next.comments = state.comments
  begin_le : state.extBegin.offset ≤ next.extBegin.offset
  begin_position : next.extBegin.offset ≤ next.position
  position : state.position < next.position

/-- From inside of a comment the scanner comes to record one comment that begins where the current
one began or behind it and ends behind the position, or it comes to the end of the text. -/
theorem reaches_comment (findKeyword : List UInt8 → Option κ) (d : ℕ)
    (hd : text.length - state.position ≤ d) (hcondition : state.condition = .xc)
    (hscan : isScanning state = true) (hbegin : state.extBegin.offset ≤ state.position) :
    ∃ next, Reaches findKeyword text state next ∧
      ((∃ comment : SymbolSpan, next.comments = state.comments ++ [comment] ∧
          state.extBegin.offset ≤ comment.offset ∧
          state.position < comment.offset + comment.length) ∨
        isScanning next = false ∧ next.comments = state.comments) := by
  induction d generalizing state with
  | zero =>
    obtain ⟨next, hreach, hend⟩ :=
      reaches_end_of_comment findKeyword (Nat.sub_eq_zero_iff_le.mp (Nat.le_zero.mp hd)) hcondition
        hscan
    exact ⟨next, hreach, Or.inr hend⟩
  | succ d ih =>
    have hgo : ∀ mid, step findKeyword text state = .ok mid → StillInside state mid →
        ∃ next, Reaches findKeyword text state next ∧
          ((∃ comment : SymbolSpan, next.comments = state.comments ++ [comment] ∧
              state.extBegin.offset ≤ comment.offset ∧
              state.position < comment.offset + comment.length) ∨
            isScanning next = false ∧ next.comments = state.comments) := by
      intro mid hstep hinside
      have hmoved := hinside.position
      obtain ⟨next, hreach, hnext⟩ := ih (by omega) hinside.condition
        ((isScanning_congr hinside.symbols).trans hscan) hinside.begin_position
      refine ⟨next, hreach.head hscan hstep, ?_⟩
      rw [hinside.comments] at hnext
      refine hnext.imp_left ?_
      rintro ⟨comment, hcomment, hoffset, hbehind⟩
      exact ⟨comment, hcomment, hinside.begin_le.trans hoffset, hmoved.trans hbehind⟩
    by_cases hlt : state.position < text.length
    · obtain ⟨action, n, hmatch, hn⟩ := exists_matched (κ := κ) hlt
      obtain ⟨p, hp, -⟩ := matched_spec hmatch
      rw [hcondition] at hp
      rcases xcRules_cases hp with rfl | rfl | rfl
      · obtain ⟨mid, hstep, hopened⟩ := step_nest findKeyword hlt hcondition hmatch
        have hposition := hopened.position
        refine hgo mid hstep ⟨hopened.condition, hopened.symbols, hopened.comments, ?_, ?_, by omega⟩
        · rw [hopened.extBegin]
          exact hbegin
        · rw [hopened.extBegin]
          exact hposition ▸ Nat.le_add_right _ _
      · by_cases hdepth : state.extDepth - 1 = 0
        · obtain ⟨next, hstep, -, -, -, hcomments, hposition⟩ :=
            step_close_outer findKeyword hlt hmatch hdepth
          refine ⟨next, Reaches.head hscan hstep .refl, Or.inl ⟨_, hcomments, ?_, ?_⟩⟩
          · exact le_min le_rfl hbegin
          · unfold loc
            dsimp only
            omega
        · obtain ⟨mid, hstep, hcond, hext, -, hsymbols, hcomments, hposition⟩ :=
            step_close_inner findKeyword hlt hmatch hdepth
          exact hgo mid hstep ⟨hcond.trans hcondition, hsymbols, hcomments, hext ▸ le_rfl,
            by rw [hext]; omega, by omega⟩
      · obtain ⟨mid, hstep, hsame, hposition⟩ := step_skip findKeyword hlt hmatch
        exact hgo mid hstep ⟨hsame.condition.trans hcondition, hsame.symbols, hsame.comments,
          hsame.extBegin ▸ le_rfl, by rw [hsame.extBegin]; omega, by omega⟩
    · obtain ⟨next, hreach, hend⟩ :=
        reaches_end_of_comment findKeyword (Nat.not_lt.mp hlt) hcondition hscan
      exact ⟨next, hreach, Or.inr hend⟩

/-! ## Comments as they stand -/

/-- A comment that is found from inside of it begins where it was opened last. -/
theorem loc_of_begin {start length position n : ℕ} (hle : start ≤ position)
    (hend : start + length ≤ position + n) :
    loc ⟨start, length⟩ ⟨position, n⟩ = ⟨start, position + n - start⟩ := by
  rw [loc, Nat.min_eq_left hle, Nat.max_eq_right hend]

theorem reaches_closed (findKeyword : List UInt8 → Option κ) {start length : ℕ}
    (hcondition : state.condition = .xc) (hscan : isScanning state = true)
    (hdepth : state.extDepth = 1) (hbegin : state.extBegin = ⟨start, length⟩)
    (hstart : start + length ≤ state.position)
    (hmark : mark (text.drop state.position) = some (k, false)) :
    ∃ next, Reaches findKeyword text state next ∧ next.condition = .initial ∧
      next.position = state.position + k + 2 ∧ next.symbols = state.symbols ∧
      next.comments = state.comments ++ [⟨start, state.position + k + 2 - start⟩] := by
  obtain ⟨mid, hreach, hsame, hle, hlt, -, hclose⟩ :=
    reaches_mark findKeyword _ le_rfl hcondition hscan hmark
  obtain ⟨n, hmatch, hend⟩ := hclose rfl
  obtain ⟨next, hstep, hcond, -, hsymbols, hcomments, hposition⟩ :=
    step_close_outer findKeyword hlt hmatch (by rw [hsame.extDepth, hdepth])
  refine ⟨next, hreach.tail ⟨hsame.isScanning.trans hscan, hstep⟩, hcond, hposition.trans hend,
    hsymbols.trans hsame.symbols, ?_⟩
  rw [hcomments, hsame.comments, hsame.extBegin, hbegin,
    loc_of_begin ((Nat.le_add_right _ _).trans (hstart.trans hle)) (by omega), hend]

theorem not_recordsNext_of_inside {comment : SymbolSpan} (hcondition : state.condition = .xc)
    (hscan : isScanning state = true) (hle : state.extBegin.offset ≤ state.position)
    (hother : comment.offset < state.extBegin.offset ∨
      comment.offset + comment.length ≤ state.position) :
    ¬ RecordsNext findKeyword text state comment := by
  intro h
  obtain ⟨mid, hreach, hmid⟩ := reaches_comment findKeyword _ le_rfl hcondition hscan hle
  rcases hmid with ⟨found, hfound, hoffset, hbehind⟩ | ⟨hend, hnone⟩
  · obtain rfl := h.unique ⟨mid, [], hreach, hfound⟩
    omega
  · exact not_recordsNext_of_end hreach hend hnone h

/-- The state behind the opening of a comment and the operator characters there. -/
theorem reaches_opened (findKeyword : List UInt8 → Option κ) {length : ℕ}
    (hreach : Reaches findKeyword text {} state) (hinitial : state.condition = .initial)
    (hblock : BlockAt text state.position length) (hs : s = text.drop (state.position + 2)) :
    ∃ mid, Reaches findKeyword text state mid ∧ Opened state mid ((opRun s).length + 2) ∧
      mid.extDepth = 1 ∧ isScanning mid = true ∧
      text.drop mid.position = s.drop (opRun s).length := by
  obtain ⟨rest, hrest⟩ := hblock.opens
  have hrest' : text.drop state.position = '/'.toUInt8 :: '*'.toUInt8 :: rest := hrest.symm
  have hs' : s = rest := by
    rw [hs, ← drop_drop, hrest']
    rfl
  have hlt : state.position < text.length := by
    by_contra hle
    rw [drop_eq_nil_of_le (Nat.not_lt.mp hle)] at hrest'
    cases hrest'
  have hscan := isScanning_of_lt hreach hlt
  have hdepth : state.extDepth = 0 :=
    ((depth_of_reaches hreach).resolve_left (by omega)).2 (by rw [hinitial]; decide)
  have hrun : opRun (text.drop state.position) = '/'.toUInt8 :: '*'.toUInt8 :: opRun s := by
    rw [hrest', hs', opRun, takeWhile_cons_of_pos (by decide), takeWhile_cons_of_pos (by decide)]
    rfl
  have hmatch := matched_open hinitial ⟨rest, hrest⟩ hblock.plain
  rw [hrun] at hmatch
  obtain ⟨mid, hstep, hopened⟩ := step_open findKeyword hlt hmatch
  refine ⟨mid, Reaches.head hscan hstep .refl, hopened, hopened.extDepth.trans (by rw [hdepth]),
    (isScanning_congr hopened.symbols).trans hscan, ?_⟩
  rw [hopened.position, length_cons, length_cons, hs, drop_drop]
  congr 1
  omega

theorem recorded_of_kept (findKeyword : List UInt8 → Option κ) {length : ℕ}
    (hreach : Reaches findKeyword text {} state) (hinitial : state.condition = .initial)
    (hblock : BlockAt text state.position length)
    (hkept : CommentKept (text.drop (state.position + 2))) :
    Recorded findKeyword text state (length + 2) := by
  obtain ⟨s, hs⟩ : ∃ s, s = text.drop (state.position + 2) := ⟨_, rfl⟩
  obtain ⟨mid, hmid, hopened, hdepth, hscan, hrest⟩ :=
    reaches_opened findKeyword hreach hinitial hblock hs
  have hposition := hopened.position
  have hclosed := hblock.closed
  rw [← hs] at hkept hclosed
  obtain ⟨hrun, hone, k, hmark⟩ := hkept
  have hwhole := closing_append_of_none (v := s.drop (opRun s).length) hrun
    fun a b _ hb => noMark_of_opRun hb
  rw [opRun_append, hclosed, hone, closing_of_mark hmark, if_pos rfl] at hwhole
  have hlength : length = k + 2 + (opRun s).length := some.inj hwhole
  obtain ⟨next, hnext, hcond, hend, hsymbols, hcomment⟩ :=
    reaches_closed findKeyword hopened.condition hscan hdepth hopened.extBegin (by omega)
      (hrest.symm ▸ hmark)
  refine ⟨next, hmid.trans hnext, hcond, by omega, ?_, hsymbols.trans hopened.symbols⟩
  rw [hcomment, hopened.comments]
  congr 3
  omega

theorem kept_of_recordsNext {length : ℕ} (hreach : Reaches findKeyword text {} state)
    (hinitial : state.condition = .initial) (hblock : BlockAt text state.position length)
    (hnext : RecordsNext findKeyword text state ⟨state.position, length + 2⟩) :
    CommentKept (text.drop (state.position + 2)) := by
  obtain ⟨s, hs⟩ : ∃ s, s = text.drop (state.position + 2) := ⟨_, rfl⟩
  obtain ⟨mid, hmid, hopened, hdepth, hscan, hrest⟩ :=
    reaches_opened findKeyword hreach hinitial hblock hs
  have hposition := hopened.position
  have hbegin : mid.extBegin.offset = state.position := by rw [hopened.extBegin]
  have hclosed := hblock.closed
  rw [← hs] at hclosed ⊢
  have hinside := recordsNext_of_reaches hnext hmid hopened.comments
  have hrun : closing 1 (opRun s) = none := by
    -- Otherwise the comment ends within the operator characters.
    by_contra hsome
    obtain ⟨n, hn⟩ := ne_none_iff_exists'.mp hsome
    have hwhole := closing_append_of_some hn (s.drop (opRun s).length)
    rw [opRun_append, hclosed] at hwhole
    have hlength : length = n := some.inj hwhole
    have hle := (closing_bounds hn).2
    exact not_recordsNext_of_inside hopened.condition hscan (by omega)
      (Or.inr (by dsimp only; omega)) hinside
  have hwhole := closing_append_of_none (v := s.drop (opRun s).length) hrun
    fun a b _ hb => noMark_of_opRun hb
  rw [opRun_append, hclosed] at hwhole
  obtain ⟨m, hm, hlength⟩ := map_eq_some_iff.mp hwhole.symm
  obtain ⟨⟨k, opens⟩, hmark⟩ := exists_mark_of_closing hm
  cases opens with
  | true =>
    -- A comment that is opened in the comment begins behind it.
    exfalso
    obtain ⟨nested, hnested, hsame, hle, hlt, hat, -⟩ :=
      reaches_mark findKeyword _ le_rfl hopened.condition hscan (hrest.symm ▸ hmark)
    have hscan' := hsame.isScanning.trans hscan
    have hcondition := hsame.condition.trans hopened.condition
    obtain ⟨rest, hopening⟩ := opening_of_mark hmark
    rw [← hrest, drop_drop, ← hat rfl] at hopening
    obtain ⟨inner, hstep, hinner⟩ :=
      step_nest findKeyword hlt hcondition (matched_xc_nest hcondition hopening)
    have hinnerPosition := hinner.position
    have hbehind := recordsNext_of_reaches hinside (hnested.tail ⟨hscan', hstep⟩)
      (hinner.comments.trans hsame.comments)
    refine not_recordsNext_of_inside hinner.condition
      ((isScanning_congr hinner.symbols).trans hscan') ?_ (Or.inl ?_) hbehind
    · rw [hinner.extBegin]
      dsimp only
      omega
    · rw [hinner.extBegin]
      dsimp only
      omega
  | false =>
    refine ⟨hrun, ?_, k, hmark⟩
    -- The scanner takes the next closing for the end of the comment.
    obtain ⟨next, hclose, -, -, -, hcomment⟩ :=
      reaches_closed findKeyword hopened.condition hscan hdepth hopened.extBegin (by omega)
        (hrest.symm ▸ hmark)
    have hlengths := congrArg SymbolSpan.length (hinside.unique ⟨next, [], hclose, hcomment⟩)
    dsimp only at hlengths
    by_contra hdeep
    rw [closing_of_mark hmark, if_neg hdeep] at hm
    obtain ⟨m', hm', hmore⟩ := map_eq_some_iff.mp hm
    have hpos := (closing_bounds hm').1
    omega

/-! ## Comments behind operators -/

/-- The characters that the operator rule keeps, symbol after symbol, lead to a place in a run. -/
inductive ArrivesAt : List UInt8 → ℕ → Prop
  | here {run : List UInt8} : ArrivesAt run 0
  | symbol {run : List UInt8} {i : ℕ} (hreachable : ¬ Unreachable run)
      (hrest : ArrivesAt (run.drop (keptLength run)) i) : ArrivesAt run (i + keptLength run)

/-- The comment of a length at a distance from the position of the scanner is recorded, the symbols
that are returned lie in front of it, and the scanner goes on behind it outside of the extended
rules. -/
def RecordedBehind (findKeyword : List UInt8 → Option κ) (text : List UInt8) (state : State κ)
    (distance length : ℕ) : Prop :=
  ∃ next symbols, Reaches findKeyword text state next ∧ next.condition = .initial ∧
    next.position = state.position + distance + length ∧
    next.comments = state.comments ++ [⟨state.position + distance, length⟩] ∧
    next.symbols = state.symbols ++ symbols ∧
    ∀ symbol ∈ symbols, symbol.location.offset + symbol.location.length ≤ state.position + distance

/-- The first comment in a run of operator characters is the block comment at a distance. -/
structure CommentAhead (text : List UInt8) (state : State κ) (distance length : ℕ) : Prop where
  inside : distance < (operatorRun text state).length
  first : ∀ i < distance, ¬ StartsComment (text.drop (state.position + i))
  block : BlockAt text (state.position + distance) length

theorem CommentAhead.behind {distance length kept : ℕ}
    (h : CommentAhead text state distance length) (hkept : kept ≤ distance)
    (hposition : next.position = state.position + kept) :
    CommentAhead text next (distance - kept) length := by
  have hsame : state.position + kept + (distance - kept) = state.position + distance := by omega
  have hinside := h.inside
  refine ⟨?_, fun i hi => ?_, ?_⟩
  · rw [operatorRun_of_position hposition (by omega), length_drop]
    omega
  · rw [hposition, Nat.add_assoc]
    exact h.first _ (by omega)
  · rw [hposition, hsame]
    exact h.block

theorem CommentAhead.run_ne_nil {distance length : ℕ} (h : CommentAhead text state distance length) :
    operatorRun text state ≠ [] := by
  intro hnil
  have hinside := h.inside
  rw [hnil] at hinside
  exact absurd hinside (Nat.not_lt_zero _)

theorem reaches_symbol (findKeyword : List UInt8 → Option κ)
    (hreach : Reaches findKeyword text {} state) (hinitial : state.condition = .initial)
    (hne : operatorRun text state ≠ []) (hplain : ¬ StartsComment (text.drop state.position))
    (hreachable : ¬ Unreachable (operatorRun text state)) :
    ∃ mid kind, Reaches findKeyword text state mid ∧ mid.condition = .initial ∧
      mid.position = state.position + keptLength (operatorRun text state) ∧
      mid.comments = state.comments ∧ mid.symbols =
        state.symbols ++ [⟨kind, ⟨state.position, keptLength (operatorRun text state)⟩⟩] := by
  have hscan := isScanning_of_lt hreach (position_lt_of_run hne)
  rcases operator_step findKeyword hinitial hne hplain with
    ⟨hunreachable, -⟩ | ⟨-, kind, errors, hstep⟩
  · exact absurd hunreachable hreachable
  · exact ⟨_, kind, Reaches.head hscan hstep .refl, hinitial, rfl, rfl, rfl⟩

theorem recordedBehind_of_arrives (findKeyword : List UInt8 → Option κ) {run : List UInt8}
    {distance length : ℕ} (harrives : ArrivesAt run distance) (hrun : operatorRun text state = run)
    (hreach : Reaches findKeyword text {} state) (hinitial : state.condition = .initial)
    (hahead : CommentAhead text state distance length)
    (hkept : CommentKept (text.drop (state.position + distance + 2))) :
    RecordedBehind findKeyword text state distance (length + 2) := by
  induction harrives generalizing state with
  | here =>
    obtain ⟨next, hnext, hcond, hposition, hcomments, hsymbols⟩ :=
      recorded_of_kept findKeyword hreach hinitial hahead.block hkept
    exact ⟨next, [], hnext, hcond, hposition, hcomments, by rw [hsymbols, append_nil], by simp⟩
  | @symbol run i hreachable _ ih =>
    subst hrun
    have hne := hahead.run_ne_nil
    have hinside := hahead.inside
    have hpos := keptLength_pos hne
    obtain ⟨mid, kind, hmid, hcond, hposition, hcomments, hsymbols⟩ :=
      reaches_symbol findKeyword hreach hinitial hne (hahead.first 0 (by omega)) hreachable
    have hahead' := hahead.behind (Nat.le_add_left _ _) hposition
    rw [Nat.add_sub_cancel] at hahead'
    have hplace : mid.position + i =
        state.position + (i + keptLength (operatorRun text state)) := by omega
    obtain ⟨next, symbols, hnext, hcond', hposition', hcomments', hsymbols', hbefore⟩ :=
      ih (operatorRun_of_position hposition (by omega)) (hreach.trans hmid) hcond hahead'
        (hplace ▸ hkept)
    rw [hplace] at hposition' hcomments' hbefore
    refine ⟨next, ⟨kind, ⟨state.position, keptLength (operatorRun text state)⟩⟩ :: symbols,
      hmid.trans hnext, hcond', hposition', hcomments ▸ hcomments', ?_, ?_⟩
    · rw [hsymbols', hsymbols, append_assoc]
      rfl
    · refine forall_mem_cons.mpr ⟨?_, hbefore⟩
      dsimp only
      omega

theorem arrives_of_recordsNext {distance length : ℕ} (d : ℕ) (hd : distance ≤ d)
    (hreach : Reaches findKeyword text {} state) (hinitial : state.condition = .initial)
    (hahead : CommentAhead text state distance length)
    (hnext : RecordsNext findKeyword text state ⟨state.position + distance, length + 2⟩) :
    ArrivesAt (operatorRun text state) distance ∧
      CommentKept (text.drop (state.position + distance + 2)) := by
  induction d generalizing state distance with
  | zero =>
    obtain rfl := Nat.le_zero.mp hd
    exact ⟨.here, kept_of_recordsNext hreach hinitial hahead.block hnext⟩
  | succ d ih =>
    by_cases hzero : distance = 0
    · subst hzero
      exact ⟨.here, kept_of_recordsNext hreach hinitial hahead.block hnext⟩
    have hne := hahead.run_ne_nil
    have hplain : ¬ StartsComment (text.drop state.position) := hahead.first 0 (by omega)
    have hpos := keptLength_pos hne
    have hreachable : ¬ Unreachable (operatorRun text state) := by
      -- A scanner that fails records nothing.
      intro hunreachable
      rcases operator_step findKeyword hinitial hne hplain with
        ⟨-, hfail⟩ | ⟨hreachable, -⟩
      · obtain ⟨next, more, hstuck, hcomments⟩ := hnext
        rcases Relation.ReflTransGen.cases_head hstuck with rfl | ⟨mid, hstep, -⟩
        · exact absurd (congrArg List.length hcomments) (by simp)
        · exact absurd (hfail.symm.trans hstep.2) (by simp)
      · exact hreachable hunreachable
    obtain ⟨mid, kind, hmid, hcond, hposition, hcomments, -⟩ :=
      reaches_symbol findKeyword hreach hinitial hne hplain hreachable
    have hnextMid := recordsNext_of_reaches hnext hmid hcomments
    have hle : keptLength (operatorRun text state) ≤ distance := by
      have hoffset := hnextMid.offset_ge hcond
      dsimp only at hoffset
      omega
    have hinside := hahead.inside
    have hplace : mid.position + (distance - keptLength (operatorRun text state)) =
        state.position + distance := by omega
    obtain ⟨harrives, hkept⟩ := ih (by omega) (hreach.trans hmid) hcond
      (hahead.behind hle hposition) (hplace.symm ▸ hnextMid)
    rw [hplace] at hkept
    rw [operatorRun_of_position hposition (by omega)] at harrives
    refine ⟨?_, hkept⟩
    have hsymbol := ArrivesAt.symbol hreachable harrives
    rwa [Nat.sub_add_cancel hle] at hsymbol

/-- A properly closed block comment is recorded as it stands exactly when the symbols of the
operators in front of it lead to it and it is kept by the rules for its marks. -/
theorem recordedBehind_iff (findKeyword : List UInt8 → Option κ) (text : List UInt8)
    (state : State κ) (distance length : ℕ) (hreach : Reaches findKeyword text {} state)
    (hinitial : state.condition = .initial) (hahead : CommentAhead text state distance length) :
    RecordedBehind findKeyword text state distance (length + 2) ↔
      ArrivesAt (operatorRun text state) distance ∧
        CommentKept (text.drop (state.position + distance + 2)) := by
  constructor
  · rintro ⟨next, symbols, hnext, -, -, hcomments, -⟩
    exact arrives_of_recordsNext distance le_rfl hreach hinitial hahead ⟨next, [], hnext, hcomments⟩
  · rintro ⟨harrives, hkept⟩
    exact recordedBehind_of_arrives findKeyword harrives rfl hreach hinitial hahead hkept

/-- A comment behind an operator of which half is kept. -/
theorem recorded_behind_operator : RecordedBehind (fun _ => (none : Option Unit))
    (bytes ['~', '@', '/', '*', ' ', 'c', ' ', '*', '/']) {} 2 7 := by
  have hahead : CommentAhead (bytes ['~', '@', '/', '*', ' ', 'c', ' ', '*', '/'])
      ({} : State Unit) 2 5 := by
    refine ⟨?_, ?_, ?_, ?_, ?_⟩ <;> decide +kernel
  have hkept : 0 + keptLength (bytes ['~', '@', '/', '*']) = 2 := by decide +kernel
  have harrives : ArrivesAt (bytes ['~', '@', '/', '*']) (0 + keptLength (bytes ['~', '@', '/', '*'])) :=
    .symbol (fun h => absurd h.1 (by decide +kernel)) .here
  rw [hkept] at harrives
  refine (recordedBehind_iff _ _ _ 2 5 .refl rfl hahead).mpr ⟨harrives, ?_, ?_, 3, ?_⟩ <;>
    decide +kernel

/-- The closing of an empty comment is taken with its opening. -/
theorem empty_comment_not_recorded :
    ¬ ∀ (text : List UInt8) (state : State Unit) (distance length : ℕ),
      Reaches (fun _ => none) text {} state → state.condition = .initial →
        CommentAhead text state distance length →
          RecordedBehind (fun _ => none) text state distance (length + 2) := by
  intro h
  have hahead : CommentAhead (bytes ['/', '*', '*', '/']) ({} : State Unit) 0 2 := by
    refine ⟨?_, ?_, ?_, ?_, ?_⟩ <;> decide +kernel
  obtain ⟨next, symbols, hnext, -, -, hcomments, -⟩ := h _ _ 0 2 .refl rfl hahead
  have hkept := (arrives_of_recordsNext 0 le_rfl .refl rfl hahead ⟨next, [], hnext, hcomments⟩).2
  exact absurd hkept.1 (by decide +kernel)

end DashQL.Scanner
