import DashQL.ScriptDiff.Script

/-!
# Statement descriptions

The comments in front of a statement describe it.  `associateDescriptions` first extends the span of
every statement to its semicolon and to the comments that trail it on the same line, and then merges
the comments and the statements, which are both in text order, with looks back at the text between
them.
-/

namespace DashQL.ScriptDiff

open List

def TextSpan.stop (span : TextSpan) : ℕ := span.offset + span.length

namespace ParsedScript

def rootSpan (script : ParsedScript) (statement : Statement) : TextSpan :=
  script.scannedScript.resolveTextSpan (script.node statement.root).symbolSpan

end ParsedScript

/-- A parsed script with the comments of its scan.  The scanner emits the comments left to right,
one statement follows the other, and a statement begins at a symbol, which is in no comment. -/
structure CommentedScript extends ParsedScript where
  comments : List TextSpan
  comments_sorted : comments.Pairwise fun comment other => comment.stop ≤ other.offset
  statements_sorted : statements.Pairwise fun statement other =>
    (toParsedScript.rootSpan statement).stop ≤ (toParsedScript.rootSpan other).offset
  begins_apart : ∀ comment ∈ comments, ∀ statement ∈ statements,
    comment.offset < (toParsedScript.rootSpan statement).offset →
      comment.stop ≤ (toParsedScript.rootSpan statement).offset

structure StatementDescription where
  statementSpan : TextSpan
  descriptionBegin : ℕ := 0
  descriptionCount : ℕ := 0
  deriving DecidableEq

/-! ## Gaps -/

def slice (text : List UInt8) (begin stop : ℕ) : List UInt8 := (text.drop begin).take (stop - begin)

def isGapByte (b : UInt8) : Bool :=
  b ∈ [' ', '\t', '\n', '\r', '\x0c', ';'].map Char.toUInt8

def isLineBreak (b : UInt8) : Bool := b ∈ ['\n', '\r'].map Char.toUInt8

def isDescriptionGap (text : List UInt8) (begin stop : ℕ) : Bool :=
  (slice text begin stop).all isGapByte

def statementSourceEnd (text : List UInt8) (limit : ℕ) : List TextSpan → ℕ → ℕ
  | [], stop => stop
  | comment :: comments, stop =>
    if comment.offset < stop ∨ comment.offset ≥ limit then
      statementSourceEnd text limit comments stop
    else if ¬ isDescriptionGap text stop comment.offset then stop
    else if (slice text stop comment.offset).any isLineBreak then stop
    else statementSourceEnd text limit comments comment.stop

def isLeadingDescriptionCommentGap (text : List UInt8) (previousEnd : ℕ) (comment : TextSpan) :
    Bool :=
  isDescriptionGap text previousEnd comment.offset &&
    (decide (previousEnd = 0 ∨ comment.offset = 0) ||
      (slice text previousEnd comment.offset).any isLineBreak)

/-! ## The spans of the statements -/

/-- The position behind the first semicolon outside of comments.  The fuel is the distance to the
next statement, and every step gets nearer to it. -/
def separatorEnd (text : List UInt8) (comments : List TextSpan) (nextBegin : ℕ) : ℕ → ℕ → Option ℕ
  | 0, _ => none
  | fuel + 1, cursor =>
    if nextBegin ≤ cursor then none
    else
      match comments.find? fun span => decide (span.offset ≤ cursor ∧ cursor < span.stop) with
      | some comment => separatorEnd text comments nextBegin fuel comment.stop
      | none =>
        if text[cursor]? = some ';'.toUInt8 then some (cursor + 1)
        else separatorEnd text comments nextBegin fuel (cursor + 1)

namespace CommentedScript

variable (script : CommentedScript)

def input : List UInt8 :=
  script.scannedScript.textBuffer.take (max script.scannedScript.textBuffer.length 2 - 2)

/-- The end of the source of a statement in front of the others. -/
def statementEnd (statement : Statement) (others : List Statement) : ℕ :=
  let stop := (script.rootSpan statement).stop
  let nextBegin := (others.head?.map fun other => (script.rootSpan other).offset).getD
    script.input.length
  statementSourceEnd script.input nextBegin script.comments
    ((separatorEnd script.input script.comments nextBegin (nextBegin - stop) stop).getD stop)

/-- The first loop. -/
def statementSpans : List Statement → List TextSpan
  | [] => []
  | statement :: others =>
    ⟨(script.rootSpan statement).offset,
      script.statementEnd statement others - (script.rootSpan statement).offset⟩ ::
        statementSpans others

/-! ## The descriptions -/

/-- The inner loop, from `begin`, `end` and `cursor` on and with the comments behind `end`. -/
def leadingBlock (statementBegin : ℕ) : List TextSpan → ℕ → ℕ → ℕ → ℕ × ℕ × ℕ
  | [], begin, stop, cursor => (begin, stop, cursor)
  | comment :: rest, begin, stop, cursor =>
    if comment.offset < statementBegin then
      let allowed := if stop = begin
        then isLeadingDescriptionCommentGap script.input cursor comment
        else isDescriptionGap script.input cursor comment.offset
      leadingBlock statementBegin rest (if allowed then begin else stop + 1) (stop + 1)
        comment.stop
    else (begin, stop, cursor)

/-- The number of comments up to the first one that does not begin before a position. -/
def skipComments (commentCursor previousEnd : ℕ) : ℕ :=
  commentCursor + ((script.comments.drop commentCursor).takeWhile fun comment =>
    comment.offset < previousEnd).length

/-- The second loop. -/
def describe : List TextSpan → ℕ → ℕ → List StatementDescription
  | [], _, _ => []
  | span :: spans, commentCursor, previousEnd =>
    let start := script.skipComments commentCursor previousEnd
    let (begin, stop, cursor) :=
      script.leadingBlock span.offset (script.comments.drop start) start start previousEnd
    (if begin < stop ∧ isDescriptionGap script.input cursor span.offset
      then ⟨span, begin, stop - begin⟩ else ⟨span, 0, 0⟩) :: describe spans stop span.stop

def associateDescriptions : List StatementDescription :=
  script.describe (script.statementSpans script.statements) 0 0

def block (description : StatementDescription) : List TextSpan :=
  (script.comments.drop description.descriptionBegin).take description.descriptionCount

/-- Only whitespace and semicolons stand between a comment and what begins behind it. -/
def Joined (comment : TextSpan) (begin : ℕ) : Prop :=
  comment.stop ≤ begin ∧ isDescriptionGap script.input comment.stop begin = true

/-- The description is a block of consecutive comments in front of its statement. -/
structure Described (description : StatementDescription) : Prop where
  inRange : description.descriptionBegin + description.descriptionCount ≤ script.comments.length
  joined : (script.block description).IsChain fun comment next => script.Joined comment next.offset
  last : ∀ comment ∈ (script.block description).getLast?,
    script.Joined comment description.statementSpan.offset
  inFront : ∀ comment ∈ script.block description,
    comment.stop ≤ description.statementSpan.offset

/-- A statement and its comments are behind an earlier statement, and so are its comments in the
list of all comments. -/
structure Follows (earlier description : StatementDescription) : Prop where
  statement : earlier.statementSpan.stop ≤ description.statementSpan.offset
  comments : ∀ comment ∈ script.block description, earlier.statementSpan.stop ≤ comment.offset
  apart : description.descriptionCount = 0 ∨ earlier.descriptionCount = 0 ∨
    earlier.descriptionBegin + earlier.descriptionCount ≤ description.descriptionBegin

variable {script : CommentedScript}

/-! ## The spans are in text order -/

variable {text : List UInt8} {comments : List TextSpan} {nextBegin cursor stop : ℕ}

theorem separatorEnd_bounds {fuel : ℕ}
    (h : separatorEnd text comments nextBegin fuel cursor = some stop) :
    cursor < stop ∧ stop ≤ nextBegin := by
  induction fuel generalizing cursor with
  | zero => cases h
  | succ fuel ih =>
    unfold separatorEnd at h
    split at h
    · cases h
    · split at h
      next comment hfind =>
        have hcovers : comment.offset ≤ cursor ∧ cursor < comment.stop := by
          simpa using find?_some hfind
        exact ⟨hcovers.2.trans (ih h).1, (ih h).2⟩
      next =>
        split at h
        · obtain rfl := Option.some.inj h
          omega
        · exact ⟨Nat.lt_of_succ_lt (ih h).1, (ih h).2⟩

theorem le_statementSourceEnd : stop ≤ statementSourceEnd text nextBegin comments stop := by
  induction comments generalizing stop with
  | nil => exact le_rfl
  | cons comment comments ih =>
    unfold statementSourceEnd
    split_ifs with hskip
    · exact ih
    · exact le_rfl
    · refine le_trans ?_ (@ih comment.stop)
      unfold TextSpan.stop
      omega
    · exact le_rfl

theorem statementSourceEnd_le
    (happart : ∀ comment ∈ comments, comment.offset < nextBegin → comment.stop ≤ nextBegin)
    (hstop : stop ≤ nextBegin) :
    statementSourceEnd text nextBegin comments stop ≤ nextBegin := by
  induction comments generalizing stop with
  | nil => exact hstop
  | cons comment comments ih =>
    obtain ⟨hcomment, hcomments⟩ := forall_mem_cons.mp happart
    unfold statementSourceEnd
    split_ifs with hskip
    · exact ih hcomments hstop
    · exact hstop
    · exact ih hcomments (hcomment (by omega))
    · exact hstop

theorem stop_le_statementEnd (statement : Statement) (others : List Statement) :
    (script.rootSpan statement).stop ≤ script.statementEnd statement others := by
  refine le_trans ?_ le_statementSourceEnd
  cases h : separatorEnd script.input script.comments _ _ (script.rootSpan statement).stop with
  | none => exact le_rfl
  | some e => exact (separatorEnd_bounds h).1.le

theorem statementEnd_le {statement other : Statement} {others : List Statement}
    (hother : other ∈ script.statements)
    (hle : (script.rootSpan statement).stop ≤ (script.rootSpan other).offset) :
    script.statementEnd statement (other :: others) ≤ (script.rootSpan other).offset := by
  refine statementSourceEnd_le
    (fun comment hcomment => script.begins_apart comment hcomment other hother) ?_
  cases h : separatorEnd script.input script.comments _ _ (script.rootSpan statement).stop with
  | none => exact hle
  | some e => exact (separatorEnd_bounds h).2

/-- The span of a statement begins with its root and contains it. -/
def Extends (script : CommentedScript) (statement : Statement) (span : TextSpan) : Prop :=
  span.offset = (script.rootSpan statement).offset ∧ (script.rootSpan statement).stop ≤ span.stop

theorem extends_statementSpans (statements : List Statement) :
    Forall₂ script.Extends statements (script.statementSpans statements) := by
  induction statements with
  | nil => exact .nil
  | cons statement others ih =>
    refine .cons ⟨rfl, ?_⟩ ih
    have hle := @stop_le_statementEnd script statement others
    unfold TextSpan.stop at hle ⊢
    dsimp only
    omega

theorem exists_statement {statements : List Statement} {spans : List TextSpan}
    (h : Forall₂ script.Extends statements spans) {span : TextSpan} (hspan : span ∈ spans) :
    ∃ statement ∈ statements, script.Extends statement span := by
  induction h with
  | nil => cases hspan
  | cons hhead _ ih =>
    rcases mem_cons.mp hspan with rfl | hrest
    · exact ⟨_, mem_cons_self, hhead⟩
    · obtain ⟨statement, hmem, hextends⟩ := ih hrest
      exact ⟨statement, mem_cons_of_mem _ hmem, hextends⟩

theorem statementSpans_sorted {statements : List Statement}
    (hsub : statements.Sublist script.statements) :
    (script.statementSpans statements).Pairwise fun span other => span.stop ≤ other.offset := by
  induction statements with
  | nil => exact .nil
  | cons statement others ih =>
    have hsorted := script.statements_sorted.sublist hsub
    refine .cons (fun span hspan => ?_) (ih ((sublist_cons_self ..).trans hsub))
    obtain ⟨other, hother, hbegin, -⟩ := exists_statement (extends_statementSpans others) hspan
    rw [hbegin]
    cases others with
    | nil => cases hother
    | cons next rest =>
      obtain ⟨hhead, hrest⟩ := pairwise_cons.mp hsorted
      have hnext := @statementEnd_le script statement next rest
        (hsub.subset (mem_cons_of_mem _ mem_cons_self)) (hhead next mem_cons_self)
      have hroot := @stop_le_statementEnd script statement (next :: rest)
      have hlater : (script.rootSpan next).offset ≤ (script.rootSpan other).offset := by
        rcases mem_cons.mp hother with rfl | hlater
        · exact le_rfl
        · exact (Nat.le_add_right _ _).trans ((pairwise_cons.mp hrest).1 other hlater)
      unfold TextSpan.stop at hroot ⊢
      dsimp only
      omega

/-! ## The blocks -/

/-- What the inner loop has collected: the comments in front of the block, the block, and the
comments that are still to come. -/
structure Collected (script : CommentedScript) (statementBegin : ℕ)
    (before block rest : List TextSpan) (cursor : ℕ) : Prop where
  split : script.comments = before ++ (block ++ rest)
  joined : block.IsChain fun comment next => script.Joined comment next.offset
  last : ∀ comment ∈ block.getLast?, comment.stop = cursor
  inFront : ∀ comment ∈ block, comment.offset < statementBegin

variable {statementBegin cursor : ℕ} {before block rest : List TextSpan} {comment : TextSpan}

theorem Collected.discard
    (h : Collected script statementBegin before block (comment :: rest) cursor) :
    Collected script statementBegin (before ++ block ++ [comment]) [] rest comment.stop where
  split := by
    rw [h.split]
    simp
  joined := isChain_nil
  last := by simp
  inFront := by simp

theorem Collected.extend (h : Collected script statementBegin before block (comment :: rest) cursor)
    (hbegin : comment.offset < statementBegin)
    (hgap : block ≠ [] → isDescriptionGap script.input cursor comment.offset = true) :
    Collected script statementBegin before (block ++ [comment]) rest comment.stop where
  split := by
    rw [h.split, append_assoc]
    rfl
  joined := by
    refine h.joined.append (isChain_singleton _) fun last hlast next hnext => ?_
    obtain rfl : comment = next := by simpa using hnext
    have hsorted := script.comments_sorted
    rw [h.split, pairwise_append, pairwise_append] at hsorted
    refine ⟨hsorted.2.1.2.2 last (mem_of_getLast? hlast) comment mem_cons_self, ?_⟩
    rw [h.last last hlast]
    exact hgap (ne_nil_of_mem (mem_of_getLast? hlast))
  last := by simp
  inFront := forall_mem_append.mpr ⟨h.inFront, by simpa using hbegin⟩

/-- The inner loop leaves a block of consecutive comments. -/
theorem leadingBlock_spec (h : Collected script statementBegin before block rest cursor) :
    ∃ before' block' rest' cursor', Collected script statementBegin before' block' rest' cursor' ∧
      script.leadingBlock statementBegin rest before.length (before.length + block.length) cursor =
        (before'.length, before'.length + block'.length, cursor') ∧
      before.length ≤ before'.length := by
  induction rest generalizing before block cursor with
  | nil => exact ⟨before, block, [], cursor, h, rfl, le_rfl⟩
  | cons comment rest ih =>
    unfold leadingBlock
    by_cases hbegin : comment.offset < statementBegin
    · rw [if_pos hbegin]
      generalize hallowed : (if before.length + block.length = before.length
        then isLeadingDescriptionCommentGap script.input cursor comment
        else isDescriptionGap script.input cursor comment.offset) = allowed
      cases allowed with
      | false =>
        -- the block starts anew behind the comment
        obtain ⟨before', block', rest', cursor', hcollected, hloop, hle⟩ := ih h.discard
        simp only [length_append, length_singleton, length_nil, Nat.add_zero] at hloop hle
        exact ⟨before', block', rest', cursor', hcollected, by simpa [hallowed] using hloop,
          by omega⟩
      | true =>
        have hgap (hne : block ≠ []) :
            isDescriptionGap script.input cursor comment.offset = true := by
          have := length_pos_iff.mpr hne
          rwa [if_neg (by omega)] at hallowed
        obtain ⟨before', block', rest', cursor', hcollected, hloop, hle⟩ :=
          ih (h.extend hbegin hgap)
        rw [length_append, length_singleton, ← Nat.add_assoc] at hloop
        exact ⟨before', block', rest', cursor', hcollected, by simpa [hallowed] using hloop, hle⟩
    · rw [if_neg hbegin]
      exact ⟨before, block, comment :: rest, cursor, h, rfl, le_rfl⟩

theorem le_of_mem_drop_takeWhile {comments : List TextSpan} {previousEnd : ℕ}
    (hsorted : comments.Pairwise fun comment other => comment.stop ≤ other.offset)
    (h : comment ∈ comments.drop (comments.takeWhile (·.offset < previousEnd)).length) :
    previousEnd ≤ comment.offset := by
  induction comments with
  | nil => simp at h
  | cons first rest ih =>
    obtain ⟨hfirst, hrest⟩ := pairwise_cons.mp hsorted
    by_cases hlt : first.offset < previousEnd
    · rw [takeWhile_cons_of_pos (by simpa using hlt), length_cons, drop_succ_cons] at h
      exact ih hrest h
    · rw [takeWhile_cons_of_neg (by simpa using hlt)] at h
      rcases mem_cons.mp h with rfl | hlater
      · omega
      · have := hfirst comment hlater
        unfold TextSpan.stop at this
        omega

/-- What a round of the second loop says about its description. -/
structure Placed (script : CommentedScript) (commentCursor previousEnd : ℕ)
    (description : StatementDescription) : Prop extends script.Described description where
  behind : ∀ comment ∈ script.block description, previousEnd ≤ comment.offset
  later : description.descriptionCount = 0 ∨ commentCursor ≤ description.descriptionBegin

theorem Collected.placed {span : TextSpan} {commentCursor previousEnd : ℕ}
    (h : Collected script span.offset before block rest cursor)
    (happart : ∀ comment ∈ script.comments,
      comment.offset < span.offset → comment.stop ≤ span.offset)
    (hbehind : ∀ comment ∈ block, previousEnd ≤ comment.offset)
    (hcursor : commentCursor ≤ before.length)
    (hgap : isDescriptionGap script.input cursor span.offset = true) :
    script.Placed commentCursor previousEnd ⟨span, before.length, block.length⟩ := by
  have hblock : script.block ⟨span, before.length, block.length⟩ = block := by
    rw [CommentedScript.block, h.split, drop_left, take_left]
  have hinFront (comment) (hcomment : comment ∈ block) : comment.stop ≤ span.offset := by
    refine happart comment ?_ (h.inFront comment hcomment)
    rw [h.split]
    exact mem_append_right _ (mem_append_left _ hcomment)
  refine ⟨⟨?_, hblock.symm ▸ h.joined, fun comment hlast => ?_, hblock.symm ▸ hinFront⟩,
    hblock.symm ▸ hbehind, .inr hcursor⟩
  · rw [h.split, length_append, length_append]
    exact Nat.add_le_add_left (Nat.le_add_right _ _) _
  · rw [hblock] at hlast
    refine ⟨hinFront comment (mem_of_getLast? hlast), ?_⟩
    rw [h.last comment hlast]
    exact hgap

theorem placed_nothing (span : TextSpan) (commentCursor previousEnd : ℕ) :
    script.Placed commentCursor previousEnd ⟨span, 0, 0⟩ := by
  have hblock : script.block ⟨span, 0, 0⟩ = [] := take_zero
  refine ⟨⟨Nat.zero_le _, ?_, ?_, ?_⟩, ?_, .inl rfl⟩ <;> rw [hblock]
  · exact isChain_nil
  all_goals simp

/-- One round of the second loop. -/
theorem describe_cons {span : TextSpan} {spans : List TextSpan} {commentCursor previousEnd : ℕ}
    (hcursor : commentCursor ≤ script.comments.length) (happart : ∀ comment ∈ script.comments,
      comment.offset < span.offset → comment.stop ≤ span.offset) :
    ∃ description stop, script.describe (span :: spans) commentCursor previousEnd =
        description :: script.describe spans stop span.stop ∧ description.statementSpan = span ∧
      script.Placed commentCursor previousEnd description ∧
      description.descriptionBegin + description.descriptionCount ≤ stop ∧
      commentCursor ≤ stop ∧ stop ≤ script.comments.length := by
  generalize hstart : script.skipComments commentCursor previousEnd = start at *
  have hlength : commentCursor ≤ start ∧ start ≤ script.comments.length := by
    have := (takeWhile_sublist (fun comment : TextSpan => decide (comment.offset < previousEnd))
      (l := script.comments.drop commentCursor)).length_le
    rw [length_drop] at this
    unfold skipComments at hstart
    omega
  obtain ⟨before, block, rest, cursor, hcollected, hloop, hle⟩ :=
    @leadingBlock_spec script span.offset previousEnd (script.comments.take start) []
      (script.comments.drop start) ⟨(take_append_drop ..).symm, isChain_nil, by simp, by simp⟩
  simp only [length_nil, Nat.add_zero, length_take_of_le hlength.2] at hloop hle
  have hsplit := congrArg List.length hcollected.split
  rw [length_append, length_append] at hsplit
  have hbehind (comment) (hcomment : comment ∈ block) : previousEnd ≤ comment.offset := by
    refine le_of_mem_drop_takeWhile
      (script.comments_sorted.sublist (drop_sublist commentCursor _)) ?_
    rw [drop_drop, ← skipComments, hstart, hcollected.split, drop_append_of_le_length hle]
    exact mem_append_right _ (mem_append_left _ hcomment)
  have hround := describe.eq_2 script commentCursor previousEnd span spans
  simp only [hstart, hloop, Nat.add_sub_cancel_left] at hround
  rw [hround]
  by_cases hblock : before.length < before.length + block.length ∧
      isDescriptionGap script.input cursor span.offset = true
  · rw [if_pos hblock]
    exact ⟨_, before.length + block.length, rfl, rfl,
      hcollected.placed happart hbehind (hlength.1.trans hle) hblock.2, le_rfl, by omega, by omega⟩
  · rw [if_neg hblock]
    exact ⟨_, before.length + block.length, rfl, rfl, placed_nothing .., Nat.zero_le _, by omega,
      by omega⟩

theorem describe_spec {spans : List TextSpan} {commentCursor previousEnd : ℕ}
    (hcursor : commentCursor ≤ script.comments.length)
    (hsorted : spans.Pairwise fun span other => span.stop ≤ other.offset)
    (hprevious : ∀ span ∈ spans, previousEnd ≤ span.offset)
    (happart : ∀ span ∈ spans, ∀ comment ∈ script.comments,
      comment.offset < span.offset → comment.stop ≤ span.offset) :
    (script.describe spans commentCursor previousEnd).map StatementDescription.statementSpan =
        spans ∧
      (∀ description ∈ script.describe spans commentCursor previousEnd,
        script.Placed commentCursor previousEnd description) ∧
      (script.describe spans commentCursor previousEnd).Pairwise script.Follows := by
  induction spans generalizing commentCursor previousEnd with
  | nil => exact ⟨rfl, by simp [describe], .nil⟩
  | cons span spans ih =>
    obtain ⟨description, stop, heq, hspan, hplaced, hle, hcursorStop, hstop⟩ :=
      @describe_cons script span spans commentCursor previousEnd hcursor
        (happart span mem_cons_self)
    obtain ⟨hhead, htail⟩ := pairwise_cons.mp hsorted
    obtain ⟨hmap, hrest, hpairwise⟩ := @ih stop span.stop hstop htail hhead
      fun other hother => happart other (mem_cons_of_mem _ hother)
    rw [heq]
    have hlater (other) (hother : other ∈ script.describe spans stop span.stop) :
        script.Placed commentCursor previousEnd other ∧ script.Follows description other := by
      obtain ⟨hdescribed, hbehind, hlater⟩ := hrest other hother
      have hspanOther : other.statementSpan ∈ spans := hmap ▸ mem_map_of_mem hother
      have hprevious : previousEnd ≤ span.stop :=
        (hprevious span mem_cons_self).trans (Nat.le_add_right _ _)
      refine ⟨⟨hdescribed, fun comment hcomment => hprevious.trans (hbehind comment hcomment),
        hlater.imp_right hcursorStop.trans⟩, ?_, ?_, ?_⟩
      · rw [hspan]
        exact hhead _ hspanOther
      · rw [hspan]
        exact hbehind
      · exact hlater.imp_right fun hle' => .inr (hle.trans hle')
    refine ⟨by rw [map_cons, hspan, hmap], ?_, .cons (fun other hother => (hlater other hother).2)
      hpairwise⟩
    exact forall_mem_cons.mpr ⟨hplaced, fun other hother => (hlater other hother).1⟩

/-- The descriptions of a script are blocks of consecutive comments between their statements, and
the blocks and the statements appear in text order. -/
theorem associateDescriptions_placed (script : CommentedScript) :
    Forall₂ (fun statement description => script.Extends statement description.statementSpan)
        script.statements script.associateDescriptions ∧
      (∀ description ∈ script.associateDescriptions, script.Described description) ∧
      script.associateDescriptions.Pairwise script.Follows := by
  have hextends := @extends_statementSpans script script.statements
  obtain ⟨hspans, hplaced, hfollows⟩ := @describe_spec script _ 0 0 (Nat.zero_le _)
    (statementSpans_sorted (Sublist.refl script.statements)) (fun _ _ => Nat.zero_le _)
    fun span hspan comment hcomment hlt => by
      obtain ⟨statement, hstatement, hbegin, -⟩ := exists_statement hextends hspan
      rw [hbegin] at hlt ⊢
      exact script.begins_apart comment hcomment statement hstatement hlt
  refine ⟨?_, fun description hmem => (hplaced description hmem).toDescribed, hfollows⟩
  rw [← hspans] at hextends
  exact forall₂_map_right_iff.mp hextends

/-- Two line comments that describe one statement, and one that trails it. -/
def twoLines : CommentedScript where
  scannedScript :=
    { textBuffer := ['-', '-', 'a', '\n', '-', '-', 'b', '\n', 'c', ';', ' ', '-', '-', 'd', '\n',
        'e', '\x00', '\x00'].map Char.toUInt8
      symbols := [⟨8, 1⟩, ⟨9, 1⟩, ⟨15, 1⟩]
      names := [] }
  nodes := [{ symbolSpan := ⟨0, 1⟩ }, { symbolSpan := ⟨2, 1⟩ }]
  statements := [⟨0⟩, ⟨1⟩]
  children_below := by decide
  comments := [⟨0, 3⟩, ⟨4, 3⟩, ⟨11, 3⟩]
  comments_sorted := by decide
  statements_sorted := by decide
  begins_apart := by decide

example : twoLines.associateDescriptions = [⟨⟨8, 6⟩, 0, 2⟩, ⟨⟨15, 1⟩, 0, 0⟩] := by decide

end CommentedScript

end DashQL.ScriptDiff
