import DashQL.Parser.SuffixProbe
import Mathlib

/-!
# Parsing up to a target

A watched parse of the edited tokens does what the prefix parse did until the target is
reached: it is then about to read the first symbol of the feed, with the states of the
snapshot (`exists_target`).
-/

namespace DashQL.Parser

open List Option

open Machines

variable {tables : Tables}

/-! ## Jumps -/

section Jumps

variable {parser parser' : ParserState} {kind : SymbolKind}

/-- Where the driver jumps to does not depend on the error status, nor on the scanner. -/
theorem yynewstate_congr (hstack : parser.yystack = parser'.yystack)
    (hla : parser.yyla = parser'.yyla) (hlac : parser.yyLacEstablished = parser'.yyLacEstablished) :
    yynewstate tables parser = yynewstate tables parser' := by
  unfold yynewstate
  rw [hstack, hla, hlac]

/-- A state that reads needs a lookahead and has none. -/
theorem of_jump_read (h : yynewstate tables parser = .read) :
    parser.yyla = none ∧
      tables.yypactValueIsDefault (tables.yypact (parser.yystack.headD 0)) = false := by
  unfold yynewstate yydefault at h
  cases hla : parser.yyla with
  | none =>
    refine ⟨rfl, ?_⟩
    by_contra hpact
    rw [Bool.not_eq_false] at hpact
    simp only [hpact, if_true] at h
    split_ifs at h
  | some kind =>
    simp only [hla, yybackup, yyLacEstablish, yydefault] at h
    split_ifs at h

/-- Without a lookahead there is nothing to establish. -/
theorem established_of_jump {rule : ℕ} {established : Bool} (hla : parser.yyla = none)
    (h : yynewstate tables parser = .yyreduce rule established) :
    established = parser.yyLacEstablished := by
  unfold yynewstate yydefault at h
  simp only [hla] at h
  split_ifs at h
  exact (Jump.yyreduce.inj h).2.symm

theorem lookahead_of_jump_shift {state : State} (h : yynewstate tables parser = .shift state) :
    ∃ kind, parser.yyla = some kind := by
  cases hla : parser.yyla with
  | some kind => exact ⟨kind, rfl⟩
  | none =>
    unfold yynewstate yydefault at h
    simp only [hla] at h
    split_ifs at h

theorem lookahead_of_jump_yyerrlab1 (h : yynewstate tables parser = .yyerrlab1) :
    parser.yyla = some yyerror := by
  unfold yynewstate yydefault at h
  cases hla : parser.yyla with
  | none =>
    simp only [hla] at h
    split_ifs at h
  | some kind =>
    by_contra hne
    have hkind : kind ≠ yyerror := fun heq => hne (by rw [heq])
    simp only [hla, yybackup, yyLacEstablish, yydefault, hkind, if_false] at h
    split_ifs at h

/-- What is known of a lookahead that lookahead correction has accepted. -/
structure Accepted (tables : Tables) (parser : ParserState) (kind : SymbolKind) : Prop where
  lookahead : parser.yyla = some kind
  token : kind ≠ yyerror
  shifts : tables.Shifts kind parser.yystack
  established : parser.yyLacEstablished = true ∨
    tables.yyLacCheck parser.yystack kind = true ∧
      tables.yypactValueIsDefault (tables.yypact (parser.yystack.headD 0)) = false

section

variable (h : Accepted tables parser kind)

include h

/-- A lookahead that was accepted is shifted, after reductions or at once. -/
theorem Accepted.jump :
    yynewstate tables parser = .yyacceptlab ∨
      (∃ state, yynewstate tables parser = .shift state) ∨
      ∃ rule, yynewstate tables parser = .yyreduce rule true ∧
        tables.Shifts kind (tables.reduce rule parser.yystack) := by
  unfold yynewstate
  simp only [h.lookahead]
  by_cases hfinal : parser.yystack.headD 0 = tables.yyfinal
  · exact .inl (if_pos hfinal)
  rw [if_neg hfinal]
  have hestablish : ∀ next, tables.yypactValueIsDefault
      (tables.yypact (parser.yystack.headD 0)) = false →
      yyLacEstablish tables parser.yystack kind parser.yyLacEstablished next = next := by
    intro next _
    unfold yyLacEstablish
    apply if_pos
    rcases h.established with hlac | ⟨hcheck, -⟩
    · rw [hlac, Bool.true_or]
    · rw [hcheck, Bool.or_true]
  cases h.shifts with
  | shift hpact hentry herror hshift =>
    refine .inr (.inl ⟨(tables.yytable (tables.index (parser.yystack.headD 0) kind)).toNat, ?_⟩)
    simp only [hpact, Bool.false_eq_true, if_false, yybackup, h.token, hentry]
    rw [if_neg (not_le.mpr hshift)]
  | reduce hpact hentry herror hreduce hrest =>
    refine .inr (.inr ⟨_, ?_, hrest⟩)
    simp only [hpact, Bool.false_eq_true, if_false, yybackup, h.token, hentry, herror]
    rw [if_pos hreduce, hestablish _ hpact]
  | default hdefault hrule hrest =>
    refine .inr (.inr ⟨_, ?_, hrest⟩)
    cases hpact : tables.yypactValueIsDefault (tables.yypact (parser.yystack.headD 0)) with
    | true =>
      rw [if_pos rfl, yydefault, if_neg hrule]
      rcases h.established with hlac | ⟨-, hnot⟩
      · rw [hlac]
      · rw [hpact] at hnot
        cases hnot
    | false =>
      have hlacks : tables.lacks (parser.yystack.headD 0) kind = true :=
        hdefault.resolve_left (by rw [hpact]; exact Bool.false_ne_true)
      simp only [Bool.false_eq_true, if_false, yybackup, h.token, hlacks, if_true]
      rw [hestablish _ hpact, yydefault, if_neg hrule]

/-- An accepted lookahead leads to no error. -/
theorem Accepted.jump_ne_yyerrlab (established : Bool) :
    yynewstate tables parser ≠ .yyerrlab established := by
  intro hjump
  rcases h.jump with hend | hshift | hreduce
  · rw [hjump] at hend
    cases hend
  · obtain ⟨state, hshift⟩ := hshift
    rw [hjump] at hshift
    cases hshift
  · obtain ⟨rule, hreduce, -⟩ := hreduce
    rw [hjump] at hreduce
    cases hreduce

theorem Accepted.jump_ne_yyerrlab1 : yynewstate tables parser ≠ .yyerrlab1 := by
  intro hjump
  have hla := lookahead_of_jump_yyerrlab1 hjump
  rw [h.lookahead] at hla
  exact h.token (some.inj hla)

end

end Jumps

/-! ## Observations -/

section Observations

variable {target pending tokens : ℕ} {events more : List Event} {observation : Observation}

theorem observe_read (position : ℕ) :
    observe pending tokens (.read position :: events) = observe pending tokens events := by
  cases pending <;> rfl

theorem observe_accepted : observe pending tokens (.accepted :: events) = some ⟨tokens, true⟩ := by
  cases pending <;> rfl

theorem observe_failed : observe pending tokens (.failed :: events) = some ⟨tokens, false⟩ := by
  cases pending <;> rfl

/-- An observation is not changed by what follows. -/
theorem observe_append : ∀ {events : List Event} {pending tokens : ℕ},
    observe pending tokens events = some observation →
    observe pending tokens (events ++ more) = some observation := by
  intro events
  induction events with
  | nil =>
    intro pending tokens h
    rw [observe] at h
    cases h
  | cons event events ih =>
    intro pending tokens h
    rw [cons_append]
    cases event with
    | read position =>
      rw [observe_read] at h ⊢
      exact ih h
    | shifted kind =>
      cases pending with
      | zero =>
        simp only [observe] at h ⊢
        exact ih h
      | succ pending =>
        simp only [observe] at h ⊢
        exact ih h
    | accepted =>
      rw [observe_accepted] at h ⊢
      exact h
    | failed =>
      rw [observe_failed] at h ⊢
      exact h

theorem fromTarget_append_of_not_read (h : ∀ event ∈ events, event ≠ .read target) :
    fromTarget target (events ++ .read target :: more) = .read target :: more := by
  unfold fromTarget
  rw [dropWhile_append_of_pos]
  · rw [dropWhile_cons_of_neg]
    simp
  · intro event hevent
    exact decide_eq_true (h event hevent)

theorem observe_fromTarget_append
    (h : observe pending tokens (fromTarget target events) = some observation) :
    observe pending tokens (fromTarget target (events ++ more)) = some observation := by
  unfold fromTarget at h ⊢
  rw [dropWhile_append]
  split_ifs with hempty
  · rw [List.isEmpty_iff.mp hempty, observe] at h
    cases h
  · exact observe_append h

theorem exists_eventsOf_proceed (parser : Option ParserState) (events : List Event) :
    ∃ more, eventsOf (proceed parser events) = events ++ more := by
  cases parser with
  | none => exact ⟨[.failed], rfl⟩
  | some parser => exact ⟨[], (append_nil _).symm⟩

/-- A watched parse writes down more and more. -/
theorem exists_eventsOf_step (kinds : List SymbolKind) (w : ParserState × List Event) :
    ∃ more, eventsOf (driveStep tables kinds watchPolicy w) = w.2 ++ more := by
  obtain ⟨parser, events⟩ := w
  cases hjump : yynewstate tables parser with
  | yyacceptlab =>
    refine ⟨[.accepted, .failed], ?_⟩
    rw [driveStep_accept hjump]
    exact append_assoc _ _ _
  | read => exact ⟨_, by rw [driveStep_read hjump rfl]; rfl⟩
  | yyreduce rule established =>
    rw [driveStep_reduce hjump]
    exact ⟨[], (append_nil _).symm⟩
  | shift state =>
    obtain ⟨kind, hla⟩ := lookahead_of_jump_shift hjump
    exact ⟨_, by rw [driveStep_shift hjump hla]; rfl⟩
  | yyerrlab established =>
    rw [driveStep_error hjump rfl]
    obtain ⟨more, hmore⟩ := exists_eventsOf_proceed
      (yyerrlab tables { parser with yyLacEstablished := established }) (events ++ [.failed])
    exact ⟨[.failed] ++ more, hmore.trans (append_assoc _ _ _)⟩
  | yyerrlab1 =>
    rw [driveStep_error_token hjump]
    exact exists_eventsOf_proceed _ _

/-- The probe that a watched parse deserves so far. -/
def seenProbe (feedSymbols : List SymbolKind) (target : ℕ)
    (outcome : ParserState × List Event ⊕ List Event) : Option SuffixProbe :=
  (observe feedSymbols.length 0 (fromTarget target (eventsOf outcome))).map Observation.toProbe

theorem lasting_seenProbe (kinds feedSymbols : List SymbolKind) (target : ℕ) :
    Lasting (driveStep tables kinds watchPolicy) (seenProbe feedSymbols target) := by
  intro w probe hseen
  obtain ⟨observation, hobserved, rfl⟩ := map_eq_some_iff.mp hseen
  obtain ⟨more, hmore⟩ := @exists_eventsOf_step tables kinds w
  have hlater : observe feedSymbols.length 0
      (fromTarget target (eventsOf (driveStep tables kinds watchPolicy w))) = some observation := by
    rw [hmore]
    exact observe_fromTarget_append hobserved
  unfold seenProbe
  rw [hlater]
  rfl

end Observations

/-! ## Reading the edited tokens -/

section Reading

variable {kinds feedSymbols : List SymbolKind} {target position : ℕ} {replaceTarget : Bool}

/-- How many of the tokens the first feed symbol stands for. -/
def replacedTokens (replaceTarget : Bool) : ℕ := if replaceTarget then 1 else 0

theorem editedKinds_eq : editedKinds kinds target feedSymbols replaceTarget =
    kinds.take target ++ (feedSymbols ++ kinds.drop (target + replacedTokens replaceTarget)) := by
  unfold editedKinds replacedTokens
  rw [append_assoc]
  cases replaceTarget <;> rfl

theorem getElem?_editedKinds_before (hposition : position < target)
    (htarget : target ≤ kinds.length) :
    (editedKinds kinds target feedSymbols replaceTarget)[position]? = kinds[position]? := by
  have hlength : (kinds.take target).length = target := by simp [htarget]
  rw [editedKinds_eq, getElem?_append_left (by omega), getElem?_take_of_lt hposition]

theorem getElem?_editedKinds_feed {fed : ℕ} (hfed : fed < feedSymbols.length)
    (htarget : target ≤ kinds.length) :
    (editedKinds kinds target feedSymbols replaceTarget)[target + fed]? = feedSymbols[fed]? := by
  have hlength : (kinds.take target).length = target := by simp [htarget]
  rw [editedKinds_eq, getElem?_append_right (by omega), hlength, Nat.add_sub_cancel_left,
    getElem?_append_left hfed]

theorem getElem?_editedKinds_behind {edited : ℕ} (htarget : target ≤ kinds.length)
    (hbehind : target + replacedTokens replaceTarget ≤ position)
    (hedited : edited + replacedTokens replaceTarget = position + feedSymbols.length) :
    (editedKinds kinds target feedSymbols replaceTarget)[edited]? = kinds[position]? := by
  have hlength : (kinds.take target).length = target := by simp [htarget]
  rw [editedKinds_eq, getElem?_append_right (by omega), hlength,
    getElem?_append_right (by omega), getElem?_drop]
  congr 1
  omega

end Reading

/-! ## The prefix -/

section Prefix

variable {stream : TokenStream} {target : ℕ} {feedSymbols : List SymbolKind} {replaceTarget : Bool}

/-- Error recovery reads nothing, and drops what lookahead correction had established. -/
theorem of_yyerrlab1 {parser parser' : ParserState} (h : yyerrlab1 tables parser = some parser') :
    parser'.position = parser.position ∧ parser'.yyLacEstablished = false := by
  obtain ⟨yystack, -, rfl⟩ := map_eq_some_iff.mp h
  exact ⟨rfl, rfl⟩

theorem of_yyerrlab {parser parser' : ParserState} (h : yyerrlab tables parser = some parser') :
    parser'.position = parser.position ∧ parser'.yyLacEstablished = false := by
  unfold yyerrlab at h
  split_ifs at h
  · have hspec := of_yyerrlab1 h
    exact hspec
  · exact of_yyerrlab1 h

theorem atLeast_iff {position : ℕ} (h : position ≤ target) :
    stream.atLeast position target = true ↔ position = target := by
  have hchunks := stream.chunks h
  simp only [TokenStream.atLeast, Bool.or_eq_true, decide_eq_true_eq]
  exact or_iff_right (not_lt.mpr hchunks)

theorem nextSymbol_of_lt {kinds : List SymbolKind} {position : ℕ} (h : position < kinds.length) :
    TokenStream.nextSymbol kinds position = (kinds[position], position + 1) := by
  simp only [TokenStream.nextSymbol, getElem?_eq_getElem h]

/-- Where the watched parse is while the prefix is parsed. -/
structure Following (target : ℕ) (prefixConfig : ParserState × PrefixSnapshot)
    (watched : ParserState × List Event) : Prop where
  same : watched.1 = prefixConfig.1
  unreached : prefixConfig.2 = {}
  position_le : prefixConfig.1.position ≤ target
  nothing_established : prefixConfig.1.yyla = none → prefixConfig.1.yyLacEstablished = false
  target_unread : ∀ event ∈ watched.2, event ≠ .read target

/-- The watched parse is about to read the target, with the states of the snapshot. -/
structure AtTarget (tables : Tables) (target : ℕ) (snapshot : PrefixSnapshot)
    (watched : ParserState × List Event) : Prop where
  yystack : watched.1.yystack = snapshot.stateStack.reverse
  jump : yynewstate tables watched.1 = .read
  yyla : watched.1.yyla = none
  yyLacEstablished : watched.1.yyLacEstablished = false
  position : watched.1.position = target
  target_unread : ∀ event ∈ watched.2, event ≠ .read target

theorem following_step (htarget : target < stream.kinds.length) {snapshot : PrefixSnapshot}
    (hreached : snapshot.reachedTarget = true) (config : ParserState × PrefixSnapshot)
    (watched : ParserState × List Event) (h : Following target config watched) :
    Sum.elim
      (fun config' => ∃ watched',
        driveStep tables (editedKinds stream.kinds target feedSymbols replaceTarget) watchPolicy
          watched = .inl watched' ∧ Following target config' watched')
      (fun result => result = snapshot → AtTarget tables target snapshot watched)
      (driveStep tables stream.kinds (prefixCapturePolicy stream target) config) := by
  obtain ⟨parser, out⟩ := config
  obtain ⟨parser', events⟩ := watched
  obtain rfl : parser' = parser := h.same
  obtain rfl : out = {} := h.unreached
  let hooks := prefixCapturePolicy stream target
  -- a parse that ends in front of the target leaves no snapshot
  have hended : ∀ result : PrefixSnapshot, result = {} → result = snapshot →
      AtTarget tables target snapshot (parser', events) := by
    intro result hempty heq
    rw [← heq, hempty] at hreached
    cases hreached
  have hunread : ∀ more : List Event, (∀ event ∈ more, event ≠ .read target) →
      ∀ event ∈ events ++ more, event ≠ .read target := by
    intro more hmore event hevent
    cases mem_append.mp hevent with
    | inl hin => exact h.target_unread event hin
    | inr hin => exact hmore event hin
  have hproceed : ∀ (next : Option ParserState) (more : List Event),
      (∀ event ∈ more, event ≠ .read target) →
      (∀ parser, next = some parser →
        parser.position = parser'.position ∧ parser.yyLacEstablished = false) →
      Sum.elim (fun config' => ∃ watched', proceed next (events ++ more) = .inl watched' ∧
          Following target config' watched')
        (fun result => result = snapshot → AtTarget tables target snapshot (parser', events))
        (proceed next ({} : PrefixSnapshot)) := by
    intro next more hmore hnext
    cases next with
    | none => exact hended _ rfl
    | some parser =>
      obtain ⟨hposition, hlac⟩ := hnext parser rfl
      exact ⟨_, rfl, rfl, rfl, hposition.le.trans h.position_le, fun _ => hlac, hunread more hmore⟩
  cases hjump : yynewstate tables parser' with
  | yyacceptlab =>
    rw [@driveStep_accept _ tables stream.kinds hooks parser' {} hjump]
    exact hended _ rfl
  | read =>
    obtain ⟨hla, -⟩ := of_jump_read hjump
    rw [@driveStep_read _ tables stream.kinds hooks parser' {} hjump _ rfl]
    by_cases hposition : parser'.position = target
    · have hat : stream.atLeast parser'.position target = true :=
        (atLeast_iff h.position_le).mpr hposition
      simp only [hooks, prefixCapturePolicy, hat, if_true, Sum.elim_inr]
      intro heq
      refine ⟨?_, hjump, hla, h.nothing_established hla, hposition, h.target_unread⟩
      rw [← heq]
      simp
    · have hbefore : parser'.position < target := lt_of_le_of_ne h.position_le hposition
      have hat : stream.atLeast parser'.position target = false := by
        rw [← Bool.not_eq_true, atLeast_iff h.position_le]
        exact hposition
      have hread : TokenStream.nextSymbol
          (editedKinds stream.kinds target feedSymbols replaceTarget) parser'.position =
          (stream.kinds[parser'.position], parser'.position + 1) := by
        rw [← nextSymbol_of_lt (hbefore.trans htarget)]
        unfold TokenStream.nextSymbol
        rw [getElem?_editedKinds_before hbefore htarget.le]
      simp only [hooks, prefixCapturePolicy, hat, Bool.false_eq_true, if_false, Sum.elim_inl,
        nextSymbol_of_lt (hbefore.trans htarget)]
      refine ⟨_, driveStep_read hjump rfl, ?_⟩
      simp only [watchPolicy, hread]
      refine ⟨rfl, rfl, hbefore, ?_, hunread _ ?_⟩
      · intro hnone
        cases hnone
      · intro event hevent
        rw [mem_singleton.mp hevent]
        simpa using hposition
  | yyreduce rule established =>
    rw [@driveStep_reduce _ tables stream.kinds hooks parser' {} _ _ hjump, Sum.elim_inl]
    refine ⟨_, driveStep_reduce hjump, rfl, rfl, h.position_le, ?_, h.target_unread⟩
    intro hnone
    have hla : parser'.yyla = none := hnone
    have hlac : parser'.yyLacEstablished = false := h.nothing_established hla
    exact (established_of_jump hla hjump).trans hlac
  | shift state =>
    obtain ⟨kind, hla⟩ := lookahead_of_jump_shift hjump
    rw [@driveStep_shift _ tables stream.kinds hooks parser' {} _ _ hjump hla, Sum.elim_inl]
    refine ⟨_, driveStep_shift hjump hla, rfl, rfl, h.position_le, fun _ => rfl, hunread _ ?_⟩
    intro event hevent
    rw [mem_singleton.mp hevent]
    simp
  | yyerrlab established =>
    rw [@driveStep_error _ tables stream.kinds hooks parser' {} _ hjump _ rfl,
      driveStep_error hjump rfl]
    apply hproceed
    · intro event hevent
      rw [mem_singleton.mp hevent]
      simp
    · intro parser hparser
      exact of_yyerrlab hparser
  | yyerrlab1 =>
    rw [@driveStep_error_token _ tables stream.kinds hooks parser' {} hjump,
      driveStep_error_token hjump]
    have hnext := hproceed (yyerrlab1 tables { parser' with yyla := some yyundef }) []
      (fun event hevent => absurd hevent not_mem_nil)
      (fun parser hparser => by
        have hspec := of_yyerrlab1 hparser
        exact hspec)
    rw [append_nil] at hnext
    exact hnext

/-- When the prefix parse has captured its states, the watched parse is about to read the
target. -/
theorem exists_target (htarget : target < stream.kinds.length) {snapshot : PrefixSnapshot}
    {fuel : ℕ} (hparsed : parsePrefixToTarget tables stream target fuel = some snapshot)
    (hreached : snapshot.reachedTarget = true) :
    ∃ rounds watched,
      run (driveStep tables (editedKinds stream.kinds target feedSymbols replaceTarget)
        watchPolicy) rounds (initStack, []) = .inl watched ∧
      AtTarget tables target snapshot watched := by
  have hreturned : run (driveStep tables stream.kinds (prefixCapturePolicy stream target)) fuel
      (initStack, {}) = .inr snapshot := by
    unfold parsePrefixToTarget driveLALR at hparsed
    cases hrun : run (driveStep tables stream.kinds (prefixCapturePolicy stream target)) fuel
        (initStack, {}) with
    | inl config =>
      rw [hrun] at hparsed
      cases hparsed
    | inr result =>
      rw [hrun] at hparsed
      rw [some.inj hparsed]
  have hfollowing : Following target (initStack, ({} : PrefixSnapshot)) (initStack, []) :=
    ⟨rfl, rfl, Nat.zero_le _, fun _ => rfl, fun event hevent => absurd hevent not_mem_nil⟩
  exact exists_exit (Following target) (AtTarget tables target snapshot)
    (following_step htarget hreached) hfollowing hreturned

end Prefix

end DashQL.Parser
