import DashQL.Parser.SuffixProbes

/-!
# Probing a suffix is parsing it

The probe starts from states only: it forgets the error status, and the prefix is not
parsed again.  Behind the target its parser and that of the watched parse differ in the
error status alone, and that is not asked for before the first error (`lockstep_step`).

The first feed symbol has been accepted by lookahead correction, so that no error can
come in front of it (`Accepted.jump`).
-/

namespace DashQL.Parser

open List Option

open Machines

variable {tables : Tables}

/-! ## The suffix -/

section Suffix

variable {stream : TokenStream} {target : ℕ} {feedSymbols : List SymbolKind} {replaceTarget : Bool}

/-- The probe of so many tokens, as long as the end is not reached. -/
def probeOf (tokens : ℕ) : SuffixProbe := Observation.toProbe ⟨tokens, false⟩

theorem countToken_probeOf (tokens : ℕ) : (probeOf tokens).countToken = probeOf (tokens + 1) := by
  unfold SuffixProbe.countToken probeOf Observation.toProbe maxDepth
  rcases Nat.eq_zero_or_pos tokens with rfl | hpos
  · decide
  · have hdepth : min tokens 65535 ≠ 0 := by omega
    simp only [hdepth, if_false]
    split_ifs with hmax
    · simp only [SuffixProbe.mk.injEq, decide_eq_decide, and_true]
      omega
    · simp only [SuffixProbe.mk.injEq, decide_eq_decide, and_true]
      omega

/-- Where the watched parse is while the probe runs. -/
structure Lockstep (tables : Tables) (target : ℕ) (feedSymbols : List SymbolKind)
    (replaceTarget : Bool) (config : ParserState × SuffixProbeState)
    (watched : ParserState × List Event) : Prop where
  yystack : watched.1.yystack = config.1.yystack
  yyla : watched.1.yyla = config.1.yyla
  yyLacEstablished : watched.1.yyLacEstablished = config.1.yyLacEstablished
  position : watched.1.position + replacedTokens replaceTarget =
    config.1.position + config.2.fedCount
  behind : target + replacedTokens replaceTarget ≤ config.1.position
  feeding : config.2.fedCount < feedSymbols.length →
    config.1.position = target + replacedTokens replaceTarget
  fed_pos : 1 ≤ config.2.fedCount
  fed_le : config.2.fedCount ≤ feedSymbols.length
  shifted_le : config.2.feedShifted ≤ feedSymbols.length
  observed : ∃ tokens, config.2.probe = probeOf tokens ∧ ∀ events,
    observe feedSymbols.length 0 (fromTarget target (watched.2 ++ events)) =
      observe (feedSymbols.length - config.2.feedShifted) tokens events
  accepted : config.2.feedShifted = 0 → ∃ kind, Accepted tables config.1 kind

namespace Lockstep

variable {config : ParserState × SuffixProbeState} {watched : ParserState × List Event}

theorem read (h : Lockstep tables target feedSymbols replaceTarget config watched)
    (htarget : target < stream.kinds.length)
    {symbol : SymbolKind × ℕ} {found : Read SuffixProbeState} (hsymbol : TokenStream.nextSymbol
      (editedKinds stream.kinds target feedSymbols replaceTarget) watched.1.position = symbol)
    (hfound : (suffixProbePolicy feedSymbols replaceTarget).onLookaheadRead config.1.yystack
      (TokenStream.nextSymbol stream.kinds config.1.position).1 config.1.position
      (TokenStream.nextSymbol stream.kinds config.1.position).2 config.2 = found) :
    found.stop = false ∧ found.next = symbol.1 ∧
      symbol.2 + replacedTokens replaceTarget = found.position + found.policy.fedCount ∧
      config.1.position ≤ found.position ∧
      (found.policy.fedCount < feedSymbols.length → found.position = config.1.position) ∧
      config.2.fedCount ≤ found.policy.fedCount ∧ found.policy.fedCount ≤ feedSymbols.length ∧
      found.policy.feedShifted = config.2.feedShifted ∧
      found.policy.probe = config.2.probe := by
  have hposition := h.position
  have hbehind := h.behind
  have hfed := h.fed_pos
  rcases h.fed_le.lt_or_eq with hlt | heq
  · -- the feed is read in front of the token at the target
    have hat := h.feeding hlt
    have hwatched : watched.1.position = target + config.2.fedCount := by omega
    have hfed' : (feedSymbols[config.2.fedCount]?) = some feedSymbols[config.2.fedCount] :=
      getElem?_eq_getElem hlt
    unfold TokenStream.nextSymbol at hsymbol
    rw [hwatched, getElem?_editedKinds_feed hlt htarget.le, hfed'] at hsymbol
    have hnot : config.2.fedCount ≠ 0 := by omega
    simp only [suffixProbePolicy, hfed', hnot, decide_false, Bool.and_false, Bool.false_eq_true,
      if_false] at hfound
    rw [← hfound, ← hsymbol]
    refine ⟨rfl, rfl, ?_, le_rfl, fun _ => rfl, Nat.le_succ _, hlt, rfl, rfl⟩
    show target + config.2.fedCount + 1 + _ = config.1.position + (config.2.fedCount + 1)
    omega
  · -- the feed is over
    have hnone : feedSymbols[config.2.fedCount]? = none := getElem?_eq_none heq.ge
    simp only [suffixProbePolicy, hnone] at hfound
    unfold TokenStream.nextSymbol at hsymbol
    rw [getElem?_editedKinds_behind htarget.le hbehind (by omega)] at hsymbol
    have hread : TokenStream.nextSymbol stream.kinds config.1.position =
        (symbol.1, if symbol.2 = watched.1.position then config.1.position
          else config.1.position + 1) ∧
        (symbol.2 = watched.1.position ∨ symbol.2 = watched.1.position + 1) := by
      unfold TokenStream.nextSymbol
      rw [← hsymbol]
      cases hkind : stream.kinds[config.1.position]? with
      | some kind =>
        refine ⟨?_, .inr rfl⟩
        simp
      | none =>
        refine ⟨?_, .inl rfl⟩
        simp
    obtain ⟨hread, hmoved⟩ := hread
    rw [hread] at hfound
    rw [← hfound]
    refine ⟨rfl, rfl, ?_, ?_, fun hlt => absurd (heq ▸ hlt) (lt_irrefl _), le_rfl, h.fed_le, rfl,
      rfl⟩
    · show symbol.2 + _ = (if _ then _ else _) + config.2.fedCount
      split_ifs with hstays
      · omega
      · show symbol.2 + replacedTokens replaceTarget = config.1.position + 1 + config.2.fedCount
        omega
    · show config.1.position ≤ if _ then _ else _
      split_ifs
      · exact le_rfl
      · exact Nat.le_succ _

theorem shifted (h : Lockstep tables target feedSymbols replaceTarget config watched)
    (kind : SymbolKind) {policy : SuffixProbeState}
    (hpolicy : (suffixProbePolicy feedSymbols replaceTarget).onShifted kind config.2 = policy) :
    policy.fedCount = config.2.fedCount ∧ 0 < policy.feedShifted ∧
      policy.feedShifted ≤ feedSymbols.length ∧
      ∃ tokens, policy.probe = probeOf tokens ∧ ∀ events,
        observe feedSymbols.length 0 (fromTarget target (watched.2 ++ [.shifted kind] ++ events)) =
          observe (feedSymbols.length - policy.feedShifted) tokens events := by
  obtain ⟨tokens, hprobe, hobserved⟩ := h.observed
  have hfed := h.fed_pos
  have hle := h.fed_le
  have hshifted := h.shifted_le
  simp only [suffixProbePolicy] at hpolicy
  split_ifs at hpolicy with hpending hkind
  · rw [← hpolicy]
    refine ⟨rfl, Nat.succ_pos _, hpending, tokens, hprobe, fun events => ?_⟩
    obtain ⟨pending, hpending'⟩ :=
      Nat.exists_eq_succ_of_ne_zero (Nat.sub_pos_of_lt hpending).ne'
    rw [append_assoc, hobserved, hpending', singleton_append, observe]
    congr 1
    show pending = feedSymbols.length - (config.2.feedShifted + 1)
    omega
  · rw [← hpolicy]
    refine ⟨rfl, by show 0 < config.2.feedShifted; omega, hshifted, tokens + 1, ?_,
      fun events => ?_⟩
    · show config.2.probe.countToken = probeOf (tokens + 1)
      rw [hprobe, countToken_probeOf]
    · have hnone : feedSymbols.length - config.2.feedShifted = 0 := by omega
      rw [append_assoc, hobserved, hnone, singleton_append, observe, if_neg hkind]
  · rw [← hpolicy]
    refine ⟨rfl, by omega, hshifted, tokens, hprobe, fun events => ?_⟩
    have hnone : feedSymbols.length - config.2.feedShifted = 0 := by omega
    rw [append_assoc, hobserved, hnone, singleton_append, observe, if_pos (not_not.mp hkind)]

end Lockstep

/-- A round of the probe is a round of the watched parse, and when the probe stops, what it found is
what is seen of the watched parse. -/
theorem lockstep_step (htarget : target < stream.kinds.length)
    (config : ParserState × SuffixProbeState) (watched : ParserState × List Event)
    (h : Lockstep tables target feedSymbols replaceTarget config watched) :
    Sum.elim
      (fun config' => ∃ watched',
        driveStep tables (editedKinds stream.kinds target feedSymbols replaceTarget) watchPolicy
          watched = .inl watched' ∧
        Lockstep tables target feedSymbols replaceTarget config' watched')
      (fun result => seenProbe feedSymbols target
        (driveStep tables (editedKinds stream.kinds target feedSymbols replaceTarget) watchPolicy
          watched) = some result.probe)
      (driveStep tables stream.kinds (suffixProbePolicy feedSymbols replaceTarget) config) := by
  obtain ⟨parser, policy⟩ := config
  obtain ⟨parser', events⟩ := watched
  let hooks := suffixProbePolicy feedSymbols replaceTarget
  have hsame : yynewstate tables parser' = yynewstate tables parser :=
    yynewstate_congr h.yystack h.yyla h.yyLacEstablished
  obtain ⟨tokens, hprobe, hobserved⟩ := h.observed
  cases hjump : yynewstate tables parser with
  | yyacceptlab =>
    rw [@driveStep_accept _ tables stream.kinds hooks parser policy hjump,
      driveStep_accept (hsame.trans hjump), Sum.elim_inr]
    unfold seenProbe
    show (observe _ 0 (fromTarget target (events ++ [.accepted] ++ [.failed]))).map _ = _
    rw [append_assoc, hobserved, singleton_append, observe_accepted, map_some]
    show some (Observation.toProbe ⟨tokens, true⟩) = some { policy.probe with reachedEof := true }
    rw [show policy.probe = probeOf tokens from hprobe]
    rfl
  | read =>
    obtain ⟨hla, -⟩ := of_jump_read hjump
    obtain ⟨hstop, hnext, hposition, hbehind, hfeeding, hfed, hfed', hshifted,
      hprobe'⟩ := h.read htarget rfl rfl
    rw [@driveStep_read _ tables stream.kinds hooks parser policy hjump _ rfl]
    have hnotstop : ¬ (hooks.onLookaheadRead parser.yystack
      (TokenStream.nextSymbol stream.kinds parser.position).1 parser.position
      (TokenStream.nextSymbol stream.kinds parser.position).2 policy).stop = true := by
      rw [Bool.not_eq_true]
      exact hstop
    rw [if_neg hnotstop, Sum.elim_inl]
    refine ⟨_, driveStep_read (hsame.trans hjump) rfl, ?_⟩
    refine ⟨h.yystack, congrArg some hnext.symm, h.yyLacEstablished, hposition,
      h.behind.trans hbehind, ?_, h.fed_pos.trans hfed, hfed', hshifted.le.trans h.shifted_le,
      ⟨tokens, hprobe'.trans hprobe, fun more => ?_⟩, ?_⟩
    · intro hlt
      exact (hfeeding hlt).trans (h.feeding (lt_of_le_of_lt hfed hlt))
    · show observe feedSymbols.length 0
        (fromTarget target (events ++ [.read parser'.position] ++ more)) = _
      rw [append_assoc, hobserved, singleton_append, observe_read, ← hshifted]
    · -- nothing is read before the first symbol of the feed is shifted
      intro hzero
      obtain ⟨kind, haccepted⟩ := h.accepted (hshifted.symm.trans hzero)
      rw [haccepted.lookahead] at hla
      cases hla
  | yyreduce rule established =>
    rw [@driveStep_reduce _ tables stream.kinds hooks parser policy _ _ hjump, Sum.elim_inl]
    refine ⟨_, driveStep_reduce (hsame.trans hjump), ?_⟩
    refine ⟨?_, h.yyla, rfl, h.position, h.behind, h.feeding, h.fed_pos, h.fed_le, h.shifted_le,
      ⟨tokens, hprobe, hobserved⟩, ?_⟩
    · show tables.reduce rule parser'.yystack = tables.reduce rule parser.yystack
      rw [h.yystack]
    · intro hzero
      obtain ⟨kind, haccepted⟩ := h.accepted hzero
      rcases haccepted.jump with hend | hshift | hreduce
      · rw [hjump] at hend
        cases hend
      · obtain ⟨state, hshift⟩ := hshift
        rw [hjump] at hshift
        cases hshift
      · obtain ⟨rule', hreduce, hrest⟩ := hreduce
        rw [hjump] at hreduce
        obtain ⟨rfl, rfl⟩ := Jump.yyreduce.inj hreduce
        exact ⟨kind, haccepted.lookahead, haccepted.token, hrest, .inl rfl⟩
  | shift state =>
    obtain ⟨kind, hla⟩ := lookahead_of_jump_shift hjump
    obtain ⟨hfed, hpos, hle, tokens', hprobe', hobserved'⟩ := h.shifted kind rfl
    rw [@driveStep_shift _ tables stream.kinds hooks parser policy _ _ hjump hla, Sum.elim_inl]
    refine ⟨_, driveStep_shift (hsame.trans hjump) (h.yyla.trans hla), ?_⟩
    refine ⟨?_, rfl, rfl, ?_, h.behind, ?_, hfed.symm ▸ h.fed_pos, hfed.symm ▸ h.fed_le, hle,
      ⟨tokens', hprobe', hobserved'⟩, fun hzero => absurd hzero hpos.ne'⟩
    · show state :: parser'.yystack = state :: parser.yystack
      rw [h.yystack]
    · exact h.position.trans (congrArg (parser.position + ·) hfed.symm)
    · intro hlt
      exact h.feeding (lt_of_eq_of_lt hfed.symm hlt)
  | yyerrlab established =>
    rw [@driveStep_error _ tables stream.kinds hooks parser policy _ hjump _ rfl,
      driveStep_error (hsame.trans hjump) rfl]
    rcases Nat.eq_zero_or_pos policy.feedShifted with hzero | hpos
    · obtain ⟨kind, haccepted⟩ := h.accepted hzero
      exact absurd hjump (haccepted.jump_ne_yyerrlab _)
    · have hcircuit : (hooks.shortCircuitOnError policy).1 = true := decide_eq_true hpos
      rw [if_pos hcircuit, Sum.elim_inr]
      obtain ⟨more, hmore⟩ := exists_eventsOf_proceed
        (yyerrlab tables { parser' with yyLacEstablished := established }) (events ++ [.failed])
      unfold seenProbe
      show (observe _ 0 (fromTarget target (eventsOf (proceed _ (events ++ [.failed]))))).map _ =
        some policy.probe
      rw [hmore, append_assoc, hobserved, singleton_append, observe_failed, map_some]
      exact congrArg some hprobe.symm
  | yyerrlab1 =>
    rw [@driveStep_error_token _ tables stream.kinds hooks parser policy hjump,
      driveStep_error_token (hsame.trans hjump)]
    rcases Nat.eq_zero_or_pos policy.feedShifted with hzero | hpos
    · obtain ⟨kind, haccepted⟩ := h.accepted hzero
      exact absurd hjump haccepted.jump_ne_yyerrlab1
    have hstack : parser'.yystack = parser.yystack := h.yystack
    unfold yyerrlab1
    show Sum.elim _ _ (proceed (Option.map _ (tables.shiftError parser.yystack)) policy)
    rw [show ({ parser' with yyla := some yyundef } : ParserState).yystack = parser.yystack from
      hstack]
    cases tables.shiftError parser.yystack with
    | none =>
      show (observe _ 0 (fromTarget target (events ++ [.failed]))).map _ = some policy.probe
      rw [hobserved, observe_failed, map_some]
      exact congrArg some hprobe.symm
    | some yystack =>
      exact ⟨_, rfl, rfl, rfl, rfl, h.position, h.behind, h.feeding, h.fed_pos, h.fed_le,
        h.shifted_le, ⟨tokens, hprobe, hobserved⟩, fun hzero => absurd hzero hpos.ne'⟩

end Suffix

/-! ## The whole probe -/

section Probe

variable {stream : TokenStream} {target : ℕ}

theorem advanceTo_eq {kinds : List SymbolKind} (htarget : target < kinds.length) :
    ∀ {rounds position : ℕ}, position + rounds = target →
      advanceTo kinds target position = target := by
  intro rounds
  induction rounds with
  | zero =>
    intro position h
    rw [advanceTo, if_neg (fun hnext => hnext.2 h)]
    exact h
  | succ rounds ih =>
    intro position h
    have hnext : position < kinds.length ∧ position ≠ target := ⟨by omega, by omega⟩
    rw [advanceTo, if_pos hnext]
    exact ih (by omega)

theorem lockstep_start (hcorrects : tables.Corrects) {snapshot : PrefixSnapshot}
    {watched : ParserState × List Event} (h : AtTarget tables target snapshot watched)
    {first : SymbolKind} (rest : List SymbolKind) (replaceTarget : Bool)
    (hfirst : first ∈ collectExpectedSymbols tables (restorePrefix snapshot).yystack) :
    Lockstep tables target (first :: rest) replaceTarget
      ({ restorePrefix snapshot with
        yyla := some first, position := target + replacedTokens replaceTarget },
        { fedCount := 1 })
      ({ watched.1 with yyla := some first, position := target + 1 },
        watched.2 ++ [.read target]) := by
  have hstack : (restorePrefix snapshot).yystack = watched.1.yystack := h.yystack.symm
  obtain ⟨-, hexpected⟩ := mem_filter.mp hfirst
  simp only [Bool.and_eq_true, decide_eq_true_eq] at hexpected
  obtain ⟨⟨htoken, -⟩, hcheck⟩ := hexpected
  refine ⟨hstack.symm, rfl, h.yyLacEstablished, ?_, le_rfl, fun _ => rfl, le_rfl,
    Nat.succ_le_succ (Nat.zero_le _), Nat.zero_le _, ⟨0, rfl, fun events => ?_⟩, fun _ => ?_⟩
  · show target + 1 + replacedTokens replaceTarget = target + replacedTokens replaceTarget + 1
    omega
  · show observe _ 0 (fromTarget target (watched.2 ++ [.read target] ++ events)) = _
    rw [append_assoc, singleton_append, fromTarget_append_of_not_read h.target_unread, observe_read]
    rfl
  · refine ⟨first, rfl, htoken, hcorrects _ _ hcheck, .inr ⟨hcheck, ?_⟩⟩
    show tables.yypactValueIsDefault (tables.yypact ((restorePrefix snapshot).yystack.headD 0)) = _
    rw [hstack]
    exact (of_jump_read h.jump).2

theorem probe_iff_seen (hcorrects : tables.Corrects) (htarget : target < stream.kinds.length)
    {snapshot : PrefixSnapshot} (hreached : snapshot.reachedTarget = true)
    {watched : ParserState × List Event} (h : AtTarget tables target snapshot watched)
    {first : SymbolKind} (rest : List SymbolKind) (replaceTarget : Bool)
    (hfirst : first ∈ collectExpectedSymbols tables (restorePrefix snapshot).yystack)
    (probe : SuffixProbe) :
    (∃ fuel, probeSuffixSequenceFromSnapshot tables stream target snapshot (first :: rest)
      replaceTarget fuel = some probe) ↔
    ∃ rounds, seenProbe (first :: rest) target
      (run (driveStep tables (editedKinds stream.kinds target (first :: rest) replaceTarget)
        watchPolicy) rounds watched) = some probe := by
  let step := driveStep tables stream.kinds (suffixProbePolicy (first :: rest) replaceTarget)
  let step' := driveStep tables
    (editedKinds stream.kinds target (first :: rest) replaceTarget) watchPolicy
  let start : ParserState × SuffixProbeState :=
    ({ restorePrefix snapshot with position := target }, {})
  let fed : ParserState × SuffixProbeState :=
    ({ restorePrefix snapshot with
      yyla := some first, position := target + replacedTokens replaceTarget }, { fedCount := 1 })
  let fed' : ParserState × List Event :=
    ({ watched.1 with yyla := some first, position := target + 1 }, watched.2 ++ [.read target])
  have hlockstep : Lockstep tables target (first :: rest) replaceTarget fed fed' :=
    lockstep_start hcorrects h rest replaceTarget hfirst
  have hjump : yynewstate tables start.1 = .read := by
    rw [← h.jump]
    exact yynewstate_congr h.yystack.symm h.yyla.symm h.yyLacEstablished.symm
  have hstart : step start = .inl fed := by
    have hread := @driveStep_read _ tables stream.kinds
      (suffixProbePolicy (first :: rest) replaceTarget) start.1 start.2 hjump _ rfl
    rw [show step start = _ from hread]
    have hsymbol : TokenStream.nextSymbol stream.kinds start.1.position =
        (stream.kinds[target], target + 1) := nextSymbol_of_lt htarget
    rw [hsymbol]
    cases replaceTarget <;> rfl
  have hwatched : step' watched = .inl fed' := by
    have hread := @driveStep_read _ tables
      (editedKinds stream.kinds target (first :: rest) replaceTarget) watchPolicy
      watched.1 watched.2 h.jump _ rfl
    rw [show step' watched = _ from hread]
    have hedited : (editedKinds stream.kinds target (first :: rest) replaceTarget)[target]? =
        some first := by
      have hfed : 0 < (first :: rest).length := Nat.succ_pos _
      have hfeed := @getElem?_editedKinds_feed stream.kinds (first :: rest) target replaceTarget 0
        hfed htarget.le
      exact hfeed
    have hsymbol : TokenStream.nextSymbol
        (editedKinds stream.kinds target (first :: rest) replaceTarget) watched.1.position =
        (first, target + 1) := by
      unfold TokenStream.nextSymbol
      rw [h.position, hedited]
    rw [hsymbol]
    show Sum.inl (_, watched.2 ++ [Event.read watched.1.position]) = Sum.inl fed'
    rw [h.position]
    rfl
  have hprobe : ∀ fuel, probeSuffixSequenceFromSnapshot tables stream target snapshot
      (first :: rest) replaceTarget fuel =
      (run step fuel start).getRight?.map SuffixProbeState.probe := by
    intro fuel
    unfold probeSuffixSequenceFromSnapshot probeSuffixSequenceFromPrefix driveLALR
    have hgoes : ¬ (first :: rest = [] ∨ ¬ snapshot.reachedTarget = true) := by
      simp [hreached]
    have hgoes' : ¬ (¬ snapshot.reachedTarget = true ∨ first :: rest = []) := by
      simp [hreached]
    rw [if_neg hgoes, if_neg hgoes', advanceTo_eq htarget (Nat.zero_add target)]
  have hunseen : ∀ config watched,
      Lockstep tables target (first :: rest) replaceTarget config watched →
      seenProbe (first :: rest) target (.inl watched) = none := by
    intro config watched hlocked
    obtain ⟨tokens, -, hobserved⟩ := hlocked.observed
    have hnone := hobserved []
    rw [append_nil, observe] at hnone
    unfold seenProbe
    show (observe _ 0 (fromTarget target watched.2)).map _ = none
    rw [hnone]
    rfl
  have hlasting := @lasting_seenProbe tables
    (editedKinds stream.kinds target (first :: rest) replaceTarget) (first :: rest) target
  calc (∃ fuel, probeSuffixSequenceFromSnapshot tables stream target snapshot (first :: rest)
        replaceTarget fuel = some probe)
      ↔ Returns step SuffixProbeState.probe start probe := by simp only [hprobe, Returns]
    _ ↔ Returns step SuffixProbeState.probe fed probe := returns_step hstart
    _ ↔ ∃ rounds, seenProbe (first :: rest) target (run step' rounds fed') = some probe :=
        returns_iff_seen SuffixProbeState.probe _ hlasting hunseen (lockstep_step htarget) hlockstep
    _ ↔ ∃ rounds, seenProbe (first :: rest) target (run step' rounds watched) = some probe :=
        (hlasting.exists_run_iff (run_succ_of_inl hwatched 0)).symm

/-- The probe of a feed that starts with an expected symbol is what the driver does on the edited
tokens, whether the symbols replace the token at the target or stand in front of it. -/
theorem suffixProbe_iff (hcorrects : tables.Corrects) (htarget : target < stream.kinds.length)
    {fuel : ℕ} {out : ExpectedAtCursor}
    (hparsed : parseUntilWithSnapshot tables stream target fuel = some out)
    {first : SymbolKind} (hfirst : first ∈ out.expected) (rest : List SymbolKind)
    (replaceTarget : Bool) (probe : SuffixProbe) :
    (∃ fuel, probeSuffixSequenceFromSnapshot tables stream target out.snapshot (first :: rest)
      replaceTarget fuel = some probe) ↔
    ∃ fuel observation, observeEdited tables stream target (first :: rest) replaceTarget fuel =
      some observation ∧ probe = observation.toProbe := by
  obtain ⟨snapshot, hprefix, hout⟩ := map_eq_some_iff.mp hparsed
  have hreached : snapshot.reachedTarget = true := by
    by_contra hnot
    rw [if_neg hnot] at hout
    rw [← hout] at hfirst
    exact not_mem_nil hfirst
  rw [if_pos hreached] at hout
  rw [← hout] at hfirst ⊢
  obtain ⟨rounds, watched, hrun, htarget'⟩ :=
    @exists_target tables stream target (first :: rest) replaceTarget htarget snapshot fuel
      hprefix hreached
  rw [probe_iff_seen hcorrects htarget hreached htarget' rest replaceTarget hfirst,
    ← (lasting_seenProbe _ _ _).exists_run_iff hrun]
  apply exists_congr
  intro fuel
  show (observe _ 0 (fromTarget target (watch _ _ fuel))).map Observation.toProbe = some probe ↔ _
  rw [map_eq_some_iff]
  apply exists_congr
  intro observation
  exact and_congr_right fun _ => eq_comm

end Probe

/-! ## Sequences of one symbol -/

section Sequences

/-- The tables of sequences of the symbol 3. -/
def sequenceTables : Tables where
  yyntokens := 4
  yyfinal := 2
  yylast := 3
  yypact _ := 0
  yypactValueIsDefault _ := false
  yytable entry := if entry = 3 then 1 else if entry = 0 then 2 else 0
  yytableValueIsError entry := entry = 0
  yycheck entry := entry
  yydefact _ := 0
  yyr1 _ := 0
  yyr2 _ := 0
  yyLrGotoState _ _ := 0
  yyLacCheck _ kind := kind = 0 || kind = 3

theorem sequenceTables_corrects : sequenceTables.Corrects := by
  intro stack kind hcheck
  simp only [sequenceTables, Bool.or_eq_true, decide_eq_true_eq] at hcheck
  rcases hcheck with rfl | rfl
  · exact .shift rfl rfl rfl (by decide : (0 : ℤ) < 2)
  · exact .shift rfl rfl rfl (by decide : (0 : ℤ) < 1)

/-- A script of so many symbols. -/
def sequenceOf (symbols : ℕ) : TokenStream where
  kinds := List.replicate symbols 3
  chunk _ := 0
  chunks := monotone_const

theorem suffixProbe_sequence : (∃ fuel, probeSuffixSequenceFromSnapshot sequenceTables
    (sequenceOf 3) 1 ⟨[0, 1], true⟩ [3, 3] true fuel = some ⟨true, 1, true⟩) ↔
    ∃ fuel observation, observeEdited sequenceTables (sequenceOf 3) 1 [3, 3] true fuel =
      some observation ∧ (⟨true, 1, true⟩ : SuffixProbe) = observation.toProbe :=
  suffixProbe_iff sequenceTables_corrects (by decide)
    (rfl : parseUntilWithSnapshot sequenceTables (sequenceOf 3) 1 3 =
      some ⟨[0, 3], ⟨[0, 1], true⟩⟩) (by decide) [3] true _

section Rounds

variable {kinds : List SymbolKind} {parser : ParserState}

theorem sequence_read (hstack : parser.yystack.headD 0 ≠ 2) (hla : parser.yyla = none) :
    yynewstate sequenceTables parser = .read := by
  simp only [yynewstate, sequenceTables, hstack, hla, if_false, Bool.false_eq_true]

theorem sequence_shift {kind : SymbolKind} (hkind : kind = 0 ∨ kind = 3)
    (hstack : parser.yystack.headD 0 ≠ 2) (hla : parser.yyla = some kind) :
    yynewstate sequenceTables parser = .shift (if kind = 3 then 1 else 2) := by
  have hgoes : parser.yystack.headD 0 ≠ sequenceTables.yyfinal := hstack
  simp only [yynewstate, hla]
  rw [if_neg hgoes]
  rcases hkind with rfl | rfl
  · rfl
  · rfl

theorem run_two_rounds {kind : SymbolKind} (hkind : kind = 0 ∨ kind = 3)
    {position next rounds : ℕ} {yystack : List State} {events : List Event}
    (hstack : yystack.headD 0 ≠ 2) (hread : TokenStream.nextSymbol kinds position = (kind, next)) :
    run (driveStep sequenceTables kinds watchPolicy) (rounds + 2) ({ yystack, position }, events) =
    run (driveStep sequenceTables kinds watchPolicy) rounds
      ({ yystack := (if kind = 3 then 1 else 2) :: yystack, position := next },
        events ++ [.read position, .shifted kind]) := by
  have hfirst : driveStep sequenceTables kinds watchPolicy ({ yystack, position }, events) =
      .inl ({ yystack, yyla := some kind, position := next }, events ++ [.read position]) := by
    rw [driveStep_read (sequence_read hstack rfl) rfl]
    simp only [hread]
    rfl
  rw [run_succ_of_inl hfirst, run_succ_of_inl (driveStep_shift (sequence_shift hkind hstack rfl) rfl)]
  show run _ rounds (_, events ++ [.read position] ++ [.shifted kind]) = _
  rw [append_assoc]
  rfl

/-- The events of reading and shifting so many symbols, and the end. -/
def sequenceEvents : ℕ → ℕ → List Event
  | position, 0 => [.read position, .shifted yyeof, .accepted]
  | position, symbols + 1 =>
    [.read position, .shifted 3] ++ sequenceEvents (position + 1) symbols

/-- Sequences are accepted. -/
theorem run_sequence : ∀ {symbols position : ℕ} {yystack : List State} {events : List Event},
    yystack.headD 0 ≠ 2 → kinds.drop position = List.replicate symbols 3 →
      run (driveStep sequenceTables kinds watchPolicy) (2 * symbols + 3)
        ({ yystack, position }, events) = .inr (events ++ sequenceEvents position symbols) := by
  intro symbols
  induction symbols with
  | zero =>
    intro position yystack events hstack hkinds
    have hnone : kinds[position]? = none :=
      getElem?_eq_none (drop_eq_nil_iff.mp hkinds)
    have hread : TokenStream.nextSymbol kinds position = (0, position) := by
      unfold TokenStream.nextSymbol
      rw [hnone]
      rfl
    rw [run_two_rounds (.inl rfl) hstack hread, run_succ_of_inr (driveStep_accept rfl)]
    show Sum.inr (events ++ _ ++ [.accepted]) = _
    rw [append_assoc]
    rfl
  | succ symbols ih =>
    intro position yystack events hstack hkinds
    have hsome : kinds[position]? = some 3 := by
      rw [← head?_drop, hkinds]
      rfl
    have hread : TokenStream.nextSymbol kinds position = (3, position + 1) := by
      unfold TokenStream.nextSymbol
      rw [hsome]
    have hrest : kinds.drop (position + 1) = List.replicate symbols 3 := by
      rw [← tail_drop, hkinds]
      rfl
    have hrounds : 2 * (symbols + 1) + 3 = 2 * symbols + 3 + 2 := by omega
    have hstack' : ((if 3 = 3 then 1 else 2) :: yystack).headD 0 ≠ 2 := by simp
    rw [hrounds, run_two_rounds (.inr rfl) hstack hread, ih hstack' hrest, append_assoc]
    rfl

theorem observe_sequenceEvents : ∀ {symbols position tokens : ℕ},
    observe 0 tokens (sequenceEvents position symbols ++ [.failed]) =
      some ⟨tokens + symbols, true⟩ := by
  intro symbols
  induction symbols with
  | zero =>
    intro position tokens
    rfl
  | succ symbols ih =>
    intro position tokens
    rw [sequenceEvents, append_assoc, cons_append, observe_read, cons_append,
      observe, if_neg (by decide), nil_append, ih, Nat.add_assoc, Nat.add_comm 1]

/-- Behind the first symbol of a sequence, all other symbols are shifted. -/
theorem observe_sequence (symbols : ℕ) :
    observe 1 0 (fromTarget 0 (eventsOf (run (driveStep sequenceTables
      (editedKinds (sequenceOf (symbols + 1)).kinds 0 [3] true) watchPolicy)
      (2 * (symbols + 1) + 3) (initStack, [])))) = some ⟨symbols, true⟩ := by
  have hkinds : (editedKinds (sequenceOf (symbols + 1)).kinds 0 [3] true).drop 0 =
      List.replicate (symbols + 1) 3 := rfl
  have hrun := @run_sequence _ (symbols + 1) 0 [0] [] (by decide) hkinds
  unfold initStack
  rw [hrun]
  show observe 1 0 (fromTarget 0 (sequenceEvents 0 (symbols + 1) ++ [.failed])) = _
  rw [sequenceEvents, append_assoc]
  show observe 1 0 (.read 0 :: .shifted 3 :: (sequenceEvents 1 symbols ++ [.failed])) = _
  rw [observe_read, observe, observe_sequenceEvents, Nat.zero_add]

end Rounds

/-- The depth of a probe is a 16-bit number, and the tokens it counts may be more. -/
theorem depth_saturates :
    (∃ fuel, parseUntilWithSnapshot sequenceTables (sequenceOf 65537) 0 fuel =
      some ⟨[0, 3], ⟨[0], true⟩⟩) ∧
    (∃ fuel, observeEdited sequenceTables (sequenceOf 65537) 0 [3] true fuel = some ⟨65536, true⟩) ∧
    ∃ fuel, probeSuffixSequenceFromSnapshot sequenceTables (sequenceOf 65537) 0 ⟨[0], true⟩ [3]
      true fuel = some ⟨true, 65535, true⟩ := by
  have hobserved := observe_sequence 65536
  refine ⟨⟨1, rfl⟩, ⟨_, hobserved⟩, ?_⟩
  have hstart : AtTarget sequenceTables 0 ⟨[0], true⟩ (initStack, []) :=
    ⟨rfl, rfl, rfl, rfl, rfl, fun event hevent => absurd hevent not_mem_nil⟩
  have hlength : 0 < (sequenceOf 65537).kinds.length := by
    rw [show (sequenceOf 65537).kinds.length = 65537 from length_replicate]
    decide
  rw [probe_iff_seen sequenceTables_corrects hlength rfl hstart [] true (by decide)]
  exact ⟨2 * (65536 + 1) + 3, congrArg (Option.map Observation.toProbe) hobserved⟩

end Sequences

end DashQL.Parser
