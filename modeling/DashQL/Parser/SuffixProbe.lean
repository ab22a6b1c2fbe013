import DashQL.Parser.LalrDriver

/-!
# The suffix probe

Completion parses the tokens before the cursor once and keeps the states of the parser.
A probe starts from these states, feeds symbols that might stand at the cursor, and
counts how many of the tokens behind the cursor the parser shifts then.

A watched parse (`watch`) is what the probe stands for: the same driver on the edited
tokens, from the start, with everything it does written down.
-/

namespace DashQL.Parser

/-! ## The prefix -/

/-- `PrefixSnapshot`, with the states from the bottom to the top. -/
structure PrefixSnapshot where
  stateStack : List State := []
  reachedTarget : Bool := false
  deriving DecidableEq

def prefixCapturePolicy (stream : TokenStream) (target : ℕ) : Policy PrefixSnapshot where
  onLookaheadRead yystack next preIter position out :=
    if stream.atLeast preIter target then
      { next, position, stop := true
        policy := { stateStack := out.stateStack ++ yystack.reverse, reachedTarget := true } }
    else { next, position, policy := out }
  onShifted _ out := out
  onAccept out := out
  shortCircuitOnError out := (false, out)

def parsePrefixToTarget (tables : Tables) (stream : TokenStream) (target fuel : ℕ) :
    Option PrefixSnapshot :=
  driveLALR tables stream.kinds (prefixCapturePolicy stream target) fuel initStack {}

def restorePrefix (snapshot : PrefixSnapshot) : ParserState :=
  { yystack := snapshot.stateStack.reverse }

def collectExpectedSymbols (tables : Tables) (yystack : List State) : List SymbolKind :=
  (List.range tables.yyntokens).filter fun kind =>
    kind ≠ yyerror && kind ≠ yyundef && tables.yyLacCheck yystack kind

structure ExpectedAtCursor where
  expected : List SymbolKind := []
  snapshot : PrefixSnapshot

def parseUntilWithSnapshot (tables : Tables) (stream : TokenStream) (target fuel : ℕ) :
    Option ExpectedAtCursor :=
  (parsePrefixToTarget tables stream target fuel).map fun snapshot =>
    if snapshot.reachedTarget then
      { expected := collectExpectedSymbols tables (restorePrefix snapshot).yystack, snapshot }
    else { snapshot }

/-! ## The probe -/

structure SuffixProbe where
  k1Compatible : Bool := false
  depthConsumed : ℕ := 0
  reachedEof : Bool := false
  deriving DecidableEq

/-- `std::numeric_limits<uint16_t>::max()`. -/
def maxDepth : ℕ := 65535

/-- The variables of `SuffixProbePolicy`. -/
structure SuffixProbeState where
  probe : SuffixProbe := {}
  fedCount : ℕ := 0
  feedShifted : ℕ := 0

/-- A token behind the cursor was shifted. -/
def SuffixProbe.countToken (probe : SuffixProbe) : SuffixProbe :=
  let probe := if probe.depthConsumed = 0 then { probe with k1Compatible := true } else probe
  if probe.depthConsumed < maxDepth then
    { probe with depthConsumed := probe.depthConsumed + 1 }
  else probe

def suffixProbePolicy (feedSymbols : List SymbolKind) (replaceTarget : Bool) :
    Policy SuffixProbeState where
  onLookaheadRead _ next preIter position policy :=
    match feedSymbols[policy.fedCount]? with
    | some fed =>
      let consumesTarget := replaceTarget && policy.fedCount = 0
      { next := fed
        position := if consumesTarget then position else preIter
        policy := { policy with fedCount := policy.fedCount + 1 } }
    | none => { next, position, policy }
  onShifted shiftedKind policy :=
    if policy.feedShifted < feedSymbols.length then
      { policy with feedShifted := policy.feedShifted + 1 }
    else if shiftedKind ≠ yyeof then { policy with probe := policy.probe.countToken }
    else policy
  onAccept policy := { policy with probe := { policy.probe with reachedEof := true } }
  shortCircuitOnError policy := (1 ≤ policy.feedShifted, policy)

/-- The scanner is advanced to the target. -/
def advanceTo (kinds : List SymbolKind) (target position : ℕ) : ℕ :=
  if position < kinds.length ∧ position ≠ target then advanceTo kinds target (position + 1)
  else position
termination_by kinds.length - position

def probeSuffixSequenceFromPrefix (tables : Tables) (stream : TokenStream)
    (snapshot : PrefixSnapshot) (target : ℕ) (feedSymbols : List SymbolKind)
    (replaceTarget : Bool) (fuel : ℕ) : Option SuffixProbe :=
  if ¬ snapshot.reachedTarget ∨ feedSymbols = [] then some {}
  else
    (driveLALR tables stream.kinds (suffixProbePolicy feedSymbols replaceTarget) fuel
      { restorePrefix snapshot with position := advanceTo stream.kinds target 0 } {}).map
        SuffixProbeState.probe

def probeSuffixSequenceFromSnapshot (tables : Tables) (stream : TokenStream) (target : ℕ)
    (snapshot : PrefixSnapshot) (feedSymbols : List SymbolKind) (replaceTarget : Bool)
    (fuel : ℕ) : Option SuffixProbe :=
  if feedSymbols = [] ∨ ¬ snapshot.reachedTarget then some {}
  else probeSuffixSequenceFromPrefix tables stream snapshot target feedSymbols replaceTarget fuel

/-! ## The parse that a probe stands for -/

/-- What the driver does. -/
inductive Event
  | read (position : ℕ)
  | shifted (kind : SymbolKind)
  | accepted
  | failed
  deriving DecidableEq

/-- A policy that writes down what the driver does, and does nothing itself. -/
def watchPolicy : Policy (List Event) where
  onLookaheadRead _ next preIter position events :=
    { next, position, policy := events ++ [.read preIter] }
  onShifted kind events := events ++ [.shifted kind]
  onAccept events := events ++ [.accepted]
  shortCircuitOnError events := (false, events ++ [.failed])

/-- The tokens with the feed symbols at the target, in its place or in front of it. -/
def editedKinds (kinds : List SymbolKind) (target : ℕ) (feedSymbols : List SymbolKind)
    (replaceTarget : Bool) : List SymbolKind :=
  kinds.take target ++ feedSymbols ++ kinds.drop (if replaceTarget then target + 1 else target)

/-- The tokens shifted after the feed symbols, and whether the parse was accepted. -/
structure Observation where
  shiftedTokens : ℕ
  accepted : Bool
  deriving DecidableEq

/-- What is observed up to the first error, or the end: `pending` symbols of the feed have yet to be
shifted, and so many tokens behind them have been. -/
def observe : ℕ → ℕ → List Event → Option Observation
  | _, _, [] => none
  | pending, tokens, .read _ :: events => observe pending tokens events
  | 0, tokens, .shifted kind :: events =>
    observe 0 (if kind = yyeof then tokens else tokens + 1) events
  | pending + 1, tokens, .shifted _ :: events => observe pending tokens events
  | _, tokens, .accepted :: _ => some ⟨tokens, true⟩
  | _, tokens, .failed :: _ => some ⟨tokens, false⟩

/-- The events from the first time on that the target is read. -/
def fromTarget (target : ℕ) (events : List Event) : List Event :=
  events.dropWhile fun event => event ≠ .read target

/-- The events of a watched parse.  A parse that has stopped shifts nothing more, as if it had
failed. -/
def eventsOf (outcome : ParserState × List Event ⊕ List Event) : List Event :=
  Sum.elim Prod.snd (fun events => events ++ [.failed]) outcome

/-- What the driver did in so many rounds on the edited tokens, started with an empty stack. -/
def watch (tables : Tables) (kinds : List SymbolKind) (fuel : ℕ) : List Event :=
  eventsOf (Machines.run (driveStep tables kinds watchPolicy) fuel (initStack, []))

def observeEdited (tables : Tables) (stream : TokenStream) (target : ℕ)
    (feedSymbols : List SymbolKind) (replaceTarget : Bool) (fuel : ℕ) : Option Observation :=
  observe feedSymbols.length 0 (fromTarget target
    (watch tables (editedKinds stream.kinds target feedSymbols replaceTarget) fuel))

/-- The probe that a parse deserves, whose depth is a 16-bit number. -/
def Observation.toProbe (observation : Observation) : SuffixProbe where
  k1Compatible := 0 < observation.shiftedTokens
  depthConsumed := min observation.shiftedTokens maxDepth
  reachedEof := observation.accepted

end DashQL.Parser
