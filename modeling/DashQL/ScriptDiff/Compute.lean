import DashQL.ScriptDiff.Mapping
import DashQL.ScriptDiff.Lcs

/-!
# Computing the diff

`Compute` walks the sections between the pairs of the longest common
subsequence.  In a section every source statement that is still open becomes a
`MOVE`, an `UPDATE` or a `DELETE`, then the open target statements become
`INSERT`s, and the pair that ends the section is a `KEEP`.

Scores are quotients of node counts in double precision; `round` stands for the
rounding of that division, and nothing below depends on it.
-/

namespace DashQL.ScriptDiff

inductive OpCode
  | delete | insert | keep | move | update
  deriving DecidableEq

structure DiffOp where
  code : OpCode
  sourceStatement : Option ℕ := none
  targetStatement : Option ℕ := none
  sourceSpan : TextSpan := ⟨0, 0⟩
  targetSpan : TextSpan := ⟨0, 0⟩
  targetChanges : List TextSpan := []

def updateSimilarityThreshold : ℚ := 3 / 4

def StatementSimilarity.score (round : ℚ → ℚ) (similarity : StatementSimilarity) : ℚ :=
  if similarity.totalNodes = 0 then 0
  else round (similarity.matchingNodes / similarity.totalNodes)

/-- The local variables of `Compute`, and the members it writes. -/
structure Emission (source target : ParsedScript) where
  ops : List DiffOp := []
  sourceEmitted : ℕ → Bool := fun _ => false
  targetEmitted : ℕ → Bool := fun _ => false
  memo : Memo source target := {}

section

variable {source target : ParsedScript}

/-- The operation that `emit` pushes. -/
def DiffOp.make (source target : ParsedScript) (code : OpCode) (sourceId targetId : Option ℕ) :
    DiffOp where
  code := code
  sourceStatement := sourceId
  targetStatement := targetId
  sourceSpan := (sourceId.map fun s => source.resolveStatementSpan (source.statement s)).getD ⟨0, 0⟩
  targetSpan := (targetId.map fun t => target.resolveStatementSpan (target.statement t)).getD ⟨0, 0⟩
  targetChanges :=
    match code, sourceId, targetId with
    | .update, some s, some t =>
      collectTargetChanges source target (source.statement s) (target.statement t)
    | _, _, _ => []

/-- Flags with one more statement, if any. -/
def markEmitted (flags : ℕ → Bool) : Option ℕ → ℕ → Bool
  | some id => Function.update flags id true
  | none => flags

def Emission.emit (code : OpCode) (sourceId targetId : Option ℕ)
    (state : Emission source target) : Emission source target :=
  { state with
    ops := state.ops ++ [.make source target code sourceId targetId]
    sourceEmitted := markEmitted state.sourceEmitted sourceId
    targetEmitted := markEmitted state.targetEmitted targetId }

/-- What the search for the best target of a source ends with. -/
inductive Scan
  /-- a target with equal text -/
  | equal (targetId : ℕ)
  /-- the best target above the threshold, if any -/
  | best (targetId : Option ℕ)

variable (round : ℚ → ℚ)

/-- The search among the remaining targets of the section. -/
def scanTargets (targetEmitted : ℕ → Bool) (sourceId : ℕ) :
    List ℕ → Option ℕ → ℚ → Memo source target → Scan × Memo source target
  | [], bestTarget, _, memo => (.best bestTarget, memo)
  | t :: ts, bestTarget, bestScore, memo =>
    if targetEmitted t then scanTargets targetEmitted sourceId ts bestTarget bestScore memo
    else
      match estimateSimilarity source target (source.statement sourceId) (target.statement t) with
      | .notEqual => scanTargets targetEmitted sourceId ts bestTarget bestScore memo
      | .equal => (.equal t, memo)
      | .similar =>
        let result :=
          computeSimilarity source target (source.statement sourceId) (target.statement t) memo
        let score := (result.1.getD {}).score round
        if updateSimilarityThreshold ≤ score ∧ bestScore < score then
          scanTargets targetEmitted sourceId ts (some t) score result.2
        else scanTargets targetEmitted sourceId ts bestTarget bestScore result.2

/-- The equal pairs of a source, between `lower_bound` and `upper_bound`. -/
def equalRange (equalPairs : List StatementMapping) (sourceId : ℕ) : List StatementMapping :=
  (equalPairs.dropWhile fun p => p.1 < sourceId).takeWhile fun p => ¬ sourceId < p.1

def processSource (equalPairs : List StatementMapping) (targets : List ℕ)
    (state : Emission source target) (sourceId : ℕ) : Emission source target :=
  let state := match (equalRange equalPairs sourceId).find? fun p => !state.targetEmitted p.2 with
    | some p => state.emit .move (some sourceId) (some p.2)
    | none => state
  if state.sourceEmitted sourceId then state
  else
    let scan := scanTargets round state.targetEmitted sourceId targets none (-1) state.memo
    let state := { state with memo := scan.2 }
    match scan.1 with
    | .equal t => state.emit .keep (some sourceId) (some t)
    | .best (some t) => state.emit .update (some sourceId) (some t)
    | .best none => state.emit .delete (some sourceId) none

/-- One target statement behind the sources of its section. -/
def processTarget (state : Emission source target) (targetId : ℕ) : Emission source target :=
  if state.targetEmitted targetId then state else state.emit .insert none (some targetId)

def processSection (equalPairs : List StatementMapping) (prev next : StatementMapping)
    (state : Emission source target) : Emission source target :=
  let targets := List.range' prev.2 (next.2 - prev.2)
  let state := (List.range' prev.1 (next.1 - prev.1)).foldl
    (processSource round equalPairs targets) state
  targets.foldl processTarget state

/-- The loop over the sections, from the end of the last one. -/
def processSections (equalPairs : List StatementMapping) (last : StatementMapping) :
    StatementMapping → List StatementMapping → Emission source target → Emission source target
  | prev, [], state => processSection round equalPairs prev last state
  | prev, next :: lcs, state =>
    processSections equalPairs last next lcs
      ((processSection round equalPairs prev next state).emit .keep (some next.1) (some next.2))

end

def compute (round : ℚ → ℚ) (source target : ParsedScript) : List DiffOp :=
  let mapping := mapStatements source target
  let last := (source.statements.length, target.statements.length)
  let final : Emission source target :=
    processSections round mapping.2 last (0, 0) (findLCS mapping.1) {}
  final.ops

end DashQL.ScriptDiff
