import DashQL.Library.OrderedMap
import DashQL.View.PlanOperators

/-!
# Pipelines of Hyper plans

A plan does not say which operators run in one pipeline.  The pipelines are guessed in one pass
over the flat operators, from the leaves on: an operator without children starts a pipeline, and
so do the operators that read what they have collected, and an operator hands the pipelines that
come to it on to its parent unless it breaks them.
-/

namespace DashQL.PlanView

open Function List

/-! ## What is known of the operators -/

inductive KnownPipelineBehavior
  | breaksAll | passthrough | dependsOnJoinMethod

inductive KnownJoinPipelineBehavior
  | breaksAll | breaksLeft | breaksRight

def hyperPipelineBehavior : List (String × KnownPipelineBehavior) :=
  [("arrowscan", .breaksAll), ("assertsingle", .passthrough),
    ("batchudfexpressionoperator", .passthrough), ("binaryscan", .breaksAll),
    ("csvscan", .breaksAll), ("cursorcreate", .breaksAll), ("cursorscan", .breaksAll),
    ("debugprint", .passthrough), ("delete", .breaksAll), ("distribute", .breaksAll),
    ("earlyprobe", .passthrough), ("except", .breaksAll), ("exceptall", .breaksAll),
    ("executiontarget", .breaksAll), ("explainanalyze", .breaksAll),
    ("explicitscan", .breaksAll), ("externalformatexport", .breaksAll),
    ("federate", .passthrough), ("foreigntablescan", .breaksAll), ("groupby", .breaksAll),
    ("groupjoin", .breaksAll), ("icebergscan", .breaksAll), ("insert", .breaksAll),
    ("intersect", .breaksAll), ("intersectall", .breaksAll), ("iteration", .breaksAll),
    ("iterationincrement", .breaksAll), ("join", .dependsOnJoinMethod), ("kmeans", .breaksAll),
    ("leftantijoin", .dependsOnJoinMethod), ("leftmarkjoin", .dependsOnJoinMethod),
    ("leftouterjoin", .dependsOnJoinMethod), ("leftsemijoin", .dependsOnJoinMethod),
    ("leftsinglejoin", .dependsOnJoinMethod), ("map", .passthrough),
    ("naivebayespredict", .breaksAll), ("optimizationbarrier", .passthrough),
    ("parquetscan", .breaksAll), ("rawsqlsubquery", .passthrough), ("resultscan", .breaksAll),
    ("rightantijoin", .dependsOnJoinMethod), ("rightmarkjoin", .dependsOnJoinMethod),
    ("rightouterjoin", .dependsOnJoinMethod), ("rightsemijoin", .dependsOnJoinMethod),
    ("rightsinglejoin", .dependsOnJoinMethod), ("securebarrier", .passthrough),
    ("select", .passthrough), ("share", .breaksAll), ("sort", .breaksAll),
    ("tableconstruction", .breaksAll), ("tablefunction", .breaksAll), ("tablesample", .breaksAll),
    ("tablescan", .breaksAll), ("udtablefunction", .breaksAll), ("union", .breaksAll),
    ("unionall", .passthrough), ("update", .breaksAll), ("virtualtable", .breaksAll),
    ("window", .breaksAll)]

def hyperPipelineBehaviorHashJoin : List (String × KnownJoinPipelineBehavior) :=
  [("fullouterjoin", .breaksLeft), ("join", .breaksLeft), ("leftantijoin", .breaksAll),
    ("leftmarkjoin", .breaksLeft), ("leftouterjoin", .breaksLeft), ("leftsemijoin", .breaksLeft),
    ("leftsinglejoin", .breaksLeft), ("rightantijoin", .breaksLeft),
    ("rightmarkjoin", .breaksLeft), ("rightouterjoin", .breaksLeft),
    ("rightsemijoin", .breaksLeft), ("rightsinglejoin", .breaksLeft)]

def hyperPipelineLaunchers : List String :=
  ["explicitscan", "groupby", "groupjoin", "sort", "window"]

/-- A lookup in a table with names. -/
def findByName {α : Type} (table : List (String × α)) (name : Bytes) : Option α :=
  (table.find? fun entry => entry.1.toUTF8.toList = name).map Prod.snd

def methodKey : Bytes := "method".toUTF8.toList

def joinMethod (op : OperatorNode) : Bytes :=
  match op.operatorAttributes.lookup methodKey with
  | some value =>
    match value.value with
    | .string method => getString method
    | _ => []
  | none => []

/-- Whether the operator is the member of its parent with the given name. -/
def isMember (op : OperatorNode) (name : String) : Bool :=
  match op.parentPath.getLast? with
  | some (.memberInObject _ memberName) => decide (memberName = name.toUTF8.toList)
  | _ => false

/-- Whether pipelines that come from an operator end at its parent.  They do if nothing is known
of the parent. -/
def parentBreaksPipelines (op parentOp : OperatorNode) : Bool :=
  match findByName hyperPipelineBehavior (parentOp.operatorType.getD []) with
  | none => true
  | some .breaksAll => true
  | some .passthrough => false
  | some .dependsOnJoinMethod =>
    let joinBehavior :=
      if joinMethod parentOp = "hash".toUTF8.toList then
        findByName hyperPipelineBehaviorHashJoin (parentOp.operatorType.getD [])
      else none
    match joinBehavior with
    | some .breaksAll => true
    | some .breaksLeft => isMember op "left"
    | some .breaksRight => isMember op "right"
    | none => true

/-- Whether an operator starts a pipeline. -/
def launchesPipeline (op : OperatorNode) : Bool :=
  op.childCount = 0 ||
    hyperPipelineLaunchers.any fun launcher =>
      launcher.toUTF8.toList = op.operatorType.getD []

/-! ## The pass over the operators -/

structure PlanPipelineEdge where
  edgeId : ℕ
  pipelineId : ℕ
  childOperator : ℕ
  parentOperator : ℕ
  parentBreaksPipeline : Bool

structure Pipeline where
  fragmentId : ℕ := 0
  pipelineId : ℕ
  edges : OrderedMap (ℕ ×ₗ ℕ) PlanPipelineEdge := ∅

/-- The pipelines, by their index in the buffer also those that come to an operator and those
that leave it, and `next_edge_id`. -/
structure PipelineState where
  pipelines : List Pipeline := []
  inboundPipelines : ℕ → List ℕ := fun _ => []
  outboundPipelines : ℕ → List ℕ := fun _ => []
  nextEdgeId : ℕ := 0

/-- The loop over the edges of a pipeline that comes to an operator. -/
def pipelineBroken (operatorId : ℕ) (pipeline : Pipeline) : Bool :=
  pipeline.edges.toList.any fun entry =>
    decide ((ofLex entry.1).2 = operatorId) && entry.2.parentBreaksPipeline

/-- Whether a pipeline that comes to an operator does not break there. -/
def isUnbroken (op : OperatorNode) (state : PipelineState) (pipeline : ℕ) : Bool :=
  match state.pipelines[pipeline]? with
  | some pipeline => !pipelineBroken op.operatorId pipeline
  | none => false

/-- The pipelines that come to an operator go on unless they break there. -/
def propagatePipelines (op : OperatorNode) (index : ℕ) (state : PipelineState) : PipelineState :=
  let unbroken := (state.inboundPipelines index).filter (isUnbroken op state)
  { state with
    outboundPipelines :=
      Function.update state.outboundPipelines index (state.outboundPipelines index ++ unbroken) }

/-- `RegisterPipeline`, with the new pipeline leaving an operator. -/
def registerPipeline (index : ℕ) (state : PipelineState) : PipelineState :=
  let pipelineId := state.pipelines.length
  { state with
    pipelines := state.pipelines ++ [{ pipelineId := pipelineId }]
    outboundPipelines :=
      Function.update state.outboundPipelines index
        (state.outboundPipelines index ++ [pipelineId]) }

/-- An operator without children always starts a pipeline, others by their name. -/
def launchPipeline (op : OperatorNode) (index : ℕ) (state : PipelineState) : PipelineState :=
  if launchesPipeline op then registerPipeline index state else state

/-- The edge of a pipeline to the parent of an operator, inserted if there is none. -/
def Pipeline.insertEdge (op parentOp : OperatorNode) (edgeId : ℕ) (pipeline : Pipeline) :
    Pipeline :=
  { pipeline with
    edges := pipeline.edges.insertIfNew (toLex (op.operatorId, parentOp.operatorId))
      { edgeId := edgeId
        pipelineId := pipeline.pipelineId
        childOperator := op.operatorId
        parentOperator := parentOp.operatorId
        parentBreaksPipeline := parentBreaksPipelines op parentOp } }

/-- A round of the loop that creates the edges of the pipelines that leave an operator. -/
def emitEdge (op parentOp : OperatorNode) (parentIndex : ℕ) (state : PipelineState)
    (pipeline : ℕ) : PipelineState :=
  { state with
    pipelines := state.pipelines.modify pipeline (Pipeline.insertEdge op parentOp state.nextEdgeId)
    inboundPipelines :=
      Function.update state.inboundPipelines parentIndex
        (state.inboundPipelines parentIndex ++ [pipeline])
    nextEdgeId := state.nextEdgeId + 1 }

/-- A round of the loop over the operators. -/
def visitOperator (operators : List OperatorNode) (state : PipelineState) (index : ℕ) :
    PipelineState :=
  match operators[index]? with
  | none => state
  | some op =>
    match op.parentOperatorId with
    | none => state
    | some parentIndex =>
      match operators[parentIndex]? with
      | none => state
      | some parentOp =>
        let launched := launchPipeline op index (propagatePipelines op index state)
        (launched.outboundPipelines index).foldl (emitEdge op parentOp parentIndex) launched

def identifyHyperPipelines (operators : List OperatorNode) : PipelineState :=
  (List.range operators.length).foldl (visitOperator operators) {}

/-! ## Pipelines as paths -/

/-- A flattened operator tree: the ids are the positions, and parents stand behind their
children. -/
structure FlatTree where
  operators : List OperatorNode
  numbered : ∀ (i : ℕ) (op : OperatorNode), operators[i]? = some op → op.operatorId = i
  parent_behind : ∀ (i p : ℕ) (op : OperatorNode), operators[i]? = some op →
    op.parentOperatorId = some p → i < p ∧ p < operators.length

def Pipeline.edgeList (pipeline : Pipeline) : List PlanPipelineEdge :=
  pipeline.edges.toList.map Prod.snd

/-- An edge leads from an operator to its parent and says whether the parent breaks there. -/
def UpEdge (operators : List OperatorNode) (edge : PlanPipelineEdge) : Prop :=
  ∃ op parentOp, operators[edge.childOperator]? = some op ∧
    op.parentOperatorId = some edge.parentOperator ∧
    operators[edge.parentOperator]? = some parentOp ∧
    edge.parentBreaksPipeline = parentBreaksPipelines op parentOp

/-- An edge is the end of its pipeline: the parent breaks, or it is a root. -/
def StopsAt (operators : List OperatorNode) (last : PlanPipelineEdge) : Prop :=
  last.parentBreaksPipeline = true ∨ ∃ root, operators[last.parentOperator]? = some root ∧
    root.parentOperatorId = none

/-- The edges of a pipeline, in order, are a path from an operator that starts pipelines up to
the first breaker or to a root. -/
structure PipelinePath (operators : List OperatorNode) (pipeline : Pipeline) : Prop where
  source : ∃ first op, pipeline.edgeList.head? = some first ∧
    operators[first.childOperator]? = some op ∧ launchesPipeline op = true
  upwards : ∀ edge ∈ pipeline.edgeList, UpEdge operators edge ∧
    edge.pipelineId = pipeline.pipelineId
  contiguous : pipeline.edgeList.IsChain fun edge next =>
    edge.parentOperator = next.childOperator ∧ edge.edgeId < next.edgeId
  unbroken : ∀ edge ∈ pipeline.edgeList.dropLast, edge.parentBreaksPipeline = false
  stops : ∃ last, pipeline.edgeList.getLast? = some last ∧ StopsAt operators last

/-- A path that is still climbing: its operators have been visited. -/
structure OpenPath (operators : List OperatorNode) (visited : ℕ) (pipeline : Pipeline) : Prop where
  source : ∃ first op, pipeline.edgeList.head? = some first ∧
    operators[first.childOperator]? = some op ∧ launchesPipeline op = true
  upwards : ∀ edge ∈ pipeline.edgeList, UpEdge operators edge ∧
    edge.pipelineId = pipeline.pipelineId
  contiguous : pipeline.edgeList.IsChain fun edge next =>
    edge.parentOperator = next.childOperator ∧ edge.edgeId < next.edgeId
  unbroken : ∀ edge ∈ pipeline.edgeList.dropLast, edge.parentBreaksPipeline = false
  keyed : ∀ entry ∈ pipeline.edges.toList,
    entry.1 = toLex (entry.2.childOperator, entry.2.parentOperator)
  climbed : ∀ edge ∈ pipeline.edgeList, edge.childOperator < visited

variable {operators : List OperatorNode} {pipeline : Pipeline} {op parentOp : OperatorNode}
  {visited edgeId : ℕ}

def upwardEdge (op parentOp : OperatorNode) (edgeId pipelineId : ℕ) : PlanPipelineEdge where
  edgeId := edgeId
  pipelineId := pipelineId
  childOperator := op.operatorId
  parentOperator := parentOp.operatorId
  parentBreaksPipeline := parentBreaksPipelines op parentOp

theorem edges_insertEdge (parentOp : OperatorNode) (edgeId : ℕ)
    (hkeyed : ∀ entry ∈ pipeline.edges.toList,
      entry.1 = toLex (entry.2.childOperator, entry.2.parentOperator))
    (hclimbed : ∀ edge ∈ pipeline.edgeList, edge.childOperator < op.operatorId) :
    (pipeline.insertEdge op parentOp edgeId).edges.toList =
      pipeline.edges.toList ++ [(toLex (op.operatorId, parentOp.operatorId),
        upwardEdge op parentOp edgeId pipeline.pipelineId)] := by
  apply OrderedMap.toList_insertIfNew_of_lt
  intro entry hentry
  rw [hkeyed entry hentry, Prod.Lex.toLex_lt_toLex]
  exact Or.inl (hclimbed entry.2 (mem_map_of_mem hentry))

theorem edgeList_insertEdge (parentOp : OperatorNode) (edgeId : ℕ)
    (hkeyed : ∀ entry ∈ pipeline.edges.toList,
      entry.1 = toLex (entry.2.childOperator, entry.2.parentOperator))
    (hclimbed : ∀ edge ∈ pipeline.edgeList, edge.childOperator < op.operatorId) :
    (pipeline.insertEdge op parentOp edgeId).edgeList =
      pipeline.edgeList ++ [upwardEdge op parentOp edgeId pipeline.pipelineId] := by
  unfold Pipeline.edgeList
  rw [edges_insertEdge parentOp edgeId hkeyed hclimbed, map_append, map_singleton]

theorem openPath_first (hop : operators[op.operatorId]? = some op)
    (hparent : op.parentOperatorId = some parentOp.operatorId)
    (hparentOp : operators[parentOp.operatorId]? = some parentOp)
    (hlaunches : launchesPipeline op = true) (hedges : pipeline.edges = ∅) :
    OpenPath operators (op.operatorId + 1) (pipeline.insertEdge op parentOp edgeId) := by
  have hempty : pipeline.edges.toList = [] := by rw [hedges]; rfl
  have hlist : pipeline.edgeList = [] := by rw [Pipeline.edgeList, hempty, map_nil]
  have hkeyed : ∀ entry ∈ pipeline.edges.toList,
      entry.1 = toLex (entry.2.childOperator, entry.2.parentOperator) := by
    rw [hempty]
    exact fun _ hentry => absurd hentry not_mem_nil
  have hclimbed : ∀ edge ∈ pipeline.edgeList, edge.childOperator < op.operatorId := by
    rw [hlist]
    exact fun _ hedge => absurd hedge not_mem_nil
  have hedge := edgeList_insertEdge parentOp edgeId hkeyed hclimbed
  have hentry := edges_insertEdge parentOp edgeId hkeyed hclimbed
  rw [hlist, nil_append] at hedge
  rw [hempty, nil_append] at hentry
  refine ⟨?_, ?_, ?_, ?_, ?_, ?_⟩
  · rw [hedge]
    exact ⟨_, op, rfl, hop, hlaunches⟩
  · rw [hedge, forall_mem_singleton]
    exact ⟨⟨op, parentOp, hop, hparent, hparentOp, rfl⟩, rfl⟩
  · rw [hedge]
    exact isChain_singleton _
  · rw [hedge]
    exact fun _ h => absurd h not_mem_nil
  · rw [hentry, forall_mem_singleton]
    rfl
  · rw [hedge, forall_mem_singleton]
    exact Nat.lt_succ_self _

theorem OpenPath.extend (h : OpenPath operators op.operatorId pipeline)
    (hop : operators[op.operatorId]? = some op)
    (hparent : op.parentOperatorId = some parentOp.operatorId)
    (hparentOp : operators[parentOp.operatorId]? = some parentOp) {last : PlanPipelineEdge}
    (hlast : pipeline.edgeList.getLast? = some last) (hcomes : last.parentOperator = op.operatorId)
    (hbreaks : last.parentBreaksPipeline = false) (hedgeId : last.edgeId < edgeId) :
    OpenPath operators (op.operatorId + 1) (pipeline.insertEdge op parentOp edgeId) := by
  have hedge := edgeList_insertEdge parentOp edgeId h.keyed h.climbed
  have hentry := edges_insertEdge parentOp edgeId h.keyed h.climbed
  refine ⟨?_, ?_, ?_, ?_, ?_, ?_⟩
  · obtain ⟨first, source, hfirst, hsource⟩ := h.source
    refine ⟨first, source, ?_, hsource⟩
    rw [hedge, head?_append, hfirst, Option.some_or]
  · rw [hedge, forall_mem_append, forall_mem_singleton]
    exact ⟨h.upwards, ⟨op, parentOp, hop, hparent, hparentOp, rfl⟩, rfl⟩
  · rw [hedge]
    apply h.contiguous.append (isChain_singleton _)
    intro edge hmem next hnext
    obtain rfl : last = edge := Option.some.inj (hlast.symm.trans hmem)
    obtain rfl := Option.some.inj hnext
    exact ⟨hcomes, hedgeId⟩
  · rw [hedge, dropLast_concat, ← dropLast_append_getLast? last hlast,
      forall_mem_append, forall_mem_singleton]
    exact ⟨h.unbroken, hbreaks⟩
  · rw [hentry, forall_mem_append, forall_mem_singleton]
    exact ⟨h.keyed, rfl⟩
  · rw [hedge, forall_mem_append, forall_mem_singleton]
    exact ⟨fun edge hmem => (h.climbed edge hmem).trans (Nat.lt_succ_self _), Nat.lt_succ_self _⟩

theorem OpenPath.mono (h : OpenPath operators visited pipeline) {later : ℕ}
    (hle : visited ≤ later) : OpenPath operators later pipeline where
  source := h.source
  upwards := h.upwards
  contiguous := h.contiguous
  unbroken := h.unbroken
  keyed := h.keyed
  climbed := fun edge hmem => (h.climbed edge hmem).trans_le hle

theorem OpenPath.pipelineBroken_eq (h : OpenPath operators visited pipeline)
    {last : PlanPipelineEdge} (hlast : pipeline.edgeList.getLast? = some last) :
    pipelineBroken last.parentOperator pipeline = last.parentBreaksPipeline := by
  rw [Bool.eq_iff_iff]
  unfold pipelineBroken
  rw [any_eq_true]
  constructor
  · rintro ⟨entry, hentry, hbroken⟩
    rw [Bool.and_eq_true] at hbroken
    have hmem : entry.2 ∈ pipeline.edgeList := mem_map_of_mem hentry
    rw [← dropLast_append_getLast? last hlast, mem_append, mem_singleton] at hmem
    obtain hearlier | heq := hmem
    · exact absurd hbroken.2 (by rw [h.unbroken entry.2 hearlier]; simp)
    · rw [← heq]
      exact hbroken.2
  · intro hbreaks
    obtain ⟨entry, hentry, rfl⟩ := mem_map.mp (mem_of_getLast? hlast)
    refine ⟨entry, hentry, ?_⟩
    rw [h.keyed entry hentry, Bool.and_eq_true]
    exact ⟨decide_eq_true rfl, hbreaks⟩

/-! ## The edges of a round -/

/-- What the loop over the pipelines that leave an operator does: each of them gets one edge. -/
theorem foldl_emitEdge (op parentOp : OperatorNode) (parentIndex : ℕ) (outbound : List ℕ)
    (hnodup : outbound.Nodup) (state : PipelineState) :
    let after := outbound.foldl (emitEdge op parentOp parentIndex) state
    after.outboundPipelines = state.outboundPipelines ∧
      after.inboundPipelines = Function.update state.inboundPipelines parentIndex
        (state.inboundPipelines parentIndex ++ outbound) ∧
      state.nextEdgeId ≤ after.nextEdgeId ∧
      after.pipelines.length = state.pipelines.length ∧
      (∀ k ∉ outbound, after.pipelines[k]? = state.pipelines[k]?) ∧
      ∀ k ∈ outbound, ∃ edgeId, state.nextEdgeId ≤ edgeId ∧ edgeId < after.nextEdgeId ∧
        after.pipelines[k]? =
          (state.pipelines[k]?).map (Pipeline.insertEdge op parentOp edgeId) := by
  induction outbound generalizing state with
  | nil => simp
  | cons first outbound ih =>
    rw [nodup_cons] at hnodup
    obtain ⟨houtbound, hinbound, hle, hlength, hother, hedges⟩ :=
      ih hnodup.2 (emitEdge op parentOp parentIndex state first)
    have hfirst : ∀ k, (emitEdge op parentOp parentIndex state first).pipelines[k]? =
        if first = k then
          (state.pipelines[k]?).map (Pipeline.insertEdge op parentOp state.nextEdgeId)
        else state.pipelines[k]? := by
      intro k
      exact (getElem?_modify ..).trans (by split_ifs <;> simp)
    dsimp only
    rw [foldl_cons]
    refine ⟨houtbound, ?_, Nat.le_of_succ_le hle, ?_, ?_, ?_⟩
    · rw [hinbound]
      simp [emitEdge]
    · rw [hlength]
      exact length_modify ..
    · intro k hk
      rw [mem_cons, not_or] at hk
      rw [hother k hk.2, hfirst, if_neg (Ne.symm hk.1)]
    · intro k hk
      obtain rfl | hk := mem_cons.mp hk
      · refine ⟨state.nextEdgeId, le_rfl, hle, ?_⟩
        rw [hother k hnodup.1, hfirst, if_pos rfl]
      · obtain ⟨edgeId, hge, hlt, heq⟩ := hedges k hk
        refine ⟨edgeId, Nat.le_of_succ_le hge, hlt, ?_⟩
        rw [heq, hfirst, if_neg]
        exact fun h => hnodup.1 (h ▸ hk)

/-! ## The invariant of the pass -/

/-- The pipelines before an operator is visited: they are paths that have stopped or have come to
an operator that is still to be visited, which knows of them. -/
structure Climbing (operators : List OperatorNode) (visited : ℕ) (state : PipelineState) :
    Prop where
  ids : ∀ (k : ℕ) (pipeline : Pipeline), state.pipelines[k]? = some pipeline →
    pipeline.pipelineId = k
  paths : ∀ (k : ℕ) (pipeline : Pipeline), state.pipelines[k]? = some pipeline →
    OpenPath operators visited pipeline
  edgeIds : ∀ (k : ℕ) (pipeline : Pipeline), state.pipelines[k]? = some pipeline →
    ∀ edge ∈ pipeline.edgeList, edge.edgeId < state.nextEdgeId
  settled : ∀ (k : ℕ) (pipeline : Pipeline) (last : PlanPipelineEdge),
    state.pipelines[k]? = some pipeline → pipeline.edgeList.getLast? = some last →
    StopsAt operators last ∨
      visited ≤ last.parentOperator ∧ k ∈ state.inboundPipelines last.parentOperator
  inbound : ∀ j, visited ≤ j → ∀ k ∈ state.inboundPipelines j, ∃ pipeline last,
    state.pipelines[k]? = some pipeline ∧ pipeline.edgeList.getLast? = some last ∧
      last.parentOperator = j
  nodup : ∀ j, visited ≤ j → (state.inboundPipelines j).Nodup
  outbound : ∀ j, visited ≤ j → state.outboundPipelines j = []

theorem climbing_start (operators : List OperatorNode) : Climbing operators 0 {} where
  ids k pipeline h := by simp at h
  paths k pipeline h := by simp at h
  edgeIds k pipeline h := by simp at h
  settled k pipeline last h := by simp at h
  inbound j _ k hk := absurd hk not_mem_nil
  nodup j _ := nodup_nil
  outbound j _ := rfl

/-- What has happened when the edges of an operator are about to be created. -/
structure Launched (op : OperatorNode) (index : ℕ) (state launched : PipelineState) : Prop where
  inbound : launched.inboundPipelines = state.inboundPipelines
  nextEdgeId : launched.nextEdgeId = state.nextEdgeId
  kept : ∀ (k : ℕ) (pipeline : Pipeline), state.pipelines[k]? = some pipeline →
    launched.pipelines[k]? = some pipeline
  pipelines : ∀ (k : ℕ) (pipeline : Pipeline), launched.pipelines[k]? = some pipeline →
    state.pipelines[k]? = some pipeline ∨
      launchesPipeline op = true ∧ k = state.pipelines.length ∧ pipeline = { pipelineId := k } ∧
        k ∈ launched.outboundPipelines index
  nodup : (launched.outboundPipelines index).Nodup
  leaving : ∀ k, k ∈ launched.outboundPipelines index ↔
    (k ∈ state.inboundPipelines index ∧ ∃ pipeline, state.pipelines[k]? = some pipeline ∧
        pipelineBroken op.operatorId pipeline = false) ∨
      k = state.pipelines.length ∧ launchesPipeline op = true
  present : ∀ k ∈ launched.outboundPipelines index, ∃ pipeline,
    launched.pipelines[k]? = some pipeline
  others : ∀ j ≠ index, launched.outboundPipelines j = state.outboundPipelines j

theorem isUnbroken_iff {state : PipelineState} {k : ℕ} :
    isUnbroken op state k = true ↔ ∃ pipeline, state.pipelines[k]? = some pipeline ∧
      pipelineBroken op.operatorId pipeline = false := by
  unfold isUnbroken
  cases state.pipelines[k]? with
  | none => simp
  | some pipeline => simp

theorem launched_launchPipeline (op : OperatorNode) {state : PipelineState} {index : ℕ}
    (h : Climbing operators index state) :
    Launched op index state (launchPipeline op index (propagatePipelines op index state)) := by
  have hpropagated : (propagatePipelines op index state).outboundPipelines index =
      (state.inboundPipelines index).filter (isUnbroken op state) := by
    simp [propagatePipelines, h.outbound index le_rfl]
  have hmem : ∀ k, k ∈ (propagatePipelines op index state).outboundPipelines index ↔
      k ∈ state.inboundPipelines index ∧ ∃ pipeline, state.pipelines[k]? = some pipeline ∧
        pipelineBroken op.operatorId pipeline = false := by
    intro k
    rw [hpropagated, mem_filter, isUnbroken_iff]
  have hnodup : ((propagatePipelines op index state).outboundPipelines index).Nodup := by
    rw [hpropagated]
    exact (h.nodup index le_rfl).filter _
  have hothers : ∀ j ≠ index, (propagatePipelines op index state).outboundPipelines j =
      state.outboundPipelines j := fun j hj => update_of_ne hj _ _
  unfold launchPipeline
  split_ifs with hlaunches
  · have houtbound : (registerPipeline index (propagatePipelines op index state)).outboundPipelines
        index = (propagatePipelines op index state).outboundPipelines index ++
          [state.pipelines.length] := by
      simp [registerPipeline, propagatePipelines]
    have hfresh : state.pipelines.length ∉
        (propagatePipelines op index state).outboundPipelines index := by
      intro hk
      obtain ⟨-, pipeline, hpipeline, -⟩ := (hmem _).mp hk
      exact Nat.lt_irrefl _ (List.getElem?_eq_some_iff.mp hpipeline).1
    refine ⟨rfl, rfl, ?_, ?_, ?_, ?_, ?_, ?_⟩
    · intro k pipeline hk
      exact (getElem?_append_left (List.getElem?_eq_some_iff.mp hk).1).trans hk
    · intro k pipeline hk
      have hk' : (state.pipelines ++ [{ pipelineId := state.pipelines.length }])[k]? =
          some pipeline := hk
      rw [getElem?_append] at hk'
      split_ifs at hk' with hlt
      · exact Or.inl hk'
      · obtain ⟨hindex, hpipeline⟩ := List.getElem?_eq_some_iff.mp hk'
        have hkeq : k = state.pipelines.length := by
          rw [length_singleton] at hindex
          omega
        refine Or.inr ⟨hlaunches, hkeq, ?_, ?_⟩
        · rw [← hpipeline, getElem_singleton, hkeq]
        · rw [houtbound, hkeq]
          exact mem_append_right _ (mem_singleton_self _)
    · rw [houtbound]
      exact List.Nodup.append hnodup (nodup_singleton _) (disjoint_singleton.mpr hfresh)
    · intro k
      rw [houtbound, mem_append, mem_singleton, hmem, and_iff_left hlaunches]
    · intro k hk
      rw [houtbound, mem_append, mem_singleton] at hk
      obtain hold | rfl := hk
      · obtain ⟨-, pipeline, hpipeline, -⟩ := (hmem k).mp hold
        exact ⟨pipeline, (getElem?_append_left
          (List.getElem?_eq_some_iff.mp hpipeline).1).trans hpipeline⟩
      · exact ⟨_, getElem?_concat_length⟩
    · intro j hj
      exact (update_of_ne hj _ _).trans (hothers j hj)
  · refine ⟨rfl, rfl, fun _ _ hk => hk, fun _ _ hk => Or.inl hk, hnodup, ?_, ?_, hothers⟩
    · intro k
      rw [hmem]
      simp [hlaunches]
    · intro k hk
      obtain ⟨-, pipeline, hpipeline, -⟩ := (hmem k).mp hk
      exact ⟨pipeline, hpipeline⟩

variable {state : PipelineState} {tree : FlatTree}

/-- An operator without a parent is a root, and the pipelines that came to it end there. -/
theorem Climbing.root (h : Climbing operators visited state)
    (hop : operators[visited]? = some op) (hparent : op.parentOperatorId = none) :
    Climbing operators (visited + 1) state where
  ids := h.ids
  paths := fun k pipeline hk => (h.paths k pipeline hk).mono (Nat.le_succ _)
  edgeIds := h.edgeIds
  settled k pipeline last hk hlast := by
    obtain hstops | ⟨hle, hinbound⟩ := h.settled k pipeline last hk hlast
    · exact Or.inl hstops
    · obtain heq | hlt := Nat.eq_or_lt_of_le hle
      · exact Or.inl (Or.inr ⟨op, heq ▸ hop, hparent⟩)
      · exact Or.inr ⟨hlt, hinbound⟩
  inbound := fun j hj => h.inbound j (Nat.le_of_succ_le hj)
  nodup := fun j hj => h.nodup j (Nat.le_of_succ_le hj)
  outbound := fun j hj => h.outbound j (Nat.le_of_succ_le hj)

variable {launched : PipelineState}

theorem Climbing.openPath_of_leaving (h : Climbing tree.operators op.operatorId state)
    (hlaunched : Launched op op.operatorId state launched)
    (hop : tree.operators[op.operatorId]? = some op)
    (hparent : op.parentOperatorId = some parentOp.operatorId)
    (hparentOp : tree.operators[parentOp.operatorId]? = some parentOp) {k : ℕ}
    (hk : k ∈ launched.outboundPipelines op.operatorId) (hedgeId : state.nextEdgeId ≤ edgeId)
    (hpipeline : launched.pipelines[k]? = some pipeline) :
    OpenPath tree.operators (op.operatorId + 1) (pipeline.insertEdge op parentOp edgeId) ∧
      (pipeline.insertEdge op parentOp edgeId).edgeList =
        pipeline.edgeList ++ [upwardEdge op parentOp edgeId pipeline.pipelineId] ∧
      ∀ edge ∈ pipeline.edgeList, edge.edgeId < state.nextEdgeId := by
  obtain hold | ⟨hlaunches, hlength, hnew, -⟩ := hlaunched.pipelines k pipeline hpipeline
  · obtain ⟨hinbound, pipeline', hpipeline', hunbroken⟩ | ⟨rfl, -⟩ := (hlaunched.leaving k).mp hk
    · obtain rfl := Option.some.inj (hold.symm.trans hpipeline')
      obtain ⟨pipeline', last, hpipeline', hlast, hcomes⟩ := h.inbound _ le_rfl k hinbound
      obtain rfl := Option.some.inj (hold.symm.trans hpipeline')
      have hpath := h.paths k pipeline hold
      have hids := h.edgeIds k pipeline hold
      have hbreaks : last.parentBreaksPipeline = false := by
        rw [← hpath.pipelineBroken_eq hlast, hcomes]
        exact hunbroken
      have hlastId := (hids last (mem_of_getLast? hlast)).trans_le hedgeId
      exact ⟨hpath.extend hop hparent hparentOp hlast hcomes hbreaks hlastId,
        edgeList_insertEdge _ _ hpath.keyed hpath.climbed, hids⟩
    · exact absurd (List.getElem?_eq_some_iff.mp hold).1 (Nat.lt_irrefl _)
  · have hempty : pipeline.edges.toList = [] := by
      rw [hnew]
      rfl
    have hlist : pipeline.edgeList = [] := by rw [Pipeline.edgeList, hempty, map_nil]
    refine ⟨openPath_first hop hparent hparentOp hlaunches (by rw [hnew]), ?_, ?_⟩
    · apply edgeList_insertEdge
      · rw [hempty]
        exact fun _ hentry => absurd hentry not_mem_nil
      · rw [hlist]
        exact fun _ hedge => absurd hedge not_mem_nil
    · rw [hlist]
      exact fun _ hedge => absurd hedge not_mem_nil

/-- A pipeline that has come to an operator behind does not leave this one. -/
theorem Climbing.not_leaving (h : Climbing operators op.operatorId state)
    (hlaunched : Launched op op.operatorId state launched) {j k : ℕ} (hj : op.operatorId < j)
    (hk : k ∈ state.inboundPipelines j) : k ∉ launched.outboundPipelines op.operatorId := by
  intro hleaving
  obtain ⟨pipeline, last, hpipeline, hlast, hcomes⟩ := h.inbound j hj.le k hk
  obtain ⟨hcame, -⟩ | ⟨rfl, -⟩ := (hlaunched.leaving k).mp hleaving
  · obtain ⟨pipeline', last', hpipeline', hlast', hcomes'⟩ := h.inbound _ le_rfl k hcame
    obtain rfl := Option.some.inj (hpipeline.symm.trans hpipeline')
    obtain rfl := Option.some.inj (hlast.symm.trans hlast')
    exact hj.ne (hcomes'.symm.trans hcomes)
  · exact Nat.lt_irrefl _ (List.getElem?_eq_some_iff.mp hpipeline).1

/-- The pipelines when the edges of an operator have been created. -/
structure Emitted (op parentOp : OperatorNode) (state launched after : PipelineState) : Prop where
  inbound : after.inboundPipelines = Function.update state.inboundPipelines parentOp.operatorId
    (state.inboundPipelines parentOp.operatorId ++ launched.outboundPipelines op.operatorId)
  nextEdgeId : state.nextEdgeId ≤ after.nextEdgeId
  outbound : after.outboundPipelines = launched.outboundPipelines
  /-- A pipeline is as before, or it has got its edge. -/
  pipelines : ∀ (k : ℕ) (pipeline : Pipeline), after.pipelines[k]? = some pipeline →
    (k ∉ launched.outboundPipelines op.operatorId ∧ state.pipelines[k]? = some pipeline) ∨
      (k ∈ launched.outboundPipelines op.operatorId ∧ ∃ earlier edgeId,
        launched.pipelines[k]? = some earlier ∧ state.nextEdgeId ≤ edgeId ∧
          edgeId < after.nextEdgeId ∧ pipeline = earlier.insertEdge op parentOp edgeId)
  present : ∀ (k : ℕ) (pipeline : Pipeline), state.pipelines[k]? = some pipeline →
    ∃ pipeline, after.pipelines[k]? = some pipeline
  leaving : ∀ k ∈ launched.outboundPipelines op.operatorId, ∃ pipeline,
    after.pipelines[k]? = some pipeline

theorem emitted_foldl (hlaunched : Launched op op.operatorId state launched) :
    Emitted op parentOp state launched
      ((launched.outboundPipelines op.operatorId).foldl
        (emitEdge op parentOp parentOp.operatorId) launched) := by
  obtain ⟨houtbound, hinbound, hle, hlength, hother, hedges⟩ :=
    foldl_emitEdge op parentOp parentOp.operatorId _ hlaunched.nodup launched
  rw [hlaunched.nextEdgeId] at hle hedges
  rw [hlaunched.inbound] at hinbound
  have hpresent : ∀ (k : ℕ) (pipeline : Pipeline), launched.pipelines[k]? = some pipeline →
      ∃ pipeline, ((launched.outboundPipelines op.operatorId).foldl
        (emitEdge op parentOp parentOp.operatorId) launched).pipelines[k]? = some pipeline := by
    intro k pipeline hk
    have hlt := (List.getElem?_eq_some_iff.mp hk).1
    exact ⟨_, getElem?_eq_getElem (hlength.symm ▸ hlt)⟩
  refine ⟨hinbound, hle, houtbound, ?_, ?_, ?_⟩
  · intro k pipeline hk
    by_cases hleaving : k ∈ launched.outboundPipelines op.operatorId
    · obtain ⟨edgeId, hge, hlt, heq⟩ := hedges k hleaving
      obtain ⟨earlier, hearlier, heq'⟩ := Option.map_eq_some_iff.mp (heq.symm.trans hk)
      exact Or.inr ⟨hleaving, earlier, edgeId, hearlier, hge, hlt, heq'.symm⟩
    · rw [hother k hleaving] at hk
      obtain hold | ⟨-, -, -, hnew⟩ := hlaunched.pipelines k pipeline hk
      · exact Or.inl ⟨hleaving, hold⟩
      · exact absurd hnew hleaving
  · exact fun k pipeline hk => hpresent k pipeline (hlaunched.kept k pipeline hk)
  · intro k hk
    obtain ⟨pipeline, hpipeline⟩ := hlaunched.present k hk
    exact hpresent k pipeline hpipeline

/-- What was said of a pipeline that came to an operator and does not leave it, or came to one
behind, is still so. -/
theorem Climbing.settled_of_stays (h : Climbing operators op.operatorId state)
    {after : PipelineState} (hlaunched : Launched op op.operatorId state launched)
    (hafter : Emitted op parentOp state launched after) {k : ℕ} {last : PlanPipelineEdge}
    (hnot : k ∉ launched.outboundPipelines op.operatorId) (hk : state.pipelines[k]? = some pipeline)
    (hlast : pipeline.edgeList.getLast? = some last) :
    StopsAt operators last ∨ op.operatorId + 1 ≤ last.parentOperator ∧
      k ∈ after.inboundPipelines last.parentOperator := by
  obtain hstops | ⟨hvisited, hcame⟩ := h.settled k pipeline last hk hlast
  · exact Or.inl hstops
  · obtain heq | hlt := Nat.eq_or_lt_of_le hvisited
    · -- it came to this operator and does not leave it, so it was broken
      refine Or.inl (Or.inl ?_)
      rw [← (h.paths k pipeline hk).pipelineBroken_eq hlast, ← heq]
      by_contra hunbroken
      rw [Bool.not_eq_true] at hunbroken
      exact hnot ((hlaunched.leaving k).mpr (Or.inl ⟨heq ▸ hcame, pipeline, hk, hunbroken⟩))
    · refine Or.inr ⟨hlt, ?_⟩
      rw [hafter.inbound]
      by_cases hj : last.parentOperator = parentOp.operatorId
      · rw [hj, update_self]
        exact mem_append_left _ (hj ▸ hcame)
      · rw [update_of_ne hj]
        exact hcame

/-- The pipelines that leave an operator come to its parent. -/
theorem Climbing.parent (h : Climbing tree.operators op.operatorId state)
    (hop : tree.operators[op.operatorId]? = some op)
    (hparent : op.parentOperatorId = some parentOp.operatorId)
    (hparentOp : tree.operators[parentOp.operatorId]? = some parentOp)
    (hbehind : op.operatorId < parentOp.operatorId) {after : PipelineState}
    (hlaunched : Launched op op.operatorId state launched)
    (hafter : Emitted op parentOp state launched after) :
    Climbing tree.operators (op.operatorId + 1) after where
  ids k pipeline hk := by
    obtain ⟨-, hold⟩ | ⟨-, earlier, edgeId, hearlier, -, -, rfl⟩ := hafter.pipelines k pipeline hk
    · exact h.ids k pipeline hold
    · obtain hold | ⟨-, -, rfl, -⟩ := hlaunched.pipelines k earlier hearlier
      · exact h.ids k earlier hold
      · rfl
  paths k pipeline hk := by
    obtain ⟨-, hold⟩ | ⟨hleaving, earlier, edgeId, hearlier, hge, -, rfl⟩ :=
      hafter.pipelines k pipeline hk
    · exact (h.paths k pipeline hold).mono (Nat.le_succ _)
    · exact (h.openPath_of_leaving hlaunched hop hparent hparentOp hleaving hge hearlier).1
  edgeIds k pipeline hk := by
    obtain ⟨-, hold⟩ | ⟨hleaving, earlier, edgeId, hearlier, hge, hlt, rfl⟩ :=
      hafter.pipelines k pipeline hk
    · exact fun edge hedge => (h.edgeIds k pipeline hold edge hedge).trans_le hafter.nextEdgeId
    · obtain ⟨-, hlist, hids⟩ :=
        h.openPath_of_leaving hlaunched hop hparent hparentOp hleaving hge hearlier
      rw [hlist, forall_mem_append, forall_mem_singleton]
      exact ⟨fun edge hedge => (hids edge hedge).trans_le hafter.nextEdgeId, hlt⟩
  settled k pipeline last hk hlast := by
    obtain ⟨hnot, hold⟩ | ⟨hleaving, earlier, edgeId, hearlier, hge, -, rfl⟩ :=
      hafter.pipelines k pipeline hk
    · exact h.settled_of_stays hlaunched hafter hnot hold hlast
    · obtain ⟨-, hlist, -⟩ :=
        h.openPath_of_leaving hlaunched hop hparent hparentOp hleaving hge hearlier
      rw [hlist, getLast?_concat] at hlast
      obtain rfl := Option.some.inj hlast
      refine Or.inr ⟨hbehind, ?_⟩
      rw [hafter.inbound]
      show k ∈ Function.update state.inboundPipelines parentOp.operatorId _ parentOp.operatorId
      rw [update_self]
      exact mem_append_right _ hleaving
  inbound j hj k hk := by
    have hcame : k ∈ state.inboundPipelines j ∨
        j = parentOp.operatorId ∧ k ∈ launched.outboundPipelines op.operatorId := by
      rw [hafter.inbound] at hk
      by_cases hjeq : j = parentOp.operatorId
      · rw [hjeq, update_self, mem_append] at hk
        exact hk.imp (fun h => hjeq ▸ h) fun h => ⟨hjeq, h⟩
      · rw [update_of_ne hjeq] at hk
        exact Or.inl hk
    obtain hcame | ⟨rfl, hleaving⟩ := hcame
    · obtain ⟨pipeline, last, hpipeline, hlast⟩ := h.inbound j (Nat.le_of_succ_le hj) k hcame
      obtain ⟨pipeline', hpipeline'⟩ := hafter.present k pipeline hpipeline
      obtain ⟨-, hold⟩ | ⟨hleaving, -⟩ := hafter.pipelines k pipeline' hpipeline'
      · obtain rfl := Option.some.inj (hpipeline.symm.trans hold)
        exact ⟨pipeline, last, hpipeline', hlast⟩
      · exact absurd hleaving (h.not_leaving hlaunched hj hcame)
    · obtain ⟨pipeline, hpipeline⟩ := hafter.leaving k hleaving
      obtain ⟨hnot, -⟩ | ⟨-, earlier, edgeId, hearlier, hge, -, rfl⟩ :=
        hafter.pipelines k pipeline hpipeline
      · exact absurd hleaving hnot
      · obtain ⟨-, hlist, -⟩ :=
          h.openPath_of_leaving hlaunched hop hparent hparentOp hleaving hge hearlier
        refine ⟨_, upwardEdge op parentOp edgeId earlier.pipelineId, hpipeline, ?_, rfl⟩
        rw [hlist, getLast?_concat]
  nodup j hj := by
    rw [hafter.inbound]
    by_cases hjeq : j = parentOp.operatorId
    · rw [hjeq, update_self]
      refine List.Nodup.append (h.nodup _ hbehind.le) hlaunched.nodup ?_
      exact fun k hk hleaving => h.not_leaving hlaunched hbehind hk hleaving
    · rw [update_of_ne hjeq]
      exact h.nodup j (Nat.le_of_succ_le hj)
  outbound j hj := by
    rw [hafter.outbound, hlaunched.others j (Nat.ne_of_gt hj)]
    exact h.outbound j (Nat.le_of_succ_le hj)

/-- A round of the loop over the operators. -/
theorem Climbing.visit (h : Climbing tree.operators visited state)
    (hvisited : visited < tree.operators.length) :
    Climbing tree.operators (visited + 1) (visitOperator tree.operators state visited) := by
  have hop := getElem?_eq_getElem hvisited
  generalize tree.operators[visited] = op at hop
  unfold visitOperator
  rw [hop]
  dsimp only
  cases hparent : op.parentOperatorId with
  | none => exact h.root hop hparent
  | some parentIndex =>
    obtain ⟨hbehind, hlength⟩ := tree.parent_behind visited parentIndex op hop hparent
    have hparentOp := getElem?_eq_getElem hlength
    generalize tree.operators[parentIndex] = parentOp at hparentOp
    dsimp only
    rw [hparentOp]
    dsimp only
    -- the ids are the positions
    obtain rfl := tree.numbered visited op hop
    obtain rfl := tree.numbered parentIndex parentOp hparentOp
    have hlaunched := launched_launchPipeline op h
    exact h.parent hop hparent hparentOp hbehind hlaunched (emitted_foldl hlaunched)

theorem climbing_run (tree : FlatTree) : ∀ visited ≤ tree.operators.length,
    Climbing tree.operators visited
      ((List.range visited).foldl (visitOperator tree.operators) {}) := by
  intro visited
  induction visited with
  | zero => exact fun _ => climbing_start tree.operators
  | succ visited ih =>
    intro hle
    rw [range_succ, foldl_append, foldl_cons, foldl_nil]
    exact (ih (Nat.le_of_succ_le hle)).visit hle

theorem Climbing.pipelinePath (h : Climbing tree.operators tree.operators.length state)
    (hmem : pipeline ∈ state.pipelines) : PipelinePath tree.operators pipeline := by
  obtain ⟨k, hk⟩ := mem_iff_getElem?.mp hmem
  have hpath := h.paths k pipeline hk
  refine ⟨hpath.source, hpath.upwards, hpath.contiguous, hpath.unbroken, ?_⟩
  obtain ⟨first, -, hfirst, -⟩ := hpath.source
  have hne : pipeline.edgeList ≠ [] := by
    intro hnil
    rw [hnil] at hfirst
    cases hfirst
  refine ⟨_, getLast?_eq_some_getLast hne, ?_⟩
  obtain hstops | ⟨hle, -⟩ := h.settled k pipeline _ hk (getLast?_eq_some_getLast hne)
  · exact hstops
  · obtain ⟨⟨op, parentOp, -, -, hparentOp, -⟩, -⟩ :=
      hpath.upwards _ (getLast_mem hne)
    exact absurd (List.getElem?_eq_some_iff.mp hparentOp).1 (Nat.not_lt.mpr hle)

theorem Climbing.map_pipelineId (h : Climbing operators visited state) :
    state.pipelines.map Pipeline.pipelineId = List.range state.pipelines.length := by
  apply ext_getElem (by simp)
  intro k hk _
  rw [getElem_map, getElem_range]
  exact h.ids k _ (getElem?_eq_getElem _)

/-- An operator without attributes, with the member of its parent that it is. -/
def plainOperator (operatorId : ℕ) (operatorType : String) (parent : Option ℕ) (path : String)
    (childrenBegin childCount : ℕ) : OperatorNode where
  operatorId := operatorId
  operatorType := some operatorType.toUTF8.toList
  operatorLabel := none
  parentOperatorId := parent
  parentPath := [.memberInObject 0 path.toUTF8.toList]
  sourceLocation := none
  sourceValue := ⟨[], .null⟩
  childrenBegin := childrenBegin
  childCount := childCount
  operatorAttributes := [(methodKey, ⟨[], .string "hash".toUTF8.toList⟩)]

/-- A hash join under a selection: the left side ends at the join, and the right side goes on. -/
example : ((identifyHyperPipelines
    [plainOperator 0 "tablescan" (some 2) "left" 0 0,
      plainOperator 1 "tablescan" (some 2) "right" 0 0,
      plainOperator 2 "join" (some 3) "input" 0 2,
      plainOperator 3 "select" none "" 2 1]).pipelines.map fun pipeline =>
        pipeline.edgeList.map fun edge =>
          (edge.childOperator, edge.parentOperator, edge.parentBreaksPipeline)) =
    [[(0, 2, true)], [(1, 2, false), (2, 3, false)]] := by
  decide +kernel

end DashQL.PlanView
