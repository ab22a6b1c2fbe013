import DashQL.Scanner.Scan
import DashQL.Utils.TopK

/-!
# The top candidates of a completion

A name is scored by its tags and by one of its best catalog objects.  The objects of a name come
out of their heap in descending order, and the code reads the last of them: so the score is the
intended one exactly if all objects that are kept score alike.
-/

namespace DashQL.Completion

open List Utils

/-! ## Scores -/

inductive CompletionStrategy
  | default | tableRef | tableRefAlias | columnRef

inductive NameTag
  | none | schemaName | databaseName | tableName | tableAlias | columnName | functionName
  deriving DecidableEq

inductive CandidateTag
  | keywordA | keywordB | keywordC | keywordD | expectedParserSymbol | nameIndex
  | dotResolutionSchema | dotResolutionTable | dotResolutionColumn | prefixMatch | substringMatch
  | resolvingTable | unresolvedPeer | throughCatalog | inNameScope | inSameStatement | inSameScript
  | inOtherScript | exactMatch | identity | suffixIncompatible | suffixDepthOne | suffixDepthMany
  deriving DecidableEq

def selectNameScoringTable : CompletionStrategy → List (NameTag × ℕ)
  | .default | .tableRefAlias => [(.none, 0), (.schemaName, 20), (.databaseName, 20),
      (.tableName, 20), (.tableAlias, 20), (.columnName, 20), (.functionName, 20)]
  | .tableRef => [(.none, 0), (.schemaName, 20), (.databaseName, 20), (.tableName, 20),
      (.tableAlias, 10), (.columnName, 10), (.functionName, 10)]
  | .columnRef => [(.none, 0), (.schemaName, 10), (.databaseName, 10), (.tableName, 10),
      (.tableAlias, 20), (.columnName, 20), (.functionName, 10)]

/-- The maximum among the name tags. -/
def baseScore (strategy : CompletionStrategy) (tags : List NameTag) : ℕ :=
  (selectNameScoringTable strategy).foldl
    (fun score entry => max score (if entry.1 ∈ tags then entry.2 else 0)) 0

def scoreModifiers : List (CandidateTag × ℕ) :=
  [(.keywordD, 0), (.keywordC, 2), (.keywordB, 3), (.keywordA, 4), (.substringMatch, 30),
    (.prefixMatch, 5), (.exactMatch, 15), (.throughCatalog, 2), (.resolvingTable, 5),
    (.unresolvedPeer, 1), (.dotResolutionTable, 2), (.dotResolutionSchema, 2),
    (.dotResolutionColumn, 2), (.inNameScope, 10), (.inSameStatement, 1), (.inSameScript, 1),
    (.inOtherScript, 1), (.suffixDepthOne, 0), (.suffixDepthMany, 1)]

def computeCandidateScore (tags : List CandidateTag) : ℕ :=
  let score := (scoreModifiers.map fun entry => if entry.1 ∈ tags then entry.2 else 0).sum +
    if .expectedParserSymbol ∈ tags ∧ .substringMatch ∈ tags then 20 else 0
  score - if .suffixIncompatible ∈ tags then 15 else 0

/-! ## Candidates -/

structure CandidateCatalogObject where
  catalogObjectId : ℕ
  candidateTags : List CandidateTag
  score : ℕ := 0
  deriving DecidableEq

structure Candidate where
  completionText : List UInt8
  coarseNameTags : List NameTag
  candidateTags : List CandidateTag
  catalogObjects : List CandidateCatalogObject
  score : ℕ := 0
  deriving DecidableEq

def CandidateCatalogObject.Less (object other : CandidateCatalogObject) : Prop :=
  object.score < other.score

/-- The text as `fuzzy_ci_string_view` compares it. -/
def Candidate.foldedText (candidate : Candidate) : List ℕ :=
  candidate.completionText.map fun b => (Scanner.tolowerFuzzy b).toNat

/-- A candidate is kicked before one with a higher score, or with a smaller name. -/
def Candidate.Less (candidate other : Candidate) : Prop :=
  candidate.score < other.score ∨
    candidate.score = other.score ∧ other.foldedText < candidate.foldedText

instance : DecidableRel CandidateCatalogObject.Less :=
  fun _ _ => inferInstanceAs (Decidable (_ < _))

instance : DecidableRel Candidate.Less := fun _ _ => inferInstanceAs (Decidable (_ ∨ _))

instance : IsStrictWeakOrder CandidateCatalogObject CandidateCatalogObject.Less :=
  inferInstanceAs (IsStrictWeakOrder _ (Order.Preimage CandidateCatalogObject.score (· < ·)))

/-- Scores upwards, and names downwards. -/
def Candidate.rank (candidate : Candidate) : ℕ ×ₗ (List ℕ)ᵒᵈ :=
  toLex (candidate.score, OrderDual.toDual candidate.foldedText)

instance : IsStrictWeakOrder Candidate Candidate.Less := by
  have hless : Candidate.Less = Order.Preimage Candidate.rank (· < ·) := by
    funext candidate other
    exact propext (Prod.Lex.lt_iff (x := candidate.rank) (y := other.rank)).symm
  rw [hless]
  infer_instance

/-! ## The code -/

/-- What `std::sort` does with the heaps. -/
structure Sorts where
  objects : StdSort CandidateCatalogObject.Less
  topObjects : StdSort fun object other => CandidateCatalogObject.Less other object
  candidates : StdSort Candidate.Less
  topCandidates : StdSort fun candidate other => Candidate.Less other candidate

def CandidateCatalogObject.scored (object : CandidateCatalogObject) : CandidateCatalogObject :=
  { object with score := computeCandidateScore object.candidateTags }

variable (sorts : Sorts) (strategy : CompletionStrategy)

def selectObjects (objects : List CandidateCatalogObject) : List CandidateCatalogObject :=
  TopKHeap.finish _ sorts.topObjects (TopKHeap.insertAll _ sorts.objects 24
    (objects.map CandidateCatalogObject.scored))

/-- The candidate that is inserted; `back` is the last of its objects. -/
def scoreCandidate (candidate : Candidate) : Candidate :=
  let candidateObjects := selectObjects sorts candidate.catalogObjects
  let objectScore := match candidateObjects.getLast? with
    | some object => object.score
    | none => computeCandidateScore candidate.candidateTags
  { candidate with
    catalogObjects := candidateObjects
    score := baseScore strategy candidate.coarseNameTags + objectScore }

/-- `SelectTopCandidates`, with the keywords that are in the heap. -/
def selectTopCandidates (k : ℕ) (keywords candidates : List Candidate) : List Candidate :=
  TopKHeap.finish _ sorts.topCandidates (TopKHeap.insertAll _ sorts.candidates k
    (keywords ++ candidates.map (scoreCandidate sorts strategy)))

/-! ## The intended scores -/

/-- The score of the best catalog object, or of the own tags. -/
def bestObjectScore (candidate : Candidate) : ℕ :=
  ((candidate.catalogObjects.map fun object =>
    computeCandidateScore object.candidateTags).max?).getD
      (computeCandidateScore candidate.candidateTags)

/-- As many objects as are kept have the highest score. -/
def BestAlike (candidate : Candidate) : Prop :=
  min 24 candidate.catalogObjects.length ≤ (candidate.catalogObjects.filter fun object =>
    computeCandidateScore object.candidateTags = bestObjectScore candidate).length

instance (candidate : Candidate) : Decidable (BestAlike candidate) := Nat.decLe _ _

/-- The candidates that are selected are the best ones by the intended scores, and have their best
objects. -/
structure SelectsBest (k : ℕ) (keywords candidates : List Candidate) : Prop where
  score_eq : ∀ candidate ∈ candidates, (scoreCandidate sorts strategy candidate).score =
    baseScore strategy candidate.coarseNameTags + bestObjectScore candidate
  objects : ∀ candidate ∈ candidates, TopKHeap.TopOf CandidateCatalogObject.Less 24
    (candidate.catalogObjects.map CandidateCatalogObject.scored)
    (scoreCandidate sorts strategy candidate).catalogObjects
  length_eq : (selectTopCandidates sorts strategy k keywords candidates).length =
    min k (keywords.length + candidates.length)
  descending : (selectTopCandidates sorts strategy k keywords candidates).Pairwise
    fun candidate other => other.score ≤ candidate.score
  exists_dropped : ∃ dropped, (selectTopCandidates sorts strategy k keywords candidates ++
      dropped).Perm (keywords ++ candidates.map (scoreCandidate sorts strategy)) ∧
    ∀ d ∈ dropped, ∀ candidate ∈ selectTopCandidates sorts strategy k keywords candidates,
      d.score ≤ candidate.score

variable {sorts strategy}

theorem topOf_selectObjects (objects : List CandidateCatalogObject) :
    TopKHeap.TopOf CandidateCatalogObject.Less 24 (objects.map CandidateCatalogObject.scored)
      (selectObjects sorts objects) :=
  TopKHeap.topOf_finish _ _ (by decide) _

theorem score_scoreCandidate_iff (candidate : Candidate) :
    (scoreCandidate sorts strategy candidate).score =
        baseScore strategy candidate.coarseNameTags + bestObjectScore candidate ↔
      BestAlike candidate := by
  obtain ⟨hlength, hdescending, dropped, hperm, hdropped⟩ :=
    @topOf_selectObjects sorts candidate.catalogObjects
  rw [length_map] at hlength
  unfold scoreCandidate BestAlike
  dsimp only
  rw [Nat.add_left_cancel_iff]
  cases hmax : (candidate.catalogObjects.map fun object =>
      computeCandidateScore object.candidateTags).max? with
  | none =>
    have hobjects : candidate.catalogObjects = [] := map_eq_nil_iff.mp (max?_eq_none_iff.mp hmax)
    have hkept : selectObjects sorts [] = [] := by
      rw [hobjects] at hlength
      exact length_eq_zero_iff.mp hlength
    simp [bestObjectScore, hobjects, hkept]
  | some best =>
    have hbest : bestObjectScore candidate = best := by rw [bestObjectScore, hmax, Option.getD_some]
    rw [hbest, ← hlength, ← countP_eq_length_filter]
    generalize selectObjects sorts candidate.catalogObjects = kept at *
    have hcount : candidate.catalogObjects.countP
        (fun object => computeCandidateScore object.candidateTags = best) =
          kept.countP (fun object => object.score = best) +
            dropped.countP fun object => object.score = best := by
      rw [← countP_append, hperm.countP_eq, countP_map]
      rfl
    obtain ⟨hmem, hle⟩ := max?_eq_some_iff.mp hmax
    have hkept (a) (ha : a ∈ kept) : a.score ≤ best := by
      obtain ⟨object, hobject, rfl⟩ := mem_map.mp (hperm.mem_iff.mp (mem_append_left _ ha))
      exact hle _ (mem_map_of_mem hobject)
    have hne : kept ≠ [] := by
      obtain ⟨object, hobject, -⟩ := mem_map.mp hmem
      have := length_pos_of_mem hobject
      exact ne_nil_of_length_pos (by omega)
    rw [getLast?_eq_some_getLast hne, hcount]
    have hlast (a) (ha : a ∈ kept) : (kept.getLast hne).score ≤ a.score := by
      rw [← dropLast_append_getLast hne] at ha hdescending
      rcases mem_append.mp ha with ha | ha
      · exact not_lt.mp ((pairwise_append.mp hdescending).2.2 a ha _ mem_cons_self)
      · rw [mem_singleton.mp ha]
    constructor
    · intro hscore
      have hall : kept.countP (fun object => object.score = best) = kept.length :=
        countP_eq_length.mpr fun a ha =>
          decide_eq_true (le_antisymm (hkept a ha) (hscore ▸ hlast a ha))
      omega
    · intro hbestAlike
      by_contra hscore
      have hlower := lt_of_le_of_ne (hkept _ (getLast_mem hne)) hscore
      -- no object with the best score is dropped
      have hnone : dropped.countP (fun object => object.score = best) = 0 := by
        refine countP_eq_zero.mpr fun d hd hdbest => ?_
        have := not_lt.mp (hdropped d hd _ (getLast_mem hne))
        exact absurd (of_decide_eq_true hdbest) (this.trans_lt hlower).ne
      have hfull : kept.length ≤ kept.countP fun object => object.score = best := by omega
      have hall := countP_eq_length.mp (le_antisymm countP_le_length hfull)
      exact hscore (of_decide_eq_true (hall _ (getLast_mem hne)))

/-- The selection is the intended one exactly if the objects that are kept for a name score
alike. -/
theorem selectTopCandidates_best_iff (sorts : Sorts) (strategy : CompletionStrategy) (k : ℕ)
    (hk : 1 ≤ k) (keywords candidates : List Candidate) :
    SelectsBest sorts strategy k keywords candidates ↔
      ∀ candidate ∈ candidates, BestAlike candidate := by
  refine ⟨fun h candidate hmem => (score_scoreCandidate_iff candidate).mp (h.score_eq _ hmem),
    fun h => ?_⟩
  have htop : TopKHeap.TopOf Candidate.Less k
      (keywords ++ candidates.map (scoreCandidate sorts strategy))
      (selectTopCandidates sorts strategy k keywords candidates) :=
    TopKHeap.topOf_finish _ _ hk _
  have hscore {candidate other : Candidate} (hless : ¬ candidate.Less other) :
      other.score ≤ candidate.score := not_lt.mp fun hlt => hless (.inl hlt)
  obtain ⟨dropped, hperm, hdropped⟩ := htop.exists_dropped
  exact
    { score_eq := fun candidate hmem => (score_scoreCandidate_iff candidate).mpr (h candidate hmem)
      objects := fun candidate _ => topOf_selectObjects candidate.catalogObjects
      length_eq := by rw [htop.length_eq, length_append, length_map]
      descending := htop.descending.imp hscore
      exists_dropped := ⟨dropped, hperm, fun d hd candidate hmem =>
        hscore (hdropped d hd candidate hmem)⟩ }

def stableSorts : Sorts := ⟨.stable _, .stable _, .stable _, .stable _⟩

/-- Two objects for one name, one of them in scope, and a table name. -/
def twoNames : List Candidate :=
  [{ completionText := [97], coarseNameTags := [.columnName], candidateTags := []
     catalogObjects := [⟨1, [], 0⟩, ⟨2, [.inNameScope], 0⟩] },
   { completionText := [98], coarseNameTags := [.columnName], candidateTags := []
     catalogObjects := [⟨3, [.resolvingTable], 0⟩] }]

/-- The name that is in scope loses against the other one. -/
theorem not_selectsBest_twoNames :
    (selectTopCandidates stableSorts .columnRef 1 [] twoNames).map Candidate.completionText =
      [[98]] ∧ ¬ SelectsBest stableSorts .columnRef 1 [] twoNames := by
  refine ⟨by decide, fun h => ?_⟩
  exact absurd (h.score_eq _ mem_cons_self) (by decide)

theorem selectTopCandidates_best_iff_oneObject :
    SelectsBest stableSorts .columnRef 1 [] (twoNames.drop 1) ↔
      ∀ candidate ∈ twoNames.drop 1, BestAlike candidate :=
  selectTopCandidates_best_iff stableSorts .columnRef 1 (by decide) [] (twoNames.drop 1)

end DashQL.Completion
