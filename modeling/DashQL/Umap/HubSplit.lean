import DashQL.Umap.RandomProjection

/-!
# Hub splits

A hub split tries the hyperplanes between the points with the highest degrees in the neighbor graph
and keeps the most balanced one.  When none has points on both sides, the sides are drawn.
-/

namespace DashQL.Umap

open List

variable {F S : Type*}

/-! ## Hubs -/

/-- How often each point is a neighbor. -/
def computeGlobalDegrees (neighborIndices : List (List ℤ)) : List ℕ :=
  neighborIndices.flatten.foldl (fun degrees neighbor =>
      if 0 ≤ neighbor ∧ neighbor.toNat < neighborIndices.length then
        degrees.modify neighbor.toNat (· + 1)
      else degrees)
    (List.replicate neighborIndices.length 0)

/-- The first position with a lower degree, or else the given one. -/
def hubPosition (degree : ℕ) (top : List (ℕ × ℤ)) (otherwise : ℕ) : ℕ :=
  (top.findIdx? fun entry => entry.1 < degree).getD otherwise

def getTopKHubIndices (indices : List ℤ) (globalDegrees : List ℕ) (k : ℕ) : List ℤ :=
  let actualK := min k indices.length
  let top := indices.foldl (fun top idx =>
    let degree := globalDegrees.getD idx.toNat 0
    if top.length < actualK then
      top.insertIdx (hubPosition degree top top.length) (degree, idx)
    else if ((top[actualK - 1]?).map Prod.fst).any (· < degree) then
      top.dropLast.insertIdx (hubPosition degree top (actualK - 1)) (degree, idx)
    else top) []
  top.map Prod.snd

/-- All pairs, the earlier one first. -/
def hubPairs : List ℤ → List (ℤ × ℤ)
  | [] => []
  | hub :: hubs => hubs.map (fun other => (hub, other)) ++ hubPairs hubs

/-! ## The most balanced split -/

structure BestSplit (F : Type*) where
  balance : F
  hyperplane : List F
  offset : F
  /-- For each point 0 for left, the others for right. -/
  side : List ℕ
  nLeft : ℕ
  nRight : ℕ

section Splits

variable (arithmetic : FloatArithmetic F) (draw : S → ℕ × S) (projection : Projection F)
  (data : Dataset F) (indices : List ℤ)

def hubSide (margin : F) (position : ℕ) : ℕ :=
  if arithmetic.lt arithmetic.eps margin then 0
  else if arithmetic.lt margin (arithmetic.neg arithmetic.eps) then 1
  else position % 2

def tryHubs (best : BestSplit F) (hubs : ℤ × ℤ) : BestSplit F :=
  let plane := projection.hyperplane (data.row hubs.1) (data.row hubs.2)
  let side := indices.zipIdx.map fun item =>
    hubSide arithmetic (projection.margin plane (data.row item.1)) item.2
  let nLeft := side.countP (· = 0)
  let nRight := side.countP (· ≠ 0)
  if nLeft = 0 ∨ nRight = 0 then best
  else
    let balance := arithmetic.div (arithmetic.ofNat (min nLeft nRight))
      (arithmetic.ofNat indices.length)
    if arithmetic.lt best.balance balance then
      { balance, hyperplane := plane.1, offset := plane.2, side, nLeft, nRight }
    else best

def drawSides : ℕ → S → List ℕ × S
  | 0, rng => ([], rng)
  | count + 1, rng =>
    let drawn := randomSide draw rng
    let rest := drawSides count drawn.2
    (drawn.1 :: rest.1, rest.2)

/-- The points whose side has a property. -/
def pointsOn (onSide : ℕ → Bool) (side : List ℕ) : List ℤ :=
  ((indices.zip side).filter fun item => onSide item.2).map Prod.fst

def bestHubSplit (globalDegrees : List ℕ) : BestSplit F :=
  (hubPairs (getTopKHubIndices indices globalDegrees 3)).foldl
    (tryHubs arithmetic projection data indices)
    { balance := arithmetic.zero
      hyperplane := List.replicate data.ncols arithmetic.zero
      offset := arithmetic.zero
      side := List.replicate indices.length 0
      nLeft := 0
      nRight := 0 }

/-- What the two hub splits have in common: a split and its balance. -/
def hubSplit (globalDegrees : List ℕ) (rng : S) : (Split F × F) × S :=
  let best := bestHubSplit arithmetic projection data indices globalDegrees
  let side :=
    if best.nLeft = 0 ∨ best.nRight = 0 then drawSides draw indices.length rng
    else (best.side, rng)
  (({ left := pointsOn indices (· = 0) side.1
      right := pointsOn indices (· ≠ 0) side.1
      hyperplane := best.hyperplane
      offset := best.offset },
    best.balance), side.2)

def euclideanHubSplit (globalDegrees : List ℕ) (rng : S) : (Split F × F) × S :=
  hubSplit arithmetic draw (euclidean arithmetic) data indices globalDegrees rng

def angularHubSplit (globalDegrees : List ℕ) (rng : S) : (Split F × F) × S :=
  hubSplit arithmetic draw (angular arithmetic) data indices globalDegrees rng

end Splits

/-! ## A balanced split divides its points -/

variable {arithmetic : FloatArithmetic F} {draw : S → ℕ × S} {projection : Projection F}
  {data : Dataset F} {indices : List ℤ}

/-- Nothing was kept yet, or a split with points on both sides. -/
def BestSplit.Valid (arithmetic : FloatArithmetic F) (count : ℕ) (best : BestSplit F) : Prop :=
  best.nLeft = 0 ∧ best.balance = arithmetic.zero ∨
    best.side.length = count ∧ 0 < best.side.countP (· = 0) ∧ 0 < best.side.countP (· ≠ 0) ∧
      0 < best.nLeft ∧ 0 < best.nRight

theorem tryHubs_valid {best : BestSplit F} (h : best.Valid arithmetic indices.length)
    (hubs : ℤ × ℤ) :
    (tryHubs arithmetic projection data indices best hubs).Valid arithmetic indices.length := by
  unfold tryHubs
  dsimp only
  split_ifs with hempty hbetter
  · exact h
  · obtain ⟨hleft, hright⟩ := not_or.mp hempty
    refine .inr ⟨?_, Nat.pos_of_ne_zero hleft, Nat.pos_of_ne_zero hright,
      Nat.pos_of_ne_zero hleft, Nat.pos_of_ne_zero hright⟩
    rw [length_map, length_zipIdx]
  · exact h

theorem bestHubSplit_valid (globalDegrees : List ℕ) :
    (bestHubSplit arithmetic projection data indices globalDegrees).Valid arithmetic
      indices.length := by
  unfold bestHubSplit
  generalize hubPairs _ = pairs
  have hrun : ∀ best : BestSplit F, best.Valid arithmetic indices.length →
      (pairs.foldl (tryHubs arithmetic projection data indices) best).Valid arithmetic
        indices.length := by
    induction pairs with
    | nil => exact fun best hbest => hbest
    | cons pair pairs ih => exact fun best hbest => ih _ (tryHubs_valid hbest pair)
  exact hrun _ (.inl ⟨rfl, rfl⟩)

theorem pointsOn_perm {side : List ℕ} (hlength : side.length = indices.length) :
    (pointsOn indices (· = 0) side ++ pointsOn indices (· ≠ 0) side).Perm indices := by
  unfold pointsOn
  rw [← map_append]
  have hzip : (indices.zip side).map Prod.fst = indices := map_fst_zip hlength.ge
  conv_rhs => rw [← hzip]
  refine List.Perm.map _ ?_
  have hnot : (fun item : ℤ × ℕ => decide (item.2 ≠ 0)) = fun item => !decide (item.2 = 0) := by
    funext item
    exact decide_not
  rw [hnot]
  exact filter_append_perm _ _

theorem length_pointsOn {side : List ℕ} (hlength : side.length = indices.length)
    (onSide : ℕ → Bool) : (pointsOn indices onSide side).length = side.countP onSide := by
  unfold pointsOn
  have hzip : (indices.zip side).map Prod.snd = side := map_snd_zip hlength.le
  conv_rhs => rw [← hzip]
  rw [length_map, ← countP_eq_length_filter, countP_map]
  rfl

theorem hubSplit_divides {globalDegrees : List ℕ} {rng : S} {split : Split F} {balance : F}
    {rng' : S} (h : hubSplit arithmetic draw projection data indices globalDegrees rng =
      ((split, balance), rng'))
    (hbalance : arithmetic.lt balance arithmetic.minSplitBalance = false) :
    Divides indices split.left split.right := by
  have hvalid := @bestHubSplit_valid F arithmetic projection data indices globalDegrees
  unfold hubSplit at h
  simp only [Prod.mk.injEq] at h
  obtain ⟨⟨rfl, rfl⟩, -⟩ := h
  rcases hvalid with ⟨-, hzero⟩ | ⟨hlength, hleft, hright, hnLeft, hnRight⟩
  · rw [hzero, arithmetic.zero_lt_minSplitBalance] at hbalance
    exact absurd hbalance (by decide)
  · rw [if_neg (not_or.mpr ⟨hnLeft.ne', hnRight.ne'⟩)]
    refine ⟨pointsOn_perm hlength, ne_nil_of_length_pos ?_, ne_nil_of_length_pos ?_⟩
    · rw [length_pointsOn hlength]
      exact hleft
    · rw [length_pointsOn hlength]
      exact hright

end DashQL.Umap
