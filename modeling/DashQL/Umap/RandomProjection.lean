import DashQL.Umap.FlatTree
import Mathlib.Data.List.Perm.Basic

/-!
# Random projection splits

A split draws two of its points and puts every point on a side of a hyperplane between them.  When
all points are on one side, the sides are drawn, and a side that is still empty gets a point of the
other one.
-/

namespace DashQL.Umap

open List

variable {F S : Type*}

structure Dataset (F : Type*) where
  ncols : ℕ
  rows : List (List F)
  length_of_mem : ∀ row ∈ rows, row.length = ncols

namespace Dataset

def nrows (data : Dataset F) : ℕ := data.rows.length

def row (data : Dataset F) (point : ℤ) : List F := data.rows.getD point.toNat []

def indices (data : Dataset F) : List ℤ := (List.range data.nrows).map Int.ofNat

end Dataset

/-! ## Hyperplanes -/

/-- How a hyperplane and an offset are computed from two points, and the margin of a point. -/
structure Projection (F : Type*) where
  hyperplane : List F → List F → List F × F
  margin : List F × F → List F → F

section Projections

variable (arithmetic : FloatArithmetic F)

def rowNorm (row : List F) : F :=
  arithmetic.max (arithmetic.sqrt (dotProduct arithmetic row row)) arithmetic.eps

/-- The normalized difference of the normalized points. -/
def angularHyperplane (leftRow rightRow : List F) : List F × F :=
  let invLeft := arithmetic.div arithmetic.one (rowNorm arithmetic leftRow)
  let invRight := arithmetic.div arithmetic.one (rowNorm arithmetic rightRow)
  let hyperplane := List.zipWith (fun l r =>
    arithmetic.sub (arithmetic.mul l invLeft) (arithmetic.mul r invRight)) leftRow rightRow
  let invHpNorm := arithmetic.div arithmetic.one (rowNorm arithmetic hyperplane)
  (hyperplane.map fun h => arithmetic.mul h invHpNorm, arithmetic.zero)

/-- The difference of the points, with an offset for their midpoint. -/
def euclideanHyperplane (leftRow rightRow : List F) : List F × F :=
  (List.zipWith arithmetic.sub leftRow rightRow,
    (leftRow.zip rightRow).foldl (fun offset pair =>
      arithmetic.sub offset (arithmetic.mul (arithmetic.mul (arithmetic.sub pair.1 pair.2)
        (arithmetic.add pair.1 pair.2)) arithmetic.half)) arithmetic.zero)

def angular : Projection F where
  hyperplane := angularHyperplane arithmetic
  margin plane row := dotProduct arithmetic plane.1 row

def euclidean : Projection F where
  hyperplane := euclideanHyperplane arithmetic
  margin plane row := arithmetic.add (dotProduct arithmetic plane.1 row) plane.2

end Projections

/-! ## Sides -/

structure Split (F : Type*) where
  left : List ℤ
  right : List ℤ
  hyperplane : List F
  offset : F

/-- Push each point to its side: 0 for left, the others for right. -/
def splitBy (side : ℤ → S → ℕ × S) : List ℤ → S → (List ℤ × List ℤ) × S
  | [], rng => (([], []), rng)
  | idx :: indices, rng =>
    let drawn := side idx rng
    let rest := splitBy side indices drawn.2
    if drawn.1 = 0 then ((idx :: rest.1.1, rest.1.2), rest.2)
    else ((rest.1.1, idx :: rest.1.2), rest.2)

def randomSide (draw : S → ℕ × S) (rng : S) : ℕ × S := ((draw rng).1 % 2, (draw rng).2)

/-- The side by the margin, or by chance when it is too small. -/
def marginSide (arithmetic : FloatArithmetic F) (draw : S → ℕ × S) (margin : F) (rng : S) : ℕ × S :=
  if arithmetic.lt (arithmetic.abs margin) arithmetic.eps then randomSide draw rng
  else if arithmetic.lt arithmetic.zero margin then (0, rng)
  else (1, rng)

/-- An empty side gets the last point of the other one. -/
def refill (side other : List ℤ) : List ℤ × List ℤ :=
  if side.isEmpty then (side ++ other.getLast?.toList, other.dropLast) else (side, other)

def fillSides (sides : List ℤ × List ℤ) : List ℤ × List ℤ :=
  let left := refill sides.1 sides.2
  let right := refill left.2 left.1
  (right.2, right.1)

/-- The positions of two points, which differ when there is more than one. -/
def drawPair (draw : S → ℕ × S) (n : ℕ) (rng : S) : (ℕ × ℕ) × S :=
  let leftDraw := draw rng
  let rightDraw := draw leftDraw.2
  let leftIdx := leftDraw.1 % n
  let rightIdx := rightDraw.1 % n
  ((leftIdx, if leftIdx = rightIdx then (rightIdx + 1) % n else rightIdx), rightDraw.2)

/-- What the two random projection splits have in common. -/
def randomProjectionSplit (arithmetic : FloatArithmetic F) (draw : S → ℕ × S)
    (projection : Projection F) (data : Dataset F) (indices : List ℤ) (rng : S) : Split F × S :=
  let drawn := drawPair draw indices.length rng
  let plane := projection.hyperplane (data.row (indices.getD drawn.1.1 0))
    (data.row (indices.getD drawn.1.2 0))
  let sides := splitBy (fun idx => marginSide arithmetic draw
    (projection.margin plane (data.row idx))) indices drawn.2
  let decided :=
    if sides.1.1.isEmpty ∨ sides.1.2.isEmpty then
      let redrawn := splitBy (fun _ => randomSide draw) indices sides.2
      (fillSides redrawn.1, redrawn.2)
    else sides
  ({ left := decided.1.1, right := decided.1.2, hyperplane := plane.1, offset := plane.2 },
    decided.2)

def angularRandomProjectionSplit (arithmetic : FloatArithmetic F) (draw : S → ℕ × S)
    (data : Dataset F) (indices : List ℤ) (rng : S) : Split F × S :=
  randomProjectionSplit arithmetic draw (angular arithmetic) data indices rng

def euclideanRandomProjectionSplit (arithmetic : FloatArithmetic F) (draw : S → ℕ × S)
    (data : Dataset F) (indices : List ℤ) (rng : S) : Split F × S :=
  randomProjectionSplit arithmetic draw (euclidean arithmetic) data indices rng

/-! ## No point is lost, repeated or isolated -/

/-- Two sides that are not empty have the points between them. -/
structure Divides (indices left right : List ℤ) : Prop where
  perm : (left ++ right).Perm indices
  left_ne_nil : left ≠ []
  right_ne_nil : right ≠ []

theorem Divides.symm {indices left right : List ℤ} (h : Divides indices left right) :
    Divides indices right left :=
  ⟨perm_append_comm.trans h.perm, h.right_ne_nil, h.left_ne_nil⟩

theorem splitBy_perm (side : ℤ → S → ℕ × S) (indices : List ℤ) (rng : S) :
    ((splitBy side indices rng).1.1 ++ (splitBy side indices rng).1.2).Perm indices := by
  induction indices generalizing rng with
  | nil => rfl
  | cons idx indices ih =>
    have hrest := ih (side idx rng).2
    by_cases hside : (side idx rng).1 = 0
    · simp only [splitBy, if_pos hside]
      exact hrest.cons idx
    · simp only [splitBy, if_neg hside]
      exact perm_middle.trans (hrest.cons idx)

theorem refill_divides {side other : List ℤ} (hother : other ≠ [])
    (hlength : 2 ≤ side.length + other.length) :
    Divides (side ++ other) (refill side other).1 (refill side other).2 := by
  cases side with
  | cons first side => exact ⟨.rfl, cons_ne_nil first side, hother⟩
  | nil =>
    obtain ⟨front, last, rfl⟩ := (eq_nil_or_concat' other).resolve_left hother
    have hfront : front ≠ [] := by
      rintro rfl
      simp at hlength
    have hrefill : refill [] (front ++ [last]) = ([last], front) := by
      simp [refill]
    rw [hrefill]
    exact ⟨perm_append_comm, cons_ne_nil last [], hfront⟩

/-- Of two or more points, both sides have at least one. -/
theorem fillSides_divides {indices : List ℤ} {sides : List ℤ × List ℤ}
    (hperm : (sides.1 ++ sides.2).Perm indices) (hlength : 2 ≤ indices.length) :
    Divides indices (fillSides sides).1 (fillSides sides).2 := by
  obtain ⟨left, right⟩ := sides
  have hsum := hperm.length_eq
  rw [length_append] at hsum
  have hleft : (refill left right).1 ≠ [] ∧
      ((refill left right).1 ++ (refill left right).2).Perm indices := by
    cases left with
    | cons first left => exact ⟨cons_ne_nil first left, hperm⟩
    | nil =>
      have hright : right ≠ [] := by
        rintro rfl
        exact absurd (hsum.trans_ge hlength) (by decide)
      have hfilled := refill_divides hright (hsum ▸ hlength)
      exact ⟨hfilled.left_ne_nil, hfilled.perm.trans hperm⟩
  have hlengths := hleft.2.length_eq
  rw [length_append] at hlengths
  have hfilled := refill_divides hleft.1 (by omega : 2 ≤ (refill left right).2.length +
    (refill left right).1.length)
  have hall := hfilled.symm
  exact ⟨hall.perm.trans (perm_append_comm.trans hleft.2), hall.left_ne_nil, hall.right_ne_nil⟩

theorem randomProjectionSplit_divides (arithmetic : FloatArithmetic F) (draw : S → ℕ × S)
    (projection : Projection F) (data : Dataset F) {indices : List ℤ} (rng : S)
    (hlength : 2 ≤ indices.length) :
    let split := (randomProjectionSplit arithmetic draw projection data indices rng).1
    Divides indices split.left split.right := by
  intro split
  unfold split randomProjectionSplit
  dsimp only
  split_ifs with hempty
  · exact fillSides_divides (splitBy_perm _ _ _) hlength
  · obtain ⟨hleft, hright⟩ := not_or.mp hempty
    refine ⟨splitBy_perm _ _ _, ?_, ?_⟩
    · exact fun h => hleft (List.isEmpty_iff.mpr h)
    · exact fun h => hright (List.isEmpty_iff.mpr h)

end DashQL.Umap
