import Mathlib

/-!
# The longest common subsequence

`FindLCS` sorts the unique pairs into piles by their target statement, the way
patience sorting does, and walks back from the last pile.  Every entry remembers
how large the pile in front of it was when it was pushed, that is, the entry it
continues.

The result increases on both sides and no increasing part of the unique pairs is
longer: an increasing sequence takes at most one entry of a pile.
-/

namespace DashQL.ScriptDiff

open List Option

/-- `Entry` of `FindLCS`. -/
structure PileEntry where
  sourceId : ℕ
  targetId : ℕ
  prevPileSize : ℕ

/-- A pile, in the order its entries were pushed. -/
abbrev Pile := List PileEntry

def PileEntry.pair (entry : PileEntry) : ℕ × ℕ := (entry.sourceId, entry.targetId)

/-- Whether an entry with this target goes onto a pile. -/
def Pile.accepts (targetId : ℕ) (pile : Pile) : Bool :=
  match pile.getLast? with
  | none => false
  | some back => targetId ≤ back.targetId

/-- One round of building the piles. -/
def pushPair (piles : List Pile) (pair : ℕ × ℕ) : List Pile :=
  match piles.findIdx? (Pile.accepts pair.2) with
  | some p =>
    let prevPileSize := (piles.getD (max p 1 - 1) []).length
    piles.modify p (· ++ [⟨pair.1, pair.2, prevPileSize⟩])
  | none =>
    let piles' := piles ++ [[]]
    let prevPileSize := (piles'.getD (max piles'.length 2 - 2) []).length
    piles ++ [[⟨pair.1, pair.2, prevPileSize⟩]]

def buildPiles (uniquePairs : List (ℕ × ℕ)) : List Pile :=
  uniquePairs.foldl pushPair []

def entryAt (piles : List Pile) (pileId entryId : ℕ) : PileEntry :=
  (piles.getD pileId []).getD entryId ⟨0, 0, 0⟩

/-- The walk back through the piles, from the given entry to the first pile. -/
def walkBack (piles : List Pile) : ℕ → ℕ → List (ℕ × ℕ)
  | 0, entryId => [(entryAt piles 0 entryId).pair]
  | pileId + 1, entryId =>
    let entry := entryAt piles (pileId + 1) entryId
    entry.pair :: walkBack piles pileId (entry.prevPileSize - 1)

def findLCS (uniquePairs : List (ℕ × ℕ)) : List (ℕ × ℕ) :=
  let piles := buildPiles uniquePairs
  if piles.isEmpty then []
  else
    (walkBack piles (piles.length - 1) ((piles.getD (piles.length - 1) []).length - 1)).reverse

/-- The walk back with its two assertions: an entry outside of its pile, or one that has nothing
in front of it, leaves the list. -/
def checkedWalkBack (piles : List Pile) : ℕ → ℕ → Option (List (ℕ × ℕ))
  | 0, entryId => ((piles[0]?).bind fun pile => pile[entryId]?).map fun entry => [entry.pair]
  | pileId + 1, entryId =>
    ((piles[pileId + 1]?).bind fun pile => pile[entryId]?).bind fun entry =>
      if 0 < entry.prevPileSize then
        (checkedWalkBack piles pileId (entry.prevPileSize - 1)).map fun pairs =>
          entry.pair :: pairs
      else none

/-- `ScriptDiff::FindLCS` with its assertions. -/
def checkedFindLCS (uniquePairs : List (ℕ × ℕ)) : Option (List (ℕ × ℕ)) :=
  let piles := buildPiles uniquePairs
  match piles.getLast? with
  | none => some []
  | some last => (checkedWalkBack piles (piles.length - 1) (last.length - 1)).map List.reverse

/-- One pair stands in front of another on both sides. -/
def Before (l r : ℕ × ℕ) : Prop := l.1 < r.1 ∧ l.2 < r.2

/-! ## The piles -/

/-- An entry continues the entry of the pile in front of its own that was on
top when it was pushed. -/
def Linked (prev : Pile) (entry : PileEntry) : Prop :=
  0 < entry.prevPileSize ∧
    ∃ before, prev[entry.prevPileSize - 1]? = some before ∧ Before before.pair entry.pair

/-- In one pile the targets fall while the sources rise. -/
def Pile.Falling (pile : Pile) : Prop :=
  pile.Pairwise fun l r => r.targetId ≤ l.targetId ∧ l.sourceId < r.sourceId

/-- What holds of the piles of the pairs pushed so far. -/
structure Piled (pushed : List (ℕ × ℕ)) (piles : List Pile) : Prop where
  nonempty : ∀ pile ∈ piles, pile ≠ []
  mem : ∀ pile ∈ piles, ∀ entry ∈ pile, entry.pair ∈ pushed
  placed : ∀ pair ∈ pushed, ∃ pile ∈ piles, ∃ entry ∈ pile, entry.pair = pair
  falling : ∀ pile ∈ piles, pile.Falling
  linked : ∀ p prev pile, piles[p]? = some prev → piles[p + 1]? = some pile →
    ∀ entry ∈ pile, Linked prev entry

theorem Linked.append {prev : Pile} {entry : PileEntry} (h : Linked prev entry) (more : Pile) :
    Linked (prev ++ more) entry := by
  obtain ⟨hpos, before, hget, hbefore⟩ := h
  refine ⟨hpos, before, ?_, hbefore⟩
  rw [getElem?_append_left (List.getElem?_eq_some_iff.mp hget).1]
  exact hget

theorem linked_of_not_accepts {prev : Pile} {pair : ℕ × ℕ} (hne : prev ≠ [])
    (hreject : Pile.accepts pair.2 prev = false) (hsource : ∀ entry ∈ prev, entry.sourceId < pair.1) :
    Linked prev ⟨pair.1, pair.2, prev.length⟩ := by
  refine ⟨length_pos_iff.mpr hne, prev.getLast hne, ?_, ?_⟩
  · rw [← getLast?_eq_getElem?, getLast?_eq_some_getLast hne]
  · rw [Pile.accepts, getLast?_eq_some_getLast hne] at hreject
    have hlt : (prev.getLast hne).targetId < pair.2 := by simpa using hreject
    exact ⟨hsource _ (getLast_mem hne), hlt⟩

theorem Pile.Falling.concat {pile : Pile} {entry : PileEntry} (h : pile.Falling)
    (haccept : Pile.accepts entry.targetId pile = true)
    (hsource : ∀ e ∈ pile, e.sourceId < entry.sourceId) : (pile ++ [entry]).Falling := by
  refine pairwise_append.mpr ⟨h, pairwise_singleton _ _, ?_⟩
  intro e he entry' hentry'
  obtain rfl := mem_singleton.mp hentry'
  refine ⟨?_, hsource e he⟩
  have hne : pile ≠ [] := ne_nil_of_mem he
  rw [Pile.accepts, getLast?_eq_some_getLast hne] at haccept
  have hlast : entry'.targetId ≤ (pile.getLast hne).targetId := by simpa using haccept
  have hfall : (pile.getLast hne).targetId ≤ e.targetId := by
    rw [← dropLast_concat_getLast hne] at he h
    rcases mem_append.mp he with hinit | hend
    · exact ((pairwise_append.mp h).2.2 e hinit _ (by simp)).1
    · rw [mem_singleton.mp hend]
  omega

theorem getElem?_modify_cases {α : Type*} {l : List α} {p j : ℕ} {f : α → α} {a : α}
    (h : (l.modify p f)[j]? = some a) :
    (j = p ∧ ∃ b, l[p]? = some b ∧ a = f b) ∨ (j ≠ p ∧ l[j]? = some a) := by
  rw [getElem?_modify] at h
  by_cases hj : p = j
  · subst hj
    obtain ⟨b, hb, heq⟩ := map_eq_some_iff.mp h
    exact .inl ⟨rfl, b, hb, by simpa using heq.symm⟩
  · obtain ⟨b, hb, heq⟩ := map_eq_some_iff.mp h
    rw [if_neg hj] at heq
    exact .inr ⟨Ne.symm hj, heq ▸ hb⟩

variable {piles : List Pile}

theorem Piled.push {pushed : List (ℕ × ℕ)} (h : Piled pushed piles) {pair : ℕ × ℕ}
    (hnew : ∀ q ∈ pushed, q.1 < pair.1) {p size : ℕ} {top : Pile} (htop : piles[p]? = some top)
    (haccept : Pile.accepts pair.2 top = true)
    (hlink : ∀ q prev, p = q + 1 → piles[q]? = some prev → Linked prev ⟨pair.1, pair.2, size⟩) :
    Piled (pushed ++ [pair]) (piles.modify p (· ++ [⟨pair.1, pair.2, size⟩])) := by
  have hcases : ∀ pile ∈ piles.modify p (· ++ [⟨pair.1, pair.2, size⟩]),
      pile = top ++ [⟨pair.1, pair.2, size⟩] ∨ pile ∈ piles := by
    intro pile hpile
    obtain ⟨j, hj⟩ := mem_iff_getElem?.mp hpile
    rcases getElem?_modify_cases hj with ⟨-, b, hb, rfl⟩ | ⟨-, hold⟩
    · rw [htop] at hb
      exact .inl (by rw [some.inj hb])
    · exact .inr (List.mem_of_getElem? hold)
  have htop_mem : top ∈ piles := List.mem_of_getElem? htop
  have hkept : ∀ pile ∈ piles, ∃ pile' ∈ piles.modify p (· ++ [⟨pair.1, pair.2, size⟩]),
      pile ⊆ pile' := by
    intro pile hpile
    obtain ⟨j, hj⟩ := mem_iff_getElem?.mp hpile
    by_cases hjp : p = j
    · subst hjp
      exact ⟨pile ++ [⟨pair.1, pair.2, size⟩],
        List.mem_of_getElem? (i := p) (by rw [getElem?_modify_eq, hj]; rfl),
        subset_append_left _ _⟩
    · exact ⟨pile, List.mem_of_getElem? (i := j) (by rw [getElem?_modify_ne _ _ hjp, hj]),
        List.Subset.refl _⟩
  refine ⟨?_, ?_, ?_, ?_, ?_⟩
  · intro pile hpile
    rcases hcases pile hpile with rfl | hold
    · simp
    · exact h.nonempty pile hold
  · intro pile hpile entry hentry
    rcases hcases pile hpile with rfl | hold
    · rcases mem_append.mp hentry with hin | hlast
      · exact mem_append_left _ (h.mem top htop_mem entry hin)
      · rw [mem_singleton.mp hlast]
        simp [PileEntry.pair]
    · exact mem_append_left _ (h.mem pile hold entry hentry)
  · intro q hq
    rcases mem_append.mp hq with hold | hlast
    · obtain ⟨pile, hpile, entry, hentry, heq⟩ := h.placed q hold
      obtain ⟨pile', hpile', hsub⟩ := hkept pile hpile
      exact ⟨pile', hpile', entry, hsub hentry, heq⟩
    · rw [mem_singleton.mp hlast]
      refine ⟨top ++ [⟨pair.1, pair.2, size⟩],
        List.mem_of_getElem? (i := p) ?_, ⟨pair.1, pair.2, size⟩, by simp, rfl⟩
      rw [getElem?_modify_eq, htop]
      rfl
  · intro pile hpile
    rcases hcases pile hpile with rfl | hold
    · exact (h.falling top htop_mem).concat haccept fun e he => hnew _ (h.mem top htop_mem e he)
    · exact h.falling pile hold
  · intro q prev pile hprev hpile entry hentry
    rcases getElem?_modify_cases hprev with ⟨rfl, b, hb, rfl⟩ | ⟨hq, hprev⟩
    · -- the pile in front has grown
      rcases getElem?_modify_cases hpile with ⟨hcontra, -⟩ | ⟨-, hpile⟩
      · omega
      · exact (h.linked q b pile hb hpile entry hentry).append _
    · rcases getElem?_modify_cases hpile with ⟨hqp, b, hb, rfl⟩ | ⟨-, hpile⟩
      · -- the entry stands on the pile that was pushed to
        rcases mem_append.mp hentry with hin | hlast
        · exact h.linked q prev b hprev (hqp ▸ hb) entry hin
        · rw [mem_singleton.mp hlast]
          exact hlink q prev hqp.symm hprev
      · exact h.linked q prev pile hprev hpile entry hentry

/-- Beginning a new pile with a pair. -/
theorem Piled.begin {pushed : List (ℕ × ℕ)} (h : Piled pushed piles) {pair : ℕ × ℕ} {size : ℕ}
    (hlink : ∀ prev, piles.getLast? = some prev → Linked prev ⟨pair.1, pair.2, size⟩) :
    Piled (pushed ++ [pair]) (piles ++ [[⟨pair.1, pair.2, size⟩]]) := by
  refine ⟨?_, ?_, ?_, ?_, ?_⟩
  · intro pile hpile
    rcases mem_append.mp hpile with hold | hlast
    · exact h.nonempty pile hold
    · rw [mem_singleton.mp hlast]
      simp
  · intro pile hpile entry hentry
    rcases mem_append.mp hpile with hold | hlast
    · exact mem_append_left _ (h.mem pile hold entry hentry)
    · rw [mem_singleton.mp hlast] at hentry
      rw [mem_singleton.mp hentry]
      simp [PileEntry.pair]
  · intro q hq
    rcases mem_append.mp hq with hold | hlast
    · obtain ⟨pile, hpile, entry, hentry, heq⟩ := h.placed q hold
      exact ⟨pile, mem_append_left _ hpile, entry, hentry, heq⟩
    · rw [mem_singleton.mp hlast]
      exact ⟨[⟨pair.1, pair.2, size⟩], by simp, ⟨pair.1, pair.2, size⟩, by simp, rfl⟩
  · intro pile hpile
    rcases mem_append.mp hpile with hold | hlast
    · exact h.falling pile hold
    · rw [mem_singleton.mp hlast]
      exact pairwise_singleton _ _
  · intro p prev pile hprev hpile entry hentry
    have hbound := (List.getElem?_eq_some_iff.mp hpile).1
    simp only [length_append, length_singleton] at hbound
    have hp : p < piles.length := by omega
    rw [getElem?_append_left hp] at hprev
    by_cases hp' : p + 1 < piles.length
    · rw [getElem?_append_left hp'] at hpile
      exact h.linked p prev pile hprev hpile entry hentry
    · have hlast : p + 1 = piles.length := by omega
      have hpile_eq : [⟨pair.1, pair.2, size⟩] = pile := by
        simpa [hlast] using hpile
      rw [← hpile_eq] at hentry
      rw [mem_singleton.mp hentry]
      apply hlink
      rw [getLast?_eq_getElem?, ← hlast]
      exact hprev

theorem pushPair_piled {pushed : List (ℕ × ℕ)} (h : Piled pushed piles) {pair : ℕ × ℕ}
    (hnew : ∀ q ∈ pushed, q.1 < pair.1) : Piled (pushed ++ [pair]) (pushPair piles pair) := by
  have hsource : ∀ pile ∈ piles, ∀ entry ∈ pile, entry.sourceId < pair.1 :=
    fun pile hpile entry hentry => hnew _ (h.mem pile hpile entry hentry)
  unfold pushPair
  split
  · -- the pair goes onto the first pile that accepts it
    rename_i p hfind
    obtain ⟨hp, haccept, hfirst⟩ := findIdx?_eq_some_iff_getElem.mp hfind
    refine h.push hnew (getElem?_eq_getElem hp) haccept ?_
    intro q prev hq hprev
    subst hq
    obtain ⟨hq, rfl⟩ := List.getElem?_eq_some_iff.mp hprev
    have hreject : Pile.accepts pair.2 piles[q] = false := by simpa using hfirst q (by omega)
    have hmem : piles[q] ∈ piles := getElem_mem hq
    have hindex : max (q + 1) 1 - 1 = q := by omega
    have hget : piles.getD q [] = piles[q] := by simp [hq]
    rw [hindex, hget]
    exact linked_of_not_accepts (h.nonempty _ hmem) hreject (hsource _ hmem)
  · -- no pile accepts the pair, and a new one is begun
    rename_i hfind
    apply h.begin
    intro prev hprev
    have hmem : prev ∈ piles := mem_of_getLast? hprev
    have hreject : Pile.accepts pair.2 prev = false := by
      simpa using findIdx?_eq_none_iff.mp hfind prev hmem
    have hpos : 0 < piles.length := length_pos_of_mem hmem
    have hindex : max (piles ++ [[]]).length 2 - 2 = piles.length - 1 := by
      simp only [length_append, length_singleton]
      omega
    have hlast : (piles ++ [[]]).getD (piles.length - 1) [] = prev := by
      rw [getLast?_eq_getElem?] at hprev
      rw [getD_eq_getElem?_getD, getElem?_append_left (by omega), hprev]
      rfl
    rw [hindex, hlast]
    exact linked_of_not_accepts (h.nonempty _ hmem) hreject (hsource _ hmem)

theorem buildPiles_piled {uniquePairs : List (ℕ × ℕ)}
    (hsorted : uniquePairs.Pairwise fun l r => l.1 < r.1) :
    Piled uniquePairs (buildPiles uniquePairs) := by
  induction uniquePairs using List.reverseRecOn with
  | nil => constructor <;> simp [buildPiles]
  | append_singleton pairs pair ih =>
    obtain ⟨hpairs, -, hlast⟩ := pairwise_append.mp hsorted
    rw [buildPiles, foldl_append]
    exact pushPair_piled (ih hpairs) fun q hq => hlast q hq pair (by simp)

/-! ## The walk back -/

theorem entryAt_eq {p k : ℕ} {pile : Pile} {entry : PileEntry} (hpile : piles[p]? = some pile)
    (hentry : pile[k]? = some entry) : entryAt piles p k = entry := by
  simp [entryAt, hpile, hentry]

theorem walkBack_spec {pushed : List (ℕ × ℕ)} (h : Piled pushed piles) (p : ℕ) :
    ∀ k pile entry, piles[p]? = some pile → pile[k]? = some entry →
      (∀ q ∈ walkBack piles p k, q = entry.pair ∨ Before q entry.pair) ∧
      (walkBack piles p k).Pairwise (fun l r => Before r l) ∧
      (∀ q ∈ walkBack piles p k, q ∈ pushed) ∧
      (walkBack piles p k).length = p + 1 := by
  induction p with
  | zero =>
    intro k pile entry hpile hentry
    have hmem := h.mem pile (List.mem_of_getElem? hpile) entry (List.mem_of_getElem? hentry)
    simp [walkBack, entryAt_eq hpile hentry, hmem]
  | succ p ih =>
    intro k pile entry hpile hentry
    have hp : p < piles.length := by
      have := (List.getElem?_eq_some_iff.mp hpile).1
      omega
    have hprev : piles[p]? = some piles[p] := getElem?_eq_getElem hp
    obtain ⟨-, before, hbefore_get, hbefore⟩ :=
      h.linked p piles[p] pile hprev hpile entry (List.mem_of_getElem? hentry)
    obtain ⟨hhead, hpairwise, hmem, hlength⟩ :=
      ih (entry.prevPileSize - 1) piles[p] before hprev hbefore_get
    have hall : ∀ q ∈ walkBack piles p (entry.prevPileSize - 1), Before q entry.pair := by
      intro q hq
      rcases hhead q hq with rfl | hq
      · exact hbefore
      · exact ⟨hq.1.trans hbefore.1, hq.2.trans hbefore.2⟩
    have hself := h.mem pile (List.mem_of_getElem? hpile) entry (List.mem_of_getElem? hentry)
    rw [walkBack, entryAt_eq hpile hentry]
    refine ⟨?_, pairwise_cons.mpr ⟨hall, hpairwise⟩, ?_, by simp [hlength]⟩
    · intro q hq
      rcases mem_cons.mp hq with rfl | hq
      · exact .inl rfl
      · exact .inr (hall q hq)
    · intro q hq
      rcases mem_cons.mp hq with rfl | hq
      · exact hself
      · exact hmem q hq

/-- The result of `FindLCS` increases on both sides, consists of unique pairs,
and has one pair for each pile. -/
theorem findLCS_spec {uniquePairs : List (ℕ × ℕ)}
    (hsorted : uniquePairs.Pairwise fun l r => l.1 < r.1) :
    (findLCS uniquePairs).Pairwise Before ∧
      (∀ q ∈ findLCS uniquePairs, q ∈ uniquePairs) ∧
      (findLCS uniquePairs).length = (buildPiles uniquePairs).length := by
  have h := buildPiles_piled hsorted
  unfold findLCS
  dsimp only
  split
  · rename_i hempty
    rw [List.isEmpty_iff] at hempty
    simp [hempty]
  · rename_i hempty
    rw [List.isEmpty_iff] at hempty
    have hpos : 0 < (buildPiles uniquePairs).length := length_pos_iff.mpr hempty
    set p := (buildPiles uniquePairs).length - 1 with hp
    have hpile : (buildPiles uniquePairs)[p]? = some (buildPiles uniquePairs)[p] :=
      getElem?_eq_getElem (by omega)
    have hget : (buildPiles uniquePairs).getD p [] = (buildPiles uniquePairs)[p] := by
      simp [hpile]
    have hne : (buildPiles uniquePairs)[p] ≠ [] := h.nonempty _ (getElem_mem _)
    obtain ⟨-, hpairwise, hmem, hlength⟩ := walkBack_spec h p
      ((buildPiles uniquePairs)[p].length - 1) _ ((buildPiles uniquePairs)[p].getLast hne) hpile
      (by rw [← getLast?_eq_getElem?, getLast?_eq_some_getLast hne])
    rw [hget]
    refine ⟨pairwise_reverse.mpr hpairwise, ?_, ?_⟩
    · intro q hq
      exact hmem q (mem_reverse.mp hq)
    · rw [length_reverse, hlength]
      omega

/-- No increasing part of the unique pairs is longer than the result. -/
theorem findLCS_longest {uniquePairs : List (ℕ × ℕ)}
    (hsorted : uniquePairs.Pairwise fun l r => l.1 < r.1) {common : List (ℕ × ℕ)}
    (hsub : common ⊆ uniquePairs) (hbefore : common.Pairwise Before) :
    common.length ≤ (findLCS uniquePairs).length := by
  have h := buildPiles_piled hsorted
  rw [(findLCS_spec hsorted).2.2]
  -- the pile that a pair was pushed to
  have hpile : ∀ q ∈ uniquePairs, ∃ (p : ℕ) (pile : Pile), (buildPiles uniquePairs)[p]? = some pile ∧
      ∃ entry : PileEntry, entry ∈ pile ∧ entry.pair = q := by
    intro q hq
    obtain ⟨pile, hpile, hentry⟩ := h.placed q hq
    obtain ⟨p, hp⟩ := mem_iff_getElem?.mp hpile
    exact ⟨p, pile, hp, hentry⟩
  choose! pileOf hpileOf using hpile
  have hnodup : (common.map pileOf).Nodup := by
    refine pairwise_map.mpr (hbefore.imp_of_mem ?_)
    intro q q' hq hq' hlt heq
    obtain ⟨pile, hpile, entry, hentry, rfl⟩ := hpileOf q (hsub hq)
    obtain ⟨pile', hpile', entry', hentry', rfl⟩ := hpileOf q' (hsub hq')
    rw [← heq, hpile] at hpile'
    obtain rfl := some.inj hpile'
    -- of two entries of one pile the later one has the smaller target
    have hfalling := pairwise_iff_getElem.mp (h.falling pile (List.mem_of_getElem? hpile))
    obtain ⟨i, hi, rfl⟩ := mem_iff_getElem.mp hentry
    obtain ⟨j, hj, rfl⟩ := mem_iff_getElem.mp hentry'
    obtain ⟨hsource, htarget⟩ := hlt
    simp only [PileEntry.pair] at hsource htarget
    rcases Nat.lt_trichotomy i j with hij | rfl | hji
    · have := hfalling i j hi hj hij
      omega
    · omega
    · have := hfalling j i hj hi hji
      omega
  have hbound : common.map pileOf ⊆ List.range (buildPiles uniquePairs).length := by
    intro p hp
    obtain ⟨q, hq, rfl⟩ := mem_map.mp hp
    obtain ⟨pile, hpile, -⟩ := hpileOf q (hsub hq)
    exact mem_range.mpr (List.getElem?_eq_some_iff.mp hpile).1
  simpa using (subperm_of_subset hnodup hbound).length_le

/-! ## The assertions -/

theorem checkedWalkBack_eq {pushed : List (ℕ × ℕ)} (h : Piled pushed piles) {p k : ℕ} {pile : Pile}
    {entry : PileEntry} (hpile : piles[p]? = some pile) (hentry : pile[k]? = some entry) :
    checkedWalkBack piles p k = some (walkBack piles p k) := by
  induction p generalizing k pile entry with
  | zero =>
    rw [checkedWalkBack, walkBack, entryAt_eq hpile hentry, hpile, bind_some, hentry]
    rfl
  | succ p ih =>
    have hp : p < piles.length := Nat.lt_of_succ_lt (List.getElem?_eq_some_iff.mp hpile).1
    have hprev : piles[p]? = some piles[p] := getElem?_eq_getElem hp
    -- the entry continues one that the pile in front still has
    obtain ⟨hpos, before, hbefore, -⟩ :=
      h.linked p piles[p] pile hprev hpile entry (List.mem_of_getElem? hentry)
    rw [checkedWalkBack, walkBack, entryAt_eq hpile hentry, hpile, bind_some, hentry,
      bind_some, if_pos hpos, ih hprev hbefore]
    rfl

theorem checkedFindLCS_eq {uniquePairs : List (ℕ × ℕ)}
    (hsorted : uniquePairs.Pairwise fun l r => l.1 < r.1) :
    checkedFindLCS uniquePairs = some (findLCS uniquePairs) := by
  have h := buildPiles_piled hsorted
  unfold checkedFindLCS findLCS
  cases hpiles : (buildPiles uniquePairs).getLast? with
  | none =>
    have hempty : buildPiles uniquePairs = [] := getLast?_eq_none_iff.mp hpiles
    simp [hempty]
  | some last =>
    have hne : buildPiles uniquePairs ≠ [] := by
      intro hempty
      simp [hempty] at hpiles
    have hmem : last ∈ buildPiles uniquePairs := mem_of_getLast? hpiles
    have hlast := hpiles
    rw [getLast?_eq_getElem?] at hlast
    have hentry : last[last.length - 1]? = some (last.getLast (h.nonempty last hmem)) := by
      rw [← getLast?_eq_getElem?, getLast?_eq_some_getLast]
    have hget : (buildPiles uniquePairs).getD ((buildPiles uniquePairs).length - 1) [] = last := by
      rw [getD_eq_getElem?_getD, hlast]
      rfl
    have hfull : (buildPiles uniquePairs).isEmpty = false := by
      simpa using hne
    simp only [hpiles, hfull, hget, checkedWalkBack_eq h hlast hentry, map_some]
    rfl

/-- A part of a list whose sources rise keeps its order. -/
theorem sublist_of_before {part pairs : List (ℕ × ℕ)} (hpart : part.Pairwise Before)
    (hpairs : pairs.Pairwise fun l r => l.1 < r.1) (hmem : part ⊆ pairs) :
    part.Sublist pairs := by
  have hrising : part.Pairwise fun l r => l.1 < r.1 := hpart.imp And.left
  have hnodup : part.Nodup := by
    apply hrising.imp
    rintro l _ hlt rfl
    exact Nat.lt_irrefl _ hlt
  have : Std.Antisymm fun l r : ℕ × ℕ => l.1 < r.1 :=
    ⟨fun l r hlr hrl => absurd hlr (Nat.lt_asymm hrl)⟩
  exact sublist_of_subperm_of_pairwise (subperm_of_subset hnodup hmem) hrising hpairs

/-- `FindLCS` gives a longest sub-list whose targets rise, and no assertion of it fails. -/
theorem findLCS_longest_sublist (uniquePairs : List (ℕ × ℕ))
    (hsources : (uniquePairs.map Prod.fst).Nodup)
    (hsorted : uniquePairs.Pairwise fun l r => l.1 ≤ r.1) :
    (findLCS uniquePairs).Sublist uniquePairs ∧
      (findLCS uniquePairs).Pairwise (fun l r => l.2 < r.2) ∧
      (∀ common : List (ℕ × ℕ), common.Sublist uniquePairs →
        common.Pairwise (fun l r => l.2 < r.2) → common.length ≤ (findLCS uniquePairs).length) ∧
      checkedFindLCS uniquePairs = some (findLCS uniquePairs) := by
  have hrising : uniquePairs.Pairwise fun l r => l.1 < r.1 := by
    refine (hsorted.and (pairwise_map.mp hsources)).imp ?_
    intro l r h
    exact Nat.lt_of_le_of_ne h.1 h.2
  obtain ⟨hbefore, hmem, -⟩ := findLCS_spec hrising
  refine ⟨sublist_of_before hbefore hrising hmem, hbefore.imp And.right, ?_,
    checkedFindLCS_eq hrising⟩
  intro common hsub htarget
  refine findLCS_longest hrising hsub.subset ?_
  exact ((hrising.sublist hsub).and htarget).imp id

/-- The longest rising part of five pairs. -/
theorem findLCS_longest_sublist_five :
    (findLCS [(0, 3), (1, 0), (2, 1), (3, 4), (4, 2)]).Sublist
        [(0, 3), (1, 0), (2, 1), (3, 4), (4, 2)] ∧
      findLCS [(0, 3), (1, 0), (2, 1), (3, 4), (4, 2)] = [(1, 0), (2, 1), (4, 2)] :=
  ⟨(findLCS_longest_sublist _ (by decide) (by decide)).1, by decide⟩

end DashQL.ScriptDiff
