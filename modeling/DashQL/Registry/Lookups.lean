import DashQL.Library.Replay
import DashQL.Registry.ScriptRegistry

/-!
# Lookups in the script registry

A lookup answers for a script if it finds the uses of the column in the latest analysis
that was added, unless the script was dropped since or the registry cleared.

What a lookup shows of a script depends on its entry and on the index only (`shown`), and
each request is described by what it makes of that: an addition shows the new analysis,
a drop and a clear change nothing, and a lookup hides the scripts that it found outdated.
`answers_of_run_iff` says in which runs all lookups answer.
-/

namespace DashQL.Registry

open Function List

namespace ScriptRegistry

variable {Column : Type} [LinearOrder Column]

/-! ## Collecting the uses of a script -/

variable {columnId : Column}

theorem isOn_iff {use : ColumnUse Column} :
    use.isOn columnId = true ↔ ∃ resolved, use.resolvedColumnIDs = some resolved ∧
      resolved.catalogTableColumnId = columnId := by
  unfold ColumnUse.isOn
  rw [Option.any_eq_true]
  exact exists_congr fun resolved => and_congr_right fun _ => decide_eq_true_iff

/-- The use was not resolved at another version than the target. -/
def isCurrent (targetCatalogVersion : Option CatalogVersion) (use : ColumnUse Column) : Bool :=
  !use.resolvedColumnIDs.any fun resolved =>
    targetCatalogVersion.any (resolved.referencedCatalogVersion ≠ ·)

theorem isCurrent_none (use : ColumnUse Column) : isCurrent none use = true := by
  unfold isCurrent
  cases use.resolvedColumnIDs <;> rfl

theorem isCurrent_some_iff {version : CatalogVersion} {use : ColumnUse Column} :
    isCurrent (some version) use = true ↔ ∀ resolved, use.resolvedColumnIDs = some resolved →
      resolved.referencedCatalogVersion = version := by
  unfold isCurrent
  cases use.resolvedColumnIDs with
  | none => exact iff_of_true rfl fun _ h => by cases h
  | some resolved =>
    simp only [Option.any_some, ne_eq, decide_not, Bool.not_not, decide_eq_true_eq]
    exact ⟨fun h _ heq => Option.some.inj heq ▸ h, fun h => h resolved rfl⟩

theorem collectUses_eq (target : Option CatalogVersion) (uses : List (ColumnUse Column)) :
    collectUses target uses =
      (uses.takeWhile (isCurrent target), !uses.all (isCurrent target)) := by
  induction uses with
  | nil => rfl
  | cons use uses ih =>
    unfold collectUses
    rw [takeWhile_cons, all_cons, ih]
    unfold isCurrent
    by_cases houtdated : (use.resolvedColumnIDs.any fun resolved =>
        target.any (resolved.referencedCatalogVersion ≠ ·)) = true
    · simp only [houtdated, if_true, Bool.not_true, Bool.false_and, Bool.not_false,
        Bool.false_eq_true, if_false]
    · rw [Bool.not_eq_true] at houtdated
      simp only [houtdated, Bool.false_eq_true, if_false, Bool.not_false, Bool.true_and, if_true]

/-- All uses of a list that are resolved were resolved at one version. -/
def OneVersion (uses : List (ColumnUse Column)) : Prop :=
  ∀ use ∈ uses, ∀ use' ∈ uses, ∀ resolved resolved',
    use.resolvedColumnIDs = some resolved → use'.resolvedColumnIDs = some resolved' →
      resolved.referencedCatalogVersion = resolved'.referencedCatalogVersion

theorem takeWhile_perm_filter_iff {uses : List (ColumnUse Column)}
    (hresolved : ∀ use ∈ uses, use.resolvedColumnIDs ≠ none) :
    (∀ target, (uses.takeWhile (isCurrent target)).Perm (uses.filter (isCurrent target))) ↔
      OneVersion uses := by
  constructor
  · intro hperm
    cases uses with
    | nil =>
      intro use huse
      exact (not_mem_nil huse).elim
    | cons head uses =>
      have hhead : ∀ use ∈ head :: uses, ∀ resolved resolved',
          head.resolvedColumnIDs = some resolved → use.resolvedColumnIDs = some resolved' →
            resolved'.referencedCatalogVersion = resolved.referencedCatalogVersion := by
        intro use huse resolved resolved' hfirst huseResolved
        have hcurrent : isCurrent (some resolved'.referencedCatalogVersion) use = true :=
          isCurrent_some_iff.mpr fun r hr => by
            rw [huseResolved] at hr
            rw [Option.some.inj hr]
        have hmem := (hperm (some resolved'.referencedCatalogVersion)).mem_iff.mpr
          (mem_filter.mpr ⟨huse, hcurrent⟩)
        rw [takeWhile_cons] at hmem
        by_cases hfound : isCurrent (some resolved'.referencedCatalogVersion) head = true
        · exact (isCurrent_some_iff.mp hfound resolved hfirst).symm
        · rw [if_neg hfound] at hmem
          exact (not_mem_nil hmem).elim
      obtain ⟨first, hfirst⟩ := Option.ne_none_iff_exists'.mp (hresolved head mem_cons_self)
      intro use huse use' huse' resolved resolved' hr hr'
      rw [hhead use huse first resolved hfirst hr, hhead use' huse' first resolved' hfirst hr']
  · intro hone target
    by_cases hall : ∀ use ∈ uses, isCurrent target use = true
    · rw [takeWhile_eq_self_iff.mpr hall, filter_eq_self.mpr hall]
    · obtain ⟨outdated, houtdated, hnot⟩ : ∃ use ∈ uses, ¬ isCurrent target use = true := by
        push Not at hall
        exact hall
      have hnone : ∀ use ∈ uses, ¬ isCurrent target use = true := by
        intro use huse hcurrent
        cases target with
        | none => exact hnot (isCurrent_none outdated)
        | some version =>
          obtain ⟨resolved, hr⟩ := Option.ne_none_iff_exists'.mp (hresolved use huse)
          refine hnot (isCurrent_some_iff.mpr fun resolved' hr' => ?_)
          rw [hone outdated houtdated use huse resolved' resolved hr' hr]
          exact isCurrent_some_iff.mp hcurrent resolved hr
      rw [filter_eq_nil_iff.mpr hnone]
      cases uses with
      | nil => exact List.Perm.refl _
      | cons head uses =>
        rw [takeWhile_cons, if_neg (hnone head mem_cons_self)]

/-! ## The scripts of a column -/

theorem probe_le (key : Column ×ₗ ScriptPointer) (h : decide ((ofLex key).1 = columnId) = true) :
    toLex (columnId, 0) ≤ key := by
  rw [Prod.Lex.le_iff]
  exact .inr ⟨(of_decide_eq_true h).symm, Nat.zero_le _⟩

theorem column_of_le (lower key : Column ×ₗ ScriptPointer) (hprobe : toLex (columnId, 0) ≤ lower)
    (hle : lower ≤ key) (h : decide ((ofLex key).1 = columnId) = true) :
    decide ((ofLex lower).1 = columnId) = true := by
  have hkey := of_decide_eq_true h
  refine decide_eq_true (le_antisymm ?_ ?_)
  · rw [← hkey]
    exact Prod.Lex.monotone_fst _ _ hle
  · exact Prod.Lex.monotone_fst _ _ hprobe

/-- The scripts that a lookup goes through are those of the column. -/
theorem mem_scriptsOf_iff {index : ColumnIndex Column} {script : ScriptPointer} :
    script ∈ scriptsOf index columnId ↔ toLex (columnId, script) ∈ index := by
  unfold scriptsOf
  rw [mem_map]
  constructor
  · rintro ⟨key, hkey, rfl⟩
    obtain ⟨hmem, hcolumn⟩ := (OrderedMap.mem_scan_iff probe_le column_of_le).mp hkey
    rw [← of_decide_eq_true hcolumn]
    exact hmem
  · intro hmem
    exact ⟨toLex (columnId, script),
      (OrderedMap.mem_scan_iff probe_le column_of_le).mpr ⟨hmem, decide_eq_true rfl⟩, rfl⟩

theorem nodup_scriptsOf (index : ColumnIndex Column) (columnId : Column) :
    (scriptsOf index columnId).Nodup := by
  unfold scriptsOf
  refine (OrderedMap.nodup_scan probe_le column_of_le).map_on ?_
  intro key hkey key' hkey' hscript
  have hcolumn := of_decide_eq_true ((OrderedMap.mem_scan_iff probe_le column_of_le).mp hkey).2
  have hcolumn' := of_decide_eq_true ((OrderedMap.mem_scan_iff probe_le column_of_le).mp hkey').2
  exact ofLex.injective (Prod.ext (hcolumn.trans hcolumn'.symm) hscript)

/-! ## What is shown of a script -/

variable {registry registry' : ScriptRegistry Column} {kind kind' : UseKind}
  {columnId columnId' : Column} {target target' : Option CatalogVersion}
  {script script' : ScriptPointer}

theorem script_of_collectScript {found : IndexedUse Column}
    (h : found ∈ (registry.collectScript kind columnId target script).1) :
    found.script = script := by
  unfold collectScript at h
  split at h
  · exact (not_mem_nil h).elim
  · obtain ⟨use, -, rfl⟩ := mem_map.mp h
    rfl

theorem filter_flatMap_collectScript {scripts : List ScriptPointer} (hnodup : scripts.Nodup) :
    (scripts.flatMap fun s => (registry.collectScript kind columnId target s).1).filter
        (·.script = script) =
      if script ∈ scripts then (registry.collectScript kind columnId target script).1 else [] := by
  induction scripts with
  | nil => rfl
  | cons head scripts ih =>
    rw [nodup_cons] at hnodup
    rw [flatMap_cons, filter_append, ih hnodup.2]
    by_cases hhead : script = head
    · subst hhead
      rw [if_neg hnodup.1, if_pos mem_cons_self, append_nil, filter_eq_self]
      exact fun found hfound => decide_eq_true (script_of_collectScript hfound)
    · have hnone : (registry.collectScript kind columnId target head).1.filter
          (·.script = script) = [] := by
        refine filter_eq_nil_iff.mpr fun found hfound heq => hhead ?_
        rw [← of_decide_eq_true heq, script_of_collectScript hfound]
      rw [hnone, nil_append]
      have hmem : script ∈ head :: scripts ↔ script ∈ scripts := by
        rw [mem_cons, or_iff_right hhead]
      exact if_congr hmem.symm rfl rfl

theorem filter_findColumnUses :
    (findColumnUses kind columnId target registry).1.filter (·.script = script) =
      (shown registry kind columnId target script).1 := by
  unfold findColumnUses shown
  dsimp only
  rw [filter_flatMap_collectScript (nodup_scriptsOf _ _)]
  by_cases hmem : toLex (columnId, script) ∈ registry.columns kind
  · rw [if_pos hmem, if_pos (mem_scriptsOf_iff.mpr hmem)]
  · rw [if_neg hmem, if_neg (mt mem_scriptsOf_iff.mp hmem)]

theorem mem_insertUses_iff {uses : List (ColumnUse Column)} {index : ColumnIndex Column} :
    toLex (columnId, script') ∈ insertUses script uses index ↔
      (script' = script ∧ ∃ use ∈ uses, use.isOn columnId = true) ∨
        toLex (columnId, script') ∈ index := by
  unfold insertUses
  rw [OrderedMap.mem_foldl_insertIfNew]
  refine or_congr_left ⟨?_, ?_⟩
  · rintro ⟨column, hcolumn, hkey⟩
    obtain ⟨use, huse, hmap⟩ := mem_filterMap.mp hcolumn
    obtain ⟨resolved, hresolved, hresolvedColumn⟩ := Option.map_eq_some_iff.mp hmap
    obtain ⟨hcolumn, hscript⟩ := Prod.mk.inj (toLex.injective hkey)
    exact ⟨hscript.symm, use, huse,
      isOn_iff.mpr ⟨resolved, hresolved, hresolvedColumn.trans hcolumn⟩⟩
  · rintro ⟨rfl, use, huse, hon⟩
    obtain ⟨resolved, hresolved, hcolumn⟩ := isOn_iff.mp hon
    refine ⟨columnId, mem_filterMap.mpr ⟨use, huse, ?_⟩, rfl⟩
    rw [hresolved, Option.map_some, hcolumn]

def collectAnalysis (script : ScriptPointer) (analyzed : AnalyzedScript Column) (kind : UseKind)
    (columnId : Column) (target : Option CatalogVersion) : List (IndexedUse Column) × Bool :=
  let found := collectUses target ((analyzed.columnUses kind).byCatalogEntry columnId)
  (found.1.map (⟨script, analyzed, ·⟩), found.2)

/-- An addition shows the new analysis of the script, and of the others what it did. -/
theorem shown_addScript {analyzed : AnalyzedScript Column}
    (h : registry.addScript script (some analyzed) = some registry') :
    shown registry' kind columnId target script' =
      if script' = script then collectAnalysis script analyzed kind columnId target
      else shown registry kind columnId target script' := by
  obtain rfl := Option.some.inj h
  unfold shown collectScript
  dsimp only
  by_cases hscript : script' = script
  · subst hscript
    rw [if_pos rfl, update_self]
    by_cases hmem : toLex (columnId, script') ∈
        insertUses script' (analyzed.columnUses kind).uses (registry.columns kind)
    · rw [if_pos hmem]
      rfl
    · rw [if_neg hmem]
      have hnone : (analyzed.columnUses kind).byCatalogEntry columnId = [] := by
        rw [eq_nil_iff_forall_not_mem]
        intro use huse
        obtain ⟨huse, hon⟩ := mem_filter.mp
          (((analyzed.columnUses kind).byCatalogEntry_perm columnId).mem_iff.mp huse)
        exact hmem (mem_insertUses_iff.mpr (.inl ⟨rfl, use, huse, hon⟩))
      unfold collectAnalysis
      rw [hnone]
      rfl
  · rw [if_neg hscript, update_of_ne hscript]
    have hmem : toLex (columnId, script') ∈
        insertUses script (analyzed.columnUses kind).uses (registry.columns kind) ↔
          toLex (columnId, script') ∈ registry.columns kind := by
      rw [mem_insertUses_iff, or_iff_right]
      exact fun h => hscript h.1
    exact if_congr hmem rfl rfl

/-- A lookup hides the scripts that it found outdated, and no others. -/
theorem shown_findColumnUses :
    shown (findColumnUses kind columnId target registry).2 kind' columnId' target' script =
      if kind' = kind ∧ columnId' = columnId ∧
          (shown registry kind columnId target script).2 = true then ([], false)
      else shown registry kind' columnId' target' script := by
  have houtdated : script ∈ (scriptsOf (registry.columns kind) columnId).filter
      (fun s => (registry.collectScript kind columnId target s).2) ↔
        (shown registry kind columnId target script).2 = true := by
    rw [mem_filter, mem_scriptsOf_iff]
    unfold shown
    by_cases hmem : toLex (columnId, script) ∈ registry.columns kind
    · rw [if_pos hmem, and_iff_right hmem]
    · rw [if_neg hmem]
      exact iff_of_false (fun h => hmem h.1) Bool.false_ne_true
  have hmem : toLex (columnId', script) ∈
      (findColumnUses kind columnId target registry).2.columns kind' ↔
        ¬ (kind' = kind ∧ columnId' = columnId ∧
          (shown registry kind columnId target script).2 = true) ∧
        toLex (columnId', script) ∈ registry.columns kind' := by
    unfold findColumnUses
    dsimp only
    by_cases hkind : kind' = kind
    · subst hkind
      rw [update_self, OrderedMap.mem_foldl_erase, ← houtdated]
      refine and_congr_left fun _ => not_congr ⟨?_, ?_⟩
      · rintro ⟨s, hs, hkey⟩
        obtain ⟨rfl, rfl⟩ := Prod.mk.inj (toLex.injective hkey)
        exact ⟨rfl, rfl, hs⟩
      · rintro ⟨-, rfl, hs⟩
        exact ⟨script, hs, rfl⟩
    · rw [update_of_ne hkind]
      exact (and_iff_right fun h => hkind h.1).symm
  have hcollect : shown (findColumnUses kind columnId target registry).2 kind' columnId' target'
      script = if toLex (columnId', script) ∈
          (findColumnUses kind columnId target registry).2.columns kind' then
        registry.collectScript kind' columnId' target' script else ([], false) := rfl
  rw [hcollect]
  by_cases hhidden : kind' = kind ∧ columnId' = columnId ∧
      (shown registry kind columnId target script).2 = true
  · rw [if_pos hhidden, if_neg fun h => (hmem.mp h).1 hhidden]
  · rw [if_neg hhidden]
    exact if_congr (hmem.trans (and_iff_right hhidden)) rfl rfl

end ScriptRegistry

/-! ## Runs -/

/-- A registry, with the latest added analysis of every script that was neither dropped nor cleared
since. -/
structure World (Column : Type) [LinearOrder Column] where
  registry : ScriptRegistry Column
  current : ScriptPointer → Option (AnalyzedScript Column)

inductive Request (Column : Type) [LinearOrder Column]
  | addScript (script : ScriptPointer) (analyzedScript : Option (AnalyzedScript Column))
  | dropScript (script : ScriptPointer)
  | clear
  | find (kind : UseKind) (columnId : Column) (targetCatalogVersion : Option CatalogVersion)

namespace World

open ScriptRegistry

variable {Column : Type} [LinearOrder Column]

def empty : World Column := ⟨.empty, fun _ => none⟩

/-- A request; an addition that throws changes nothing. -/
def act (request : Request Column) (w : World Column) : World Column :=
  match request with
  | .addScript script analyzedScript =>
    match w.registry.addScript script analyzedScript with
    | none => w
    | some registry => ⟨registry, Function.update w.current script analyzedScript⟩
  | .dropScript script =>
    ⟨w.registry.dropScript script, Function.update w.current script none⟩
  | .clear => ⟨w.registry.clear, fun _ => none⟩
  | .find kind columnId target => { w with
      registry := (findColumnUses kind columnId target w.registry).2 }

/-- The use is on a column, and was resolved at the target version if there is one. -/
def wanted (columnId : Column) (target : Option CatalogVersion) (use : ColumnUse Column) : Bool :=
  use.isOn columnId && isCurrent target use

/-- What a lookup should find of a script. -/
def expected (current : ScriptPointer → Option (AnalyzedScript Column)) (kind : UseKind)
    (columnId : Column) (target : Option CatalogVersion) (script : ScriptPointer) :
    List (IndexedUse Column) :=
  match current script with
  | none => []
  | some analyzed =>
    ((analyzed.columnUses kind).uses.filter (wanted columnId target)).map (⟨script, analyzed, ·⟩)

section Expected

variable {current current' : ScriptPointer → Option (AnalyzedScript Column)} {kind : UseKind}
  {columnId : Column} {target : Option CatalogVersion} {script : ScriptPointer}
  {analyzed : AnalyzedScript Column}

theorem expected_of_none (h : current script = none) :
    expected current kind columnId target script = [] := by
  unfold expected
  rw [h]

theorem expected_of_some (h : current script = some analyzed) :
    expected current kind columnId target script =
      ((analyzed.columnUses kind).uses.filter (wanted columnId target)).map
        (⟨script, analyzed, ·⟩) := by
  unfold expected
  rw [h]

theorem expected_congr (h : current script = current' script) :
    expected current kind columnId target script =
      expected current' kind columnId target script := by
  unfold expected
  rw [h]

end Expected

/-- Every lookup finds of every script what it should, in any order. -/
def Answers (w : World Column) : Prop :=
  ∀ kind columnId target script,
    ((findColumnUses kind columnId target w.registry).1.filter (·.script = script)).Perm
      (expected w.current kind columnId target script)

/-- Nothing of an analysis is resolved. -/
def Unresolved (analyzed : AnalyzedScript Column) : Prop :=
  ∀ kind, ∀ use ∈ (analyzed.columnUses kind).uses, use.resolvedColumnIDs = none

/-- The uses of a column in an analysis were all resolved at one version. -/
def Uniform (analyzed : AnalyzedScript Column) : Prop :=
  ∀ kind columnId, OneVersion ((analyzed.columnUses kind).uses.filter (·.isOn columnId))

/-- The requests after which the lookups still answer. -/
def Harmless (request : Request Column) (w : World Column) : Prop :=
  match request with
  | .addScript _ none => True
  | .addScript _ (some analyzed) => Uniform analyzed
  | .dropScript script => ∀ analyzed, w.current script = some analyzed → Unresolved analyzed
  | .clear => ∀ script analyzed, w.current script = some analyzed → Unresolved analyzed
  | .find kind columnId target => ∀ script analyzed, w.current script = some analyzed →
      ∀ use ∈ (analyzed.columnUses kind).uses, use.isOn columnId = true →
        isCurrent target use = true

variable {w : World Column}

theorem answers_iff : Answers w ↔ ∀ kind columnId target script,
    (shown w.registry kind columnId target script).1.Perm
      (expected w.current kind columnId target script) := by
  unfold Answers
  simp only [filter_findColumnUses]

theorem answers_empty : Answers (empty : World Column) := by
  rw [answers_iff]
  intro kind columnId target script
  unfold shown
  rw [if_neg]
  · exact List.Perm.refl _
  · exact Std.ExtTreeMap.not_mem_empty

theorem collectAnalysis_perm_iff (script : ScriptPointer) (analyzed : AnalyzedScript Column) :
    (∀ kind columnId target, (collectAnalysis script analyzed kind columnId target).1.Perm
      (((analyzed.columnUses kind).uses.filter (wanted columnId target)).map
        (⟨script, analyzed, ·⟩))) ↔ Uniform analyzed := by
  have hinjective : Function.Injective
      (fun use : ColumnUse Column => (⟨script, analyzed, use⟩ : IndexedUse Column)) := by
    intro use use' h
    exact (IndexedUse.mk.inj h).2.2
  unfold Uniform
  refine forall_congr' fun kind => forall_congr' fun columnId => ?_
  have hperm := (analyzed.columnUses kind).byCatalogEntry_perm columnId
  have hone : OneVersion ((analyzed.columnUses kind).byCatalogEntry columnId) ↔
      OneVersion ((analyzed.columnUses kind).uses.filter (·.isOn columnId)) := by
    unfold OneVersion
    simp only [hperm.mem_iff]
  rw [← hone, ← takeWhile_perm_filter_iff]
  · refine forall_congr' fun target => ?_
    have hwanted : (analyzed.columnUses kind).uses.filter (wanted columnId target) =
        ((analyzed.columnUses kind).uses.filter (·.isOn columnId)).filter (isCurrent target) := by
      rw [filter_filter]
      refine filter_congr fun use _ => ?_
      unfold wanted
      exact Bool.and_comm _ _
    unfold collectAnalysis
    dsimp only
    rw [map_perm_map_iff hinjective, collectUses_eq, hwanted]
    exact ((hperm.filter _).congr_right _).symm
  · intro use huse hnone
    obtain ⟨resolved, hresolved, -⟩ := isOn_iff.mp (mem_filter.mp (hperm.mem_iff.mp huse)).2
    rw [hnone] at hresolved
    cases hresolved

variable {script : ScriptPointer}

/-- Nothing is expected of a script exactly if it has nothing that is resolved. -/
theorem expected_eq_nil_iff {current : ScriptPointer → Option (AnalyzedScript Column)} :
    (∀ kind columnId target, expected current kind columnId target script = []) ↔
      ∀ analyzed, current script = some analyzed → Unresolved analyzed := by
  unfold expected
  cases current script with
  | none => exact iff_of_true (fun _ _ _ => rfl) fun _ h => by cases h
  | some analyzed =>
    constructor
    · intro hnil analyzed' heq kind use huse
      obtain rfl := Option.some.inj heq
      by_contra hresolved
      obtain ⟨resolved, hresolved⟩ := Option.ne_none_iff_exists'.mp hresolved
      have hon : use.isOn resolved.catalogTableColumnId = true :=
        isOn_iff.mpr ⟨resolved, hresolved, rfl⟩
      have hwanted : wanted resolved.catalogTableColumnId none use = true := by
        unfold wanted
        rw [hon, isCurrent_none]
        rfl
      have hnone := map_eq_nil_iff.mp (hnil kind resolved.catalogTableColumnId none)
      exact filter_eq_nil_iff.mp hnone use huse hwanted
    · intro hunresolved kind columnId target
      dsimp only
      rw [map_eq_nil_iff, filter_eq_nil_iff]
      intro use huse hwanted
      obtain ⟨resolved, hresolved, -⟩ := isOn_iff.mp (Bool.and_elim_left hwanted)
      rw [hunresolved analyzed rfl kind use huse] at hresolved
      cases hresolved

theorem answers_gone_iff (h : Answers w)
    {current : ScriptPointer → Option (AnalyzedScript Column)} (gone : ScriptPointer → Prop)
    (hgone : ∀ script, gone script → current script = none)
    (hkept : ∀ script, ¬ gone script → current script = w.current script) :
    Answers ⟨w.registry, current⟩ ↔ ∀ script, gone script →
      ∀ analyzed, w.current script = some analyzed → Unresolved analyzed := by
  rw [answers_iff] at h ⊢
  constructor
  · intro hanswers script hscript
    refine expected_eq_nil_iff.mp fun kind columnId target => ?_
    have hnil := hanswers kind columnId target script
    rw [expected_of_none (hgone script hscript), perm_nil] at hnil
    have hshown := h kind columnId target script
    dsimp only at hnil
    rw [hnil] at hshown
    exact nil_perm.mp hshown
  · intro hunresolved kind columnId target script
    by_cases hscript : gone script
    · have hshown := h kind columnId target script
      rw [expected_eq_nil_iff.mpr (hunresolved script hscript)] at hshown
      rw [expected_of_none (hgone script hscript)]
      exact hshown
    · rw [expected_congr (hkept script hscript)]
      exact h kind columnId target script

theorem shown_not_outdated_iff {registry : ScriptRegistry Column} {kind : UseKind}
    {columnId : Column} {target : Option CatalogVersion} :
    (shown registry kind columnId target script).2 = false ↔
      ∀ found ∈ (shown registry kind columnId none script).1,
        isCurrent target found.use = true := by
  unfold shown
  by_cases hindex : toLex (columnId, script) ∈ registry.columns kind
  · rw [if_pos hindex, if_pos hindex]
    unfold collectScript
    cases registry.scriptEntries script with
    | none => exact iff_of_true rfl fun _ h => (not_mem_nil h).elim
    | some analyzed =>
      dsimp only
      rw [collectUses_eq, collectUses_eq]
      dsimp only
      rw [takeWhile_eq_self_iff.mpr fun use _ => isCurrent_none use,
        Bool.not_eq_false', all_eq_true, forall_mem_map]
  · rw [if_neg hindex, if_neg hindex]
    exact iff_of_true rfl fun _ h => (not_mem_nil h).elim

theorem not_outdated_iff (h : Answers w) {kind : UseKind} {columnId : Column}
    {target : Option CatalogVersion} :
    (shown w.registry kind columnId target script).2 = false ↔
      ∀ analyzed, w.current script = some analyzed →
        ∀ use ∈ (analyzed.columnUses kind).uses, use.isOn columnId = true →
          isCurrent target use = true := by
  have hall := answers_iff.mp h kind columnId none script
  rw [shown_not_outdated_iff]
  refine (forall_congr' fun found => imp_congr_left hall.mem_iff).trans ?_
  cases hcurrent : w.current script with
  | none =>
    rw [expected_of_none hcurrent]
    exact iff_of_true (fun _ h => (not_mem_nil h).elim) fun _ h => by cases h
  | some analyzed =>
    rw [expected_of_some hcurrent]
    simp only [Option.some.injEq, forall_eq', forall_mem_map, mem_filter, wanted,
      isCurrent_none, Bool.and_true, and_imp]

theorem answers_act_iff (request : Request Column) (h : Answers w) :
    Answers (act request w) ↔ Harmless request w := by
  have hshown := answers_iff.mp h
  cases request with
  | addScript script analyzedScript =>
    cases analyzedScript with
    | none => exact iff_of_true h trivial
    | some analyzed =>
      obtain ⟨registry', hadd⟩ :
          ∃ registry', w.registry.addScript script (some analyzed) = some registry' := ⟨_, rfl⟩
      have hact : act (.addScript script (some analyzed)) w =
          ⟨registry', Function.update w.current script (some analyzed)⟩ := by
        unfold act
        dsimp only
        rw [hadd]
      have hharmless : Harmless (.addScript script (some analyzed)) w ↔ Uniform analyzed :=
        Iff.rfl
      rw [hact, hharmless, answers_iff, ← collectAnalysis_perm_iff script analyzed]
      constructor
      · intro hanswers kind columnId target
        have hfound := hanswers kind columnId target script
        rw [shown_addScript hadd, if_pos rfl, expected_of_some (update_self _ _ _)] at hfound
        exact hfound
      · intro hfound kind columnId target script'
        rw [shown_addScript hadd]
        by_cases hscript : script' = script
        · subst hscript
          rw [if_pos rfl, expected_of_some (update_self _ _ _)]
          exact hfound kind columnId target
        · rw [if_neg hscript, expected_congr (update_of_ne hscript _ _)]
          exact hshown kind columnId target script'
  | dropScript script =>
    refine (answers_gone_iff h (· = script) ?_ ?_).trans ?_
    · rintro _ rfl
      exact update_self _ _ _
    · intro script' hne
      exact update_of_ne hne _ _
    · exact forall_eq
  | clear =>
    refine (answers_gone_iff h (fun _ => True) (fun _ _ => rfl) ?_).trans ?_
    · exact fun _ hnot => (hnot trivial).elim
    · exact forall_congr' fun script => forall_prop_of_true trivial
  | find kind columnId target =>
    have hharmless : Harmless (.find kind columnId target) w ↔
        ∀ script, (shown w.registry kind columnId target script).2 = false :=
      forall_congr' fun script => (not_outdated_iff h).symm
    rw [hharmless, answers_iff]
    unfold act
    dsimp only
    constructor
    · intro hanswers script
      by_contra houtdated
      rw [Bool.not_eq_false] at houtdated
      have hhidden := hanswers kind columnId none script
      rw [shown_findColumnUses, if_pos ⟨rfl, rfl, houtdated⟩, nil_perm] at hhidden
      have hnone := hshown kind columnId none script
      rw [hhidden, perm_nil] at hnone
      have hcurrent : (shown w.registry kind columnId target script).2 = false := by
        refine shown_not_outdated_iff.mpr fun found hfound => ?_
        rw [hnone] at hfound
        exact (not_mem_nil hfound).elim
      rw [hcurrent] at houtdated
      cases houtdated
    · intro hcurrent kind' columnId' target' script
      rw [shown_findColumnUses, if_neg]
      · exact hshown kind' columnId' target' script
      · rintro ⟨-, -, houtdated⟩
        rw [hcurrent script] at houtdated
        cases houtdated

/-- The state that a sequence of requests leads to. -/
def run (requests : List (Request Column)) : World Column := replay act requests empty

/-- In the states of a run all lookups answer exactly if every request of it was harmless. -/
theorem answers_of_run_iff (requests : List (Request Column)) :
    (∀ front back, requests = front ++ back → Answers (run front)) ↔
      ReplayMeets act Harmless requests empty :=
  replay_invariant_iff Answers (fun request _ h => answers_act_iff request h) answers_empty

/-- An analysis with one filter, on a column that was resolved at a version. -/
def oneFilter (columnId : ℕ) (version : CatalogVersion) : AnalyzedScript ℕ where
  columnFilters :=
    { uses := [⟨0, some ⟨columnId, version⟩⟩]
      byCatalogEntry := fun column =>
        [(⟨0, some ⟨columnId, version⟩⟩ : ColumnUse ℕ)].filter (·.isOn column)
      byCatalogEntry_perm := fun _ => .refl _ }
  columnComputations :=
    { uses := []
      byCatalogEntry := fun _ => []
      byCatalogEntry_perm := fun _ => .refl _ }

theorem uniform_oneFilter (columnId : ℕ) (version : CatalogVersion) :
    Uniform (oneFilter columnId version) := by
  intro kind column use huse use' huse' resolved resolved' hresolved hresolved'
  have hsame : use = use' := by
    cases kind with
    | filter =>
      rw [mem_singleton.mp (mem_filter.mp huse).1, mem_singleton.mp (mem_filter.mp huse').1]
    | computation => exact (not_mem_nil (mem_filter.mp huse).1).elim
  rw [hsame, hresolved'] at hresolved
  rw [Option.some.inj hresolved]

/-- A script that was added and dropped again is still found. -/
theorem not_answers_dropScript :
    ¬ Answers (run [.addScript 1 (some (oneFilter 7 1)), .dropScript 1]) := by
  intro hanswers
  have hadded : Answers (act (.addScript 1 (some (oneFilter 7 1))) empty) :=
    (answers_act_iff _ answers_empty).mpr (uniform_oneFilter 7 1)
  have hunresolved := (answers_act_iff (.dropScript 1) hadded).mp hanswers (oneFilter 7 1) rfl
    .filter _ mem_cons_self
  cases hunresolved

end World

end DashQL.Registry
