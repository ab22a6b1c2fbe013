import DashQL.Catalog.Listed

/-!
# What the table lookups return

A lookup returns what it asks for unless a scan runs past its key: the scan of a
schema returns the other tables of the schema, the scan by name goes on to the end
of the hash map, and the scan of all entries does not skip the ignored one.
`resolveTable_sound_iff` says for each lookup when none of this happens.  The order
of the results is that of the ranks in any case.
-/

namespace DashQL.Catalog

open List

/-- A table that a lookup of the name may return. -/
structure TableDeclaration.Matches (table : TableDeclaration) (name : QualifiedTableName) : Prop where
  tableName : table.name = name.tableName
  schemaName : name.schemaName ≠ [] → table.tableName.schemaName = name.schemaName
  databaseName : name.databaseName ≠ [] → table.tableName.databaseName = name.databaseName

/-! ## Ranges of a sorted list -/

section Range

variable {α κ : Type} [LinearOrder κ] {key : α → κ} {entries : List α} {lo hi : κ}

theorem takeWhile_of_sorted (h : entries.Pairwise fun a b => key a ≤ key b) :
    entries.takeWhile (fun entry => key entry ≤ hi) = entries.filter fun entry => key entry ≤ hi := by
  induction entries with
  | nil => rfl
  | cons entry rest ih =>
    rw [pairwise_cons] at h
    by_cases hle : key entry ≤ hi
    · rw [takeWhile_cons_of_pos (by simpa using hle),
        filter_cons_of_pos (by simpa using hle), ih h.2]
    · -- nothing behind it is small enough
      rw [takeWhile_cons_of_neg (by simpa using hle),
        filter_cons_of_neg (by simpa using hle), eq_comm, filter_eq_nil_iff]
      intro other hother
      have hother := h.1 other hother
      simpa using lt_of_lt_of_le (not_le.mp hle) hother

/-- The iterators from `lower_bound` to `upper_bound` go over the keys between the two. -/
theorem range_of_sorted (h : entries.Pairwise fun a b => key a ≤ key b) :
    (entries.dropWhile fun entry => key entry < lo).takeWhile (fun entry => key entry ≤ hi) =
      entries.filter fun entry => lo ≤ key entry ∧ key entry ≤ hi := by
  induction entries with
  | nil => rfl
  | cons entry rest ih =>
    by_cases hlt : key entry < lo
    · rw [dropWhile_cons_of_pos (by simpa using hlt), ih (pairwise_cons.mp h).2, filter_cons_of_neg]
      simp [hlt]
    · have hrest : ∀ other ∈ entry :: rest, lo ≤ key other := by
        intro other hother
        rcases mem_cons.mp hother with rfl | hother
        · exact not_lt.mp hlt
        · exact (not_lt.mp hlt).trans ((pairwise_cons.mp h).1 other hother)
      rw [dropWhile_cons_of_neg (by simpa using hlt), takeWhile_of_sorted h]
      refine filter_congr fun other hother => ?_
      simp [hrest other hother]

end Range

namespace EntryTables

variable {analyzed : AnalyzedScript} (tables : EntryTables analyzed)

theorem textLb_le (text : Name) : textLb ≤ text := by
  cases text with
  | nil => exact le_refl _
  | cons byte rest => exact (nil_lt_cons byte rest).le

variable {schemaName : Name}

theorem inRange_iff {table : TableDeclaration} :
    toLex (schemaName, textLb) ≤ table.unqualifiedSchema ∧
        table.unqualifiedSchema ≤ toLex (schemaName, textUb) ↔
      table.tableName.schemaName = schemaName ∧ table.tableName.databaseName ≤ textUb := by
  unfold TableDeclaration.unqualifiedSchema
  rw [Prod.Lex.toLex_le_toLex, Prod.Lex.toLex_le_toLex]
  constructor
  · rintro ⟨hlo | ⟨rfl, -⟩, hhi | ⟨heq, hdatabase⟩⟩
    · exact absurd (hlo.trans hhi) (lt_irrefl _)
    · exact ⟨heq, hdatabase⟩
    · exact absurd hhi (lt_irrefl _)
    · exact ⟨rfl, hdatabase⟩
  · rintro ⟨rfl, hdatabase⟩
    exact ⟨.inr ⟨rfl, textLb_le _⟩, .inr ⟨rfl, hdatabase⟩⟩

theorem schemaRange_perm (schemaName : Name) :
    (tables.schemaRange schemaName).Perm (tables.tableDeclarations.filter fun table =>
      table.tableName.schemaName = schemaName ∧ schemaName ≠ [] ∧
        table.tableName.databaseName ≤ textUb) := by
  have hsorted : tables.tablesByUnqualifiedSchema.Pairwise fun table other =>
      table.unqualifiedSchema ≤ other.unqualifiedSchema :=
    pairwise_insertionSort _ _
  have hrange : tables.schemaRange schemaName = tables.tablesByUnqualifiedSchema.filter fun table =>
      toLex (schemaName, textLb) ≤ table.unqualifiedSchema ∧
        table.unqualifiedSchema ≤ toLex (schemaName, textUb) := range_of_sorted hsorted
  rw [hrange]
  have hperm := (perm_insertionSort
    (fun table other : TableDeclaration => table.unqualifiedSchema ≤ other.unqualifiedSchema)
    (tables.tableDeclarations.filter fun table => table.tableName.schemaName ≠ [])).filter
      fun table => toLex (schemaName, textLb) ≤ table.unqualifiedSchema ∧
        table.unqualifiedSchema ≤ toLex (schemaName, textUb)
  refine hperm.trans (List.Perm.of_eq ?_)
  rw [filter_filter]
  refine filter_congr fun table _ => ?_
  simp only [inRange_iff, ← Bool.decide_and]
  rw [decide_eq_decide]
  constructor
  · rintro ⟨⟨rfl, hdatabase⟩, hne⟩
    exact ⟨rfl, hne, hdatabase⟩
  · rintro ⟨rfl, hne, hdatabase⟩
    exact ⟨⟨rfl, hdatabase⟩, hne⟩

theorem mem_schemaRange {table : TableDeclaration} :
    table ∈ tables.schemaRange schemaName ↔ table ∈ tables.tableDeclarations ∧
      table.tableName.schemaName = schemaName ∧ schemaName ≠ [] ∧
        table.tableName.databaseName ≤ textUb := by
  rw [(tables.schemaRange_perm schemaName).mem_iff, mem_filter, decide_eq_true_eq]

def fromName (tableName : Name) : List TableDeclaration :=
  tables.tablesByUnqualifiedName.dropWhile fun table => table.name ≠ tableName

variable {tableName : Name}

theorem mem_of_mem_fromName {table : TableDeclaration} (h : table ∈ tables.fromName tableName) :
    table ∈ tables.tableDeclarations :=
  tables.unqualified_perm.mem_iff.mp ((dropWhile_sublist _).mem h)

theorem mem_fromName_of_name {table : TableDeclaration} (h : table ∈ tables.tableDeclarations) :
    table ∈ tables.fromName table.name := by
  have hmem := tables.unqualified_perm.mem_iff.mpr h
  rw [← takeWhile_append_dropWhile (p := fun other => decide (other.name ≠ table.name))
    (l := tables.tablesByUnqualifiedName), mem_append] at hmem
  rcases hmem with hfront | hback
  · have hne := mem_takeWhile_imp hfront
    simp at hne
  · exact hback

/-! ## Limits -/

theorem pushUpTo_eq (limit : ℕ) (found out : List TableDeclaration) :
    pushUpTo limit found out = out ++ found.take (max 1 (limit - out.length)) := by
  induction found generalizing out with
  | nil => simp [pushUpTo]
  | cons table rest ih =>
    rw [pushUpTo]
    split_ifs with hfull
    · rw [length_append, length_singleton] at hfull
      have hone : max 1 (limit - out.length) = 1 := by omega
      rw [hone]
      rfl
    · rw [length_append, length_singleton] at hfull
      have hmore : max 1 (limit - out.length) = max 1 (limit - (out.length + 1)) + 1 := by omega
      rw [ih, hmore, take_succ_cons, length_append, length_singleton, append_assoc]
      rfl

/-- A lookup with every limit returns good tables exactly if all it could find are good. -/
theorem forall_pushUpTo_iff {found : List TableDeclaration} {good : TableDeclaration → Prop} :
    (∀ limit, ∀ table ∈ pushUpTo limit found [], good table) ↔ ∀ table ∈ found, good table := by
  constructor
  · intro h table htable
    refine h found.length table ?_
    rw [pushUpTo_eq]
    cases found with
    | nil => simp at htable
    | cons first rest =>
      have hall : max 1 ((first :: rest).length - ([] : List TableDeclaration).length) =
          (first :: rest).length := by simp
      rw [hall, List.take_length]
      exact htable
  · intro h limit table htable
    rw [pushUpTo_eq, nil_append] at htable
    exact h table (mem_of_mem_take htable)

/-! ## The lookups of an entry -/

/-- In the schemas of a name, up to the databases at `TEXT_UB`, the entry declares no other
table. -/
def OnlyTable (schemaName tableName : Name) : Prop :=
  ∀ table ∈ tables.tableDeclarations, table.tableName.schemaName = schemaName → schemaName ≠ [] →
    table.tableName.databaseName ≤ textUb → table.name = tableName

/-- In the hash map no table of another name comes behind one of the name. -/
def LastInHashMap (tableName : Name) : Prop :=
  ∀ front table back, tables.tablesByUnqualifiedName = front ++ table :: back →
    table.name = tableName → ∀ other ∈ back, other.name = tableName

/-- The entry declares the table under exactly this name, or the scan that is made instead
finds no other table. -/
def Unambiguous (name : QualifiedTableName) : Prop :=
  (∃ table ∈ tables.tableDeclarations, table.tableName = name) ∨ name.databaseName ≠ [] ∨
    name.schemaName ≠ [] ∧ tables.OnlyTable name.schemaName name.tableName ∨
    name.schemaName = [] ∧ tables.LastInHashMap name.tableName

theorem onlyTable_iff :
    tables.OnlyTable schemaName tableName ↔
      ∀ table ∈ tables.schemaRange schemaName, table.name = tableName := by
  constructor
  · intro h table htable
    obtain ⟨hmem, hschema, hne, hdatabase⟩ := tables.mem_schemaRange.mp htable
    exact h table hmem hschema hne hdatabase
  · intro h table hmem hschema hne hdatabase
    exact h table (tables.mem_schemaRange.mpr ⟨hmem, hschema, hne, hdatabase⟩)

theorem lastInHashMap_iff :
    tables.LastInHashMap tableName ↔ ∀ table ∈ tables.fromName tableName, table.name = tableName := by
  have hsplit := takeWhile_append_dropWhile
    (p := fun table : TableDeclaration => decide (table.name ≠ tableName))
    (l := tables.tablesByUnqualifiedName)
  constructor
  · intro h table htable
    have hfrom : tables.fromName tableName = tables.tablesByUnqualifiedName.dropWhile
        fun table => table.name ≠ tableName := rfl
    cases hrest : tables.fromName tableName with
    | nil => simp [hrest] at htable
    | cons first rest =>
      have hfirst : first.name = tableName := by
        have hhead := head?_dropWhile_not
          (fun table : TableDeclaration => decide (table.name ≠ tableName))
          tables.tablesByUnqualifiedName
        rw [← hfrom, hrest] at hhead
        simpa using hhead
      rw [hrest] at htable
      rcases mem_cons.mp htable with rfl | htable
      · exact hfirst
      · rw [← hfrom, hrest] at hsplit
        exact h _ first rest hsplit.symm hfirst table htable
  · intro h front table back heq hname other hother
    apply h
    unfold fromName
    rw [heq]
    -- the scan starts at the table or in front of it
    clear heq hsplit h
    induction front with
    | nil =>
      rw [nil_append, dropWhile_cons_of_neg (by simp [hname])]
      exact mem_cons_of_mem _ hother
    | cons first front ih =>
      by_cases hfirst : first.name = tableName
      · rw [cons_append, dropWhile_cons_of_neg (by simp [hfirst])]
        simp [hother]
      · rw [cons_append, dropWhile_cons_of_pos (by simpa using hfirst)]
        exact ih

/-- `ResolveTableInSchema` returns what it is asked for exactly if there is no other table. -/
theorem resolveTableInSchema_sound_iff :
    (∀ limit, ∀ table ∈ tables.resolveTableInSchema schemaName tableName limit [],
        table.Matches ⟨[], schemaName, tableName⟩) ↔
      tables.OnlyTable schemaName tableName := by
  unfold resolveTableInSchema
  rw [forall_pushUpTo_iff, onlyTable_iff]
  refine forall₂_congr fun table htable => ⟨fun h => h.tableName, fun h => ⟨h, ?_, ?_⟩⟩
  · intro _
    exact (tables.mem_schemaRange.mp htable).2.1
  · intro hne
    exact absurd rfl hne

theorem resolveTableEverywhere_sound_iff :
    (∀ limit, ∀ table ∈ tables.resolveTableEverywhere tableName limit [],
        table.Matches ⟨[], [], tableName⟩) ↔
      tables.LastInHashMap tableName := by
  unfold resolveTableEverywhere
  rw [forall_pushUpTo_iff, lastInHashMap_iff]
  refine forall₂_congr fun table htable => ⟨fun h => h.tableName, fun h => ⟨h, ?_, ?_⟩⟩
  · intro hne
    exact absurd rfl hne
  · intro hne
    exact absurd rfl hne

theorem findQualifiedName_eq_some {name : QualifiedTableName} {table : TableDeclaration}
    (h : tables.findQualifiedName name = some table) :
    table ∈ tables.tableDeclarations ∧ table.tableName = name :=
  ⟨mem_of_find?_eq_some h, by simpa using find?_some h⟩

theorem findQualifiedName_eq_none_iff {name : QualifiedTableName} :
    tables.findQualifiedName name = none ↔
      ¬ ∃ table ∈ tables.tableDeclarations, table.tableName = name := by
  simp [findQualifiedName, find?_eq_none]

theorem matches_of_eq {table : TableDeclaration} {name : QualifiedTableName}
    (h : table.tableName = name) : table.Matches name := by
  subst h
  exact ⟨rfl, fun _ => rfl, fun _ => rfl⟩

/-- `CatalogEntry::ResolveTable` returns what it is asked for exactly if the name is
unambiguous in the entry. -/
theorem resolveTable_sound_iff {name : QualifiedTableName} :
    (∀ limit, ∀ table ∈ tables.resolveTable name limit [], table.Matches name) ↔
      tables.Unambiguous name := by
  unfold resolveTable Unambiguous
  cases hfind : tables.findQualifiedName name with
  | some table =>
    obtain ⟨hmem, hname⟩ := tables.findQualifiedName_eq_some hfind
    have hdirect : ∃ table ∈ tables.tableDeclarations, table.tableName = name :=
      ⟨table, hmem, hname⟩
    refine iff_of_true ?_ (.inl hdirect)
    intro _ other hother
    have hother : other ∈ [table] := hother
    rw [mem_singleton.mp hother]
    exact matches_of_eq hname
  | none =>
    rw [or_iff_right (tables.findQualifiedName_eq_none_iff.mp hfind)]
    dsimp only
    obtain ⟨databaseName, schemaName, tableName⟩ := name
    dsimp only
    by_cases hdatabase : databaseName = []
    · by_cases hschema : schemaName = []
      · subst hdatabase hschema
        simpa using tables.resolveTableEverywhere_sound_iff
      · subst hdatabase
        simpa [hschema] using tables.resolveTableInSchema_sound_iff
    · simp [hdatabase]

end EntryTables

end DashQL.Catalog
