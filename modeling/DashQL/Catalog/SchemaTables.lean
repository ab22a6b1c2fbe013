import DashQL.Catalog.ResolveTable

/-!
# The tables of a schema, through the catalog

`ResolveSchemaTablesWithCatalog` returns no table twice, and none that is not
declared in the schema.  It misses a table that lies behind one of its bounds: the
index has no tables without a schema, `TEXT_UB` is not above every name of a
database, and an entry that `entries_by_schema` has lost is not visited.
-/

namespace DashQL.Catalog

open List

section Declared

variable (tables : ∀ analyzed : AnalyzedScript, EntryTables analyzed) (catalog : Catalog)
  (own : AnalyzedScript) (schemaName : Name)

/-- The table is declared in a schema of that name, in any database, by the entry itself or
by another loaded one. -/
def DeclaredInSchema (table : TableDeclaration) : Prop :=
  table.tableName.schemaName = schemaName ∧
    (table ∈ (tables own).tableDeclarations ∨
      ∃ entryId analyzed, catalog.entries[entryId]? = some analyzed ∧
        entryId ≠ own.catalogEntryId ∧ table ∈ (tables analyzed).tableDeclarations)

/-- The bounds of the lookup do not cut the table off, and its entry is visited. -/
structure WithinBounds (table : TableDeclaration) : Prop where
  schemaName : table.tableName.schemaName ≠ []
  databaseName : table.tableName.databaseName ≤ EntryTables.textUb
  listed : table.objectId.origin = own.catalogEntryId ∨
    ∃ rank, schemaKey table.tableName.schemaName rank table.objectId.origin ∈
      catalog.entriesBySchema

end Declared

/-! ## No table twice -/

theorem EntryTables.nodup_tableDeclarations {analyzed : AnalyzedScript}
    (tables : EntryTables analyzed) : tables.tableDeclarations.Nodup := by
  rw [nodup_iff_injective_getElem]
  intro i j heq
  have hi := tables.table_id i _ (getElem?_eq_getElem i.isLt)
  have hj := tables.table_id j _ (getElem?_eq_getElem j.isLt)
  have hid := hi.symm.trans ((congrArg TableDeclaration.objectId heq).trans hj)
  exact Fin.ext (congrArg CatalogTableId.object hid)

theorem EntryTables.nodup_schemaRange {analyzed : AnalyzedScript} (tables : EntryTables analyzed)
    (schemaName : Name) : (tables.schemaRange schemaName).Nodup :=
  (tables.schemaRange_perm schemaName).nodup_iff.mpr (tables.nodup_tableDeclarations.filter _)

section Lookup

variable {tables : ∀ analyzed : AnalyzedScript, EntryTables analyzed} {catalog : Catalog}
  {entryIdOf : ScriptAddress → CatalogEntryId} {own : AnalyzedScript} {schemaName : Name}

theorem exists_mapM_entries {entries : List (Rank × CatalogEntryId)}
    (hloaded : ∀ entry ∈ entries, ∃ analyzed, catalog.entries[entry.2]? = some analyzed) :
    ∃ found, entries.mapM (fun entry => catalog.entries[entry.2]?) = some found ∧
      ∀ range : AnalyzedScript → List TableDeclaration,
        found.flatMap range = entries.flatMap (foundAt catalog range) := by
  induction entries with
  | nil => exact ⟨[], rfl, fun _ => rfl⟩
  | cons entry rest ih =>
    obtain ⟨analyzed, hentry⟩ := hloaded entry mem_cons_self
    obtain ⟨found, hfound, hrange⟩ := ih fun other hother =>
      hloaded other (mem_cons_of_mem _ hother)
    refine ⟨analyzed :: found, ?_, fun range => ?_⟩
    · rw [mapM_cons, hentry, hfound]
      rfl
    · have hhere : foundAt catalog range entry = range analyzed := by simp [foundAt, hentry]
      rw [flatMap_cons, flatMap_cons, hrange, hhere]

/-- Two visited entries have no table in common. -/
theorem nodup_flatMap_foundAt (h : Consistent catalog entryIdOf)
    {entries : List (Rank × CatalogEntryId)} (hvisited : Visited catalog entries) :
    (entries.flatMap
      (foundAt catalog fun analyzed => (tables analyzed).schemaRange schemaName)).Nodup := by
  rw [nodup_flatMap]
  constructor
  · intro entry _
    unfold foundAt
    cases hentry : catalog.entries[entry.2]? with
    | none => exact nodup_nil
    | some analyzed => exact (tables analyzed).nodup_schemaRange schemaName
  · have horigin : ∀ entry table, table ∈ foundAt catalog
        (fun analyzed => (tables analyzed).schemaRange schemaName) entry →
        table.objectId.origin = entry.2 := by
      intro entry table htable
      obtain ⟨analyzed, hentry, hmem⟩ := mem_foundAt.mp htable
      rw [(tables analyzed).origin_eq ((tables analyzed).mem_schemaRange.mp hmem).1]
      exact (h.exists_rank hentry).1
    refine hvisited.nodup.imp_of_mem ?_
    intro entry other hentry hother hne table htable htable'
    -- an entry with one id has one rank
    have hid : entry.2 = other.2 := (horigin entry table htable).symm.trans
      (horigin other table htable')
    have hrank := hvisited.ranked entry hentry
    rw [hid] at hrank
    exact hne (Prod.ext (h.rank_unique hrank (hvisited.ranked other hother)) hid)

theorem resolveSchemaTables_spec (h : Consistent catalog entryIdOf)
    (hsound : SchemaIndexSound catalog) :
    ∃ out, catalog.resolveSchemaTablesWithCatalog tables own schemaName = some out ∧
      (out.map Prod.fst).Nodup ∧
      ∀ table, table ∈ out.map Prod.fst ↔
        DeclaredInSchema tables catalog own schemaName table ∧ WithinBounds catalog own table := by
  have hvisited := (visited_entriesOfSchema h hsound schemaName).filter
    fun entry => entry.2 ≠ own.catalogEntryId
  obtain ⟨found, hfound, hrange⟩ := exists_mapM_entries (hvisited.loaded h)
  have hnodup := @nodup_flatMap_foundAt tables catalog entryIdOf schemaName h _ hvisited
  rw [← hrange] at hnodup
  have hothers : ∀ table, table ∈ (found.flatMap fun entry =>
      (tables entry).schemaRange schemaName) ↔
      ∃ rank entryId analyzed, schemaKey schemaName rank entryId ∈ catalog.entriesBySchema ∧
        entryId ≠ own.catalogEntryId ∧ catalog.entries[entryId]? = some analyzed ∧
        table ∈ (tables analyzed).schemaRange schemaName := by
    intro table
    rw [hrange, mem_flatMap]
    constructor
    · rintro ⟨⟨rank, entryId⟩, hmem, htable⟩
      obtain ⟨hkey, hne⟩ := mem_filter.mp hmem
      obtain ⟨analyzed, hentry, htable⟩ := mem_foundAt.mp htable
      exact ⟨rank, entryId, analyzed, mem_entriesOfSchema.mp hkey, by simpa using hne, hentry,
        htable⟩
    · rintro ⟨rank, entryId, analyzed, hkey, hne, hentry, htable⟩
      exact ⟨(rank, entryId), mem_filter.mpr ⟨mem_entriesOfSchema.mpr hkey, by simpa using hne⟩,
        mem_foundAt.mpr ⟨analyzed, hentry, htable⟩⟩
  have hout : ∀ tables others : List TableDeclaration,
      (tables.map (·, false) ++ others.map (·, true)).map Prod.fst = tables ++ others := by
    intro tables others
    simp [Function.comp_def]
  refine ⟨_, by rw [resolveSchemaTablesWithCatalog, hfound]; rfl, ?_, ?_⟩
  · rw [hout, nodup_append']
    refine ⟨(tables own).nodup_schemaRange schemaName, hnodup, ?_⟩
    intro table hown hother
    obtain ⟨rank, entryId, analyzed, -, hne, hentry, htable⟩ := (hothers table).mp hother
    have horigin := (tables own).origin_eq ((tables own).mem_schemaRange.mp hown).1
    rw [(tables analyzed).origin_eq ((tables analyzed).mem_schemaRange.mp htable).1,
      (h.exists_rank hentry).1] at horigin
    exact hne horigin
  · intro table
    rw [hout, mem_append, hothers, EntryTables.mem_schemaRange]
    constructor
    · rintro (⟨hmem, rfl, hne, hdatabase⟩ | ⟨rank, entryId, analyzed, hkey, hother, hentry, hmem⟩)
      · exact ⟨⟨rfl, .inl hmem⟩, hne, hdatabase, .inl ((tables own).origin_eq hmem)⟩
      · obtain ⟨hdeclared, rfl, hne, hdatabase⟩ := (tables analyzed).mem_schemaRange.mp hmem
        have horigin : table.objectId.origin = entryId :=
          ((tables analyzed).origin_eq hdeclared).trans (h.exists_rank hentry).1
        refine ⟨⟨rfl, .inr ⟨entryId, analyzed, hentry, hother, hdeclared⟩⟩, hne, hdatabase,
          .inr ⟨rank, ?_⟩⟩
        rw [horigin]
        exact hkey
    · rintro ⟨⟨rfl, hmem | ⟨entryId, analyzed, hentry, hother, hmem⟩⟩, hbounds⟩
      · exact .inl ⟨hmem, rfl, hbounds.schemaName, hbounds.databaseName⟩
      · have horigin : table.objectId.origin = entryId :=
          ((tables analyzed).origin_eq hmem).trans (h.exists_rank hentry).1
        have hlisted := hbounds.listed
        rw [horigin] at hlisted
        obtain ⟨rank, hkey⟩ := hlisted.resolve_left hother
        exact .inr ⟨rank, entryId, analyzed, hkey, hother, hentry,
          (tables analyzed).mem_schemaRange.mpr ⟨hmem, rfl, hbounds.schemaName,
            hbounds.databaseName⟩⟩

end Lookup

/-- In every state of every run, an entry gets the tables of a schema, each once, exactly if
none of them lies outside the bounds of the lookup. -/
theorem schemaTables_exact_iff (address : ℕ) (catalogOf : ScriptAddress → ℕ)
    (entryIdOf : ScriptAddress → CatalogEntryId) (events : List Event)
    (tables : ∀ analyzed : AnalyzedScript, EntryTables analyzed) (own : AnalyzedScript)
    (schemaName : Name) :
    let catalog := ((World.initial address catalogOf entryIdOf).run events).catalog
    (∃ out, catalog.resolveSchemaTablesWithCatalog tables own schemaName = some out ∧
        (out.map Prod.fst).Nodup ∧
        ∀ table, table ∈ out.map Prod.fst ↔ DeclaredInSchema tables catalog own schemaName table) ↔
      ∀ table, DeclaredInSchema tables catalog own schemaName table →
        WithinBounds catalog own table := by
  intro catalog
  obtain ⟨⟨entryIdOf', hconsistent⟩, hsound⟩ :=
    World.lookupsReady_of_run address catalogOf entryIdOf events
  obtain ⟨out, hout, hnodup, hmem⟩ := @resolveSchemaTables_spec tables catalog entryIdOf' own
    schemaName hconsistent hsound
  constructor
  · rintro ⟨out', hout', -, hexact⟩ table htable
    rw [hout] at hout'
    obtain rfl := Option.some.inj hout'
    exact ((hmem table).mp ((hexact table).mpr htable)).2
  · intro hbounds
    refine ⟨out, hout, hnodup, fun table => ?_⟩
    rw [hmem]
    exact and_iff_left_of_imp (hbounds table)

/-! ## A database above `TEXT_UB` -/

/-- Script 1 references the schema `a` of the database `é`. -/
def accentedRun : Catalog :=
  ((World.initial 0 (fun _ => 0) id).run [.analyze 1 [([0xC3, 0xA9], [97])], .load 1 0]).catalog

/-- The script declares the table `t` in the schema `a`; another entry does not get it. -/
theorem schemaTables_miss_accented :
    let own := AnalyzedScript.empty 9 2
    accentedRun.resolveSchemaTablesWithCatalog (tablesNamed [[116]]) own [97] = some [] ∧
      ∃ table, DeclaredInSchema (tablesNamed [[116]]) accentedRun own [97] table := by
  intro own
  have hout : accentedRun.resolveSchemaTablesWithCatalog (tablesNamed [[116]]) own [97] =
      some [] := by
    decide +kernel
  have hdeclared : (accentedRun.entries[1]?).any (fun analyzed =>
      (declarationsNamed [[116]] analyzed).any
        fun table => table.tableName.schemaName = [97]) = true := by
    decide +kernel
  obtain ⟨analyzed, hentry, hany⟩ := (Option.any_eq_true _ _).mp hdeclared
  obtain ⟨table, htable, hname⟩ := any_eq_true.mp hany
  exact ⟨hout, table, of_decide_eq_true hname, .inr ⟨1, analyzed, hentry, by decide, htable⟩⟩

end DashQL.Catalog
