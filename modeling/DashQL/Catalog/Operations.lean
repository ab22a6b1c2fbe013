import DashQL.Catalog.Declare

/-!
# What each operation does to each map

`UpdateScript` walks the difference between two analyses and patches four maps.
This file says, map by map, which keys the patched map has, in terms of the
references of the two analyses; the invariants of the catalog are derived from
these statements without looking into the loops again.

The two lower-bound probes of `UpdateScript` are prefix searches:
`hasQualifiedSchema_iff` and `hasDatabase_iff`.
-/

namespace DashQL.Catalog

open List
open OrderedMap (mem_foldl_erase mem_foldl_insertIfNew mem_iff_exists_getElem? mem_of_getElem?)

/-! ## Prefix searches in the qualified index -/

variable {entryId : CatalogEntryId}

theorem qualifiedSchemaKey_le_iff {database database' schema schema' : Name} {rank rank' : Rank}
    {entryId' : CatalogEntryId} :
    qualifiedSchemaKey database schema rank entryId ≤
        qualifiedSchemaKey database' schema' rank' entryId' ↔
      database < database' ∨ database = database' ∧
        (schema < schema' ∨ schema = schema' ∧ (rank < rank' ∨ rank = rank' ∧ entryId ≤ entryId')) := by
  simp only [qualifiedSchemaKey, Prod.Lex.toLex_le_toLex]

theorem exists_eq_qualifiedSchemaKey (key : QualifiedSchemaKey) :
    ∃ database schema rank entryId, key = qualifiedSchemaKey database schema rank entryId :=
  ⟨_, _, _, _, rfl⟩

theorem schemaProbe_le {database schema : Name} {rank : Rank} :
    qualifiedSchemaKey database schema 0 0 ≤ qualifiedSchemaKey database schema rank entryId := by
  rw [qualifiedSchemaKey_le_iff]
  refine Or.inr ⟨rfl, Or.inr ⟨rfl, ?_⟩⟩
  rcases Nat.eq_zero_or_pos rank with rfl | hpos
  · exact Or.inr ⟨rfl, Nat.zero_le _⟩
  · exact Or.inl hpos

theorem databaseProbe_le {database schema : Name} {rank : Rank} :
    qualifiedSchemaKey database [] 0 0 ≤ qualifiedSchemaKey database schema rank entryId := by
  cases schema with
  | nil => exact schemaProbe_le
  | cons byte rest =>
    rw [qualifiedSchemaKey_le_iff]
    exact Or.inr ⟨rfl, Or.inl (nil_lt_cons byte rest)⟩

section Probe

variable {index : OrderedMap QualifiedSchemaKey CatalogSchemaEntryInfo} {database schema : Name}

theorem hasDatabase_iff :
    hasDatabase index database = true ↔
      ∃ schema rank entryId, qualifiedSchemaKey database schema rank entryId ∈ index := by
  have hgroup := OrderedMap.exists_lowerBound_iff index (qualifiedSchemaKey database [] 0 0)
    (fun key => (ofLex key).1 = database) ?_ ?_
  · unfold hasDatabase
    constructor
    · intro hfound
      split at hfound
      · exact absurd hfound Bool.false_ne_true
      · next key info hlower =>
          obtain ⟨key, hkey, hname⟩ := hgroup.mp ⟨_, hlower, of_decide_eq_true hfound⟩
          obtain ⟨_, schema, rank, entryId, rfl⟩ := exists_eq_qualifiedSchemaKey key
          cases hname
          exact ⟨schema, rank, entryId, hkey⟩
    · rintro ⟨schema, rank, entryId, hkey⟩
      obtain ⟨entry, hlower, hname⟩ := hgroup.mpr ⟨_, hkey, rfl⟩
      simpa [hlower] using hname
  · intro key hname
    obtain ⟨_, schema, rank, entryId, rfl⟩ := exists_eq_qualifiedSchemaKey key
    cases hname
    exact databaseProbe_le
  · intro lower key hprobe hle hname
    obtain ⟨_, schema, rank, entryId, rfl⟩ := exists_eq_qualifiedSchemaKey key
    obtain ⟨_, schema', rank', entryId', rfl⟩ := exists_eq_qualifiedSchemaKey lower
    cases hname
    rw [qualifiedSchemaKey_le_iff] at hprobe hle
    rcases hprobe with hlt | ⟨heq, -⟩
    · rcases hle with hlt' | ⟨rfl, -⟩
      · exact absurd hlt' hlt.asymm
      · exact absurd hlt (lt_irrefl _)
    · exact heq.symm

theorem hasQualifiedSchema_iff :
    hasQualifiedSchema index database schema = true ↔
      ∃ rank entryId, qualifiedSchemaKey database schema rank entryId ∈ index := by
  have hgroup := OrderedMap.exists_lowerBound_iff index (qualifiedSchemaKey database schema 0 0)
    (fun key => (ofLex key).1 = database ∧ (ofLex (ofLex key).2).1 = schema) ?_ ?_
  · unfold hasQualifiedSchema
    constructor
    · intro hfound
      split at hfound
      · exact absurd hfound Bool.false_ne_true
      · next key info hlower =>
          obtain ⟨key, hkey, hnames⟩ := hgroup.mp ⟨_, hlower, of_decide_eq_true hfound⟩
          obtain ⟨_, _, rank, entryId, rfl⟩ := exists_eq_qualifiedSchemaKey key
          obtain ⟨rfl, rfl⟩ := hnames
          exact ⟨rank, entryId, hkey⟩
    · rintro ⟨rank, entryId, hkey⟩
      obtain ⟨entry, hlower, hnames⟩ := hgroup.mpr ⟨_, hkey, rfl, rfl⟩
      simpa [hlower] using hnames
  · intro key hnames
    obtain ⟨_, _, rank, entryId, rfl⟩ := exists_eq_qualifiedSchemaKey key
    obtain ⟨rfl, rfl⟩ := hnames
    exact schemaProbe_le
  · intro lower key hprobe hle hnames
    obtain ⟨_, _, rank, entryId, rfl⟩ := exists_eq_qualifiedSchemaKey key
    obtain ⟨_, _, rank', entryId', rfl⟩ := exists_eq_qualifiedSchemaKey lower
    obtain ⟨rfl, rfl⟩ := hnames
    rw [qualifiedSchemaKey_le_iff] at hprobe hle
    -- the key lies between two keys of the schema, so both names agree
    rcases hprobe with hlt | ⟨heq, hlt | ⟨heq', -⟩⟩
    · rcases hle with hlt' | ⟨rfl, -⟩
      · exact absurd hlt' hlt.asymm
      · exact absurd hlt (lt_irrefl _)
    · rcases hle with hlt' | ⟨-, hlt' | ⟨rfl, -⟩⟩
      · exact absurd (heq ▸ hlt') (lt_irrefl _)
      · exact absurd hlt' hlt.asymm
      · exact absurd hlt (lt_irrefl _)
    · exact ⟨heq.symm, heq'.symm⟩

end Probe

/-! ## Keys of a list of references -/

variable {refs : List SchemaReference}

theorem exists_qualifiedKey_iff {rank rank' : Rank} {entryId' : CatalogEntryId}
    {database schema : Name} :
    (∃ ref ∈ refs, qualifiedSchemaKey ref.databaseName ref.schemaName rank entryId =
        qualifiedSchemaKey database schema rank' entryId') ↔
      (rank' = rank ∧ entryId' = entryId) ∧
        ∃ ref ∈ refs, ref.key = qualifiedSchema database schema := by
  simp only [qualifiedSchemaKey, SchemaReference.key, qualifiedSchema_inj, toLex_inj, Prod.mk.injEq]
  constructor
  · rintro ⟨ref, href, hdatabase, hschema, hrank, hentry⟩
    exact ⟨⟨hrank.symm, hentry.symm⟩, ref, href, hdatabase, hschema⟩
  · rintro ⟨⟨hrank, hentry⟩, ref, href, hdatabase, hschema⟩
    exact ⟨ref, href, hdatabase, hschema, hrank.symm, hentry.symm⟩

theorem exists_schemaKey_iff {rank rank' : Rank} {entryId' : CatalogEntryId} {schema : Name} :
    (∃ ref ∈ refs, schemaKey ref.schemaName rank entryId = schemaKey schema rank' entryId') ↔
      (rank' = rank ∧ entryId' = entryId) ∧
        ∃ database, ∃ ref ∈ refs, ref.key = qualifiedSchema database schema := by
  simp only [schemaKey, SchemaReference.key, qualifiedSchema_inj, toLex_inj, Prod.mk.injEq]
  constructor
  · rintro ⟨ref, href, hschema, hrank, hentry⟩
    exact ⟨⟨hrank.symm, hentry.symm⟩, ref.databaseName, ref, href, rfl, hschema⟩
  · rintro ⟨⟨hrank, hentry⟩, database, ref, href, -, hschema⟩
    exact ⟨ref, href, hschema, hrank.symm, hentry.symm⟩

theorem exists_schemasMissingFrom_iff {analyzed other : AnalyzedScript} {key : QualifiedSchema} :
    (∃ ref ∈ analyzed.schemasMissingFrom other, ref.key = key) ↔
      key ∈ analyzed.schemasByQualifiedName ∧ key ∉ other.schemasByQualifiedName := by
  rw [← exists_schemaReference_iff]
  unfold AnalyzedScript.schemasMissingFrom
  constructor
  · rintro ⟨ref, href, rfl⟩
    obtain ⟨hmem, hmissing⟩ := mem_filter.mp href
    exact ⟨⟨ref, hmem, rfl⟩, of_decide_eq_true hmissing⟩
  · rintro ⟨⟨ref, href, rfl⟩, hmissing⟩
    exact ⟨ref, mem_filter.mpr ⟨href, decide_eq_true hmissing⟩, rfl⟩

theorem schemasMissingFrom_nodup (analyzed other : AnalyzedScript) :
    ((analyzed.schemasMissingFrom other).map SchemaReference.key).Nodup :=
  (schemaReferences_nodup analyzed).sublist (filter_sublist.map _)

/-! ## The loops, field by field -/

theorem foldl_insertSchemaKeys (entryId : CatalogEntryId) (rank : Rank)
    (refs : List SchemaReference) : ∀ catalog : Catalog,
    refs.foldl (fun catalog ref => catalog.insertSchemaKeys entryId rank ref) catalog =
      { catalog with
        entriesByQualifiedSchema := refs.foldl (fun index ref => index.insertIfNew
          (qualifiedSchemaKey ref.databaseName ref.schemaName rank entryId)
          ⟨entryId, ref.objectId⟩) catalog.entriesByQualifiedSchema
        entriesBySchema := refs.foldl (fun index ref => index.insertIfNew
          (schemaKey ref.schemaName rank entryId) ⟨entryId, ref.objectId⟩)
          catalog.entriesBySchema } := by
  induction refs with
  | nil => intro _; rfl
  | cons ref rest ih => intro catalog; rw [foldl_cons, ih]; rfl

theorem foldl_insertSchema (entryId : CatalogEntryId) (rank : Rank)
    (refs : List SchemaReference) : ∀ catalog : Catalog,
    refs.foldl (fun catalog ref => catalog.insertSchema entryId rank ref) catalog =
      { refs.foldl (fun catalog ref => catalog.insertSchemaKeys entryId rank ref) catalog with
        schemas := refs.foldl (fun schemas ref => schemas.insertIfNew ref.key ref)
          catalog.schemas } := by
  induction refs with
  | nil => intro _; rfl
  | cons ref rest ih =>
    intro catalog
    rw [foldl_cons, ih, foldl_insertSchemaKeys, foldl_insertSchemaKeys]
    rfl

/-- Dropping schemas erases their keys from both indexes; beyond that it touches
only the declarations. -/
theorem foldl_dropSchema (entryId : CatalogEntryId) (rank : Rank) (refs : List SchemaReference) :
    ∀ catalog : Catalog,
    let dropped := refs.foldl (fun catalog ref => catalog.dropSchema entryId rank ref) catalog
    dropped = { catalog with
      entriesByQualifiedSchema := refs.foldl (fun index ref => index.erase
        (qualifiedSchemaKey ref.databaseName ref.schemaName rank entryId))
        catalog.entriesByQualifiedSchema
      entriesBySchema := refs.foldl (fun index ref => index.erase
        (schemaKey ref.schemaName rank entryId)) catalog.entriesBySchema
      schemas := dropped.schemas } := by
  induction refs with
  | nil => intro _; rfl
  | cons ref rest ih =>
    intro catalog
    have hrest := ih (catalog.dropSchema entryId rank ref)
    rw [foldl_cons]
    rw [hrest]
    rfl

/-! ## Which declarations survive dropping schemas -/

/-- Erasing the keys of other schemas keeps a schema alive or dead. -/
theorem hasQualifiedSchema_foldl_erase {rank : Rank} {database schema : Name}
    (hother : ∀ ref ∈ refs, ref.key ≠ qualifiedSchema database schema)
    (index : OrderedMap QualifiedSchemaKey CatalogSchemaEntryInfo) :
    hasQualifiedSchema (refs.foldl (fun index ref => index.erase
        (qualifiedSchemaKey ref.databaseName ref.schemaName rank entryId)) index) database schema =
      hasQualifiedSchema index database schema := by
  rw [Bool.eq_iff_iff, hasQualifiedSchema_iff, hasQualifiedSchema_iff]
  refine exists_congr fun rank' => exists_congr fun entryId' => ?_
  rw [mem_foldl_erase, and_iff_right_iff_imp]
  intro _ hexists
  obtain ⟨-, other, hmem, hkey⟩ := exists_qualifiedKey_iff.mp hexists
  exact hother other hmem hkey

variable {declaration : SchemaReference}

/-- A declaration survives unless its schema is dropped and no key of the schema
is left in the qualified index. -/
theorem schemas_foldl_dropSchema_eq_some_iff {rank : Rank} {database schema : Name} :
    ∀ catalog : Catalog, (refs.map SchemaReference.key).Nodup →
    ((refs.foldl (fun catalog ref => catalog.dropSchema entryId rank ref) catalog).schemas[
        qualifiedSchema database schema]? = some declaration ↔
      catalog.schemas[qualifiedSchema database schema]? = some declaration ∧
        ((∀ ref ∈ refs, ref.key ≠ qualifiedSchema database schema) ∨
          hasQualifiedSchema (refs.foldl (fun catalog ref => catalog.dropSchema entryId rank ref)
            catalog).entriesByQualifiedSchema database schema = true)) := by
  induction refs with
  | nil => intro catalog _; simp
  | cons ref rest ih =>
    intro catalog hnodup
    rw [map_cons, nodup_cons] at hnodup
    have hrest := ih (catalog.dropSchema entryId rank ref) hnodup.2
    have hindex := congrArg Catalog.entriesByQualifiedSchema
      (foldl_dropSchema entryId rank rest (catalog.dropSchema entryId rank ref))
    rw [foldl_cons]
    dsimp only at hindex
    rw [hrest, forall_mem_cons]
    by_cases hkey : ref.key = qualifiedSchema database schema
    · -- no later reference has this key, so the probe sees what is left at the end
      have hother : ∀ other ∈ rest, other.key ≠ qualifiedSchema database schema := by
        intro other hmem heq
        exact hnodup.1 (hkey.trans heq.symm ▸ mem_map_of_mem hmem)
      rw [hindex, hasQualifiedSchema_foldl_erase hother]
      unfold dropSchema
      obtain ⟨rfl, rfl⟩ := qualifiedSchema_inj.mp hkey
      dsimp only
      split
      · next halive => simp [halive]
      · next hdead => simp [hdead, SchemaReference.key]
    · have hsame : (catalog.dropSchema entryId rank ref).schemas[qualifiedSchema database schema]? =
          catalog.schemas[qualifiedSchema database schema]? := by
        unfold dropSchema
        dsimp only
        split
        · rfl
        · exact OrderedMap.getElem?_erase_of_ne (Ne.symm hkey)
      rw [hsame]
      simp [hkey]

/-! ## The operations, map by map -/

theorem registerEntry_eq (catalog : Catalog) (self : ScriptAddress) (analyzed : AnalyzedScript)
    (rank : Rank) :
    catalog.registerEntry self analyzed rank = { catalog with
      version := catalog.version + 1
      entries := catalog.entries.insertIfNew analyzed.catalogEntryId analyzed
      scriptEntries := catalog.scriptEntries.insertIfNew self ⟨analyzed, rank⟩
      entriesRanked := catalog.entriesRanked.insertIfNew (toLex (rank, analyzed.catalogEntryId)) ()
      entriesByQualifiedSchema := analyzed.schemaReferences.foldl
        (fun index ref => index.insertIfNew
          (qualifiedSchemaKey ref.databaseName ref.schemaName rank analyzed.catalogEntryId)
          ⟨analyzed.catalogEntryId, ref.objectId⟩) catalog.entriesByQualifiedSchema
      entriesBySchema := analyzed.schemaReferences.foldl
        (fun index ref => index.insertIfNew
          (schemaKey ref.schemaName rank analyzed.catalogEntryId)
          ⟨analyzed.catalogEntryId, ref.objectId⟩) catalog.entriesBySchema } := by
  unfold registerEntry
  dsimp only
  rw [foldl_insertSchemaKeys]

section Update

variable {catalog : Catalog} {self : ScriptAddress} {entry : ScriptEntry}
  {entryId : CatalogEntryId} {analyzed : AnalyzedScript}

theorem updateScript_status : (catalog.updateScript self entry entryId analyzed).2 = .ok := by
  unfold updateScript
  dsimp only
  split <;> rfl

theorem updateScript_of_same (hsame : entry.analyzed.address = analyzed.address) :
    catalog.updateScript self entry entryId analyzed = (catalog, .ok) := by
  unfold updateScript
  exact if_pos hsame

/-- The catalog after the schemas that are no longer referenced are dropped. -/
def dropMissingSchemas (catalog : Catalog) (entry : ScriptEntry) (entryId : CatalogEntryId)
    (analyzed : AnalyzedScript) : Catalog :=
  (entry.analyzed.schemasMissingFrom analyzed).foldl
    (fun catalog ref => catalog.dropSchema entryId entry.rank ref)
    (catalog.insertNewDatabases entry.analyzed analyzed)

/-- The qualified index after `UpdateScript` patched it. -/
def patchedIndex (catalog : Catalog) (entry : ScriptEntry) (entryId : CatalogEntryId)
    (analyzed : AnalyzedScript) : OrderedMap QualifiedSchemaKey CatalogSchemaEntryInfo :=
  (analyzed.schemasMissingFrom entry.analyzed).foldl
    (fun index ref => index.insertIfNew
      (qualifiedSchemaKey ref.databaseName ref.schemaName entry.rank entryId)
      ⟨entryId, ref.objectId⟩)
    ((entry.analyzed.schemasMissingFrom analyzed).foldl (fun index ref => index.erase
      (qualifiedSchemaKey ref.databaseName ref.schemaName entry.rank entryId))
      catalog.entriesByQualifiedSchema)

theorem updateScript_of_changed (hchanged : entry.analyzed.address ≠ analyzed.address) :
    (catalog.updateScript self entry entryId analyzed).1 = { catalog with
      version := catalog.version + 1
      entries := catalog.entries.insert entryId analyzed
      scriptEntries := catalog.scriptEntries.insert self { entry with analyzed := analyzed }
      entriesByQualifiedSchema := catalog.patchedIndex entry entryId analyzed
      entriesBySchema := (analyzed.schemasMissingFrom entry.analyzed).foldl
        (fun index ref => index.insertIfNew (schemaKey ref.schemaName entry.rank entryId)
          ⟨entryId, ref.objectId⟩)
        ((entry.analyzed.schemasMissingFrom analyzed).foldl (fun index ref => index.erase
          (schemaKey ref.schemaName entry.rank entryId)) catalog.entriesBySchema)
      databases := ((entry.analyzed.databasesMissingFrom analyzed).filter fun ref =>
          !hasDatabase (catalog.patchedIndex entry entryId analyzed) ref.databaseName).foldl
        (fun databases ref => databases.erase ref.databaseName)
        (catalog.insertNewDatabases entry.analyzed analyzed).databases
      schemas := (analyzed.schemasMissingFrom entry.analyzed).foldl
        (fun schemas ref => schemas.insertIfNew ref.key ref)
        (catalog.dropMissingSchemas entry entryId analyzed).schemas } := by
  unfold updateScript eraseDeadDatabases
  dsimp only
  rw [if_neg hchanged, foldl_insertSchema, foldl_insertSchemaKeys, foldl_dropSchema]
  rfl

theorem scriptEntries_updateScript (hchanged : entry.analyzed.address ≠ analyzed.address) :
    (catalog.updateScript self entry entryId analyzed).1.scriptEntries =
      catalog.scriptEntries.insert self { entry with analyzed := analyzed } := by
  rw [updateScript_of_changed hchanged]

/-- After the patch the index has the keys of the new references, and of the old
index those that belong to no reference that disappeared. -/
theorem mem_patchedIndex {database schema : Name} {rank : Rank} {otherId : CatalogEntryId} :
    qualifiedSchemaKey database schema rank otherId ∈ catalog.patchedIndex entry entryId analyzed ↔
      (rank = entry.rank ∧ otherId = entryId) ∧
          qualifiedSchema database schema ∈ analyzed.schemasByQualifiedName ∧
          qualifiedSchema database schema ∉ entry.analyzed.schemasByQualifiedName ∨
        ¬ ((rank = entry.rank ∧ otherId = entryId) ∧
          qualifiedSchema database schema ∈ entry.analyzed.schemasByQualifiedName ∧
          qualifiedSchema database schema ∉ analyzed.schemasByQualifiedName) ∧
        qualifiedSchemaKey database schema rank otherId ∈ catalog.entriesByQualifiedSchema := by
  unfold patchedIndex
  rw [mem_foldl_insertIfNew, mem_foldl_erase, exists_qualifiedKey_iff,
    exists_qualifiedKey_iff, exists_schemasMissingFrom_iff, exists_schemasMissingFrom_iff]

theorem mem_entriesBySchema_updateScript
    (hchanged : entry.analyzed.address ≠ analyzed.address) {schema : Name} {rank : Rank}
    {otherId : CatalogEntryId} :
    schemaKey schema rank otherId ∈
        (catalog.updateScript self entry entryId analyzed).1.entriesBySchema ↔
      (rank = entry.rank ∧ otherId = entryId) ∧
          (∃ database, qualifiedSchema database schema ∈ analyzed.schemasByQualifiedName ∧
            qualifiedSchema database schema ∉ entry.analyzed.schemasByQualifiedName) ∨
        ¬ ((rank = entry.rank ∧ otherId = entryId) ∧
          ∃ database, qualifiedSchema database schema ∈ entry.analyzed.schemasByQualifiedName ∧
            qualifiedSchema database schema ∉ analyzed.schemasByQualifiedName) ∧
        schemaKey schema rank otherId ∈ catalog.entriesBySchema := by
  rw [updateScript_of_changed hchanged]
  simp only [← exists_schemasMissingFrom_iff]
  rw [mem_foldl_insertIfNew, mem_foldl_erase, exists_schemaKey_iff, exists_schemaKey_iff]

/-- An old declaration survives the drops unless its schema disappeared from the
analysis and has no key left. -/
theorem schemas_dropMissingSchemas_eq_some_iff {database schema : Name} :
    (catalog.dropMissingSchemas entry entryId analyzed).schemas[
        qualifiedSchema database schema]? = some declaration ↔
      catalog.schemas[qualifiedSchema database schema]? = some declaration ∧
        (qualifiedSchema database schema ∈ entry.analyzed.schemasByQualifiedName →
          qualifiedSchema database schema ∉ analyzed.schemasByQualifiedName →
          ∃ rank otherId, qualifiedSchemaKey database schema rank otherId ∈
            catalog.patchedIndex entry entryId analyzed) := by
  have hindex := congrArg Catalog.entriesByQualifiedSchema
    (foldl_dropSchema entryId entry.rank (entry.analyzed.schemasMissingFrom analyzed)
      (catalog.insertNewDatabases entry.analyzed analyzed))
  dsimp only at hindex
  unfold dropMissingSchemas
  rw [schemas_foldl_dropSchema_eq_some_iff _ (schemasMissingFrom_nodup entry.analyzed analyzed),
    hindex, hasQualifiedSchema_iff]
  refine and_congr_right fun _ => ?_
  by_cases hmissing : ∃ ref ∈ entry.analyzed.schemasMissingFrom analyzed,
      ref.key = qualifiedSchema database schema
  · obtain ⟨hprevious, hanalyzed⟩ := exists_schemasMissingFrom_iff.mp hmissing
    have hkeys : ∀ rank otherId, qualifiedSchemaKey database schema rank otherId ∈
        catalog.patchedIndex entry entryId analyzed ↔
          qualifiedSchemaKey database schema rank otherId ∈
            (entry.analyzed.schemasMissingFrom analyzed).foldl (fun index ref => index.erase
              (qualifiedSchemaKey ref.databaseName ref.schemaName entry.rank entryId))
              catalog.entriesByQualifiedSchema := by
      intro rank otherId
      unfold patchedIndex
      rw [mem_foldl_insertIfNew, exists_qualifiedKey_iff, exists_schemasMissingFrom_iff]
      exact or_iff_right fun h => hanalyzed h.2.1
    simp only [hprevious, hanalyzed, not_false_eq_true, forall_const, hkeys]
    refine or_iff_right fun hnone => ?_
    obtain ⟨ref, href, hkey⟩ := hmissing
    exact hnone ref href hkey
  · have hnone : ∀ ref ∈ entry.analyzed.schemasMissingFrom analyzed,
        ref.key ≠ qualifiedSchema database schema := by
      intro ref href hkey
      exact hmissing ⟨ref, href, hkey⟩
    rw [exists_schemasMissingFrom_iff] at hmissing
    exact iff_of_true (Or.inl hnone) fun hprevious hanalyzed =>
      absurd ⟨hprevious, hanalyzed⟩ hmissing

/-- A schema is declared after the update if it was declared and has not lost its
last key, or if the new analysis brings it. -/
theorem schemas_updateScript_eq_some_iff (hchanged : entry.analyzed.address ≠ analyzed.address)
    {database schema : Name} :
    (catalog.updateScript self entry entryId analyzed).1.schemas[qualifiedSchema database schema]? =
        some declaration ↔
      catalog.schemas[qualifiedSchema database schema]? = some declaration ∧
          (qualifiedSchema database schema ∈ entry.analyzed.schemasByQualifiedName →
            qualifiedSchema database schema ∉ analyzed.schemasByQualifiedName →
            ∃ rank otherId, qualifiedSchemaKey database schema rank otherId ∈
              catalog.patchedIndex entry entryId analyzed) ∨
        qualifiedSchema database schema ∉ catalog.schemas ∧
          qualifiedSchema database schema ∉ entry.analyzed.schemasByQualifiedName ∧
          analyzed.schemasByQualifiedName[qualifiedSchema database schema]? = some declaration := by
  rw [updateScript_of_changed hchanged]
  dsimp only
  rw [OrderedMap.getElem?_foldl_insertIfNew_eq_some_iff (schemasMissingFrom_nodup _ _),
    schemas_dropMissingSchemas_eq_some_iff]
  refine or_congr_right ?_
  have hbrought : (∃ ref ∈ analyzed.schemasMissingFrom entry.analyzed,
      ref.key = qualifiedSchema database schema ∧ ref = declaration) ↔
        qualifiedSchema database schema ∉ entry.analyzed.schemasByQualifiedName ∧
          analyzed.schemasByQualifiedName[qualifiedSchema database schema]? = some declaration := by
    constructor
    · rintro ⟨ref, href, hkey, rfl⟩
      obtain ⟨hmem, hmissing⟩ := mem_filter.mp href
      rw [← hkey]
      exact ⟨of_decide_eq_true hmissing, mem_schemaReferences.mp hmem⟩
    · rintro ⟨hmissing, hlookup⟩
      have hkey : qualifiedSchema database schema = declaration.key :=
        analyzed.schemas_keyed _ declaration hlookup
      rw [hkey] at hmissing hlookup ⊢
      exact ⟨declaration, mem_filter.mpr
        ⟨mem_schemaReferences.mpr hlookup, decide_eq_true hmissing⟩, rfl, rfl⟩
  rw [hbrought]
  refine and_congr_left fun h => not_congr ?_
  -- the schema was not referenced before, so the drops did not touch it
  constructor
  · intro hmem
    obtain ⟨found, hfound⟩ := OrderedMap.exists_getElem?_of_mem hmem
    exact mem_of_getElem? (schemas_dropMissingSchemas_eq_some_iff.mp hfound).1
  · intro hmem
    obtain ⟨found, hfound⟩ := OrderedMap.exists_getElem?_of_mem hmem
    exact mem_of_getElem?
      (schemas_dropMissingSchemas_eq_some_iff.mpr ⟨hfound, fun hprevious => absurd hprevious h.1⟩)

theorem exists_databasesMissingFrom_iff {previous : AnalyzedScript} {database : Name} :
    (∃ ref ∈ previous.databasesMissingFrom analyzed, ref.databaseName = database) ↔
      database ∈ previous.databaseNames ∧ database ∉ analyzed.databaseNames := by
  unfold AnalyzedScript.databasesMissingFrom
  constructor
  · rintro ⟨ref, href, rfl⟩
    obtain ⟨hmem, hmissing⟩ := mem_filter.mp href
    exact ⟨mem_map_of_mem hmem, of_decide_eq_true hmissing⟩
  · rintro ⟨hprevious, hmissing⟩
    obtain ⟨ref, href, rfl⟩ := mem_map.mp hprevious
    exact ⟨ref, mem_filter.mpr ⟨href, decide_eq_true hmissing⟩, rfl⟩

section

variable (hchanged : entry.analyzed.address ≠ analyzed.address)

include hchanged

/-- The same for databases.  Here the probe comes last and looks at the index as
the update leaves it. -/
theorem databases_updateScript_eq_some_iff {database : Name} {declaration : DatabaseReference} :
    (catalog.updateScript self entry entryId analyzed).1.databases[database]? = some declaration ↔
      (database ∈ entry.analyzed.databaseNames → database ∉ analyzed.databaseNames →
          ∃ schema rank otherId, qualifiedSchemaKey database schema rank otherId ∈
            catalog.patchedIndex entry entryId analyzed) ∧
        (catalog.databases[database]? = some declaration ∨
          database ∉ catalog.databases ∧ database ∉ entry.analyzed.databaseNames ∧
          ∃ ref ∈ analyzed.databasesByName, ref.databaseName = database ∧
            declaration = ⟨ref.objectId, database, []⟩) := by
  rw [updateScript_of_changed hchanged]
  dsimp only
  rw [OrderedMap.getElem?_foldl_erase_eq_some_iff, ← hasDatabase_iff]
  refine and_congr ?_ ?_
  · have hmissing : (∃ ref ∈ entry.analyzed.databasesMissingFrom analyzed,
        ref.databaseName = database) ↔
          database ∈ entry.analyzed.databaseNames ∧ database ∉ analyzed.databaseNames :=
      exists_databasesMissingFrom_iff
    constructor
    · intro hkept hprevious hanalyzed
      obtain ⟨ref, href, rfl⟩ := hmissing.mpr ⟨hprevious, hanalyzed⟩
      by_contra hdead
      exact hkept ref (mem_filter.mpr ⟨href, by simpa using hdead⟩) rfl
    · intro hkept ref href hname
      obtain ⟨hmem, hdead⟩ := mem_filter.mp href
      obtain ⟨hprevious, hanalyzed⟩ := hmissing.mp ⟨ref, hmem, hname⟩
      rw [hname] at hdead
      simp [hkept hprevious hanalyzed] at hdead
  · unfold insertNewDatabases
    have hnodup : ((analyzed.databasesMissingFrom entry.analyzed).map
        DatabaseReference.databaseName).Nodup :=
      analyzed.databases_nodup.sublist (filter_sublist.map _)
    rw [OrderedMap.getElem?_foldl_insertIfNew_eq_some_iff hnodup]
    refine or_congr_right (and_congr_right fun _ => ?_)
    constructor
    · rintro ⟨ref, href, rfl, rfl⟩
      obtain ⟨hmem, hmissing⟩ := mem_filter.mp href
      exact ⟨of_decide_eq_true hmissing, ref, hmem, rfl, rfl⟩
    · rintro ⟨hmissing, ref, href, rfl, rfl⟩
      exact ⟨ref, mem_filter.mpr ⟨href, decide_eq_true hmissing⟩, rfl, rfl⟩

theorem mem_schemas_updateScript {database schema : Name} :
    qualifiedSchema database schema ∈ (catalog.updateScript self entry entryId analyzed).1.schemas ↔
      qualifiedSchema database schema ∈ catalog.schemas ∧
          (qualifiedSchema database schema ∈ entry.analyzed.schemasByQualifiedName →
            qualifiedSchema database schema ∉ analyzed.schemasByQualifiedName →
            ∃ rank otherId, qualifiedSchemaKey database schema rank otherId ∈
              catalog.patchedIndex entry entryId analyzed) ∨
        qualifiedSchema database schema ∉ catalog.schemas ∧
          qualifiedSchema database schema ∉ entry.analyzed.schemasByQualifiedName ∧
          qualifiedSchema database schema ∈ analyzed.schemasByQualifiedName := by
  rw [mem_iff_exists_getElem?]
  simp only [schemas_updateScript_eq_some_iff hchanged, exists_or, exists_and_left,
    exists_and_right, ← mem_iff_exists_getElem?]

theorem mem_databases_updateScript {database : Name} :
    database ∈ (catalog.updateScript self entry entryId analyzed).1.databases ↔
      (database ∈ entry.analyzed.databaseNames → database ∉ analyzed.databaseNames →
          ∃ schema rank otherId, qualifiedSchemaKey database schema rank otherId ∈
            catalog.patchedIndex entry entryId analyzed) ∧
        (database ∈ catalog.databases ∨ database ∉ catalog.databases ∧
          database ∉ entry.analyzed.databaseNames ∧ database ∈ analyzed.databaseNames) := by
  have hbrought : (∃ declaration : DatabaseReference, ∃ ref ∈ analyzed.databasesByName,
      ref.databaseName = database ∧ declaration = ⟨ref.objectId, database, []⟩) ↔
        database ∈ analyzed.databaseNames := by
    constructor
    · rintro ⟨_, ref, href, rfl, -⟩
      exact mem_map_of_mem href
    · intro hmem
      obtain ⟨ref, href, hname⟩ := mem_map.mp hmem
      exact ⟨_, ref, href, hname, rfl⟩
  rw [mem_iff_exists_getElem?]
  simp only [databases_updateScript_eq_some_iff hchanged, exists_or, exists_and_left, hbrought,
    ← mem_iff_exists_getElem?]

end

end Update

/-! ## One step of a run -/

theorem registerSchemas_catalog (refs : List (Name × Name)) :
    ∀ (catalog : Catalog) (analyzed : AnalyzedScript), ∃ databaseId schemaId,
      (catalog.registerSchemas analyzed refs).2 =
        { catalog with nextDatabaseId := databaseId, nextSchemaId := schemaId } := by
  induction refs with
  | nil => exact fun catalog _ => ⟨catalog.nextDatabaseId, catalog.nextSchemaId, rfl⟩
  | cons ref rest ih =>
    intro catalog analyzed
    obtain ⟨database, schema⟩ := ref
    obtain ⟨databaseId, schemaId, hrest⟩ :=
      ih (catalog.registerSchema analyzed database schema).2
        (catalog.registerSchema analyzed database schema).1
    refine ⟨databaseId, schemaId, hrest.trans ?_⟩
    unfold registerSchema registerSchemaReference registerDatabase allocateDatabaseId
      allocateSchemaId
    dsimp only
    repeat' split
    all_goals rfl

namespace World

/-- The external id of a script never changes. -/
def entryIdOf (world : World) (self : ScriptAddress) : CatalogEntryId :=
  (world.scripts self).catalogEntryId

/-- Everything an operation can do to the catalog. -/
inductive Transition (world : World) : Event → Catalog → Prop
  | analyzed (self : ScriptAddress) (refs : List (Name × Name)) (databaseId schemaId : ℕ) :
      Transition world (.analyze self refs)
        { world.catalog with nextDatabaseId := databaseId, nextSchemaId := schemaId }
  | analyzedElsewhere (self : ScriptAddress) (analyzed : AnalyzedScript) :
      Transition world (.analyzeElsewhere self analyzed) world.catalog
  | unchanged (self : ScriptAddress) (rank : Rank) : Transition world (.load self rank) world.catalog
  | conflict (self : ScriptAddress) (rank : Rank) (analyzed : AnalyzedScript)
      (hfirst : FirstLoad world.catalog self (world.scripts self) analyzed)
      (hconflict : world.catalog.databaseConflict analyzed ∨ world.catalog.schemaConflict analyzed) :
      Transition world (.load self rank) (world.catalog.declare analyzed)
  | updated (self : ScriptAddress) (rank : Rank) (entry : ScriptEntry) (analyzed : AnalyzedScript)
      (hentry : world.catalog.scriptEntries[self]? = some entry)
      (hanalyzed : (world.scripts self).analyzedScript = some analyzed)
      (hchanged : entry.analyzed.address ≠ analyzed.address) :
      Transition world (.load self rank)
        (world.catalog.updateScript self entry (world.entryIdOf self) analyzed).1
  | loaded (self : ScriptAddress) (rank : Rank) (analyzed : AnalyzedScript)
      (hfirst : FirstLoad world.catalog self (world.scripts self) analyzed)
      (hdatabases : world.catalog.databaseConflict analyzed = false)
      (hschemas : world.catalog.schemaConflict analyzed = false) :
      Transition world (.load self rank)
        ((world.catalog.declare analyzed).registerEntry self analyzed rank)
  | dropped (self : ScriptAddress) :
      Transition world (.drop self) (world.catalog.dropScript self (world.scripts self))
  | cleared : Transition world .clear world.catalog.clear

theorem transition_step (world : World) (event : Event) :
    Transition world event (world.step event).catalog := by
  cases event with
  | analyze self refs =>
    simp only [step, analyze]
    split
    · exact .analyzed self refs world.catalog.nextDatabaseId world.catalog.nextSchemaId
    · obtain ⟨databaseId, schemaId, hregistered⟩ := registerSchemas_catalog refs world.catalog
        (AnalyzedScript.empty world.nextAnalysis (world.scripts self).catalogEntryId)
      dsimp only
      rw [hregistered]
      exact .analyzed self refs databaseId schemaId
  | analyzeElsewhere self analyzed =>
    simp only [step, analyzeElsewhere]
    split <;> exact .analyzedElsewhere self analyzed
  | load self rank =>
    have houtcome := loadOutcome_loadScript world.catalog self (world.scripts self) rank
    simp only [step]
    generalize world.catalog.loadScript self (world.scripts self) rank = result at houtcome ⊢
    cases houtcome with
    | rejected status hstatus hfirst => exact .unchanged self rank
    | updated entry analyzed hentry hanalyzed =>
      by_cases hsame : entry.analyzed.address = analyzed.address
      · rw [updateScript_of_same hsame]
        exact .unchanged self rank
      · exact .updated self rank entry analyzed hentry hanalyzed hsame
    | conflict analyzed hfirst hconflict => exact .conflict self rank analyzed hfirst hconflict
    | loaded analyzed hfirst hdatabases hschemas =>
      exact .loaded self rank analyzed hfirst hdatabases hschemas
  | drop self => exact .dropped self
  | clear => exact .cleared

theorem entryIdOf_step (world : World) (event : Event) :
    (world.step event).entryIdOf = world.entryIdOf := by
  funext other
  cases event with
  | analyze self refs =>
    simp only [step, analyze]
    split
    · rfl
    · by_cases hother : other = self
      · subst hother; simp [entryIdOf]
      · simp [entryIdOf, hother]
  | analyzeElsewhere self analyzed =>
    simp only [step, analyzeElsewhere]
    split
    · by_cases hother : other = self
      · subst hother; simp [entryIdOf]
      · simp [entryIdOf, hother]
    · rfl
  | load self rank => rfl
  | drop self => rfl
  | clear => rfl

theorem entryId_of_analyzed {world : World} {self : ScriptAddress} {analyzed : AnalyzedScript}
    (hanalyzed : (world.scripts self).analyzedScript = some analyzed) :
    analyzed.catalogEntryId = world.entryIdOf self :=
  (world.scripts self).entry_id analyzed hanalyzed

end World

end DashQL.Catalog
