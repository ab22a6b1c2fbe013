import DashQL.Catalog.Resolve

/-!
# What `Catalog::ResolveTable` returns

The loops over the entries concatenate what the entries have, up to the limit
(`resolveDirect_eq`, `resolveThrough_spec`), so every question about the results is
one about the concatenation.  Entries are visited by rank, and a table belongs to the
entry that declares it.
-/

namespace DashQL.Catalog

open List Option

variable {ignoreEntry : CatalogEntryId}

section Scans

variable {tables : ∀ analyzed : AnalyzedScript, EntryTables analyzed} {catalog : Catalog}

/-- The table that the first loop finds at an entry. -/
def directHit (tables : ∀ analyzed : AnalyzedScript, EntryTables analyzed) (catalog : Catalog)
    (name : QualifiedTableName) (ignoreEntry : CatalogEntryId) (entry : Rank × CatalogEntryId) :
    Option TableDeclaration :=
  if entry.2 = ignoreEntry then none
  else catalog.entries[entry.2]?.bind fun analyzed => (tables analyzed).findQualifiedName name

/-- The tables that another loop finds at an entry. -/
def foundAt (catalog : Catalog) (found : AnalyzedScript → List TableDeclaration)
    (entry : Rank × CatalogEntryId) : List TableDeclaration :=
  (catalog.entries[entry.2]?.map found).getD []

theorem resolveDirect_eq {name : QualifiedTableName} {limit : ℕ}
    {entries : List (Rank × CatalogEntryId)} {out : List TableDeclaration}
    (hloaded : ∀ entry ∈ entries, ∃ analyzed, catalog.entries[entry.2]? = some analyzed) :
    catalog.resolveDirect tables name ignoreEntry limit entries out =
      some (EntryTables.pushUpTo limit
        (entries.filterMap (directHit tables catalog name ignoreEntry)) out) := by
  induction entries generalizing out with
  | nil => rfl
  | cons entry rest ih =>
    obtain ⟨rank, candidate⟩ := entry
    obtain ⟨analyzed, hentry⟩ := hloaded (rank, candidate) mem_cons_self
    have hrest := fun out => @ih out fun other hother =>
      hloaded other (mem_cons_of_mem _ hother)
    rw [resolveDirect]
    by_cases hignore : candidate = ignoreEntry
    · have hhit : directHit tables catalog name ignoreEntry (rank, candidate) = none := by
        simp [directHit, hignore]
      rw [if_pos hignore, hrest, filterMap_cons_none hhit]
    · have hhit : directHit tables catalog name ignoreEntry (rank, candidate) =
          (tables analyzed).findQualifiedName name := by
        have hentry : catalog.entries[candidate]? = some analyzed := hentry
        simp [directHit, hignore, hentry]
      have hentry : catalog.entries[candidate]? = some analyzed := hentry
      rw [if_neg hignore, hentry]
      dsimp only
      cases hfind : (tables analyzed).findQualifiedName name with
      | none => rw [filterMap_cons_none (hhit.trans hfind), ← hrest]
      | some table =>
        rw [filterMap_cons_some (hhit.trans hfind), EntryTables.pushUpTo]
        dsimp only
        split_ifs
        · rfl
        · exact hrest _

/-- A loop over the entries returns the beginning of what they have, and all of it if
there is room. -/
theorem resolveThrough_spec {limit : ℕ} {found : AnalyzedScript → List TableDeclaration}
    {entries : List (Rank × CatalogEntryId)} {out : List TableDeclaration}
    (hloaded : ∀ entry ∈ entries, ∃ analyzed, catalog.entries[entry.2]? = some analyzed) :
    ∃ count, catalog.resolveThrough limit
        (fun analyzed => EntryTables.pushUpTo limit (found analyzed)) entries out =
          some (out ++ (entries.flatMap (foundAt catalog found)).take count) ∧
      (out.length + (entries.flatMap (foundAt catalog found)).length < limit →
        (entries.flatMap (foundAt catalog found)).length ≤ count) := by
  induction entries generalizing out with
  | nil => exact ⟨0, by simp [resolveThrough], by simp⟩
  | cons entry rest ih =>
    obtain ⟨rank, candidate⟩ := entry
    obtain ⟨analyzed, hentry⟩ := hloaded (rank, candidate) mem_cons_self
    have hentry : catalog.entries[candidate]? = some analyzed := hentry
    have hfound : foundAt catalog found (rank, candidate) = found analyzed := by
      simp [foundAt, hentry]
    rw [resolveThrough, hentry, flatMap_cons, hfound]
    dsimp only
    rw [EntryTables.pushUpTo_eq]
    generalize hroom : max 1 (limit - out.length) = room
    split_ifs with hfull
    · -- the limit is reached within this entry
      refine ⟨min room (found analyzed).length, ?_, ?_⟩
      · rw [take_append_of_le_length (Nat.min_le_right _ _), ← take_take, List.take_length]
      · intro hlt
        rw [length_append, length_take] at hfull
        rw [length_append] at hlt
        omega
    · rw [length_append, length_take] at hfull
      have hall : (found analyzed).take room = found analyzed :=
        take_of_length_le (by omega)
      obtain ⟨count, hrest, hroomy⟩ := @ih (out ++ found analyzed) fun other hother =>
        hloaded other (mem_cons_of_mem _ hother)
      refine ⟨(found analyzed).length + count, ?_, ?_⟩
      · rw [hall, hrest, take_length_add_append, append_assoc]
      · intro hlt
        rw [length_append] at hlt ⊢
        have hroomy := hroomy (by rw [length_append]; omega)
        omega

end Scans

/-! ## Results -/

section Results

variable (tables : ∀ analyzed : AnalyzedScript, EntryTables analyzed) (catalog : Catalog)

/-- Some other entry than the ignored one declares the table under exactly this name. -/
def DeclaredDirectly (name : QualifiedTableName) (ignoreEntry : CatalogEntryId) : Prop :=
  ∃ entryId analyzed, catalog.entries[entryId]? = some analyzed ∧ entryId ≠ ignoreEntry ∧
    ∃ table ∈ (tables analyzed).tableDeclarations, table.tableName = name

/-- The table is declared directly, or the scans that are made instead find no other table,
and none of the ignored entry. -/
def UnambiguousThrough (name : QualifiedTableName) (ignoreEntry : CatalogEntryId) : Prop :=
  DeclaredDirectly tables catalog name ignoreEntry ∨ name.databaseName ≠ [] ∨
    name.schemaName ≠ [] ∧ (∀ rank entryId analyzed,
      schemaKey name.schemaName rank entryId ∈ catalog.entriesBySchema →
      catalog.entries[entryId]? = some analyzed → entryId ≠ ignoreEntry →
      (tables analyzed).OnlyTable name.schemaName name.tableName) ∨
    name.schemaName = [] ∧ ∀ entryId analyzed, catalog.entries[entryId]? = some analyzed →
      (tables analyzed).LastInHashMap name.tableName ∧
        (entryId = ignoreEntry →
          ∀ table ∈ (tables analyzed).tableDeclarations, table.name ≠ name.tableName)

/-- Tables of entries with lower ranks come first. -/
def RankOrdered (out : List TableDeclaration) : Prop :=
  out.Pairwise fun table other => ∀ rank rank',
    toLex (rank, table.objectId.origin) ∈ catalog.entriesRanked →
    toLex (rank', other.objectId.origin) ∈ catalog.entriesRanked → rank ≤ rank'

variable {tables catalog} {entryIdOf : ScriptAddress → CatalogEntryId}

theorem EntryTables.origin_eq {analyzed : AnalyzedScript} (own : EntryTables analyzed)
    {table : TableDeclaration} (h : table ∈ own.tableDeclarations) :
    table.objectId.origin = analyzed.catalogEntryId := by
  obtain ⟨index, hindex⟩ := mem_iff_getElem?.mp h
  rw [own.table_id index table hindex]

theorem mem_foundAt {found : AnalyzedScript → List TableDeclaration}
    {entry : Rank × CatalogEntryId} {table : TableDeclaration} :
    table ∈ foundAt catalog found entry ↔
      ∃ analyzed, catalog.entries[entry.2]? = some analyzed ∧ table ∈ found analyzed := by
  unfold foundAt
  cases catalog.entries[entry.2]? <;> simp

theorem directHit_eq_some_iff {name : QualifiedTableName} {entry : Rank × CatalogEntryId}
    {table : TableDeclaration} :
    directHit tables catalog name ignoreEntry entry = some table ↔
      entry.2 ≠ ignoreEntry ∧ ∃ analyzed, catalog.entries[entry.2]? = some analyzed ∧
        (tables analyzed).findQualifiedName name = some table := by
  unfold directHit
  split_ifs with hignore
  · simp [hignore]
  · simp [hignore, bind_eq_some_iff]

theorem rankOrdered_of_visited (h : Consistent catalog entryIdOf)
    {entries : List (Rank × CatalogEntryId)} (hvisited : Visited catalog entries)
    {at_ : Rank × CatalogEntryId → List TableDeclaration}
    (horigin : ∀ entry ∈ entries, ∀ table ∈ at_ entry, table.objectId.origin = entry.2) :
    RankOrdered catalog (entries.flatMap at_) := by
  unfold RankOrdered
  rw [pairwise_flatMap]
  constructor
  · intro entry hentry
    refine pairwise_of_forall_mem_list fun table htable other hother => ?_
    intro rank rank' hrank hrank'
    rw [horigin entry hentry table htable] at hrank
    rw [horigin entry hentry other hother] at hrank'
    exact (h.rank_unique hrank hrank').le
  · refine hvisited.sorted.imp_of_mem ?_
    intro entry entry' hentry hentry' hle table htable other hother rank rank' hrank hrank'
    rw [horigin entry hentry table htable] at hrank
    rw [horigin entry' hentry' other hother] at hrank'
    rw [h.rank_unique hrank (hvisited.ranked entry hentry),
      h.rank_unique hrank' (hvisited.ranked entry' hentry')]
    exact hle

theorem Visited.loaded (h : Consistent catalog entryIdOf)
    {entries : List (Rank × CatalogEntryId)} (hvisited : Visited catalog entries) :
    ∀ entry ∈ entries, ∃ analyzed, catalog.entries[entry.2]? = some analyzed :=
  fun entry hentry => h.exists_entry (hvisited.ranked entry hentry)

theorem forall_resolveThrough_iff {found : AnalyzedScript → List TableDeclaration}
    {entries : List (Rank × CatalogEntryId)} {good : TableDeclaration → Prop}
    (hloaded : ∀ entry ∈ entries, ∃ analyzed, catalog.entries[entry.2]? = some analyzed) :
    (∀ limit, ∃ out, catalog.resolveThrough limit
        (fun analyzed => EntryTables.pushUpTo limit (found analyzed)) entries [] = some out ∧
        ∀ table ∈ out, good table) ↔
      ∀ table ∈ entries.flatMap (foundAt catalog found), good table := by
  constructor
  · intro h table htable
    obtain ⟨out, hout, hgood⟩ := h ((entries.flatMap (foundAt catalog found)).length + 1)
    obtain ⟨count, hspec, hroomy⟩ := @resolveThrough_spec catalog
      ((entries.flatMap (foundAt catalog found)).length + 1) found entries [] hloaded
    rw [hspec] at hout
    obtain rfl := some.inj hout
    have hroomy := hroomy (by simp)
    rw [nil_append, take_of_length_le hroomy] at hgood
    exact hgood table htable
  · intro h limit
    obtain ⟨count, hspec, -⟩ := @resolveThrough_spec catalog limit found entries [] hloaded
    refine ⟨_, hspec, fun table htable => h table ?_⟩
    rw [nil_append] at htable
    exact mem_of_mem_take htable

/-- The direct hits, in the order of the first loop. -/
def directHits (tables : ∀ analyzed : AnalyzedScript, EntryTables analyzed) (catalog : Catalog)
    (name : QualifiedTableName) (ignoreEntry : CatalogEntryId) : List TableDeclaration :=
  (catalog.entriesOfQualifiedSchema name.databaseName name.schemaName).filterMap
    (directHit tables catalog name ignoreEntry)

section

variable (h : Consistent catalog entryIdOf)

include h

theorem resolveTable_eq (name : QualifiedTableName) (ignoreEntry : CatalogEntryId) (limit : ℕ) :
    catalog.resolveTable tables name ignoreEntry [] limit =
      if directHits tables catalog name ignoreEntry ≠ [] then
        some (EntryTables.pushUpTo limit (directHits tables catalog name ignoreEntry) [])
      else if name.databaseName = [] then
        if name.schemaName ≠ [] then
          catalog.resolveThrough limit
            (fun entry => EntryTables.pushUpTo limit ((tables entry).schemaRange name.schemaName))
            ((catalog.entriesOfSchema name.schemaName).filter fun entry => entry.2 ≠ ignoreEntry) []
        else
          catalog.resolveThrough limit
            (fun entry => EntryTables.pushUpTo limit ((tables entry).fromName name.tableName))
            catalog.rankedEntries []
      else some [] := by
  have hvisited := visited_entriesOfQualifiedSchema h name.databaseName name.schemaName
  have hdirect := @resolveDirect_eq ignoreEntry tables catalog name limit _ [] (hvisited.loaded h)
  rw [resolveTable, hdirect, bind_some]
  by_cases hhits : directHits tables catalog name ignoreEntry = []
  · have hnone : EntryTables.pushUpTo limit
        ((catalog.entriesOfQualifiedSchema name.databaseName name.schemaName).filterMap
          (directHit tables catalog name ignoreEntry)) [] = [] := by
      have hhits : (catalog.entriesOfQualifiedSchema name.databaseName name.schemaName).filterMap
          (directHit tables catalog name ignoreEntry) = [] := hhits
      rw [hhits]
      rfl
    rw [hnone, if_neg (by simp), if_neg (not_not.mpr hhits)]
    rfl
  · have hsome : (EntryTables.pushUpTo limit
        ((catalog.entriesOfQualifiedSchema name.databaseName name.schemaName).filterMap
          (directHit tables catalog name ignoreEntry)) []).length > 0 := by
      have hpos := length_pos_iff.mpr hhits
      unfold directHits at hpos
      rw [EntryTables.pushUpTo_eq, nil_append, length_take]
      omega
    rw [if_pos hsome, if_pos hhits]
    rfl

theorem directHits_ne_nil_iff {name : QualifiedTableName} :
    directHits tables catalog name ignoreEntry ≠ [] ↔
      DeclaredDirectly tables catalog name ignoreEntry := by
  have hmem : ∀ table, table ∈ directHits tables catalog name ignoreEntry ↔
      ∃ entry ∈ catalog.entriesOfQualifiedSchema name.databaseName name.schemaName,
        entry.2 ≠ ignoreEntry ∧ ∃ analyzed, catalog.entries[entry.2]? = some analyzed ∧
          (tables analyzed).findQualifiedName name = some table := by
    intro table
    simp only [directHits, mem_filterMap, directHit_eq_some_iff]
  constructor
  · intro hne
    obtain ⟨table, htable⟩ := exists_mem_of_ne_nil _ hne
    obtain ⟨entry, -, hne, analyzed, hentry, hfind⟩ := (hmem table).mp htable
    exact ⟨entry.2, analyzed, hentry, hne, table, (tables analyzed).findQualifiedName_eq_some hfind⟩
  · rintro ⟨entryId, analyzed, hentry, hne, table, htable, rfl⟩
    -- the schema of a declared table is one of the entry
    obtain ⟨ref, href, -⟩ := (tables analyzed).table_schema table htable
    obtain ⟨self, entry, hloaded, hid, rfl⟩ := (h.entries_iff entryId analyzed).mp hentry
    have hkey := (h.qualified_iff table.tableName.databaseName table.tableName.schemaName entry.rank
      entryId).mpr ⟨self, entry, hloaded, hid, rfl, OrderedMap.mem_of_getElem? href⟩
    cases hfind : (tables entry.analyzed).findQualifiedName table.tableName with
    | none =>
      exact absurd ⟨table, htable, rfl⟩
        ((tables entry.analyzed).findQualifiedName_eq_none_iff.mp hfind)
    | some found =>
      exact ne_nil_of_mem ((hmem found).mpr ⟨(entry.rank, entryId),
        mem_entriesOfQualifiedSchema.mpr hkey, hne, entry.analyzed, hentry, hfind⟩)

/-- A direct hit is what was asked for, in another entry than the ignored one. -/
theorem directHits_sound {name : QualifiedTableName} :
    ∀ table ∈ directHits tables catalog name ignoreEntry,
      table.Matches name ∧ table.objectId.origin ≠ ignoreEntry := by
  intro table htable
  obtain ⟨entry, -, hhit⟩ := mem_filterMap.mp htable
  obtain ⟨hne, analyzed, hentry, hfind⟩ := directHit_eq_some_iff.mp hhit
  obtain ⟨hmem, hname⟩ := (tables analyzed).findQualifiedName_eq_some hfind
  refine ⟨EntryTables.matches_of_eq hname, ?_⟩
  rw [(tables analyzed).origin_eq hmem, (h.exists_rank hentry).1]
  exact hne

theorem foundEverywhere_sound_iff {name : QualifiedTableName} (hdatabase : name.databaseName = [])
    (hschema : name.schemaName = []) :
    (∀ table ∈ catalog.rankedEntries.flatMap
        (foundAt catalog fun analyzed => (tables analyzed).fromName name.tableName),
        table.Matches name ∧ table.objectId.origin ≠ ignoreEntry) ↔
      ∀ entryId analyzed, catalog.entries[entryId]? = some analyzed →
        (tables analyzed).LastInHashMap name.tableName ∧
          (entryId = ignoreEntry →
            ∀ table ∈ (tables analyzed).tableDeclarations, table.name ≠ name.tableName) := by
  constructor
  · intro hall entryId analyzed hentry
    obtain ⟨hid, rank, hrank⟩ := h.exists_rank hentry
    have hfound : ∀ table ∈ (tables analyzed).fromName name.tableName,
        table.Matches name ∧ table.objectId.origin ≠ ignoreEntry := fun table htable =>
      hall table (mem_flatMap.mpr ⟨(rank, entryId), mem_rankedEntries.mpr hrank,
        mem_foundAt.mpr ⟨analyzed, hentry, htable⟩⟩)
    refine ⟨?_, ?_⟩
    · rw [EntryTables.lastInHashMap_iff]
      exact fun table htable => (hfound table htable).1.tableName
    · intro hignored table htable hname
      have hmem := (tables analyzed).mem_fromName_of_name htable
      rw [hname] at hmem
      apply (hfound table hmem).2
      rw [(tables analyzed).origin_eq htable, hid, hignored]
  · intro hall table htable
    obtain ⟨entry, hentry, hmem⟩ := mem_flatMap.mp htable
    obtain ⟨analyzed, hanalyzed, hfrom⟩ := mem_foundAt.mp hmem
    obtain ⟨hlast, hignored⟩ := hall entry.2 analyzed hanalyzed
    have hname := (tables analyzed).lastInHashMap_iff.mp hlast table hfrom
    have hdeclared := (tables analyzed).mem_of_mem_fromName hfrom
    refine ⟨⟨hname, fun hne => absurd hschema hne, fun hne => absurd hdatabase hne⟩, ?_⟩
    rw [(tables analyzed).origin_eq hdeclared, (h.exists_rank hanalyzed).1]
    exact fun heq => hignored heq table hdeclared hname

/-- The scan of a schema finds what it is asked for exactly if the entries that it visits
declare no other table there. -/
theorem foundInSchema_sound_iff {name : QualifiedTableName} (hdatabase : name.databaseName = []) :
    (∀ table ∈ ((catalog.entriesOfSchema name.schemaName).filter
        fun entry => entry.2 ≠ ignoreEntry).flatMap
        (foundAt catalog fun analyzed => (tables analyzed).schemaRange name.schemaName),
        table.Matches name ∧ table.objectId.origin ≠ ignoreEntry) ↔
      ∀ rank entryId analyzed,
        schemaKey name.schemaName rank entryId ∈ catalog.entriesBySchema →
        catalog.entries[entryId]? = some analyzed → entryId ≠ ignoreEntry →
        (tables analyzed).OnlyTable name.schemaName name.tableName := by
  constructor
  · intro hall rank entryId analyzed hkey hentry hne
    rw [EntryTables.onlyTable_iff]
    intro table htable
    have hvisit : (rank, entryId) ∈ (catalog.entriesOfSchema name.schemaName).filter
        fun entry => entry.2 ≠ ignoreEntry :=
      mem_filter.mpr ⟨mem_entriesOfSchema.mpr hkey, by simpa using hne⟩
    exact (hall table (mem_flatMap.mpr ⟨_, hvisit,
      mem_foundAt.mpr ⟨analyzed, hentry, htable⟩⟩)).1.tableName
  · intro hall table htable
    obtain ⟨entry, hentry, hmem⟩ := mem_flatMap.mp htable
    obtain ⟨hvisit, hne⟩ := mem_filter.mp hentry
    obtain ⟨analyzed, hanalyzed, hrange⟩ := mem_foundAt.mp hmem
    have hne : entry.2 ≠ ignoreEntry := by simpa using hne
    have honly := hall entry.1 entry.2 analyzed (mem_entriesOfSchema.mp hvisit) hanalyzed hne
    obtain ⟨hdeclared, hschemaName, -⟩ := (tables analyzed).mem_schemaRange.mp hrange
    refine ⟨⟨(tables analyzed).onlyTable_iff.mp honly table hrange, fun _ => hschemaName,
      fun hne => absurd hdatabase hne⟩, ?_⟩
    rw [(tables analyzed).origin_eq hdeclared, (h.exists_rank hanalyzed).1]
    exact hne

theorem resolveTable_sound (hsound : SchemaIndexSound catalog) (name : QualifiedTableName)
    (ignoreEntry : CatalogEntryId) :
    (∀ limit, ∃ out, catalog.resolveTable tables name ignoreEntry [] limit = some out ∧
        ∀ table ∈ out, table.Matches name ∧ table.objectId.origin ≠ ignoreEntry) ↔
      UnambiguousThrough tables catalog name ignoreEntry := by
  simp only [resolveTable_eq h]
  unfold UnambiguousThrough
  by_cases hhits : directHits tables catalog name ignoreEntry ≠ []
  · refine iff_of_true ?_ (.inl ((directHits_ne_nil_iff h).mp hhits))
    intro limit
    rw [if_pos hhits]
    refine ⟨_, rfl, fun table htable => ?_⟩
    rw [EntryTables.pushUpTo_eq, nil_append] at htable
    exact directHits_sound h table (mem_of_mem_take htable)
  simp only [if_neg hhits]
  rw [or_iff_right fun hdirect => hhits ((directHits_ne_nil_iff h).mpr hdirect)]
  by_cases hdatabase : name.databaseName = []
  · simp only [if_pos hdatabase]
    rw [or_iff_right (not_not.mpr hdatabase)]
    by_cases hschema : name.schemaName = []
    · rw [or_iff_right fun hother => hother.1 hschema, and_iff_right hschema]
      simp only [if_neg (not_not.mpr hschema)]
      rw [forall_resolveThrough_iff ((visited_rankedEntries catalog).loaded h)]
      exact foundEverywhere_sound_iff h hdatabase hschema
    · rw [or_iff_left fun hother => hschema hother.1, and_iff_right hschema]
      simp only [if_pos hschema]
      have hvisited := (visited_entriesOfSchema h hsound name.schemaName).filter
        fun entry => entry.2 ≠ ignoreEntry
      rw [forall_resolveThrough_iff (hvisited.loaded h)]
      exact foundInSchema_sound_iff h hdatabase
  · refine iff_of_true ?_ (.inl hdatabase)
    intro limit
    rw [if_neg hdatabase]
    exact ⟨[], rfl, by simp⟩

theorem resolveThrough_rankOrdered {entries : List (Rank × CatalogEntryId)}
    (hvisited : Visited catalog entries) {found : AnalyzedScript → List TableDeclaration}
    (hfound : ∀ analyzed, ∀ table ∈ found analyzed, table ∈ (tables analyzed).tableDeclarations)
    (limit : ℕ) :
    ∃ out, catalog.resolveThrough limit
      (fun analyzed => EntryTables.pushUpTo limit (found analyzed)) entries [] = some out ∧
        RankOrdered catalog out := by
  obtain ⟨count, hspec, -⟩ := @resolveThrough_spec catalog limit found entries []
    (hvisited.loaded h)
  refine ⟨_, hspec, ?_⟩
  have hordered : RankOrdered catalog (entries.flatMap (foundAt catalog found)) := by
    refine rankOrdered_of_visited h hvisited ?_
    intro entry _ table htable
    obtain ⟨analyzed, hentry, hmem⟩ := mem_foundAt.mp htable
    rw [(tables analyzed).origin_eq (hfound analyzed table hmem), (h.exists_rank hentry).1]
  rw [nil_append]
  exact List.Pairwise.sublist (take_sublist _ _) hordered

theorem resolveTable_rankOrdered (hsound : SchemaIndexSound catalog) (name : QualifiedTableName)
    (ignoreEntry : CatalogEntryId) (limit : ℕ) :
    ∃ out, catalog.resolveTable tables name ignoreEntry [] limit = some out ∧
      RankOrdered catalog out := by
  rw [resolveTable_eq h]
  split_ifs
  · have hvisited := visited_entriesOfQualifiedSchema h name.databaseName name.schemaName
    have hordered : RankOrdered catalog (directHits tables catalog name ignoreEntry) := by
      rw [directHits, filterMap_eq_flatMap_toList]
      refine rankOrdered_of_visited h hvisited ?_
      intro entry _ table htable
      obtain ⟨-, analyzed, hentry, hfind⟩ :=
        directHit_eq_some_iff.mp (mem_toList.mp htable)
      have hmem := ((tables analyzed).findQualifiedName_eq_some hfind).1
      rw [(tables analyzed).origin_eq hmem, (h.exists_rank hentry).1]
    refine ⟨_, rfl, ?_⟩
    rw [EntryTables.pushUpTo_eq, nil_append]
    exact List.Pairwise.sublist (take_sublist _ _) hordered
  · have hvisited := (visited_entriesOfSchema h hsound name.schemaName).filter
      fun entry => entry.2 ≠ ignoreEntry
    exact @resolveThrough_rankOrdered tables catalog entryIdOf h _ hvisited _
      (fun analyzed table htable => ((tables analyzed).mem_schemaRange.mp htable).1) limit
  · exact @resolveThrough_rankOrdered tables catalog entryIdOf h _ (visited_rankedEntries catalog) _
      (fun analyzed table htable => (tables analyzed).mem_of_mem_fromName htable) limit
  · exact ⟨[], rfl, List.Pairwise.nil⟩

end

end Results

/-- In every state of every run, `Catalog::ResolveTable` returns what it is asked for exactly
if the name is unambiguous through the catalog, in the order of the ranks in any case, and
the lookups of an entry exactly if they find no other table. -/
theorem lookups_sound_iff (address : ℕ) (catalogOf : ScriptAddress → ℕ)
    (entryIdOf : ScriptAddress → CatalogEntryId) (events : List Event)
    (tables : ∀ analyzed : AnalyzedScript, EntryTables analyzed) (name : QualifiedTableName)
    (ignoreEntry : CatalogEntryId) :
    let catalog := ((World.initial address catalogOf entryIdOf).run events).catalog
    ((∀ limit, ∃ out, catalog.resolveTable tables name ignoreEntry [] limit = some out ∧
        ∀ table ∈ out, table.Matches name ∧ table.objectId.origin ≠ ignoreEntry) ↔
      UnambiguousThrough tables catalog name ignoreEntry) ∧
    (∀ limit, ∃ out, catalog.resolveTable tables name ignoreEntry [] limit = some out ∧
      RankOrdered catalog out) ∧
    ∀ analyzed : AnalyzedScript,
      ((∀ limit, ∀ table ∈ (tables analyzed).resolveTable name limit [], table.Matches name) ↔
        (tables analyzed).Unambiguous name) ∧
      ((∀ limit, ∀ table ∈
          (tables analyzed).resolveTableInSchema name.schemaName name.tableName limit [],
          table.Matches ⟨[], name.schemaName, name.tableName⟩) ↔
        (tables analyzed).OnlyTable name.schemaName name.tableName) ∧
      ((∀ limit, ∀ table ∈ (tables analyzed).resolveTableEverywhere name.tableName limit [],
          table.Matches ⟨[], [], name.tableName⟩) ↔
        (tables analyzed).LastInHashMap name.tableName) := by
  intro catalog
  obtain ⟨⟨entryIdOf', hconsistent⟩, hsound⟩ :=
    World.lookupsReady_of_run address catalogOf entryIdOf events
  refine ⟨resolveTable_sound hconsistent hsound name ignoreEntry,
    resolveTable_rankOrdered hconsistent hsound name ignoreEntry, fun analyzed => ?_⟩
  exact ⟨(tables analyzed).resolveTable_sound_iff, (tables analyzed).resolveTableInSchema_sound_iff,
    (tables analyzed).resolveTableEverywhere_sound_iff⟩

/-! ## A schema with two tables -/

/-- Script 1 references the schema `a` of the database `d`. -/
def oneSchemaRun : Catalog :=
  ((World.initial 0 (fun _ => 0) id).run [.analyze 1 [([100], [97])], .load 1 0]).catalog

/-- Asked for the table `t` of the schema `a`, the lookup also returns the table `u`. -/
theorem lookups_return_other_table :
    ∃ out, oneSchemaRun.resolveTable (tablesNamed [[116], [117]]) ⟨[], [97], [116]⟩ 0 [] 100 =
        some out ∧ ∃ table ∈ out, table.name = [117] := by
  have hout : (oneSchemaRun.resolveTable (tablesNamed [[116], [117]]) ⟨[], [97], [116]⟩ 0 []
      100).any (fun out => out.any fun table => table.name = [117]) = true := by
    decide +kernel
  obtain ⟨out, hout, hany⟩ := (Option.any_eq_true _ _).mp hout
  obtain ⟨table, htable, hname⟩ := any_eq_true.mp hany
  exact ⟨out, hout, table, htable, of_decide_eq_true hname⟩

end DashQL.Catalog
