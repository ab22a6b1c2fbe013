import DashQL.Catalog.Index

/-!
# The tables of an entry

The operations of the catalog read no tables, but its lookups do.  `EntryTables`
is what an analysis has of them: the declarations in the order of the text, the
hash multimap by name in its iteration order, and what the name resolution pass
guarantees.  The other two indexes are functions of the declarations.

The catalog stores the analyses, so a lookup gets the tables of each of them
along with it.  A scan of a lookup stops when its output has reached the limit;
`entries.at` throws if there is no entry.
-/

namespace DashQL.Catalog

open List

structure QualifiedTableName where
  databaseName : Name
  schemaName : Name
  tableName : Name
  deriving DecidableEq

structure CatalogTableId where
  origin : CatalogEntryId
  object : ℕ
  deriving DecidableEq

/-- `CatalogEntry::TableDeclaration`, with the names of its columns. -/
structure TableDeclaration where
  objectId : CatalogTableId
  catalogSchemaId : QualifiedCatalogObjectId
  tableName : QualifiedTableName
  tableColumns : List Name
  deriving DecidableEq

def TableDeclaration.name (table : TableDeclaration) : Name := table.tableName.tableName

/-- The key of `tables_by_unqualified_schema`. -/
def TableDeclaration.unqualifiedSchema (table : TableDeclaration) : QualifiedSchema :=
  toLex (table.tableName.schemaName, table.tableName.databaseName)

structure EntryTables (analyzed : AnalyzedScript) where
  tableDeclarations : List TableDeclaration
  tablesByUnqualifiedName : List TableDeclaration
  table_id : ∀ (index : ℕ) (table : TableDeclaration), tableDeclarations[index]? = some table →
    table.objectId = ⟨analyzed.catalogEntryId, index⟩
  table_schema : ∀ table ∈ tableDeclarations, ∃ ref,
    analyzed.schemasByQualifiedName[
      qualifiedSchema table.tableName.databaseName table.tableName.schemaName]? = some ref ∧
      ref.objectId = table.catalogSchemaId
  unqualified_perm : tablesByUnqualifiedName.Perm tableDeclarations

/-- The declarations of tables with the same names in every schema of an analysis. -/
def declarationsNamed (names : List Name) (analyzed : AnalyzedScript) : List TableDeclaration :=
  (analyzed.schemaReferences.flatMap fun ref => names.map fun name => (ref, name)).zipIdx.map
    fun entry => ⟨⟨analyzed.catalogEntryId, entry.2⟩, entry.1.1.objectId,
      ⟨entry.1.1.databaseName, entry.1.1.schemaName, entry.1.2⟩, []⟩

def tablesNamed (names : List Name) (analyzed : AnalyzedScript) : EntryTables analyzed where
  tableDeclarations := declarationsNamed names analyzed
  tablesByUnqualifiedName := declarationsNamed names analyzed
  table_id := by
    intro index table htable
    simp only [declarationsNamed, getElem?_map, getElem?_zipIdx] at htable
    obtain ⟨entry, hentry, rfl⟩ := Option.map_eq_some_iff.mp htable
    obtain ⟨named, -, rfl⟩ := Option.map_eq_some_iff.mp hentry
    simp
  table_schema := by
    intro table htable
    obtain ⟨entry, hentry, rfl⟩ := mem_map.mp htable
    have hmem := fst_mem_of_mem_zipIdx hentry
    obtain ⟨ref, href, hnamed⟩ := mem_flatMap.mp hmem
    obtain ⟨name, -, heq⟩ := mem_map.mp hnamed
    refine ⟨ref, ?_, ?_⟩
    · rw [← heq]
      exact mem_schemaReferences.mp href
    · rw [← heq]
  unqualified_perm := .refl _

namespace EntryTables

variable {analyzed : AnalyzedScript} (tables : EntryTables analyzed)

/-! ## Indexes -/

/-- `tables_by_qualified_name.find`; of two declarations the first was inserted. -/
def findQualifiedName (name : QualifiedTableName) : Option TableDeclaration :=
  tables.tableDeclarations.find? fun table => table.tableName = name

def tablesByUnqualifiedSchema : List TableDeclaration :=
  (tables.tableDeclarations.filter fun table => table.tableName.schemaName ≠ []).insertionSort
    fun table other => table.unqualifiedSchema ≤ other.unqualifiedSchema

def textLb : Name := []

def textUb : Name := [0x7F]

/-- The tables from `lower_bound` to `upper_bound` of a schema, between the two texts. -/
def schemaRange (schemaName : Name) : List TableDeclaration :=
  let fromLb := tables.tablesByUnqualifiedSchema.dropWhile fun table =>
    table.unqualifiedSchema < toLex (schemaName, textLb)
  fromLb.takeWhile fun table => table.unqualifiedSchema ≤ toLex (schemaName, textUb)

/-! ## Lookups -/

/-- A loop that pushes tables until the output has reached the limit. -/
def pushUpTo (limit : ℕ) : List TableDeclaration → List TableDeclaration → List TableDeclaration
  | [], out => out
  | table :: rest, out =>
    let out := out ++ [table]
    if limit ≤ out.length then out else pushUpTo limit rest out

/-- `CatalogEntry::ResolveTableInSchema`, which does not look at the table name. -/
def resolveTableInSchema (schemaName _tableName : Name) (limit : ℕ)
    (out : List TableDeclaration) : List TableDeclaration :=
  pushUpTo limit (tables.schemaRange schemaName) out

/-- `CatalogEntry::ResolveTableEverywhere`, from the first table of the name to the end
of the hash map. -/
def resolveTableEverywhere (tableName : Name) (limit : ℕ) (out : List TableDeclaration) :
    List TableDeclaration :=
  pushUpTo limit (tables.tablesByUnqualifiedName.dropWhile fun table => table.name ≠ tableName) out

def resolveTable (name : QualifiedTableName) (limit : ℕ) (out : List TableDeclaration) :
    List TableDeclaration :=
  match tables.findQualifiedName name with
  | some table => out ++ [table]
  | none =>
    if name.databaseName = [] then
      if name.schemaName = [] then tables.resolveTableEverywhere name.tableName limit out
      else tables.resolveTableInSchema name.schemaName name.tableName limit out
    else out

end EntryTables

/-! ## Lookups in the catalog -/

/-- The entries of `entries_by_qualified_schema` for a schema, from the least rank and id
to the greatest. -/
def entriesOfQualifiedSchema (catalog : Catalog) (databaseName schemaName : Name) :
    List (Rank × CatalogEntryId) :=
  (catalog.entriesByQualifiedSchema.toList.filter fun entry =>
      (ofLex entry.1).1 = databaseName ∧ (ofLex (ofLex entry.1).2).1 = schemaName).map
    fun entry => ofLex (ofLex (ofLex entry.1).2).2

/-- The entries of `entries_by_schema` for a schema, from the least rank and id to the
greatest. -/
def entriesOfSchema (catalog : Catalog) (schemaName : Name) : List (Rank × CatalogEntryId) :=
  (catalog.entriesBySchema.toList.filter fun entry => (ofLex entry.1).1 = schemaName).map
    fun entry => ofLex (ofLex entry.1).2

def rankedEntries (catalog : Catalog) : List (Rank × CatalogEntryId) :=
  catalog.entriesRanked.toList.map fun entry => ofLex entry.1

section Lookups

variable (tables : ∀ analyzed : AnalyzedScript, EntryTables analyzed) (catalog : Catalog)

/-- The first loop of `Catalog::ResolveTable`, over the entries with the schema. -/
def resolveDirect (name : QualifiedTableName) (ignoreEntry : CatalogEntryId) (limit : ℕ) :
    List (Rank × CatalogEntryId) → List TableDeclaration → Option (List TableDeclaration)
  | [], out => some out
  | (_, candidate) :: rest, out =>
    if candidate = ignoreEntry then resolveDirect name ignoreEntry limit rest out
    else
      match catalog.entries[candidate]? with
      | none => none
      | some entry =>
        match (tables entry).findQualifiedName name with
        | none => resolveDirect name ignoreEntry limit rest out
        | some table =>
          let out := out ++ [table]
          if limit ≤ out.length then some out
          else resolveDirect name ignoreEntry limit rest out

/-- The other two loops of `Catalog::ResolveTable`: the lookup of each entry pushes its
tables, until the output has reached the limit. -/
def resolveThrough (limit : ℕ)
    (lookup : AnalyzedScript → List TableDeclaration → List TableDeclaration) :
    List (Rank × CatalogEntryId) → List TableDeclaration → Option (List TableDeclaration)
  | [], out => some out
  | (_, candidate) :: rest, out =>
    match catalog.entries[candidate]? with
    | none => none
    | some entry =>
      let out := lookup entry out
      if limit ≤ out.length then some out else resolveThrough limit lookup rest out

/-- `Catalog::ResolveTable`.  The loop over all ranked entries does not skip the ignored
one. -/
def resolveTable (name : QualifiedTableName) (ignoreEntry : CatalogEntryId)
    (out : List TableDeclaration) (limit : ℕ) : Option (List TableDeclaration) :=
  (catalog.resolveDirect tables name ignoreEntry limit
      (catalog.entriesOfQualifiedSchema name.databaseName name.schemaName) out).bind fun out =>
    if out.length > 0 then some out
    else if name.databaseName = [] then
      if name.schemaName ≠ [] then
        catalog.resolveThrough limit
          (fun entry => (tables entry).resolveTableInSchema name.schemaName name.tableName limit)
          ((catalog.entriesOfSchema name.schemaName).filter fun entry => entry.2 ≠ ignoreEntry) out
      else
        catalog.resolveThrough limit
          (fun entry => (tables entry).resolveTableEverywhere name.tableName limit)
          catalog.rankedEntries out
    else some out

/-- `CatalogEntry::ResolveSchemaTablesWithCatalog` of an entry that may not be loaded:
its own tables, and the ones that it has through the catalog. -/
def resolveSchemaTablesWithCatalog (own : AnalyzedScript) (schemaName : Name) :
    Option (List (TableDeclaration × Bool)) :=
  let others := (catalog.entriesOfSchema schemaName).filter fun entry =>
    entry.2 ≠ own.catalogEntryId
  (others.mapM fun entry => catalog.entries[entry.2]?).map fun found =>
    ((tables own).schemaRange schemaName).map (·, false) ++
      (found.flatMap fun entry => (tables entry).schemaRange schemaName).map (·, true)

end Lookups

end DashQL.Catalog
