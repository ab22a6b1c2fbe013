import DashQL.Library.OrderedMap

/-!
# The catalog, its entries and its four operations

This file embeds `Catalog` of `catalog.h` and `catalog.cc`: the registered
databases and schemas, the loaded entries with their indexes, and
`LoadScript`, `UpdateScript`, `DropScript` and `Clear`.  Names are byte strings
compared as `std::string_view` compares them, and every index keyed by a view is
keyed by the text it views.

An operation that throws keeps what it changed before it threw.  That is why
`loadScript` returns the catalog *and* a status: the status is the code of the
exception, `ok` when none is thrown.

`btree::map` and `btree::set` are ordered maps.  So are the unordered maps of
the catalog, whose iteration order no operation here depends on; the unordered
map of an analyzed script *is* iterated by `LoadScript`, and is a list in that
iteration order.
-/

namespace DashQL

namespace Catalog

/-- `std::char_traits<char>` compares bytes as unsigned numbers. -/
scoped instance byteOrder : LinearOrder UInt8 where
  le_refl _ := UInt8.le_refl _
  le_trans _ _ _ := UInt8.le_trans
  lt_iff_le_not_ge a b := by
    rw [UInt8.lt_iff_toNat_lt, UInt8.le_iff_toNat_le, UInt8.le_iff_toNat_le]
    omega
  le_antisymm _ _ := UInt8.le_antisymm
  le_total := UInt8.le_total
  toDecidableLE := inferInstance
  toDecidableEq := inferInstance
  toDecidableLT := inferInstance

/-- The text of a `std::string_view`. -/
abbrev Name := List UInt8

scoped instance nameEq : LawfulBEq Name := inferInstance

instance nameOrder : Std.TransCmp (@compare Name LinearOrder.toOrd) := inferInstance

abbrev CatalogEntryId := ℕ

abbrev Rank := ℕ

scoped instance rankedEntryOrder : Std.TransCmp (@compare (Rank ×ₗ CatalogEntryId) LinearOrder.toOrd) :=
  inferInstance

abbrev ScriptAddress := ℕ

inductive CatalogObjectType where
  | deferred
  | databaseReference
  | schemaReference
  deriving DecidableEq

structure QualifiedCatalogObjectId where
  type : CatalogObjectType
  part0 : ℕ
  part1 : ℕ
  deriving DecidableEq

namespace QualifiedCatalogObjectId

def database (databaseId : ℕ) : QualifiedCatalogObjectId :=
  ⟨.databaseReference, databaseId, 0⟩

def schema (databaseId schemaId : ℕ) : QualifiedCatalogObjectId :=
  ⟨.schemaReference, databaseId, schemaId⟩

def unpackDatabaseId (objectId : QualifiedCatalogObjectId) : ℕ := objectId.part0

end QualifiedCatalogObjectId

/-- `CatalogEntry::DatabaseReference`, and `Catalog::DatabaseDeclaration`, which
adds only the buffers that own the two names. -/
structure DatabaseReference where
  objectId : QualifiedCatalogObjectId
  databaseName : Name
  databaseAlias : Name
  deriving DecidableEq

/-- `CatalogEntry::SchemaReference` and `Catalog::SchemaDeclaration`. -/
structure SchemaReference where
  objectId : QualifiedCatalogObjectId
  databaseName : Name
  schemaName : Name
  deriving DecidableEq

/-- The key `(database, schema)`. -/
abbrev QualifiedSchema := Name ×ₗ Name

instance qualifiedSchemaOrder : Std.TransCmp (@compare QualifiedSchema LinearOrder.toOrd) :=
  inferInstance

def qualifiedSchema (databaseName schemaName : Name) : QualifiedSchema :=
  toLex (databaseName, schemaName)

/-- The key `(database, schema, rank, entry)` of `entries_by_qualified_schema`. -/
abbrev QualifiedSchemaKey := Name ×ₗ (Name ×ₗ (Rank ×ₗ CatalogEntryId))

instance qualifiedSchemaKeyOrder : Std.TransCmp (@compare QualifiedSchemaKey LinearOrder.toOrd) :=
  inferInstance

def qualifiedSchemaKey (databaseName schemaName : Name) (rank : Rank) (entryId : CatalogEntryId) :
    QualifiedSchemaKey :=
  toLex (databaseName, toLex (schemaName, toLex (rank, entryId)))

/-- The key `(schema, rank, entry)` of `entries_by_schema`. -/
abbrev SchemaKey := Name ×ₗ (Rank ×ₗ CatalogEntryId)

instance schemaKeyOrder : Std.TransCmp (@compare SchemaKey LinearOrder.toOrd) :=
  inferInstance

def schemaKey (schemaName : Name) (rank : Rank) (entryId : CatalogEntryId) : SchemaKey :=
  toLex (schemaName, toLex (rank, entryId))

/-- What the catalog reads of an `AnalyzedScript`.  `address` is the object the
shared pointers point to.  The last four fields are what `RegisterSchema`
guarantees: each map is keyed by the names in its values, and a database is
referenced exactly when one of its schemas is. -/
structure AnalyzedScript where
  address : ℕ
  catalogEntryId : CatalogEntryId
  databasesByName : List DatabaseReference
  schemasByQualifiedName : OrderedMap QualifiedSchema SchemaReference
  databases_nodup : (databasesByName.map DatabaseReference.databaseName).Nodup
  schemas_keyed : ∀ key ref, schemasByQualifiedName[key]? = some ref →
    key = qualifiedSchema ref.databaseName ref.schemaName
  database_of_schema : ∀ databaseName schemaName,
    qualifiedSchema databaseName schemaName ∈ schemasByQualifiedName →
      databaseName ∈ databasesByName.map DatabaseReference.databaseName
  schema_of_database : ∀ databaseName ∈ databasesByName.map DatabaseReference.databaseName,
    ∃ schemaName, qualifiedSchema databaseName schemaName ∈ schemasByQualifiedName

def AnalyzedScript.databaseNames (analyzed : AnalyzedScript) : List Name :=
  analyzed.databasesByName.map DatabaseReference.databaseName

/-- What the catalog reads of a `Script`. -/
structure Script where
  catalog : ℕ
  catalogEntryId : CatalogEntryId
  analyzedScript : Option AnalyzedScript
  entry_id : ∀ analyzed ∈ analyzedScript, analyzed.catalogEntryId = catalogEntryId

/-- `Catalog::ScriptEntry`; the script it refers to is the key it is stored under. -/
structure ScriptEntry where
  analyzed : AnalyzedScript
  rank : Rank

structure CatalogSchemaEntryInfo where
  catalogEntryId : CatalogEntryId
  catalogSchemaId : QualifiedCatalogObjectId
  deriving DecidableEq

/-- The status codes that `LoadScript` throws. -/
inductive StatusCode where
  | ok
  | catalogScriptNotAnalyzed
  | catalogMismatch
  | externalIdCollision
  | catalogIdOutOfSync
  deriving DecidableEq

end Catalog

open Catalog

structure Catalog where
  address : ℕ
  version : ℕ
  entries : OrderedMap CatalogEntryId AnalyzedScript
  scriptEntries : OrderedMap ScriptAddress ScriptEntry
  entriesRanked : OrderedMap (Rank ×ₗ CatalogEntryId) Unit
  entriesByQualifiedSchema : OrderedMap QualifiedSchemaKey CatalogSchemaEntryInfo
  entriesBySchema : OrderedMap SchemaKey CatalogSchemaEntryInfo
  nextDatabaseId : ℕ
  nextSchemaId : ℕ
  databases : OrderedMap Name DatabaseReference
  schemas : OrderedMap QualifiedSchema SchemaReference

namespace Catalog

def initialDatabaseId : ℕ := 1 <<< 8

def initialSchemaId : ℕ := 1 <<< 16

def empty (address : ℕ) : Catalog where
  address := address
  version := 1
  entries := ∅
  scriptEntries := ∅
  entriesRanked := ∅
  entriesByQualifiedSchema := ∅
  entriesBySchema := ∅
  nextDatabaseId := initialDatabaseId
  nextSchemaId := initialSchemaId
  databases := ∅
  schemas := ∅

/-! ## Allocating ids -/

def allocateDatabaseId (catalog : Catalog) (database : Name) : QualifiedCatalogObjectId × Catalog :=
  match catalog.databases[database]? with
  | some declaration => (declaration.objectId, catalog)
  | none => (.database catalog.nextDatabaseId,
      { catalog with nextDatabaseId := catalog.nextDatabaseId + 1 })

def allocateSchemaId (catalog : Catalog) (database schema : Name)
    (databaseId : QualifiedCatalogObjectId) : QualifiedCatalogObjectId × Catalog :=
  match catalog.schemas[qualifiedSchema database schema]? with
  | some declaration => (declaration.objectId, catalog)
  | none => (.schema databaseId.unpackDatabaseId catalog.nextSchemaId,
      { catalog with nextSchemaId := catalog.nextSchemaId + 1 })

/-! ## Loading a script -/

/-- The two loops of `LoadScript` that declare names.  A name registered under
another id throws; a name not yet registered is registered. -/
def declareReferences {κ ρ : Type} [LinearOrder κ] (key : ρ → κ)
    (objectId : ρ → QualifiedCatalogObjectId) :
    List ρ → OrderedMap κ ρ → OrderedMap κ ρ × StatusCode
  | [], registered => (registered, .ok)
  | ref :: rest, registered =>
    match registered[key ref]? with
    | some declaration =>
      if objectId declaration ≠ objectId ref then (registered, .catalogIdOutOfSync)
      else declareReferences key objectId rest registered
    | none => declareReferences key objectId rest (registered.insertIfNew (key ref) ref)

def SchemaReference.key (ref : SchemaReference) : QualifiedSchema :=
  qualifiedSchema ref.databaseName ref.schemaName

/-- The schema references of an entry, in the order of its `btree::map`. -/
def AnalyzedScript.schemaReferences (analyzed : AnalyzedScript) : List SchemaReference :=
  analyzed.schemasByQualifiedName.toList.map Prod.snd

def declareDatabases (refs : List DatabaseReference) (registered : OrderedMap Name DatabaseReference) :
    OrderedMap Name DatabaseReference × StatusCode :=
  declareReferences DatabaseReference.databaseName DatabaseReference.objectId refs registered

def declareSchemas (refs : List SchemaReference)
    (registered : OrderedMap QualifiedSchema SchemaReference) :
    OrderedMap QualifiedSchema SchemaReference × StatusCode :=
  declareReferences SchemaReference.key SchemaReference.objectId refs registered

/-- Adds the two index keys of one schema reference. -/
def insertSchemaKeys (catalog : Catalog) (entryId : CatalogEntryId) (rank : Rank)
    (ref : SchemaReference) : Catalog :=
  let entryInfo : CatalogSchemaEntryInfo := ⟨entryId, ref.objectId⟩
  { catalog with
    entriesByQualifiedSchema := catalog.entriesByQualifiedSchema.insertIfNew
      (qualifiedSchemaKey ref.databaseName ref.schemaName rank entryId) entryInfo
    entriesBySchema := catalog.entriesBySchema.insertIfNew
      (schemaKey ref.schemaName rank entryId) entryInfo }

/-- The end of `LoadScript`, which can no longer throw. -/
def registerEntry (catalog : Catalog) (self : ScriptAddress) (analyzed : AnalyzedScript)
    (rank : Rank) : Catalog :=
  let entryId := analyzed.catalogEntryId
  let catalog := analyzed.schemaReferences.foldl
    (fun catalog ref => catalog.insertSchemaKeys entryId rank ref) catalog
  { catalog with
    scriptEntries := catalog.scriptEntries.insertIfNew self ⟨analyzed, rank⟩
    entries := catalog.entries.insertIfNew entryId analyzed
    entriesRanked := catalog.entriesRanked.insertIfNew (toLex (rank, entryId)) ()
    version := catalog.version + 1 }

/-! ## Updating a loaded script -/

/-- The databases that one analysis references and another does not. -/
def AnalyzedScript.databasesMissingFrom (analyzed other : AnalyzedScript) :
    List DatabaseReference :=
  analyzed.databasesByName.filter fun ref => decide (ref.databaseName ∉ other.databaseNames)

/-- The schemas that one analysis references and another does not. -/
def AnalyzedScript.schemasMissingFrom (analyzed other : AnalyzedScript) : List SchemaReference :=
  analyzed.schemaReferences.filter fun ref => decide (ref.key ∉ other.schemasByQualifiedName)

/-- Inserts the databases of the new analysis that the previous one did not reference. -/
def insertNewDatabases (catalog : Catalog) (previous analyzed : AnalyzedScript) : Catalog :=
  { catalog with
    databases := (analyzed.databasesMissingFrom previous).foldl
      (fun databases ref => databases.insertIfNew ref.databaseName
        ⟨ref.objectId, ref.databaseName, []⟩) catalog.databases }

/-- Whether `entries_by_qualified_schema` still has a key of that schema. -/
def hasQualifiedSchema (index : OrderedMap QualifiedSchemaKey CatalogSchemaEntryInfo)
    (databaseName schemaName : Name) : Bool :=
  match index.lowerBound (qualifiedSchemaKey databaseName schemaName 0 0) with
  | none => false
  | some (key, _) => decide ((ofLex key).1 = databaseName ∧ (ofLex (ofLex key).2).1 = schemaName)

/-- Whether `entries_by_qualified_schema` still has a key of that database. -/
def hasDatabase (index : OrderedMap QualifiedSchemaKey CatalogSchemaEntryInfo)
    (databaseName : Name) : Bool :=
  match index.lowerBound (qualifiedSchemaKey databaseName [] 0 0) with
  | none => false
  | some (key, _) => decide ((ofLex key).1 = databaseName)

/-- Drops the keys of a schema that the new analysis no longer references, and
its declaration if no entry is left in the qualified index. -/
def dropSchema (catalog : Catalog) (entryId : CatalogEntryId) (rank : Rank)
    (ref : SchemaReference) : Catalog :=
  let index := catalog.entriesByQualifiedSchema.erase
    (qualifiedSchemaKey ref.databaseName ref.schemaName rank entryId)
  { catalog with
    entriesByQualifiedSchema := index
    entriesBySchema := catalog.entriesBySchema.erase (schemaKey ref.schemaName rank entryId)
    schemas :=
      if hasQualifiedSchema index ref.databaseName ref.schemaName then catalog.schemas
      else catalog.schemas.erase ref.key }

/-- Adds the keys of a schema that the previous analysis did not reference, and
its declaration if there is none. -/
def insertSchema (catalog : Catalog) (entryId : CatalogEntryId) (rank : Rank)
    (ref : SchemaReference) : Catalog :=
  let catalog := catalog.insertSchemaKeys entryId rank ref
  { catalog with schemas := catalog.schemas.insertIfNew ref.key ref }

/-- Erases the databases that only the previous analysis referenced and that no
entry of the qualified index keeps alive. -/
def eraseDeadDatabases (catalog : Catalog) (previous analyzed : AnalyzedScript) : Catalog :=
  { catalog with
    databases := ((previous.databasesMissingFrom analyzed).filter
        fun ref => !hasDatabase catalog.entriesByQualifiedSchema ref.databaseName).foldl
      (fun databases ref => databases.erase ref.databaseName) catalog.databases }

def updateScript (catalog : Catalog) (self : ScriptAddress) (entry : ScriptEntry)
    (entryId : CatalogEntryId) (analyzed : AnalyzedScript) : Catalog × StatusCode :=
  let previous := entry.analyzed
  -- Script stayed the same? Nothing to do then
  if previous.address = analyzed.address then (catalog, .ok) else
  let catalog := catalog.insertNewDatabases previous analyzed
  let catalog := (previous.schemasMissingFrom analyzed).foldl
    (fun catalog ref => catalog.dropSchema entryId entry.rank ref) catalog
  let catalog := (analyzed.schemasMissingFrom previous).foldl
    (fun catalog ref => catalog.insertSchema entryId entry.rank ref) catalog
  let catalog := catalog.eraseDeadDatabases previous analyzed
  ({ catalog with
    scriptEntries := catalog.scriptEntries.insert self { entry with analyzed := analyzed }
    entries := catalog.entries.insert entryId analyzed
    version := catalog.version + 1 }, .ok)

def loadScript (catalog : Catalog) (self : ScriptAddress) (script : Script) (rank : Rank) :
    Catalog × StatusCode :=
  match script.analyzedScript with
  | none => (catalog, .catalogScriptNotAnalyzed)
  | some analyzed =>
    if script.catalog ≠ catalog.address then (catalog, .catalogMismatch)
    else match catalog.scriptEntries[self]? with
      | some entry => catalog.updateScript self entry script.catalogEntryId analyzed
      | none =>
        if script.catalogEntryId ∈ catalog.entries then (catalog, .externalIdCollision)
        else
          let declared := declareDatabases analyzed.databasesByName catalog.databases
          let catalog := { catalog with databases := declared.1 }
          if declared.2 ≠ .ok then (catalog, declared.2)
          else
            let declared := declareSchemas analyzed.schemaReferences catalog.schemas
            let catalog := { catalog with schemas := declared.1 }
            if declared.2 ≠ .ok then (catalog, declared.2)
            else (catalog.registerEntry self analyzed rank, .ok)

/-! ## Dropping and clearing -/

def dropScript (catalog : Catalog) (self : ScriptAddress) (script : Script) : Catalog :=
  match catalog.scriptEntries[self]? with
  | none => catalog
  | some entry =>
    let entryId := script.catalogEntryId
    let refs := entry.analyzed.schemaReferences
    { catalog with
      entriesByQualifiedSchema := refs.foldl
        (fun index ref => index.erase
          (qualifiedSchemaKey ref.databaseName ref.schemaName entry.rank entryId))
        catalog.entriesByQualifiedSchema
      entriesBySchema := refs.foldl
        (fun index ref => index.erase (schemaKey ref.schemaName entry.rank entryId))
        catalog.entriesBySchema
      entriesRanked := catalog.entriesRanked.erase (toLex (entry.rank, entryId))
      entries := catalog.entries.erase entryId
      scriptEntries := catalog.scriptEntries.erase self
      version := catalog.version + 1 }

def clear (catalog : Catalog) : Catalog :=
  { catalog with
    entriesByQualifiedSchema := ∅
    entriesBySchema := ∅
    entriesRanked := ∅
    entries := ∅
    scriptEntries := ∅
    version := catalog.version + 1 }

end Catalog

end DashQL
