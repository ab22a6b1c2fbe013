import DashQL.Catalog.Tables
import DashQL.Library.InsertionMap

/-!
# Flattening the catalog

`Catalog::Flatten` first builds a tree of nodes: the databases and schemas of all
entries, found again by their object ids, and then the tables by rank, of which the
first one of a name in a schema is taken.  The tree is written into four arrays of
entries, every entry with its parent and the range of its children, and into three
indexes by object id.

`entries` is an unordered map, so the order in which its analyses come is an
argument.  A reference to a node is the object id under which its map has it;
indexes and ids are natural numbers.  `at` throws if there is no node.
-/

namespace DashQL.Catalog

def CatalogTableId.pack (tableId : CatalogTableId) : ℕ := tableId.origin <<< 32 ||| tableId.object

structure ColumnNode where
  columnId : ℕ
  nameId : ℕ

/-- The children are a range of the column nodes. -/
structure TableNode where
  tableId : CatalogTableId
  nameId : ℕ
  childrenBegin : ℕ
  childCount : ℕ

structure SchemaNode where
  schemaId : QualifiedCatalogObjectId
  nameId : ℕ
  children : OrderedMap Name TableNode

structure DatabaseNode where
  databaseId : QualifiedCatalogObjectId
  nameId : ℕ
  children : OrderedMap Name QualifiedCatalogObjectId

structure FlattenNodes where
  nameDictionary : List Name
  databaseNodes : InsertionMap QualifiedCatalogObjectId DatabaseNode
  schemaNodes : InsertionMap QualifiedCatalogObjectId SchemaNode
  tableNodes : List TableNode
  columnNodes : List ColumnNode
  root : OrderedMap Name QualifiedCatalogObjectId
  effectiveTableCount : ℕ

namespace FlattenNodes

def empty : FlattenNodes where
  nameDictionary := []
  databaseNodes := .empty
  schemaNodes := .empty
  tableNodes := []
  columnNodes := []
  root := ∅
  effectiveTableCount := 0

/-- `add_name`: the id of a name, and the dictionary that has it. -/
def addName (nameDictionary : List Name) (name : Name) : ℕ × List Name :=
  if name ∈ nameDictionary then (nameDictionary.idxOf name, nameDictionary)
  else (nameDictionary.length, nameDictionary ++ [name])

/-! ## Databases and schemas -/

def registerDatabase (nodes : FlattenNodes) (ref : DatabaseReference) : FlattenNodes :=
  if ref.objectId ∈ nodes.databaseNodes.keys then nodes
  else
    let (nameId, nameDictionary) := addName nodes.nameDictionary ref.databaseName
    { nodes with
      nameDictionary := nameDictionary
      databaseNodes := nodes.databaseNodes.set ref.objectId ⟨ref.objectId, nameId, ∅⟩
      root := nodes.root.insertIfNew ref.databaseName ref.objectId }

/-- Registers a schema, below the database that its id starts with. -/
def registerSchema (nodes : FlattenNodes) (ref : SchemaReference) : Option FlattenNodes :=
  if ref.objectId ∈ nodes.schemaNodes.keys then some nodes
  else
    let (nameId, nameDictionary) := addName nodes.nameDictionary ref.schemaName
    let databaseId := QualifiedCatalogObjectId.database ref.objectId.unpackDatabaseId
    match nodes.databaseNodes.get? databaseId with
    | none => none
    | some node => some
        { nodes with
          nameDictionary := nameDictionary
          schemaNodes := nodes.schemaNodes.set ref.objectId ⟨ref.objectId, nameId, ∅⟩
          databaseNodes := nodes.databaseNodes.set databaseId
            { node with children := node.children.insertIfNew ref.schemaName ref.objectId } }

def registerEntry (nodes : FlattenNodes) (analyzed : AnalyzedScript) : Option FlattenNodes :=
  analyzed.schemaReferences.foldlM registerSchema
    (analyzed.databasesByName.foldl registerDatabase nodes)

/-! ## Tables -/

/-- Adds the node of a column, given with its index. -/
def addColumn (nodes : FlattenNodes) (column : Name × ℕ) : FlattenNodes :=
  let (nameId, nameDictionary) := addName nodes.nameDictionary column.1
  { nodes with
    nameDictionary := nameDictionary
    columnNodes := nodes.columnNodes ++ [⟨column.2, nameId⟩] }

/-- Adds a table and its columns, if its schema does not have one of the name. -/
def addTable (nodes : FlattenNodes) (table : TableDeclaration) : Option FlattenNodes :=
  match nodes.schemaNodes.get? table.catalogSchemaId with
  | none => none
  | some schemaNode =>
    if table.name ∈ schemaNode.children then some nodes
    else
      let columnsBegin := nodes.columnNodes.length
      let nodes := table.tableColumns.zipIdx.foldl addColumn nodes
      let (nameId, nameDictionary) := addName nodes.nameDictionary table.name
      let tableNode := ⟨table.objectId, nameId, columnsBegin, table.tableColumns.length⟩
      some
        { nodes with
          nameDictionary := nameDictionary
          tableNodes := nodes.tableNodes ++ [tableNode]
          schemaNodes := nodes.schemaNodes.set table.catalogSchemaId
            { schemaNode with
              children := schemaNode.children.insertIfNew table.name tableNode }
          effectiveTableCount := nodes.effectiveTableCount + 1 }

end FlattenNodes

section Nodes

variable (tables : ∀ analyzed : AnalyzedScript, EntryTables analyzed) (catalog : Catalog)

def addEntryTables (nodes : FlattenNodes) (entry : Rank × CatalogEntryId) : Option FlattenNodes :=
  match catalog.entries[entry.2]? with
  | none => none
  | some analyzed => (tables analyzed).tableDeclarations.foldlM FlattenNodes.addTable nodes

/-- The nodes of all entries, whose analyses come in the given order. -/
def flattenNodes (order : List AnalyzedScript) : Option FlattenNodes :=
  (order.foldlM FlattenNodes.registerEntry FlattenNodes.empty).bind fun nodes =>
    catalog.rankedEntries.foldlM (addEntryTables tables catalog) nodes

end Nodes

/-! ## Writing the entries -/

structure FlatCatalogEntry where
  flatEntryIdx : ℕ
  flatParentIdx : ℕ
  catalogObjectId : ℕ
  nameId : ℕ
  childBegin : ℕ
  childCount : ℕ
  deriving DecidableEq

/-- An entry that is not written yet. -/
def FlatCatalogEntry.zero : FlatCatalogEntry := ⟨0, 0, 0, 0, 0, 0⟩

/-- `IndexedFlatDatabaseEntry`, `IndexedFlatSchemaEntry` and `IndexedFlatTableEntry`. -/
structure IndexedFlatEntry where
  objectId : ℕ
  flatEntryIdx : ℕ
  deriving DecidableEq

def IndexedFlatEntry.zero : IndexedFlatEntry := ⟨0, 0⟩

/-- The arrays, and where the next entries are written. -/
structure FlatWriter where
  databaseEntries : List FlatCatalogEntry
  schemaEntries : List FlatCatalogEntry
  tableEntries : List FlatCatalogEntry
  columnEntries : List FlatCatalogEntry
  indexedDatabaseEntries : List IndexedFlatEntry
  indexedSchemaEntries : List IndexedFlatEntry
  indexedTableEntries : List IndexedFlatEntry
  nextDatabaseIdx : ℕ
  nextSchemaIdx : ℕ
  nextTableIdx : ℕ
  nextColumnIdx : ℕ

namespace FlatWriter

/-- The arrays are allocated with the sizes of the node buffers. -/
def allocate (nodes : FlattenNodes) : FlatWriter where
  databaseEntries := List.replicate nodes.databaseNodes.keys.length .zero
  schemaEntries := List.replicate nodes.schemaNodes.keys.length .zero
  tableEntries := List.replicate nodes.effectiveTableCount .zero
  columnEntries := List.replicate nodes.columnNodes.length .zero
  indexedDatabaseEntries := List.replicate nodes.databaseNodes.keys.length .zero
  indexedSchemaEntries := List.replicate nodes.schemaNodes.keys.length .zero
  indexedTableEntries := List.replicate nodes.effectiveTableCount .zero
  nextDatabaseIdx := 0
  nextSchemaIdx := 0
  nextTableIdx := 0
  nextColumnIdx := 0

/-- Writes a column node, given with its position in the table. -/
def writeColumn (writer : FlatWriter) (column : ColumnNode × ℕ) : FlatWriter :=
  { writer with
    columnEntries := writer.columnEntries.set writer.nextColumnIdx
      ⟨writer.nextColumnIdx, writer.nextTableIdx, column.2, column.1.nameId, 0, 0⟩
    nextColumnIdx := writer.nextColumnIdx + 1 }

def writeTableEntry (writer : FlatWriter) (node : TableNode) : FlatWriter :=
  { writer with
    tableEntries := writer.tableEntries.set writer.nextTableIdx
      ⟨writer.nextTableIdx, writer.nextSchemaIdx, node.tableId.pack, node.nameId,
        writer.nextColumnIdx, node.childCount⟩
    indexedTableEntries := writer.indexedTableEntries.set writer.nextTableIdx
      ⟨node.tableId.pack, writer.nextTableIdx⟩ }

def writeTable (columnNodes : List ColumnNode) (writer : FlatWriter) (node : TableNode) :
    FlatWriter :=
  let columns := (columnNodes.drop node.childrenBegin).take node.childCount
  let writer := columns.zipIdx.foldl writeColumn (writer.writeTableEntry node)
  { writer with nextTableIdx := writer.nextTableIdx + 1 }

def writeSchemaEntry (writer : FlatWriter) (node : SchemaNode) : FlatWriter :=
  { writer with
    schemaEntries := writer.schemaEntries.set writer.nextSchemaIdx
      ⟨writer.nextSchemaIdx, writer.nextDatabaseIdx, node.schemaId.part1, node.nameId,
        writer.nextTableIdx, node.children.toList.length⟩
    indexedSchemaEntries := writer.indexedSchemaEntries.set writer.nextSchemaIdx
      ⟨node.schemaId.part1, writer.nextSchemaIdx⟩ }

/-- Writes a schema node and its tables. -/
def writeSchema (columnNodes : List ColumnNode) (writer : FlatWriter) (node : SchemaNode) :
    FlatWriter :=
  let children := node.children.toList.map Prod.snd
  let writer := children.foldl (writeTable columnNodes) (writer.writeSchemaEntry node)
  { writer with nextSchemaIdx := writer.nextSchemaIdx + 1 }

def writeDatabaseEntry (writer : FlatWriter) (node : DatabaseNode) : FlatWriter :=
  { writer with
    databaseEntries := writer.databaseEntries.set writer.nextDatabaseIdx
      ⟨writer.nextDatabaseIdx, 0, node.databaseId.unpackDatabaseId, node.nameId,
        writer.nextSchemaIdx, node.children.toList.length⟩
    indexedDatabaseEntries := writer.indexedDatabaseEntries.set writer.nextDatabaseIdx
      ⟨node.databaseId.unpackDatabaseId, writer.nextDatabaseIdx⟩ }

/-- Writes the schema that a reference refers to; a reference always finds its node. -/
def writeSchemaOf (nodes : FlattenNodes) (writer : FlatWriter)
    (schemaId : QualifiedCatalogObjectId) : Option FlatWriter :=
  (nodes.schemaNodes.get? schemaId).map (writeSchema nodes.columnNodes writer)

def writeDatabase (nodes : FlattenNodes) (writer : FlatWriter) (node : DatabaseNode) :
    Option FlatWriter :=
  let children := node.children.toList.map Prod.snd
  (children.foldlM (writeSchemaOf nodes) (writer.writeDatabaseEntry node)).map fun writer =>
    { writer with nextDatabaseIdx := writer.nextDatabaseIdx + 1 }

/-- Writes the database that a reference refers to. -/
def writeDatabaseOf (nodes : FlattenNodes) (writer : FlatWriter)
    (databaseId : QualifiedCatalogObjectId) : Option FlatWriter :=
  (nodes.databaseNodes.get? databaseId).bind (writeDatabase nodes writer)

def writeNodes (nodes : FlattenNodes) : Option FlatWriter :=
  (nodes.root.toList.map Prod.snd).foldlM (writeDatabaseOf nodes) (allocate nodes)

end FlatWriter

structure FlatCatalog where
  catalogVersion : ℕ
  nameDictionary : List Name
  databases : List FlatCatalogEntry
  schemas : List FlatCatalogEntry
  tables : List FlatCatalogEntry
  columns : List FlatCatalogEntry
  databasesById : List IndexedFlatEntry
  schemasById : List IndexedFlatEntry
  tablesById : List IndexedFlatEntry

def sortById (entries : List IndexedFlatEntry) : List IndexedFlatEntry :=
  entries.insertionSort fun entry other => entry.objectId ≤ other.objectId

def flatten (tables : ∀ analyzed : AnalyzedScript, EntryTables analyzed) (catalog : Catalog)
    (order : List AnalyzedScript) : Option FlatCatalog :=
  (catalog.flattenNodes tables order).bind fun nodes =>
    (FlatWriter.writeNodes nodes).map fun writer =>
      { catalogVersion := catalog.version
        nameDictionary := nodes.nameDictionary
        databases := writer.databaseEntries
        schemas := writer.schemaEntries
        tables := writer.tableEntries
        columns := writer.columnEntries
        databasesById := sortById writer.indexedDatabaseEntries
        schemasById := sortById writer.indexedSchemaEntries
        tablesById := sortById writer.indexedTableEntries }

end DashQL.Catalog
