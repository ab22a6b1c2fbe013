import DashQL.Catalog.Flatten
import DashQL.Library.Levels

/-!
# The arrays that are written

The entries are written from the top of the tree down to its columns and back, so
four arrays and three indexes grow at once.  `written` is the state of the writer
when it has written certain nodes of each level, and the lemmas about the loops say
which nodes come in.  In the end the arrays have the rows of the levels of the forest
(`writeNodes_eq`).
-/

namespace DashQL.Catalog

open List Option

open Levels

/-! ## Rows of a level -/

section Rows

variable {α β : Type} (objectId nameId : α → ℕ) (children : α → List β)

/-- The entries of the nodes of a level, which come with the positions of their parents. -/
def rowsOf (level : List (ℕ × α)) : List FlatCatalogEntry :=
  level.zipIdx.map fun entry =>
    ⟨entry.2, entry.1.1, objectId entry.1.2, nameId entry.1.2,
      childCount children ((level.take entry.2).map Prod.snd), (children entry.1.2).length⟩

/-- The entries of the nodes of a level in the index by id. -/
def indexRowsOf (level : List (ℕ × α)) : List IndexedFlatEntry :=
  level.zipIdx.map fun entry => ⟨objectId entry.1.2, entry.2⟩

theorem length_rowsOf (level : List (ℕ × α)) :
    (rowsOf objectId nameId children level).length = level.length := by
  simp [rowsOf]

theorem length_indexRowsOf (level : List (ℕ × α)) :
    (indexRowsOf objectId level).length = level.length := by
  simp [indexRowsOf]

theorem rowsOf_concat (level : List (ℕ × α)) (parent : ℕ) (node : α) :
    rowsOf objectId nameId children (level ++ [(parent, node)]) =
      rowsOf objectId nameId children level ++
        [⟨level.length, parent, objectId node, nameId node,
          childCount children (level.map Prod.snd), (children node).length⟩] := by
  unfold rowsOf
  rw [zipIdx_append, map_append]
  congr 1
  · apply map_congr_left
    intro entry hentry
    obtain ⟨-, hlt, -⟩ := mem_zipIdx hentry
    rw [take_append_of_le_length (by omega)]
  · simp

theorem indexRowsOf_concat (level : List (ℕ × α)) (parent : ℕ) (node : α) :
    indexRowsOf objectId (level ++ [(parent, node)]) =
      indexRowsOf objectId level ++ [⟨objectId node, level.length⟩] := by
  simp [indexRowsOf, zipIdx_append]

/-- The next row goes behind those that are there. -/
theorem set_fill_rowsOf (size : ℕ) (level : List (ℕ × α)) (parent : ℕ) (node : α) :
    (fill .zero size (rowsOf objectId nameId children level)).set level.length
        ⟨level.length, parent, objectId node, nameId node,
          childCount children (level.map Prod.snd), (children node).length⟩ =
      fill .zero size (rowsOf objectId nameId children (level ++ [(parent, node)])) := by
  have hset := set_fill FlatCatalogEntry.zero size (rowsOf objectId nameId children level)
    ⟨level.length, parent, objectId node, nameId node,
      childCount children (level.map Prod.snd), (children node).length⟩
  rw [length_rowsOf] at hset
  rw [hset, rowsOf_concat]

theorem set_fill_indexRowsOf (size : ℕ) (level : List (ℕ × α)) (parent : ℕ) (node : α) :
    (fill .zero size (indexRowsOf objectId level)).set level.length ⟨objectId node, level.length⟩ =
      fill .zero size (indexRowsOf objectId (level ++ [(parent, node)])) := by
  have hset := set_fill IndexedFlatEntry.zero size (indexRowsOf objectId level)
    ⟨objectId node, level.length⟩
  rw [length_indexRowsOf] at hset
  rw [hset, indexRowsOf_concat]

variable {objectId nameId children}

theorem getElem?_rowsOf_iff {level : List (ℕ × α)} {i : ℕ} {entry : FlatCatalogEntry} :
    (rowsOf objectId nameId children level)[i]? = some entry ↔
      ∃ parent node, level[i]? = some (parent, node) ∧
        entry = ⟨i, parent, objectId node, nameId node,
          childCount children ((level.map Prod.snd).take i), (children node).length⟩ := by
  unfold rowsOf
  rw [getElem?_map, map_eq_some_iff]
  constructor
  · rintro ⟨⟨⟨parent, node⟩, position⟩, hentry, rfl⟩
    rw [getElem?_zipIdx, map_eq_some_iff] at hentry
    obtain ⟨found, hfound, heq⟩ := hentry
    obtain ⟨rfl, rfl⟩ := Prod.mk.inj heq
    refine ⟨parent, node, hfound, ?_⟩
    rw [Nat.zero_add, map_take]
  · rintro ⟨parent, node, hnode, rfl⟩
    refine ⟨((parent, node), i), ?_, ?_⟩
    · rw [getElem?_zipIdx, hnode, map_some, Nat.zero_add]
    · rw [map_take]

end Rows

/-! ## The levels of the forest -/

namespace FlattenNodes

variable (nodes : FlattenNodes)

/-- The columns of a table node, with their positions in the table. -/
def childColumns (node : TableNode) : List (ColumnNode × ℕ) :=
  ((nodes.columnNodes.drop node.childrenBegin).take node.childCount).zipIdx

def childTables (node : SchemaNode) : List TableNode := node.children.toList.map Prod.snd

def childSchemas (node : DatabaseNode) : List SchemaNode :=
  (node.children.toList.map Prod.snd).filterMap nodes.schemaNodes.get?

/-- The databases below the root. -/
def rootNodes : List DatabaseNode :=
  (nodes.root.toList.map Prod.snd).filterMap nodes.databaseNodes.get?

def databaseLevel : List (ℕ × DatabaseNode) := nodes.rootNodes.map fun node => (0, node)

def schemaLevel : List (ℕ × SchemaNode) := childLevel nodes.childSchemas nodes.rootNodes

def tableLevel : List (ℕ × TableNode) := childLevel childTables (nodes.schemaLevel.map Prod.snd)

def columnLevel : List (ℕ × (ColumnNode × ℕ)) :=
  childLevel nodes.childColumns (nodes.tableLevel.map Prod.snd)

/-- Every reference finds its node, and every table all its columns. -/
structure Resolved : Prop where
  root : ∀ databaseId ∈ nodes.root.toList.map Prod.snd,
    ∃ node, nodes.databaseNodes.get? databaseId = some node
  schema : ∀ databaseId node, nodes.databaseNodes.get? databaseId = some node →
    ∀ schemaId ∈ node.children.toList.map Prod.snd,
      ∃ child, nodes.schemaNodes.get? schemaId = some child
  columns : ∀ schemaId node, nodes.schemaNodes.get? schemaId = some node →
    ∀ table ∈ childTables node, table.childCount = (nodes.childColumns table).length

def databaseRows (level : List (ℕ × DatabaseNode)) : List FlatCatalogEntry :=
  rowsOf (fun node => node.databaseId.unpackDatabaseId) DatabaseNode.nameId nodes.childSchemas level

def schemaRows (level : List (ℕ × SchemaNode)) : List FlatCatalogEntry :=
  rowsOf (fun node => node.schemaId.part1) SchemaNode.nameId childTables level

def tableRows (level : List (ℕ × TableNode)) : List FlatCatalogEntry :=
  rowsOf (fun node => node.tableId.pack) TableNode.nameId nodes.childColumns level

def columnRows (level : List (ℕ × (ColumnNode × ℕ))) : List FlatCatalogEntry :=
  rowsOf Prod.snd (fun column => column.1.nameId) (fun _ => ([] : List Unit)) level

end FlattenNodes

/-! ## The loops -/

namespace FlatWriter

variable (nodes : FlattenNodes)

/-- The writer, when the nodes of the four lists have been written. -/
def written (databases : List (ℕ × DatabaseNode)) (schemas : List (ℕ × SchemaNode))
    (tables : List (ℕ × TableNode)) (columns : List (ℕ × (ColumnNode × ℕ)))
    (nextDatabaseIdx nextSchemaIdx nextTableIdx : ℕ) : FlatWriter where
  databaseEntries := fill .zero nodes.databaseNodes.keys.length (nodes.databaseRows databases)
  schemaEntries := fill .zero nodes.schemaNodes.keys.length (FlattenNodes.schemaRows schemas)
  tableEntries := fill .zero nodes.effectiveTableCount (nodes.tableRows tables)
  columnEntries := fill .zero nodes.columnNodes.length (FlattenNodes.columnRows columns)
  indexedDatabaseEntries := fill .zero nodes.databaseNodes.keys.length
    (indexRowsOf (fun node => node.databaseId.unpackDatabaseId) databases)
  indexedSchemaEntries := fill .zero nodes.schemaNodes.keys.length
    (indexRowsOf (fun node => node.schemaId.part1) schemas)
  indexedTableEntries := fill .zero nodes.effectiveTableCount
    (indexRowsOf (fun node => node.tableId.pack) tables)
  nextDatabaseIdx := nextDatabaseIdx
  nextSchemaIdx := nextSchemaIdx
  nextTableIdx := nextTableIdx
  nextColumnIdx := columns.length

def atTable (databases : List (ℕ × DatabaseNode)) (schemas : List (ℕ × SchemaNode))
    (tables : List (ℕ × TableNode)) (nextDatabaseIdx nextSchemaIdx : ℕ) : FlatWriter :=
  written nodes databases schemas tables (childLevel nodes.childColumns (tables.map Prod.snd))
    nextDatabaseIdx nextSchemaIdx tables.length

def atSchema (databases : List (ℕ × DatabaseNode)) (schemas : List (ℕ × SchemaNode))
    (nextDatabaseIdx : ℕ) : FlatWriter :=
  atTable nodes databases schemas (childLevel FlattenNodes.childTables (schemas.map Prod.snd))
    nextDatabaseIdx schemas.length

def atDatabase (databases : List (ℕ × DatabaseNode)) : FlatWriter :=
  atSchema nodes databases (childLevel nodes.childSchemas (databases.map Prod.snd)) databases.length

variable {nodes} {databases : List (ℕ × DatabaseNode)} {schemas : List (ℕ × SchemaNode)}
  {nextDatabaseIdx nextSchemaIdx nextTableIdx : ℕ}

variable {tables : List (ℕ × TableNode)}

theorem foldl_writeColumn (found : List (ColumnNode × ℕ)) :
    ∀ columns : List (ℕ × (ColumnNode × ℕ)),
      found.foldl writeColumn
          (written nodes databases schemas tables columns nextDatabaseIdx nextSchemaIdx nextTableIdx) =
        written nodes databases schemas tables
          (columns ++ found.map fun column => (nextTableIdx, column))
          nextDatabaseIdx nextSchemaIdx nextTableIdx := by
  induction found with
  | nil => intro columns; rw [map_nil, append_nil, foldl_nil]
  | cons column rest ih =>
    intro columns
    have hstep : writeColumn
        (written nodes databases schemas tables columns nextDatabaseIdx nextSchemaIdx nextTableIdx)
          column =
        written nodes databases schemas tables (columns ++ [(nextTableIdx, column)])
          nextDatabaseIdx nextSchemaIdx nextTableIdx := by
      have hrow := set_fill_rowsOf Prod.snd (fun column : ColumnNode × ℕ => column.1.nameId)
        (fun _ => ([] : List Unit)) nodes.columnNodes.length columns nextTableIdx column
      have hempty : childCount (fun _ : ColumnNode × ℕ => ([] : List Unit))
          (columns.map Prod.snd) = 0 := by
        rw [childCount, sum_eq_zero_iff]
        intro count hcount
        obtain ⟨_, -, rfl⟩ := List.mem_map.mp hcount
        rfl
      rw [hempty, length_nil] at hrow
      unfold writeColumn written FlattenNodes.columnRows
      dsimp only
      rw [hrow, length_append, length_singleton]
    rw [foldl_cons, hstep, ih, map_cons, append_assoc]
    rfl

theorem writeTableEntry_written {columns : List (ℕ × (ColumnNode × ℕ))} {node : TableNode}
    (hbegin : columns.length = childCount nodes.childColumns (tables.map Prod.snd))
    (hcount : node.childCount = (nodes.childColumns node).length) :
    writeTableEntry (written nodes databases schemas tables columns nextDatabaseIdx nextSchemaIdx
        tables.length) node =
      written nodes databases schemas (tables ++ [(nextSchemaIdx, node)]) columns nextDatabaseIdx
        nextSchemaIdx tables.length := by
  unfold writeTableEntry written FlattenNodes.tableRows
  dsimp only
  rw [hbegin, hcount, set_fill_rowsOf, set_fill_indexRowsOf]

theorem writeTable_atTable {node : TableNode}
    (hcount : node.childCount = (nodes.childColumns node).length) :
    writeTable nodes.columnNodes
        (atTable nodes databases schemas tables nextDatabaseIdx nextSchemaIdx) node =
      atTable nodes databases schemas (tables ++ [(nextSchemaIdx, node)]) nextDatabaseIdx
        nextSchemaIdx := by
  have hcolumns : ((nodes.columnNodes.drop node.childrenBegin).take node.childCount).zipIdx =
      nodes.childColumns node := rfl
  have hlevel : childLevel nodes.childColumns ((tables ++ [(nextSchemaIdx, node)]).map Prod.snd) =
      childLevel nodes.childColumns (tables.map Prod.snd) ++
        (nodes.childColumns node).map fun column => (tables.length, column) := by
    rw [map_append, map_singleton, childLevel_concat, length_map]
  unfold writeTable atTable
  dsimp only
  rw [writeTableEntry_written (length_childLevel _ _) hcount, hcolumns, foldl_writeColumn, hlevel,
    length_append, length_singleton]
  rfl

theorem foldl_writeTable (found : List TableNode)
    (hcount : ∀ node ∈ found, node.childCount = (nodes.childColumns node).length) :
    ∀ tables : List (ℕ × TableNode),
      found.foldl (writeTable nodes.columnNodes)
          (atTable nodes databases schemas tables nextDatabaseIdx nextSchemaIdx) =
        atTable nodes databases schemas (tables ++ found.map fun node => (nextSchemaIdx, node))
          nextDatabaseIdx nextSchemaIdx := by
  induction found with
  | nil => intro tables; rw [map_nil, append_nil, foldl_nil]
  | cons node rest ih =>
    intro tables
    have hstep := @writeTable_atTable nodes databases schemas nextDatabaseIdx nextSchemaIdx tables
      node (hcount node mem_cons_self)
    rw [foldl_cons, hstep, ih fun other hother => hcount other (mem_cons_of_mem _ hother),
      map_cons, append_assoc]
    rfl

theorem writeSchemaEntry_atTable {node : SchemaNode}
    (hbegin : tables.length = childCount FlattenNodes.childTables (schemas.map Prod.snd)) :
    writeSchemaEntry (atTable nodes databases schemas tables nextDatabaseIdx schemas.length) node =
      atTable nodes databases (schemas ++ [(nextDatabaseIdx, node)]) tables nextDatabaseIdx
        schemas.length := by
  have hcount : node.children.toList.length = (FlattenNodes.childTables node).length := by
    rw [FlattenNodes.childTables, length_map]
  unfold writeSchemaEntry atTable written FlattenNodes.schemaRows
  dsimp only
  rw [hbegin, hcount, set_fill_rowsOf, set_fill_indexRowsOf]

theorem writeSchema_atSchema {node : SchemaNode} (hcount : ∀ table ∈ FlattenNodes.childTables node,
      table.childCount = (nodes.childColumns table).length) :
    writeSchema nodes.columnNodes (atSchema nodes databases schemas nextDatabaseIdx) node =
      atSchema nodes databases (schemas ++ [(nextDatabaseIdx, node)]) nextDatabaseIdx := by
  have htables : node.children.toList.map Prod.snd = FlattenNodes.childTables node := rfl
  have hlevel : childLevel FlattenNodes.childTables
      ((schemas ++ [(nextDatabaseIdx, node)]).map Prod.snd) =
      childLevel FlattenNodes.childTables (schemas.map Prod.snd) ++
        (FlattenNodes.childTables node).map fun table => (schemas.length, table) := by
    rw [map_append, map_singleton, childLevel_concat, length_map]
  unfold writeSchema atSchema
  dsimp only
  rw [writeSchemaEntry_atTable (length_childLevel _ _), htables, foldl_writeTable _ hcount, hlevel,
    length_append, length_singleton]
  rfl

theorem foldlM_writeSchemaOf (found : List QualifiedCatalogObjectId)
    (hfound : ∀ schemaId ∈ found, ∃ node, nodes.schemaNodes.get? schemaId = some node ∧
      ∀ table ∈ FlattenNodes.childTables node,
        table.childCount = (nodes.childColumns table).length) :
    ∀ schemas : List (ℕ × SchemaNode),
      found.foldlM (writeSchemaOf nodes) (atSchema nodes databases schemas nextDatabaseIdx) =
        some (atSchema nodes databases (schemas ++
          (found.filterMap nodes.schemaNodes.get?).map fun node => (nextDatabaseIdx, node))
          nextDatabaseIdx) := by
  induction found with
  | nil => intro schemas; rw [filterMap_nil, map_nil, append_nil]; rfl
  | cons schemaId rest ih =>
    intro schemas
    obtain ⟨node, hnode, hcount⟩ := hfound schemaId mem_cons_self
    have hstep : writeSchemaOf nodes (atSchema nodes databases schemas nextDatabaseIdx) schemaId =
        some (atSchema nodes databases (schemas ++ [(nextDatabaseIdx, node)]) nextDatabaseIdx) := by
      rw [writeSchemaOf, hnode, map_some, writeSchema_atSchema hcount]
    rw [foldlM_cons, hstep, bind_eq_bind, bind_some,
      ih fun other hother => hfound other (mem_cons_of_mem _ hother),
      filterMap_cons_some hnode, map_cons, append_assoc]
    rfl

theorem writeDatabaseEntry_atSchema {node : DatabaseNode}
    (hbegin : schemas.length = childCount nodes.childSchemas (databases.map Prod.snd))
    (hcount : node.children.toList.length = (nodes.childSchemas node).length) :
    writeDatabaseEntry (atSchema nodes databases schemas databases.length) node =
      atSchema nodes (databases ++ [(0, node)]) schemas databases.length := by
  unfold writeDatabaseEntry atSchema atTable written FlattenNodes.databaseRows
  dsimp only
  rw [hbegin, hcount, set_fill_rowsOf, set_fill_indexRowsOf]

theorem length_filterMap_of_forall {α β : Type} {f : α → Option β} {items : List α}
    (h : ∀ item ∈ items, ∃ found, f item = some found) :
    (items.filterMap f).length = items.length := by
  induction items with
  | nil => rfl
  | cons item rest ih =>
    obtain ⟨found, hfound⟩ := h item mem_cons_self
    rw [filterMap_cons_some hfound, length_cons, length_cons,
      ih fun other hother => h other (mem_cons_of_mem _ hother)]

theorem writeDatabase_atDatabase (hresolved : nodes.Resolved)
    {databaseId : QualifiedCatalogObjectId} {node : DatabaseNode}
    (hnode : nodes.databaseNodes.get? databaseId = some node) :
    writeDatabase nodes (atDatabase nodes databases) node =
      some (atDatabase nodes (databases ++ [(0, node)])) := by
  have hchildren : ∀ schemaId ∈ node.children.toList.map Prod.snd,
      ∃ child, nodes.schemaNodes.get? schemaId = some child ∧
        ∀ table ∈ FlattenNodes.childTables child,
          table.childCount = (nodes.childColumns table).length := by
    intro schemaId hschemaId
    obtain ⟨child, hchild⟩ := hresolved.schema databaseId node hnode schemaId hschemaId
    exact ⟨child, hchild, hresolved.columns schemaId child hchild⟩
  have hcount : node.children.toList.length = (nodes.childSchemas node).length := by
    rw [FlattenNodes.childSchemas,
      length_filterMap_of_forall (hresolved.schema databaseId node hnode), length_map]
  have hschemas : (node.children.toList.map Prod.snd).filterMap nodes.schemaNodes.get? =
      nodes.childSchemas node := rfl
  have hlevel : childLevel nodes.childSchemas ((databases ++ [(0, node)]).map Prod.snd) =
      childLevel nodes.childSchemas (databases.map Prod.snd) ++
        (nodes.childSchemas node).map fun schema => (databases.length, schema) := by
    rw [map_append, map_singleton, childLevel_concat, length_map]
  unfold writeDatabase atDatabase
  dsimp only
  rw [writeDatabaseEntry_atSchema (length_childLevel _ _) hcount,
    foldlM_writeSchemaOf _ hchildren, hschemas, hlevel, length_append, length_singleton]
  rfl

theorem foldlM_writeDatabaseOf (hresolved : nodes.Resolved) (found : List QualifiedCatalogObjectId)
    (hfound : ∀ databaseId ∈ found, ∃ node, nodes.databaseNodes.get? databaseId = some node) :
    ∀ databases : List (ℕ × DatabaseNode),
      found.foldlM (writeDatabaseOf nodes) (atDatabase nodes databases) =
        some (atDatabase nodes (databases ++
          (found.filterMap nodes.databaseNodes.get?).map fun node => (0, node))) := by
  induction found with
  | nil => intro databases; rw [filterMap_nil, map_nil, append_nil]; rfl
  | cons databaseId rest ih =>
    intro databases
    obtain ⟨node, hnode⟩ := hfound databaseId mem_cons_self
    have hstep : writeDatabaseOf nodes (atDatabase nodes databases) databaseId =
        some (atDatabase nodes (databases ++ [(0, node)])) := by
      rw [writeDatabaseOf, hnode, bind_some, writeDatabase_atDatabase hresolved hnode]
    rw [foldlM_cons, hstep, bind_eq_bind, bind_some,
      ih fun other hother => hfound other (mem_cons_of_mem _ hother),
      filterMap_cons_some hnode, map_cons, append_assoc]
    rfl

theorem atDatabase_nil (nodes : FlattenNodes) : atDatabase nodes [] = allocate nodes := by
  have hentries : ∀ size, fill FlatCatalogEntry.zero size [] = List.replicate size .zero :=
    fill_nil FlatCatalogEntry.zero
  have hindex : ∀ size, fill IndexedFlatEntry.zero size [] = List.replicate size .zero :=
    fill_nil IndexedFlatEntry.zero
  unfold allocate
  simp only [← hentries, ← hindex]
  rfl

/-- All nodes below the root are written, level by level. -/
theorem writeNodes_eq (hresolved : nodes.Resolved) :
    writeNodes nodes = some (atDatabase nodes nodes.databaseLevel) := by
  rw [writeNodes, ← atDatabase_nil, foldlM_writeDatabaseOf hresolved _ hresolved.root]
  rfl

end FlatWriter

end DashQL.Catalog
