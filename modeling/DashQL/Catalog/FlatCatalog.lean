import DashQL.Catalog.FlatRows

/-!
# Well-formed flat catalogs

What a reader of the flat catalog relies on: every entry knows its index, the ranges of
the children of a level partition the level below, children know their parents,
siblings are sorted by name, the indexes are sorted permutations, and every table is
the one that wins among the loaded entries.  The rows of the levels of a forest have
the shape by themselves; the names and the tables come from the nodes.
-/

namespace DashQL.Catalog

open List

open Levels

namespace FlatCatalog

/-! ## The shape of the arrays -/

/-- Every entry has its index. -/
def Numbered (entries : List FlatCatalogEntry) : Prop :=
  ∀ (i : ℕ) (entry : FlatCatalogEntry), entries[i]? = some entry → entry.flatEntryIdx = i

/-- The ranges of the parents follow one another and cover all children, and a child is in the
range of its parent. -/
structure Nested (parents children : List FlatCatalogEntry) : Prop where
  childBegin : ∀ (i : ℕ) (parent : FlatCatalogEntry), parents[i]? = some parent →
    parent.childBegin = ((parents.take i).map FlatCatalogEntry.childCount).sum
  total : (parents.map FlatCatalogEntry.childCount).sum = children.length
  parentIdx : ∀ (i : ℕ) (child : FlatCatalogEntry), children[i]? = some child →
    ∃ parent, parents[child.flatParentIdx]? = some parent ∧ parent.childBegin ≤ i ∧
      i < parent.childBegin + parent.childCount

/-- The index has the ids of the entries and where they stand, by id. -/
structure IsIndex (index : List IndexedFlatEntry) (entries : List FlatCatalogEntry) : Prop where
  perm : index.Perm (entries.map fun entry => ⟨entry.catalogObjectId, entry.flatEntryIdx⟩)
  sorted : index.Pairwise fun entry other => entry.objectId ≤ other.objectId

variable (flat : FlatCatalog)

def nameOf (entry : FlatCatalogEntry) : Option Name := flat.nameDictionary[entry.nameId]?

/-- Entries with one parent are sorted by name, and no two have one name. -/
def SiblingsSorted (entries : List FlatCatalogEntry) : Prop :=
  ∀ (i j : ℕ) (entry other : FlatCatalogEntry), i < j → entries[i]? = some entry →
    entries[j]? = some other → entry.flatParentIdx = other.flatParentIdx → ∃ name otherName,
      flat.nameOf entry = some name ∧ flat.nameOf other = some otherName ∧ name < otherName

/-! ## The tables -/

/-- The name of a table entry with the names of its schema and its database. -/
def tablePath (table : FlatCatalogEntry) : Option QualifiedTableName :=
  flat.schemas[table.flatParentIdx]?.bind fun schema =>
    flat.databases[schema.flatParentIdx]?.bind fun database =>
      (flat.nameOf database).bind fun databaseName =>
        (flat.nameOf schema).bind fun schemaName =>
          (flat.nameOf table).map fun tableName => ⟨databaseName, schemaName, tableName⟩

def columnsOf (table : FlatCatalogEntry) : List FlatCatalogEntry :=
  (flat.columns.drop table.childBegin).take table.childCount

/-- The entry is that of a table, with exactly the columns of the table. -/
structure Shows (entry : FlatCatalogEntry) (table : TableDeclaration) : Prop where
  catalogObjectId : entry.catalogObjectId = table.objectId.pack
  path : flat.tablePath entry = some table.tableName
  columnNames : (flat.columnsOf entry).map flat.nameOf = table.tableColumns.map some
  columnIds : (flat.columnsOf entry).map FlatCatalogEntry.catalogObjectId =
    List.range table.tableColumns.length

end FlatCatalog

section Tables

variable (tables : ∀ analyzed : AnalyzedScript, EntryTables analyzed) (catalog : Catalog)

/-- The table is the one of its name in the entry of the lowest rank that declares one. -/
def Effective (table : TableDeclaration) : Prop :=
  ∃ rank entryId analyzed, toLex (rank, entryId) ∈ catalog.entriesRanked ∧
    catalog.entries[entryId]? = some analyzed ∧
    (tables analyzed).findQualifiedName table.tableName = some table ∧
    ∀ rank' entryId' analyzed', toLex (rank', entryId') ∈ catalog.entriesRanked →
      catalog.entries[entryId']? = some analyzed' →
      (∃ other ∈ (tables analyzed').tableDeclarations, other.tableName = table.tableName) →
        toLex (rank, entryId) ≤ toLex (rank', entryId')

/-- A well-formed forest that shows, for every name of a declared table, the one that wins. -/
structure FlatCatalog.WellFormed (flat : FlatCatalog) : Prop where
  databasesNumbered : Numbered flat.databases
  schemasNumbered : Numbered flat.schemas
  tablesNumbered : Numbered flat.tables
  columnsNumbered : Numbered flat.columns
  schemasNested : Nested flat.databases flat.schemas
  tablesNested : Nested flat.schemas flat.tables
  columnsNested : Nested flat.tables flat.columns
  databasesSorted : flat.SiblingsSorted flat.databases
  schemasSorted : flat.SiblingsSorted flat.schemas
  tablesSorted : flat.SiblingsSorted flat.tables
  databasesById : IsIndex flat.databasesById flat.databases
  schemasById : IsIndex flat.schemasById flat.schemas
  tablesById : IsIndex flat.tablesById flat.tables
  effective : ∀ entry ∈ flat.tables, ∃ table, Effective tables catalog table ∧
    flat.Shows entry table
  declared : ∀ (entryId : CatalogEntryId) (analyzed : AnalyzedScript),
    catalog.entries[entryId]? = some analyzed → ∀ table ∈ (tables analyzed).tableDeclarations,
      ∃! i : ℕ, ∃ entry, flat.tables[i]? = some entry ∧ flat.tablePath entry = some table.tableName

end Tables

namespace FlatCatalog

/-! ## Rows -/

section Rows

variable {α β γ : Type} {objectId nameId : α → ℕ} {children : α → List β}
  {childObjectId childNameId : β → ℕ} {grandchildren : β → List γ} {level : List (ℕ × α)}

theorem numbered_rowsOf : Numbered (rowsOf objectId nameId children level) := by
  intro i entry hentry
  obtain ⟨parent, node, -, rfl⟩ := getElem?_rowsOf_iff.mp hentry
  rfl

theorem map_childCount_rowsOf :
    (rowsOf objectId nameId children level).map FlatCatalogEntry.childCount =
      (level.map Prod.snd).map fun node => (children node).length := by
  unfold rowsOf
  rw [map_map, map_map]
  conv_rhs => rw [← zipIdx_map_fst 0 level, map_map]
  rfl

theorem nested_rowsOf :
    Nested (rowsOf objectId nameId children level)
      (rowsOf childObjectId childNameId grandchildren
        (childLevel children (level.map Prod.snd))) where
  childBegin := by
    intro i parent hparent
    obtain ⟨_, node, -, rfl⟩ := getElem?_rowsOf_iff.mp hparent
    rw [map_take, map_childCount_rowsOf, ← map_take (l := level.map Prod.snd)]
    rfl
  total := by
    rw [map_childCount_rowsOf, length_rowsOf, length_childLevel]
    rfl
  parentIdx := by
    intro i child hchild
    obtain ⟨parent, found, hfound, rfl⟩ := getElem?_rowsOf_iff.mp hchild
    obtain ⟨node, k, hnode, hk, rfl⟩ := getElem?_childLevel_iff.mp hfound
    rw [getElem?_map, Option.map_eq_some_iff] at hnode
    obtain ⟨⟨grandparent, node'⟩, hentry, rfl⟩ := hnode
    refine ⟨_, getElem?_rowsOf_iff.mpr ⟨grandparent, node', hentry, rfl⟩, ?_, ?_⟩
    · exact Nat.le_add_right _ _
    · have hlt := (List.getElem?_eq_some_iff.mp hk).1
      dsimp only at hlt ⊢
      omega

theorem isIndex_rowsOf :
    IsIndex (sortById (indexRowsOf objectId level)) (rowsOf objectId nameId children level) where
  perm := by
    have hrows : (rowsOf objectId nameId children level).map
        (fun entry => (⟨entry.catalogObjectId, entry.flatEntryIdx⟩ : IndexedFlatEntry)) =
        indexRowsOf objectId level := by
      unfold rowsOf indexRowsOf
      rw [map_map]
      rfl
    rw [hrows]
    exact perm_insertionSort _ _
  sorted := pairwise_insertionSort _ _

/-- Two nodes with names in the dictionary that are in order. -/
def NamesLt (dictionary : List Name) (nameId : α → ℕ) (node other : α) : Prop :=
  ∃ name otherName, dictionary[nameId node]? = some name ∧
    dictionary[nameId other]? = some otherName ∧ name < otherName

theorem siblingsSorted_rowsOf {flat : FlatCatalog} {nodes : List α}
    (h : ∀ node ∈ nodes, (children node).Pairwise (NamesLt flat.nameDictionary childNameId)) :
    flat.SiblingsSorted (rowsOf childObjectId childNameId grandchildren
      (childLevel children nodes)) := by
  intro i j entry other hlt hentry hother hparent
  obtain ⟨parent, found, hfound, rfl⟩ := getElem?_rowsOf_iff.mp hentry
  obtain ⟨parent', found', hfound', rfl⟩ := getElem?_rowsOf_iff.mp hother
  obtain rfl : parent = parent' := hparent
  obtain ⟨node, k, hnode, hk, rfl⟩ := getElem?_childLevel_iff.mp hfound
  obtain ⟨node', k', hnode', hk', rfl⟩ := getElem?_childLevel_iff.mp hfound'
  obtain rfl := Option.some.inj (hnode.symm.trans hnode')
  have hlt : k < k' := by omega
  have hfirst := List.getElem?_eq_some_iff.mp hk
  have hsecond := List.getElem?_eq_some_iff.mp hk'
  have hnames := pairwise_iff_getElem.mp (h node (List.mem_of_getElem? hnode)) k k' hfirst.1
    hsecond.1 hlt
  rw [hfirst.2, hsecond.2] at hnames
  exact hnames

theorem SiblingsSorted.unique {flat : FlatCatalog} {entries : List FlatCatalogEntry}
    (h : flat.SiblingsSorted entries) {i j : ℕ} {entry other : FlatCatalogEntry}
    (hentry : entries[i]? = some entry) (hother : entries[j]? = some other)
    (hparent : entry.flatParentIdx = other.flatParentIdx)
    (hname : flat.nameOf entry = flat.nameOf other) : i = j := by
  by_contra hne
  rcases lt_or_gt_of_ne hne with hlt | hlt
  · obtain ⟨name, otherName, hnamed, hothernamed, hnames⟩ := h i j entry other hlt hentry hother hparent
    rw [hname, hothernamed] at hnamed
    exact hnames.ne' (Option.some.inj hnamed)
  · obtain ⟨name, otherName, hnamed, hothernamed, hnames⟩ :=
      h j i other entry hlt hother hentry hparent.symm
    rw [hname, hnamed] at hothernamed
    exact hnames.ne (Option.some.inj hothernamed)

end Rows

/-- The names on the way to a table. -/
theorem tablePath_eq_some_iff {flat : FlatCatalog} {table : FlatCatalogEntry}
    {name : QualifiedTableName} :
    flat.tablePath table = some name ↔
      ∃ schema database, flat.schemas[table.flatParentIdx]? = some schema ∧
        flat.databases[schema.flatParentIdx]? = some database ∧
        flat.nameOf database = some name.databaseName ∧
        flat.nameOf schema = some name.schemaName ∧ flat.nameOf table = some name.tableName := by
  unfold tablePath
  simp only [Option.bind_eq_some_iff, Option.map_eq_some_iff]
  constructor
  · rintro ⟨schema, hschema, database, hdatabase, _, hdatabaseName, _, hschemaName, _, htableName,
      rfl⟩
    exact ⟨schema, database, hschema, hdatabase, hdatabaseName, hschemaName, htableName⟩
  · rintro ⟨schema, database, hschema, hdatabase, hdatabaseName, hschemaName, htableName⟩
    exact ⟨schema, hschema, database, hdatabase, _, hdatabaseName, _, hschemaName, _, htableName, rfl⟩

theorem tablePath_unique {flat : FlatCatalog} (hdatabases : flat.SiblingsSorted flat.databases)
    (hroots : ∀ entry ∈ flat.databases, entry.flatParentIdx = 0)
    (hschemas : flat.SiblingsSorted flat.schemas) (htables : flat.SiblingsSorted flat.tables)
    {i j : ℕ} {entry other : FlatCatalogEntry} {name : QualifiedTableName}
    (hentry : flat.tables[i]? = some entry) (hother : flat.tables[j]? = some other)
    (hpath : flat.tablePath entry = some name) (hotherPath : flat.tablePath other = some name) :
    i = j := by
  obtain ⟨schema, database, hschema, hdatabase, hdatabaseName, hschemaName, htableName⟩ :=
    tablePath_eq_some_iff.mp hpath
  obtain ⟨schema', database', hschema', hdatabase', hdatabaseName', hschemaName', htableName'⟩ :=
    tablePath_eq_some_iff.mp hotherPath
  have hroot := hroots database (List.mem_of_getElem? hdatabase)
  have hroot' := hroots database' (List.mem_of_getElem? hdatabase')
  have hdatabaseIdx := hdatabases.unique hdatabase hdatabase' (hroot.trans hroot'.symm)
    (hdatabaseName.trans hdatabaseName'.symm)
  have hschemaIdx := hschemas.unique hschema hschema' hdatabaseIdx
    (hschemaName.trans hschemaName'.symm)
  exact htables.unique hentry hother hschemaIdx (htableName.trans htableName'.symm)

end FlatCatalog

end DashQL.Catalog
